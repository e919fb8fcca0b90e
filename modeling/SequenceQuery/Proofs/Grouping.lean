import SequenceQuery.Proofs.PhraseRules
import Mathlib.Data.List.Forall2

namespace SequenceQuery

open Phrase

namespace SqlExpr

def edges : SqlExpr → Edges
  | .binary op left right =>
    let l := if left.bindsLooser op false then .closed else left.edges
    let r := if right.bindsLooser op true then .closed else right.edges
    ⟨min op.level l.left, min (op.level + 1) r.right, op.level⟩
  | .unary .not operand =>
    ⟨12, min 4 (if operand.isBinary then Edges.closed else operand.edges).right, 0⟩
  | .unary .minus operand =>
    ⟨12, min 11 (if operand.isBinary then Edges.closed else operand.edges).right, 0⟩
  | .exist _ true => ⟨12, 4, 0⟩
  | .isNull operand _ =>
    ⟨min 4 (if operand.isBinary then Edges.closed else operand.edges).left, 12, 4⟩
  | .isIn operand _ _ => ⟨min 6 operand.edges.left, 12, 6⟩
  | _ => .closed

def edgesIn (e : SqlExpr) (parenthesized : Bool) : Edges :=
  if parenthesized then .closed else e.edges

/-- The left end of what stands to the right of an operator. Where it is a chain of that operator,
that of its first operand. -/
def leftBehind (op : SqlBinary) : SqlExpr → Nat
  | .binary op' left right =>
    if op' = op ∧ op.isAssociative then
      if left.bindsLooser op false then 12 else left.leftBehind op
    else (edges (.binary op' left right)).left
  | e => e.edges.left

/-- No operand of the expression is written so that operators beside it take it apart. -/
def keepsOperands : SqlExpr → Bool
  | .binary op left right =>
    let l := left.edgesIn (left.bindsLooser op false)
    op.level < l.right && !(Infix.isSingle op.level && l.top == op.level) &&
      (right.bindsLooser op true || op.level < right.leftBehind op)
  | .unary .not operand => 4 ≤ (operand.edgesIn operand.isBinary).left
  | .unary .minus operand => 11 ≤ (operand.edgesIn operand.isBinary).left
  | .isNull operand _ => 4 < (operand.edgesIn operand.isBinary).right
  | .isIn operand _ _ => 6 < operand.edges.right && operand.edges.top != 6
  | _ => true

end SqlExpr

namespace Token

section

variable (tokens more : List Token)

@[simp] theorem visible_nil : visible [] = [] := rfl

@[simp] theorem visible_append : visible (tokens ++ more) = visible tokens ++ visible more :=
  List.filter_append ..

@[simp] theorem visible_blank : visible (.blank :: tokens) = visible tokens := rfl

@[simp] theorem visible_word (s : String) :
    visible (.word s :: tokens) = .word s :: visible tokens := rfl

@[simp] theorem visible_symbol (s : String) :
    visible (.symbol s :: tokens) = .symbol s :: visible tokens := rfl

@[simp] theorem visible_operator (op : SqlBinary) :
    visible (op.token :: tokens) = op.token :: visible tokens := by
  cases op <;> rfl

@[simp] theorem visible_parens :
    visible (parens tokens) = .symbol "(" :: visible tokens ++ [.symbol ")"] := by
  simp [parens]

end

end Token

namespace Phrase

section UpTo

variable {tokens more : List Token} {edges : Edges} {meant p : Phrase} {ps qs : List Phrase}

/-- The tokens, blanks aside, are read as what is meant up to regrouping. -/
def MeansOne (tokens : List Token) (edges : Edges) (meant : Phrase) : Prop :=
  ∃ p, p.regrouped = meant.regrouped ∧ ReadAs (Token.visible tokens) edges p

def MeansSeveral (tokens : List Token) (meant : List Phrase) : Prop :=
  ∃ ps, allRegrouped ps = allRegrouped meant ∧ SeveralAs (Token.visible tokens) ps

def MeansBehind (op : SqlBinary) (tokens : List Token) (right : Nat) (meant : Phrase) : Prop :=
  ∃ f, (∀ left, (f left).regrouped = combine op left.regrouped meant.regrouped) ∧
    Extends op (Token.visible tokens) right f

theorem allRegrouped_append (ps qs : List Phrase) :
    allRegrouped (ps ++ qs) = allRegrouped ps ++ allRegrouped qs := by
  induction ps with
  | nil => rfl
  | cons p ps ih => simp [allRegrouped, ih]

/-- Putting phrases behind one another in a chain of one operator does not depend on the order. -/
theorem attach_attach (op : SqlBinary) (a b : Phrase) : ∀ c : Phrase,
    attach op (attach op a b) c = attach op a (attach op b c)
  | .leaf _ | .node .. => by simp [attach]
  | .binary op' c d => by
    by_cases h : op' = op
    · subst h
      simp [attach, attach_attach op' a b c]
    · simp [attach, h]

theorem combine_combine {op : SqlBinary} (h : op.isAssociative) (a b c : Phrase) :
    combine op (combine op a b) c = combine op a (combine op b c) := by
  simp only [combine, h, if_true]
  exact attach_attach op a b c

theorem MeansOne.leaf {t : Token} {ts : List Token} (hts : Token.visible tokens = t :: ts)
    (hopens : t.closes = false ∧ t.separates = false)
    (hstep : ∀ n rest, joining rest < 12 →
      operand (n + 1) (t :: ts ++ rest) = some (.leaf (t :: ts), rest)) :
    MeansOne tokens .closed (.leaf (t :: ts)) := by
  refine ⟨_, rfl, ?_⟩
  rw [hts]
  refine readAs_operand ⟨t, ts, rfl, hopens⟩ fun rest hrest => .succ ?_
  simp only [hstep _ rest hrest]
  exact .const

theorem operand_ident (c : String) (n : Nat) {rest : List Token} (h : joining rest < 12) :
    operand (n + 1) (.ident c :: rest) = some (.leaf [.ident c], rest) := by
  cases rest with
  | nil => rfl
  | cons t rest =>
    cases t with
    | symbol s =>
      have hdot : s ≠ "." := by
        rintro rfl
        exact absurd h (Nat.lt_irrefl 12)
      simp [operand, hdot]
    | _ => rfl

theorem MeansOne.name (qualifier : Option String) (c : String) :
    MeansOne (Token.qualified qualifier c) .closed (Phrase.name qualifier c) := by
  cases qualifier with
  | none => exact .leaf rfl ⟨rfl, rfl⟩ fun n rest hrest => operand_ident c n hrest
  | some q => exact .leaf rfl ⟨rfl, rfl⟩ fun _ _ _ => rfl

theorem MeansOne.value (value : Value) :
    MeansOne [value.token] .closed (.leaf [value.token]) := by
  cases value with
  | bool b => cases b <;> exact .leaf rfl ⟨rfl, rfl⟩ fun _ _ _ => rfl
  | _ => exact .leaf rfl ⟨rfl, rfl⟩ fun _ _ _ => rfl

theorem MeansOne.param (source : Source) :
    MeansOne [.placeholder source] .closed (.leaf [.placeholder source]) :=
  .leaf rfl ⟨rfl, rfl⟩ fun _ _ _ => rfl

theorem MeansOne.star : MeansOne [.symbol "*"] .closed (.leaf [.symbol "*"]) :=
  .leaf rfl ⟨rfl, rfl⟩ fun _ _ _ => rfl

theorem MeansOne.true : MeansOne [.word "TRUE"] .closed (.leaf [.word "TRUE"]) :=
  .leaf rfl ⟨rfl, rfl⟩ fun _ _ _ => rfl

variable {op : SqlBinary} {right right' : Nat} {meant' : Phrase} {edges' : Edges}

theorem MeansBehind.of_one (h : MeansOne tokens edges meant) (hlevel : op.level < edges.left) :
    MeansBehind op tokens (min (op.level + 1) edges.right) meant := by
  obtain ⟨p, hp, hread⟩ := h
  refine ⟨_, fun left => ?_, .of_readAs hread hlevel⟩
  rw [regrouped, hp]

theorem isSingle_of_isAssociative (h : op.isAssociative) : Infix.isSingle op.level = false := by
  cases op <;> first | rfl | cases h

/-- A chain of an operator that associates is read from the left, whichever way it was built. -/
theorem MeansBehind.chain (h : MeansBehind op tokens right meant)
    (h' : MeansBehind op more right' meant') (hop : op.isAssociative) (hlevel : op.level < right) :
    MeansBehind op (tokens ++ [.blank, op.token, .blank] ++ more) right'
      (.binary op meant meant') := by
  obtain ⟨f, hf, hread⟩ := h
  obtain ⟨g, hg, hread'⟩ := h'
  refine ⟨g ∘ f, fun left => ?_, ?_⟩
  · rw [Function.comp_apply, hg, hf, combine_combine hop, regrouped]
  · have hboth := hread.trans hread' (isSingle_of_isAssociative hop) hlevel
    simpa using hboth

theorem MeansOne.binary (h : MeansOne tokens edges meant) (h' : MeansBehind op more right meant')
    (hlevel : op.level < edges.right) (hsingle : Infix.isSingle op.level → edges.top ≠ op.level) :
    MeansOne (tokens ++ [.blank, op.token, .blank] ++ more)
      ⟨min op.level edges.left, right, op.level⟩ (.binary op meant meant') := by
  obtain ⟨p, hp, hread⟩ := h
  obtain ⟨f, hf, hread'⟩ := h'
  refine ⟨f p, ?_, ?_⟩
  · rw [hf, hp, regrouped]
  · have hboth := hread.binary hread' hlevel hsingle
    simpa using hboth

theorem MeansOne.not (h : MeansOne tokens edges meant) (hleft : 4 ≤ edges.left) :
    MeansOne (.word "NOT" :: .blank :: tokens) ⟨12, min 4 edges.right, 0⟩
      (.node [.word "NOT"] [meant]) := by
  obtain ⟨p, hp, hread⟩ := h
  refine ⟨.node [.word "NOT"] [p], ?_, hread.not hleft⟩
  simp only [regrouped, allRegrouped, hp]

theorem MeansOne.minus (h : MeansOne tokens edges meant) (hleft : 11 ≤ edges.left) :
    MeansOne (.symbol "-" :: tokens) ⟨12, min 11 edges.right, 0⟩
      (.node [.symbol "-"] [meant]) := by
  obtain ⟨p, hp, hread⟩ := h
  refine ⟨.node [.symbol "-"] [p], ?_, hread.minus hleft⟩
  simp only [regrouped, allRegrouped, hp]

theorem visible_isNullHead (negated : Bool) : Token.visible (.blank ::
    Token.words (if negated then ["IS", "NOT", "NULL"] else ["IS", "NULL"])) =
      Infix.isNullHead negated := by
  cases negated <;> rfl

theorem visible_isInHead (negated : Bool) : Token.visible (.blank ::
    Token.words (if negated then ["NOT", "IN"] else ["IN"])) = Infix.isInHead negated := by
  cases negated <;> rfl

theorem MeansOne.isNull (h : MeansOne tokens edges meant) (negated : Bool)
    (hlevel : 4 < edges.right) :
    MeansOne (tokens ++ .blank ::
      Token.words (if negated then ["IS", "NOT", "NULL"] else ["IS", "NULL"]))
      ⟨min 4 edges.left, 12, 4⟩ (.node (Infix.isNullHead negated) [meant]) := by
  obtain ⟨p, hp, hread⟩ := h
  refine ⟨.node (Infix.isNullHead negated) [p], ?_, ?_⟩
  · simp only [regrouped, allRegrouped, hp]
  · rw [Token.visible_append, visible_isNullHead]
    exact hread.isNull negated hlevel

theorem MeansOne.isIn (h : MeansOne tokens edges meant) (hquery : MeansSeveral more ps)
    (negated : Bool) (hlevel : 6 < edges.right) (htop : edges.top ≠ 6) :
    MeansOne (tokens ++ .blank :: Token.words (if negated then ["NOT", "IN"] else ["IN"]) ++
      .blank :: Token.parens more)
      ⟨min 6 edges.left, 12, 6⟩ (.node (Infix.isInHead negated) [meant, .node [] ps]) := by
  obtain ⟨p, hp, hread⟩ := h
  obtain ⟨qs, hqs, hseveral⟩ := hquery
  refine ⟨.node (Infix.isInHead negated) [p, .node [] qs], ?_, ?_⟩
  · simp only [regrouped, allRegrouped, hp, hqs]
  · have hboth := hread.isIn hseveral negated hlevel htop
    rw [Token.visible_append, Token.visible_append, visible_isInHead]
    simpa using hboth

section Several

theorem MeansSeveral.nil : MeansSeveral [] [] := ⟨[], rfl, .nil⟩

theorem MeansOne.several (h : MeansOne tokens edges meant) (hright : 0 < edges.right) :
    MeansSeveral tokens [meant] := by
  obtain ⟨p, hp, hread⟩ := h
  exact ⟨[p], by simp only [allRegrouped, hp], hread.several hright⟩

theorem MeansSeveral.separator (h : MeansSeveral tokens ps) {t : Token} (ht : t.separates) :
    MeansSeveral (t :: tokens) (.leaf [t] :: ps) := by
  obtain ⟨qs, hqs, hread⟩ := h
  have hvisible : Token.visible (t :: tokens) = t :: Token.visible tokens := by
    cases t <;> first | rfl | cases ht
  refine ⟨.leaf [t] :: qs, by simp only [allRegrouped, hqs], ?_⟩
  rw [hvisible]
  exact hread.separator ht

theorem MeansSeveral.blank (h : MeansSeveral tokens ps) : MeansSeveral (.blank :: tokens) ps := h

theorem MeansSeveral.append (h : MeansSeveral tokens ps) (h' : MeansSeveral more qs)
    (hapart : Apart (Token.visible more)) : MeansSeveral (tokens ++ more) (ps ++ qs) := by
  obtain ⟨ps', hps, hread⟩ := h
  obtain ⟨qs', hqs, hread'⟩ := h'
  refine ⟨ps' ++ qs', by rw [allRegrouped_append, allRegrouped_append, hps, hqs], ?_⟩
  rw [Token.visible_append]
  exact hread.append hread' hapart

theorem MeansSeveral.keywords (h : MeansSeveral tokens ps) {ws : List String}
    (hws : ∀ w ∈ ws, (Token.word w).separates) :
    MeansSeveral (Token.words ws ++ .blank :: tokens) (Phrase.keywords ws ++ ps) := by
  induction ws with
  | nil => exact h
  | cons w ws ih =>
    obtain ⟨hw, hws⟩ := List.forall_mem_cons.1 hws
    have hrest := ih hws
    cases ws with
    | nil => exact hrest.blank.separator hw
    | cons => exact hrest.blank.separator hw

theorem apart_words {w : String} {ws : List String} (hw : (Token.word w).separates)
    (tokens : List Token) : Phrase.Apart (Token.visible (Token.words (w :: ws) ++ tokens)) := by
  cases ws with
  | nil => exact apart_separator hw
  | cons => exact apart_separator hw

theorem MeansSeveral.commas {items : List (List Token)} {meant : List (List Phrase)}
    (h : List.Forall₂ MeansSeveral items meant) :
    MeansSeveral (Token.commaList items) (Phrase.commas meant) := by
  induction h with
  | nil => exact .nil
  | @cons item ps items meant hitem hrest ih =>
    cases hrest with
    | nil => exact hitem
    | cons =>
      have hcomma := ih.blank.separator (t := .symbol ",") rfl
      exact hitem.append hcomma (apart_separator rfl)

theorem MeansSeveral.parens (h : MeansSeveral tokens ps) (head : List Token)
    {made : List Phrase → Phrase}
    (hregroup : ∀ qs, allRegrouped qs = allRegrouped ps → (made qs).regrouped = (made ps).regrouped)
    (hopens : ∃ t more, Token.visible head ++ [.symbol "("] = t :: more ∧ t.closes = false ∧
      t.separates = false)
    (hstep : ∀ n more, operand (n + 1) (Token.visible head ++ .symbol "(" :: more) =
      ((Phrase.several n more).bind (closedBy (.symbol ")"))).bind fun x => some (made x.1, x.2)) :
    MeansOne (head ++ Token.parens tokens) .closed (made ps) := by
  obtain ⟨qs, hqs, hread⟩ := h
  refine ⟨made qs, hregroup qs hqs, ?_⟩
  have hbetween := hread.between _ (.symbol ")") made rfl hopens fun n more => by
    rw [List.append_assoc]
    exact hstep n more
  simpa using hbetween

theorem MeansOne.parens (h : MeansOne tokens edges meant) (hright : 0 < edges.right) :
    MeansOne (Token.parens tokens) .closed meant := by
  obtain ⟨p, hp, hread⟩ := h
  refine ⟨p, hp, ?_⟩
  have hbetween := (hread.several hright).between [.symbol "("] (.symbol ")") grouped rfl
    ⟨_, _, rfl, rfl, rfl⟩ fun _ _ => rfl
  simpa [grouped] using hbetween

theorem MeansOne.parensIf (h : MeansOne tokens edges meant) (hright : 0 < edges.right)
    (wrap : Bool) :
    MeansOne (Token.parensIf wrap tokens) (if wrap then .closed else edges) meant := by
  cases wrap with
  | false => exact h
  | true => exact h.parens hright

theorem MeansOne.enclosed (h : MeansSeveral tokens ps) (head : List Token) {t : Token}
    (hvisible : Token.visible head = [t]) (hopens : t.closes = false ∧ t.separates = false)
    (hstep : ∀ n more, operand (n + 1) (t :: .symbol "(" :: more) =
      ((Phrase.several n more).bind (closedBy (.symbol ")"))).bind fun x =>
        some (.node [t] x.1, x.2)) :
    MeansOne (head ++ Token.parens tokens) .closed (.node [t] ps) := by
  refine h.parens head (fun qs hqs => ?_) ?_ ?_
  · rw [regrouped, regrouped, hqs]
  · rw [hvisible]
    exact ⟨t, _, rfl, hopens⟩
  · rw [hvisible]
    exact hstep

theorem MeansOne.call (h : MeansSeveral tokens ps) (f : String) :
    MeansOne (.routine f :: Token.parens tokens) .closed (.node [.routine f] ps) :=
  .enclosed h [.routine f] rfl ⟨rfl, rfl⟩ fun _ _ => rfl

theorem MeansOne.cast (h : MeansSeveral tokens ps) :
    MeansOne (.word "CAST" :: Token.parens tokens) .closed (.node [.word "CAST"] ps) :=
  .enclosed h [.word "CAST"] rfl ⟨rfl, rfl⟩ fun _ _ => rfl

theorem MeansOne.exist (h : MeansSeveral tokens ps) :
    MeansOne (Token.words ["EXISTS"] ++ .blank :: Token.parens tokens) .closed
      (.node [.word "EXISTS"] ps) := by
  have hexist := MeansOne.enclosed h [.word "EXISTS", .blank] rfl ⟨rfl, rfl⟩
    fun _ _ => rfl
  exact hexist

theorem MeansOne.statement (h : MeansSeveral tokens ps) (hmany : ps.length ≠ 1) :
    MeansOne (Token.parens tokens) .closed (.node [] ps) := by
  have node : ∀ qs : List Phrase, qs.length ≠ 1 → grouped qs = .node [] qs := by
    intro qs hqs
    match qs, hqs with
    | [], _ => rfl
    | _ :: _ :: _, _ => rfl
  have length : ∀ qs : List Phrase, (allRegrouped qs).length = qs.length := by
    intro qs
    induction qs with
    | nil => rfl
    | cons q qs ih => simp [allRegrouped, ih]
  rw [← node ps hmany]
  refine h.parens [] (fun qs hqs => ?_) ⟨_, _, rfl, rfl, rfl⟩ fun _ _ => rfl
  have hlength : qs.length ≠ 1 := by rwa [← length, hqs, length]
  rw [node ps hmany, node qs hlength, regrouped, regrouped, hqs]

theorem MeansOne.cases (h : MeansSeveral tokens ps) :
    MeansOne (.word "CASE" :: tokens ++ [.blank, .word "END"]) .closed
      (.node [.word "CASE"] ps) := by
  obtain ⟨qs, hqs, hread⟩ := h
  refine ⟨.node [.word "CASE"] qs, by rw [regrouped, regrouped, hqs], ?_⟩
  have hbetween := hread.between [.word "CASE"] (.word "END") (.node [.word "CASE"]) rfl
    ⟨_, _, rfl, rfl, rfl⟩ fun _ _ => rfl
  simpa using hbetween

theorem MeansSeveral.words {ws : List String} (hws : ∀ w ∈ ws, (Token.word w).separates) :
    MeansSeveral (Token.words ws) (Phrase.keywords ws) := by
  have hall := MeansSeveral.nil.keywords hws
  rw [List.append_nil] at hall
  obtain ⟨qs, hqs, hread⟩ := hall
  refine ⟨qs, hqs, ?_⟩
  simpa using hread

theorem MeansSeveral.labelled (h : MeansSeveral tokens ps) (label : String) :
    MeansSeveral (Token.labelled tokens label) (Phrase.labelled ps label) := by
  have hname : MeansSeveral [.ident label] [Phrase.name none label] :=
    (MeansOne.name none label).several (by decide)
  have hlabel := (hname.blank.separator (t := .word "AS") rfl).blank
  exact h.append hlabel (apart_separator rfl)

theorem MeansSeveral.orElse {body : Option (List Token)} {meant : Option (List Phrase)}
    (h : Option.Rel MeansSeveral body meant) (h' : MeansSeveral tokens ps) :
    MeansSeveral (body.getD tokens) (meant.getD ps) := by
  cases h with
  | none => exact h'
  | some h => exact h

structure MeansPart (tokens : List Token) (meant : List Phrase) : Prop where
  several : MeansSeveral tokens meant
  apart : Apart (Token.visible tokens)

theorem MeansPart.nil : MeansPart [] [] := ⟨.nil, apart_nil⟩

theorem MeansSeveral.beside (h : MeansSeveral tokens ps) (h' : MeansPart more qs) :
    MeansSeveral (tokens ++ more) (ps ++ qs) :=
  h.append h'.several h'.apart

theorem MeansPart.append (h : MeansPart tokens ps) (h' : MeansPart more qs) :
    MeansPart (tokens ++ more) (ps ++ qs) where
  several := h.several.beside h'
  apart := by
    rw [Token.visible_append]
    exact h.apart.append h'.apart

theorem MeansPart.clause (w : String) (ws : List String) {body : Option (List Token)}
    {meant : Option (List Phrase)} (h : Option.Rel MeansSeveral body meant)
    (hws : (w :: ws).all fun w' => (Token.word w').separates) :
    MeansPart (Token.clause (w :: ws) body) (Phrase.clause (w :: ws) meant) := by
  have hwords := List.all_eq_true.1 hws
  cases h with
  | none => exact .nil
  | some h => exact ⟨(h.keywords hwords).blank, apart_words (hwords w List.mem_cons_self) _⟩

theorem MeansPart.listClause (w : String) (ws : List String) {items : List (List Token)}
    {meant : List (List Phrase)} (h : List.Forall₂ MeansSeveral items meant)
    (hws : (w :: ws).all fun w' => (Token.word w').separates) :
    MeansPart (Token.listClause (w :: ws) items) (Phrase.listClause (w :: ws) meant) := by
  have hcommas := MeansSeveral.commas h
  cases h with
  | nil => exact .nil
  | cons => exact .clause w ws (.some hcommas) hws

end Several

end UpTo

end Phrase

namespace SqlExpr

theorem right_pos : ∀ e : SqlExpr, 0 < e.edges.right
  | .binary op _ right => by
    have hright := right_pos right
    refine Nat.lt_min.2 ⟨Nat.succ_pos _, ?_⟩
    split
    · exact Nat.succ_pos _
    · exact hright
  | .unary .not operand | .unary .minus operand => by
    have hoperand := right_pos operand
    refine Nat.lt_min.2 ⟨Nat.succ_pos _, ?_⟩
    split
    · exact Nat.succ_pos _
    · exact hoperand
  | .exist _ negated => by cases negated <;> exact Nat.succ_pos _
  | .isNull .. | .isIn .. | .column .. | .literal _ | .param _ | .function .. | .aggregate ..
  | .cases .. | .subquery _ | .wildcard | .nested _ => Nat.succ_pos _

/-- An expression is read as it is meant, by itself and behind an operator. What an operator takes
from behind it may be less than the whole, so the second is not a case of the first. -/
structure Means (e : SqlExpr) : Prop where
  one : MeansOne e.tokens e.edges e.phrase
  behind : ∀ op, op.level < e.leftBehind op →
    MeansBehind op e.tokens (min (op.level + 1) e.edges.right) e.phrase

namespace Means

variable {e left right operand : SqlExpr} {op : SqlBinary}

theorem of_one (h : MeansOne e.tokens e.edges e.phrase)
    (hbehind : ∀ op, e.leftBehind op = e.edges.left) : e.Means where
  one := h
  behind op hlevel := .of_one h (hbehind op ▸ hlevel)

theorem several (h : e.Means) : MeansSeveral e.tokens [e.phrase] := h.one.several e.right_pos

theorem oneIf (h : e.Means) (wrap : Bool) :
    MeansOne (Token.parensIf wrap e.tokens) (e.edgesIn wrap) e.phrase :=
  h.one.parensIf e.right_pos wrap

theorem behindIf (h : e.Means) (wrap : Bool) (hlevel : wrap ∨ op.level < e.leftBehind op) :
    MeansBehind op (Token.parensIf wrap e.tokens) (min (op.level + 1) (e.edgesIn wrap).right)
      e.phrase := by
  cases wrap with
  | false => exact h.behind op (by simpa using hlevel)
  | true =>
    have htight : op.level < 12 := by cases op <;> decide
    exact .of_one (h.oneIf true) htight

theorem binary (hl : left.Means) (hr : right.Means)
    (h : (SqlExpr.binary op left right).keepsOperands) : (SqlExpr.binary op left right).Means := by
  simp only [keepsOperands, Bool.and_eq_true, Bool.or_eq_true, Bool.not_eq_true',
    Bool.and_eq_false_iff, decide_eq_true_eq, beq_eq_false_iff_ne] at h
  obtain ⟨⟨hlevel, hsingle⟩, hright⟩ := h
  have hbehind := hr.behindIf _ hright
  have hone : MeansOne (SqlExpr.binary op left right).tokens (SqlExpr.binary op left right).edges
      (.binary op left.phrase right.phrase) := by
    refine (hl.oneIf _).binary hbehind hlevel fun hs => ?_
    exact hsingle.resolve_left (by simp [hs])
  refine ⟨hone, fun op' hop' => ?_⟩
  -- Behind the same operator the chain goes on, and only its first operand stands to the right.
  by_cases hsame : op = op' ∧ op'.isAssociative
  · obtain ⟨rfl, hmany⟩ := hsame
    have hleft : left.bindsLooser op false ∨ op.level < left.leftBehind op := by
      by_cases hw : left.bindsLooser op false
      · exact .inl hw
      · rw [leftBehind, if_pos ⟨rfl, hmany⟩, if_neg hw] at hop'
        exact .inr hop'
    have hfirst := hl.behindIf _ hleft
    have hchain := hfirst.chain hbehind hmany (Nat.lt_min.2 ⟨Nat.lt_succ_self _, hlevel⟩)
    have hright : min (op.level + 1) (SqlExpr.binary op left right).edges.right =
        min (op.level + 1) (right.edgesIn (right.bindsLooser op true)).right := by
      show min _ (min _ (right.edgesIn (right.bindsLooser op true)).right) = _
      omega
    rw [hright]
    exact hchain
  · rw [leftBehind, if_neg hsame] at hop'
    exact .of_one hone hop'

end Means

end SqlExpr

section Reading

abbrev Kept (pieces : List Piece) : Prop := AllHold (fun e => e.keepsOperands) pieces

theorem kept_of_cons {e : SqlExpr} {ps : List Piece} (h : Kept (.expr e :: ps)) :
    e.keepsOperands ∧ Kept ps := by
  obtain ⟨rfl | he, hps⟩ := allHold_of_cons h
  · exact ⟨rfl, hps⟩
  · exact ⟨he, hps⟩

open SqlExpr

theorem Select.length_phrases (s : Select) : s.phrases.length ≠ 1 := by
  obtain ⟨distinct, items, source, joins, filter, groupBy, having, orderBy, limit, offset, _⟩ := s
  have hhead : 0 < (keywords (if distinct then ["SELECT", "DISTINCT"] else ["SELECT"])).length := by
    cases distinct <;> exact Nat.succ_pos _
  have hcommas : ∀ (item : List Phrase) (rest : List (List Phrase)), 0 < item.length →
      0 < (commas (item :: rest)).length := by
    intro item rest hitem
    cases rest with
    | nil => exact hitem
    | cons =>
      simp only [commas, List.length_append]
      omega
  have hitems : 0 < (if items.isEmpty then [Phrase.leaf [.symbol "*"]]
      else commas (itemPhrases items)).length := by
    cases items with
    | nil => exact Nat.succ_pos _
    | cons item rest =>
      cases item with
      | wildcard => exact hcommas _ _ (Nat.succ_pos _)
      | expr e label => cases label <;> exact hcommas _ _ (Nat.succ_pos _)
  simp only [Select.phrases, List.length_append]
  omega

mutual

theorem Select.means : ∀ s : Select, Kept s.pieces → MeansSeveral s.tokens s.phrases
  | ⟨distinct, items, source, joins, filter, groupBy, having, orderBy, limit, offset, _⟩ => by
    intro h
    simp only [Select.pieces, allHold_append] at h
    obtain ⟨⟨⟨⟨⟨⟨⟨⟨hitems, hsource⟩, hjoins⟩, hfilter⟩, hgroups⟩, hhaving⟩, hkeys⟩, hlimit⟩,
      hoffset⟩ := h
    have hhead : MeansSeveral (Token.words (if distinct then ["SELECT", "DISTINCT"] else ["SELECT"])
        ++ .blank :: (if items.isEmpty then [.symbol "*"] else Token.commaList (itemTokens items)))
        (keywords (if distinct then ["SELECT", "DISTINCT"] else ["SELECT"]) ++
          (if items.isEmpty then [.leaf [.symbol "*"]] else commas (itemPhrases items))) := by
      refine MeansSeveral.keywords ?_ ?_
      · cases items with
        | nil => exact MeansOne.star.several (Nat.succ_pos _)
        | cons item rest => exact .commas (itemsMean (item :: rest) hitems)
      · cases distinct <;> exact List.all_eq_true.1 rfl
    have hfrom := MeansPart.clause "FROM" [] (sourceMeans source hsource) rfl
    have hwhere := MeansPart.clause "WHERE" [] (optionMeans filter hfilter) rfl
    have hgroup := MeansPart.listClause "GROUP" ["BY"] (listMeans groupBy hgroups) rfl
    have having := MeansPart.clause "HAVING" [] (optionMeans having hhaving) rfl
    have horder := MeansPart.listClause "ORDER" ["BY"] (keysMean orderBy hkeys) rfl
    have hlimit := MeansPart.clause "LIMIT" [] (optionMeans limit hlimit) rfl
    have hoffset := MeansPart.clause "OFFSET" [] (optionMeans offset hoffset) rfl
    have hall := (((((((hhead.beside hfrom).beside (joinsMean joins hjoins)).beside hwhere).beside
      hgroup).beside having).beside horder).beside hlimit).beside hoffset
    simpa only [Select.tokens, Select.phrases, List.append_assoc, List.cons_append] using hall

theorem itemsMean : ∀ items : List SelectItem, Kept (itemPieces items) →
    List.Forall₂ MeansSeveral (itemTokens items) (itemPhrases items)
  | [], _ => .nil
  | .wildcard :: rest, h => .cons (MeansOne.star.several (Nat.succ_pos _)) (itemsMean rest h)
  | .expr e none :: rest, h => by
    obtain ⟨he, hrest⟩ := allHold_append.1 h
    have hone := e.means (allHold_append.1 he).1
    exact .cons hone.several (itemsMean rest hrest)
  | .expr e (some label) :: rest, h => by
    obtain ⟨he, hrest⟩ := allHold_append.1 h
    have hone := e.means (allHold_append.1 he).1
    exact .cons (hone.several.labelled label) (itemsMean rest hrest)

theorem Table.means : ∀ t : Table, Kept t.pieces → MeansSeveral t.tokens t.phrases
  | .table schema name label, _ =>
    ((MeansOne.name schema name).several (Nat.succ_pos _)).labelled label
  | .subquery query label, h => by
    have hquery := query.means (allHold_append.1 h).1
    have hone := MeansOne.statement hquery query.length_phrases
    exact (hone.several (Nat.succ_pos _)).labelled label

theorem sourceMeans : ∀ t : Option Table, Kept (sourcePieces t) →
    Option.Rel MeansSeveral (sourceTokens t) (sourcePhrases t)
  | none, _ => .none
  | some t, h => .some (t.means h)

theorem joinsMean : ∀ joins : List Join, Kept (joinPieces joins) →
    MeansPart (joinTokens joins) (joinPhrases joins)
  | [], _ => .nil
  | ⟨kind, table, condition⟩ :: rest, h => by
    simp only [joinPieces, allHold_append] at h
    obtain ⟨⟨htable, hcondition⟩, hrest⟩ := h
    have htest := MeansSeveral.orElse (optionMeans condition hcondition)
      (MeansOne.true.several (Nat.succ_pos _))
    have hon := MeansPart.clause "ON" [] (.some htest) rfl
    have htable := Option.Rel.some (table.means htable)
    have hjoins := hon.append (joinsMean rest hrest)
    cases kind with
    | inner =>
      have hall := (MeansPart.clause "JOIN" [] htable rfl).append hjoins
      simpa [joinTokens, joinPhrases] using hall
    | left =>
      have hall := (MeansPart.clause "LEFT" ["JOIN"] htable rfl).append hjoins
      simpa [joinTokens, joinPhrases] using hall

theorem keysMean : ∀ keys : List SortKey, Kept (keyPieces keys) →
    List.Forall₂ MeansSeveral (keyTokens keys) (keyPhrases keys)
  | [], _ => .nil
  | ⟨e, ascending⟩ :: rest, h => by
    obtain ⟨he, hrest⟩ := allHold_append.1 h
    have hone := (e.means he).several
    refine .cons ?_ (keysMean rest hrest)
    cases ascending with
    | true => exact hone
    | false =>
      have hdesc := (MeansSeveral.nil.separator (t := .word "DESC") rfl).blank
      exact hone.append hdesc (apart_separator rfl)

theorem optionMeans : ∀ e : Option SqlExpr, Kept (optionPieces e) →
    Option.Rel MeansSeveral (optionTokens e) (optionPhrases e)
  | none, _ => .none
  | some e, h => .some (e.means h).several

theorem listMeans : ∀ es : List SqlExpr, Kept (listPieces es) →
    List.Forall₂ MeansSeveral (listTokens es) (listPhrases es)
  | [], _ => .nil
  | e :: rest, h => by
    obtain ⟨he, hrest⟩ := allHold_append.1 h
    exact .cons (e.means he).several (listMeans rest hrest)

theorem armsMean : ∀ arms : List (SqlExpr × SqlExpr), Kept (armPieces arms) →
    MeansPart (armTokens arms) (armPhrases arms)
  | [], _ => .nil
  | (test, value) :: rest, h => by
    simp only [armPieces, allHold_append] at h
    obtain ⟨⟨htest, hvalue⟩, hrest⟩ := h
    have hwhen := MeansPart.clause "WHEN" [] (.some (test.means htest).several) rfl
    have hthen := MeansPart.clause "THEN" [] (.some (value.means hvalue).several) rfl
    exact (hwhen.append hthen).append (armsMean rest hrest)

theorem SqlExpr.means : ∀ e : SqlExpr, Kept e.pieces → e.Means
  | .column table c, _ => .of_one (.name table c) fun _ => rfl
  | .literal value, _ => .of_one (.value value) fun _ => rfl
  | .param source, _ => .of_one (.param source) fun _ => rfl
  | .wildcard, _ => .of_one .star fun _ => rfl
  | .nested inner, h => by
    obtain ⟨-, hinner⟩ := kept_of_cons h
    have hone := inner.means hinner
    exact .of_one (hone.one.parens inner.right_pos) fun _ => rfl
  | .binary op left right, h => by
    obtain ⟨hkept, h⟩ := kept_of_cons h
    obtain ⟨hl, hr⟩ := allHold_append.1 h
    exact (left.means hl).binary (right.means hr) hkept
  | .unary .not operand, h => by
    obtain ⟨hkept, h⟩ := kept_of_cons h
    have hone := (operand.means h).oneIf operand.isBinary
    exact .of_one (hone.not (of_decide_eq_true hkept)) fun _ => rfl
  | .unary .minus operand, h => by
    obtain ⟨hkept, h⟩ := kept_of_cons h
    have hone := (operand.means h).oneIf operand.isBinary
    exact .of_one (hone.minus (of_decide_eq_true hkept)) fun _ => rfl
  | .isNull operand negated, h => by
    obtain ⟨hkept, h⟩ := kept_of_cons h
    have hone := (operand.means h).oneIf operand.isBinary
    exact .of_one (hone.isNull negated (of_decide_eq_true hkept)) fun _ => rfl
  | .isIn operand query negated, h => by
    obtain ⟨hkept, h⟩ := kept_of_cons h
    obtain ⟨ho, hq⟩ := allHold_append.1 h
    simp only [keepsOperands, Bool.and_eq_true, decide_eq_true_eq, bne_iff_ne] at hkept
    have hone := (operand.means ho).one
    exact .of_one (hone.isIn (query.means hq) negated hkept.1 hkept.2) fun _ => rfl
  | .subquery query, h => by
    obtain ⟨-, h⟩ := kept_of_cons h
    exact .of_one (.statement (query.means h) query.length_phrases) fun _ => rfl
  | .exist query negated, h => by
    obtain ⟨-, h⟩ := kept_of_cons h
    have hexist := MeansOne.exist (query.means h)
    cases negated with
    | false => exact .of_one hexist fun _ => rfl
    | true => exact .of_one (hexist.not (by decide)) fun _ => rfl
  | .function f args, h => by
    obtain ⟨-, h⟩ := kept_of_cons h
    have hargs := MeansSeveral.commas (listMeans args h)
    exact .of_one (.call hargs f) fun _ => rfl
  | .aggregate f args distinct, h => by
    obtain ⟨-, h⟩ := kept_of_cons h
    have hargs := MeansSeveral.commas (listMeans args h)
    have hcall : MeansOne (.routine f :: Token.parens ((if distinct then
        [.word "DISTINCT", .blank] else []) ++ Token.commaList (listTokens args))) .closed
        (.node [.routine f] (keywords (if distinct then ["DISTINCT"] else []) ++
          commas (listPhrases args))) := by
      refine .call ?_ f
      cases distinct with
      | false => exact hargs
      | true => exact hargs.blank.separator (t := .word "DISTINCT") rfl
    refine .of_one ?_ fun _ => rfl
    simp only [SqlExpr.tokens, SqlExpr.phrase]
    split
    · have htype : MeansPart (.blank :: Token.words ["AS", "DOUBLE", "PRECISION"])
          (keywords ["AS", "DOUBLE", "PRECISION"]) :=
        ⟨(MeansSeveral.words (List.all_eq_true.1 rfl)).blank, apart_separator rfl⟩
      exact .cast ((hcall.several (Nat.succ_pos _)).beside htype)
    · exact hcall
  | .cases arms otherwise, h => by
    obtain ⟨-, h⟩ := kept_of_cons h
    obtain ⟨harms, hotherwise⟩ := allHold_append.1 h
    have helse := MeansPart.clause "ELSE" [] (optionMeans otherwise hotherwise) rfl
    have hcases := MeansOne.cases ((armsMean arms harms).append helse).several
    exact .of_one hcases fun _ => rfl

end

/-- An expression whose operands are all kept together is read back as it is meant. -/
theorem SqlExpr.read_tokens (e : SqlExpr) (h : ∀ e', .expr e' ∈ e.pieces → e'.keepsOperands) :
    ∃ fuel, ∀ n, fuel ≤ n →
      (Phrase.read? n e.tokens).map Phrase.regrouped = some e.phrase.regrouped := by
  obtain ⟨p, hp, hread⟩ := (e.means fun e' he' => .inr (h e' he')).one
  have hone : Settles (Phrase.one · 0 (Token.visible e.tokens ++ [])) (p, []) :=
    hread.alone (Nat.zero_le _) e.right_pos (.inl rfl)
  obtain ⟨fuel, hfuel⟩ := hone
  refine ⟨fuel, fun n hn => ?_⟩
  have hp' : Phrase.one n 0 (Token.visible e.tokens) = some (p, []) := by
    simpa using hfuel n hn
  rw [Phrase.read?, hp', Option.map_some, hp]

/-- `(name IS NULL OR age - (age - age) > age) AND NOT EXISTS (SELECT * FROM customers)`, with the
tables labelled. -/
theorem SqlExpr.read_tokens_unnamed :
    let name := SqlExpr.column (some "t0") "name"
    let age := SqlExpr.column (some "t0") "age"
    let query := Select.ofTable (.table none "customers" "t1")
    let e := SqlExpr.binary .and
      (.binary .or (.isNull name false)
        (.binary .gt (.binary .minus age (.binary .minus age age)) age))
      (.unary .not (.exist query false))
    (∀ e', .expr e' ∈ e.pieces → e'.keepsOperands) ∧
      ∃ fuel, ∀ n, fuel ≤ n →
        (Phrase.read? n e.tokens).map Phrase.regrouped = some e.phrase.regrouped := by
  intro name age query e
  have h : ∀ e', .expr e' ∈ e.pieces → e'.keepsOperands := by
    simp +decide [e, name, age, query, SqlExpr.pieces, Select.ofTable, Select.empty, Select.pieces,
      itemPieces, sourcePieces, Table.pieces, joinPieces, optionPieces, listPieces, keyPieces]
  exact ⟨h, e.read_tokens h⟩

/-- `NOT active IS NULL` is read as the negation of `active IS NULL`. -/
theorem SqlExpr.not_read_notIsNull :
    let e := SqlExpr.isNull (.unary .not (.column (some "t0") "active")) false
    ¬∃ fuel, ∀ n, fuel ≤ n →
      (Phrase.read? n e.tokens).map Phrase.regrouped = some e.phrase.regrouped := by
  rintro e ⟨fuel, h⟩
  have hread : Phrase.read? (fuel + 20) e.tokens = some (.node [.word "NOT"]
      [.node [.word "IS", .word "NULL"] [.leaf [.ident "t0", .symbol ".", .ident "active"]]]) := rfl
  have hsame := h (fuel + 20) (Nat.le_add_right ..)
  simp [hread, e, SqlExpr.phrase, regrouped, allRegrouped, Infix.isNullHead] at hsame

end Reading

end SequenceQuery
