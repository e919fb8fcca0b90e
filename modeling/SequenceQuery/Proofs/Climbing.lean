import SequenceQuery.Proofs.Grouping
import Mathlib.Data.Nat.Init

namespace SequenceQuery

namespace Token

def operator? (t : Token) : Option SqlBinary := SqlBinary.everyOp.find? fun op => op.token = t

def isOperand : Token → Bool
  | .ident _ | .number _ | .text _ | .placeholder _ => true
  | .word s => s ∈ ["NULL", "TRUE", "FALSE"]
  | _ => false

end Token

namespace Phrase

abbrev Climbed (n : Nat) := Phrase × { rest : List Token // rest.length < n }

def Climbed.weaken {m n : Nat} (h : m ≤ n) (read : Climbed m) : Climbed n :=
  (read.1, ⟨read.2.1, Nat.lt_of_lt_of_le read.2.2 h⟩)

mutual

def climbOperand (tokens : List Token) : Option (Climbed tokens.length) :=
  match tokens with
  | .ident q :: .symbol "." :: .ident c :: rest =>
    some (.leaf [.ident q, .symbol ".", .ident c], ⟨rest, by simp only [List.length_cons]; omega⟩)
  | .symbol "(" :: rest =>
    match climb 1 rest with
    | some (p, ⟨.symbol ")" :: more, h⟩) =>
      some (p, ⟨more, by simp only [List.length_cons] at h ⊢; omega⟩)
    | _ => none
  | t :: rest => if t.isOperand then some (.leaf [t], ⟨rest, Nat.lt_succ_self _⟩) else none
  | [] => none
termination_by (tokens.length, 0)

/-- An operand and the operators of at least a strength behind it. -/
def climb (least : Nat) (tokens : List Token) : Option (Climbed tokens.length) := do
  let (p, rest) ← climbOperand tokens
  let read ← climbOn least p rest.1
  return read.weaken (Nat.succ_le_of_lt rest.2)
termination_by (tokens.length, 1)

/-- The operators of at least a strength behind what is read so far. -/
def climbOn (least : Nat) (left : Phrase) (tokens : List Token) :
    Option (Climbed (tokens.length + 1)) :=
  match tokens with
  | [] => some (left, ⟨[], Nat.one_pos⟩)
  | t :: rest =>
    match t.operator? with
    | none => some (left, ⟨t :: rest, Nat.lt_succ_self _⟩)
    | some op =>
      if op.precedence < least then some (left, ⟨t :: rest, Nat.lt_succ_self _⟩)
      else do
        let (right, more) ← climb (op.precedence + 1) rest
        let read ← climbOn least (.binary op left right) more.1
        return read.weaken (by simp only [List.length_cons]; omega)
termination_by (tokens.length, 0)

end

def climbed? (tokens : List Token) : Option Phrase :=
  match climb 1 (Token.visible tokens) with
  | some (p, ⟨[], _⟩) => some p
  | _ => none

def Reaches {n : Nat} (read : Option (Climbed n)) (p : Phrase) (rest : List Token) : Prop :=
  ∃ h, read = some (p, ⟨rest, h⟩)

inductive Ends (strength : Nat) : List Token → Prop
  | nil : Ends strength []
  | closing (rest : List Token) : Ends strength (.symbol ")" :: rest)
  | operator {op : SqlBinary} (h : op.precedence ≤ strength) (rest : List Token) :
    Ends strength (op.token :: rest)

section Steps

variable {ts rest more : List Token} {p left right : Phrase} {op : SqlBinary}
  {least strength strength' : Nat} {t : Token}

theorem Ends.mono (h : Ends strength rest) (hle : strength ≤ strength') : Ends strength' rest := by
  cases h with
  | nil => exact .nil
  | closing => exact .closing _
  | operator h => exact .operator (Nat.le_trans h hle) _

theorem Ends.head?_ne (h : Ends strength rest) : rest.head? ≠ some (.symbol ".") := by
  cases h with
  | nil | closing => simp
  | @operator op => cases op <;> simp [SqlBinary.token]

theorem operator?_token (op : SqlBinary) : op.token.operator? = some op := by
  cases op <;> rfl

theorem climb_of_operand (hp : Reaches (climbOperand ts) p rest)
    (h : Reaches (climbOn least p rest) right more) : Reaches (climb least ts) right more := by
  obtain ⟨hlt, hp⟩ := hp
  obtain ⟨hlt', h⟩ := h
  refine ⟨by omega, ?_⟩
  rw [climb, hp]
  simp only [Option.bind_eq_bind, Option.bind_some, h]
  rfl

theorem climbOn_operator (hleast : least ≤ op.precedence)
    (hright : Reaches (climb (op.precedence + 1) ts) right rest)
    (h : Reaches (climbOn least (.binary op left right) rest) p more) :
    Reaches (climbOn least left (op.token :: ts)) p more := by
  obtain ⟨hlt, hright⟩ := hright
  obtain ⟨hlt', h⟩ := h
  refine ⟨by simp only [List.length_cons]; omega, ?_⟩
  rw [climbOn]
  simp only [operator?_token, if_neg (Nat.not_lt.2 hleast), Option.bind_eq_bind, hright,
    Option.bind_some, h]
  rfl

/-- Where only weaker operators follow, what is read so far is all. -/
theorem climbOn_stops (h : Ends strength rest) (hleast : strength < least) :
    Reaches (climbOn least left rest) left rest := by
  cases h with
  | nil => exact ⟨Nat.one_pos, by rw [climbOn]⟩
  | closing =>
    refine ⟨Nat.lt_succ_self _, ?_⟩
    rw [climbOn]
    rfl
  | @operator op h =>
    refine ⟨Nat.lt_succ_self _, ?_⟩
    rw [climbOn]
    simp only [operator?_token, if_pos (Nat.lt_of_le_of_lt h hleast)]

theorem climbOperand_parens (h : Reaches (climb 1 ts) p (.symbol ")" :: rest)) :
    Reaches (climbOperand (.symbol "(" :: ts)) p rest := by
  obtain ⟨hlt, h⟩ := h
  refine ⟨by simp only [List.length_cons] at hlt ⊢; omega, ?_⟩
  rw [climbOperand, h]
  rfl

theorem climbOperand_qualified (q c : String) (rest : List Token) :
    Reaches (climbOperand (.ident q :: .symbol "." :: .ident c :: rest))
      (.leaf [.ident q, .symbol ".", .ident c]) rest :=
  ⟨by simp only [List.length_cons]; omega, by rw [climbOperand]⟩

theorem climbOperand_single (ht : t.isOperand) (h : Ends strength rest) :
    Reaches (climbOperand (t :: rest)) (.leaf [t]) rest := by
  refine ⟨Nat.lt_succ_self _, ?_⟩
  rw [climbOperand]
  · rw [if_pos ht]
  · rintro q c more rfl rfl
    exact h.head?_ne rfl
  · rintro rfl
    cases ht

end Steps

structure Chain where
  first : Phrase
  links : List (SqlBinary × Phrase)

namespace Chain

variable (op op' : SqlBinary) (left : Phrase) (c d : Chain)

def phrase : Phrase := c.links.foldl (fun p link => .binary link.1 p link.2) c.first

def onto : Phrase := c.links.foldl (fun p link => .binary link.1 p link.2) (.binary op left c.first)

def closed : Chain := ⟨c.phrase, []⟩

def append : Chain := ⟨c.first, c.links ++ (op, d.first) :: d.links⟩

theorem onto_closed : c.closed.onto op left = .binary op left c.phrase := rfl

theorem phrase_append : (append op c d).phrase = d.onto op c.phrase := by
  rw [phrase, append, List.foldl_append]
  rfl

theorem onto_append : (append op c d).onto op' left = d.onto op (c.onto op' left) := by
  rw [onto, append, List.foldl_append]
  rfl

end Chain

end Phrase

namespace SqlExpr

open Phrase

/-- Nothing but binary operators over names, values and parameters. -/
inductive OfOperators : SqlExpr → Prop
  | column (table : Option String) (name : String) : OfOperators (.column table name)
  | literal (value : Value) : OfOperators (.literal value)
  | param (source : Source) : OfOperators (.param source)
  | binary (op : SqlBinary) {left right : SqlExpr} (hl : left.OfOperators)
    (hr : right.OfOperators) : OfOperators (.binary op left right)

/-- The strength of the operator at the top; nothing is stronger than what has none there. -/
def strength : SqlExpr → Nat
  | .binary op .. => op.precedence
  | _ => 9

/-- The operators that are as strong as the one at the top, as far as no parentheses keep them
apart. -/
def chain : SqlExpr → Chain
  | .binary op left right =>
    .append op
      (if left.bindsLooser op false = false ∧ left.strength = op.precedence then left.chain
        else left.chain.closed)
      (if right.bindsLooser op true = false ∧ right.strength = op.precedence then right.chain
        else right.chain.closed)
  | e => ⟨e.phrase, []⟩

def chainIn (e : SqlExpr) (strength : Nat) (wrapped : Bool) : Chain :=
  if wrapped = false ∧ e.strength = strength then e.chain else e.chain.closed

theorem chain_binary (op : SqlBinary) (left right : SqlExpr) :
    (SqlExpr.binary op left right).chain =
      .append op (left.chainIn op.precedence (left.bindsLooser op false))
        (right.chainIn op.precedence (right.bindsLooser op true)) := rfl

theorem phrase_chainIn (e : SqlExpr) (strength : Nat) (wrapped : Bool) :
    (e.chainIn strength wrapped).phrase = e.chain.phrase := by
  rw [chainIn]
  split <;> rfl

theorem one_le_strength (e : SqlExpr) : 1 ≤ e.strength := by
  cases e with
  | binary op => cases op <;> exact Nat.le_add_left 1 _
  | _ => exact Nat.le_add_left 1 8

theorem precedence_lt (op : SqlBinary) : op.precedence < 9 := by
  cases op <;> decide

/-- What is written without parentheses beside an operator is no weaker than that. -/
theorem OfOperators.precedence_le {e : SqlExpr} (h : e.OfOperators) {op : SqlBinary} {right : Bool}
    (hwrapped : e.bindsLooser op right = false) : op.precedence ≤ e.strength := by
  cases h with
  | binary op' =>
    simp only [bindsLooser, Bool.or_eq_false_iff, decide_eq_false_iff_not] at hwrapped
    exact Nat.not_lt.1 hwrapped.1
  | _ => exact Nat.le_of_lt (precedence_lt op)

variable {e l r : SqlExpr} {op : SqlBinary} {least : Nat} {left p : Phrase} {rest more : List Token}

theorem visible_binary (op : SqlBinary) (l r : SqlExpr) :
    Token.visible (SqlExpr.binary op l r).tokens =
      Token.visible (Token.parensIf (l.bindsLooser op false) l.tokens) ++
        op.token :: Token.visible (Token.parensIf (r.bindsLooser op true) r.tokens) := by
  simp [SqlExpr.tokens]

structure ClimbsAlone (e : SqlExpr) : Prop where
  reads : ∀ {least rest p more}, least ≤ e.strength → Ends e.strength rest →
    Reaches (climbOn least e.chain.phrase rest) p more →
      Reaches (climb least (Token.visible e.tokens ++ rest)) p more

structure Climbs (e : SqlExpr) : Prop extends ClimbsAlone e where
  behind : ∀ {op : SqlBinary} (wrapped : Bool) {least left rest p more},
    (wrapped = false → op.precedence ≤ e.strength) → least ≤ op.precedence →
    Ends op.precedence rest →
    Reaches (climbOn least ((e.chainIn op.precedence wrapped).onto op left) rest) p more →
      Reaches (climbOn least left
        (op.token :: Token.visible (Token.parensIf wrapped e.tokens) ++ rest)) p more

namespace ClimbsAlone

theorem parensIf (h : e.ClimbsAlone) (wrapped : Bool)
    (hleast : wrapped = false → least ≤ e.strength)
    (hrest : wrapped = false → Ends e.strength rest)
    (hread : Reaches (climbOn least e.chain.phrase rest) p more) :
    Reaches (climb least (Token.visible (Token.parensIf wrapped e.tokens) ++ rest)) p more := by
  cases wrapped with
  | false => exact h.reads (hleast rfl) (hrest rfl) hread
  | true =>
    have hclosed : Reaches (climbOn 1 e.chain.phrase (.symbol ")" :: rest)) e.chain.phrase
        (.symbol ")" :: rest) := climbOn_stops (Ends.closing rest : Ends 0 _) Nat.one_pos
    have hinner := h.reads e.one_le_strength (.closing rest) hclosed
    have hall := climb_of_operand (climbOperand_parens hinner) hread
    have htokens : Token.visible (Token.parensIf true e.tokens) ++ rest =
        .symbol "(" :: (Token.visible e.tokens ++ .symbol ")" :: rest) := by simp [Token.parensIf]
    rwa [htokens]

theorem behind (h : e.ClimbsAlone) (wrapped : Bool)
    (hclosed : ¬(wrapped = false ∧ e.strength = op.precedence))
    (hstrength : wrapped = false → op.precedence ≤ e.strength) (hleast : least ≤ op.precedence)
    (hrest : Ends op.precedence rest)
    (hread : Reaches (climbOn least ((e.chainIn op.precedence wrapped).onto op left) rest) p more) :
    Reaches (climbOn least left
      (op.token :: Token.visible (Token.parensIf wrapped e.tokens) ++ rest)) p more := by
  rw [chainIn, if_neg hclosed, Chain.onto_closed] at hread
  refine climbOn_operator hleast (h.parensIf wrapped (fun hw => ?_) (fun hw => ?_) ?_) hread
  · exact Nat.lt_of_le_of_ne (hstrength hw) fun heq => hclosed ⟨hw, heq.symm⟩
  · exact hrest.mono (hstrength hw)
  · exact climbOn_stops hrest (Nat.lt_succ_self _)

theorem climbs (h : e.ClimbsAlone) (hstrength : e.strength = 9) : e.Climbs where
  toClimbsAlone := h
  behind wrapped _ _ _ _ _ hle hleast hrest hread := by
    refine h.behind wrapped (fun hclosed => ?_) hle hleast hrest hread
    exact absurd (hclosed.2.symm.trans hstrength) (Nat.ne_of_lt (precedence_lt _))

theorem of_operand (hphrase : e.chain.phrase = e.phrase)
    (h : ∀ {rest}, Ends e.strength rest →
      Reaches (climbOperand (Token.visible e.tokens ++ rest)) e.phrase rest) : e.ClimbsAlone where
  reads _ hrest hread := climb_of_operand (h hrest) (hphrase ▸ hread)

theorem binary (hl : l.Climbs) (hr : r.Climbs) (hleft : l.OfOperators) (hright : r.OfOperators) :
    (SqlExpr.binary op l r).ClimbsAlone where
  reads {least rest p more} hleast hrest hread := by
    rw [chain_binary, Chain.phrase_append, phrase_chainIn] at hread
    have hbehind := hr.behind _ hright.precedence_le hleast hrest hread
    have hall := hl.parensIf (l.bindsLooser op false)
      (fun hw => Nat.le_trans hleast (hleft.precedence_le hw))
      (fun hw => .operator (hleft.precedence_le hw) _) hbehind
    rw [visible_binary, List.append_assoc]
    exact hall

end ClimbsAlone

/-- Whatever operators an expression is made of, it is read as its chain. -/
theorem OfOperators.climbs (h : e.OfOperators) : e.Climbs := by
  induction h with
  | column table name =>
    refine (ClimbsAlone.of_operand rfl fun hrest => ?_).climbs rfl
    cases table with
    | none => exact climbOperand_single rfl hrest
    | some q => exact climbOperand_qualified q name _
  | literal value =>
    refine (ClimbsAlone.of_operand rfl fun hrest => ?_).climbs rfl
    cases value with
    | bool b => cases b <;> exact climbOperand_single rfl hrest
    | _ => exact climbOperand_single rfl hrest
  | param source =>
    refine (ClimbsAlone.of_operand rfl fun hrest => ?_).climbs rfl
    exact climbOperand_single rfl hrest
  | @binary op l r hleft hright hl hr =>
    have hone : (SqlExpr.binary op l r).ClimbsAlone := .binary hl hr hleft hright
    refine ⟨hone, fun {op'} wrapped {least left rest p more} hle hleast hrest hread => ?_⟩
    by_cases hsame : wrapped = false ∧ op.precedence = op'.precedence
    · -- The chain goes on, first with what stands to the left of the operator at the top.
      obtain ⟨rfl, hstrength⟩ := hsame
      rw [chainIn, if_pos ⟨rfl, hstrength⟩, chain_binary, Chain.onto_append] at hread
      have hsecond := hr.behind _ hright.precedence_le (hstrength ▸ hleast) (hstrength ▸ hrest)
        hread
      rw [hstrength] at hsecond
      have hfirst := hl.behind _ (fun hw => hstrength ▸ hleft.precedence_le hw) hleast
        (.operator (Nat.le_of_eq hstrength) _) hsecond
      rw [Token.parensIf, if_neg Bool.false_ne_true, visible_binary, List.cons_append,
        List.append_assoc]
      exact hfirst
    · exact hone.behind wrapped hsame hle hleast hrest hread

/-- What is written of operators is read to its end. -/
theorem OfOperators.climbed?_tokens (h : e.OfOperators) :
    climbed? e.tokens = some e.chain.phrase := by
  have hstop : Reaches (climbOn 1 e.chain.phrase []) e.chain.phrase [] :=
    climbOn_stops (Ends.nil : Ends 0 _) Nat.one_pos
  have hread := h.climbs.reads e.one_le_strength .nil hstop
  rw [List.append_nil] at hread
  obtain ⟨hlt, hread⟩ := hread
  rw [climbed?, hread]

end SqlExpr
end SequenceQuery
