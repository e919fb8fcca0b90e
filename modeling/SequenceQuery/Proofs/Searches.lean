import SequenceQuery.Proofs.Answers
import SequenceQuery.Proofs.Building
import Mathlib

namespace SequenceQuery

namespace Like

inductive Piece
  | run
  | one
  | char (c : Char)

def symbol (c : Char) : Piece :=
  if c = '%' then .run else if c = '_' then .one else .char c

/-- The pieces of a pattern; none where its last character escapes nothing. -/
def pieces? : List Char → Option (List Piece)
  | [] => some []
  | c :: rest =>
    if c = '\\' then
      match rest with
      | [] => none
      | d :: rest => (pieces? rest).map (.char d :: ·)
    else (pieces? rest).map (symbol c :: ·)

def covers : List Piece → List Char → Bool
  | [], text => text.isEmpty
  | .run :: pieces, text => text.tails.any (covers pieces)
  | .one :: pieces, _ :: text => covers pieces text
  | .char c :: pieces, d :: text => c == d && covers pieces text
  | _ :: _, [] => false

def shortest : List Piece → List Char
  | [] => []
  | .run :: pieces => shortest pieces
  | .one :: pieces => 'a' :: shortest pieces
  | .char c :: pieces => c :: shortest pieces

/-- No character of the text means something to LIKE. -/
def IsPlain (text : List Char) : Prop := ∀ c ∈ text, c ∉ ['%', '_', '\\']

instance (text : List Char) : Decidable (IsPlain text) :=
  List.decidableBAll (fun c => c ∉ ['%', '_', '\\']) text

theorem covers_shortest (pieces : List Piece) : covers pieces (shortest pieces) = true := by
  induction pieces with
  | nil => rfl
  | cons piece pieces ih =>
    cases piece with
    | run => exact List.any_eq_true.2 ⟨_, (List.mem_tails _ _).2 List.suffix_rfl, ih⟩
    | one => exact ih
    | char c => simpa [covers, shortest] using ih

theorem covers_run {pieces : List Piece} {text : List Char} :
    covers (.run :: pieces) text = true ↔ ∃ rest, rest <:+ text ∧ covers pieces rest = true := by
  simp only [covers, List.any_eq_true, List.mem_tails]

theorem covers_chars {sought text : List Char} {pieces : List Piece} :
    covers (sought.map .char ++ pieces) text = true ↔
      ∃ rest, text = sought ++ rest ∧ covers pieces rest = true := by
  induction sought generalizing text with
  | nil => simp
  | cons c sought ih =>
    cases text with
    | nil => simp [covers]
    | cons d text =>
      simp only [List.map_cons, List.cons_append, covers, Bool.and_eq_true, beq_iff_eq, ih,
        List.cons.injEq]
      constructor
      · rintro ⟨rfl, rest, htext, hrest⟩
        exact ⟨rest, ⟨rfl, htext⟩, hrest⟩
      · rintro ⟨rest, ⟨rfl, htext⟩, hrest⟩
        exact ⟨rfl, rest, htext, hrest⟩

theorem covers_atStart {sought text : List Char} :
    covers (sought.map .char ++ [.run]) text = true ↔ sought <+: text := by
  have hall : ∀ rest, covers [.run] rest = true :=
    fun rest => covers_run.2 ⟨[], List.nil_suffix, rfl⟩
  simp only [covers_chars, hall, and_true]
  exact exists_congr fun _ => eq_comm

theorem covers_anywhere {sought text : List Char} :
    covers (.run :: (sought.map .char ++ [.run])) text = true ↔ sought <:+: text := by
  rw [covers_run, List.infix_iff_prefix_suffix]
  exact exists_congr fun rest => by rw [covers_atStart, and_comm]

theorem covers_atEnd {sought text : List Char} :
    covers (.run :: (sought.map .char ++ [])) text = true ↔ sought <:+ text := by
  rw [covers_run]
  constructor
  · rintro ⟨_, hrest, hcovers⟩
    obtain ⟨behind, rfl, hempty⟩ := covers_chars.1 hcovers
    rwa [List.isEmpty_iff.1 hempty, List.append_nil] at hrest
  · exact fun h => ⟨sought, h, covers_chars.2 ⟨[], (List.append_nil _).symm, rfl⟩⟩

theorem symbol_of_plain {c : Char} (h : c ∉ ['%', '_', '\\']) : symbol c = .char c := by
  simp only [List.mem_cons, List.not_mem_nil, or_false, not_or] at h
  rw [symbol, if_neg h.1, if_neg h.2.1]

theorem pieces?_cons {c : Char} (h : c ≠ '\\') (rest : List Char) :
    pieces? (c :: rest) = (pieces? rest).map (symbol c :: ·) := by
  rw [pieces?.eq_def]
  exact if_neg h

theorem pieces?_run (rest : List Char) : pieces? ('%' :: rest) = (pieces? rest).map (.run :: ·) :=
  pieces?_cons (by decide) rest

theorem pieces?_of_isPlain {sought : List Char} (h : IsPlain sought) (behind : List Char) :
    pieces? (sought ++ behind) = (pieces? behind).map (sought.map .char ++ ·) := by
  induction sought with
  | nil => cases h : pieces? behind <;> simp [h]
  | cons c sought ih =>
    obtain ⟨hc, hsought⟩ := List.forall_mem_cons.1 h
    have hescape : c ≠ '\\' := fun heq => hc (by simp [heq])
    rw [List.cons_append, pieces?_cons hescape, ih hsought, symbol_of_plain hc, Option.map_map]
    rfl

/-- What runs and escapes take in a pattern is more than what they cover. -/
theorem shortest_of_pieces? {behind : List Char} (hbehind : behind = [] ∨ behind = ['%']) :
    ∀ {sought : List Char} {pieces : List Piece}, pieces? (sought ++ behind) = some pieces →
      (shortest pieces).length ≤ sought.length ∧ (shortest pieces = sought → IsPlain sought)
  | [], pieces, h => by
    obtain rfl | rfl := hbehind <;> cases h <;> exact ⟨Nat.le_refl 0, fun _ => nofun⟩
  | c :: sought, pieces, h => by
    by_cases hc : c = '\\'
    · subst hc
      cases sought with
      | nil =>
        obtain rfl | rfl := hbehind <;> cases h
        exact ⟨Nat.le_refl 1, fun h => absurd (List.cons.inj h).1 (by decide)⟩
      | cons d sought =>
        obtain ⟨rest, hrest, rfl⟩ := Option.map_eq_some_iff.1 h
        have hlength := (shortest_of_pieces? hbehind hrest).1
        refine ⟨Nat.le_succ_of_le (Nat.succ_le_succ hlength), fun heq => ?_⟩
        have := congrArg List.length heq
        simp only [shortest, List.length_cons] at this
        omega
    · rw [List.cons_append, pieces?_cons hc] at h
      obtain ⟨rest, hrest, rfl⟩ := Option.map_eq_some_iff.1 h
      obtain ⟨hlength, hplain⟩ := shortest_of_pieces? hbehind hrest
      rw [symbol]
      split
      case isTrue hrun =>
        refine ⟨Nat.le_succ_of_le hlength, fun heq => ?_⟩
        have := congrArg List.length heq
        simp only [shortest, List.length_cons] at this
        omega
      split
      case isTrue hone =>
        refine ⟨Nat.succ_le_succ hlength, fun heq => ?_⟩
        rw [hone] at heq
        exact absurd (List.cons.inj heq).1 (by decide)
      case isFalse hrun hone =>
        refine ⟨Nat.succ_le_succ hlength, fun heq => List.forall_mem_cons.2 ⟨?_, ?_⟩⟩
        · simp [hrun, hone, hc]
        · exact hplain (List.cons.inj heq).2

/-- Whether a text is like a pattern. A pattern whose last character escapes nothing is an error, so
no text is like it. -/
def holds (pattern text : String) : Bool :=
  match pieces? pattern.toList with
  | some pieces => covers pieces text.toList
  | none => false

theorem holds_iff {pattern text : String} : holds pattern text = true ↔
    ∃ pieces, pieces? pattern.toList = some pieces ∧ covers pieces text.toList = true := by
  rw [holds]
  cases pieces? pattern.toList <;> simp

end Like

namespace Search

open Like

def finds (name text sought : String) : Bool :=
  match name with
  | "contains" => decide (sought.toList <:+: text.toList)
  | "starts_with" => decide (sought.toList <+: text.toList)
  | "ends_with" => decide (sought.toList <:+ text.toList)
  | _ => false

def leading (name : String) : List Char := if name = "starts_with" then [] else ['%']

def trailing (name : String) : List Char := if name = "ends_with" then [] else ['%']

def pattern (name sought : String) : String :=
  .ofList (leading name ++ sought.toList ++ trailing name)

variable {name sought : String}

theorem eq_pattern {text : String}
    (h : text.toList = leading name ++ sought.toList ++ trailing name) :
    text = pattern name sought := by
  rw [pattern, ← h, String.ofList_toList]

theorem cases_of_isSearch (h : isSearch name = true) :
    name = "contains" ∨ name = "starts_with" ∨ name = "ends_with" := by
  unfold isSearch searchPattern? at h
  split at h
  · exact .inl rfl
  · exact .inr (.inl rfl)
  · exact .inr (.inr rfl)
  · cases h

/-- A text in which nothing has a meaning to LIKE is found where it stands. -/
theorem holds_pattern (h : isSearch name = true) (hplain : IsPlain sought.toList) (text : String) :
    holds (pattern name sought) text = finds name text sought := by
  have hpieces := pieces?_of_isPlain hplain
  rw [Bool.eq_iff_iff, holds_iff, pattern, String.toList_ofList]
  obtain rfl | rfl | rfl := cases_of_isSearch h
  · have hall : pieces? (leading "contains" ++ sought.toList ++ trailing "contains") =
        some (.run :: (sought.toList.map .char ++ [.run])) := by
      show pieces? ('%' :: sought.toList ++ ['%']) = _
      rw [List.cons_append, pieces?_run, hpieces]
      rfl
    rw [hall]
    simp [finds, covers_anywhere]
  · have hall : pieces? (leading "starts_with" ++ sought.toList ++ trailing "starts_with") =
        some (sought.toList.map .char ++ [.run]) := hpieces ['%']
    rw [hall]
    simp [finds, covers_atStart]
  · have hall : pieces? (leading "ends_with" ++ sought.toList ++ trailing "ends_with") =
        some (.run :: (sought.toList.map .char ++ [])) := by
      show pieces? ('%' :: sought.toList ++ []) = _
      rw [List.cons_append, pieces?_run, hpieces]
      rfl
    rw [hall]
    simp only [Option.some.injEq, exists_eq_left', covers_atEnd, finds, decide_eq_true_eq]

theorem shortest_of_pattern {pieces : List Like.Piece}
    (hpieces : pieces? (pattern name sought).toList = some pieces) :
    (shortest pieces).length ≤ sought.toList.length ∧
      (shortest pieces = sought.toList → IsPlain sought.toList) := by
  have hafter : trailing name = [] ∨ trailing name = ['%'] := by
    rw [trailing]
    split <;> simp
  rw [pattern, String.toList_ofList, leading] at hpieces
  split at hpieces
  · exact shortest_of_pieces? hafter hpieces
  · rw [List.append_assoc, List.singleton_append, pieces?_run] at hpieces
    obtain ⟨rest, hrest, rfl⟩ := Option.map_eq_some_iff.1 hpieces
    have := shortest_of_pieces? hafter hrest
    exact this

theorem infix_of_finds {text : String} (h : finds name text sought = true) :
    sought.toList <:+: text.toList := by
  unfold finds at h
  split at h
  · exact of_decide_eq_true h
  · exact (of_decide_eq_true h).isInfix
  · exact (of_decide_eq_true h).isInfix
  · cases h

theorem finds_self (h : isSearch name = true) : finds name sought sought = true := by
  obtain rfl | rfl | rfl := cases_of_isSearch h
  · exact decide_eq_true List.infix_rfl
  · exact decide_eq_true List.prefix_rfl
  · exact decide_eq_true List.suffix_rfl

/-- Where something has a meaning, some text is taken for one that the text sought is found in, or
the text sought is not found in itself. -/
theorem exists_holds_ne_finds (h : isSearch name = true) (hplain : ¬ IsPlain sought.toList) :
    ∃ text, holds (pattern name sought) text ≠ finds name text sought := by
  cases hpieces : pieces? (pattern name sought).toList with
  | none =>
    refine ⟨sought, fun heq => ?_⟩
    obtain ⟨pieces, hsome, -⟩ := holds_iff.1 (heq.trans (finds_self h))
    rw [hpieces] at hsome
    cases hsome
  | some pieces =>
    obtain ⟨hlength, hexact⟩ := shortest_of_pattern hpieces
    refine ⟨.ofList (shortest pieces), fun heq => hplain (hexact ?_)⟩
    have hholds : holds (pattern name sought) (.ofList (shortest pieces)) = true := by
      refine holds_iff.2 ⟨pieces, hpieces, ?_⟩
      rw [String.toList_ofList]
      exact covers_shortest pieces
    have hfound := infix_of_finds (heq.symm.trans hholds)
    rw [String.toList_ofList] at hfound
    exact (hfound.eq_of_length (Nat.le_antisymm hfound.length_le hlength)).symm

end Search

/-- The database puts texts together and matches them as PostgreSQL does. -/
structure Engine.MatchesTexts (engine : Engine) : Prop where
  concat : ∀ s t, engine.binary .concat (.text s) (.text t) = .text (s ++ t)
  like : ∀ s pattern, engine.binary .like (.text s) (.text pattern) = .bool (Like.holds pattern s)

section

variable {engine : Engine} {db : Database} {arguments : Arguments} {group : List Env} {row : Env}
  {name sought : String}

theorem Engine.MatchesTexts.cell_pattern (h : engine.MatchesTexts) (hname : isSearch name = true)
    {needle : SqlExpr} (hneedle : needle.cell engine db arguments group row = .text sought) :
    ((searchPattern? name needle).getD needle).cell engine db arguments group row =
      .text (Search.pattern name sought) := by
  have hjoined : ∀ s t : SqlExpr, (SqlExpr.binary .concat s t).cell engine db arguments group row =
      engine.binary .concat (s.cell engine db arguments group row)
        (t.cell engine db arguments group row) := fun _ _ => rfl
  have hany : (SqlExpr.literal (.text "%")).cell engine db arguments group row = .text "%" := rfl
  obtain rfl | rfl | rfl := Search.cases_of_isSearch hname
  · show (SqlExpr.binary .concat (.binary .concat (.literal (.text "%")) needle)
      (.literal (.text "%"))).cell engine db arguments group row = _
    rw [hjoined, hjoined, hany, hneedle, h.concat, h.concat]
    exact congrArg Cell.text (Search.eq_pattern (by simp [Search.leading, Search.trailing]))
  · show (SqlExpr.binary .concat needle (.literal (.text "%"))).cell engine db arguments group row
      = _
    rw [hjoined, hany, hneedle, h.concat]
    exact congrArg Cell.text (Search.eq_pattern (by simp [Search.leading, Search.trailing]))
  · show (SqlExpr.binary .concat (.literal (.text "%")) needle).cell engine db arguments group row
      = _
    rw [hjoined, hany, hneedle, h.concat]
    exact congrArg Cell.text (Search.eq_pattern (by simp [Search.leading, Search.trailing]))

end

section

variable {env : Surroundings} {id : NodeId} {name : String} {text needle : Expr} {scope : Scope}
  {p q : Progress} {test : Scalar} {engine : Engine}

theorem asScalar_search (hname : isSearch (Text.lower name) = true)
    (h : (((Expr.function id name [text, needle]).meaning env).asScalar scope).run p =
      .ok (test, q)) :
    ∃ s t m, ((text.meaning env).asScalar scope).run p = .ok (s, m) ∧
      ((needle.meaning env).asScalar scope).run m = .ok (t, q) ∧
      test.expr = .binary .like s.expr
        ((searchPattern? (Text.lower name) t.expr).getD t.expr) := by
  obtain ⟨b, _, hb, hscalar⟩ := Build.run_bind_ok.1 h
  obtain ⟨hscalar, rfl⟩ := Build.run_lift_ok.1 hscalar
  obtain ⟨found, _, hfound, hb⟩ := Build.run_bind_ok.1 hb
  obtain ⟨rfl, rfl⟩ := Build.run_pure_ok.1 hb
  cases hscalar
  rw [scalarOfFunction, if_pos (by rw [hname]; rfl)] at hfound
  obtain ⟨_, _, htext, hfound⟩ := Build.run_bind_ok.1 hfound
  obtain ⟨htext, rfl⟩ := Build.run_lift_ok.1 htext
  cases htext
  obtain ⟨s, m, hs, hfound⟩ := Build.run_bind_ok.1 hfound
  obtain ⟨_, _, hneedle, hfound⟩ := Build.run_bind_ok.1 hfound
  obtain ⟨hneedle, rfl⟩ := Build.run_lift_ok.1 hneedle
  cases hneedle
  obtain ⟨t, _, ht, hfound⟩ := Build.run_bind_ok.1 hfound
  obtain ⟨rfl, rfl⟩ := Build.run_pure_ok.1 hfound
  exact ⟨s, t, _, hs, ht, rfl⟩

/-- A search that is accepted asks for a match with a pattern made of the text that is sought. It
finds texts without a character that means something to LIKE where they stand, and only those. -/
theorem search_exact_iff_plain (hengine : engine.MatchesTexts)
    (hname : isSearch (Text.lower name) = true)
    (h : (((Expr.function id name [text, needle]).meaning env).asScalar scope).run p =
      .ok (test, q)) :
    ∃ s t m, ((text.meaning env).asScalar scope).run p = .ok (s, m) ∧
      ((needle.meaning env).asScalar scope).run m = .ok (t, q) ∧
      ∀ sought : String,
        (Like.IsPlain sought.toList → ∀ found db arguments group row,
          s.expr.cell engine db arguments group row = .text found →
          t.expr.cell engine db arguments group row = .text sought →
          test.expr.cell engine db arguments group row =
            .bool (Search.finds (Text.lower name) found sought)) ∧
        (¬ Like.IsPlain sought.toList → ∃ found, ∀ db arguments group row,
          s.expr.cell engine db arguments group row = .text found →
          t.expr.cell engine db arguments group row = .text sought →
          test.expr.cell engine db arguments group row ≠
            .bool (Search.finds (Text.lower name) found sought)) := by
  obtain ⟨s, t, m, hs, ht, htest⟩ := asScalar_search hname h
  refine ⟨s, t, m, hs, ht, fun sought => ?_⟩
  have hcell : ∀ found db arguments group row,
      s.expr.cell engine db arguments group row = .text found →
      t.expr.cell engine db arguments group row = .text sought →
      test.expr.cell engine db arguments group row =
        .bool (Like.holds (Search.pattern (Text.lower name) sought) found) := by
    intro found db arguments group row hfound hsought
    rw [htest]
    show engine.binary .like (s.expr.cell engine db arguments group row)
      (((searchPattern? (Text.lower name) t.expr).getD t.expr).cell engine db arguments group row)
      = _
    rw [hfound, hengine.cell_pattern hname hsought, hengine.like]
  constructor
  · intro hplain found db arguments group row hfound hsought
    rw [hcell found db arguments group row hfound hsought, Search.holds_pattern hname hplain]
  · intro hplain
    obtain ⟨found, hne⟩ := Search.exists_holds_ne_finds hname hplain
    refine ⟨found, fun db arguments group row hfound hsought heq => hne ?_⟩
    rw [hcell found db arguments group row hfound hsought] at heq
    exact Cell.bool.inj heq

end

namespace Form

def texts : Engine where
  binary op a b :=
    match op, a, b with
    | .concat, .text s, .text t => .text (s ++ t)
    | .like, .text s, .text pattern => .bool (Like.holds pattern s)
    | _, _, _ => .null
  minus _ := .null
  function _ _ := .null
  aggregate _ _ := .null
  same _ _ := false
  notAfter _ _ := true

theorem texts_matchesTexts : texts.MatchesTexts := ⟨fun _ _ => rfl, fun _ _ => rfl⟩

def namedPerson : Entity :=
  ⟨"Person", "people", none, [⟨"Name", "name", .text, false, false⟩]⟩

def named : Catalog := ⟨[namedPerson]⟩

def twoNames : Database := fun _ _ => ["Ann", "Bo"].map fun name => [("name", .text name)]

def nameContains (sought : String) : Expr :=
  .function 3 "contains" [.member 4 (.param 5 "p") "Name", .const 6 (.text sought)]

/-- `Person.Where(p => contains(p.Name, sought))`. -/
def namesContaining (sought : String) : Expr :=
  .call 0 .filter [.entity 1 "Person", .lambda 2 ["p"] (nameContains sought)]

def nameLike : SqlExpr :=
  .binary .like (.columnOf "t0" "name") (.binary .concat
    (.binary .concat (.literal (.text "%")) (.param (.slot 0))) (.literal (.text "%")))

/-- `SELECT t0.name FROM people AS t0 WHERE t0.name LIKE '%' || $1 || '%'`. -/
def ofNamesContaining (sought : String) : Form where
  select := { Select.ofTable (.table none "people" "t0") with
    items := [.expr (.columnOf "t0" "name") none]
    filter := some nameLike
    origin := some (namesContaining sought) }
  shape := .sequence
  segment := none
  slotCount := 1
  origin := namesContaining sought

theorem search_exact_iff_plain_nn : ∃ test q,
    (((nameContains "nn").meaning (.ofExpr named (Postgres.dialect false)
      (namesContaining "nn"))).asScalar [("p", .record "t0" namedPerson "" false)]).run ⟨1, false⟩ =
        .ok (test, q) ∧
      test.expr.cell texts twoNames ⟨[.text "nn"], none⟩ [] [("t0", [("name", .text "Ann")])] =
        .bool true := by
  have hrun : (((nameContains "nn").meaning (.ofExpr named (Postgres.dialect false)
      (namesContaining "nn"))).asScalar [("p", .record "t0" namedPerson "" false)]).run ⟨1, false⟩ =
        .ok (⟨nameLike, false⟩, ⟨1, false⟩) := by cbv
  have hname : Text.lower "contains" = "contains" := by decide +kernel
  have hsearch : isSearch (Text.lower "contains") = true := by rw [hname]; rfl
  obtain ⟨s, t, m, hs, ht, hfinds⟩ := search_exact_iff_plain texts_matchesTexts hsearch hrun
  cases hs
  cases ht
  obtain ⟨hplain, -⟩ := hfinds "nn"
  refine ⟨_, _, hrun, (hplain (by decide) "Ann" _ _ _ _ rfl rfl).trans ?_⟩
  rw [hname]
  rfl

/-- No name has a percent sign in it, yet every name is found. -/
theorem search_not_exact_percent :
    ofExpr named (Postgres.dialect false) (namesContaining "%") = .ok (ofNamesContaining "%") ∧
      (ofNamesContaining "%").answer texts twoNames = .ok (.rows [[.text "Ann"], [.text "Bo"]]) ∧
      Search.finds "contains" "Ann" "%" = false ∧ Search.finds "contains" "Bo" "%" = false :=
  ⟨by cbv, rfl, by decide, by decide⟩

end Form

end SequenceQuery
