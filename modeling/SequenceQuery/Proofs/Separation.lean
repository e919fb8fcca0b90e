import SequenceQuery.Dialect.Postgres
import SequenceQuery.Proofs.Lexemes
import SequenceQuery.Proofs.StatementPieces
import Mathlib.Data.List.Chain

namespace SequenceQuery

open Postgres

namespace Token

def lexeme? (sources : List Source) : Token → Option Lexeme
  | .word s | .routine s => some (.word s)
  | .ident s => some (.ident s)
  | .number s => some (.number s)
  | .text s => some (.text s)
  | .placeholder s => some (.placeholder (toString (sources.idxOf s + 1)))
  | .symbol s => some (.symbol s)
  | .blank => none

def minus : Token := .symbol "-"

/-- Words, numbers and signs are written without quotes, so not every text makes one. -/
def spelled : Token → Bool
  | .word s | .routine s =>
    match s.toList with
    | [] => false
    | c :: rest => isWordStart c && rest.all isWordPart
  | .number s => !s.toList.isEmpty && s.toList.all Char.isDigit
  | .symbol s => s ∈ ["(", ")", ",", ".", "=", "<>", "<", "<=", ">", ">=", "+", "-", "*", "/", "%",
      "||"]
  | _ => true

def isGap : Token → Bool
  | .blank => true
  | .symbol s => s ∈ ["(", ")", ","]
  | _ => false

def isAtom : Token → Bool
  | .symbol _ | .blank => false
  | _ => true

/-- Which tokens stand side by side in a command. -/
def isBeside : Token → Token → Bool
  | .ident _, .symbol "." | .symbol ".", .ident _ => true
  | t, t' => t.isGap || t'.isGap || t == minus && (t'.isAtom || t' == minus)

def endsAt : Token → Char → Bool
  | .word _, c | .routine _, c => !isWordPart c && c != '\'' && c != '&'
  | .number _, c => !isWordPart c && c != '.'
  | .placeholder _, c => !isWordPart c
  | .ident _, c => c != '"'
  | .text _, c => c != '\''
  | .symbol s, c => s ∈ ["(", ")", ","] || (if s = "." then !c.isDigit else !isOperatorPart c)
  | .blank, _ => true

section Scan

variable {sources : List Source} {rest : List Char} {c : Char}

theorem not_isWordStart_of_isDigit (h : c.isDigit) : isWordStart c = false := by
  have hrange : 48 ≤ c.toNat ∧ c.toNat ≤ 57 := Char.isDigit_iff_toNat.1 h
  by_contra hstart
  have hclass : (c.isUpper || c.isLower || c == '_' || decide (128 ≤ c.toNat)) = true :=
    eq_true_of_ne_false hstart
  simp only [Bool.or_eq_true, beq_iff_eq, decide_eq_true_eq] at hclass
  have upper : c.isUpper → 65 ≤ c.toNat ∧ c.toNat ≤ 90 := fun hupper =>
    of_decide_eq_true hupper
  have lower : c.isLower → 97 ≤ c.toNat ∧ c.toNat ≤ 122 := by
    intro hlower
    obtain ⟨hlow, hhigh⟩ := Bool.and_eq_true_iff.1 hlower
    exact ⟨of_decide_eq_true hlow, of_decide_eq_true hhigh⟩
  rcases hclass with ((hupper | hlower) | rfl) | hbeyond
  · have := upper hupper
    omega
  · have := lower hlower
    omega
  · exact absurd h (by decide)
  · omega

theorem not_isSpace (h : isWordStart c ∨ c.isDigit) : isSpace c = false := by
  by_contra hspace
  simp only [isSpace, Bool.not_eq_false, List.mem_cons, List.not_mem_nil, or_false,
    decide_eq_true_eq] at hspace
  rcases hspace with rfl | rfl | rfl | rfl | rfl | rfl <;> exact absurd h (by decide)

theorem start_word (h : isWordStart c) : Scanning.start c = ([], .word [c]) := by
  rw [Scanning.start, if_neg (by simp [not_isSpace (.inl h)]), if_pos h]

theorem start_digit (h : c.isDigit) : Scanning.start c = ([], .number [c]) := by
  rw [Scanning.start, if_neg (by simp [not_isSpace (.inr h)]),
    if_neg (by simp [not_isWordStart_of_isDigit h]), if_pos h]

theorem scan_word {s : String} (hs : (Token.word s).spelled)
    (hrest : ∀ c ∈ rest.head?, endsAt (.word s) c) :
    Scanning.scan .outside (s.toList ++ rest) = .word s :: Scanning.scan .outside rest := by
  rw [spelled] at hs
  cases hchars : s.toList with
  | nil => simp [hchars] at hs
  | cons c more =>
    simp only [hchars, Bool.and_eq_true, List.all_eq_true] at hs
    have hread := Scanning.scan_read rest (start_word hs.1) (fun _ _ hc => if_pos hc) hs.2
      fun d hd => by
        have hd := hrest d hd
        simp only [endsAt, Bool.and_eq_true, Bool.not_eq_true', bne_iff_ne] at hd
        simp [Scanning.next, hd]
    rw [hread, Scanning.finish, ← hchars, String.ofList_toList]
    rfl

theorem scan_number {s : String} (hs : (Token.number s).spelled)
    (hrest : ∀ c ∈ rest.head?, endsAt (.number s) c) :
    Scanning.scan .outside (s.toList ++ rest) = .number s :: Scanning.scan .outside rest := by
  rw [spelled] at hs
  cases hchars : s.toList with
  | nil => simp [hchars] at hs
  | cons c more =>
    simp only [hchars, Bool.and_eq_true, List.all_eq_true, List.forall_mem_cons] at hs
    have hread := Scanning.scan_read rest (start_digit hs.2.1)
      (fun _ _ hc => if_pos (.inl hc)) hs.2.2 fun d hd => by
        have hd := hrest d hd
        simp only [endsAt, Bool.and_eq_true, Bool.not_eq_true', bne_iff_ne] at hd
        have hdigit : d.isDigit = false := by
          by_contra hdigit
          simp [isWordPart, hdigit] at hd
        simp [Scanning.next, hd, hdigit]
    rw [hread, Scanning.finish, ← hchars, String.ofList_toList]
    rfl

theorem scan_quoted {quote : Char} (hquote : quote = '"' ∨ quote = '\'') (s : String)
    (hrest : ∀ c ∈ rest.head?, c ≠ quote) :
    Scanning.scan .outside ((doubled quote s).toList ++ rest) =
      quotedLexeme quote s.toList :: Scanning.scan .outside rest := by
  have hstart : Scanning.next .outside quote = ([], .quoted quote []) := by
    rcases hquote with rfl | rfl <;> rfl
  have hdoubled := Scanning.scan_doubled (s := s.toList) quote [] rest
  have hclosed : Scanning.scan (.closing quote s.toList) rest =
      quotedLexeme quote s.toList :: Scanning.scan .outside rest :=
    Scanning.scan_leave fun d hd => if_neg (hrest d hd)
  rw [List.nil_append, hclosed] at hdoubled
  simp only [doubled, String.toList_ofList, List.cons_append, List.append_assoc,
    Scanning.scan, hstart, List.nil_append]
  exact hdoubled

theorem scan_placeholder (n : Nat) (hrest : ∀ c ∈ rest.head?, isWordPart c = false) :
    Scanning.scan .outside ('$' :: (toString n).toList ++ rest) =
      .placeholder (toString n) :: Scanning.scan .outside rest := by
  have hdigits : (toString n).toList = Nat.toDigits 10 n := Nat.toList_repr
  have hfirst : Scanning.scan .outside ('$' :: (toString n).toList ++ rest) =
      Scanning.scan (.dollar []) ((toString n).toList ++ rest) := rfl
  have hall : ∀ c ∈ (toString n).toList, c.isDigit := by
    intro c hc
    rw [hdigits] at hc
    exact Nat.isDigit_of_mem_toDigits (by decide) (by decide) hc
  have hrun := Scanning.scan_run .dollar Char.isDigit (fun _ _ hc => if_pos hc) hall [] rest
  rw [hfirst, hrun, List.nil_append, hdigits, Scanning.scan_leave]
  · cases hchars : Nat.toDigits 10 n with
    | nil => exact absurd hchars Nat.toDigits_ne_nil
    | cons c more =>
      rw [Scanning.finish, ← hchars, ← hdigits, String.ofList_toList]
      rfl
      exact List.cons_ne_nil c more
  · intro d hd
    have hpart := hrest d hd
    have hdigit : d.isDigit = false := by
      by_contra hdigit
      simp [isWordPart, hdigit] at hpart
    simp [Scanning.next, hpart, hdigit, Nat.toDigits_ne_nil]

theorem scan_operator {s : String}
    (hread : Scanning.scan .outside (s.toList ++ rest) = Scanning.scan (.operator s.toList) rest)
    (hfinish : operatorLexemes s.toList = [.symbol s])
    (hrest : ∀ c ∈ rest.head?, isOperatorPart c = false) :
    Scanning.scan .outside (s.toList ++ rest) = .symbol s :: Scanning.scan .outside rest := by
  rw [hread, Scanning.scan_leave, Scanning.finish, hfinish]
  · rfl
  · intro d hd
    have hpart := hrest d hd
    have hminus : d ≠ '-' := by
      rintro rfl
      cases hpart
    have hstar : d ≠ '*' := by
      rintro rfl
      cases hpart
    simp [Scanning.next, hminus, hstar, hpart]

/-- A token is scanned up to a character that is no part of it. -/
theorem scan_token (sources : List Source) {t : Token} (ht : t.spelled) (hrest : ∀ c ∈ rest.head?, t.endsAt c) :
    Scanning.scan .outside ((tokenText true sources t).toList ++ rest) =
      (t.lexeme? sources).toList ++ Scanning.scan .outside rest := by
  cases t with
  | word s | routine s => exact scan_word ht hrest
  | number s => exact scan_number ht hrest
  | ident s =>
    have hread := scan_quoted (.inl rfl) s fun c hc => by simpa [endsAt] using hrest c hc
    simpa [tokenText, identifier, lexeme?, quotedLexeme] using hread
  | text s =>
    have hread := scan_quoted (.inr rfl) s fun c hc => by simpa [endsAt] using hrest c hc
    simpa [tokenText, lexeme?, quotedLexeme] using hread
  | placeholder source =>
    have hread := scan_placeholder (sources.idxOf source + 1) fun c hc => by
      simpa [endsAt] using hrest c hc
    have hchars : (tokenText true sources (.placeholder source)).toList =
        '$' :: (toString (sources.idxOf source + 1)).toList := by
      rw [tokenText, Postgres.placeholder, String.toList_append]
      rfl
    rw [hchars]
    exact hread
  | symbol s =>
    rw [tokenText]
    show _ = .symbol s :: Scanning.scan .outside rest
    simp only [spelled, List.mem_cons, List.not_mem_nil, or_false, decide_eq_true_eq] at ht
    rcases ht with rfl | rfl | rfl | rfl | ht
    · rfl
    · rfl
    · rfl
    · have hpoint : Scanning.scan .outside (".".toList ++ rest) = Scanning.scan .point rest := rfl
      rw [hpoint, Scanning.scan_leave]
      · rfl
      · intro d hd
        have hdigit : d.isDigit = false := by simpa [endsAt] using hrest d hd
        simp [Scanning.next, hdigit]
    · have hpart : ∀ c ∈ rest.head?, isOperatorPart c = false := by
        intro c hc
        have hends := hrest c hc
        rcases ht with rfl | rfl | rfl | rfl | rfl | rfl | rfl | rfl | rfl | rfl | rfl | rfl <;>
          simpa [endsAt] using hends
      rcases ht with rfl | rfl | rfl | rfl | rfl | rfl | rfl | rfl | rfl | rfl | rfl | rfl <;>
        exact scan_operator rfl (by decide) hpart
  | blank =>
    rw [tokenText]
    rfl

theorem endsAt_of_isGap {t : Token} (h : t.isGap) (c : Char) : t.endsAt c := by
  cases t with
  | symbol s =>
    have hs : s ∈ ["(", ")", ","] := by simpa [isGap] using h
    simp [endsAt, hs]
  | blank => rfl
  | _ => cases h

theorem endsAt_gap {t : Token} (h : t.isGap) (t' : Token) :
    ∀ c ∈ (tokenText true sources t).toList.head?, t'.endsAt c := by
  have hgap : (tokenText true sources t).toList ∈ [[' '], ['('], [')'], [',']] := by
    cases t with
    | symbol s =>
      have hs : s ∈ ["(", ")", ","] := by simpa [isGap] using h
      simp only [List.mem_cons, List.not_mem_nil, or_false] at hs
      rw [tokenText]
      rcases hs with rfl | rfl | rfl <;> decide
    | blank =>
      rw [tokenText]
      decide
    | _ => cases h
  simp only [List.mem_cons, List.not_mem_nil, or_false] at hgap
  intro c hc
  rcases hgap with hgap | hgap | hgap | hgap <;> rw [hgap] at hc <;> cases hc <;>
    cases t' with
    | symbol s => simp [endsAt, isOperatorPart, operatorParts]
    | _ => rfl

theorem head_quoted (quote : Char) (s : String) :
    (doubled quote s).toList.head? = some quote := by
  simp [doubled]

theorem endsAt_minus {t : Token} (ht : t.spelled) (h : t.isAtom) :
    ∀ c ∈ (tokenText true sources t).toList.head?, minus.endsAt c := by
  have begins : ∀ c, isWordStart c ∨ c.isDigit → minus.endsAt c := by
    intro c hc
    have hpart : isOperatorPart c = false := by
      by_contra hpart
      have table : operatorParts.all fun d => !isWordStart d && !d.isDigit := rfl
      have hneither := List.all_eq_true.1 table c (of_decide_eq_true (eq_true_of_ne_false hpart))
      rcases hc with hc | hc <;> simp [hc] at hneither
    exact congrArg not hpart
  intro c hc
  cases t with
  | word s | routine s =>
    rw [tokenText] at hc
    simp only [spelled] at ht
    cases hchars : s.toList with
    | nil => simp [hchars] at ht
    | cons d more =>
      simp only [hchars, List.head?_cons, Option.mem_some_iff, Bool.and_eq_true] at hc ht
      exact begins c (.inl (hc ▸ ht.1))
  | number s =>
    rw [tokenText] at hc
    simp only [spelled] at ht
    cases hchars : s.toList with
    | nil => simp [hchars] at ht
    | cons d more =>
      simp only [hchars, List.head?_cons, Option.mem_some_iff, Bool.and_eq_true,
        List.all_cons] at hc ht
      exact begins c (.inr (hc ▸ ht.2.1))
  | ident s | text s =>
    rw [tokenText] at hc
    have hquote := (head_quoted _ s).symm.trans hc
    cases hquote
    rfl
  | placeholder source =>
    rw [tokenText, Postgres.placeholder, String.toList_append] at hc
    cases hc
    rfl
  | symbol | blank => cases h

/-- A token that may stand behind another begins with no part of it, two minus signs apart. -/
theorem endsAt_of_isBeside {t t' : Token} (ht' : t'.spelled) (h : isBeside t t')
    (hminus : ¬(t = minus ∧ t' = minus)) :
    ∀ c ∈ (tokenText true sources t').toList.head?, t.endsAt c := by
  unfold isBeside at h
  split at h
  · intro c hc
    rw [tokenText] at hc
    cases hc
    rfl
  · next s =>
    intro c hc
    rw [tokenText] at hc
    have hquote := (head_quoted _ s).symm.trans hc
    cases hquote
    rfl
  · simp only [Bool.or_eq_true, Bool.and_eq_true, beq_iff_eq] at h
    rcases h with (hgap | hgap) | ⟨rfl, hatom | rfl⟩
    · exact fun c _ => endsAt_of_isGap hgap c
    · exact endsAt_gap hgap t
    · exact endsAt_minus ht' hatom
    · exact absurd ⟨rfl, rfl⟩ hminus

end Scan

section Chain

variable {sources : List Source}

structure Flows (tokens : List Token) : Prop where
  spelled : ∀ t ∈ tokens, t.spelled
  beside : tokens.IsChain fun t t' => isBeside t t'

def characters (sources : List Source) (tokens : List Token) : List Char :=
  tokens.flatMap fun t => (tokenText true sources t).toList

theorem characters_cons (t : Token) (tokens : List Token) :
    characters sources (t :: tokens) =
      (tokenText true sources t).toList ++ characters sources tokens := List.flatMap_cons ..

theorem tokenText_ne_nil {t : Token} (ht : t.spelled) : (tokenText true sources t).toList ≠ [] := by
  intro hnil
  cases t with
  | word s | routine s | number s =>
    rw [tokenText] at hnil
    simp [spelled, hnil] at ht
  | symbol s =>
    rw [tokenText] at hnil
    simp [String.toList_eq_nil_iff] at hnil
    subst hnil
    cases ht
  | ident s | text s =>
    rw [tokenText] at hnil
    have hquote := (head_quoted _ s).symm.trans (congrArg List.head? hnil)
    cases hquote
  | placeholder source =>
    rw [tokenText, Postgres.placeholder, String.toList_append] at hnil
    cases hnil
  | blank =>
    rw [tokenText] at hnil
    cases hnil

/-- Unless two minus signs stand side by side, a text is scanned as its tokens; otherwise a comment
begins with them. -/
theorem scan_characters (sources : List Source) {tokens : List Token} (h : Flows tokens) :
    (¬[minus, minus] <:+: tokens →
      Scanning.scan .outside (characters sources tokens) = tokens.filterMap (lexeme? sources)) ∧
    ([minus, minus] <:+: tokens →
      .comment ∈ Scanning.scan .outside (characters sources tokens)) := by
  induction tokens with
  | nil => exact ⟨fun _ => rfl, fun hpair => by cases List.eq_nil_of_infix_nil hpair⟩
  | cons t tokens ih =>
    obtain ⟨ht, hspelled⟩ := List.forall_mem_cons.1 h.spelled
    have hrest : Flows tokens := ⟨hspelled, h.beside.tail⟩
    -- The first two minus signs side by side open the comment, whatever stands before them.
    by_cases hminus : [minus, minus] <+: t :: tokens
    · obtain ⟨more, hmore⟩ := hminus
      refine ⟨fun hnot => absurd ⟨[], more, hmore⟩ hnot, fun _ => ?_⟩
      have hchars : characters sources ([minus, minus] ++ more) =
          '-' :: '-' :: characters sources more := by
        rw [List.cons_append, List.singleton_append, characters_cons, characters_cons, minus,
          tokenText]
        rfl
      rw [← hmore, hchars, Scanning.scan_comment]
      exact List.mem_cons_self
    · have hends : ∀ c ∈ (characters sources tokens).head?, t.endsAt c := by
        cases tokens with
        | nil => nofun
        | cons t' tokens =>
          obtain ⟨hbeside, -⟩ := List.isChain_cons_cons.1 h.beside
          have ht' := hspelled t' List.mem_cons_self
          rw [characters_cons, List.head?_append_of_ne_nil _ (tokenText_ne_nil ht')]
          refine endsAt_of_isBeside ht' hbeside fun hboth => hminus ?_
          rw [hboth.1, hboth.2]
          exact List.prefix_append [minus, minus] tokens
      have hscan := scan_token sources ht hends
      obtain ⟨ihscan, ihcomment⟩ := ih hrest
      have hinfix : [minus, minus] <:+: t :: tokens ↔ [minus, minus] <:+: tokens := by
        rw [List.infix_cons_iff, or_iff_right hminus]
      rw [characters_cons, hscan, hinfix]
      refine ⟨fun hnot => ?_, fun hpair => List.mem_append_right _ (ihcomment hpair)⟩
      rw [ihscan hnot]
      cases hlexeme : t.lexeme? sources <;> simp [hlexeme]

end Chain

end Token

end SequenceQuery
