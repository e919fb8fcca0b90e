import SequenceQuery.Proofs.TomlFormats
import Mathlib.Data.List.TakeWhile

namespace SequenceQuery.Text.Hex

theorem digit?_digit {d : Nat} (hd : d < 16) : digit? (digit d) = some d := by
  have table : ∀ i < 16, digit? (digit i) = some i := by decide
  exact table d hd

theorem length_padded (width n : Nat) : (padded width n).length = width := by
  induction width generalizing n with
  | zero => rfl
  | succ width ih => simp [padded, ih]

theorem foldlM_padded (width n : Nat) :
    (padded width n).foldlM (fun n c => do return 16 * n + (← digit? c)) 0 =
      some (n % Nat.pow 16 width) := by
  induction width generalizing n with
  | zero => simp [padded, Nat.mod_one]
  | succ width ih =>
    have hdigit := digit?_digit (Nat.mod_lt n (show 0 < 16 by decide))
    rw [padded, List.foldlM_append, ih]
    simp [hdigit, Nat.pow_succ', Nat.mod_mul, Nat.add_comm]

theorem natural?_padded {width n : Nat} (hwidth : 0 < width) (hn : n < Nat.pow 16 width) :
    natural? (padded width n) = some n := by
  have hne : (padded width n).isEmpty = false := by
    rw [List.isEmpty_eq_false_iff, ← List.length_pos_iff, length_padded]
    exact hwidth
  rw [natural?, hne, if_neg Bool.false_ne_true, foldlM_padded, Nat.mod_eq_of_lt hn]

end SequenceQuery.Text.Hex

namespace SequenceQuery.Toml

section Strings

variable {c : Char} {read rest : List Char} {fuel : Nat}

theorem escaped_point (c : Char) (rest : List Char) (hc : c.toNat < 65536) :
    escaped ('u' :: (Text.Hex.padded 4 c.toNat ++ rest)) = some (c, rest) := by
  have hlength := Text.Hex.length_padded 4 c.toNat
  have htake : (Text.Hex.padded 4 c.toNat ++ rest).take 4 = Text.Hex.padded 4 c.toNat :=
    List.take_left' hlength
  have hdrop : (Text.Hex.padded 4 c.toNat ++ rest).drop 4 = rest := List.drop_left' hlength
  have hvalid : c.toNat.isValidChar := c.valid
  simp [escaped, escaped.codePoint, htake, hdrop, hlength, hvalid,
    Text.Hex.natural?_padded (by decide) (show c.toNat < Nat.pow 16 4 from hc)]

/-- One escaped character is read as that character. -/
theorem basicTail_escape (c : Char) :
    basicTail (fuel + 1) read (escape c ++ rest) = basicTail fuel (c :: read) rest := by
  unfold escape
  split
  case isTrue hc => simp [basicTail, escaped, hc]
  split
  case isTrue hc => simp [basicTail, escaped, hc]
  split
  case isTrue hc => simp [basicTail, escaped, hc]
  split
  case isTrue hc =>
    have hpoint := escaped_point c rest (by omega)
    simp [basicTail, hpoint]
  case isFalse hquote hbackslash _ hplain =>
    have : isPlain c := by
      simp only [isPlain, Bool.or_eq_true, Bool.and_eq_true, decide_eq_true_eq, bne_iff_ne]
      omega
    simp [basicTail, *]

theorem basicTail_escaped (fuel : Nat) (read rest s : List Char) (hfuel : s.length < fuel) :
    basicTail fuel read (s.flatMap escape ++ '"' :: rest) =
      some (String.ofList (read.reverse ++ s), rest) := by
  induction s generalizing fuel read with
  | nil =>
    obtain ⟨fuel, rfl⟩ := Nat.exists_eq_add_of_lt hfuel
    simp [basicTail]
  | cons c s ih =>
    obtain ⟨fuel, rfl⟩ := Nat.exists_eq_add_of_lt hfuel
    rw [List.flatMap_cons, List.append_assoc, basicTail_escape, ih _ _ (by simp; omega)]
    simp

theorem length_le_flatMap_escape (s : List Char) : s.length ≤ (s.flatMap escape).length := by
  induction s with
  | nil => simp
  | cons c s ih =>
    have hc : 1 ≤ (escape c).length := by
      unfold escape
      repeat' split
      all_goals simp
    simp only [List.flatMap_cons, List.length_append, List.length_cons]
    omega

theorem escape_ne_quote (c : Char) (rest more : List Char) : escape c ++ rest ≠ '"' :: more := by
  unfold escape
  repeat' split
  all_goals simp_all

theorem simpleKey_quoted (s : String) (rest : List Char) :
    simpleKey ((quoted s).toList ++ rest) = some (s, rest) := by
  have hlength := length_le_flatMap_escape s.toList
  have hread := basicTail_escaped ((s.toList.flatMap escape ++ '"' :: rest).length + 1) [] rest
    s.toList (by rw [List.length_append]; omega)
  simpa [quoted, simpleKey] using hread

/-- A text between quotes is read up to the closing one, unless it is empty and a third quote
follows. -/
theorem string_quoted (s : String) (hrest : ∀ more, rest ≠ '"' :: more) :
    string ((quoted s).toList ++ rest) = some (s, rest) := by
  have hkey := simpleKey_quoted s rest
  have hquoted : (quoted s).toList ++ rest = '"' :: (s.toList.flatMap escape ++ '"' :: rest) := by
    simp [quoted]
  have htail : ∀ more, s.toList.flatMap escape ++ '"' :: rest ≠ '"' :: '"' :: more := by
    intro more h
    cases hs : s.toList with
    | nil =>
      rw [hs] at h
      simp only [List.flatMap_nil, List.nil_append, List.cons.injEq, true_and] at h
      exact hrest more h
    | cons c cs =>
      rw [hs, List.flatMap_cons, List.append_assoc] at h
      exact escape_ne_quote c _ _ h
  rw [hquoted] at hkey ⊢
  rw [simpleKey] at hkey
  rw [← hkey, string]
  exact htail

end Strings

section Words

theorem word_append {w : List Char} (hw : ∀ c ∈ w, isWordChar c) (rest : List Char) :
    word (w ++ '\n' :: rest) = (w, '\n' :: rest) := by
  have hfirst : (w ++ '\n' :: rest).takeWhile isWordChar = w := by
    rw [List.takeWhile_append_of_pos hw]
    exact List.append_nil w
  have hrest : (w ++ '\n' :: rest).drop w.length = '\n' :: rest := List.drop_left
  rw [word, hfirst, hrest]
  rfl

theorem value_word {w : List Char} {v : Toml} {fuel depth : Nat} (hne : w ≠ [])
    (hw : ∀ c ∈ w, isWordChar c) (hv : wordValue w = some v) (rest : List Char) :
    value (fuel + 1) depth (w ++ '\n' :: rest) = some (v, '\n' :: rest) := by
  have hword := word_append hw rest
  cases w with
  | nil => exact absurd rfl hne
  | cons c w =>
    have hc := hw c List.mem_cons_self
    have hopen : ∀ d, isWordChar d = false → ∀ more, c :: (w ++ '\n' :: rest) ≠ d :: more := by
      intro d hd more heq
      rw [← (List.cons.inj heq).1, hc] at hd
      exact Bool.noConfusion hd
    rw [List.cons_append] at hword ⊢
    rw [value]
    · simp [hword, hv]
    · exact hopen '"' (by decide)
    · exact hopen '\'' (by decide)
    · exact hopen '[' (by decide)
    · exact hopen '\x7b' (by decide)

variable {c : Char} {cs : List Char}

theorem digit?_of_isDigit (h : c.isDigit) : Text.Hex.digit? c = some (c.toNat - 48) := by
  simp only [Char.isDigit, Bool.and_eq_true, decide_eq_true_eq] at h
  rw [Text.Hex.digit?, if_pos (by simpa only [Char.le_def] using h)]

theorem foldlM_digits (h : ∀ c ∈ cs, c.isDigit) (n : Nat) :
    cs.foldlM (fun n c => do
      let d ← Text.Hex.digit? c
      if d < 10 then some (n * 10 + d) else none) n = some (Nat.ofDigitChars 10 cs n) := by
  induction cs generalizing n with
  | nil => simp
  | cons c cs ih =>
    have hc := h c List.mem_cons_self
    have hdigit := digit?_of_isDigit hc
    have hlt : c.toNat - 48 < 10 := by
      have := Char.isDigit_iff_toNat.1 hc
      simp at this
      omega
    rw [Nat.ofDigitChars_cons, ← ih fun d hd => h d (List.mem_cons_of_mem _ hd)]
    simp [hdigit, hlt, Nat.mul_comm]

theorem digitsIn_digits (hne : cs ≠ []) (h : ∀ c ∈ cs, c.isDigit) :
    digitsIn 10 cs = some (Nat.ofDigitChars 10 cs 0) := by
  have hunderscore : '_' ∉ cs := fun hmem => absurd (h '_' hmem) (by decide)
  have hempty : [cs].any List.isEmpty = false := by simpa using hne
  rw [digitsIn, List.splitOn_eq_singleton hunderscore, hempty, if_neg Bool.false_ne_true,
    List.flatten_singleton]
  exact foldlM_digits h 0

theorem eq_zero_of_toDigits {n : Nat} (h : Nat.toDigits 10 n = '0' :: cs) : n = 0 := by
  induction n using Nat.strongRecOn generalizing cs with
  | ind n ih =>
    rw [Nat.toDigits_eq_if (by decide)] at h
    split at h
    case isTrue hn =>
      have table : ∀ d < 10, Nat.digitChar d = '0' → d = 0 := by decide
      exact table n hn (List.cons.inj h).1
    case isFalse hn =>
      obtain ⟨d, ds, hds⟩ :=
        List.exists_cons_of_ne_nil (Nat.toDigits_ne_nil (b := 10) (n := n / 10))
      rw [hds, List.cons_append] at h
      obtain ⟨rfl, -⟩ := List.cons.inj h
      have := ih (n / 10) (Nat.div_lt_self (by omega) (by decide)) hds
      omega

theorem isDigit_toDigits {n : Nat} (h : c ∈ Nat.toDigits 10 n) : c.isDigit :=
  Nat.isDigit_of_mem_toDigits (by decide) (by decide) h

theorem decimal_toDigits (n : Nat) : decimal (Nat.toDigits 10 n) = some n := by
  have hdigits : digitsIn 10 (Nat.toDigits 10 n) = some n := by
    rw [digitsIn_digits Nat.toDigits_ne_nil fun _ => isDigit_toDigits,
      Nat.ofDigitChars_ten_toDigits]
  unfold decimal
  split
  case h_1 d ds heq =>
    obtain rfl := eq_zero_of_toDigits heq
    simp at heq
  case h_2 => exact hdigits

theorem wordValue_decimal {w ds : List Char} {negative : Bool} {n : Nat}
    (hw : ∀ c ∈ w, c.isDigit ∨ c = '-') (hsign : unsign w = (negative, ds))
    (hn : decimal ds = some n) :
    wordValue w = inRange (if negative then -(n : Int) else n) := by
  have hmark : ∀ d ∈ ['t', 'f', 'x', 'o', 'b'], d ∉ w := by
    intro d hd hmem
    have table : ['t', 'f', 'x', 'o', 'b'].all fun d => !d.isDigit && d != '-' := by decide
    obtain ⟨hdigit, hminus⟩ : d.isDigit = false ∧ d ≠ '-' := by
      simpa using List.all_eq_true.1 table d hd
    exact (hw d hmem).elim (ne_true_of_eq_false hdigit) hminus
  rw [wordValue]
  · simp [hsign, hn]
  all_goals
    intros
    subst w
    simp at hmark

theorem unsign_digits {ds : List Char} (h : ∀ c ∈ ds, c.isDigit) : unsign ds = (false, ds) := by
  unfold unsign
  split
  case h_1 => exact absurd (h '-' List.mem_cons_self) (by decide)
  case h_2 => exact absurd (h '+' List.mem_cons_self) (by decide)
  case h_3 => rfl

/-- How an integer is written: its digits, behind a sign if it is negative. -/
theorem toList_toString (n : Int) : (toString n).toList =
    (if n < 0 then ['-'] else []) ++ Nat.toDigits 10 n.natAbs := by
  rw [Int.toString_eq_repr, Int.repr_eq_if]
  split
  case isTrue hn =>
    rw [if_neg (by omega), List.nil_append, Nat.toList_repr, show n.natAbs = n.toNat by omega]
  case isFalse hn =>
    rw [if_pos (by omega), String.toList_append, Nat.toList_repr,
      show n.natAbs = (-n).toNat by omega]
    rfl

theorem mem_toString {n : Int} (h : c ∈ (toString n).toList) : c.isDigit ∨ c = '-' := by
  rw [toList_toString, List.mem_append] at h
  rcases h with h | h
  · split at h
    · exact .inr (List.mem_singleton.1 h)
    · exact absurd h List.not_mem_nil
  · exact .inl (isDigit_toDigits h)

theorem wordValue_toString (n : Int) : wordValue (toString n).toList = inRange n := by
  have hdigits := unsign_digits fun _ => isDigit_toDigits (n := n.natAbs)
  have hsign : unsign (toString n).toList = (decide (n < 0), Nat.toDigits 10 n.natAbs) := by
    rw [toList_toString]
    split
    case isTrue hn => simp [unsign, hn]
    case isFalse hn => simpa [hn] using hdigits
  rw [wordValue_decimal (fun _ => mem_toString) hsign (decimal_toDigits _)]
  congr 1
  split
  case isTrue hn =>
    have := of_decide_eq_true hn
    omega
  case isFalse hn =>
    have := mt decide_eq_true hn
    omega

theorem isWordChar_toString (n : Int) : ∀ c ∈ (toString n).toList, isWordChar c := by
  intro c hc
  rcases mem_toString hc with hdigit | rfl
  · simp [isWordChar, Char.isAlphanum, hdigit]
  · decide

theorem toString_ne_nil (n : Int) : (toString n).toList ≠ [] := by
  rw [toList_toString]
  exact List.append_ne_nil_of_right_ne_nil _ Nat.toDigits_ne_nil

end Words

section Lines

variable {c : Char} {cs rest : List Char} {v : Toml} {fuel depth : Nat}

def skipped : List Char := [' ', '\t', '#', '\n', '\r']

theorem skipLines_cons (h : c ∉ skipped) : skipLines fuel (c :: cs) = c :: cs := by
  simp only [skipped, List.mem_cons, List.not_mem_nil, or_false, not_or] at h
  obtain ⟨hblank, htab, hhash, hline, hreturn⟩ := h
  cases fuel with
  | zero => rfl
  | succ fuel => simp [skipLines, skipSpace, isSpace, skipComment, newline?, *]

theorem skipLines_space (h : c ∉ skipped) : skipLines (fuel + 1) (' ' :: c :: cs) = c :: cs := by
  simp only [skipped, List.mem_cons, List.not_mem_nil, or_false, not_or] at h
  obtain ⟨hblank, htab, hhash, hline, hreturn⟩ := h
  simp [skipLines, skipSpace, isSpace, skipComment, newline?, *]

theorem skipSpace_space (h : c ∉ skipped) : skipSpace (' ' :: c :: cs) = c :: cs := by
  simp only [skipped, List.mem_cons, not_or] at h
  simp [skipSpace, isSpace, h]

inductive OnLine : Toml → Prop
  | str (s : String) : OnLine (.str s)
  | int {n : Int} (h : Is64Bit n) : OnLine (.int n)
  | bool (b : Bool) : OnLine (.bool b)
  | empty : OnLine (.arr [])

theorem OnLine.exists_cons (h : OnLine v) :
    ∃ c cs, (valueText v).toList = c :: cs ∧ c ∉ skipped := by
  cases h with
  | str s => exact ⟨'"', _, by simp [valueText, quoted]; rfl, by decide⟩
  | bool b =>
    cases b
    · exact ⟨'f', _, rfl, by decide⟩
    · exact ⟨'t', _, rfl, by decide⟩
  | empty => exact ⟨'[', _, rfl, by decide⟩
  | @int n h =>
    obtain ⟨c, cs, hcs⟩ := List.exists_cons_of_ne_nil (toString_ne_nil n)
    have hc := isWordChar_toString n c (hcs ▸ List.mem_cons_self)
    refine ⟨c, cs, by rw [valueText, hcs], fun hmem => ?_⟩
    have table : skipped.all fun d => !isWordChar d := by decide
    have hskipped := List.all_eq_true.1 table c hmem
    rw [hc] at hskipped
    exact Bool.noConfusion hskipped

theorem OnLine.value (h : OnLine v) (fuel : Nat) (rest : List Char) :
    Toml.value (fuel + 1) depthLimit ((valueText v).toList ++ '\n' :: rest) =
      some (v, '\n' :: rest) := by
  cases h with
  | str s =>
    have hstring : string ((quoted s).toList ++ '\n' :: rest) = some (s, '\n' :: rest) :=
      string_quoted s (by simp)
    rw [valueText]
    rw [show (quoted s).toList ++ '\n' :: rest = '"' :: (s.toList.flatMap escape ++ '"' :: '\n' ::
      rest) by simp [quoted]] at hstring ⊢
    simp [Toml.value, hstring]
  | @int n h =>
    exact value_word (toString_ne_nil n) (isWordChar_toString n)
      ((wordValue_toString n).trans (if_pos h)) rest
  | bool b =>
    cases b
    · exact value_word (w := "false".toList) (by decide) (List.all_eq_true.1 (by decide)) rfl rest
    · exact value_word (w := "true".toList) (by decide) (List.all_eq_true.1 (by decide)) rfl rest
  | empty =>
    have hskip : skipLines (rest.length + 2) (']' :: '\n' :: rest) = ']' :: '\n' :: rest :=
      skipLines_cons (by decide)
    have hlevel : ¬depthLimit ≤ 1 := by decide
    simp [valueText, Toml.value, hlevel, hskip]

theorem lineEnd_newline : lineEnd ('\n' :: rest) = some rest := by
  simp [lineEnd, skipSpace, isSpace, skipComment, newline?]

end Lines

section Keys

variable {c : Char} {key : String} {path : List String} {more : List Char}

def excluded : List Char := '[' :: Char.ofNat 0xFEFF :: skipped

theorem keyText_cons (key : String) : ∃ c cs, (keyText key).toList = c :: cs ∧ c ∉ excluded := by
  rw [keyText]
  split
  case isTrue hbare =>
    obtain ⟨hne, hall⟩ := hbare
    obtain ⟨c, cs, hcs⟩ := List.exists_cons_of_ne_nil (mt String.toList_eq_nil_iff.1 hne)
    have hc := List.all_eq_true.1 hall c (hcs ▸ List.mem_cons_self)
    refine ⟨c, cs, hcs, fun hmem => ?_⟩
    have table : excluded.all fun d => !isBare d := by decide
    have hexcluded := List.all_eq_true.1 table c hmem
    rw [hc] at hexcluded
    exact Bool.noConfusion hexcluded
  case isFalse => exact ⟨'"', _, by simp [quoted]; rfl, by decide⟩

theorem not_mem_skipped (h : c ∉ excluded) : c ∉ skipped :=
  fun hmem => h (List.mem_cons_of_mem _ (List.mem_cons_of_mem _ hmem))

theorem ne_bracket (h : c ∉ excluded) : c ≠ '[' := fun heq => h (heq ▸ List.mem_cons_self)

theorem simpleKey_keyText (hc : isBare c = false) :
    simpleKey ((keyText key).toList ++ c :: more) = some (key, c :: more) := by
  rw [keyText]
  split
  case isFalse => exact simpleKey_quoted key (c :: more)
  case isTrue hbare =>
    obtain ⟨hne, hall⟩ := hbare
    have hword : (key.toList ++ c :: more).takeWhile isBare = key.toList := by
      rw [List.takeWhile_append_of_pos (List.all_eq_true.1 hall), List.takeWhile_cons, hc]
      exact List.append_nil _
    have hrest : (key.toList ++ c :: more).drop key.toList.length = c :: more := List.drop_left
    obtain ⟨d, ds, hds⟩ := List.exists_cons_of_ne_nil (mt String.toList_eq_nil_iff.1 hne)
    have hd := List.all_eq_true.1 hall d (hds ▸ List.mem_cons_self)
    rw [simpleKey]
    · rw [hword, hrest]
      simp [hne]
    all_goals
      intro ds' heq
      rw [hds, List.cons_append] at heq
      rw [(List.cons.inj heq).1] at hd
      exact absurd hd (by decide)

theorem toList_pathText_cons {next : String} : (pathText (key :: next :: path)).toList =
    (keyText key).toList ++ '.' :: (pathText (next :: path)).toList := by
  simp [pathText]

theorem skipSpace_keyText (cs : List Char) :
    skipSpace ((keyText key).toList ++ cs) = (keyText key).toList ++ cs := by
  obtain ⟨c, ds, hds, hc⟩ := keyText_cons key
  replace hc := not_mem_skipped hc
  rw [hds, List.cons_append]
  simp only [skipped, List.mem_cons, not_or] at hc
  simp [skipSpace, isSpace, hc]

theorem dottedKey_pathText {fuel : Nat} (hne : path ≠ []) (hfuel : path.length ≤ fuel)
    (hc : isBare c = false) (hpoint : ∀ cs, skipSpace (c :: more) ≠ '.' :: cs) :
    dottedKey fuel ((pathText path).toList ++ c :: more) =
      some (path, skipSpace (c :: more)) := by
  induction path generalizing fuel with
  | nil => exact absurd rfl hne
  | cons key path ih =>
    obtain ⟨fuel, rfl⟩ : ∃ n, fuel = n + 1 := ⟨fuel - 1, by simp at hfuel; omega⟩
    cases path with
    | nil =>
      have hpath : (pathText [key]).toList = (keyText key).toList := by simp [pathText]
      rw [hpath, dottedKey, skipSpace_keyText, simpleKey_keyText hc]
      simp only [Option.bind_eq_bind, Option.bind_some]
      rfl
    | cons next path =>
      have hrest := ih (List.cons_ne_nil _ _) (show _ ≤ fuel by simp at hfuel ⊢; omega)
      have hkey : simpleKey ((keyText key).toList ++ '.' :: ((pathText (next :: path)).toList ++
          c :: more)) = some (key, '.' :: ((pathText (next :: path)).toList ++ c :: more)) :=
        simpleKey_keyText (by decide)
      rw [toList_pathText_cons, List.append_assoc, List.cons_append, dottedKey, skipSpace_keyText,
        hkey]
      simp [skipSpace, isSpace] at hrest ⊢
      simp [hrest]

end Keys

section Sections

variable {rest : List Char} {a : Assignment} {s : Section}

def IsLine (a : Assignment) : Prop := ∃ key, a.1 = [key] ∧ OnLine a.2

theorem assignment_lineText (ha : IsLine a) (rest : List Char) :
    assignment ((lineText a).toList ++ rest) = some (a, rest) := by
  obtain ⟨path, v⟩ := a
  obtain ⟨key, rfl, hv⟩ := ha
  obtain ⟨c, cs, hcs, hc⟩ := hv.exists_cons
  have hkey : Toml.key ((pathText [key]).toList ++ ' ' :: '=' :: ' ' :: ((valueText v).toList ++
      '\n' :: rest)) = some ([key], '=' :: ' ' :: ((valueText v).toList ++ '\n' :: rest)) :=
    dottedKey_pathText (List.cons_ne_nil _ _) (show 1 ≤ depthLimit - 1 by decide) (by decide)
      (by simp [skipSpace, isSpace])
  have hvalue := fun fuel => hv.value fuel rest
  have hline : (lineText ([key], v)).toList ++ rest = (pathText [key]).toList ++
      ' ' :: '=' :: ' ' :: ((valueText v).toList ++ '\n' :: rest) := by simp [lineText]
  rw [hline, assignment, hkey]
  simp only [hcs, List.cons_append] at hvalue ⊢
  simp [skipSpace_space hc, hvalue, lineEnd_newline]

theorem lineText_cons (ha : IsLine a) : ∃ c cs, (lineText a).toList = c :: cs ∧ c ∉ excluded := by
  obtain ⟨path, v⟩ := a
  obtain ⟨key, rfl, -⟩ := ha
  obtain ⟨c, cs, hcs, hc⟩ := keyText_cons key
  exact ⟨c, _, by simp [lineText, pathText, hcs]; rfl, hc⟩

/-- A document ends, or it goes on with a header. -/
def EndsLines (rest : List Char) : Prop := rest = [] ∨ ∃ more, rest = '\n' :: '[' :: more

theorem assignments_lineText {as : List Assignment} (has : ∀ a ∈ as, IsLine a)
    (hrest : EndsLines rest) {fuel : Nat} (hfuel : as.length < fuel) :
    assignments fuel (as.flatMap (fun a => (lineText a).toList) ++ rest) =
      some (as, rest.tail) := by
  induction as generalizing fuel with
  | nil =>
    obtain ⟨fuel, rfl⟩ : ∃ n, fuel = n + 1 := ⟨fuel - 1, by simp at hfuel; omega⟩
    rcases hrest with rfl | ⟨more, rfl⟩
    · rfl
    · have hbracket : skipLines (more.length + 2) ('[' :: more) = '[' :: more :=
        skipLines_cons (by decide)
      have hskip : skipLines (more.length + 3) ('\n' :: '[' :: more) = '[' :: more := by
        rw [skipLines]
        simpa [skipSpace, isSpace, skipComment, newline?] using hbracket
      simp [assignments, hskip]
  | cons a as ih =>
    obtain ⟨fuel, rfl⟩ : ∃ n, fuel = n + 1 := ⟨fuel - 1, by omega⟩
    obtain ⟨ha, has⟩ := List.forall_mem_cons.1 has
    have hone := assignment_lineText ha (as.flatMap (fun a => (lineText a).toList) ++ rest)
    have hmore := ih has (show _ < fuel by simp at hfuel; omega)
    obtain ⟨c, cs, hcs, hc⟩ := lineText_cons ha
    have hskip : ∀ fuel more, skipLines fuel (c :: more) = c :: more :=
      fun _ _ => skipLines_cons (not_mem_skipped hc)
    rw [List.flatMap_cons, List.append_assoc]
    rw [hcs, List.cons_append] at hone ⊢
    simp [assignments, hskip, ne_bracket hc, hone, hmore]

def Header.path : Header → List String
  | .table path => path
  | .element path => path

def HasPath (h : Header) : Prop := h.path ≠ [] ∧ h.path.length < depthLimit

theorem pathText_cons {path : List String} (hne : path ≠ []) :
    ∃ c cs, (pathText path).toList = c :: cs ∧ c ∉ excluded := by
  obtain ⟨key, path, rfl⟩ := List.exists_cons_of_ne_nil hne
  obtain ⟨c, cs, hcs, hc⟩ := keyText_cons key
  cases path with
  | nil => exact ⟨c, cs, by simpa [pathText] using hcs, hc⟩
  | cons next path => exact ⟨c, _, by rw [toList_pathText_cons, hcs]; rfl, hc⟩

theorem header_text {h : Header} (hpath : HasPath h) (rest : List Char) :
    header (h.text.toList ++ '\n' :: rest) = some (h, rest) := by
  obtain ⟨hne, hlength⟩ := hpath
  have hkey : ∀ more, Toml.key ((pathText h.path).toList ++ ']' :: more) =
      some (h.path, ']' :: more) := fun more =>
    dottedKey_pathText hne (by rw [depthLimit] at hlength ⊢; omega) (by decide)
      (by simp [skipSpace, isSpace])
  obtain ⟨c, cs, hcs, hc⟩ := pathText_cons hne
  cases h with
  | table path =>
    have htext : (Header.table path).text.toList ++ '\n' :: rest =
        '[' :: ((pathText path).toList ++ ']' :: '\n' :: rest) := by simp [Header.text]
    have hkey := hkey ('\n' :: rest)
    rw [Header.path] at hcs hkey
    rw [htext]
    rw [hcs, List.cons_append] at hkey ⊢
    rw [header]
    · simp [hkey, lineEnd_newline]
    · intro more heq
      exact ne_bracket hc (List.cons.inj heq).1
  | element path =>
    have htext : (Header.element path).text.toList ++ '\n' :: rest =
        '[' :: '[' :: ((pathText path).toList ++ ']' :: ']' :: '\n' :: rest) := by
      simp [Header.text]
    have hkey := hkey (']' :: '\n' :: rest)
    rw [Header.path] at hkey
    rw [htext, header, hkey]
    simp [lineEnd_newline]

structure IsSection (s : Section) : Prop where
  path : HasPath s.1
  lines : ∀ a ∈ s.2, IsLine a

theorem toList_sectionText (s : Section) : (sectionText s).toList =
    '\n' :: (s.1.text.toList ++ '\n' :: s.2.flatMap fun a => (lineText a).toList) := by
  simp [sectionText, String.toList_join, List.flatMap_map]

theorem endsLines_sections (ss : List Section) :
    EndsLines (ss.flatMap fun s => (sectionText s).toList) := by
  cases ss with
  | nil => exact .inl rfl
  | cons s ss =>
    obtain ⟨more, hmore⟩ : ∃ more, s.1.text.toList = '[' :: more := by
      cases s.1 with
      | table path => exact ⟨_, by simp [Header.text]; rfl⟩
      | element path => exact ⟨_, by simp [Header.text]; rfl⟩
    exact .inr ⟨_, by rw [List.flatMap_cons, toList_sectionText, hmore]; rfl⟩

theorem mul_length_le_flatMap {α β : Type} {f : α → List β} {k : Nat}
    (h : ∀ a, k ≤ (f a).length) (l : List α) : k * l.length ≤ (l.flatMap f).length := by
  induction l with
  | nil => simp
  | cons a l ih =>
    have ha := h a
    rw [List.flatMap_cons, List.length_append, List.length_cons, Nat.mul_succ]
    omega

theorem length_lines (as : List Assignment) :
    1 * as.length ≤ (as.flatMap fun a => (lineText a).toList).length :=
  mul_length_le_flatMap (fun a => by simp [lineText]; omega) as

theorem sections_sectionText {ss : List Section} (hss : ∀ s ∈ ss, IsSection s) {fuel : Nat}
    (hfuel : ss.length < fuel) :
    sections fuel (ss.flatMap fun s => (sectionText s).toList).tail = some ss := by
  induction ss generalizing fuel with
  | nil =>
    obtain ⟨fuel, rfl⟩ : ∃ n, fuel = n + 1 := ⟨fuel - 1, by simp at hfuel; omega⟩
    rfl
  | cons s ss ih =>
    obtain ⟨fuel, rfl⟩ : ∃ n, fuel = n + 1 := ⟨fuel - 1, by omega⟩
    obtain ⟨hs, hss⟩ := List.forall_mem_cons.1 hss
    have hmore := ih hss (show _ < fuel by simp at hfuel; omega)
    have hends := endsLines_sections ss
    have hlength := length_lines s.2
    rw [List.flatMap_cons, toList_sectionText, List.cons_append, List.tail_cons, List.append_assoc,
      List.cons_append]
    generalize hbehind : ss.flatMap (fun s => (sectionText s).toList) = behind at *
    have hlines := assignments_lineText hs.lines hends
      (show s.2.length < (s.2.flatMap (fun a => (lineText a).toList) ++ behind).length + 1 by
        rw [List.length_append]; omega)
    have hheader := header_text hs.path (s.2.flatMap (fun a => (lineText a).toList) ++ behind)
    generalize s.2.flatMap (fun a => (lineText a).toList) ++ behind = body at hlines hheader ⊢
    obtain ⟨c, cs, hcs⟩ : ∃ c cs, s.1.text.toList = c :: cs := by
      cases s.1 <;> exact ⟨'[', _, by simp [Header.text]; rfl⟩
    rw [hcs, List.cons_append] at hheader ⊢
    simp [sections, hheader, hlines, hmore]

theorem toList_document (entries : List (String × Toml)) : (document entries).toList =
    ((lines entries).flatMap fun a => (lineText a).toList) ++
      (sectionsOf entries).flatMap fun s => (sectionText s).toList := by
  simp [document, String.toList_join, List.flatMap_map]

theorem head_document {entries : List (String × Toml)} (hlines : ∀ a ∈ lines entries, IsLine a) :
    (document entries).toList = [] ∨
      ∃ c cs, (document entries).toList = c :: cs ∧ c.toNat ≠ 0xFEFF := by
  rw [toList_document]
  cases hcases : lines entries with
  | cons a as =>
    obtain ⟨c, cs, hcs, hc⟩ := lineText_cons (hlines a (hcases ▸ List.mem_cons_self))
    refine .inr ⟨c, _, by rw [List.flatMap_cons, hcs]; rfl, fun hmark => hc ?_⟩
    have heq : c = Char.ofNat 0xFEFF := by rw [← hmark, Char.ofNat_toNat]
    exact heq ▸ List.mem_cons_of_mem _ List.mem_cons_self
  | nil =>
    rcases endsLines_sections (sectionsOf entries) with hsections | ⟨more, hsections⟩
    · exact .inl (by rw [hsections]; rfl)
    · exact .inr ⟨'\n', '[' :: more, by rw [hsections]; rfl, by decide⟩

/-- Without a mark in front of it a document is its assignments with its sections. -/
theorem parse?_of_head {text : String}
    (h : text.toList = [] ∨ ∃ c cs, text.toList = c :: cs ∧ c.toNat ≠ 0xFEFF) :
    parse? text = (do
      let (top, rest) ← assignments (text.toList.length + 1) text.toList
      ofSections top (← sections (rest.length + 1) rest)) := by
  rcases h with h | ⟨c, cs, h, hc⟩
  · simp [parse?, h]
  · simp [parse?, h, hc]

/-- A written document is read as the sections that it is written of. -/
theorem parse?_document {entries : List (String × Toml)} (hlines : ∀ a ∈ lines entries, IsLine a)
    (hsections : ∀ s ∈ sectionsOf entries, IsSection s) :
    parse? (document entries) = ofSections (lines entries) (sectionsOf entries) := by
  rw [parse?_of_head (head_document hlines), toList_document]
  have hends := endsLines_sections (sectionsOf entries)
  have hlength := length_lines (lines entries)
  have hcount : 2 * (sectionsOf entries).length ≤
      ((sectionsOf entries).flatMap fun s => (sectionText s).toList).length :=
    mul_length_le_flatMap (fun s => by simp [toList_sectionText]; omega) _
  have hrest := sections_sectionText hsections (show (sectionsOf entries).length <
    ((sectionsOf entries).flatMap fun s => (sectionText s).toList).tail.length + 1 by
      rw [List.length_tail]; omega)
  generalize ((sectionsOf entries).flatMap fun s => (sectionText s).toList) = behind at *
  have htop := assignments_lineText hlines hends (show (lines entries).length <
    ((lines entries).flatMap (fun a => (lineText a).toList) ++ behind).length + 1 by
      rw [List.length_append]; omega)
  rw [htop]
  simp only [Option.bind_eq_bind, Option.bind_some, hrest]

end Sections

end SequenceQuery.Toml
