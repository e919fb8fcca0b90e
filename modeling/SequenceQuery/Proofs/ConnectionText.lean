import SequenceQuery.Config.Connect
import SequenceQuery.Text.Blank

namespace SequenceQuery.ConnectionText

open ConnectOptions (quoteValue)

inductive Reading
  | between
  | key (read : List Char)
  /-- Behind the equals sign. -/
  | opening (key : List Char)
  | value (quoted : Bool) (key read : List Char)
  /-- Behind a backslash, which makes the next character literal. -/
  | literal (quoted : Bool) (key read : List Char)
  /-- Behind a closing quote. -/
  | closed

def pair (key value : List Char) : String × String := (.ofList key, .ofList value)

def pairs? : Reading → List Char → Option (List (String × String))
  | .between, [] | .closed, [] => some []
  | .value false key read, [] => some [pair key read]
  | _, [] => none
  | .between, c :: cs => if Text.isBlank c then pairs? .between cs else pairs? (.key [c]) cs
  | .key read, c :: cs =>
    if c = '=' then pairs? (.opening read) cs
    else if Text.isBlank c then none
    else pairs? (.key (read ++ [c])) cs
  | .opening key, c :: cs =>
    if c = '\'' then pairs? (.value true key []) cs
    else if c = '\\' then pairs? (.literal false key []) cs
    else if Text.isBlank c then none
    else pairs? (.value false key [c]) cs
  | .value quoted key read, c :: cs =>
    if c = '\\' then pairs? (.literal quoted key read) cs
    else if quoted && c = '\'' then (pairs? .closed cs).map (pair key read :: ·)
    else if !quoted && Text.isBlank c then (pairs? .between cs).map (pair key read :: ·)
    else pairs? (.value quoted key (read ++ [c])) cs
  | .literal quoted key read, c :: cs => pairs? (.value quoted key (read ++ [c])) cs
  | .closed, c :: cs => if Text.isBlank c then pairs? .between cs else none

def read? (text : String) : Option (List (String × String)) := pairs? .between text.toList

def isPlain (c : Char) : Bool := !Text.isBlank c && c != '=' && c != '\'' && c != '\\'

variable {key read word rest : List Char}

theorem pairs?_key (read rest : List Char) (hword : word.all isPlain) :
    pairs? (.key read) (word ++ '=' :: rest) = pairs? (.opening (read ++ word)) rest := by
  induction word generalizing read with
  | nil => simp [pairs?]
  | cons c word ih =>
    simp only [List.all_cons, Bool.and_eq_true, isPlain, Bool.not_eq_true', bne_iff_ne] at hword
    obtain ⟨⟨⟨⟨hblank, hequals⟩, -⟩, -⟩, hword⟩ := hword
    have hrest := ih (read ++ [c]) (by simpa [isPlain] using hword)
    simpa [pairs?, hblank, hequals] using hrest

/-- A key is read up to the equals sign behind it. -/
theorem pairs?_between (hne : key ≠ []) (hkey : key.all isPlain) :
    pairs? .between (key ++ '=' :: rest) = pairs? (.opening key) rest := by
  cases key with
  | nil => exact absurd rfl hne
  | cons c word =>
    rw [List.all_cons, Bool.and_eq_true] at hkey
    have hblank : Text.isBlank c = false := by
      have hc := hkey.1
      simp only [isPlain, Bool.and_eq_true, Bool.not_eq_true'] at hc
      exact hc.1.1.1
    simpa [pairs?, hblank] using pairs?_key [c] rest hkey.2

/-- Whatever a value is, it is read up to the quote behind it. -/
theorem pairs?_quoted (key read rest value : List Char) :
    pairs? (.value true key read)
        (value.flatMap (fun c => if c = '\\' ∨ c = '\'' then ['\\', c] else [c]) ++ '\'' :: rest) =
      (pairs? .closed rest).map (pair key (read ++ value) :: ·) := by
  induction value generalizing read with
  | nil => simp [pairs?]
  | cons c value ih =>
    have hrest := ih (read ++ [c])
    rw [List.append_assoc, List.singleton_append] at hrest
    by_cases hescaped : c = '\\' ∨ c = '\''
    · rw [List.flatMap_cons, if_pos hescaped]
      simpa [pairs?] using hrest
    · rw [List.flatMap_cons, if_neg hescaped]
      obtain ⟨hbackslash, hquote⟩ := not_or.1 hescaped
      simpa [pairs?, hbackslash, hquote] using hrest

theorem pairs?_opening_quoted (value : String) :
    pairs? (.opening key) ((quoteValue value).toList ++ rest) =
      (pairs? .closed rest).map ((.ofList key, value) :: ·) := by
  have hvalue := pairs?_quoted key [] rest value.toList
  simpa [quoteValue, pairs?, pair] using hvalue

theorem pairs?_plain (key read rest : List Char) (hword : word.all isPlain) :
    pairs? (.value false key read) (word ++ rest) =
      pairs? (.value false key (read ++ word)) rest := by
  induction word generalizing read with
  | nil => simp
  | cons c word ih =>
    simp only [List.all_cons, Bool.and_eq_true, isPlain, Bool.not_eq_true', bne_iff_ne] at hword
    obtain ⟨⟨⟨⟨hblank, -⟩, -⟩, hbackslash⟩, hword⟩ := hword
    have hrest := ih (read ++ [c]) (by simpa [isPlain] using hword)
    simpa [pairs?, hblank, hbackslash] using hrest

theorem pairs?_opening_plain (key rest : List Char) (hne : word ≠ []) (hword : word.all isPlain) :
    pairs? (.opening key) (word ++ rest) = pairs? (.value false key word) rest := by
  cases word with
  | nil => exact absurd rfl hne
  | cons c word =>
    rw [List.all_cons, Bool.and_eq_true] at hword
    have hrest := pairs?_plain key [c] rest hword.2
    have hc := hword.1
    simp only [isPlain, Bool.and_eq_true, Bool.not_eq_true', bne_iff_ne] at hc
    obtain ⟨⟨⟨hblank, -⟩, hquote⟩, hbackslash⟩ := hc
    simpa [pairs?, hblank, hquote, hbackslash] using hrest

theorem isPlain_of_isDigit {c : Char} (h : c.isDigit = true) : isPlain c = true := by
  have hrange : 48 ≤ c.toNat ∧ c.toNat ≤ 57 := by
    simpa [Char.isDigit, UInt32.le_iff_toNat_le] using h
  have hne : ∀ d : Char, d.toNat < 48 ∨ 57 < d.toNat → c ≠ d := by
    rintro d hd rfl
    omega
  have hblank : Text.isBlank c = false := by
    simp [Text.isBlank]
    omega
  simp [isPlain, hblank, hne '=' (by decide), hne '\'' (by decide), hne '\\' (by decide)]

theorem isPlain_toString (n : Nat) : (toString n).toList.all isPlain := by
  rw [show (toString n).toList = Nat.toDigits 10 n from Nat.toList_repr, List.all_eq_true]
  exact fun c hc => isPlain_of_isDigit (Nat.isDigit_of_mem_toDigits (by decide) (by decide) hc)

theorem toString_ne_nil (n : Nat) : (toString n).toList ≠ [] := by
  rw [show (toString n).toList = Nat.toDigits 10 n from Nat.toList_repr]
  exact Nat.toDigits_ne_nil

theorem isPlain_keyword (mode : TlsMode) :
    mode.keyword.toList ≠ [] ∧ mode.keyword.toList.all isPlain := by
  cases mode <;> decide

theorem pairs?_closed_blank : pairs? .closed (' ' :: rest) = pairs? .between rest := by
  simp [pairs?, Text.isBlank]

theorem pairs?_value_blank : pairs? (.value false key read) (' ' :: rest) =
    (pairs? .between rest).map (pair key read :: ·) := by
  simp [pairs?, Text.isBlank]

theorem pairs?_between_quoted (value : String) (hne : key ≠ []) (hkey : key.all isPlain) :
    pairs? .between (key ++ '=' :: ((quoteValue value).toList ++ ' ' :: rest)) =
      (pairs? .between rest).map ((.ofList key, value) :: ·) := by
  rw [pairs?_between hne hkey, pairs?_opening_quoted, pairs?_closed_blank]

theorem pairs?_between_plain (hne : key ≠ []) (hkey : key.all isPlain) (hword : word ≠ [])
    (hplain : word.all isPlain) :
    pairs? .between (key ++ '=' :: (word ++ ' ' :: rest)) =
      (pairs? .between rest).map (pair key word :: ·) := by
  rw [pairs?_between hne hkey, pairs?_opening_plain _ _ hword hplain, pairs?_value_blank]

theorem pairs?_between_last (hne : key ≠ []) (hkey : key.all isPlain) (hword : word ≠ [])
    (hplain : word.all isPlain) :
    pairs? .between (key ++ '=' :: word) = some [pair key word] := by
  have hvalue := pairs?_opening_plain key [] hword hplain
  rw [List.append_nil] at hvalue
  rw [pairs?_between hne hkey, hvalue, pairs?]

theorem toList_pairs (host port database username password mode : String) :
    ("host=" ++ host ++ " port=" ++ port ++ " dbname=" ++ database ++ " user=" ++ username ++
      " password=" ++ password ++ " sslmode=" ++ mode ++ " connect_timeout=10").toList =
    "host".toList ++ '=' :: (host.toList ++ ' ' ::
    ("port".toList ++ '=' :: (port.toList ++ ' ' ::
    ("dbname".toList ++ '=' :: (database.toList ++ ' ' ::
    ("user".toList ++ '=' :: (username.toList ++ ' ' ::
    ("password".toList ++ '=' :: (password.toList ++ ' ' ::
    ("sslmode".toList ++ '=' :: (mode.toList ++ ' ' ::
    ("connect_timeout".toList ++ '=' :: "10".toList)))))))))))) := by
  simp

/-- The text is read back for any port and mode without blanks, quotes and backslashes. -/
theorem read?_texts {host port database username password mode : String}
    (hport : port.toList ≠ [] ∧ port.toList.all isPlain)
    (hmode : mode.toList ≠ [] ∧ mode.toList.all isPlain) :
    read? ("host=" ++ quoteValue host ++ " port=" ++ port ++ " dbname=" ++ quoteValue database ++
      " user=" ++ quoteValue username ++ " password=" ++ quoteValue password ++ " sslmode=" ++
      mode ++ " connect_timeout=10") =
    some [("host", host), ("port", port), ("dbname", database), ("user", username),
      ("password", password), ("sslmode", mode), ("connect_timeout", "10")] := by
  rw [read?, toList_pairs, pairs?_between_quoted _ (by decide) (by decide),
    pairs?_between_plain (by decide) (by decide) hport.1 hport.2,
    pairs?_between_quoted _ (by decide) (by decide),
    pairs?_between_quoted _ (by decide) (by decide),
    pairs?_between_quoted _ (by decide) (by decide),
    pairs?_between_plain (by decide) (by decide) hmode.1 hmode.2,
    pairs?_between_last (by decide) (by decide) (by decide) (by decide)]
  simp only [Option.map_some, pair, String.ofList_toList]

end SequenceQuery.ConnectionText

namespace SequenceQuery.ConnectOptions

open ConnectionText

/-- A connection string is read as exactly these keys, each once and in this order, with the four
texts as they were given, whatever is in them, and with the number of the port. -/
theorem read?_connectionString (o : ConnectOptions) :
    read? o.connectionString = some [("host", o.host), ("port", toString o.tcpPort.toNat),
      ("dbname", o.database), ("user", o.username), ("password", o.password),
      ("sslmode", o.sslMode.keyword), ("connect_timeout", "10")] ∧
    Nat.ofDigitChars 10 (toString o.tcpPort.toNat).toList 0 = o.tcpPort.toNat := by
  refine ⟨?_, ?_⟩
  · exact read?_texts ⟨toString_ne_nil _, isPlain_toString _⟩ (isPlain_keyword o.sslMode)
  · rw [show (toString o.tcpPort.toNat).toList = Nat.toDigits 10 _ from Nat.toList_repr]
    exact Nat.ofDigitChars_ten_toDigits

end SequenceQuery.ConnectOptions
