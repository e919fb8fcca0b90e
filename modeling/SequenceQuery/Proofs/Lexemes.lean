namespace SequenceQuery.Postgres

/-- What a text is made of, blanks aside. -/
inductive Lexeme
  | word (s : String)
  | number (s : String)
  | ident (s : String)
  | text (s : String)
  | placeholder (digits : String)
  | symbol (s : String)
  | comment
  /-- Where scanning stops. -/
  | broken
  deriving DecidableEq

def Lexeme.isData : Lexeme → Bool
  | .number _ | .ident _ | .text _ | .placeholder _ => true
  | _ => false

def isSpace (c : Char) : Bool := c ∈ [' ', '\t', '\n', '\r', '\x0b', '\x0c']

def isWordStart (c : Char) : Bool := c.isAlpha || c == '_' || 128 ≤ c.toNat

def isWordPart (c : Char) : Bool := isWordStart c || c.isDigit || c == '$'

def isPunctuation (c : Char) : Bool := c ∈ ['(', ')', ',', ';', '[', ']']

def operatorParts : List Char :=
  ['+', '-', '*', '/', '<', '>', '=', '~', '!', '@', '#', '%', '^', '&', '|', '\x60', '?']

def isOperatorPart (c : Char) : Bool := c ∈ operatorParts

/-- What is being scanned, with the characters read so far. -/
inductive Scanning
  | outside
  | word (read : List Char)
  | number (read : List Char)
  | point
  | dollar (read : List Char)
  | quoted (quote : Char) (read : List Char)
  /-- Behind a quote, which closes unless it is doubled. -/
  | closing (quote : Char) (read : List Char)
  | operator (read : List Char)
  | lineComment
  | blockComment (depth : Nat) (last : Char)
  | stopped

def quotedLexeme (quote : Char) (read : List Char) : Lexeme :=
  if quote = '"' then .ident (.ofList read) else .text (.ofList read)

def isSign (c : Char) : Bool := c == '+' || c == '-'

/-- An operator of several characters does not end in a sign unless it has one of the characters
that standard operators do not have. -/
def operatorLexemes : List Char → List Lexeme
  | [] => []
  | c :: read =>
    if (c :: read).any fun c => c ∈ ['~', '!', '@', '#', '%', '^', '&', '|', '\x60', '?'] then
      [.symbol (.ofList (c :: read))]
    else
      let signs := (read.reverse.takeWhile isSign).reverse
      .symbol (.ofList (c :: read.take (read.length - signs.length))) ::
        signs.map fun sign => .symbol (.ofList [sign])

namespace Scanning

def finish : Scanning → List Lexeme
  | .outside | .lineComment | .stopped => []
  | .word read => [.word (.ofList read)]
  | .number read => [.number (.ofList read)]
  | .point => [.symbol "."]
  | .dollar [] | .quoted .. | .blockComment .. => [.broken]
  | .dollar read => [.placeholder (.ofList read)]
  | .closing quote read => [quotedLexeme quote read]
  | .operator read => operatorLexemes read

def start (c : Char) : List Lexeme × Scanning :=
  if isSpace c then ([], .outside)
  else if isWordStart c then ([], .word [c])
  else if c.isDigit then ([], .number [c])
  else if c = '.' then ([], .point)
  else if c = '$' then ([], .dollar [])
  else if c = '"' ∨ c = '\'' then ([], .quoted c [])
  else if isPunctuation c then ([.symbol (.ofList [c])], .outside)
  else if isOperatorPart c then ([], .operator [c])
  else ([.broken], .stopped)

def leave (scanning : Scanning) (c : Char) : List Lexeme × Scanning :=
  (scanning.finish ++ (start c).1, (start c).2)

/-- The lexemes that are complete with a character, and what is being scanned behind it. -/
def next : Scanning → Char → List Lexeme × Scanning
  | .outside, c => start c
  | .word read, c =>
    if isWordPart c then ([], .word (read ++ [c]))
    else if c = '\'' ∧ read ∈ [['E'], ['e'], ['B'], ['b'], ['X'], ['x'], ['N'], ['n']] ∨
        c = '&' ∧ read ∈ [['U'], ['u']] then ([.broken], .stopped)
    else leave (.word read) c
  | .number read, c =>
    if c.isDigit ∨ c = '.' ∧ '.' ∉ read then ([], .number (read ++ [c]))
    else if isWordPart c ∨ c = '.' then ([.broken], .stopped)
    else leave (.number read) c
  | .point, c => if c.isDigit then ([], .number ['.', c]) else leave .point c
  | .dollar read, c =>
    if c.isDigit then ([], .dollar (read ++ [c]))
    else if isWordPart c ∨ read = [] then ([.broken], .stopped)
    else leave (.dollar read) c
  | .quoted quote read, c =>
    if c = quote then ([], .closing quote read) else ([], .quoted quote (read ++ [c]))
  | .closing quote read, c =>
    if c = quote then ([], .quoted quote (read ++ [c])) else leave (.closing quote read) c
  | .operator read, c =>
    if read.getLast? = some '-' ∧ c = '-' then
      (finish (.operator read.dropLast) ++ [.comment], .lineComment)
    else if read.getLast? = some '/' ∧ c = '*' then
      (finish (.operator read.dropLast) ++ [.comment], .blockComment 1 ' ')
    else if isOperatorPart c then ([], .operator (read ++ [c]))
    else leave (.operator read) c
  | .lineComment, c => if c = '\n' ∨ c = '\r' then ([], .outside) else ([], .lineComment)
  | .blockComment depth last, c =>
    if last = '/' ∧ c = '*' then ([], .blockComment (depth + 1) ' ')
    else if last = '*' ∧ c = '/' then
      ([], if depth = 1 then .outside else .blockComment (depth - 1) ' ')
    else ([], .blockComment depth c)
  | .stopped, _ => ([], .stopped)

def scan : Scanning → List Char → List Lexeme
  | scanning, [] => scanning.finish
  | scanning, c :: rest => (scanning.next c).1 ++ scan (scanning.next c).2 rest

variable {scanning : Scanning} {s rest : List Char}

/-- What goes on with every character of a text reads all of it. -/
theorem scan_run (reading : List Char → Scanning) (goesOn : Char → Bool)
    (h : ∀ read c, goesOn c → next (reading read) c = ([], reading (read ++ [c])))
    (hs : ∀ c ∈ s, goesOn c) (read rest : List Char) :
    scan (reading read) (s ++ rest) = scan (reading (read ++ s)) rest := by
  induction s generalizing read with
  | nil => simp
  | cons c s ih =>
    obtain ⟨hc, hs⟩ := List.forall_mem_cons.1 hs
    have hrest := ih hs (read ++ [c])
    simpa [scan, h read c hc] using hrest

theorem scan_leave (h : ∀ c ∈ rest.head?, next scanning c = leave scanning c) :
    scan scanning rest = scanning.finish ++ scan .outside rest := by
  cases rest with
  | nil => simp [scan, finish]
  | cons c rest =>
    have hc := h c rfl
    have hstart : next .outside c = start c := rfl
    simp only [scan, hc, hstart, leave, List.append_assoc]

theorem scan_read {reading : List Char → Scanning} {goesOn : Char → Bool} {c : Char}
    (rest : List Char) (hstart : start c = ([], reading [c]))
    (h : ∀ read c, goesOn c → next (reading read) c = ([], reading (read ++ [c])))
    (hs : ∀ c ∈ s, goesOn c)
    (hrest : ∀ d ∈ rest.head?, next (reading (c :: s)) d = leave (reading (c :: s)) d) :
    scan .outside (c :: s ++ rest) = finish (reading (c :: s)) ++ scan .outside rest := by
  have hrun := scan_run reading goesOn h hs [c] rest
  have hfirst : next .outside c = ([], reading [c]) := hstart
  rw [← scan_leave hrest, List.cons_append, scan, hfirst]
  exact hrun

theorem scan_doubled (quote : Char) (read rest : List Char) :
    scan (.quoted quote read)
      ((s.flatMap fun c => if c = quote then [c, c] else [c]) ++ quote :: rest) =
        scan (.closing quote (read ++ s)) rest := by
  induction s generalizing read with
  | nil => simp [scan, next]
  | cons c s ih =>
    have hrest := ih (read ++ [c])
    by_cases hc : c = quote
    · subst hc
      simpa [scan, next] using hrest
    · simpa [scan, next, hc] using hrest

theorem scan_comment (rest : List Char) :
    scan .outside ('-' :: '-' :: rest) = .comment :: scan .lineComment rest := rfl

end Scanning

def lexemes (text : String) : List Lexeme := Scanning.scan .outside text.toList

end SequenceQuery.Postgres
