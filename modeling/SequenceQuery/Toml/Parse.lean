import SequenceQuery.Calendar.Basic
import SequenceQuery.Text.Hex
import SequenceQuery.Toml.Basic

namespace SequenceQuery.Toml

abbrev Reader (α : Type) := List Char → Option (α × List Char)

def isSpace (c : Char) : Bool := c = ' ' || c = '\t'

def skipSpace (cs : List Char) : List Char := cs.dropWhile isSpace

/-- Characters that may stand in comments and between quotes. -/
def isPlain (c : Char) : Bool := c = '\t' || (0x20 ≤ c.toNat && c.toNat != 0x7f)

def newline? : List Char → Option (List Char)
  | '\n' :: rest => some rest
  | '\r' :: '\n' :: rest => some rest
  | _ => none

def skipComment (cs : List Char) : List Char :=
  match cs with
  | '#' :: rest => rest.dropWhile isPlain
  | _ => cs

def skipLines : Nat → List Char → List Char
  | 0, cs => cs
  | fuel + 1, cs =>
    let rest := skipComment (skipSpace cs)
    match newline? rest with
    | some rest => skipLines fuel rest
    | none => rest

def escaped : Reader Char
  | 'b' :: rest => some (Char.ofNat 8, rest)
  | 't' :: rest => some ('\t', rest)
  | 'n' :: rest => some ('\n', rest)
  | 'f' :: rest => some (Char.ofNat 12, rest)
  | 'r' :: rest => some ('\r', rest)
  | '"' :: rest => some ('"', rest)
  | '\\' :: rest => some ('\\', rest)
  | 'u' :: rest => codePoint 4 rest
  | 'U' :: rest => codePoint 8 rest
  | _ => none
where
  codePoint (width : Nat) (cs : List Char) : Option (Char × List Char) := do
    let ds := cs.take width
    let n ← Text.Hex.natural? ds
    if ds.length = width ∧ n.isValidChar then return (Char.ofNat n, cs.drop width) else none

def skipEmpty : Nat → List Char → List Char
  | 0, cs => cs
  | fuel + 1, cs =>
    let rest := skipSpace cs
    match newline? rest with
    | some rest => skipEmpty fuel rest
    | none => rest

def basicTail : Nat → List Char → Reader String
  | 0, _, _ => none
  | fuel + 1, read, cs =>
    match cs with
    | '"' :: rest => some (String.ofList read.reverse, rest)
    | '\\' :: rest => do
      let (c, rest) ← escaped rest
      basicTail fuel (c :: read) rest
    | c :: rest => if isPlain c then basicTail fuel (c :: read) rest else none
    | [] => none

def literalTail (cs : List Char) : Option (String × List Char) :=
  let body := cs.takeWhile fun c => c != '\'' && isPlain c
  match cs.drop body.length with
  | '\'' :: rest => some (String.ofList body, rest)
  | _ => none

/-- The end of a string in triple quotes, before which up to two quotes may stand. -/
def closing (quote : Char) (read : List Char) (cs : List Char) : Option (String × List Char) :=
  let quotes := (cs.takeWhile (· = quote)).length
  if 3 ≤ quotes then
    let count := min quotes 5
    some (String.ofList (read.reverse ++ List.replicate (count - 3) quote), cs.drop count)
  else none

/-- The rest of a string in triple quotes. After a backslash at the end of a line, blanks and line
breaks are left out. -/
def multilineTail (quote : Char) : Nat → List Char → Reader String
  | 0, _, _ => none
  | fuel + 1, read, cs =>
    match closing quote read cs with
    | some done => some done
    | none =>
      match newline? cs with
      | some rest => multilineTail quote fuel ('\n' :: read) rest
      | none =>
        match cs with
        | [] => none
        | c :: rest =>
          if c = '\\' ∧ quote = '"' then
            match newline? (skipSpace rest) with
            | some rest => multilineTail quote fuel read (skipEmpty rest.length rest)
            | none => do
              let (c, rest) ← escaped rest
              multilineTail quote fuel (c :: read) rest
          else if isPlain c then multilineTail quote fuel (c :: read) rest
          else none

def multiline (quote : Char) (cs : List Char) : Option (String × List Char) :=
  let cs := (newline? cs).getD cs
  multilineTail quote (cs.length + 1) [] cs

def string : Reader String
  | '"' :: '"' :: '"' :: rest => multiline '"' rest
  | '\'' :: '\'' :: '\'' :: rest => multiline '\'' rest
  | '"' :: rest => basicTail (rest.length + 1) [] rest
  | '\'' :: rest => literalTail rest
  | _ => none

def isBare (c : Char) : Bool := c.isAlphanum || c = '_' || c = '-'

def simpleKey (cs : List Char) : Option (String × List Char) :=
  match cs with
  | '"' :: rest => basicTail (rest.length + 1) [] rest
  | '\'' :: rest => literalTail rest
  | _ =>
    let word := cs.takeWhile isBare
    if word.isEmpty then none else some (String.ofList word, cs.drop word.length)

/-- Levels of nesting that a document may not reach, neither with brackets nor with the keys of one
path. -/
def depthLimit : Nat := 80

def dottedKey : Nat → Reader (List String)
  | 0, _ => none
  | fuel + 1, cs => do
    let (key, rest) ← simpleKey (skipSpace cs)
    match skipSpace rest with
    | '.' :: rest =>
      let (more, rest) ← dottedKey fuel rest
      return (key :: more, rest)
    | rest => return ([key], rest)

def key (cs : List Char) : Option (List String × List Char) := dottedKey (depthLimit - 1) cs

/-- Digits with single underscores between them, as a number. -/
def digitsIn (base : Nat) (cs : List Char) : Option Nat :=
  let groups := cs.splitOn '_'
  if groups.any List.isEmpty then none
  else (groups.flatten).foldlM (fun n c => do
    let d ← Text.Hex.digit? c
    if d < base then some (n * base + d) else none) 0

def inRange (n : Int) : Option Toml :=
  if -Nat.pow 2 63 ≤ n ∧ n < Nat.pow 2 63 then some (.int n) else none

/-- Digits that do not start with a needless zero. -/
def decimal (cs : List Char) : Option Nat :=
  match cs with
  | '0' :: _ :: _ => none
  | _ => digitsIn 10 cs

def unsign : List Char → Bool × List Char
  | '-' :: rest => (true, rest)
  | '+' :: rest => (false, rest)
  | cs => (false, cs)

def isExponentMark (c : Char) : Bool := c = 'e' || c = 'E'

/-- The digits behind a point and how many they are. -/
def fraction : List Char → Option (Nat × Nat)
  | [] => some (0, 0)
  | _ :: ds => do return (← digitsIn 10 ds, ds.countP Char.isDigit)

/-- The number behind an exponent mark. -/
def exponent : List Char → Option Int
  | [] => some 0
  | _ :: ds => do
    let (negative, ds) := unsign ds
    let n ← digitsIn 10 ds
    return if negative then -(n : Int) else n

/-- A number with a fraction, an exponent or both, or the name of one that is not finite. One too
large for a double is refused, but not below zero. -/
def float? (word : List Char) : Option Double :=
  let (negative, cs) := unsign word
  if cs = "inf".toList then some (.infinity negative)
  else if cs = "nan".toList then some (.nan negative)
  else
    let mantissa := cs.takeWhile fun c => !isExponentMark c
    let whole := mantissa.takeWhile (· != '.')
    if whole.length = cs.length then none
    else do
      let n ← decimal whole
      let (part, places) ← fraction (mantissa.drop whole.length)
      let e ← exponent (cs.drop mantissa.length)
      let x := Double.ofDecimal negative (n * Nat.pow 10 places + part) (e - places)
      if x = .infinity false then none else some x

def plainNumber (width : Nat) (cs : List Char) : Option Nat :=
  if cs.length = width ∧ cs.all Char.isDigit then
    some (cs.foldl (fun n c => n * 10 + (c.toNat - 48)) 0)
  else none

def isDate (cs : List Char) : Bool :=
  match (cs.splitOn '-') with
  | [y, m, d] =>
    match plainNumber 4 y, plainNumber 2 m, plainNumber 2 d with
    | some y, some m, some d => (Date.of? y m d).isSome
    | _, _, _ => false
  | _ => false

def isClock (seconds : Bool) (cs : List Char) : Bool :=
  let atMost (n : Nat) (cs : List Char) := match plainNumber 2 cs with
    | some m => decide (m ≤ n)
    | none => false
  match cs.splitOn ':' with
  | [h, m] => !seconds && atMost 23 h && atMost 59 m
  | [h, m, s] =>
    seconds && atMost 23 h && atMost 59 m && atMost 60 (s.take 2) &&
      (match s.drop 2 with
        | [] => true
        | '.' :: ds => !ds.isEmpty && ds.all Char.isDigit
        | _ => false)
  | _ => false

def isOffset (cs : List Char) : Bool :=
  match cs with
  | ['Z'] | ['z'] => true
  | '+' :: rest | '-' :: rest => isClock false rest
  | _ => false

/-- Whether the word is a date, a time, or both with or without an offset. -/
def isMoment (word : List Char) : Bool :=
  isDate word || isClock true word ||
    (isDate (word.take 10) &&
      (match word.drop 10 with
        | c :: rest =>
          let clock := rest.takeWhile fun c => c.isDigit || c = ':' || c = '.'
          (c = 'T' || c = 't' || c = ' ') && isClock true clock &&
            (rest.length == clock.length || isOffset (rest.drop clock.length))
        | [] => false))

/-- A value without quotes or brackets. -/
def wordValue (word : List Char) : Option Toml :=
  match word with
  | ['t', 'r', 'u', 'e'] => some (.bool true)
  | ['f', 'a', 'l', 's', 'e'] => some (.bool false)
  | '0' :: 'x' :: ds => (digitsIn 16 ds).bind fun n => inRange n
  | '0' :: 'o' :: ds => (digitsIn 8 ds).bind fun n => inRange n
  | '0' :: 'b' :: ds => (digitsIn 2 ds).bind fun n => inRange n
  | _ =>
    let (negative, ds) := unsign word
    match decimal ds with
    | some n => inRange (if negative then -n else n)
    | none =>
      match float? word with
      | some x => some (.float x)
      | none => if isMoment word then some (.moment (String.ofList word)) else none

def isWordChar (c : Char) : Bool :=
  c.isAlphanum || c = '_' || c = '-' || c = '+' || c = '.' || c = ':'

/-- The next word. A blank between a date and a time belongs to it. -/
def word (cs : List Char) : List Char × List Char :=
  let first := cs.takeWhile isWordChar
  let rest := cs.drop first.length
  match rest with
  | ' ' :: c :: _ =>
    if c.isDigit && isDate first then
      let second := (rest.drop 1).takeWhile isWordChar
      (first ++ ' ' :: second, rest.drop (second.length + 1))
    else (first, rest)
  | _ => (first, rest)

mutual

/-- A value nested less than `depth` levels deep. -/
def value : Nat → Nat → Reader Toml
  | 0, _, _ => none
  | fuel + 1, depth, cs =>
    match cs with
    | '"' :: _ | '\'' :: _ => do
      let (s, rest) ← string cs
      return (.str s, rest)
    | '[' :: rest =>
      if depth ≤ 1 then none
      else match skipLines rest.length rest with
        | ']' :: rest => some (.arr [], rest)
        | rest => do
          let (items, rest) ← items fuel (depth - 1) rest
          return (.arr items, rest)
    | '\x7b' :: rest =>
      if depth ≤ 1 then none
      else match skipSpace rest with
        | '\x7d' :: rest => some (.table [], rest)
        | rest => do
          let (assignments, rest) ← inlineAssignments fuel (depth - 1) rest
          return (.table (finishSlots (← assignAll assignments [])), rest)
    | _ => do
      let (w, rest) := word cs
      return (← wordValue w, rest)

def items : Nat → Nat → Reader (List Toml)
  | 0, _, _ => none
  | fuel + 1, depth, cs => do
    let (item, rest) ← value fuel depth cs
    match skipLines rest.length rest with
    | ']' :: rest => return ([item], rest)
    | ',' :: rest =>
      match skipLines rest.length rest with
      | ']' :: rest => return ([item], rest)
      | rest =>
        let (more, rest) ← items fuel depth rest
        return (item :: more, rest)
    | _ => none

def inlineAssignments : Nat → Nat → Reader (List Assignment)
  | 0, _, _ => none
  | fuel + 1, depth, cs => do
    let (path, rest) ← key cs
    match rest with
    | '=' :: rest =>
      let (v, rest) ← value fuel depth (skipSpace rest)
      match skipSpace rest with
      | '\x7d' :: rest => return ([(path, v)], rest)
      | ',' :: rest =>
        let (more, rest) ← inlineAssignments fuel depth rest
        return ((path, v) :: more, rest)
      | _ => none
    | _ => none

end

/-- What is left of a line has to be blank. -/
def lineEnd (cs : List Char) : Option (List Char) :=
  match skipComment (skipSpace cs) with
  | [] => some []
  | rest => newline? rest

def assignment (cs : List Char) : Option (Assignment × List Char) := do
  let (path, rest) ← key cs
  match rest with
  | '=' :: rest =>
    let (v, rest) ← value (2 * rest.length + 2) depthLimit (skipSpace rest)
    return ((path, v), ← lineEnd rest)
  | _ => none

def header : Reader Header
  | '[' :: '[' :: rest => do
    let (path, rest) ← key rest
    match rest with
    | ']' :: ']' :: rest => return (.element path, ← lineEnd rest)
    | _ => none
  | '[' :: rest => do
    let (path, rest) ← key rest
    match rest with
    | ']' :: rest => return (.table path, ← lineEnd rest)
    | _ => none
  | _ => none

def assignments : Nat → Reader (List Assignment)
  | 0, _ => none
  | fuel + 1, cs =>
    match skipLines (cs.length + 1) cs with
    | [] => some ([], [])
    | '[' :: rest => some ([], '[' :: rest)
    | cs => do
      let (a, rest) ← assignment cs
      let (more, rest) ← assignments fuel rest
      return (a :: more, rest)

def sections : Nat → List Char → Option (List Section)
  | 0, _ => none
  | fuel + 1, cs =>
    match cs with
    | [] => some []
    | _ => do
      let (h, rest) ← header cs
      let (body, rest) ← assignments (rest.length + 1) rest
      return (h, body) :: (← sections fuel rest)

/-- A mark of the byte order may come first. -/
def parse? (text : String) : Option Toml := do
  let cs := match text.toList with
    | c :: rest => if c.toNat = 0xFEFF then rest else c :: rest
    | [] => []
  let (top, rest) ← assignments (cs.length + 1) cs
  ofSections top (← sections (rest.length + 1) rest)

end SequenceQuery.Toml
