import SequenceQuery.Json.Basic

namespace SequenceQuery.Json

abbrev Reader (α : Type) := List Char → Option (α × List Char)

def skipBlank (cs : List Char) : List Char :=
  cs.dropWhile fun c => c = ' ' || c = '\n' || c = '\t' || c = '\r'

def digits (cs : List Char) : List Char × List Char := cs.span Char.isDigit

/-- Adds digits to a significand while it fits 64 bits; gives how many fit and how many are left. -/
def accumulate (significand : Nat) : List Char → Nat × Nat × Nat
  | [] => (significand, 0, 0)
  | c :: rest =>
    let next := significand * 10 + (c.toNat - 48)
    if next < UInt64.size then
      let (s, taken, left) := accumulate next rest
      (s, taken + 1, left)
    else (significand, 0, rest.length + 1)

/-- The significand as a double, multiplied or divided by powers of ten that are doubles. A
number that is too large is refused. -/
def ofDecimal : Nat → Double → Int → Option Double
  | 0, x, _ => some x
  | steps + 1, x, e =>
    if e.natAbs ≤ 308 then
      let power := Double.ofRatio false (Nat.pow 10 e.natAbs) 1
      let y := if e < 0 then x.div power else x.mul power
      if y.isFinite then some y else none
    else if x.isZero then some x
    else if 0 ≤ e then none
    else ofDecimal steps (x.div (Double.ofRatio false (Nat.pow 10 308) 1)) (e + 308)

def negate (negative : Bool) (x : Double) : Double :=
  if negative then ⟨x.bits ||| 0x8000000000000000⟩ else x

def finishFloat (negative : Bool) (significand : Nat) (exponent : Int) : Option JsonNumber := do
  let x ← ofDecimal 8 (Double.ofRatio false significand 1) exponent
  return .float (negate negative x)

/-- The exponent behind an `e`, if one stands there: its value and what follows. -/
def exponentPart (cs : List Char) : Option (Option Int × List Char) :=
  match cs with
  | c :: rest =>
    if c = 'e' || c = 'E' then
      let (negative, rest) := match rest with
        | '+' :: r => (false, r)
        | '-' :: r => (true, r)
        | r => (false, r)
      let (ds, rest) := digits rest
      if ds.isEmpty then none
      else
        let n : Int := (ds.foldl (fun n d => n * 10 + (d.toNat - 48)) 0 : Nat)
        some (some (if negative then -n else n), rest)
    else some (none, cs)
  | [] => some (none, [])

/-- The value with an exponent. An exponent beyond 32 bits is an overflow or a zero. -/
def withExponent (negative : Bool) (significand : Nat) (shift exponent : Int) : Option JsonNumber :=
  if exponent.natAbs < Nat.pow 2 31 then finishFloat negative significand (shift + exponent)
  else if significand ≠ 0 ∧ 0 < exponent then none
  else some (.float (negate negative ⟨0⟩))

def number (negative : Bool) (cs : List Char) : Option (JsonNumber × List Char) := do
  let (whole, rest) := digits cs
  match whole with
  | [] => none
  | '0' :: _ :: _ => none
  | _ =>
    let (significand, _, dropped) := accumulate 0 whole
    let fraction? := match rest with
      | '.' :: r => some (digits r)
      | _ => none
    match fraction? with
    | some (ds, rest) =>
      if ds.isEmpty then none
      else
        let (significand, taken, _) := accumulate significand ds
        let shift : Int := dropped - taken
        let (exponent?, rest) ← exponentPart rest
        let n ← match exponent? with
          | none => finishFloat negative significand shift
          | some e => withExponent negative significand shift e
        return (n, rest)
    | none =>
      let (exponent?, rest) ← exponentPart rest
      match exponent? with
      | some e => return (← withExponent negative significand dropped e, rest)
      | none =>
        if dropped ≠ 0 then return (← finishFloat negative significand dropped, rest)
        else if !negative then return (.int significand, rest)
        else if significand = 0 ∨ Nat.pow 2 63 < significand then
          return (.float (negate true (Double.ofRatio false significand 1)), rest)
        else return (.int (-significand), rest)

def hex4 : List Char → Option (Nat × List Char)
  | a :: b :: c :: d :: rest => do return (← Text.Hex.natural? [a, b, c, d], rest)
  | _ => none

/-- The character behind a backslash. A high surrogate has to be followed by a low one. -/
def escaped : List Char → Option (Char × List Char)
  | '"' :: rest => some ('"', rest)
  | '\\' :: rest => some ('\\', rest)
  | '/' :: rest => some ('/', rest)
  | 'b' :: rest => some (Char.ofNat 8, rest)
  | 'f' :: rest => some (Char.ofNat 12, rest)
  | 'n' :: rest => some ('\n', rest)
  | 'r' :: rest => some ('\r', rest)
  | 't' :: rest => some ('\t', rest)
  | 'u' :: rest => do
    let (high, rest) ← hex4 rest
    if 0xD800 ≤ high ∧ high < 0xDC00 then
      match rest with
      | '\\' :: 'u' :: rest =>
        let (low, rest) ← hex4 rest
        if 0xDC00 ≤ low ∧ low < 0xE000 then
          return (Char.ofNat (0x10000 + (high - 0xD800) * 0x400 + (low - 0xDC00)), rest)
        else none
      | _ => none
    else if 0xDC00 ≤ high ∧ high < 0xE000 then none
    else return (Char.ofNat high, rest)
  | _ => none

/-- The characters up to the closing quote, collected in reverse. -/
def stringTail : Nat → List Char → List Char → Option (String × List Char)
  | 0, _, _ => none
  | fuel + 1, read, cs =>
    match cs with
    | [] => none
    | '"' :: rest => some (String.ofList read.reverse, rest)
    | '\\' :: rest => do
      let (c, rest) ← escaped rest
      stringTail fuel (c :: read) rest
    | c :: rest => if c.toNat < 0x20 then none else stringTail fuel (c :: read) rest

def string (cs : List Char) : Option (String × List Char) := stringTail (cs.length + 1) [] cs

def literal (word : String) (value : Json) (cs : List Char) : Option (Json × List Char) :=
  if word.toList.isPrefixOf cs then some (value, cs.drop word.length) else none

mutual

/-- A value, at most `depth` levels of nesting below it. -/
def value : Nat → Nat → Reader Json
  | 0, _, _ => none
  | fuel + 1, depth, cs =>
    match skipBlank cs with
    | [] => none
    | 'n' :: rest => literal "ull" .null rest
    | 't' :: rest => literal "rue" (.bool true) rest
    | 'f' :: rest => literal "alse" (.bool false) rest
    | '"' :: rest => do
      let (s, rest) ← string rest
      return (.str s, rest)
    | '-' :: rest => do
      let (n, rest) ← number true rest
      return (.num n, rest)
    | '[' :: rest =>
      if depth ≤ 1 then none
      else match skipBlank rest with
        | ']' :: rest => some (.arr [], rest)
        | rest => do
          let (items, rest) ← items fuel (depth - 1) rest
          return (.arr items, rest)
    | '\x7b' :: rest =>
      if depth ≤ 1 then none
      else match skipBlank rest with
        | '\x7d' :: rest => some (.obj [], rest)
        | rest => do
          let (members, rest) ← members fuel (depth - 1) rest
          return (ofMembers members, rest)
    | cs => do
      let (n, rest) ← number false cs
      return (.num n, rest)

def items : Nat → Nat → Reader (List Json)
  | 0, _, _ => none
  | fuel + 1, depth, cs => do
    let (item, rest) ← value fuel depth cs
    match skipBlank rest with
    | ',' :: rest =>
      let (more, rest) ← items fuel depth rest
      return (item :: more, rest)
    | ']' :: rest => return ([item], rest)
    | _ => none

def members : Nat → Nat → Reader (List (String × Json))
  | 0, _, _ => none
  | fuel + 1, depth, cs => do
    match skipBlank cs with
    | '"' :: rest =>
      let (key, rest) ← string rest
      match skipBlank rest with
      | ':' :: rest =>
        let (item, rest) ← value fuel depth rest
        match skipBlank rest with
        | ',' :: rest =>
          let (more, rest) ← members fuel depth rest
          return ((key, item) :: more, rest)
        | '\x7d' :: rest => return ([(key, item)], rest)
        | _ => none
      | _ => none
    | _ => none

end

/-- The value that the whole text writes, if it is nested less than `depth` levels deep. -/
def parseWithin? (depth : Nat) (text : String) : Option Json := do
  let cs := text.toList
  let (json, rest) ← value (2 * cs.length + 2) depth cs
  if (skipBlank rest).isEmpty then some json else none

def parse? (text : String) : Option Json := parseWithin? 128 text

end SequenceQuery.Json
