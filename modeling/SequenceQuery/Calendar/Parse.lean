import SequenceQuery.Calendar.Basic
import SequenceQuery.Text.Blank

namespace SequenceQuery.Calendar

open Text (trimStart)

/-- A number of one to `width` digits; without a width, of any that fit 63 bits. -/
def digitsOf (width : Option Nat) (cs : List Char) : Option (Nat × List Char) :=
  let run := cs.takeWhile Char.isDigit
  let ds : List Char := match width with
    | some w => run.take w
    | none => run
  let n := ds.foldl (fun n c => n * 10 + (c.toNat - 48)) 0
  if ds.isEmpty ∨ Nat.pow 2 63 ≤ n then none else some (n, cs.drop ds.length)

def readNumber (cs : List Char) : Option (Nat × List Char) := digitsOf (some 2) (trimStart cs)

def within (low high : Nat) : Nat × List Char → Option (Nat × List Char)
  | (n, rest) => if low ≤ n ∧ n ≤ high then some (n, rest) else none

/-- A year has four digits, or a sign and any number of them. -/
def readYear (cs : List Char) : Option (Int × List Char) :=
  match trimStart cs with
  | '-' :: rest => (digitsOf none rest).map fun (n, rest) => (-(n : Int), rest)
  | '+' :: rest => (digitsOf none rest).map fun (n, rest) => ((n : Int), rest)
  | rest => (digitsOf (some 4) rest).map fun (n, rest) => ((n : Int), rest)

def literal (c : Char) : List Char → Option (List Char)
  | d :: rest => if c = d then some rest else none
  | [] => none

/-- A character with blanks before it. -/
def separator (c : Char) (cs : List Char) : Option (List Char) := literal c (trimStart cs)

def readDate (cs : List Char) : Option (Date × List Char) := do
  let (y, cs) ← readYear cs
  let cs ← separator '-' cs
  let (m, cs) ← (readNumber cs).bind (within 1 12)
  let cs ← separator '-' cs
  let (d, cs) ← (readNumber cs).bind (within 1 31)
  return (← Date.of? y m d, cs)

/-- Nanoseconds behind a point, if one stands there; digits past the ninth have no effect. -/
def readFraction : List Char → Option (Nat × List Char)
  | '.' :: cs => do
    let (n, _) ← digitsOf (some 9) cs
    let count := (cs.takeWhile Char.isDigit).length
    return (n * Nat.pow 10 (9 - min 9 count), cs.drop count)
  | cs => some (0, cs)

def readTime (cs : List Char) : Option (TimeOfDay × List Char) := do
  let (h, cs) ← (readNumber cs).bind (within 0 23)
  let cs ← separator ':' cs
  let (m, cs) ← (readNumber cs).bind (within 0 59)
  let cs ← separator ':' cs
  let (s, cs) ← (readNumber cs).bind (within 0 60)
  let (nanos, cs) ← readFraction cs
  let t : TimeOfDay := if s = 60 then ⟨h, m, 59, 1000000000 + nanos⟩ else ⟨h, m, s, nanos⟩
  return (t, cs)

/-- A minus sign may also be the typographic one. -/
def signOf (c : Char) : Option Int :=
  if c = '+' then some 1 else if c = '-' ∨ c.toNat = 0x2212 then some (-1) else none

/-- Seconds east of Greenwich, written `Z`, `UTC`, or as signed hours and minutes. -/
def readOffset (cs : List Char) : Option (Int × List Char) :=
  match cs with
  | 'Z' :: rest | 'z' :: rest => some (0, rest)
  | u :: t :: c :: rest =>
    if u.toUpper = 'U' ∧ t.toUpper = 'T' ∧ c.toUpper = 'C' then some (0, rest)
    else do
      let sign ← signOf u
      let (h, after) ← digitsOf (some 2) (t :: c :: rest)
      if !(t.isDigit && c.isDigit) then none
      let after := after.dropWhile fun c => c = ':' || Text.isBlank c
      match after with
      | a :: b :: rest =>
        if '0' ≤ a ∧ a ≤ '5' ∧ b.isDigit then
          let minutes := (a.toNat - 48) * 10 + (b.toNat - 48)
          let seconds : Int := (h * 3600 + minutes * 60 : Nat)
          if seconds < 86400 then some (sign * seconds, rest) else none
        else none
      | _ => none
  | _ => none

/-- What was read, if only blanks follow. -/
def atEnd {α : Type} : α × List Char → Option α
  | (a, cs) => if (trimStart cs).isEmpty then some a else none

end SequenceQuery.Calendar

namespace SequenceQuery

open Calendar

def Date.parse? (s : String) : Option Date := (readDate s.toList).bind atEnd

def Timestamp.parse? (s : String) : Option Timestamp := do
  let (d, cs) ← readDate s.toList
  let cs ← separator 'T' cs
  let t ← (readTime cs).bind atEnd
  return ⟨d, t⟩

/-- A moment with its offset, as the clock at Greenwich shows it. What stands between the date and
the time follows the day at once. -/
def Timestamp.parseUtc? (s : String) : Option Timestamp := do
  let (d, cs) ← readDate s.toList
  let cs ← match cs with
    | 'T' :: rest | 't' :: rest | ' ' :: rest => some rest
    | _ => none
  let (t, cs) ← readTime cs
  let east ← (readOffset (Text.trimStart cs)).bind atEnd
  Timestamp.minusSeconds? ⟨d, t⟩ east

end SequenceQuery
