import SequenceQuery.Number.Ieee

namespace SequenceQuery.Shortest

/-- A positive decimal: the digits of `digits` times ten to the `exponent`. -/
structure Decimal where
  digits : Nat
  exponent : Int
  deriving DecidableEq

/-- Which of two decimals stands for a number halfway between them. -/
inductive TieRule
  /-- The greater one. -/
  | up
  /-- The one with an even last digit. -/
  | even
  deriving DecidableEq

def TieRule.takesLower (lower : Nat) : TieRule → Bool
  | .up => false
  | .even => lower % 2 == 0

/-- The numbers between `low / den` and `high / den`, all of which round to `value / den`. -/
structure Interval where
  low : Nat
  value : Nat
  high : Nat
  den : Nat
  closed : Bool

/-- The interval of a positive `m * 2 ^ e`. Below a power of two the neighbour is half as far. -/
def interval (f : FloatFormat) (m : Nat) (e : Int) : Interval :=
  let lowGap := if m = Nat.pow 2 f.fractionBits ∧ f.minExponent < e then 1 else 2
  let scale := if 0 ≤ e then Nat.pow 2 e.toNat else 1
  let den := if 0 ≤ e then 4 else 4 * Nat.pow 2 (-e).toNat
  ⟨(4 * m - lowGap) * scale, 4 * m * scale, (4 * m + 2) * scale, den, m % 2 = 0⟩

namespace Interval

variable (i : Interval)

def holds (n : Nat) (k : Int) : Bool :=
  let point := if 0 ≤ k then n * Nat.pow 10 k.toNat * i.den else n * i.den
  let scale := if 0 ≤ k then 1 else Nat.pow 10 (-k).toNat
  if i.closed then i.low * scale ≤ point && point ≤ i.high * scale
  else i.low * scale < point && point < i.high * scale

/-- The number of whole steps of `10 ^ k` in the value, and twice the rest with the step. -/
def split (k : Int) : Nat × Nat × Nat :=
  let num := if 0 ≤ k then i.value else i.value * Nat.pow 10 (-k).toNat
  let den := if 0 ≤ k then i.den * Nat.pow 10 k.toNat else i.den
  (num / den, 2 * (num % den), den)

/-- The point of the grid `10 ^ k` that stands for the value, if one reads back. -/
def onGrid? (ties : TieRule) (k : Int) : Option Nat :=
  let (below, rest, step) := i.split k
  let down := i.holds below k && below != 0
  let up := i.holds (below + 1) k
  let nearer := rest < step || (rest == step && ties.takesLower below)
  if down && (!up || nearer) then some below
  else if up then some (below + 1)
  else none

/-- The first grid with a hit, going down from `10 ^ k`. -/
def search (ties : TieRule) : Nat → Int → Decimal
  | 0, k => ⟨(i.split k).1, k⟩
  | tries + 1, k =>
    match i.onGrid? ties k with
    | some n => ⟨n, k⟩
    | none => search ties tries (k - 1)

/-- The decimal exponent of the value's leading digit. -/
def leading : Int :=
  let digits (n : Nat) : Int := (Nat.toDigits 10 n).length
  let guess := digits i.value - digits i.den
  if (i.split guess).1 = 0 then guess - 1 else guess

def decimal (ties : TieRule) : Decimal := i.search ties 17 i.leading

end Interval

def trimZeros : Nat → Nat → Int → Decimal
  | 0, n, k => ⟨n, k⟩
  | tries + 1, n, k => if n % 10 = 0 && n != 0 then trimZeros tries (n / 10) (k + 1) else ⟨n, k⟩

def ofMagnitude (f : FloatFormat) (ties : TieRule) (m : Nat) (e : Int) : Decimal :=
  let d := (interval f m e).decimal ties
  trimZeros 20 d.digits d.exponent

namespace Decimal

/-- All places written out, never with an exponent and with no point after an integer. -/
def positional (d : Decimal) : String :=
  let ds := Nat.toDigits 10 d.digits
  if 0 ≤ d.exponent then String.ofList (ds ++ List.replicate d.exponent.toNat '0')
  else
    let places := (-d.exponent).toNat
    let padded := List.replicate (places + 1 - ds.length) '0' ++ ds
    let whole := padded.take (padded.length - places)
    String.ofList (whole ++ '.' :: padded.drop (padded.length - places))

end Decimal

/-- A tie goes up. -/
def text (f : FloatFormat) : FloatClass → String
  | .nan .. => "NaN"
  | .infinite negative => if negative then "-inf" else "inf"
  | .finite negative m e =>
    let sign := if negative then "-" else ""
    if m = 0 then sign ++ "0" else sign ++ (ofMagnitude f .up m e).positional

end SequenceQuery.Shortest

namespace SequenceQuery

def Double.text (x : Double) : String := Shortest.text .double x.classify

def Single.text (x : Single) : String := Shortest.text .single x.classify

end SequenceQuery
