namespace SequenceQuery

/-- The parameters of a binary interchange format. -/
structure FloatFormat where
  /-- Bits of the significand, the leading one included. -/
  precision : Nat
  exponentBits : Nat
  /-- Exponent of the last place of the smallest numbers. -/
  minExponent : Int

namespace FloatFormat

def double : FloatFormat := ⟨53, 11, -1074⟩
def single : FloatFormat := ⟨24, 8, -149⟩

variable (f : FloatFormat)

def fractionBits : Nat := f.precision - 1
def maxField : Nat := Nat.pow 2 f.exponentBits - 1
def width : Nat := f.exponentBits + f.precision
def signBit : Nat := Nat.pow 2 (f.width - 1)
def infinityBits : Nat := f.maxField * Nat.pow 2 f.fractionBits
def quietBit : Nat := Nat.pow 2 (f.fractionBits - 1)

end FloatFormat

/-- What a bit pattern stands for. `finite` is `significand * 2 ^ exponent`. -/
inductive FloatClass
  | finite (negative : Bool) (significand : Nat) (exponent : Int)
  | infinite (negative : Bool)
  | nan (negative : Bool) (payload : Nat)
  deriving DecidableEq

namespace FloatFormat

variable (f : FloatFormat)

def classify (bits : Nat) : FloatClass :=
  let negative := decide (f.signBit ≤ bits % Nat.pow 2 f.width)
  let magnitude := bits % f.signBit
  let field := magnitude / Nat.pow 2 f.fractionBits
  let fraction := magnitude % Nat.pow 2 f.fractionBits
  if field = f.maxField then
    if fraction = 0 then .infinite negative else .nan negative fraction
  else if field = 0 then .finite negative fraction f.minExponent
  else .finite negative (fraction + Nat.pow 2 f.fractionBits) (f.minExponent + (field - 1 : Nat))

def withSign (negative : Bool) (magnitude : Nat) : Nat :=
  if negative then f.signBit + magnitude else magnitude

/-- `num / den` to the nearest integer, a half to the even one. -/
def roundDiv (num den : Nat) : Nat :=
  let q := num / den
  let r := num % den
  if 2 * r < den then q else if den < 2 * r then q + 1 else if q % 2 = 0 then q else q + 1

/-- The exponent `e` with `2 ^ e ≤ num / den < 2 ^ (e + 1)`, for positive numbers. -/
def ratioLog2 (num den : Nat) : Int :=
  let guess : Int := (Nat.log2 num : Int) - Nat.log2 den
  let below :=
    if 0 ≤ guess then den * Nat.pow 2 guess.toNat ≤ num
    else den ≤ num * Nat.pow 2 (-guess).toNat
  if below then guess else guess - 1

/-- The magnitude bits of the number nearest to `num / den`. Rounding may carry into the exponent
field, which is where the next binade and the infinity lie. -/
def nearestMagnitude (num den : Nat) : Nat :=
  if num = 0 then 0
  else
    let last := max f.minExponent (ratioLog2 num den - f.fractionBits)
    let significand :=
      if 0 ≤ last then roundDiv num (den * Nat.pow 2 last.toNat)
      else roundDiv (num * Nat.pow 2 (-last).toNat) den
    let field := (last - f.minExponent).toNat
    min f.infinityBits (field * Nat.pow 2 f.fractionBits + significand)

def ofRatio (negative : Bool) (num den : Nat) : Nat :=
  f.withSign negative (f.nearestMagnitude num den)

def ofClass : FloatClass → Nat
  | .infinite negative => f.withSign negative f.infinityBits
  | .nan negative payload => f.withSign negative (f.infinityBits + payload)
  | .finite negative m e =>
    if 0 ≤ e then f.ofRatio negative (m * Nat.pow 2 e.toNat) 1
    else f.ofRatio negative m (Nat.pow 2 (-e).toNat)

end FloatFormat

structure Double where
  bits : UInt64
  deriving DecidableEq

structure Single where
  bits : UInt32
  deriving DecidableEq

namespace Double

def classify (x : Double) : FloatClass := FloatFormat.double.classify x.bits.toNat

def ofRatio (negative : Bool) (num den : Nat) : Double :=
  ⟨UInt64.ofNat (FloatFormat.double.ofRatio negative num den)⟩

def ofInt (n : Int) : Double := ofRatio (n < 0) n.natAbs 1

def infinity (negative : Bool) : Double :=
  ⟨UInt64.ofNat (FloatFormat.double.ofClass (.infinite negative))⟩

def nan (negative : Bool) : Double :=
  ⟨UInt64.ofNat (FloatFormat.double.ofClass (.nan negative FloatFormat.double.quietBit))⟩

/-- The number nearest to `n * 10 ^ e`. Far outside the range of the format no power is taken. -/
def ofDecimal (negative : Bool) (n : Nat) (e : Int) : Double :=
  let point := (Nat.toDigits 10 n).length + e
  if n = 0 ∨ point < -400 then ofRatio negative 0 1
  else if 400 < point then infinity negative
  else if 0 ≤ e then ofRatio negative (n * Nat.pow 10 e.toNat) 1
  else ofRatio negative n (Nat.pow 10 (-e).toNat)

def isFinite (x : Double) : Bool :=
  match x.classify with
  | .finite .. => true
  | _ => false

def isZero (x : Double) : Bool :=
  match x.classify with
  | .finite _ 0 _ => true
  | _ => false

def mul (x y : Double) : Double :=
  match x.classify, y.classify with
  | .finite a m e, .finite b n f =>
    ⟨UInt64.ofNat (FloatFormat.double.ofClass (.finite (a != b) (m * n) (e + f)))⟩
  | _, _ => x

def div (x y : Double) : Double :=
  match x.classify, y.classify with
  | .finite a m e, .finite b n f =>
    if f ≤ e then ofRatio (a != b) (m * Nat.pow 2 (e - f).toNat) n
    else ofRatio (a != b) m (n * Nat.pow 2 (f - e).toNat)
  | _, _ => x

end Double

namespace Single

def classify (x : Single) : FloatClass := FloatFormat.single.classify x.bits.toNat

def ofInt (n : Int) : Single :=
  ⟨UInt32.ofNat (FloatFormat.single.ofRatio (n < 0) n.natAbs 1)⟩

/-- A signalling not-a-number becomes quiet and keeps the leading bits of its payload. -/
def ofDouble (x : Double) : Single :=
  let c := match x.classify with
    | .nan negative payload =>
      let quiet := FloatFormat.single.quietBit
      .nan negative (payload / Nat.pow 2 29 % quiet + quiet)
    | c => c
  ⟨UInt32.ofNat (FloatFormat.single.ofClass c)⟩

end Single

/-- Every single is a double; only a not-a-number changes, which becomes quiet. -/
def Double.ofSingle (x : Single) : Double :=
  let c := match x.classify with
    | .nan negative payload =>
      let quiet := FloatFormat.single.quietBit
      .nan negative (payload % quiet * Nat.pow 2 29 + FloatFormat.double.quietBit)
    | c => c
  ⟨UInt64.ofNat (FloatFormat.double.ofClass c)⟩

end SequenceQuery
