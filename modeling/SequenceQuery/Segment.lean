import SequenceQuery.Value

namespace SequenceQuery

/-- The rows from `start` on, at most `length` of them when a length is given. -/
structure Segment where
  start : UInt64
  length : Option UInt64
  deriving DecidableEq

namespace Segment

/-- The counts that fit, the largest one standing for all above it. -/
def saturate (n : Nat) : UInt64 := UInt64.ofNat (min n (UInt64.size - 1))

def all : Segment := ⟨0, none⟩

def bounded (start length : UInt64) : Segment := ⟨start, some length⟩

def unbounded (start : UInt64) : Segment := ⟨start, none⟩

/-- The page number `index`, counted from zero, of pages of `size` rows. -/
def page (index size : UInt64) : Segment :=
  ⟨saturate (index.toNat * size.toNat), some size⟩

/-- The first row behind a bounded segment. -/
def stop? (s : Segment) : Option UInt64 :=
  s.length.map fun n => saturate (s.start.toNat + n.toNat)

def skip (s : Segment) (n : UInt64) : Segment :=
  ⟨saturate (s.start.toNat + n.toNat),
    s.length.map fun len => UInt64.ofNat (len.toNat - n.toNat)⟩

def take (s : Segment) (n : UInt64) : Segment :=
  ⟨s.start, some (match s.length with | none => n | some len => min len n)⟩

/-- A count as a signed value, the largest one standing for all above it. -/
def countValue (n : UInt64) : Value := .int (Int64.ofNat (min n.toNat (Nat.pow 2 63 - 1)))

def startValue (s : Segment) : Value := countValue s.start

/-- Null stands for no limit. -/
def lengthValue (s : Segment) : Value :=
  match s.length with
  | none => .null
  | some n => countValue n

def display (s : Segment) : String :=
  match s.length with
  | none => s!"[{s.start.toNat}..]"
  | some n => s!"[{s.start.toNat}..+{n.toNat}]"

end Segment

end SequenceQuery
