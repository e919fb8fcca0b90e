import SequenceQuery.Number.Ieee

namespace SequenceQuery

inductive Toml
  | str (s : String)
  | int (n : Int)
  | float (x : Double)
  | bool (b : Bool)
  /-- A date, a time of day or both, as it is written. -/
  | moment (text : String)
  | arr (items : List Toml)
  | table (entries : List (String × Toml))

namespace Toml

def get? (key : String) : Toml → Option Toml
  | .table entries => entries.lookup key
  | _ => none

inductive Opening
  /-- By a header of its own. -/
  | header
  /-- By the header of a table inside it. -/
  | implied
  /-- By a dotted key. -/
  | dotted
  deriving DecidableEq

/-- What stands under a key while a document is read. -/
inductive Slot
  | value (v : Toml)
  | opened (how : Opening) (entries : List (String × Slot))
  /-- An array of tables, the one that was opened last first. -/
  | many (tables : List (List (String × Slot)))

abbrev Slots := List (String × Slot)

/-- Puts a slot under a key, in place of one that is there. -/
def put (key : String) (slot : Slot) : Slots → Slots
  | [] => [(key, slot)]
  | (k, s) :: rest => if k = key then (k, slot) :: rest else (k, s) :: put key slot rest

/-- Assigns a value under a dotted key. Tables on the way are opened; one that has a header of its
own is closed to dotted keys, and only one opened by them takes the value. -/
def assign (fits : Bool) (value : Toml) : List String → Slots → Option Slots
  | [], _ => none
  | [key], slots =>
    if fits && (slots.lookup key).isNone then some (put key (.value value) slots) else none
  | key :: rest, slots =>
    match slots.lookup key with
    | none => do return put key (.opened .dotted (← assign true value rest [])) slots
    | some (.opened .dotted inner) => do
      return put key (.opened .dotted (← assign true value rest inner)) slots
    | some (.opened .implied inner) => do
      return put key (.opened .implied (← assign false value rest inner)) slots
    | some (.many (last :: earlier)) => do
      return put key (.many ((← assign false value rest last) :: earlier)) slots
    | _ => none

/-- Changes what stands at the path of a header. -/
def atPath (change : Option Slot → Option Slot) : List String → Slots → Option Slots
  | [], _ => none
  | [key], slots => do return put key (← change (slots.lookup key)) slots
  | key :: rest, slots =>
    match slots.lookup key with
    | none => do return put key (.opened .implied (← atPath change rest [])) slots
    | some (.opened how inner) => do
      return put key (.opened how (← atPath change rest inner)) slots
    | some (.many (last :: earlier)) => do
      return put key (.many ((← atPath change rest last) :: earlier)) slots
    | _ => none

inductive Header
  | table (path : List String)
  | element (path : List String)

abbrev Assignment := List String × Toml

abbrev Section := Header × List Assignment

def assignAll (assignments : List Assignment) (slots : Slots) : Option Slots :=
  assignments.foldlM (fun slots a => assign true a.2 a.1 slots) slots

def addSection (slots : Slots) : Section → Option Slots
  | (.table path, assignments) =>
    atPath (fun
      | none => (assignAll assignments []).map (.opened .header)
      | some (.opened .implied inner) => (assignAll assignments inner).map (.opened .header)
      | _ => none) path slots
  | (.element path, assignments) =>
    atPath (fun
      | none => (assignAll assignments []).map fun t => .many [t]
      | some (.many tables) => (assignAll assignments []).map fun t => .many (t :: tables)
      | _ => none) path slots

mutual

def Slot.finish : Slot → Toml
  | .value v => v
  | .opened _ entries => .table (finishSlots entries)
  | .many tables => .arr (finishTables tables).reverse

def finishSlots : Slots → List (String × Toml)
  | [] => []
  | (key, slot) :: rest => (key, slot.finish) :: finishSlots rest

def finishTables : List Slots → List Toml
  | [] => []
  | t :: rest => .table (finishSlots t) :: finishTables rest

end

/-- The table of a document: what is assigned before any header, then one section after another. -/
def ofSections (top : List Assignment) (sections : List Section) : Option Toml := do
  let slots ← assignAll top []
  return .table (finishSlots (← sections.foldlM addSection slots))

end Toml

end SequenceQuery
