import SequenceQuery.Catalog
import SequenceQuery.Form.Cause

namespace SequenceQuery

structure Scalar where
  expr : SqlExpr
  nullable : Bool

inductive Binding
  /-- A row of a table. In a derived table its columns carry a prefix; on the far side of a left
  join it is optional, and each of its columns may be null. -/
  | record (label : String) (entity : Entity) (columnPrefix : String) (optional : Bool)
  | object (fields : List (String × Binding))
  | scalar (s : Scalar)
  /-- A group of elements under their common key. -/
  | group (key element : Binding)

/-- A scalar column of a binding under the name that a statement selects it by. -/
structure Leaf where
  name : String
  scalar : Scalar

namespace Binding

def isGroup : Binding → Bool
  | .group .. => true
  | _ => false

mutual

def asOptional : Binding → Binding
  | .record label entity columnPrefix _ => .record label entity columnPrefix true
  | .object fields => .object (fieldsAsOptional fields)
  | .scalar s => .scalar ⟨s.expr, true⟩
  | .group key element => .group key element

def fieldsAsOptional : List (String × Binding) → List (String × Binding)
  | [] => []
  | (name, b) :: rest => (name, b.asOptional) :: fieldsAsOptional rest

end

def subpath (path name : String) : String := if path = "" then name else path ++ "_" ++ name

/-- A leaf is named by its path, one without a path by its column. -/
def leafName (path : String) (e : SqlExpr) : String :=
  if path = "" then
    match e with
    | .column _ name => name
    | _ => "value"
  else path

mutual

/-- The scalar leaves below a path; none for a group, which has to be projected first. -/
def leaves? (path : String) : Binding → Option (List Leaf)
  | .scalar s => some [⟨leafName path s.expr, s⟩]
  | .record label entity columnPrefix optional =>
    some <| entity.properties.map fun p =>
      ⟨subpath path p.column,
        ⟨.columnOf label (columnPrefix ++ p.column), p.nullable || optional⟩⟩
  | .object fields => fieldLeaves? path fields
  | .group .. => none

def fieldLeaves? (path : String) : List (String × Binding) → Option (List Leaf)
  | [] => some []
  | (name, b) :: rest => do return (← b.leaves? (subpath path name)) ++ (← fieldLeaves? path rest)

end

mutual

/-- The same binding read back from a derived table that selects its leaves. -/
def readFrom (label : String) (path : String) : Binding → Binding
  | .scalar s => .scalar ⟨.columnOf label (leafName path s.expr), s.nullable⟩
  | .record _ entity _ optional =>
    .record label entity (if path = "" then "" else path ++ "_") optional
  | .object fields => .object (readFieldsFrom label path fields)
  | .group key element => .group key element

def readFieldsFrom (label : String) (path : String) :
    List (String × Binding) → List (String × Binding)
  | [] => []
  | (name, b) :: rest =>
    (name, b.readFrom label (subpath path name)) :: readFieldsFrom label path rest

end

def leaves (b : Binding) (node : Expr) : Except Failure (List Leaf) :=
  match b.leaves? "" with
  | some ls => .ok ls
  | none => unsupported node .projectGrouping

def scalars (b : Binding) (node : Expr) : Except Failure (List Scalar) :=
  return (← b.leaves node).map Leaf.scalar

def firstRepeated? (seen : List String) : List String → Option String
  | [] => none
  | name :: rest => if name ∈ seen then some name else firstRepeated? (name :: seen) rest

/-- The leaves as the columns of a statement, which must have different names. -/
def columns (b : Binding) (node : Expr) : Except Failure (List Leaf) := do
  let ls ← b.leaves node
  match firstRepeated? [] (ls.map Leaf.name) with
  | some name => unsupported node (.repeatedColumn name)
  | none => return ls

def asScalar (b : Binding) (node : Expr) : Except Failure Scalar :=
  match b with
  | .scalar s => .ok s
  | .record _ entity _ _ => unsupported node (.entityAsValue entity.name)
  | .object _ => unsupported node .objectAsValue
  | .group .. => unsupported node .groupingAsValue

theorem asScalar_ok {b : Binding} {s : Scalar} {node : Expr} (h : b.asScalar node = .ok s) :
    b = .scalar s := by
  cases b with
  | scalar found => cases h; rfl
  | record | object | group => cases h

/-- The member read from a binding, by exact name or else up to letter case. -/
def member (b : Binding) (name : String) (node : Expr) : Except Failure Binding :=
  match b with
  | .record label entity columnPrefix optional =>
    match entity.find? name with
    | some p =>
      .ok (.scalar ⟨.columnOf label (columnPrefix ++ p.column), p.nullable || optional⟩)
    | none => .error ⟨node, .unknownMember entity.name name⟩
  | .object fields =>
    match Text.findNamed? Prod.fst name fields with
    | some (_, field) => .ok field
    | none => .error ⟨node, .unknownMember "anonymous object" name⟩
  | .group key _ =>
    if Text.sameFold name "key" then .ok key else .error ⟨node, .unknownMember "grouping" name⟩
  | .scalar _ => .error ⟨node, .unknownMember "scalar value" name⟩

/-- What is read as the member of a binding: a column, a field or the key. -/
inductive IsMember (name : String) : Binding → Binding → Prop
  | column {label : String} {entity : Entity} {columnPrefix : String} {optional : Bool}
    {p : Property} (h : entity.find? name = some p) :
    IsMember name (.record label entity columnPrefix optional)
      (.scalar ⟨.columnOf label (columnPrefix ++ p.column), p.nullable || optional⟩)
  | field {fields : List (String × Binding)} {f : String × Binding}
    (h : Text.findNamed? Prod.fst name fields = some f) : IsMember name (.object fields) f.2
  | key {key element : Binding} (h : Text.sameFold name "key" = true) :
    IsMember name (.group key element) key

theorem member_ok {b found : Binding} {name : String} {node : Expr}
    (h : b.member name node = .ok found) : IsMember name b found := by
  cases b with
  | record label entity columnPrefix optional =>
    rw [member] at h
    cases hproperty : entity.find? name with
    | none => rw [hproperty] at h; cases h
    | some property =>
      rw [hproperty] at h
      cases h
      exact .column hproperty
  | object fields =>
    rw [member] at h
    cases hfield : Text.findNamed? Prod.fst name fields with
    | none => rw [hfield] at h; cases h
    | some field =>
      rw [hfield] at h
      cases h
      exact .field hfield
  | scalar s => cases h
  | group key element =>
    rw [member] at h
    split at h
    case isTrue hkey => cases h; exact .key hkey
    case isFalse => cases h

end Binding

end SequenceQuery
