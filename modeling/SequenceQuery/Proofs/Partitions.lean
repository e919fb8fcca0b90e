import SequenceQuery.Proofs.Elements
import Mathlib.Data.List.Forall2

namespace SequenceQuery

structure Group (α : Type) where
  first : α
  others : List α

namespace Group

variable {α β : Type}

def members (g : Group α) : List α := g.first :: g.others

def map (f : α → β) (g : Group α) : Group β := ⟨f g.first, g.others.map f⟩

end Group

def unlike {α : Type} (same : α → α → Bool) (x : α) (xs : List α) : List α :=
  xs.filter fun y => !same x y

def partition {α : Type} (same : α → α → Bool) : List α → List (Group α)
  | [] => []
  | x :: xs => ⟨x, xs.filter (same x)⟩ :: partition same (unlike same x xs)
termination_by xs => xs.length
decreasing_by exact Nat.lt_succ_of_le (List.length_filter_le _ _)

theorem partition_map {α β : Type} (same : β → β → Bool) (f : α → β) (xs : List α) :
    partition same (xs.map f) =
      (partition (fun a b => same (f a) (f b)) xs).map (Group.map f) := by
  fun_induction partition (fun a b => same (f a) (f b)) xs with
  | case1 => rw [List.map_nil, partition, List.map_nil]
  | case2 x xs ih =>
    rw [List.map_cons, partition, List.map_cons, ← ih, List.filter_map, unlike, unlike,
      List.filter_map]
    rfl

theorem keepFirst_filter {α : Type} {same : α → α → Bool} {p : α → Bool}
    (hp : ∀ x y, same x y = true → p x = p y) (xs : List α) :
    keepFirst same (xs.filter p) = (keepFirst same xs).filter p := by
  induction xs with
  | nil => rfl
  | cons x xs ih =>
    rw [keepFirst, List.filter_cons, List.filter_cons]
    cases hx : p x with
    | true =>
      simp only [if_true]
      rw [keepFirst, ih, List.filter_filter, List.filter_filter]
      exact congrArg (x :: ·) (List.filter_congr fun y _ => Bool.and_comm _ _)
    | false =>
      simp only [Bool.false_eq_true, if_false]
      rw [ih, List.filter_filter]
      refine List.filter_congr fun y _ => ?_
      cases hsame : same x y with
      | true => rw [← hp x y hsame, hx]; rfl
      | false => rw [Bool.not_false, Bool.and_true]

/-- The groups are those of the elements that no earlier one is the same as. -/
theorem partition_eq_keepFirst {α : Type} {same : α → α → Bool}
    (h : Equivalence fun x y => same x y = true) (xs : List α) :
    (partition same xs).map (fun g => (g.members, g.first)) =
      (keepFirst same xs).map fun x => (xs.filter (same x), x) := by
  fun_induction partition same xs with
  | case1 => rfl
  | case2 x xs ih =>
    have hinvariant : ∀ y z, same y z = true → (!same x y) = !same x z := by
      intro y z hyz
      refine congrArg Bool.not (Bool.eq_iff_iff.2 ⟨fun hxy => h.trans hxy hyz, fun hxz => ?_⟩)
      exact h.trans hxz (h.symm hyz)
    rw [List.map_cons, ih, unlike, keepFirst_filter hinvariant, keepFirst, List.map_cons,
      List.filter_cons_of_pos (h.refl x)]
    refine congrArg _ (List.map_congr_left fun y hy => ?_)
    have hother : same x y = false := by simpa using (List.mem_filter.1 hy).2
    have hnot : ¬ same y x = true := by
      intro hyx
      rw [h.symm hyx] at hother
      cases hother
    rw [List.filter_cons_of_neg hnot, List.filter_filter]
    refine congrArg (fun zs => (zs, y)) (List.filter_congr fun z _ => ?_)
    cases hyz : same y z with
    | true => rw [← hinvariant y z hyz, hother]; rfl
    | false => rfl

/-- What a grouping makes of an element: its key, and what stands for it in its group. -/
structure Grouping where
  key : Element → Element
  element : Element → Element

def Operator.aggregates : Operator → Bool
  | .count | .longCount | .sum | .min | .max | .average => true
  | _ => false

/-- A sum of nothing is zero. -/
def Engine.aggregateOver (engine : Engine) (op : Operator) (cells : List Cell) : Cell :=
  let known := cells.filter fun c => !c.isNull
  match op with
  | .sum => if known.isEmpty then .int64 0 else engine.aggregate "SUM" known
  | .min => engine.aggregate "MIN" known
  | .max => engine.aggregate "MAX" known
  | _ => engine.aggregate "AVG" known

/-- What is relied on where rows are grouped: to be the same is an equivalence, null and null
included, and a sum is null for want of values only. -/
structure Engine.Groups (engine : Engine) : Prop where
  same : Equivalence fun a b => engine.same a b = true
  sum : ∀ cells : List Cell, (∀ c ∈ cells, c.isNull = false) →
    ((engine.aggregate "SUM" cells).isNull = true ↔ cells = [])

theorem Engine.sameCells_iff {engine : Engine} {a b : List Cell} :
    engine.sameCells a b = true ↔ List.Forall₂ (fun c d => engine.same c d = true) a b := by
  rw [sameCells, Bool.and_eq_true, beq_iff_eq, List.all_eq_true, List.forall₂_iff_zip]
  exact and_congr_right fun _ => ⟨fun h _ _ hmem => h _ hmem, fun h _ hmem => h hmem⟩

theorem Engine.Groups.sameCells {engine : Engine} (h : engine.Groups) :
    Equivalence fun a b => engine.sameCells a b = true := by
  simp only [sameCells_iff]
  refine ⟨fun a => List.forall₂_same.2 fun c _ => h.same.refl c, fun {a b} hab => ?_,
    fun {a b c} hab hbc => ?_⟩
  · exact (hab.imp fun _ _ hcd => h.same.symm hcd).flip
  · induction hab generalizing c with
    | nil => exact hbc
    | cons hcell _ ih =>
      cases hbc with
      | cons hcell' hbc => exact .cons (h.same.trans hcell hcell') (ih hbc)

namespace Expr

/-- No argument or one lambda without operators on sequences. -/
def areSelector : List Expr → Bool
  | [] => true
  | [.lambda _ [_] body] => body.operatorFree
  | _ => false

theorem areSelector_cases {selector : List Expr} (h : areSelector selector) :
    selector = [] ∨ ∃ i p body, selector = [.lambda i [p] body] ∧ body.operatorFree := by
  unfold areSelector at h
  split at h
  · exact .inl rfl
  · exact .inr ⟨_, _, _, rfl, h⟩
  · cases h

def isAggregate : Expr → Bool
  | .call _ op (source :: rest) => op.aggregates && source.isReference && areSelector rest
  | _ => false

/-- No operator on sequences stands in the expression but aggregates over groups. -/
def aggregatesOnly (e : Expr) : Bool := e.nodes.all fun n => !n.isCall || n.isAggregate

section

variable (engine : Engine) (callee : String → String)

mutual

def elementWith (aggregate : Operator → List Expr → Cell) (scope : List (String × Element)) :
    Expr → Element
  | .param _ name => (scope.lookup name).getD (.one .null)
  | .member _ target name => ((target.elementWith aggregate scope).part? name).getD (.one .null)
  | .const _ value => .one value.cell
  | .call _ op (_ :: rest) => .one (aggregate op rest)
  | .binary _ op left right =>
    .one (engine.compute op (left.isNull || right.isNull) (left.elementWith aggregate scope).cell
      (right.elementWith aggregate scope).cell)
  | .unary _ .not operand => .one (operand.elementWith aggregate scope).cell.opposite
  | .unary _ .negate operand => .one (engine.minus (operand.elementWith aggregate scope).cell)
  | .function _ name args =>
    .one (engine.applied callee name (argumentCellsWith aggregate scope args))
  | .object _ fields => .parts (fieldElementsWith aggregate scope fields)
  | .conditional _ test ifTrue ifFalse =>
    .one (if (test.elementWith aggregate scope).cell.isTrue
      then (ifTrue.elementWith aggregate scope).cell
      else (ifFalse.elementWith aggregate scope).cell)
  | .entity .. | .call .. | .lambda .. | .segment .. => .one .null

def argumentCellsWith (aggregate : Operator → List Expr → Cell)
    (scope : List (String × Element)) : List Expr → List Cell
  | [] => []
  | e :: rest =>
    (e.elementWith aggregate scope).cell :: argumentCellsWith aggregate scope rest

def fieldElementsWith (aggregate : Operator → List Expr → Cell)
    (scope : List (String × Element)) : List (String × Expr) → List (String × Element)
  | [] => []
  | (name, e) :: rest =>
    (name, e.elementWith aggregate scope) :: fieldElementsWith aggregate scope rest

end

section

variable (scope : List (String × Element))

mutual

theorem element_eq_elementWith : ∀ e : Expr,
    e.element engine callee scope = e.elementWith engine callee (fun _ _ => .null) scope
  | .entity .. | .lambda .. | .segment .. | .param .. | .const .. | .call _ _ []
  | .call _ _ (_ :: _) => rfl
  | .member _ target _ => by rw [element, elementWith, element_eq_elementWith target]
  | .binary _ _ left right => by
    rw [element, elementWith, element_eq_elementWith left, element_eq_elementWith right]
  | .unary _ .not operand => by rw [element, elementWith, element_eq_elementWith operand]
  | .unary _ .negate operand => by rw [element, elementWith, element_eq_elementWith operand]
  | .function _ _ args => by rw [element, elementWith, argumentCells_eq args]
  | .object _ fields => by rw [element, elementWith, fieldElements_eq fields]
  | .conditional _ test ifTrue ifFalse => by
    rw [element, elementWith, element_eq_elementWith test, element_eq_elementWith ifTrue,
      element_eq_elementWith ifFalse]

theorem argumentCells_eq : ∀ es : List Expr, argumentCells engine callee scope es =
    argumentCellsWith engine callee (fun _ _ => .null) scope es
  | [] => rfl
  | e :: rest => by
    rw [argumentCells, argumentCellsWith, element_eq_elementWith e, argumentCells_eq rest]

theorem fieldElements_eq : ∀ fields : List (String × Expr),
    fieldElements engine callee scope fields =
      fieldElementsWith engine callee (fun _ _ => .null) scope fields
  | [] => rfl
  | (_, e) :: rest => by
    rw [fieldElements, fieldElementsWith, element_eq_elementWith e, fieldElements_eq rest]

end

end

def selected (scope : List (String × Element)) (x : Element) : List Expr → Element
  | [.lambda _ [p] body] => body.element engine callee ((p, x) :: scope)
  | _ => x

end

end Expr

namespace Grouping

variable (engine : Engine) (callee : String → String) (grouping : Grouping)

/-- A parameter for a group, from which its key can be read. In a selector the key is that of the
element, and the key of a group is that of its first. -/
def scope (g : String) (x : Element) : List (String × Element) :=
  [(g, .parts [("key", grouping.key x)])]

def selected (g : String) (selector : List Expr) (x : Element) : Cell :=
  (Expr.selected engine callee (grouping.scope g x) (grouping.element x) selector).cell

def counted (g : String) (members : List Element) (predicate : List Expr) : Nat :=
  if predicate.isEmpty then members.length
  else members.countP fun x => (grouping.selected engine callee g predicate x).isTrue

def aggregate (g : String) (members : List Element) (op : Operator) (selector : List Expr) :
    Cell :=
  match op with
  | .count | .longCount => .ofCount (grouping.counted engine callee g members selector)
  | op => engine.aggregateOver op (members.map (grouping.selected engine callee g selector))

def value (g : String) (body : Expr) (group : Group Element) : Element :=
  body.elementWith engine callee (grouping.aggregate engine callee g group.members)
    (grouping.scope g group.first)

end Grouping

namespace Expr

section

variable (engine : Engine) (callee : String → String) (catalog : Catalog) (db : Database)

def grouping : Expr → Grouping
  | .call _ .groupBy (_ :: .lambda _ [p] key :: selector) =>
    ⟨fun x => key.element engine callee [(p, x)], fun x => selected engine callee [] x selector⟩
  | .call _ .filter (source :: _) => source.grouping
  | _ => ⟨fun x => x, fun x => x⟩

def groups : Expr → List (Group Element)
  | e@(.call _ .groupBy (source :: _)) =>
    let key := fun x => ((e.grouping engine callee).key x).leaves
    partition (fun x y => engine.sameCells (key x) (key y))
      (source.elements engine callee catalog db)
  | .call _ .filter [source, .lambda _ [g] body] =>
    source.groups.filter fun group =>
      ((source.grouping engine callee).value engine callee g body group).cell.isTrue
  | _ => []

def groupElements : Expr → List Element
  | .call _ .project [source, .lambda _ [g] body] =>
    (source.groups engine callee catalog db).map
      ((source.grouping engine callee).value engine callee g body)
  | _ => []

end

end Expr

/-- The pipelines over one entity that keep elements and select from each, with what their elements
are made of. -/
inductive Selection (catalog : Catalog) (entity : Entity) : Expr → ElementType → Prop
  | entity {id : NodeId} {name : String} (h : catalog.entity? name = some entity) :
    Selection catalog entity (.entity id name) entity.type
  | filter {id i : NodeId} {source body : Expr} {p : String} {t : ElementType}
    (h : Selection catalog entity source t) (hbody : body.operatorFree) :
    Selection catalog entity (.call id .filter [source, .lambda i [p] body]) t
  | project {id i : NodeId} {source body : Expr} {p : String} {t : ElementType}
    (h : Selection catalog entity source t) (hbody : body.operatorFree) :
    Selection catalog entity (.call id .project [source, .lambda i [p] body])
      (body.typeIn [(p, t)])

/-- Groups of elements by a key with at least one column, with conditions on them, and what the keys
are made of. -/
inductive Grouped (catalog : Catalog) (entity : Entity) : Expr → ElementType → Prop
  | groupBy {id i : NodeId} {source key : Expr} {p : String} {selector : List Expr}
    {t : ElementType} (h : Selection catalog entity source t) (hkey : key.operatorFree)
    (hselector : Expr.areSelector selector) (hcolumns : (key.typeIn [(p, t)]).leaves ≠ []) :
    Grouped catalog entity (.call id .groupBy (source :: .lambda i [p] key :: selector))
      (key.typeIn [(p, t)])
  | filter {id i : NodeId} {source body : Expr} {g : String} {t : ElementType}
    (h : Grouped catalog entity source t) (hbody : body.aggregatesOnly) :
    Grouped catalog entity (.call id .filter [source, .lambda i [g] body]) t

/-- A query that selects at least one column of each group. -/
inductive GroupQuery (catalog : Catalog) (entity : Entity) : Expr → Prop
  | project {id i : NodeId} {source body : Expr} {g : String} {t : ElementType}
    (h : Grouped catalog entity source t) (hbody : body.aggregatesOnly)
    (hcolumns : (body.typeIn [(g, .parts [("key", t)])]).leaves ≠ []) :
    GroupQuery catalog entity (.call id .project [source, .lambda i [g] body])

end SequenceQuery
