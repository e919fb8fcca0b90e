import SequenceQuery.Form.Meaning

namespace SequenceQuery

structure Form where
  select : Select
  shape : ResultShape
  /-- The segment of the query, when the statement asks for one. -/
  segment : Option Segment
  slotCount : Nat
  origin : Expr

/-- EXISTS as the only value of a statement, written as a CASE where it cannot be selected. -/
def existence (env : Surroundings) (select : Select) (negated : Bool) (node : Expr) : Select :=
  let test := SqlExpr.exist select negated
  .ofItem
    (if env.dialect.capabilities.existsProjection then test
      else .cases [(test, .literal (.bool true))] (some (.literal (.bool false)))) node

/-- A terminal operator at the root. An IN that is unknown counts as false. -/
def Terminal.atRoot (env : Surroundings) (node : Expr) : Terminal → Select × ResultShape
  | .single select _ nullable unique => (select, .single nullable unique)
  | .exist select negated => (existence env select negated node, .scalar false)
  | .scalar select nullable => (select, .scalar nullable)
  | .isIn value select =>
    (.ofItem (.coalesce [.isIn value select false, .literal (.bool false)]) node, .scalar false)

def sequenceAtRoot (env : Surroundings) (e : Expr) : Build (Select × ResultShape) := do
  let rows ← (e.meaning env).asSequence false []
  return (← rows.project e, .sequence)

def atRoot (env : Surroundings) (e : Expr) : Build (Select × ResultShape) :=
  match e with
  | .call _ op args =>
    if op.isTerminal then return (← terminal e op (meanings env args) []).atRoot env e
    else sequenceAtRoot env e
  | _ => sequenceAtRoot env e

def Surroundings.ofExpr (catalog : Catalog) (dialect : Dialect) (e : Expr) : Surroundings :=
  ⟨catalog, dialect, e.slots, e.marker?.map fun m => m.call.id⟩

namespace Form

def hasSegment (f : Form) : Bool := f.segment.isSome

/-- The form of a query, or the first reason why it has none. -/
def ofExpr (catalog : Catalog) (dialect : Dialect) (e : Expr) : Except FormError Form :=
  match (atRoot (.ofExpr catalog dialect e) e).run ⟨0, false⟩ with
  | .error f => .error (f.within e)
  | .ok ((select, shape), progress) =>
    .ok ⟨select, shape, if progress.segmentUsed then e.segment? else none,
      e.constants.length, e⟩

theorem ofExpr_ok {catalog : Catalog} {dialect : Dialect} {e : Expr} {f : Form}
    (h : ofExpr catalog dialect e = .ok f) :
    ∃ progress, (atRoot (.ofExpr catalog dialect e) e).run ⟨0, false⟩ =
        .ok ((f.select, f.shape), progress) ∧
      f.segment = (if progress.segmentUsed then e.segment? else none) ∧
      f.slotCount = e.constants.length ∧ f.origin = e := by
  rw [ofExpr] at h
  cases hrun : (atRoot (.ofExpr catalog dialect e) e).run ⟨0, false⟩ with
  | error failure => rw [hrun] at h; cases h
  | ok found =>
    obtain ⟨⟨select, shape⟩, progress⟩ := found
    rw [hrun] at h
    cases h
    exact ⟨progress, rfl, rfl, rfl, rfl⟩

end Form

end SequenceQuery
