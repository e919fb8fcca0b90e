import SequenceQuery.Form.Meaning
import SequenceQuery.Proofs.Elements

namespace SequenceQuery

/-- What holds of the result where an attempt at a form succeeds, and whether a segment has been
asked for before and after it. -/
def Yields {α : Type} (before : Prop) (x : Build α) (P : α → Prop) (after : Prop) : Prop :=
  ∀ p, (before → p.segmentUsed) → ∀ a q, x.run p = .ok (a, q) → P a ∧ (after → q.segmentUsed)

namespace Yields

variable {α β : Type} {u v w : Prop} {P P' : α → Prop} {Q : β → Prop} {x : Build α}

theorem pure {a : α} (h : P a) : Yields u (pure a) P u := by
  intro p hp b q hrun
  cases hrun
  exact ⟨h, hp⟩

theorem bind {f : α → Build β} (h : Yields u x P v) (hf : ∀ a, P a → Yields v (f a) Q w) :
    Yields u (x >>= f) Q w := by
  intro p hp b r hrun
  rw [StateT.run_bind] at hrun
  cases hx : x.run p with
  | error e =>
    rw [hx] at hrun
    cases hrun
  | ok found =>
    obtain ⟨a, q⟩ := found
    rw [hx] at hrun
    obtain ⟨ha, hq⟩ := h p hp a q hx
    exact hf a ha q hq b r hrun

theorem lift {x : Except Failure α} (h : ∀ a, x = .ok a → P a) : Yields u (liftM x) P u := by
  intro p hp a q hrun
  cases x with
  | error e => cases hrun
  | ok b =>
    cases hrun
    exact ⟨h a rfl, hp⟩

theorem bindOk {a : α} {f : α → Build β} (h : Yields u (f a) Q w) :
    Yields u (liftM (Except.ok a : Except Failure α) >>= f) Q w :=
  bind (lift fun _ hb => Except.ok.inj hb) fun _ hb => hb ▸ h

theorem throw (f : Failure) : Yields u (throw f : Build α) P v := by
  intro p hp a q hrun
  cases hrun

theorem thrown (e : Failure) {f : α → Build β} : Yields u (MonadExcept.throw e >>= f) Q w := by
  intro p hp a q hrun
  cases hrun

theorem unsupported (node : Expr) (reason : Unsupported) :
    Yields u (liftM (unsupported node reason : Except Failure α)) P v := by
  intro p hp a q hrun
  cases hrun

theorem refused (node : Expr) (reason : Unsupported) {f : α → Build β} :
    Yields u (liftM (SequenceQuery.unsupported node reason : Except Failure α) >>= f) Q w := by
  intro p hp a q hrun
  cases hrun

theorem imp (h : Yields u x P v) (hP : ∀ a, P a → P' a) : Yields u x P' v := by
  intro p hp a q hrun
  obtain ⟨ha, hq⟩ := h p hp a q hrun
  exact ⟨hP a ha, hq⟩

theorem any (x : Build α) : Yields u x (fun _ => True) False :=
  fun _ _ _ _ _ => ⟨trivial, False.elim⟩

theorem both (h : Yields u x P v) (h' : Yields False x P' False) :
    Yields u x (fun a => P a ∧ P' a) v := by
  intro p hp a q hrun
  obtain ⟨ha, hq⟩ := h p hp a q hrun
  exact ⟨⟨ha, (h' p False.elim a q hrun).1⟩, hq⟩

theorem after (h : Yields u x P v) (hw : w → v) : Yields u x P w := by
  intro p hp a q hrun
  obtain ⟨ha, hq⟩ := h p hp a q hrun
  exact ⟨ha, fun h => hq (hw h)⟩

theorem freshLabel : Yields u freshLabel (fun _ => True) u := by
  intro p hp a q hrun
  cases hrun
  exact ⟨trivial, hp⟩

end Yields

theorem findNamed?_map {α β : Type} {key : α → String} {key' : β → String} {f : α → β}
    (hkey : ∀ a, key' (f a) = key a) (name : String) (entries : List α) :
    Text.findNamed? key' name (entries.map f) = (Text.findNamed? key name entries).map f := by
  simp only [Text.findNamed?, List.find?_map, Function.comp_def, hkey]
  cases entries.find? fun a => key a == name <;> rfl

theorem lookup_map {α β : Type} (f : α → β) (name : String) (entries : List (String × α)) :
    (entries.map fun entry => (entry.1, f entry.2)).lookup name = (entries.lookup name).map f := by
  induction entries with
  | nil => rfl
  | cons entry entries ih =>
    obtain ⟨key, a⟩ := entry
    rw [List.map_cons, List.lookup_cons, List.lookup_cons, ih]
    cases name == key <;> rfl

namespace Composite

variable {α β : Type}

theorem mapFields_eq_map (f : α → β) (fields : List (String × Composite α)) :
    mapFields f fields = fields.map fun field => (field.1, field.2.map f) := by
  induction fields with
  | nil => rfl
  | cons field fields ih => rw [mapFields, ih, List.map_cons]

theorem part?_map (f : α → β) (c : Composite α) (name : String) :
    (c.map f).part? name = (c.part? name).map (map f) := by
  cases c with
  | one a => rfl
  | parts fields =>
    have hkey : ∀ field : String × Composite α, (field.1, field.2.map f).1 = field.1 :=
      fun _ => rfl
    rw [map, part?, mapFields_eq_map, findNamed?_map hkey, part?, Option.map_map, Option.map_map]
    rfl

end Composite

theorem Entity.part?_compose {α : Type} (e : Entity) (f : Property → α) (name : String) :
    (e.compose f).part? name = (e.find? name).map fun p => .one (f p) := by
  have hkey : ∀ p : Property, (p.name, Composite.one (f p)).1 = p.name := fun _ => rfl
  rw [compose, Composite.part?, findNamed?_map hkey, Option.map_map]
  rfl

theorem Entity.map_compose {α β : Type} (e : Entity) (f : Property → α) (g : α → β) :
    (e.compose f).map g = e.compose fun p => g (f p) := by
  rw [compose, compose, Composite.map, Composite.mapFields_eq_map, List.map_map]
  rfl

namespace Binding

mutual

def composite : Binding → Composite SqlExpr
  | .record label entity columnPrefix _ =>
    entity.compose fun p => .columnOf label (columnPrefix ++ p.column)
  | .object fields => .parts (fieldComposites fields)
  | .scalar s => .one s.expr
  | .group .. => .parts []

def fieldComposites : List (String × Binding) → List (String × Composite SqlExpr)
  | [] => []
  | (name, b) :: rest => (name, b.composite) :: fieldComposites rest

end

mutual

def isPlain : Binding → Bool
  | .record .. => true
  | .object fields => fieldsArePlain fields
  | .scalar s => !s.expr.hasAggregate
  | .group .. => false

def fieldsArePlain : List (String × Binding) → Bool
  | [] => true
  | (_, b) :: rest => b.isPlain && fieldsArePlain rest

end

theorem fieldComposites_eq_map (fields : List (String × Binding)) :
    fieldComposites fields = fields.map fun field => (field.1, field.2.composite) := by
  induction fields with
  | nil => rfl
  | cons field fields ih => rw [fieldComposites, ih, List.map_cons]

theorem isPlain_of_mem {fields : List (String × Binding)} (h : fieldsArePlain fields)
    {field : String × Binding} (hmem : field ∈ fields) : field.2.isPlain := by
  induction fields with
  | nil => cases hmem
  | cons first fields ih =>
    obtain ⟨hfirst, hrest⟩ := (Bool.and_eq_true _ _).mp h
    cases hmem with
    | head => exact hfirst
    | tail _ hmem => exact ih hrest hmem

theorem member_composite {b found : Binding} {name : String} {node : Expr} (hb : b.isPlain)
    (h : b.member name node = .ok found) :
    found.isPlain ∧ b.composite.part? name = some found.composite := by
  cases member_ok h with
  | column hp =>
    rw [composite, Entity.part?_compose, hp]
    exact ⟨rfl, rfl⟩
  | field hf =>
    have hkey : ∀ field : String × Binding, (field.1, field.2.composite).1 = field.1 :=
      fun _ => rfl
    rw [composite, Composite.part?, fieldComposites_eq_map, findNamed?_map hkey, hf]
    exact ⟨isPlain_of_mem hb (Text.findNamed?_mem hf), rfl⟩
  | key _ => cases hb

end Binding

section

variable (engine : Engine) (db : Database) (arguments : Arguments)

def SqlExpr.cellIn (row : Env) (e : SqlExpr) : Cell := e.cell engine db arguments [row] row

def Binding.element (row : Env) (b : Binding) : Element :=
  b.composite.map (SqlExpr.cellIn engine db arguments row)

def Scope.elements (row : Env) (scope : Scope) : List (String × Element) :=
  scope.map fun entry => (entry.1, entry.2.element engine db arguments row)

end

def Binding.type (b : Binding) : ElementType := b.composite.map fun _ => ()

def Scope.types (scope : Scope) : List (String × ElementType) :=
  scope.map fun entry => (entry.1, entry.2.type)

/-- A slot that is found for the node holds the values of the node. -/
def Surroundings.Supplies (env : Surroundings) (arguments : Arguments) (n : Expr) : Prop :=
  ∀ slot, env.slot? n.id = some slot → ∀ i v, n.ownValues[i]? = some v →
    arguments.constants[slot + i]? = some v

section Bodies

variable (engine : Engine) (db : Database) (arguments : Arguments) (env : Surroundings)
  (scope : Scope)

/-- The binding of a body stands for its value in every row. -/
structure Binding.Stands (e : Expr) (b : Binding) : Prop where
  plain : b.isPlain
  type : b.type = e.typeIn scope.types
  element : ∀ row, b.element engine db arguments row =
    e.element engine env.dialect.callee (scope.elements engine db arguments row)

structure Scalar.Stands (e : Expr) (s : Scalar) : Prop where
  plain : s.expr.hasAggregate = false
  cell : ∀ row, s.expr.cellIn engine db arguments row =
    (e.element engine env.dialect.callee (scope.elements engine db arguments row)).cell

structure Scalar.Computes (value : Env → Cell) (s : Scalar) : Prop where
  plain : s.expr.hasAggregate = false
  cell : ∀ row, s.expr.cellIn engine db arguments row = value row

def Meaning.Stands (e : Expr) (m : Meaning) : Prop :=
  ∀ u, Yields u (m.asBinding scope) (Binding.Stands engine db arguments env scope e) u

variable {engine db arguments env scope} {u : Prop}

theorem Binding.Stands.scalar {e node : Expr} {b : Binding} {s : Scalar}
    (h : b.Stands engine db arguments env scope e) (hs : b.asScalar node = .ok s) :
    s.Stands engine db arguments env scope e := by
  obtain rfl := Binding.asScalar_ok hs
  refine ⟨by simpa [Binding.isPlain] using h.plain, fun row => ?_⟩
  rw [← h.element row]
  rfl

theorem asScalar_stands {m : Meaning} {e : Expr} (h : m.Stands engine db arguments env scope e) :
    Yields u (m.asScalar scope) (Scalar.Stands engine db arguments env scope e) u := by
  rw [Meaning.asScalar]
  exact (h u).bind fun b hb => .lift fun s hs => hb.scalar hs

theorem scalars_stand {ms : List Meaning} {es : List Expr}
    (h : List.Forall₂ (Meaning.Stands engine db arguments env scope) es ms) :
    Yields u (Meaning.scalars scope ms)
      (List.Forall₂ (Scalar.Stands engine db arguments env scope) es) u := by
  induction h with
  | nil => exact .pure .nil
  | cons hm _ ih =>
    exact (asScalar_stands hm).bind fun s hs => ih.bind fun ss hss => .pure (.cons hs hss)

theorem ofScalar_stands {e node : Expr} {scalar : Scope → Build Scalar} {value : Env → Cell}
    (htype : e.typeIn scope.types = .one ())
    (hvalue : ∀ row, e.element engine env.dialect.callee
      (scope.elements engine db arguments row) = .one (value row))
    (h : Yields u (scalar scope) (Scalar.Computes engine db arguments value) u) :
    Yields u ((Meaning.ofScalar node scalar).asBinding scope)
      (Binding.Stands engine db arguments env scope e) u := by
  refine h.bind fun s hs => .pure ⟨?_, htype.symm, fun row => ?_⟩
  · rw [Binding.isPlain, hs.plain]
    rfl
  · rw [hvalue row, ← hs.cell row]
    rfl

theorem param_stands (hscope : ∀ entry ∈ scope, entry.2.isPlain) (id : NodeId) (name : String) :
    Yields u (liftM (lookUp scope name (.param id name)))
      (Binding.Stands engine db arguments env scope (.param id name)) u := by
  refine .lift fun b hb => ?_
  have hfound := lookUp_ok hb
  refine ⟨hscope _ (mem_of_lookUp hb), ?_, fun row => ?_⟩
  · rw [Expr.typeIn, Expr.partsIn, Scope.types, lookup_map, hfound]
    rfl
  · rw [Expr.element, Scope.elements, lookup_map, hfound]
    rfl

theorem member_stands {target : Expr} {b found : Binding} {id : NodeId} {name : String}
    (hb : b.Stands engine db arguments env scope target)
    (h : b.member name (.member id target name) = .ok found) :
    found.Stands engine db arguments env scope (.member id target name) := by
  obtain ⟨hplain, hpart⟩ := Binding.member_composite hb.plain h
  refine ⟨hplain, ?_, fun row => ?_⟩
  · have htype : b.type.part? name = some found.type := by
      rw [Binding.type, Composite.part?_map, hpart]
      rfl
    rw [Expr.typeIn, Expr.partsIn, ← Expr.typeIn, ← hb.type, htype]
    rfl
  · have helement : (b.element engine db arguments row).part? name =
        some (found.element engine db arguments row) := by
      rw [Binding.element, Composite.part?_map, hpart]
      rfl
    rw [Expr.element, ← hb.element row, helement]
    rfl

theorem cellIn_slot {slot : Nat} {value : Value} (h : arguments.constants[slot]? = some value)
    (row : Env) : SqlExpr.cellIn engine db arguments row (.param (.slot slot)) = value.cell := by
  rw [SqlExpr.cellIn, SqlExpr.cell, Arguments.resolve, h]

theorem const_stands {id : NodeId} {value : Value}
    (hsupplied : env.Supplies arguments (.const id value)) :
    Yields u ((Meaning.ofConstant env (.const id value) value).asBinding scope)
      (Binding.Stands engine db arguments env scope (.const id value)) u := by
  refine ofScalar_stands rfl (fun _ => rfl) ?_
  cases hnull : value.isNull with
  | true =>
    cases value <;> cases hnull
    exact .pure ⟨rfl, fun row => rfl⟩
  | false =>
    simp only [Bool.false_eq_true, if_false]
    cases hslot : env.slot? (Expr.const id value).id with
    | none => exact .unsupported _ _
    | some slot =>
      refine .pure ⟨rfl, fun row => ?_⟩
      exact cellIn_slot (hsupplied slot hslot 0 value rfl) row

theorem cell_of_isNull {e : Expr} (h : e.isNull) (callee : String → String)
    (elements : List (String × Element)) : (e.element engine callee elements).cell = .null := by
  cases e with
  | const id value =>
    cases value <;> cases h
    rfl
  | _ => cases h

theorem of_nullTest? {op : BinaryOp} {left right operand : Meaning} {negated : Bool}
    (h : nullTest? op left right = some (operand, negated)) :
    op = (if negated then .notEqual else .equal) ∧
      (right.node.isNull = true ∧ operand = left ∨ left.node.isNull = true ∧ operand = right) := by
  have hoperand : (if right.node.isNull then some left else
      if left.node.isNull then some right else none) = some operand ∧
      op = (if negated then .notEqual else .equal) := by
    cases op with
    | equal | notEqual =>
      obtain ⟨m, hm, heq⟩ := Option.map_eq_some_iff.1 h
      cases heq
      exact ⟨hm, rfl⟩
    | _ => cases h
  refine ⟨hoperand.2, ?_⟩
  have hm := hoperand.1
  split at hm
  · exact .inl ⟨‹_›, (Option.some.inj hm).symm⟩
  · split at hm
    · exact .inr ⟨‹_›, (Option.some.inj hm).symm⟩
    · cases hm

theorem compute_of_nullTest? {op : BinaryOp} {left right : Meaning}
    (h : nullTest? op left right = none) (engine : Engine) (a b : Cell) :
    engine.compute op (left.node.isNull || right.node.isNull) a b =
      match sqlBinary? op with
      | some op => engine.operate op a b
      | none => .firstKnown [a, b] := by
  have hnull : op = .equal ∨ op = .notEqual →
      (left.node.isNull || right.node.isNull) = false := by
    rintro (rfl | rfl) <;> revert h <;> rw [nullTest?] <;>
      cases right.node.isNull <;> cases left.node.isNull <;> simp
  cases op with
  | equal | notEqual =>
    rw [hnull (by simp)]
    rfl
  | _ => rfl

theorem binary_stands {left right : Meaning} {l r : Expr} (op : BinaryOp) (hl : left.node = l)
    (hr : right.node = r) (hleft : left.Stands engine db arguments env scope l)
    (hright : right.Stands engine db arguments env scope r) :
    Yields u (scalarOfBinary op left right scope)
      (Scalar.Computes engine db arguments fun row => engine.compute op (l.isNull || r.isNull)
        (l.element engine env.dialect.callee (scope.elements engine db arguments row)).cell
        (r.element engine env.dialect.callee (scope.elements engine db arguments row)).cell) u := by
  subst hl hr
  rw [scalarOfBinary]
  cases htest : nullTest? op left right with
  | some test =>
    obtain ⟨operand, negated⟩ := test
    obtain ⟨rfl, ⟨hnull, rfl⟩ | ⟨hnull, rfl⟩⟩ := of_nullTest? htest
    · refine (asScalar_stands hleft).bind fun s hs => .pure ⟨hs.plain, fun row => ?_⟩
      rw [cell_of_isNull hnull, ← hs.cell row, hnull, Bool.or_true]
      cases negated <;> simp [Engine.compute, SqlExpr.cellIn, SqlExpr.cell, Cell.isNull]
    · refine (asScalar_stands hright).bind fun s hs => .pure ⟨hs.plain, fun row => ?_⟩
      rw [cell_of_isNull hnull, ← hs.cell row, hnull, Bool.true_or]
      cases negated <;> simp [Engine.compute, SqlExpr.cellIn, SqlExpr.cell, Cell.isNull]
  | none =>
    refine (asScalar_stands hleft).bind fun s hs => (asScalar_stands hright).bind fun s' hs' => ?_
    have hcompute := fun row => compute_of_nullTest? htest engine
      (s.expr.cellIn engine db arguments row) (s'.expr.cellIn engine db arguments row)
    cases hop : sqlBinary? op with
    | some sqlOp =>
      refine .pure ⟨?_, fun row => ?_⟩
      · rw [SqlExpr.hasAggregate, hs.plain, hs'.plain]
        rfl
      · rw [← hs.cell row, ← hs'.cell row, hcompute row, hop]
        rfl
    | none =>
      refine .pure ⟨?_, fun row => ?_⟩
      · simp [SqlExpr.coalesce, SqlExpr.hasAggregate, anyAggregate, hs.plain, hs'.plain]
      · rw [← hs.cell row, ← hs'.cell row, hcompute row, hop]
        rfl

theorem anyAggregate_of_stand {es : List Expr} {ss : List Scalar}
    (h : List.Forall₂ (Scalar.Stands engine db arguments env scope) es ss) :
    anyAggregate (ss.map Scalar.expr) = false := by
  induction h with
  | nil => rfl
  | cons hs _ ih =>
    rw [List.map_cons, anyAggregate, hs.plain, ih]
    rfl

theorem listCells_of_stand {es : List Expr} {ss : List Scalar}
    (h : List.Forall₂ (Scalar.Stands engine db arguments env scope) es ss) (row : Env) :
    listCells engine db arguments (ss.map Scalar.expr) [row] row =
      Expr.argumentCells engine env.dialect.callee (scope.elements engine db arguments row) es := by
  induction h with
  | nil => rfl
  | cons hs _ ih =>
    rw [List.map_cons, listCells, Expr.argumentCells, ih, ← hs.cell row]
    rfl

theorem pattern?_of_searchPattern? {name : String} {needle pattern : SqlExpr}
    (h : searchPattern? name needle = some pattern) (engine : Engine) (db : Database)
    (arguments : Arguments) (group : List Env) (row : Env) :
    engine.pattern? name (needle.cell engine db arguments group row) =
      some (pattern.cell engine db arguments group row) := by
  unfold searchPattern? at h
  split at h
  case h_4 => cases h
  all_goals
    cases h
    rfl

theorem pattern_of_searchPattern? {name : String} {needle pattern : SqlExpr}
    (h : searchPattern? name needle = some pattern) (hneedle : needle.hasAggregate = false) :
    pattern.hasAggregate = false ∧ ∀ (engine : Engine) (db : Database) (arguments : Arguments)
      (row : Env), engine.pattern? name (needle.cellIn engine db arguments row) =
        some (pattern.cellIn engine db arguments row) := by
  refine ⟨?_, fun engine db arguments row =>
    pattern?_of_searchPattern? h engine db arguments [row] row⟩
  unfold searchPattern? at h
  split at h
  case h_4 => cases h
  all_goals
    cases h
    simp only [SqlExpr.hasAggregate, hneedle, Bool.or_false]

theorem isSome_searchPattern? (name : String) (needle : SqlExpr) :
    (searchPattern? name needle).isSome = isSearch name := by
  unfold isSearch searchPattern?
  split <;> rfl

theorem pattern?_eq_none {name : String} (h : isSearch name = false) (needle : Cell) :
    engine.pattern? name needle = none := by
  unfold Engine.pattern?
  split <;> first | rfl | cases h

theorem function_stands {node : Expr} {name : String} {es : List Expr} {args : List Meaning}
    (h : List.Forall₂ (Meaning.Stands engine db arguments env scope) es args) :
    Yields u (scalarOfFunction env node name args scope) (Scalar.Computes engine db arguments
      fun row => engine.applied env.dialect.callee name (Expr.argumentCells engine
        env.dialect.callee (scope.elements engine db arguments row) es)) u := by
  rw [scalarOfFunction]
  split
  case isTrue hsearch =>
    obtain ⟨hname, hlength⟩ := (Bool.and_eq_true _ _).mp hsearch
    obtain _ | ⟨htext, _ | ⟨hneedle, _ | ⟨_, _⟩⟩⟩ := h <;> simp at hlength
    refine .bindOk ((asScalar_stands htext).bind fun s hs => ?_)
    refine .bindOk ((asScalar_stands hneedle).bind fun s' hs' => ?_)
    obtain ⟨pattern, hpattern⟩ : ∃ pattern,
        searchPattern? (Text.lower name) s'.expr = some pattern :=
      Option.isSome_iff_exists.1 ((isSome_searchPattern? _ _).trans hname)
    obtain ⟨hplain, hcell⟩ := pattern_of_searchPattern? hpattern hs'.plain
    rw [hpattern]
    refine .pure ⟨?_, fun row => ?_⟩
    · simp only [SqlExpr.hasAggregate, hs.plain, Option.getD_some, hplain, Bool.or_false]
    · rw [Engine.applied, Expr.argumentCells, Expr.argumentCells, Expr.argumentCells,
        Engine.search?, ← hs.cell row, ← hs'.cell row, hcell]
      rfl
  case isFalse hsearch =>
    have hsearch? : ∀ row, engine.search? (Text.lower name) (Expr.argumentCells engine
        env.dialect.callee (scope.elements engine db arguments row) es) = none := by
      intro row
      obtain _ | ⟨_, _ | ⟨_, _ | ⟨_, _⟩⟩⟩ := h
      case cons.cons.nil =>
        have hname : isSearch (Text.lower name) = false := by simpa using hsearch
        simp only [Expr.argumentCells, Engine.search?, pattern?_eq_none hname, Option.map_none]
      all_goals rfl
    refine (scalars_stand h).bind fun ss hss => ?_
    have hcall : ∀ called, called = env.dialect.callee name → Scalar.Computes engine db arguments
        (fun row => engine.applied env.dialect.callee name (Expr.argumentCells engine
          env.dialect.callee (scope.elements engine db arguments row) es))
        ⟨.function called (ss.map Scalar.expr), ss.any Scalar.nullable⟩ := by
      rintro called rfl
      refine ⟨anyAggregate_of_stand hss, fun row => ?_⟩
      rw [Engine.applied, hsearch? row, SqlExpr.cellIn, SqlExpr.cell, listCells_of_stand hss]
      rfl
    cases hname : env.dialect.functionName (Text.lower name) with
    | some mapped => exact .pure (hcall mapped (by rw [Dialect.callee, hname]; rfl))
    | none =>
      simp only
      split
      · exact .pure (hcall name (by rw [Dialect.callee, hname]; rfl))
      · exact .thrown _

theorem cellIn_cases (t a b : SqlExpr) (row : Env) :
    SqlExpr.cellIn engine db arguments row (.cases [(t, a)] (some b)) =
      if (t.cellIn engine db arguments row).isTrue then a.cellIn engine db arguments row
      else b.cellIn engine db arguments row := by
  show (if (t.cellIn engine db arguments row).isTrue then some (a.cellIn engine db arguments row)
    else none).getD (b.cellIn engine db arguments row) = _
  split <;> rfl

theorem conditional_stands {test ifTrue ifFalse : Meaning} {t a b : Expr} {id : NodeId}
    {node : Expr} (ht : test.Stands engine db arguments env scope t)
    (ha : ifTrue.Stands engine db arguments env scope a)
    (hb : ifFalse.Stands engine db arguments env scope b) :
    (Meaning.ofScalar node fun scope => do
      let t ← test.asScalar scope
      let a ← ifTrue.asScalar scope
      let b ← ifFalse.asScalar scope
      return ⟨.cases [(t.expr, a.expr)] (some b.expr), a.nullable || b.nullable⟩).Stands engine db
        arguments env scope (.conditional id t a b) := by
  refine fun u => ofScalar_stands rfl (fun _ => rfl) ?_
  refine (asScalar_stands ht).bind fun s hs => (asScalar_stands ha).bind fun s' hs' =>
    (asScalar_stands hb).bind fun s'' hs'' => .pure ⟨?_, fun row => ?_⟩
  · simp only [SqlExpr.hasAggregate, armsAggregate, hs.plain, hs'.plain, hs''.plain, Bool.or_false]
  · rw [← hs.cell row, ← hs'.cell row, ← hs''.cell row]
    exact cellIn_cases ..

structure FieldsStand (engine : Engine) (db : Database) (arguments : Arguments)
    (env : Surroundings) (scope : Scope) (fields : List (String × Expr))
    (bs : List (String × Binding)) : Prop where
  plain : Binding.fieldsArePlain bs
  types : Composite.mapFields (fun _ => ()) (Binding.fieldComposites bs) =
    Expr.fieldPartsIn () scope.types fields
  elements : ∀ row, Composite.mapFields (SqlExpr.cellIn engine db arguments row)
    (Binding.fieldComposites bs) = Expr.fieldElements engine env.dialect.callee
      (scope.elements engine db arguments row) fields

theorem FieldsStand.cons {name : String} {e : Expr} {b : Binding} {fields : List (String × Expr)}
    {bs : List (String × Binding)} (hb : b.Stands engine db arguments env scope e)
    (h : FieldsStand engine db arguments env scope fields bs) :
    FieldsStand engine db arguments env scope ((name, e) :: fields) ((name, b) :: bs) := by
  refine ⟨?_, ?_, fun row => ?_⟩
  · rw [Binding.fieldsArePlain, hb.plain, h.plain]
    rfl
  · rw [Binding.fieldComposites, Composite.mapFields, h.types, Expr.fieldPartsIn, ← Expr.typeIn,
      ← hb.type]
    rfl
  · rw [Binding.fieldComposites, Composite.mapFields, h.elements, Expr.fieldElements,
      ← hb.element row]
    rfl

def Readable (env : Surroundings) (arguments : Arguments) (n : Expr) : Prop :=
  n.isCall = false ∧ env.Supplies arguments n

theorem node_meaning (env : Surroundings) (e : Expr) : (e.meaning env).node = e := by
  cases e <;> rfl

mutual

theorem meaning_stands (hscope : ∀ entry ∈ scope, entry.2.isPlain) : ∀ e : Expr,
    (∀ n ∈ e.nodes, Readable env arguments n) →
      (e.meaning env).Stands engine db arguments env scope e
  | .entity .., _ | .lambda .., _ | .segment .., _ => fun _ => .unsupported _ _
  | .call .., h => nomatch (h _ List.mem_cons_self).1
  | .param id name, _ => fun _ => param_stands hscope id name
  | .const .., h => fun _ => const_stands (h _ List.mem_cons_self).2
  | .member _ target _, h => fun u => by
    have htarget := meaning_stands hscope target (List.forall_mem_cons.1 h).2
    exact (htarget u).bind fun b hb => .lift fun found hfound => member_stands hb hfound
  | .binary _ op left right, h => fun u => by
    obtain ⟨hleft, hright⟩ := List.forall_mem_append.1 (List.forall_mem_cons.1 h).2
    exact ofScalar_stands rfl (fun _ => rfl) (binary_stands op (node_meaning env left)
      (node_meaning env right) (meaning_stands hscope left hleft)
      (meaning_stands hscope right hright))
  | .unary _ op operand, h => fun u => by
    have hoperand := meaning_stands hscope operand (List.forall_mem_cons.1 h).2
    cases op with
    | not =>
      refine ofScalar_stands rfl (fun _ => rfl) ((asScalar_stands hoperand).bind fun s hs => ?_)
      exact .pure ⟨hs.plain, fun row => congrArg Cell.opposite (hs.cell row)⟩
    | negate =>
      refine ofScalar_stands rfl (fun _ => rfl) ((asScalar_stands hoperand).bind fun s hs => ?_)
      exact .pure ⟨hs.plain, fun row => congrArg engine.minus (hs.cell row)⟩
  | .function _ name args, h => fun u => by
    have hargs := meanings_stand hscope args (List.forall_mem_cons.1 h).2
    exact ofScalar_stands rfl (fun _ => rfl) (function_stands hargs)
  | .object _ fields, h => fun u => by
    have hfields := fieldMeanings_stand hscope fields (List.forall_mem_cons.1 h).2 u
    refine hfields.bind fun bs hbs => .pure ⟨hbs.plain, ?_, fun row => ?_⟩
    · exact congrArg Composite.parts hbs.types
    · exact congrArg Composite.parts (hbs.elements row)
  | .conditional _ test ifTrue ifFalse, h => by
    obtain ⟨htest, hrest⟩ := List.forall_mem_append.1 (List.forall_mem_cons.1 h).2
    obtain ⟨htrue, hfalse⟩ := List.forall_mem_append.1 hrest
    exact conditional_stands (meaning_stands hscope test htest)
      (meaning_stands hscope ifTrue htrue) (meaning_stands hscope ifFalse hfalse)

theorem meanings_stand (hscope : ∀ entry ∈ scope, entry.2.isPlain) : ∀ es : List Expr,
    (∀ n ∈ Expr.nodesOfList es, Readable env arguments n) →
      List.Forall₂ (Meaning.Stands engine db arguments env scope) es (meanings env es)
  | [], _ => .nil
  | e :: rest, h => by
    obtain ⟨he, hrest⟩ := List.forall_mem_append.1 h
    exact .cons (meaning_stands hscope e he) (meanings_stand hscope rest hrest)

theorem fieldMeanings_stand (hscope : ∀ entry ∈ scope, entry.2.isPlain) :
    ∀ fields : List (String × Expr), (∀ n ∈ Expr.nodesOfFields fields, Readable env arguments n) →
      ∀ u, Yields u (Meaning.bindFields scope (fieldMeanings env fields))
        (FieldsStand engine db arguments env scope fields) u
  | [], _ => fun _ => .pure ⟨rfl, rfl, fun _ => rfl⟩
  | (_, e) :: rest, h => by
    obtain ⟨he, hrest⟩ := List.forall_mem_append.1 h
    intro u
    exact (meaning_stands hscope e he u).bind fun b hb =>
      (fieldMeanings_stand hscope rest hrest u).bind fun bs hbs => .pure (hbs.cons hb)

end

end Bodies

end SequenceQuery
