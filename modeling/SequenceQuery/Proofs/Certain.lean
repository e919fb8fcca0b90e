import SequenceQuery.Proofs.Doubts

namespace SequenceQuery

variable {w : World}

namespace Cell

theorem isTruth_both (a b : Cell) : (a.both b).isTruth = true := by
  unfold both
  split <;> rfl

theorem isTruth_either (a b : Cell) : (a.either b).isTruth = true := by
  unfold either
  split <;> rfl

theorem isTruth_opposite (a : Cell) : a.opposite.isTruth = true := by
  rw [opposite]
  cases a.truth <;> rfl

theorem bool_of_isTruth {c : Cell} (h : c.isTruth = true) (hc : c.isNull = false) :
    ∃ b, c = .bool b := by
  cases c with
  | bool b => exact ⟨b, rfl⟩
  | null => cases hc
  | _ => cases h

theorem isNull_operate {engine : Engine} (hengine : engine.Strict) {op : SqlBinary} {a b : Cell}
    (ha : a.isNull = false) (hb : b.isNull = false)
    (htruth : op.isLogical = true → a.isTruth = true ∧ b.isTruth = true) :
    (engine.operate op a b).isNull = false := by
  cases op with
  | and =>
    obtain ⟨x, rfl⟩ := bool_of_isTruth (htruth rfl).1 ha
    obtain ⟨y, rfl⟩ := bool_of_isTruth (htruth rfl).2 hb
    cases x <;> cases y <;> rfl
  | or =>
    obtain ⟨x, rfl⟩ := bool_of_isTruth (htruth rfl).1 ha
    obtain ⟨y, rfl⟩ := bool_of_isTruth (htruth rfl).2 hb
    cases x <;> cases y <;> rfl
  | _ => exact hengine.binary _ a b ha hb

theorem isTruth_operate {engine : Engine} (hengine : engine.Strict) {op : SqlBinary}
    (h : op.tests = true) (a b : Cell) : (engine.operate op a b).isTruth = true := by
  cases op with
  | and => exact isTruth_both a b
  | or => exact isTruth_either a b
  | _ => exact hengine.tests _ a b h

theorem isNull_opposite {a : Cell} (ha : a.isNull = false) (htruth : a.isTruth = true) :
    a.opposite.isNull = false := by
  obtain ⟨x, rfl⟩ := bool_of_isTruth htruth ha
  rfl

theorem isTruth_among (engine : Engine) (c : Cell) (cells : List Cell) :
    (engine.among c cells).isTruth = true := by
  rw [Engine.among]
  cases cells with
  | nil => rfl
  | cons first rest => exact isTruth_either _ _

theorem isNull_firstKnown {cells : List Cell} :
    (firstKnown cells).isNull = false ↔ ∃ c ∈ cells, c.isNull = false := by
  induction cells with
  | nil => simp [firstKnown, isNull]
  | cons c rest ih =>
    rw [firstKnown, List.exists_mem_cons_iff]
    cases hc : c.isNull with
    | true => simp [ih]
    | false => simp [hc]

theorem isTruth_firstKnown {cells : List Cell} (h : ∀ c ∈ cells, c.isTruth = true) :
    (firstKnown cells).isTruth = true := by
  induction cells with
  | nil => rfl
  | cons c rest ih =>
    obtain ⟨hc, hrest⟩ := List.forall_mem_cons.1 h
    rw [firstKnown]
    split
    · exact ih hrest
    · exact hc

theorem isNull_aggregated {engine : Engine} (hengine : engine.Strict) {name : String}
    {cells : List Cell} (hne : cells ≠ []) (hcells : ∀ c ∈ cells, c.isNull = false) :
    (engine.aggregated name false cells).isNull = false := by
  have hknown : cells.filter (fun c => !c.isNull) = cells :=
    List.filter_eq_self.2 fun c hc => by simp [hcells c hc]
  rw [Engine.aggregated, hknown]
  split
  · rfl
  · exact hengine.aggregate name cells hne hcells

end Cell

/-- Where a value is computed: the rows that it may be computed of, what is known of their columns,
and whether it may be computed of a group. -/
structure Ground where
  seen : Env → Prop
  columns : List ColumnFact
  grouped : Bool

namespace Ground

instance : LE Ground :=
  ⟨fun a b => (∀ env, b.seen env → a.seen env) ∧ a.columns ⊆ b.columns ∧
    (a.grouped = true → b.grouped = true)⟩

instance : Preorder Ground where
  le_refl _ := ⟨fun _ => id, List.Subset.refl _, id⟩
  le_trans _ _ _ h h' := ⟨fun env hc => h.1 env (h'.1 env hc), List.Subset.trans h.2.1 h'.2.1,
    fun ha => h'.2.2 (h.2.2 ha)⟩

end Ground

def ColumnFact.HoldsOf (fact : ColumnFact) (c : Cell) : Prop :=
  (fact.known = true → c.isNull = false) ∧ (fact.truth = true → c.isTruth = true)

theorem JoinKind.of_mem_facts {kind : JoinKind} {columns : List ColumnFact} {c : ColumnFact}
    (h : c ∈ kind.facts columns) : ∃ fact ∈ columns, c.label = fact.label ∧ c.name = fact.name ∧
      ∀ cell, fact.HoldsOf cell → c.HoldsOf cell := by
  cases kind with
  | inner => exact ⟨c, h, rfl, rfl, fun _ => id⟩
  | left =>
    obtain ⟨fact, hfact, rfl⟩ := List.mem_map.1 h
    exact ⟨fact, hfact, rfl, rfl, fun _ hcell => ⟨fun hknown => (by cases hknown), hcell.2⟩⟩

theorem JoinKind.holdsOf_missing {kind : JoinKind} (hkind : kind = .left)
    {columns : List ColumnFact} {c : ColumnFact} (h : c ∈ kind.facts columns) :
    c.HoldsOf .null := by
  rw [hkind] at h
  obtain ⟨fact, -, rfl⟩ := List.mem_map.1 h
  exact ⟨fun hknown => (by cases hknown), fun _ => rfl⟩

def Ground.Upheld (g : Ground) : Prop :=
  ∀ fact ∈ g.columns, ∀ env, g.seen env → fact.HoldsOf (env.cell fact.label fact.name)

theorem listCells_eq (es : List SqlExpr) (group : List Env) (env : Env) :
    listCells w.engine w.db w.arguments es group env = es.map fun e => w.cell e group env := by
  induction es with
  | nil => rfl
  | cons e es ih => rw [listCells, ih, List.map_cons]

namespace SqlExpr

variable {g g' : Ground} {e l r : SqlExpr} {es : List SqlExpr} {seen : Env → Prop}

/-- Of groups of some rows, and one of them, the value is never null. -/
def KnownOn (w : World) (seen : Env → Prop) (e : SqlExpr) : Prop :=
  ∀ group env, group ≠ [] → (∀ row ∈ group, seen row) → seen env →
    (w.cell e group env).isNull = false

def TruthOn (w : World) (seen : Env → Prop) (e : SqlExpr) : Prop :=
  ∀ group env, seen env → (w.cell e group env).isTruth = true

def Always (w : World) (e : SqlExpr) : Prop := ∀ group env, (w.cell e group env).isNull = false

section

theorem Always.knownOn (h : e.Always w) : e.KnownOn w seen := fun group env _ _ _ => h group env

theorem knownOn_binary {op : SqlBinary} (hl : l.KnownOn w seen) (hr : r.KnownOn w seen)
    (htruth : op.isLogical = true → l.TruthOn w seen ∧ r.TruthOn w seen) :
    (SqlExpr.binary op l r).KnownOn w seen := by
  intro group env hne hgroup henv
  refine Cell.isNull_operate w.strict (hl group env hne hgroup henv)
    (hr group env hne hgroup henv) fun hlogical => ?_
  exact ⟨(htruth hlogical).1 group env henv, (htruth hlogical).2 group env henv⟩

theorem knownOn_not (h : e.KnownOn w seen) (htruth : e.TruthOn w seen) :
    (SqlExpr.unary .not e).KnownOn w seen := fun group env hne hgroup henv =>
  Cell.isNull_opposite (h group env hne hgroup henv) (htruth group env henv)

theorem knownOn_minus (h : e.KnownOn w seen) : (SqlExpr.unary .minus e).KnownOn w seen :=
  fun group env hne hgroup henv => w.strict.minus _ (h group env hne hgroup henv)

theorem isNull_call_coalesce {group : List Env} {env : Env} (he : e ∈ es)
    (h : (w.cell e group env).isNull = false) :
    (w.cell (.function "COALESCE" es) group env).isNull = false := by
  simp only [World.cell, SqlExpr.cell, Engine.call, if_true, listCells_eq]
  exact Cell.isNull_firstKnown.2 ⟨_, List.mem_map_of_mem he, h⟩

theorem knownOn_coalesce (he : e ∈ es) (h : e.KnownOn w seen) :
    (SqlExpr.function "COALESCE" es).KnownOn w seen := fun group env hne hgroup henv =>
  isNull_call_coalesce he (h group env hne hgroup henv)

theorem knownOn_function {name : String} (hname : name ≠ "COALESCE")
    (h : ∀ e ∈ es, e.KnownOn w seen) : (SqlExpr.function name es).KnownOn w seen := by
  intro group env hne hgroup henv
  simp only [World.cell, SqlExpr.cell, Engine.call, if_neg hname, listCells_eq]
  refine w.strict.function name _ (List.forall_mem_map.2 fun e he => ?_)
  exact h e he group env hne hgroup henv

theorem knownOn_cases {arms : List (SqlExpr × SqlExpr)} (ha : ∀ arm ∈ arms, arm.2.KnownOn w seen)
    (h : e.KnownOn w seen) : (SqlExpr.cases arms (some e)).KnownOn w seen := by
  intro group env hne hgroup henv
  induction arms with
  | nil => exact h group env hne hgroup henv
  | cons arm arms ih =>
    obtain ⟨test, value⟩ := arm
    obtain ⟨hvalue, hrest⟩ := List.forall_mem_cons.1 ha
    have hothers := ih hrest
    simp only [World.cell, SqlExpr.cell, armsCell, optionCell] at hothers ⊢
    split
    · exact hvalue group env hne hgroup henv
    · exact hothers

theorem knownOn_aggregateOf (name : String) (h : e.KnownOn w seen) :
    (aggregateOf name [e]).KnownOn w seen := by
  intro group env hne hgroup henv
  simp only [World.cell, aggregateOf, SqlExpr.cell, listCells, List.headD_cons]
  refine Cell.isNull_aggregated w.strict (mt List.map_eq_nil_iff.1 hne) ?_
  refine List.forall_mem_map.2 fun row hrow => ?_
  exact h [row] row (List.cons_ne_nil _ _) (List.forall_mem_singleton.2 (hgroup row hrow))
    (hgroup row hrow)

theorem always_count (es : List SqlExpr) (distinct : Bool) :
    (aggregate "COUNT" es distinct).Always w := fun _ _ => rfl

theorem always_literal {value : Value} (h : value.isNull = false) : (literal value).Always w :=
  fun _ _ => (Value.isNull_cell value).trans h

theorem always_slot {value : Value} {slot : Nat}
    (hvalue : w.arguments.constants[slot]? = some value) (h : value.isNull = false) :
    (param (.slot slot)).Always w := by
  intro group env
  simp only [World.cell, SqlExpr.cell, Arguments.resolve, hvalue]
  exact (Value.isNull_cell value).trans h

theorem always_isNull (e : SqlExpr) (negated : Bool) : (SqlExpr.isNull e negated).Always w :=
  fun _ _ => rfl

theorem always_exist (s : Select) (negated : Bool) : (SqlExpr.exist s negated).Always w :=
  fun _ _ => rfl

theorem always_sum (e : SqlExpr) : (coalesce [aggregateOf "SUM" [e], .int 0]).Always w :=
  fun _ _ => isNull_call_coalesce (List.mem_cons_of_mem _ List.mem_cons_self) rfl

end

/-- The fact that a column is looked up by is upheld. -/
theorem holdsOf_of_any (hg : g.Upheld) {label name : String} {P : ColumnFact → Bool}
    (h : (g.columns.any fun c => c.label == label && c.name == name && P c) = true) {env : Env}
    (henv : g.seen env) : ∃ fact, P fact = true ∧ fact.HoldsOf (env.cell label name) := by
  obtain ⟨c, hc, hfact⟩ := List.any_eq_true.1 h
  simp only [Bool.and_eq_true, beq_iff_eq] at hfact
  obtain ⟨⟨rfl, rfl⟩, hP⟩ := hfact
  exact ⟨c, hP, hg c hc env henv⟩

mutual

theorem truthOn_of_isTruth (hg : g.Upheld) :
    ∀ e : SqlExpr, e.isTruth w.arguments g.columns = true → e.TruthOn w g.seen
  | .column (some _) _, h => fun _ _ henv => by
    obtain ⟨fact, htruth, hfact⟩ := holdsOf_of_any hg h henv
    exact hfact.2 htruth
  | .literal _, h => fun _ _ _ => h
  | .param _, h => fun _ _ _ => h
  | .binary _ _ _, h => fun _ _ _ => Cell.isTruth_operate w.strict h _ _
  | .unary .not _, _ => fun _ _ _ => Cell.isTruth_opposite _
  | .exist .., _ => fun _ _ _ => rfl
  | .isNull .., _ => fun _ _ _ => rfl
  | .isIn _ _ negated, _ => fun _ _ _ => by
    simp only [World.cell, SqlExpr.cell]
    cases negated
    · exact Cell.isTruth_among _ _ _
    · exact Cell.isTruth_opposite _
  | .function name args, h => by
    rw [SqlExpr.isTruth, Bool.and_eq_true, beq_iff_eq] at h
    obtain ⟨rfl, hargs⟩ := h
    intro group env henv
    simp only [World.cell, SqlExpr.cell, Engine.call, if_true, listCells_eq]
    refine Cell.isTruth_firstKnown (List.forall_mem_map.2 fun e he => ?_)
    exact truthOn_of_allTruth hg args hargs e he group env henv
  | .cases arms none, h => by
    have harms : armsTruth w.arguments g.columns arms = true := by simpa [SqlExpr.isTruth] using h
    intro group env henv
    simp only [World.cell, SqlExpr.cell]
    cases hcell : armsCell w.engine w.db w.arguments arms group env with
    | some c => exact truth_of_armsTruth hg arms harms henv hcell
    | none => rfl
  | .cases arms (some e), h => by
    obtain ⟨harms, hotherwise⟩ : armsTruth w.arguments g.columns arms = true ∧
        e.isTruth w.arguments g.columns = true := by
      simpa [SqlExpr.isTruth] using h
    intro group env henv
    simp only [World.cell, SqlExpr.cell]
    cases hcell : armsCell w.engine w.db w.arguments arms group env with
    | some c => exact truth_of_armsTruth hg arms harms henv hcell
    | none => exact truthOn_of_isTruth hg e hotherwise group env henv
  | .nested inner, h => truthOn_of_isTruth hg inner h
  | .column none _, h => nomatch h
  | .unary .minus _, h => nomatch h
  | .aggregate .., h => nomatch h
  | .subquery _, h => nomatch h
  | .wildcard, h => nomatch h

theorem truthOn_of_allTruth (hg : g.Upheld) : ∀ es : List SqlExpr,
    allTruth w.arguments g.columns es = true → ∀ e ∈ es, e.TruthOn w g.seen
  | [], _ => List.forall_mem_nil _
  | e :: es, h => by
    rw [allTruth, Bool.and_eq_true] at h
    exact List.forall_mem_cons.2 ⟨truthOn_of_isTruth hg e h.1, truthOn_of_allTruth hg es h.2⟩

theorem truth_of_armsTruth (hg : g.Upheld) : ∀ arms : List (SqlExpr × SqlExpr),
    armsTruth w.arguments g.columns arms = true → ∀ {group env c}, g.seen env →
      armsCell w.engine w.db w.arguments arms group env = some c → c.isTruth = true
  | [], _, _, _, _, _, hc => nomatch hc
  | (test, value) :: arms, h, group, env, c, henv, hc => by
    rw [armsTruth, Bool.and_eq_true] at h
    rw [armsCell] at hc
    split at hc
    · cases hc
      exact truthOn_of_isTruth hg value h.1 group env henv
    · exact truth_of_armsTruth hg arms h.2 henv hc

end

mutual

theorem knownOn_of_isKnown (hg : g.Upheld) :
    ∀ e : SqlExpr, e.isKnown w.arguments g.columns = true → e.KnownOn w g.seen
  | .column (some _) _, h => fun _ _ _ _ henv => by
    obtain ⟨fact, hknown, hfact⟩ := holdsOf_of_any hg h henv
    exact hfact.1 hknown
  | .literal _, h => (always_literal (by simpa [isKnown] using h)).knownOn
  | .param _, h => fun _ _ _ _ _ => by
    rw [isKnown, Bool.not_eq_true'] at h
    exact h
  | .binary op left right, h => by
    simp only [isKnown, Bool.and_eq_true, Bool.or_eq_true, Bool.not_eq_true'] at h
    obtain ⟨⟨hleft, hright⟩, htruth⟩ := h
    refine knownOn_binary (knownOn_of_isKnown hg left hleft) (knownOn_of_isKnown hg right hright) ?_
    intro hlogical
    obtain ⟨hl, hr⟩ := htruth.resolve_left (Bool.eq_false_iff.not.2 (not_not.2 hlogical))
    exact ⟨truthOn_of_isTruth hg left hl, truthOn_of_isTruth hg right hr⟩
  | .unary .not operand, h => by
    rw [isKnown, Bool.and_eq_true] at h
    exact knownOn_not (knownOn_of_isKnown hg operand h.1) (truthOn_of_isTruth hg operand h.2)
  | .unary .minus operand, h => knownOn_minus (knownOn_of_isKnown hg operand h)
  | .function name args, h => by
    by_cases hname : name = "COALESCE"
    · rw [isKnown, if_pos hname] at h
      rw [hname]
      obtain ⟨e, he, hknown⟩ := knownOn_of_anyKnown hg args h
      exact knownOn_coalesce he hknown
    · rw [isKnown, if_neg hname] at h
      exact knownOn_function hname (knownOn_of_allKnown hg args h)
  | .aggregate name args distinct, h => by
    rw [isKnown, beq_iff_eq] at h
    rw [h]
    exact (always_count args distinct).knownOn
  | .cases _ none, h => by simp [isKnown] at h
  | .cases arms (some e), h => by
    obtain ⟨harms, hotherwise⟩ : armsKnown w.arguments g.columns arms = true ∧
        e.isKnown w.arguments g.columns = true := by
      simpa [isKnown] using h
    exact knownOn_cases (knownOn_of_armsKnown hg arms harms) (knownOn_of_isKnown hg e hotherwise)
  | .exist query negated, _ => (always_exist query negated).knownOn
  | .isNull operand negated, _ => (always_isNull operand negated).knownOn
  | .nested inner, h => knownOn_of_isKnown hg inner h
  | .column none _, h => nomatch h
  | .isIn .., h => nomatch h
  | .subquery _, h => nomatch h
  | .wildcard, h => nomatch h

theorem knownOn_of_anyKnown (hg : g.Upheld) : ∀ es : List SqlExpr,
    anyKnown w.arguments g.columns es = true → ∃ e ∈ es, e.KnownOn w g.seen
  | e :: es, h => by
    rw [anyKnown, Bool.or_eq_true] at h
    rw [List.exists_mem_cons_iff]
    exact h.imp (knownOn_of_isKnown hg e) (knownOn_of_anyKnown hg es)

theorem knownOn_of_allKnown (hg : g.Upheld) : ∀ es : List SqlExpr,
    allKnown w.arguments g.columns es = true → ∀ e ∈ es, e.KnownOn w g.seen
  | [], _ => List.forall_mem_nil _
  | e :: es, h => by
    rw [allKnown, Bool.and_eq_true] at h
    exact List.forall_mem_cons.2 ⟨knownOn_of_isKnown hg e h.1, knownOn_of_allKnown hg es h.2⟩

theorem knownOn_of_armsKnown (hg : g.Upheld) : ∀ arms : List (SqlExpr × SqlExpr),
    armsKnown w.arguments g.columns arms = true → ∀ arm ∈ arms, arm.2.KnownOn w g.seen
  | [], _ => List.forall_mem_nil _
  | (_, value) :: arms, h => by
    rw [armsKnown, Bool.and_eq_true] at h
    exact List.forall_mem_cons.2 ⟨knownOn_of_isKnown hg value h.1, knownOn_of_armsKnown hg arms h.2⟩

end

/-- There is a value wherever the ground is kept to, unless it is doubted. -/
def Sure (w : World) (g : Ground) (e : SqlExpr) : Prop :=
  ∀ g', g ≤ g' → g'.Upheld → e.doubts w.arguments g'.columns = false → e.KnownOn w g'.seen

theorem Always.sure (h : e.Always w) : e.Sure w g := fun _ _ _ _ => h.knownOn

theorem KnownOn.sure (h : e.KnownOn w g.seen) : e.Sure w g :=
  fun _ hle _ _ group env hne hgroup henv =>
    h group env hne (fun row hrow => hle.1 row (hgroup row hrow)) (hle.1 env henv)

theorem Sure.mono (h : e.Sure w g) (hle : g ≤ g') : e.Sure w g' :=
  fun _ hle' => h _ (hle.trans hle')

theorem sure_binary {op : SqlBinary} (hop : op ≠ .like) (hl : l.Sure w g) (hr : r.Sure w g) :
    (SqlExpr.binary op l r).Sure w g := by
  intro g' hle hg hdoubts
  simp only [doubts_binary _ _ _ _ hop, Bool.or_eq_false_iff, Bool.and_eq_false_imp,
    Bool.not_eq_false', Bool.and_eq_true] at hdoubts
  obtain ⟨⟨hleft, hright⟩, htruth⟩ := hdoubts
  refine knownOn_binary (hl g' hle hg hleft) (hr g' hle hg hright) fun hlogical => ?_
  exact ⟨truthOn_of_isTruth hg l (htruth hlogical).1, truthOn_of_isTruth hg r (htruth hlogical).2⟩

theorem sure_like (hl : l.Sure w g) (r : SqlExpr) : (SqlExpr.binary .like l r).Sure w g := by
  intro g' hle hg hdoubts
  rw [doubts_like, Bool.or_eq_false_iff, Bool.not_eq_false'] at hdoubts
  obtain ⟨hleft, hright⟩ := hdoubts
  exact knownOn_binary (hl g' hle hg hleft) (knownOn_of_isKnown hg r hright) fun h => (by cases h)

theorem sure_not (h : e.Sure w g) : (SqlExpr.unary .not e).Sure w g := by
  intro g' hle hg hdoubts
  rw [doubts_not, Bool.or_eq_false_iff, Bool.not_eq_false'] at hdoubts
  obtain ⟨hoperand, htruth⟩ := hdoubts
  exact knownOn_not (h g' hle hg hoperand) (truthOn_of_isTruth hg e htruth)

theorem sure_minus (h : e.Sure w g) : (SqlExpr.unary .minus e).Sure w g :=
  fun g' hle hg hdoubts => knownOn_minus (h g' hle hg hdoubts)

theorem sure_coalesce (h : es ≠ [] → ∃ e ∈ es, e.Sure w g) : (SqlExpr.coalesce es).Sure w g := by
  intro g' hle hg hdoubts
  obtain ⟨hargs, hdoubts⟩ : es ≠ [] ∧ (anyKnown w.arguments g'.columns es = true ∨
      anyDoubts w.arguments g'.columns es = false) := by
    rw [doubts_coalesce] at hdoubts
    simpa [← Bool.not_eq_true, imp_iff_not_or] using hdoubts
  rcases hdoubts with hknown | hdoubts
  · obtain ⟨e, he, hknown⟩ := knownOn_of_anyKnown hg es hknown
    exact knownOn_coalesce he hknown
  · obtain ⟨e, he, hsure⟩ := h hargs
    exact knownOn_coalesce he (hsure g' hle hg ((anyDoubts_eq_false _ _).1 hdoubts e he))

theorem sure_function (name : String) (h : ∀ e ∈ es, e.Sure w g) :
    (SqlExpr.function name es).Sure w g := by
  by_cases hname : name = "COALESCE"
  · rw [hname]
    refine sure_coalesce fun hne => ?_
    obtain ⟨e, he⟩ := List.exists_mem_of_ne_nil es hne
    exact ⟨e, he, h e he⟩
  · intro g' hle hg hdoubts
    rw [doubts_function _ _ _ hname] at hdoubts
    exact knownOn_function hname fun e he =>
      h e he g' hle hg ((anyDoubts_eq_false _ _).1 hdoubts e he)

theorem sure_cases (test : SqlExpr) (hl : l.Sure w g) (hr : r.Sure w g) :
    (SqlExpr.cases [(test, l)] (some r)).Sure w g := by
  intro g' hle hg hdoubts
  rw [doubts_cases, Bool.or_false, Bool.or_eq_false_iff] at hdoubts
  obtain ⟨hleft, hright⟩ := hdoubts
  exact knownOn_cases (List.forall_mem_singleton.2 (hl g' hle hg hleft)) (hr g' hle hg hright)

theorem sure_aggregateOf (name : String) (h : e.Sure w g) : (aggregateOf name [e]).Sure w g := by
  by_cases hname : name = "COUNT"
  · rw [hname]
    exact (always_count [e] false).sure
  · intro g' hle hg hdoubts
    rw [doubts_aggregateOf, bne_iff_ne.2 hname, Bool.true_and, Bool.or_false] at hdoubts
    exact knownOn_aggregateOf name (h g' hle hg hdoubts)

end SqlExpr

structure Scalar.Sound (w : World) (g : Ground) (s : Scalar) : Prop where
  sure : s.nullable = false → s.expr.Sure w g
  plain : g.grouped = false → s.expr.hasAggregate = false

end SequenceQuery
