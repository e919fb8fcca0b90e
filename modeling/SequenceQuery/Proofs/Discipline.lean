import SequenceQuery.Proofs.Anywhere
import SequenceQuery.Proofs.Reading
import SequenceQuery.Proofs.Wrapping

namespace SequenceQuery

namespace Operator

/-- Which arguments make the rows of a call, what they are grouped by, or the group that is
aggregated. -/
def shapedBy : Operator → List Nat
  | .project => [1]
  | .groupBy => [1, 2]
  | .join | .leftJoin => [4]
  | .count | .longCount | .sum | .min | .max | .average => [0]
  | _ => []

def takesRow : Operator → Bool
  | .first | .firstOrDefault | .single | .singleOrDefault => true
  | _ => false

def tests : Operator → Bool
  | .any | .all => true
  | _ => false

end Operator

namespace SqlExpr

def isColumn : SqlExpr → Bool
  | .column .. => true
  | _ => false

def isTest : SqlExpr → Bool
  | .exist .. => true
  | _ => false

end SqlExpr

/-- What is asked of the statements of a query, and for them of what they are made from: of the
clauses of a statement that is being built, of what a row is, and of what a node stands for. -/
structure Demand where
  statement : Select → Prop
  clauses : Select → Prop
  row : Binding → Prop
  value : Expr → Binding → Prop

structure Scalar.IsComputedAt (node : Expr) (s : Scalar) : Prop where
  computed : s.expr.isColumn = false
  tests : s.expr.isTest = true → ∃ i op args, node = .call i op args ∧ op.tests = true

/-- What is asked is kept by each step that the nodes of a query take. -/
structure Discipline (env : Surroundings) (ns : List Expr) (d : Demand) : Prop where
  entity : ∀ {i name entity}, Expr.entity i name ∈ ns → env.catalog.entity? name = some entity →
    ∀ label, d.row (.record label entity "" false)
  asOptional : ∀ {b}, d.row b → d.row b.asOptional
  readFrom : ∀ {b ls} label, d.row b → b.leaves? "" = some ls → d.row (b.readFrom label "")
  group : ∀ {key element}, d.row key → d.row element → d.row (.group key element)
  element : ∀ {key element}, d.row (.group key element) → d.row element
  shaped : ∀ {i op args k e b}, Expr.call i op args ∈ ns → k ∈ op.shapedBy → args[k]? = some e →
    d.value e b → d.row b
  param : ∀ {i name b}, d.row b → d.value (.param i name) b
  lambda : ∀ {i params body b}, d.value body b → d.value (.lambda i params body) b
  member : ∀ {i target name node b found}, d.value target b → b.member name node = .ok found →
    d.value (.member i target name) found
  object : ∀ {i es fields}, Expr.object i es ∈ ns → fields.map Prod.fst = es.map Prod.fst →
    (∀ f ∈ fields, ∃ e ∈ es, d.value e.2 f.2) → d.value (.object i es) (.object fields)
  computed : ∀ {node s}, s.IsComputedAt node → d.value node (.scalar s)
  unpaged : ∀ {s}, s.limit = none → s.offset = none → d.clauses s
  samePages : ∀ {s s'}, d.clauses s → s'.limit = s.limit → s'.offset = s.offset → d.clauses s'
  paging : env.dialect.capabilities.paging = true → ∀ s, d.clauses s
  /-- The columns of a row have different names. -/
  projected : ∀ {b ls s}, d.row b → b.leaves? "" = some ls → (ls.map Leaf.name).Nodup →
    d.clauses s → d.statement { s with items := Rows.items ls }
  limited : ∀ {i op args b ls s n}, Expr.call i op args ∈ ns → op.takesRow = true →
    n ∈ [1, 2] → d.row b → b.leaves? "" = some ls → (ls.map Leaf.name).Nodup → d.clauses s →
      d.statement { s with items := Rows.items ls, limit := some (.int n) }
  single : ∀ {e s}, e.isTest = false ∨ env.dialect.capabilities.existsProjection = true →
    d.clauses s → d.statement { s with items := [.expr e none] }
  singleRow : ∀ {v s}, d.row (.scalar v) → d.clauses s →
    d.statement { s with items := [.expr v.expr none] }

structure Binding.Kept (P : Select → Prop) (B : Binding → Prop) (b : Binding) : Prop where
  kept : B b
  values : b.All (fun _ => True) fun _ e => e.Anywhere P

def Scope.Kept (d : Demand) (scope : Scope) : Prop :=
  ∀ entry ∈ scope, entry.2.Kept d.statement d.row

structure Rows.Kept (d : Demand) (rows : Rows) : Prop where
  meets : ∀ place, rows.Meets (.ofEach d.statement) place
  row : rows.row.Kept d.statement d.row
  clauses : d.clauses rows.select

structure Meaning.Kept (d : Demand) (m : Meaning) : Prop where
  asSequence : ∀ {start scope} (inRun : Bool), Scope.Kept d scope →
    Builds start (m.asSequence inRun scope) fun _ rows => rows.Kept d
  asBinding : ∀ {start scope}, Scope.Kept d scope →
    Builds start (m.asBinding scope) fun _ b => b.Kept d.statement (d.value m.node)
  apply : ∀ {start scope elements}, Scope.Kept d scope →
    (∀ b ∈ elements, b.Kept d.statement d.row) →
      Builds start (m.apply scope elements) fun _ b => b.Kept d.statement (d.value m.node)

variable {env : Surroundings} {ns : List Expr} {d : Demand} {P : Select → Prop}
  {B : Binding → Prop} {p start : Progress} {scope : Scope} {args : List Meaning} {m : Meaning}
  {rows : Rows} {b : Binding}

namespace Binding.Kept

theorem meets (h : b.Kept P B) (place : Place) : b.Meets (.ofEach P) place :=
  All.imp h.values (fun _ => id) fun n _ he => match n with
    | 0 => he place
    | _ + 1 => .inr (he place)

theorem imp {B' : Binding → Prop} (h : b.Kept P B) (hB : B b → B' b) : b.Kept P B' :=
  ⟨hB h.kept, h.values⟩

theorem asScalar {s : Scalar} {node : Expr} (h : b.Kept P B) (hs : b.asScalar node = .ok s) :
    s.expr.Anywhere P :=
  h.values.asScalar hs

theorem leaves? {path : String} {ls : List Leaf} (h : b.Kept P B) (hls : b.leaves? path = some ls) :
    ∀ l ∈ ls, l.scalar.expr.Anywhere P :=
  All.leaves? h.values hls

theorem scalars {ss : List Scalar} {node : Expr} (h : b.Kept P B) (hs : b.scalars node = .ok ss) :
    ∀ s ∈ ss, s.expr.Anywhere P := by
  obtain ⟨ls, hls, rfl⟩ := scalars_ok hs
  exact List.forall_mem_map.2 (h.leaves? hls)

theorem asOptional (hd : Discipline env ns d) (h : b.Kept d.statement d.row) :
    b.asOptional.Kept d.statement d.row :=
  ⟨hd.asOptional h.kept, All.asOptional h.values⟩

theorem group {key element : Binding} (hd : Discipline env ns d)
    (hkey : key.Kept d.statement d.row) (helement : element.Kept d.statement d.row) :
    (Binding.group key element).Kept d.statement d.row :=
  ⟨hd.group hkey.kept helement.kept, .group trivial hkey.values helement.values⟩

theorem element {key element : Binding} (hd : Discipline env ns d)
    (h : (Binding.group key element).Kept d.statement d.row) :
    element.Kept d.statement d.row := by
  obtain ⟨hkept, hvalues⟩ := h
  cases hvalues with
  | group _ _ helement => exact ⟨hd.element hkept, helement⟩

theorem readFrom {ls : List Leaf} (hd : Discipline env ns d) (h : b.Kept d.statement d.row)
    (label : String) (hls : b.leaves? "" = some ls) :
    (b.readFrom label "").Kept d.statement d.row :=
  ⟨hd.readFrom label h.kept hls, all_readFrom (fun _ => .column _ _) hls⟩

end Binding.Kept

namespace Rows.Kept

variable {e : SqlExpr}

theorem withOrigin (hd : Discipline env ns d) (h : rows.Kept d) (origin : Expr) :
    (rows.withOrigin origin).Kept d :=
  ⟨fun place => { h.meets place with }, h.row, hd.samePages h.clauses rfl rfl⟩

theorem withRow (h : rows.Kept d) {row : Binding} (hrow : row.Kept d.statement d.row) :
    Rows.Kept d { rows with row := row } :=
  ⟨fun place => { h.meets place with row := hrow.meets _ }, hrow, h.clauses⟩

theorem withLimit (hclauses : ∀ s, d.clauses s) (h : rows.Kept d) (he : e.Anywhere d.statement) :
    (rows.withLimit e).Kept d :=
  ⟨fun place => (h.meets place).withLimit Standard.isMonotone_ofEach (he place), h.row, hclauses _⟩

theorem withOffset (hclauses : ∀ s, d.clauses s) (h : rows.Kept d) (he : e.Anywhere d.statement) :
    (rows.withOffset e).Kept d :=
  ⟨fun place => (h.meets place).withOffset Standard.isMonotone_ofEach (he place), h.row, hclauses _⟩

theorem unordered (hd : Discipline env ns d) (h : rows.Kept d) :
    Rows.Kept d { rows with select := { rows.select with orderBy := [] } } :=
  ⟨fun place => (h.meets place).unordered, h.row, hd.samePages h.clauses rfl rfl⟩

theorem orderedOnlyIfPaged (hd : Discipline env ns d) (h : rows.Kept d) :
    rows.orderedOnlyIfPaged.Kept d := by
  rw [Rows.orderedOnlyIfPaged]
  split
  · exact h
  · exact h.unordered hd

theorem filterBy (hd : Discipline env ns d) (h : rows.Kept d)
    (hgroups : rows.select.hasGroups = false) (he : e.Anywhere d.statement) :
    Rows.Kept d { rows with select := rows.select.filterBy e } :=
  ⟨fun place => (h.meets place).filterBy hgroups (he _), h.row, hd.samePages h.clauses rfl rfl⟩

theorem havingBy (hd : Discipline env ns d) (h : rows.Kept d) (he : e.Anywhere d.statement) :
    Rows.Kept d { rows with select := rows.select.havingBy e } :=
  ⟨fun place => (h.meets place).havingBy (he _), h.row, hd.samePages h.clauses rfl rfl⟩

theorem orderedBy (hd : Discipline env ns d) (h : rows.Kept d) {before keys : List SortKey}
    (hbefore : before ⊆ rows.select.orderBy) (hkeys : ∀ k ∈ keys, k.expr.Anywhere d.statement) :
    Rows.Kept d { rows with select := { rows.select with orderBy := before ++ keys } } :=
  ⟨fun place => (h.meets place).orderedBy hbefore fun k hk => hkeys k hk _, h.row,
    hd.samePages h.clauses rfl rfl⟩

theorem asDistinct (hd : Discipline env ns d) (h : rows.Kept d) :
    Rows.Kept d { rows with select := { rows.select with distinct := true } } :=
  ⟨fun place => { h.meets place with }, h.row, hd.samePages h.clauses rfl rfl⟩

theorem groupedBy (hd : Discipline env ns d) (h : rows.Kept d) {key element : Binding}
    {ls : List Leaf} (hgroups : rows.select.hasGroups = false)
    (hkey : key.Kept d.statement d.row) (helement : element.Kept d.statement d.row)
    (hls : key.leaves? "" = some ls) :
    Rows.Kept d ⟨{ rows.select with groupBy := ls.map (·.scalar.expr) }, .group key element⟩ :=
  ⟨fun place => (h.meets place).groupedBy Standard.isMonotone_ofEach hgroups (hkey.meets _)
    (helement.meets _) hls, hkey.group hd helement, hd.samePages h.clauses rfl rfl⟩

theorem joined (hd : Discipline env ns d) {outer inner : Rows} (houter : outer.Kept d)
    (hinner : inner.Kept d) {j : Join} {row : Binding} (hungrouped : outer.select.hasGroups = false)
    (htables : inner.select.tables = [j.table])
    (hcondition : ∀ e ∈ j.condition, e.Anywhere d.statement) (hrow : row.Kept d.statement d.row) :
    Rows.Kept d ⟨{ outer.select with joins := outer.select.joins ++ [j] }, row⟩ :=
  ⟨fun place => (houter.meets place).joined Standard.isMonotone_ofEach hungrouped
    (hinner.meets place) htables (fun e he => hcondition e he _) (hrow.meets _), hrow,
    hd.samePages houter.clauses rfl rfl⟩

theorem select (h : rows.Kept d) (he : e.Anywhere d.statement)
    (hstatement : d.statement { rows.select with items := [.expr e none] }) :
    (rows.selecting e).Anywhere d.statement := fun place =>
  (h.meets place).select (List.forall_mem_singleton.2 (he _)) hstatement

theorem selecting (hd : Discipline env ns d) (h : rows.Kept d) (he : e.Anywhere d.statement)
    (htest : e.isTest = false) : (rows.selecting e).Anywhere d.statement :=
  h.select he (hd.single (.inl htest) h.clauses)

theorem exprs (h : rows.Kept d) {ls : List Leaf} (hls : rows.row.leaves? "" = some ls) :
    ∀ e ∈ (Rows.items ls).filterMap SelectItem.expr?, e.Anywhere d.statement := by
  rw [Rows.exprs_items]
  exact List.forall_mem_map.2 (h.row.leaves? hls)

theorem project (hd : Discipline env ns d) (h : rows.Kept d) {node : Expr} {s : Select}
    (hs : rows.project node = .ok s) : s.Anywhere d.statement := by
  obtain ⟨ls, hcolumns, rfl⟩ := Rows.project_ok.1 hs
  obtain ⟨hls, hnodup⟩ := Binding.leaves_of_columns hcolumns
  exact fun place => (h.meets place).select (fun e he => h.exprs hls e he _)
    (hd.projected h.row.kept hls hnodup h.clauses)

theorem projectLimited (hd : Discipline env ns d) (h : rows.Kept d) {i : NodeId} {op : Operator}
    {es : List Expr} (hcall : Expr.call i op es ∈ ns) (hop : op.takesRow = true) {n : Int64}
    (hn : n ∈ [1, 2]) {node : Expr} {s : Select}
    (hs : (rows.withLimit (.int n)).project node = .ok s) : s.Anywhere d.statement := by
  obtain ⟨ls, hcolumns, rfl⟩ := Rows.project_ok.1 hs
  obtain ⟨hls, hnodup⟩ := Binding.leaves_of_columns hcolumns
  intro place
  have hmeets := (h.meets place).withLimit Standard.isMonotone_ofEach (meets_int n)
  exact hmeets.select (fun e he => h.exprs hls e he _)
    (hd.limited (s := rows.select) hcall hop hn h.row.kept hls hnodup h.clauses)

theorem wrapIf (hd : Discipline env ns d) (h : rows.Kept d) (condition : Bool) (node : Expr) :
    Builds p (rows.wrapIf condition node) fun _ rows' => rows'.Kept d := by
  cases condition with
  | false => exact .pure h
  | true =>
    refine Builds.check fun s hs => Builds.freshLabel.bind fun q label _ _ => .pure ?_
    obtain ⟨ls, hls, rfl⟩ := Rows.project_ok.1 hs
    have hrow := h.row.readFrom hd label (Binding.leaves_of_columns hls).1
    exact ⟨fun place => ⟨rfl, List.forall_mem_singleton.2 (h.project hd hs place), nofun, nofun,
      hrow.meets _⟩, hrow, hd.unpaged rfl rfl⟩

end Rows.Kept

theorem Scope.kept_nil : Scope.Kept d [] := nofun

def Demand.Shapes (d : Demand) (op : Operator) (args : List Meaning) : Prop :=
  ∀ k ∈ op.shapedBy, ∀ m, args[k]? = some m → ∀ b, d.value m.node b → d.row b

namespace Meaning.Kept

theorem asScalar (hm : m.Kept d) (hs : Scope.Kept d scope) :
    Builds p (m.asScalar scope) fun _ s => s.expr.Anywhere d.statement :=
  (hm.asBinding hs).bind fun _ _ _ hb => .lift fun _ hscalar => hb.asScalar hscalar

theorem applyOne (hm : m.Kept d) (hs : Scope.Kept d scope) (hb : b.Kept d.statement d.row) :
    Builds p (m.apply scope [b]) fun _ b => b.Kept d.statement (d.value m.node) :=
  hm.apply hs (List.forall_mem_singleton.2 hb)

theorem applyScalar (hm : m.Kept d) (hs : Scope.Kept d scope) (hb : b.Kept d.statement d.row) :
    Builds p (m.applyScalar scope b) fun _ s => s.expr.Anywhere d.statement :=
  (hm.applyOne hs hb).bind fun _ _ _ hb => .lift fun _ hscalar => hb.asScalar hscalar

end Meaning.Kept

theorem Discipline.clauses_of_mustPage (hd : Discipline env ns d) {node : Expr} {u : Unit}
    (h : env.mustPage node = .ok u) : ∀ s, d.clauses s := by
  rw [Surroundings.mustPage] at h
  split at h
  case isTrue hpaging => exact hd.paging hpaging
  case isFalse => cases h

section Sequences

variable (node : Expr)

theorem restrict_kept (hd : Discipline env ns d) (h : rows.Kept d) (hm : m.Kept d)
    (hs : Scope.Kept d scope) (negate : Bool) :
    Builds p (restrict rows m negate node scope) fun _ rows' => rows'.Kept d := by
  rw [restrict]
  split
  case isTrue =>
    split
    case isTrue => exact .refused _ _
    case isFalse =>
      exact (hm.applyScalar hs h.row).bind fun q s _ hscalar =>
        .pure (h.havingBy hd (hscalar.negateIf negate))
  case isFalse =>
    refine ((h.wrapIf hd _ node).and (rows.builds_wrapForRows node)).bind fun q rows' _ hrows => ?_
    obtain ⟨hrows, -, -, hgroups⟩ := hrows
    exact (hm.applyScalar hs hrows.row).bind fun r s _ hscalar =>
      .pure (hrows.filterBy hd hgroups (hscalar.negateIf negate))

theorem joinRows_kept (kind : JoinKind) (hd : Discipline env ns d) (ha : ∀ m ∈ args, m.Kept d)
    (hshapes : ∀ m, args[4]? = some m → ∀ b, d.value m.node b → d.row b)
    (hs : Scope.Kept d scope) :
    Builds start (joinRows kind node args scope) fun _ rows => rows.Kept d := by
  refine Builds.check fun m hm => ?_
  refine ((ha _ (mem_of_argument hm)).asSequence false hs).bind fun p₁ outer _ houter => ?_
  refine ((houter.wrapIf hd _ node).and (outer.builds_wrapForRows node)).bind
    fun p₂ outer _ houter => ?_
  obtain ⟨houter, -, -, hungrouped⟩ := houter
  refine Builds.check fun m hm => ?_
  refine ((ha _ (mem_of_argument hm)).asSequence false hs).bind fun p₃ inner _ hinner => ?_
  refine ((hinner.wrapIf hd _ node).and (inner.builds_wrapUnlessBare node)).bind
    fun p₄ inner _ hinner => ?_
  obtain ⟨hinner, hsingle, -⟩ := hinner
  cases hsource : inner.select.source with
  | none => exact .unsupported _ _
  | some table =>
    have htables : inner.select.tables = [table] := by simp [Select.tables, hsource, hsingle]
    have hinnerRow : (kind.innerRow inner.row).Kept d.statement d.row := by
      rcases kind.innerRow_eq inner.row with heq | heq <;> rw [heq]
      · exact hinner.row
      · exact hinner.row.asOptional hd
    refine Builds.check fun m hm => ?_
    refine ((ha _ (mem_of_argument hm)).applyOne hs houter.row).bind fun p₅ outerKey _ houterKey => ?_
    refine Builds.check fun m hm => ?_
    refine ((ha _ (mem_of_argument hm)).applyOne hs hinner.row).bind fun p₆ innerKey _ hinnerKey => ?_
    refine Builds.check fun outerKeys hok => Builds.check fun innerKeys hik => ?_
    dsimp only
    split
    · exact .refused _ _
    refine Builds.check fun m hm => ?_
    refine ((ha _ (mem_of_argument hm)).apply hs (List.forall_mem_cons.2
      ⟨houter.row, List.forall_mem_singleton.2 hinnerRow⟩)).bind fun p₇ row _ hrow => .pure ?_
    exact houter.joined hd hinner (j := ⟨kind, table, matching outerKeys innerKeys⟩) hungrouped
      htables (.matching (houterKey.scalars hok) (hinnerKey.scalars hik))
      (hrow.imp (hshapes m (getElem?_of_argument hm) row))

theorem orderRows_kept (restart ascending : Bool) (hd : Discipline env ns d)
    (ha : ∀ m ∈ args, m.Kept d) (hs : Scope.Kept d scope) :
    Builds start (orderRows restart ascending node args scope) fun _ rows => rows.Kept d := by
  refine Builds.check fun m hm => ?_
  refine ((ha _ (mem_of_argument hm)).asSequence false hs).bind fun p₁ rows _ hrows => ?_
  refine (hrows.wrapIf hd _ node).bind fun p₂ rows _ hrows => ?_
  refine Builds.check fun m hm => ?_
  refine ((ha _ (mem_of_argument hm)).applyOne hs hrows.row).bind fun p₃ key _ hkey => ?_
  exact Builds.check fun scalars hscalars => .pure (hrows.orderedBy hd (kept_keys_subset restart _)
    (List.forall_mem_map.2 (hkey.scalars hscalars)))

theorem callRows_kept (op : Operator) (hd : Discipline env ns d) (ha : ∀ m ∈ args, m.Kept d)
    (hshapes : d.Shapes op args) (hs : Scope.Kept d scope) :
    Builds start (callRows env node op args scope) fun _ rows => rows.Kept d := by
  refine Builds.check fun source hsource => ?_
  have hsource := ha _ (mem_of_argument hsource)
  cases op with
  | filter =>
    refine (hsource.asSequence false hs).bind fun p₁ rows _ hrows => ?_
    refine Builds.check fun m hm => ?_
    exact restrict_kept node hd hrows (ha _ (mem_of_argument hm)) hs false
  | project =>
    refine (hsource.asSequence false hs).bind fun p₁ rows _ hrows => ?_
    refine (hrows.wrapIf hd _ node).bind fun p₂ rows _ hrows => ?_
    refine Builds.check fun m hm => ?_
    exact ((ha _ (mem_of_argument hm)).applyOne hs hrows.row).bind fun p₃ row _ hrow =>
      .pure (hrows.withRow (hrow.imp (hshapes 1 List.mem_cons_self m (getElem?_of_argument hm) row)))
  | orderBy | orderByDescending | thenBy | thenByDescending =>
    exact orderRows_kept node _ _ hd ha hs
  | skip =>
    refine Builds.check fun _ hpage => ?_
    refine (hsource.asSequence false hs).bind fun p₁ rows _ hrows => ?_
    refine Builds.check fun m hm => ?_
    refine ((ha _ (mem_of_argument hm)).asScalar hs).bind fun p₂ count _ hcount => ?_
    exact (hrows.wrapIf hd _ node).bind fun p₃ rows _ hrows =>
      .pure (hrows.withOffset (hd.clauses_of_mustPage hpage) hcount)
  | take =>
    refine Builds.check fun _ hpage => ?_
    refine (hsource.asSequence false hs).bind fun p₁ rows _ hrows => ?_
    refine Builds.check fun m hm => ?_
    refine ((ha _ (mem_of_argument hm)).asScalar hs).bind fun p₂ count _ hcount => ?_
    exact (hrows.wrapIf hd _ node).bind fun p₃ rows _ hrows =>
      .pure (hrows.withLimit (hd.clauses_of_mustPage hpage) hcount)
  | segment =>
    refine Builds.check fun _ hpage => ?_
    have hclauses := hd.clauses_of_mustPage hpage
    refine (hsource.asSequence false hs).bind fun p₁ rows _ hrows => ?_
    refine Builds.check fun m hm => ?_
    cases env.slot? m.node.id with
    | none => exact .unsupported _ _
    | some k =>
      exact (hrows.wrapIf hd _ node).bind fun p₂ rows _ hrows =>
        .pure ((hrows.withOffset hclauses (.param _)).withLimit hclauses (.param _))
  | distinct =>
    refine (hsource.asSequence false hs).bind fun p₁ rows _ hrows => ?_
    refine (hrows.wrapIf hd _ node).bind fun p₂ rows _ hrows => ?_
    dsimp only
    split
    · exact .refused _ _
    · exact .pure (hrows.asDistinct hd)
  | groupBy =>
    refine (hsource.asSequence false hs).bind fun p₁ rows _ hrows => ?_
    refine ((hrows.wrapIf hd _ node).and (rows.builds_wrapForRows node)).bind
      fun p₂ rows _ hrows => ?_
    obtain ⟨hrows, -, -, hgroups⟩ := hrows
    refine Builds.check fun m hm => ?_
    refine ((ha _ (mem_of_argument hm)).applyOne hs hrows.row).bind fun p₃ key _ hkey => ?_
    have hkey := hkey.imp (hshapes 1 List.mem_cons_self m (getElem?_of_argument hm) key)
    refine Rows.builds_groups (E := fun _ element => element.Kept d.statement d.row) hrows.row
      (fun selector hselector => ?_) fun p₄ element keys _ helement hkeys => ?_
    · have hshapes := hshapes 2 (List.mem_cons_of_mem _ List.mem_cons_self) selector hselector
      exact ((ha selector (List.mem_of_getElem? hselector)).applyOne hs hrows.row).imp
        fun _ element _ helement => helement.imp (hshapes element)
    · obtain ⟨ls, hls, rfl⟩ := Binding.scalars_ok hkeys
      rw [List.map_map]
      exact hrows.groupedBy hd hgroups hkey helement hls
  | join => exact joinRows_kept node _ hd ha (hshapes 4 List.mem_cons_self) hs
  | leftJoin => exact joinRows_kept node _ hd ha (hshapes 4 List.mem_cons_self) hs
  | _ => exact .throw _

theorem markerRows_kept (op : Operator) (hd : Discipline env ns d) (ha : ∀ m ∈ args, m.Kept d)
    (hs : Scope.Kept d scope) :
    Builds start (markerRows env node op args scope) fun _ rows => rows.Kept d := by
  refine Builds.check fun _ hpage => ?_
  have hclauses := hd.clauses_of_mustPage hpage
  refine Builds.check fun m hm => ?_
  refine ((ha _ (mem_of_argument hm)).asSequence _ hs).bind fun p₁ rows _ hrows => ?_
  refine (hrows.wrapIf hd _ node).bind fun p₂ rows _ hrows => ?_
  refine Builds.useSegment.bind fun p₃ _ _ _ => .pure ?_
  exact ((hrows.withLimit hclauses (.param _)).withOffset hclauses (.param _)).withOrigin hd node

theorem sequenceOfCall_kept (op : Operator) (hd : Discipline env ns d)
    (ha : ∀ m ∈ args, m.Kept d) (hshapes : d.Shapes op args) (inRun : Bool)
    (hs : Scope.Kept d scope) :
    Builds start (sequenceOfCall env node op args inRun scope) fun _ rows => rows.Kept d := by
  rw [sequenceOfCall]
  split
  · exact Builds.check fun m hm => (ha _ (mem_of_argument hm)).asSequence true hs
  · split
    · exact markerRows_kept node op hd ha hs
    · exact (callRows_kept node op hd ha hshapes hs).bind fun _ _ _ hrows =>
        .pure (hrows.withOrigin hd node)

end Sequences

end SequenceQuery
