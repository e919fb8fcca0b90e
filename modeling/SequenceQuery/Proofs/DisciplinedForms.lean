import SequenceQuery.Proofs.Composition
import SequenceQuery.Proofs.Discipline
import SequenceQuery.Proofs.Forms
import SequenceQuery.Proofs.Meanings

namespace SequenceQuery

variable {env : Surroundings} {ns : List Expr} {d : Demand} {p start : Progress} {scope : Scope}
  {args : List Meaning} {m : Meaning} {rows : Rows} {b : Binding}

def Terminal.Kept (d : Demand) (op : Operator) : Terminal → Prop
  | .single s .. | .scalar s _ => s.Anywhere d.statement
  | .exist s _ => op.tests = true ∧ s.Anywhere d.statement
  | .isIn value s => value.Anywhere d.statement ∧ s.Anywhere d.statement

structure Scalar.Kept (d : Demand) (node : Expr) (s : Scalar) : Prop where
  computed : s.IsComputedAt node
  anywhere : s.expr.Anywhere d.statement

theorem Scalar.IsComputedAt.of_noTest {s : Scalar} {node : Expr} (h : s.expr.isColumn = false)
    (htest : s.expr.isTest = false) : s.IsComputedAt node :=
  ⟨h, fun h => absurd h (ne_true_of_eq_false htest)⟩

theorem Scalar.IsComputedAt.aggregateOver (op : Operator) (s : Scalar) (node : Expr) :
    (aggregateOver op s).IsComputedAt node := by
  cases op <;> exact .of_noTest rfl rfl

section Terminals

variable (node : Expr)

theorem filtered_kept (hd : Discipline env ns d) (hm : m.Kept d) (ha : ∀ m ∈ args, m.Kept d)
    (i : Nat) (hs : Scope.Kept d scope) :
    Builds start (filtered node m args[i]? scope) fun _ rows => rows.Kept d := by
  refine (hm.asSequence false hs).bind fun p₁ rows _ hrows => ?_
  cases hpredicate : args[i]? with
  | none => exact .pure hrows
  | some predicate =>
    exact restrict_kept node hd hrows (ha predicate (List.mem_of_getElem? hpredicate)) hs false

theorem selected_kept (ha : ∀ m ∈ args, m.Kept d) (i : Nat) (hs : Scope.Kept d scope)
    (hb : b.Kept d.statement d.row) :
    Builds p (selected node args[i]? b scope) fun _ s => s.expr.Anywhere d.statement := by
  cases hselector : args[i]? with
  | none => exact .lift fun _ hscalar => hb.asScalar hscalar
  | some selector => exact (ha selector (List.mem_of_getElem? hselector)).applyScalar hs hb

theorem Rows.Kept.forAggregate (hd : Discipline env ns d) (h : rows.Kept d) :
    Builds p (rows.forAggregate node) fun _ rows' => rows'.Kept d := by
  rw [Rows.forAggregate]
  split
  · exact .refused _ _
  · exact (h.wrapIf hd _ node).bind fun q rows' _ hrows => .pure (hrows.unordered hd)

theorem singleRow_kept (hd : Discipline env ns d) (ha : ∀ m ∈ args, m.Kept d) {i : NodeId}
    {op : Operator} {es : List Expr} (hcall : Expr.call i op es ∈ ns) (hop : op.takesRow = true)
    (nullable unique : Bool) (hs : Scope.Kept d scope) :
    Builds start (singleRow node args nullable unique scope) fun _ t => t.Kept d op := by
  refine Builds.check fun m hm => ?_
  refine (filtered_kept node hd (ha _ (mem_of_argument hm)) ha 1 hs).bind fun p₁ rows _ hrows => ?_
  refine (hrows.wrapIf hd _ node).bind fun p₂ rows _ hrows => ?_
  refine Builds.check fun s hproject =>
    .pure (hrows.projectLimited hd hcall hop (n := if unique then 2 else 1) ?_ hproject)
  cases unique <;> decide

theorem terminal_kept (hd : Discipline env ns d) (ha : ∀ m ∈ args, m.Kept d) {i : NodeId}
    {op : Operator} {es : List Expr} (hcall : Expr.call i op es ∈ ns) (hs : Scope.Kept d scope) :
    Builds start (terminal node op args scope) fun _ t => t.Kept d op := by
  refine Builds.check fun source hsource => ?_
  have hsource := ha _ (mem_of_argument hsource)
  cases op with
  | first | firstOrDefault | single | singleOrDefault =>
    exact singleRow_kept node hd ha hcall rfl _ _ hs
  | count | longCount =>
    refine (filtered_kept node hd hsource ha 1 hs).bind fun p₁ rows _ hrows => ?_
    exact (hrows.forAggregate node hd).bind fun p₂ rows _ hrows =>
      .pure (hrows.selecting hd .countRows rfl)
  | any =>
    exact (filtered_kept node hd hsource ha 1 hs).bind fun p₁ rows _ hrows =>
      .pure ⟨rfl, (hrows.orderedOnlyIfPaged hd).selecting hd (.literal _) rfl⟩
  | all =>
    refine (hsource.asSequence false hs).bind fun p₁ rows _ hrows => ?_
    refine Builds.check fun m hm => ?_
    exact (restrict_kept node hd hrows (ha _ (mem_of_argument hm)) hs true).bind fun p₂ rows _ hrows =>
      .pure ⟨rfl, (hrows.orderedOnlyIfPaged hd).selecting hd (.literal _) rfl⟩
  | contains =>
    refine (hsource.asSequence false hs).bind fun p₁ rows _ hrows => ?_
    have hrow := hrows.row
    revert hrow
    cases rows.row with
    | scalar element =>
      intro hrow
      refine Builds.check fun m hm => ?_
      have hone : (Binding.scalar element).asScalar node = .ok element := rfl
      have hordered := hrows.orderedOnlyIfPaged hd
      exact ((ha _ (mem_of_argument hm)).asScalar hs).bind fun p₂ value _ hvalue => .pure
        ⟨hvalue, hordered.select (hrow.asScalar hone) (hd.singleRow hrow.kept hordered.clauses)⟩
    | _ => exact fun _ => .unsupported _ _
  | sum | min | max | average =>
    refine (hsource.asSequence false hs).bind fun p₁ rows _ hrows => ?_
    refine (hrows.forAggregate node hd).bind fun p₂ rows _ hrows => ?_
    exact (selected_kept node ha 1 hs hrows.row).bind fun p₃ value _ hvalue =>
      .pure (hrows.selecting hd (.aggregateOver _ hvalue) rfl)
  | _ => exact .throw _

end Terminals

section Values

variable (node : Expr)

theorem aggregateIn_kept (op : Operator) (hd : Discipline env ns d) (ha : ∀ m ∈ args, m.Kept d)
    (hs : Scope.Kept d scope) (hb : 0 ∈ op.shapedBy → b.Kept d.statement d.row) :
    Builds p (aggregateIn node op args scope b) fun _ found => ∀ s ∈ found, s.Kept d node := by
  have helement : ∀ {key element}, b = .group key element → 0 ∈ op.shapedBy →
      element.Kept d.statement d.row := by
    rintro key element rfl hop
    exact (hb hop).element hd
  refine builds_aggregateIn (Q := fun _ s => s.Kept d node)
    (fun _ => ⟨.of_noTest rfl rfl, .countRows⟩) (fun hgroup hop hpredicate => ?_)
    fun hgroup hop => ?_
  · have hpredicate := ha _ (List.mem_of_getElem? hpredicate)
    have hop : 0 ∈ op.shapedBy := by cases op <;> simp_all [Operator.shapedBy]
    refine (hpredicate.applyScalar hs (helement hgroup hop)).imp fun q s _ htest => ?_
    refine ⟨.of_noTest rfl rfl, .aggregateOf _ (.cases htest (.literal _) _ ?_)⟩
    rintro _ ⟨⟩
  · have hop : 0 ∈ op.shapedBy := by cases op <;> simp_all [Operator.shapedBy]
    exact (selected_kept node ha 0 hs (helement hgroup hop)).imp fun q s _ hvalue =>
      ⟨.aggregateOver _ _ _, .aggregateOver _ hvalue⟩

theorem scalarOfCall_kept (hd : Discipline env ns d) (ha : ∀ m ∈ args, m.Kept d) {i : NodeId}
    {op : Operator} {es : List Expr} (hcall : Expr.call i op es ∈ ns) (hshapes : d.Shapes op args)
    (hs : Scope.Kept d scope) :
    Builds p (scalarOfCall (.call i op es) op args scope) fun _ s =>
      s.Kept d (.call i op es) := by
  refine builds_call (builds_aggregateOfGroup ?_)
    (fun _ _ => terminal_kept (.call i op es) hd ha hcall hs)
    (fun ht => ⟨.of_noTest rfl rfl, .subquery ht⟩)
    (fun ht => ⟨⟨rfl, fun _ => ⟨i, op, es, rfl, ht.1⟩⟩, .exist ht.2 _⟩)
    (fun ht => ⟨.of_noTest rfl rfl, .subquery ht⟩)
    fun ht => ⟨.of_noTest rfl rfl, .isIn ht.1 ht.2 false⟩
  rintro source rest rfl -
  obtain ⟨hsource, hrest⟩ := List.forall_mem_cons.1 ha
  exact (hsource.asBinding hs).bind fun q b _ hb =>
    aggregateIn_kept _ op hd hrest hs fun hop => hb.imp (hshapes 0 hop source rfl b)

theorem scalarOfBinary_kept (op : BinaryOp) {left right : Meaning} (hl : left.Kept d)
    (hr : right.Kept d) (hs : Scope.Kept d scope) :
    Builds p (scalarOfBinary op left right scope) fun _ s => s.Kept d node :=
  builds_binary (V := fun _ s => s.expr.Anywhere d.statement) monotone_const
    (fun _ => hl.asScalar hs) (fun _ => hr.asScalar hs)
    (fun negated h => ⟨.of_noTest rfl rfl, h.isNull negated⟩)
    (fun _ hleft hright => ⟨.of_noTest rfl rfl, hleft.binary _ hright⟩)
    fun hleft hright => ⟨.of_noTest rfl rfl, hleft.coalesce hright⟩

theorem scalarOfFunction_kept (name : String) (ha : ∀ m ∈ args, m.Kept d)
    (hs : Scope.Kept d scope) :
    Builds p (scalarOfFunction env node name args scope) fun _ s => s.Kept d node :=
  builds_function (V := fun _ s => s.expr.Anywhere d.statement) monotone_const
    (fun m hm _ _ => (ha m hm).asScalar hs)
    (fun htext hneedle => ⟨.of_noTest rfl rfl, htext.binary .like (.searchPattern _ hneedle)⟩)
    fun _ hss => ⟨.of_noTest rfl rfl, .function (List.forall_mem_map.2 hss)⟩

end Values

namespace Meaning

variable (node : Expr)

theorem kept_ofScalar (hd : Discipline env ns d) {scalar : Scope → Build Scalar}
    (h : ∀ {p scope}, Scope.Kept d scope → Builds p (scalar scope) fun _ s => s.Kept d node) :
    (ofScalar node scalar).Kept d where
  asSequence _ _ := .unsupported _ _
  asBinding hs := (h hs).bind fun _ _ _ hscalar =>
    .pure ⟨hd.computed hscalar.computed, .scalar hscalar.anywhere⟩
  apply _ _ := .unsupported _ _

theorem kept_ofBinding (reason : Unsupported) {binding : Scope → Build Binding}
    (h : ∀ {p scope}, Scope.Kept d scope → Builds p (binding scope) fun _ b =>
      b.Kept d.statement (d.value node)) :
    (ofBinding node reason binding).Kept d where
  asSequence _ _ := .unsupported _ _
  asBinding := h
  apply _ _ := .unsupported _ _

theorem kept_ofLambda (params : List String) {body : Meaning}
    (hnode : ∀ b, d.value body.node b → d.value node b) (hbody : body.Kept d) :
    (ofLambda node params body).Kept d where
  asSequence _ _ := .unsupported _ _
  asBinding _ := .unsupported _ _
  apply hs helements := builds_lambda fun _ hinner =>
    (hbody.asBinding fun entry hentry => (hinner entry hentry).elim (helements _) (hs entry)).imp
      fun _ b _ hb => hb.imp (hnode b)

theorem kept_ofEntity (hd : Discipline env ns d) {name : String}
    (hnode : ∃ i, Expr.entity i name ∈ ns) : (ofEntity env node name).Kept d where
  asSequence {start scope} inRun hs := by
    rw [ofEntity]
    dsimp only
    cases hentity : env.catalog.entity? name with
    | none => exact .throw _
    | some entity =>
      obtain ⟨i, hi⟩ := hnode
      refine Builds.freshLabel.bind fun p label _ _ => .pure (Rows.Kept.withOrigin hd ?_ node)
      have hrow : (Binding.record label entity "" false).Kept d.statement d.row :=
        ⟨hd.entity hi hentity label, .record (fun _ _ => .column _ _) _⟩
      exact ⟨fun place => ⟨rfl, List.forall_mem_nil _, List.forall_mem_nil _, List.forall_mem_nil _,
        hrow.meets _⟩, hrow, hd.unpaged rfl rfl⟩
  asBinding _ := .unsupported _ _
  apply _ _ := .unsupported _ _

theorem kept_ofCall (hd : Discipline env ns d) (ha : ∀ m ∈ args, m.Kept d) {i : NodeId}
    {op : Operator} {es : List Expr} (hcall : Expr.call i op es ∈ ns)
    (hshapes : d.Shapes op args) : (ofCall env (.call i op es) op args).Kept d where
  asSequence inRun hs := sequenceOfCall_kept _ op hd ha hshapes inRun hs
  asBinding hs := (scalarOfCall_kept hd ha hcall hshapes hs).bind fun _ _ _ h =>
    .pure ⟨hd.computed h.computed, .scalar h.anywhere⟩
  apply _ _ := .unsupported _ _

theorem kept_ofConstant (hd : Discipline env ns d) (value : Value) :
    (ofConstant env node value).Kept d := by
  refine kept_ofScalar node hd fun _ => ?_
  split
  · exact .pure ⟨.of_noTest rfl rfl, .literal _⟩
  · cases env.slot? node.id with
    | none => exact .unsupported _ _
    | some slot => exact .pure ⟨.of_noTest rfl rfl, .param _⟩

end Meaning

section Meanings

open Meaning

variable (env)

theorem map_fst_fieldMeanings (fields : List (String × Expr)) :
    (fieldMeanings env fields).map Prod.fst = fields.map Prod.fst := by
  induction fields with
  | nil => rfl
  | cons f fields ih => rw [fieldMeanings, List.map_cons, List.map_cons, ih]

theorem shapes_meanings (hd : Discipline env ns d) {i : NodeId} {op : Operator} {es : List Expr}
    (hcall : Expr.call i op es ∈ ns) : d.Shapes op (meanings env es) := by
  intro k hk m hm b hb
  rw [meanings_eq_map, List.getElem?_map] at hm
  obtain ⟨e, he, rfl⟩ := Option.map_eq_some_iff.1 hm
  rw [node_meaning] at hb
  exact hd.shaped hcall hk he hb

mutual

theorem meaning_kept (hd : Discipline env ns d) :
    ∀ e : Expr, e.nodes ⊆ ns → (e.meaning env).Kept d
  | .entity i name, h => kept_ofEntity _ hd ⟨i, h List.mem_cons_self⟩
  | .call _ op args, h => by
    obtain ⟨hcall, hargs⟩ := List.cons_subset.1 h
    exact kept_ofCall hd (meanings_kept hd args hargs) hcall (shapes_meanings env hd hcall)
  | .lambda _ params body, h => by
    refine kept_ofLambda _ params (fun b hb => ?_)
      (meaning_kept hd body (List.cons_subset.1 h).2)
    rw [node_meaning] at hb
    exact hd.lambda hb
  | .param .., _ => kept_ofBinding _ _ fun hs => .lift fun _ hb =>
    (hs _ (mem_of_lookUp hb)).imp hd.param
  | .member _ target name, h => by
    have ht := meaning_kept hd target (List.cons_subset.1 h).2
    refine kept_ofBinding _ _ fun hs => (ht.asBinding hs).bind fun _ _ _ hb =>
      .lift fun _ hmember => ?_
    rw [node_meaning] at hb
    exact ⟨hd.member hb.kept hmember, hb.values.member hmember⟩
  | .const _ value, _ => kept_ofConstant _ hd value
  | .segment .., _ => kept_ofBinding _ _ fun _ => .unsupported _ _
  | .binary _ op left right, h => by
    obtain ⟨hleft, hright⟩ := List.append_subset.1 (List.cons_subset.1 h).2
    exact kept_ofScalar _ hd fun hs => scalarOfBinary_kept _ op
      (meaning_kept hd left hleft) (meaning_kept hd right hright) hs
  | .unary _ op operand, h => by
    have ho := meaning_kept hd operand (List.cons_subset.1 h).2
    exact kept_ofScalar _ hd fun hs => (ho.asScalar hs).bind fun _ _ _ hscalar =>
      .pure ⟨.of_noTest rfl rfl, hscalar.unary _⟩
  | .function _ name args, h => by
    have ha := meanings_kept hd args (List.cons_subset.1 h).2
    exact kept_ofScalar _ hd fun hs => scalarOfFunction_kept _ name ha hs
  | .object i fields, h => by
    obtain ⟨hobject, hnodes⟩ := List.cons_subset.1 h
    have hf := fieldMeanings_kept hd fields hnodes
    refine kept_ofBinding _ _ fun hs => ?_
    refine (builds_fields (V := fun _ b =>
      ∃ e ∈ fields, b.Kept d.statement (d.value e.2)) monotone_const
      fun f hmem _ _ => ?_).bind fun _ bs _ hfields => .pure ?_
    · obtain ⟨hm, e, he, hnode⟩ := hf f hmem
      exact (hm.asBinding hs).imp fun _ b _ hb => ⟨e, he, hnode ▸ hb⟩
    · rw [map_fst_fieldMeanings] at hfields
      obtain ⟨hnames, hfields⟩ := hfields
      refine ⟨hd.object hobject hnames fun f hf => ?_, .object fun f hf => ?_⟩
      · exact (hfields f hf).imp fun _ h => ⟨h.1, h.2.kept⟩
      · obtain ⟨_, -, hkept⟩ := hfields f hf
        exact hkept.values
  | .conditional _ test ifTrue ifFalse, h => by
    obtain ⟨htest, hbranches⟩ := List.append_subset.1 (List.cons_subset.1 h).2
    obtain ⟨htrue, hfalse⟩ := List.append_subset.1 hbranches
    refine kept_ofScalar _ hd fun hs => ?_
    refine ((meaning_kept hd test htest).asScalar hs).bind fun p₁ t _ ht => ?_
    refine ((meaning_kept hd ifTrue htrue).asScalar hs).bind fun p₂ x _ hx => ?_
    refine ((meaning_kept hd ifFalse hfalse).asScalar hs).bind fun p₃ y _ hy =>
      .pure ⟨.of_noTest rfl rfl, .cases ht hx _ ?_⟩
    rintro _ ⟨⟩
    exact hy

theorem meanings_kept (hd : Discipline env ns d) :
    ∀ es : List Expr, Expr.nodesOfList es ⊆ ns → ∀ m ∈ meanings env es, m.Kept d
  | [], _ => nofun
  | e :: es, h => by
    obtain ⟨he, hes⟩ := List.append_subset.1 h
    exact List.forall_mem_cons.2 ⟨meaning_kept hd e he, meanings_kept hd es hes⟩

theorem fieldMeanings_kept (hd : Discipline env ns d) :
    ∀ fields : List (String × Expr), Expr.nodesOfFields fields ⊆ ns →
      ∀ f ∈ fieldMeanings env fields, f.2.Kept d ∧ ∃ e ∈ fields, f.2.node = e.2
  | [], _ => nofun
  | (name, e) :: fields, h => by
    obtain ⟨he, hfields⟩ := List.append_subset.1 h
    refine List.forall_mem_cons.2 ⟨⟨meaning_kept hd e he, _, List.mem_cons_self, ?_⟩, fun f hf => ?_⟩
    · exact node_meaning env e
    · obtain ⟨hm, field, hfield, hnode⟩ := fieldMeanings_kept hd fields hfields f hf
      exact ⟨hm, field, List.mem_cons_of_mem _ hfield, hnode⟩

end

end Meanings

section Root

theorem anywhere_ofItem (hd : Discipline env ns d) {e : SqlExpr} (he : e.Anywhere d.statement)
    (htest : e.isTest = false ∨ env.dialect.capabilities.existsProjection = true)
    (origin : Expr) : (Select.ofItem e origin).Anywhere d.statement := fun _ =>
  .select (hd.single (s := { Select.empty with origin := some origin }) htest (hd.unpaged rfl rfl))
    nofun nofun (List.forall_mem_singleton.2 (he _))

theorem Terminal.Kept.atRoot {op : Operator} {t : Terminal} (h : t.Kept d op)
    (hd : Discipline env ns d) (e : Expr) : (t.atRoot env e).1.Anywhere d.statement := by
  cases t with
  | single select row nullable unique => exact h
  | exist select negated =>
    have htest : (SqlExpr.exist select negated).Anywhere d.statement := .exist h.2 negated
    show (existence env select negated e).Anywhere d.statement
    rw [existence]
    split
    case isTrue hprojection => exact anywhere_ofItem hd htest (.inr hprojection) e
    case isFalse =>
      refine anywhere_ofItem hd (.cases htest (.literal _) _ ?_) (.inl rfl) e
      rintro _ ⟨⟩
      exact .literal _
  | scalar select nullable => exact h
  | isIn value select =>
    exact anywhere_ofItem hd (.coalesce (.isIn h.1 h.2 false) (.literal _)) (.inl rfl) e

theorem atRoot_kept (e : Expr) (hd : Discipline env e.nodes d) :
    Builds ⟨0, false⟩ (atRoot env e) fun _ found => found.1.Anywhere d.statement := by
  have sequence : Builds ⟨0, false⟩ (sequenceAtRoot env e) fun _ found =>
      found.1.Anywhere d.statement := by
    have hm := meaning_kept env hd e (List.Subset.refl _)
    refine (hm.asSequence false Scope.kept_nil).bind fun p rows _ hrows => ?_
    exact Builds.check fun s hproject => .pure (hrows.project hd hproject)
  cases e with
  | call i op args =>
    rw [atRoot]
    split
    · have ha := meanings_kept env hd args (List.subset_cons_self (Expr.call i op args) _)
      have hcall : Expr.call i op args ∈ (Expr.call i op args).nodes := List.mem_cons_self
      exact (terminal_kept _ hd ha hcall Scope.kept_nil).bind fun p t _ ht =>
        .pure (ht.atRoot hd _)
    · exact sequence
  | _ => exact sequence

end Root

/-- Every statement of a form is as a discipline asks it to be. -/
theorem Form.anywhere_ofExpr {catalog : Catalog} {dialect : Dialect} {e : Expr} {f : Form}
    (hd : Discipline (.ofExpr catalog dialect e) e.nodes d)
    (h : ofExpr catalog dialect e = .ok f) : f.select.Anywhere d.statement := by
  obtain ⟨progress, hrun, -⟩ := ofExpr_ok h
  exact (atRoot_kept e hd _ _ hrun).2

end SequenceQuery
