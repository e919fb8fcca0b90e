import SequenceQuery.Proofs.Composition
import SequenceQuery.Proofs.Fitted

namespace SequenceQuery

section Values

variable {env : Surroundings} {ns : List Expr} {site : Site} {p start : Progress}
  {scope : Scope} {args : List Meaning} {b : Binding} (node : Expr)

theorem aggregateIn_fits (op : Operator) (ha : ∀ m ∈ args, m.Fits env ns)
    (hs : scope.Fits env ns site p) (hb : b.Fits env ns site p) :
    Builds p (aggregateIn node op args scope b) fun q found =>
      ∀ s ∈ found, s.expr.Fits env ns site q := by
  refine builds_aggregateIn (Q := fun q s => s.expr.Fits env ns site q) (fun _ => fits_countRows)
    ?_ ?_
  · rintro key element predicate rfl - hpredicate
    have hpredicate := ha predicate (List.mem_of_getElem? hpredicate)
    refine (hpredicate.applyScalar hs hb.2).imp fun q s _ htest => ?_
    have harms : (SqlExpr.cases [(s.expr, .int 1)] none).Fits env ns site q :=
      ⟨.cases _ _, ⟨htest, fits_int (by decide), trivial⟩, trivial⟩
    exact fits_aggregate (by decide) harms
  · rintro key element rfl -
    exact (selected_fits node ha 0 hs hb.2).imp fun _ _ _ hvalue => fits_aggregateOver _ hvalue

theorem scalarOfCall_fits (op : Operator) (ha : ∀ m ∈ args, m.Fits env ns)
    (hs : scope.Fits env ns site p) :
    Builds p (scalarOfCall node op args scope) fun q s => s.expr.Fits env ns site q := by
  refine builds_call (builds_aggregateOfGroup ?_) (fun hpq _ => terminal_fits node op ha (hs.mono hpq))
    (fun ht => ⟨.subquery (ht.2 _ rfl), ht.1⟩) (fun ht => ⟨.exist _ _, ht⟩)
    (fun ht => ⟨.subquery ht.2, ht.1⟩) fun ht => ⟨.isIn _ ht.2.2, ht.1, ht.2.1⟩
  rintro source rest rfl -
  obtain ⟨hsource, hrest⟩ := List.forall_mem_cons.1 ha
  exact (hsource.asBinding hs).bind fun q b hpq hb =>
    aggregateIn_fits node op hrest (hs.mono hpq) hb

theorem scalarOfBinary_fits (op : BinaryOp) {left right : Meaning} (hl : left.Fits env ns)
    (hr : right.Fits env ns) (hs : scope.Fits env ns site p) :
    Builds p (scalarOfBinary op left right scope) fun q s => s.expr.Fits env ns site q :=
  builds_binary (V := fun q s => s.expr.Fits env ns site q) (fun _ _ hqr _ h => h.later hqr)
    (fun hpq => hl.asScalar (hs.mono hpq)) (fun hpq => hr.asScalar (hs.mono hpq))
    (fun _ h => ⟨.isNull _ _, h⟩) (fun _ hleft hright => ⟨.binary _ _ _, hleft, hright⟩)
    fun hleft hright => fits_coalesce hleft hright

theorem fits_anyText : (SqlExpr.literal (.text "%")).Fits env ns site p :=
  SqlExpr.Written.anyText

theorem searchPattern_fits (name : String) {needle : SqlExpr} (h : needle.Fits env ns site p) :
    ((searchPattern? name needle).getD needle).Fits env ns site p :=
  searchPattern_cases (P := fun e => e.Fits env ns site p) name h fits_anyText
    fun _ _ hl hr => ⟨.binary _ _ _, hl, hr⟩

theorem scalarOfFunction_fits (name : String) (ha : ∀ m ∈ args, m.Fits env ns)
    (hs : scope.Fits env ns site p) :
    Builds p (scalarOfFunction env node name args scope) fun q s => s.expr.Fits env ns site q := by
  refine builds_function (V := fun q s => s.expr.Fits env ns site q) (fun _ _ hqr _ h => h.later hqr)
    (fun m hm _ hpq => (ha m hm).asScalar (hs.mono hpq))
    (fun htext hneedle => ⟨.binary _ _ _, htext, searchPattern_fits _ hneedle⟩) ?_
  intro q callee ss hname hss
  have hcallee : env.Calls callee := by
    rcases hname with hname | ⟨rfl, hpass⟩
    · exact .inr (.inl ⟨_, hname⟩)
    · exact .inr (.inr hpass)
  exact ⟨.function hcallee _, listScoped_iff.2 (List.forall_mem_map.2 hss)⟩

end Values

namespace Meaning

variable {env : Surroundings} {ns : List Expr} (node : Expr)

theorem fits_ofScalar {scalar : Scope → Build Scalar}
    (h : ∀ {site p scope}, scope.Fits env ns site p →
      Builds p (scalar scope) fun q s => s.expr.Fits env ns site q) :
    (ofScalar node scalar).Fits env ns where
  asSequence _ _ := .unsupported _ _
  asBinding hs := (h hs).bind fun _ _ _ hscalar => .pure hscalar
  apply _ _ := .unsupported _ _

theorem fits_ofBinding (reason : Unsupported) {binding : Scope → Build Binding}
    (h : ∀ {site p scope}, scope.Fits env ns site p →
      Builds p (binding scope) fun q b => b.Fits env ns site q) :
    (ofBinding node reason binding).Fits env ns where
  asSequence _ _ := .unsupported _ _
  asBinding := h
  apply _ _ := .unsupported _ _

theorem fits_ofLambda (params : List String) {body : Meaning} (hbody : body.Fits env ns) :
    (ofLambda node params body).Fits env ns where
  asSequence _ _ := .unsupported _ _
  asBinding _ := .unsupported _ _
  apply hs helements := builds_lambda fun _ hinner => hbody.asBinding ⟨hs.labels,
    fun entry hentry => (hinner entry hentry).elim (helements _) (hs.bindings entry)⟩

theorem fits_ofEntity (name : String) : (ofEntity env node name).Fits env ns where
  asSequence {site start scope} inRun hs := by
    rw [ofEntity]
    dsimp only
    cases hentity : env.catalog.entity? name with
    | none => exact .throw _
    | some entity =>
      refine Builds.freshLabel.bind fun p label hp hlabel => .pure ?_
      obtain ⟨rfl, hnext⟩ := hlabel
      let table := Table.table entity.schema entity.table (labelAt start.nextLabel)
      have hselect : (Select.ofTable table).Fits env ns site p := by
        refine ⟨⟨List.nodup_singleton _, List.forall_mem_singleton.2 ?_⟩, trivial, trivial, trivial,
          trivial, trivial, trivial, trivial, trivial, trivial⟩
        exact ⟨hs.labels _ le_rfl, _, by omega, rfl⟩
      have hrows : Rows.Fits env ns site p start
          ⟨.ofTable table, .record table.label entity "" false⟩ := by
        refine ⟨rfl, hselect, List.forall_mem_singleton.2 ⟨_, le_rfl, by omega, rfl⟩, ?_⟩
        refine ⟨table, List.mem_cons_self, rfl, fun property hproperty => ?_⟩
        rw [String.empty_append]
        exact ⟨entity, Catalog.entity?_mem hentity, rfl, rfl, property, hproperty, rfl⟩
      exact hrows.withOrigin node
  asBinding _ := .unsupported _ _
  apply _ _ := .unsupported _ _

theorem fits_ofCall (op : Operator) {args : List Meaning} (ha : ∀ m ∈ args, m.Fits env ns)
    (hcall : ∀ m, op = .segment → args[1]? = some m →
      ∃ i source rest, .call i .segment (source :: m.node :: rest) ∈ ns) :
    (ofCall env node op args).Fits env ns where
  asSequence inRun hs := sequenceOfCall_fits node op ha hcall inRun hs
  asBinding hs := (scalarOfCall_fits node op ha hs).bind fun _ _ _ h => .pure h
  apply _ _ := .unsupported _ _

theorem fits_ofConstant (value : Value) : (ofConstant env node value).Fits env ns := by
  refine fits_ofScalar node fun {site p scope} _ => ?_
  split
  · exact .pure .null
  · cases hslot : env.slot? node.id with
    | none => exact .unsupported _ _
    | some slot => exact .pure (fits_param (.slot hslot))

end Meaning

namespace Expr

/-- The sequences whose elements a call hands to its lambdas. -/
def sources : Expr → List Expr
  | .call _ op (source :: rest) =>
    source :: match op with
      | .join | .leftJoin => rest.take 1
      | _ => []
  | _ => []

theorem nodesOfFields_eq (fields : List (String × Expr)) :
    nodesOfFields fields = nodesOfList (fields.map Prod.snd) := by
  induction fields with
  | nil => rfl
  | cons field rest ih =>
    obtain ⟨_, e⟩ := field
    exact congrArg (e.nodes ++ ·) ih

theorem nodes_eq (e : Expr) : e.nodes = e :: nodesOfList e.children := by
  cases e <;> simp [nodes, children, nodesOfList, nodesOfFields_eq]

theorem mem_nodes (e : Expr) : e ∈ e.nodes := e.nodes_eq ▸ List.mem_cons_self

theorem nodes_of_mem {e : Expr} {es : List Expr} (h : e ∈ es) : e.nodes ⊆ nodesOfList es := by
  induction es with
  | nil => cases h
  | cons first rest ih =>
    rcases List.mem_cons.1 h with rfl | h
    · exact List.subset_append_left _ _
    · exact List.subset_append_of_subset_right _ (ih h)

theorem nodes_of_child {e n : Expr} (h : e ∈ n.children) : e.nodes ⊆ n.nodes :=
  n.nodes_eq ▸ List.subset_cons_of_subset _ (nodes_of_mem h)

end Expr

section Meanings

open Meaning

variable (env : Surroundings) {ns : List Expr}

mutual

theorem meaning_fits : ∀ e : Expr, e.nodes ⊆ ns → (e.meaning env).Fits env ns
  | .entity _ name, _ => fits_ofEntity _ name
  | .call i op args, h => by
    obtain ⟨hcall, hargs⟩ := List.cons_subset.1 h
    refine fits_ofCall _ op (meanings_fit args hargs) fun m hop hm => ?_
    subst hop
    rw [meanings_eq_map, List.getElem?_map] at hm
    match args, hm with
    | source :: argument :: rest, hm =>
      obtain rfl := Option.some.inj hm
      rw [node_meaning env]
      exact ⟨i, source, rest, hcall⟩
  | .lambda _ params body, h =>
    fits_ofLambda _ params (meaning_fits body (List.cons_subset.1 h).2)
  | .param .., _ => fits_ofBinding _ _ fun hs => .lift fun _ hb =>
    hs.bindings _ (mem_of_lookUp hb)
  | .member _ target name, h => by
    have ht := meaning_fits target (List.cons_subset.1 h).2
    exact fits_ofBinding _ _ fun hs => (ht.asBinding hs).bind fun _ _ _ hb =>
      .lift fun _ hmember => hb.member hmember
  | .const _ value, _ => fits_ofConstant _ value
  | .segment .., _ => fits_ofBinding _ _ fun _ => .unsupported _ _
  | .binary _ op left right, h => by
    obtain ⟨hleft, hright⟩ := List.append_subset.1 (List.cons_subset.1 h).2
    exact fits_ofScalar _ (scalarOfBinary_fits op (meaning_fits left hleft)
      (meaning_fits right hright))
  | .unary _ op operand, h => by
    have ho := meaning_fits operand (List.cons_subset.1 h).2
    exact fits_ofScalar _ fun hs => (ho.asScalar hs).bind fun _ _ _ hscalar =>
      .pure ⟨.unary _ _, hscalar⟩
  | .function _ name args, h =>
    fits_ofScalar _ (scalarOfFunction_fits _ name (meanings_fit args (List.cons_subset.1 h).2))
  | .object _ fields, h => by
    have hf := fieldMeanings_fit fields (List.cons_subset.1 h).2
    refine fits_ofBinding _ _ fun hs => ?_
    have hfields := builds_fields (V := fun q b => b.Fits env ns _ q)
      (fun _ _ hqr _ h => h.later hqr) fun f hmem _ hpq => (hf f hmem).asBinding (hs.mono hpq)
    exact hfields.bind fun _ _ _ h => .pure (fieldsFit_iff.2 h.2)
  | .conditional _ test ifTrue ifFalse, h => by
    obtain ⟨htest, hbranches⟩ := List.append_subset.1 (List.cons_subset.1 h).2
    obtain ⟨htrue, hfalse⟩ := List.append_subset.1 hbranches
    refine fits_ofScalar _ fun hs => ?_
    refine ((meaning_fits test htest).asScalar hs).bind fun p₁ t h₁ ht => ?_
    refine ((meaning_fits ifTrue htrue).asScalar (hs.mono h₁)).bind fun p₂ a h₂ ha => ?_
    refine ((meaning_fits ifFalse hfalse).asScalar (hs.mono (h₁.trans h₂))).bind
      fun p₃ b h₃ hb => .pure ?_
    exact ⟨.cases _ _, ⟨ht.later (h₂.trans h₃), ha.later h₃, trivial⟩, hb⟩

theorem meanings_fit : ∀ es : List Expr, Expr.nodesOfList es ⊆ ns →
    ∀ m ∈ meanings env es, m.Fits env ns
  | [], _ => nofun
  | e :: es, h => by
    obtain ⟨he, hes⟩ := List.append_subset.1 h
    exact List.forall_mem_cons.2 ⟨meaning_fits e he, meanings_fit es hes⟩

theorem fieldMeanings_fit : ∀ fields : List (String × Expr), Expr.nodesOfFields fields ⊆ ns →
    ∀ f ∈ fieldMeanings env fields, f.2.Fits env ns
  | [], _ => nofun
  | (_, e) :: fields, h => by
    obtain ⟨he, hfields⟩ := List.append_subset.1 h
    exact List.forall_mem_cons.2 ⟨meaning_fits e he, fieldMeanings_fit fields hfields⟩

end

end Meanings

section Root

variable {env : Surroundings} {ns : List Expr} {p : Progress}

theorem ofItem_fits {e : SqlExpr} (h : e.Fits env ns .outermost p) (origin : Expr) :
    (Select.ofItem e origin).Fits env ns .outermost p := by
  have hsite : Site.outermost ≤ Site.outermost.within [] :=
    ⟨List.Subset.refl _, fun _ _ => ⟨trivial, List.not_mem_nil⟩⟩
  have hwithin := h.mono le_rfl (Site.upTo_mono hsite (le_refl p))
  exact ⟨⟨List.nodup_nil, nofun⟩, trivial, trivial, ⟨SqlExpr.fits_within.1 hwithin, trivial⟩,
    trivial, trivial, trivial, trivial, trivial, trivial⟩

theorem fits_bool (b : Bool) : (SqlExpr.literal (.bool b)).Fits env ns .outermost p :=
  SqlExpr.Written.bool b

theorem existence_fits {s : Select} (h : s.Fits env ns .outermost p) (negated : Bool) (e : Expr) :
    (existence env s negated e).Fits env ns .outermost p := by
  have htest : (SqlExpr.exist s negated).Fits env ns .outermost p := ⟨.exist _ _, h⟩
  have hcases : (SqlExpr.cases [(.exist s negated, .literal (.bool true))]
      (some (.literal (.bool false)))).Fits env ns .outermost p :=
    ⟨.cases _ _, ⟨htest, fits_bool true, trivial⟩, fits_bool false⟩
  rw [existence]
  split
  · exact ofItem_fits htest e
  · exact ofItem_fits hcases e

theorem Terminal.Fits.atRoot {t : Terminal} (h : t.Fits env ns .outermost p) (e : Expr) :
    (t.atRoot env e).1.Fits env ns .outermost p := by
  cases t with
  | single select row nullable unique => exact h.1
  | exist select negated => exact existence_fits h negated e
  | scalar select nullable => exact h.1
  | isIn value select =>
    have hin : (SqlExpr.isIn value select false).Fits env ns .outermost p :=
      ⟨.isIn _ h.2.2, h.1, h.2.1⟩
    exact ofItem_fits (fits_coalesce hin (fits_bool false)) e

theorem atRoot_fits (e : Expr) : Builds ⟨0, false⟩ (atRoot env e) fun p found =>
    found.1.Fits env e.nodes .outermost p := by
  have hs : Scope.Fits env e.nodes .outermost ⟨0, false⟩ [] := ⟨fun _ _ => trivial, nofun⟩
  have sequence : Builds ⟨0, false⟩ (sequenceAtRoot env e) fun p found =>
      found.1.Fits env e.nodes .outermost p := by
    have hm := meaning_fits env e (List.Subset.refl _)
    refine (hm.asSequence false hs).bind fun p rows _ hrows => ?_
    exact Builds.check fun s hproject => .pure (hrows.project hproject).1
  cases e with
  | call i op args =>
    rw [atRoot]
    split
    · have ha := meanings_fit env args (List.subset_cons_self (.call i op args) _)
      exact (terminal_fits _ op ha hs).bind fun p t _ ht => .pure (ht.atRoot _)
    · exact sequence
  | _ => exact sequence

end Root

/-- What a form is written with. Its slots are those of the query's constants, and it asks for a
segment only where the query has been read with one. -/
theorem Form.fits_ofExpr {catalog : Catalog} {dialect : Dialect} {e : Expr} {f : Form}
    (h : Form.ofExpr catalog dialect e = .ok f) : ∃ p : Progress,
      f.select.Fits (.ofExpr catalog dialect e) e.nodes .outermost p ∧
      f.segment = (if p.segmentUsed then e.segment? else none) ∧
      f.slotCount = e.constants.length := by
  obtain ⟨p, hrun, hsegment, hslots, -⟩ := ofExpr_ok h
  exact ⟨p, (atRoot_fits e _ _ hrun).2, hsegment, hslots⟩

/-- A statement that stands for one value, or for the values that one is looked for among, selects
one column. -/
def SqlExpr.ReadsOneColumn : SqlExpr → Prop
  | .subquery query | .isIn _ query _ => query.items.length = 1
  | _ => True

theorem SqlExpr.Written.readsOneColumn {env : Surroundings} {ns : List Expr} {p : Progress}
    {e : SqlExpr} (h : e.Written env ns p) : e.ReadsOneColumn := by
  cases h <;> first | assumption | trivial

namespace Form

/-- Whatever the dialect can do, every statement in a form introduces labels that are not taken
around it, and every column named is one of a table that is seen where it is named. -/
theorem scoped_ofExpr (catalog : Catalog) (dialect : Dialect) {e : Expr} {f : Form}
    (h : ofExpr catalog dialect e = .ok f) :
    f.select.Scoped catalog SqlExpr.ReadsOneColumn .outermost := by
  obtain ⟨p, hfits, -, -⟩ := fits_ofExpr h
  have hsite : Site.outermost.upTo p ≤ .outermost := ⟨List.Subset.refl _, fun _ _ => trivial⟩
  have hwritten : SqlExpr.Written (.ofExpr catalog dialect e) e.nodes p ≤ SqlExpr.ReadsOneColumn :=
    fun _ => SqlExpr.Written.readsOneColumn
  exact Select.Scoped.mono hwritten hsite hfits

def ages : Catalog := ⟨[⟨"Person", "people", none, [⟨"Age", "age", .int, false, false⟩]⟩]⟩

/-- `Person.Take(5).Where(p => Person.Where(q => q.Age == p.Age).Count() == 2)`: a derived table,
and a statement in the condition on it that reads a column from around it. -/
def ofSharedAge : Expr :=
  .call 0 .filter [.call 1 .take [.entity 2 "Person", .const 3 (.int 5)],
    .lambda 4 ["p"] (.binary 5 .equal
      (.call 6 .count [.call 7 .filter [.entity 8 "Person", .lambda 9 ["q"]
        (.binary 10 .equal (.member 11 (.param 12 "q") "Age")
          (.member 13 (.param 14 "p") "Age"))]])
      (.const 15 (.int 2)))]

theorem scoped_ofSharedAge : ∃ f, ofExpr ages (Postgres.dialect false) ofSharedAge = .ok f ∧
    f.select.Scoped ages SqlExpr.ReadsOneColumn .outermost := by
  obtain ⟨f, hf⟩ : ∃ f, ofExpr ages (Postgres.dialect false) ofSharedAge = .ok f := ⟨_, rfl⟩
  exact ⟨f, hf, scoped_ofExpr ages _ hf⟩

end Form

end SequenceQuery
