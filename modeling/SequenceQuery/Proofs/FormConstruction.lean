import SequenceQuery.Proofs.Composition
import SequenceQuery.Proofs.RowConstruction
import SequenceQuery.Proofs.Meanings
import SequenceQuery.Proofs.Preserved

namespace SequenceQuery

def Terminal.IsMade (env : Surroundings) (ns : List Expr) (place : Place) (ctx : List Binding) :
    Terminal → Prop
  | .single s .. | .exist s _ | .scalar s _ => Made env ns place ctx (.statement s)
  | .isIn value s => Made env ns place ctx (.value value) ∧ Made env ns place ctx (.statement s)

variable {env : Surroundings} {ns : List Expr} {place : Place} {ctx : List Binding}
  {p start : Progress} {scope : Scope} {args : List Meaning} {m : Meaning} {rows : Rows}
  {b : Binding}

namespace Made

theorem coalesce {a b : SqlExpr} (ha : Made env ns place ctx (.value a))
    (hb : Made env ns place ctx (.value b)) :
    Made env ns place ctx (.value (.coalesce [a, b])) :=
  .function (List.forall_mem_cons.2 ⟨ha, List.forall_mem_singleton.2 hb⟩)

theorem isNull {e : SqlExpr} (h : Made env ns place ctx (.value e)) (negated : Bool) :
    Made env ns place ctx (.value (.isNull e negated)) :=
  .compose rfl (List.forall_mem_singleton.2 h) nofun

theorem cases {test a : SqlExpr} (htest : Made env ns place ctx (.value test))
    (ha : Made env ns place ctx (.value a)) (otherwise : Option SqlExpr)
    (hotherwise : ∀ b ∈ otherwise, Made env ns place ctx (.value b)) :
    Made env ns place ctx (.value (.cases [(test, a)] otherwise)) := by
  refine .compose rfl (List.forall_mem_append.2 ⟨?_, fun b hb => ?_⟩) nofun
  · exact List.forall_mem_cons.2 ⟨htest, List.forall_mem_singleton.2 ha⟩
  · exact hotherwise b (Option.mem_toList.1 hb)

theorem caseOnly {test a : SqlExpr} (htest : Made env ns place ctx (.value test))
    (ha : Made env ns place ctx (.value a)) :
    Made env ns place ctx (.value (.cases [(test, a)] none)) :=
  .cases htest ha none nofun

theorem subquery {s : Select} (h : Made env ns place ctx (.statement s)) :
    Made env ns place ctx (.value (.subquery s)) :=
  .compose rfl nofun (List.forall_mem_singleton.2 h)

theorem exist {s : Select} (h : Made env ns place ctx (.statement s)) (negated : Bool) :
    Made env ns place ctx (.value (.exist s negated)) :=
  .compose rfl nofun (List.forall_mem_singleton.2 h)

theorem isIn {e : SqlExpr} {s : Select} (he : Made env ns place ctx (.value e))
    (hs : Made env ns place ctx (.statement s)) (negated : Bool) :
    Made env ns place ctx (.value (.isIn e s negated)) :=
  .compose rfl (List.forall_mem_singleton.2 he) (List.forall_mem_singleton.2 hs)

theorem aggregateOver {key element : Binding} {s : Scalar} (op : Operator)
    (h : Made env ns place ctx (.binding (.group key element)))
    (hvalue : Made env ns place (element :: ctx) (.value s.expr))
    (hclosed : SelectorsClosed env ns → Made env ns place [element] (.value s.expr)) :
    Made env ns place ctx (.value (aggregateOver op s).expr) := by
  cases op with
  | sum => exact .coalesce (.aggregate h hvalue hclosed _) (.literal _)
  | _ => exact .aggregate h hvalue hclosed _

end Made

section Terminals

variable (node : Expr)

theorem filtered_makes (hm : m.Makes env ns) (ha : ∀ m ∈ args, m.Makes env ns) (i : Nat)
    (hplace : place.Given start) (hs : scope.In ctx) :
    Builds start (filtered node m args[i]? scope) fun p rows => rows.IsMade env ns place ctx p := by
  refine (hm.asSequence false hplace hs).bind fun p₁ rows h₁ hrows => ?_
  cases hpredicate : args[i]? with
  | none => exact .pure hrows
  | some predicate =>
    have hpredicate := ha predicate (List.mem_of_getElem? hpredicate)
    exact (restrict_makes node hrows hpredicate (hplace.mono h₁) hs false).imp fun _ _ _ h => h.1

theorem selected_makes (ha : ∀ m ∈ args, m.Makes env ns) (i : Nat) (hplace : place.Given p)
    (hs : scope.In ctx) (hb : b ∈ ctx) :
    Builds p (selected node args[i]? b scope) fun _ s => Made env ns place ctx (.value s.expr) := by
  cases hselector : args[i]? with
  | none => exact .lift fun _ hscalar => .ofScalar (.bound hb) hscalar
  | some selector =>
    exact (ha selector (List.mem_of_getElem? hselector)).applyScalar hplace hs hb

theorem Rows.IsMade.orderedOnlyIfPaged (h : rows.IsMade env ns place ctx p) :
    rows.orderedOnlyIfPaged.IsMade env ns place ctx p := by
  rw [Rows.orderedOnlyIfPaged]
  split
  · exact h
  · exact ⟨.unordered h.made, h.labels⟩

theorem Rows.IsMade.forAggregate (h : rows.IsMade env ns place ctx p) (hplace : place.Given p) :
    Builds p (rows.forAggregate node) fun q rows' => rows'.IsMade env ns place ctx q ∧
      rows'.select.hasGroups = false ∧ rows'.select.orderBy = [] := by
  rw [Rows.forAggregate]
  split
  · exact .refused _ _
  refine ((h.wrapIf hplace _ node).and (rows.builds_wrapForRows node)).bind
    fun q rows' _ hrows => .pure ?_
  obtain ⟨hrows, -, -, hgroups⟩ := hrows
  exact ⟨⟨.unordered hrows.made, hrows.labels⟩, hgroups, rfl⟩

theorem singleRow_makes (ha : ∀ m ∈ args, m.Makes env ns) (nullable unique : Bool)
    (hplace : place.Given start) (hs : scope.In ctx) :
    Builds start (singleRow node args nullable unique scope) fun _ t =>
      t.IsMade env ns place ctx := by
  refine Builds.check fun m hm => ?_
  refine (filtered_makes node (ha _ (mem_of_argument hm)) ha 1 hplace hs).bind fun p₁ rows h₁ hrows => ?_
  refine (hrows.wrapIf (hplace.mono h₁) _ node).bind fun p₂ rows h₂ hrows => ?_
  refine Builds.check fun s hproject => .pure ?_
  obtain ⟨ls, hls, rfl⟩ := Rows.project_ok.1 hproject
  exact .ofLeaves (.withLimit hrows.made (.literal _)) (Binding.leaves_of_columns hls).1

theorem terminal_makes {i : NodeId} {op : Operator} {es : List Expr}
    (hcall : Expr.call i op es ∈ ns) (ha : ∀ m ∈ args, m.Makes env ns) (hplace : place.Given start)
    (hs : scope.In ctx) :
    Builds start (terminal node op args scope) fun _ t => t.IsMade env ns place ctx := by
  refine Builds.check fun source hsource => ?_
  have hsource := ha _ (mem_of_argument hsource)
  have one : ∀ {q : Place} {c : List Binding},
      ∀ e ∈ [SelectItem.expr (.int 1) none].filterMap SelectItem.expr?,
        Made env ns q c (.value e) := List.forall_mem_singleton.2 (.literal _)
  cases op with
  | first | firstOrDefault | single | singleOrDefault => exact singleRow_makes node ha _ _ hplace hs
  | count | longCount =>
    refine (filtered_makes node hsource ha 1 hplace hs).bind fun p₁ rows h₁ hrows => ?_
    refine (hrows.forAggregate node (hplace.mono h₁)).bind fun p₂ rows h₂ hrows => .pure ?_
    exact .count hrows.1.made hrows.2.1 hrows.2.2
  | any =>
    refine (filtered_makes node hsource ha 1 hplace hs).bind fun p₁ rows h₁ hrows => .pure ?_
    refine .project hrows.orderedOnlyIfPaged.made one fun _ => .inl ⟨⟨i, es, hcall⟩, rfl, ?_⟩
    rw [Rows.orderedOnlyIfPaged]
    split
    case isTrue hpaged => exact fun h => absurd hpaged (Bool.eq_false_iff.1 h)
    case isFalse => exact fun _ => rfl
  | all =>
    refine (hsource.asSequence false hplace hs).bind fun p₁ rows h₁ hrows => ?_
    refine Builds.check fun m hm => ?_
    refine (restrict_makes node hrows (ha _ (mem_of_argument hm)) (hplace.mono h₁) hs true).bind
      fun p₂ rows h₂ hrows => .pure ?_
    have hopen : rows.orderedOnlyIfPaged.select.distinct = false := by
      rw [Rows.orderedOnlyIfPaged]
      split <;> exact hrows.2
    refine .project hrows.1.orderedOnlyIfPaged.made one fun hdistinct => ?_
    rw [hopen] at hdistinct
    cases hdistinct
  | contains =>
    refine (hsource.asSequence false hplace hs).bind fun p₁ rows h₁ hrows => ?_
    cases hrow : rows.row with
    | scalar element =>
      refine Builds.check fun m hm => ?_
      refine ((ha _ (mem_of_argument hm)).asScalar (hplace.mono h₁) hs).bind fun p₂ value h₂ hvalue =>
        .pure ⟨hvalue, ?_⟩
      have hordered : rows.orderedOnlyIfPaged.row = .scalar element := by
        rw [Rows.orderedOnlyIfPaged]
        split <;> exact hrow
      have hleaf : rows.orderedOnlyIfPaged.row.leaves? "" =
          some [⟨Binding.leafName "" element.expr, element⟩] := by
        rw [hordered]
        rfl
      refine .project hrows.orderedOnlyIfPaged.made (List.forall_mem_singleton.2 ?_)
        fun _ => .inr ⟨_, hleaf, List.forall_mem_singleton.2 List.mem_cons_self⟩
      exact .leaf (.bound List.mem_cons_self) hleaf List.mem_cons_self
    | _ => exact .unsupported _ _
  | sum | min | max | average =>
    refine (hsource.asSequence false hplace hs).bind fun p₁ rows h₁ hrows => ?_
    refine (hrows.forAggregate node (hplace.mono h₁)).bind fun p₂ rows h₂ hrows => ?_
    obtain ⟨hrows, hgroups, horder⟩ := hrows
    refine (selected_makes node ha 1 (hrows.inside (hplace.mono (h₁.trans h₂)))
      (hs.mono (List.subset_cons_self _ _)) List.mem_cons_self).bind fun p₃ value h₃ hvalue =>
        .pure ?_
    exact .total hrows.made hgroups horder hvalue _
  | _ => exact .throw _

end Terminals

section Values

variable (node : Expr)

theorem Meaning.Makes.closed (hm : m.Makes env ns) (hplace : place.Given p) (hs : scope.In ctx)
    (hclosed : SelectorsClosed env ns → m.apply scope [b] = m.apply [] [b]) :
    Builds p (m.applyScalar scope b) fun _ s => Made env ns place (b :: ctx) (.value s.expr) ∧
      (SelectorsClosed env ns → Made env ns place [b] (.value s.expr)) := by
  have hopen := hm.applyScalar hplace (hs.mono (List.subset_cons_self b _)) List.mem_cons_self
  have hnothing : Scope.In [] [b] := nofun
  refine hopen.and ?_
  by_cases h : SelectorsClosed env ns
  · rw [Meaning.applyScalar, hclosed h]
    exact (hm.applyScalar hplace hnothing List.mem_cons_self).imp fun _ _ _ he _ => he
  · exact hopen.imp fun _ _ _ _ h' => absurd h' h

theorem aggregateIn_makes (op : Operator) (ha : ∀ m ∈ args, m.Makes env ns)
    (hclosed : SelectorsClosed env ns → ∀ m ∈ args[0]?, ∀ elements,
      m.apply scope elements = m.apply [] elements)
    (hplace : place.Given p) (hs : scope.In ctx) (hb : Made env ns place ctx (.binding b)) :
    Builds p (aggregateIn node op args scope b) fun _ found =>
      ∀ s ∈ found, Made env ns place ctx (.value s.expr) := by
  have said : ∀ {element m}, args[0]? = some m → Builds p (m.applyScalar scope element) fun _ s =>
      Made env ns place (element :: ctx) (.value s.expr) ∧
        (SelectorsClosed env ns → Made env ns place [element] (.value s.expr)) := fun {_ m} hm =>
    (ha m (List.mem_of_getElem? hm)).closed hplace hs fun h => hclosed h m hm _
  refine builds_aggregateIn (Q := fun _ s => Made env ns place ctx (.value s.expr)) ?_ ?_ ?_
  · rintro key element rfl
    exact .countRows hb
  · rintro key element predicate rfl - hpredicate
    exact (said hpredicate).imp fun _ s _ htest => .aggregate hb (.caseOnly htest.1 (.literal _))
      (fun h => .caseOnly (htest.2 h) (.literal _)) _
  · rintro key element rfl -
    have hvalue : Builds p (selected node args[0]? element scope) fun _ s =>
        Made env ns place (element :: ctx) (.value s.expr) ∧
          (SelectorsClosed env ns → Made env ns place [element] (.value s.expr)) := by
      cases hselector : args[0]? with
      | none =>
        exact .lift fun _ hscalar => ⟨.ofScalar (.bound List.mem_cons_self) hscalar,
          fun _ => .ofScalar (.bound List.mem_cons_self) hscalar⟩
      | some selector => exact said hselector
    exact hvalue.imp fun _ s _ hs => .aggregateOver op hb hs.1 hs.2

theorem scalarOfCall_makes {i : NodeId} {op : Operator} {es : List Expr}
    (hcall : Expr.call i op es ∈ ns) (ha : ∀ m ∈ meanings env es, m.Makes env ns)
    (hplace : place.Given p) (hs : scope.In ctx) :
    Builds p (scalarOfCall node op (meanings env es) scope) fun _ s =>
      Made env ns place ctx (.value s.expr) := by
  refine builds_call (builds_aggregateOfGroup fun {source rest} hargs hreference => ?_)
    (fun hpq _ => terminal_makes node hcall ha (hplace.mono hpq) hs) (fun ht => ht.subquery)
    (fun ht => ht.exist _) (fun ht => ht.subquery) fun ht => ht.1.isIn ht.2 false
  cases es with
  | nil => cases hargs
  | cons e es =>
    cases hargs
    obtain ⟨hsource, hrest⟩ := List.forall_mem_cons.1 ha
    refine (hsource.asBinding hplace hs).bind fun q b hpq hb =>
      aggregateIn_makes node op hrest ?_ (hplace.mono hpq) hs hb
    intro hclosed m hm elements
    rw [node_meaning] at hreference
    cases es with
    | nil => cases hm
    | cons selector more =>
      cases hm
      exact hclosed i op e selector more hcall hreference scope elements

theorem scalarOfBinary_makes (op : BinaryOp) {left right : Meaning} (hl : left.Makes env ns)
    (hr : right.Makes env ns) (hplace : place.Given p) (hs : scope.In ctx) :
    Builds p (scalarOfBinary op left right scope) fun _ s =>
      Made env ns place ctx (.value s.expr) :=
  builds_binary (V := fun _ s => Made env ns place ctx (.value s.expr)) monotone_const
    (fun hpq => hl.asScalar (hplace.mono hpq) hs) (fun hpq => hr.asScalar (hplace.mono hpq) hs)
    (fun negated h => h.isNull negated) (fun _ hleft hright => hleft.binary _ hright)
    fun hleft hright => hleft.coalesce hright

theorem searchPattern_made (name : String) {needle : SqlExpr}
    (h : Made env ns place ctx (.value needle)) :
    Made env ns place ctx (.value ((searchPattern? name needle).getD needle)) :=
  searchPattern_cases (P := fun e => Made env ns place ctx (.value e)) name h (.literal _)
    fun _ _ hl hr => hl.binary .concat hr

theorem scalarOfFunction_makes (name : String) (ha : ∀ m ∈ args, m.Makes env ns)
    (hplace : place.Given p) (hs : scope.In ctx) :
    Builds p (scalarOfFunction env node name args scope) fun _ s =>
      Made env ns place ctx (.value s.expr) :=
  builds_function (V := fun _ s => Made env ns place ctx (.value s.expr)) monotone_const
    (fun m hm _ hpq => (ha m hm).asScalar (hplace.mono hpq) hs)
    (fun htext hneedle => htext.binary .like (searchPattern_made _ hneedle))
    fun _ hss => .function (List.forall_mem_map.2 hss)

end Values

namespace Meaning

variable (node : Expr)

theorem makes_ofScalar {scalar : Scope → Build Scalar}
    (h : ∀ {place ctx p scope}, place.Given p → Scope.In scope ctx →
      Builds p (scalar scope) fun _ s => Made env ns place ctx (.value s.expr)) :
    (ofScalar node scalar).Makes env ns where
  asSequence _ _ _ := .unsupported _ _
  asBinding hplace hs := (h hplace hs).bind fun _ _ _ hscalar => .pure (.scalar hscalar)
  apply _ _ _ := .unsupported _ _

theorem makes_ofBinding (reason : Unsupported) {binding : Scope → Build Binding}
    (h : ∀ {place ctx p scope}, place.Given p → Scope.In scope ctx →
      Builds p (binding scope) fun _ b => Made env ns place ctx (.binding b)) :
    (ofBinding node reason binding).Makes env ns where
  asSequence _ _ _ := .unsupported _ _
  asBinding := h
  apply _ _ _ := .unsupported _ _

theorem makes_ofLambda (params : List String) {body : Meaning} (hbody : body.Makes env ns) :
    (ofLambda node params body).Makes env ns where
  asSequence _ _ _ := .unsupported _ _
  asBinding _ _ := .unsupported _ _
  apply hplace hs helements := builds_lambda fun _ hinner =>
    hbody.asBinding hplace fun entry hentry => (hinner entry hentry).elim (helements ·) (hs entry)

theorem makes_ofEntity (name : String) : (ofEntity env node name).Makes env ns where
  asSequence {place ctx start scope} inRun hplace hs := by
    rw [ofEntity]
    dsimp only
    cases env.catalog.entity? name with
    | none => exact .throw _
    | some entity =>
      refine Builds.freshLabel.bind fun p label hp hlabel => .pure ?_
      obtain ⟨rfl, hnext⟩ := hlabel
      exact ⟨.withOrigin (.table hplace.fresh entity) node,
        List.forall_mem_singleton.2 ⟨_, by omega, rfl⟩⟩
  asBinding _ _ := .unsupported _ _
  apply _ _ _ := .unsupported _ _

theorem makes_ofCall {i : NodeId} {op : Operator} {es : List Expr}
    (hcall : Expr.call i op es ∈ ns) (ha : ∀ m ∈ meanings env es, m.Makes env ns) :
    (ofCall env (.call i op es) op (meanings env es)).Makes env ns where
  asSequence inRun hplace hs := sequenceOfCall_makes hcall ha inRun hplace hs
  asBinding hplace hs :=
    (scalarOfCall_makes _ hcall ha hplace hs).bind fun _ _ _ h => .pure (.scalar h)
  apply _ _ _ := .unsupported _ _

theorem makes_ofConstant (value : Value) : (ofConstant env node value).Makes env ns := by
  refine makes_ofScalar node fun _ _ => ?_
  split
  · exact .pure (.literal _)
  · cases env.slot? node.id with
    | none => exact .unsupported _ _
    | some slot => exact .pure (.param _)

end Meaning

section Meanings

open Meaning

variable (env : Surroundings) {ns : List Expr}

mutual

theorem meaning_makes : ∀ e : Expr, e.nodes ⊆ ns → (e.meaning env).Makes env ns
  | .entity _ name, _ => makes_ofEntity _ name
  | .call i op args, h => by
    obtain ⟨hcall, hargs⟩ := List.cons_subset.1 h
    exact makes_ofCall hcall (meanings_make args hargs)
  | .lambda _ params body, h =>
    makes_ofLambda _ params (meaning_makes body (List.cons_subset.1 h).2)
  | .param .., _ => makes_ofBinding _ _ fun _ hs => .lift fun _ hb => .bound (hs _ (mem_of_lookUp hb))
  | .member _ target name, h => by
    have ht := meaning_makes target (List.cons_subset.1 h).2
    exact makes_ofBinding _ _ fun hplace hs => (ht.asBinding hplace hs).bind fun _ _ _ hb =>
      .lift fun _ hmember => hb.member hmember
  | .const _ value, _ => makes_ofConstant _ value
  | .segment .., _ => makes_ofBinding _ _ fun _ _ => .unsupported _ _
  | .binary _ op left right, h => by
    obtain ⟨hleft, hright⟩ := List.append_subset.1 (List.cons_subset.1 h).2
    exact makes_ofScalar _ (scalarOfBinary_makes op (meaning_makes left hleft)
      (meaning_makes right hright))
  | .unary _ op operand, h => by
    have ho := meaning_makes operand (List.cons_subset.1 h).2
    exact makes_ofScalar _ fun hplace hs => (ho.asScalar hplace hs).bind fun _ _ _ hscalar =>
      .pure (hscalar.unary _)
  | .function _ name args, h =>
    makes_ofScalar _ (scalarOfFunction_makes _ name (meanings_make args (List.cons_subset.1 h).2))
  | .object _ fields, h => by
    have hf := fieldMeanings_make fields (List.cons_subset.1 h).2
    refine makes_ofBinding _ _ fun hplace hs => ?_
    have hfields := builds_fields (V := fun _ b => Made env ns _ _ (.binding b)) monotone_const
      fun f hmem _ hpq => (hf f hmem).asBinding (hplace.mono hpq) hs
    exact hfields.bind fun _ _ _ h => .pure (.object h.2)
  | .conditional _ test ifTrue ifFalse, h => by
    obtain ⟨htest, hbranches⟩ := List.append_subset.1 (List.cons_subset.1 h).2
    obtain ⟨htrue, hfalse⟩ := List.append_subset.1 hbranches
    refine makes_ofScalar _ fun hplace hs => ?_
    refine ((meaning_makes test htest).asScalar hplace hs).bind fun p₁ t h₁ ht => ?_
    refine ((meaning_makes ifTrue htrue).asScalar (hplace.mono h₁) hs).bind fun p₂ a h₂ ha => ?_
    refine ((meaning_makes ifFalse hfalse).asScalar (hplace.mono (h₁.trans h₂)) hs).bind
      fun p₃ b h₃ hb => .pure (.cases ht ha _ ?_)
    rintro _ ⟨⟩
    exact hb

theorem meanings_make : ∀ es : List Expr, Expr.nodesOfList es ⊆ ns →
    ∀ m ∈ meanings env es, m.Makes env ns
  | [], _ => nofun
  | e :: es, h => by
    obtain ⟨he, hes⟩ := List.append_subset.1 h
    exact List.forall_mem_cons.2 ⟨meaning_makes e he, meanings_make es hes⟩

theorem fieldMeanings_make : ∀ fields : List (String × Expr), Expr.nodesOfFields fields ⊆ ns →
    ∀ f ∈ fieldMeanings env fields, f.2.Makes env ns
  | [], _ => nofun
  | (_, e) :: fields, h => by
    obtain ⟨he, hfields⟩ := List.append_subset.1 h
    exact List.forall_mem_cons.2 ⟨meaning_makes e he, fieldMeanings_make fields hfields⟩

end

end Meanings

section Root

theorem Terminal.IsMade.atRoot {t : Terminal} (h : t.IsMade env ns place ctx) (e : Expr) :
    Made env ns place ctx (.statement (t.atRoot env e).1) := by
  cases t with
  | single select row nullable unique => exact h
  | exist select negated =>
    have htest := h.exist negated
    show Made env ns place ctx (.statement (existence env select negated e))
    rw [existence]
    split
    · exact .item htest e
    · refine .item (.cases htest (.literal _) _ ?_) e
      rintro _ ⟨⟩
      exact .literal _
  | scalar select nullable => exact h
  | isIn value select => exact .item ((h.1.isIn h.2 false).coalesce (.literal _)) e

theorem atRoot_makes (e : Expr) : Builds ⟨0, false⟩ (atRoot env e) fun _ found =>
    Made env e.nodes .outermost [] (.statement found.1) := by
  have hplace : Place.outermost.Given ⟨0, false⟩ := nofun
  have hs : Scope.In [] [] := nofun
  have sequence : Builds ⟨0, false⟩ (sequenceAtRoot env e) fun _ found =>
      Made env e.nodes .outermost [] (.statement found.1) := by
    have hm := meaning_makes env e (List.Subset.refl _)
    refine (hm.asSequence false hplace hs).bind fun p rows _ hrows => ?_
    refine Builds.check fun s hproject => .pure ?_
    obtain ⟨ls, hls, rfl⟩ := Rows.project_ok.1 hproject
    exact .ofLeaves hrows.made (Binding.leaves_of_columns hls).1
  cases e with
  | call i op args =>
    rw [atRoot]
    split
    · have ha := meanings_make env args (List.subset_cons_self (.call i op args) _)
      exact (terminal_makes _ List.mem_cons_self ha hplace hs).bind fun p t _ ht =>
        .pure (ht.atRoot _)
    · exact sequence
  | _ => exact sequence

end Root

theorem Reached.metIn {std : Standard} {R : Place → Place → Prop} (h : std.IsUpheld env ns R)
    (hR : ∀ place, R place place) (hspares : ¬ std.Spares) (hreached : Reached env ns place ctx) :
    std.MetIn env ns R place ctx place := by
  induction hreached with
  | outermost => exact ⟨hR _, .outermost, nofun⟩
  | inside _ hrows ih => exact ih.inside h hrows (hrows.meets h ih)
  | joined _ houter hungrouped hinner hlabels hinnerGroups hinnerRow ih =>
    exact ih.joined h houter hinner hungrouped hlabels hinnerGroups hinnerRow (houter.meets h ih)
      (hinner.meets h ih)
  | element hreached hgroup ih =>
    exact ⟨hR _, .element hreached hgroup,
      List.forall_mem_cons.2 ⟨Binding.Meets.element (hgroup.meets h ih) hspares, ih.bindings⟩⟩
  | fewer hreached hfewer ih =>
    exact ⟨hR _, .fewer hreached hfewer, fun b hb => ih.bindings b (hfewer hb)⟩

namespace Standard

def made (env : Surroundings) (ns : List Expr) : Standard where
  column place l := l ∈ place.tables
  exempt _ := False
  statement place s := ∃ there ctx, there ≤ place ∧ Reached env ns there ctx ∧
    Made env ns there ctx (.statement s)

theorem isUpheld_made : (made env ns).IsUpheld env ns (· ≤ ·) where
  monotone := ⟨fun hab hl => hab.1 hl,
    fun hab ⟨there, ctx, hle, h⟩ => ⟨there, ctx, le_trans hle hab, h⟩⟩
  enter hab _ _ := Place.enter_mono hab (List.Subset.refl _) id
  column := id
  statement hab hreached hmade := ⟨_, _, hab, hreached, hmade⟩

theorem isUpheld_seen : seen.IsUpheld env ns fun _ _ => True where
  monotone := isMonotone_seen
  enter _ _ _ := trivial
  column := id
  statement _ _ _ := trivial

end Standard

theorem Reached.seen (h : Reached env ns place ctx) : ∀ b ∈ ctx, b.Meets .seen place :=
  (h.metIn Standard.isUpheld_seen (fun _ => trivial) fun hspares => hspares "" [] false).bindings

/-- The statement of a form is made from nothing. -/
theorem Form.made_ofExpr {catalog : Catalog} {dialect : Dialect} {e : Expr} {f : Form}
    (h : Form.ofExpr catalog dialect e = .ok f) :
    Made (.ofExpr catalog dialect e) e.nodes .outermost [] (.statement f.select) := by
  obtain ⟨progress, hrun, -⟩ := Form.ofExpr_ok h
  exact (atRoot_makes e _ _ hrun).2

namespace Form

def residents : Catalog :=
  ⟨[⟨"Person", "people", none, [⟨"Name", "name", .text, false, false⟩,
    ⟨"City", "city", .text, false, false⟩, ⟨"Age", "age", .int, false, false⟩]⟩]⟩

/-- What holds of all statements that are made holds of every statement in a form. -/
theorem meets_each {catalog : Catalog} {dialect : Dialect} {e : Expr} {f : Form}
    {P : Place → Select → Prop} (h : ofExpr catalog dialect e = .ok f)
    (hP : ∀ {there place ctx s}, there ≤ place →
      Reached (.ofExpr catalog dialect e) e.nodes there ctx →
        Made (.ofExpr catalog dialect e) e.nodes there ctx (.statement s) → P place s) :
    f.select.Meets (.each P) .outermost := by
  have hmade : f.select.Meets (.made (.ofExpr catalog dialect e) e.nodes) .outermost :=
    (made_ofExpr h).meets Standard.isUpheld_made ⟨le_rfl, .outermost, nofun⟩
  refine hmade.weaken (fun _ => trivial) False.elim ?_
  rintro _ s ⟨_, _, hle, hreached, hmade⟩
  exact hP hle hreached hmade

end Form

end SequenceQuery
