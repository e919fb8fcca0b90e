import SequenceQuery.Proofs.AggregatePlaces
import SequenceQuery.Proofs.Composition
import SequenceQuery.Proofs.KnownRows
import SequenceQuery.Proofs.Wrapping

namespace SequenceQuery

/-- Where a query is run: its catalog and its values are those of the world, and its groupings have
keys. -/
structure World.Runs (w : World) (env : Surroundings) (ns : List Expr) : Prop where
  catalog : env.catalog = w.catalog
  supplied : ∀ n ∈ ns, env.Supplies w.arguments n
  keys : KeysGroup env ns

/-- Of a meaning come values and bindings that are sound where what is bound is, and outside of
lambdas rows that are. -/
structure Meaning.Sound (w : World) (m : Meaning) : Prop where
  asSequence : ∀ {start scope} (inRun : Bool),
    Builds start (m.asSequence inRun scope) fun p rows => scope = [] → rows.Sound w start p
  asBinding : ∀ {start scope},
    Builds start (m.asBinding scope) fun _ b => b.SoundIn w (scope.map Prod.snd)
  apply : ∀ {start scope elements},
    Builds start (m.apply scope elements) fun _ b => b.SoundIn w (elements ++ scope.map Prod.snd)

variable {w : World} {env : Surroundings} {ns : List Expr} {p q start : Progress} {scope : Scope}
  {args : List Meaning} {m : Meaning} {rows : Rows} {b : Binding} {known : Prop}

theorem Binding.SoundIn.closed {elements : List Binding}
    (h : b.SoundIn w (elements ++ scope.map Prod.snd)) (hscope : scope = []) :
    b.SoundIn w elements := by
  rwa [hscope, List.map_nil, List.append_nil] at h

namespace Meaning

theorem Sound.asScalar (hm : m.Sound w) :
    Builds p (m.asScalar scope) fun _ s => s.SoundIn w (scope.map Prod.snd) :=
  hm.asBinding.bind fun _ _ _ hb => .lift fun _ hscalar => hb.asScalar hscalar

theorem Sound.applyScalar (hm : m.Sound w) :
    Builds p (m.applyScalar scope b) fun _ s => s.SoundIn w (b :: scope.map Prod.snd) :=
  hm.apply.bind fun _ _ _ hb => .lift fun _ hscalar => hb.asScalar hscalar

end Meaning

section Sequences

variable (node : Expr)

theorem Rows.Sound.withOrigin (h : rows.Sound w start p) :
    (rows.withOrigin node).Sound w start p :=
  h.congr rfl rfl rfl h.ungrouped

theorem restrict_sound (hstart : start ≤ p) (h : known → rows.Sound w start p) (hm : m.Sound w)
    (negate : Bool) :
    Builds p (restrict rows m negate node scope) fun q rows' => known → rows'.Sound w start q := by
  rw [restrict]
  split
  case isTrue hgroup =>
    split
    · exact .refused _ _
    refine hm.applyScalar.bind fun q s hpq _ => .pure fun hknown => ?_
    exact ((h hknown).mono hpq).havingBy hgroup _
  case isFalse =>
    refine (Rows.wrapIf_sound hstart h _ node).bind fun q rows' hpq hrows => ?_
    exact hm.applyScalar.bind fun r s hqr _ => .pure fun hknown =>
      ((hrows hknown).mono hqr).filterBy _

theorem joinRows_sound (kind : JoinKind) (ha : ∀ m ∈ args, m.Sound w) :
    Builds start (joinRows kind node args scope) fun p rows =>
      scope = [] → rows.Sound w start p := by
  refine Builds.check fun m hm => ?_
  refine ((ha _ (mem_of_argument hm)).asSequence false).bind fun p₁ outer h₁ houter => ?_
  refine (Rows.wrapIf_sound h₁ houter _ node).bind fun p₂ outer h₂ houter => ?_
  refine Builds.check fun m hm => ?_
  refine ((ha _ (mem_of_argument hm)).asSequence false).bind fun p₃ inner h₃ hinner => ?_
  refine ((Rows.wrapIf_sound h₃ hinner _ node).and (inner.builds_wrapUnlessBare node)).bind
    fun p₄ inner h₄ hinner => ?_
  obtain ⟨hinner, hsingle, hungrouped⟩ := hinner
  cases hsource : inner.select.source with
  | none => exact .unsupported _ _
  | some table =>
    refine Builds.check fun m hm => ?_
    refine (ha _ (mem_of_argument hm)).apply.bind fun p₅ outerKey h₅ _ => ?_
    refine Builds.check fun m hm => ?_
    refine (ha _ (mem_of_argument hm)).apply.bind fun p₆ innerKey h₆ _ => ?_
    refine Builds.check fun outerKeys _ => Builds.check fun innerKeys _ => ?_
    dsimp only
    split
    · exact .refused _ _
    refine Builds.check fun m hm => ?_
    refine (ha _ (mem_of_argument hm)).apply.bind fun p₇ row h₇ hrow => .pure fun hscope => ?_
    have hj : Rows.Sound.Joins inner ⟨kind, table, matching outerKeys innerKeys⟩ :=
      ⟨hsource, hsingle, hungrouped⟩
    refine ((houter hscope).joined (hinner hscope) (h₁.trans h₂) (h₃.trans h₄) hj ?_).mono
      ((h₅.trans h₆).trans h₇)
    cases kind <;> exact hrow.closed hscope

theorem orderRows_sound (restart ascending : Bool) (ha : ∀ m ∈ args, m.Sound w) :
    Builds start (orderRows restart ascending node args scope) fun p rows =>
      scope = [] → rows.Sound w start p := by
  refine Builds.check fun m hm => ?_
  refine ((ha _ (mem_of_argument hm)).asSequence false).bind fun p₁ rows h₁ hrows => ?_
  refine (Rows.wrapIf_sound h₁ hrows _ node).bind fun p₂ rows h₂ hrows => ?_
  refine Builds.check fun m hm => ?_
  refine (ha _ (mem_of_argument hm)).apply.bind fun p₃ key h₃ _ => ?_
  refine Builds.check fun keys _ => .pure fun hscope => ?_
  have hrows := (hrows hscope).mono h₃
  exact hrows.congr rfl rfl rfl hrows.ungrouped

theorem callRows_sound (op : Operator) (ha : ∀ m ∈ args, m.Sound w) :
    Builds start (callRows env node op args scope) fun p rows => scope = [] →
      (op = .groupBy → rows.select.hasGroups = true) → rows.Sound w start p := by
  refine Builds.check fun source hsource => ?_
  have hsource := ha _ (mem_of_argument hsource)
  cases op with
  | filter =>
    refine (hsource.asSequence false).bind fun p₁ rows h₁ hrows => ?_
    refine Builds.check fun m hm => ?_
    exact (restrict_sound node h₁ hrows (ha _ (mem_of_argument hm)) false).imp
      fun _ _ _ h hscope _ => h hscope
  | project =>
    refine (hsource.asSequence false).bind fun p₁ rows h₁ hrows => ?_
    refine (Rows.wrapIf_sound h₁ hrows _ node).bind fun p₂ rows h₂ hrows => ?_
    refine Builds.check fun m hm => ?_
    exact (ha _ (mem_of_argument hm)).apply.bind fun p₃ row h₃ hrow => .pure fun hscope _ =>
      ((hrows hscope).mono h₃).withRow (hrow.closed hscope)
  | orderBy | orderByDescending | thenBy | thenByDescending =>
    exact (orderRows_sound node _ _ ha).imp fun _ _ _ h hscope _ => h hscope
  | skip | take =>
    refine Builds.check fun _ _ => ?_
    refine (hsource.asSequence false).bind fun p₁ rows h₁ hrows => ?_
    refine Builds.check fun m hm => ?_
    refine (ha _ (mem_of_argument hm)).asScalar.bind fun p₂ count h₂ _ => ?_
    refine (Rows.wrapIf_sound (h₁.trans h₂) (fun hscope => (hrows hscope).mono h₂) _ node).bind
      fun p₃ rows h₃ hrows => .pure fun hscope _ => ?_
    exact (hrows hscope).congr rfl rfl rfl (hrows hscope).ungrouped
  | segment =>
    refine Builds.check fun _ _ => ?_
    refine (hsource.asSequence false).bind fun p₁ rows h₁ hrows => ?_
    refine Builds.check fun m hm => ?_
    cases env.slot? m.node.id with
    | none => exact .unsupported _ _
    | some k =>
      refine (Rows.wrapIf_sound h₁ hrows _ node).bind fun p₂ rows h₂ hrows =>
        .pure fun hscope _ => ?_
      exact (hrows hscope).congr rfl rfl rfl (hrows hscope).ungrouped
  | distinct =>
    refine (hsource.asSequence false).bind fun p₁ rows h₁ hrows => ?_
    refine (Rows.wrapIf_sound h₁ hrows _ node).bind fun p₂ rows h₂ hrows => ?_
    dsimp only
    split
    · exact .refused _ _
    · exact .pure fun hscope _ => (hrows hscope).congr rfl rfl rfl (hrows hscope).ungrouped
  | groupBy =>
    refine (hsource.asSequence false).bind fun p₁ rows h₁ hrows => ?_
    refine (Rows.wrapIf_sound h₁ hrows _ node).bind fun p₂ rows h₂ hrows => ?_
    refine Builds.check fun m hm => ?_
    refine (ha _ (mem_of_argument hm)).apply.bind fun p₃ key h₃ hkey => ?_
    refine Rows.builds_groups (E := fun _ element =>
      element.SoundIn w ([rows.row] ++ scope.map Prod.snd))
      (Binding.soundIn_of_mem List.mem_cons_self) (fun selector hselector => ?_)
      fun p₄ element keys h₄ helement _ hscope hgroups => ?_
    · exact (ha selector (List.mem_of_getElem? hselector)).apply
    · exact ((hrows hscope).mono (h₃.trans h₄)).groupedBy (hkey.closed hscope)
        (helement.closed hscope) (hgroups rfl)
  | join | leftJoin => exact (joinRows_sound node _ ha).imp fun _ _ _ h hscope _ => h hscope
  | _ => exact .throw _

theorem markerRows_sound (op : Operator) (ha : ∀ m ∈ args, m.Sound w) :
    Builds start (markerRows env node op args scope) fun p rows =>
      scope = [] → rows.Sound w start p := by
  refine Builds.check fun _ _ => ?_
  refine Builds.check fun m hm => ?_
  refine ((ha _ (mem_of_argument hm)).asSequence _).bind fun p₁ rows h₁ hrows => ?_
  refine (Rows.wrapIf_sound h₁ hrows _ node).bind fun p₂ rows h₂ hrows => ?_
  refine Builds.useSegment.bind fun p₃ _ h₃ _ => .pure fun hscope => ?_
  have hrows := (hrows hscope).mono h₃
  exact hrows.congr rfl rfl rfl hrows.ungrouped

theorem sequenceOfCall_sound (hruns : w.Runs env ns) {i : NodeId} {op : Operator} {es : List Expr}
    (hcall : Expr.call i op es ∈ ns) (ha : ∀ m ∈ meanings env es, m.Sound w) (inRun : Bool) :
    Builds start (sequenceOfCall env (.call i op es) op (meanings env es) inRun scope)
      fun p rows => scope = [] → rows.Sound w start p := by
  rw [sequenceOfCall]
  split
  · exact Builds.check fun m hm => (ha _ (mem_of_argument hm)).asSequence true
  · split
    · exact markerRows_sound _ op ha
    · refine (callRows_sound (.call i op es) op ha).traced.bind fun p rows _ hrows =>
        .pure fun hscope => ?_
      obtain ⟨hrows, hrun⟩ := hrows
      refine (hrows hscope ?_).withOrigin _
      rintro rfl
      have hnone : Scope.In scope [] := by
        rw [hscope]
        exact List.forall_mem_nil _
      exact hruns.keys .outermost [] rows .outermost ⟨i, es, scope, start, p, hcall, hnone, hrun⟩

end Sequences

section Terminals

variable {ctx : List Binding} (node : Expr)

def Terminal.SoundIn (w : World) (ctx : List Binding) : Terminal → Prop
  | .scalar s nullable => nullable = false → s.mayLackValue = false → (SqlExpr.subquery s).Always w
  | .isIn value _ => ∃ nullable, Scalar.SoundIn w ctx ⟨value, nullable⟩
  | .single .. | .exist .. => True

/-- An aggregate of all rows of a statement, of which there may be none. -/
structure Rows.Totals (w : World) (known : Prop) (ctx : List Binding) (start p : Progress)
    (rows : Rows) (value : Scalar) : Prop where
  sound : known → rows.Sound w start p
  isOpen : rows.select.IsOpen
  ungrouped : rows.select.hasGroups = false
  value : value.SoundIn w (rows.row :: ctx)

theorem forAggregate_sound (hstart : start ≤ p) (h : known → rows.Sound w start p) :
    Builds p (rows.forAggregate node) fun q rows' => (known → rows'.Sound w start q) ∧
      rows'.select.IsOpen ∧ rows'.select.hasGroups = false := by
  rw [Rows.forAggregate]
  split
  · exact .refused _ _
  refine ((Rows.wrapIf_sound hstart h _ node).and (rows.builds_wrapForRows node)).bind
    fun q rows' _ hrows => .pure ?_
  obtain ⟨hsound, hpaging, hdistinct, hgroups⟩ := hrows
  obtain ⟨hlimit, hoffset⟩ := Select.unpaged_of hpaging
  refine ⟨fun hknown => ?_, ⟨hdistinct, hlimit, hoffset⟩, hgroups⟩
  exact (hsound hknown).congr rfl rfl rfl (hsound hknown).ungrouped

theorem selected_sound (ha : ∀ m ∈ args, m.Sound w) (i : Nat) :
    Builds p (selected node args[i]? b scope) fun _ s => s.SoundIn w (b :: scope.map Prod.snd) := by
  cases hselector : args[i]? with
  | none =>
    exact .lift fun _ hscalar => (Binding.soundIn_of_mem List.mem_cons_self).asScalar hscalar
  | some selector => exact (ha selector (List.mem_of_getElem? hselector)).applyScalar

theorem terminal_totals {op : Operator} (hop : op ∈ [.sum, .min, .max, .average])
    (ha : ∀ m ∈ args, m.Sound w) :
    Builds start (terminal node op args scope) fun p t => ∃ (rows : Rows) (value : Scalar),
      t = .scalar (rows.selecting (aggregateOver op value).expr) (aggregateOver op value).nullable ∧
        rows.Totals w (scope = []) (scope.map Prod.snd) start p value := by
  refine Builds.check fun source hsource => ?_
  have hsource := ha _ (mem_of_argument hsource)
  cases op with
  | sum | min | max | average =>
    refine (hsource.asSequence false).bind fun p₁ rows h₁ hrows => ?_
    refine (forAggregate_sound node h₁ hrows).bind fun p₂ rows h₂ hrows => ?_
    obtain ⟨hsound, hopen, hgroups⟩ := hrows
    exact (selected_sound node ha 1).bind fun p₃ value h₃ hvalue => .pure ⟨rows, value, rfl,
      fun hscope => (hsound hscope).mono h₃, hopen, hgroups, hvalue⟩
  | _ => simp at hop

theorem always_selecting (hopen : rows.select.IsOpen) (hgroups : rows.select.hasGroups = false)
    {e : SqlExpr} (he : e.hasAggregate = true)
    (h : (SelectItem.expr e none).isExtreme = false → e.Always w)
    (hlack : (rows.selecting e).mayLackValue = false) :
    (SqlExpr.subquery (rows.selecting e)).Always w := by
  have hgroups' : (rows.selecting e).hasGroups = false := hgroups
  rw [Select.mayLackValue, hgroups', Bool.not_false, Bool.true_and, Bool.or_eq_false_iff,
    Option.isSome_eq_false_iff, Option.isNone_iff_eq_none] at hlack
  obtain ⟨hhaving, hextreme⟩ := hlack
  have hopen' : (rows.selecting e).IsOpen := ⟨hopen.distinct, hopen.limit, hopen.offset⟩
  intro group env
  simp only [World.cell, SqlExpr.cell]
  rw [Select.records_of_aggregate hopen' hgroups hhaving rfl he]
  refine h ?_ _ _
  rw [Rows.selecting, List.any_cons, List.any_nil, Bool.or_false] at hextreme
  exact hextreme

theorem hasAggregate_aggregateOver (op : Operator) (s : Scalar) :
    (aggregateOver op s).expr.hasAggregate = true := by
  cases op <;> rfl

theorem isExtreme_aggregateOver {op : Operator} (hop : op ≠ .sum) (s : Scalar)
    (name : Option String) : (SelectItem.expr (aggregateOver op s).expr name).isExtreme = true := by
  cases op with
  | sum => exact absurd rfl hop
  | _ => rfl

theorem Rows.Totals.always {value : Scalar} {op : Operator}
    (h : rows.Totals w known ctx start p value)
    (hlack : (rows.selecting (aggregateOver op value).expr).mayLackValue = false) :
    (SqlExpr.subquery (rows.selecting (aggregateOver op value).expr)).Always w := by
  refine always_selecting h.isOpen h.ungrouped (hasAggregate_aggregateOver op value) ?_ hlack
  by_cases hop : op = .sum
  · rw [hop]
    exact fun _ => SqlExpr.always_sum _
  · rw [isExtreme_aggregateOver hop]
    exact fun hextreme => (by cases hextreme)

theorem filtered_sound (hm : m.Sound w) (ha : ∀ m ∈ args, m.Sound w) (i : Nat) :
    Builds start (filtered node m args[i]? scope) fun p rows =>
      scope = [] → rows.Sound w start p := by
  refine (hm.asSequence false).bind fun p₁ rows h₁ hrows => ?_
  cases hpredicate : args[i]? with
  | none => exact .pure hrows
  | some predicate =>
    exact restrict_sound node h₁ hrows (ha predicate (List.mem_of_getElem? hpredicate)) false

theorem singleRow_sound (ha : ∀ m ∈ args, m.Sound w) (nullable unique : Bool) :
    Builds start (singleRow node args nullable unique scope) fun _ t => t.SoundIn w ctx := by
  refine Builds.check fun m hm => ?_
  refine (filtered_sound node (ha _ (mem_of_argument hm)) ha 1).bind fun p₁ rows h₁ hrows => ?_
  refine (Rows.wrapIf_sound h₁ hrows _ node).bind fun p₂ rows _ _ => ?_
  exact Builds.check fun s _ => .pure trivial

theorem terminal_sound (op : Operator) (ha : ∀ m ∈ args, m.Sound w) :
    Builds start (terminal node op args scope) fun _ t => t.SoundIn w (scope.map Prod.snd) := by
  cases op with
  | sum | min | max | average =>
    refine (terminal_totals node (by simp) ha).imp fun p t _ ht => ?_
    obtain ⟨rows, value, rfl, htotals⟩ := ht
    exact fun _ hlack => htotals.always hlack
  | first | firstOrDefault | single | singleOrDefault =>
    exact Builds.check fun _ _ => singleRow_sound node ha _ _
  | count | longCount =>
    refine Builds.check fun source hsource => ?_
    refine (filtered_sound node (ha _ (mem_of_argument hsource)) ha 1).bind fun p₁ rows h₁ hrows => ?_
    refine (forAggregate_sound node h₁ hrows).bind fun p₂ rows _ hrows => .pure fun _ => ?_
    exact always_selecting hrows.2.1 hrows.2.2 rfl fun _ => SqlExpr.always_count _ _
  | any =>
    refine Builds.check fun source hsource => ?_
    exact (filtered_sound node (ha _ (mem_of_argument hsource)) ha 1).bind fun _ _ _ _ => .pure trivial
  | all =>
    refine Builds.check fun source hsource => ?_
    refine ((ha _ (mem_of_argument hsource)).asSequence false).bind fun p₁ rows h₁ hrows => ?_
    refine Builds.check fun m hm => ?_
    exact (restrict_sound node h₁ hrows (ha _ (mem_of_argument hm)) true).bind
      fun _ _ _ _ => .pure trivial
  | contains =>
    refine Builds.check fun source hsource => ?_
    refine ((ha _ (mem_of_argument hsource)).asSequence false).bind fun p₁ rows h₁ hrows => ?_
    cases rows.row with
    | scalar element =>
      refine Builds.check fun m hm => ?_
      exact (ha _ (mem_of_argument hm)).asScalar.bind fun _ value _ hvalue => .pure ⟨_, hvalue⟩
    | _ => exact .unsupported _ _
  | _ => exact Builds.check fun _ _ => .throw _

end Terminals

section Values

variable (node : Expr)

theorem aggregateIn_sound (op : Operator) (ha : ∀ m ∈ args, m.Sound w)
    (hb : b.SoundIn w (scope.map Prod.snd)) :
    Builds p (aggregateIn node op args scope b) fun _ found =>
      ∀ s ∈ found, s.SoundIn w (scope.map Prod.snd) := by
  refine builds_aggregateIn (Q := fun _ s => s.SoundIn w (scope.map Prod.snd)) ?_ ?_ ?_
  · rintro key element rfl
    exact Scalar.soundIn_count hb _
  · rintro key element predicate rfl - hpredicate
    have hpredicate := ha predicate (List.mem_of_getElem? hpredicate)
    exact hpredicate.applyScalar.imp fun _ _ _ _ => Scalar.soundIn_count hb _
  · rintro key element rfl -
    exact (selected_sound node ha 0).imp fun _ _ _ hvalue =>
      (hvalue.cut hb.element).aggregateOver _ hb

theorem scalarOfCall_sound (op : Operator) (ha : ∀ m ∈ args, m.Sound w) :
    Builds p (scalarOfCall node op args scope) fun _ s => s.SoundIn w (scope.map Prod.snd) := by
  refine builds_call (builds_aggregateOfGroup ?_) (fun _ _ => terminal_sound node op ha)
    (fun _ => Scalar.soundIn_subquery fun hflag => (by cases hflag))
    (fun _ => Scalar.soundIn_of_always (SqlExpr.always_exist _ _) rfl _)
    (fun ht => Scalar.soundIn_subquery ht) ?_
  · rintro source rest rfl -
    obtain ⟨hsource, hrest⟩ := List.forall_mem_cons.1 ha
    exact hsource.asBinding.bind fun q b _ hb => aggregateIn_sound node op hrest hb
  · rintro q value select ⟨nullable, hvalue⟩
    exact hvalue.isIn select false

theorem sqlBinary?_ne {op : BinaryOp} {sqlOp : SqlBinary} (h : sqlBinary? op = some sqlOp) :
    sqlOp ≠ .like := by
  cases op <;> cases h <;> decide

theorem scalarOfBinary_sound (op : BinaryOp) {left right : Meaning} (hl : left.Sound w)
    (hr : right.Sound w) :
    Builds p (scalarOfBinary op left right scope) fun _ s => s.SoundIn w (scope.map Prod.snd) :=
  builds_binary (V := fun _ s => s.SoundIn w (scope.map Prod.snd)) monotone_const
    (fun _ => hl.asScalar) (fun _ => hr.asScalar) (fun negated h => h.isNull negated)
    (fun hop hleft hright => hleft.binary (sqlBinary?_ne hop) hright)
    fun hleft hright => hleft.coalesce hright

theorem scalarOfFunction_sound (name : String) (ha : ∀ m ∈ args, m.Sound w) :
    Builds p (scalarOfFunction env node name args scope) fun _ s =>
      s.SoundIn w (scope.map Prod.snd) :=
  builds_function (V := fun _ s => s.SoundIn w (scope.map Prod.snd)) monotone_const
    (fun m hm _ _ => (ha m hm).asScalar) (fun htext hneedle => htext.like _ hneedle)
    fun _ hss => Scalar.soundIn_function _ hss

end Values

namespace Meaning

variable (node : Expr)

theorem sound_ofScalar {scalar : Scope → Build Scalar}
    (h : ∀ {p scope}, Builds p (scalar scope) fun _ s => s.SoundIn w (scope.map Prod.snd)) :
    (ofScalar node scalar).Sound w where
  asSequence _ := .unsupported _ _
  asBinding := h.bind fun _ _ _ hscalar => .pure fun g hg hctx => .scalar (hscalar g hg hctx)
  apply := .unsupported _ _

theorem sound_ofBinding (reason : Unsupported) {binding : Scope → Build Binding}
    (h : ∀ {p scope}, Builds p (binding scope) fun _ b => b.SoundIn w (scope.map Prod.snd)) :
    (ofBinding node reason binding).Sound w where
  asSequence _ := .unsupported _ _
  asBinding := h
  apply := .unsupported _ _

theorem sound_ofLambda (params : List String) {body : Meaning} (hbody : body.Sound w) :
    (ofLambda node params body).Sound w where
  asSequence _ := .unsupported _ _
  asBinding := .unsupported _ _
  apply {start scope elements} := by
    refine builds_lambda fun inner hinner => ?_
    refine hbody.asBinding.imp fun _ b _ hb => hb.mono fun b' hb' => ?_
    obtain ⟨entry, hentry, rfl⟩ := List.mem_map.1 hb'
    exact List.mem_append.2 ((hinner entry hentry).imp_right List.mem_map_of_mem)

/-- The columns of an entity hold what the catalog says. -/
theorem sound_ofEntity (hcatalog : env.catalog = w.catalog) (name : String) :
    (ofEntity env node name).Sound w where
  asSequence {start scope} inRun := by
    rw [ofEntity]
    dsimp only
    cases hentity : env.catalog.entity? name with
    | none => exact .throw _
    | some entity =>
      refine Builds.freshLabel.bind fun p label _ hlabel => .pure fun _ => ?_
      obtain ⟨rfl, hp⟩ := hlabel
      have hmem : entity ∈ w.catalog.entities := hcatalog ▸ Catalog.entity?_mem hentity
      refine (Rows.sound_ofTable ⟨_, le_rfl, by omega, rfl⟩ ?_ (.record ?_)).withOrigin node
      · exact fun r hr c hc => Rows.holdsOf_table hr hc
      · intro property hproperty
        refine ⟨fun hflag => ?_, fun _ => rfl⟩
        have hpresent : property.nullable = false := ((Bool.or_eq_false_iff ..).mp hflag).1
        refine (Rows.knownOn_column fun r hr => ?_).sure
        exact w.holds.present entity hmem r hr property hproperty hpresent
  asBinding := .unsupported _ _
  apply := .unsupported _ _

theorem sound_ofCall (hruns : w.Runs env ns) {i : NodeId} {op : Operator} {es : List Expr}
    (hcall : Expr.call i op es ∈ ns) (ha : ∀ m ∈ meanings env es, m.Sound w) :
    (ofCall env (.call i op es) op (meanings env es)).Sound w where
  asSequence inRun := sequenceOfCall_sound hruns hcall ha inRun
  asBinding := (scalarOfCall_sound _ op ha).bind fun _ _ _ h =>
    .pure fun g hg hctx => .scalar (h g hg hctx)
  apply := .unsupported _ _

theorem sound_ofConstant {i : NodeId} {value : Value}
    (hsupplied : env.Supplies w.arguments (.const i value)) :
    (ofConstant env (.const i value) value).Sound w := by
  refine sound_ofScalar _ ?_
  intro p scope
  split
  · exact .pure fun g _ _ => ⟨fun hflag => (by cases hflag), fun _ => rfl⟩
  case isFalse hnull =>
    rw [Bool.not_eq_true] at hnull
    cases hslot : env.slot? (Expr.const i value).id with
    | none => exact .unsupported _ _
    | some slot =>
      exact .pure (Scalar.soundIn_of_always
        (SqlExpr.always_slot (hsupplied slot hslot 0 value rfl) hnull) rfl _)

end Meaning

section Meanings

open Meaning

variable (env)

theorem soundIn_lookUp {name : String} {node : Expr} (h : lookUp scope name node = .ok b) :
    b.SoundIn w (scope.map Prod.snd) :=
  Binding.soundIn_of_mem (List.mem_map_of_mem (mem_of_lookUp h))

mutual

theorem meaning_sound (hruns : w.Runs env ns) : ∀ e : Expr, e.nodes ⊆ ns → (e.meaning env).Sound w
  | .entity _ name, _ => sound_ofEntity _ hruns.catalog name
  | .call _ _ args, h => by
    obtain ⟨hcall, hargs⟩ := List.cons_subset.1 h
    exact sound_ofCall hruns hcall (meanings_sound hruns args hargs)
  | .lambda _ params body, h =>
    sound_ofLambda _ params (meaning_sound hruns body (List.cons_subset.1 h).2)
  | .param .., _ => sound_ofBinding _ _ (.lift fun _ hb => soundIn_lookUp hb)
  | .member _ target name, h => by
    have ht := meaning_sound hruns target (List.cons_subset.1 h).2
    exact sound_ofBinding _ _ (ht.asBinding.bind fun _ _ _ hb =>
      .lift fun _ hmember => hb.member hmember)
  | .const _ _, h => sound_ofConstant (hruns.supplied _ (List.cons_subset.1 h).1)
  | .segment .., _ => sound_ofBinding _ _ (.unsupported _ _)
  | .binary _ op left right, h => by
    obtain ⟨hleft, hright⟩ := List.append_subset.1 (List.cons_subset.1 h).2
    exact sound_ofScalar _ (scalarOfBinary_sound op (meaning_sound hruns left hleft)
      (meaning_sound hruns right hright))
  | .unary _ _ operand, h => by
    have ho := meaning_sound hruns operand (List.cons_subset.1 h).2
    exact sound_ofScalar _ (ho.asScalar.bind fun _ _ _ hscalar => .pure (hscalar.unary _))
  | .function _ name args, h => by
    have ha := meanings_sound hruns args (List.cons_subset.1 h).2
    exact sound_ofScalar _ (scalarOfFunction_sound _ name ha)
  | .object _ fields, h => by
    have hf := fieldMeanings_sound hruns fields (List.cons_subset.1 h).2
    refine sound_ofBinding _ _ ((builds_fields (V := fun _ b => b.SoundIn w _) monotone_const
      fun f hmem _ _ => (hf f hmem).asBinding).bind fun _ _ _ hfields => .pure ?_)
    exact fun g hg hctx => .object fun f hmem => hfields.2 f hmem g hg hctx
  | .conditional _ test ifTrue ifFalse, h => by
    obtain ⟨htest, hbranches⟩ := List.append_subset.1 (List.cons_subset.1 h).2
    obtain ⟨htrue, hfalse⟩ := List.append_subset.1 hbranches
    refine sound_ofScalar _ ?_
    refine (meaning_sound hruns test htest).asScalar.bind fun p₁ t _ ht => ?_
    refine (meaning_sound hruns ifTrue htrue).asScalar.bind fun p₂ x _ hx => ?_
    exact (meaning_sound hruns ifFalse hfalse).asScalar.bind fun p₃ y _ hy => .pure (ht.cases hx hy)

theorem meanings_sound (hruns : w.Runs env ns) :
    ∀ es : List Expr, Expr.nodesOfList es ⊆ ns → ∀ m ∈ meanings env es, m.Sound w
  | [], _ => List.forall_mem_nil _
  | e :: es, h => by
    obtain ⟨he, hes⟩ := List.append_subset.1 h
    exact List.forall_mem_cons.2 ⟨meaning_sound hruns e he, meanings_sound hruns es hes⟩

theorem fieldMeanings_sound (hruns : w.Runs env ns) :
    ∀ fields : List (String × Expr), Expr.nodesOfFields fields ⊆ ns →
      ∀ f ∈ fieldMeanings env fields, f.2.Sound w
  | [], _ => List.forall_mem_nil _
  | (_, e) :: fields, h => by
    obtain ⟨he, hfields⟩ := List.append_subset.1 h
    exact List.forall_mem_cons.2
      ⟨meaning_sound hruns e he, fieldMeanings_sound hruns fields hfields⟩

end

end Meanings

end SequenceQuery
