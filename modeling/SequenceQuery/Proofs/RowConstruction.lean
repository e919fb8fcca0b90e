import SequenceQuery.Form.Basic
import SequenceQuery.Proofs.Fitted
import SequenceQuery.Proofs.Construction
import SequenceQuery.Proofs.Restrictions
import SequenceQuery.Proofs.Simulation
import SequenceQuery.Proofs.Wrapping

namespace SequenceQuery

def Place.Given (place : Place) (p : Progress) : Prop :=
  ∀ l ∈ place.tables, ∃ k, k < p.nextLabel ∧ l = labelAt k

structure Rows.IsMade (env : Surroundings) (ns : List Expr) (place : Place) (ctx : List Binding)
    (p : Progress) (rows : Rows) : Prop where
  made : Made env ns place ctx (.rows rows)
  labels : ∀ l ∈ rows.select.labels, ∃ k, k < p.nextLabel ∧ l = labelAt k

/-- With what its scope binds at hand, all that a meaning builds is made. -/
structure Meaning.Makes (env : Surroundings) (ns : List Expr) (m : Meaning) : Prop where
  asSequence : ∀ {place ctx start scope} (inRun : Bool), place.Given start → Scope.In scope ctx →
    Builds start (m.asSequence inRun scope) fun p rows => rows.IsMade env ns place ctx p
  asBinding : ∀ {place ctx start scope}, place.Given start → Scope.In scope ctx →
    Builds start (m.asBinding scope) fun _ b => Made env ns place ctx (.binding b)
  apply : ∀ {place ctx start scope elements}, place.Given start → Scope.In scope ctx →
    elements ⊆ ctx →
      Builds start (m.apply scope elements) fun _ b => Made env ns place ctx (.binding b)

variable {env : Surroundings} {ns : List Expr} {place : Place} {ctx more : List Binding}
  {p q start : Progress} {scope : Scope} {args : List Meaning} {m : Meaning} {rows : Rows}
  {b : Binding}

namespace Place

theorem Given.mono (h : place.Given p) (hpq : p ≤ q) : place.Given q := by
  intro l hl
  obtain ⟨k, hk, hlabel⟩ := h l hl
  exact ⟨k, Nat.lt_of_lt_of_le hk hpq.1, hlabel⟩

theorem Given.fresh (h : place.Given p) : labelAt p.nextLabel ∉ place.tables := by
  intro hmem
  obtain ⟨k, hk, hlabel⟩ := h _ hmem
  have := labelAt_inj hlabel
  omega

theorem Given.enter (h : place.Given p) {labels : List String}
    (hlabels : ∀ l ∈ labels, ∃ k, k < p.nextLabel ∧ l = labelAt k) (grouped : Bool) :
    (place.enter labels grouped).Given p :=
  List.forall_mem_append.2 ⟨hlabels, h⟩

end Place

theorem Scope.In.mono (h : Scope.In scope ctx) (hmore : ctx ⊆ more) : Scope.In scope more :=
  fun entry he => hmore (h entry he)

namespace Rows

theorem IsMade.mono (h : rows.IsMade env ns place ctx p) (hpq : p ≤ q) :
    rows.IsMade env ns place ctx q where
  made := h.made
  labels l hl := by
    obtain ⟨k, hk, hlabel⟩ := h.labels l hl
    exact ⟨k, Nat.lt_of_lt_of_le hk hpq.1, hlabel⟩

theorem IsMade.inside (h : rows.IsMade env ns place ctx p) (hplace : place.Given p) :
    (place.inside rows.select).Given p :=
  hplace.enter h.labels _

theorem IsMade.wrapIf (h : rows.IsMade env ns place ctx p) (hplace : place.Given p)
    (condition : Bool) (node : Expr) :
    Builds p (rows.wrapIf condition node) fun q rows' => rows'.IsMade env ns place ctx q := by
  cases condition with
  | false => exact .pure h
  | true =>
    refine Builds.check fun s hs => ?_
    obtain ⟨ls, hls, rfl⟩ := project_ok.1 hs
    refine Builds.freshLabel.bind fun q label hpq hlabel => .pure ?_
    obtain ⟨rfl, hq⟩ := hlabel
    refine ⟨.wrap h.made (Binding.leaves_of_columns hls).1 hplace.fresh _, ?_⟩
    exact List.forall_mem_singleton.2 ⟨_, by omega, rfl⟩

theorem IsMade.wrapUnless (h : rows.IsMade env ns place ctx p) (hplace : place.Given p)
    {Q : Select → Prop} {condition : Bool} (node : Expr)
    (hstays : condition = false → Q rows.select)
    (hwrapped : ∀ table origin, Q { Select.ofTable table with origin := origin }) :
    Builds p (rows.wrapIf condition node) fun q rows' =>
      rows'.IsMade env ns place ctx q ∧ Q rows'.select :=
  (h.wrapIf hplace _ node).and (builds_wrapIf node hstays hwrapped)

end Rows

namespace Made

theorem ofScalar {s : Scalar} {node : Expr} (h : Made env ns place ctx (.binding b))
    (hs : b.asScalar node = .ok s) : Made env ns place ctx (.value s.expr) := by
  obtain rfl := Binding.asScalar_ok hs
  have hls : (Binding.scalar s).leaves? "" = some [⟨Binding.leafName "" s.expr, s⟩] := rfl
  exact .leaf h hls List.mem_cons_self

theorem member {found : Binding} {name : String} {node : Expr}
    (h : Made env ns place ctx (.binding b)) (hm : b.member name node = .ok found) :
    Made env ns place ctx (.binding found) := by
  cases Binding.member_ok hm with
  | @column label entity columnPrefix optional _ hp =>
    have hls : (Binding.record label entity columnPrefix optional).leaves? "" = _ := rfl
    exact .scalar (.leaf h hls (List.mem_map_of_mem (Text.findNamed?_mem hp)))
  | field hf => exact .field h (Text.findNamed?_mem hf)
  | key _ => exact .key h

theorem literal (value : Value) : Made env ns place ctx (.value (.literal value)) :=
  .compose rfl nofun nofun

theorem param (source : Source) : Made env ns place ctx (.value (.param source)) :=
  .compose rfl nofun nofun

theorem unary (op : SqlUnary) {e : SqlExpr} (h : Made env ns place ctx (.value e)) :
    Made env ns place ctx (.value (.unary op e)) :=
  .compose rfl (List.forall_mem_singleton.2 h) nofun

theorem negateIf {e : SqlExpr} (negate : Bool) (h : Made env ns place ctx (.value e)) :
    Made env ns place ctx (.value (negateIf negate e)) := by
  cases negate with
  | false => exact h
  | true => exact h.unary .not

theorem binary (op : SqlBinary) {l r : SqlExpr} (hl : Made env ns place ctx (.value l))
    (hr : Made env ns place ctx (.value r)) : Made env ns place ctx (.value (.binary op l r)) :=
  .compose rfl (List.forall_mem_cons.2 ⟨hl, List.forall_mem_singleton.2 hr⟩) nofun

theorem function {name : String} {args : List SqlExpr}
    (h : ∀ arg ∈ args, Made env ns place ctx (.value arg)) :
    Made env ns place ctx (.value (.function name args)) :=
  .compose rfl h nofun

end Made

theorem Binding.scalars_ok {ss : List Scalar} {node : Expr} (h : b.scalars node = .ok ss) :
    ∃ ls, b.leaves? "" = some ls ∧ ss = ls.map Leaf.scalar := by
  rw [scalars, leaves] at h
  cases hls : b.leaves? "" with
  | none => rw [hls] at h; cases h
  | some ls =>
    rw [hls] at h
    cases h
    exact ⟨ls, rfl, rfl⟩

theorem Made.ofScalars {ss : List Scalar} {node : Expr} (h : Made env ns place ctx (.binding b))
    (hs : b.scalars node = .ok ss) : ∀ s ∈ ss, Made env ns place ctx (.value s.expr) := by
  obtain ⟨ls, hls, rfl⟩ := Binding.scalars_ok hs
  exact List.forall_mem_map.2 fun l hl => .leaf h hls hl

namespace Meaning

theorem Makes.asScalar (hm : m.Makes env ns) (hplace : place.Given p) (hs : scope.In ctx) :
    Builds p (m.asScalar scope) fun _ s => Made env ns place ctx (.value s.expr) :=
  (hm.asBinding hplace hs).bind fun _ _ _ hb => .lift fun _ hscalar => hb.ofScalar hscalar

theorem Makes.applyScalar (hm : m.Makes env ns) (hplace : place.Given p) (hs : scope.In ctx)
    (hb : b ∈ ctx) :
    Builds p (m.applyScalar scope b) fun _ s => Made env ns place ctx (.value s.expr) :=
  (hm.apply hplace hs (List.cons_subset.2 ⟨hb, List.nil_subset _⟩)).bind
    fun _ _ _ hb => .lift fun _ hscalar => hb.ofScalar hscalar

end Meaning

section Functions

variable (node : Expr)

theorem Rows.IsMade.lambda (h : rows.IsMade env ns place ctx p) (hplace : place.Given p)
    (hm : m.Makes env ns) (hs : scope.In ctx) :
    Builds p (m.apply scope [rows.row]) fun _ b =>
      Made env ns (place.inside rows.select) (rows.row :: ctx) (.binding b) :=
  hm.apply (h.inside hplace) (hs.mono (List.subset_cons_self _ _))
    (List.cons_subset.2 ⟨List.mem_cons_self, List.nil_subset _⟩)

theorem Rows.IsMade.scalarLambda (h : rows.IsMade env ns place ctx p) (hplace : place.Given p)
    (hm : m.Makes env ns) (hs : scope.In ctx) :
    Builds p (m.applyScalar scope rows.row) fun _ s =>
      Made env ns (place.inside rows.select) (rows.row :: ctx) (.value s.expr) :=
  hm.applyScalar (h.inside hplace) (hs.mono (List.subset_cons_self _ _)) List.mem_cons_self

theorem restrict_makes (h : rows.IsMade env ns place ctx p) (hm : m.Makes env ns)
    (hplace : place.Given p) (hs : scope.In ctx) (negate : Bool) :
    Builds p (restrict rows m negate node scope) fun q rows' =>
      rows'.IsMade env ns place ctx q ∧ rows'.select.distinct = false := by
  rw [restrict]
  split
  case isTrue hgroup =>
    split
    case isTrue => exact .refused _ _
    case isFalse hopen =>
      refine (h.scalarLambda hplace hm hs).bind fun q s hpq hscalar => .pure ?_
      refine ⟨⟨.havingBy h.made hgroup (hscalar.negateIf negate), (h.mono hpq).labels⟩, ?_⟩
      simp only [Bool.or_eq_true, not_or, Bool.not_eq_true] at hopen
      exact hopen.2
  case isFalse =>
    refine ((h.wrapIf hplace _ node).and (rows.builds_wrapForRows node)).bind
      fun q rows' hpq hrows => ?_
    obtain ⟨hrows, -, hdistinct, hgroups⟩ := hrows
    refine (hrows.scalarLambda (hplace.mono hpq) hm hs).bind fun r s hqr hscalar => .pure ?_
    exact ⟨⟨.filterBy hrows.made hgroups (hscalar.negateIf negate), (hrows.mono hqr).labels⟩,
      hdistinct⟩

theorem equalities_made {pairs : List (Scalar × Scalar)} {e : SqlExpr}
    (he : Made env ns place ctx (.value e))
    (h : ∀ pair ∈ pairs, Made env ns place ctx (.value pair.1.expr) ∧
      Made env ns place ctx (.value pair.2.expr)) :
    Made env ns place ctx
      (.value (pairs.foldl (fun e (l, r) => .and e (.binary .eq l.expr r.expr)) e)) := by
  induction pairs generalizing e with
  | nil => exact he
  | cons pair pairs ih =>
    obtain ⟨⟨hleft, hright⟩, hrest⟩ := List.forall_mem_cons.1 h
    exact ih (he.binary .and (hleft.binary .eq hright)) hrest

theorem matching_made {ls rs : List Scalar}
    (hl : ∀ s ∈ ls, Made env ns place ctx (.value s.expr))
    (hr : ∀ s ∈ rs, Made env ns place ctx (.value s.expr)) :
    ∀ e ∈ matching ls rs, Made env ns place ctx (.value e) := by
  cases ls with
  | nil => nofun
  | cons l ls =>
    cases rs with
    | nil => nofun
    | cons r rs =>
      obtain ⟨hleft, hls⟩ := List.forall_mem_cons.1 hl
      obtain ⟨hright, hrs⟩ := List.forall_mem_cons.1 hr
      rintro _ ⟨⟩
      refine equalities_made (hleft.binary .eq hright) fun pair hpair => ?_
      obtain ⟨hp, hp'⟩ := List.of_mem_zip hpair
      exact ⟨hls _ hp, hrs _ hp'⟩

theorem joinRows_makes (kind : JoinKind) (ha : ∀ m ∈ args, m.Makes env ns)
    (hplace : place.Given start) (hs : scope.In ctx) :
    Builds start (joinRows kind node args scope) fun p rows => rows.IsMade env ns place ctx p := by
  refine Builds.check fun m hm => ?_
  refine ((ha _ (mem_of_argument hm)).asSequence false hplace hs).bind fun p₁ outer h₁ houter => ?_
  refine ((houter.wrapIf (hplace.mono h₁) _ node).and (outer.builds_wrapForRows node)).bind
    fun p₂ outer h₂ houter => ?_
  obtain ⟨houter, -, hdistinct, hungrouped⟩ := houter
  have hplace₂ := hplace.mono (h₁.trans h₂)
  refine Builds.check fun m hm => ?_
  refine ((ha _ (mem_of_argument hm)).asSequence false hplace₂ hs).bind fun p₃ inner h₃ hinner => ?_
  refine ((hinner.wrapIf (hplace₂.mono h₃) _ node).and (inner.builds_wrapUnlessBare node)).bind
    fun p₄ inner h₄ hinner => ?_
  obtain ⟨hinner, hsingle, hinnerGroups⟩ := hinner
  cases hsource : inner.select.source with
  | none => exact .unsupported _ _
  | some table =>
    have htables : inner.select.tables = [table] := by simp [Select.tables, hsource, hsingle]
    have hlabel := hinner.labels table.label (by rw [Select.labels, htables]; exact List.mem_cons_self)
    let innerRow := kind.innerRow inner.row
    have hinnerRow := kind.innerRow_eq inner.row
    have hjoined : (place.enter (outer.select.labels ++ [table.label]) false).Given p₄ :=
      (hplace₂.mono (h₃.trans h₄)).enter (List.forall_mem_append.2
        ⟨(houter.mono (h₃.trans h₄)).labels, List.forall_mem_singleton.2 hlabel⟩) false
    have hscope : scope.In (innerRow :: inner.row :: outer.row :: ctx) :=
      hs.mono fun b hb => by simp [hb]
    refine Builds.check fun m hm => ?_
    refine ((ha _ (mem_of_argument hm)).apply hjoined hscope ?_).bind fun p₅ outerKey h₅ houterKey => ?_
    · simp
    refine Builds.check fun m hm => ?_
    refine ((ha _ (mem_of_argument hm)).apply (hjoined.mono h₅) hscope ?_).bind
      fun p₆ innerKey h₆ hinnerKey => ?_
    · simp
    refine Builds.check fun outerKeys hok => Builds.check fun innerKeys hik => ?_
    dsimp only
    split
    · exact .refused _ _
    refine Builds.check fun m hm => ?_
    have hrows : [outer.row, innerRow] ⊆ innerRow :: inner.row :: outer.row :: ctx := by simp
    refine ((ha _ (mem_of_argument hm)).apply (hjoined.mono (h₅.trans h₆)) hscope hrows).bind
      fun p₇ row h₇ hrow => .pure ⟨?_, ?_⟩
    · exact .joined (j := ⟨kind, table, matching outerKeys innerKeys⟩) houter.made hdistinct
        hungrouped hinner.made htables hinnerGroups hinnerRow
        (matching_made (houterKey.ofScalars hok) (hinnerKey.ofScalars hik)) hrow
    · rw [Select.labels_joined]
      exact fun l hl => hjoined.mono ((h₅.trans h₆).trans h₇) l (List.mem_append_left _ hl)

theorem orderRows_makes (restart ascending : Bool) (ha : ∀ m ∈ args, m.Makes env ns)
    (hplace : place.Given start) (hs : scope.In ctx) :
    Builds start (orderRows restart ascending node args scope) fun p rows =>
      rows.IsMade env ns place ctx p := by
  refine Builds.check fun m hm => ?_
  refine ((ha _ (mem_of_argument hm)).asSequence false hplace hs).bind fun p₁ rows h₁ hrows => ?_
  refine (hrows.wrapUnless (Q := fun s => s.distinct = false) (hplace.mono h₁) node ?_
    fun _ _ => rfl).bind fun p₂ rows h₂ hrows => ?_
  · intro hopen
    simp only [Bool.or_eq_false_iff] at hopen
    exact hopen.2
  obtain ⟨hrows, hdistinct⟩ := hrows
  refine Builds.check fun m hm => ?_
  refine (hrows.lambda (hplace.mono (h₁.trans h₂)) (ha _ (mem_of_argument hm)) hs).bind
    fun p₃ key h₃ hkey => ?_
  refine Builds.check fun scalars hscalars => .pure ⟨?_, (hrows.mono h₃).labels⟩
  exact .orderedBy hrows.made hdistinct (kept_keys_subset restart _)
    (List.forall_mem_map.2 (hkey.ofScalars hscalars))

/-- A call as a sequence. The rows of a grouping and of a Distinct are those that the call makes. -/
theorem callRows_makes (op : Operator) (ha : ∀ m ∈ args, m.Makes env ns)
    (hplace : place.Given start) (hs : scope.In ctx) :
    Builds start (callRows env node op args scope) fun p rows =>
      CallMakes env ns op ctx rows → rows.IsMade env ns place ctx p := by
  refine Builds.check fun source hsource => ?_
  have hsource := ha _ (mem_of_argument hsource)
  cases op with
  | filter =>
    refine (hsource.asSequence false hplace hs).bind fun p₁ rows h₁ hrows => ?_
    refine Builds.check fun m hm => ?_
    exact (restrict_makes node hrows (ha _ (mem_of_argument hm)) (hplace.mono h₁) hs false).imp
      fun _ _ _ h _ => h.1
  | project =>
    refine (hsource.asSequence false hplace hs).bind fun p₁ rows h₁ hrows => ?_
    refine (hrows.wrapUnless (Q := fun s => s.distinct = false) (hplace.mono h₁) node id
      fun _ _ => rfl).bind fun p₂ rows h₂ hrows => ?_
    obtain ⟨hrows, hdistinct⟩ := hrows
    refine Builds.check fun m hm => ?_
    refine (hrows.lambda (hplace.mono (h₁.trans h₂)) (ha _ (mem_of_argument hm)) hs).bind
      fun p₃ row h₃ hrow => .pure fun _ => ⟨?_, (hrows.mono h₃).labels⟩
    exact .withRow hrows.made hdistinct hrow
  | orderBy | orderByDescending | thenBy | thenByDescending =>
    exact (orderRows_makes node _ _ ha hplace hs).imp fun _ _ _ h _ => h
  | skip =>
    refine Builds.check fun _ _ => ?_
    refine (hsource.asSequence false hplace hs).bind fun p₁ rows h₁ hrows => ?_
    refine Builds.check fun m hm => ?_
    refine ((ha _ (mem_of_argument hm)).asScalar (hplace.mono h₁) hs).bind fun p₂ count h₂ hcount => ?_
    refine ((hrows.mono h₂).wrapIf (hplace.mono (h₁.trans h₂)) _ node).bind
      fun p₃ rows h₃ hrows => .pure fun _ => ⟨.withOffset hrows.made hcount, hrows.labels⟩
  | take =>
    refine Builds.check fun _ _ => ?_
    refine (hsource.asSequence false hplace hs).bind fun p₁ rows h₁ hrows => ?_
    refine Builds.check fun m hm => ?_
    refine ((ha _ (mem_of_argument hm)).asScalar (hplace.mono h₁) hs).bind fun p₂ count h₂ hcount => ?_
    refine ((hrows.mono h₂).wrapIf (hplace.mono (h₁.trans h₂)) _ node).bind
      fun p₃ rows h₃ hrows => .pure fun _ => ⟨.withLimit hrows.made hcount, hrows.labels⟩
  | segment =>
    refine Builds.check fun _ _ => ?_
    refine (hsource.asSequence false hplace hs).bind fun p₁ rows h₁ hrows => ?_
    refine Builds.check fun m hm => ?_
    cases env.slot? m.node.id with
    | none => exact .unsupported _ _
    | some k =>
      refine (hrows.wrapIf (hplace.mono h₁) _ node).bind fun p₂ rows h₂ hrows => .pure fun _ => ?_
      exact ⟨.withLimit (.withOffset hrows.made (.param _)) (.param _), hrows.labels⟩
  | distinct =>
    refine (hsource.asSequence false hplace hs).bind fun p₁ rows h₁ hrows => ?_
    refine (hrows.wrapIf (hplace.mono h₁) _ node).bind fun p₂ rows h₂ hrows => ?_
    dsimp only
    split
    · exact .refused _ _
    · exact .pure fun hcall => ⟨.asDistinct hrows.made hcall, hrows.labels⟩
  | groupBy =>
    refine (hsource.asSequence false hplace hs).bind fun p₁ rows h₁ hrows => ?_
    refine ((hrows.wrapIf (hplace.mono h₁) _ node).and (rows.builds_wrapForRows node)).bind
      fun p₂ rows h₂ hrows => ?_
    obtain ⟨hrows, -, -, hgroups⟩ := hrows
    have hplace₂ := hplace.mono (h₁.trans h₂)
    refine Builds.check fun m hm => ?_
    refine (hrows.lambda hplace₂ (ha _ (mem_of_argument hm)) hs).bind fun p₃ key h₃ hkey => ?_
    refine Rows.builds_groups (E := fun _ element =>
      Made env ns (place.inside rows.select) (rows.row :: ctx) (.binding element))
      (.bound List.mem_cons_self) (fun selector hselector => ?_)
      fun p₄ element keys h₄ helement hkeys hcall => ?_
    · have hselector := ha selector (List.mem_of_getElem? hselector)
      exact (hrows.mono h₃).lambda (hplace₂.mono h₃) hselector hs
    · obtain ⟨ls, hls, rfl⟩ := Binding.scalars_ok hkeys
      rw [List.map_map] at hcall ⊢
      exact ⟨.groupedBy hrows.made hgroups hkey helement hls hcall,
        (hrows.mono (h₃.trans h₄)).labels⟩
  | join | leftJoin => exact (joinRows_makes node _ ha hplace hs).imp fun _ _ _ h _ => h
  | _ => exact .throw _

theorem markerRows_makes (op : Operator) (ha : ∀ m ∈ args, m.Makes env ns)
    (hplace : place.Given start) (hs : scope.In ctx) :
    Builds start (markerRows env node op args scope) fun p rows =>
      rows.IsMade env ns place ctx p := by
  refine Builds.check fun _ _ => ?_
  refine Builds.check fun m hm => ?_
  refine ((ha _ (mem_of_argument hm)).asSequence _ hplace hs).bind fun p₁ rows h₁ hrows => ?_
  refine (hrows.wrapIf (hplace.mono h₁) _ node).bind fun p₂ rows h₂ hrows => ?_
  refine Builds.useSegment.bind fun p₃ _ h₃ _ => .pure ?_
  exact ⟨.withOrigin (.withOffset (.withLimit hrows.made (.param _)) (.param _)) node,
    (hrows.mono h₃).labels⟩

theorem sequenceOfCall_makes {i : NodeId} {op : Operator} {es : List Expr}
    (hcall : Expr.call i op es ∈ ns) (ha : ∀ m ∈ meanings env es, m.Makes env ns) (inRun : Bool)
    (hplace : place.Given start) (hs : scope.In ctx) :
    Builds start (sequenceOfCall env (.call i op es) op (meanings env es) inRun scope)
      fun p rows => rows.IsMade env ns place ctx p := by
  rw [sequenceOfCall]
  split
  · exact Builds.check fun m hm => (ha _ (mem_of_argument hm)).asSequence true hplace hs
  · split
    · exact markerRows_makes _ op ha hplace hs
    · refine (callRows_makes (.call i op es) op ha hplace hs).traced.bind
        fun p rows _ hrows => .pure ?_
      obtain ⟨hrows, hrun⟩ := hrows
      have hmade := hrows ⟨i, es, scope, start, p, hcall, hs, hrun⟩
      exact ⟨.withOrigin hmade.made _, hmade.labels⟩

end Functions

end SequenceQuery
