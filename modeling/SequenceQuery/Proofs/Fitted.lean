import SequenceQuery.Form.Basic
import SequenceQuery.Proofs.Clauses
import SequenceQuery.Proofs.Simulation
import SequenceQuery.Proofs.Wrapping

namespace SequenceQuery

structure Meaning.Fits (env : Surroundings) (ns : List Expr) (m : Meaning) : Prop where
  asSequence : ∀ {site start scope} (inRun : Bool), scope.Fits env ns site start →
    Builds start (m.asSequence inRun scope) fun p rows => rows.Fits env ns site p start
  asBinding : ∀ {site start scope}, scope.Fits env ns site start →
    Builds start (m.asBinding scope) fun p b => b.Fits env ns site p
  apply : ∀ {site start scope elements}, scope.Fits env ns site start →
    (∀ b ∈ elements, b.Fits env ns site start) →
      Builds start (m.apply scope elements) fun p b => b.Fits env ns site p

section Functions

variable {env : Surroundings} {ns : List Expr} {site : Site} {p q start : Progress}
  {scope : Scope} {args : List Meaning} {m : Meaning} {rows : Rows} {b : Binding} (node : Expr)

namespace Meaning

theorem Fits.asScalar (hm : m.Fits env ns) (hs : scope.Fits env ns site p) :
    Builds p (m.asScalar scope) fun q s => s.expr.Fits env ns site q :=
  (hm.asBinding hs).bind fun _ _ _ hb => .lift fun _ hscalar => hb.asScalar hscalar

theorem Fits.applyOne (hm : m.Fits env ns) (hs : scope.Fits env ns site p)
    (hb : b.Fits env ns site p) :
    Builds p (m.apply scope [b]) fun q b => b.Fits env ns site q :=
  hm.apply hs fun _ h => List.mem_singleton.1 h ▸ hb

theorem Fits.applyScalar (hm : m.Fits env ns) (hs : scope.Fits env ns site p)
    (hb : b.Fits env ns site p) :
    Builds p (m.applyScalar scope b) fun q s => s.expr.Fits env ns site q :=
  (hm.applyOne hs hb).bind fun _ _ _ hb => .lift fun _ hscalar => hb.asScalar hscalar

end Meaning

theorem fits_negateIf {e : SqlExpr} (negate : Bool) (h : e.Fits env ns site p) :
    (negateIf negate e).Fits env ns site p := by
  cases negate with
  | false => exact h
  | true => exact ⟨.unary _ _, h⟩

theorem fits_int {n : Int64} (h : n ∈ [0, 1, 2]) : (SqlExpr.int n).Fits env ns site p := .count h

theorem fits_param {source : Source} (h : SqlExpr.Written env ns p (.param source)) :
    (SqlExpr.param source).Fits env ns site p := h

theorem fits_countRows : SqlExpr.countRows.Fits env ns site p :=
  ⟨.aggregate (by decide) _, .inl rfl⟩

theorem fits_aggregate {name : String} (h : name ∈ ["COUNT", "SUM", "MIN", "MAX", "AVG"])
    {e : SqlExpr} (he : e.Fits env ns site p) :
    (SqlExpr.aggregateOf name [e]).Fits env ns site p :=
  ⟨.aggregate h _, .inr ⟨he, trivial⟩⟩

theorem fits_coalesce {e e' : SqlExpr} (h : e.Fits env ns site p) (h' : e'.Fits env ns site p) :
    (SqlExpr.coalesce [e, e']).Fits env ns site p :=
  ⟨.function (.inl rfl) _, h, h', trivial⟩

theorem fits_aggregateOver (op : Operator) {s : Scalar} (h : s.expr.Fits env ns site p) :
    (aggregateOver op s).expr.Fits env ns site p := by
  cases op with
  | sum => exact fits_coalesce (fits_aggregate (by decide) h) (fits_int (by decide))
  | _ => exact fits_aggregate (by decide) h

theorem restrict_fits (h : rows.Fits env ns site p start) (hm : m.Fits env ns)
    (hs : scope.Fits env ns site start) (hp : start ≤ p) (negate : Bool) :
    Builds p (restrict rows m negate node scope) fun q rows' =>
      rows'.Fits env ns site q start := by
  rw [restrict]
  split
  · split
    · exact .refused _ _
    · refine (hm.applyScalar (hs.within hp h.labels) h.row).bind fun q s hpq hscalar => .pure ?_
      exact (h.mono hpq).havingBy (fits_negateIf negate hscalar)
  · refine (h.wrapIf hs.labels hp _ node).bind fun q rows' hpq hrows => ?_
    obtain ⟨h', -⟩ := hrows
    have hscope := hs.within (hp.trans hpq) h'.labels
    refine (hm.applyScalar hscope h'.row).bind fun r s hqr hscalar => .pure ?_
    exact (h'.mono hqr).filterBy (fits_negateIf negate hscalar)

theorem equalities_fit {pairs : List (Scalar × Scalar)} {e : SqlExpr} (he : e.Fits env ns site p)
    (h : ∀ pair ∈ pairs, pair.1.expr.Fits env ns site p ∧ pair.2.expr.Fits env ns site p) :
    (pairs.foldl (fun e (l, r) => .and e (.binary .eq l.expr r.expr)) e).Fits env ns site p := by
  induction pairs generalizing e with
  | nil => exact he
  | cons pair pairs ih =>
    obtain ⟨hleft, hright⟩ := h pair List.mem_cons_self
    have hand : (SqlExpr.and e (.binary .eq pair.1.expr pair.2.expr)).Fits env ns site p :=
      ⟨.binary _ _ _, he, .binary _ _ _, hleft, hright⟩
    exact ih hand fun pair' h' => h pair' (List.mem_cons_of_mem _ h')

theorem matching_fits {ls rs : List Scalar} (hl : ∀ s ∈ ls, s.expr.Fits env ns site p)
    (hr : ∀ s ∈ rs, s.expr.Fits env ns site p) :
    optionScoped env.catalog (SqlExpr.Written env ns p) (site.upTo p) (matching ls rs) := by
  cases ls with
  | nil => trivial
  | cons l ls =>
    cases rs with
    | nil => trivial
    | cons r rs =>
      have hfirst : (SqlExpr.binary .eq l.expr r.expr).Fits env ns site p :=
        ⟨.binary _ _ _, hl l List.mem_cons_self, hr r List.mem_cons_self⟩
      refine equalities_fit hfirst fun pair hpair => ?_
      obtain ⟨hleft, hright⟩ := List.of_mem_zip hpair
      exact ⟨hl _ (List.mem_cons_of_mem _ hleft), hr _ (List.mem_cons_of_mem _ hright)⟩

theorem joinRows_fits (kind : JoinKind) (ha : ∀ m ∈ args, m.Fits env ns)
    (hs : scope.Fits env ns site start) :
    Builds start (joinRows kind node args scope) fun p rows => rows.Fits env ns site p start := by
  refine Builds.check fun m hm => ?_
  refine ((ha _ (mem_of_argument hm)).asSequence false hs).bind fun p₁ outer h₁ houter => ?_
  refine (houter.wrapIf hs.labels h₁ _ node).bind fun p₂ outer h₂ houter => ?_
  obtain ⟨houter, -⟩ := houter
  have hstart := h₁.trans h₂
  have hs₂ := hs.beside hstart houter.labels
  refine Builds.check fun m hm => ?_
  refine ((ha _ (mem_of_argument hm)).asSequence false hs₂).bind fun p₃ inner h₃ hinner => ?_
  refine ((hinner.wrapIf hs₂.labels h₃ _ node).and (inner.builds_wrapUnlessBare node)).bind
    fun p₄ inner h₄ hinner => ?_
  obtain ⟨⟨hinner, -⟩, hsingle, -⟩ := hinner
  have h₂₄ := h₃.trans h₄
  cases hsource : inner.select.source with
  | none => exact .unsupported _ _
  | some table =>
    have htables : inner.select.tables = [table] := by simp [Select.tables, hsource, hsingle]
    have hmem : table ∈ inner.select.tables := htables ▸ List.mem_singleton_self _
    have hgiven := hinner.labels table hmem
    have hnew : Site.NewFrom p₂ [table] := htables ▸ Progress.GivesOut.newFrom hinner.labels
    obtain ⟨-, hfree⟩ := hinner.clauses.labels
    have hfree : site.free table.label := (hfree table hmem).1.1
    have htable := hinner.clauses.source
    rw [hsource, htables, Site.upTo_beside, ← Site.beside_append] at htable
    have hlabels : ∀ t ∈ outer.select.tables ++ [table], start.GivesOut p₄ t.label := by
      refine List.forall_mem_append.2 ⟨fun t ht => (houter.labels t ht).mono le_rfl h₂₄, ?_⟩
      exact List.forall_mem_singleton.2 (hgiven.mono hstart le_rfl)
    have hs₄ := hs.within (hstart.trans h₂₄) hlabels
    have houterRow := houter.row.mono h₂₄ (Site.within_append_ge hnew h₂₄)
    have hinnerRow := hinner.row
    rw [htables] at hinnerRow
    replace hinnerRow := hinnerRow.mono le_rfl
      (Site.upTo_mono (Site.beside_within_le site outer.select.tables [table]) le_rfl)
    refine Builds.check fun m hm => ?_
    refine ((ha _ (mem_of_argument hm)).applyOne hs₄ houterRow).bind fun p₅ outerKey h₅ hko => ?_
    refine Builds.check fun m hm => ?_
    refine ((ha _ (mem_of_argument hm)).applyOne (hs₄.mono h₅) (hinnerRow.later h₅)).bind
      fun p₆ innerKey h₆ hki => ?_
    refine Builds.check fun outerKeys hok => Builds.check fun innerKeys hik => ?_
    dsimp only
    split
    · exact .refused _ _
    refine Builds.check fun m hm => ?_
    have h₄₆ := h₅.trans h₆
    refine ((ha _ (mem_of_argument hm)).apply (hs₄.mono h₄₆) ?_).bind
      fun p₇ row h₇ hrow => .pure ?_
    · refine List.forall_mem_cons.2 ⟨houterRow.later h₄₆, List.forall_mem_singleton.2 ?_⟩
      cases kind with
      | inner => exact hinnerRow.later h₄₆
      | left => exact (hinnerRow.later h₄₆).asOptional
    have h₄₇ := h₄₆.trans h₇
    have hcondition := matching_fits (fun s hs => (hko.scalars hok s hs).later (h₆.trans h₇))
      fun s hs => (hki.scalars hik s hs).later h₇
    have htable := Table.Scoped.mono (SqlExpr.Written.mono h₄₇) (Site.upTo_mono le_rfl h₄₇) htable
    refine ⟨houter.items, houter.select.joined (h₂₄.trans h₄₇) (hgiven.mono ?_ h₄₇) hfree htable
      hcondition, ?_, ?_⟩
    · exact le_rfl
    · rw [tables_joined]
      exact fun t ht => (hlabels t ht).mono le_rfl h₄₇
    · rw [tables_joined]
      exact hrow

theorem orderRows_fits (restart ascending : Bool) (ha : ∀ m ∈ args, m.Fits env ns)
    (hs : scope.Fits env ns site start) :
    Builds start (orderRows restart ascending node args scope) fun p rows =>
      rows.Fits env ns site p start := by
  refine Builds.check fun m hm => ?_
  refine ((ha _ (mem_of_argument hm)).asSequence false hs).bind fun p₁ rows h₁ hrows => ?_
  refine (hrows.wrapIf hs.labels h₁ _ node).bind fun p₂ rows h₂ hrows => ?_
  obtain ⟨hrows, -⟩ := hrows
  refine Builds.check fun m hm => ?_
  have hscope := hs.within (h₁.trans h₂) hrows.labels
  refine ((ha _ (mem_of_argument hm)).applyOne hscope hrows.row).bind fun p₃ key h₃ hkey => ?_
  refine Builds.check fun scalars hscalars => .pure ?_
  refine (hrows.mono h₃).orderedBy fun k hk => ?_
  rcases List.mem_append.1 hk with hk | hk
  · cases restart with
    | true => cases hk
    | false => exact .inl hk
  · obtain ⟨s, hs, rfl⟩ := List.mem_map.1 hk
    exact .inr (hkey.scalars hscalars s hs)

/-- A call as a sequence. Where a segment call takes the slot behind its argument's, that call is a
node of the query. -/
theorem callRows_fits (op : Operator) (ha : ∀ m ∈ args, m.Fits env ns)
    (hcall : ∀ m, op = .segment → args[1]? = some m →
      ∃ i source rest, .call i .segment (source :: m.node :: rest) ∈ ns)
    (hs : scope.Fits env ns site start) :
    Builds start (callRows env node op args scope) fun p rows => rows.Fits env ns site p start := by
  refine Builds.check fun source hsource => ?_
  have hsource := ha _ (mem_of_argument hsource)
  cases op with
  | filter =>
    refine (hsource.asSequence false hs).bind fun p₁ rows h₁ hrows => ?_
    refine Builds.check fun m hm => ?_
    exact restrict_fits node hrows (ha _ (mem_of_argument hm)) hs h₁ false
  | project =>
    refine (hsource.asSequence false hs).bind fun p₁ rows h₁ hrows => ?_
    refine (hrows.wrapIf hs.labels h₁ _ node).bind fun p₂ rows h₂ hrows => ?_
    obtain ⟨hrows, -⟩ := hrows
    refine Builds.check fun m hm => ?_
    have hscope := hs.within (h₁.trans h₂) hrows.labels
    have happly := (ha _ (mem_of_argument hm)).applyOne hscope hrows.row
    refine happly.bind fun p₃ row h₃ hrow => .pure ?_
    exact { hrows.mono h₃ with row := hrow }
  | orderBy | orderByDescending | thenBy | thenByDescending => exact orderRows_fits node _ _ ha hs
  | skip =>
    refine Builds.check fun _ _ => ?_
    refine (hsource.asSequence false hs).bind fun p₁ rows h₁ hrows => ?_
    refine Builds.check fun m hm => ?_
    have hscope := hs.beside h₁ hrows.labels
    refine ((ha _ (mem_of_argument hm)).asScalar hscope).bind fun p₂ count h₂ hcount => ?_
    refine ((hrows.mono h₂).wrapIf hs.labels (h₁.trans h₂) _ node).bind
      fun p₃ rows h₃ hrows => .pure ?_
    exact hrows.1.withOffset (hcount.mono h₃ hrows.2)
  | take =>
    refine Builds.check fun _ _ => ?_
    refine (hsource.asSequence false hs).bind fun p₁ rows h₁ hrows => ?_
    refine Builds.check fun m hm => ?_
    have hscope := hs.beside h₁ hrows.labels
    refine ((ha _ (mem_of_argument hm)).asScalar hscope).bind fun p₂ count h₂ hcount => ?_
    refine ((hrows.mono h₂).wrapIf hs.labels (h₁.trans h₂) _ node).bind
      fun p₃ rows h₃ hrows => .pure ?_
    exact hrows.1.withLimit (hcount.mono h₃ hrows.2)
  | segment =>
    refine Builds.check fun _ _ => ?_
    refine (hsource.asSequence false hs).bind fun p₁ rows h₁ hrows => ?_
    refine Builds.check fun m hm => ?_
    obtain ⟨i, first, rest, hmem⟩ := hcall m rfl (getElem?_of_argument hm)
    cases hslot : env.slot? m.node.id with
    | none => exact .unsupported _ _
    | some slot =>
      refine (hrows.wrapIf hs.labels h₁ _ node).bind fun p₂ rows h₂ hrows => .pure ?_
      exact (hrows.1.withOffset (fits_param (.slot hslot))).withLimit
        (fits_param (.slotBehind hmem hslot))
  | distinct =>
    refine (hsource.asSequence false hs).bind fun p₁ rows h₁ hrows => ?_
    refine (hrows.wrapIf hs.labels h₁ _ node).bind fun p₂ rows h₂ hrows => ?_
    dsimp only
    split
    · exact .refused _ _
    · exact .pure hrows.1.asDistinct
  | groupBy =>
    refine (hsource.asSequence false hs).bind fun p₁ rows h₁ hrows => ?_
    refine (hrows.wrapIf hs.labels h₁ _ node).bind fun p₂ rows h₂ hrows => ?_
    obtain ⟨hrows, -⟩ := hrows
    refine Builds.check fun m hm => ?_
    have hscope := hs.within (h₁.trans h₂) hrows.labels
    refine ((ha _ (mem_of_argument hm)).applyOne hscope hrows.row).bind fun p₃ key h₃ hkey => ?_
    refine Rows.builds_groups (hrows.row.later h₃) (fun selector hselector => ?_)
      fun p₄ element keys h₄ helement hkeys => ?_
    · have hselector := ha selector (List.mem_of_getElem? hselector)
      exact hselector.applyOne (hscope.mono h₃) (hrows.row.later h₃)
    · refine (hrows.mono (h₃.trans h₄)).groupedBy (fun e he => ?_) ⟨hkey.later h₄, helement⟩
      obtain ⟨s, hs, rfl⟩ := List.mem_map.1 he
      exact (hkey.scalars hkeys s hs).later h₄
  | join => exact joinRows_fits node .inner ha hs
  | leftJoin => exact joinRows_fits node .left ha hs
  | _ => exact .throw _

theorem markerRows_fits (op : Operator) (ha : ∀ m ∈ args, m.Fits env ns)
    (hmarker : env.marker.isSome) (hs : scope.Fits env ns site start) :
    Builds start (markerRows env node op args scope) fun p rows =>
      rows.Fits env ns site p start := by
  refine Builds.check fun _ _ => ?_
  refine Builds.check fun m hm => ?_
  refine ((ha _ (mem_of_argument hm)).asSequence _ hs).bind fun p₁ rows h₁ hrows => ?_
  refine (hrows.wrapIf hs.labels h₁ _ node).bind fun p₂ rows h₂ hrows => ?_
  refine Builds.useSegment.bind fun p₃ _ h₃ hused => .pure ?_
  have hlimit := (hrows.1.mono h₃).withLimit (fits_param (.segmentLength hmarker hused))
  exact (hlimit.withOffset (fits_param (.segmentStart hmarker hused))).withOrigin node

theorem sequenceOfCall_fits (op : Operator) (ha : ∀ m ∈ args, m.Fits env ns)
    (hcall : ∀ m, op = .segment → args[1]? = some m →
      ∃ i source rest, .call i .segment (source :: m.node :: rest) ∈ ns)
    (inRun : Bool) (hs : scope.Fits env ns site start) :
    Builds start (sequenceOfCall env node op args inRun scope) fun p rows =>
      rows.Fits env ns site p start := by
  rw [sequenceOfCall]
  split
  · exact Builds.check fun m hm => (ha _ (mem_of_argument hm)).asSequence true hs
  · split
    · next hmarker => exact markerRows_fits node op ha (by rw [hmarker]; rfl) hs
    · exact (callRows_fits node op ha hcall hs).bind fun _ _ _ h => .pure (h.withOrigin node)

theorem filtered_fits (hm : m.Fits env ns) (ha : ∀ m ∈ args, m.Fits env ns) (i : Nat)
    (hs : scope.Fits env ns site start) :
    Builds start (filtered node m args[i]? scope) fun p rows => rows.Fits env ns site p start := by
  refine (hm.asSequence false hs).bind fun p₁ rows h₁ hrows => ?_
  cases hpredicate : args[i]? with
  | none => exact .pure hrows
  | some predicate =>
    have hpredicate := ha predicate (List.mem_of_getElem? hpredicate)
    exact restrict_fits node hrows hpredicate hs h₁ false

theorem selected_fits (ha : ∀ m ∈ args, m.Fits env ns) (i : Nat)
    (hs : scope.Fits env ns site p) (hb : b.Fits env ns site p) :
    Builds p (selected node args[i]? b scope) fun q s => s.expr.Fits env ns site q := by
  cases hselector : args[i]? with
  | none => exact .lift fun _ hscalar => hb.asScalar hscalar
  | some selector =>
    exact (ha selector (List.mem_of_getElem? hselector)).applyScalar hs hb

theorem singleRow_fits (ha : ∀ m ∈ args, m.Fits env ns) (nullable unique : Bool)
    (hs : scope.Fits env ns site start) :
    Builds start (singleRow node args nullable unique scope) fun p t => t.Fits env ns site p := by
  refine Builds.check fun m hm => ?_
  refine (filtered_fits node (ha _ (mem_of_argument hm)) ha 1 hs).bind fun p₁ rows h₁ hrows => ?_
  refine (hrows.wrapIf hs.labels h₁ _ node).bind fun p₂ rows h₂ hrows => ?_
  have hone : (SqlExpr.int (if unique then 2 else 1)).Fits env ns
      (site.within rows.select.tables) p₂ := by
    cases unique <;> exact fits_int (by decide)
  refine Builds.check fun s hs => .pure ?_
  obtain ⟨hselect, ls, hls, rfl⟩ := (hrows.1.withLimit hone).project hs
  refine ⟨hselect, fun scalar hrow => ?_⟩
  rw [hrow] at hls
  cases hls
  rfl

theorem terminal_fits (op : Operator) (ha : ∀ m ∈ args, m.Fits env ns)
    (hs : scope.Fits env ns site start) :
    Builds start (terminal node op args scope) fun p t => t.Fits env ns site p := by
  refine Builds.check fun source hsource => ?_
  have hsource := ha _ (mem_of_argument hsource)
  cases op with
  | first | firstOrDefault | single | singleOrDefault => exact singleRow_fits node ha _ _ hs
  | count | longCount =>
    refine (filtered_fits node hsource ha 1 hs).bind fun p₁ rows h₁ hrows => ?_
    refine (hrows.forAggregate hs.labels h₁ node).bind fun p₂ rows h₂ hrows => .pure ?_
    exact ⟨hrows.selecting fits_countRows, rfl⟩
  | any =>
    refine (filtered_fits node hsource ha 1 hs).bind fun p₁ rows h₁ hrows => .pure ?_
    exact hrows.orderedOnlyIfPaged.selecting (fits_int (by decide))
  | all =>
    refine (hsource.asSequence false hs).bind fun p₁ rows h₁ hrows => ?_
    refine Builds.check fun m hm => ?_
    refine (restrict_fits node hrows (ha _ (mem_of_argument hm)) hs h₁ true).bind
      fun p₂ rows h₂ hrows => .pure ?_
    exact hrows.orderedOnlyIfPaged.selecting (fits_int (by decide))
  | contains =>
    refine (hsource.asSequence false hs).bind fun p₁ rows h₁ hrows => ?_
    cases hrow : rows.row with
    | scalar element =>
      refine Builds.check fun m hm => ?_
      refine ((ha _ (mem_of_argument hm)).asScalar (hs.mono h₁)).bind fun p₂ value h₂ hvalue =>
        .pure ⟨hvalue, ?_, rfl⟩
      have helement := (hrows.mono h₂).row
      rw [hrow, ← Rows.tables_orderedOnlyIfPaged] at helement
      exact (hrows.mono h₂).orderedOnlyIfPaged.selecting helement
    | _ => exact .unsupported _ _
  | sum | min | max | average =>
    refine (hsource.asSequence false hs).bind fun p₁ rows h₁ hrows => ?_
    refine (hrows.forAggregate hs.labels h₁ node).bind fun p₂ rows h₂ hrows => ?_
    have hscope := hs.within (h₁.trans h₂) hrows.labels
    refine (selected_fits node ha 1 hscope hrows.row).bind fun p₃ value h₃ hvalue => .pure ?_
    exact ⟨(hrows.mono h₃).selecting (fits_aggregateOver _ hvalue), rfl⟩
  | _ => exact .throw _

end Functions

end SequenceQuery
