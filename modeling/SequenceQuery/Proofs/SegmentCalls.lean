import SequenceQuery.Proofs.SegmentUse

namespace SequenceQuery

variable {used : Prop}

section Calls

variable {env : Surroundings} {marker : Option NodeId} {i : NodeId} {op : Operator}
  {source e : Expr} {rest es : List Expr} {scope : Scope} {m : Meaning} {rows : Rows} {node : Expr}
  {row order : Prop} {part : Part}

theorem Meaning.Retains.asScalar (h : m.Retains marker e) (scope : Scope) :
    Carries (e.holds marker = true) False (m.asScalar scope) fun s => s.expr.asks = true :=
  (h.asBinding scope).bind fun _ => .lift fun _ hs hb => (Binding.asks_asScalar hs).trans hb

theorem Meaning.Retains.applyScalar (h : m.Retains marker e) (scope : Scope) (element : Binding) :
    Carries (e.holds marker = true) False (m.applyScalar scope element) fun s =>
      s.expr.asks = true :=
  (h.apply scope [element]).bind fun _ => .lift fun _ hs hb => (Binding.asks_asScalar hs).trans hb

/-- The parts that a call is put together from retain what they use, and the call replaces nothing
that the marker was used for. -/
structure Expr.Retained (env : Surroundings) (i : NodeId) (op : Operator) (es : List Expr) :
    Prop where
  args : ∀ e ∈ es, (e.meaning env).Retains env.marker e
  keeps : (Expr.call i op es).keepsParts env.marker = true
  argsKeep : ∀ e ∈ es, e.keepsParts env.marker = true

theorem exists_source (h : argument node (meanings env es) 0 = .ok m) :
    ∃ source rest, es = source :: rest := by
  obtain ⟨source, he, -⟩ := argument_meanings h
  cases es with
  | nil => cases he
  | cons source rest => exact ⟨source, rest, rfl⟩

namespace Expr

theorem holds_argument (h : e ∈ es) : e.holds marker = true →
    (Expr.call i op es).holds marker = true :=
  holds_of_subset (nodes_of_child (n := .call i op es) h)

theorem Retained.argument (h : Retained env i op es) {k : Nat}
    (hm : argument node (meanings env es) k = .ok m) : ∃ e, es[k]? = some e ∧
      m.Retains env.marker e ∧
      (e.holds env.marker = true → (Expr.call i op es).holds env.marker = true) := by
  obtain ⟨e, he, rfl⟩ := argument_meanings hm
  have hmem := List.mem_of_getElem? he
  exact ⟨e, he, h.args e hmem, holds_argument hmem⟩

theorem Retained.selector (h : Retained env i op es) {k : Nat} (hm : (meanings env es)[k]? = some m) :
    ∃ e, es[k]? = some e ∧ m.Retains env.marker e ∧
      (e.holds env.marker = true → (Expr.call i op es).holds env.marker = true) := by
  have hm' : SequenceQuery.argument (.call i op es) (meanings env es) k = .ok m := by
    rw [SequenceQuery.argument, hm]
  exact h.argument hm'

theorem Retained.not_inPart (h : Retained env i op es) (part : Part)
    (hsource : source ∈ (Expr.call i op es).sources)
    (hreplaces : op.replaces es.length part = true) : source.inPart env.marker part ≠ true := by
  have hall := List.all_eq_true.1 (List.all_eq_true.1 h.keeps source hsource) part
    (by cases part <;> simp)
  simpa [hreplaces] using hall

theorem inPart_of_source (hreplaces : op.replaces (rest.length + 1) part = false)
    (h : source.inPart marker part = true) :
    (Expr.call i op (source :: rest)).inPart marker part = true := by
  simp [inPart, hreplaces, h]

theorem inPart_of_argument {k : Nat} (hk : k ∈ op.computes part) (he : (source :: rest)[k]? = some e)
    (h : e.holds marker = true) : (Expr.call i op (source :: rest)).inPart marker part = true := by
  rw [inPart, Bool.or_eq_true]
  exact .inr (List.any_eq_true.2 ⟨k, hk, by rw [he]; exact h⟩)

theorem Retained.head (h : Retained env i op (source :: rest)) (inRun : Bool) (scope : Scope) :
    Carries ((Expr.call i op (source :: rest)).holds env.marker = true) False
      ((source.meaning env).asSequence inRun scope) fun rows => rows.ShowsFor env.marker source :=
  ((h.args source List.mem_cons_self).asSequence inRun scope).within
    (holds_argument List.mem_cons_self)

end Expr

theorem restrict_shows (hm : m.Retains marker e) (hused : e.holds marker = true → used)
    (rows : Rows) (negate : Bool) (node : Expr) (scope : Scope) :
    Carries used (rows.Shows row order) (restrict rows m negate node scope) fun rows' =>
      rows'.Shows row order := by
  rw [restrict]
  split
  · split
    · exact .refused _ _
    · refine ((hm.applyScalar scope rows.row).part hused).bind fun test => .pure fun h => ?_
      exact Rows.Shows.havingBy (h.symm.imp_left fun h => (asks_negateIf _ _).trans h.2)
  · refine (wrapIf_shows rows _ node).bind fun rows' => ?_
    refine ((hm.applyScalar scope rows'.row).part hused).bind fun test => .pure fun h => ?_
    exact Rows.Shows.filterBy (h.symm.imp_left fun h => (asks_negateIf _ _).trans h.2)

theorem orderRows_shows (h : Expr.Retained env i op (source :: rest)) (restart ascending : Bool)
    (hreplaces : op.replaces (rest.length + 1) .row = false)
    (hrestart : restart = true → op.replaces (rest.length + 1) .order = true)
    (hstays : restart = false → op.replaces (rest.length + 1) .order = false)
    (hcomputes : 1 ∈ op.computes .order) (node : Expr) (scope : Scope) :
    Carries ((Expr.call i op (source :: rest)).holds env.marker = true) False
      (orderRows restart ascending node (meanings env (source :: rest)) scope) fun rows =>
        rows.ShowsFor env.marker (.call i op (source :: rest)) := by
  rw [orderRows]
  refine .check fun m hm => ?_
  cases hm
  refine (h.head false scope).bind fun rows => ?_
  refine (wrapIf_shows rows _ node).bind fun rows' => .check fun m hm => ?_
  obtain ⟨key, hkey, hretains, hused⟩ := h.argument hm
  refine ((hretains.apply scope [rows'.row]).part hused).bind fun b => ?_
  refine .check fun ss hss => .pure fun h' => ?_
  rcases h' with (hclauses | ⟨hrow, hpart⟩ | ⟨horder, hpart⟩) | ⟨hholds, hasks⟩
  · exact .inl hclauses
  · exact .inr (.inl ⟨hrow, Expr.inPart_of_source hreplaces hpart⟩)
  · cases restart with
    | true => exact absurd hpart (h.not_inPart _ List.mem_cons_self (hrestart rfl))
    | false =>
      refine .inr (.inr ⟨?_, Expr.inPart_of_source (hstays rfl) hpart⟩)
      rw [Select.orderAsks] at horder ⊢
      simp [horder]
  · refine .inr (.inr ⟨?_, Expr.inPart_of_argument hcomputes hkey hholds⟩)
    rw [← Binding.asks_scalars hss] at hasks
    rw [Select.orderAsks, List.any_append, List.any_map]
    exact Bool.or_eq_true_iff.2 (.inr hasks)

theorem asks_equalities (ls rs : List Scalar) (h : ls.length = rs.length) (e : SqlExpr) :
    ((ls.zip rs).foldl (fun e (l, r) => .and e (.binary .eq l.expr r.expr)) e).asks =
      (e.asks || ls.any (fun s => s.expr.asks) || rs.any fun s => s.expr.asks) := by
  induction ls generalizing rs e with
  | nil =>
    cases rs with
    | nil => simp
    | cons r rs => cases h
  | cons l ls ih =>
    cases rs with
    | nil => cases h
    | cons r rs =>
      have hand : (SqlExpr.and e (.binary .eq l.expr r.expr)).asks =
          (e.asks || (l.expr.asks || r.expr.asks)) :=
        (SqlExpr.asks_binary _).trans (congrArg _ (SqlExpr.asks_binary _))
      rw [List.zip_cons_cons, List.foldl_cons, ih rs (Nat.succ.inj h), hand, List.any_cons,
        List.any_cons]
      simp only [Bool.or_assoc, Bool.or_left_comm]

theorem asks_matching {ls rs : List Scalar} (hlength : ls.length = rs.length)
    (h : ls.any (fun s => s.expr.asks) = true ∨ rs.any (fun s => s.expr.asks) = true) :
    (matching ls rs).any SqlExpr.asks = true := by
  cases ls with
  | nil =>
    cases rs with
    | nil => simp at h
    | cons r rs => cases hlength
  | cons l ls =>
    cases rs with
    | nil => cases hlength
    | cons r rs =>
      rw [matching, Option.any_some, asks_equalities ls rs (Nat.succ.inj hlength),
        SqlExpr.asks_binary]
      simp only [List.any_cons, Bool.or_eq_true] at h ⊢
      tauto

theorem Rows.Shows.joined {outer : Rows} {kind : JoinKind} {table : Table} {b : Binding}
    {outerKeys innerKeys : List Scalar} (hlength : outerKeys.length = innerKeys.length)
    (h : outer.Shows False order ∨ table.asks = true ∨
      outerKeys.any (fun s => s.expr.asks) = true ∨
      innerKeys.any (fun s => s.expr.asks) = true ∨ b.asks = true ∧ row) :
    Rows.Shows row order ⟨{ outer.select with
      joins := outer.select.joins ++ [⟨kind, table, matching outerKeys innerKeys⟩] }, b⟩ := by
  have hjoin : table.asks = true ∨ outerKeys.any (fun s => s.expr.asks) = true ∨
      innerKeys.any (fun s => s.expr.asks) = true →
        (⟨kind, table, matching outerKeys innerKeys⟩ : Join).asks = true := by
    intro h
    exact Bool.or_eq_true_iff.2 (h.imp_right (asks_matching hlength))
  have hclauses : outer.select.clausesAsk = true ∨
      (⟨kind, table, matching outerKeys innerKeys⟩ : Join).asks = true →
        ({ outer.select with joins := outer.select.joins ++
          [⟨kind, table, matching outerKeys innerKeys⟩] } : Select).clausesAsk = true := by
    rw [Select.clausesAsk_iff, Select.clausesAsk_iff]
    simp only [List.any_append, List.any_cons, List.any_nil, Bool.or_false, Bool.or_eq_true]
    tauto
  rcases h with (h | ⟨-, h⟩ | h) | h | h | h | h
  · exact .inl (hclauses (.inl h))
  · exact h.elim
  · exact .inr (.inr h)
  · exact .inl (hclauses (.inr (hjoin (.inl h))))
  · exact .inl (hclauses (.inr (hjoin (.inr (.inl h)))))
  · exact .inl (hclauses (.inr (hjoin (.inr (.inr h)))))
  · exact .inr (.inl h)

theorem joinRows_shows (kind : JoinKind) (h : Expr.Retained env i op (source :: rest))
    (hinner : ∀ inner, rest[0]? = some inner → inner ∈ (Expr.call i op (source :: rest)).sources)
    (hreplaces : op.replaces (rest.length + 1) .row = true)
    (hstays : op.replaces (rest.length + 1) .order = false)
    (hcomputes : 4 ∈ op.computes .row) (node : Expr) (scope : Scope) :
    Carries ((Expr.call i op (source :: rest)).holds env.marker = true) False
      (joinRows kind node (meanings env (source :: rest)) scope) fun rows =>
        rows.ShowsFor env.marker (.call i op (source :: rest)) := by
  rw [joinRows]
  refine .check fun m hm => ?_
  cases hm
  refine (h.head false scope).bind fun outer => ?_
  have houter := h.not_inPart _ List.mem_cons_self hreplaces
  refine (wrapIf_shows outer _ node).bind fun outer' => .check fun m hm => ?_
  obtain ⟨inner, hi, hretains, hused⟩ := h.argument hm
  have hinnerRow := h.not_inPart _ (hinner inner hi) hreplaces
  refine ((hretains.asSequence false scope).part hused).bind fun innerRows => ?_
  have hinnerRows : Carries ((Expr.call i op (source :: rest)).holds env.marker = true)
      (innerRows.ShowsFor env.marker inner ∨ outer'.ShowsFor env.marker source) _ _ :=
    (wrapUnlessBare_shows innerRows node).beside _
  refine (hinnerRows.before fun h => (h.imp_right And.right).symm).bind fun inner' => ?_
  dsimp only
  cases htable : inner'.select.source with
  | none => exact .unsupported _ _
  | some table =>
    refine .check fun m hm => ?_
    obtain ⟨outerKey, hok, hretains, hused⟩ := h.argument hm
    refine ((hretains.apply scope _).part hused).bind fun ob => .check fun m hm => ?_
    obtain ⟨innerKey, hik, hretains, hused⟩ := h.argument hm
    refine ((hretains.apply scope _).part hused).bind fun ib => ?_
    refine .check fun outerKeys hok' => .check fun innerKeys hik' => ?_
    split
    · exact .refused _ _
    · rename_i hlength
      simp only [Bool.or_eq_true, bne_iff_ne, not_or, not_not] at hlength
      refine .check fun m hm => ?_
      obtain ⟨result, hr, hretains, hused⟩ := h.argument hm
      refine ((hretains.apply scope _).part hused).bind fun b => .pure fun h' => ?_
      refine Rows.Shows.joined hlength.1 ?_
      rw [Binding.asks_scalars hok', Binding.asks_scalars hik']
      rcases h' with (((hinner | houterRows) | ⟨-, hasks⟩) | ⟨-, hasks⟩) | ⟨hholds, hasks⟩
      · refine .inr (.inl ?_)
        rcases hinner with hasks | ⟨-, hpart⟩
        · simpa [htable] using hasks
        · exact absurd hpart hinnerRow
      · exact .inl (houterRows.imp (fun h => (houter h).elim) (Expr.inPart_of_source hstays))
      · exact .inr (.inr (.inl hasks))
      · exact .inr (.inr (.inr (.inl hasks)))
      · exact .inr (.inr (.inr (.inr ⟨hasks, Expr.inPart_of_argument hcomputes hr hholds⟩)))

theorem Rows.Shows.grouped {keys : List Scalar} {key element : Binding} {row' : Prop}
    (h : rows.Shows row' order ∧ rows.select.groupBy = [] ∨
      keys.any (fun s => s.expr.asks) = true ∨ element.asks = true ∧ row)
    (hrow : rows.row.asks = true → row' → element.asks = true ∧ row) :
    Rows.Shows row order ⟨{ rows.select with groupBy := keys.map Scalar.expr },
      .group key element⟩ := by
  have hclauses : rows.select.clausesAsk = true ∧ rows.select.groupBy = [] ∨
      keys.any (fun s => s.expr.asks) = true →
        ({ rows.select with groupBy := keys.map Scalar.expr } : Select).clausesAsk = true := by
    rw [Select.clausesAsk_iff, Select.clausesAsk_iff, List.any_map]
    rintro (⟨h, hgroups⟩ | h)
    · rw [hgroups] at h
      tauto
    · exact .inr (.inr (.inr (.inl h)))
  have hgroup : element.asks = true ∧ row → (Binding.group key element).asks = true ∧ row :=
    And.imp_left fun h => Bool.or_eq_true_iff.2 (.inr h)
  rcases h with ⟨h | ⟨h, hpart⟩ | h, hgroups⟩ | h | h
  · exact .inl (hclauses (.inl ⟨h, hgroups⟩))
  · exact .inr (.inl (hgroup (hrow h hpart)))
  · exact .inr (.inr h)
  · exact .inl (hclauses (.inr h))
  · exact .inr (.inl (hgroup h))

theorem Rows.ShowsFor.of_source (h : rows.ShowsFor env.marker source)
    (hreplaces : ∀ part, op.replaces (rest.length + 1) part = false) :
    rows.ShowsFor env.marker (.call i op (source :: rest)) :=
  h.imp (Expr.inPart_of_source (hreplaces .row)) (Expr.inPart_of_source (hreplaces .order))

abbrev CallShows (env : Surroundings) (i : NodeId) (op : Operator) (es : List Expr) (scope : Scope) :
    Prop :=
  Carries ((Expr.call i op es).holds env.marker = true) False
    (callRows env (.call i op es) op (meanings env es) scope)
    fun rows => rows.ShowsFor env.marker (.call i op es)

theorem filter_shows (h : Expr.Retained env i .filter (source :: rest)) (scope : Scope) :
    CallShows env i .filter (source :: rest) scope := by
  refine .check fun m hm => ?_
  cases hm
  refine (h.head false scope).bind fun rows => .check fun m hm => ?_
  obtain ⟨predicate, he, hretains, hused⟩ := h.argument hm
  exact (restrict_shows hretains hused rows false _ scope).imp fun _ h =>
    Rows.ShowsFor.of_source h fun _ => rfl

theorem project_shows (h : Expr.Retained env i .project (source :: rest)) (scope : Scope) :
    CallShows env i .project (source :: rest) scope := by
  refine .check fun m hm => ?_
  cases hm
  refine (h.head false scope).bind fun rows => ?_
  refine (wrapIf_shows rows _ _).bind fun base => .check fun m hm => ?_
  obtain ⟨selector, he, hretains, hused⟩ := h.argument hm
  refine ((hretains.apply scope _).part hused).bind fun b => .pure fun h' => ?_
  rcases h' with (hclauses | ⟨-, hpart⟩ | ⟨horder, hpart⟩) | ⟨hholds, hasks⟩
  · exact .inl hclauses
  · exact absurd hpart (h.not_inPart _ List.mem_cons_self rfl)
  · exact .inr (.inr ⟨horder, Expr.inPart_of_source rfl hpart⟩)
  · exact .inr (.inl ⟨hasks, Expr.inPart_of_argument List.mem_cons_self he hholds⟩)

theorem skip_shows (h : Expr.Retained env i .skip (source :: rest)) (scope : Scope) :
    CallShows env i .skip (source :: rest) scope := by
  refine .check fun m hm => ?_
  cases hm
  refine .check fun _ _ => (h.head false scope).bind fun rows => .check fun m hm => ?_
  obtain ⟨count, he, hretains, hused⟩ := h.argument hm
  refine ((hretains.asScalar scope).part hused).bind fun s => ?_
  refine ((wrapPaged_shows rows _).beside _).bind fun base => .pure fun h' => ?_
  refine Rows.ShowsFor.of_source (Rows.Shows.withOffset ?_) fun _ => rfl
  exact h'.symm.imp And.right fun h => ⟨h.1, h.2.2⟩

theorem wrapLimited_shows (rows : Rows) (node : Expr) :
    Carries used (rows.Shows row order) (rows.wrapIf rows.select.limit.isSome node) fun rows' =>
      rows'.Shows row order ∧ rows'.select.limit = none :=
  wrapIf_carries (Q := fun s => s.limit = none) (fun _ _ => rfl) fun h =>
    Option.isNone_iff_eq_none.1 (Option.isSome_eq_false_iff.1 h)

theorem take_shows (h : Expr.Retained env i .take (source :: rest)) (scope : Scope) :
    CallShows env i .take (source :: rest) scope := by
  refine .check fun m hm => ?_
  cases hm
  refine .check fun _ _ => (h.head false scope).bind fun rows => .check fun m hm => ?_
  obtain ⟨count, he, hretains, hused⟩ := h.argument hm
  refine ((hretains.asScalar scope).part hused).bind fun s => ?_
  refine ((wrapLimited_shows rows _).beside _).bind fun base => .pure fun h' => ?_
  exact Rows.ShowsFor.of_source (Rows.Shows.withLimit (h'.symm.imp_left And.right)) fun _ => rfl

theorem segment_shows (h : Expr.Retained env i .segment (source :: rest)) (scope : Scope) :
    CallShows env i .segment (source :: rest) scope := by
  refine .check fun m hm => ?_
  cases hm
  refine .check fun _ _ => (h.head false scope).bind fun rows => .check fun m hm => ?_
  cases env.slot? m.node.id with
  | none => exact .unsupported _ _
  | some k =>
    refine (wrapPaged_shows rows _).bind fun base => .pure fun h' => ?_
    refine Rows.ShowsFor.of_source (Rows.Shows.withLimit (.inr ⟨?_, h'.2.1⟩)) fun _ => rfl
    exact Rows.Shows.withOffset (.inr ⟨h'.1, h'.2.2⟩)

theorem distinct_shows (h : Expr.Retained env i .distinct (source :: rest)) (scope : Scope) :
    CallShows env i .distinct (source :: rest) scope := by
  refine .check fun m hm => ?_
  cases hm
  refine (h.head false scope).bind fun rows => (wrapIf_shows rows _ _).bind fun base => ?_
  dsimp only
  split
  · exact .refused _ _
  · exact .pure fun h' => Rows.ShowsFor.of_source h' fun _ => rfl

theorem groups_show {already : Prop} {base : Rows} {key element : Binding}
    (h : already → base.ShowsFor env.marker source ∧ base.select.groupBy = [] ∨ key.asks = true ∨
      element.asks = true ∧ (Expr.call i .groupBy (source :: rest)).inPart env.marker .row = true)
    (hrow : base.row.asks = true → source.inPart env.marker .row = true → element.asks = true ∧
      (Expr.call i .groupBy (source :: rest)).inPart env.marker .row = true) :
    Carries used already (do
      let keys ← key.scalars node
      return (⟨{ base.select with groupBy := keys.map Scalar.expr }, .group key element⟩ : Rows))
      fun rows => rows.ShowsFor env.marker (.call i .groupBy (source :: rest)) := by
  refine .check fun keys hkeys => .pure fun h' => ?_
  have hshows := h h'
  rw [← Binding.asks_scalars hkeys] at hshows
  have hsorted : base.ShowsFor env.marker source →
      base.Shows (source.inPart env.marker .row = true)
        ((Expr.call i .groupBy (source :: rest)).inPart env.marker .order = true) :=
    fun h => h.imp id (Expr.inPart_of_source rfl)
  exact Rows.Shows.grouped (hshows.imp_left (And.imp_left hsorted)) hrow

theorem groupBy_shows (h : Expr.Retained env i .groupBy (source :: rest)) (scope : Scope) :
    CallShows env i .groupBy (source :: rest) scope := by
  refine .check fun m hm => ?_
  cases hm
  refine (h.head false scope).bind fun rows => ?_
  have hwrap : Carries ((Expr.call i .groupBy (source :: rest)).holds env.marker = true)
      (rows.ShowsFor env.marker source) (rows.wrapIf (rows.select.hasPaging ||
        rows.select.distinct || rows.select.hasGroups) (.call i .groupBy (source :: rest))) _ :=
    wrapIf_carries (Q := fun s => s.groupBy = []) (fun _ _ => rfl) fun hopen => by
      simp_all [Select.hasGroups]
  refine hwrap.bind fun base => .check fun m hm => ?_
  obtain ⟨key, hkey, hretains, hused⟩ := h.argument hm
  refine ((hretains.apply scope _).part hused).bind fun kb => ?_
  cases hselector : (meanings env (source :: rest))[2]? with
  | none =>
    refine groups_show (fun h' => h'.imp_right fun h => .inl h.2) fun hasks hpart => ⟨hasks, ?_⟩
    rw [meanings_eq_map, List.getElem?_map, Option.map_eq_none_iff] at hselector
    have hlength := List.getElem?_eq_none_iff.1 hselector
    exact Expr.inPart_of_source (decide_eq_false (Nat.not_le.2 (Nat.lt_succ_of_le hlength))) hpart
  | some selector =>
    obtain ⟨e, he, hretains, hused⟩ := h.selector hselector
    have hlength := (List.getElem?_eq_some_iff.1 he).1
    refine ((hretains.apply scope _).part hused).bind fun element =>
      groups_show (fun h' => ?_) fun _ hpart => ?_
    · rcases h' with (h | ⟨-, hasks⟩) | ⟨hholds, hasks⟩
      · exact .inl h
      · exact .inr (.inl hasks)
      · exact .inr (.inr ⟨hasks, Expr.inPart_of_argument List.mem_cons_self he hholds⟩)
    · exact absurd hpart (h.not_inPart _ List.mem_cons_self (decide_eq_true hlength))

theorem callRows_shows (h : Expr.Retained env i op es) (scope : Scope) :
    CallShows env i op es scope := by
  cases es with
  | nil => exact .check fun m hm => nomatch hm
  | cons source rest =>
    cases op with
    | filter => exact filter_shows h scope
    | project => exact project_shows h scope
    | orderBy | orderByDescending =>
      exact .check fun _ _ =>
        orderRows_shows h true _ rfl (fun _ => rfl) nofun List.mem_cons_self _ scope
    | thenBy | thenByDescending =>
      exact .check fun _ _ =>
        orderRows_shows h false _ rfl nofun (fun _ => rfl) List.mem_cons_self _ scope
    | skip => exact skip_shows h scope
    | take => exact take_shows h scope
    | segment => exact segment_shows h scope
    | distinct => exact distinct_shows h scope
    | groupBy => exact groupBy_shows h scope
    | join | leftJoin =>
      refine .check fun _ _ =>
        joinRows_shows _ h (fun inner hinner => ?_) rfl rfl List.mem_cons_self _ scope
      exact List.mem_cons_of_mem _ (List.mem_of_getElem? (i := 0) (by simpa using hinner))
    | _ => exact .check fun _ _ => .throw _

theorem markerRows_shows (h : Expr.Retained env i op es) (hmarker : env.marker = some i)
    (scope : Scope) :
    Carries ((Expr.call i op es).holds env.marker = true) False
      (markerRows env (.call i op es) op (meanings env es) scope)
      fun rows => rows.ShowsFor env.marker (.call i op es) := by
  have hholds : (Expr.call i op es).holds env.marker = true :=
    Expr.holds_iff.2 ⟨i, op, es, List.mem_cons_self, hmarker⟩
  refine Carries.check fun _ _ => .check fun m hm => ?_
  obtain ⟨source, rest, rfl⟩ := exists_source hm
  cases hm
  refine (h.head _ scope).bind fun rows => ?_
  refine (wrapPaged_shows rows _).bind fun base p => ?_
  have hpage : ((base.withLimit (.param .segmentLength)).withOffset (.param .segmentStart)).ShowsFor
      env.marker (.call i op (source :: rest)) := Rows.Shows.withOffset (.inl rfl)
  exact Builds.useSegment.bind fun q _ _ _ => .pure ⟨fun _ => hpage, fun _ => .inr ⟨hholds, hpage⟩⟩

theorem sequenceOfCall_shows (h : Expr.Retained env i op es) (inRun : Bool) (scope : Scope) :
    Carries ((Expr.call i op es).holds env.marker = true) False
      (sequenceOfCall env (.call i op es) op (meanings env es) inRun scope)
      fun rows => rows.ShowsFor env.marker (.call i op es) := by
  rw [sequenceOfCall]
  split
  case isTrue hstep =>
    obtain ⟨rfl, hstep⟩ := Bool.and_eq_true_iff.1 hstep
    refine .check fun m hm => ?_
    obtain ⟨source, rest, rfl⟩ := exists_source hm
    cases hm
    refine (h.head true scope).imp fun rows hrows => Rows.ShowsFor.of_source hrows fun part => ?_
    cases op <;> first | rfl | cases hstep
  case isFalse =>
    split
    case isTrue hmarker => exact markerRows_shows h hmarker scope
    case isFalse => exact (callRows_shows h scope).bind fun rows => .pure id

end Calls

section Terminals

variable {env : Surroundings} {i : NodeId} {op : Operator} {source e : Expr} {rest es : List Expr}
  {scope : Scope} {rows : Rows} {node : Expr}

def Terminal.asks : Terminal → Bool
  | .single select _ _ _ | .exist select _ | .scalar select _ => select.asks
  | .isIn value select => value.asks || select.asks

theorem asks_aggregateOver (op : Operator) (s : Scalar) :
    (aggregateOver op s).expr.asks = s.expr.asks := by
  cases op <;> simp [aggregateOver, SqlExpr.asks_coalesce, SqlExpr.asks_aggregateOf, SqlExpr.asks_int]

theorem filtered_shows (h : Expr.Retained env i op (source :: rest)) (scope : Scope) :
    Carries ((Expr.call i op (source :: rest)).holds env.marker = true) False
      (filtered (.call i op (source :: rest)) (source.meaning env)
        (meanings env (source :: rest))[1]? scope)
      fun rows => rows.ShowsFor env.marker source := by
  refine (h.head false scope).bind fun rows => ?_
  cases hpredicate : (meanings env (source :: rest))[1]? with
  | none => exact .pure id
  | some predicate =>
    obtain ⟨e, he, hretains, hused⟩ := h.selector hpredicate
    exact restrict_shows hretains hused rows false _ scope

theorem singleRow_shows (h : Expr.Retained env i op (source :: rest)) (nullable unique : Bool)
    (scope : Scope) :
    Carries ((Expr.call i op (source :: rest)).holds env.marker = true) False
      (singleRow (.call i op (source :: rest)) (meanings env (source :: rest)) nullable unique scope)
      fun t => t.asks = true := by
  rw [singleRow]
  refine .check fun m hm => ?_
  cases hm
  refine (filtered_shows h scope).bind fun rows => ?_
  refine (wrapLimited_shows rows _).bind fun base => .check fun s hs => .pure fun h' => ?_
  exact Rows.asks_project hs (Rows.Shows.withLimit (.inr h'))

theorem asks_existing (h : rows.ShowsFor env.marker source)
    (hrow : source.inPart env.marker .row ≠ true) (horder : source.inPart env.marker .order ≠ true) :
    (rows.orderedOnlyIfPaged.selecting (.int 1)).asks = true :=
  Rows.Shows.asks_selecting (Rows.Shows.orderedOnlyIfPaged (h.imp hrow horder)) _

/-- What is aggregated asks for what the rows do, or they are not replaced by it. -/
theorem selected_shows (h : Expr.Retained env i op (source :: rest))
    (hreplaces : op.replaces (rest.length + 1) .row = decide (2 ≤ rest.length + 1)) (scope : Scope) :
    Carries ((Expr.call i op (source :: rest)).holds env.marker = true)
      (rows.Shows (source.inPart env.marker .row = true) False)
      (selected (.call i op (source :: rest)) (meanings env (source :: rest))[1]? rows.row scope)
      fun value => rows.Shows False False ∨ value.expr.asks = true := by
  cases hselector : (meanings env (source :: rest))[1]? with
  | none =>
    refine .lift fun value hvalue h' => ?_
    rcases h' with h | ⟨hasks, -⟩ | ⟨-, h⟩
    · exact .inl (.inl h)
    · exact .inr ((Binding.asks_asScalar hvalue).trans hasks)
    · exact h.elim
  | some selector =>
    obtain ⟨e, he, hretains, hused⟩ := h.selector hselector
    have hlength := (List.getElem?_eq_some_iff.1 he).1
    have hrow := h.not_inPart .row List.mem_cons_self
      (hreplaces.trans (decide_eq_true hlength))
    exact ((hretains.applyScalar scope _).part hused).imp fun value h' =>
      h'.imp (fun h => h.imp hrow id) And.right

theorem terminal_shows (h : Expr.Retained env i op es) (scope : Scope) :
    Carries ((Expr.call i op es).holds env.marker = true) False
      (terminal (.call i op es) op (meanings env es) scope) fun t => t.asks = true := by
  rw [terminal]
  refine .check fun m hm => ?_
  obtain ⟨source, rest, rfl⟩ := exists_source hm
  cases hm
  cases op with
  | first | firstOrDefault | single | singleOrDefault => exact singleRow_shows h _ _ scope
  | count | longCount =>
    have hrow := h.not_inPart .row List.mem_cons_self rfl
    have horder := h.not_inPart .order List.mem_cons_self rfl
    refine (filtered_shows h scope).bind fun rows => ?_
    refine ((forAggregate_shows rows _).before fun h => h.imp hrow horder).bind fun base =>
      .pure fun h' => ?_
    exact h'.asks_selecting _
  | any =>
    have hrow := h.not_inPart .row List.mem_cons_self rfl
    have horder := h.not_inPart .order List.mem_cons_self rfl
    exact (filtered_shows h scope).bind fun rows => .pure fun h' => asks_existing h' hrow horder
  | all =>
    have hrow := h.not_inPart .row List.mem_cons_self rfl
    have horder := h.not_inPart .order List.mem_cons_self rfl
    refine (h.head false scope).bind fun rows => .check fun m hm => ?_
    obtain ⟨predicate, he, hretains, hused⟩ := h.argument hm
    exact (restrict_shows hretains hused rows true _ scope).bind fun rows => .pure fun h' =>
      asks_existing h' hrow horder
  | contains =>
    have horder := h.not_inPart .order List.mem_cons_self rfl
    refine (h.head false scope).bind fun rows => ?_
    cases hrow : rows.row with
    | scalar element =>
      refine .check fun m hm => ?_
      obtain ⟨operand, he, hretains, hused⟩ := h.argument hm
      refine ((hretains.asScalar scope).part hused).bind fun value => .pure fun h' => ?_
      rw [Terminal.asks, Bool.or_eq_true]
      rcases h' with h' | ⟨-, hasks⟩
      · rcases h' with hclauses | ⟨hasks, -⟩ | ⟨-, hpart⟩
        · have hordered : rows.orderedOnlyIfPaged.Shows False False :=
            Rows.Shows.orderedOnlyIfPaged (.inl hclauses)
          exact .inr (hordered.asks_selecting _)
        · rw [hrow] at hasks
          exact .inr (Rows.asks_selecting hasks)
        · exact absurd hpart horder
      · exact .inl hasks
    | _ => exact .unsupported _ _
  | sum | min | max | average =>
    have horder := h.not_inPart .order List.mem_cons_self rfl
    refine (h.head false scope).bind fun rows => ?_
    refine ((forAggregate_shows rows _).before fun h => h.imp id horder).bind fun base => ?_
    refine (selected_shows h rfl scope).bind fun value => .pure fun h' => ?_
    rcases h' with h' | hasks
    · exact h'.asks_selecting _
    · exact Rows.asks_selecting ((asks_aggregateOver _ _).trans hasks)
  | _ => exact .throw _

theorem not_holds_of_isPath {marker : Option NodeId} (hkeeps : source.keepsParts marker = true)
    (hpath : (source.skeletonIn []).isPath = true) : source.holds marker ≠ true := by
  cases source with
  | param i name => exact Bool.false_ne_true
  | member i target name =>
    intro h
    rw [Expr.keepsParts, show target.holds marker = true from h] at hkeeps
    cases hkeeps
  | _ => cases hpath

theorem aggregateIn_shows (h : Expr.Retained env i op (source :: rest)) (scope : Scope)
    (b : Binding) :
    Carries ((Expr.call i op (source :: rest)).holds env.marker = true) False
      (aggregateIn node op (meanings env rest) scope b)
      fun found => ∃ s, found = some s ∧ s.expr.asks = true := by
  cases b with
  | group key element =>
    have said : ∀ {m : Meaning}, (meanings env rest)[0]? = some m →
        Carries ((Expr.call i op (source :: rest)).holds env.marker = true) False
          (m.applyScalar scope element) fun s => s.expr.asks = true := by
      intro m hm
      obtain ⟨e, -, hretains, hused⟩ := h.selector (k := 1) hm
      exact (hretains.applyScalar scope element).within hused
    cases op with
    | count | longCount =>
      cases hpredicate : (meanings env rest)[0]? with
      | none =>
        rw [aggregateIn, hpredicate]
        exact .pure False.elim
      | some predicate =>
        rw [aggregateIn, hpredicate]
        refine (said hpredicate).bind fun test => .pure fun h' => ⟨_, rfl, ?_⟩
        simp [SqlExpr.asks_aggregateOf, SqlExpr.asks_cases, h']
    | sum | min | max | average =>
      rw [aggregateIn]
      refine Carries.bind (P := fun s => s.expr.asks = true) ?_ fun value => .pure fun h' =>
        ⟨_, rfl, (asks_aggregateOver _ _).trans h'⟩
      cases hselector : (meanings env rest)[0]? with
      | none => exact .lift fun _ _ => False.elim
      | some selector => exact said hselector
    | _ => exact .throw _
  | _ => exact .pure False.elim

theorem scalarOfCall_shows (h : Expr.Retained env i op es) (scope : Scope) :
    Carries ((Expr.call i op es).holds env.marker = true) False
      (scalarOfCall (.call i op es) op (meanings env es) scope) fun s => s.expr.asks = true := by
  have grouped : Carries ((Expr.call i op es).holds env.marker = true) False
      (aggregateOfGroup (.call i op es) op (meanings env es) scope)
      fun found => ∃ s, found = some s ∧ s.expr.asks = true := by
    cases es with
    | nil => exact .pure False.elim
    | cons source rest =>
      rw [meanings, aggregateOfGroup_cons _ [], node_meaning]
      split
      case isTrue hpath =>
        have hidle := not_holds_of_isPath (h.argsKeep source List.mem_cons_self) hpath
        exact (((h.args source List.mem_cons_self).asBinding scope).idle hidle).bind fun b =>
          aggregateIn_shows h scope b
      case isFalse => exact .pure False.elim
  refine grouped.bind fun found => ?_
  cases found with
  | some s =>
    refine .pure fun h' => ?_
    obtain ⟨_, hs, hasks⟩ := h'
    cases hs
    exact hasks
  | none =>
    dsimp only
    split
    · exact .refused _ _
    · refine ((terminal_shows h scope).before fun h' => ?_).bind fun t => ?_
      · obtain ⟨_, hs, -⟩ := h'
        cases hs
      · cases t with
        | single select row nullable unique =>
          cases row with
          | scalar s => exact .pure fun h' => (SqlExpr.asks_subquery _).trans h'
          | _ => exact .unsupported _ _
        | exist select negated => exact .pure fun h' => (SqlExpr.asks_exist _ _).trans h'
        | scalar select nullable => exact .pure fun h' => (SqlExpr.asks_subquery _).trans h'
        | isIn value select => exact .pure fun h' => (SqlExpr.asks_isIn _ _).trans h'

end Terminals

end SequenceQuery
