import SequenceQuery.Proofs.Reading

namespace SequenceQuery

theorem Select.unpaged_of {s : Select} (h : s.hasPaging = false) :
    s.limit = none ∧ s.offset = none := by
  simpa [hasPaging] using h

theorem Select.isOpen_of {s : Select}
    (h : (s.hasPaging || s.distinct || s.hasGroups) = false) : s.IsOpen := by
  simp only [Bool.or_eq_false_iff] at h
  obtain ⟨⟨hpaging, hdistinct⟩, -⟩ := h
  exact ⟨hdistinct, (unpaged_of hpaging).1, (unpaged_of hpaging).2⟩

theorem Binding.isGroup_of_isPlain {b : Binding} (h : b.isPlain) : b.isGroup = false := by
  cases b with
  | group => cases h
  | _ => rfl

section

variable {engine : Engine} {db : Database} {arguments : Arguments} {env : Surroundings}
  {t : ElementType} {xs : List Element} {rows : Rows} {u v : Prop} {node source body : Expr}
  {i : NodeId} {p : String}

theorem readable_of_operatorFree (hbody : body.operatorFree)
    (hsupplied : ∀ n ∈ body.nodes, env.Supplies arguments n) :
    ∀ n ∈ body.nodes, Readable env arguments n := by
  intro n hn
  have hcall := List.all_eq_true.1 hbody n hn
  exact ⟨by simpa using hcall, hsupplied n hn⟩

theorem apply_stands (hrow : rows.row.isPlain)
    (hbody : ∀ n ∈ body.nodes, Readable env arguments n) :
    Yields u (((Expr.lambda i [p] body).meaning env).apply [] [rows.row])
      (Binding.Stands engine db arguments env [(p, rows.row)] body) u :=
  meaning_stands (List.forall_mem_singleton.2 hrow) body hbody u

theorem applyScalar_stands (hrow : rows.row.isPlain)
    (hbody : ∀ n ∈ body.nodes, Readable env arguments n) :
    Yields u (((Expr.lambda i [p] body).meaning env).applyScalar [] rows.row)
      (Scalar.Stands engine db arguments env [(p, rows.row)] body) u :=
  (apply_stands hrow hbody).bind fun _ hb => .lift fun _ hs => hb.scalar hs

theorem restrict_reads (h : rows.Reads engine db arguments t xs)
    (hbody : ∀ n ∈ body.nodes, Readable env arguments n) :
    Yields u (restrict rows ((Expr.lambda i [p] body).meaning env) false node [])
      (Rows.Reads engine db arguments t (xs.filter (body.accepts engine env.dialect.callee p)))
      u := by
  rw [restrict]
  simp only [Binding.isGroup_of_isPlain h.plain.row, Bool.false_eq_true, if_false]
  refine (h.wrapIf (fun _ h => h) Select.isOpen_of node).bind fun rows hrows => ?_
  obtain ⟨hreads, hopen⟩ := hrows
  have hpredicate : Yields u (((Expr.lambda i [p] body).meaning env).applyScalar [] rows.row)
      (Scalar.Stands engine db arguments env [(p, rows.row)] body) u :=
    applyScalar_stands hreads.plain.row hbody
  refine hpredicate.bind fun s hs => .pure (hreads.filterBy hopen fun row => ?_)
  exact congrArg Cell.isTrue (hs.cell row)

theorem filter_reads
    (hsource : Yields u ((source.meaning env).asSequence false [])
      (Rows.Reads engine db arguments t xs) v)
    (hbody : ∀ n ∈ body.nodes, Readable env arguments n) :
    Yields u (callRows env node .filter (meanings env [source, .lambda i [p] body]) [])
      (Rows.Reads engine db arguments t (xs.filter (body.accepts engine env.dialect.callee p))) v :=
  .bindOk (hsource.bind fun _ hrows => .bindOk (restrict_reads hrows hbody))

theorem project_reads
    (hsource : Yields u ((source.meaning env).asSequence false [])
      (Rows.Reads engine db arguments t xs) v)
    (hbody : ∀ n ∈ body.nodes, Readable env arguments n)
    (hcolumns : (body.typeIn [(p, t)]).leaves ≠ []) :
    Yields u (callRows env node .project (meanings env [source, .lambda i [p] body]) [])
      (Rows.Reads engine db arguments (body.typeIn [(p, t)])
        (xs.map fun x => body.element engine env.dialect.callee [(p, x)])) v := by
  refine .bindOk (hsource.bind fun rows hrows => ?_)
  refine (hrows.wrapIf (fun _ h => h.distinct) (fun h => h) node).bind fun rows hrows => .bindOk ?_
  obtain ⟨hreads, hdistinct⟩ := hrows
  have hselector : Yields v (((Expr.lambda i [p] body).meaning env).apply [] [rows.row])
      (Binding.Stands engine db arguments env [(p, rows.row)] body) v :=
    apply_stands hreads.plain.row hbody
  refine hselector.bind fun b hb => .pure ?_
  refine hreads.withRow hdistinct hb.plain ?_ hcolumns hb.element
  rw [hb.type, ← hreads.type]
  rfl

theorem Rows.Reads.wrapPaged (h : rows.Reads engine db arguments t xs) (node : Expr) :
    Yields u (rows.wrapIf rows.select.hasPaging node) (fun rows =>
      rows.Reads engine db arguments t xs ∧ rows.select.limit = none ∧ rows.select.offset = none)
      u :=
  h.wrapIf (Q := fun s => s.limit = none ∧ s.offset = none) (fun _ h => ⟨h.limit, h.offset⟩)
    Select.unpaged_of node

theorem distinct_reads
    (hsource : Yields u ((source.meaning env).asSequence false [])
      (Rows.Reads engine db arguments t xs) v) :
    Yields u (callRows env node .distinct (meanings env [source]) [])
      (Rows.Reads engine db arguments t
        (keepFirst (fun x y => engine.sameCells x.leaves y.leaves) xs)) v := by
  refine .bindOk (hsource.bind fun rows hrows => ?_)
  refine (hrows.wrapPaged node).bind fun rows hrows => ?_
  obtain ⟨hreads, hpaging⟩ := hrows
  simp only [Binding.isGroup_of_isPlain hreads.plain.row, Bool.false_eq_true, if_false]
  exact .pure (hreads.asDistinct hpaging)

variable (engine db) in
theorem count_stands {n : Int64} (hcount : env.Supplies arguments (.const i (.int n))) :
    Yields u (((Expr.const i (.int n)).meaning env).asScalar [])
      (fun s => (s.expr.cellIn engine db arguments []).count? = some n.toInt.toNat) u := by
  have hstands : Meaning.Stands engine db arguments env [] (.const i (.int n))
      ((Expr.const i (.int n)).meaning env) := fun _ => const_stands hcount
  refine (asScalar_stands hstands).imp fun s hs => ?_
  rw [hs.cell []]
  rfl

theorem mustPage_yields (env : Surroundings) (node : Expr) :
    Yields u (liftM (env.mustPage node)) (fun _ => True) u :=
  .lift fun _ _ => trivial

theorem skip_reads {n : Int64}
    (hsource : Yields u ((source.meaning env).asSequence false [])
      (Rows.Reads engine db arguments t xs) v)
    (hcount : env.Supplies arguments (.const i (.int n))) :
    Yields u (callRows env node .skip (meanings env [source, .const i (.int n)]) [])
      (Rows.Reads engine db arguments t (xs.drop n.toInt.toNat)) v := by
  refine .bindOk ((mustPage_yields env node).bind fun _ _ => hsource.bind fun rows hrows => ?_)
  refine .bindOk ((count_stands engine db hcount).bind fun s hs => ?_)
  refine (hrows.wrapPaged node).bind fun rows hrows => .pure ?_
  obtain ⟨hreads, hpaging⟩ := hrows
  have hoffset := hreads.withOffset hpaging s.expr
  rwa [hs] at hoffset

theorem take_reads {n : Int64}
    (hsource : Yields u ((source.meaning env).asSequence false [])
      (Rows.Reads engine db arguments t xs) v)
    (hcount : env.Supplies arguments (.const i (.int n))) :
    Yields u (callRows env node .take (meanings env [source, .const i (.int n)]) [])
      (Rows.Reads engine db arguments t (xs.take n.toInt.toNat)) v := by
  refine .bindOk ((mustPage_yields env node).bind fun _ _ => hsource.bind fun rows hrows => ?_)
  refine .bindOk ((count_stands engine db hcount).bind fun s hs => ?_)
  refine (hrows.wrapIf (Q := fun s => s.limit = none) (fun _ h => h.limit)
    (by simp) node).bind
    fun rows hrows => .pure ?_
  obtain ⟨hreads, hlimit⟩ := hrows
  have hlimited := hreads.withLimit hlimit s.expr
  rwa [hs] at hlimited

/-- The counts of a segment put on short rows without paging select what the segment selects. -/
theorem Rows.Reads.paged (h : rows.Reads engine db arguments t xs)
    (hpaging : rows.select.limit = none ∧ rows.select.offset = none)
    (hshort : xs.length < Segment.countBound) {s : Segment} {limit offset : SqlExpr}
    (hoffset : offset.cellIn engine db arguments [] = s.startValue.cell)
    (hlimit : limit.cellIn engine db arguments [] = s.lengthValue.cell) :
    Rows.Reads engine db arguments t (s.rows xs) ((rows.withOffset offset).withLimit limit) := by
  have hreads := (h.withOffset hpaging offset).withLimit hpaging.1 limit
  rwa [hoffset, hlimit, page_page, Segment.page_of_values hshort] at hreads

theorem segment_reads {s : Segment} (hshort : xs.length < Segment.countBound)
    (hsource : Yields u ((source.meaning env).asSequence false [])
      (Rows.Reads engine db arguments t xs) v)
    (hsegment : env.Supplies arguments (.segment i s)) :
    Yields u (callRows env node .segment (meanings env [source, .segment i s]) [])
      (Rows.Reads engine db arguments t (s.rows xs)) v := by
  refine .bindOk ((mustPage_yields env node).bind fun _ _ => hsource.bind fun rows hrows => ?_)
  refine .bindOk ?_
  have hnode : ((Expr.segment i s).meaning env).node.id = (Expr.segment i s).id := rfl
  rw [hnode]
  cases hslot : env.slot? (Expr.segment i s).id with
  | none => exact .unsupported _ _
  | some slot =>
    refine (hrows.wrapPaged node).bind fun rows hrows => .pure ?_
    obtain ⟨hreads, hpaging⟩ := hrows
    exact hreads.paged hpaging hshort (cellIn_slot (hsegment slot hslot 0 _ rfl) [])
      (cellIn_slot (hsegment slot hslot 1 _ rfl) [])

theorem cellIn_segmentStart {s : Segment} (h : arguments.segment = some s) (row : Env) :
    SqlExpr.cellIn engine db arguments row (.param .segmentStart) = s.startValue.cell := by
  rw [SqlExpr.cellIn, SqlExpr.cell, Arguments.resolve, h]

theorem cellIn_segmentLength {s : Segment} (h : arguments.segment = some s) (row : Env) :
    SqlExpr.cellIn engine db arguments row (.param .segmentLength) = s.lengthValue.cell := by
  rw [SqlExpr.cellIn, SqlExpr.cell, Arguments.resolve, h]

/-- At the paging marker the segment that the command is run with selects from what lies below the
run of paging steps, and it is asked for from then on. -/
theorem marker_reads {op : Operator} {rest : List Expr} {s : Segment}
    (hshort : xs.length < Segment.countBound)
    (hsource : Yields u ((source.meaning env).asSequence (decide (op ≠ .segment)) [])
      (Rows.Reads engine db arguments t xs) u)
    (hsegment : arguments.segment = some s) :
    Yields u (markerRows env node op (meanings env (source :: rest)) [])
      (Rows.Reads engine db arguments t (s.rows xs)) True := by
  have hmarker : markerRows env node op (meanings env (source :: rest)) [] = (do
      env.mustPage node
      let rows ← (source.meaning env).asSequence (decide (op ≠ .segment)) []
      let rows ← rows.wrapIf rows.select.hasPaging node
      modify fun p => { p with segmentUsed := true }
      let paged := (rows.withLimit (.param .segmentLength)).withOffset (.param .segmentStart)
      return paged.withOrigin node) := by
    cases op <;> rfl
  rw [hmarker]
  refine (mustPage_yields env node).bind fun _ _ => ?_
  refine hsource.bind fun rows hrows => (hrows.wrapPaged node).bind fun rows hrows => ?_
  obtain ⟨hreads, hpaging⟩ := hrows
  have hpaged := hreads.paged hpaging hshort (cellIn_segmentStart hsegment [])
    (cellIn_segmentLength hsegment [])
  refine .bind (P := fun _ => True) (v := True) ?_ fun _ _ => .pure (hpaged.withOrigin node)
  intro p _ a q hrun
  cases hrun
  exact ⟨trivial, fun _ => rfl⟩

end

end SequenceQuery
