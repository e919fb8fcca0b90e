import SequenceQuery.Proofs.NestedPlaces
import SequenceQuery.Proofs.ResultOrder
import SequenceQuery.Proofs.Wrapping

namespace SequenceQuery

namespace Expr

def isEntity : Expr → Bool
  | .entity .. => true
  | _ => false

def isLambda : Expr → Bool
  | .lambda .. => true
  | _ => false

def readsTable (e : Expr) : Bool := e.nodes.any isEntity

/-- Whether an element of the sequence holds a value that a nested statement computes. -/
def holdsQuery : Expr → Bool
  | .call _ op (source :: rest) =>
    match op with
    | .project | .groupBy => rest.any readsTable
    | .join | .leftJoin => (rest[3]?).any readsTable
    | .distinct => false
    | _ => source.holdsQuery
  | _ => false

/-- No lambda is applied to an element that holds a value that a nested statement computes. -/
def ReadsColumns (e : Expr) : Prop :=
  ∀ n ∈ e.nodes, n.children.any isLambda = true → ∀ s ∈ n.sources, s.holdsQuery = false

instance (e : Expr) : Decidable e.ReadsColumns :=
  inferInstanceAs (Decidable (∀ n ∈ e.nodes, n.children.any isLambda = true →
    ∀ s ∈ n.sources, s.holdsQuery = false))

end Expr

def Scope.Plain (scope : Scope) : Prop := ∀ entry ∈ scope, entry.2.contents = 0

structure Rows.Lie (root : Expr) (start stop : Nat) (node : Expr) (rows : Rows) : Prop where
  reads : node.readsTable = true
  items : rows.select.items = []
  laid : Laid root start stop False rows.contents
  plain : node.holdsQuery = false → rows.row.contents = 0 ∨ rows.select.distinct = true

/-- With a scope that binds columns, what a part of the query means has its statements at places in a
range. -/
structure Meaning.Lies (root : Expr) (start stop : Nat) (e : Expr) (m : Meaning) : Prop where
  asSequence : ∀ {scope p} (inRun : Bool), Scope.Plain scope →
    Builds p (m.asSequence inRun scope) fun _ rows => rows.Lie root (start + 1) stop e ∧
      (inRun = false → rows.select.origin = some e ∧ rows.select.place root = start)
  asBinding : ∀ {scope p}, Scope.Plain scope →
    Builds p (m.asBinding scope) fun _ b =>
      Laid root start stop (e.readsTable = false) b.contents ∧ b.groups = 0
  apply : ∀ {scope p elements}, Scope.Plain scope →
    (e.isLambda = true → ∀ b ∈ elements, b.contents = 0) →
    Builds p (m.apply scope elements) fun _ b => e.isLambda = true ∧
      Laid root start stop (e.readsTable = false) b.contents

/-- The parts that a node is put together from stand behind it, each in a range of its own. -/
structure Expr.LaidOut (env : Surroundings) (root : Expr) (start stop : Nat) (bound : Nat → Nat)
    (node : Expr) (parts : List Expr) : Prop where
  first : bound 0 = start + 1
  mono : Monotone bound
  le : ∀ k, bound k ≤ stop
  lies : ∀ {k} {e : Expr}, parts[k]? = some e → (e.meaning env).Lies root (bound k) (bound (k + 1)) e
  idle : node.readsTable = false → ∀ e ∈ parts, e.readsTable = false
  plain : ∀ e ∈ parts, e.isLambda = true → ∀ s ∈ node.sources, s.holdsQuery = false

variable {env : Surroundings} {root node source e : Expr} {start stop mid first : Nat}
  {bound : Nat → Nat} {scope : Scope} {p : Progress} {m : Meaning} {idle : Prop}

namespace Meaning.Lies

theorem asScalar (h : m.Lies root start stop e) (hs : scope.Plain) :
    Builds p (m.asScalar scope) fun _ s =>
      Laid root start stop (e.readsTable = false) s.expr.contents :=
  (h.asBinding hs).bind fun _ _ _ hb => .lift fun _ hscalar =>
    Binding.contents_asScalar hscalar ▸ hb.1

theorem applyOne (h : m.Lies root start stop e) (hs : scope.Plain) {element : Binding}
    (helement : e.isLambda = true → element.contents = 0) :
    Builds p (m.apply scope [element]) fun _ b => e.isLambda = true ∧
      Laid root start stop (e.readsTable = false) b.contents :=
  h.apply hs fun hlambda => List.forall_mem_singleton.2 (helement hlambda)

theorem applyScalar (h : m.Lies root start stop e) (hs : scope.Plain) {element : Binding}
    (helement : e.isLambda = true → element.contents = 0) :
    Builds p (m.applyScalar scope element) fun _ s =>
      Laid root start stop (e.readsTable = false) s.expr.contents :=
  (h.applyOne hs helement).bind fun _ _ _ hb => .lift fun _ hscalar =>
    Binding.contents_asScalar hscalar ▸ hb.2

end Meaning.Lies

namespace Rows

variable {rows : Rows}

theorem Lie.widen (h : rows.Lie root start stop node) {first last : Nat} (hfirst : first ≤ start)
    (hlast : stop ≤ last) : rows.Lie root first last node :=
  { h with laid := h.laid.widen hfirst hlast }

theorem Lie.of_source (h : rows.Lie root start stop source)
    (hreads : source.readsTable = true → node.readsTable = true)
    (hplain : node.holdsQuery = false → source.holdsQuery = false) : rows.Lie root start stop node :=
  { h with
    reads := hreads h.reads
    plain := fun hnode => h.plain (hplain hnode) }

theorem Lie.withOrigin (h : rows.Lie root start stop node) (origin : Expr) :
    (rows.withOrigin origin).Lie root start stop node :=
  { h with laid := (contents_withOrigin rows origin).symm ▸ h.laid }

theorem Lie.extend (h : rows.Lie root start mid node) (select : Select) {more : Multiset Select}
    (hitems : select.items = rows.select.items) (hdistinct : select.distinct = rows.select.distinct)
    (hmore : Laid root first stop idle more) (hle : mid ≤ first)
    (hcontents : select.contents ≤ rows.select.contents + more) :
    Lie root start stop node { rows with select := select } where
  reads := h.reads
  items := hitems.trans h.items
  laid := by
    refine (h.laid.add (hmore.imp False.elim) hle).of_le ?_
    rw [contents, contents, add_right_comm]
    exact Multiset.add_le_add_right hcontents
  plain hnode := hdistinct ▸ h.plain hnode

theorem Lie.withLimit (h : rows.Lie root start mid node) {e : SqlExpr}
    (he : Laid root first stop idle e.contents) (hle : mid ≤ first) :
    (rows.withLimit e).Lie root start stop node :=
  h.extend { rows.select with limit := some e } rfl rfl he hle
    (Select.contents_withLimit _ _)

theorem Lie.withOffset (h : rows.Lie root start mid node) {e : SqlExpr}
    (he : Laid root first stop idle e.contents) (hle : mid ≤ first) :
    (rows.withOffset e).Lie root start stop node :=
  h.extend { rows.select with offset := some e } rfl rfl he hle
    (Select.contents_withOffset _ _)

theorem Lie.paged (h : rows.Lie root start stop node) (limit offset : Source) :
    ((rows.withOffset (.param offset)).withLimit (.param limit)).Lie root start stop node := by
  have hnothing : ∀ source : Source, Laid root stop stop False (SqlExpr.param source).contents :=
    fun _ => .zero le_rfl
  exact (h.withOffset (hnothing offset) le_rfl).withLimit (hnothing limit) le_rfl

theorem Lie.withRow (h : rows.Lie root start mid source) {row : Binding}
    (hrow : Laid root first stop idle row.contents) (hle : mid ≤ first)
    (hreads : source.readsTable = true → node.readsTable = true)
    (hplain : node.holdsQuery = false → row.contents = 0) :
    Lie root start stop node { rows with row := row } where
  reads := hreads h.reads
  items := h.items
  laid := by
    refine (h.laid.add (hrow.imp False.elim) hle).of_le ((contents_le _).trans ?_)
    exact Multiset.add_le_add_right (Multiset.le_add_right _ _)
  plain hnode := .inl (hplain hnode)

/-- Rows are the same rows read from a derived table, which has columns only. -/
theorem Lie.wrapIf (h : rows.Lie root start stop source) (condition : Bool) (node : Expr) :
    Builds p (rows.wrapIf condition node) fun _ base => base.Lie root start stop source ∧
      (base.select.origin = rows.select.origin ∨ base.select.origin = some node) ∧
      (source.holdsQuery = false → (rows.select.distinct = true → condition = true) →
        base.row.contents = 0) := by
  cases condition with
  | false =>
    refine .pure ⟨h, .inl rfl, fun hplain hdistinct => (h.plain hplain).resolve_right fun hd => ?_⟩
    cases hdistinct hd
  | true =>
    refine Builds.check fun s hs => Builds.freshLabel.bind fun q label _ _ => .pure ?_
    obtain ⟨hcontents, hrow⟩ := contents_derived hs h.items label (some node)
    exact ⟨⟨h.reads, rfl, hcontents ▸ h.laid, fun _ => .inl hrow⟩, .inr rfl, fun _ _ => hrow⟩

end Rows

theorem contents_negateIf (negate : Bool) (e : SqlExpr) : (negateIf negate e).contents = e.contents := by
  cases negate <;> rfl

section Calls

theorem restrict_lie {rows : Rows} (h : rows.Lie root start mid source)
    (hm : m.Lies root first stop e) (hle : mid ≤ first)
    (hplain : e.isLambda = true → source.holdsQuery = false) (hs : scope.Plain) (negate : Bool) :
    Builds p (restrict rows m negate node scope) fun _ out => out.Lie root start stop source ∧
      (out.select.origin = rows.select.origin ∨ out.select.origin = some node) := by
  rw [restrict]
  split
  case isTrue =>
    split
    case isTrue => exact .refused _ _
    case isFalse hopen =>
      simp only [Bool.or_eq_true, not_or, Bool.not_eq_true] at hopen
      have hrow : e.isLambda = true → rows.row.contents = 0 := fun hlambda =>
        (h.plain (hplain hlambda)).resolve_right (by simp [hopen.2])
      refine (hm.applyScalar hs hrow).bind fun q s _ hscalar => .pure ?_
      refine ⟨h.extend _ rfl rfl hscalar hle ?_, .inl rfl⟩
      rw [Select.contents_havingBy, contents_negateIf]
  case isFalse =>
    refine (h.wrapIf _ node).bind fun q base _ hbase => ?_
    obtain ⟨hbase, horigin, hcolumns⟩ := hbase
    have hrow : e.isLambda = true → base.row.contents = 0 := fun hlambda =>
      hcolumns (hplain hlambda) fun hdistinct => by simp [hdistinct]
    refine (hm.applyScalar hs hrow).bind fun r s _ hscalar => .pure ?_
    refine ⟨hbase.extend _ rfl rfl hscalar hle ?_, horigin⟩
    rw [Select.contents_filterBy, contents_negateIf]

variable {rest : List Expr}

theorem Expr.LaidOut.head (ha : Expr.LaidOut env root start stop bound node (source :: rest)) :
    (source.meaning env).Lies root (bound 0) (bound 1) source :=
  ha.lies (k := 0) rfl

theorem Expr.LaidOut.columns (ha : Expr.LaidOut env root start stop bound node (source :: rest))
    (hsource : source ∈ node.sources) {k : Nat} (he : (source :: rest)[k]? = some e)
    (hlambda : e.isLambda = true) : source.holdsQuery = false :=
  ha.plain e (List.mem_of_getElem? he) hlambda source hsource

theorem Expr.LaidOut.reads {parts : List Expr}
    (ha : Expr.LaidOut env root start stop bound node parts) (he : e ∈ parts)
    (h : e.readsTable = true) : node.readsTable = true := by
  rw [← Bool.not_eq_false]
  intro hnode
  rw [ha.idle hnode e he] at h
  cases h

theorem Expr.LaidOut.not_idle (ha : Expr.LaidOut env root start stop bound node (source :: rest))
    {rows : Rows} (h : rows.Lie root first mid source) : ¬ node.readsTable = false := by
  rw [ha.reads List.mem_cons_self h.reads]
  exact Bool.noConfusion

theorem orderRows_lie (ha : Expr.LaidOut env root start stop bound node (source :: rest))
    (hsource : source ∈ node.sources) (hs : scope.Plain) (restart ascending : Bool) :
    Builds p (orderRows restart ascending node (meanings env (source :: rest)) scope) fun _ rows =>
      rows.Lie root (bound 0 + 1) (bound 2) source := by
  refine Builds.check fun m hm => ?_
  cases hm
  refine (ha.head.asSequence false hs).bind fun p₁ rows _ hrows => ?_
  refine (hrows.1.wrapIf _ node).bind fun p₂ rows' _ hrows' => ?_
  obtain ⟨hrows', -, hcolumns⟩ := hrows'
  refine Builds.check fun m hm => ?_
  obtain ⟨key, hkey, rfl⟩ := argument_meanings hm
  have hrow : key.isLambda = true → rows'.row.contents = 0 := fun hlambda =>
    hcolumns (ha.columns hsource hkey hlambda) fun hdistinct => by simp [hdistinct]
  refine ((ha.lies hkey).applyOne hs hrow).bind fun p₃ b _ hb => ?_
  refine Builds.check fun ss hss => .pure ?_
  have hkeys : contentsOf ((ss.map fun s => (⟨s.expr, ascending⟩ : SortKey)).map SortKey.expr) =
      b.contents := by
    rw [List.map_map]
    exact Binding.contents_scalars hss
  refine hrows'.extend _ rfl rfl hb.2 le_rfl ?_
  rw [← hkeys]
  cases restart with
  | true => exact Select.contents_restarted _ _
  | false => exact (Select.contents_orderedBy _ _).le

theorem contents_equalities (ls rs : List Scalar) (e : SqlExpr) :
    ((ls.zip rs).foldl (fun e (l, r) => SqlExpr.and e (.binary .eq l.expr r.expr)) e).contents ≤
      e.contents + (contentsOf (ls.map Scalar.expr) + contentsOf (rs.map Scalar.expr)) := by
  induction ls generalizing rs e with
  | nil => exact Multiset.le_add_right _ _
  | cons l ls ih =>
    cases rs with
    | nil => exact Multiset.le_add_right _ _
    | cons r rs =>
      refine (ih rs _).trans (le_of_eq ?_)
      have hfirst : (SqlExpr.and e (.binary .eq l.expr r.expr)).contents =
          e.contents + (l.expr.contents + r.expr.contents) := rfl
      rw [hfirst, List.map_cons, List.map_cons, contentsOf_cons, contentsOf_cons]
      abel

theorem contents_matching (ls rs : List Scalar) : contentsOf (matching ls rs).toList ≤
    contentsOf (ls.map Scalar.expr) + contentsOf (rs.map Scalar.expr) := by
  cases ls with
  | nil => exact Multiset.zero_le _
  | cons l ls =>
    cases rs with
    | nil => exact Multiset.zero_le _
    | cons r rs =>
      rw [matching, Option.toList_some, contentsOf_cons, contentsOf_nil, add_zero]
      refine (contents_equalities ls rs _).trans (le_of_eq ?_)
      have hfirst : (SqlExpr.binary .eq l.expr r.expr).contents =
          l.expr.contents + r.expr.contents := rfl
      rw [hfirst, List.map_cons, List.map_cons, contentsOf_cons, contentsOf_cons]
      abel

theorem contents_joinedRows (outer inner : Rows) {table : Table} (kind : JoinKind)
    (hsource : inner.select.source = some table) {outerKeys innerKeys : List Scalar}
    {outerKey innerKey row : Binding}
    (houter : contentsOf (outerKeys.map Scalar.expr) = outerKey.contents)
    (hinner : contentsOf (innerKeys.map Scalar.expr) = innerKey.contents) :
    Rows.contents ⟨{ outer.select with
        joins := outer.select.joins ++ [⟨kind, table, matching outerKeys innerKeys⟩] }, row⟩ ≤
      outer.contents + inner.contents + outerKey.contents + innerKey.contents + row.contents := by
  have hcondition := houter ▸ hinner ▸ contents_matching outerKeys innerKeys
  have htable : (table.nested : Multiset Select) ≤ inner.contents := by
    refine le_trans ?_ (Multiset.le_add_right _ _)
    have hnested : (table.nested : Multiset Select) = nestedOfSource inner.select.source := by
      rw [hsource]
      rfl
    rw [Select.contents_eq, hnested]
    simp only [add_assoc]
    exact Multiset.le_add_right _ _
  refine (Rows.contents_le _).trans (add_le_add ?_ le_rfl)
  rw [Select.contents_joined, add_assoc _ outerKey.contents]
  exact add_le_add (add_le_add (Multiset.le_add_right _ _) htable) hcondition

theorem joinRows_lie (kind : JoinKind)
    (ha : Expr.LaidOut env root start stop bound node (source :: rest))
    (hsource : source ∈ node.sources) (hinner : ∀ inner, rest[0]? = some inner → inner ∈ node.sources)
    (hresult : ∀ result, rest[3]? = some result → node.holdsQuery = false →
      result.readsTable = false) (hs : scope.Plain) :
    Builds p (joinRows kind node (meanings env (source :: rest)) scope) fun _ rows =>
      rows.Lie root (bound 0 + 1) (bound 5) node := by
  refine Builds.check fun m hm => ?_
  cases hm
  refine (ha.head.asSequence false hs).bind fun p₁ outer _ houter => ?_
  refine (houter.1.wrapIf _ node).bind fun p₂ outer' _ houter' => ?_
  obtain ⟨houter', -, houterColumns⟩ := houter'
  refine Builds.check fun m hm => ?_
  obtain ⟨inner, hi, rfl⟩ := argument_meanings hm
  refine ((ha.lies hi).asSequence false hs).bind fun p₃ innerRows _ hinnerRows => ?_
  refine (hinnerRows.1.wrapIf _ node).bind fun p₄ innerRows' _ hinnerRows' => ?_
  obtain ⟨hinnerRows', -, hinnerColumns⟩ := hinnerRows'
  dsimp only
  cases htable : innerRows'.select.source with
  | none => exact .unsupported _ _
  | some table =>
    have houterRow : ∀ {k} {e : Expr}, (source :: rest)[k]? = some e → e.isLambda = true →
        outer'.row.contents = 0 := fun he hlambda =>
      houterColumns (ha.columns hsource he hlambda) fun hdistinct => by simp [hdistinct]
    have hinnerRow : ∀ {k} {e : Expr}, (source :: rest)[k]? = some e → e.isLambda = true →
        innerRows'.row.contents = 0 := fun he hlambda =>
      hinnerColumns (ha.plain _ (List.mem_of_getElem? he) hlambda inner (hinner inner hi))
        fun hdistinct => by simp [Select.isBareTable, hdistinct]
    refine Builds.check fun m hm => ?_
    obtain ⟨outerKey, hok, rfl⟩ := argument_meanings hm
    refine ((ha.lies hok).applyOne hs (houterRow hok)).bind fun p₅ ob _ hob => ?_
    refine Builds.check fun m hm => ?_
    obtain ⟨innerKey, hik, rfl⟩ := argument_meanings hm
    refine ((ha.lies hik).applyOne hs (hinnerRow hik)).bind fun p₆ ib _ hib => ?_
    refine Builds.check fun outerKeys hok' => Builds.check fun innerKeys hik' => ?_
    split
    · exact .refused _ _
    refine Builds.check fun m hm => ?_
    obtain ⟨result, hr, rfl⟩ := argument_meanings hm
    have hboth : result.isLambda = true →
        ∀ b ∈ [outer'.row, kind.innerRow innerRows'.row], b.contents = 0 := by
      intro hlambda
      refine List.forall_mem_cons.2 ⟨houterRow hr hlambda, List.forall_mem_singleton.2 ?_⟩
      rcases kind.innerRow_eq innerRows'.row with heq | heq <;> rw [heq]
      · exact hinnerRow hr hlambda
      · rw [Binding.contents_asOptional]
        exact hinnerRow hr hlambda
    refine ((ha.lies hr).apply hs hboth).bind fun p₇ row _ hrow => .pure ?_
    refine ⟨ha.reads List.mem_cons_self houter'.reads, houter'.items, ?_, fun hnode => .inl (hrow.2.none (hresult result hr hnode))⟩
    refine Laid.of_le ?_ (contents_joinedRows outer' innerRows' kind htable
      (Binding.contents_scalars hok') (Binding.contents_scalars hik'))
    have hkeys := (houter'.laid.add hinnerRows'.laid (Nat.le_succ _)).add
      (hob.2.imp False.elim) le_rfl
    exact (hkeys.add (hib.2.imp False.elim) le_rfl).add (hrow.2.imp False.elim) le_rfl

theorem Expr.idle_of_any {es : List Expr} (h : es.any readsTable = false) (he : e ∈ es) :
    e.readsTable = false :=
  Bool.eq_false_iff.2 (List.any_eq_false.1 h e he)

variable {i : NodeId} {op : Operator}

abbrev CallLies (env : Surroundings) (root : Expr) (start stop : Nat) (i : NodeId) (op : Operator)
    (es : List Expr) (scope : Scope) (p : Progress) : Prop :=
  Builds p (callRows env (.call i op es) op (meanings env es) scope)
    fun _ rows => rows.Lie root start stop (.call i op es)

section Operators

variable (hs : scope.Plain)

include hs

theorem filter_lie
    (ha : Expr.LaidOut env root start stop bound (.call i .filter (source :: rest)) (source :: rest)) :
    CallLies env root (bound 0 + 1) stop i .filter (source :: rest) scope p := by
  refine Builds.check fun m hm => ?_
  cases hm
  refine (ha.head.asSequence false hs).bind fun p₁ rows _ hrows => ?_
  refine Builds.check fun m hm => ?_
  obtain ⟨predicate, he, rfl⟩ := argument_meanings hm
  have hcolumns := ha.columns List.mem_cons_self he
  refine (restrict_lie hrows.1 (ha.lies he) le_rfl hcolumns hs false).imp fun _ _ _ hout => ?_
  exact (hout.1.widen le_rfl (ha.le _)).of_source (ha.reads List.mem_cons_self) id

theorem project_lie
    (ha : Expr.LaidOut env root start stop bound (.call i .project (source :: rest))
      (source :: rest)) :
    CallLies env root (bound 0 + 1) stop i .project (source :: rest) scope p := by
  refine Builds.check fun m hm => ?_
  cases hm
  refine (ha.head.asSequence false hs).bind fun p₁ rows _ hrows => ?_
  refine (hrows.1.wrapIf _ _).bind fun p₂ base _ hbase => ?_
  refine Builds.check fun m hm => ?_
  obtain ⟨selector, he, rfl⟩ := argument_meanings hm
  have hcolumns : selector.isLambda = true → base.row.contents = 0 := fun hlambda =>
    hbase.2.2 (ha.columns List.mem_cons_self he hlambda) id
  refine ((ha.lies he).applyOne hs hcolumns).bind fun p₃ row _ hrow => .pure ?_
  refine (hbase.1.withRow hrow.2 le_rfl (ha.reads List.mem_cons_self) fun hnode =>
    hrow.2.none ?_).widen le_rfl (ha.le _)
  exact Expr.idle_of_any hnode (List.mem_of_getElem? (l := rest) he)

theorem skip_lie
    (ha : Expr.LaidOut env root start stop bound (.call i .skip (source :: rest)) (source :: rest)) :
    CallLies env root (bound 0 + 1) stop i .skip (source :: rest) scope p := by
  refine Builds.check fun m hm => ?_
  cases hm
  refine Builds.check fun _ _ => ?_
  refine (ha.head.asSequence false hs).bind fun p₁ rows _ hrows => ?_
  refine Builds.check fun m hm => ?_
  obtain ⟨count, he, rfl⟩ := argument_meanings hm
  refine ((ha.lies he).asScalar hs).bind fun p₂ s _ hscalar => ?_
  refine (hrows.1.wrapIf _ _).bind fun p₃ base _ hbase => .pure ?_
  exact ((hbase.1.withOffset hscalar le_rfl).widen le_rfl (ha.le _)).of_source
    (ha.reads List.mem_cons_self) id

theorem take_lie
    (ha : Expr.LaidOut env root start stop bound (.call i .take (source :: rest)) (source :: rest)) :
    CallLies env root (bound 0 + 1) stop i .take (source :: rest) scope p := by
  refine Builds.check fun m hm => ?_
  cases hm
  refine Builds.check fun _ _ => ?_
  refine (ha.head.asSequence false hs).bind fun p₁ rows _ hrows => ?_
  refine Builds.check fun m hm => ?_
  obtain ⟨count, he, rfl⟩ := argument_meanings hm
  refine ((ha.lies he).asScalar hs).bind fun p₂ s _ hscalar => ?_
  refine (hrows.1.wrapIf _ _).bind fun p₃ base _ hbase => .pure ?_
  exact ((hbase.1.withLimit hscalar le_rfl).widen le_rfl (ha.le _)).of_source
    (ha.reads List.mem_cons_self) id

theorem segment_lie
    (ha : Expr.LaidOut env root start stop bound (.call i .segment (source :: rest))
      (source :: rest)) :
    CallLies env root (bound 0 + 1) stop i .segment (source :: rest) scope p := by
  refine Builds.check fun m hm => ?_
  cases hm
  refine Builds.check fun _ _ => ?_
  refine (ha.head.asSequence false hs).bind fun p₁ rows _ hrows => ?_
  refine Builds.check fun m hm => ?_
  cases env.slot? m.node.id with
  | none => exact .unsupported _ _
  | some k =>
    refine (hrows.1.wrapIf _ _).bind fun p₂ base _ hbase => .pure ?_
    exact ((hbase.1.paged _ _).widen le_rfl (ha.le _)).of_source (ha.reads List.mem_cons_self) id

theorem distinct_lie
    (ha : Expr.LaidOut env root start stop bound (.call i .distinct (source :: rest))
      (source :: rest)) :
    CallLies env root (bound 0 + 1) stop i .distinct (source :: rest) scope p := by
  refine Builds.check fun m hm => ?_
  cases hm
  refine (ha.head.asSequence false hs).bind fun p₁ rows _ hrows => ?_
  refine (hrows.1.wrapIf _ _).bind fun p₂ base _ hbase => ?_
  dsimp only
  split
  · exact .refused _ _
  · refine .pure ⟨ha.reads List.mem_cons_self hbase.1.reads, hbase.1.items, ?_, fun _ => .inr rfl⟩
    exact (Rows.contents_asDistinct base).symm ▸ hbase.1.laid.widen le_rfl (ha.le _)

theorem groupBy_lie
    (ha : Expr.LaidOut env root start stop bound (.call i .groupBy (source :: rest))
      (source :: rest)) :
    CallLies env root (bound 0 + 1) stop i .groupBy (source :: rest) scope p := by
  refine Builds.check fun m hm => ?_
  cases hm
  refine (ha.head.asSequence false hs).bind fun p₁ rows _ hrows => ?_
  refine (hrows.1.wrapIf _ _).bind fun p₂ base _ hbase => ?_
  refine Builds.check fun m hm => ?_
  obtain ⟨key, hkey, rfl⟩ := argument_meanings hm
  have hcolumns : ∀ {k} {e : Expr}, (source :: rest)[k]? = some e → e.isLambda = true →
      base.row.contents = 0 := fun he hlambda =>
    hbase.2.2 (ha.columns List.mem_cons_self he hlambda) fun hdistinct => by simp [hdistinct]
  refine ((ha.lies hkey).applyOne hs (hcolumns hkey)).bind fun p₃ kb _ hkb => ?_
  have hidle : ∀ {k} {e : Expr}, (source :: rest)[k + 1]? = some e →
      (Expr.call i .groupBy (source :: rest)).holdsQuery = false → e.readsTable = false :=
    fun he hnode => Expr.idle_of_any hnode (List.mem_of_getElem? (l := rest) he)
  refine Rows.builds_groups (E := fun _ element =>
    (Expr.call i .groupBy (source :: rest)).holdsQuery = false → element.contents = 0)
    (fun _ => hcolumns hkey hkb.1) (fun selector hselector => ?_)
    fun p₄ element keys _ helement hkeys => ?_
  · rw [meanings_eq_map, List.getElem?_map] at hselector
    obtain ⟨e, he, rfl⟩ := Option.map_eq_some_iff.1 hselector
    exact ((ha.lies he).applyOne hs (hcolumns he)).imp fun _ _ _ helement hnode =>
      helement.2.none (hidle he hnode)
  · refine ⟨ha.reads List.mem_cons_self hbase.1.reads, hbase.1.items, ?_, fun hnode => .inl ?_⟩
    · refine ((hbase.1.laid.add (hkb.2.imp False.elim) le_rfl).widen le_rfl (ha.le _)).of_le ?_
      rw [Rows.contents_ofGroups, ← Binding.contents_scalars hkeys]
      refine (Select.contents_groupedBy _ _).trans ?_
      exact Multiset.add_le_add_right (Multiset.le_add_right _ _)
    · rw [Binding.contents, hkb.2.none (hidle hkey hnode), helement hnode, add_zero]

theorem callRows_lie
    (ha : Expr.LaidOut env root start stop bound (.call i op (source :: rest)) (source :: rest)) :
    CallLies env root (bound 0 + 1) stop i op (source :: rest) scope p := by
  cases op with
  | filter => exact filter_lie hs ha
  | project => exact project_lie hs ha
  | orderBy | orderByDescending | thenBy | thenByDescending =>
    exact Builds.check fun _ _ => (orderRows_lie ha List.mem_cons_self hs _ _).imp
      fun _ _ _ hrows => (hrows.widen le_rfl (ha.le _)).of_source (ha.reads List.mem_cons_self) id
  | skip => exact skip_lie hs ha
  | take => exact take_lie hs ha
  | segment => exact segment_lie hs ha
  | distinct => exact distinct_lie hs ha
  | groupBy => exact groupBy_lie hs ha
  | join | leftJoin =>
    refine Builds.check fun _ _ => (joinRows_lie _ ha List.mem_cons_self ?_ ?_ hs).imp
      fun _ _ _ hrows => hrows.widen le_rfl (ha.le _)
    · intro inner hinner
      exact List.mem_cons_of_mem _ (List.mem_of_getElem? (i := 0) (by simpa using hinner))
    · intro result hresult hnode
      change (rest[3]?).any Expr.readsTable = false at hnode
      rwa [hresult] at hnode
  | _ => exact Builds.check fun _ _ => .throw _

end Operators

theorem markerRows_lie
    (ha : Expr.LaidOut env root start stop bound (.call i op (source :: rest)) (source :: rest))
    (hs : scope.Plain) (hplain : (Expr.call i op (source :: rest)).holdsQuery = false →
      source.holdsQuery = false) :
    Builds p (markerRows env (.call i op (source :: rest)) op (meanings env (source :: rest)) scope)
      fun _ rows => rows.Lie root (bound 0 + 1) stop (.call i op (source :: rest)) ∧
        rows.select.origin = some (.call i op (source :: rest)) := by
  refine Builds.check fun _ _ => Builds.check fun m hm => ?_
  cases hm
  refine (ha.head.asSequence _ hs).bind fun p₁ rows _ hrows => ?_
  refine (hrows.1.wrapIf _ _).bind fun p₂ base _ hbase => ?_
  refine Builds.useSegment.bind fun p₃ _ _ _ => .pure ⟨?_, rfl⟩
  have hpaged := (hbase.1.paged .segmentLength .segmentStart).widen le_rfl (ha.le _)
  exact (hpaged.of_source (ha.reads List.mem_cons_self) hplain).withOrigin _

theorem Expr.holdsQuery_of_pages (h : op.pages = true)
    (hnode : (Expr.call i op (source :: rest)).holdsQuery = false) : source.holdsQuery = false := by
  cases op <;> first | exact hnode | cases h

theorem sequenceOfCall_lie {parts : List Expr}
    (ha : Expr.LaidOut env root start stop bound (.call i op parts) parts)
    (hplaced : ∀ s : Select, s.origin = some (.call i op parts) → s.place root = start)
    (hmarker : env.marker = some i → op.pages = true) (hs : scope.Plain) (inRun : Bool) :
    Builds p (sequenceOfCall env (.call i op parts) op (meanings env parts) inRun scope)
      fun _ rows => rows.Lie root (start + 1) stop (.call i op parts) ∧
        (inRun = false → rows.select.origin = some (.call i op parts) ∧
          rows.select.place root = start) := by
  have hstart : start + 1 ≤ bound 0 + 1 := by
    have := ha.first
    omega
  cases parts with
  | nil =>
    intro rows q hrun
    rw [sequenceOfCall] at hrun
    split at hrun
    · cases hrun
    · split at hrun
      · obtain ⟨_, _, -, h⟩ := Build.run_bind_ok.1 hrun
        cases h
      · cases hrun
  | cons source rest =>
    have hreads := ha.reads (List.mem_cons_self (a := source) (l := rest))
    rw [sequenceOfCall]
    split
    case isTrue hstep =>
      obtain ⟨rfl, hstep⟩ := Bool.and_eq_true_iff.1 hstep
      have hpages : op.pages = true := by
        cases op <;> first | rfl | cases hstep
      refine Builds.check fun m hm => ?_
      cases hm
      refine (ha.head.asSequence true hs).imp fun _ rows _ hrows => ⟨?_, Bool.noConfusion⟩
      exact (hrows.1.widen hstart (ha.le _)).of_source hreads (Expr.holdsQuery_of_pages hpages)
    case isFalse =>
      split
      case isTrue hself =>
        refine (markerRows_lie ha hs (Expr.holdsQuery_of_pages (hmarker hself))).imp
          fun _ rows _ hrows => ⟨hrows.1.widen hstart le_rfl, fun _ => ⟨hrows.2, hplaced _ hrows.2⟩⟩
      case isFalse =>
        refine (callRows_lie hs ha).bind fun _ rows _ hrows => .pure ⟨?_, fun _ => ⟨rfl, ?_⟩⟩
        · exact (hrows.widen hstart le_rfl).withOrigin _
        · exact hplaced _ rfl

end Calls

/-- A statement of this call, which has its place at the call or right behind it. -/
structure Select.OfCall (root : Expr) (start : Nat) (s : Select) : Prop where
  isOf : s.IsOf root
  first : start ≤ s.place root
  last : s.place root ≤ start + 1

theorem Select.OfCall.congr {s s' : Select} (h : s.OfCall root start) (horigin : s'.origin = s.origin) :
    s'.OfCall root start := by
  have hplace : s'.place root = s.place root := by rw [Select.place, Select.place, horigin]
  obtain ⟨hof, hfirst, hlast⟩ := h
  refine ⟨?_, by omega, by omega⟩
  rwa [Select.IsOf, horigin]

theorem Select.OfCall.selecting {rows : Rows} (h : rows.select.OfCall root start) (e : SqlExpr) :
    (rows.selecting e).OfCall root start :=
  h.congr rfl

def Terminal.contents : Terminal → Multiset Select
  | .single select _ _ _ | .exist select _ | .scalar select _ => select ::ₘ select.contents
  | .isIn value select => value.contents + select ::ₘ select.contents

section Terminals

variable {rest : List Expr} {i : NodeId} {op : Operator} {rows : Rows}

theorem Laid.nested {queries : Multiset Select} (h : Laid root first stop False queries)
    (hfirst : start + 2 ≤ first) {s : Select} (hs : s.OfCall root start) (hidle : ¬ idle)
    (hcontents : s.contents ≤ queries) : Laid root start stop idle (s ::ₘ s.contents) := by
  have := hs.last
  exact (h.of_le hcontents).cons hs.first (by omega) hs.isOf hidle

theorem Rows.contents_selecting (rows : Rows) (h : rows.select.items = []) (e : SqlExpr) :
    (rows.selecting e).contents = rows.select.contents + e.contents := by
  rw [selecting, Select.contents_withItems h, ← add_zero e.contents]
  rfl

theorem Rows.contents_selecting_le (rows : Rows) (h : rows.select.items = []) {e : SqlExpr}
    (he : e.contents = 0) : (rows.selecting e).contents ≤ rows.contents := by
  rw [contents_selecting rows h, he, add_zero]
  exact Multiset.le_add_right _ _

theorem Rows.Lie.orderedOnlyIfPaged (h : rows.Lie root start stop source) :
    rows.orderedOnlyIfPaged.Lie root start stop source ∧
      rows.orderedOnlyIfPaged.select.origin = rows.select.origin ∧
      rows.orderedOnlyIfPaged.row = rows.row := by
  rw [Rows.orderedOnlyIfPaged]
  split
  · exact ⟨h, rfl, rfl⟩
  · have hnothing : Laid root stop stop False 0 := .zero le_rfl
    exact ⟨h.extend _ rfl rfl hnothing le_rfl (Select.contents_restarted _ []), rfl, rfl⟩

variable (ha : Expr.LaidOut env root start stop bound (.call i op (source :: rest)) (source :: rest))
  (hnode : ∀ s : Select, s.origin = some (.call i op (source :: rest)) → s.OfCall root start)
  (hcall : .call i op (source :: rest) ∈ root.nodes) (hop : op.isTerminal = true)

include ha hcall hop in
theorem source_lie (hs : scope.Plain) :
    Builds p ((source.meaning env).asSequence false scope) fun _ rows =>
      rows.Lie root (bound 0 + 1) (bound 1) source ∧ rows.select.OfCall root start := by
  refine (ha.head.asSequence false hs).imp fun _ rows _ hrows => ⟨hrows.1, ?_⟩
  obtain ⟨horigin, hplace⟩ := hrows.2 rfl
  have := ha.first
  exact ⟨⟨i, op, source, rest, hcall, hop, .inr horigin⟩, by omega, by omega⟩

include ha hnode hcall hop in
theorem filtered_lie (hs : scope.Plain) :
    Builds p (filtered (.call i op (source :: rest)) (source.meaning env)
        (meanings env (source :: rest))[1]? scope) fun _ rows =>
      rows.Lie root (bound 0 + 1) (bound 2) source ∧ rows.select.OfCall root start := by
  refine (source_lie ha hcall hop hs).bind fun p₁ rows _ hrows => ?_
  cases hpredicate : (meanings env (source :: rest))[1]? with
  | none => exact .pure ⟨hrows.1.widen le_rfl (ha.mono (Nat.le_succ 1)), hrows.2⟩
  | some predicate =>
    rw [meanings_eq_map, List.getElem?_map] at hpredicate
    obtain ⟨e, he, rfl⟩ := Option.map_eq_some_iff.1 hpredicate
    refine (restrict_lie hrows.1 (ha.lies he) le_rfl (ha.columns List.mem_cons_self he) hs false).imp
      fun _ out _ hout => ⟨hout.1, ?_⟩
    exact hout.2.elim hrows.2.congr (hnode _)

include hnode in
theorem forAggregate_lie (h : rows.Lie root (bound 0 + 1) first source)
    (hrows : rows.select.OfCall root start) :
    Builds p (rows.forAggregate (.call i op (source :: rest))) fun _ out =>
      out.Lie root (bound 0 + 1) first source ∧ out.select.OfCall root start ∧
        (source.holdsQuery = false → out.row.contents = 0) := by
  rw [Rows.forAggregate]
  split
  · exact .refused _ _
  refine (h.wrapIf _ _).bind fun q base _ hbase => .pure ?_
  obtain ⟨hbase, horigin, hcolumns⟩ := hbase
  have hnothing : Laid root first first False 0 := .zero le_rfl
  refine ⟨hbase.extend _ rfl rfl hnothing le_rfl (Select.contents_restarted _ []),
    Select.OfCall.congr (s := base.select) (horigin.elim hrows.congr (hnode _)) rfl, fun hplain => hcolumns hplain fun hdistinct => ?_⟩
  simp [hdistinct]

omit hnode in
include ha in
theorem selected_lie (hs : scope.Plain) (h : rows.Lie root (bound 0 + 1) (bound 1) source)
    (hcolumns : source.holdsQuery = false → rows.row.contents = 0) :
    Builds p (selected (.call i op (source :: rest)) (meanings env (source :: rest))[1]? rows.row
      scope) fun _ value => ∃ queries, Laid root (bound 0 + 1) (bound 2) False queries ∧
        rows.select.contents + value.expr.contents ≤ queries := by
  cases hselector : (meanings env (source :: rest))[1]? with
  | none =>
    refine .lift fun value hvalue => ⟨rows.contents,
      h.laid.widen le_rfl (ha.mono (Nat.le_succ 1)), ?_⟩
    rw [Binding.contents_asScalar hvalue, Rows.contents]
    cases hrow : rows.row with
    | scalar => exact le_rfl
    | _ =>
      rw [hrow] at hvalue
      cases hvalue
  | some selector =>
    rw [meanings_eq_map, List.getElem?_map] at hselector
    obtain ⟨e, he, rfl⟩ := Option.map_eq_some_iff.1 hselector
    have hrow := fun hlambda => hcolumns (ha.columns List.mem_cons_self he hlambda)
    refine ((ha.lies he).applyScalar hs hrow).imp fun _ value _ hvalue => ?_
    exact ⟨rows.contents + value.expr.contents, h.laid.add (hvalue.imp False.elim) le_rfl,
      Multiset.add_le_add_right (Multiset.le_add_right _ _)⟩

theorem contents_aggregateOver (op : Operator) (s : Scalar) :
    (aggregateOver op s).expr.contents = s.expr.contents := by
  cases op <;> simp [aggregateOver, SqlExpr.contents, SqlExpr.coalesce, SqlExpr.aggregateOf,
    SqlExpr.nestedSelects, nestedOfList, SqlExpr.int]

theorem Rows.Lie.existing (h : rows.Lie root first stop source) (hfirst : start + 2 ≤ first)
    (hrows : rows.select.OfCall root start) (hidle : ¬ idle) :
    Laid root start stop idle ((rows.orderedOnlyIfPaged.selecting (.int 1)) ::ₘ
      (rows.orderedOnlyIfPaged.selecting (.int 1)).contents) := by
  obtain ⟨hordered, horigin, -⟩ := h.orderedOnlyIfPaged
  exact hordered.laid.nested hfirst (hrows.congr horigin) hidle
    (Rows.contents_selecting_le _ hordered.items rfl)

include ha hnode hcall hop in
theorem singleRow_lie (hs : scope.Plain) (nullable unique : Bool) :
    Builds p (singleRow (.call i op (source :: rest)) (meanings env (source :: rest)) nullable unique
      scope) fun _ t => Laid root start stop ((Expr.call i op (source :: rest)).readsTable = false)
        t.contents := by
  have := ha.first
  refine Builds.check fun m hm => ?_
  cases hm
  refine (filtered_lie ha hnode hcall hop hs).bind fun p₁ rows _ hrows => ?_
  refine (hrows.1.wrapIf _ _).bind fun p₂ base _ hbase => ?_
  have hlimit : Laid root (bound 2) (bound 2) False
      (SqlExpr.int (if unique = true then 2 else 1)).contents := .zero le_rfl
  have hone := hbase.1.withLimit hlimit le_rfl
  refine Builds.check fun s hproject => .pure ?_
  have hcontents := Rows.contents_project hproject hone.items
  obtain ⟨ls, -, rfl⟩ := Rows.project_ok.1 hproject
  have hof := hbase.2.1.elim hrows.2.congr (hnode _)
  have hsame : Select.OfCall root start
      { (base.withLimit (.int (if unique = true then 2 else 1))).select with
        items := Rows.items ls } := hof.congr rfl
  exact (hone.laid.nested (by omega) hsame (ha.not_idle hrows.1) hcontents.le).widen le_rfl (ha.le _)

include ha hnode hcall in
theorem terminal_lie (hs : scope.Plain) :
    Builds p (terminal (.call i op (source :: rest)) op (meanings env (source :: rest)) scope)
      fun _ t => Laid root start stop ((Expr.call i op (source :: rest)).readsTable = false)
        t.contents := by
  have hfirst : start + 2 ≤ bound 0 + 1 := by
    have := ha.first
    omega
  refine Builds.check fun m hm => ?_
  cases hm
  cases op with
  | first | firstOrDefault | single | singleOrDefault =>
    exact singleRow_lie ha hnode hcall rfl hs _ _
  | count | longCount =>
    refine (filtered_lie ha hnode hcall rfl hs).bind fun p₁ rows _ hrows => ?_
    refine (forAggregate_lie hnode hrows.1 hrows.2).bind fun p₂ out _ hout => .pure ?_
    exact (hout.1.laid.nested hfirst (hout.2.1.selecting _) (ha.not_idle hout.1)
      (Rows.contents_selecting_le _ hout.1.items rfl)).widen le_rfl (ha.le _)
  | any =>
    refine (filtered_lie ha hnode hcall rfl hs).bind fun p₁ rows _ hrows => .pure ?_
    exact (hrows.1.existing hfirst hrows.2 (ha.not_idle hrows.1)).widen le_rfl (ha.le _)
  | all =>
    refine (source_lie ha hcall rfl hs).bind fun p₁ rows _ hrows => ?_
    refine Builds.check fun m hm => ?_
    obtain ⟨predicate, he, rfl⟩ := argument_meanings hm
    refine (restrict_lie hrows.1 (ha.lies he) le_rfl (ha.columns List.mem_cons_self he) hs true).bind
      fun p₂ out _ hout => .pure ?_
    have hof := hout.2.elim hrows.2.congr (hnode _)
    exact (hout.1.existing hfirst hof (ha.not_idle hout.1)).widen le_rfl (ha.le _)
  | contains =>
    refine (source_lie ha hcall rfl hs).bind fun p₁ rows _ hrows => ?_
    cases hrow : rows.row with
    | scalar element =>
      refine Builds.check fun m hm => ?_
      obtain ⟨operand, he, rfl⟩ := argument_meanings hm
      refine ((ha.lies he).asScalar hs).bind fun p₂ value _ hvalue => .pure ?_
      obtain ⟨hordered, horigin, hsame⟩ := hrows.1.orderedOnlyIfPaged
      have hcontents : (rows.orderedOnlyIfPaged.selecting element.expr).contents ≤
          rows.orderedOnlyIfPaged.contents := by
        rw [Rows.contents_selecting _ hordered.items, Rows.contents, hsame, hrow]
        exact le_rfl
      have hquery := hordered.laid.nested (s := rows.orderedOnlyIfPaged.selecting element.expr) hfirst
        (hrows.2.congr horigin) not_false hcontents
      have hboth := (hquery.add (hvalue.imp False.elim) le_rfl).widen le_rfl (ha.le _)
      rw [Terminal.contents, add_comm]
      exact { hboth with none := fun h => absurd h (ha.not_idle hrows.1) }
    | _ => exact .unsupported _ _
  | sum | min | max | average =>
    refine (source_lie ha hcall rfl hs).bind fun p₁ rows _ hrows => ?_
    refine (forAggregate_lie hnode hrows.1 hrows.2).bind fun p₂ out _ hout => ?_
    refine (selected_lie ha hs hout.1 hout.2.2).bind fun p₃ value _ hvalue => .pure ?_
    obtain ⟨queries, hqueries, hle⟩ := hvalue
    refine (hqueries.nested hfirst (hout.2.1.selecting _) (ha.not_idle hout.1) ?_).widen le_rfl
      (ha.le _)
    rw [Rows.contents_selecting _ hout.1.items, contents_aggregateOver]
    exact hle
  | _ => exact .throw _

end Terminals

end SequenceQuery
