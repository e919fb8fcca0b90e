import SequenceQuery.Proofs.SegmentRequests
import SequenceQuery.Proofs.Meanings

namespace SequenceQuery

/-- What an operator can replace in the statement of its source: what a row is, and what the rows
are sorted by. -/
inductive Part
  | row | order
  deriving DecidableEq

namespace Operator

/-- Whether the operator, called with so many arguments, does not keep the part of its source. -/
def replaces (arity : Nat) : Operator → Part → Bool
  | .project, .row | .join, .row | .leftJoin, .row => true
  | .groupBy, .row => 3 ≤ arity
  | .sum, .row | .min, .row | .max, .row | .average, .row => 2 ≤ arity
  | .orderBy, .order | .orderByDescending, .order | .contains, .order => true
  | .sum, .order | .min, .order | .max, .order | .average, .order => true
  | .count, _ | .longCount, _ | .any, _ | .all, _ => true
  | _, _ => false

def computes : Operator → Part → List Nat
  | .project, .row => [1]
  | .groupBy, .row => [2]
  | .join, .row | .leftJoin, .row => [4]
  | .orderBy, .order | .orderByDescending, .order => [1]
  | .thenBy, .order | .thenByDescending, .order => [1]
  | _, _ => []

end Operator

namespace Expr

variable (marker : Option NodeId) (part : Part)

def holds (e : Expr) : Bool :=
  e.nodes.any fun
    | .call i _ _ => marker == some i
    | _ => false

/-- Whether the paging marker stands where the part of the sequence is computed. -/
def inPart : Expr → Bool
  | .call _ op (source :: rest) =>
    !op.replaces (rest.length + 1) part && source.inPart ||
      (op.computes part).any fun k => (source :: rest)[k]?.any (holds marker)
  | _ => false

def keepsParts (n : Expr) : Bool :=
  match n with
  | .call _ op args =>
    n.sources.all fun source =>
      [Part.row, .order].all fun part => !(op.replaces args.length part && source.inPart marker part)
  | .member _ target _ => !target.holds marker
  | _ => true

/-- No operator replaces what the paging marker is used in, and no member is read of it. -/
def KeepsSegment (e : Expr) : Prop :=
  ∀ n ∈ e.nodes, n.keepsParts (e.marker?.map fun m => m.call.id) = true

instance (e : Expr) : Decidable e.KeepsSegment :=
  inferInstanceAs (Decidable (∀ n ∈ e.nodes, n.keepsParts (e.marker?.map fun m => m.call.id) = true))

variable {marker : Option NodeId} {part : Part} {i : NodeId} {op : Operator} {es : List Expr}
  {e source : Expr}

theorem holds_iff : e.holds marker = true ↔ ∃ i op es, .call i op es ∈ e.nodes ∧ marker = some i := by
  rw [holds, List.any_eq_true]
  constructor
  · rintro ⟨n, hn, h⟩
    cases n with
    | call i op es => exact ⟨i, op, es, hn, eq_of_beq h⟩
    | _ => cases h
  · rintro ⟨i, op, es, hn, rfl⟩
    exact ⟨_, hn, beq_self_eq_true _⟩

theorem holds_of_subset {e' : Expr} (h : e.nodes ⊆ e'.nodes) (he : e.holds marker = true) :
    e'.holds marker = true := by
  obtain ⟨i, op, es, hn, hi⟩ := holds_iff.1 he
  exact holds_iff.2 ⟨i, op, es, h hn, hi⟩

end Expr

variable {α β : Type} {used used' already already' : Prop}

/-- What is asked for already is asked for in the result, and so is a segment that is used on the
way, which is only where `used` holds. -/
def Carries (used already : Prop) (x : Build α) (shows : α → Prop) : Prop :=
  ∀ p, Builds p x fun q a => (already → shows a) ∧
    (q.segmentUsed = true → p.segmentUsed = true ∨ used ∧ shows a)

namespace Carries

variable {x : Build α} {P P' : α → Prop} {Q : β → Prop} {a : α}

theorem pure (h : already → P a) : Carries used already (pure a) P :=
  fun _ => .pure ⟨h, .inl⟩

theorem bind {f : α → Build β} (h : Carries used already x P)
    (hf : ∀ a, Carries used (P a) (f a) Q) : Carries used already (x >>= f) Q := by
  intro p
  refine (h p).bind fun q a _ ha => (hf a q).imp fun r b _ hb => ⟨hb.1 ∘ ha.1, fun hr => ?_⟩
  rcases hb.2 hr with hq | hb'
  · exact (ha.2 hq).imp_right (And.imp_right hb.1)
  · exact .inr hb'

theorem imp (h : Carries used already x P) (hP : ∀ a, P a → P' a) : Carries used already x P' :=
  fun p => (h p).imp fun _ a _ ha => ⟨hP a ∘ ha.1, fun hq => (ha.2 hq).imp_right (And.imp_right (hP a))⟩

theorem within (h : Carries used already x P) (hused : used → used') : Carries used' already x P :=
  fun p => (h p).imp fun _ _ _ ha => ⟨ha.1, fun hq => (ha.2 hq).imp_right (And.imp_left hused)⟩

theorem before (h : Carries used already x P) (hbefore : already' → already) :
    Carries used already' x P :=
  fun p => (h p).imp fun _ _ _ ha => ⟨ha.1 ∘ hbefore, ha.2⟩

theorem beside (h : Carries used already x P) (elsewhere : Prop) :
    Carries used (already ∨ elsewhere) x fun a => P a ∨ elsewhere :=
  fun p => (h p).imp fun _ _ _ ha =>
    ⟨Or.imp_left ha.1, fun hq => (ha.2 hq).imp_right (And.imp_right .inl)⟩

theorem part (h : Carries used False x P) (hused : used → used') :
    Carries used' already x fun a => already ∨ used ∧ P a := by
  intro p
  refine (h p).imp fun q a _ ha => ⟨.inl, fun hq => ?_⟩
  exact (ha.2 hq).imp_right fun h => ⟨hused h.1, .inr h⟩

theorem idle (h : Carries used False x P) (hidle : ¬used) :
    Carries used' already x fun _ => already :=
  have hpart : Carries used' already x fun a => already ∨ used ∧ P a :=
    h.part fun hused => absurd hused hidle
  hpart.imp fun _ h => h.resolve_right fun h => hidle h.1

theorem lift {x : Except Failure α} (h : ∀ a, x = .ok a → already → P a) :
    Carries used already (liftM x) P :=
  fun _ => .lift fun a ha => ⟨h a ha, .inl⟩

theorem check {x : Except Failure α} {f : α → Build β}
    (h : ∀ a, x = .ok a → Carries used already (f a) Q) : Carries used already (liftM x >>= f) Q :=
  fun p => .check fun a ha => h a ha p

theorem freshLabel : Carries used already freshLabel fun _ => already := by
  intro p label q hrun
  obtain ⟨-, rfl⟩ := Build.run_freshLabel_ok.1 hrun
  exact ⟨⟨Nat.le_succ _, id⟩, id, .inl⟩

theorem throw (e : Failure) : Carries used already (throw e : Build α) P :=
  fun _ => .throw e

theorem unsupported (node : Expr) (reason : Unsupported) :
    Carries used already (liftM (unsupported node reason : Except Failure α)) P :=
  fun _ => .unsupported node reason

theorem refused (node : Expr) (reason : Unsupported) {f : α → Build β} :
    Carries used already (liftM (SequenceQuery.unsupported node reason : Except Failure α) >>= f) Q :=
  fun _ => .refused node reason

end Carries

section Rows

variable {rows : Rows} {node : Expr} {row order : Prop}

theorem wrapIf_carries {condition : Bool} {Q : Select → Prop}
    (htable : ∀ t origin, Q { Select.ofTable t with origin := origin })
    (hstays : condition = false → Q rows.select) :
    Carries used (rows.Shows row order) (rows.wrapIf condition node) fun rows' =>
      rows'.Shows row order ∧ Q rows'.select := by
  intro p rows' q hrun
  rcases Rows.wrapIf_cases hrun with ⟨hcondition, rfl, rfl⟩ | ⟨-, hwrap⟩
  · exact ⟨le_rfl, fun h => ⟨h, hstays hcondition⟩, .inl⟩
  · obtain ⟨s, hs, rfl, rfl⟩ := Rows.wrap_ok.1 hwrap
    refine ⟨⟨Nat.le_succ _, id⟩, fun h => ⟨.inl ?_, htable _ _⟩, .inl⟩
    have hasks : (Table.subquery s (labelAt p.nextLabel)).asks = true := by
      rw [Table.asks, Table.pieces, List.any_append]
      exact Bool.or_eq_true_iff.2 (.inl (Rows.asks_project hs h))
    simp [Select.clausesAsk, Select.ofTable, hasks]

theorem wrapIf_shows (rows : Rows) (condition : Bool) (node : Expr) :
    Carries used (rows.Shows row order) (rows.wrapIf condition node) fun rows' =>
      rows'.Shows row order :=
  (wrapIf_carries (Q := fun _ => True) (fun _ _ => trivial) fun _ => trivial).imp fun _ h => h.1

theorem wrapPaged_shows (rows : Rows) (node : Expr) :
    Carries used (rows.Shows row order) (rows.wrapIf rows.select.hasPaging node) fun rows' =>
      rows'.Shows row order ∧ rows'.select.limit = none ∧ rows'.select.offset = none :=
  wrapIf_carries (Q := fun s => s.limit = none ∧ s.offset = none) (fun _ _ => ⟨rfl, rfl⟩)
    Select.unpaged_of

theorem wrapUnlessBare_shows (rows : Rows) (node : Expr) :
    Carries used (rows.Shows row order) (rows.wrapIf (!rows.select.isBareTable) node) fun rows' =>
      rows'.select.source.any Table.asks = true ∨ rows'.row.asks = true ∧ row := by
  have hwrap : Carries used (rows.Shows row order) (rows.wrapIf (!rows.select.isBareTable) node)
      fun rows' => rows'.Shows row order ∧ (rows'.select.orderAsks = false ∧
        (rows'.select.clausesAsk = true → rows'.select.source.any Table.asks = true)) := by
    refine wrapIf_carries (Q := fun s => s.orderAsks = false ∧
      (s.clausesAsk = true → s.source.any Table.asks = true)) (fun t origin => ?_) fun hbare => ?_
    · simp [Select.orderAsks, Select.clausesAsk, Select.ofTable, Select.empty]
    · simp_all [Select.isBareTable, Select.orderAsks, Select.clausesAsk, Select.hasGroups,
        Select.hasPaging]
  refine hwrap.imp fun rows' h => ?_
  obtain ⟨h | h | ⟨h, -⟩, horder, hclauses⟩ := h
  · exact .inl (hclauses h)
  · exact .inr h
  · rw [horder] at h
    cases h

theorem forAggregate_shows (rows : Rows) (node : Expr) :
    Carries used (rows.Shows row False) (rows.forAggregate node) fun rows' =>
      rows'.Shows row False := by
  rw [Rows.forAggregate]
  split
  · exact .refused _ _
  · refine (wrapIf_shows rows _ node).bind fun rows' => .pure fun h => ?_
    exact Or.imp_right (Or.imp_right fun h => h.2.elim) h

end Rows

/-- The segment is asked for in rows of this sequence, not counting what they ask for themselves or
are sorted by unless the paging marker stands there. -/
abbrev Rows.ShowsFor (marker : Option NodeId) (e : Expr) (rows : Rows) : Prop :=
  rows.Shows (e.inPart marker .row = true) (e.inPart marker .order = true)

structure Meaning.Retains (marker : Option NodeId) (e : Expr) (m : Meaning) : Prop where
  asSequence : ∀ inRun scope, Carries (e.holds marker = true) False (m.asSequence inRun scope)
    fun rows => rows.ShowsFor marker e
  asBinding : ∀ scope, Carries (e.holds marker = true) False (m.asBinding scope)
    fun b => b.asks = true
  apply : ∀ scope elements, Carries (e.holds marker = true) False (m.apply scope elements)
    fun b => b.asks = true

end SequenceQuery
