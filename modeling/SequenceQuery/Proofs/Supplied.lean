import SequenceQuery.Proofs.Meanings
import SequenceQuery.Proofs.StatementPieces
import SequenceQuery.Provider.Basic

namespace SequenceQuery

section Nested

def PiecesAmong (queries : List Select) (ps : List Piece) : Prop :=
  ∀ q ∈ queries, q.pieces ⊆ ps

variable {as bs : List Select} {ps qs : List Piece}

theorem piecesAmong_nil : PiecesAmong [] ps := nofun

theorem PiecesAmong.append (ha : PiecesAmong as ps) (hb : PiecesAmong bs ps) :
    PiecesAmong (as ++ bs) ps :=
  List.forall_mem_append.2 ⟨ha, hb⟩

theorem PiecesAmong.mono (h : PiecesAmong as ps) (hps : ps ⊆ qs) : PiecesAmong as qs :=
  fun q hq => List.Subset.trans (h q hq) hps

theorem PiecesAmong.both (ha : PiecesAmong as ps) (hb : PiecesAmong bs qs) :
    PiecesAmong (as ++ bs) (ps ++ qs) :=
  (ha.mono (List.subset_append_left _ _)).append (hb.mono (List.subset_append_right _ _))

theorem PiecesAmong.cons {q : Select} (h : PiecesAmong as q.pieces) :
    PiecesAmong (q :: as) q.pieces :=
  List.forall_mem_cons.2 ⟨List.Subset.refl _, h⟩

theorem PiecesAmong.below {e : SqlExpr} (h : PiecesAmong as ps) :
    PiecesAmong as (.expr e :: ps) :=
  h.mono (List.subset_cons_self _ _)

mutual

theorem Select.nested_among : ∀ s : Select, PiecesAmong s.nested s.pieces
  | ⟨_, items, source, joins, filter, groupBy, having, orderBy, limit, offset, _⟩ => by
    have hitems := nestedOfItems_among items
    have hsource := nestedOfSource_among source
    have hjoins := nestedOfJoins_among joins
    have hfilter := nestedOfOption_among filter
    have hgroups := nestedOfList_among groupBy
    have hhaving := nestedOfOption_among having
    have hkeys := nestedOfKeys_among orderBy
    have hlimit := nestedOfOption_among limit
    have hoffset := nestedOfOption_among offset
    intro q hq p hp
    simp only [Select.nested, List.mem_append] at hq
    simp only [Select.pieces, List.mem_append]
    rcases hq with (((((((hq | hq) | hq) | hq) | hq) | hq) | hq) | hq) | hq
    · simp [hsource q hq hp]
    · simp [hjoins q hq hp]
    · simp [hfilter q hq hp]
    · simp [hitems q hq hp]
    · simp [hgroups q hq hp]
    · simp [hhaving q hq hp]
    · simp [hkeys q hq hp]
    · simp [hlimit q hq hp]
    · simp [hoffset q hq hp]

theorem Table.nested_among : ∀ t : Table, PiecesAmong t.nested t.pieces
  | .table .. => piecesAmong_nil
  | .subquery query _ => query.nested_among.mono (List.subset_append_left _ _)

theorem nestedOfSource_among : ∀ t : Option Table, PiecesAmong (nestedOfSource t) (sourcePieces t)
  | none => piecesAmong_nil
  | some t => t.nested_among

theorem nestedOfJoins_among : ∀ joins : List Join,
    PiecesAmong (nestedOfJoins joins) (joinPieces joins)
  | [] => piecesAmong_nil
  | ⟨_, table, condition⟩ :: rest =>
    (table.nested_among.both (nestedOfOption_among condition)).both (nestedOfJoins_among rest)

theorem nestedOfItems_among : ∀ items : List SelectItem,
    PiecesAmong (nestedOfItems items) (itemPieces items)
  | [] => piecesAmong_nil
  | .wildcard :: rest => nestedOfItems_among rest
  | .expr e _ :: rest =>
    (e.nested_among.mono (List.subset_append_left _ _)).both (nestedOfItems_among rest)

theorem nestedOfKeys_among : ∀ keys : List SortKey,
    PiecesAmong (nestedOfKeys keys) (keyPieces keys)
  | [] => piecesAmong_nil
  | ⟨e, _⟩ :: rest => e.nested_among.both (nestedOfKeys_among rest)

theorem nestedOfOption_among : ∀ e : Option SqlExpr,
    PiecesAmong (nestedOfOption e) (optionPieces e)
  | none => piecesAmong_nil
  | some e => e.nested_among

theorem nestedOfList_among : ∀ es : List SqlExpr, PiecesAmong (nestedOfList es) (listPieces es)
  | [] => piecesAmong_nil
  | e :: rest => e.nested_among.both (nestedOfList_among rest)

theorem nestedOfArms_among : ∀ arms : List (SqlExpr × SqlExpr),
    PiecesAmong (nestedOfArms arms) (armPieces arms)
  | [] => piecesAmong_nil
  | (test, value) :: rest =>
    (test.nested_among.both value.nested_among).both (nestedOfArms_among rest)

theorem SqlExpr.nested_among : ∀ e : SqlExpr, PiecesAmong e.nestedSelects e.pieces
  | .column .. | .literal _ | .param _ | .wildcard => piecesAmong_nil
  | .binary _ left right => (left.nested_among.both right.nested_among).below
  | .unary _ operand | .isNull operand _ | .nested operand => operand.nested_among.below
  | .function _ args | .aggregate _ args _ => (nestedOfList_among args).below
  | .cases arms otherwise =>
    ((nestedOfArms_among arms).both (nestedOfOption_among otherwise)).below
  | .subquery query | .exist query _ => query.nested_among.cons.below
  | .isIn operand query _ => (operand.nested_among.both query.nested_among.cons).below

end

theorem Select.withNested_among (s : Select) (root : Expr) :
    PiecesAmong (s.withNested root) s.pieces :=
  PiecesAmong.cons fun q hq => s.nested_among q ((List.mergeSort_perm _ _).subset hq)

end Nested

namespace Expr

/-- A slot is that of a node with values, and all of these have slots. -/
theorem node_of_slot {next : Nat} {ns : List Expr} {i : NodeId} {k : Nat}
    (h : (i, k) ∈ slotsFrom next ns) : ∃ n ∈ ns, n.id = i ∧ n.ownValues ≠ [] ∧
      k + n.ownValues.length ≤ next + (ns.flatMap ownValues).length := by
  induction ns generalizing next with
  | nil => cases h
  | cons e ns ih =>
    rw [slotsFrom] at h
    rw [List.flatMap_cons, List.length_append]
    cases hvalues : e.ownValues with
    | nil =>
      rw [hvalues] at h
      obtain ⟨n, hn, hid, hne, hle⟩ := ih h
      exact ⟨n, List.mem_cons_of_mem _ hn, hid, hne, by simpa using hle⟩
    | cons v values =>
      rw [hvalues] at h
      rcases List.mem_cons.1 h with h | h
      · obtain ⟨rfl, rfl⟩ := Prod.mk.inj h
        exact ⟨e, List.mem_cons_self, rfl, by simp [hvalues], by rw [hvalues]; omega⟩
      · obtain ⟨n, hn, hid, hne, hle⟩ := ih h
        exact ⟨n, List.mem_cons_of_mem _ hn, hid, hne, by omega⟩

/-- No segment call is given a constant. -/
def SegmentsGiven (e : Expr) : Prop :=
  ∀ i source argument rest, .call i .segment (source :: argument :: rest) ∈ e.nodes →
    ∀ v, .const argument.id v ∉ e.nodes

end Expr

namespace Form

/-- A source for which a form's query has a value of its own. -/
def Supplies (f : Form) : Source → Prop
  | .slot k => k < f.slotCount
  | .segmentStart | .segmentLength => f.segment.isSome

variable {catalog : Catalog} {dialect : Dialect} {e : Expr} {f : Form}

theorem node_of_slot? {i : NodeId} {k : Nat}
    (h : (Surroundings.ofExpr catalog dialect e).slot? i = some k) :
    ∃ n ∈ e.nodes, n.id = i ∧ n.ownValues ≠ [] ∧ k + n.ownValues.length ≤ e.constants.length := by
  obtain ⟨⟨j, k'⟩, hfind, rfl⟩ := Option.map_eq_some_iff.1 h
  have hid := List.find?_some hfind
  obtain rfl := eq_of_beq hid
  have hmem := List.mem_reverse.1 (List.mem_of_find?_eq_some hfind)
  obtain ⟨n, hn, hn', hne, hle⟩ := Expr.node_of_slot hmem
  exact ⟨n, hn, hn', hne, by rwa [Nat.zero_add] at hle⟩

theorem supplies_of_written {p : Progress} {source : Source} (hgiven : e.SegmentsGiven)
    (hslots : f.slotCount = e.constants.length)
    (hsegment : f.segment = if p.segmentUsed then e.segment? else none)
    (h : SqlExpr.Written (.ofExpr catalog dialect e) e.nodes p (.param source)) :
    f.Supplies source := by
  have marked : (Surroundings.ofExpr catalog dialect e).marker.isSome → p.segmentUsed = true →
      f.segment.isSome := by
    intro hmarker hused
    rw [hsegment, if_pos hused]
    simpa [Surroundings.ofExpr, Expr.segment?] using hmarker
  cases h with
  | slot h =>
    obtain ⟨n, -, -, hne, hle⟩ := node_of_slot? h
    have := List.length_pos_iff.2 hne
    show _ < f.slotCount
    omega
  | slotBehind hcall h =>
    obtain ⟨n, hn, hid, hne, hle⟩ := node_of_slot? h
    show _ < f.slotCount
    cases n with
    | const j v =>
      obtain rfl : j = _ := hid
      exact absurd hn (hgiven _ _ _ _ hcall v)
    | segment j s =>
      simp only [Expr.ownValues, List.length_cons, List.length_nil] at hle
      omega
    | _ => exact absurd rfl hne
  | segmentStart hmarker hused | segmentLength hmarker hused => exact marked hmarker hused

theorem Supplies.resolve {source : Source} (hslots : f.slotCount = e.constants.length)
    (h : f.Supplies source) :
    ∃ v, (Setting.ownArguments e f).resolve source = .ok v := by
  cases source with
  | slot k =>
    have hk : k < e.constants.length := hslots ▸ h
    refine ⟨e.constants[k], ?_⟩
    simp [Arguments.resolve, Setting.ownArguments, hk]
  | segmentStart | segmentLength =>
    obtain ⟨s, hs⟩ := Option.isSome_iff_exists.1 h
    simp [Arguments.resolve, Setting.ownArguments, hs]

end Form

namespace Postgres

theorem param_of_source {s : Select} {source : Source}
    (h : source ∈ s.tokens.filterMap Token.source?) : .expr (.param source) ∈ s.pieces := by
  obtain ⟨t, ht, hsource⟩ := List.mem_filterMap.1 h
  obtain rfl : t = .placeholder source := by cases t <;> simp_all [Token.source?]
  have hdata : .placeholder source ∈ Token.data s.tokens := List.mem_filter.2 ⟨ht, rfl⟩
  rw [Select.data_tokens] at hdata
  obtain ⟨piece, hpiece, hmem⟩ := List.mem_flatMap.1 hdata
  unfold Piece.data at hmem
  split at hmem
  · simp at hmem
  · simp at hmem
  · next value => cases value <;> simp [Value.token, Token.data, Token.isData] at hmem
  · obtain rfl := Token.placeholder.inj (List.mem_singleton.1 hmem)
    exact hpiece
  · cases hmem

theorem mem_firstOccurrences {α : Type} [DecidableEq α] {x : α} {xs : List α}
    (h : x ∈ firstOccurrences xs) : x ∈ xs := by
  induction xs with
  | nil => cases h
  | cons y xs ih =>
    rcases List.mem_cons.1 h with rfl | h
    · exact List.mem_cons_self
    · exact List.mem_cons_of_mem _ (ih (List.mem_of_mem_filter h))

theorem mapM_ok {α β ε : Type} {f : α → Except ε β} {xs : List α}
    (h : ∀ x ∈ xs, ∃ y, f x = .ok y) : ∃ ys, xs.mapM f = .ok ys := by
  induction xs with
  | nil => exact ⟨[], rfl⟩
  | cons x xs ih =>
    obtain ⟨y, hy⟩ := h x List.mem_cons_self
    obtain ⟨ys, hys⟩ := ih fun x' hx' => h x' (List.mem_cons_of_mem _ hx')
    rw [List.mapM_cons, hy, hys]
    exact ⟨y :: ys, rfl⟩

/-- A statement of which every parameter has a value is written as a command. -/
theorem render_ok {s : Select} {arguments : Arguments} (options : RenderOptions)
    (h : ∀ source, .expr (.param source) ∈ s.pieces → ∃ v, arguments.resolve source = .ok v) :
    ∃ command, render options arguments s = .ok command := by
  have bound : ∃ ps, boundParameters arguments (sourcesOf s.tokens) = .ok ps := by
    refine mapM_ok fun source hsource => ?_
    obtain ⟨v, hv⟩ := h source (param_of_source (mem_firstOccurrences hsource))
    rw [hv]
    exact ⟨_, rfl⟩
  obtain ⟨ps, hps⟩ := bound
  rw [render, hps]
  exact ⟨_, rfl⟩

end Postgres

namespace Form

/-- Unless a segment call is given a constant, every parameter in a form has a value that comes
with the query, so with these values the statement and all nested in it can be written. -/
theorem supplied_ofExpr (catalog : Catalog) (dialect : Dialect) {e : Expr} {f : Form}
    (h : ofExpr catalog dialect e = .ok f) (hgiven : e.SegmentsGiven) :
    (∀ source, .expr (.param source) ∈ f.select.pieces → f.Supplies source) ∧
      ∀ s ∈ f.select.withNested e, ∀ options : RenderOptions,
        ∃ command, Postgres.render options (Setting.ownArguments e f) s = .ok command := by
  obtain ⟨p, hfits, hsegment, hslots⟩ := fits_ofExpr h
  have supplied : ∀ source, .expr (.param source) ∈ f.select.pieces → f.Supplies source := by
    intro source hsource
    rcases hfits.allHold _ hsource with hstar | hwritten
    · cases hstar
    · exact supplies_of_written hgiven hslots hsegment hwritten.1
  refine ⟨supplied, fun s hs options => ?_⟩
  have hpieces := f.select.withNested_among e s hs
  exact Postgres.render_ok options fun source hsource =>
    (supplied source (hpieces hsource)).resolve hslots

/-- `Person.Where(p => p.Age > 30).Segment(..)`. -/
def pageAbove30 : Expr :=
  .call 0 .segment [.call 1 .filter [.entity 2 "Person",
    .lambda 3 ["p"] (.binary 4 .greaterThan (.member 5 (.param 6 "p") "Age") (.const 7 (.int 30)))],
    .segment 8 (.bounded 10 5)]

theorem supplied_pageAbove30 : pageAbove30.SegmentsGiven ∧
    ∃ f, ofExpr ages (Postgres.dialect false) pageAbove30 = .ok f ∧ f.slotCount = 3 ∧
      ∀ s ∈ f.select.withNested pageAbove30, ∀ options : RenderOptions, ∃ command,
        Postgres.render options (Setting.ownArguments pageAbove30 f) s = .ok command := by
  have hgiven : pageAbove30.SegmentsGiven := by
    intro i source argument rest hcall v
    have hargument : argument = .segment 8 (.bounded 10 5) := by
      simp [pageAbove30, Expr.nodes, Expr.nodesOfList] at hcall
      exact hcall.2.2.1
    simp [hargument, pageAbove30, Expr.nodes, Expr.nodesOfList, Expr.id]
  obtain ⟨f, hf⟩ : ∃ f, ofExpr ages (Postgres.dialect false) pageAbove30 = .ok f := ⟨_, rfl⟩
  have hslots : f.slotCount = 3 := by cases hf; rfl
  exact ⟨hgiven, f, hf, hslots, (supplied_ofExpr ages _ hf hgiven).2⟩

/-- `Person.Segment(5)`: the one constant fills the slot of the offset, and the limit has none. -/
def segmentOfConstant : Expr := .call 0 .segment [.entity 1 "Person", .const 2 (.int 5)]

theorem not_supplied_segmentOfConstant :
    ∃ f, ofExpr ages (Postgres.dialect false) segmentOfConstant = .ok f ∧
      (∃ k, .expr (.param (.slot k)) ∈ f.select.pieces ∧ ¬k < f.slotCount) ∧
      Postgres.render ⟨false, false⟩ (Setting.ownArguments segmentOfConstant f) f.select =
        .error (.missingConstant 1) := by
  exact ⟨_, rfl, ⟨1, List.mem_of_getElem? (i := 3) rfl, by decide⟩, rfl⟩

end Form

end SequenceQuery
