import SequenceQuery.Proofs.Pipelines
import SequenceQuery.Proofs.ResultOrder
import Mathlib.Data.List.Pairwise

namespace SequenceQuery.Expr

/-- The places that a node takes up among the values of the query: a constant one, a segment two. -/
def taken (e : Expr) : Expr → List Nat
  | .const i _ => (e.slot? i).toList
  | .segment i _ => (e.slot? i).toList.flatMap fun s => [s, s + 1]
  | _ => []

variable {e n : Expr}

theorem taken_eq (e n : Expr) :
    e.taken n = (e.slot? n.id).toList.flatMap fun s => List.range' s n.ownValues.length := by
  cases n with
  | const i v => simp [taken, ownValues, id]
  | segment i s => simp [taken, ownValues, id, List.range']
  | _ => simp [taken, ownValues]

theorem slot_of_mem {ns : List Expr} (next : Nat) (hn : n ∈ ns) (hvalues : n.ownValues ≠ []) :
    ∃ s, (n.id, s) ∈ slotsFrom next ns := by
  induction ns generalizing next with
  | nil => cases hn
  | cons first ns ih =>
    rw [slotsFrom]
    rcases List.mem_cons.1 hn with rfl | hn
    · cases hown : n.ownValues with
      | nil => exact absurd hown hvalues
      | cons v values => exact ⟨next, List.mem_cons_self⟩
    · cases first.ownValues with
      | nil => exact ih next hn
      | cons v values =>
        obtain ⟨s, hs⟩ := ih (next + (v :: values).length) hn
        exact ⟨s, List.mem_cons_of_mem _ hs⟩

/-- Of several entries for a node the last one is its slot. -/
theorem slot?_of_mem (hn : n ∈ e.nodes) (hvalues : n.ownValues ≠ []) :
    ∃ s, e.slot? n.id = some s ∧ (n.id, s) ∈ e.slots := by
  obtain ⟨s, hs⟩ := slot_of_mem 0 hn hvalues
  cases hfind : e.slots.reverse.find? fun entry => entry.1 == n.id with
  | none => exact absurd (List.find?_eq_none.1 hfind _ (List.mem_reverse.2 hs)) (by simp)
  | some entry =>
    have hfound := List.find?_some hfind
    have hid : entry.1 = n.id := eq_of_beq hfound
    refine ⟨entry.2, congrArg (Option.map Prod.snd) hfind, ?_⟩
    rw [← hid]
    exact List.mem_reverse.1 (List.mem_of_find?_eq_some hfind)

theorem Identified.values_at_slot (h : e.Identified) (hn : n ∈ e.nodes)
    (hvalues : n.ownValues ≠ []) : ∃ s, e.slot? n.id = some s ∧
      ∀ (j : Nat) (v : Value), n.ownValues[j]? = some v → e.constants[s + j]? = some v := by
  obtain ⟨s, hslot, hmem⟩ := slot?_of_mem hn hvalues
  obtain ⟨m, hm, hid, hheld⟩ := values_of_slot [] hmem
  rw [h m hm n hn hid] at hheld
  exact ⟨s, hslot, hheld⟩

/-- The places of values follow each other without a gap. -/
theorem flatMap_range'_of_slotsOfWidths {slot : Expr → Option Nat} {values : Expr → List Value}
    {ns : List Expr} {next : Nat}
    (h : ns.map slot = slotsOfWidths next (ns.map fun n => (values n).length)) :
    (ns.flatMap fun n => (slot n).toList.flatMap fun s => List.range' s (values n).length) =
      List.range' next (ns.flatMap values).length := by
  induction ns generalizing next with
  | nil => rfl
  | cons n ns ih =>
    rw [List.map_cons, List.map_cons] at h
    rw [List.flatMap_cons, List.flatMap_cons, List.length_append]
    cases hwidth : (values n).length with
    | zero =>
      rw [hwidth, slotsOfWidths] at h
      obtain ⟨hslot, hrest⟩ := List.cons.inj h
      rw [hslot, ih hrest, Nat.zero_add]
      rfl
    | succ k =>
      rw [hwidth, slotsOfWidths] at h
      · obtain ⟨hslot, hrest⟩ := List.cons.inj h
        rw [hslot, ih hrest, ← List.range'_append_1]
        simp
      · exact Nat.succ_ne_zero k

theorem Unshared.flatMap_taken (h : e.Unshared) :
    e.nodes.flatMap e.taken = List.range e.constants.length := by
  have hslots : e.nodes.map (fun n => e.slot? n.id) =
      slotsOfWidths 0 (e.nodes.map fun n => n.ownValues.length) := slots_of_nodup h 0
  rw [funext (taken_eq e), flatMap_range'_of_slotsOfWidths hslots, constants, List.range_eq_range']

/-- The slot of a constant holds its value, and that of a segment and the next one hold its start
and its length, also where nodes are shared. Where none is, the places that two nodes take up are
different ones, and together they are those of all the values of the query. -/
theorem slots_hold_values (h : e.Identified) :
    (∀ i v, .const i v ∈ e.nodes → ∃ s, e.slot? i = some s ∧ e.constants[s]? = some v) ∧
    (∀ i seg, .segment i seg ∈ e.nodes → ∃ s, e.slot? i = some s ∧
      e.constants[s]? = some seg.startValue ∧ e.constants[s + 1]? = some seg.lengthValue) ∧
    (e.Unshared →
      (∀ m ∈ e.nodes, ∀ n ∈ e.nodes, m ≠ n → (e.taken m).Disjoint (e.taken n)) ∧
      ∀ k, (∃ n ∈ e.nodes, k ∈ e.taken n) ↔ k < e.constants.length) := by
  refine ⟨fun i v hn => ?_, fun i seg hn => ?_, fun hunshared => ?_⟩
  · obtain ⟨s, hslot, hheld⟩ := h.values_at_slot hn (by simp [ownValues])
    exact ⟨s, hslot, hheld 0 v rfl⟩
  · obtain ⟨s, hslot, hheld⟩ := h.values_at_slot hn (by simp [ownValues])
    exact ⟨s, hslot, hheld 0 _ rfl, hheld 1 _ rfl⟩
  · have hflat := hunshared.flatMap_taken
    have hnodup : (e.nodes.flatMap e.taken).Nodup := hflat ▸ List.nodup_range
    refine ⟨fun m hm n hn hne => ?_, fun k => ?_⟩
    · have : Std.Symm (Function.onFun List.Disjoint e.taken) := ⟨fun _ _ h _ hm hn => h hn hm⟩
      exact (List.nodup_flatMap.1 hnodup).2.forall hm hn hne
    · rw [← List.mem_flatMap, hflat, List.mem_range]

/-- `Person.Segment(..).Skip(n).Take(m)`. -/
def pageOfSegment (n m : Expr) : Expr :=
  .call 0 .take [.call 1 .skip [.call 2 .segment [.entity 3 "Person",
    .segment 4 (.bounded 20 10)], n], m]

/-- One constant gives both counts. -/
def onePage : Expr := pageOfSegment (.const 5 (.int 7)) (.const 5 (.int 7))

def twoPages : Expr := pageOfSegment (.const 5 (.int 7)) (.const 6 (.int 3))

theorem slots_hold_values_onePage_twoPages :
    (onePage.Identified ∧ onePage.constants.length = 4 ∧
      (∃ s, onePage.slot? 5 = some s ∧ onePage.constants[s]? = some (.int 7)) ∧
      ∃ s, onePage.slot? 4 = some s ∧ onePage.constants[s]? = some (.int 20) ∧
        onePage.constants[s + 1]? = some (.int 10)) ∧
    twoPages.Unshared ∧ ∀ k, (∃ n ∈ twoPages.nodes, k ∈ twoPages.taken n) ↔ k < 4 := by
  have hid : onePage.Identified := by
    intro m hm n hn h
    simp only [onePage, pageOfSegment, nodes, nodesOfList, List.append_nil, List.nil_append,
      List.cons_append, List.mem_cons, List.not_mem_nil, or_false] at hm hn
    rcases hm with rfl | rfl | rfl | rfl | rfl | rfl | rfl <;>
      rcases hn with rfl | rfl | rfl | rfl | rfl | rfl | rfl <;> first | rfl | cases h
  have hunshared : twoPages.Unshared := by decide
  obtain ⟨hconstants, hsegments, -⟩ := slots_hold_values hid
  refine ⟨⟨hid, rfl, hconstants 5 (.int 7) ?_, hsegments 4 (.bounded 20 10) ?_⟩, hunshared,
    ((slots_hold_values hunshared.identified).2.2 hunshared).2⟩ <;>
    simp [onePage, pageOfSegment, nodes, nodesOfList]

end SequenceQuery.Expr
