import SequenceQuery.Proofs.Layout
import SequenceQuery.Proofs.PagingRuns

namespace SequenceQuery

/-- The values bound for a segment leave these rows of a list: those from the first value on, and of
them as many as the second value says, or all where it is null. -/
def Segment.Leaves {α : Type} (s : Segment) (xs ys : List α) : Prop :=
  ∃ start : Int64, s.startValue = .int start ∧ 0 ≤ start.toInt ∧
    match s.lengthValue with
    | .null => ys = xs.drop start.toInt.toNat
    | .int length => 0 ≤ length.toInt ∧ ys = (xs.drop start.toInt.toNat).take length.toInt.toNat
    | _ => False

namespace Segment

theorem countValue_eq (n : UInt64) : ∃ count : Int64, countValue n = .int count ∧
    count.toInt.toNat = min n.toNat (countBound - 1) ∧ 0 ≤ count.toInt := by
  have hlt : min n.toNat (countBound - 1) < countBound :=
    Nat.lt_of_le_of_lt (Nat.min_le_right _ _) (by decide)
  refine ⟨Int64.ofNat (min n.toNat (countBound - 1)), rfl, ?_⟩
  rw [Int64.toInt_ofNat_of_lt hlt]
  exact ⟨Int.toNat_natCast _, Int.natCast_nonneg _⟩

/-- No list is so long that its end is cut off by the largest value that can be bound. -/
theorem leaves_rows {α : Type} (s : Segment) {xs : List α} (h : xs.length < countBound) :
    s.Leaves xs (s.rows xs) := by
  obtain ⟨start, hstart, hvalue, hnonneg⟩ := countValue_eq s.start
  have hdrop : xs.drop (min s.start.toNat (countBound - 1)) = xs.drop s.start.toNat :=
    page_min (Nat.le_sub_one_of_lt h) none s.start.toNat
  refine ⟨start, hstart, hnonneg, ?_⟩
  rw [lengthValue, rows, hvalue]
  cases s.length with
  | none => exact hdrop.symm
  | some n =>
    obtain ⟨length, hlength, hcount, hpos⟩ := countValue_eq n
    simp only [hlength]
    refine ⟨hpos, ?_⟩
    rw [hcount]
    exact (page_min (Nat.le_sub_one_of_lt h) (some n.toNat) s.start.toNat).symm

end Segment

namespace Expr

variable {e n : Expr} {m : Marker}

theorem asMarker?_run {i : NodeId} {op : Operator} {args : List Expr} (hop : op ≠ .segment)
    (h : (call i op args).asMarker? = some m) :
    m.segment = (call i op args).pagingRun.1 ∧ m.source = (call i op args).pagingRun.2 := by
  unfold asMarker? at h
  split at h
  case h_1 heq =>
    cases heq
    exact absurd rfl hop
  case h_2 =>
    split at h
    · cases h
      exact ⟨rfl, rfl⟩
    · cases h

/-- A run of paging steps goes on as long as there are any. -/
theorem RunOver.isPagingStep_below {below : Expr} (h : e.RunOver below) :
    below.isPagingStep = false := by
  induction h with
  | none h => exact h
  | skip _ _ _ _ ih | take _ _ _ _ ih => exact ih

theorem marker?_eq_some_iff : e.marker? = some m ↔ ∃ before n after,
    e.nodes = before ++ n :: after ∧ (∀ k ∈ before, k.asMarker? = none) ∧
      n.asMarker? = some m := by
  rw [marker?_eq_findSome?, List.findSome?_eq_some_iff]
  constructor
  · rintro ⟨before, n, after, hnodes, hn, hbefore⟩
    exact ⟨before, n, after, hnodes, hbefore, hn⟩
  · rintro ⟨before, n, after, hnodes, hbefore, hn⟩
    exact ⟨before, n, after, hnodes, hn, hbefore⟩

/-- A query has the paging marker of the first of its nodes that has one, and none only if no node
has one. That of a run of `Skip` and `Take` calls pages over a sequence that is no such call itself,
and the values that are bound for its segment leave of every list what the calls leave, from the
innermost to the outermost. -/
theorem marker?_leaves_run (e : Expr) :
    (∀ m, e.marker? = some m ↔ ∃ before n after, e.nodes = before ++ n :: after ∧
      (∀ k ∈ before, k.asMarker? = none) ∧ n.asMarker? = some m ∧ m.call = n) ∧
    (e.marker?.isSome ↔ ∃ n ∈ e.nodes, n.asMarker?.isSome) ∧
    ∀ m i op args, e.marker? = some m → m.call = .call i op args → op = .skip ∨ op = .take →
      m.source.isPagingStep = false ∧ m.call.RunOver m.source ∧
        ∀ (α : Type) (xs : List α), xs.length < Segment.countBound →
          m.segment.Leaves xs (m.call.runRows xs) := by
  refine ⟨fun m => ?_, ?_, fun m i op args hmarker hcall hop => ?_⟩
  · rw [marker?_eq_some_iff]
    constructor
    · rintro ⟨before, n, after, hnodes, hbefore, hn⟩
      exact ⟨before, n, after, hnodes, hbefore, hn, call_of_asMarker? hn⟩
    · rintro ⟨before, n, after, hnodes, hbefore, hn, -⟩
      exact ⟨before, n, after, hnodes, hbefore, hn⟩
  · rw [marker?_eq_findSome?, List.findSome?_isSome_iff]
  · obtain ⟨before, n, after, -, -, hn⟩ := marker?_eq_some_iff.1 hmarker
    obtain rfl := call_of_asMarker? hn
    have hsegment : op ≠ .segment := by rcases hop with rfl | rfl <;> decide
    rw [hcall] at hn ⊢
    obtain ⟨hselected, hsource⟩ := asMarker?_run hsegment hn
    have hrun := runOver_pagingRun (call i op args)
    rw [hselected, hsource]
    refine ⟨hrun.isPagingStep_below, hrun, fun α xs hxs => ?_⟩
    rw [← hrun.rows (hxs.trans (by decide))]
    exact Segment.leaves_rows _ hxs

/-- `Person.Skip(i64::MAX).Skip(i64::MAX).Take(10)`. -/
def farOff : Expr :=
  .call 0 .take [.call 1 .skip [.call 2 .skip [.entity 3 "Person",
    .const 4 (.int Int64.maxValue)], .const 5 (.int Int64.maxValue)], .const 6 (.int 10)]

theorem marker?_leaves_run_farOff : ∃ m, farOff.marker? = some m ∧
    m.segment.startValue = .int Int64.maxValue ∧ m.segment.lengthValue = .int 10 ∧
    m.source.isPagingStep = false ∧
      m.segment.Leaves ["Ada", "Bob", "Cid"] (m.call.runRows ["Ada", "Bob", "Cid"]) := by
  obtain ⟨hsource, -, hleaves⟩ := (marker?_leaves_run farOff).2.2 _ 0 .take _ rfl rfl (.inr rfl)
  exact ⟨_, rfl, by decide, by decide, hsource, hleaves String _ (by decide)⟩

end Expr

end SequenceQuery
