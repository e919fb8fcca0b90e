import SequenceQuery.Expr.Paging
import SequenceQuery.Proofs.Elements

namespace SequenceQuery

section Lists

variable {α β : Type}

theorem page_map (f : α → β) (limit : Option Nat) (offset : Nat) (xs : List α) :
    page limit offset (xs.map f) = (page limit offset xs).map f := by
  cases limit with
  | none => exact List.map_drop.symm
  | some n => rw [page, page, ← List.map_drop, ← List.map_take]

theorem page_page (limit : Option Nat) (offset : Nat) (xs : List α) :
    page limit 0 (page none offset xs) = page limit offset xs := by
  cases limit <;> rfl

theorem keepFirst_map (f : α → β) (same : β → β → Bool) (xs : List α) :
    keepFirst same (xs.map f) = (keepFirst (fun a b => same (f a) (f b)) xs).map f := by
  induction xs with
  | nil => rfl
  | cons x xs ih => rw [List.map_cons, keepFirst, keepFirst, ih, List.filter_map]; rfl

theorem keepFirst_pairwise (same : α → α → Bool) (xs : List α) :
    (keepFirst same xs).Pairwise fun a b => same a b = false := by
  induction xs with
  | nil => exact .nil
  | cons x xs ih =>
    refine .cons (fun y hy => ?_) (ih.filter _)
    simpa using (List.mem_filter.1 hy).2

theorem keepFirst_of_pairwise {same : α → α → Bool} {xs : List α}
    (h : xs.Pairwise fun a b => same a b = false) : keepFirst same xs = xs := by
  induction h with
  | nil => rfl
  | cons hx _ ih =>
    rw [keepFirst, ih, List.filter_eq_self.2 fun y hy => by rw [hx y hy]; rfl]

theorem keepFirst_keepFirst (same : α → α → Bool) (xs : List α) :
    keepFirst same (keepFirst same xs) = keepFirst same xs :=
  keepFirst_of_pairwise (keepFirst_pairwise same xs)

theorem length_keepFirst_le (same : α → α → Bool) (xs : List α) :
    (keepFirst same xs).length ≤ xs.length := by
  induction xs with
  | nil => exact Nat.le_refl _
  | cons x xs ih => exact Nat.succ_le_succ ((List.length_filter_le _ _).trans ih)

theorem length_page_le (limit : Option Nat) (offset : Nat) (xs : List α) :
    (page limit offset xs).length ≤ xs.length := by
  cases limit <;> simp [page]

theorem page_min {bound : Nat} {xs : List α} (h : xs.length ≤ bound) (limit : Option Nat)
    (offset : Nat) : page (limit.map (min · bound)) (min offset bound) xs =
      page limit offset xs := by
  have hdrop : xs.drop (min offset bound) = xs.drop offset := by
    rcases Nat.le_total offset bound with ho | ho
    · rw [Nat.min_eq_left ho]
    · rw [Nat.min_eq_right ho, List.drop_eq_nil_of_le h, List.drop_eq_nil_of_le (h.trans ho)]
  cases limit with
  | none => exact hdrop
  | some n =>
    rw [Option.map_some, page, page, hdrop]
    rcases Nat.le_total n bound with hn | hn
    · rw [Nat.min_eq_left hn]
    · have hlength : (xs.drop offset).length ≤ bound := by
        rw [List.length_drop]
        omega
      rw [Nat.min_eq_right hn, List.take_of_length_le hlength,
        List.take_of_length_le (hlength.trans hn)]

end Lists

namespace Segment

variable {α : Type}

theorem toNat_saturate (n : Nat) : (saturate n).toNat = min n (UInt64.size - 1) := by
  rw [saturate, UInt64.toNat_ofNat']
  exact Nat.mod_eq_of_lt (Nat.lt_of_le_of_lt (Nat.min_le_right _ _) (by decide))

theorem rows_skip {xs : List α} (h : xs.length < UInt64.size) (s : Segment) (n : UInt64) :
    (s.skip n).rows xs = (s.rows xs).drop n.toNat := by
  have hdrop : xs.drop (saturate (s.start.toNat + n.toNat)).toNat =
      (xs.drop s.start.toNat).drop n.toNat := by
    rw [toNat_saturate, List.drop_drop]
    rcases Nat.le_total (s.start.toNat + n.toNat) (UInt64.size - 1) with hle | hle
    · rw [Nat.min_eq_left hle]
    · rw [Nat.min_eq_right hle, List.drop_eq_nil_of_le (by omega),
        List.drop_eq_nil_of_le (by omega)]
  obtain ⟨start, length⟩ := s
  cases length with
  | none => exact hdrop
  | some len =>
    have hlen : (UInt64.ofNat (len.toNat - n.toNat)).toNat = len.toNat - n.toNat := by
      rw [UInt64.toNat_ofNat']
      exact Nat.mod_eq_of_lt (Nat.lt_of_le_of_lt (Nat.sub_le _ _) len.toNat_lt)
    rw [skip, rows, rows, Option.map_some, Option.map_some, Option.map_some,
      SequenceQuery.page, SequenceQuery.page, hdrop, hlen, List.drop_take]

theorem rows_take (s : Segment) (n : UInt64) (xs : List α) :
    (s.take n).rows xs = (s.rows xs).take n.toNat := by
  obtain ⟨start, length⟩ := s
  cases length with
  | none => rfl
  | some len =>
    have hmin : (min len n).toNat = min n.toNat len.toNat := by
      rw [UInt64.toNat_min, Nat.min_comm]
    rw [take, rows, rows, Option.map_some, Option.map_some, SequenceQuery.page,
      SequenceQuery.page, hmin, List.take_take]

/-- How many counts there are: a larger one is sent as the last of them. -/
def countBound : Nat := Nat.pow 2 63

theorem count?_countValue (n : UInt64) :
    (countValue n).cell.count? = some (min n.toNat (countBound - 1)) := by
  have hlt : min n.toNat (countBound - 1) < countBound :=
    Nat.lt_of_le_of_lt (Nat.min_le_right _ _) (by decide)
  rw [countValue, Value.cell, Cell.count?, ← countBound, Int64.toInt_ofNat_of_lt hlt,
    Int.toNat_natCast]

/-- The counts that a command is given for a segment select what the segment selects. -/
theorem page_of_values {xs : List α} (h : xs.length < countBound) (s : Segment) :
    SequenceQuery.page s.lengthValue.cell.count? (s.startValue.cell.count?.getD 0) xs =
      s.rows xs := by
  have hlength : s.lengthValue.cell.count? =
      (s.length.map UInt64.toNat).map (min · (countBound - 1)) := by
    rw [lengthValue]
    cases s.length with
    | none => rfl
    | some n => exact count?_countValue n
  rw [hlength, startValue, count?_countValue, Option.getD_some, page_min (by omega), rows]

end Segment

theorem Expr.toNat_pagingCount (n : Int64) : (pagingCount n).toNat = n.toInt.toNat := by
  have hlt : n.toInt.toNat < UInt64.size := by
    have hn := n.toInt_lt
    rw [UInt64.size]
    omega
  rw [pagingCount, UInt64.toNat_ofNat', Nat.mod_eq_of_lt hlt]

section Pipelines

variable (engine : Engine) (callee : String → String) (db : Database) {catalog : Catalog}
  {entity : Entity} {e : Expr} {t : ElementType}

theorem Pipeline.length_elements_le (h : Pipeline catalog entity e t) :
    (e.elements engine callee catalog db).length ≤ (db entity.schema entity.table).length := by
  induction h with
  | entity h =>
    rw [Expr.elements, h]
    exact Nat.le_of_eq (List.length_map _)
  | filter _ _ ih => exact (List.length_filter_le _ _).trans ih
  | project _ _ _ ih => exact (Nat.le_of_eq (List.length_map _)).trans ih
  | distinct _ ih => exact (length_keepFirst_le _ _).trans ih
  | skip _ _ ih => exact (List.drop_sublist _ _).length_le.trans ih
  | take _ _ ih => exact (List.take_sublist _ _).length_le.trans ih
  | segment _ ih => exact (length_page_le _ _ _).trans ih

/-- What lies below a run of paging steps is a pipeline, and the segment of the run selects from it
what the steps select. -/
theorem Pipeline.pagingRun (h : Pipeline catalog entity e t)
    (hrows : (db entity.schema entity.table).length < UInt64.size) :
    Pipeline catalog entity e.pagingRun.2 t ∧ e.pagingRun.2.isPagingStep = false ∧
      e.elements engine callee catalog db =
        e.pagingRun.1.rows (e.pagingRun.2.elements engine callee catalog db) := by
  induction h with
  | skip h _ ih =>
    obtain ⟨hbelow, hstep, helements⟩ := ih
    refine ⟨hbelow, hstep, ?_⟩
    have hlength := (hbelow.length_elements_le engine callee db).trans_lt hrows
    rw [Expr.pagingRun, Segment.rows_skip hlength, Expr.toNat_pagingCount, ← helements]
    rfl
  | take h _ ih =>
    obtain ⟨hbelow, hstep, helements⟩ := ih
    refine ⟨hbelow, hstep, ?_⟩
    rw [Expr.pagingRun, Segment.rows_take, Expr.toNat_pagingCount, ← helements]
    rfl
  | entity h => exact ⟨.entity h, rfl, rfl⟩
  | filter h hbody => exact ⟨.filter h hbody, rfl, rfl⟩
  | project h hbody hcolumns => exact ⟨.project h hbody hcolumns, rfl, rfl⟩
  | distinct h => exact ⟨.distinct h, rfl, rfl⟩
  | segment h => exact ⟨.segment h, rfl, rfl⟩

end Pipelines

end SequenceQuery
