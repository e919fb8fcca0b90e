import SequenceQuery.Proofs.Operators

namespace SequenceQuery

theorem keepFirst_eq_nil {α : Type} {same : α → α → Bool} {xs : List α} :
    keepFirst same xs = [] ↔ xs = [] := by
  cases xs with
  | nil => exact Iff.rfl
  | cons x xs => exact ⟨nofun, nofun⟩

theorem keepFirst_sublist {α : Type} (same : α → α → Bool) (xs : List α) :
    (keepFirst same xs).Sublist xs := by
  induction xs with
  | nil => exact .slnil
  | cons x xs ih => exact .cons_cons x ((List.filter_sublist).trans ih)

theorem keepFirst_of_same {α : Type} {same : α → α → Bool} {xs : List α}
    (h : ∀ x ∈ xs, ∀ y ∈ xs, same x y = true) : keepFirst same xs = xs.take 1 := by
  cases xs with
  | nil => rfl
  | cons x xs =>
    have hdropped : (keepFirst same xs).filter (fun y => !same x y) = [] := by
      refine List.filter_eq_nil_iff.2 fun y hy => ?_
      have hmem : y ∈ xs := (keepFirst_sublist same xs).subset hy
      simp [h x List.mem_cons_self y (List.mem_cons_of_mem _ hmem)]
    rw [keepFirst, hdropped]
    rfl

theorem length_page {α : Type} (limit : Option Nat) (offset : Nat) (xs : List α) :
    (page limit offset xs).length =
      match limit with
      | some n => min n (xs.length - offset)
      | none => xs.length - offset := by
  cases limit <;> simp [page]

theorem page_eq_nil {α : Type} {limit : Option Nat} {offset : Nat} {xs : List α} :
    page limit offset xs = [] ↔ limit = some 0 ∨ xs.length ≤ offset := by
  cases limit with
  | none => simp [page]
  | some n => simp [page, List.take_eq_nil_iff]

/-- Whether all rows make one record together, for want of a key. -/
def Select.aggregatesAll (s : Select) : Bool :=
  !s.hasGroups && (s.items.any SelectItem.hasAggregate || s.having.isSome)

section

variable (engine : Engine) (db : Database) (arguments : Arguments) (outer : Env)

namespace Select

def kept (s : Select) : List Env :=
  (joinedRows engine db arguments outer s.joins
    (sourceRows engine db arguments outer s.source)).filter fun row =>
      conditionHolds engine db arguments s.filter [row] row

/-- The groups that satisfy their condition, each with the row that stands for it, or without keys
the rows on their own. -/
def candidates (s : Select) : List (List Env × Env) :=
  (if s.hasGroups then
      engine.groups (fun row => listCells engine db arguments s.groupBy [row] row)
        (s.kept engine db arguments outer)
    else (s.kept engine db arguments outer).map fun row => ([row], row)).filter fun g =>
      conditionHolds engine db arguments s.having g.1 g.2

def gathered (s : Select) : List (List Env × Env) :=
  if s.aggregatesAll then
    [(s.kept engine db arguments outer, (s.kept engine db arguments outer).headD outer)].filter
      fun g => conditionHolds engine db arguments s.having g.1 g.2
  else s.candidates engine db arguments outer

def entry (s : Select) (g : List Env × Env) : Record × List (Cell × Bool) :=
  (itemRecord engine db arguments (g.2.take (g.2.length - outer.length)) s.items g.1 g.2,
    sortKeys engine db arguments s.orderBy g.1 g.2)

def entries (s : Select) : List (Record × List (Cell × Bool)) :=
  let made := (s.gathered engine db arguments outer).map (s.entry engine db arguments outer)
  if s.distinct then keepFirst (fun a b => engine.sameCells a.1.cells b.1.cells) made else made

def limited (s : Select) : Option Nat :=
  (optionCell engine db arguments s.limit [outer] outer).count?

def skipped (s : Select) : Nat :=
  (optionCell engine db arguments s.offset [outer] outer).count?.getD 0

end Select

end

section

variable {engine : Engine} {db : Database} {arguments : Arguments} {outer : Env} {s : Select}

theorem Select.records_eq (s : Select) : s.records engine db arguments outer =
    page (s.limited engine db arguments outer) (s.skipped engine db arguments outer)
      (((s.entries engine db arguments outer).insertionSort fun a b =>
        engine.keysNotAfter a.2 b.2).map Prod.fst) := by
  obtain ⟨distinct, items, source, joins, filter, groupBy, having, orderBy, limit, offset, origin⟩ :=
    s
  cases groupBy with
  | nil =>
    cases hall : items.any SelectItem.hasAggregate || having.isSome with
    | false =>
      have hmade : (Select.mk distinct items source joins filter [] having orderBy limit offset
        origin).aggregatesAll = false := hall
      simp only [records, entries, gathered, hmade, List.isEmpty_nil, Bool.not_true,
        Bool.false_eq_true, if_false, hall]
      rfl
    | true =>
      have hmade : (Select.mk distinct items source joins filter [] having orderBy limit offset
        origin).aggregatesAll = true := hall
      simp only [records, entries, gathered, hmade, List.isEmpty_nil, Bool.not_true,
        Bool.false_eq_true, if_false, if_true, hall]
      rfl
  | cons key keys =>
    have hmade : (Select.mk distinct items source joins filter (key :: keys) having orderBy limit
      offset origin).aggregatesAll = false := rfl
    simp only [records, entries, gathered, hmade, List.isEmpty_cons, Bool.not_false, if_true,
      Bool.false_eq_true, if_false]
    rfl

namespace Select

theorem gathered_eq (h : s.aggregatesAll = false) :
    s.gathered engine db arguments outer = s.candidates engine db arguments outer := by
  rw [gathered, h, if_neg Bool.false_ne_true]

theorem length_records (s : Select) : (s.records engine db arguments outer).length =
    (page (s.limited engine db arguments outer) (s.skipped engine db arguments outer)
      (s.entries engine db arguments outer)).length := by
  rw [records_eq, page_map, List.length_map, length_page, length_page, List.length_insertionSort]

theorem records_eq_nil :
    s.records engine db arguments outer = [] ↔ s.limited engine db arguments outer = some 0 ∨
      (s.entries engine db arguments outer).length ≤ s.skipped engine db arguments outer := by
  rw [← List.length_eq_zero_iff, length_records, List.length_eq_zero_iff, page_eq_nil]

theorem entries_eq_nil : s.entries engine db arguments outer = [] ↔
    s.gathered engine db arguments outer = [] := by
  rw [entries]
  split
  · rw [keepFirst_eq_nil, List.map_eq_nil_iff]
  · rw [List.map_eq_nil_iff]

theorem length_entries (h : s.distinct = false) : (s.entries engine db arguments outer).length =
    (s.gathered engine db arguments outer).length := by
  rw [entries, h, if_neg Bool.false_ne_true, List.length_map]

/-- An aggregate that is selected on its own, without keys, is that of all rows together. -/
theorem records_of_aggregate (hopen : s.IsOpen) (hgroups : s.hasGroups = false)
    (hhaving : s.having = none) {e : SqlExpr} {name : Option String}
    (hitems : s.items = [.expr e name]) (he : e.hasAggregate = true) :
    s.records engine db arguments outer = [[(SelectItem.columnName e name,
      e.cell engine db arguments (s.kept engine db arguments outer)
        ((s.kept engine db arguments outer).headD outer))]] := by
  have hall : s.aggregatesAll = true := by
    rw [aggregatesAll, hgroups, hitems, List.any_cons, SelectItem.hasAggregate, he]
    rfl
  have hgathered : s.gathered engine db arguments outer =
      [(s.kept engine db arguments outer, (s.kept engine db arguments outer).headD outer)] := by
    rw [gathered, hall, if_pos rfl, hhaving]
    rfl
  rw [records_eq, limited, skipped, hopen.limit, hopen.offset, entries, hopen.distinct,
    if_neg Bool.false_ne_true, hgathered, List.map_singleton, entry, hitems]
  rfl

def made (engine : Engine) (db : Database) (arguments : Arguments) (outer : Env)
    (items : List SelectItem) (g : List Env × Env) : Record :=
  itemRecord engine db arguments (g.2.take (g.2.length - outer.length)) items g.1 g.2

theorem mem_records {r : Record} (h : r ∈ s.records engine db arguments outer) :
    ∃ own, ∃ g ∈ s.gathered engine db arguments outer,
      r = itemRecord engine db arguments own s.items g.1 g.2 := by
  rw [records_eq] at h
  have hsorted : r ∈ ((s.entries engine db arguments outer).insertionSort fun a b =>
      engine.keysNotAfter a.2 b.2).map Prod.fst := by
    unfold page at h
    split at h
    · exact List.mem_of_mem_drop (List.mem_of_mem_take h)
    · exact List.mem_of_mem_drop h
  obtain ⟨entry, hentry, rfl⟩ := List.mem_map.1 hsorted
  have hmade : entry ∈ (s.gathered engine db arguments outer).map
      (s.entry engine db arguments outer) := by
    rw [List.mem_insertionSort, entries] at hentry
    split at hentry
    · exact (keepFirst_sublist _ _).subset hentry
    · exact hentry
  obtain ⟨g, hg, rfl⟩ := List.mem_map.1 hmade
  exact ⟨_, g, hg, rfl⟩

/-- A statement that neither orders nor pages returns what it makes of each candidate. -/
theorem records_of_isOpen (h : s.aggregatesAll = false) (hopen : s.IsOpen)
    (horderBy : s.orderBy = []) : s.records engine db arguments outer =
      (s.candidates engine db arguments outer).map fun g => itemRecord engine db arguments
        (g.2.take (g.2.length - outer.length)) s.items g.1 g.2 := by
  have hentry : s.entry engine db arguments outer = fun g => (itemRecord engine db arguments
      (g.2.take (g.2.length - outer.length)) s.items g.1 g.2, []) := by
    funext g
    rw [entry, horderBy]
    rfl
  rw [records_eq, limited, skipped, hopen.limit, hopen.offset, entries, gathered_eq h,
    hopen.distinct, if_neg Bool.false_ne_true, hentry, insertionSort_without_keys, List.map_map]
  rfl

/-- Each candidate is returned for itself when there is nothing left to do. -/
theorem length_records_of_isOpen (h : s.aggregatesAll = false) (hopen : s.IsOpen) :
    (s.records engine db arguments outer).length =
      (s.candidates engine db arguments outer).length := by
  rw [length_records, limited, skipped, hopen.limit, hopen.offset, ← gathered_eq h]
  exact length_entries hopen.distinct

theorem candidates_havingBy (e : SqlExpr) : (s.havingBy e).candidates engine db arguments outer =
    (s.candidates engine db arguments outer).filter fun g =>
      (e.cell engine db arguments g.1 g.2).isTrue := by
  rw [candidates, candidates, List.filter_filter]
  refine List.filter_congr fun g _ => ?_
  rw [havingBy, conditionHolds_conjoin, Bool.and_comm]

theorem kept_filterBy (e : SqlExpr) : (s.filterBy e).kept engine db arguments outer =
    (s.kept engine db arguments outer).filter fun row =>
      (e.cell engine db arguments [row] row).isTrue := by
  rw [kept, kept, List.filter_filter]
  refine List.filter_congr fun row _ => ?_
  rw [filterBy, conditionHolds_conjoin, Bool.and_comm]

theorem candidates_filterBy (h : s.hasGroups = false) (e : SqlExpr) :
    (s.filterBy e).candidates engine db arguments outer =
      (s.candidates engine db arguments outer).filter fun g =>
        (e.cell engine db arguments g.1 g.2).isTrue := by
  have hgroups : (s.filterBy e).hasGroups = false := h
  rw [candidates, candidates, hgroups, h, if_neg Bool.false_ne_true, if_neg Bool.false_ne_true,
    kept_filterBy, List.filter_filter, List.filter_map, List.filter_map, List.filter_filter]
  refine congrArg _ (List.filter_congr fun row _ => ?_)
  exact Bool.and_comm _ _

theorem kept_ofTable (table : Table) (origin : Option Expr) :
    ({ ofTable table with origin := origin } : Select).kept engine db arguments outer =
      (table.records engine db arguments outer).map fun r => (table.label, r) :: outer :=
  List.filter_eq_self.2 fun _ _ => rfl

theorem candidates_ofTable (table : Table) (origin : Option Expr) :
    ({ ofTable table with origin := origin } : Select).candidates engine db arguments outer =
      (table.records engine db arguments outer).map fun r =>
        ([(table.label, r) :: outer], (table.label, r) :: outer) := by
  have hall := List.filter_eq_self.2 fun (g : List Env × Env) (_ : g ∈ ((table.records engine db
    arguments outer).map fun r => (table.label, r) :: outer).map fun row => ([row], row)) => rfl
  refine Eq.trans ?_ (hall.trans (List.map_map ..))
  rw [candidates, kept_ofTable]
  rfl

end Select

end

end SequenceQuery
