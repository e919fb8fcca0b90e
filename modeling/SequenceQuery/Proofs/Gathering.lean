import SequenceQuery.Proofs.NestedPlaces

namespace SequenceQuery

/-- A part of a statement. A statement is read from, as the whole query is and as a derived table, or
it is the operand of an expression: a scalar subquery, or what EXISTS or IN is asked of. -/
inductive SelectPart
  | expr (e : SqlExpr)
  | table (s : Select)
  | operand (s : Select)

def Table.parts (t : Table) : List SelectPart := t.query?.toList.map .table

def Join.parts (j : Join) : List SelectPart := j.table.parts ++ j.condition.toList.map .expr

def Select.clauses (s : Select) : List SqlExpr :=
  s.filter.toList ++ s.selected ++ s.groupBy ++ s.having.toList ++ s.orderBy.map SortKey.expr ++
    s.limit.toList ++ s.offset.toList

def Select.parts (s : Select) : List SelectPart :=
  s.source.toList.flatMap Table.parts ++ s.joins.flatMap Join.parts ++ s.clauses.map .expr

namespace SelectPart

def parts : SelectPart → List SelectPart
  | .expr e => e.parts.map .expr ++ e.queries.map .operand
  | .table s | .operand s => s.parts

def operand? : SelectPart → Option Select
  | .operand s => some s
  | _ => none

/-- The part at an address, which says at each level which part to go into. -/
def at? : SelectPart → List Nat → Option SelectPart
  | part, [] => some part
  | part, i :: rest => part.parts[i]?.bind (at? · rest)

def listed : SelectPart → List Select
  | .expr e => e.nestedSelects
  | .table s => s.nested
  | .operand s => s :: s.nested

section

def Inherited (motive : SelectPart → Prop) : Prop :=
  ∀ part, (∀ p ∈ part.parts, motive p) → motive part

variable {motive : SelectPart → Prop}

mutual

theorem forall_parts (step : Inherited motive) : ∀ s : Select, ∀ p ∈ s.parts, motive p
  | ⟨_, items, source, joins, filter, groupBy, having, orderBy, limit, offset, _⟩ => by
    simp only [Select.parts, Select.clauses, Select.selected, List.map_append,
      List.forall_mem_append, List.forall_mem_map]
    exact ⟨⟨forall_source step source, forall_joins step joins⟩, ⟨⟨⟨⟨⟨forall_option step filter,
      forall_items step items⟩, forall_list step groupBy⟩, forall_option step having⟩,
      forall_keys step orderBy⟩, forall_option step limit⟩, forall_option step offset⟩

theorem forall_table (step : Inherited motive) : ∀ t : Table, ∀ p ∈ t.parts, motive p
  | .table .. => nofun
  | .subquery query _ => List.forall_mem_singleton.2 (step (.table query) (forall_parts step query))

theorem forall_source (step : Inherited motive) :
    ∀ t : Option Table, ∀ p ∈ t.toList.flatMap Table.parts, motive p
  | none => nofun
  | some t => by simpa using forall_table step t

theorem forall_joins (step : Inherited motive) :
    ∀ joins : List Join, ∀ p ∈ joins.flatMap Join.parts, motive p
  | [] => nofun
  | ⟨_, joined, condition⟩ :: rest => by
    simp only [List.flatMap_cons, Join.parts, List.forall_mem_append, List.forall_mem_map]
    exact ⟨⟨forall_table step joined, forall_option step condition⟩, forall_joins step rest⟩

theorem forall_items (step : Inherited motive) : ∀ items : List SelectItem,
    ∀ e ∈ items.filterMap SelectItem.expr?, motive (.expr e)
  | [] => nofun
  | .wildcard :: rest => forall_items step rest
  | .expr e _ :: rest => List.forall_mem_cons.2 ⟨forall_expr step e, forall_items step rest⟩

theorem forall_keys (step : Inherited motive) :
    ∀ keys : List SortKey, ∀ k ∈ keys, motive (.expr k.expr)
  | [] => nofun
  | ⟨e, _⟩ :: rest => List.forall_mem_cons.2 ⟨forall_expr step e, forall_keys step rest⟩

theorem forall_option (step : Inherited motive) :
    ∀ o : Option SqlExpr, ∀ e ∈ o.toList, motive (.expr e)
  | none => nofun
  | some e => List.forall_mem_singleton.2 (forall_expr step e)

theorem forall_list (step : Inherited motive) : ∀ es : List SqlExpr, ∀ e ∈ es, motive (.expr e)
  | [] => nofun
  | e :: rest => List.forall_mem_cons.2 ⟨forall_expr step e, forall_list step rest⟩

theorem forall_arms (step : Inherited motive) : ∀ arms : List (SqlExpr × SqlExpr),
    ∀ e ∈ arms.flatMap fun arm => [arm.1, arm.2], motive (.expr e)
  | [] => nofun
  | (test, value) :: rest =>
    List.forall_mem_cons.2 ⟨forall_expr step test, List.forall_mem_cons.2
      ⟨forall_expr step value, forall_arms step rest⟩⟩

theorem forall_expr (step : Inherited motive) : ∀ e : SqlExpr, motive (.expr e)
  | .column .. | .literal _ | .param _ | .wildcard => step (.expr _) nofun
  | .binary _ left right =>
    step (.expr _) (List.forall_mem_cons.2 ⟨forall_expr step left,
      List.forall_mem_singleton.2 (forall_expr step right)⟩)
  | .unary _ e | .isNull e _ | .nested e =>
    step (.expr _) (List.forall_mem_singleton.2 (forall_expr step e))
  | .function _ args | .aggregate _ args _ =>
    step (.expr _) (List.forall_mem_append.2 ⟨List.forall_mem_map.2 (forall_list step args), nofun⟩)
  | .cases arms otherwise =>
    step (.expr _) (List.forall_mem_append.2 ⟨List.forall_mem_map.2
      (List.forall_mem_append.2 ⟨forall_arms step arms, forall_option step otherwise⟩), nofun⟩)
  | .subquery query | .exist query _ =>
    step (.expr _) (List.forall_mem_singleton.2 (step (.operand query) (forall_parts step query)))
  | .isIn e query _ =>
    step (.expr _) (List.forall_mem_cons.2 ⟨forall_expr step e,
      List.forall_mem_singleton.2 (step (.operand query) (forall_parts step query))⟩)

end

/-- What a part inherits from the parts of it holds of all parts. -/
theorem forall_of_inherited (step : Inherited motive) : ∀ part, motive part
  | .expr e => forall_expr step e
  | .table s => step (.table s) (forall_parts step s)
  | .operand s => step (.operand s) (forall_parts step s)

end

theorem listed_exprs (es : List SqlExpr) :
    (es.map SelectPart.expr).flatMap listed = nestedOfList es := by
  induction es with
  | nil => rfl
  | cons e es ih => rw [List.map_cons, List.flatMap_cons, ih, listed, nestedOfList]

theorem listed_table (t : Table) : t.parts.flatMap listed = t.nested := by
  cases t with
  | table => rfl
  | subquery query => exact List.append_nil _

theorem listed_source (t : Option Table) :
    (t.toList.flatMap Table.parts).flatMap listed = nestedOfSource t := by
  cases t with
  | none => rfl
  | some t => simpa [nestedOfSource] using listed_table t

theorem listed_joins (joins : List Join) :
    (joins.flatMap Join.parts).flatMap listed = nestedOfJoins joins := by
  induction joins with
  | nil => rfl
  | cons j joins ih =>
    obtain ⟨kind, t, condition⟩ := j
    rw [List.flatMap_cons, List.flatMap_append, ih, Join.parts, List.flatMap_append, listed_table,
      listed_exprs, ← nestedOfOption_eq, nestedOfJoins]

theorem listed_parts (s : Select) : s.parts.flatMap listed = s.nested := by
  rw [Select.parts, Select.clauses, List.flatMap_append, List.flatMap_append, listed_source,
    listed_joins, listed_exprs, Select.selected]
  obtain ⟨_, items, source, joins, filter, groupBy, having, orderBy, limit, offset, _⟩ := s
  simp only [Select.nested, nestedOfList_append, ← nestedOfOption_eq, ← nestedOfKeys_eq,
    ← nestedOfItems_eq, List.append_assoc]

theorem listed_eq (part : SelectPart) :
    part.listed = part.operand?.toList ++ part.parts.flatMap listed := by
  cases part with
  | table s => exact (listed_parts s).symm
  | operand s => exact congrArg (s :: ·) (listed_parts s).symm
  | expr e =>
    rw [parts, List.flatMap_append, listed_exprs]
    cases e with
    | cases arms otherwise =>
      rw [SqlExpr.parts, nestedOfList_append, ← nestedOfArms_eq, ← nestedOfOption_eq]
      exact (List.append_nil _).symm
    | _ =>
      simp [listed, operand?, SqlExpr.parts, SqlExpr.queries, SqlExpr.nestedSelects, nestedOfList]

/-- The operands in a part with their addresses, in the order of these. -/
structure Lists (part : SelectPart) (found : List (List Nat × Select)) : Prop where
  mem : ∀ address q, (address, q) ∈ found ↔ part.at? address = some (.operand q)
  sorted : found.Pairwise fun a b => a.1 < b.1
  selects : found.map Prod.snd = part.listed

/-- The operands in parts that stand side by side, the first of them at the index `start`. -/
structure ListsFrom (start : Nat) (parts : List SelectPart)
    (found : List (List Nat × Select)) : Prop where
  mem : ∀ address q, (address, q) ∈ found ↔ ∃ i rest, address = (start + i) :: rest ∧
    parts[i]?.bind (at? · rest) = some (.operand q)
  sorted : found.Pairwise fun a b => a.1 < b.1
  selects : found.map Prod.snd = parts.flatMap listed

theorem exists_listsFrom {parts : List SelectPart} (h : ∀ part ∈ parts, ∃ found, part.Lists found)
    (start : Nat) : ∃ found, ListsFrom start parts found := by
  induction parts generalizing start with
  | nil => exact ⟨[], by simp, .nil, rfl⟩
  | cons part parts ih =>
    obtain ⟨⟨first, hfirst⟩, hparts⟩ := List.forall_mem_cons.1 h
    obtain ⟨others, hothers⟩ := ih hparts (start + 1)
    have mem_first : ∀ address q, (address, q) ∈ first.map (Prod.map (start :: ·) id) ↔
        ∃ rest, address = start :: rest ∧ part.at? rest = some (.operand q) := by
      intro address q
      simp only [List.mem_map, Prod.exists, Prod.map, id_eq, Prod.mk.injEq]
      constructor
      · rintro ⟨rest, q', hmem, rfl, rfl⟩
        exact ⟨rest, rfl, (hfirst.mem _ _).1 hmem⟩
      · rintro ⟨rest, rfl, hat⟩
        exact ⟨rest, q, (hfirst.mem _ _).2 hat, rfl, rfl⟩
    refine ⟨first.map (Prod.map (start :: ·) id) ++ others, fun address q => ?_, ?_, ?_⟩
    · rw [List.mem_append, mem_first, hothers.mem]
      constructor
      · rintro (⟨rest, rfl, hat⟩ | ⟨i, rest, rfl, hat⟩)
        · exact ⟨0, rest, rfl, hat⟩
        · exact ⟨i + 1, rest, by rw [Nat.add_assoc, Nat.add_comm 1 i], hat⟩
      · rintro ⟨i, rest, rfl, hat⟩
        cases i with
        | zero => exact .inl ⟨rest, rfl, hat⟩
        | succ i => exact .inr ⟨i, rest, by rw [Nat.add_assoc, Nat.add_comm 1 i], hat⟩
    · refine List.pairwise_append.2 ⟨?_, hothers.sorted, ?_⟩
      · refine List.pairwise_map.2 (hfirst.sorted.imp fun hlt => ?_)
        exact List.cons_lt_cons_iff.2 (.inr ⟨rfl, hlt⟩)
      · rintro ⟨address, q⟩ hq ⟨address', q'⟩ hq'
        obtain ⟨rest, rfl, -⟩ := (mem_first _ _).1 hq
        obtain ⟨i, rest', rfl, -⟩ := (hothers.mem _ _).1 hq'
        exact List.cons_lt_cons_iff.2 (.inl (by omega))
    · rw [List.map_append, List.map_map, List.flatMap_cons, hothers.selects, ← hfirst.selects]
      rfl

/-- The operands in a part can be listed in the order of their addresses, which is that in which they
are visited. -/
theorem exists_lists : ∀ part : SelectPart, ∃ found, part.Lists found := by
  refine forall_of_inherited fun part ih => ?_
  obtain ⟨found, hfound⟩ := exists_listsFrom ih 0
  refine ⟨part.operand?.toList.map (Prod.mk []) ++ found, fun address q => ?_, ?_, ?_⟩
  · rw [List.mem_append, hfound.mem]
    cases address with
    | nil => cases part <;> simp [operand?, at?, eq_comm]
    | cons i rest => simp [at?]
  · refine List.pairwise_append.2 ⟨?_, hfound.sorted, ?_⟩
    · cases part.operand? <;> simp
    · rintro ⟨address, q⟩ hq ⟨address', q'⟩ hq'
      obtain ⟨_, -, hq⟩ := List.mem_map.1 hq
      obtain ⟨i, rest, rfl, -⟩ := (hfound.mem _ _).1 hq'
      cases hq
      exact List.nil_lt_cons ..
  · rw [List.map_append, List.map_map, hfound.selects, listed_eq]
    exact congrArg (· ++ part.parts.flatMap listed) (List.map_id _)

end SelectPart

section Stable

variable {α : Type} (key : α → Nat) (xs : List α)

/-- Sorting by a key keeps the elements of each key in their order. -/
theorem filter_mergeSort (k : Nat) :
    (xs.mergeSort fun a b => decide (key a ≤ key b)).filter (fun a => key a = k) =
      xs.filter fun a => key a = k := by
  have hsame : (xs.filter fun a => key a = k).Pairwise fun a b => decide (key a ≤ key b) = true := by
    refine List.pairwise_of_forall_mem_list fun a ha b hb => ?_
    have ha : key a = k := by simpa using (List.mem_filter.1 ha).2
    have hb : key b = k := by simpa using (List.mem_filter.1 hb).2
    exact decide_eq_true (ha.trans hb.symm).le
  have hkept := (List.sublist_mergeSort (key_trans key) (key_total key) hsame
    List.filter_sublist).filter fun a => key a = k
  rw [List.filter_filter] at hkept
  simp only [Bool.and_self] at hkept
  exact (hkept.eq_of_length ((List.mergeSort_perm xs _).filter _).length_eq.symm).symm

/-- Sorted by a key, elements of the same key are related as they were before. -/
theorem stable_mergeSort {r : α → α → Prop} (h : xs.Pairwise r) :
    (xs.mergeSort fun a b => decide (key a ≤ key b)).Pairwise fun a b =>
      key a < key b ∨ key a = key b ∧ r a b := by
  have hsorted := sorted_mergeSort key xs
  have hkeys : ∀ k, ((xs.mergeSort fun a b => decide (key a ≤ key b)).filter fun a =>
      key a = k).Pairwise r := fun k => filter_mergeSort key xs k ▸ h.filter _
  generalize (xs.mergeSort fun a b => decide (key a ≤ key b)) = ys at hsorted hkeys
  induction ys with
  | nil => exact .nil
  | cons a ys ih =>
    obtain ⟨hle, hsorted⟩ := List.pairwise_cons.1 hsorted
    refine .cons (fun b hb => ?_) (ih hsorted fun k => ?_)
    · rcases (hle b hb).lt_or_eq with hlt | heq
      · exact .inl hlt
      · have hfirst := hkeys (key a)
        rw [List.filter_cons_of_pos (by simp)] at hfirst
        exact .inr ⟨heq, (List.pairwise_cons.1 hfirst).1 b (List.mem_filter.2 ⟨hb, by simp [heq]⟩)⟩
    · exact (hkeys k).sublist ((List.sublist_cons_self a ys).filter _)

end Stable

namespace Select

variable {root : Expr} {s : Select}

/-- The place of a statement is that of the first node that is its origin. -/
theorem place_of_origin {origin : Expr} (h : s.origin = some origin) {i : Nat}
    (hi : root.nodes[i]?.map Expr.id = some origin.id) :
    s.place root ≤ i ∧ root.nodes[s.place root]?.map Expr.id = some origin.id := by
  have hplace : s.place root = (root.nodes.map Expr.id).idxOf origin.id := by rw [place, h]
  rw [← List.getElem?_map] at hi ⊢
  obtain ⟨hlt, hid⟩ := List.getElem?_eq_some_iff.1 hi
  have hmem : origin.id ∈ root.nodes.map Expr.id := hid ▸ List.getElem_mem hlt
  rw [hplace]
  refine ⟨?_, ?_⟩
  · by_contra hgt
    exact beq_eq_false_iff_ne.1 (List.not_of_lt_findIdx (not_le.1 hgt)) hid
  · rw [List.getElem?_eq_getElem (List.idxOf_lt_length_of_mem hmem), List.getElem_idxOf]

/-- A statement without an origin in the query comes after all that have one. -/
theorem place_of_no_origin
    (h : ∀ origin, s.origin = some origin → ∀ n ∈ root.nodes, n.id ≠ origin.id) :
    s.place root = root.nodes.length := by
  rw [place]
  cases horigin : s.origin with
  | none => rfl
  | some origin =>
    have hmissing : origin.id ∉ root.nodes.map Expr.id := fun hmem => by
      obtain ⟨n, hn, hid⟩ := List.mem_map.1 hmem
      exact h origin horigin n hn hid
    exact (List.idxOf_eq_length hmissing).trans (List.length_map _)

/-- With a statement are listed all operands of expressions in it, at any depth, each as often as it
stands there and no derived table, in the order of their origins and otherwise in that of their
addresses. -/
theorem withNested_lists (s : Select) (root : Expr) : ∃ found : List (List Nat × Select),
    s.withNested root = s :: found.map Prod.snd ∧
    (∀ address q, (address, q) ∈ found ↔ (SelectPart.table s).at? address = some (.operand q)) ∧
    (found.Pairwise fun a b => a.2.place root < b.2.place root ∨
      a.2.place root = b.2.place root ∧ a.1 < b.1) ∧
    (∀ (q : Select) origin, q.origin = some origin → ∀ i,
      root.nodes[i]?.map Expr.id = some origin.id →
        q.place root ≤ i ∧ root.nodes[q.place root]?.map Expr.id = some origin.id) ∧
    ∀ q : Select, (∀ origin, q.origin = some origin → ∀ n ∈ root.nodes, n.id ≠ origin.id) →
      q.place root = root.nodes.length := by
  obtain ⟨found, hfound⟩ := (SelectPart.table s).exists_lists
  have hperm := List.mergeSort_perm found fun a b => decide (a.2.place root ≤ b.2.place root)
  refine ⟨found.mergeSort fun a b => decide (a.2.place root ≤ b.2.place root), ?_,
    fun address q => hperm.mem_iff.trans (hfound.mem address q),
    stable_mergeSort (fun a => a.2.place root) found hfound.sorted,
    fun q origin h i hi => place_of_origin h hi, fun q h => place_of_no_origin h⟩
  have hselects :
      (found.mergeSort fun a b => decide (a.2.place root ≤ b.2.place root)).map Prod.snd =
        (found.map Prod.snd).mergeSort fun a b => decide (a.place root ≤ b.place root) :=
    List.map_mergeSort fun _ _ _ _ => rfl
  rw [hselects, hfound.selects]
  rfl

end Select

end SequenceQuery
