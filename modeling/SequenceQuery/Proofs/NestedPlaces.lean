import SequenceQuery.Proofs.NestedStatements

namespace SequenceQuery

section Sorting

variable {α : Type} (key : α → Nat)

theorem key_trans (a b c : α) (hab : decide (key a ≤ key b) = true)
    (hbc : decide (key b ≤ key c) = true) : decide (key a ≤ key c) = true :=
  decide_eq_true ((of_decide_eq_true hab).trans (of_decide_eq_true hbc))

theorem key_total (a b : α) : (decide (key a ≤ key b) || decide (key b ≤ key a)) = true := by
  simpa using Nat.le_total _ _

theorem sorted_mergeSort (xs : List α) :
    (xs.mergeSort fun a b => decide (key a ≤ key b)).Pairwise fun a b => key a ≤ key b :=
  (List.pairwise_mergeSort (key_trans key) (key_total key) xs).imp of_decide_eq_true

end Sorting

/-- A statement is that of a call that ends a query in one row or one value, or of its source. -/
def Select.IsOf (root : Expr) (s : Select) : Prop :=
  ∃ i op source rest, .call i op (source :: rest) ∈ root.nodes ∧ op.isTerminal = true ∧
    (s.origin = some (.call i op (source :: rest)) ∨ s.origin = some source)

/-- Statements have places in a range, no two of them the same, and what is nested in one has those
right behind it. Of an idle part of the query there are none. -/
structure Laid (root : Expr) (start stop : Nat) (idle : Prop) (queries : Multiset Select) : Prop where
  le : start ≤ stop
  none : idle → queries = 0
  once : (queries.map (Select.place root)).Nodup
  between : ∀ q ∈ queries, start ≤ q.place root ∧ q.place root < stop
  origin : ∀ q ∈ queries, q.IsOf root
  around : ∀ q ∈ queries, ∃ last ≤ stop, (q.contents.map (Select.place root)).Nodup ∧
    (∀ n ∈ q.contents, q.place root < n.place root ∧ n.place root < last) ∧
    ∀ n ∈ queries, q.place root < n.place root → n.place root < last → n ∈ q.contents

namespace Laid

variable {root : Expr} {start mid stop first last : Nat} {idle idle' : Prop}
  {queries more : Multiset Select} {s : Select}

theorem zero (h : start ≤ stop) : Laid root start stop idle 0 where
  le := h
  none _ := rfl
  once := Multiset.nodup_zero
  between := nofun
  origin := nofun
  around := nofun

theorem imp (h : Laid root start stop idle queries) (hidle : idle' → idle) :
    Laid root start stop idle' queries :=
  { h with none := fun h' => h.none (hidle h') }

theorem widen (h : Laid root start stop idle queries) (hfirst : first ≤ start) (hlast : stop ≤ last) :
    Laid root first last idle queries where
  le := hfirst.trans (h.le.trans hlast)
  none := h.none
  once := h.once
  between q hq := ⟨hfirst.trans (h.between q hq).1, (h.between q hq).2.trans_le hlast⟩
  origin := h.origin
  around q hq := by
    obtain ⟨after, hafter, hq⟩ := h.around q hq
    exact ⟨after, hafter.trans hlast, hq⟩

/-- Some of the statements may be left out. -/
theorem of_le (h : Laid root start stop idle more) (hle : queries ≤ more) :
    Laid root start stop idle queries where
  le := h.le
  none hidle := Multiset.le_zero.1 ((h.none hidle) ▸ hle)
  once := Multiset.nodup_of_le (Multiset.map_le_map hle) h.once
  between q hq := h.between q (Multiset.mem_of_le hle hq)
  origin q hq := h.origin q (Multiset.mem_of_le hle hq)
  around q hq := by
    obtain ⟨after, hafter, honce, hbehind, hwithin⟩ := h.around q (Multiset.mem_of_le hle hq)
    exact ⟨after, hafter, honce, hbehind, fun n hn => hwithin n (Multiset.mem_of_le hle hn)⟩

theorem add (h : Laid root start mid idle queries) (h' : Laid root first stop idle more)
    (hle : mid ≤ first) : Laid root start stop idle (queries + more) where
  le := h.le.trans (hle.trans h'.le)
  none hidle := by rw [h.none hidle, h'.none hidle, add_zero]
  once := by
    rw [Multiset.map_add, Multiset.nodup_add]
    refine ⟨h.once, h'.once, Multiset.disjoint_left.2 fun hk hk' => ?_⟩
    obtain ⟨q, hq, rfl⟩ := Multiset.mem_map.1 hk
    obtain ⟨n, hn, heq⟩ := Multiset.mem_map.1 hk'
    have := (h.between q hq).2
    have := (h'.between n hn).1
    omega
  between q hq := by
    have := h.le
    have := h'.le
    rcases Multiset.mem_add.1 hq with hq | hq
    · have := h.between q hq
      omega
    · have := h'.between q hq
      omega
  origin q hq := (Multiset.mem_add.1 hq).elim (h.origin q) (h'.origin q)
  around q hq := by
    have := h'.le
    rcases Multiset.mem_add.1 hq with hq | hq
    · obtain ⟨after, hafter, honce, hbehind, hwithin⟩ := h.around q hq
      refine ⟨after, by omega, honce, hbehind, fun n hn hlt hlast => ?_⟩
      rcases Multiset.mem_add.1 hn with hn | hn
      · exact hwithin n hn hlt hlast
      · have := (h'.between n hn).1
        omega
    · obtain ⟨after, hafter, honce, hbehind, hwithin⟩ := h'.around q hq
      refine ⟨after, hafter, honce, hbehind, fun n hn hlt hlast => ?_⟩
      rcases Multiset.mem_add.1 hn with hn | hn
      · have := (h.between n hn).2
        have := (h'.between q hq).1
        omega
      · exact hwithin n hn hlt hlast

theorem cons (h : Laid root first stop False s.contents) (hstart : start ≤ s.place root)
    (hbehind : s.place root < first) (hs : s.IsOf root) (hidle : ¬ idle) :
    Laid root start stop idle (s ::ₘ s.contents) where
  le := by
    have := h.le
    omega
  none h' := absurd h' hidle
  once := by
    rw [Multiset.map_cons, Multiset.nodup_cons]
    refine ⟨fun hmem => ?_, h.once⟩
    obtain ⟨q, hq, heq⟩ := Multiset.mem_map.1 hmem
    have := (h.between q hq).1
    omega
  between q hq := by
    have := h.le
    rcases Multiset.mem_cons.1 hq with rfl | hq
    · omega
    · have := h.between q hq
      omega
  origin q hq := by
    rcases Multiset.mem_cons.1 hq with rfl | hq
    · exact hs
    · exact h.origin q hq
  around q hq := by
    rcases Multiset.mem_cons.1 hq with rfl | hq
    · refine ⟨stop, le_rfl, h.once, fun n hn => ?_, fun n hn hlt _ => ?_⟩
      · have := h.between n hn
        omega
      · rcases Multiset.mem_cons.1 hn with rfl | hn
        · exact absurd hlt (lt_irrefl _)
        · exact hn
    · obtain ⟨after, hafter, honce, hqs, hwithin⟩ := h.around q hq
      refine ⟨after, hafter, honce, hqs, fun n hn hlt hlast => ?_⟩
      rcases Multiset.mem_cons.1 hn with rfl | hn
      · have := (h.between q hq).1
        omega
      · exact hwithin n hn hlt hlast

end Laid

namespace Select

variable {root : Expr} {s q : Select}

theorem nestedIn_perm (s : Select) (root : Expr) : (s.nestedIn root).Perm s.nested :=
  List.mergeSort_perm _ _

theorem nestedIn_sorted (s : Select) (root : Expr) :
    (s.nestedIn root).Pairwise fun a b => a.place root ≤ b.place root :=
  sorted_mergeSort (place root) s.nested

/-- Statements at different places are listed in the order of these. -/
theorem nestedIn_strict (h : (s.contents.map (place root)).Nodup) :
    (s.nestedIn root).Pairwise fun a b => a.place root < b.place root := by
  have honce : (s.nestedIn root).Pairwise fun a b => a.place root ≠ b.place root := by
    rw [← List.pairwise_map (R := (· ≠ ·)) (f := place root)]
    exact ((s.nestedIn_perm root).map _).nodup_iff.2 h
  exact (s.nestedIn_sorted root).imp₂ (fun _ _ => lt_of_le_of_ne) honce

/-- Lists in the order of places that have the same statements are the same. -/
theorem eq_of_strict {as bs : List Select}
    (ha : as.Pairwise fun a b => a.place root < b.place root)
    (hb : bs.Pairwise fun a b => a.place root < b.place root) (h : ∀ q, q ∈ as ↔ q ∈ bs) :
    as = bs := by
  have nodup : ∀ {cs : List Select}, cs.Pairwise (fun a b => a.place root < b.place root) →
      cs.Nodup := fun hc => hc.imp fun hlt heq => absurd (heq ▸ hlt) (lt_irrefl _)
  exact List.Perm.eq_of_pairwise (fun _ _ _ _ hlt hgt => absurd hgt (not_lt_of_gt hlt)) ha hb
    ((List.perm_ext_iff_of_nodup (nodup ha) (nodup hb)).2 h)

theorem nestedIn_eq {queries : List Select} (hperm : queries.Perm s.nested)
    (h : queries.Pairwise fun a b => a.place root < b.place root) : s.nestedIn root = queries := by
  refine eq_of_strict (nestedIn_strict ?_) h fun q =>
    (s.nestedIn_perm root).mem_iff.trans hperm.mem_iff.symm
  have hplaces : (queries.map (place root)).Nodup :=
    List.pairwise_map.2 (h.imp fun hlt => Nat.ne_of_lt hlt)
  exact (hperm.map _).nodup_iff.1 hplaces

/-- Each statement stands directly before those nested in it. -/
theorem nestedIn_prefix {start stop : Nat} {idle : Prop} (h : Laid root start stop idle s.contents)
    {before after : List Select} (hlist : s.nestedIn root = before ++ q :: after) :
    q.nestedIn root <+: after := by
  have hmem : ∀ n, n ∈ before ++ q :: after ↔ n ∈ s.nested := fun n =>
    hlist ▸ (s.nestedIn_perm root).mem_iff
  have hq : q ∈ s.nested := (hmem q).1 (List.mem_append_right _ List.mem_cons_self)
  obtain ⟨last, -, honce, hbehind, hwithin⟩ := h.around q hq
  have hstrict := hlist ▸ nestedIn_strict h.once
  obtain ⟨-, htail, hcross⟩ := List.pairwise_append.1 hstrict
  obtain ⟨hafter, hrest⟩ := List.pairwise_cons.1 htail
  refine ⟨after.filter fun n => decide (last ≤ n.place root), eq_of_strict ?_ hrest ?_⟩
  · refine List.pairwise_append.2 ⟨nestedIn_strict honce, hrest.filter _, fun n hn m hm => ?_⟩
    have := (hbehind n ((q.nestedIn_perm root).subset hn)).2
    have := of_decide_eq_true (List.mem_filter.1 hm).2
    omega
  · intro n
    rw [List.mem_append, List.mem_filter, (q.nestedIn_perm root).mem_iff, decide_eq_true_eq]
    constructor
    · rintro (hn | ⟨hn, -⟩)
      · have hlt := (hbehind n hn).1
        rcases List.mem_append.1 ((hmem n).2 (s.closed_nested q hq hn)) with hbefore | hn
        · exact absurd (hcross n hbefore q List.mem_cons_self) (not_lt_of_gt hlt)
        · rcases List.mem_cons.1 hn with rfl | hn
          · exact absurd hlt (lt_irrefl _)
          · exact hn
      · exact hn
    · intro hn
      by_cases hlast : last ≤ n.place root
      · exact .inr ⟨hn, hlast⟩
      · have hnested := (hmem n).1 (List.mem_append_right _ (List.mem_cons_of_mem _ hn))
        exact .inl (hwithin n hnested (hafter n hn) (not_le.1 hlast))

end Select

end SequenceQuery
