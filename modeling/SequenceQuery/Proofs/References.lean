import SequenceQuery.Proofs.Anywhere
import SequenceQuery.Proofs.Clauses

namespace SequenceQuery

/-- Somewhere in a fragment, where these tables are seen around it, the label of a table is written
before this name. A derived table does not see those that it stands beside. -/
inductive Fragment.Reads : List Table → Fragment → Table → String → Prop
  | column {visible : List Table} {t : Table} (h : t ∈ visible) (name : String) :
    Reads visible (.expr (.columnOf t.label name)) t name
  | part {visible : List Table} {e part : SqlExpr} {t : Table} {name : String}
    (hpart : part ∈ e.parts) (h : Reads visible (.expr part) t name) :
    Reads visible (.expr e) t name
  | query {visible : List Table} {e : SqlExpr} {q : Select} {t : Table} {name : String}
    (hq : q ∈ e.queries) (h : Reads visible (.select q) t name) : Reads visible (.expr e) t name
  | derived {visible : List Table} {s q : Select} {t : Table} {name : String} (hq : q ∈ s.derived)
    (h : Reads visible (.select q) t name) : Reads visible (.select s) t name
  | clause {visible : List Table} {s : Select} {e : SqlExpr} {t : Table} {name : String}
    (he : e ∈ s.rowExprs ++ s.resultExprs) (h : Reads (s.tables ++ visible) (.expr e) t name) :
    Reads visible (.select s) t name

variable {catalog : Catalog} {holds : SqlExpr → Prop} {site : Site}

section Parts

theorem armsScoped_iff {arms : List (SqlExpr × SqlExpr)} : armsScoped catalog holds site arms ↔
    ∀ e ∈ arms.flatMap fun arm => [arm.1, arm.2], e.Scoped catalog holds site := by
  induction arms with
  | nil => simp [armsScoped]
  | cons arm arms ih => simp [armsScoped, ih]

theorem optionScoped_iff {e : Option SqlExpr} :
    optionScoped catalog holds site e ↔ ∀ x ∈ e, x.Scoped catalog holds site := by
  cases e <;> simp [optionScoped]

theorem itemsScoped_selected {items : List SelectItem} (h : itemsScoped catalog holds site items) :
    ∀ e ∈ items.filterMap SelectItem.expr?, e.Scoped catalog holds site := by
  induction items with
  | nil => simp
  | cons item items ih =>
    cases item with
    | wildcard => cases h
    | expr e label => exact List.forall_mem_cons.2 ⟨h.1, ih h.2⟩

theorem joinsScoped_conditions {before : List Table} {joins : List Join}
    (h : joinsScoped catalog holds site before joins) : ∀ j ∈ joins,
      j.table.Scoped catalog holds site ∧ ∃ seen ⊆ before ++ joins.map Join.table,
        optionScoped catalog holds (site.seeing seen) j.condition := by
  induction joins generalizing before with
  | nil => simp
  | cons first joins ih =>
    obtain ⟨kind, table, condition⟩ := first
    obtain ⟨htable, hcondition, hrest⟩ := h
    refine List.forall_mem_cons.2 ⟨⟨htable, before ++ [table], ?_, hcondition⟩, fun j hj => ?_⟩
    · simp
    · obtain ⟨hj, seen, hseen, hcondition⟩ := ih hrest j hj
      exact ⟨hj, seen, by simpa using hseen, hcondition⟩

theorem SqlExpr.Scoped.part {e part : SqlExpr} (h : e.Scoped catalog holds site)
    (hpart : part ∈ e.parts) : part = .wildcard ∨ part.Scoped catalog holds site := by
  cases e with
  | column _ _ | literal _ | param _ | subquery _ | exist _ _ | wildcard => cases hpart
  | binary _ left right =>
    obtain rfl | hpart := List.mem_cons.1 hpart
    · exact .inr h.2.1
    · exact .inr (List.mem_singleton.1 hpart ▸ h.2.2)
  | unary _ _ | isNull _ _ | nested _ => exact .inr (List.mem_singleton.1 hpart ▸ h.2)
  | isIn _ _ _ => exact .inr (List.mem_singleton.1 hpart ▸ h.2.1)
  | function _ _ => exact .inr (listScoped_iff.1 h.2 part hpart)
  | aggregate _ args _ =>
    obtain ⟨-, hstar | hargs⟩ := h
    · subst hstar
      exact .inl (List.mem_singleton.1 hpart)
    · exact .inr (listScoped_iff.1 hargs part hpart)
  | cases arms otherwise =>
    rcases List.mem_append.1 hpart with hpart | hpart
    · exact .inr (armsScoped_iff.1 h.2.1 part hpart)
    · exact .inr (optionScoped_iff.1 h.2.2 part (Option.mem_toList.1 hpart))

theorem SqlExpr.Scoped.query {e : SqlExpr} {q : Select} (h : e.Scoped catalog holds site)
    (hq : q ∈ e.queries) : q.Scoped catalog holds site := by
  cases e with
  | subquery _ | exist _ _ => exact List.mem_singleton.1 hq ▸ h.2
  | isIn _ _ _ => exact List.mem_singleton.1 hq ▸ h.2.2
  | _ => cases hq

end Parts

namespace Select.Scoped

variable {s q : Select}

theorem tables (h : s.Scoped catalog holds site) :
    (s.tables.map Table.label).Nodup ∧ ∀ t ∈ s.tables, site.free t.label := by
  obtain ⟨_, _, _, _, _, _, _, _, _, _, _⟩ := s
  exact h.1

theorem derived (h : s.Scoped catalog holds site) (hq : q ∈ s.derived) :
    q.Scoped catalog holds (site.beside s.tables) := by
  obtain ⟨_, _, source, joins, _, _, _, _, _, _, _⟩ := s
  obtain ⟨-, hsource, hjoins, -⟩ := h
  obtain ⟨t, ht, hquery⟩ := List.mem_filterMap.1 hq
  have htable : t.Scoped catalog holds (site.beside (source.toList ++ joins.map Join.table)) := by
    rcases List.mem_append.1 ht with ht | ht
    · cases source with
      | none => cases ht
      | some first => exact List.mem_singleton.1 ht ▸ hsource
    · obtain ⟨j, hj, rfl⟩ := List.mem_map.1 ht
      exact (joinsScoped_conditions hjoins j hj).1
  cases t with
  | table _ _ _ => cases hquery
  | subquery query _ =>
    cases hquery
    exact htable

theorem clauses (h : s.Scoped catalog holds site) : ∀ e ∈ s.rowExprs ++ s.resultExprs,
    ∃ seen ⊆ s.tables, e.Scoped catalog holds ((site.beside s.tables).seeing seen) := by
  obtain ⟨_, items, source, joins, filter, groupBy, having, orderBy, limit, offset, _⟩ := s
  obtain ⟨-, -, hjoins, hitems, hfilter, hgroups, hhaving, hkeys, hlimit, hoffset⟩ := h
  have hall := List.Subset.refl (source.toList ++ joins.map Join.table)
  refine List.forall_mem_append.2 ⟨Select.forall_rowExprs.2 ⟨fun j hj e he => ?_, fun e he => ?_,
    fun e he => ?_, fun e he => ?_, fun e he => ?_⟩, Select.forall_resultExprs.2 ⟨fun e he => ?_,
    fun e he => ?_, fun k hk => ?_⟩⟩
  · obtain ⟨-, seen, hseen, hcondition⟩ := joinsScoped_conditions hjoins j hj
    exact ⟨seen, hseen, optionScoped_iff.1 hcondition e he⟩
  · exact ⟨_, hall, optionScoped_iff.1 hfilter e he⟩
  · exact ⟨_, hall, listScoped_iff.1 hgroups e he⟩
  · exact ⟨_, hall, optionScoped_iff.1 hlimit e he⟩
  · exact ⟨_, hall, optionScoped_iff.1 hoffset e he⟩
  · exact ⟨_, hall, itemsScoped_selected hitems e he⟩
  · exact ⟨_, hall, optionScoped_iff.1 hhaving e he⟩
  · exact ⟨_, hall, keysScoped_iff.1 hkeys k hk⟩

end Select.Scoped

/-- No two tables share a label, and what is seen at a site are some of them. -/
structure Site.Models (site : Site) (visible : List Table) : Prop where
  sees : site.visible ⊆ visible
  labels : (visible.map Table.label).Nodup
  taken : ∀ t ∈ visible, ¬site.free t.label

namespace Site.Models

variable {visible tables : List Table}

theorem outermost : Site.outermost.Models [] := ⟨List.Subset.refl _, .nil, nofun⟩

theorem beside (h : site.Models visible) (tables : List Table) :
    (site.beside tables).Models visible :=
  ⟨h.sees, h.labels, fun t ht hfree => h.taken t ht hfree.1⟩

theorem seeing (h : site.Models visible) (hnodup : (tables.map Table.label).Nodup)
    (hfree : ∀ t ∈ tables, site.free t.label) {seen : List Table} (hseen : seen ⊆ tables) :
    ((site.beside tables).seeing seen).Models (tables ++ visible) where
  sees := List.append_subset.2 ⟨List.subset_append_of_subset_left _ hseen,
    List.subset_append_of_subset_right _ h.sees⟩
  labels := by
    rw [List.map_append]
    refine hnodup.append h.labels (List.disjoint_left.2 fun l hl hl' => ?_)
    obtain ⟨t, ht, rfl⟩ := List.mem_map.1 hl
    obtain ⟨t', ht', heq⟩ := List.mem_map.1 hl'
    exact h.taken t' ht' (heq ▸ hfree t ht)
  taken := List.forall_mem_append.2 ⟨fun _ ht hfree => hfree.2 (List.mem_map_of_mem ht),
    fun t ht hfree => h.taken t ht hfree.1⟩

theorem eq_of_label (h : site.Models visible) {t t' : Table} (ht : t ∈ visible)
    (ht' : t' ∈ site.visible) (heq : t.label = t'.label) : t = t' :=
  List.inj_on_of_nodup_map h.labels ht (h.sees ht') heq

end Site.Models

namespace Fragment

def Scoped (catalog : Catalog) (holds : SqlExpr → Prop) (site : Site) : Fragment → Prop
  | .expr e => e = .wildcard ∨ e.Scoped catalog holds site
  | .select s => s.Scoped catalog holds site

/-- Whatever is read from a table that is seen is one of its columns. -/
theorem Reads.offers {visible : List Table} {x : Fragment} {t : Table} {name : String}
    (h : x.Reads visible t name) :
    ∀ {site : Site}, site.Models visible → x.Scoped catalog holds site → t.Offers catalog name := by
  induction h with
  | column ht name =>
    intro site hsite hscoped
    obtain hstar | ⟨-, t', ht', hlabel, hoffers⟩ := hscoped
    · cases hstar
    · exact hsite.eq_of_label ht ht' (Option.some.inj hlabel) ▸ hoffers
  | part hpart _ ih =>
    intro site hsite hscoped
    obtain rfl | hscoped := hscoped
    · cases hpart
    · exact ih hsite (hscoped.part hpart)
  | query hq _ ih =>
    intro site hsite hscoped
    obtain rfl | hscoped := hscoped
    · cases hq
    · exact ih hsite (hscoped.query hq)
  | @derived _ s _ _ _ hq _ ih =>
    intro site hsite hscoped
    exact ih (hsite.beside s.tables) (Select.Scoped.derived hscoped hq)
  | clause he _ ih =>
    intro site hsite hscoped
    obtain ⟨seen, hseen, hclause⟩ := Select.Scoped.clauses hscoped _ he
    obtain ⟨hnodup, hfree⟩ := Select.Scoped.tables hscoped
    exact ih (hsite.seeing hnodup hfree hseen) (.inr hclause)

/-- What holds of every statement holds of the derived tables that are read from. -/
theorem Reads.statement {P : Select → Prop} {visible : List Table} {x : Fragment} {t : Table}
    {name : String} (h : x.Reads visible t name) : ∀ {place : Place},
      (Standard.ofEach P).Meets place x → (∀ t ∈ visible, ∀ q ∈ t.query?, P q) →
        ∀ q ∈ t.query?, P q := by
  induction h with
  | column ht _ => exact fun _ hvisible => hvisible _ ht
  | part hpart _ ih =>
    rintro place (hexempt | ⟨-, hparts, -⟩) hvisible
    · cases hexempt
    · exact ih (hparts _ hpart) hvisible
  | query hq _ ih =>
    rintro place (hexempt | ⟨-, -, hqueries⟩) hvisible
    · cases hexempt
    · exact ih (hqueries _ hq) hvisible
  | derived hq _ ih =>
    rintro place (- | - | ⟨-, hderived, -, -⟩) hvisible
    exact ih (hderived _ hq) hvisible
  | @clause _ s e _ _ he _ ih =>
    rintro place (- | - | ⟨-, hderived, hrows, hresults⟩) hvisible
    have hown : ∀ t ∈ s.tables, ∀ q ∈ t.query?, P q := fun t ht q hq => by
      cases hderived q (List.mem_filterMap.2 ⟨t, ht, hq⟩) with
      | select hstatement => exact hstatement
    have hvisible := List.forall_mem_append.2 ⟨hown, hvisible⟩
    rcases List.mem_append.1 he with he | he
    · exact ih (hrows e he) hvisible
    · exact ih (hresults e he) hvisible

end Fragment

end SequenceQuery
