import SequenceQuery.Proofs.FormConstruction

namespace SequenceQuery

def Rows.Selects (rows : Rows) (k : SortKey) : Prop :=
  ∀ ls, rows.row.leaves? "" = some ls → k.expr ∈ ls.map (·.scalar.expr)

section

variable (env : Surroundings) (ns : List Expr)

/-- A sort key of rows that a Distinct in the query makes DISTINCT, though they do not select it. -/
def SortsUnselected (k : SortKey) : Prop :=
  ∃ place ctx rows, Reached env ns place ctx ∧ CallMakes env ns .distinct ctx rows ∧
    k ∈ rows.select.orderBy ∧ ¬ rows.Selects k

/-- The rows of a page, of which an Any in the query asks whether there are any. -/
def AsksForPage (s : Select) : Prop :=
  s.items = [.expr (.int 1) none] ∧ s.hasPaging = true ∧ ∃ i es, Expr.call i .any es ∈ ns

end

variable {env : Surroundings} {ns : List Expr} {place : Place} {ctx : List Binding} {x : Product}

theorem Made.selects_of_distinct (hmade : Made env ns place ctx x) : ∀ {rows}, x = .rows rows →
    Reached env ns place ctx → rows.select.distinct = true →
      ∀ k ∈ rows.select.orderBy, rows.Selects k ∨ SortsUnselected env ns k := by
  induction hmade with
  | table | wrap => rintro _ ⟨⟩ _ hdistinct; cases hdistinct
  | withOrigin _ _ ih | withLimit _ _ ih _ | withOffset _ _ ih _ | filterBy _ _ _ ih _
  | havingBy _ _ _ ih _ =>
    rintro _ ⟨⟩ hreached hdistinct
    have h := ih rfl hreached hdistinct
    exact h
  | unordered =>
    rintro _ ⟨⟩ _ _ k hk
    cases hk
  | withRow _ hopen _ _ _ | orderedBy _ hopen _ _ _ _ | joined _ hopen _ _ _ _ _ _ _ _ _ _ _ =>
    rintro _ ⟨⟩ _ hdistinct
    exact absurd hdistinct (Bool.eq_false_iff.1 hopen)
  | asDistinct _ hcall _ =>
    rintro _ ⟨⟩ hreached _ k hk
    exact or_iff_not_imp_left.2 fun hselects => ⟨_, _, _, hreached, hcall, hk, hselects⟩
  | groupedBy =>
    -- a group has no columns
    rintro _ ⟨⟩ _ _ k _
    exact .inl nofun
  | _ => rintro _ ⟨⟩

theorem Made.orders_selected (hmade : Made env ns place ctx x) {s : Select} (hs : x = .statement s)
    (hreached : Reached env ns place ctx) (hdistinct : s.distinct = true) :
    ∀ k ∈ s.orderBy, k.expr ∈ s.selected ∨ SortsUnselected env ns k ∨ AsksForPage ns s := by
  cases hmade with
  | project hrows _ hitems =>
    cases hs
    intro k hk
    rcases hitems hdistinct with ⟨hany, hone, hordered⟩ | ⟨ls, hls, hselected⟩
    · refine .inr (.inr ⟨hone, ?_, hany⟩)
      refine Bool.of_not_eq_false fun hopen => ?_
      rw [hordered hopen] at hk
      cases hk
    · refine (hrows.selects_of_distinct rfl hreached hdistinct k hk).imp (fun hselects => ?_) .inl
      obtain ⟨l, hl, hexpr⟩ := List.mem_map.1 (hselects ls hls)
      exact hexpr ▸ hselected l hl
  | count _ _ horder | total _ _ horder _ _ =>
    cases hs
    intro k hk
    have : k ∈ [] := horder ▸ hk
    cases this
  | item =>
    cases hs
    cases hdistinct
  | _ => cases hs

namespace Form

variable {catalog : Catalog} {dialect : Dialect} {e : Expr} {f : Form}

/-- Every statement in a form that is DISTINCT selects what it is ordered by, unless it was ordered
by something else when Distinct was asked of it, or Any selects nothing of it but a one. -/
theorem orders_selected_of_distinct (h : ofExpr catalog dialect e = .ok f) :
    f.select.Meets (.each fun _ s => s.distinct = true → ∀ k ∈ s.orderBy,
      k.expr ∈ s.selected ∨ SortsUnselected (.ofExpr catalog dialect e) e.nodes k ∨
        AsksForPage e.nodes s) .outermost :=
  meets_each h fun _ hreached hmade hdistinct => hmade.orders_selected rfl hreached hdistinct

/-- `Person.OrderBy(p => p.Name).Select(p => p.City).Distinct()`, or by another property. -/
def citiesBy (property : String) : Expr :=
  .call 0 .distinct [.call 1 .project [.call 2 .orderBy [.entity 3 "Person",
    .lambda 4 ["p"] (.member 5 (.param 6 "p") property)],
    .lambda 7 ["p"] (.member 8 (.param 9 "p") "City")]]

theorem orders_selected_citiesByCity : ∃ f, ofExpr residents (Postgres.dialect false)
    (citiesBy "City") = .ok f ∧ f.select.distinct = true ∧ f.select.orderBy ≠ [] ∧
      f.select.Meets (.each fun _ s => s.distinct = true → ∀ k ∈ s.orderBy,
        k.expr ∈ s.selected ∨
          SortsUnselected (.ofExpr residents (Postgres.dialect false) (citiesBy "City"))
            (citiesBy "City").nodes k ∨
          AsksForPage (citiesBy "City").nodes s) .outermost := by
  obtain ⟨f, hf, hdistinct, horder⟩ : ∃ f, ofExpr residents (Postgres.dialect false)
      (citiesBy "City") = .ok f ∧ f.select.distinct = true ∧
        f.select.orderBy = [⟨.columnOf "t0" "city", true⟩] := ⟨_, rfl, rfl, rfl⟩
  exact ⟨f, hf, hdistinct, horder ▸ List.cons_ne_nil _ _, orders_selected_of_distinct hf⟩

/-- `SELECT DISTINCT t0.city FROM people AS t0 ORDER BY t0.name`. -/
theorem not_orders_selected_citiesByName : ∃ f, ofExpr residents (Postgres.dialect false)
    (citiesBy "Name") = .ok f ∧
      ¬ f.select.Meets (.each fun _ s => s.distinct = true → ∀ k ∈ s.orderBy,
        k.expr ∈ s.selected) .outermost := by
  obtain ⟨f, hf, hdistinct, horder, hselected⟩ : ∃ f, ofExpr residents (Postgres.dialect false)
      (citiesBy "Name") = .ok f ∧ f.select.distinct = true ∧
        f.select.orderBy = [⟨.columnOf "t0" "name", true⟩] ∧
        f.select.selected = [.columnOf "t0" "city"] := ⟨_, rfl, rfl, rfl, rfl⟩
  refine ⟨f, hf, fun h => ?_⟩
  cases h with
  | select hkeys =>
    have hname := hkeys hdistinct ⟨.columnOf "t0" "name", true⟩ (horder ▸ List.mem_cons_self)
    rw [hselected, List.mem_singleton] at hname
    exact absurd (SqlExpr.column.inj hname).2 (by decide)

end Form

end SequenceQuery
