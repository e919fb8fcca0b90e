import SequenceQuery.Form.Meaning
import SequenceQuery.Proofs.Building

namespace SequenceQuery

variable {p : Progress}

namespace Rows

variable {rows : Rows}

/-- A statement either stays or only reads a derived table. -/
theorem builds_wrapIf {Q : Select → Prop} {condition : Bool} (node : Expr)
    (hstays : condition = false → Q rows.select)
    (hwrapped : ∀ table origin, Q { Select.ofTable table with origin := origin }) :
    Builds p (rows.wrapIf condition node) fun _ rows' => Q rows'.select := by
  cases condition with
  | false => exact .pure (hstays rfl)
  | true =>
    refine Builds.check fun s _ => ?_
    exact Builds.freshLabel.bind fun _ _ _ _ => .pure (hwrapped _ _)

theorem builds_wrapForRows (rows : Rows) (node : Expr) :
    Builds p (rows.wrapIf (rows.select.hasPaging || rows.select.distinct || rows.select.hasGroups)
      node) fun _ rows' => rows'.select.hasPaging = false ∧ rows'.select.distinct = false ∧
        rows'.select.hasGroups = false := by
  refine builds_wrapIf (Q := fun s => s.hasPaging = false ∧ s.distinct = false ∧ s.hasGroups = false)
    node (fun hopen => ?_) fun _ _ => ⟨rfl, rfl, rfl⟩
  simp only [Bool.or_eq_false_iff] at hopen
  exact ⟨hopen.1.1, hopen.1.2, hopen.2⟩

theorem builds_wrapUnlessBare (rows : Rows) (node : Expr) :
    Builds p (rows.wrapIf (!rows.select.isBareTable) node) fun _ rows' =>
      rows'.select.joins = [] ∧ rows'.select.hasGroups = false := by
  refine builds_wrapIf (Q := fun s => s.joins = [] ∧ s.hasGroups = false) node (fun hbare => ?_)
    fun _ _ => ⟨rfl, rfl⟩
  simp only [Bool.not_eq_false', Select.isBareTable, Bool.and_eq_true, List.isEmpty_iff,
    Bool.not_eq_true'] at hbare
  obtain ⟨⟨⟨⟨⟨⟨⟨-, hjoins⟩, -⟩, -⟩, hgroups⟩, -⟩, -⟩, -⟩ := hbare
  exact ⟨hjoins, hgroups⟩

/-- The elements of groups are what the selector of the grouping gives, if there is one, and else the
rows themselves. -/
theorem builds_groups {key : Binding} {node : Expr} {args : List Meaning} {scope : Scope}
    {E : Progress → Binding → Prop} {Q : Progress → Rows → Prop} (hrow : E p rows.row)
    (hselector : ∀ selector, args[2]? = some selector →
      Builds p (selector.apply scope [rows.row]) E)
    (hgroups : ∀ q element keys, p ≤ q → E q element → key.scalars node = .ok keys →
      Q q ⟨{ rows.select with groupBy := keys.map Scalar.expr }, .group key element⟩) :
    Builds p (do
      let element ← match args[2]? with
        | some selector => selector.apply scope [rows.row]
        | none => pure rows.row
      let keys ← key.scalars node
      return ⟨{ rows.select with groupBy := keys.map Scalar.expr }, .group key element⟩) Q := by
  have grouped : ∀ {q element}, p ≤ q → E q element → Builds q (do
      let keys ← key.scalars node
      return ⟨{ rows.select with groupBy := keys.map Scalar.expr }, .group key element⟩) Q :=
    fun hpq helement => .check fun keys hkeys => .pure (hgroups _ _ keys hpq helement hkeys)
  cases hargument : args[2]? with
  | none => exact grouped le_rfl hrow
  | some selector =>
    exact (hselector selector hargument).bind fun _ _ hpq helement => grouped hpq helement

end Rows

/-- The keys that a sequence stays ordered by are among those that it was ordered by. -/
theorem kept_keys_subset (restart : Bool) (keys : List SortKey) :
    (if restart then [] else keys) ⊆ keys := by
  cases restart with
  | true => exact List.nil_subset _
  | false => exact List.Subset.refl _

end SequenceQuery
