import SequenceQuery.Proofs.Composition
import SequenceQuery.Proofs.RowConstruction
import SequenceQuery.Proofs.Preserved

namespace SequenceQuery

variable {P : Select → Prop}

abbrev Standard.ofEach (P : Select → Prop) : Standard := .each fun _ => P

theorem Standard.isMonotone_ofEach : (Standard.ofEach P).IsMonotone :=
  ⟨fun _ _ => trivial, fun _ h => h⟩

def SqlExpr.Anywhere (P : Select → Prop) (e : SqlExpr) : Prop :=
  ∀ place, e.Meets (.ofEach P) place

/-- Wherever the statement stands, `P` holds of it and of those in it. -/
def Select.Anywhere (P : Select → Prop) (s : Select) : Prop := ∀ place, s.Meets (.ofEach P) place

namespace SqlExpr.Anywhere

variable {e l r : SqlExpr} {s : Select}

theorem of_isComposed (h : e.isComposed = true) (hparts : ∀ part ∈ e.parts, part.Anywhere P)
    (hqueries : ∀ q ∈ e.queries, q.Anywhere P) : e.Anywhere P := fun place =>
  .of_isComposed h (fun part hpart => hparts part hpart place) fun q hq => hqueries q hq place

theorem literal (value : Value) : (SqlExpr.literal value).Anywhere P :=
  of_isComposed rfl nofun nofun

theorem param (source : Source) : (SqlExpr.param source).Anywhere P := of_isComposed rfl nofun nofun

theorem column (label name : String) : (SqlExpr.columnOf label name).Anywhere P :=
  fun _ => .column trivial name

theorem binary (op : SqlBinary) (hl : l.Anywhere P) (hr : r.Anywhere P) :
    (SqlExpr.binary op l r).Anywhere P :=
  of_isComposed rfl (List.forall_mem_cons.2 ⟨hl, List.forall_mem_singleton.2 hr⟩) nofun

theorem unary (op : SqlUnary) (h : e.Anywhere P) : (SqlExpr.unary op e).Anywhere P :=
  of_isComposed rfl (List.forall_mem_singleton.2 h) nofun

theorem negateIf (negate : Bool) (h : e.Anywhere P) : (negateIf negate e).Anywhere P := by
  cases negate with
  | false => exact h
  | true => exact h.unary .not

theorem isNull (h : e.Anywhere P) (negated : Bool) : (SqlExpr.isNull e negated).Anywhere P :=
  of_isComposed rfl (List.forall_mem_singleton.2 h) nofun

theorem function {name : String} {args : List SqlExpr} (h : ∀ arg ∈ args, arg.Anywhere P) :
    (SqlExpr.function name args).Anywhere P :=
  of_isComposed rfl h nofun

theorem coalesce (hl : l.Anywhere P) (hr : r.Anywhere P) : (SqlExpr.coalesce [l, r]).Anywhere P :=
  function (List.forall_mem_cons.2 ⟨hl, List.forall_mem_singleton.2 hr⟩)

theorem cases (htest : l.Anywhere P) (he : e.Anywhere P) (otherwise : Option SqlExpr)
    (hotherwise : ∀ b ∈ otherwise, b.Anywhere P) :
    (SqlExpr.cases [(l, e)] otherwise).Anywhere P := by
  refine of_isComposed rfl (List.forall_mem_append.2 ⟨?_, fun b hb => ?_⟩) nofun
  · exact List.forall_mem_cons.2 ⟨htest, List.forall_mem_singleton.2 he⟩
  · exact hotherwise b (Option.mem_toList.1 hb)

theorem subquery (h : s.Anywhere P) : (SqlExpr.subquery s).Anywhere P :=
  of_isComposed rfl nofun (List.forall_mem_singleton.2 h)

theorem exist (h : s.Anywhere P) (negated : Bool) : (SqlExpr.exist s negated).Anywhere P :=
  of_isComposed rfl nofun (List.forall_mem_singleton.2 h)

theorem isIn (he : e.Anywhere P) (h : s.Anywhere P) (negated : Bool) :
    (SqlExpr.isIn e s negated).Anywhere P :=
  of_isComposed rfl (List.forall_mem_singleton.2 he) (List.forall_mem_singleton.2 h)

theorem aggregateOf (name : String) (h : e.Anywhere P) :
    (SqlExpr.aggregateOf name [e]).Anywhere P :=
  fun place => .aggregate (List.forall_mem_singleton.2 (h place))

theorem countRows : SqlExpr.countRows.Anywhere P :=
  fun _ => .aggregate (List.forall_mem_singleton.2 .star)

theorem aggregateOver (op : Operator) {s : Scalar} (h : s.expr.Anywhere P) :
    (aggregateOver op s).expr.Anywhere P :=
  fun place => meets_aggregateOver op (h place)

theorem matching {ls rs : List Scalar} (hl : ∀ s ∈ ls, s.expr.Anywhere P)
    (hr : ∀ s ∈ rs, s.expr.Anywhere P) : ∀ e ∈ matching ls rs, e.Anywhere P := by
  have equalities : ∀ {pairs : List (Scalar × Scalar)} {e : SqlExpr}, e.Anywhere P →
      (∀ pair ∈ pairs, pair.1.expr.Anywhere P ∧ pair.2.expr.Anywhere P) →
      (pairs.foldl (fun e pair => .and e (.binary .eq pair.1.expr pair.2.expr)) e).Anywhere P := by
    intro pairs
    induction pairs with
    | nil => exact fun he _ => he
    | cons pair pairs ih =>
      intro e he h
      obtain ⟨⟨hleft, hright⟩, hrest⟩ := List.forall_mem_cons.1 h
      exact ih (he.binary .and (hleft.binary .eq hright)) hrest
  cases ls with
  | nil => rintro _ ⟨⟩
  | cons l ls =>
    cases rs with
    | nil => rintro _ ⟨⟩
    | cons r rs =>
      obtain ⟨hleft, hls⟩ := List.forall_mem_cons.1 hl
      obtain ⟨hright, hrs⟩ := List.forall_mem_cons.1 hr
      rintro _ ⟨⟩
      refine equalities (hleft.binary .eq hright) fun pair hpair => ?_
      obtain ⟨hp, hp'⟩ := List.of_mem_zip hpair
      exact ⟨hls _ hp, hrs _ hp'⟩

theorem searchPattern (name : String) (h : e.Anywhere P) :
    ((searchPattern? name e).getD e).Anywhere P :=
  searchPattern_cases (P := fun e => e.Anywhere P) name h (.literal _)
    fun _ _ hl hr => hl.binary .concat hr

end SqlExpr.Anywhere

end SequenceQuery
