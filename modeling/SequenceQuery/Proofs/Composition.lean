import SequenceQuery.Proofs.Building
import SequenceQuery.Proofs.Elements
import SequenceQuery.Proofs.Simulation
import Mathlib.Order.Monotone.Defs

namespace SequenceQuery

variable {env : Surroundings} {node : Expr} {args : List Meaning} {scope : Scope} {p : Progress}

/-- A lambda builds what its body does, in the scope of its elements and of what is bound around
it. -/
theorem builds_lambda {params : List String} {body : Meaning} {elements : List Binding}
    {V : Progress → Binding → Prop}
    (h : ∀ inner : Scope, (∀ entry ∈ inner, entry.2 ∈ elements ∨ entry ∈ scope) →
      Builds p (body.asBinding inner) V) :
    Builds p ((Meaning.ofLambda node params body).apply scope elements) V := by
  rw [Meaning.ofLambda]
  dsimp only
  split
  · refine h _ fun entry hentry => (List.mem_append.1 hentry).imp_left fun hbound => ?_
    exact (List.of_mem_zip (List.mem_reverse.1 hbound)).2
  · exact .unsupported _ _

theorem builds_scalars {V : Progress → Scalar → Prop} (hV : Monotone V)
    (h : ∀ m ∈ args, ∀ {q}, p ≤ q → Builds q (m.asScalar scope) V) :
    Builds p (Meaning.scalars scope args) fun q ss => ∀ s ∈ ss, V q s := by
  induction args generalizing p with
  | nil => exact .pure (List.forall_mem_nil _)
  | cons m args ih =>
    obtain ⟨hm, hrest⟩ := List.forall_mem_cons.1 h
    refine (hm le_rfl).bind fun q s hpq hfirst => ?_
    refine (ih fun m' hm' _ hqr => hrest m' hm' (hpq.trans hqr)).bind fun r ss hqr hothers => ?_
    exact .pure (List.forall_mem_cons.2 ⟨hV hqr _ hfirst, hothers⟩)

theorem builds_fields {fields : List (String × Meaning)} {V : Progress → Binding → Prop}
    (hV : Monotone V) (h : ∀ f ∈ fields, ∀ {q}, p ≤ q → Builds q (f.2.asBinding scope) V) :
    Builds p (Meaning.bindFields scope fields) fun q bs =>
      bs.map Prod.fst = fields.map Prod.fst ∧ ∀ f ∈ bs, V q f.2 := by
  induction fields generalizing p with
  | nil => exact .pure ⟨rfl, List.forall_mem_nil _⟩
  | cons f fields ih =>
    obtain ⟨hf, hrest⟩ := List.forall_mem_cons.1 h
    refine (hf le_rfl).bind fun q b hpq hfirst => ?_
    refine (ih fun f' hf' _ hqr => hrest f' hf' (hpq.trans hqr)).bind fun r bs hqr hothers => ?_
    obtain ⟨hnames, hothers⟩ := hothers
    exact .pure ⟨congrArg (f.1 :: ·) hnames, List.forall_mem_cons.2 ⟨hV hqr _ hfirst, hothers⟩⟩

theorem nullTest?_operand {op : BinaryOp} {left right m : Meaning} {negated : Bool}
    (h : nullTest? op left right = some (m, negated)) : m = left ∨ m = right := by
  unfold nullTest? at h
  cases hright : right.node.isNull with
  | true => cases op <;> simp_all
  | false => cases hleft : left.node.isNull <;> cases op <;> simp_all

theorem builds_binary {op : BinaryOp} {left right : Meaning} {V Q : Progress → Scalar → Prop}
    (hV : Monotone V) (hleft : ∀ {q}, p ≤ q → Builds q (left.asScalar scope) V)
    (hright : ∀ {q}, p ≤ q → Builds q (right.asScalar scope) V)
    (hnull : ∀ {q s} negated, V q s → Q q ⟨.isNull s.expr negated, false⟩)
    (hbinary : ∀ {q l r sqlOp}, sqlBinary? op = some sqlOp → V q l → V q r →
      Q q ⟨.binary sqlOp l.expr r.expr, l.nullable || r.nullable⟩)
    (hcoalesce : ∀ {q l r}, V q l → V q r →
      Q q ⟨.coalesce [l.expr, r.expr], l.nullable && r.nullable⟩) :
    Builds p (scalarOfBinary op left right scope) Q := by
  rw [scalarOfBinary]
  cases htest : nullTest? op left right with
  | some test =>
    obtain ⟨m, negated⟩ := test
    have hm : Builds p (m.asScalar scope) V := by
      rcases nullTest?_operand htest with rfl | rfl
      · exact hleft le_rfl
      · exact hright le_rfl
    exact hm.bind fun q s _ hs => .pure (hnull negated hs)
  | none =>
    refine (hleft le_rfl).bind fun q l hpq hl => (hright hpq).bind fun r s hqr hs => ?_
    cases hop : sqlBinary? op with
    | some sqlOp => exact .pure (hbinary hop (hV hqr _ hl) hs)
    | none => exact .pure (hcoalesce (hV hqr _ hl) hs)

theorem searchPattern_cases {P : SqlExpr → Prop} (name : String) {needle : SqlExpr} (h : P needle)
    (hany : P (.literal (.text "%")))
    (hconcat : ∀ l r, P l → P r → P (.binary .concat l r)) :
    P ((searchPattern? name needle).getD needle) := by
  cases hpattern : searchPattern? name needle with
  | none => exact h
  | some pattern =>
    unfold searchPattern? at hpattern
    split at hpattern <;> cases hpattern
    · exact hconcat _ _ (hconcat _ _ hany h) hany
    · exact hconcat _ _ h hany
    · exact hconcat _ _ hany h

/-- A search in text is a LIKE; any other function is called by a name that the dialect has for it, or
by its own. -/
theorem builds_function {name : String} {V Q : Progress → Scalar → Prop} (hV : Monotone V)
    (h : ∀ m ∈ args, ∀ {q}, p ≤ q → Builds q (m.asScalar scope) V)
    (hsearch : ∀ {q text needle}, V q text → V q needle →
      Q q ⟨.binary .like text.expr
        ((searchPattern? (Text.lower name) needle.expr).getD needle.expr), text.nullable⟩)
    (hcall : ∀ {q callee} {ss : List Scalar}, env.dialect.functionName (Text.lower name) = some callee ∨
      callee = name ∧ env.dialect.capabilities.passthroughFunctions = true →
        (∀ s ∈ ss, V q s) →
          Q q ⟨.function callee (ss.map Scalar.expr), ss.any Scalar.nullable⟩) :
    Builds p (scalarOfFunction env node name args scope) Q := by
  have hargument : ∀ {i m q}, p ≤ q → argument node args i = .ok m →
      Builds q (m.asScalar scope) V := fun hpq hm => h _ (mem_of_argument hm) hpq
  rw [scalarOfFunction]
  split
  · refine Builds.check fun m hm => (hargument le_rfl hm).bind fun q text hpq htext => ?_
    exact Builds.check fun m hm => (hargument hpq hm).bind fun r needle hqr hneedle =>
      .pure (hsearch (hV hqr _ htext) hneedle)
  · refine (builds_scalars hV h).bind fun q ss _ hss => ?_
    cases hname : env.dialect.functionName (Text.lower name) with
    | some callee => exact .pure (hcall (.inl hname) hss)
    | none =>
      cases hpass : env.dialect.capabilities.passthroughFunctions with
      | true => exact .pure (hcall (.inr ⟨rfl, hpass⟩) hss)
      | false => exact .throw _

theorem builds_aggregateIn {op : Operator} {b : Binding} {Q : Progress → Scalar → Prop}
    (hcount : ∀ {key element}, b = .group key element → Q p ⟨.countRows, false⟩)
    (hcountIf : ∀ {key element predicate}, b = .group key element →
      op ∈ [.count, .longCount] → args[0]? = some predicate →
        Builds p (predicate.applyScalar scope element) fun q s =>
          Q q ⟨.aggregateOf "COUNT" [.cases [(s.expr, .int 1)] none], false⟩)
    (htotal : ∀ {key element}, b = .group key element → op ∈ [.sum, .min, .max, .average] →
      Builds p (selected node args[0]? element scope) fun q s => Q q (aggregateOver op s)) :
    Builds p (aggregateIn node op args scope b) fun q found => ∀ s ∈ found, Q q s := by
  cases b with
  | group key element =>
    cases op with
    | count | longCount =>
      cases hpredicate : args[0]? with
      | none =>
        rw [aggregateIn, hpredicate]
        exact .pure fun _ hs => Option.some.inj hs ▸ hcount rfl
      | some predicate =>
        rw [aggregateIn, hpredicate]
        exact (hcountIf rfl (by simp) hpredicate).bind fun q s _ hs =>
          .pure fun _ hs' => Option.some.inj hs' ▸ hs
    | sum | min | max | average =>
      exact (htotal rfl (by simp)).bind fun q s _ hs => .pure fun _ hs' => Option.some.inj hs' ▸ hs
    | _ => exact .throw _
  | _ => exact .pure fun _ hs => (by cases hs)

theorem Expr.isPath_skeletonIn (e : Expr) : (e.skeletonIn []).isPath = e.isReference := by
  cases e <;> rfl

theorem builds_aggregateOfGroup {op : Operator} {Q : Progress → Scalar → Prop}
    (h : ∀ {source rest}, args = source :: rest → source.node.isReference = true →
      Builds p (source.asBinding scope >>= aggregateIn node op rest scope) fun q found =>
        ∀ s ∈ found, Q q s) :
    Builds p (aggregateOfGroup node op args scope) fun q found => ∀ s ∈ found, Q q s := by
  cases args with
  | nil => exact .pure fun _ hs => (by cases hs)
  | cons source rest =>
    rw [aggregateOfGroup_cons node [], Expr.isPath_skeletonIn]
    split
    case isTrue hreference => exact h rfl hreference
    case isFalse => exact .pure fun _ hs => (by cases hs)

/-- A call as a value is an aggregate over a group, or what stands for the statement of a terminal
operator in an expression. -/
theorem builds_call {op : Operator} {T : Progress → Terminal → Prop} {Q : Progress → Scalar → Prop}
    (hgroup : Builds p (aggregateOfGroup node op args scope) fun q found => ∀ s ∈ found, Q q s)
    (hterminal : ∀ {q}, p ≤ q → op.isTerminal = true → Builds q (terminal node op args scope) T)
    (hsingle : ∀ {q select s nullable unique}, T q (.single select (.scalar s) nullable unique) →
      Q q ⟨.subquery select, true⟩)
    (hexist : ∀ {q select negated}, T q (.exist select negated) →
      Q q ⟨.exist select negated, false⟩)
    (hscalar : ∀ {q select nullable}, T q (.scalar select nullable) →
      Q q ⟨.subquery select, nullable⟩)
    (hisIn : ∀ {q value select}, T q (.isIn value select) → Q q ⟨.isIn value select false, false⟩) :
    Builds p (scalarOfCall node op args scope) Q := by
  refine hgroup.bind fun q found hpq hfound => ?_
  cases found with
  | some s => exact .pure (hfound s rfl)
  | none =>
    dsimp only
    split
    case isTrue => exact .refused _ _
    case isFalse hop =>
      rw [Bool.not_eq_true, Bool.not_eq_false'] at hop
      refine (hterminal hpq hop).bind fun r t _ ht => ?_
      cases t with
      | single select row nullable unique =>
        cases row with
        | scalar s => exact .pure (hsingle ht)
        | _ => exact .unsupported _ _
      | exist select negated => exact .pure (hexist ht)
      | scalar select nullable => exact .pure (hscalar ht)
      | isIn value select => exact .pure (hisIn ht)

end SequenceQuery
