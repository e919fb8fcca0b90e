import SequenceQuery.Proofs.Alike

namespace SequenceQuery

theorem Scalar.bare_eq_bare {a a' : Scalar} :
    a.bare = a'.bare ↔ a.expr.bare = a'.expr.bare ∧ a.nullable = a'.nullable := by
  rw [Scalar.bare, Scalar.bare, Scalar.mk.injEq]

section Functions

variable {env env' : Surroundings} {σ σ' : List String} {s s' : Scope} {m m' : Meaning}
  {args args' : List Meaning} {r r' : Rows} {b b' : Binding} (node node' : Expr)

theorem filtered_related (hm : Meaning.Alike env env' σ σ' m m')
    (ha : List.Forall₂ (Meaning.Alike env env' σ σ') args args') (hs : SameScope σ σ' s s')
    (i : Nat) :
    Related SameRows (filtered node m args[i]? s) (filtered node' m' args'[i]? s') := by
  refine (hm.asSequence hs false).bind fun r r' h => ?_
  rcases getElem?_related ha i with ⟨hi, hi'⟩ | ⟨p, p', hi, hi', hp⟩ <;> rw [hi, hi']
  · exact .pure h
  · exact restrict_related node node' h hp false hs

theorem selected_related (ha : List.Forall₂ (Meaning.Alike env env' σ σ') args args')
    (hs : SameScope σ σ' s s') (i : Nat) (hb : b.bare = b'.bare) :
    Related (fun a a' => a.bare = a'.bare) (selected node args[i]? b s)
      (selected node' args'[i]? b' s') := by
  rcases getElem?_related ha i with ⟨hi, hi'⟩ | ⟨m, m', hi, hi', hm⟩ <;> rw [hi, hi']
  · exact .lift (Binding.asScalar_agree node node' hb)
  · exact hm.applyScalar hs hb

theorem singleRow_related (ha : List.Forall₂ (Meaning.Alike env env' σ σ') args args')
    (hs : SameScope σ σ' s s') (nullable unique : Bool) :
    Related (fun t t' => t.bare = t'.bare) (singleRow node args nullable unique s)
      (singleRow node' args' nullable unique s') := by
  refine (Related.lift (argument_agree node node' ha 0)).bind fun m m' hm => ?_
  refine (filtered_related node node' hm ha hs 1).bind fun r r' h => ?_
  refine (Rows.wrapIf_related node node' h.limit h).bind fun r r' h => ?_
  have limited : SameRows (r.withLimit (.int (if unique then 2 else 1)))
      (r'.withLimit (.int (if unique then 2 else 1))) := h.withLimit rfl
  refine (Related.lift (Rows.project_agree node node' limited)).bind fun q q' hq => .pure ?_
  rw [Terminal.bare, Terminal.bare, hq, limited.2]

theorem aggregateOver_bare (op : Operator) (a : Scalar) :
    (aggregateOver op a).bare = aggregateOver op a.bare := by
  cases op <;> rfl

theorem terminal_related (op : Operator)
    (ha : List.Forall₂ (Meaning.Alike env env' σ σ') args args') (hs : SameScope σ σ' s s') :
    Related (fun t t' => t.bare = t'.bare) (terminal node op args s)
      (terminal node' op args' s') := by
  refine (Related.lift (argument_agree node node' ha 0)).bind fun source source' hsource => ?_
  cases op with
  | first | firstOrDefault | single | singleOrDefault =>
    exact singleRow_related node node' ha hs _ _
  | count | longCount =>
    refine (filtered_related node node' hsource ha hs 1).bind fun r r' h => ?_
    refine (Rows.forAggregate_related node node' h).bind fun r r' h => .pure ?_
    rw [Terminal.bare, Terminal.bare, h.selecting rfl]
  | sum | min | max | average =>
    refine (hsource.asSequence hs false).bind fun r r' h => ?_
    refine (Rows.forAggregate_related node node' h).bind fun r r' h => ?_
    refine (selected_related node node' ha hs 1 h.2).bind fun a a' hsame => .pure ?_
    have hresult : ∀ op, (aggregateOver op a).bare = (aggregateOver op a').bare := fun op => by
      rw [aggregateOver_bare, hsame, aggregateOver_bare]
    obtain ⟨hexpr, hnullable⟩ := Scalar.bare_eq_bare.1 (hresult _)
    rw [Terminal.bare, Terminal.bare, h.selecting hexpr, hnullable]
  | any =>
    refine (filtered_related node node' hsource ha hs 1).bind fun r r' h => .pure ?_
    rw [Terminal.bare, Terminal.bare, h.orderedOnlyIfPaged.selecting rfl]
  | all =>
    refine (hsource.asSequence hs false).bind fun r r' h => ?_
    refine (Related.lift (argument_agree node node' ha 1)).bind fun m m' hm => ?_
    refine (restrict_related node node' h hm true hs).bind fun r r' h => .pure ?_
    rw [Terminal.bare, Terminal.bare, h.orderedOnlyIfPaged.selecting rfl]
  | contains =>
    refine (hsource.asSequence hs false).bind fun r r' h => ?_
    have hrow := h.2
    revert hrow
    cases hb : r.row <;> cases hb' : r'.row <;> intro hrow <;>
      simp only [Binding.bare, reduceCtorEq, Binding.scalar.injEq] at hrow
    case scalar.scalar element element' =>
      refine (Related.lift (argument_agree node node' ha 1)).bind fun m m' hm => ?_
      refine (hm.asScalar hs).bind fun a a' hsame => .pure ?_
      rw [Terminal.bare, Terminal.bare, (Scalar.bare_eq_bare.1 hsame).1,
        h.orderedOnlyIfPaged.selecting (Scalar.bare_eq_bare.1 hrow).1]
    all_goals exact .unsupported node node' _
  | _ => exact .throw rfl

def aggregateIn (op : Operator) (rest : List Meaning) (scope : Scope) :
    Binding → Build (Option Scalar)
  | .group _ element =>
    match op with
    | .count | .longCount =>
      match rest[0]? with
      | none => return some ⟨.countRows, false⟩
      | some predicate => do
        let p ← predicate.applyScalar scope element
        return some ⟨.aggregateOf "COUNT" [.cases [(p.expr, .int 1)] none], false⟩
    | .sum | .min | .max | .average => do
      return some (aggregateOver op (← selected node rest[0]? element scope))
    | _ => throw ⟨node, .unsupportedOperator op⟩
  | _ => return none

theorem aggregateOfGroup_cons (σ : List String) (op : Operator) (source : Meaning)
    (rest : List Meaning) (scope : Scope) : aggregateOfGroup node op (source :: rest) scope =
      if (source.node.skeletonIn σ).isPath then
        source.asBinding scope >>= aggregateIn node op rest scope
      else return none := by
  rw [aggregateOfGroup]
  cases source.node with
  | param id name =>
    rw [Expr.skeletonIn]
    cases lastIndex? name σ <;> rfl
  | _ => rfl

theorem aggregateIn_related (op : Operator)
    (ha : List.Forall₂ (Meaning.Alike env env' σ σ') args args') (hs : SameScope σ σ' s s')
    (hb : b.bare = b'.bare) :
    Related (fun a a' => a.map Scalar.bare = a'.map Scalar.bare) (aggregateIn node op args s b)
      (aggregateIn node' op args' s' b') := by
  cases b <;> cases b' <;> simp only [Binding.bare, reduceCtorEq, Binding.group.injEq] at hb
  case group.group key element key' element' =>
    cases op with
    | count | longCount =>
      simp only [aggregateIn]
      rcases getElem?_related ha 0 with ⟨h, h'⟩ | ⟨m, m', h, h', hm⟩ <;> rw [h, h']
      · exact .pure rfl
      · refine (hm.applyScalar hs hb.2).bind fun p p' hp => .pure ?_
        simp [Scalar.bare, SqlExpr.aggregateOf, SqlExpr.bare, bareList, bareArms,
          (Scalar.bare_eq_bare.1 hp).1]
    | sum | min | max | average =>
      refine (selected_related node node' ha hs 0 hb.2).bind fun a a' hsame => .pure ?_
      rw [Option.map_some, Option.map_some, aggregateOver_bare, aggregateOver_bare, hsame]
    | _ => exact .throw rfl
  all_goals exact .pure rfl

theorem aggregateOfGroup_related (op : Operator)
    (ha : List.Forall₂ (Meaning.Alike env env' σ σ') args args') (hs : SameScope σ σ' s s') :
    Related (fun a a' => a.map Scalar.bare = a'.map Scalar.bare) (aggregateOfGroup node op args s)
      (aggregateOfGroup node' op args' s') := by
  cases ha with
  | nil => exact .pure rfl
  | cons hm ha =>
    rw [aggregateOfGroup_cons node σ, aggregateOfGroup_cons node' σ', hm.skeleton]
    split
    · exact (hm.asBinding hs).bind fun b b' hb => aggregateIn_related node node' op ha hs hb
    · exact .pure rfl

theorem scalarOfCall_related (op : Operator)
    (ha : List.Forall₂ (Meaning.Alike env env' σ σ') args args') (hs : SameScope σ σ' s s') :
    Related (fun a a' => a.bare = a'.bare) (scalarOfCall node op args s)
      (scalarOfCall node' op args' s') := by
  refine (aggregateOfGroup_related node node' op ha hs).bind fun a a' hsame => ?_
  cases a <;> cases a' <;> simp only [Option.map_none, Option.map_some, reduceCtorEq,
    Option.some.injEq] at hsame
  case some.some => exact .pure hsame
  dsimp only
  split
  · exact .refused node node' _
  refine (terminal_related node node' op ha hs).bind fun t t' ht => ?_
  cases t <;> cases t' <;> simp only [Terminal.bare, reduceCtorEq, Terminal.exist.injEq,
    Terminal.scalar.injEq, Terminal.isIn.injEq, Terminal.single.injEq] at ht
  case single.single select row _ _ select' row' _ _ =>
    obtain ⟨hselect, hrow, -, -⟩ := ht
    cases row <;> cases row' <;> simp only [Binding.bare, reduceCtorEq] at hrow
    case scalar.scalar => exact .pure (by simp only [Scalar.bare, SqlExpr.bare, hselect])
    all_goals exact .unsupported node node' _
  all_goals exact .pure (by simp only [Scalar.bare, SqlExpr.bare, ht])

theorem nullTest?_related {left left' right right' : Meaning} (op : BinaryOp)
    (hl : Meaning.Alike env env' σ σ' left left')
    (hr : Meaning.Alike env env' σ σ' right right') :
    (nullTest? op left right = none ∧ nullTest? op left' right' = none) ∨
      ∃ m m' negated, nullTest? op left right = some (m, negated) ∧
        nullTest? op left' right' = some (m', negated) ∧ Meaning.Alike env env' σ σ' m m' := by
  have hleft : left.node.isNull = left'.node.isNull := by
    rw [Expr.isNull_eq σ, Expr.isNull_eq σ', hl.skeleton]
  have hright : right.node.isNull = right'.node.isNull := by
    rw [Expr.isNull_eq σ, Expr.isNull_eq σ', hr.skeleton]
  simp only [nullTest?, hleft, hright]
  have either : ∀ {m m' : Meaning} (negated : Bool), Meaning.Alike env env' σ σ' m m' →
      ∃ p p' n, some (m, negated) = some (p, n) ∧ some (m', negated) = some (p', n) ∧
        Meaning.Alike env env' σ σ' p p' :=
    fun negated h => ⟨_, _, negated, rfl, rfl, h⟩
  cases right'.node.isNull with
  | true =>
    cases op with
    | equal | notEqual => exact .inr (either _ hl)
    | _ => exact .inl ⟨rfl, rfl⟩
  | false =>
    cases left'.node.isNull with
    | true =>
      cases op with
      | equal | notEqual => exact .inr (either _ hr)
      | _ => exact .inl ⟨rfl, rfl⟩
    | false => cases op <;> exact .inl ⟨rfl, rfl⟩

theorem scalarOfBinary_related {left left' right right' : Meaning} (op : BinaryOp)
    (hl : Meaning.Alike env env' σ σ' left left')
    (hr : Meaning.Alike env env' σ σ' right right') (hs : SameScope σ σ' s s') :
    Related (fun a a' => a.bare = a'.bare) (scalarOfBinary op left right s)
      (scalarOfBinary op left' right' s') := by
  rw [scalarOfBinary, scalarOfBinary]
  rcases nullTest?_related op hl hr with ⟨h, h'⟩ | ⟨m, m', negated, h, h', hm⟩ <;> rw [h, h']
  · refine (hl.asScalar hs).bind fun l l' hl => (hr.asScalar hs).bind fun r r' hr => ?_
    rw [Scalar.bare_eq_bare] at hl hr
    cases sqlBinary? op with
    | some op => exact .pure (by simp only [Scalar.bare, SqlExpr.bare, hl, hr])
    | none =>
      exact .pure (by simp only [Scalar.bare, SqlExpr.coalesce, SqlExpr.bare, bareList, hl, hr])
  · refine (hm.asScalar hs).bind fun a a' hsame => .pure ?_
    simp only [Scalar.bare, SqlExpr.bare, (Scalar.bare_eq_bare.1 hsame).1]

theorem searchPattern_bare (name : String) (needle : SqlExpr) :
    ((searchPattern? name needle).getD needle).bare =
      (searchPattern? name needle.bare).getD needle.bare := by
  simp only [searchPattern?]
  split <;> rfl

theorem bareList_expr {as as' : List Scalar} (h : as.map Scalar.bare = as'.map Scalar.bare) :
    bareList (as.map Scalar.expr) = bareList (as'.map Scalar.expr) := by
  have he := congrArg (List.map Scalar.expr) h
  rw [List.map_map, List.map_map] at he
  rw [bareList_eq_map, bareList_eq_map, List.map_map, List.map_map]
  exact he

theorem any_nullable {as as' : List Scalar} (h : as.map Scalar.bare = as'.map Scalar.bare) :
    as.any Scalar.nullable = as'.any Scalar.nullable := by
  have hn := congrArg (fun l => l.any Scalar.nullable) h
  rwa [List.any_map, List.any_map] at hn

theorem scalarOfFunction_related (he : env.dialect = env'.dialect) (name : String)
    (ha : List.Forall₂ (Meaning.Alike env env' σ σ') args args') (hs : SameScope σ σ' s s') :
    Related (fun a a' => a.bare = a'.bare) (scalarOfFunction env node name args s)
      (scalarOfFunction env' node' name args' s') := by
  rw [scalarOfFunction, scalarOfFunction, ha.length_eq, he]
  dsimp only
  split
  · refine (Related.lift (argument_agree node node' ha 0)).bind fun m m' hm => ?_
    refine (hm.asScalar hs).bind fun text text' ht => ?_
    refine (Related.lift (argument_agree node node' ha 1)).bind fun m m' hm => ?_
    refine (hm.asScalar hs).bind fun needle needle' hn => .pure ?_
    rw [Scalar.bare_eq_bare] at ht hn
    simp only [Scalar.bare, SqlExpr.bare, ht, searchPattern_bare, hn]
  · refine (Meaning.scalars_related ha hs).bind fun l l' hl => ?_
    have called : ∀ f f' : String, f = f' → Related (fun a a' : Scalar => a.bare = a'.bare)
        (pure ⟨.function f (l.map Scalar.expr), l.any Scalar.nullable⟩)
        (pure ⟨.function f' (l'.map Scalar.expr), l'.any Scalar.nullable⟩) :=
      fun f f' hf => .pure (by
        simp only [Scalar.bare, SqlExpr.bare, hf, bareList_expr hl, any_nullable hl])
    cases env'.dialect.functionName (Text.lower name) with
    | some mapped => exact (Related.pure rfl).bind called
    | none =>
      dsimp only
      split
      · exact (Related.pure rfl).bind called
      · exact (Related.throw (f := ⟨node, _⟩) (g := ⟨node', _⟩) rfl).bind called

theorem lookUp_agree {name name' : String}
    (hk : (Expr.param 0 name).skeletonIn σ = (Expr.param 0 name').skeletonIn σ')
    (hs : SameScope σ σ' s s') :
    Agree (fun b b' => b.bare = b'.bare) (lookUp s name node) (lookUp s' name' node') := by
  have names : (s.map Prod.fst).reverse = σ := by rw [hs.names, List.reverse_reverse]
  have names' : (s'.map Prod.fst).reverse = σ' := by rw [hs.names', List.reverse_reverse]
  have bindings := congrArg List.reverse hs.bindings
  rw [lookUp, lookUp, lookup_eq_lastIndex?, lookup_eq_lastIndex?, names, names']
  rw [Expr.skeletonIn, Expr.skeletonIn] at hk
  cases hi : lastIndex? name σ with
  | none =>
    cases hi' : lastIndex? name' σ' with
    | none =>
      simp only [hi, hi', Skeleton.free.injEq] at hk
      subst hk
      exact .error rfl
    | some i => simp [hi, hi'] at hk
  | some i =>
    cases hi' : lastIndex? name' σ' with
    | none => simp [hi, hi'] at hk
    | some i' =>
      simp only [hi, hi', Skeleton.bound.injEq] at hk
      subst hk
      have bindings := congrArg (fun l => l[i]?) bindings
      simp only [← List.map_reverse, List.getElem?_map, Option.bind_some] at bindings ⊢
      cases hb : s.reverse[i]? with
      | none =>
        have hlt := lastIndex?_lt hi
        rw [← names, List.length_reverse, List.length_map] at hlt
        simp [hlt] at hb
      | some entry =>
        cases hb' : s'.reverse[i]? with
        | none => simp [hb, hb'] at bindings
        | some entry' => exact .ok (by simpa [hb, hb'] using bindings)

end Functions

namespace Expr

theorem length_nodes {σ σ' : List String} {e e' : Expr} (h : e.skeletonIn σ = e'.skeletonIn σ') :
    e.nodes.length = e'.nodes.length := by
  have hmarks := congrArg (fun k => k.marks.length) h
  simpa only [← marks_eq, List.length_map] using hmarks

theorem map_nodes_append {α : Type} {f g : Expr → α} {ns ns' rest rest' : List Expr}
    (hn : ns.length = ns'.length) (h : (ns ++ rest).map f = (ns' ++ rest').map g) :
    ns.map f = ns'.map g ∧ rest.map f = rest'.map g := by
  rw [List.map_append, List.map_append] at h
  exact List.append_inj h (by simpa using hn)

theorem head_of_map_nodes {α : Type} {f g : Expr → α} {e e' : Expr}
    (h : e.nodes.map f = e'.nodes.map g) : f e = g e' := by
  have hhead := congrArg List.head? h
  cases e <;> cases e' <;> simpa [nodes] using hhead

end Expr

namespace Meaning

variable {env env' : Surroundings} {σ σ' : List String} {node node' : Expr}

section Constructors

variable (hk : node.skeletonIn σ = node'.skeletonIn σ') (hp : env.place node = env'.place node')
include hk hp

theorem alike_ofScalar {scalar scalar' : Scope → Build Scalar}
    (h : ∀ {s s'}, SameScope σ σ' s s' →
      Related (fun a a' => a.bare = a'.bare) (scalar s) (scalar' s')) :
    Alike env env' σ σ' (ofScalar node scalar) (ofScalar node' scalar') where
  skeleton := hk
  place := hp
  asSequence _ _ := .unsupported node node' _
  asBinding hs := (h hs).bind fun _ _ ha => .pure (congrArg Binding.scalar ha)
  apply _ _ _ _ := .unsupported node node' _

theorem alike_ofBinding (reason : Unsupported) {binding binding' : Scope → Build Binding}
    (h : ∀ {s s'}, SameScope σ σ' s s' →
      Related (fun b b' => b.bare = b'.bare) (binding s) (binding' s')) :
    Alike env env' σ σ' (ofBinding node reason binding) (ofBinding node' reason binding') where
  skeleton := hk
  place := hp
  asSequence _ _ := .unsupported node node' _
  asBinding hs := h hs
  apply _ _ _ _ := .unsupported node node' _

theorem alike_ofEntity (hc : env.catalog = env'.catalog) (name : String) :
    Alike env env' σ σ' (ofEntity env node name) (ofEntity env' node' name) where
  skeleton := hk
  place := hp
  asSequence _ _ := by
    simp only [ofEntity, hc]
    cases env'.catalog.entity? name with
    | none => exact .throw rfl
    | some entity =>
      refine Related.freshLabel.bind fun label _ hlabel => .pure ⟨?_, ?_⟩
      · subst hlabel
        rfl
      · subst hlabel
        rfl
  asBinding _ := .unsupported node node' _
  apply _ _ _ _ := .unsupported node node' _

theorem alike_ofLambda {params params' : List String} {body body' : Meaning}
    (hn : params.length = params'.length)
    (h : Alike env env' (σ ++ params) (σ' ++ params') body body') :
    Alike env env' σ σ' (ofLambda node params body) (ofLambda node' params' body') where
  skeleton := hk
  place := hp
  asSequence _ _ := .unsupported node node' _
  asBinding _ := .unsupported node node' _
  apply := by
    intro s s' hs bs bs' hb
    have hlength : bs.length = bs'.length := by simpa using congrArg List.length hb
    simp only [ofLambda, hn, hlength]
    split
    · rename_i harity
      refine h.asBinding ⟨?_, ?_, ?_⟩
      · simp [hs.names, List.map_fst_zip, hn, harity, hlength]
      · simp [hs.names', List.map_fst_zip, harity]
      · have zipped : ∀ (ps : List String) (bs : List Binding), ps.length = bs.length →
            (ps.zip bs).map (fun entry => entry.2.bare) = bs.map Binding.bare := by
          intro ps bs h
          have hsnd := congrArg (List.map Binding.bare) (List.map_snd_zip (Nat.le_of_eq h.symm))
          rwa [List.map_map] at hsnd
        simp only [List.map_append, List.map_reverse, hs.bindings]
        rw [zipped _ _ (by omega), zipped _ _ harity, hb]
    · exact .unsupported node node' _

theorem alike_ofCall (hd : env.dialect = env'.dialect) (op : Operator)
    {args args' : List Meaning} (ha : List.Forall₂ (Alike env env' σ σ') args args') :
    Alike env env' σ σ' (ofCall env node op args) (ofCall env' node' op args') where
  skeleton := hk
  place := hp
  asSequence hs inRun := sequenceOfCall_related node node' hd op hk hp ha hs inRun
  asBinding hs := (scalarOfCall_related node node' op ha hs).bind fun _ _ h =>
    .pure (congrArg Binding.scalar h)
  apply _ _ _ _ := .unsupported node node' _

theorem alike_ofConstant {value value' : Value} (hv : value.isNull = value'.isNull) :
    Alike env env' σ σ' (ofConstant env node value) (ofConstant env' node' value') := by
  refine alike_ofScalar hk hp fun _ => ?_
  rw [hv, show env.slot? node.id = env'.slot? node'.id from congrArg Prod.fst hp]
  split
  · exact .pure rfl
  · cases env'.slot? node'.id with
    | some slot => exact .pure rfl
    | none => exact .unsupported node node' _

theorem alike_ofParam {name name' : String}
    (hname : (Expr.param 0 name).skeletonIn σ = (Expr.param 0 name').skeletonIn σ') :
    Alike env env' σ σ'
      (ofBinding node .memberAsSource fun scope => lookUp scope name node)
      (ofBinding node' .memberAsSource fun scope => lookUp scope name' node') :=
  alike_ofBinding hk hp _ fun hs => .lift (lookUp_agree _ _ hname hs)

theorem alike_ofMember {target target' : Meaning} (name : String)
    (ht : Alike env env' σ σ' target target') :
    Alike env env' σ σ'
      (ofBinding node .memberAsSource fun scope => do (← target.asBinding scope).member name node)
      (ofBinding node' .memberAsSource fun scope => do
        (← target'.asBinding scope).member name node') :=
  alike_ofBinding hk hp _ fun hs => (ht.asBinding hs).bind fun _ _ hb =>
    .lift (Binding.member_agree _ _ name hb)

theorem alike_ofUnary {operand operand' : Meaning} (op : SqlUnary)
    (ho : Alike env env' σ σ' operand operand') :
    Alike env env' σ σ'
      (ofScalar node fun scope => do
        let s ← operand.asScalar scope
        return ⟨.unary op s.expr, s.nullable⟩)
      (ofScalar node' fun scope => do
        let s ← operand'.asScalar scope
        return ⟨.unary op s.expr, s.nullable⟩) := by
  refine alike_ofScalar hk hp fun hs => (ho.asScalar hs).bind fun a a' ha => .pure ?_
  rw [Scalar.bare_eq_bare] at ha
  simp only [Scalar.bare, SqlExpr.bare, ha]

theorem alike_ofObject {fields fields' : List (String × Meaning)}
    (hf : List.Forall₂ (fun f f' => f.1 = f'.1 ∧ Alike env env' σ σ' f.2 f'.2) fields fields') :
    Alike env env' σ σ'
      (ofBinding node .notASequence fun scope => return .object (← bindFields scope fields))
      (ofBinding node' .notASequence fun scope => return .object (← bindFields scope fields')) :=
  alike_ofBinding hk hp _ fun hs => (bindFields_related hf hs).bind fun _ _ hl =>
    .pure (congrArg Binding.object hl)

theorem alike_ofConditional {test test' ifTrue ifTrue' ifFalse ifFalse' : Meaning}
    (ht : Alike env env' σ σ' test test') (ha : Alike env env' σ σ' ifTrue ifTrue')
    (hb : Alike env env' σ σ' ifFalse ifFalse') :
    Alike env env' σ σ'
      (ofScalar node fun scope => do
        let t ← test.asScalar scope
        let a ← ifTrue.asScalar scope
        let b ← ifFalse.asScalar scope
        return ⟨.cases [(t.expr, a.expr)] (some b.expr), a.nullable || b.nullable⟩)
      (ofScalar node' fun scope => do
        let t ← test'.asScalar scope
        let a ← ifTrue'.asScalar scope
        let b ← ifFalse'.asScalar scope
        return ⟨.cases [(t.expr, a.expr)] (some b.expr), a.nullable || b.nullable⟩) := by
  refine alike_ofScalar hk hp fun hs => (ht.asScalar hs).bind fun t t' ht =>
    (ha.asScalar hs).bind fun a a' ha => (hb.asScalar hs).bind fun b b' hb => .pure ?_
  rw [Scalar.bare_eq_bare] at ht ha hb
  simp only [Scalar.bare, SqlExpr.bare, bareArms, bareOption, ht, ha, hb]

end Constructors

end Meaning

section Meanings

open Meaning

variable {env env' : Surroundings}

theorem isNull_of_sort {value value' : Value} (h : value.sort = value'.sort) :
    value.isNull = value'.isNull := by
  cases value <;> cases value' <;> first | rfl | cases h

mutual

/-- Two expressions of one skeleton mean the same where their nodes have the same places. -/
theorem meaning_alike (hc : env.catalog = env'.catalog) (hd : env.dialect = env'.dialect)
    (σ σ' : List String) : ∀ e e' : Expr, e.skeletonIn σ = e'.skeletonIn σ' →
    e.nodes.map env.place = e'.nodes.map env'.place →
      Alike env env' σ σ' (e.meaning env) (e'.meaning env')
  | .entity _ name, e', hk, hp => by
    cases Expr.sameNode_of_skeleton hk with
    | entity => exact alike_ofEntity hk (Expr.head_of_map_nodes hp) hc name
  | .call _ op args, e', hk, hp => by
    cases Expr.sameNode_of_skeleton hk with
    | call _ hargs =>
      exact alike_ofCall hk (Expr.head_of_map_nodes hp) hd op
        (meanings_alike hc hd σ σ' args _ hargs (List.cons.inj hp).2)
  | .lambda _ params body, e', hk, hp => by
    cases Expr.sameNode_of_skeleton hk with
    | lambda hlength hbody =>
      exact alike_ofLambda hk (Expr.head_of_map_nodes hp) hlength
        (meaning_alike hc hd _ _ body _ hbody (List.cons.inj hp).2)
  | .param _ name, e', hk, hp => by
    cases Expr.sameNode_of_skeleton hk with
    | param hname => exact alike_ofParam hk (Expr.head_of_map_nodes hp) hname
  | .member _ target name, e', hk, hp => by
    cases Expr.sameNode_of_skeleton hk with
    | member _ htarget =>
      exact alike_ofMember hk (Expr.head_of_map_nodes hp) name
        (meaning_alike hc hd σ σ' target _ htarget (List.cons.inj hp).2)
  | .const _ value, e', hk, hp => by
    cases Expr.sameNode_of_skeleton hk with
    | const hsort => exact alike_ofConstant hk (Expr.head_of_map_nodes hp) (isNull_of_sort hsort)
  | .segment .., e', hk, hp => by
    cases Expr.sameNode_of_skeleton hk with
    | segment =>
      exact alike_ofBinding hk (Expr.head_of_map_nodes hp) _ fun _ => .unsupported _ _ _
  | .binary _ op left right, e', hk, hp => by
    cases Expr.sameNode_of_skeleton hk with
    | binary _ hleft hright =>
      have hparts := Expr.map_nodes_append (Expr.length_nodes hleft) (List.cons.inj hp).2
      have hl := meaning_alike hc hd σ σ' left _ hleft hparts.1
      have hr := meaning_alike hc hd σ σ' right _ hright hparts.2
      exact alike_ofScalar hk (Expr.head_of_map_nodes hp) fun hs =>
        scalarOfBinary_related op hl hr hs
  | .unary _ op operand, e', hk, hp => by
    cases Expr.sameNode_of_skeleton hk with
    | unary _ hoperand =>
      have ho := meaning_alike hc hd σ σ' operand _ hoperand (List.cons.inj hp).2
      cases op <;> exact alike_ofUnary hk (Expr.head_of_map_nodes hp) _ ho
  | .function _ name args, e', hk, hp => by
    cases Expr.sameNode_of_skeleton hk with
    | function _ hargs =>
      have ha := meanings_alike hc hd σ σ' args _ hargs (List.cons.inj hp).2
      exact alike_ofScalar hk (Expr.head_of_map_nodes hp) fun hs =>
        scalarOfFunction_related _ _ hd name ha hs
  | .object _ fields, e', hk, hp => by
    cases Expr.sameNode_of_skeleton hk with
    | object hfields =>
      exact alike_ofObject hk (Expr.head_of_map_nodes hp)
        (fieldMeanings_alike hc hd σ σ' fields _ hfields (List.cons.inj hp).2)
  | .conditional _ test ifTrue ifFalse, e', hk, hp => by
    cases Expr.sameNode_of_skeleton hk with
    | conditional htest htrue hfalse =>
      have hparts := Expr.map_nodes_append (Expr.length_nodes htest) (List.cons.inj hp).2
      have hbranches := Expr.map_nodes_append (Expr.length_nodes htrue) hparts.2
      exact alike_ofConditional hk (Expr.head_of_map_nodes hp)
        (meaning_alike hc hd σ σ' test _ htest hparts.1)
        (meaning_alike hc hd σ σ' ifTrue _ htrue hbranches.1)
        (meaning_alike hc hd σ σ' ifFalse _ hfalse hbranches.2)

theorem meanings_alike (hc : env.catalog = env'.catalog) (hd : env.dialect = env'.dialect)
    (σ σ' : List String) : ∀ es es' : List Expr,
    Expr.skeletonsIn σ es = Expr.skeletonsIn σ' es' →
      (Expr.nodesOfList es).map env.place = (Expr.nodesOfList es').map env'.place →
        List.Forall₂ (Alike env env' σ σ') (meanings env es) (meanings env' es')
  | [], [], _, _ => .nil
  | [], e' :: es', hk, _ => by cases hk
  | e :: es, [], hk, _ => by cases hk
  | e :: es, e' :: es', hk, hp => by
    obtain ⟨he, hes⟩ := List.cons.inj hk
    have hsplit := Expr.map_nodes_append (Expr.length_nodes he) hp
    exact .cons (meaning_alike hc hd σ σ' e e' he hsplit.1)
      (meanings_alike hc hd σ σ' es es' hes hsplit.2)

theorem fieldMeanings_alike (hc : env.catalog = env'.catalog) (hd : env.dialect = env'.dialect)
    (σ σ' : List String) : ∀ fields fields' : List (String × Expr),
    Expr.fieldSkeletonsIn σ fields = Expr.fieldSkeletonsIn σ' fields' →
      (Expr.nodesOfFields fields).map env.place = (Expr.nodesOfFields fields').map env'.place →
        List.Forall₂ (fun f f' => f.1 = f'.1 ∧ Alike env env' σ σ' f.2 f'.2)
          (fieldMeanings env fields) (fieldMeanings env' fields')
  | [], [], _, _ => .nil
  | [], f' :: fields', hk, _ => by cases hk
  | f :: fields, [], hk, _ => by cases hk
  | (name, e) :: fields, (name', e') :: fields', hk, hp => by
    obtain ⟨hf, hfields⟩ := List.cons.inj hk
    obtain ⟨hname, he⟩ := Prod.mk.inj hf
    have hsplit := Expr.map_nodes_append (Expr.length_nodes he) hp
    exact .cons ⟨hname, meaning_alike hc hd σ σ' e e' he hsplit.1⟩
      (fieldMeanings_alike hc hd σ σ' fields fields' hfields hsplit.2)

end

end Meanings

end SequenceQuery
