import SequenceQuery.Proofs.SegmentCalls

namespace SequenceQuery

variable {used : Prop}

section Values

variable {env : Surroundings} {marker : Option NodeId} {e n : Expr} {es : List Expr}
  {scope : Scope} {name : String}

theorem scalars_show (ha : ∀ e ∈ es, (e.meaning env).Retains env.marker e)
    (hused : ∀ e ∈ es, e.holds env.marker = true → used) (scope : Scope) :
    Carries used False (Meaning.scalars scope (meanings env es)) fun ss =>
      ss.any (fun s => s.expr.asks) = true := by
  induction es with
  | nil => exact .pure False.elim
  | cons e es ih =>
    have he := (ha e List.mem_cons_self).asScalar scope
    have hothers := ih (fun e' h => ha e' (List.mem_cons_of_mem _ h))
      fun e' h => hused e' (List.mem_cons_of_mem _ h)
    refine (he.within (hused e List.mem_cons_self)).bind fun s => ?_
    refine (hothers.part id).bind fun ss => .pure fun h' => ?_
    rw [List.any_cons, Bool.or_eq_true]
    exact h'.imp_right And.right

theorem bindFields_show {fields : List (String × Expr)}
    (ha : ∀ f ∈ fields, (f.2.meaning env).Retains env.marker f.2)
    (hused : ∀ f ∈ fields, f.2.holds env.marker = true → used) (scope : Scope) :
    Carries used False (Meaning.bindFields scope (fieldMeanings env fields)) fun bs =>
      Binding.fieldsAsk bs = true := by
  induction fields with
  | nil => exact .pure False.elim
  | cons f fields ih =>
    obtain ⟨name, e⟩ := f
    have he := (ha (name, e) List.mem_cons_self).asBinding scope
    have hothers := ih (fun f h => ha f (List.mem_cons_of_mem _ h))
      fun f h => hused f (List.mem_cons_of_mem _ h)
    refine (he.within (hused (name, e) List.mem_cons_self)).bind fun b => ?_
    refine (hothers.part id).bind fun bs => .pure fun h' => ?_
    rw [Binding.fieldsAsk, Bool.or_eq_true]
    exact h'.imp_right And.right

namespace Meaning

theorem retains_ofBinding {reason : Unsupported} {binding : Scope → Build Binding}
    (h : ∀ scope, Carries (e.holds marker = true) False (binding scope) fun b => b.asks = true) :
    (ofBinding e reason binding).Retains marker e where
  asSequence _ _ := .unsupported _ _
  asBinding := h
  apply _ _ := .unsupported _ _

theorem retains_ofScalar {scalar : Scope → Build Scalar}
    (h : ∀ scope, Carries (e.holds marker = true) False (scalar scope) fun s =>
      s.expr.asks = true) : (ofScalar e scalar).Retains marker e where
  asSequence _ _ := .unsupported _ _
  asBinding scope := (h scope).bind fun _ => .pure id
  apply _ _ := .unsupported _ _

theorem retains_ofEntity (env : Surroundings) (name : String) :
    (ofEntity env e name).Retains marker e where
  asSequence _ _ := by
    rw [ofEntity]
    dsimp only
    cases env.catalog.entity? name with
    | none => exact .throw _
    | some entity => exact Carries.freshLabel.bind fun _ => .pure False.elim
  asBinding _ := .unsupported _ _
  apply _ _ := .unsupported _ _

theorem retains_ofLambda {params : List String} {body : Expr}
    (h : (body.meaning env).Retains marker body)
    (hused : body.holds marker = true → e.holds marker = true) :
    (ofLambda e params (body.meaning env)).Retains marker e where
  asSequence _ _ := .unsupported _ _
  asBinding _ := .unsupported _ _
  apply scope elements := by
    show Carries _ _ (if _ then _ else _) _
    split
    · exact (h.asBinding _).within hused
    · exact .unsupported _ _

theorem retains_ofConstant (env : Surroundings) (value : Value) :
    (ofConstant env e value).Retains marker e := by
  refine retains_ofScalar fun scope => ?_
  split
  · exact .pure False.elim
  · cases env.slot? e.id with
    | none => exact .unsupported _ _
    | some slot => exact .pure False.elim

end Meaning

variable (hnode : ∀ e ∈ n.children, (e.meaning env).Retains env.marker e)

include hnode in
/-- A part of a value is built where other parts may have asked for the segment. -/
theorem part_shows {already : Prop} (he : e ∈ n.children) (scope : Scope) :
    Carries (n.holds env.marker = true) already ((e.meaning env).asScalar scope) fun s =>
      already ∨ s.expr.asks = true :=
  (((hnode e he).asScalar scope).part (Expr.holds_of_subset (Expr.nodes_of_child he))).imp
    fun _ h => h.imp_right And.right

include hnode in
theorem scalarOfBinary_shows {left right : Expr} (hchildren : n.children = [left, right])
    (op : BinaryOp) (scope : Scope) :
    Carries (n.holds env.marker = true) False
      (scalarOfBinary op (left.meaning env) (right.meaning env) scope) fun s =>
        s.expr.asks = true := by
  have hleft : left ∈ n.children := hchildren ▸ List.mem_cons_self
  have hright : right ∈ n.children := hchildren ▸ List.mem_cons_of_mem _ List.mem_cons_self
  rw [scalarOfBinary]
  cases htest : nullTest? op (left.meaning env) (right.meaning env) with
  | some test =>
    obtain ⟨m, negated⟩ := test
    have operand : Carries (n.holds env.marker = true) False (m.asScalar scope) fun s =>
        False ∨ s.expr.asks = true := by
      rcases nullTest?_operand htest with rfl | rfl
      · exact part_shows hnode hleft scope
      · exact part_shows hnode hright scope
    exact operand.bind fun s => .pure fun h' => (SqlExpr.asks_isNull _).trans (h'.resolve_left id)
  | none =>
    refine (part_shows hnode hleft scope).bind fun l => ?_
    refine (part_shows hnode hright scope).bind fun r => ?_
    have hboth : (False ∨ l.expr.asks = true) ∨ r.expr.asks = true →
        (l.expr.asks || r.expr.asks) = true := by
      rw [false_or, Bool.or_eq_true]
      exact id
    cases sqlBinary? op with
    | some sqlOp => exact .pure fun h' => (SqlExpr.asks_binary _).trans (hboth h')
    | none =>
      refine .pure fun h' => ?_
      simpa [SqlExpr.asks_coalesce] using hboth h'

theorem asks_searchPattern (name : String) (needle : SqlExpr) :
    ((searchPattern? name needle).getD needle).asks = needle.asks := by
  unfold searchPattern?
  split <;> simp [SqlExpr.asks, SqlExpr.pieces, Piece.asks, Piece.source?]

include hnode in
theorem scalarOfFunction_shows (hchildren : n.children = es) (name : String) (scope : Scope) :
    Carries (n.holds env.marker = true) False
      (scalarOfFunction env n name (meanings env es) scope) fun s => s.expr.asks = true := by
  subst hchildren
  rw [scalarOfFunction]
  split
  · refine .check fun m hm => ?_
    obtain ⟨text, htext, rfl⟩ := argument_meanings hm
    refine (part_shows hnode (List.mem_of_getElem? htext) scope).bind fun t => .check fun m hm => ?_
    obtain ⟨needle, hneedle, rfl⟩ := argument_meanings hm
    refine (part_shows hnode (List.mem_of_getElem? hneedle) scope).bind fun s => .pure fun h' => ?_
    rw [SqlExpr.asks_binary, asks_searchPattern, Bool.or_eq_true]
    exact h'.imp_left (Or.resolve_left · id)
  · refine (scalars_show hnode (fun e he => Expr.holds_of_subset (Expr.nodes_of_child he))
      scope).bind fun ss => ?_
    have named : ∀ name, ss.any (fun s => s.expr.asks) = true →
        (SqlExpr.function name (ss.map Scalar.expr)).asks = true := by
      intro name h
      rwa [SqlExpr.asks_function, List.any_map]
    cases env.dialect.functionName (Text.lower name) with
    | some mapped => exact .pure (named mapped)
    | none =>
      dsimp only
      split
      · exact .pure (named name)
      · exact .throw _

end Values

section Meanings

open Meaning

variable {env : Surroundings}

theorem retained_of_nodes {i : NodeId} {op : Operator} {args : List Expr}
    (h : ∀ n ∈ (Expr.call i op args).nodes, n.keepsParts env.marker = true)
    (ha : ∀ e ∈ args, (e.meaning env).Retains env.marker e) : Expr.Retained env i op args where
  args := ha
  keeps := h _ List.mem_cons_self
  argsKeep e he :=
    h e (Expr.nodes_of_child (n := .call i op args) he (e.nodes_eq ▸ List.mem_cons_self))

mutual

/-- A part of a query that takes away nothing the marker is used for retains what it uses. -/
theorem meaning_retains : ∀ e : Expr, (∀ n ∈ e.nodes, n.keepsParts env.marker = true) →
    (e.meaning env).Retains env.marker e
  | .entity _ name, _ => retains_ofEntity env name
  | .call i op args, h => by
    have hcall := retained_of_nodes h
      (meanings_retain args fun e he n hn => h n (Expr.nodes_of_child he hn))
    exact ⟨sequenceOfCall_shows hcall, fun scope => (scalarOfCall_shows hcall scope).bind fun _ =>
      .pure id, fun _ _ => .unsupported _ _⟩
  | .lambda _ params body, h =>
    retains_ofLambda (meaning_retains body fun n hn => h n (List.mem_cons_of_mem _ hn))
      (Expr.holds_of_subset (List.subset_cons_self _ _))
  | .param _ name, _ => retains_ofBinding fun _ => .lift fun _ _ => False.elim
  | .member i target name, h => by
    have ha := meaning_retains target fun n hn => h n (List.mem_cons_of_mem _ hn)
    have hidle : target.holds env.marker ≠ true := by
      simpa [Expr.keepsParts] using h (.member i target name) List.mem_cons_self
    exact retains_ofBinding fun scope => ((ha.asBinding scope).idle hidle).bind fun _ =>
      .lift fun _ _ => False.elim
  | .const _ value, _ => retains_ofConstant env value
  | .segment .., _ => retains_ofBinding fun _ => .unsupported _ _
  | .binary i op left right, h => by
    have hleft := meaning_retains left fun n hn =>
      h n (List.mem_cons_of_mem _ (List.mem_append_left _ hn))
    have hright := meaning_retains right fun n hn =>
      h n (List.mem_cons_of_mem _ (List.mem_append_right _ hn))
    exact retains_ofScalar (scalarOfBinary_shows (n := .binary i op left right)
      (List.forall_mem_cons.2 ⟨hleft, List.forall_mem_singleton.2 hright⟩) rfl op)
  | .unary i op operand, h => by
    have ha := meaning_retains operand fun n hn => h n (List.mem_cons_of_mem _ hn)
    exact retains_ofScalar fun scope => (part_shows (n := .unary i op operand)
      (List.forall_mem_singleton.2 ha) List.mem_cons_self scope).bind fun s => .pure fun h' =>
        (SqlExpr.asks_unary _).trans (h'.resolve_left id)
  | .function i name args, h => by
    have ha := meanings_retain args fun e he n hn =>
      h n (Expr.nodes_of_child (n := .function i name args) he hn)
    exact retains_ofScalar (scalarOfFunction_shows (n := .function i name args) ha rfl name)
  | .object i fields, h => by
    have hchild : ∀ f ∈ fields, f.2.nodes ⊆ (Expr.object i fields).nodes := fun f hf =>
      Expr.nodes_of_child (List.mem_map_of_mem hf)
    have ha := fieldMeanings_retain fields fun f hf n hn => h n (hchild f hf hn)
    exact retains_ofBinding fun scope => (bindFields_show ha (fun f hf =>
      Expr.holds_of_subset (hchild f hf)) scope).bind fun _ => .pure id
  | .conditional i test ifTrue ifFalse, h => by
    have htest := meaning_retains test fun n hn =>
      h n (List.mem_cons_of_mem _ (List.mem_append_left _ hn))
    have htrue := meaning_retains ifTrue fun n hn => h n (List.mem_cons_of_mem _
      (List.mem_append_right _ (List.mem_append_left _ hn)))
    have hfalse := meaning_retains ifFalse fun n hn => h n (List.mem_cons_of_mem _
      (List.mem_append_right _ (List.mem_append_right _ hn)))
    have ha : ∀ e ∈ (Expr.conditional i test ifTrue ifFalse).children,
        (e.meaning env).Retains env.marker e := List.forall_mem_cons.2 ⟨htest,
          List.forall_mem_cons.2 ⟨htrue, List.forall_mem_singleton.2 hfalse⟩⟩
    refine retains_ofScalar fun scope => ?_
    refine (part_shows ha List.mem_cons_self scope).bind fun t => ?_
    refine (part_shows ha (.tail _ (.head _)) scope).bind fun a => ?_
    refine (part_shows ha (.tail _ (.tail _ (.head _))) scope).bind fun b => .pure fun h' => ?_
    rw [SqlExpr.asks_cases, Option.any_some]
    simpa [or_assoc] using h'

theorem meanings_retain : ∀ es : List Expr,
    (∀ e ∈ es, ∀ n ∈ e.nodes, n.keepsParts env.marker = true) →
      ∀ e ∈ es, (e.meaning env).Retains env.marker e
  | [], _ => nofun
  | e :: es, h => List.forall_mem_cons.2 ⟨meaning_retains e (h e List.mem_cons_self),
      meanings_retain es fun e' he => h e' (List.mem_cons_of_mem _ he)⟩

theorem fieldMeanings_retain : ∀ fields : List (String × Expr),
    (∀ f ∈ fields, ∀ n ∈ f.2.nodes, n.keepsParts env.marker = true) →
      ∀ f ∈ fields, (f.2.meaning env).Retains env.marker f.2
  | [], _ => nofun
  | (_, e) :: fields, h => List.forall_mem_cons.2 ⟨meaning_retains e (h _ List.mem_cons_self),
      fieldMeanings_retain fields fun f hf => h f (List.mem_cons_of_mem _ hf)⟩

end

variable {e : Expr}

theorem sequenceAtRoot_shows (h : (e.meaning env).Retains env.marker e) :
    Carries (e.holds env.marker = true) False (sequenceAtRoot env e) fun found =>
      found.1.asks = true :=
  (h.asSequence false []).bind fun _ => .check fun _ hs => .pure fun hrows =>
    Rows.asks_project hs hrows

theorem Terminal.asks_atRoot {t : Terminal} (h : t.asks = true) (node : Expr) :
    (t.atRoot env node).1.asks = true := by
  cases t with
  | single select row nullable unique => exact h
  | scalar select nullable => exact h
  | exist select negated =>
    have hexist := (SqlExpr.asks_exist select negated).trans h
    show (existence env select negated node).asks = true
    rw [existence]
    split
    · exact Select.asks_ofItem hexist _
    · refine Select.asks_ofItem ?_ _
      rw [SqlExpr.asks_cases, hexist]
      rfl
  | isIn value select =>
    have hin := (SqlExpr.asks_isIn select false).trans h
    refine Select.asks_ofItem ?_ _
    rw [SqlExpr.asks_coalesce, List.any_cons, hin]
    rfl

/-- The statement at the root asks for a segment that was used. -/
theorem atRoot_shows (h : ∀ n ∈ e.nodes, n.keepsParts env.marker = true) :
    Carries (e.holds env.marker = true) False (atRoot env e) fun found => found.1.asks = true := by
  have sequence := sequenceAtRoot_shows (meaning_retains e h)
  cases e with
  | call i op args =>
    rw [atRoot]
    split
    · have hcall := retained_of_nodes h
        (meanings_retain args fun e he n hn => h n (Expr.nodes_of_child he hn))
      exact (terminal_shows hcall []).bind fun t => .pure fun ht => Terminal.asks_atRoot ht _
    · exact sequence
  | _ => exact sequence

end Meanings

end SequenceQuery
