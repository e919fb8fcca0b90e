import SequenceQuery.Proofs.Meanings

namespace SequenceQuery

variable {α β : Type}

def FailsAt (node : Expr) (x : Except Failure α) : Prop := ∀ f, x = .error f → f.node = node

namespace FailsAt

variable {node : Expr} {x : Except Failure α}

theorem ok (a : α) : FailsAt node (.ok a) := nofun

theorem error (cause : Cause) : FailsAt node (.error ⟨node, cause⟩ : Except Failure α) := by
  rintro f ⟨⟩
  rfl

theorem unsupported (reason : Unsupported) :
    FailsAt node (SequenceQuery.unsupported node reason : Except Failure α) := error _

theorem bind {f : α → Except Failure β} (h : FailsAt node x) (hf : ∀ a, FailsAt node (f a)) :
    FailsAt node (x >>= f) := by
  cases x with
  | error failure => exact fun f' h' => h f' (congrArg _ (Except.error.inj h'))
  | ok a => exact hf a

end FailsAt

section Checks

variable (b : Binding) (node : Expr)

theorem leaves_failsAt : FailsAt node (b.leaves node) := by
  rw [Binding.leaves]
  split
  · exact .ok _
  · exact .unsupported _

theorem scalars_failsAt : FailsAt node (b.scalars node) :=
  (leaves_failsAt b node).bind fun _ => .ok _

theorem columns_failsAt : FailsAt node (b.columns node) := by
  refine (leaves_failsAt b node).bind fun ls => ?_
  split
  · exact .unsupported _
  · exact .ok _

theorem asScalar_failsAt : FailsAt node (b.asScalar node) := by
  cases b with
  | scalar s => exact .ok s
  | _ => exact .unsupported _

theorem member_failsAt (name : String) : FailsAt node (b.member name node) := by
  cases b with
  | record label entity columnPrefix optional =>
    rw [Binding.member]
    split
    · exact .ok _
    · exact .error _
  | object fields =>
    rw [Binding.member]
    split
    · exact .ok _
    · exact .error _
  | group key element =>
    rw [Binding.member]
    split
    · exact .ok _
    · exact .error _
  | scalar s => exact .error _

theorem project_failsAt (rows : Rows) : FailsAt node (rows.project node) :=
  (columns_failsAt rows.row node).bind fun _ => .ok _

theorem mustPage_failsAt (env : Surroundings) : FailsAt node (env.mustPage node) := by
  rw [Surroundings.mustPage]
  split
  · exact .ok _
  · exact .error _

theorem argument_failsAt (args : List Meaning) (i : Nat) : FailsAt node (argument node args i) := by
  rw [argument]
  split
  · exact .ok _
  · exact .unsupported _

theorem lookUp_failsAt (scope : Scope) (name : String) : FailsAt node (lookUp scope name node) := by
  rw [lookUp]
  split
  · exact .ok _
  · exact .error _

end Checks

def FailsIn (ns : List Expr) (x : Build α) : Prop := ∀ p f, x.run p = .error f → f.node ∈ ns

namespace FailsIn

variable {ns : List Expr} {node : Expr} {x : Build α}

theorem pure (a : α) : FailsIn ns (pure a : Build α) := nofun

theorem bind {f : α → Build β} (h : FailsIn ns x) (hf : ∀ a, FailsIn ns (f a)) :
    FailsIn ns (x >>= f) := by
  intro p failure hrun
  rw [StateT.run_bind] at hrun
  cases hx : x.run p with
  | error failure' =>
    rw [hx] at hrun
    cases hrun
    exact h p failure hx
  | ok found =>
    rw [hx] at hrun
    exact hf found.1 found.2 failure hrun

theorem lift {x : Except Failure α} (h : FailsAt node x) (hnode : node ∈ ns) :
    FailsIn ns (liftM x : Build α) := by
  intro p failure hrun
  cases x with
  | error failure' =>
    cases hrun
    exact h failure rfl ▸ hnode
  | ok a => cases hrun

theorem throw (cause : Cause) (hnode : node ∈ ns) :
    FailsIn ns (throw ⟨node, cause⟩ : Build α) := by
  intro p failure hrun
  cases hrun
  exact hnode

theorem unsupported (reason : Unsupported) (hnode : node ∈ ns) :
    FailsIn ns (liftM (SequenceQuery.unsupported node reason : Except Failure α) : Build α) :=
  .lift (.unsupported reason) hnode

theorem refused (reason : Unsupported) (hnode : node ∈ ns) {f : α → Build β} : FailsIn ns
    (liftM (SequenceQuery.unsupported node reason : Except Failure α) >>= f) := by
  intro p failure hrun
  cases hrun
  exact hnode

theorem freshLabel : FailsIn ns freshLabel := nofun

theorem useSegment :
    FailsIn ns (modify fun p => { p with segmentUsed := true } : Build PUnit) := nofun

end FailsIn

/-- All that a meaning can be asked for fails at one of these nodes. -/
structure Meaning.FailsWithin (ns : List Expr) (m : Meaning) : Prop where
  node : m.node ∈ ns
  body : ∀ i params body, m.node = .lambda i params body → body ∈ ns
  asSequence : ∀ inRun scope, FailsIn ns (m.asSequence inRun scope)
  asBinding : ∀ scope, FailsIn ns (m.asBinding scope)
  apply : ∀ scope elements, FailsIn ns (m.apply scope elements)

section Functions

variable {env : Surroundings} {ns : List Expr} {node : Expr} {args : List Meaning} {m : Meaning}
  (scope : Scope)

theorem wrap_failsIn (rows : Rows) (hnode : node ∈ ns) : FailsIn ns (rows.wrap node) :=
  (FailsIn.lift (project_failsAt node rows) hnode).bind fun _ =>
    FailsIn.freshLabel.bind fun _ => .pure _

theorem wrapIf_failsIn (condition : Bool) (rows : Rows) (hnode : node ∈ ns) :
    FailsIn ns (rows.wrapIf condition node) := by
  cases condition with
  | true => exact wrap_failsIn rows hnode
  | false => exact .pure _

theorem forAggregate_failsIn (rows : Rows) (hnode : node ∈ ns) :
    FailsIn ns (rows.forAggregate node) := by
  rw [Rows.forAggregate]
  split
  · exact .refused _ hnode
  · exact (wrapIf_failsIn _ rows hnode).bind fun _ => .pure _

theorem withArgument_failsIn (hnode : node ∈ ns) (ha : ∀ m ∈ args, m.FailsWithin ns) (i : Nat)
    {f : Meaning → Build α} (hf : ∀ m : Meaning, m.FailsWithin ns → FailsIn ns (f m)) :
    FailsIn ns (liftM (argument node args i) >>= f) := by
  cases hm : argument node args i with
  | error failure =>
    intro p failure' hrun
    cases hrun
    exact argument_failsAt node args i failure hm ▸ hnode
  | ok m => exact hf m (ha m (mem_of_argument hm))

namespace Meaning

theorem FailsWithin.asScalar (hm : m.FailsWithin ns) : FailsIn ns (m.asScalar scope) :=
  (hm.asBinding scope).bind fun b => .lift (asScalar_failsAt b m.node) hm.node

theorem FailsWithin.applyScalar (hm : m.FailsWithin ns) (element : Binding) :
    FailsIn ns (m.applyScalar scope element) := by
  refine (hm.apply scope [element]).bind fun b => ?_
  split
  · next i params body heq => exact .lift (asScalar_failsAt b body) (hm.body i params body heq)
  · exact .lift (asScalar_failsAt b _) hm.node

theorem scalars_failsIn (ha : ∀ m ∈ args, m.FailsWithin ns) : FailsIn ns (scalars scope args) := by
  induction args with
  | nil => exact .pure _
  | cons m args ih =>
    obtain ⟨hm, hargs⟩ := List.forall_mem_cons.1 ha
    exact (hm.asScalar scope).bind fun _ => (ih hargs).bind fun _ => .pure _

theorem bindFields_failsIn {fields : List (String × Meaning)}
    (hf : ∀ f ∈ fields, f.2.FailsWithin ns) : FailsIn ns (bindFields scope fields) := by
  induction fields with
  | nil => exact .pure _
  | cons f fields ih =>
    obtain ⟨hm, hfields⟩ := List.forall_mem_cons.1 hf
    exact (hm.asBinding scope).bind fun _ => (ih hfields).bind fun _ => .pure _

end Meaning

theorem restrict_failsIn (hnode : node ∈ ns) (hm : m.FailsWithin ns) (rows : Rows) (negate : Bool) :
    FailsIn ns (restrict rows m negate node scope) := by
  rw [restrict]
  split
  · split
    · exact .refused _ hnode
    · exact (hm.applyScalar scope _).bind fun _ => .pure _
  · exact (wrapIf_failsIn _ rows hnode).bind fun _ => (hm.applyScalar scope _).bind fun _ => .pure _

theorem joinRows_failsIn (hnode : node ∈ ns) (ha : ∀ m ∈ args, m.FailsWithin ns) (kind : JoinKind) :
    FailsIn ns (joinRows kind node args scope) := by
  refine withArgument_failsIn hnode ha 0 fun outer houter => ?_
  refine (houter.asSequence _ _).bind fun outer => (wrapIf_failsIn _ _ hnode).bind fun outer => ?_
  refine withArgument_failsIn hnode ha 1 fun inner hinner => ?_
  refine (hinner.asSequence _ _).bind fun inner => (wrapIf_failsIn _ _ hnode).bind fun inner => ?_
  split
  · exact .unsupported _ hnode
  refine withArgument_failsIn hnode ha 2 fun outerKey houter => (houter.apply _ _).bind fun _ => ?_
  refine withArgument_failsIn hnode ha 3 fun innerKey hinner => (hinner.apply _ _).bind fun _ => ?_
  refine (FailsIn.lift (scalars_failsAt _ _) hnode).bind fun _ =>
    (FailsIn.lift (scalars_failsAt _ _) hnode).bind fun _ => ?_
  dsimp only
  split
  · exact .refused _ hnode
  exact withArgument_failsIn hnode ha 4 fun row hrow => (hrow.apply _ _).bind fun _ => .pure _

theorem orderRows_failsIn (hnode : node ∈ ns) (ha : ∀ m ∈ args, m.FailsWithin ns)
    (restart ascending : Bool) : FailsIn ns (orderRows restart ascending node args scope) := by
  refine withArgument_failsIn hnode ha 0 fun source hsource => ?_
  refine (hsource.asSequence _ _).bind fun _ => (wrapIf_failsIn _ _ hnode).bind fun _ => ?_
  refine withArgument_failsIn hnode ha 1 fun key hkey => (hkey.apply _ _).bind fun _ => ?_
  exact (FailsIn.lift (scalars_failsAt _ _) hnode).bind fun _ => .pure _

theorem callRows_failsIn (hnode : node ∈ ns) (ha : ∀ m ∈ args, m.FailsWithin ns) (op : Operator) :
    FailsIn ns (callRows env node op args scope) := by
  refine withArgument_failsIn hnode ha 0 fun source hsource => ?_
  have hpage : FailsIn ns (liftM (env.mustPage node) : Build Unit) :=
    .lift (mustPage_failsAt node env) hnode
  cases op with
  | filter =>
    refine (hsource.asSequence _ _).bind fun rows => ?_
    exact withArgument_failsIn hnode ha 1 fun m hm => restrict_failsIn scope hnode hm rows false
  | project =>
    refine (hsource.asSequence _ _).bind fun _ => (wrapIf_failsIn _ _ hnode).bind fun _ => ?_
    exact withArgument_failsIn hnode ha 1 fun m hm => (hm.apply _ _).bind fun _ => .pure _
  | orderBy | orderByDescending | thenBy | thenByDescending =>
    exact orderRows_failsIn scope hnode ha _ _
  | skip | take =>
    refine hpage.bind fun _ => (hsource.asSequence _ _).bind fun _ => ?_
    refine withArgument_failsIn hnode ha 1 fun m hm => (hm.asScalar scope).bind fun _ => ?_
    exact (wrapIf_failsIn _ _ hnode).bind fun _ => .pure _
  | segment =>
    refine hpage.bind fun _ => (hsource.asSequence _ _).bind fun _ => ?_
    refine withArgument_failsIn hnode ha 1 fun m hm => ?_
    split
    · exact .unsupported _ hm.node
    · exact (wrapIf_failsIn _ _ hnode).bind fun _ => .pure _
  | distinct =>
    refine (hsource.asSequence _ _).bind fun _ => (wrapIf_failsIn _ _ hnode).bind fun _ => ?_
    dsimp only
    split
    · exact .refused _ hnode
    · exact .pure _
  | groupBy =>
    refine (hsource.asSequence _ _).bind fun _ => (wrapIf_failsIn _ _ hnode).bind fun _ => ?_
    refine withArgument_failsIn hnode ha 1 fun m hm => (hm.apply _ _).bind fun key => ?_
    have hkeys : ∀ f : List Scalar → Rows, FailsIn ns (do
        let keys ← (key.scalars node : Except Failure (List Scalar))
        return f keys) := fun f =>
      (FailsIn.lift (scalars_failsAt key node) hnode).bind fun _ => .pure _
    split
    · next selector hselector =>
      have hselector := ha selector (List.mem_of_getElem? hselector)
      exact (hselector.apply _ _).bind fun _ => hkeys _
    · exact (FailsIn.pure _).bind fun _ => hkeys _
  | join | leftJoin => exact joinRows_failsIn scope hnode ha _
  | _ => exact .throw _ hnode

theorem markerRows_failsIn (hnode : node ∈ ns) (ha : ∀ m ∈ args, m.FailsWithin ns) (op : Operator) :
    FailsIn ns (markerRows env node op args scope) := by
  refine (FailsIn.lift (mustPage_failsAt node env) hnode).bind fun _ => ?_
  refine withArgument_failsIn hnode ha 0 fun m hm => (hm.asSequence _ _).bind fun _ => ?_
  exact (wrapIf_failsIn _ _ hnode).bind fun _ => FailsIn.useSegment.bind fun _ => .pure _

theorem sequenceOfCall_failsIn (hnode : node ∈ ns) (ha : ∀ m ∈ args, m.FailsWithin ns)
    (op : Operator) (inRun : Bool) : FailsIn ns (sequenceOfCall env node op args inRun scope) := by
  rw [sequenceOfCall]
  split
  · exact withArgument_failsIn hnode ha 0 fun m hm => hm.asSequence _ _
  · split
    · exact markerRows_failsIn scope hnode ha op
    · exact (callRows_failsIn scope hnode ha op).bind fun _ => .pure _

theorem filtered_failsIn (hnode : node ∈ ns) (ha : ∀ m ∈ args, m.FailsWithin ns)
    (hm : m.FailsWithin ns) (i : Nat) : FailsIn ns (filtered node m args[i]? scope) := by
  refine (hm.asSequence _ _).bind fun rows => ?_
  cases hpredicate : args[i]? with
  | none => exact .pure _
  | some predicate =>
    exact restrict_failsIn scope hnode (ha predicate (List.mem_of_getElem? hpredicate)) rows false

theorem selected_failsIn (hnode : node ∈ ns) (ha : ∀ m ∈ args, m.FailsWithin ns) (i : Nat)
    (b : Binding) : FailsIn ns (selected node args[i]? b scope) := by
  cases hselector : args[i]? with
  | none => exact .lift (asScalar_failsAt b node) hnode
  | some selector =>
    exact (ha selector (List.mem_of_getElem? hselector)).applyScalar scope b

theorem singleRow_failsIn (hnode : node ∈ ns) (ha : ∀ m ∈ args, m.FailsWithin ns)
    (nullable unique : Bool) : FailsIn ns (singleRow node args nullable unique scope) := by
  refine withArgument_failsIn hnode ha 0 fun m hm => ?_
  refine (filtered_failsIn scope hnode ha hm 1).bind fun _ =>
    (wrapIf_failsIn _ _ hnode).bind fun _ => ?_
  exact (FailsIn.lift (project_failsAt node _) hnode).bind fun _ => .pure _

theorem terminal_failsIn (hnode : node ∈ ns) (ha : ∀ m ∈ args, m.FailsWithin ns) (op : Operator) :
    FailsIn ns (terminal node op args scope) := by
  refine withArgument_failsIn hnode ha 0 fun source hsource => ?_
  have hfiltered := filtered_failsIn scope hnode ha hsource 1
  cases op with
  | first | firstOrDefault | single | singleOrDefault => exact singleRow_failsIn scope hnode ha _ _
  | count | longCount =>
    exact hfiltered.bind fun _ => (forAggregate_failsIn _ hnode).bind fun _ => .pure _
  | any => exact hfiltered.bind fun _ => .pure _
  | all =>
    refine (hsource.asSequence _ _).bind fun rows => ?_
    exact withArgument_failsIn hnode ha 1 fun m hm =>
      (restrict_failsIn scope hnode hm rows true).bind fun _ => .pure _
  | contains =>
    refine (hsource.asSequence _ _).bind fun rows => ?_
    split
    · exact withArgument_failsIn hnode ha 1 fun m hm => (hm.asScalar scope).bind fun _ => .pure _
    · exact .unsupported _ hnode
  | sum | min | max | average =>
    refine (hsource.asSequence _ _).bind fun _ => (forAggregate_failsIn _ hnode).bind fun _ => ?_
    exact (selected_failsIn scope hnode ha 1 _).bind fun _ => .pure _
  | _ => exact .throw _ hnode

theorem aggregateIn_failsIn (hnode : node ∈ ns) (ha : ∀ m ∈ args, m.FailsWithin ns) (op : Operator)
    (b : Binding) : FailsIn ns (aggregateIn node op args scope b) := by
  cases b with
  | group key element =>
    cases op with
    | count | longCount =>
      rw [aggregateIn]
      split
      · exact .pure _
      · next predicate hpredicate =>
        exact ((ha predicate (List.mem_of_getElem? hpredicate)).applyScalar scope _).bind
          fun _ => .pure _
    | sum | min | max | average =>
      exact (selected_failsIn scope hnode ha 0 element).bind fun _ => .pure _
    | _ => exact .throw _ hnode
  | _ => exact .pure _

theorem aggregateOfGroup_failsIn (hnode : node ∈ ns) (ha : ∀ m ∈ args, m.FailsWithin ns)
    (op : Operator) : FailsIn ns (aggregateOfGroup node op args scope) := by
  cases args with
  | nil => exact .pure _
  | cons source rest =>
    obtain ⟨hsource, hrest⟩ := List.forall_mem_cons.1 ha
    rw [aggregateOfGroup_cons node []]
    split
    · exact (hsource.asBinding scope).bind fun b => aggregateIn_failsIn scope hnode hrest op b
    · exact .pure _

theorem scalarOfCall_failsIn (hnode : node ∈ ns) (ha : ∀ m ∈ args, m.FailsWithin ns)
    (op : Operator) : FailsIn ns (scalarOfCall node op args scope) := by
  refine (aggregateOfGroup_failsIn scope hnode ha op).bind fun found => ?_
  cases found with
  | some s => exact .pure _
  | none =>
    dsimp only
    split
    · exact .refused _ hnode
    refine (terminal_failsIn scope hnode ha op).bind fun t => ?_
    split
    · exact .pure _
    · exact .unsupported _ hnode
    · exact .pure _
    · exact .pure _
    · exact .pure _

theorem scalarOfBinary_failsIn {left right : Meaning} (hl : left.FailsWithin ns)
    (hr : right.FailsWithin ns) (op : BinaryOp) : FailsIn ns (scalarOfBinary op left right scope) := by
  rw [scalarOfBinary]
  split
  · next operand negated htest =>
    have hoperand : operand.FailsWithin ns := by
      rcases nullTest?_operand htest with rfl | rfl
      · exact hl
      · exact hr
    exact (hoperand.asScalar scope).bind fun _ => .pure _
  · refine (hl.asScalar scope).bind fun _ => (hr.asScalar scope).bind fun _ => ?_
    split
    · exact .pure _
    · exact .pure _

theorem scalarOfFunction_failsIn (hnode : node ∈ ns) (ha : ∀ m ∈ args, m.FailsWithin ns)
    (name : String) : FailsIn ns (scalarOfFunction env node name args scope) := by
  rw [scalarOfFunction]
  split
  · refine withArgument_failsIn hnode ha 0 fun m hm => (hm.asScalar scope).bind fun _ => ?_
    exact withArgument_failsIn hnode ha 1 fun m hm => (hm.asScalar scope).bind fun _ => .pure _
  · refine (Meaning.scalars_failsIn scope ha).bind fun _ => ?_
    split
    · exact .pure _
    · dsimp only
      split
      · exact .pure _
      · exact (FailsIn.throw _ hnode).bind fun _ => .pure _

end Functions

namespace Meaning

variable {env : Surroundings} {ns : List Expr} {node : Expr}

theorem FailsWithin.ofScalar {scalar : Scope → Build Scalar} (hnode : node ∈ ns)
    (hlambda : ∀ i params body, node ≠ .lambda i params body)
    (h : ∀ scope, FailsIn ns (scalar scope)) : (ofScalar node scalar).FailsWithin ns where
  node := hnode
  body _ _ _ heq := absurd heq (hlambda _ _ _)
  asSequence _ _ := .unsupported _ hnode
  asBinding scope := (h scope).bind fun _ => .pure _
  apply _ _ := .unsupported _ hnode

theorem FailsWithin.ofBinding {reason : Unsupported} {binding : Scope → Build Binding}
    (hnode : node ∈ ns) (hlambda : ∀ i params body, node ≠ .lambda i params body)
    (h : ∀ scope, FailsIn ns (binding scope)) : (ofBinding node reason binding).FailsWithin ns where
  node := hnode
  body _ _ _ heq := absurd heq (hlambda _ _ _)
  asSequence _ _ := .unsupported _ hnode
  asBinding := h
  apply _ _ := .unsupported _ hnode

theorem FailsWithin.ofEntity {i : NodeId} {name : String} (hnode : .entity i name ∈ ns) :
    (ofEntity env (.entity i name) name).FailsWithin ns where
  node := hnode
  body := nofun
  asSequence _ _ := by
    rw [Meaning.ofEntity]
    dsimp only
    split
    · exact .throw _ hnode
    · exact FailsIn.freshLabel.bind fun _ => .pure _
  asBinding _ := .unsupported _ hnode
  apply _ _ := .unsupported _ hnode

theorem FailsWithin.ofLambda {i : NodeId} {params : List String} {body : Expr} {m : Meaning}
    (hnode : .lambda i params body ∈ ns) (hbody : body ∈ ns) (hm : m.FailsWithin ns) :
    (ofLambda (.lambda i params body) params m).FailsWithin ns where
  node := hnode
  body := by
    rintro _ _ _ ⟨⟩
    exact hbody
  asSequence _ _ := .unsupported _ hnode
  asBinding _ := .unsupported _ hnode
  apply _ _ := by
    rw [Meaning.ofLambda]
    dsimp only
    split
    · exact hm.asBinding _
    · exact .unsupported _ hnode

theorem FailsWithin.ofCall {i : NodeId} {op : Operator} {es : List Expr} {args : List Meaning}
    (hnode : .call i op es ∈ ns) (ha : ∀ m ∈ args, m.FailsWithin ns) :
    (ofCall env (.call i op es) op args).FailsWithin ns where
  node := hnode
  body := nofun
  asSequence inRun scope := sequenceOfCall_failsIn scope hnode ha op inRun
  asBinding scope := (scalarOfCall_failsIn scope hnode ha op).bind fun _ => .pure _
  apply _ _ := .unsupported _ hnode

theorem FailsWithin.ofConstant {i : NodeId} {value : Value} (hnode : .const i value ∈ ns) :
    (ofConstant env (.const i value) value).FailsWithin ns := by
  refine .ofScalar hnode nofun fun scope => ?_
  split
  · exact .pure _
  · split
    · exact .pure _
    · exact .unsupported _ hnode

end Meaning

section Meanings

open Meaning

variable (env : Surroundings) {ns : List Expr}

mutual

theorem meaning_failsWithin : ∀ e : Expr, e.nodes ⊆ ns → (e.meaning env).FailsWithin ns
  | .entity .., h => .ofEntity (h List.mem_cons_self)
  | .call _ _ args, h => by
    obtain ⟨hnode, hargs⟩ := List.cons_subset.1 h
    exact .ofCall hnode (meanings_failWithin args hargs)
  | .lambda _ _ body, h => by
    obtain ⟨hnode, hbody⟩ := List.cons_subset.1 h
    exact .ofLambda hnode (hbody body.mem_nodes) (meaning_failsWithin body hbody)
  | .param .., h => .ofBinding (h List.mem_cons_self) nofun fun scope =>
    .lift (lookUp_failsAt _ scope _) (h List.mem_cons_self)
  | .member _ target name, h => by
    obtain ⟨hnode, htarget⟩ := List.cons_subset.1 h
    have ht := meaning_failsWithin target htarget
    exact .ofBinding hnode nofun fun scope => (ht.asBinding scope).bind fun b =>
      .lift (member_failsAt b _ name) hnode
  | .const .., h => .ofConstant (h List.mem_cons_self)
  | .segment .., h => .ofBinding (h List.mem_cons_self) nofun fun _ =>
    .unsupported _ (h List.mem_cons_self)
  | .binary _ op left right, h => by
    obtain ⟨hnode, hoperands⟩ := List.cons_subset.1 h
    obtain ⟨hleft, hright⟩ := List.append_subset.1 hoperands
    have hl := meaning_failsWithin left hleft
    have hr := meaning_failsWithin right hright
    exact .ofScalar hnode nofun fun scope => scalarOfBinary_failsIn scope hl hr op
  | .unary _ op operand, h => by
    obtain ⟨hnode, hoperand⟩ := List.cons_subset.1 h
    have ho := meaning_failsWithin operand hoperand
    exact .ofScalar hnode nofun fun scope => (ho.asScalar scope).bind fun _ => .pure _
  | .function _ name args, h => by
    obtain ⟨hnode, hargs⟩ := List.cons_subset.1 h
    have ha := meanings_failWithin args hargs
    exact .ofScalar hnode nofun fun scope => scalarOfFunction_failsIn scope hnode ha name
  | .object _ fields, h => by
    obtain ⟨hnode, hfields⟩ := List.cons_subset.1 h
    have hf := fieldMeanings_failWithin fields hfields
    exact .ofBinding hnode nofun fun scope => (bindFields_failsIn scope hf).bind fun _ => .pure _
  | .conditional _ test ifTrue ifFalse, h => by
    obtain ⟨hnode, hparts⟩ := List.cons_subset.1 h
    obtain ⟨htest, hbranches⟩ := List.append_subset.1 hparts
    obtain ⟨htrue, hfalse⟩ := List.append_subset.1 hbranches
    have ht := meaning_failsWithin test htest
    have ha := meaning_failsWithin ifTrue htrue
    have hb := meaning_failsWithin ifFalse hfalse
    exact .ofScalar hnode nofun fun scope => (ht.asScalar scope).bind fun _ =>
      (ha.asScalar scope).bind fun _ => (hb.asScalar scope).bind fun _ => .pure _

theorem meanings_failWithin : ∀ es : List Expr, Expr.nodesOfList es ⊆ ns →
    ∀ m ∈ meanings env es, m.FailsWithin ns
  | [], _ => nofun
  | e :: es, h => by
    obtain ⟨he, hes⟩ := List.append_subset.1 h
    exact List.forall_mem_cons.2 ⟨meaning_failsWithin e he, meanings_failWithin es hes⟩

theorem fieldMeanings_failWithin : ∀ fields : List (String × Expr),
    Expr.nodesOfFields fields ⊆ ns → ∀ f ∈ fieldMeanings env fields, f.2.FailsWithin ns
  | [], _ => nofun
  | (_, e) :: fields, h => by
    obtain ⟨he, hfields⟩ := List.append_subset.1 h
    exact List.forall_mem_cons.2 ⟨meaning_failsWithin e he, fieldMeanings_failWithin fields hfields⟩

end

end Meanings

theorem atRoot_failsIn {env : Surroundings} (e : Expr) : FailsIn e.nodes (atRoot env e) := by
  have sequence : FailsIn e.nodes (sequenceAtRoot env e) := by
    have hm := meaning_failsWithin env e (List.Subset.refl _)
    refine (hm.asSequence false []).bind fun rows => ?_
    exact (FailsIn.lift (project_failsAt e rows) e.mem_nodes).bind fun _ => .pure _
  cases e with
  | call i op args =>
    rw [atRoot]
    split
    · have ha := meanings_failWithin env args (List.subset_cons_self (.call i op args) _)
      exact (terminal_failsIn [] List.mem_cons_self ha op).bind fun _ => .pure _
    · exact sequence
  | _ => exact sequence

end SequenceQuery
