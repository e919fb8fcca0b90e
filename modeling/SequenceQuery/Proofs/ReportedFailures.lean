import SequenceQuery.Proofs.Failures
import SequenceQuery.Proofs.Transparency
import SequenceQuery.Provider.Callers

namespace SequenceQuery

variable {α : Type}

namespace Expr

def Reaches : Expr → Expr → Prop := Relation.ReflTransGen fun e child => child ∈ e.children

section

variable {motive : Expr → Prop}

mutual

/-- What a node takes over from its children holds of all nodes. -/
theorem forall_of_children (step : ∀ e : Expr, (∀ c ∈ e.children, motive c) → motive e) :
    ∀ e, motive e
  | .entity .. | .param .. | .const .. | .segment .. => step _ nofun
  | .call _ _ args | .function _ _ args => step _ (forall_of_children_list step args)
  | .lambda _ _ e | .member _ e _ | .unary _ _ e =>
    step _ (List.forall_mem_singleton.2 (forall_of_children step e))
  | .binary _ _ left right =>
    step _ (List.forall_mem_cons.2 ⟨forall_of_children step left, List.forall_mem_singleton.2
      (forall_of_children step right)⟩)
  | .object _ fields => step _ (forall_of_children_fields step fields)
  | .conditional _ test ifTrue ifFalse =>
    step _ (List.forall_mem_cons.2 ⟨forall_of_children step test, List.forall_mem_cons.2
      ⟨forall_of_children step ifTrue, List.forall_mem_singleton.2
        (forall_of_children step ifFalse)⟩⟩)

theorem forall_of_children_list (step : ∀ e : Expr, (∀ c ∈ e.children, motive c) → motive e) :
    ∀ es : List Expr, ∀ e ∈ es, motive e
  | [] => nofun
  | e :: es =>
    List.forall_mem_cons.2 ⟨forall_of_children step e, forall_of_children_list step es⟩

theorem forall_of_children_fields (step : ∀ e : Expr, (∀ c ∈ e.children, motive c) → motive e) :
    ∀ fields : List (String × Expr), ∀ e ∈ fields.map Prod.snd, motive e
  | [] => nofun
  | (_, e) :: fields =>
    List.forall_mem_cons.2 ⟨forall_of_children step e, forall_of_children_fields step fields⟩

end

end

theorem mem_nodesOfList {es : List Expr} {n : Expr} :
    n ∈ nodesOfList es ↔ ∃ e ∈ es, n ∈ e.nodes := by
  induction es with
  | nil => simp [nodesOfList]
  | cons e es ih => simp [nodesOfList, ih]

theorem mem_nodes_iff {e n : Expr} : n ∈ e.nodes ↔ e.Reaches n := by
  constructor
  · refine forall_of_children (motive := fun e => n ∈ e.nodes → e.Reaches n) (fun e ih h => ?_) e
    rw [nodes_eq, List.mem_cons, mem_nodesOfList] at h
    rcases h with rfl | ⟨child, hchild, hn⟩
    · exact .refl
    · exact .head hchild (ih child hchild hn)
  · intro h
    induction h using Relation.ReflTransGen.head_induction_on with
    | refl => exact n.mem_nodes
    | head hchild _ ih => exact nodes_of_child hchild ih

theorem reaches_core : ∀ e : Expr, e.Reaches e.core
  | .lambda _ [] body => .head (List.mem_singleton.2 rfl) (reaches_core body)
  | .lambda _ (_ :: _) _ => .refl
  | .entity .. | .call .. | .param .. | .member .. | .const .. | .segment .. | .binary ..
  | .unary .. | .function .. | .object .. | .conditional .. => .refl

end Expr

/-- The failure of a query that the caller passed is told as one of that query, at a node of it. -/
structure FormError.PointsInto (err : FormError) (e : Expr) : Prop where
  expression : err.expression = e
  node : e.Reaches err.node

namespace Form

variable {catalog : Catalog} {dialect : Dialect} {root : Expr}

theorem ofExpr_pointsInto {err : FormError} (h : ofExpr catalog dialect root = .error err) :
    err.PointsInto root := by
  rw [ofExpr] at h
  cases hrun : (atRoot (.ofExpr catalog dialect root) root).run ⟨0, false⟩ with
  | error failure =>
    rw [hrun] at h
    cases h
    exact ⟨rfl, Expr.mem_nodes_iff.1 (atRoot_failsIn root _ _ hrun)⟩
  | ok found =>
    rw [hrun] at h
    cases h

theorem origin_ofExpr {f : Form} (h : ofExpr catalog dialect root = .ok f) : f.origin = root := by
  rw [ofExpr] at h
  cases hrun : (atRoot (.ofExpr catalog dialect root) root).run ⟨0, false⟩ with
  | error failure =>
    rw [hrun] at h
    cases h
  | ok found =>
    rw [hrun] at h
    cases h
    rfl

end Form

theorem FormError.PointsInto.within {err : FormError} {e : Expr} (h : err.PointsInto e.core) :
    (err.within e).PointsInto e :=
  ⟨rfl, e.reaches_core.trans h.node⟩

theorem withinCaller_pointsInto {result : Except FormError α} {e : Expr} {err : FormError}
    (h : withinCaller e result = .error err)
    (hresult : ∀ err, result = .error err → err.PointsInto e.core) : err.PointsInto e := by
  cases result with
  | error err' =>
    cases h
    exact (hresult err' rfl).within
  | ok a => cases h

theorem Setting.compile_pointsInto {c : Setting} {root : Expr} {options : PlanOptions}
    {err : FormError} (h : (c.compile root options).1 = .error err) : err.PointsInto root := by
  rw [compile] at h
  cases hf : Form.ofExpr c.catalog c.dialect root with
  | error err' =>
    rw [hf] at h
    cases h
    exact Form.ofExpr_pointsInto hf
  | ok f =>
    rw [hf] at h
    dsimp only at h
    rw [Plan.ofForm] at h
    split at h
    · cases h
    · cases h
      exact ⟨Form.origin_ofExpr hf, Form.origin_ofExpr hf ▸ .refl⟩

/-- A look-up fails only as the compilation that it asks for. -/
theorem PlanStore.planFor_error {σ ε : Type} {c : PlanStore} {key : PlanKey} {state : σ}
    {compile : σ → Except ε (Plan × Signature) × σ} {err : ε}
    (h : (c.planFor key state compile).1 = .error err) : (compile state).1 = .error err := by
  rw [planFor] at h
  dsimp only at h
  split at h
  · cases h
  · cases hresult : (compile state).1 with
    | error err' =>
      simp only [hresult, compiled] at h
      exact congrArg _ (Except.error.inj h)
    | ok found =>
      simp only [hresult, compiled] at h
      cases h

namespace Provider

variable {p : Provider} {plan : Plan} {call : PlanCall} {connection : Connection} {e : Expr}
  {mode : PlanMode} {err : FormError}

theorem fetch_ne_form {command : Command} :
    (plan.fetch connection command).result ≠ .error (.form err) := by
  rw [Plan.fetch]
  split
  · exact resultOf_ne_form _ _ err
  · intro h
    cases h

theorem run_ne_form : (plan.run call connection).result ≠ .error (.form err) := by
  rw [Plan.run]
  split
  · next x h => exact fun heq => prepare_ne_form plan call h err (Except.error.inj heq)
  · split
    · intro h
      cases h
    · exact fetch_ne_form

theorem runAsync_ne_form : (plan.runAsync call connection).result ≠ .error (.form err) := by
  rw [Plan.runAsync]
  split
  · next x h => exact fun heq => prepare_ne_form plan call h err (Except.error.inj heq)
  · split
    · intro h
      cases h
    · exact fetch_ne_form

theorem takeRows_ne_form {cancellation : Cancellation} {received : Nat}
    {offers : List (Except ExecutionError Row)} :
    .error (.form err) ∉ (takeRows cancellation received offers).items := by
  induction offers generalizing received with
  | nil =>
    rw [takeRows]
    split <;> simp
  | cons offer offers ih =>
    cases offer <;> rw [takeRows] <;> split
    · simp
    · simp
    · simp
    · simpa using ih

theorem stream_ne_form : .error (.form err) ∉ (plan.stream call connection).result.items := by
  rw [Plan.stream]
  split
  · next x h =>
    intro hmem
    exact prepare_ne_form plan call h err (Except.error.inj (List.mem_singleton.1 hmem)).symm
  · split
    · simp
    · split
      · simp
      · exact takeRows_ne_form

theorem compileClassified_error {c : Setting} {root : Expr} {state : SignatureTable × Nat}
    (h : (compileClassified c root mode state).1 = .error err) :
    (c.compile root (.ofMode mode c.noTracking)).1 = .error err := by
  rw [compileClassified] at h
  cases hresult : (c.compile root (.ofMode mode c.noTracking)).1 with
  | error err' =>
    simp only [hresult] at h
    exact congrArg _ (Except.error.inj h)
  | ok plan =>
    simp only [hresult] at h
    cases h

theorem plan_within : (p.plan e mode).1 = withinCaller e (Prod.fst <$>
    (p.cache.planFor (p.setting.key p.cache.keyPrefix e.core mode) (p.signatures, p.renders)
      (compileClassified p.setting e.core mode)).1) := rfl

theorem plan_pointsInto (h : (p.plan e mode).1 = .error err) : err.PointsInto e := by
  rw [plan_within] at h
  refine withinCaller_pointsInto h fun err hresult => ?_
  cases hfound : (p.cache.planFor (p.setting.key p.cache.keyPrefix e.core mode)
      (p.signatures, p.renders) (compileClassified p.setting e.core mode)).1 with
  | error err' =>
    rw [hfound] at hresult
    cases hresult
    exact Setting.compile_pointsInto (compileClassified_error (PlanStore.planFor_error hfound))
  | ok found =>
    rw [hfound] at hresult
    cases hresult

theorem freshPlan_pointsInto {isAsync : Option Bool} (h : (p.freshPlan e isAsync).1 = .error err) :
    err.PointsInto e :=
  withinCaller_pointsInto h fun _ => Setting.compile_pointsInto

theorem commands_pointsInto {options : Option RenderOptions}
    (h : (p.commands e options).1 = .error err) : err.PointsInto e := by
  rw [commands] at h
  cases hf : Form.ofExpr p.setting.catalog p.setting.dialect e.core with
  | error err' =>
    rw [hf] at h
    cases h
    exact (Form.ofExpr_pointsInto hf).within
  | ok f =>
    rw [hf] at h
    dsimp only at h
    split at h
    · cases h
    · cases h
      exact ⟨rfl, e.reaches_core⟩

theorem mapItems_ne_form {reader : EntityReader α} {context : EntityContext} {s : Streamed Row}
    (h : .error (.form err) ∉ s.items) :
    .error (.form err) ∉ (mapItems reader context s).items := by
  intro hmem
  obtain ⟨item, hitem, heq⟩ := List.mem_map.1 hmem
  cases item with
  | error x =>
    cases heq
    exact h hitem
  | ok row =>
    dsimp only at heq
    cases hread : reader.read context row <;> rw [hread] at heq <;> cases heq

theorem execute_ne_form {cached : KeptPlan} :
    (cached.execute e connection).result ≠ .error (.form err) := run_ne_form

theorem executeAsync_ne_form {cached : KeptPlan} {cancellation : Cancellation} :
    (cached.executeAsync e connection cancellation).result ≠ .error (.form err) := by
  rw [KeptPlan.executeAsync]
  split
  · exact runAsync_ne_form
  · exact run_ne_form

theorem openStream_ne_form {cached : KeptPlan} {cancellation : Cancellation} {m : EntityReader α} :
    (cached.stream e connection cancellation m).result ≠ .error (.form err) := by
  simp [KeptPlan.stream]

def FailsAsFound {α : Type} (found : Except FormError KeptPlan)
    (ran : Ran (Except QueryError α)) : Prop :=
  ∀ err, (ran.result = .error (.form err) ↔ found = .error err) ∧ (found = .error err → ran.sent = [])

theorem runFound_failsAsFound (found : Except FormError KeptPlan)
    {run : KeptPlan → Ran (Except QueryError α)}
    (hrun : ∀ cached err, (run cached).result ≠ .error (.form err)) :
    FailsAsFound found (runFound run found) := by
  cases found with
  | error x => exact fun err => ⟨by simp [runFound], fun _ => rfl⟩
  | ok cached => exact fun err => ⟨by simpa [runFound] using hrun cached err, nofun⟩

theorem runFound_stream_ne_form {found : Except FormError KeptPlan} {cancellation : Cancellation}
    {m : EntityReader α} {streamed : Streamed α}
    (h : (runFound (·.stream e connection cancellation m) found).result = .ok streamed) :
    .error (.form err) ∉ streamed.items := by
  cases found with
  | error x => cases h
  | ok cached =>
    cases h
    exact mapItems_ne_form stream_ne_form

end Provider

namespace Callers

open Provider

/-- The caller of one query is told of a failure in the compilation of the other, which has its
shape. -/
structure Tells (caller compiled : Expr) (err : FormError) : Prop where
  expression : err.expression = caller
  node : compiled.Reaches err.node
  shape : Fingerprint.ofExpr compiled.core = .ofExpr caller.core

theorem tells_of_pointsInto {e : Expr} {err : FormError} (h : err.PointsInto e) : Tells e e err :=
  ⟨h.expression, h.node, rfl⟩

structure Flies (entry : PlanKey × Compiling) : Prop where
  caller : Fingerprint.ofExpr entry.2.caller.core = entry.1.fingerprint
  waiting : ∀ e ∈ entry.2.waiting, entry.1.fingerprint = .ofExpr e.core

structure Sound (c : Callers) : Prop where
  compiling : ∀ entry ∈ c.compiling, Flies entry
  replies : ∀ a ∈ c.replies, ∀ err, a.found = .error err → Tells a.caller a.compiled err

theorem flies_of_lookup {c : Callers} (h : c.Sound) {key : PlanKey} {flight : Compiling}
    (hl : c.compiling.lookup key = some flight) : Flies (key, flight) := by
  obtain ⟨before, behind, heq, -⟩ := List.lookup_eq_some_iff.1 hl
  exact h.compiling _ (heq ▸ List.mem_append_right _ List.mem_cons_self)

theorem asks_sound {c : Callers} (h : c.Sound) (e : Expr) (mode : PlanMode) :
    (c.asks e mode).Sound := by
  rw [asks]
  dsimp only
  split
  · refine ⟨h.compiling, fun a ha err herr => ?_⟩
    rcases List.mem_append.1 ha with ha | ha
    · exact h.replies a ha err herr
    · obtain rfl := List.mem_singleton.1 ha
      exact tells_of_pointsInto (plan_pointsInto herr)
  · split
    · exact ⟨List.forall_mem_cons.2 ⟨⟨rfl, List.forall_mem_nil _⟩, h.compiling⟩, h.replies⟩
    · next flight hl =>
      have hflight := flies_of_lookup h hl
      refine ⟨List.forall_mem_map.2 fun entry hentry => ?_, h.replies⟩
      split
      · refine ⟨hflight.caller, fun e' he' => ?_⟩
        rcases List.mem_append.1 he' with he' | he'
        · exact hflight.waiting e' he'
        · rw [List.mem_singleton.1 he']
          rfl
      · exact h.compiling entry hentry

/-- The one that compiled is told of its own query, and those that waited of the same node. -/
theorem settles_sound {c : Callers} (h : c.Sound) (key : PlanKey) : (c.settles key).Sound := by
  rw [settles]
  split
  · exact h
  · next flight hl =>
    have hflight := flies_of_lookup h hl
    refine ⟨fun entry hentry => h.compiling entry (List.mem_filter.1 hentry).1,
      fun a ha err herr => ?_⟩
    rcases List.mem_append.1 ha with ha | ha
    · exact h.replies a ha err herr
    · rcases List.mem_cons.1 ha with rfl | ha
      · exact tells_of_pointsInto (plan_pointsInto herr)
      · obtain ⟨e, he, rfl⟩ := List.mem_map.1 ha
        dsimp only at herr
        cases hfound : (c.provider.plan flight.caller key.mode).1 with
        | ok cached =>
          rw [hfound] at herr
          cases herr
        | error x =>
          rw [hfound] at herr
          cases herr
          exact ⟨rfl, (plan_pointsInto hfound).node, hflight.caller.trans (hflight.waiting e he)⟩

theorem step_sound {c : Callers} (h : c.Sound) (event : Event) : (c.step event).Sound := by
  cases event with
  | asks e mode => exact asks_sound h e mode
  | settles key => exact settles_sound h key
  | forgets => exact ⟨h.compiling, h.replies⟩

theorem run_sound (p : Provider) (events : List Event) : ((ofProvider p).run events).Sound := by
  have run : ∀ c : Callers, c.Sound → (c.run events).Sound := by
    induction events with
    | nil => exact fun _ h => h
    | cons event events ih => exact fun _ h => ih _ (step_sound h event)
  exact run _ ⟨List.forall_mem_nil _, List.forall_mem_nil _⟩

section

variable {p : Provider} {key : PlanKey} {e : Expr} {mode : PlanMode} {waiting : List Expr}

theorem run_cons (c : Callers) (event : Event) (events : List Event) :
    c.run (event :: events) = (c.step event).run events := rfl

theorem run_append (c : Callers) (events more : List Event) :
    c.run (events ++ more) = (c.run events).run more := List.foldl_append

theorem asks_compiling (hready : isReady p key = false)
    (hkey : p.setting.key p.cache.keyPrefix e.core mode = key) (first : Expr)
    (waiting : List Expr) :
    (⟨p, [(key, ⟨first, waiting⟩)], []⟩ : Callers).asks e mode =
      ⟨p, [(key, ⟨first, waiting ++ [e]⟩)], []⟩ := by
  simp [asks, hkey, hready]

theorem run_asks (hready : isReady p key = false) (first : Expr) (more : List Expr)
    (hkeys : ∀ e ∈ more, p.setting.key p.cache.keyPrefix e.core mode = key) :
    (⟨p, [(key, ⟨first, waiting⟩)], []⟩ : Callers).run (more.map (.asks · mode)) =
      ⟨p, [(key, ⟨first, waiting ++ more⟩)], []⟩ := by
  induction more generalizing waiting with
  | nil => rw [List.append_nil]; rfl
  | cons e more ih =>
    obtain ⟨hkey, hkeys⟩ := List.forall_mem_cons.1 hkeys
    have hstep := asks_compiling hready hkey first waiting
    rw [List.map_cons, run_cons, step, hstep]
    exact (ih hkeys).trans (by rw [List.append_assoc, List.singleton_append])

/-- Of those that ask for one plan at once the first is given what it compiles, and the others the
same: the plan, or the failure as one of their own. -/
theorem replies_run_asks (p : Provider) (key : PlanKey) (e : Expr) (waiting : List Expr)
    (mode : PlanMode) (hready : isReady p key = false)
    (hkeys : ∀ caller ∈ e :: waiting, p.setting.key p.cache.keyPrefix caller.core mode = key) :
    ((ofProvider p).run ((e :: waiting).map (.asks · mode) ++ [.settles key])).replies =
      ⟨e, none, (p.plan e mode).1⟩ :: waiting.map fun caller =>
        ⟨caller, some e, withinCaller caller (p.plan e mode).1⟩ := by
  obtain ⟨hkey, hkeys⟩ := List.forall_mem_cons.1 hkeys
  have hmode : key.mode = mode := hkey ▸ rfl
  have hfirst : (ofProvider p).asks e mode = ⟨p, [(key, ⟨e, []⟩)], []⟩ := by
    simp [ofProvider, asks, hkey, hready]
  have hasked : (ofProvider p).run ((e :: waiting).map (.asks · mode)) =
      ⟨p, [(key, ⟨e, waiting⟩)], []⟩ := by
    rw [List.map_cons, run_cons, step, hfirst]
    exact run_asks hready e waiting hkeys
  rw [run_append, hasked]
  simp [run, step, settles, hmode]

theorem replies_alone (p : Provider) (e : Expr) (mode : PlanMode) :
    ((ofProvider p).run [.asks e mode,
      .settles (p.setting.key p.cache.keyPrefix e.core mode)]).replies =
        [⟨e, none, (p.plan e mode).1⟩] := by
  cases hready : isReady p (p.setting.key p.cache.keyPrefix e.core mode) with
  | true => simp [run, step, ofProvider, asks, hready, settles]
  | false => exact replies_run_asks p _ e [] mode hready (by simp)

end

/-- Callers of one provider may ask for plans at the same time and wait for one another. A failure is
told to each as one of the query that it passed, and nothing is sent. The node at fault is one of the
query that was compiled: of the caller's own unless it waited for another's, which then has the same
shape. Past the cache nobody waits. -/
theorem failures_pointInto_compiled (p : Provider) (events : List Event) :
    let c := (ofProvider p).run events
    (∀ a ∈ c.replies,
      (∀ err, a.found = .error err →
        Tells a.caller a.compiled err ∧ (a.waitedFor = none → err.PointsInto a.caller)) ∧
      (∀ connection, FailsAsFound a.found (a.execute connection)) ∧
      (∀ connection cancellation, FailsAsFound a.found (a.executeAsync connection cancellation)) ∧
      ∀ (α : Type) connection cancellation (m : EntityReader α),
        FailsAsFound a.found (a.stream connection cancellation m) ∧
          ∀ streamed err, (a.stream connection cancellation m).result = .ok streamed →
            .error (.form err) ∉ streamed.items) ∧
    (∀ e options err, (c.provider.commands e options).1 = .error err → err.PointsInto e) ∧
    ∀ e isAsync err, (c.provider.freshPlan e isAsync).1 = .error err → err.PointsInto e := by
  refine ⟨fun a ha => ⟨fun err herr => ?_, fun connection => ?_, fun connection cancellation => ?_,
    fun α connection cancellation m => ⟨?_, fun streamed err => runFound_stream_ne_form⟩⟩,
    fun _ _ _ => commands_pointsInto, fun _ _ _ => freshPlan_pointsInto⟩
  · have htells := (run_sound p events).replies a ha err herr
    refine ⟨htells, fun hnone => ⟨htells.expression, ?_⟩⟩
    have hnode := htells.node
    rwa [Reply.compiled, hnone] at hnode
  · exact runFound_failsAsFound _ fun _ _ => execute_ne_form
  · exact runFound_failsAsFound _ fun _ _ => executeAsync_ne_form
  · exact runFound_failsAsFound _ fun _ _ => openStream_ne_form

/-- `() => Nobody.Count()`, where there is no such entity. -/
def countOfNobody (id : Nat) : Expr :=
  .lambda id [] (.call (id + 1) .count [.entity (id + 2) "Nobody"])

/-- Two callers of the same query, each of which has built its own. -/
def twoOfNobody : List Event :=
  [.asks (countOfNobody 0) .sync, .asks (countOfNobody 10) .sync,
    .settles (customers.keyOf (countOfNobody 0) .sync)]

theorem replies_twoOfNobody : ∃ err : FormError, err.node = .entity 2 "Nobody" ∧
    ((ofProvider (ofSetting customers)).run twoOfNobody).replies =
      [⟨countOfNobody 0, none, .error err⟩,
        ⟨countOfNobody 10, some (countOfNobody 0), .error (err.within (countOfNobody 10))⟩] := by
  obtain ⟨err, hplan, hnode⟩ : ∃ err,
      ((ofSetting customers).plan (countOfNobody 0) .sync).1 = .error err ∧
        err.node = .entity 2 "Nobody" := ⟨_, rfl, rfl⟩
  have hreplies := replies_run_asks (ofSetting customers) (customers.keyOf (countOfNobody 0) .sync)
    (countOfNobody 0) [countOfNobody 10] .sync rfl
    (List.forall_mem_cons.2 ⟨rfl, List.forall_mem_singleton.2 rfl⟩)
  rw [hplan] at hreplies
  exact ⟨err, hnode, hreplies⟩

/-- Both are told of a failure, each as one of its own query, at the node that the first had built. -/
theorem failures_pointInto_compiled_twoOfNobody : ∃ first second : Reply, ∃ err err' : FormError,
    ((ofProvider (ofSetting customers)).run twoOfNobody).replies = [first, second] ∧
      first.found = .error err ∧ err.PointsInto (countOfNobody 0) ∧
      second.found = .error err' ∧ Tells (countOfNobody 10) (countOfNobody 0) err' ∧
      (first.execute ⟨none, []⟩).sent = [] ∧ (second.execute ⟨none, []⟩).sent = [] := by
  obtain ⟨err, -, hreplies⟩ := replies_twoOfNobody
  obtain ⟨htold, -⟩ := failures_pointInto_compiled (ofSetting customers) twoOfNobody
  rw [hreplies] at htold
  obtain ⟨hfirst, hexecute, -⟩ := htold _ (.head _)
  obtain ⟨hsecond, hexecute', -⟩ := htold _ (.tail _ (.head _))
  exact ⟨_, _, err, _, hreplies, rfl, (hfirst err rfl).2 rfl, rfl, (hsecond _ rfl).1,
    (hexecute _ err).2 rfl, (hexecute' _ _).2 rfl⟩

/-- The node that the second is told of is not one of its own query. -/
theorem waiting_not_pointsInto :
    ∃ a ∈ ((ofProvider (ofSetting customers)).run twoOfNobody).replies, ∃ err,
      a.found = .error err ∧ ¬err.PointsInto a.caller := by
  obtain ⟨err, hnode, hreplies⟩ := replies_twoOfNobody
  refine ⟨⟨countOfNobody 10, some (countOfNobody 0), .error (err.within (countOfNobody 10))⟩,
    hreplies ▸ .tail _ (.head _), _, rfl, fun h => ?_⟩
  have hid : err.node.id ∈ (countOfNobody 10).nodes.map Expr.id :=
    List.mem_map_of_mem (Expr.mem_nodes_iff.2 h.node)
  rw [hnode] at hid
  exact absurd hid (by decide)

end Callers

end SequenceQuery
