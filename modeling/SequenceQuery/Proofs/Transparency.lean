import SequenceQuery.Proofs.Forms
import SequenceQuery.Proofs.History

namespace SequenceQuery

/-- Neither where the parts of a statement come from nor the values supplied change the text of its
command or the sources of the parameters. -/
def Dialect.WritesNoValues (d : Dialect) : Prop :=
  ∀ (options : RenderOptions) (a a' : Arguments) (s s' : Select), a.SameSupply a' →
    s.bare = s'.bare → (d.render options a s).map CommandTemplate.ofRendered =
      (d.render options a' s').map CommandTemplate.ofRendered

theorem Postgres.dialect_writesNoValues (passthroughFunctions : Bool) :
    (dialect passthroughFunctions).WritesNoValues :=
  fun options _ _ _ _ ha hs => render_sameSupply ha options hs

namespace Setting

def uncached (s : Setting) : Setting := { s with cache := { s.cache with enabled := false } }

theorem ofForm_eq {form form' : Form} (h : form.Same form')
    (render render' : Form → Except DialectError RenderedCommand)
    (hr : (render form).map CommandTemplate.ofRendered =
      (render' form').map CommandTemplate.ofRendered) (options : PlanOptions) :
    match Plan.ofForm form render options, Plan.ofForm form' render' options with
    | .ok plan, .ok plan' => plan = plan'
    | .error x, .error x' => x.cause = x'.cause
    | _, _ => False := by
  rw [Plan.ofForm, Plan.ofForm]
  cases hf : render form <;> cases hf' : render' form' <;> rw [hf, hf'] at hr
  case ok.ok rendered rendered' =>
    have htemplate : CommandTemplate.ofRendered rendered = .ofRendered rendered' := Except.ok.inj hr
    simp only [Plan.ofRendered, htemplate, h.shape, h.hasSegment]
  case error.error => exact congrArg Cause.rejected (Except.error.inj hr)
  all_goals cases hr

/-- Queries of one fingerprint and one layout have one plan, or none for the same cause. -/
theorem planOf_eq {s : Setting} (hd : s.dialect.WritesNoValues) {e e' : Expr}
    (hf : Fingerprint.ofExpr e.core = .ofExpr e'.core) (hl : e.core.layout = e'.core.layout)
    (mode : PlanMode) :
    match s.planOf e mode, s.planOf e' mode with
    | .ok plan, .ok plan' => plan = plan'
    | .error x, .error x' => x.cause = x'.cause
    | _, _ => False := by
  have hk := Expr.skeleton_eq_of_shape (congrArg Fingerprint.shape hf)
  have same := Form.ofExpr_sameOutcome s.catalog s.dialect hk hl
  rw [planOf, planOf, compile, compile]
  revert same
  cases Form.ofExpr s.catalog s.dialect e.core <;>
    cases Form.ofExpr s.catalog s.dialect e'.core <;> rintro (⟨same⟩ | ⟨same⟩)
  · exact same
  · rename_i form form'
    have supply : (ownArguments e.core form).SameSupply (ownArguments e'.core form') :=
      ⟨Expr.length_constants hk, same.hasSegment⟩
    exact ofForm_eq same (fun f => s.dialect.render s.options (ownArguments e.core f) f.select)
      (fun f => s.dialect.render s.options (ownArguments e'.core f) f.select)
      (hd s.options _ _ _ _ supply same.select) (.ofMode mode s.noTracking)

def outcome (s : Setting) (e₀ e : Expr) (mode : PlanMode) : Option Cause × List Command :=
  match s.planOf e₀ mode with
  | .error x => (some x.cause, [])
  | .ok plan =>
    match plan.prepare (Provider.callOf (.ofTypes plan.callForm.argumentKinds) e .never) with
    | .error _ => (none, [])
    | .ok command => (none, [command])

end Setting

def Ran.outcome {α : Type} (r : Ran (Except QueryError α)) : Option Cause × List Command :=
  (match r.result with
    | .error (.form x) => some x.cause
    | _ => none, r.sent)

namespace Provider

variable {s : Setting} {bound : Nat} {kept : List (PlanKey × Expr)} {p q : Provider}

/-- In every mode the two providers send the same commands for a query that is not cancelled, and
have no plan for it for the same cause. -/
structure SendsAlike (p q : Provider) (e : Expr) : Prop where
  execute : ∀ connection,
    (p.execute e connection).1.outcome = (q.execute e connection).1.outcome
  executeAsync : ∀ connection, (p.executeAsync e connection .never).1.outcome =
    (q.executeAsync e connection .never).1.outcome
  stream : ∀ {α : Type} (m : EntityReader α) connection,
    (p.stream e connection .never m).1.outcome = (q.stream e connection .never m).1.outcome

/-- Nothing that a run of the query gives back tells the two providers apart. -/
structure RunsAlike (p q : Provider) (e : Expr) : Prop where
  execute : ∀ connection, (p.execute e connection).1 = (q.execute e connection).1
  executeAsync : ∀ connection cancellation,
    (p.executeAsync e connection cancellation).1 = (q.executeAsync e connection cancellation).1
  stream : ∀ {α : Type} (m : EntityReader α) connection cancellation,
    (p.stream e connection cancellation m).1 = (q.stream e connection cancellation m).1

theorem runPlan_fst {α : Type} (p : Provider) (e : Expr) (mode : PlanMode)
    (run : KeptPlan → Ran (Except QueryError α)) :
    (p.runPlan e mode run).1 = runFound run (p.plan e mode).1 := rfl

theorem resultOf_ne_form (shape : ResultShape) (rows : List Row) (x : FormError) :
    shape.resultOf rows ≠ .error (.form x) := by
  cases shape with
  | sequence => nofun
  | single nullable unique =>
    rcases rows with _ | ⟨_, _ | ⟨_, _⟩⟩
    · cases nullable <;> nofun
    · nofun
    · cases unique <;> nofun
  | scalar nullable =>
    have choice : ∀ cell : Cell, (if !cell.isNull then .ok (.scalar cell)
        else if nullable then .ok .null else .error .noElements : Except QueryError QueryResult) ≠
          .error (.form x) := by
      intro cell
      split
      · simp
      · split <;> simp
    exact choice _

theorem outcome_of_ne_form {α : Type} {r : Ran (Except QueryError α)}
    (h : ∀ x, r.result ≠ .error (.form x)) : r.outcome = (none, r.sent) := by
  rw [Ran.outcome]
  split
  · rename_i x hx
    exact absurd hx (h x)
  · rfl

theorem fetch_outcome (plan : Plan) (connection : Connection) (command : Command) :
    (plan.fetch connection command).outcome = (none, [command]) := by
  rw [Plan.fetch]
  cases connection.fetchAll with
  | error x => rfl
  | ok rows => exact outcome_of_ne_form (resultOf_ne_form plan.shape rows)

theorem prepare_ne_form (plan : Plan) (i : PlanCall) {x : QueryError}
    (h : plan.prepare i = .error x) : ∀ y, x ≠ .form y := by
  rw [Plan.prepare] at h
  split at h
  · cases hb : plan.command.bind i.arguments <;> rw [hb] at h <;> cases h
    nofun
  · cases h
    nofun

/-- A plan looked up is run with the values of the query at hand. -/
theorem Keeps.runPlan_outcome {α : Type} (h : p.Keeps s bound kept) (e : Expr) (mode : PlanMode)
    (run : KeptPlan → Ran (Except QueryError α))
    (hrun : ∀ plan serial,
      (run ⟨plan, .ofTypes plan.callForm.argumentKinds, serial⟩).outcome =
        match plan.prepare (callOf (.ofTypes plan.callForm.argumentKinds) e .never) with
        | .error _ => (none, [])
        | .ok command => (none, [command])) :
    (p.runPlan e mode run).1.outcome =
      s.outcome ((kept.lookup (s.keyOf e mode)).getD e) e mode := by
  have hplan := h.plan e mode
  rw [runPlan_fst, Setting.outcome]
  revert hplan
  cases s.planOf ((kept.lookup (s.keyOf e mode)).getD e) mode with
  | error x =>
    intro hplan
    rw [hplan]
    rfl
  | ok plan =>
    rintro ⟨serial, hplan⟩
    rw [hplan]
    exact hrun plan serial

theorem run_outcome (plan : Plan) {i : PlanCall} (h : i.cancels = .never)
    (connection : Connection) : (plan.run i connection).outcome =
      match plan.prepare i with
      | .error _ => (none, [])
      | .ok command => (none, [command]) := by
  rw [Plan.run, h]
  cases hp : plan.prepare i with
  | error x =>
    refine outcome_of_ne_form fun y hy => prepare_ne_form plan i hp y (Except.error.inj hy)
  | ok command => exact fetch_outcome plan connection command

theorem runAsync_eq_run (plan : Plan) {i : PlanCall} (h : i.cancels = .never)
    (connection : Connection) : plan.runAsync i connection = plan.run i connection := by
  rw [Plan.runAsync, Plan.run, h]
  rfl

theorem stream_sent (plan : Plan) {i : PlanCall} (h : i.cancels = .never)
    (connection : Connection) : (plan.stream i connection).sent =
      match plan.prepare i with
      | .error _ => []
      | .ok command => [command] := by
  rw [Plan.stream, h]
  cases plan.prepare i with
  | error x => rfl
  | ok command => cases connection.failure <;> simp [Cancellation.firedAt]

theorem callOf_cancels (signature : Signature) (e : Expr) :
    (callOf signature e .never).cancels = .never := by
  rw [callOf, PlanCall.cancels]
  cases signature.isAsync <;> rfl

/-- In every mode the commands sent are those of the plan of the query kept under the key. -/
theorem Keeps.outcome (h : p.Keeps s bound kept) (e : Expr) (connection : Connection) :
    (p.execute e connection).1.outcome =
        s.outcome ((kept.lookup (s.keyOf e .sync)).getD e) e .sync ∧
      (p.executeAsync e connection .never).1.outcome =
        s.outcome ((kept.lookup (s.keyOf e .async)).getD e) e .async ∧
      ∀ {α : Type} (m : EntityReader α), (p.stream e connection .never m).1.outcome =
        s.outcome ((kept.lookup (s.keyOf e .stream)).getD e) e .stream := by
  refine ⟨h.runPlan_outcome e .sync _ fun plan serial => ?_,
    h.runPlan_outcome e .async _ fun plan serial => ?_,
    fun m => h.runPlan_outcome e .stream _ fun plan serial => ?_⟩
  · exact run_outcome plan (callOf_cancels _ e) connection
  · rw [KeptPlan.executeAsync]
    split
    · rw [runAsync_eq_run plan (callOf_cancels _ e)]
      exact run_outcome plan (callOf_cancels _ e) connection
    · exact run_outcome plan (callOf_cancels _ e) connection
  · rw [KeptPlan.stream]
    refine (outcome_of_ne_form (by simp)).trans ?_
    dsimp only
    rw [stream_sent plan (callOf_cancels _ e) connection]
    cases plan.prepare (callOf (.ofTypes plan.callForm.argumentKinds) e .never) <;> rfl

def SamePlan (p q : Provider) (e : Expr) (mode : PlanMode) : Prop :=
  (∃ x, (p.plan e mode).1 = .error x ∧ (q.plan e mode).1 = .error x) ∨
    ∃ plan signature serial serial', (p.plan e mode).1 = .ok ⟨plan, signature, serial⟩ ∧
      (q.plan e mode).1 = .ok ⟨plan, signature, serial'⟩

theorem SamePlan.runPlan {α : Type} {e : Expr} {mode : PlanMode} (h : p.SamePlan q e mode)
    {run : KeptPlan → Ran (Except QueryError α)}
    (hrun : ∀ plan signature serial serial',
      run ⟨plan, signature, serial⟩ = run ⟨plan, signature, serial'⟩) :
    (p.runPlan e mode run).1 = (q.runPlan e mode run).1 := by
  rw [runPlan_fst, runPlan_fst]
  obtain ⟨x, hp, hq⟩ | ⟨plan, signature, serial, serial', hp, hq⟩ := h
  · rw [hp, hq]
  · rw [hp, hq]
    exact hrun plan signature serial serial'

theorem runsAlike_of_samePlan {e : Expr} (h : ∀ mode, p.SamePlan q e mode) : p.RunsAlike q e where
  execute _ := (h .sync).runPlan fun _ _ _ _ => rfl
  executeAsync _ _ := (h .async).runPlan fun _ _ _ _ => rfl
  stream _ _ _ := (h .stream).runPlan fun _ _ _ _ => rfl

theorem Keeps.samePlan (hp : p.Keeps s bound kept) (hq : q.Keeps s.uncached bound [])
    (hd : s.dialect.WritesNoValues) {e : Expr} {mode : PlanMode}
    (hl : ((kept.lookup (s.keyOf e mode)).getD e).core.layout = e.core.layout) :
    p.SamePlan q e mode := by
  have hplan := hp.plan e mode
  have hplan' : match s.planOf e mode with
    | .error x => (q.plan e mode).1 = .error (x.within e)
    | .ok plan => ∃ serial, (q.plan e mode).1 =
        .ok ⟨plan, .ofTypes plan.callForm.argumentKinds, serial⟩ := hq.plan e mode
  rcases Setting.lookup_kept hp.entries (s.keyOf e mode) with
    ⟨-, hnone⟩ | ⟨cached, e₀, -, hsome, hkept⟩
  · rw [hnone, Option.getD_none] at hplan
    revert hplan hplan'
    cases s.planOf e mode with
    | error x => exact fun h h' => .inl ⟨_, h, h'⟩
    | ok plan =>
      rintro ⟨serial, h⟩ ⟨serial', h'⟩
      exact .inr ⟨_, _, serial, serial', h, h'⟩
  · rw [hsome, Option.getD_some] at hplan hl
    have hkey : s.keyOf e mode = s.keyOf e₀ mode := hkept.keyOf
    have same := Setting.planOf_eq hd (congrArg PlanKey.fingerprint hkey).symm hl mode
    have hok : s.planOf e₀ mode = .ok cached.plan := hkept.plan
    rw [hok] at hplan same
    obtain ⟨serial, hplan⟩ := hplan
    revert same hplan'
    cases s.planOf e mode with
    | error x => exact fun _ h => h.elim
    | ok plan =>
      rintro ⟨serial', hplan'⟩ rfl
      exact .inr ⟨_, _, serial, serial', hplan, hplan'⟩

theorem uncached_keeps {map : PlanMap} (hmap : map.Keeps s.cache bound) :
    (ofSettingIn map s.uncached).Keeps s.uncached bound [] :=
  ofSettingIn_keeps s.uncached ⟨hmap.getOrInsert, hmap.noEviction, hmap.noExpiry⟩

variable {map : PlanMap} {history : List Call}

theorem runsAlike_of_layout (hs : s.cache.enabled = true) (hd : s.dialect.WritesNoValues)
    (hmap : map.Keeps s.cache bound) (hfit : (s.asked history).dedup.length ≤ bound) {e : Expr}
    (h : ∀ mode, (s.compiledFor history e mode).core.layout = e.core.layout) :
    ((ofSettingIn map s).after history).RunsAlike (ofSettingIn map s.uncached) e :=
  runsAlike_of_samePlan fun mode =>
    (after_keeps hs hmap history hfit).samePlan (uncached_keeps hmap) hd (h mode)

/-- After any history a provider sends for a query what the plan of the query kept under its key
sends with its values; this is what a new provider without a cache sends exactly if the two plans
come to the same command. Where both queries have one layout, as they have when no node is shared,
nothing that a run gives back tells the providers apart. -/
theorem after_runs_as_uncached (hs : s.cache.enabled = true) (hd : s.dialect.WritesNoValues)
    (hmap : map.Keeps s.cache bound) (history : List Call)
    (hfit : (s.asked history).dedup.length ≤ bound) (e : Expr) :
    (((ofSettingIn map s).after history).SendsAlike (ofSettingIn map s.uncached) e ↔
      ∀ mode, s.outcome (s.compiledFor history e mode) e mode = s.outcome e e mode) ∧
    ((∀ mode, (s.compiledFor history e mode).core.layout = e.core.layout) →
      ((ofSettingIn map s).after history).RunsAlike (ofSettingIn map s.uncached) e) := by
  have cached := after_keeps hs hmap history hfit
  have uncached := uncached_keeps hmap
  refine ⟨⟨fun h mode => ?_, fun h => ?_⟩, runsAlike_of_layout hs hd hmap hfit⟩
  · have hcached := cached.outcome e ⟨none, []⟩
    have huncached := uncached.outcome e ⟨none, []⟩
    cases mode with
    | sync => exact hcached.1.symm.trans ((h.execute _).trans huncached.1)
    | async => exact hcached.2.1.symm.trans ((h.executeAsync _).trans huncached.2.1)
    | stream =>
      exact (hcached.2.2 (.ofType .row)).symm.trans
        ((h.stream (.ofType .row) _).trans (huncached.2.2 (.ofType .row)))
  · refine ⟨fun connection => ?_, fun connection => ?_, fun m connection => ?_⟩
    · exact (cached.outcome e connection).1.trans
        ((h .sync).trans (uncached.outcome e connection).1.symm)
    · exact (cached.outcome e connection).2.1.trans
        ((h .async).trans (uncached.outcome e connection).2.1.symm)
    · exact ((cached.outcome e connection).2.2 m).trans
        ((h .stream).trans ((uncached.outcome e connection).2.2 m).symm)

/-- Where no query shares a node, a provider with a cache cannot be told from one without. -/
theorem runsAlike_of_unshared (hs : s.cache.enabled = true) (hd : s.dialect.WritesNoValues)
    (hmap : map.Keeps s.cache bound) (hfit : (s.asked history).dedup.length ≤ bound) {e : Expr}
    (he : e.core.Unshared)
    (hunshared : ∀ c ∈ history, ∀ asked ∈ c.asks, asked.1.core.Unshared) :
    ((ofSettingIn map s).after history).RunsAlike (ofSettingIn map s.uncached) e := by
  refine runsAlike_of_layout hs hd hmap hfit fun mode => ?_
  rw [Setting.compiledFor]
  cases hl : (s.keptAfter history).lookup (s.keyOf e mode) with
  | none => rfl
  | some e₀ =>
    obtain ⟨c, hc, asked, hasked, hkey, rfl⟩ := Setting.asked_of_lookup hl
    have hk := Expr.skeleton_eq_of_shape (congrArg (fun key => key.fingerprint.shape) hkey)
    exact Expr.layout_eq_of_skeleton (hunshared c hc asked hasked) he hk

def customers : Setting where
  dialect := Postgres.dialect false
  catalog := ⟨[⟨"Customer", "customers", none,
    [⟨"id", "id", .int, false, true⟩, ⟨"age", "age", .int, false, false⟩]⟩]⟩
  options := ⟨false, false⟩
  cache := ⟨true, 1024, "eq", none⟩

/-- The customers of an age or an id; with `i = j` both constants are one node. -/
def ageOrId (i j : NodeId) (age id : Int64) : Expr :=
  .call 0 .filter
    [.entity 1 "Customer",
      .lambda 2 ["c"]
        (.binary 3 .or (.binary 4 .equal (.member 5 (.param 6 "c") "age") (.const i (.int age)))
          (.binary 7 .equal (.member 8 (.param 9 "c") "id") (.const j (.int id))))]

theorem ageOrId_runs_as_uncached :
    ((ofSetting customers).after [.execute (ageOrId 10 11 5 7) ⟨none, []⟩]).RunsAlike
      (ofSetting customers.uncached) (ageOrId 20 21 8 9) := by
  have layout : ∀ mode, (customers.compiledFor [.execute (ageOrId 10 11 5 7) ⟨none, []⟩]
      (ageOrId 20 21 8 9) mode).core.layout = (ageOrId 20 21 8 9).core.layout := by
    intro mode
    cases mode <;> decide +kernel
  exact (after_runs_as_uncached rfl (Postgres.dialect_writesNoValues false)
    (PlanMap.keeps_whole _ 1) _ (by decide) _).2 layout

/-- A plan compiled for a query with one constant in two places sends the last constant of any
later query of its shape for both. -/
theorem ageOrId_not_as_uncached :
    ¬((ofSetting customers).after [.execute (ageOrId 10 10 5 5) ⟨none, []⟩]).SendsAlike
      (ofSetting customers.uncached) (ageOrId 10 11 5 7) := by
  intro h
  have cached : (((ofSetting customers).after [.execute (ageOrId 10 10 5 5) ⟨none, []⟩]).execute
      (ageOrId 10 11 5 7) ⟨none, []⟩).1.outcome = (none, [⟨"SELECT t0.id, t0.age FROM " ++
        "customers AS t0 WHERE t0.age = $1 OR t0.id = $1", [.int 7]⟩]) := by decide +kernel
  have uncached :
      ((ofSetting customers.uncached).execute (ageOrId 10 11 5 7) ⟨none, []⟩).1.outcome =
      (none, [⟨"SELECT t0.id, t0.age FROM customers AS t0 WHERE t0.age = $1 OR t0.id = $2",
        [.int 5, .int 7]⟩]) := by decide +kernel
  have hsame := h.execute ⟨none, []⟩
  rw [cached, uncached] at hsame
  exact absurd hsame (by decide)

end Provider

end SequenceQuery
