import SequenceQuery.Proofs.DetectedForms
import SequenceQuery.Proofs.SegmentForms
import SequenceQuery.Proofs.Supplied
import SequenceQuery.Proofs.Transparency

namespace SequenceQuery

theorem mem_firstOccurrences_of_mem {α : Type} [DecidableEq α] {x : α} {xs : List α} (h : x ∈ xs) :
    x ∈ firstOccurrences xs := by
  induction xs with
  | nil => cases h
  | cons y xs ih =>
    rw [firstOccurrences]
    by_cases hxy : x = y
    · exact hxy ▸ List.mem_cons_self
    · have hx := ih ((List.mem_cons.1 h).resolve_left hxy)
      exact List.mem_cons_of_mem _ (List.mem_filter.2 ⟨hx, decide_eq_true hxy⟩)

namespace Postgres

variable {s : Select} {options : RenderOptions} {arguments : Arguments} {command : RenderedCommand}
  {sources : List Source} {parameters : List BoundParameter}

theorem mem_sourcesOf {source : Source} :
    source ∈ sourcesOf s.tokens ↔ .expr (.param source) ∈ s.pieces := by
  refine ⟨fun h => param_of_source (mem_firstOccurrences h), fun h => mem_firstOccurrences_of_mem ?_⟩
  have hdata : .placeholder source ∈ Token.data s.tokens := by
    rw [Select.data_tokens]
    exact List.mem_flatMap.2 ⟨_, h, List.mem_singleton.2 rfl⟩
  exact List.mem_filterMap.2 ⟨_, (List.mem_filter.1 hdata).1, rfl⟩

theorem asks_iff : s.asks = true ↔
    .segmentStart ∈ sourcesOf s.tokens ∨ .segmentLength ∈ sourcesOf s.tokens := by
  rw [mem_sourcesOf, mem_sourcesOf, Select.asks, List.any_eq_true]
  constructor
  · rintro ⟨piece, hpiece, h⟩
    rw [Piece.asks] at h
    cases hsource : piece.source? with
    | none =>
      rw [hsource] at h
      cases h
    | some source =>
      rw [hsource] at h
      rw [Piece.source?_eq_some.1 hsource] at hpiece
      cases source with
      | slot k => cases h
      | segmentStart => exact .inl hpiece
      | segmentLength => exact .inr hpiece
  · rintro (h | h)
    · exact ⟨_, h, rfl⟩
    · exact ⟨_, h, rfl⟩

theorem mapM_named_iff {name : Source → String} : (sources.mapM fun source => do
      return (⟨name source, source, ← arguments.resolve source⟩ : BoundParameter)) = .ok parameters ↔
    parameters.map BoundParameter.source = sources ∧
      ∀ p ∈ parameters, p.name = name p.source ∧ arguments.resolve p.source = .ok p.value := by
  induction sources generalizing parameters with
  | nil =>
    rw [List.map_eq_nil_iff]
    constructor
    · intro h
      cases h
      exact ⟨rfl, nofun⟩
    · rintro ⟨rfl, -⟩
      rfl
  | cons source sources ih =>
    rw [List.mapM_cons, List.map_eq_cons_iff]
    constructor
    · intro h
      obtain ⟨v, hv⟩ : ∃ v, arguments.resolve source = .ok v := by
        cases hv : arguments.resolve source with
        | error err =>
          rw [hv] at h
          cases h
        | ok v => exact ⟨v, rfl⟩
      cases hrest : sources.mapM fun source => (do
          return ⟨name source, source, ← arguments.resolve source⟩ :
            Except DialectError BoundParameter) with
      | error err =>
        rw [hv, hrest] at h
        cases h
      | ok rest =>
        rw [hv, hrest] at h
        cases h
        obtain ⟨hsources, hnames⟩ := ih.1 hrest
        exact ⟨⟨_, _, rfl, rfl, hsources⟩, List.forall_mem_cons.2 ⟨⟨rfl, hv⟩, hnames⟩⟩
    · rintro ⟨⟨⟨name', source', value⟩, rest, rfl, rfl, hsources⟩, hnames⟩
      obtain ⟨⟨hname, hv⟩, hnames⟩ := List.forall_mem_cons.1 hnames
      dsimp only at hname hv
      rw [ih.2 ⟨hsources, hnames⟩, hv, hname]
      rfl

theorem boundParameters_iff : boundParameters arguments sources = .ok parameters ↔
    parameters.map BoundParameter.source = sources ∧ ∀ p ∈ parameters,
      p.name = placeholder sources p.source ∧ arguments.resolve p.source = .ok p.value :=
  mapM_named_iff

theorem render_sources (h : render options arguments s = .ok command) :
    command.sources = sourcesOf s.tokens ∧
      ∀ source ∈ command.sources, ∃ v, arguments.resolve source = .ok v := by
  rw [render] at h
  cases hps : boundParameters arguments (sourcesOf s.tokens) with
  | error x =>
    rw [hps] at h
    cases h
  | ok ps =>
    rw [hps] at h
    cases h
    obtain ⟨hsources, hnames⟩ := boundParameters_iff.1 hps
    exact ⟨hsources, List.forall_mem_map.2 fun p hp => ⟨p.value, (hnames p hp).2⟩⟩

end Postgres

theorem Form.asks_of_hasSegment {catalog : Catalog} {dialect : Dialect} {e : Expr} {f : Form}
    (h : Form.ofExpr catalog dialect e = .ok f) (hkeeps : e.KeepsSegment)
    (hsegment : f.hasSegment = true) : f.select.asks = true := by
  obtain ⟨progress, hrun, heq, -⟩ := Form.ofExpr_ok h
  have hused : progress.segmentUsed = true := by
    rw [Form.hasSegment, heq] at hsegment
    by_contra hunused
    rw [if_neg hunused] at hsegment
    cases hsegment
  have hnodes : ∀ n ∈ e.nodes, n.keepsParts (Surroundings.ofExpr catalog dialect e).marker = true :=
    hkeeps
  have hshows := (atRoot_shows hnodes _ _ _ hrun).2.2 hused
  exact (hshows.resolve_left Bool.false_ne_true).2

namespace CallForm

variable (isAsync hasSegment : Bool)

theorem segment_mem : .segment ∈ (select isAsync hasSegment).argumentKinds ↔ hasSegment = true := by
  cases isAsync <;> cases hasSegment <;> decide

theorem cancellation_mem :
    .cancellation ∈ (select isAsync hasSegment).argumentKinds ↔ isAsync = true := by
  cases isAsync <;> cases hasSegment <;> decide

theorem ofTypes_select :
    Signature.ofTypes (select isAsync hasSegment).argumentKinds = ⟨isAsync, hasSegment⟩ := by
  cases isAsync <;> cases hasSegment <;> rfl

end CallForm

theorem PlanOptions.mode_ofMode (mode : PlanMode) (noTracking : Bool) :
    (ofMode mode noTracking).mode = mode := by
  cases mode <;> rfl

theorem PlanMode.isAsync_iff (mode : PlanMode) :
    mode.isAsync = true ↔ mode = .async ∨ mode = .stream := by
  cases mode <;> decide

theorem Plan.callForm_ofRendered (f : Form) (command : RenderedCommand) (mode : PlanMode)
    (noTracking : Bool) : (ofRendered f command (.ofMode mode noTracking)).callForm =
      .select mode.isAsync f.hasSegment := by
  rw [ofRendered, PlanOptions.mode_ofMode]

theorem Plan.sources_ofRendered (f : Form) (command : RenderedCommand) (options : PlanOptions) :
    (ofRendered f command options).command.sources = command.sources := rfl

theorem CommandTemplate.bind_ok {c : CommandTemplate} {arguments : Arguments}
    (h : ∀ source ∈ c.sources, ∃ v, arguments.resolve source = .ok v) :
    ∃ command, c.bind arguments = .ok command := by
  obtain ⟨values, hvalues⟩ := Postgres.mapM_ok h
  rw [bind, hvalues]
  exact ⟨_, rfl⟩

namespace Setting

variable {s : Setting} {e : Expr} {mode : PlanMode} {plan : Plan}

theorem planOf_ok (h : s.planOf e mode = .ok plan) : ∃ f command,
    Form.ofExpr s.catalog s.dialect e.core = .ok f ∧
      s.dialect.render s.options (ownArguments e.core f) f.select = .ok command ∧
      plan = .ofRendered f command (.ofMode mode s.noTracking) := by
  rw [planOf, compile] at h
  cases hf : Form.ofExpr s.catalog s.dialect e.core with
  | error x =>
    rw [hf] at h
    cases h
  | ok f =>
    simp only [hf, Plan.ofForm] at h
    cases hr : s.dialect.render s.options (ownArguments e.core f) f.select with
    | error x =>
      rw [hr] at h
      cases h
    | ok command =>
      rw [hr] at h
      cases h
      exact ⟨f, command, rfl, hr, rfl⟩

/-- The query whose plan a provider uses for `e`: without a cache its own. -/
def plannedFor (s : Setting) (history : List Call) (e : Expr) (mode : PlanMode) : Expr :=
  if s.cache.enabled then s.compiledFor history e mode else e

end Setting

namespace Provider

open Setting

variable {s : Setting} {bound : Nat} {kept : List (PlanKey × Expr)} {p : Provider} {e : Expr}
  {mode : PlanMode} {cached : KeptPlan}

theorem Keeps.after_plan_uncached (hs : s.cache.enabled = false) (h : p.Keeps s bound []) (e : Expr)
    (mode : PlanMode) : (p.plan e mode).2.Keeps s bound [] := by
  have hf := h.follows
  have hnone : p.cache.entries = none := by
    have hdisabled := hf.enabled.trans hs
    rwa [PlanStore.isEnabled, Option.isSome_eq_false_iff, Option.isNone_iff_eq_none] at hdisabled
  simp only [Provider.plan, h.setting, PlanStore.planFor, hf.refreshed, hnone, Option.bind_none,
    compileClassified]
  cases hc : s.compile e.core (.ofMode mode s.noTracking) with
  | mk result rendered =>
    cases result with
    | error x =>
      exact ⟨rfl, ⟨hf.map, hf.maxEntries, hf.ttlSeconds, hf.keyPrefix, hf.enabled⟩, h.signatures,
        h.entries⟩
    | ok plan =>
      have hknown := (SignatureTable.classify_eq h.signatures plan.callForm.argumentKinds).2
      refine ⟨rfl, ⟨hf.map, hf.maxEntries, hf.ttlSeconds, hf.keyPrefix, ?_⟩, hknown, ?_⟩
      · rw [PlanStore.compiled, PlanStore.isEnabled, hnone, hs]
        rfl
      · rw [PlanStore.compiled, hnone]
        exact .nil

theorem call_keeps_uncached (hs : s.cache.enabled = false) (h : p.Keeps s bound []) (c : Call) :
    (p.call c).Keeps s bound [] := by
  cases c with
  | plan e mode => exact h.after_plan_uncached hs e mode
  | execute e =>
    rw [call, execute, runPlan_snd]
    exact h.after_plan_uncached hs e .sync
  | executeAsync e =>
    rw [call, executeAsync, runPlan_snd]
    exact h.after_plan_uncached hs e .async
  | stream e =>
    rw [call, stream, runPlan_snd]
    exact h.after_plan_uncached hs e .stream
  | commands e options => exact commands_keeps h e options
  | freshPlan e isAsync => exact ⟨h.setting, h.follows, h.signatures, h.entries⟩
  | forgetPlans => exact forgetPlans_keeps h

theorem after_keeps_uncached (bound : Nat) (hs : s.cache.enabled = false) (history : List Call) :
    ((ofSetting s).after history).Keeps s bound [] := by
  have run : ∀ p : Provider, p.Keeps s bound [] → (p.after history).Keeps s bound [] := by
    induction history with
    | nil => exact fun _ h => h
    | cons c history ih => exact fun _ h => ih _ (call_keeps_uncached hs h c)
  exact run _ (ofSettingIn_keeps s (PlanMap.keeps_whole _ _))

theorem Keeps.plan_ok (h : p.Keeps s bound kept) (hplan : (p.plan e mode).1 = .ok cached) :
    Fingerprint.ofExpr ((kept.lookup (s.keyOf e mode)).getD e).core = .ofExpr e.core ∧
      ∃ plan serial, s.planOf ((kept.lookup (s.keyOf e mode)).getD e) mode = .ok plan ∧
        cached = ⟨plan, .ofTypes plan.callForm.argumentKinds, serial⟩ := by
  refine ⟨?_, ?_⟩
  · rcases lookup_kept h.entries (s.keyOf e mode) with ⟨-, hnone⟩ | ⟨_, e₀, -, hsome, hkept⟩
    · rw [hnone, Option.getD_none]
    · have hkey : s.keyOf e mode = s.keyOf e₀ mode := hkept.keyOf
      rw [hsome, Option.getD_some]
      exact (congrArg PlanKey.fingerprint hkey).symm
  · have hfound := h.plan e mode
    revert hfound
    cases s.planOf ((kept.lookup (s.keyOf e mode)).getD e) mode with
    | error x =>
      intro hfound
      rw [hplan] at hfound
      cases hfound
    | ok plan =>
      rintro ⟨serial, hfound⟩
      rw [hplan] at hfound
      exact ⟨plan, serial, rfl, Except.ok.inj hfound⟩

/-- A plan looked up was compiled for a query of the same shape. -/
theorem plan_ok (history : List Call)
    (h : (((ofSetting s).after history).plan e mode).1 = .ok cached) :
    Fingerprint.ofExpr (s.plannedFor history e mode).core = .ofExpr e.core ∧
      ∃ plan serial, s.planOf (s.plannedFor history e mode) mode = .ok plan ∧
        cached = ⟨plan, .ofTypes plan.callForm.argumentKinds, serial⟩ := by
  rw [plannedFor]
  cases hs : s.cache.enabled with
  | true => exact (after_keeps hs (PlanMap.keeps_whole _ _) history (Nat.le_refl _)).plan_ok h
  | false => exact (after_keeps_uncached 0 hs history).plan_ok h

theorem plan_of_form {f : Form} {command : RenderedCommand}
    (hf : Form.ofExpr s.catalog s.dialect e.core = .ok f) (mode : PlanMode)
    (hcommand : s.dialect.render s.options (ownArguments e.core f) f.select = .ok command) :
    ∃ cached, ((ofSetting s).plan e mode).1 = .ok cached ∧
      cached.plan = .ofRendered f command (.ofMode mode s.noTracking) := by
  have hplan : s.planOf e mode = .ok (.ofRendered f command (.ofMode mode s.noTracking)) := by
    simp only [planOf, compile, hf, Plan.ofForm, hcommand]
  have hfound := (ofSettingIn_keeps s (PlanMap.keeps_whole s.cache 0)).plan e mode
  rw [List.lookup_nil, Option.getD_none, hplan] at hfound
  obtain ⟨serial, hfound⟩ := hfound
  exact ⟨_, hfound, rfl⟩

/-- A plan takes a cancellation unless it is synchronous, and a segment if its command asks for one.
Called with what a provider brings for any query of its shape it comes to a command. It takes no
segment without asking for it as long as no operator replaces what the paging marker was used in, and
asks for it exactly if some of that is left in its statement. -/
theorem plan_signature {s : Setting} (hd : s.dialect.render = Postgres.render)
    (history : List Call) {e : Expr} {mode : PlanMode} {cached : KeptPlan}
    (h : (((ofSetting s).after history).plan e mode).1 = .ok cached) :
    (cached.signature.hasSegment = true ↔ .segment ∈ cached.plan.callForm.argumentKinds) ∧
      (cached.signature.isAsync = true ↔ .cancellation ∈ cached.plan.callForm.argumentKinds) ∧
      (.cancellation ∈ cached.plan.callForm.argumentKinds ↔ mode = .async ∨ mode = .stream) ∧
      (.segmentStart ∈ cached.plan.command.sources ∨
        .segmentLength ∈ cached.plan.command.sources →
          .segment ∈ cached.plan.callForm.argumentKinds) ∧
      ((s.plannedFor history e mode).core.KeepsSegment →
        .segment ∈ cached.plan.callForm.argumentKinds →
          .segmentStart ∈ cached.plan.command.sources ∨
            .segmentLength ∈ cached.plan.command.sources) ∧
      (.segmentStart ∈ cached.plan.command.sources ∨
        .segmentLength ∈ cached.plan.command.sources ↔
          (s.plannedFor history e mode).core.asksSegment s.catalog s.dialect = true) ∧
      ∀ e' cancellation, Fingerprint.ofExpr e'.core = .ofExpr e.core →
        (callOf cached.signature e' cancellation).callForm = cached.plan.callForm ∧
          ∃ command, cached.plan.command.bind
            (callOf cached.signature e' cancellation).arguments = .ok command := by
  obtain ⟨hsame, plan, serial, hplan, rfl⟩ := plan_ok history h
  obtain ⟨f, command, hf, hrender, rfl⟩ := planOf_ok hplan
  rw [hd] at hrender
  obtain ⟨hsources, hresolve⟩ := Postgres.render_sources hrender
  dsimp only
  rw [Plan.callForm_ofRendered, CallForm.ofTypes_select, CallForm.segment_mem,
    CallForm.cancellation_mem, Plan.sources_ofRendered, hsources, ← Postgres.asks_iff]
  refine ⟨Iff.rfl, Iff.rfl, mode.isAsync_iff, fun hasks => ?_,
    fun hkeeps => Form.asks_of_hasSegment hf hkeeps, ?_, fun e' cancellation hsame' => ⟨?_, ?_⟩⟩
  · rw [Postgres.asks_iff, ← hsources] at hasks
    have hsupplied : ∀ source, source.ofSegment = true → source ∈ command.sources →
        f.segment.isSome = true := by
      intro source hof hsource
      obtain ⟨v, hv⟩ := hresolve source hsource
      cases hsegment : f.segment with
      | some segment => rfl
      | none => cases source <;> simp_all [Arguments.resolve, ownArguments, Source.ofSegment]
    rcases hasks with hasks | hasks
    · exact hsupplied _ rfl hasks
    · exact hsupplied _ rfl hasks
  · exact Bool.eq_iff_iff.1 (Form.finds_ofExpr .segment hf)
  · rw [callOf, PlanCall.callForm]
    cases f.hasSegment <;> cases mode.isAsync <;> rfl
  · have hskeleton := Expr.skeleton_eq_of_shape
      (congrArg Fingerprint.shape (hsame.trans hsame'.symm))
    have hsupply : (ownArguments (s.plannedFor history e mode).core f).SameSupply
        (callOf ⟨mode.isAsync, f.hasSegment⟩ e' cancellation).arguments := by
      refine ⟨Expr.length_constants hskeleton, ?_⟩
      show f.hasSegment = Option.isSome (if f.hasSegment then _ else none)
      cases f.hasSegment <;> rfl
    refine CommandTemplate.bind_ok fun source hsource => ?_
    obtain ⟨v, hv⟩ := hresolve source hsource
    rcases hsupply.resolve source with ⟨_, v', -, hv'⟩ | ⟨x, hx, -⟩
    · exact ⟨v', hv'⟩
    · rw [hv] at hx
      cases hx

/-- `Customer.Select(c => new { age = c.age, n = Customer.Take(3).Count() })`. -/
def countedFirstThree : Expr :=
  .call 0 .project
    [.entity 1 "Customer",
      .lambda 2 ["c"] (.object 3 [("age", .member 4 (.param 5 "c") "age"),
        ("n", .call 6 .count [.call 7 .take [.entity 8 "Customer", .const 9 (.int 3)]])])]

theorem plan_signature_countedFirstThree : ∃ cached,
    ((ofSetting customers).plan countedFirstThree .async).1 = .ok cached ∧
      .segment ∈ cached.plan.callForm.argumentKinds ∧
      (.segmentStart ∈ cached.plan.command.sources ∨
        .segmentLength ∈ cached.plan.command.sources) ∧
      ∃ command, cached.plan.command.bind
        (callOf cached.signature countedFirstThree .never).arguments = .ok command := by
  obtain ⟨f, hf, hsegment, hsources⟩ : ∃ f,
      Form.ofExpr customers.catalog customers.dialect countedFirstThree = .ok f ∧
        f.segment = some (.bounded 0 3) ∧
        f.select.pieces.filterMap Piece.source? = [.segmentLength, .segmentStart] :=
    ⟨_, rfl, rfl, rfl⟩
  obtain ⟨command, hcommand⟩ : ∃ command, Postgres.render customers.options
      (ownArguments countedFirstThree f) f.select = .ok command := by
    refine Postgres.render_ok _ fun source hsource => ?_
    rw [← Piece.mem_sources, hsources] at hsource
    rcases List.mem_pair.1 hsource with rfl | rfl
    · exact ⟨_, by rw [Arguments.resolve, ownArguments, hsegment]⟩
    · exact ⟨_, by rw [Arguments.resolve, ownArguments, hsegment]⟩
  obtain ⟨cached, h, hplan⟩ := plan_of_form (s := customers) (e := countedFirstThree) hf .async hcommand
  obtain ⟨-, -, -, -, hasks, -, hcalls⟩ := plan_signature (s := customers) rfl [] h
  have htakes : .segment ∈ cached.plan.callForm.argumentKinds := by
    rw [hplan, Plan.callForm_ofRendered, CallForm.segment_mem, Form.hasSegment, hsegment]
    rfl
  exact ⟨cached, h, htakes, hasks (by decide) htakes, (hcalls _ .never rfl).2⟩

/-- `Customer.Select(c => new { n = Customer.Take(3).Count() }).Count()`. -/
def countOfCounted : Expr :=
  .call 0 .count [.call 1 .project
    [.entity 2 "Customer",
      .lambda 3 ["c"] (.object 4 [("n",
        .call 5 .count [.call 6 .take [.entity 7 "Customer", .const 8 (.int 3)]])])]]

/-- The count of rows is all that is selected, and the segment is not asked for. -/
theorem not_asks_countOfCounted : ∃ cached,
    ((ofSetting customers).plan countOfCounted .sync).1 = .ok cached ∧
      .segment ∈ cached.plan.callForm.argumentKinds ∧ cached.plan.command.sources = [] := by
  obtain ⟨f, hf, hsegment, hsources⟩ : ∃ f,
      Form.ofExpr customers.catalog customers.dialect countOfCounted = .ok f ∧
        f.segment = some (.bounded 0 3) ∧ f.select.pieces.filterMap Piece.source? = [] :=
    ⟨_, rfl, rfl, rfl⟩
  have unasked : ∀ source, .expr (.param source) ∉ f.select.pieces := by
    intro source hsource
    rw [← Piece.mem_sources, hsources] at hsource
    cases hsource
  obtain ⟨command, hcommand⟩ : ∃ command, Postgres.render customers.options
      (ownArguments countOfCounted f) f.select = .ok command :=
    Postgres.render_ok _ fun source hsource => absurd hsource (unasked source)
  obtain ⟨cached, h, hplan⟩ := plan_of_form (s := customers) (e := countOfCounted) hf .sync hcommand
  refine ⟨cached, h, ?_, ?_⟩
  · rw [hplan, Plan.callForm_ofRendered, CallForm.segment_mem, Form.hasSegment, hsegment]
    rfl
  · rw [hplan, Plan.sources_ofRendered, (Postgres.render_sources hcommand).1]
    refine List.eq_nil_iff_forall_not_mem.2 fun source hsource => ?_
    exact unasked source (Postgres.mem_sourcesOf.1 hsource)

end Provider

end SequenceQuery
