import SequenceQuery.Provider.Basic
import Mathlib.Data.List.Dedup
import Mathlib.Data.List.Forall2
import Mathlib.Data.List.Perm.Subperm

namespace SequenceQuery

/-- What is assumed of a map of plans that holds at most so many: what is put in is there, nothing
goes to make room for it, and nothing grows too old. -/
structure PlanMap.Keeps (m : PlanMap) (o : CacheOptions) (bound : Nat) : Prop where
  getOrInsert : ∀ key cached entries, ∃ rest,
    m.insert o.maxEntries key cached entries = (key, cached) :: rest ∧ rest.Sublist entries
  noEviction : ∀ key cached entries, entries.length < bound →
    (m.insert o.maxEntries key cached entries).length = entries.length + 1
  noExpiry : ∀ lookups entries, m.current o.ttlSeconds lookups entries = entries

theorem PlanMap.keeps_whole (o : CacheOptions) (bound : Nat) : PlanMap.whole.Keeps o bound where
  getOrInsert _ _ entries := ⟨entries, rfl, .refl _⟩
  noEviction _ _ _ _ := rfl
  noExpiry _ _ := rfl

theorem PlanMap.Keeps.insert_eq {m : PlanMap} {o : CacheOptions} {bound : Nat} (h : m.Keeps o bound)
    {key : PlanKey} {cached : KeptPlan} {entries : List (PlanKey × KeptPlan)}
    (hroom : entries.length < bound) :
    m.insert o.maxEntries key cached entries = (key, cached) :: entries := by
  obtain ⟨rest, hinsert, hrest⟩ := h.getOrInsert key cached entries
  have hlength := h.noEviction key cached entries hroom
  rw [hinsert, List.length_cons, Nat.add_right_cancel_iff] at hlength
  rw [hinsert, hrest.eq_of_length hlength]

namespace PlanStore

structure Follows (c : PlanStore) (o : CacheOptions) (bound : Nat) : Prop where
  map : c.map.Keeps o bound
  maxEntries : c.maxEntries = o.maxEntries
  ttlSeconds : c.ttlSeconds = o.ttlSeconds
  keyPrefix : c.keyPrefix = o.keyPrefix
  enabled : c.isEnabled = o.enabled

theorem ofOptionsIn_follows {m : PlanMap} {o : CacheOptions} {bound : Nat} (h : m.Keeps o bound) :
    (ofOptionsIn m o).Follows o bound := by
  refine ⟨h, rfl, rfl, rfl, ?_⟩
  rw [ofOptionsIn, isEnabled]
  cases o.enabled <;> rfl

variable {σ ε : Type} {c : PlanStore} {o : CacheOptions} {bound : Nat} {key : PlanKey}
  {cached : KeptPlan} {state : σ} {compile : σ → Except ε (Plan × Signature) × σ}

theorem Follows.refreshed (h : c.Follows o bound) : c.refreshed = c := by
  have hcurrent : c.map.current c.ttlSeconds (c.hits + c.compiles) = id :=
    funext fun entries => by rw [h.ttlSeconds, h.map.noExpiry]; rfl
  rw [PlanStore.refreshed, hcurrent, Option.map_id_fun, id]

theorem Follows.clear (h : c.Follows o bound) : c.clear.Follows o bound :=
  ⟨h.map, h.maxEntries, h.ttlSeconds, h.keyPrefix, h.enabled ▸ Option.isSome_map⟩

theorem lookup_getD (entries : Option (List (PlanKey × KeptPlan))) (key : PlanKey) :
    (entries.bind fun entries => entries.lookup key) = (entries.getD []).lookup key := by
  cases entries <;> rfl

theorem planFor_of_hit (h : c.refreshed = c) (hl : (c.entries.getD []).lookup key = some cached) :
    c.planFor key state compile =
      (.ok (cached, false), { c with hits := c.hits + 1 }, state) := by
  simp only [planFor, h, lookup_getD, hl]

theorem planFor_of_miss (h : c.refreshed = c) (hl : (c.entries.getD []).lookup key = none) :
    c.planFor key state compile = ((c.compiled key (compile state).1).1,
      (c.compiled key (compile state).1).2, (compile state).2) := by
  simp only [planFor, h, lookup_getD, hl]

/-- A plan that was compiled is put in front of those kept. -/
theorem Follows.compiled_ok (h : c.Follows o bound) (henabled : o.enabled = true)
    (hroom : (c.entries.getD []).length < bound) {plan : Plan} {signature : Signature} :
    c.compiled (ε := ε) key (.ok (plan, signature)) =
      (.ok (⟨plan, signature, c.compiles⟩, true), { c with
        entries := some ((key, ⟨plan, signature, c.compiles⟩) :: c.entries.getD [])
        compiles := c.compiles + 1
        misses := c.misses + 1 }) := by
  have hsome := h.enabled.trans henabled
  rw [isEnabled, Option.isSome_iff_exists] at hsome
  obtain ⟨entries, hentries⟩ := hsome
  rw [hentries, Option.getD_some] at hroom
  rw [compiled, hentries, Option.map_some, h.maxEntries, h.map.insert_eq hroom]
  rfl

end PlanStore

inductive Call : Type 1
  | plan (e : Expr) (mode : PlanMode)
  | execute (e : Expr) (connection : Connection)
  | executeAsync (e : Expr) (connection : Connection) (cancellation : Cancellation)
  | stream {α : Type} (e : Expr) (connection : Connection) (cancellation : Cancellation)
      (m : EntityReader α)
  | commands (e : Expr) (options : Option RenderOptions)
  | freshPlan (e : Expr) (isAsync : Option Bool)
  | forgetPlans

def Call.asks : Call → Option (Expr × PlanMode)
  | .plan e mode => some (e, mode)
  | .execute e _ => some (e, .sync)
  | .executeAsync e _ _ => some (e, .async)
  | .stream e _ _ _ => some (e, .stream)
  | .commands .. | .freshPlan .. | .forgetPlans => none

namespace Setting

def planOf (s : Setting) (e : Expr) (mode : PlanMode) : Except FormError Plan :=
  (s.compile e.core (.ofMode mode s.noTracking)).1

def keyOf (s : Setting) (e : Expr) (mode : PlanMode) : PlanKey :=
  s.key s.cache.keyPrefix e.core mode

def keep (s : Setting) (kept : List (PlanKey × Expr)) (e : Expr) (mode : PlanMode) :
    List (PlanKey × Expr) :=
  match kept.lookup (s.keyOf e mode), s.planOf e mode with
  | none, .ok _ => (s.keyOf e mode, e) :: kept
  | _, _ => kept

def keepBy (s : Setting) (kept : List (PlanKey × Expr)) : Call → List (PlanKey × Expr)
  | .plan e mode => s.keep kept e mode
  | .execute e _ => s.keep kept e .sync
  | .executeAsync e _ _ => s.keep kept e .async
  | .stream e _ _ _ => s.keep kept e .stream
  | .commands .. | .freshPlan .. => kept
  | .forgetPlans => []

/-- The queries that the kept plans were compiled for, the latest first. -/
def keptAfter (s : Setting) (history : List Call) : List (PlanKey × Expr) :=
  history.foldl s.keepBy []

def asked (s : Setting) (history : List Call) : List PlanKey :=
  history.filterMap fun c => c.asks.map fun asked => s.keyOf asked.1 asked.2

structure Within (keys : List PlanKey) (kept : List (PlanKey × Expr)) : Prop where
  nodup : (kept.map Prod.fst).Nodup
  subset : kept.map Prod.fst ⊆ keys

theorem Within.length {keys : List PlanKey} {kept : List (PlanKey × Expr)} (h : Within keys kept) :
    kept.length ≤ keys.dedup.length := by
  have hsubperm := List.Nodup.subperm h.nodup fun key hkey => List.mem_dedup.2 (h.subset hkey)
  simpa using hsubperm.length_le

theorem Within.keep {s : Setting} {keys : List PlanKey} {kept : List (PlanKey × Expr)}
    (h : Within keys kept) {e : Expr} {mode : PlanMode} (hmem : s.keyOf e mode ∈ keys) :
    Within keys (s.keep kept e mode) := by
  rw [Setting.keep]
  split
  · next hl _ =>
    refine ⟨List.nodup_cons.2 ⟨fun hkey => ?_, h.nodup⟩, List.cons_subset.2 ⟨hmem, h.subset⟩⟩
    obtain ⟨entry, hentry, heq⟩ := List.mem_map.1 hkey
    exact bne_iff_ne.1 (List.lookup_eq_none_iff.1 hl entry hentry) heq.symm
  · exact h

theorem Within.keepBy {s : Setting} {keys : List PlanKey} {kept : List (PlanKey × Expr)}
    (h : Within keys kept) {c : Call} (hmem : s.asked [c] ⊆ keys) :
    Within keys (s.keepBy kept c) := by
  cases c with
  | plan | execute | executeAsync | stream => exact h.keep (hmem (.head _))
  | commands | freshPlan => exact h
  | forgetPlans => exact ⟨.nil, List.nil_subset _⟩

/-- The query whose plan is used for `e`. -/
def compiledFor (s : Setting) (history : List Call) (e : Expr) (mode : PlanMode) : Expr :=
  ((s.keptAfter history).lookup (s.keyOf e mode)).getD e

/-- Plans are kept under the keys of queries that were asked for. -/
theorem asked_of_mem {s : Setting} {history : List Call} :
    ∀ entry ∈ s.keptAfter history, ∃ c ∈ history, ∃ asked ∈ c.asks,
      entry = (s.keyOf asked.1 asked.2, asked.1) := by
  have hkeep : ∀ (kept : List (PlanKey × Expr)) e mode, ∀ entry ∈ s.keep kept e mode,
      entry ∈ kept ∨ entry = (s.keyOf e mode, e) := by
    intro kept e mode entry hentry
    rw [keep] at hentry
    split at hentry
    · exact (List.mem_cons.1 hentry).symm
    · exact .inl hentry
  have hkeepBy : ∀ (kept : List (PlanKey × Expr)) (c : Call), ∀ entry ∈ s.keepBy kept c,
      entry ∈ kept ∨ ∃ asked ∈ c.asks, entry = (s.keyOf asked.1 asked.2, asked.1) := by
    intro kept c entry hentry
    cases c with
    | plan | execute | executeAsync | stream =>
      exact (hkeep _ _ _ entry hentry).imp_right fun h => ⟨_, rfl, h⟩
    | commands | freshPlan => exact .inl hentry
    | forgetPlans => cases hentry
  have run : ∀ (rest : List Call) (kept : List (PlanKey × Expr)), ∀ entry ∈ rest.foldl s.keepBy kept,
      entry ∈ kept ∨ ∃ c ∈ rest, ∃ asked ∈ c.asks,
        entry = (s.keyOf asked.1 asked.2, asked.1) := by
    intro rest
    induction rest with
    | nil => exact fun _ _ => .inl
    | cons c rest ih =>
      intro kept entry hentry
      rcases ih _ entry hentry with hmem | ⟨c', hc', h⟩
      · exact (hkeepBy kept c entry hmem).imp_right fun h => ⟨c, List.mem_cons_self, h⟩
      · exact .inr ⟨c', List.mem_cons_of_mem _ hc', h⟩
  exact fun entry hentry => (run history [] entry hentry).resolve_left List.not_mem_nil

theorem asked_of_lookup {s : Setting} {history : List Call} {key : PlanKey} {e : Expr}
    (h : (s.keptAfter history).lookup key = some e) :
    ∃ c ∈ history, ∃ asked ∈ c.asks, s.keyOf asked.1 asked.2 = key ∧ asked.1 = e := by
  obtain ⟨before, behind, heq, -⟩ := List.lookup_eq_some_iff.1 h
  have hmem : (key, e) ∈ s.keptAfter history := by
    rw [heq]
    exact List.mem_append_right _ List.mem_cons_self
  obtain ⟨c, hc, asked, hasked, hentry⟩ := asked_of_mem _ hmem
  exact ⟨c, hc, asked, hasked, (congrArg Prod.fst hentry).symm, (congrArg Prod.snd hentry).symm⟩

structure Kept (s : Setting) (entry : PlanKey × KeptPlan) (asked : PlanKey × Expr) : Prop where
  key : entry.1 = asked.1
  keyOf : asked.1 = s.keyOf asked.2 asked.1.mode
  plan : s.planOf asked.2 asked.1.mode = .ok entry.2.plan
  signature : entry.2.signature = .ofTypes entry.2.plan.callForm.argumentKinds

theorem lookup_kept {s : Setting} {entries : List (PlanKey × KeptPlan)}
    {kept : List (PlanKey × Expr)} (h : List.Forall₂ s.Kept entries kept) (key : PlanKey) :
    (entries.lookup key = none ∧ kept.lookup key = none) ∨
      ∃ cached e, entries.lookup key = some cached ∧ kept.lookup key = some e ∧
        s.Kept (key, cached) (key, e) := by
  induction h with
  | nil => exact .inl ⟨rfl, rfl⟩
  | @cons entry asked entries kept hkept _ ih =>
    obtain ⟨k, cached⟩ := entry
    obtain ⟨k', e⟩ := asked
    obtain rfl : k = k' := hkept.key
    rw [List.lookup_cons, List.lookup_cons]
    by_cases hk : key = k
    · subst hk
      exact .inr ⟨cached, e, by simp, by simp, hkept⟩
    · rw [beq_eq_false_iff_ne.2 hk]
      exact ih

end Setting

theorem SignatureTable.classify_eq {table : SignatureTable}
    (h : ∀ types signature, (types, signature) ∈ table.known → signature = .ofTypes types)
    (types : List ArgumentKind) : (table.classify types).1 = .ofTypes types ∧
      ∀ types' signature, (types', signature) ∈ (table.classify types).2.known →
        signature = .ofTypes types' := by
  rw [classify]
  cases hl : table.known.lookup types with
  | some signature =>
    obtain ⟨before, later, hknown, -⟩ := List.lookup_eq_some_iff.1 hl
    exact ⟨h _ _ (by simp [hknown]), h⟩
  | none =>
    refine ⟨rfl, fun types' signature hmem => ?_⟩
    rcases List.mem_cons.1 hmem with heq | hmem
    · obtain ⟨rfl, rfl⟩ := Prod.mk.inj heq
      rfl
    · exact h _ _ hmem

namespace Provider

def call (p : Provider) : Call → Provider
  | .plan e mode => (p.plan e mode).2
  | .execute e connection => (p.execute e connection).2
  | .executeAsync e connection cancellation => (p.executeAsync e connection cancellation).2
  | .stream e connection cancellation m => (p.stream e connection cancellation m).2
  | .commands e options => (p.commands e options).2
  | .freshPlan e isAsync => (p.freshPlan e isAsync).2
  | .forgetPlans => p.forgetPlans

def after (p : Provider) (history : List Call) : Provider := history.foldl call p

/-- The provider keeps the plans of the queries listed and of no others. -/
structure Keeps (p : Provider) (s : Setting) (bound : Nat) (kept : List (PlanKey × Expr)) :
    Prop where
  setting : p.setting = s
  follows : p.cache.Follows s.cache bound
  signatures : ∀ types signature, (types, signature) ∈ p.signatures.known →
    signature = .ofTypes types
  entries : List.Forall₂ s.Kept (p.cache.entries.getD []) kept

variable {s : Setting} {bound : Nat} {kept : List (PlanKey × Expr)} {p : Provider}

theorem ofSettingIn_keeps {map : PlanMap} (s : Setting) (hmap : map.Keeps s.cache bound) :
    (ofSettingIn map s).Keeps s bound [] where
  setting := rfl
  follows := PlanStore.ofOptionsIn_follows hmap
  signatures := by simp [ofSettingIn, SignatureTable.empty]
  entries := by
    rw [ofSettingIn, PlanStore.ofOptionsIn]
    cases s.cache.enabled <;> exact .nil

theorem Keeps.key (h : p.Keeps s bound kept) (e : Expr) (mode : PlanMode) :
    p.setting.key p.cache.keyPrefix e.core mode = s.keyOf e mode := by
  rw [Setting.keyOf, h.setting, h.follows.keyPrefix]

theorem Keeps.plan_of_hit (h : p.Keeps s bound kept) {e : Expr} {mode : PlanMode}
    {cached : KeptPlan} (hl : (p.cache.entries.getD []).lookup (s.keyOf e mode) = some cached) :
    (p.plan e mode).1 = .ok cached ∧ (p.plan e mode).2.Keeps s bound kept := by
  have hf := h.follows
  simp only [plan, h.key, PlanStore.planFor_of_hit hf.refreshed hl]
  exact ⟨rfl, h.setting, ⟨hf.map, hf.maxEntries, hf.ttlSeconds, hf.keyPrefix, hf.enabled⟩,
    h.signatures, h.entries⟩

theorem Keeps.plan_of_miss (h : p.Keeps s bound kept) {e : Expr} {mode : PlanMode}
    (hl : (p.cache.entries.getD []).lookup (s.keyOf e mode) = none) :
    match s.planOf e mode with
    | .error x => (p.plan e mode).1 = .error (x.within e) ∧ (p.plan e mode).2.Keeps s bound kept
    | .ok plan =>
      (∃ serial, (p.plan e mode).1 =
        .ok ⟨plan, .ofTypes plan.callForm.argumentKinds, serial⟩) ∧
      (s.cache.enabled = true → kept.length < bound →
        (p.plan e mode).2.Keeps s bound ((s.keyOf e mode, e) :: kept)) := by
  have hf := h.follows
  have hkey := h.key e mode
  rw [h.setting] at hkey
  simp only [Provider.plan, h.setting, hkey, PlanStore.planFor_of_miss hf.refreshed hl,
    compileClassified]
  rw [show s.planOf e mode = (s.compile e.core (.ofMode mode s.noTracking)).1 from rfl]
  cases hc : s.compile e.core (.ofMode mode s.noTracking) with
  | mk result rendered =>
    cases result with
    | error x =>
      exact ⟨rfl, rfl, ⟨hf.map, hf.maxEntries, hf.ttlSeconds, hf.keyPrefix, hf.enabled⟩,
        h.signatures, h.entries⟩
    | ok plan =>
      obtain ⟨hsignature, hknown⟩ :=
        SignatureTable.classify_eq h.signatures plan.callForm.argumentKinds
      dsimp only
      rw [hsignature]
      refine ⟨⟨p.cache.compiles, rfl⟩, fun henabled hroom => ?_⟩
      rw [← h.entries.length_eq] at hroom
      rw [hf.compiled_ok henabled hroom]
      exact ⟨rfl, ⟨hf.map, hf.maxEntries, hf.ttlSeconds, hf.keyPrefix, henabled.symm⟩, hknown,
        .cons ⟨rfl, rfl, by rw [Setting.planOf]; exact congrArg Prod.fst hc, rfl⟩ h.entries⟩

/-- A plan looked up is the one compiled for the query kept under its key, or else for the query
itself. -/
theorem Keeps.plan (h : p.Keeps s bound kept) (e : Expr) (mode : PlanMode) :
    match s.planOf ((kept.lookup (s.keyOf e mode)).getD e) mode with
    | .error x => (p.plan e mode).1 = .error (x.within e)
    | .ok plan => ∃ serial, (p.plan e mode).1 =
        .ok ⟨plan, .ofTypes plan.callForm.argumentKinds, serial⟩ := by
  rcases Setting.lookup_kept h.entries (s.keyOf e mode) with
    ⟨hl, hl'⟩ | ⟨cached, e₀, hl, hl', hkept⟩
  · have hmiss := h.plan_of_miss hl
    rw [hl', Option.getD_none]
    revert hmiss
    cases s.planOf e mode with
    | error x => exact fun h => h.1
    | ok plan => exact fun h => h.1
  · have hplan : s.planOf e₀ mode = .ok cached.plan := hkept.plan
    have hsignature : cached.signature = .ofTypes cached.plan.callForm.argumentKinds :=
      hkept.signature
    rw [hl', Option.getD_some, hplan]
    refine ⟨cached.serial, ?_⟩
    rw [(h.plan_of_hit hl).1, ← hsignature]

theorem Keeps.after_plan (hs : s.cache.enabled = true) (h : p.Keeps s bound kept) (e : Expr)
    (mode : PlanMode) (hroom : (s.keep kept e mode).length ≤ bound) :
    (p.plan e mode).2.Keeps s bound (s.keep kept e mode) := by
  rw [Setting.keep] at hroom ⊢
  rcases Setting.lookup_kept h.entries (s.keyOf e mode) with
    ⟨hl, hl'⟩ | ⟨cached, e₀, hl, hl', -⟩
  · have hmiss := h.plan_of_miss hl
    rw [hl'] at hroom ⊢
    revert hmiss hroom
    cases s.planOf e mode with
    | error x => exact fun _ h => h.2
    | ok plan => exact fun hroom h => h.2 hs hroom
  · rw [hl']
    exact (h.plan_of_hit hl).2

theorem runPlan_snd {α : Type} (p : Provider) (e : Expr) (mode : PlanMode)
    (run : KeptPlan → Ran (Except QueryError α)) :
    (p.runPlan e mode run).2 = (p.plan e mode).2 := rfl

theorem commands_keeps (h : p.Keeps s bound kept) (e : Expr) (options : Option RenderOptions) :
    (p.commands e options).2.Keeps s bound kept := by
  rw [commands]
  cases Form.ofExpr p.setting.catalog p.setting.dialect e.core with
  | error x => exact h
  | ok form => exact ⟨h.setting, h.follows, h.signatures, h.entries⟩

theorem forgetPlans_keeps (h : p.Keeps s bound kept) : p.forgetPlans.Keeps s bound [] := by
  refine ⟨h.setting, h.follows.clear, h.signatures, ?_⟩
  rw [forgetPlans, PlanStore.clear]
  cases p.cache.entries <;> exact .nil

/-- A call changes which plans are kept as `Setting.keepBy` says. -/
theorem call_keeps (hs : s.cache.enabled = true) (h : p.Keeps s bound kept) (c : Call)
    (hroom : (s.keepBy kept c).length ≤ bound) :
    (p.call c).Keeps s bound (s.keepBy kept c) := by
  cases c with
  | plan e mode => exact h.after_plan hs e mode hroom
  | execute e =>
    rw [call, execute, runPlan_snd]
    exact h.after_plan hs e .sync hroom
  | executeAsync e =>
    rw [call, executeAsync, runPlan_snd]
    exact h.after_plan hs e .async hroom
  | stream e =>
    rw [call, stream, runPlan_snd]
    exact h.after_plan hs e .stream hroom
  | commands e options => exact commands_keeps h e options
  | freshPlan e isAsync => exact ⟨h.setting, h.follows, h.signatures, h.entries⟩
  | forgetPlans => exact forgetPlans_keeps h

theorem after_keeps (hs : s.cache.enabled = true) {map : PlanMap} (hmap : map.Keeps s.cache bound)
    (history : List Call) (hfit : (s.asked history).dedup.length ≤ bound) :
    ((ofSettingIn map s).after history).Keeps s bound (s.keptAfter history) := by
  have run : ∀ (rest : List Call) (p : Provider) (kept : List (PlanKey × Expr)),
      s.asked rest ⊆ s.asked history → Setting.Within (s.asked history) kept →
        p.Keeps s bound kept → (p.after rest).Keeps s bound (rest.foldl s.keepBy kept) := by
    intro rest
    induction rest with
    | nil => exact fun _ _ _ _ h => h
    | cons c rest ih =>
      intro p kept hrest hwithin h
      have hsplit : s.asked (c :: rest) = s.asked [c] ++ s.asked rest :=
        List.filterMap_append (l := [c])
      rw [hsplit, List.append_subset] at hrest
      have hnext := hwithin.keepBy hrest.1
      exact ih _ _ hrest.2 hnext (call_keeps hs h c (Nat.le_trans hnext.length hfit))
  exact run history _ _ (List.Subset.refl _) ⟨.nil, List.nil_subset _⟩ (ofSettingIn_keeps s hmap)

end Provider

end SequenceQuery
