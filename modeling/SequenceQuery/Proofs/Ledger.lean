import SequenceQuery.Proofs.Transparency
import Mathlib.Data.List.Dedup

namespace SequenceQuery

/-- What a plan is looked up for: its mode and the shape of the query. -/
abbrev Wanted : Type := PlanMode × List Char

structure Lookup where
  wanted : Wanted
  answer : Except FormError (KeptPlan × Bool)

namespace Lookup

def isAnswered (l : Lookup) : Bool :=
  match l.answer with
  | .ok _ => true
  | .error _ => false

def compiled (l : Lookup) : Option Plan :=
  match l.answer with
  | .ok (cached, true) => some cached.plan
  | _ => none

def isCompiled (l : Lookup) : Bool := l.compiled.isSome

def isRefused (l : Lookup) : Bool := !l.isAnswered

@[simp] theorem isAnswered_ok (wanted : Wanted) (found : KeptPlan × Bool) :
    isAnswered ⟨wanted, .ok found⟩ = true := rfl

@[simp] theorem isAnswered_error (wanted : Wanted) (x : FormError) :
    isAnswered ⟨wanted, .error x⟩ = false := rfl

@[simp] theorem isCompiled_ok (wanted : Wanted) (cached : KeptPlan) (isNew : Bool) :
    isCompiled ⟨wanted, .ok (cached, isNew)⟩ = isNew := by
  cases isNew <;> rfl

@[simp] theorem isCompiled_error (wanted : Wanted) (x : FormError) :
    isCompiled ⟨wanted, .error x⟩ = false := rfl

end Lookup

/-- The plans looked up, the latest first: all of them and those since plans were last
forgotten. -/
structure Ledger where
  lookups : List Lookup
  recent : List Lookup

namespace Ledger

def empty : Ledger := ⟨[], []⟩

def compiled (ledger : Ledger) : List Wanted :=
  (ledger.recent.filter Lookup.isCompiled).map Lookup.wanted

def callForms (ledger : Ledger) : List (List ArgumentKind) :=
  (ledger.lookups.filterMap Lookup.compiled).map fun plan => plan.callForm.argumentKinds

def enter (ledger : Ledger) (l : Lookup) : Ledger := ⟨l :: ledger.lookups, l :: ledger.recent⟩

end Ledger

structure PlanStore.Counts (c : PlanStore) (lookups : List Lookup) : Prop where
  answered : c.hits + c.misses = lookups.countP Lookup.isAnswered
  misses : c.misses = lookups.countP Lookup.isCompiled
  compiles : c.compiles = c.misses + lookups.countP Lookup.isRefused

namespace PlanStore.Counts

variable {c : PlanStore} {lookups : List Lookup} (h : c.Counts lookups) (wanted : Wanted)
include h

theorem hit (cached : KeptPlan) :
    { c with hits := c.hits + 1 }.Counts (⟨wanted, .ok (cached, false)⟩ :: lookups) := by
  refine ⟨?_, ?_, ?_⟩ <;> rw [List.countP_cons]
  · simp [← h.answered, Nat.add_right_comm]
  · simp [h.misses]
  · simp [Lookup.isRefused, h.compiles]

theorem failed (x : FormError) :
    { c with compiles := c.compiles + 1 }.Counts (⟨wanted, .error x⟩ :: lookups) := by
  refine ⟨?_, ?_, ?_⟩ <;> rw [List.countP_cons]
  · simp [h.answered]
  · simp [h.misses]
  · simp [Lookup.isRefused, h.compiles, Nat.add_assoc]

theorem missed (cached : KeptPlan) (entries : Option (List (PlanKey × KeptPlan))) :
    { c with entries := entries, misses := c.misses + 1, compiles := c.compiles + 1 }.Counts
      (⟨wanted, .ok (cached, true)⟩ :: lookups) := by
  refine ⟨?_, ?_, ?_⟩ <;> rw [List.countP_cons]
  · simp [← h.answered, Nat.add_assoc]
  · simp [h.misses]
  · simp [Lookup.isRefused, h.compiles, Nat.add_right_comm]

end PlanStore.Counts

def Call.forgets : Call → Bool
  | .forgetPlans => true
  | _ => false

def Setting.keyFor (s : Setting) (wanted : Wanted) : PlanKey :=
  ⟨s.cache.keyPrefix, s.dialect.name, s.options.quoteIdentifiers, s.noTracking, wanted.1,
    ⟨wanted.2, SipHash.ofString (String.ofList wanted.2)⟩⟩

theorem mem_keys_iff {κ α : Type} [BEq κ] [LawfulBEq κ] {entries : List (κ × α)} {key : κ} :
    key ∈ entries.map Prod.fst ↔ (entries.lookup key).isSome := by
  induction entries with
  | nil => simp
  | cons entry entries ih =>
    rw [List.map_cons, List.mem_cons, ih, List.lookup_cons]
    by_cases hkey : key = entry.1
    · simp [hkey]
    · rw [beq_eq_false_iff_ne.2 hkey]
      simp [hkey]

/-- The lists classified are kept once each. -/
theorem SignatureTable.known_classify {table : SignatureTable} {seen : List (List ArgumentKind)}
    (h : table.known.map Prod.fst = seen.dedup) (types : List ArgumentKind) :
    (table.classify types).2.known.map Prod.fst = (types :: seen).dedup := by
  have hseen : types ∈ seen ↔ (table.known.lookup types).isSome := by
    rw [← mem_keys_iff, h, List.mem_dedup]
  rw [classify]
  cases hl : table.known.lookup types with
  | some signature =>
    rw [List.dedup_cons_of_mem (hseen.2 (by rw [hl]; rfl))]
    exact h
  | none =>
    rw [List.dedup_cons_of_notMem fun hmem => by simpa [hl] using hseen.1 hmem]
    exact congrArg (types :: ·) h

namespace Provider

def lookUp (p : Provider) (e : Expr) (mode : PlanMode) : Lookup :=
  ⟨(mode, e.core.shape),
    (p.cache.planFor (p.setting.key p.cache.keyPrefix e.core mode) (p.signatures, p.renders)
      (compileClassified p.setting e.core mode)).1⟩

theorem plan_fst (p : Provider) (e : Expr) (mode : PlanMode) :
    (p.plan e mode).1 = withinCaller e (Prod.fst <$> (p.lookUp e mode).answer) := rfl

def note (p : Provider) (ledger : Ledger) (c : Call) : Ledger :=
  match c.asks with
  | some (e, mode) => ledger.enter (p.lookUp e mode)
  | none => if c.forgets then { ledger with recent := [] } else ledger

def ledgerFrom (p : Provider) (ledger : Ledger) : List Call → Ledger
  | [] => ledger
  | c :: history => (p.call c).ledgerFrom (p.note ledger c) history

def ledger (p : Provider) (history : List Call) : Ledger := p.ledgerFrom .empty history

def sent (p : Provider) : Call → List Command
  | .execute e connection => (p.execute e connection).1.sent
  | .executeAsync e connection cancellation => (p.executeAsync e connection cancellation).1.sent
  | .stream e connection cancellation m => (p.stream e connection cancellation m).1.sent
  | .plan .. | .commands .. | .freshPlan .. | .forgetPlans => []

structure Balances (p : Provider) (ledger : Ledger) : Prop where
  size : p.cache.size = ledger.compiled.dedup.length
  signatures : p.signatures.size = ledger.callForms.dedup.length
  counts : p.cache.Counts ledger.lookups

/-- What `Balances` rests on: which keys and signatures are kept. -/
structure Records (p : Provider) (s : Setting) (bound : Nat) (ledger : Ledger) : Prop where
  setting : p.setting = s
  follows : p.cache.Follows s.cache bound
  keys : (p.cache.entries.getD []).map Prod.fst = ledger.compiled.dedup.map s.keyFor
  known : p.signatures.known.map Prod.fst = ledger.callForms.dedup
  counts : p.cache.Counts ledger.lookups

variable {s : Setting} {p : Provider} {bound : Nat} {ledger : Ledger}

theorem Records.balances (h : p.Records s bound ledger) : p.Balances ledger where
  size := by
    have hlength := congrArg List.length h.keys
    rw [PlanStore.size, h.follows.refreshed]
    rwa [List.length_map, List.length_map] at hlength
  signatures := by
    have hlength := congrArg List.length h.known
    rwa [List.length_map] at hlength
  counts := h.counts

theorem ofSettingIn_records {map : PlanMap} (hmap : map.Keeps s.cache bound) :
    (ofSettingIn map s).Records s bound .empty := by
  refine ⟨rfl, PlanStore.ofOptionsIn_follows hmap, ?_, rfl, rfl, rfl, rfl⟩
  rw [ofSettingIn, PlanStore.ofOptionsIn]
  cases s.cache.enabled <;> rfl

/-- The three ways to look a plan up: it is kept, it cannot be compiled, or it is compiled and put
in. -/
theorem plan_cases (p : Provider) (e : Expr) (mode : PlanMode) {o : CacheOptions}
    (hp : p.cache.Follows o bound) (ho : o.enabled = true) :
    let key := p.setting.key p.cache.keyPrefix e.core mode
    let wanted := (mode, e.core.shape)
    (∃ cached, p.lookUp e mode = ⟨wanted, .ok (cached, false)⟩ ∧
      (p.plan e mode).2 = { p with cache := { p.cache with hits := p.cache.hits + 1 } }) ∨
    (∃ x renders, p.lookUp e mode = ⟨wanted, .error x⟩ ∧
      (p.plan e mode).2 = { p with
        cache := { p.cache with compiles := p.cache.compiles + 1 }, renders := renders }) ∨
    (key ∉ (p.cache.entries.getD []).map Prod.fst ∧ ∃ cached renders,
      p.lookUp e mode = ⟨wanted, .ok (cached, true)⟩ ∧
      ((p.cache.entries.getD []).length < bound → (p.plan e mode).2 = { p with
        cache := { p.cache with
          entries := some ((key, cached) :: p.cache.entries.getD [])
          misses := p.cache.misses + 1
          compiles := p.cache.compiles + 1 }
        signatures := (p.signatures.classify cached.plan.callForm.argumentKinds).2
        renders := renders })) := by
  intro key wanted
  simp only [lookUp, plan]
  rw [show p.setting.key p.cache.keyPrefix e.core mode = key from rfl, mem_keys_iff]
  cases hl : (p.cache.entries.getD []).lookup key with
  | some cached =>
    rw [PlanStore.planFor_of_hit hp.refreshed hl]
    exact .inl ⟨cached, rfl, rfl⟩
  | none =>
    rw [PlanStore.planFor_of_miss hp.refreshed hl, compileClassified]
    cases p.setting.compile e.core (.ofMode mode p.setting.noTracking) with
    | mk result rendered =>
      cases result with
      | error x =>
        refine .inr (.inl ⟨x, p.renders + rendered, rfl, ?_⟩)
        simp only [PlanStore.compiled, hp.enabled.trans ho]
        rfl
      | ok plan =>
        refine .inr (.inr ⟨Bool.false_ne_true,
          ⟨plan, (p.signatures.classify plan.callForm.argumentKinds).1, p.cache.compiles⟩,
          p.renders + rendered, rfl, fun hroom => ?_⟩)
        dsimp only
        rw [hp.compiled_ok ho hroom]

theorem Records.after_plan (hs : s.cache.enabled = true) (h : p.Records s bound ledger) (e : Expr)
    (mode : PlanMode) (hroom : (ledger.enter (p.lookUp e mode)).compiled.dedup.length ≤ bound) :
    (p.plan e mode).2.Records s bound (ledger.enter (p.lookUp e mode)) := by
  have hkey : p.setting.key p.cache.keyPrefix e.core mode = s.keyFor (mode, e.core.shape) := by
    rw [h.setting, h.follows.keyPrefix]
    rfl
  have hf := h.follows
  obtain ⟨cached, hl, hp⟩ | ⟨x, renders, hl, hp⟩ | ⟨hnew, cached, renders, hl, hp⟩ :=
    p.plan_cases e mode h.follows hs
  · rw [hl, hp]
    exact ⟨h.setting, ⟨hf.map, hf.maxEntries, hf.ttlSeconds, hf.keyPrefix, hf.enabled⟩, h.keys,
      h.known, h.counts.hit _ cached⟩
  · rw [hl, hp]
    exact ⟨h.setting, ⟨hf.map, hf.maxEntries, hf.ttlSeconds, hf.keyPrefix, hf.enabled⟩, h.keys,
      h.known, h.counts.failed _ x⟩
  · rw [hkey, h.keys] at hnew
    have hwanted : (mode, e.core.shape) ∉ ledger.compiled := fun hmem =>
      hnew (List.mem_map_of_mem (List.mem_dedup.2 hmem))
    have hcompiled : (ledger.enter (p.lookUp e mode)).compiled.dedup =
        (mode, e.core.shape) :: ledger.compiled.dedup := by
      rw [hl]
      exact List.dedup_cons_of_notMem hwanted
    have hlength := congrArg List.length h.keys
    rw [List.length_map, List.length_map] at hlength
    rw [hcompiled, List.length_cons, ← hlength] at hroom
    rw [hp hroom]
    rw [hl] at hcompiled ⊢
    refine ⟨h.setting, ⟨hf.map, hf.maxEntries, hf.ttlSeconds, hf.keyPrefix, hs.symm⟩, ?_,
      SignatureTable.known_classify h.known _, h.counts.missed _ cached _⟩
    rw [hcompiled, List.map_cons, ← h.keys, hkey]
    rfl

theorem Records.forgetPlans (h : p.Records s bound ledger) :
    p.forgetPlans.Records s bound { ledger with recent := [] } := by
  refine ⟨h.setting, h.follows.clear, ?_, h.known, h.counts.answered, h.counts.misses,
    h.counts.compiles⟩
  rw [Provider.forgetPlans, PlanStore.clear]
  cases p.cache.entries <;> rfl

/-- Of the calls that look no plan up, all but `forgetPlans` leave everything counted as it is. -/
theorem call_past_cache (p : Provider) {c : Call} (hasks : c.asks = none)
    (hforgets : c.forgets = false) : (p.call c).setting = p.setting ∧
      (p.call c).cache = p.cache ∧ (p.call c).signatures = p.signatures := by
  cases c with
  | commands e options =>
    rw [call, commands]
    cases Form.ofExpr p.setting.catalog p.setting.dialect e.core <;> exact ⟨rfl, rfl, rfl⟩
  | freshPlan e isAsync => exact ⟨rfl, rfl, rfl⟩
  | forgetPlans => cases hforgets
  | _ => cases hasks

theorem call_of_asks (p : Provider) {c : Call} {e : Expr} {mode : PlanMode}
    (h : c.asks = some (e, mode)) : p.call c = (p.plan e mode).2 := by
  cases c with
  | plan => cases h; rfl
  | execute => cases h; exact runPlan_snd ..
  | executeAsync => cases h; exact runPlan_snd ..
  | stream => cases h; exact runPlan_snd ..
  | _ => cases h

theorem Records.after_call (hs : s.cache.enabled = true) (h : p.Records s bound ledger) (c : Call)
    (hroom : (p.note ledger c).compiled.dedup.length ≤ bound) :
    (p.call c).Records s bound (p.note ledger c) := by
  rw [note] at hroom ⊢
  cases hasks : c.asks with
  | some asked =>
    obtain ⟨e, mode⟩ := asked
    rw [hasks] at hroom
    rw [p.call_of_asks hasks]
    exact h.after_plan hs e mode hroom
  | none =>
    cases hforgets : c.forgets with
    | true =>
      cases c <;> cases hforgets
      exact h.forgetPlans
    | false =>
      obtain ⟨hsetting, hcache, hsignatures⟩ := p.call_past_cache hasks hforgets
      exact ⟨hsetting.trans h.setting, hcache ▸ h.follows, hcache ▸ h.keys,
        hsignatures ▸ h.known, hcache ▸ h.counts⟩

/-- What is compiled was asked for. -/
theorem mem_compiled_note {c : Call} {wanted : Wanted} (h : wanted ∈ (p.note ledger c).compiled) :
    wanted ∈ ledger.compiled ∨ ∃ asked ∈ c.asks, wanted = (asked.2, asked.1.core.shape) := by
  rw [note] at h
  cases hasks : c.asks with
  | some asked =>
    obtain ⟨l, hl, rfl⟩ := List.mem_map.1 (hasks ▸ h)
    obtain ⟨hmem, hcompiled⟩ := List.mem_filter.1 hl
    rcases List.mem_cons.1 hmem with rfl | hmem
    · exact .inr ⟨asked, rfl, rfl⟩
    · exact .inl (List.mem_map_of_mem (List.mem_filter.2 ⟨hmem, hcompiled⟩))
  | none =>
    rw [hasks] at h
    cases hforgets : c.forgets with
    | true =>
      rw [hforgets] at h
      cases h
    | false =>
      rw [hforgets] at h
      exact .inl h

theorem keyFor_injective (s : Setting) : Function.Injective s.keyFor := fun _ _ h =>
  Prod.ext (congrArg PlanKey.mode h) (congrArg (fun key => key.fingerprint.shape) h)

theorem Records.after (hs : s.cache.enabled = true) {keys : List PlanKey}
    (hfit : keys.dedup.length ≤ bound) {history : List Call} (hhistory : s.asked history ⊆ keys)
    (hcompiled : ledger.compiled.map s.keyFor ⊆ keys) (h : p.Records s bound ledger) :
    (p.after history).Records s bound (p.ledgerFrom ledger history) := by
  induction history generalizing p ledger with
  | nil => exact h
  | cons c history ih =>
    have hsplit : s.asked (c :: history) = s.asked [c] ++ s.asked history :=
      List.filterMap_append (l := [c])
    rw [hsplit, List.append_subset] at hhistory
    have hnext : (p.note ledger c).compiled.map s.keyFor ⊆ keys := by
      intro key hkey
      obtain ⟨wanted, hwanted, rfl⟩ := List.mem_map.1 hkey
      rcases mem_compiled_note hwanted with hwanted | ⟨asked, hasked, rfl⟩
      · exact hcompiled (List.mem_map_of_mem hwanted)
      · refine hhistory.1 (List.mem_filterMap.2 ⟨c, List.mem_singleton.2 rfl, ?_⟩)
        rw [hasked]
        rfl
    have hsubset : (p.note ledger c).compiled.dedup.map s.keyFor ⊆ keys.dedup := by
      intro key hkey
      obtain ⟨wanted, hwanted, rfl⟩ := List.mem_map.1 hkey
      exact List.mem_dedup.2 (hnext (List.mem_map_of_mem (List.mem_dedup.1 hwanted)))
    have hnodup := (List.nodup_dedup (p.note ledger c).compiled).map (keyFor_injective s)
    have hlength := (List.Nodup.subperm hnodup hsubset).length_le
    rw [List.length_map] at hlength
    exact ih hhistory.2 hnext (h.after_call hs c (Nat.le_trans hlength hfit))

/-- A plan that is refused leaves all as it was but for the number of compilations, and nothing
is sent. -/
theorem call_refused {o : CacheOptions} (hp : p.cache.Follows o bound) (ho : o.enabled = true)
    {c : Call} {e : Expr} {mode : PlanMode} (hasks : c.asks = some (e, mode)) {x : FormError}
    (hx : (p.plan e mode).1 = .error x) :
    (p.call c).setting = p.setting ∧
      (p.call c).cache = { p.cache with compiles := p.cache.compiles + 1 } ∧
      (p.call c).signatures = p.signatures ∧ p.sent c = [] := by
  have hsent : p.sent c = [] := by
    cases c <;> cases hasks
    case plan => rfl
    all_goals simp only [sent, execute, executeAsync, stream, runPlan_fst, hx, runFound]
  rw [plan_fst] at hx
  rw [p.call_of_asks hasks]
  obtain ⟨cached, hl, -⟩ | ⟨x, renders, -, hplan⟩ | ⟨-, cached, renders, hl, -⟩ :=
    p.plan_cases e mode hp ho
  · rw [hl] at hx
    cases hx
  · rw [hplan]
    exact ⟨rfl, rfl, rfl, hsent⟩
  · rw [hl] at hx
    cases hx

/-- After any history as many plans are kept as there were modes and shapes to compile since plans
were last forgotten, the counters agree with the plans looked up, and as many signatures are known
as lists of arguments were compiled for. Commands and plans past the cache count for nothing, and
a refused plan only as a compilation. -/
theorem after_balances {map : PlanMap} (hs : s.cache.enabled = true)
    (hmap : map.Keeps s.cache bound) (history : List Call)
    (hfit : (s.asked history).dedup.length ≤ bound) :
    let p := (ofSettingIn map s).after history
    p.Balances ((ofSettingIn map s).ledger history) ∧
      (∀ c : Call, c.asks = none → c.forgets = false →
        (p.call c).cache = p.cache ∧ (p.call c).signatures = p.signatures) ∧
      ∀ (c : Call) (e : Expr) (mode : PlanMode) (x : FormError),
        c.asks = some (e, mode) → (p.plan e mode).1 = .error x →
          (p.call c).cache = { p.cache with compiles := p.cache.compiles + 1 } ∧
          (p.call c).signatures = p.signatures ∧ p.sent c = [] := by
  have records := (ofSettingIn_records hmap).after hs hfit (List.Subset.refl (s.asked history))
    (List.nil_subset _)
  refine ⟨records.balances, fun c hasks hforgets => (call_past_cache _ hasks hforgets).2,
    fun c e mode x hasks hx => (call_refused records.follows hs hasks hx).2⟩

/-- One query twice, in another mode, again after the plans were forgotten, and an entity that
there is not. -/
def customerCalls : List Call :=
  [.execute (ageOrId 10 11 5 7) ⟨none, []⟩, .plan (ageOrId 20 21 8 9) .sync,
    .executeAsync (ageOrId 10 11 5 7) ⟨none, []⟩ .beforeCall, .plan (.entity 1 "Nobody") .sync,
    .commands (ageOrId 10 11 5 7) none, .forgetPlans, .plan (ageOrId 10 11 5 7) .sync]

theorem customerCalls_balance :
    let p := (ofSettingIn .whole customers).after customerCalls
    p.cache.size = 1 ∧ p.cache.hits + p.cache.misses = 4 ∧ p.cache.misses = 3 ∧
      p.cache.compiles = 4 ∧ p.signatures.size = 2 ∧
      (p.call (.freshPlan (ageOrId 10 11 5 7) none)).cache = p.cache ∧
      (p.call (.execute (.entity 1 "Nobody") ⟨none, []⟩)).cache.compiles = 5 := by
  obtain ⟨⟨size, signatures, answered, misses, compiles⟩, past, refused⟩ :=
    after_balances (s := customers) rfl (PlanMap.keeps_whole _ 1024) customerCalls (by decide +kernel)
  obtain ⟨x, hx⟩ : ∃ x, (((ofSettingIn .whole customers).after customerCalls).plan
      (.entity 1 "Nobody") .sync).1 = .error x := by
    have hnone : (((ofSettingIn .whole customers).after customerCalls).plan
      (.entity 1 "Nobody") .sync).1.toOption.isNone = true := by decide +kernel
    revert hnone
    cases (((ofSettingIn .whole customers).after customerCalls).plan (.entity 1 "Nobody") .sync).1 with
    | ok cached => nofun
    | error x => exact fun _ => ⟨x, rfl⟩
  have counted : let ledger := (ofSettingIn .whole customers).ledger customerCalls
      ledger.compiled.dedup.length = 1 ∧ ledger.callForms.dedup.length = 2 ∧
        ledger.lookups.countP Lookup.isAnswered = 4 ∧
        ledger.lookups.countP Lookup.isCompiled = 3 ∧
        ledger.lookups.countP Lookup.isRefused = 1 := by decide +kernel
  obtain ⟨hsize, hsignatures, hanswered, hmisses, hrefusals⟩ := counted
  have hcompiles : ((ofSettingIn .whole customers).after customerCalls).cache.compiles = 4 := by
    rw [compiles, misses, hmisses, hrefusals]
  refine ⟨size.trans hsize, answered.trans hanswered, misses.trans hmisses, hcompiles,
    signatures.trans hsignatures, (past _ rfl rfl).1, ?_⟩
  rw [(refused _ _ _ x rfl hx).1, hcompiles]

end Provider

end SequenceQuery
