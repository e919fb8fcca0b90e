import SequenceQuery.Expr.Shape
import SequenceQuery.Plan.Signature

namespace SequenceQuery

structure CacheOptions where
  enabled : Bool
  maxEntries : UInt64
  keyPrefix : String
  ttlSeconds : Option UInt64
  deriving DecidableEq

structure PlanKey where
  keyPrefix : String
  dialect : String
  quoteIdentifiers : Bool
  noTracking : Bool
  mode : PlanMode
  fingerprint : Fingerprint
  deriving DecidableEq

structure KeptPlan where
  plan : Plan
  signature : Signature
  /-- The number of the compilation that made the plan. -/
  serial : Nat
  deriving DecidableEq

/-- A bounded map of plans, the latest first: what is left of its entries when one more is put in,
of at most so many, and what is left at a look-up of those no older than so many seconds. The
number is that of the look-ups before. -/
structure PlanMap where
  insert : UInt64 → PlanKey → KeptPlan → List (PlanKey × KeptPlan) → List (PlanKey × KeptPlan)
  current : Option UInt64 → Nat → List (PlanKey × KeptPlan) → List (PlanKey × KeptPlan)

namespace PlanMap

/-- The map that nothing is ever lost of. -/
def whole : PlanMap := ⟨fun _ key cached entries => (key, cached) :: entries, fun _ _ entries => entries⟩

end PlanMap

structure PlanStore where
  map : PlanMap
  maxEntries : UInt64
  ttlSeconds : Option UInt64
  /-- The plans kept; none when caching is off. -/
  entries : Option (List (PlanKey × KeptPlan))
  keyPrefix : String
  hits : Nat
  misses : Nat
  compiles : Nat

namespace PlanStore

def ofOptionsIn (map : PlanMap) (o : CacheOptions) : PlanStore :=
  ⟨map, o.maxEntries, o.ttlSeconds, if o.enabled then some [] else none, o.keyPrefix, 0, 0, 0⟩

def ofOptions : CacheOptions → PlanStore := ofOptionsIn .whole

def isEnabled (c : PlanStore) : Bool := c.entries.isSome

/-- Without the plans that were lost since the last look-up. -/
def refreshed (c : PlanStore) : PlanStore :=
  { c with entries := c.entries.map (c.map.current c.ttlSeconds (c.hits + c.compiles)) }

def size (c : PlanStore) : Nat := (c.refreshed.entries.getD []).length

/-- The share of look-ups that found their plan, zero before the first. -/
def hitRate (c : PlanStore) : Double :=
  if c.hits + c.misses = 0 then ⟨0⟩
  else (Double.ofInt c.hits).div (Double.ofInt (c.hits + c.misses : Nat))

/-- A look-up that has to compile. Without a cache each counts as a miss, even a failed one. -/
def compiled {ε : Type} (c : PlanStore) (key : PlanKey) :
    Except ε (Plan × Signature) → Except ε (KeptPlan × Bool) × PlanStore
  | .error e =>
    let misses := if c.isEnabled then c.misses else c.misses + 1
    (.error e, { c with compiles := c.compiles + 1, misses := misses })
  | .ok (plan, signature) =>
    let cached : KeptPlan := ⟨plan, signature, c.compiles⟩
    (.ok (cached, true),
      { c with
        entries := c.entries.map (c.map.insert c.maxEntries key cached)
        compiles := c.compiles + 1
        misses := c.misses + 1 })

/-- The plan under a key, with whether it is new; it is compiled only if it is not there. -/
def planFor {σ ε : Type} (c : PlanStore) (key : PlanKey) (state : σ)
    (compile : σ → Except ε (Plan × Signature) × σ) :
    Except ε (KeptPlan × Bool) × PlanStore × σ :=
  let c := c.refreshed
  match c.entries.bind (·.lookup key) with
  | some cached => (.ok (cached, false), { c with hits := c.hits + 1 }, state)
  | none =>
    let (result, state) := compile state
    let (answer, c) := c.compiled key result
    (answer, c, state)

def clear (c : PlanStore) : PlanStore := { c with entries := c.entries.map fun _ => [] }

end PlanStore

end SequenceQuery
