import SequenceQuery.Provider.Basic

namespace SequenceQuery

structure Compiling where
  caller : Expr
  /-- The queries of those that wait for it, the first to come first. -/
  waiting : List Expr

structure Reply where
  caller : Expr
  /-- The query that was compiled while this caller waited. -/
  waitedFor : Option Expr
  found : Except FormError KeptPlan

namespace Reply

/-- The query that was compiled for the caller, if any was. -/
def compiled (a : Reply) : Expr := a.waitedFor.getD a.caller

def execute (a : Reply) (connection : Connection) : Ran (Except QueryError QueryResult) :=
  runFound (·.execute a.caller connection) a.found

def executeAsync (a : Reply) (connection : Connection) (cancellation : Cancellation) :
    Ran (Except QueryError QueryResult) :=
  runFound (·.executeAsync a.caller connection cancellation) a.found

def stream {α : Type} (a : Reply) (connection : Connection) (cancellation : Cancellation)
    (m : EntityReader α) : Ran (Except QueryError (Streamed α)) :=
  runFound (·.stream a.caller connection cancellation m) a.found

end Reply

/-- What happens to a provider that callers share. -/
inductive Event where
  | asks (e : Expr) (mode : PlanMode)
  /-- The compilation under the key ends. -/
  | settles (key : PlanKey)
  | forgets

/-- A provider with the callers that share it. -/
structure Callers where
  provider : Provider
  compiling : List (PlanKey × Compiling)
  /-- What callers were given, the first first. -/
  replies : List Reply

/-- Those that waited for a plan are counted as having found it. -/
def PlanStore.shared {ε : Type} (c : PlanStore) (waiting : Nat) : Except ε KeptPlan → PlanStore
  | .ok _ => { c with hits := c.hits + waiting }
  | .error _ => c

namespace Callers

def ofProvider (p : Provider) : Callers := ⟨p, [], []⟩

/-- Whether a look-up has to wait for no compilation but its own: the plan is there, or nothing is
kept. -/
def isReady (p : Provider) (key : PlanKey) : Bool :=
  match p.cache.refreshed.entries with
  | none => true
  | some entries => (entries.lookup key).isSome

def asks (c : Callers) (e : Expr) (mode : PlanMode) : Callers :=
  let key := c.provider.setting.key c.provider.cache.keyPrefix e.core mode
  if isReady c.provider key then
    let (found, p) := c.provider.plan e mode
    { c with provider := p, replies := c.replies ++ [⟨e, none, found⟩] }
  else match c.compiling.lookup key with
    | none => { c with compiling := (key, ⟨e, []⟩) :: c.compiling }
    | some flight =>
      { c with compiling := c.compiling.map fun entry =>
          if entry.1 = key then (key, { flight with waiting := flight.waiting ++ [e] }) else entry }

def settles (c : Callers) (key : PlanKey) : Callers :=
  match c.compiling.lookup key with
  | none => c
  | some flight =>
    let (found, p) := c.provider.plan flight.caller key.mode
    let told := flight.waiting.map fun e => ⟨e, some flight.caller, withinCaller e found⟩
    ⟨{ p with cache := p.cache.shared flight.waiting.length found },
      c.compiling.filter (·.1 ≠ key),
      c.replies ++ ⟨flight.caller, none, found⟩ :: told⟩

def step (c : Callers) : Event → Callers
  | .asks e mode => c.asks e mode
  | .settles key => c.settles key
  | .forgets => { c with provider := c.provider.forgetPlans }

def run (c : Callers) (events : List Event) : Callers := events.foldl step c

end Callers

end SequenceQuery
