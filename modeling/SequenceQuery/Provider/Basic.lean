import SequenceQuery.Dialect.Postgres
import SequenceQuery.Plan.Store
import SequenceQuery.Plan.Run
import SequenceQuery.Select.Nested

namespace SequenceQuery

structure Setting where
  dialect : Dialect
  catalog : Catalog
  options : RenderOptions
  cache : CacheOptions

structure Provider where
  setting : Setting
  cache : PlanStore
  signatures : SignatureTable
  /-- How often the dialect was asked to render a statement. -/
  renders : Nat

structure NestedCommands where
  outer : RenderedCommand
  nested : List RenderedCommand

namespace Setting

def noTracking (c : Setting) : Bool := !c.options.traceEntityState

/-- The arguments that a query brings along itself. -/
def ownArguments (root : Expr) (form : Form) : Arguments := ⟨root.constants, form.segment⟩

/-- Compiles a query, with how many statements the dialect was asked to render. -/
def compile (c : Setting) (root : Expr) (options : PlanOptions) :
    Except FormError Plan × Nat :=
  match Form.ofExpr c.catalog c.dialect root with
  | .error e => (.error e, 0)
  | .ok form =>
    (Plan.ofForm form
      (fun f => c.dialect.render c.options (ownArguments root f) f.select) options, 1)

def key (c : Setting) (keyPrefix : String) (root : Expr) (mode : PlanMode) : PlanKey :=
  ⟨keyPrefix, c.dialect.name, c.options.quoteIdentifiers, c.noTracking, mode, .ofExpr root⟩

/-- Renders statements one after another up to the first refusal, with how many were tried. -/
def renderAll (render : Select → Except DialectError RenderedCommand) :
    List Select → Except DialectError (List RenderedCommand) × Nat
  | [] => (.ok [], 0)
  | s :: rest =>
    match render s with
    | .error e => (.error e, 1)
    | .ok command =>
      let (more, tried) := renderAll render rest
      ((command :: ·) <$> more, tried + 1)

def renderNested (render : Select → Except DialectError RenderedCommand) (select : Select)
    (root : Expr) : Except DialectError NestedCommands × Nat :=
  match render select with
  | .error e => (.error e, 1)
  | .ok outer =>
    let (nested, tried) := renderAll render (select.nestedIn root)
    ((⟨outer, ·⟩) <$> nested, tried + 1)

end Setting

/-- The failure of a query that was unwrapped, as one of the query that the caller passed. -/
def FormError.within (e : FormError) (expression : Expr) : FormError :=
  { e with expression := expression }

def withinCaller {α : Type} (expression : Expr) :
    Except FormError α → Except FormError α
  | .ok a => .ok a
  | .error e => .error (e.within expression)

namespace Provider

open Setting

/-- A new provider, whose plans are kept in the map. -/
def ofSettingIn (map : PlanMap) (c : Setting) : Provider :=
  ⟨c, .ofOptionsIn map c.cache, .empty, 0⟩

def ofSetting : Setting → Provider := ofSettingIn .whole

/-- Compiles and classifies, counting both. -/
def compileClassified (c : Setting) (root : Expr) (mode : PlanMode)
    (state : SignatureTable × Nat) : Except FormError (Plan × Signature) × SignatureTable × Nat :=
  let (signatures, renders) := state
  let (result, rendered) := c.compile root (.ofMode mode c.noTracking)
  match result with
  | .error e => (.error e, signatures, renders + rendered)
  | .ok plan =>
    let (signature, signatures) := signatures.classify plan.callForm.argumentKinds
    (.ok (plan, signature), signatures, renders + rendered)

/-- The plan of a query, compiled for it or for an earlier one of the same shape. -/
def plan (p : Provider) (e : Expr) (mode : PlanMode) :
    Except FormError KeptPlan × Provider :=
  let root := e.core
  let (result, cache, signatures, renders) :=
    p.cache.planFor (p.setting.key p.cache.keyPrefix root mode) (p.signatures, p.renders)
      (compileClassified p.setting root mode)
  (withinCaller e (Prod.fst <$> result), ⟨p.setting, cache, signatures, renders⟩)

/-- The plans of so many callers of one query, served one after another. -/
def plans (p : Provider) (e : Expr) (mode : PlanMode) :
    Nat → List (Except FormError KeptPlan) × Provider
  | 0 => ([], p)
  | callers + 1 =>
    let (first, p) := p.plan e mode
    let (rest, p) := p.plans e mode callers
    (first :: rest, p)

/-- The arguments for one call, all taken from the query that is run. -/
def callOf (signature : Signature) (e : Expr) (cancellation : Cancellation) : PlanCall :=
  let root := e.core
  ⟨root.constants,
    if signature.hasSegment then some (root.segment?.getD .all) else none,
    if signature.isAsync then some cancellation else none⟩

/-- Reads the rows of a stream; a row that does not fit gives a failure in its place. -/
def mapItems {α : Type} (m : EntityReader α) (context : EntityContext) (s : Streamed Row) :
    Streamed α :=
  ⟨s.items.map fun
    | .error e => .error e
    | .ok row => (m.read context row).mapError .cast, s.fetched⟩

end Provider

namespace KeptPlan

open Provider

def execute (cached : KeptPlan) (e : Expr) (connection : Connection) :
    Ran (Except QueryError QueryResult) :=
  cached.plan.run (callOf cached.signature e .never) connection

def executeAsync (cached : KeptPlan) (e : Expr) (connection : Connection)
    (cancellation : Cancellation) : Ran (Except QueryError QueryResult) :=
  let i := callOf cached.signature e cancellation
  if cached.signature.isAsync then cached.plan.runAsync i connection
  else cached.plan.run i connection

def stream {α : Type} (cached : KeptPlan) (e : Expr) (connection : Connection)
    (cancellation : Cancellation) (m : EntityReader α) : Ran (Except QueryError (Streamed α)) :=
  let ran := cached.plan.stream (callOf cached.signature e cancellation) connection
  ⟨.ok (mapItems m ⟨cached.plan.noTracking⟩ ran.result), ran.sent⟩

end KeptPlan

/-- Runs the plan that was found; without one no command is sent. -/
def runFound {α : Type} (run : KeptPlan → Ran (Except QueryError α)) :
    Except FormError KeptPlan → Ran (Except QueryError α)
  | .error err => ⟨.error (.form err), []⟩
  | .ok cached => run cached

namespace Provider

open Setting

def runPlan {α : Type} (p : Provider) (e : Expr) (mode : PlanMode)
    (run : KeptPlan → Ran (Except QueryError α)) : Ran (Except QueryError α) × Provider :=
  let (found, p) := p.plan e mode
  (runFound run found, p)

def execute (p : Provider) (e : Expr) (connection : Connection) :
    Ran (Except QueryError QueryResult) × Provider :=
  p.runPlan e .sync (·.execute e connection)

def executeAsync (p : Provider) (e : Expr) (connection : Connection)
    (cancellation : Cancellation) : Ran (Except QueryError QueryResult) × Provider :=
  p.runPlan e .async (·.executeAsync e connection cancellation)

def stream {α : Type} (p : Provider) (e : Expr) (connection : Connection)
    (cancellation : Cancellation) (m : EntityReader α) :
    Ran (Except QueryError (Streamed α)) × Provider :=
  p.runPlan e .stream (·.stream e connection cancellation m)

/-- The commands of a query with its own values, past the cache. -/
def commands (p : Provider) (e : Expr) (options : Option RenderOptions) :
    Except FormError NestedCommands × Provider :=
  let c := p.setting
  let root := e.core
  match Form.ofExpr c.catalog c.dialect root with
  | .error err => (.error (err.within e), p)
  | .ok form =>
    let (result, tried) := renderNested
      (c.dialect.render (options.getD c.options) (ownArguments root form)) form.select root
    ((match result with
      | .ok commands => .ok commands
      | .error err => .error ⟨e, root, .rejected err⟩),
      { p with renders := p.renders + tried })

/-- A plan compiled past the cache. -/
def freshPlan (p : Provider) (e : Expr) (isAsync : Option Bool) :
    Except FormError Plan × Provider :=
  let (result, rendered) :=
    p.setting.compile e.core ⟨isAsync, false, p.setting.noTracking⟩
  (withinCaller e result, { p with renders := p.renders + rendered })

def forgetPlans (p : Provider) : Provider := { p with cache := p.cache.clear }

end Provider

end SequenceQuery
