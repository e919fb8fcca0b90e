import SequenceQuery.Form.Basic

namespace SequenceQuery

inductive PlanMode
  | sync
  | async
  /-- Rows are fetched as the caller asks for them. -/
  | stream
  deriving DecidableEq

namespace PlanMode

def name : PlanMode → String
  | .sync => "Sync"
  | .async => "Async"
  | .stream => "Stream"

def ofName? (name : String) : Option PlanMode :=
  [sync, async, stream].find? fun m => m.name == name

def isAsync : PlanMode → Bool
  | .sync => false
  | _ => true

end PlanMode

inductive ArgumentKind
  | context
  | segment
  | cancellation
  deriving DecidableEq

namespace ArgumentKind

def name : ArgumentKind → String
  | .context => "Context"
  | .segment => "Segment"
  | .cancellation => "Cancellation"

def ofName? (name : String) : Option ArgumentKind :=
  [context, segment, cancellation].find? fun t => t.name == name

end ArgumentKind

inductive CallForm
  | context
  | contextSegment
  | contextCancel
  | contextSegmentCancel
  deriving DecidableEq

namespace CallForm

def select (isAsync hasSegment : Bool) : CallForm :=
  match isAsync, hasSegment with
  | false, false => .context
  | false, true => .contextSegment
  | true, false => .contextCancel
  | true, true => .contextSegmentCancel

def name : CallForm → String
  | .context => "Context"
  | .contextSegment => "ContextSegment"
  | .contextCancel => "ContextCancel"
  | .contextSegmentCancel => "ContextSegmentCancel"

def ofName? (name : String) : Option CallForm :=
  [context, contextSegment, contextCancel, contextSegmentCancel].find? fun i => i.name == name

def argumentKinds : CallForm → List ArgumentKind
  | .context => [.context]
  | .contextSegment => [.context, .segment]
  | .contextCancel => [.context, .cancellation]
  | .contextSegmentCancel => [.context, .segment, .cancellation]

end CallForm

structure Command where
  text : String
  parameters : List Value
  deriving DecidableEq

structure CommandTemplate where
  text : String
  sources : List Source
  deriving DecidableEq

namespace CommandTemplate

def ofRendered (c : RenderedCommand) : CommandTemplate := ⟨c.text, c.sources⟩

def bind (c : CommandTemplate) (arguments : Arguments) : Except DialectError Command :=
  return ⟨c.text, ← c.sources.mapM arguments.resolve⟩

end CommandTemplate

structure Plan where
  command : CommandTemplate
  shape : ResultShape
  mode : PlanMode
  callForm : CallForm
  noTracking : Bool
  deriving DecidableEq

structure PlanOptions where
  /-- Without a wish the plan is synchronous. -/
  isAsync : Option Bool
  isEnumerable : Bool
  noTracking : Bool

namespace PlanOptions

def mode (o : PlanOptions) : PlanMode :=
  if o.isEnumerable then .stream else if o.isAsync.getD false then .async else .sync

def ofMode (mode : PlanMode) (noTracking : Bool) : PlanOptions :=
  ⟨some mode.isAsync, mode = .stream, noTracking⟩

end PlanOptions

namespace Plan

/-- The plan of a form whose statement has been rendered. -/
def ofRendered (form : Form) (rendered : RenderedCommand) (options : PlanOptions) : Plan :=
  ⟨.ofRendered rendered, form.shape, options.mode,
    .select options.mode.isAsync form.hasSegment, options.noTracking⟩

/-- Renders the statement of a form into a plan; a refusal is blamed on the whole query. -/
def ofForm (form : Form) (render : Form → Except DialectError RenderedCommand)
    (options : PlanOptions) : Except FormError Plan :=
  match render form with
  | .ok rendered => .ok (ofRendered form rendered options)
  | .error e => .error ⟨form.origin, form.origin, .rejected e⟩

end Plan

end SequenceQuery
