import SequenceQuery.Dialect.Basic

namespace SequenceQuery

/-- Parts of a query that have no relational form where they stand. -/
inductive Unsupported
  | missingArgument (index : Nat)
  | notALambda
  | lambdaArity (expected : Nat)
  | memberAsSource
  | notASequence
  | segmentArgument
  | distinctGrouping
  | filterPagedGrouping
  | aggregateGrouping
  | projectGrouping
  | joinSource
  | joinKeys
  | containsElement
  | foreignConstant
  | notAValue
  | sequenceAsValue
  | subqueryColumns
  | entityAsValue (entity : String)
  | objectAsValue
  | groupingAsValue
  | repeatedColumn (name : String)
  deriving DecidableEq

def Unsupported.message : Unsupported → String
  | .missingArgument index => "missing argument " ++ toString index
  | .notALambda => "expected a lambda"
  | .lambdaArity expected => "expected a lambda with " ++ toString expected ++ " parameters"
  | .memberAsSource => "navigation through a member is not a query source"
  | .notASequence => "expression is not a sequence"
  | .segmentArgument => "segment argument must be a segment literal"
  | .distinctGrouping => "a grouping must be projected before Distinct"
  | .filterPagedGrouping => "cannot filter a paged grouping"
  | .aggregateGrouping => "a grouping must be projected before aggregating it"
  | .projectGrouping => "a grouping must be projected with Select"
  | .joinSource => "join source has no table"
  | .joinKeys => "join keys have different shapes"
  | .containsElement => "Contains needs a sequence of scalar values"
  | .foreignConstant => "constant is not part of the translated query"
  | .notAValue => "expression cannot be used as a value"
  | .sequenceAsValue => "a sequence cannot be used as a value"
  | .subqueryColumns => "a subquery used as a value must select a single column"
  | .entityAsValue entity => "entity `" ++ entity ++ "` cannot be used as a value"
  | .objectAsValue => "an anonymous object cannot be used as a value"
  | .groupingAsValue => "a grouping cannot be used as a value"
  | .repeatedColumn name => "projection produces column `" ++ name ++ "` twice"

inductive Cause
  | unknownEntity (name : String)
  | unknownMember (owner member : String)
  | unboundParameter (name : String)
  | unsupportedOperator (op : Operator)
  | unsupportedExpression (reason : Unsupported)
  | unsupportedFunction (name : String)
  | lacking (dialect capability : String)
  | rejected (error : DialectError)
  deriving DecidableEq

def Cause.kind : Cause → String
  | .unknownEntity _ => "UnknownEntity"
  | .unknownMember .. => "UnknownMember"
  | .unboundParameter _ => "UnboundParameter"
  | .unsupportedOperator _ => "UnsupportedOperator"
  | .unsupportedExpression _ => "UnsupportedExpression"
  | .unsupportedFunction _ => "UnsupportedFunction"
  | .lacking .. => "Capability"
  | .rejected _ => "Dialect"

def Cause.message : Cause → String
  | .unknownEntity name => "unknown entity `" ++ name ++ "`"
  | .unknownMember owner member => "`" ++ owner ++ "` has no member `" ++ member ++ "`"
  | .unboundParameter name => "parameter `" ++ name ++ "` is not bound by an enclosing lambda"
  | .unsupportedOperator op => "operator " ++ op.name ++ " is not supported here"
  | .unsupportedExpression reason => "unsupported expression: " ++ reason.message
  | .unsupportedFunction name => "unknown function `" ++ name ++ "`"
  | .lacking dialect capability =>
    "dialect `" ++ dialect ++ "` does not support " ++ capability
  | .rejected error => error.message

structure Failure where
  node : Expr
  cause : Cause

/-- A query without a relational form, as the caller wrote it, and the part at fault. -/
structure FormError where
  expression : Expr
  node : Expr
  cause : Cause

namespace FormError

def message (e : FormError) : String :=
  "cannot translate `" ++ e.node.display ++ "`: " ++ e.cause.message

end FormError

namespace Failure

def within (f : Failure) (expression : Expr) : FormError := ⟨expression, f.node, f.cause⟩

end Failure

def unsupported {α : Type} (node : Expr) (reason : Unsupported) : Except Failure α :=
  .error ⟨node, .unsupportedExpression reason⟩

end SequenceQuery
