import SequenceQuery.Dialect.Basic
import SequenceQuery.Sql.Token

namespace SequenceQuery

/-- Each element once, where it occurs first. -/
def firstOccurrences {α : Type} [DecidableEq α] : List α → List α
  | [] => []
  | x :: rest => x :: (firstOccurrences rest).filter fun y => y ≠ x

namespace Postgres

def doubled (quote : Char) (s : String) : String :=
  String.ofList (quote :: (s.toList.flatMap fun c => if c = quote then [c, c] else [c]) ++ [quote])

def identifier (quote : Bool) (s : String) : String := if quote then doubled '"' s else s

def placeholder (sources : List Source) (s : Source) : String :=
  "$" ++ toString (sources.idxOf s + 1)

def tokenText (quote : Bool) (sources : List Source) : Token → String
  | .word s | .routine s | .number s | .symbol s => s
  | .ident s => identifier quote s
  | .text s => doubled '\'' s
  | .placeholder s => placeholder sources s
  | .blank => " "

def sourcesOf (tokens : List Token) : List Source :=
  firstOccurrences (tokens.filterMap Token.source?)

def boundParameters (arguments : Arguments) (sources : List Source) :
    Except DialectError (List BoundParameter) :=
  sources.mapM fun s => do return ⟨placeholder sources s, s, ← arguments.resolve s⟩

def render (options : RenderOptions) (arguments : Arguments) (select : Select) :
    Except DialectError RenderedCommand := do
  let tokens := select.tokens
  let sources := sourcesOf tokens
  let parameters ← boundParameters arguments sources
  return ⟨String.join (tokens.map (tokenText options.quoteIdentifiers sources)), parameters⟩

def functionName : String → Option String
  | "to_lower" | "lower" => some "LOWER"
  | "to_upper" | "upper" => some "UPPER"
  | "trim" => some "TRIM"
  | "length" | "len" => some "LENGTH"
  | "substring" => some "SUBSTRING"
  | "replace" => some "REPLACE"
  | "abs" => some "ABS"
  | "round" => some "ROUND"
  | "floor" => some "FLOOR"
  | "ceiling" | "ceil" => some "CEIL"
  | "now" => some "NOW"
  | "date_trunc" => some "DATE_TRUNC"
  | "coalesce" => some "COALESCE"
  | _ => none

def dialect (passthroughFunctions : Bool) : Dialect where
  name := "postgres"
  capabilities := ⟨true, true, passthroughFunctions⟩
  functionName := functionName
  render := render

end Postgres

def DialectTable.builtIn : DialectTable :=
  ⟨[("postgres", Postgres.dialect false), ("postgresql", Postgres.dialect false)]⟩

end SequenceQuery
