import SequenceQuery.Select.Basic
import SequenceQuery.Text.Ascii

namespace SequenceQuery

inductive Token
  | word (s : String)
  /-- The name of a function, never quoted. -/
  | routine (s : String)
  | ident (s : String)
  | number (s : String)
  | text (s : String)
  | placeholder (source : Source)
  | symbol (s : String)
  | blank
  deriving DecidableEq

namespace Token

def source? : Token → Option Source
  | .placeholder s => some s
  | _ => none

def words : List String → List Token
  | [] => []
  | [w] => [.word w]
  | w :: rest => .word w :: .blank :: words rest

def parens (inner : List Token) : List Token := .symbol "(" :: inner ++ [.symbol ")"]

def parensIf (wrap : Bool) (inner : List Token) : List Token :=
  if wrap then parens inner else inner

def commaList : List (List Token) → List Token
  | [] => []
  | [item] => item
  | item :: rest => item ++ .symbol "," :: .blank :: commaList rest

/-- A clause after a blank, absent without a body. -/
def clause (keyword : List String) : Option (List Token) → List Token
  | none => []
  | some body => .blank :: words keyword ++ .blank :: body

def listClause (keyword : List String) : List (List Token) → List Token
  | [] => []
  | items => clause keyword (some (commaList items))

/-- A name in its qualifier, as in `label.column`. -/
def qualified : Option String → String → List Token
  | none, name => [.ident name]
  | some qualifier, name => [.ident qualifier, .symbol ".", .ident name]

def labelled (body : List Token) (label : String) : List Token :=
  body ++ [.blank, .word "AS", .blank, .ident label]

end Token

namespace SqlBinary

def token : SqlBinary → Token
  | .eq => .symbol "="
  | .notEq => .symbol "<>"
  | .lt => .symbol "<"
  | .ltEq => .symbol "<="
  | .gt => .symbol ">"
  | .gtEq => .symbol ">="
  | .and => .word "AND"
  | .or => .word "OR"
  | .plus => .symbol "+"
  | .minus => .symbol "-"
  | .multiply => .symbol "*"
  | .divide => .symbol "/"
  | .modulo => .symbol "%"
  | .like => .word "LIKE"
  | .concat => .symbol "||"

end SqlBinary

def Value.token : Value → Token
  | .null => .word "NULL"
  | .bool b => .word (if b then "TRUE" else "FALSE")
  | .int n => .number (toString n.toInt)
  | .float x => .number x.text
  | .text s => .text s

namespace SqlExpr

/-- Whether an operand binds looser than the operator it stands beside, so that it needs
parentheses. -/
def bindsLooser (operand : SqlExpr) (parent : SqlBinary) (right : Bool) : Bool :=
  match operand with
  | .binary op .. =>
    op.precedence < parent.precedence
      || (right && op.precedence == parent.precedence && !(op == parent && parent.isAssociative))
  | .unary .not _ => !(parent == .and || parent == .or)
  | _ => false

def isBinary : SqlExpr → Bool
  | .binary .. => true
  | _ => false

end SqlExpr

open Token

mutual

def Select.tokens : Select → List Token
  | ⟨distinct, items, source, joins, filter, groupBy, having, orderBy, limit, offset, _⟩ =>
    words (if distinct then ["SELECT", "DISTINCT"] else ["SELECT"]) ++
    .blank :: (if items.isEmpty then [.symbol "*"] else commaList (itemTokens items)) ++
    clause ["FROM"] (sourceTokens source) ++
    joinTokens joins ++
    clause ["WHERE"] (optionTokens filter) ++
    listClause ["GROUP", "BY"] (listTokens groupBy) ++
    clause ["HAVING"] (optionTokens having) ++
    listClause ["ORDER", "BY"] (keyTokens orderBy) ++
    clause ["LIMIT"] (optionTokens limit) ++
    clause ["OFFSET"] (optionTokens offset)

def itemTokens : List SelectItem → List (List Token)
  | [] => []
  | .wildcard :: rest => [.symbol "*"] :: itemTokens rest
  | .expr e none :: rest => e.tokens :: itemTokens rest
  | .expr e (some label) :: rest => labelled e.tokens label :: itemTokens rest

def Table.tokens : Table → List Token
  | .table schema name label => labelled (qualified schema name) label
  | .subquery query label => labelled (parens query.tokens) label

def sourceTokens : Option Table → Option (List Token)
  | none => none
  | some table => some table.tokens

/-- A join without a condition joins on TRUE. -/
def joinTokens : List Join → List Token
  | [] => []
  | ⟨kind, table, condition⟩ :: rest =>
    clause (match kind with | .inner => ["JOIN"] | .left => ["LEFT", "JOIN"]) (some table.tokens) ++
    clause ["ON"] (some ((optionTokens condition).getD [.word "TRUE"])) ++ joinTokens rest

def keyTokens : List SortKey → List (List Token)
  | [] => []
  | ⟨e, ascending⟩ :: rest =>
    (if ascending then e.tokens else e.tokens ++ [.blank, .word "DESC"]) :: keyTokens rest

def optionTokens : Option SqlExpr → Option (List Token)
  | none => none
  | some e => some e.tokens

def listTokens : List SqlExpr → List (List Token)
  | [] => []
  | e :: rest => e.tokens :: listTokens rest

def armTokens : List (SqlExpr × SqlExpr) → List Token
  | [] => []
  | (test, value) :: rest =>
    clause ["WHEN"] (some test.tokens) ++ clause ["THEN"] (some value.tokens) ++ armTokens rest

def SqlExpr.tokens : SqlExpr → List Token
  | .column table name => qualified table name
  | .literal value => [value.token]
  | .param source => [.placeholder source]
  | .binary op left right =>
    parensIf (left.bindsLooser op false) left.tokens ++ [.blank, op.token, .blank] ++
      parensIf (right.bindsLooser op true) right.tokens
  | .unary .not operand => .word "NOT" :: .blank :: parensIf operand.isBinary operand.tokens
  | .unary .minus operand => .symbol "-" :: parensIf operand.isBinary operand.tokens
  | .function name args => .routine name :: parens (commaList (listTokens args))
  | .aggregate name args distinct =>
    let call := .routine name :: parens
      ((if distinct then [.word "DISTINCT", .blank] else []) ++ commaList (listTokens args))
    -- The mean of integers is an exact number, while results are read as binary ones.
    if Text.sameFold name "AVG" then
      .word "CAST" :: parens (call ++ .blank :: words ["AS", "DOUBLE", "PRECISION"])
    else call
  | .cases arms otherwise =>
    .word "CASE" :: armTokens arms ++ clause ["ELSE"] (optionTokens otherwise) ++
      [.blank, .word "END"]
  | .subquery query => parens query.tokens
  | .exist query negated =>
    words (if negated then ["NOT", "EXISTS"] else ["EXISTS"]) ++ .blank :: parens query.tokens
  | .isIn operand query negated =>
    operand.tokens ++ .blank :: words (if negated then ["NOT", "IN"] else ["IN"]) ++
      .blank :: parens query.tokens
  | .isNull operand negated =>
    parensIf operand.isBinary operand.tokens ++
      .blank :: words (if negated then ["IS", "NOT", "NULL"] else ["IS", "NULL"])
  | .wildcard => [.symbol "*"]
  | .nested inner => parens inner.tokens

end

end SequenceQuery
