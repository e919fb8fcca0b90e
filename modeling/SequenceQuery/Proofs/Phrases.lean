import SequenceQuery.Proofs.StatementPieces

namespace SequenceQuery

/-- What tokens stand for: an operand that is no further divided, an operation, or what stands
between a head and its end. -/
inductive Phrase
  | leaf (tokens : List Token)
  | binary (op : SqlBinary) (left right : Phrase)
  | node (head : List Token) (parts : List Phrase)

namespace SqlBinary

/-- The place in PostgreSQL's operator table, counted from the loosest. -/
def level : SqlBinary → Nat
  | .or => 1
  | .and => 2
  | .eq | .notEq | .lt | .ltEq | .gt | .gtEq => 5
  | .like => 6
  | .concat => 7
  | .plus | .minus => 8
  | .multiply | .divide | .modulo => 9

end SqlBinary

inductive Infix
  | binary (op : SqlBinary)
  | isNull (negated : Bool)
  | isIn (negated : Bool)

namespace Infix

def level : Infix → Nat
  | .binary op => op.level
  | .isNull _ => 4
  | .isIn _ => 6

def isSingle (level : Nat) : Bool := level == 5 || level == 6

def isNullHead (negated : Bool) : List Token :=
  if negated then [.word "IS", .word "NOT", .word "NULL"] else [.word "IS", .word "NULL"]

def isInHead (negated : Bool) : List Token :=
  if negated then [.word "NOT", .word "IN"] else [.word "IN"]

def first? : List Token → Option (Infix × List Token)
  | .word "IS" :: .word "NULL" :: rest => some (.isNull false, rest)
  | .word "IS" :: .word "NOT" :: .word "NULL" :: rest => some (.isNull true, rest)
  | .word "IN" :: rest => some (.isIn false, rest)
  | .word "NOT" :: .word "IN" :: rest => some (.isIn true, rest)
  | t :: rest => (SqlBinary.everyOp.find? fun op => op.token = t).map fun op => (.binary op, rest)
  | [] => none

end Infix

namespace Token

/-- The words and signs between the expressions of a statement, a CASE or a list. -/
def separates : Token → Bool
  | .word s => s ∈ ["SELECT", "DISTINCT", "FROM", "JOIN", "LEFT", "ON", "WHERE", "GROUP", "BY",
      "HAVING", "ORDER", "DESC", "LIMIT", "OFFSET", "AS", "WHEN", "THEN", "ELSE", "DOUBLE",
      "PRECISION"]
  | .symbol s => s == ","
  | _ => false

def closes : Token → Bool
  | .word s => s == "END"
  | .symbol s => s == ")"
  | _ => false

def visible (tokens : List Token) : List Token := tokens.filter fun t => t ≠ .blank

end Token

namespace Phrase

def closedBy (t : Token) : List Phrase × List Token → Option (List Phrase × List Token)
  | (ps, t' :: rest) => if t' = t then some (ps, rest) else none
  | (_, []) => none

def grouped : List Phrase → Phrase
  | [p] => p
  | ps => .node [] ps

mutual

def several : Nat → List Token → Option (List Phrase × List Token)
  | 0, _ => none
  | _ + 1, [] => some ([], [])
  | fuel + 1, t :: rest =>
    if t.closes then some ([], t :: rest)
    else if t.separates then do
      let (ps, rest) ← several fuel rest
      return (.leaf [t] :: ps, rest)
    else do
      let (p, rest) ← one fuel 0 (t :: rest)
      let (ps, rest) ← several fuel rest
      return (p :: ps, rest)

/-- An expression of operators from a level on. -/
def one : Nat → Nat → List Token → Option (Phrase × List Token)
  | 0, _, _ => none
  | fuel + 1, least, tokens => do
    let (p, rest) ← operand fuel tokens
    behind fuel least 0 p rest

def operand : Nat → List Token → Option (Phrase × List Token)
  | 0, _ => none
  | fuel + 1, tokens =>
    match tokens with
    | .ident q :: .symbol "." :: .ident c :: rest =>
      some (.leaf [.ident q, .symbol ".", .ident c], rest)
    | .ident c :: rest => some (.leaf [.ident c], rest)
    | .number s :: rest => some (.leaf [.number s], rest)
    | .text s :: rest => some (.leaf [.text s], rest)
    | .placeholder s :: rest => some (.leaf [.placeholder s], rest)
    | .symbol "*" :: rest => some (.leaf [.symbol "*"], rest)
    | .symbol "-" :: rest => do
      let (p, rest) ← one fuel 11 rest
      return (.node [.symbol "-"] [p], rest)
    | .word "NOT" :: rest => do
      let (p, rest) ← one fuel 4 rest
      return (.node [.word "NOT"] [p], rest)
    | .symbol "(" :: rest => do
      let (ps, rest) ← (several fuel rest).bind (closedBy (.symbol ")"))
      return (grouped ps, rest)
    | .word "CASE" :: rest => do
      let (ps, rest) ← (several fuel rest).bind (closedBy (.word "END"))
      return (.node [.word "CASE"] ps, rest)
    | .word "EXISTS" :: .symbol "(" :: rest => do
      let (ps, rest) ← (several fuel rest).bind (closedBy (.symbol ")"))
      return (.node [.word "EXISTS"] ps, rest)
    | .word "CAST" :: .symbol "(" :: rest => do
      let (ps, rest) ← (several fuel rest).bind (closedBy (.symbol ")"))
      return (.node [.word "CAST"] ps, rest)
    | .routine f :: .symbol "(" :: rest => do
      let (ps, rest) ← (several fuel rest).bind (closedBy (.symbol ")"))
      return (.node [.routine f] ps, rest)
    | .word s :: rest =>
      if s ∈ ["NULL", "TRUE", "FALSE"] then some (.leaf [.word s], rest) else none
    | _ => none

/-- The operators behind an operand, when `last` is the level of the one that made it. -/
def behind : Nat → (least last : Nat) → Phrase → List Token → Option (Phrase × List Token)
  | 0, _, _, _, _ => none
  | fuel + 1, least, last, left, tokens =>
    match Infix.first? tokens with
    | none => some (left, tokens)
    | some (op, rest) =>
      if op.level < least then some (left, tokens)
      else if op.level = last ∧ Infix.isSingle last then none
      else past fuel least op left rest

/-- An operator behind an operand, with what belongs to it and what is behind that. -/
def past : Nat → Nat → Infix → Phrase → List Token → Option (Phrase × List Token)
  | 0, _, _, _, _ => none
  | fuel + 1, least, op, left, tokens =>
    match op with
    | .isNull negated => behind fuel least 4 (.node (Infix.isNullHead negated) [left]) tokens
    | .isIn negated =>
      match tokens with
      | .symbol "(" :: rest => do
        let (ps, rest) ← (several fuel rest).bind (closedBy (.symbol ")"))
        behind fuel least 6 (.node (Infix.isInHead negated) [left, .node [] ps]) rest
      | _ => none
    | .binary o => do
      let (right, rest) ← one fuel (o.level + 1) tokens
      behind fuel least o.level (.binary o left right) rest
termination_by structural fuel => fuel

end

def read? (fuel : Nat) (tokens : List Token) : Option Phrase :=
  match one fuel 0 (Token.visible tokens) with
  | some (p, []) => some p
  | _ => none

/-- Puts a phrase behind another one in a chain of one operator that associates. -/
def attach (op : SqlBinary) (left : Phrase) : Phrase → Phrase
  | .binary op' a b =>
    if op' = op then .binary op (attach op left a) b else .binary op left (.binary op' a b)
  | right => .binary op left right

def combine (op : SqlBinary) (left right : Phrase) : Phrase :=
  if op.isAssociative then attach op left right else .binary op left right

mutual

/-- The phrase with `a op (b op c)` turned into `(a op b) op c` where that means the same. -/
def regrouped : Phrase → Phrase
  | .leaf tokens => .leaf tokens
  | .binary op left right => combine op left.regrouped right.regrouped
  | .node head parts => .node head (allRegrouped parts)

def allRegrouped : List Phrase → List Phrase
  | [] => []
  | p :: rest => p.regrouped :: allRegrouped rest

end

def keywords (ws : List String) : List Phrase := ws.map fun w => .leaf [.word w]

def commas : List (List Phrase) → List Phrase
  | [] => []
  | [item] => item
  | item :: rest => item ++ .leaf [.symbol ","] :: commas rest

def clause (keyword : List String) : Option (List Phrase) → List Phrase
  | none => []
  | some body => keywords keyword ++ body

def listClause (keyword : List String) : List (List Phrase) → List Phrase
  | [] => []
  | items => clause keyword (some (commas items))

def name : Option String → String → Phrase
  | none, n => .leaf [.ident n]
  | some qualifier, n => .leaf [.ident qualifier, .symbol ".", .ident n]

def labelled (body : List Phrase) (label : String) : List Phrase :=
  body ++ [.leaf [.word "AS"], name none label]

end Phrase

open Phrase in
mutual

def Select.phrases : Select → List Phrase
  | ⟨distinct, items, source, joins, filter, groupBy, having, orderBy, limit, offset, _⟩ =>
    keywords (if distinct then ["SELECT", "DISTINCT"] else ["SELECT"]) ++
    (if items.isEmpty then [.leaf [.symbol "*"]] else commas (itemPhrases items)) ++
    clause ["FROM"] (sourcePhrases source) ++
    joinPhrases joins ++
    clause ["WHERE"] (optionPhrases filter) ++
    listClause ["GROUP", "BY"] (listPhrases groupBy) ++
    clause ["HAVING"] (optionPhrases having) ++
    listClause ["ORDER", "BY"] (keyPhrases orderBy) ++
    clause ["LIMIT"] (optionPhrases limit) ++
    clause ["OFFSET"] (optionPhrases offset)

def itemPhrases : List SelectItem → List (List Phrase)
  | [] => []
  | .wildcard :: rest => [.leaf [.symbol "*"]] :: itemPhrases rest
  | .expr e none :: rest => [e.phrase] :: itemPhrases rest
  | .expr e (some label) :: rest => labelled [e.phrase] label :: itemPhrases rest

def Table.phrases : Table → List Phrase
  | .table schema n label => labelled [name schema n] label
  | .subquery query label => labelled [.node [] query.phrases] label

def sourcePhrases : Option Table → Option (List Phrase)
  | none => none
  | some table => some table.phrases

def joinPhrases : List Join → List Phrase
  | [] => []
  | ⟨kind, table, condition⟩ :: rest =>
    clause (match kind with | .inner => ["JOIN"] | .left => ["LEFT", "JOIN"])
      (some table.phrases) ++
    clause ["ON"] (some ((optionPhrases condition).getD [.leaf [.word "TRUE"]])) ++
    joinPhrases rest

def keyPhrases : List SortKey → List (List Phrase)
  | [] => []
  | ⟨e, ascending⟩ :: rest =>
    (e.phrase :: if ascending then [] else keywords ["DESC"]) :: keyPhrases rest

def optionPhrases : Option SqlExpr → Option (List Phrase)
  | none => none
  | some e => some [e.phrase]

def listPhrases : List SqlExpr → List (List Phrase)
  | [] => []
  | e :: rest => [e.phrase] :: listPhrases rest

def armPhrases : List (SqlExpr × SqlExpr) → List Phrase
  | [] => []
  | (test, value) :: rest =>
    clause ["WHEN"] (some [test.phrase]) ++ clause ["THEN"] (some [value.phrase]) ++
      armPhrases rest

/-- An expression as it is meant. Nesting leaves no trace, and a negated EXISTS is the negation of
one. -/
def SqlExpr.phrase : SqlExpr → Phrase
  | .column table n => name table n
  | .literal value => .leaf [value.token]
  | .param source => .leaf [.placeholder source]
  | .binary op left right => .binary op left.phrase right.phrase
  | .unary .not operand => .node [.word "NOT"] [operand.phrase]
  | .unary .minus operand => .node [.symbol "-"] [operand.phrase]
  | .function f args => .node [.routine f] (commas (listPhrases args))
  | .aggregate f args distinct =>
    let call := Phrase.node [.routine f]
      (keywords (if distinct then ["DISTINCT"] else []) ++ commas (listPhrases args))
    if Text.sameFold f "AVG" then
      .node [.word "CAST"] (call :: keywords ["AS", "DOUBLE", "PRECISION"])
    else call
  | .cases arms otherwise =>
    .node [.word "CASE"] (armPhrases arms ++ clause ["ELSE"] (optionPhrases otherwise))
  | .subquery query => .node [] query.phrases
  | .exist query false => .node [.word "EXISTS"] query.phrases
  | .exist query true => .node [.word "NOT"] [.node [.word "EXISTS"] query.phrases]
  | .isIn operand query negated =>
    .node (Infix.isInHead negated) [operand.phrase, .node [] query.phrases]
  | .isNull operand negated => .node (Infix.isNullHead negated) [operand.phrase]
  | .wildcard => .leaf [.symbol "*"]
  | .nested inner => inner.phrase

end

end SequenceQuery
