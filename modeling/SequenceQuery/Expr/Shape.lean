import SequenceQuery.Expr.Basic
import SequenceQuery.SipHash

namespace SequenceQuery

def lastIndex? {α : Type} [DecidableEq α] (x : α) : List α → Option Nat
  | [] => none
  | y :: rest =>
    match lastIndex? x rest with
    | some i => some (i + 1)
    | none => if y = x then some 0 else none

namespace Expr

def commaSeparated : List (List Char) → List Char
  | [] => []
  | [x] => x
  | x :: rest => x ++ ',' :: commaSeparated rest

def inParens (items : List (List Char)) : List Char := '(' :: commaSeparated items ++ [')']

def quotedName (name : String) : List Char := Text.Quoted.encode name.toList

mutual

/-- The shape in a scope that lists the parameters from the outermost on. A parameter is written
as the position of its innermost binder, a free one by name. -/
def shapeIn (scope : List String) : Expr → List Char
  | .entity _ name => 'E' :: quotedName name
  | .call _ op args => op.name.toList ++ inParens (shapesIn scope args)
  | .lambda _ params body =>
    'L' :: (toString params.length).toList ++ inParens [body.shapeIn (scope ++ params)]
  | .param _ name =>
    match lastIndex? name scope with
    | some position => '$' :: (toString position).toList
    | none => '?' :: quotedName name
  | .member _ target name => 'M' :: inParens [target.shapeIn scope, quotedName name]
  | .const _ value => '#' :: value.kind.toList
  | .segment .. => '#' :: "segment".toList
  | .binary _ op left right =>
    "B:".toList ++ op.name.toList ++ inParens [left.shapeIn scope, right.shapeIn scope]
  | .unary _ op operand => "U:".toList ++ op.name.toList ++ inParens [operand.shapeIn scope]
  | .function _ name args => 'F' :: quotedName name ++ inParens (shapesIn scope args)
  | .object _ fields =>
    'N' :: '\x7b' :: commaSeparated (fieldShapesIn scope fields) ++ ['\x7d']
  | .conditional _ test ifTrue ifFalse =>
    'C' :: inParens [test.shapeIn scope, ifTrue.shapeIn scope, ifFalse.shapeIn scope]

def shapesIn (scope : List String) : List Expr → List (List Char)
  | [] => []
  | e :: rest => e.shapeIn scope :: shapesIn scope rest

def fieldShapesIn (scope : List String) : List (String × Expr) → List (List Char)
  | [] => []
  | (name, e) :: rest => (quotedName name ++ ':' :: e.shapeIn scope) :: fieldShapesIn scope rest

end

def shape (e : Expr) : List Char := e.shapeIn []

end Expr

/-- The shape with its hash. Two are equal when both agree. -/
structure Fingerprint where
  shape : List Char
  hash : UInt64
  deriving DecidableEq

namespace Fingerprint

def ofExpr (e : Expr) : Fingerprint := ⟨e.shape, SipHash.ofString (String.ofList e.shape)⟩

def display (f : Fingerprint) : String := String.ofList (Text.Hex.padded 16 f.hash.toNat)

end Fingerprint

end SequenceQuery
