import SequenceQuery.Number.Shortest
import SequenceQuery.Text.Hex

namespace SequenceQuery

inductive JsonNumber
  | int (n : Int)
  | float (x : Double)
  deriving DecidableEq

inductive Json
  | null
  | bool (b : Bool)
  | num (n : JsonNumber)
  | str (s : String)
  | arr (items : List Json)
  | obj (members : List (String × Json))
  deriving Inhabited

namespace Json

/-- Puts a member in its place; one of the same key is replaced. -/
def insertMember (key : String) (value : Json) : List (String × Json) → List (String × Json)
  | [] => [(key, value)]
  | (k, v) :: rest =>
    if key = k then (key, value) :: rest
    else if key < k then (key, value) :: (k, v) :: rest
    else (k, v) :: insertMember key value rest

/-- The object of these members, the last of each key winning. -/
def ofMembers (members : List (String × Json)) : Json :=
  .obj (members.foldl (fun sorted m => insertMember m.1 m.2 sorted) [])

def int (n : Int) : Json := .num (.int n)

def get? (key : String) : Json → Option Json
  | .obj members => members.lookup key
  | _ => none

/-- A point or an exponent is always written. Positional up to sixteen places before the point and
four zeros after it, with a signed exponent beyond; a tie goes to the even digit. -/
def floatText (x : Double) : String :=
  match x.classify with
  | .finite negative m e =>
    let sign := if negative then "-" else ""
    if m = 0 then sign ++ "0.0"
    else
      let d := Shortest.ofMagnitude .double .even m e
      let ds := Nat.toDigits 10 d.digits
      let point : Int := ds.length + d.exponent
      if 0 ≤ d.exponent ∧ point ≤ 16 then sign ++ d.positional ++ ".0"
      else if -5 < point ∧ point ≤ 16 then sign ++ d.positional
      else
        let exponent := (if 0 < point then "e+" else "e") ++ toString (point - 1)
        match ds with
        | [] => sign ++ exponent
        | [c] => sign ++ String.ofList [c] ++ exponent
        | c :: rest => sign ++ String.ofList (c :: '.' :: rest) ++ exponent
  | _ => "null"

def JsonNumber.text : JsonNumber → String
  | .int n => toString n
  | .float x => floatText x

def escape (c : Char) : List Char :=
  if c = '"' then ['\\', '"']
  else if c = '\\' then ['\\', '\\']
  else if c.toNat = 8 then ['\\', 'b']
  else if c.toNat = 12 then ['\\', 'f']
  else if c = '\n' then ['\\', 'n']
  else if c = '\r' then ['\\', 'r']
  else if c = '\t' then ['\\', 't']
  else if c.toNat < 0x20 then ['\\', 'u'] ++ Text.Hex.padded 4 c.toNat
  else [c]

def stringText (s : String) : String := String.ofList ('"' :: s.toList.flatMap escape ++ ['"'])

mutual

def compact : Json → String
  | .null => "null"
  | .bool b => if b then "true" else "false"
  | .num n => JsonNumber.text n
  | .str s => stringText s
  | .arr items => "[" ++ ",".intercalate (compacts items) ++ "]"
  | .obj members => "\x7b" ++ ",".intercalate (compactMembers members) ++ "\x7d"

def compacts : List Json → List String
  | [] => []
  | item :: rest => item.compact :: compacts rest

def compactMembers : List (String × Json) → List String
  | [] => []
  | (key, value) :: rest => (stringText key ++ ":" ++ value.compact) :: compactMembers rest

end

end Json

end SequenceQuery
