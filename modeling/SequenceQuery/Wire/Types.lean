import SequenceQuery.Calendar.Parse
import SequenceQuery.Data.Failure
import SequenceQuery.Json.Parse

namespace SequenceQuery

inductive ServerType
  | bool | int2 | int4 | int8 | float4 | float8
  | text | varchar | name | char | bpchar | bytea
  | date | time | timestamp | timestamptz | json | jsonb | unknown
  /-- A type that values are not exchanged in. -/
  | other (typeName : String)
  deriving DecidableEq

namespace ServerType

def label : ServerType → String
  | .bool => "bool"
  | .int2 => "int2"
  | .int4 => "int4"
  | .int8 => "int8"
  | .float4 => "float4"
  | .float8 => "float8"
  | .text => "text"
  | .varchar => "varchar"
  | .name => "name"
  | .char => "char"
  | .bpchar => "bpchar"
  | .bytea => "bytea"
  | .date => "date"
  | .time => "time"
  | .timestamp => "timestamp"
  | .timestamptz => "timestamptz"
  | .json => "json"
  | .jsonb => "jsonb"
  | .unknown => "unknown"
  | .other typeName => typeName

def everyNamed : List ServerType :=
  [.bool, .int2, .int4, .int8, .float4, .float8, .text, .varchar, .name, .char, .bpchar, .bytea,
   .date, .time, .timestamp, .timestamptz, .json, .jsonb, .unknown]

def ofLabel (label : String) : ServerType :=
  (everyNamed.find? fun t => t.label == label).getD (.other label)

/-- Types that text is exchanged in as it is. -/
def holdsText : ServerType → Bool
  | .text | .varchar | .name | .bpchar | .unknown => true
  | _ => false

end ServerType

namespace Wire

abbrev Bytes := List UInt8

def natOf (bs : Bytes) : Nat := bs.foldl (fun n b => n * 256 + b.toNat) 0

def intOf (bs : Bytes) : Int := (natOf bs : Int).bmod (Nat.pow 256 bs.length)

/-- The number in so many bytes, the higher ones cut off. -/
def bytesOf : (width : Nat) → Nat → Bytes
  | 0, _ => []
  | width + 1, n => bytesOf width (n / 256) ++ [UInt8.ofNat (n % 256)]

def signedBytes (width : Nat) (n : Int) : Bytes := bytesOf width (n % Nat.pow 256 width).toNat

def exactly (width : Nat) (bs : Bytes) : Option Bytes := if bs.length = width then some bs else none

def utf8? (bs : Bytes) : Option String := String.fromUTF8? (ByteArray.mk bs.toArray)

def utf8Bytes (s : String) : Bytes := s.toUTF8.toList

def jsonOf (bs : Bytes) : Option Json := do Json.parse? (← utf8? bs)

/-- The cell that the bytes of a column hold, if they are of its type. -/
def cellOf? (type : ServerType) (bs : Bytes) : Option Cell :=
  match type with
  | .bool => (exactly 1 bs).map fun bs => .bool (natOf bs != 0)
  | .int2 => (exactly 2 bs).map fun bs => .int16 (Int16.ofInt (intOf bs))
  | .int4 => (exactly 4 bs).map fun bs => .int32 (Int32.ofInt (intOf bs))
  | .int8 => (exactly 8 bs).map fun bs => .int64 (Int64.ofInt (intOf bs))
  | .float4 => (exactly 4 bs).map fun bs => .float32 ⟨UInt32.ofNat (natOf bs)⟩
  | .float8 => (exactly 8 bs).map fun bs => .float64 ⟨UInt64.ofNat (natOf bs)⟩
  | .text | .varchar | .name | .bpchar | .unknown => (utf8? bs).map .text
  | .bytea => some (.bytes bs)
  | .date => do return .date (← Date.ofDays? (intOf (← exactly 4 bs)))
  | .time => (exactly 8 bs).map fun bs => .time (.ofMicros (intOf bs))
  | .timestamp => do return .timestamp (← Timestamp.ofMicros? (intOf (← exactly 8 bs)))
  | .timestamptz => do return .timestamptz (← Timestamp.ofMicros? (intOf (← exactly 8 bs)))
  | .json => (jsonOf bs).map .json
  | .jsonb =>
    match bs with
    | 1 :: rest => (jsonOf rest).map .json
    | _ => none
  | .char | .other _ => none

/-- The cell of a column. What cannot be read is null; a type that is not read is named. -/
def cellOf (type : ServerType) (bytes : Option Bytes) : Cell :=
  match bytes.bind (cellOf? type), type with
  | some c, _ => c
  | none, .unknown | none, .other _ => .unknown type.label
  | none, _ => .null

/-- A parameter as it is sent, or one that the wire client refuses to send as its type. -/
inductive Outgoing
  | sent (bytes : Option Bytes)
  | refused
  deriving DecidableEq

def sendsNull : ServerType → Bool
  | .bool | .int2 | .int4 | .int8 | .float4 | .float8 | .date | .timestamp | .timestamptz | .json
  | .jsonb => true
  | t => t.holdsText

def fitting (width : Nat) (n : Int) : Option Outgoing :=
  if n.bmod (Nat.pow 256 width) = n then some (.sent (signedBytes width n)) else none

def intParameter (n : Int64) : ServerType → Option Outgoing
  | .int2 => fitting 2 n.toInt
  | .int4 => fitting 4 n.toInt
  | .int8 => fitting 8 n.toInt
  | .float4 => some (.sent (bytesOf 4 (Single.ofInt n.toInt).bits.toNat))
  | .float8 => some (.sent (bytesOf 8 (Double.ofInt n.toInt).bits.toNat))
  | .text | .varchar => some (.sent (utf8Bytes (toString n.toInt)))
  | _ => none

def jsonText (s : String) : Option Bytes := (Json.parse? s).map fun j => utf8Bytes j.compact

def textParameter (s : String) : ServerType → Option Outgoing
  | .text | .varchar | .name | .bpchar => some (.sent (utf8Bytes s))
  | .char => some .refused
  | .date => (Date.parse? s).map fun d => .sent (signedBytes 4 d.toDays)
  | .timestamp => (Timestamp.parse? s).map fun t => .sent (signedBytes 8 t.toMicros)
  | .timestamptz => (Timestamp.parseUtc? s).map fun t => .sent (signedBytes 8 t.toMicros)
  | .json => (jsonText s).map fun bs => .sent bs
  | .jsonb => (jsonText s).map fun bs => .sent (1 :: bs)
  | _ => none

/-- A value as a parameter of the server's type, if it fits. -/
def parameter? (type : ServerType) : Value → Option Outgoing
  | .null => some (if sendsNull type then .sent none else .refused)
  | .bool b => if type = .bool then some (.sent (some [if b then 1 else 0])) else none
  | .int n => intParameter n type
  | .float x =>
    match type with
    | .float4 => some (.sent (bytesOf 4 (Single.ofDouble x).bits.toNat))
    | .float8 => some (.sent (bytesOf 8 x.bits.toNat))
    | _ => none
  | .text s => textParameter s type

def parametersFrom (index : Nat) :
    List Value → List ServerType → Except ExecutionError (List Outgoing)
  | v :: vs, t :: ts =>
    match parameter? t v with
    | none => .error (.parameter index v.display t.label)
    | some p => return p :: (← parametersFrom (index + 1) vs ts)
  | _, _ => .ok []

/-- The values as parameters of the types that the server inferred for a statement. -/
def parameters (values : List Value) (types : List ServerType) :
    Except ExecutionError (List Outgoing) :=
  if values.length = types.length then parametersFrom 1 values types
  else .error (.command ("statement expects " ++ toString types.length ++ " parameters, got " ++
    toString values.length))

end Wire

end SequenceQuery
