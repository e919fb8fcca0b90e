import SequenceQuery.Json.Basic

namespace SequenceQuery

inductive TlsMode
  | disable
  | require
  | verifyFull
  deriving DecidableEq

namespace TlsMode

def name : TlsMode → String
  | .disable => "Disable"
  | .require => "Require"
  | .verifyFull => "VerifyFull"

def keyword : TlsMode → String
  | .disable => "disable"
  | .require => "require"
  | .verifyFull => "verify-full"

def ofName? (name : String) : Option TlsMode :=
  [disable, require, verifyFull].find? fun m => m.name == name

end TlsMode

structure ConnectOptions where
  host : String
  tcpPort : UInt16
  database : String
  username : String
  password : String
  sslMode : TlsMode
  acceptInvalidCerts : Bool
  caCertPath : Option String
  deriving DecidableEq

namespace ConnectOptions

def default : ConnectOptions :=
  ⟨"localhost", 5432, "postgres", "postgres", "", .disable, false, none⟩

/-- A value between single quotes; backslashes and quotes in it follow a backslash. -/
def quoteValue (s : String) : String :=
  String.ofList ('\'' ::
    s.toList.flatMap (fun c => if c = '\\' ∨ c = '\'' then ['\\', c] else [c]) ++ ['\''])

def connectionString (o : ConnectOptions) : String :=
  "host=" ++ quoteValue o.host ++ " port=" ++ toString o.tcpPort.toNat ++
    " dbname=" ++ quoteValue o.database ++ " user=" ++ quoteValue o.username ++
    " password=" ++ quoteValue o.password ++ " sslmode=" ++ o.sslMode.keyword ++
    " connect_timeout=10"

def display (o : ConnectOptions) : String :=
  o.username ++ "@" ++ o.host ++ ":" ++ toString o.tcpPort.toNat ++ "/" ++ o.database

/-- The options without the password. -/
def toJson (o : ConnectOptions) : Json :=
  .ofMembers [("host", .str o.host), ("port", .int o.tcpPort.toNat), ("database", .str o.database),
    ("username", .str o.username), ("ssl_mode", .str o.sslMode.name),
    ("accept_invalid_certs", .bool o.acceptInvalidCerts),
    ("ca_cert_path", match o.caCertPath with | none => .null | some p => .str p)]

def fieldNames : List String :=
  ["host", "port", "database", "username", "password", "ssl_mode", "accept_invalid_certs",
   "ca_cert_path"]

/-- A record as an object, or as an array of its fields in their order. -/
def fieldsOf : Json → Option (List (String × Json))
  | .obj members => some members
  | .arr items => if items.length ≤ fieldNames.length then some (fieldNames.zip items) else none
  | _ => none

def text : Json → Option String
  | .str s => some s
  | _ => none

def flag : Json → Option Bool
  | .bool b => some b
  | _ => none

def portOf : Json → Option UInt16
  | .num (.int n) => if 0 ≤ n ∧ n < 65536 then some (UInt16.ofNat n.toNat) else none
  | _ => none

def modeOf : Json → Option TlsMode
  | .str s => TlsMode.ofName? s
  | .obj [(name, .null)] => TlsMode.ofName? name
  | _ => none

def pathOf : Json → Option (Option String)
  | .null => some none
  | .str s => some (some s)
  | _ => none

def field {α : Type} (fields : List (String × Json)) (name : String) (read : Json → Option α)
    (missing : Option α) : Option α :=
  match fields.lookup name with
  | some v => read v
  | none => missing

def ofJson? (j : Json) : Option ConnectOptions := do
  let fs ← fieldsOf j
  return ⟨← field fs "host" text none, ← field fs "port" portOf none,
    ← field fs "database" text none, ← field fs "username" text none,
    ← field fs "password" text (some ""), ← field fs "ssl_mode" modeOf (some .disable),
    ← field fs "accept_invalid_certs" flag (some false),
    ← field fs "ca_cert_path" pathOf (some none)⟩

/-- Why no connection comes about when no server answers and none of the readable files holds a
certificate. -/
def failureMessage (o : ConnectOptions) (readable : String → Bool) : String :=
  if o.sslMode = .disable then "Failed to connect to PostgreSQL"
  else
    let unreachable := "Failed to connect to PostgreSQL over TLS"
    if o.acceptInvalidCerts && o.sslMode = .require then unreachable
    else match o.caCertPath with
      | none => unreachable
      | some path =>
        if readable path then "Failed to parse certificate"
        else "Failed to read CA certificate file: " ++ path

end ConnectOptions

end SequenceQuery
