import SequenceQuery.Provider.Basic
import SequenceQuery.Toml.Format

namespace SequenceQuery

structure Config where
  dialect : String
  render : RenderOptions
  cache : CacheOptions
  entities : List Entity
  deriving DecidableEq

inductive ConfigError
  /-- The text is no TOML document, or its values have the wrong types. -/
  | malformed
  | zeroCapacity
  | unreadable (path : String)
  | invalidFile (path : String) (reason : ConfigError)
  | unknownDialect (name : String) (available : List String)
  deriving DecidableEq

namespace ConfigError

/-- The causes from the outermost one on. What a reader of TOML says is left out. -/
def messages : ConfigError → List String
  | .malformed => []
  | .zeroCapacity =>
    ["cache.max_entries must be greater than zero when the cache is enabled"]
  | .unreadable path => ["Failed to read config file " ++ path]
  | .invalidFile path reason => ("Invalid config file " ++ path) :: reason.messages
  | .unknownDialect name available =>
    ["unknown dialect `" ++ name ++ "` (available: " ++ ", ".intercalate available ++ ")"]

end ConfigError

namespace Config

def defaultOptions : RenderOptions := ⟨false, false⟩

def defaultCache : CacheOptions := ⟨true, 1024, "eq", none⟩

def default : Config := ⟨"postgres", defaultOptions, defaultCache, []⟩

/-- A record as a table, or as an array of its fields in their order. A date or a time counts as a
record that leaves out every field. -/
def fieldsOf (names : List String) : Toml → Option (List (String × Toml))
  | .table entries => some entries
  | .arr items => some (names.zip items)
  | .moment _ => some []
  | _ => none

def field {α : Type} (fields : List (String × Toml)) (name : String) (read : Toml → Option α)
    (missing : Option α) : Option α :=
  match fields.lookup name with
  | some v => read v
  | none => missing

def text : Toml → Option String
  | .str s => some s
  | _ => none

/-- One of several names, as text or as the only key of a table with nothing under it. -/
def choice : Toml → Option String
  | .str s => some s
  | .table [(name, .table [])] => some name
  | .table [(name, .arr [])] => some name
  | _ => none

def dataType (t : Toml) : Option DataType := (choice t).bind DataType.ofName?

def flag : Toml → Option Bool
  | .bool b => some b
  | _ => none

def count : Toml → Option UInt64
  | .int n => if 0 ≤ n then some (UInt64.ofNat n.toNat) else none
  | _ => none

def list {α : Type} (read : Toml → Option α) : Toml → Option (List α)
  | .arr items => items.mapM read
  | _ => none

def optionsOf (t : Toml) : Option RenderOptions := do
  let fs ← fieldsOf ["quote_identifiers", "trace_entity_state"] t
  return ⟨← field fs "quote_identifiers" flag (some defaultOptions.quoteIdentifiers),
    ← field fs "trace_entity_state" flag (some defaultOptions.traceEntityState)⟩

def cacheOf (t : Toml) : Option CacheOptions := do
  let fs ← fieldsOf ["enabled", "max_entries", "ttl_seconds", "key_prefix"] t
  return ⟨← field fs "enabled" flag (some defaultCache.enabled),
    ← field fs "max_entries" count (some defaultCache.maxEntries),
    ← field fs "key_prefix" text (some defaultCache.keyPrefix),
    ← field fs "ttl_seconds" (fun v => (count v).map some) (some none)⟩

def propertyOf (t : Toml) : Option Property := do
  let fs ← fieldsOf ["name", "column", "data_type", "nullable", "primary_key"] t
  return ⟨← field fs "name" text none, ← field fs "column" text none,
    ← field fs "data_type" dataType none,
    ← field fs "nullable" flag (some false), ← field fs "primary_key" flag (some false)⟩

def entityOf (t : Toml) : Option Entity := do
  let fs ← fieldsOf ["name", "table", "schema", "properties"] t
  return ⟨← field fs "name" text none, ← field fs "table" text none,
    ← field fs "schema" (fun v => (text v).map some) (some none),
    ← field fs "properties" (list propertyOf) (some [])⟩

def ofToml? (t : Toml) : Option Config := do
  let fs ← fieldsOf ["dialect", "translate", "cache", "entities"] t
  return ⟨← field fs "dialect" text (some default.dialect),
    ← field fs "translate" optionsOf (some defaultOptions),
    ← field fs "cache" cacheOf (some defaultCache),
    ← field fs "entities" (list entityOf) (some [])⟩

def parseIn (format : Toml.Format) (content : String) : Except ConfigError Config :=
  match (format.parse content).bind ofToml? with
  | none => .error .malformed
  | some c => if c.cache.enabled && c.cache.maxEntries == 0 then .error .zeroCapacity else .ok c

def parse : String → Except ConfigError Config := parseIn .own

def optional {α : Type} (key : String) (write : α → Toml) : Option α → List (String × Toml)
  | none => []
  | some a => [(key, write a)]

def propertyToml (p : Property) : Toml :=
  .table [("name", .str p.name), ("column", .str p.column), ("data_type", .str p.dataType.name),
    ("nullable", .bool p.nullable), ("primary_key", .bool p.primaryKey)]

def entityToml (e : Entity) : Toml :=
  .table ([("name", .str e.name), ("table", .str e.table)] ++ optional "schema" .str e.schema ++
    [("properties", .arr (e.properties.map propertyToml))])

def countToml (n : UInt64) : Toml := .int n.toNat

def optionsToml (o : RenderOptions) : Toml :=
  .table [("quote_identifiers", .bool o.quoteIdentifiers),
    ("trace_entity_state", .bool o.traceEntityState)]

def cacheToml (c : CacheOptions) : Toml :=
  .table ([("enabled", .bool c.enabled), ("max_entries", countToml c.maxEntries)] ++
    optional "ttl_seconds" countToml c.ttlSeconds ++ [("key_prefix", .str c.keyPrefix)])

def entries (c : Config) : List (String × Toml) :=
  [("dialect", .str c.dialect),
    ("translate", optionsToml c.render), ("cache", cacheToml c.cache),
    ("entities", .arr (c.entities.map entityToml))]

def toToml (c : Config) : Toml := .table c.entries

def printIn (format : Toml.Format) (c : Config) : Option String := format.print c.toToml

/-- Whether writing a configuration and reading it again gives it back. -/
def survivesWriting (c : Config) : Bool :=
  match c.printIn .own with
  | some text => (parse text).toOption == some c
  | none => false

/-- What a path of a configuration file leads to. -/
inductive File
  | missing
  | unreadable
  | content (text : String)

def ofFile (path : String) : File → Except ConfigError Config
  | .content text => (parse text).mapError (.invalidFile path)
  | _ => .error (.unreadable path)

/-- Without a file the defaults hold. -/
def ofFileOrDefault (path : String) : File → Except ConfigError Config
  | .missing => .ok default
  | file => ofFile path file

/-- The surroundings that a configuration describes, its dialect taken from a registry. -/
def setting (c : Config) (registry : DialectTable) : Except ConfigError Setting :=
  match registry.resolve? c.dialect with
  | none => .error (.unknownDialect c.dialect registry.sortedNames)
  | some dialect => .ok ⟨dialect, .ofList c.entities, c.render, c.cache⟩

end Config

end SequenceQuery
