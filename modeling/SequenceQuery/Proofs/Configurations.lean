import SequenceQuery.Config.Basic
import SequenceQuery.Proofs.TomlDocuments

namespace SequenceQuery

theorem DataType.ofName?_name (t : DataType) : DataType.ofName? t.name = some t := by
  cases t <;> decide

namespace Config

open Toml

section Counts

variable {t : Toml} {fs : List (String × Toml)} {n : UInt64}

def Fits (n : UInt64) : Prop := n.toNat < Nat.pow 2 63

theorem fits_default : Fits defaultCache.maxEntries := by
  unfold Fits
  decide

theorem fits_count (ht : Bounded t) (h : count t = some n) : Fits n := by
  cases ht with
  | @int i hi =>
    rw [count] at h
    split at h
    case isFalse => cases h
    case isTrue hpos =>
      cases h
      have hpow : Nat.pow 2 63 = 9223372036854775808 := rfl
      rw [Is64Bit, hpow] at hi
      rw [Fits, hpow, UInt64.toNat_ofNat', Nat.mod_eq_of_lt (by omega)]
      omega
  | _ => cases h

theorem bounded_fieldsOf {names : List String} (ht : Bounded t) (h : fieldsOf names t = some fs) :
    ∀ e ∈ fs, Bounded e.2 := by
  cases t with
  | table entries =>
    cases h
    exact ht.entries
  | arr items =>
    cases h
    exact fun e he => ht.items _ (List.of_mem_zip he).2
  | moment text =>
    cases h
    simp
  | _ => cases h

theorem field_eq_some {α : Type} {name : String} {read : Toml → Option α} {missing : Option α}
    {a : α} (hfs : ∀ e ∈ fs, Bounded e.2) (h : field fs name read missing = some a) :
    missing = some a ∨ ∃ v, Bounded v ∧ read v = some a := by
  rw [field] at h
  split at h
  case h_1 v hv =>
    obtain ⟨before, behind, rfl, -⟩ := List.lookup_eq_some_iff.1 hv
    exact .inr ⟨v, hfs (name, v) (by simp), h⟩
  case h_2 => exact .inl h

/-- The counts of a cache are defaults or were read from a document, which holds no larger ones. -/
theorem fits_cacheOf {o : CacheOptions} (ht : Bounded t) (h : cacheOf t = some o) :
    Fits o.maxEntries ∧ ∀ ttl ∈ o.ttlSeconds, Fits ttl := by
  obtain ⟨fs, hfs, h⟩ := Option.bind_eq_some_iff.1 h
  obtain ⟨enabled, -, h⟩ := Option.bind_eq_some_iff.1 h
  obtain ⟨most, hmost, h⟩ := Option.bind_eq_some_iff.1 h
  obtain ⟨keyPrefix, -, h⟩ := Option.bind_eq_some_iff.1 h
  obtain ⟨ttl, httl, ⟨⟩⟩ := Option.bind_eq_some_iff.1 h
  have hbounded := bounded_fieldsOf ht hfs
  constructor
  · rcases field_eq_some hbounded hmost with ⟨⟨⟩⟩ | ⟨v, hv, hread⟩
    · exact fits_default
    · exact fits_count hv hread
  · intro seconds hseconds
    rcases field_eq_some hbounded httl with ⟨⟨⟩⟩ | ⟨v, hv, hread⟩
    · cases hseconds
    · obtain ⟨n, hn, rfl⟩ := Option.map_eq_some_iff.1 hread
      cases hseconds
      exact fits_count hv hn

theorem fits_ofToml? {c : Config} (ht : Bounded t) (h : ofToml? t = some c) :
    Fits c.cache.maxEntries ∧ ∀ ttl ∈ c.cache.ttlSeconds, Fits ttl := by
  obtain ⟨fs, hfs, h⟩ := Option.bind_eq_some_iff.1 h
  obtain ⟨dialect, -, h⟩ := Option.bind_eq_some_iff.1 h
  obtain ⟨render, -, h⟩ := Option.bind_eq_some_iff.1 h
  obtain ⟨cache, hcache, h⟩ := Option.bind_eq_some_iff.1 h
  obtain ⟨entities, -, ⟨⟩⟩ := Option.bind_eq_some_iff.1 h
  rcases field_eq_some (bounded_fieldsOf ht hfs) hcache with ⟨⟨⟩⟩ | ⟨v, hv, hread⟩
  · exact ⟨fits_default, fun _ h => by cases h⟩
  · exact fits_cacheOf hv hread

end Counts

section Written

variable {n : UInt64} {c : Config}

theorem written_countToml {d : Nat} (h : Fits n) : Written d (countToml n) := by
  have hpow : Nat.pow 2 63 = 9223372036854775808 := rfl
  rw [Fits, hpow] at h
  refine .int ?_
  rw [Is64Bit, hpow]
  omega

theorem written_propertyToml (p : Property) : Written 1 (propertyToml p) := by
  refine .table (by simp) ?_
  simp only [List.forall_mem_cons]
  exact ⟨.str _, .str _, .str _, .bool _, .bool _, by simp⟩

/-- Tables that records are written as make an array of tables. -/
theorem written_list {α : Type} {d : Nat} {write : α → List (String × Toml)}
    (h : ∀ a, Written d (.table (write a))) (as : List α) :
    Written d (.arr (as.map fun a => .table (write a))) := by
  have hmap : (as.map fun a => Toml.table (write a)) = (as.map write).map .table := by
    rw [List.map_map]
    rfl
  rw [hmap]
  refine .tables fun entries hentries => ?_
  obtain ⟨a, -, rfl⟩ := List.mem_map.1 hentries
  exact h a

theorem written_entityToml (e : Entity) : Written 2 (entityToml e) := by
  have hproperties : Written 1 (.arr (e.properties.map propertyToml)) :=
    written_list written_propertyToml e.properties
  cases hschema : e.schema with
  | none =>
    rw [entityToml, hschema]
    refine .table (by simp [optional]) ?_
    simp only [optional, List.cons_append, List.nil_append, List.forall_mem_cons]
    exact ⟨.str _, .str _, hproperties, by simp⟩
  | some schema =>
    rw [entityToml, hschema]
    refine .table (by simp [optional]) ?_
    simp only [optional, List.cons_append, List.nil_append, List.forall_mem_cons]
    exact ⟨.str _, .str _, .str _, hproperties, by simp⟩

theorem written_cacheToml {o : CacheOptions} {d : Nat} (hmost : Fits o.maxEntries)
    (httl : ∀ ttl ∈ o.ttlSeconds, Fits ttl) : Written (d + 1) (cacheToml o) := by
  cases hseconds : o.ttlSeconds with
  | none =>
    rw [cacheToml, hseconds]
    refine .table (by simp [optional]) ?_
    simp only [optional, List.cons_append, List.nil_append, List.forall_mem_cons]
    exact ⟨.bool _, written_countToml hmost, .str _, by simp⟩
  | some ttl =>
    rw [cacheToml, hseconds]
    refine .table (by simp [optional]) ?_
    simp only [optional, List.cons_append, List.nil_append, List.forall_mem_cons]
    exact ⟨.bool _, written_countToml hmost, written_countToml (httl ttl hseconds), .str _, by simp⟩

theorem written_toToml (hmost : Fits c.cache.maxEntries)
    (httl : ∀ ttl ∈ c.cache.ttlSeconds, Fits ttl) : Written 3 c.toToml := by
  refine .table (by simp [entries]) ?_
  simp only [entries, List.forall_mem_cons]
  refine ⟨.str _, .table (by simp) ?_, written_cacheToml hmost httl,
    written_list written_entityToml c.entities, by simp⟩
  simp only [List.forall_mem_cons]
  exact ⟨.bool _, .bool _, by simp⟩

end Written

section Reading

/-- Whatever is read with the same contents is read as this record. -/
def Recovers {α : Type} (read : Toml → Option α) (v : Toml) (a : α) : Prop :=
  ∀ t, Same v t → read t = some a

section Fields

variable {α : Type} {name : String} {v : Toml} {fs fs' : List (String × Toml)}
  {read : Toml → Option α} {missing : Option α} {a : α}

theorem field_of_same (h : ∀ key, Option.Rel Same (fs.lookup key) (fs'.lookup key))
    (hv : fs.lookup name = some v) (hread : Recovers read v a) :
    field fs' name read missing = some a := by
  have hrel := h name
  rw [hv] at hrel
  rw [field]
  cases hv' : fs'.lookup name with
  | none =>
    rw [hv'] at hrel
    cases hrel
  | some v' =>
    rw [hv'] at hrel
    cases hrel with
    | some hsame => exact hread v' hsame

theorem field_of_missing (h : ∀ key, Option.Rel Same (fs.lookup key) (fs'.lookup key))
    (hv : fs.lookup name = none) : field fs' name read missing = missing := by
  have hrel := h name
  rw [hv] at hrel
  rw [field]
  cases hv' : fs'.lookup name with
  | none => rfl
  | some v' =>
    rw [hv'] at hrel
    cases hrel

end Fields

theorem recovers_text (s : String) : Recovers text (.str s) s := by
  rintro _ ⟨⟩
  rfl

theorem recovers_flag (b : Bool) : Recovers flag (.bool b) b := by
  rintro _ ⟨⟩
  rfl

theorem recovers_count (n : UInt64) : Recovers count (countToml n) n := by
  rintro _ ⟨⟩
  simp [count]

theorem recovers_dataType (t : DataType) : Recovers dataType (.str t.name) t := by
  rintro _ ⟨⟩
  exact DataType.ofName?_name t

theorem Recovers.optional {α : Type} {read : Toml → Option α} {v : Toml} {a : α}
    (h : Recovers read v a) : Recovers (fun v => (read v).map some) v (some a) :=
  fun t ht => congrArg (Option.map some) (h t ht)

theorem recovers_list {α : Type} {read : Toml → Option α} {write : α → Toml}
    (h : ∀ a, Recovers read (write a) a) (as : List α) :
    Recovers (list read) (.arr (as.map write)) as := by
  intro t ht
  cases ht with
  | @arr _ items hitems =>
    rw [list]
    induction as generalizing items with
    | nil =>
      cases hitems
      rfl
    | cons a as ih =>
      rw [List.map_cons] at hitems
      cases hitems with
      | cons ha has => simp [h a _ ha, ih has]

theorem recovers_property (p : Property) : Recovers propertyOf (propertyToml p) p := by
  intro t ht
  cases ht with
  | @table _ fs h =>
    have hname : field fs "name" text none = some p.name :=
      field_of_same h rfl (recovers_text _)
    have hcolumn : field fs "column" text none = some p.column :=
      field_of_same h rfl (recovers_text _)
    have htype : field fs "data_type" dataType none = some p.dataType :=
      field_of_same h rfl (recovers_dataType _)
    have hnullable : field fs "nullable" flag (some false) = some p.nullable :=
      field_of_same h rfl (recovers_flag _)
    have hprimary : field fs "primary_key" flag (some false) = some p.primaryKey :=
      field_of_same h rfl (recovers_flag _)
    simp [propertyOf, fieldsOf, hname, hcolumn, htype, hnullable, hprimary]

theorem recovers_entity (e : Entity) : Recovers entityOf (entityToml e) e := by
  obtain ⟨name, table, schema, properties⟩ := e
  intro t ht
  cases ht with
  | @table _ fs h =>
    have hname : field fs "name" text none = some name :=
      field_of_same h rfl (recovers_text _)
    have htable : field fs "table" text none = some table :=
      field_of_same h rfl (recovers_text _)
    have hschema : field fs "schema" (fun v => (text v).map some) (some none) = some schema := by
      cases schema with
      | none => exact field_of_missing h rfl
      | some schema => exact field_of_same h rfl (recovers_text schema).optional
    have hproperties : field fs "properties" (list propertyOf) (some []) = some properties :=
      field_of_same h (by cases schema <;> rfl) (recovers_list recovers_property _)
    simp [entityOf, fieldsOf, hname, htable, hschema, hproperties]

theorem recovers_options (o : RenderOptions) : Recovers optionsOf (optionsToml o) o := by
  intro t ht
  cases ht with
  | @table _ fs h =>
    have hquote : field fs "quote_identifiers" flag (some defaultOptions.quoteIdentifiers) =
        some o.quoteIdentifiers := field_of_same h rfl (recovers_flag _)
    have htrace : field fs "trace_entity_state" flag (some defaultOptions.traceEntityState) =
        some o.traceEntityState := field_of_same h rfl (recovers_flag _)
    simp [optionsOf, fieldsOf, hquote, htrace]

theorem recovers_cache (o : CacheOptions) : Recovers cacheOf (cacheToml o) o := by
  obtain ⟨enabled, most, keyPrefix, ttl⟩ := o
  intro t ht
  cases ht with
  | @table _ fs h =>
    have henabled : field fs "enabled" flag (some defaultCache.enabled) = some enabled :=
      field_of_same h rfl (recovers_flag _)
    have hmost : field fs "max_entries" count (some defaultCache.maxEntries) = some most :=
      field_of_same h rfl (recovers_count _)
    have hprefix : field fs "key_prefix" text (some defaultCache.keyPrefix) = some keyPrefix :=
      field_of_same h (by cases ttl <;> rfl) (recovers_text _)
    have httl : field fs "ttl_seconds" (fun v => (count v).map some) (some none) = some ttl := by
      cases ttl with
      | none => exact field_of_missing h rfl
      | some ttl => exact field_of_same h rfl (recovers_count ttl).optional
    simp [cacheOf, fieldsOf, henabled, hmost, hprefix, httl]

theorem recovers_config (c : Config) : Recovers ofToml? c.toToml c := by
  intro t ht
  cases ht with
  | @table _ fs h =>
    have hdialect : field fs "dialect" text (some default.dialect) = some c.dialect :=
      field_of_same h rfl (recovers_text _)
    have hrender : field fs "translate" optionsOf (some defaultOptions) = some c.render :=
      field_of_same h rfl (recovers_options _)
    have hcache : field fs "cache" cacheOf (some defaultCache) = some c.cache :=
      field_of_same h rfl (recovers_cache _)
    have hentities : field fs "entities" (list entityOf) (some []) = some c.entities :=
      field_of_same h rfl (recovers_list recovers_entity _)
    simp [ofToml?, fieldsOf, hdialect, hrender, hcache, hentities]

end Reading

variable {format : Toml.Format}

/-- A configuration that was read is written as a document that says the same. -/
theorem parseIn_printIn_of_parseIn (hformat : format.Lossless) {content : String} {c : Config}
    (h : parseIn format content = .ok c) :
    ∃ text, c.printIn format = some text ∧ parseIn format text = .ok c := by
  rw [parseIn] at h
  split at h
  case h_1 => cases h
  case h_2 read hread =>
    obtain ⟨t, ht, hc⟩ := Option.bind_eq_some_iff.1 hread
    split at h
    case isTrue => cases h
    case isFalse hcapacity =>
      cases h
      obtain ⟨hmost, httl⟩ := fits_ofToml? (hformat.bounded _ _ ht) hc
      obtain ⟨text, t', hprint, hparse, hsame⟩ :=
        hformat.kept 3 c.entries (by decide) (written_toToml hmost httl)
      refine ⟨text, hprint, ?_⟩
      rw [parseIn, hparse, Option.bind_some, recovers_config c t' hsame]
      exact if_neg hcapacity

/-- An array of tables that has an inline table in it; the rest is left out. -/
def sample : String :=
  "[cache]\nttl_seconds = 60\n[[entities]]\nname = 'Customer'\ntable = \"customers\"\n" ++
    "properties = [\x7bname = 'Id', column = 'id', data_type = 'int'\x7d]"

def sampleConfig : Config :=
  ⟨"postgres", defaultOptions, ⟨true, 1024, "eq", some 60⟩,
    [⟨"Customer", "customers", none, [⟨"Id", "id", .int, false, false⟩]⟩]⟩

/-- The tables of what was read stand behind its values, and inside an array under double
brackets. -/
def sampleText : String :=
  "dialect = \"postgres\"\n\n[translate]\nquote_identifiers = false\n" ++
    "trace_entity_state = false\n\n[cache]\nenabled = true\nmax_entries = 1024\n" ++
    "ttl_seconds = 60\nkey_prefix = \"eq\"\n\n[[entities]]\nname = \"Customer\"\n" ++
    "table = \"customers\"\n\n[[entities.properties]]\nname = \"Id\"\ncolumn = \"id\"\n" ++
    "data_type = \"int\"\nnullable = false\nprimary_key = false\n"

theorem parseIn_printIn_sample : parseIn .own sample = .ok sampleConfig ∧
    sampleConfig.printIn .own = some sampleText ∧ parseIn .own sampleText = .ok sampleConfig := by
  have h : parseIn .own sample = .ok sampleConfig := by decide +kernel
  obtain ⟨text, hprint, hparse⟩ := parseIn_printIn_of_parseIn Format.lossless_own h
  have htext : sampleConfig.printIn .own = some sampleText := by decide +kernel
  rw [htext] at hprint
  cases hprint
  exact ⟨h, htext, hparse⟩

end Config

end SequenceQuery
