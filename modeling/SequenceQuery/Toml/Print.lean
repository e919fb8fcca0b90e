import SequenceQuery.Toml.Parse

namespace SequenceQuery.Toml

def escape (c : Char) : List Char :=
  if c = '"' then ['\\', '"']
  else if c = '\\' then ['\\', '\\']
  else if c = '\n' then ['\\', 'n']
  else if c.toNat < 0x20 ∨ c.toNat = 0x7f then ['\\', 'u'] ++ Text.Hex.padded 4 c.toNat
  else [c]

def quoted (s : String) : String := String.ofList ('"' :: s.toList.flatMap escape ++ ['"'])

/-- A key stands without quotes where it can. -/
def keyText (key : String) : String :=
  if key ≠ "" ∧ key.toList.all isBare then key else quoted key

def pathText (path : List String) : String := ".".intercalate (path.map keyText)

/-- A value on the line of its key. An array there has no items. -/
def valueText : Toml → String
  | .str s => quoted s
  | .int n => toString n
  | .bool b => if b then "true" else "false"
  | _ => "[]"

def lineText (a : Assignment) : String := pathText a.1 ++ " = " ++ valueText a.2 ++ "\n"

def Header.text : Header → String
  | .table path => "[" ++ pathText path ++ "]"
  | .element path => "[[" ++ pathText path ++ "]]"

def sectionText (s : Section) : String :=
  "\n" ++ s.1.text ++ "\n" ++ String.join (s.2.map lineText)

/-- Tables, alone or in an array, stand under headers. -/
def hasHeader : Toml → Bool
  | .table _ => true
  | .arr items => !items.isEmpty
  | _ => false

def lines (entries : List (String × Toml)) : List Assignment :=
  (entries.filter fun e => !hasHeader e.2).map fun e => ([e.1], e.2)

def Header.under (key : String) : Header → Header
  | .table path => .table (key :: path)
  | .element path => .element (key :: path)

/-- The section of a table that stands in another under a key. -/
def Section.under (key : String) (s : Section) : Section := (s.1.under key, s.2)

mutual

def sectionsOf : List (String × Toml) → List Section
  | [] => []
  | (key, v) :: rest => entrySections key v ++ sectionsOf rest

def entrySections (key : String) : Toml → List Section
  | .table entries => (.table [key], lines entries) :: (sectionsOf entries).map (Section.under key)
  | .arr items => elementSections key items
  | _ => []

def elementSections (key : String) : List Toml → List Section
  | [] => []
  | .table entries :: rest =>
    (.element [key], lines entries) :: (sectionsOf entries).map (Section.under key) ++
      elementSections key rest
  | _ :: rest => elementSections key rest

end

def document (entries : List (String × Toml)) : String :=
  String.join ((lines entries).map lineText) ++ String.join ((sectionsOf entries).map sectionText)

mutual

/-- Integers have 64 bits, and arrays hold tables. -/
def isWritable : Toml → Bool
  | .str _ | .bool _ => true
  | .int n => (inRange n).isSome
  | .arr items => areWritable items
  | .table entries => entriesAreWritable entries
  | .float _ | .moment _ => false

def areWritable : List Toml → Bool
  | [] => true
  | .table entries :: rest => entriesAreWritable entries && areWritable rest
  | _ :: _ => false

def entriesAreWritable : List (String × Toml) → Bool
  | [] => true
  | (_, v) :: rest => v.isWritable && entriesAreWritable rest

end

def print? : Toml → Option String
  | .table entries => if entriesAreWritable entries then some (document entries) else none
  | _ => none

end SequenceQuery.Toml
