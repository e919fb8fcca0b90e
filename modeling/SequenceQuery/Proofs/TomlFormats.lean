import SequenceQuery.Toml.Format
import Mathlib.Data.List.Forall2

namespace SequenceQuery.Toml

def Is64Bit (n : Int) : Prop := -Nat.pow 2 63 ≤ n ∧ n < Nat.pow 2 63

inductive Bounded : Toml → Prop
  | str (s : String) : Bounded (.str s)
  | int {n : Int} (h : Is64Bit n) : Bounded (.int n)
  | float (x : Double) : Bounded (.float x)
  | bool (b : Bool) : Bounded (.bool b)
  | moment (text : String) : Bounded (.moment text)
  | arr {items : List Toml} (h : ∀ v ∈ items, Bounded v) : Bounded (.arr items)
  | table {entries : List (String × Toml)} (h : ∀ e ∈ entries, Bounded e.2) :
      Bounded (.table entries)

theorem Bounded.items {items : List Toml} (h : Bounded (.arr items)) : ∀ v ∈ items, Bounded v := by
  cases h with
  | arr h => exact h

theorem Bounded.entries {entries : List (String × Toml)} (h : Bounded (.table entries)) :
    ∀ e ∈ entries, Bounded e.2 := by
  cases h with
  | table h => exact h

/-- Strings, booleans, 64-bit integers, tables without a key twice and arrays of tables, the tables
being nested at most `depth` levels deep. -/
inductive Written : Nat → Toml → Prop
  | str {depth : Nat} (s : String) : Written depth (.str s)
  | int {depth : Nat} {n : Int} (h : Is64Bit n) : Written depth (.int n)
  | bool {depth : Nat} (b : Bool) : Written depth (.bool b)
  | table {depth : Nat} {entries : List (String × Toml)} (hkeys : (entries.map Prod.fst).Nodup)
      (h : ∀ e ∈ entries, Written depth e.2) : Written (depth + 1) (.table entries)
  | tables {depth : Nat} {items : List (List (String × Toml))}
      (h : ∀ entries ∈ items, Written depth (.table entries)) :
      Written depth (.arr (items.map .table))

inductive Same : Toml → Toml → Prop
  | str (s : String) : Same (.str s) (.str s)
  | int (n : Int) : Same (.int n) (.int n)
  | bool (b : Bool) : Same (.bool b) (.bool b)
  | arr {items items' : List Toml} (h : items.Forall₂ Same items') : Same (.arr items) (.arr items')
  | table {entries entries' : List (String × Toml)}
      (h : ∀ key, Option.Rel Same (entries.lookup key) (entries'.lookup key)) :
      Same (.table entries) (.table entries')

/-- Integers are read as 64-bit integers, and what is written is read back with the same contents. -/
structure Format.Lossless (format : Format) : Prop where
  bounded : ∀ text t, format.parse text = some t → Bounded t
  kept : ∀ depth entries, depth < depthLimit → Written depth (.table entries) →
    ∃ text t, format.print (.table entries) = some text ∧ format.parse text = some t ∧
      Same (.table entries) t

end SequenceQuery.Toml
