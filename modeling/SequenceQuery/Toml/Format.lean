import SequenceQuery.Toml.Print

namespace SequenceQuery.Toml

structure Format where
  parse : String → Option Toml
  print : Toml → Option String

namespace Format

/-- The reader and the writer that are defined here. -/
def own : Format := ⟨parse?, print?⟩

end Format

end SequenceQuery.Toml
