namespace SequenceQuery.Text

def lower (s : String) : String := s.map Char.toLower

def sameFold (a b : String) : Bool := lower a == lower b

/-- The entry whose key is `name`, or else the first whose key is `name` up to ASCII case. -/
def findNamed? {α : Type} (key : α → String) (name : String) (entries : List α) : Option α :=
  (entries.find? fun a => key a == name).or (entries.find? fun a => sameFold (key a) name)

theorem findNamed?_mem {α : Type} {key : α → String} {name : String} {entries : List α} {a : α}
    (h : findNamed? key name entries = some a) : a ∈ entries := by
  rcases Option.or_eq_some_iff.1 h with h | ⟨_, h⟩ <;> exact List.mem_of_find?_eq_some h

end SequenceQuery.Text
