import SequenceQuery.Text.Hex
import SequenceQuery.Text.Unprintable

namespace SequenceQuery.Text.Quoted

def isVisible (c : Char) : Bool :=
  if c.toNat < 0x80 then 0x20 ≤ c.toNat && c.toNat < 0x7f else !isUnprintable c

def codePoint (c : Char) : List Char :=
  ['\\', 'u', '\x7b'] ++ Hex.natural c.toNat ++ ['\x7d']

def escape (c : Char) : List Char :=
  if c = '"' then ['\\', '"']
  else if c = '\\' then ['\\', '\\']
  else if c = '\n' then ['\\', 'n']
  else if c = '\r' then ['\\', 'r']
  else if c = '\t' then ['\\', 't']
  else if c.toNat = 0 then ['\\', '0']
  else if isVisible c then [c]
  else codePoint c

def encode (s : List Char) : List Char := '"' :: s.flatMap escape ++ ['"']

end SequenceQuery.Text.Quoted

namespace SequenceQuery.Text

def quoted (s : String) : String := String.ofList (Quoted.encode s.toList)

end SequenceQuery.Text
