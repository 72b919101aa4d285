import Mathlib.Data.List.Basic

/-! Byte strings, and the text in which they are written here. -/

namespace DataAgentSystem.Text

abbrev Byte := UInt8

/-- An arbitrary byte string. -/
abbrev Bytes := List Byte

instance : LawfulBEq Bytes := inferInstance

/-- The bytes of an ASCII literal. -/
def ascii (s : String) : Bytes := s.toList.map Char.toUInt8

def backslash : Byte := 92
def tab : Byte := 9
def newline : Byte := 10

end DataAgentSystem.Text
