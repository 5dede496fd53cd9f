import Mathlib

/-! Byte strings as the programs handle them. -/
namespace NetworkOs

/-- The bytes of a `std::string`, or of a file. -/
abbrev Str := List UInt8

/-- Source literals, written as character lists. -/
def ascii (cs : List Char) : Str := cs.map Char.toUInt8

end NetworkOs
