/-
# Words

Numbers that are stored in words of a fixed number of bits end at a power of two.
-/
namespace FleetAgent.Numeral

/-- The end of the unsigned numbers of 64 bits. -/
abbrev unsigned64End : Nat := 0x10000000000000000

/-- The end of the signed numbers of 64 bits. -/
abbrev signed64End : Nat := 0x8000000000000000

/-- The end of the signed numbers of 32 bits. -/
abbrev signed32End : Nat := 0x80000000

/-- The power of two that numbers of some bits end at. -/
abbrev endOfBits (bits : Nat) : Nat := Nat.pow 2 bits

end FleetAgent.Numeral
