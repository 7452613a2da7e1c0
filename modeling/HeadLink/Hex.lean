/-!
# Hexadecimal text

Numbers in fault descriptions that name a code or an identifier are written in lower-case
hexadecimal with a leading `0x`.
-/

namespace HeadLink

/-- The hexadecimal digits of a number, without leading zeros. -/
def hexDigits (n : Nat) : String :=
  String.ofList (Nat.toDigits 16 n)

/-- A number in hexadecimal: `0x1f3`. -/
def hex (n : Nat) : String :=
  "0x" ++ hexDigits n

/-- A byte in hexadecimal with two digits: `0x0a`. -/
def hexByte (b : UInt8) : String :=
  (if b.toNat < 16 then "0x0" else "0x") ++ hexDigits b.toNat

end HeadLink
