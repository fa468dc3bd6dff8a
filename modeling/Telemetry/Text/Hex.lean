/-!
Hexadecimal digits. Small letters are written, both cases are read.
-/

namespace Telemetry

def hexDigit (n : Nat) : Char := Nat.digitChar n

def hexValue? (c : Char) : Option Nat :=
  if '0' ≤ c ∧ c ≤ '9' then some (c.toNat - 0x30)
  else if 'A' ≤ c ∧ c ≤ 'F' then some (c.toNat - 0x41 + 10)
  else if 'a' ≤ c ∧ c ≤ 'f' then some (c.toNat - 0x61 + 10)
  else none

def hexPair? (a b : Char) : Option Nat := do
  return (← hexValue? a) * 16 + (← hexValue? b)

end Telemetry
