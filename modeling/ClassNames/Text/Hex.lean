/-!
# Hexadecimal digits

Escapes in both document formats name a character by hexadecimal digits of either
case, and control characters are written with lower-case ones.
-/

namespace ClassNames.Text

/-- The value of a hexadecimal digit. -/
def hexDigit? (c : Char) : Option Nat :=
  if '0' ≤ c ∧ c ≤ '9' then some (c.toNat - '0'.toNat)
  else if 'a' ≤ c ∧ c ≤ 'f' then some (c.toNat - 'a'.toNat + 10)
  else if 'A' ≤ c ∧ c ≤ 'F' then some (c.toNat - 'A'.toNat + 10)
  else none

/-- The value of a row of hexadecimal digits. -/
def hexValue? (digits : List Char) : Option Nat :=
  digits.foldlM (fun value c => (hexDigit? c).map (16 * value + ·)) 0

/-- The last four hexadecimal digits of a number, in lower case. -/
def fourHexDigits (number : Nat) : List Char :=
  [number / 4096 % 16, number / 256 % 16, number / 16 % 16, number % 16].map Nat.digitChar

theorem hexDigit?_digitChar : ∀ digit < 16, hexDigit? (Nat.digitChar digit) = some digit := by
  decide

theorem hexValue?_fourHexDigits {number : Nat} (h : number < 65536) :
    hexValue? (fourHexDigits number) = some number := by
  simp only [fourHexDigits, hexValue?, List.map_cons, List.map_nil, List.foldlM_cons,
    List.foldlM_nil, Nat.mod_lt _ (by decide : 16 > 0), hexDigit?_digitChar, Option.map_some,
    Option.bind_eq_bind, Option.bind_some, Option.pure_def]
  congr 1
  omega

end ClassNames.Text
