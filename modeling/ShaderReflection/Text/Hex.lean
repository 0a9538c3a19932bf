/-!
# Hexadecimal digits
-/

namespace ShaderReflection.Text

/-- The last `width` hexadecimal digits of a number, in lower case. -/
def hexDigits : (width number : Nat) → List Char
  | 0, _ => []
  | width + 1, number => hexDigits width (number / 16) ++ [Nat.digitChar (number % 16)]

@[simp] theorem length_hexDigits (width number : Nat) :
    (hexDigits width number).length = width := by
  induction width generalizing number with
  | zero => rfl
  | succ width induction => simp [hexDigits, induction]

end ShaderReflection.Text
