import ClassNames.Decimal.Positional

/-!
# The characters of a written number

A double is written with digits, a sign, a point and the letters of the two values
that have no digits.  It is never written as the empty text.
-/

namespace ClassNames.Decimal

/-- Can stand in a written double. -/
def IsNumeral (c : Char) : Prop :=
  c.isDigit ∨ c ∈ ['-', '.', 'i', 'n', 'f', 'N', 'a']

instance (c : Char) : Decidable (IsNumeral c) :=
  inferInstanceAs (Decidable (_ ∨ _))

theorem isNumeral_of_mem_toDigits {number : Nat} {c : Char}
    (hmem : c ∈ Nat.toDigits 10 number) : IsNumeral c :=
  Or.inl (Nat.isDigit_of_mem_toDigits (by decide) (by decide) hmem)

theorem isNumeral_of_mem_replicate {count : Nat} {c : Char}
    (hmem : c ∈ List.replicate count '0') : IsNumeral c := by
  rw [List.eq_of_mem_replicate hmem]
  exact Or.inl (by decide)

theorem mem_of_mem_dropZerosRight {digits : List Char} {c : Char}
    (hmem : c ∈ dropZerosRight digits) : c ∈ digits := by
  rw [dropZerosRight, List.mem_reverse] at hmem
  exact List.mem_reverse.mp ((List.dropWhile_sublist _).subset hmem)

theorem mem_fractionText {digits : List Char} {c : Char}
    (hmem : c ∈ fractionText digits) : c = '.' ∨ c ∈ digits := by
  rw [fractionText] at hmem
  split at hmem
  · cases hmem
  · rcases List.mem_cons.mp hmem with rfl | hmem
    · exact Or.inl rfl
    · exact Or.inr (mem_of_mem_dropZerosRight hmem)

theorem isNumeral_of_mem_scaledText {number : Scaled} {c : Char}
    (hmem : c ∈ number.text) : IsNumeral c := by
  rw [Scaled.text] at hmem
  have hpadded (count : Nat)
      (hmem : c ∈ List.replicate count '0' ++ Nat.toDigits 10 number.digits) : IsNumeral c := by
    rcases List.mem_append.mp hmem with hmem | hmem
    · exact isNumeral_of_mem_replicate hmem
    · exact isNumeral_of_mem_toDigits hmem
  split at hmem
  · rcases List.mem_append.mp hmem with hmem | hmem
    · exact isNumeral_of_mem_toDigits hmem
    · exact isNumeral_of_mem_replicate hmem
  · rcases List.mem_append.mp hmem with hmem | hmem
    · exact hpadded _ (List.mem_of_mem_take hmem)
    · rcases mem_fractionText hmem with rfl | hmem
      · exact Or.inr (by decide)
      · exact hpadded _ (List.mem_of_mem_drop hmem)

/-- A whole part is written even if it is zero. -/
theorem scaledText_ne_nil (number : Scaled) : number.text ≠ [] := by
  have hdigits := Nat.length_toDigits_pos (b := 10) (n := number.digits)
  have hlength : 0 < number.text.length := by
    rw [Scaled.text]
    split
    · rw [List.length_append]
      omega
    · simp only [List.length_append, List.length_take, List.length_replicate]
      omega
  exact List.ne_nil_of_length_pos hlength

theorem isNumeral_of_mem_signText {negative : Bool} {c : Char}
    (hmem : c ∈ (signText negative).toList) : IsNumeral c := by
  cases negative with
  | false => simp [signText] at hmem
  | true =>
    have hsign : c = '-' := by simpa [signText] using hmem
    exact hsign ▸ Or.inr (by decide)

theorem isNumeral_of_mem_doubleText {number : Double} {c : Char}
    (hmem : c ∈ number.text.toList) : IsNumeral c := by
  cases number with
  | nan =>
    have hletter : c = 'N' ∨ c = 'a' ∨ c = 'N' := by simpa [Double.text] using hmem
    rcases hletter with rfl | rfl | rfl <;> exact Or.inr (by decide)
  | infinite negative =>
    rw [Double.text, String.toList_append] at hmem
    rcases List.mem_append.mp hmem with hmem | hmem
    · exact isNumeral_of_mem_signText hmem
    · have hletter : c = 'i' ∨ c = 'n' ∨ c = 'f' := by simpa using hmem
      rcases hletter with rfl | rfl | rfl <;> exact Or.inr (by decide)
  | finite negative magnitude =>
    rw [Double.text, String.toList_append, String.toList_ofList] at hmem
    rcases List.mem_append.mp hmem with hmem | hmem
    · exact isNumeral_of_mem_signText hmem
    · exact isNumeral_of_mem_scaledText hmem

theorem doubleText_ne_nil (number : Double) : number.text.toList ≠ [] := by
  cases number with
  | nan => decide
  | infinite negative => simp [Double.text]
  | finite negative magnitude => simp [Double.text, scaledText_ne_nil]

theorem isNumeral_of_mem_floatText {number : Float} {c : Char}
    (hmem : c ∈ (floatText number).toList) : IsNumeral c :=
  isNumeral_of_mem_doubleText hmem

theorem floatText_ne_nil (number : Float) : (floatText number).toList ≠ [] :=
  doubleText_ne_nil (Double.ofBits number.toBits.toNat)

end ClassNames.Decimal
