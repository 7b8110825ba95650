import Mathlib.Tactic.SplitIfs

/-!
# The order of names

Names are compared character by character, by code points.  Comparing their bytes in
UTF-8 gives the same order, because the bytes of two different characters differ before
either of them ends, and the first difference goes the way of the code points.
-/

namespace ClassNames.Text

/-- The bytes of a text in UTF-8. -/
def bytes (text : String) : List UInt8 :=
  text.toByteArray.data.toList

/-- The left text comes first in the order of the bytes. -/
def Precedes (left right : String) : Prop :=
  bytes left < bytes right

instance (left right : String) : Decidable (Precedes left right) :=
  inferInstanceAs (Decidable (bytes left < bytes right))

theorem bytes_eq_flatMap (text : String) :
    bytes text = text.toList.flatMap String.utf8EncodeChar := by
  rw [bytes, ← String.utf8Encode_toList, List.utf8Encode, List.data_toByteArray]

theorem ofNat_eq_ofNat_iff {m n : Nat} (hm : m < UInt8.size) (hn : n < UInt8.size) :
    UInt8.ofNat m = UInt8.ofNat n ↔ m = n := by
  rw [← UInt8.toNat_inj, UInt8.toNat_ofNat_of_lt' hm, UInt8.toNat_ofNat_of_lt' hn]

/-- The bytes of the smaller character come first, whatever follows. -/
theorem utf8EncodeChar_append_lt {c d : Char} (h : c < d) (left right : List UInt8) :
    String.utf8EncodeChar c ++ left < String.utf8EncodeChar d ++ right := by
  have hlt : c.val.toNat < d.val.toNat := h
  have hbound : d.val.toNat < 2097152 := by
    have hvalid := d.valid
    simp only [UInt32.isValidChar, Nat.isValidChar] at hvalid
    omega
  unfold String.utf8EncodeChar
  generalize c.val.toNat = low at hlt ⊢
  generalize d.val.toNat = high at hlt hbound ⊢
  -- The digits to the base 64, from the last one to the first: the order of the numbers
  -- is decided by a digit, or by the digits in front of it.
  have hlast : low / 64 < high / 64 ∨ low / 64 = high / 64 ∧ low % 64 < high % 64 := by
    omega
  have hthird : low / 64 < high / 64 →
      low / 4096 < high / 4096 ∨
        low / 4096 = high / 4096 ∧ low / 64 % 64 < high / 64 % 64 := by
    omega
  have hsecond : low / 4096 < high / 4096 →
      low / 262144 < high / 262144 ∨
        low / 262144 = high / 262144 ∧ low / 4096 % 64 < high / 4096 % 64 := by
    omega
  have hfirst : low / 262144 % 8 = low / 262144 ∧ high / 262144 % 8 = high / 262144 := by
    omega
  dsimp only
  split_ifs <;>
    simp (disch := simp only [UInt8.size]; omega) only [List.cons_append, List.nil_append,
      List.cons_lt_cons_iff, UInt8.ofNat_lt_iff_lt, ofNat_eq_ofNat_iff] <;>
    omega

theorem flatMap_utf8EncodeChar_lt {left right : List Char} (h : left < right) :
    left.flatMap String.utf8EncodeChar < right.flatMap String.utf8EncodeChar := by
  induction left generalizing right with
  | nil =>
    cases right with
    | nil => cases h
    | cons d right =>
      obtain ⟨byte, rest, hcode⟩ :=
        List.exists_cons_of_ne_nil (String.utf8EncodeChar_ne_nil (c := d))
      rw [List.flatMap_cons, hcode]
      exact List.nil_lt_cons _ _
  | cons c left ih =>
    cases right with
    | nil => cases h
    | cons d right =>
      rw [List.flatMap_cons, List.flatMap_cons]
      rcases List.cons_lt_cons_iff.mp h with hhead | ⟨rfl, htail⟩
      · exact utf8EncodeChar_append_lt hhead _ _
      · exact List.append_left_lt (ih htail)

theorem precedes_of_lt {left right : String} (h : left < right) : Precedes left right := by
  rw [Precedes, bytes_eq_flatMap, bytes_eq_flatMap]
  exact flatMap_utf8EncodeChar_lt h

theorem Precedes.irrefl (text : String) : ¬ Precedes text text :=
  List.lt_irrefl (bytes text)

theorem Precedes.asymm {left right : String} (h : Precedes left right) :
    ¬ Precedes right left :=
  List.lt_asymm h

/-- Comparing bytes is comparing characters. -/
theorem precedes_iff_lt {left right : String} : Precedes left right ↔ left < right := by
  refine ⟨fun hbytes => ?_, precedes_of_lt⟩
  rcases Std.lt_trichotomy left right with hlt | rfl | hgt
  · exact hlt
  · exact absurd hbytes (Precedes.irrefl left)
  · exact absurd hbytes (precedes_of_lt hgt).asymm

/-- An order by units of UTF-16 would be the other way round. -/
example : Precedes "\uffff" "😀" := by decide +kernel

end ClassNames.Text
