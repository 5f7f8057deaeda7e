import Mathlib.Data.String.Basic
import RowLedger.Digits

/-!
# Strings in the order of their bytes

Strings are compared character by character, and characters by their numbers.
The bytes of the strings in UTF-8 are in the same order. A greater number never
has a shorter encoding, and the first byte of a longer encoding is greater than
that of any shorter one. Two encodings of one length consist of the digits of
the numbers to base 64, with the marks that all bytes of that length have in
common, so the first byte that differs is greater in the encoding of the greater
number.

## Main definitions

* `utf8Bytes`: The bytes of a string.
* `continuation`: All bytes of an encoding but the first.

## Theorems

* `continuation_lt`: Digits are in the order of the numbers.
* `encode_lt`: Encodings are in the order of the characters.
* `lt_iff_utf8Bytes_lt`: Strings are in the order of their bytes.
-/

namespace RowLedger

/-- The bytes of a string. -/
def utf8Bytes (s : String) : List UInt8 := s.toUTF8.data.toList

theorem utf8Bytes_eq (s : String) : utf8Bytes s = s.toList.flatMap String.utf8EncodeChar := by
  rw [utf8Bytes, String.toUTF8_eq_toByteArray, ← String.utf8Encode_toList, List.utf8Encode,
    List.data_toByteArray]

/-- The last bytes of an encoding: each has six bits of the number and the mark of a byte that is
not the first. -/
def continuation (n : Nat) : Nat → List UInt8
  | 0 => []
  | k + 1 => UInt8.ofNat (n / 64 ^ k % 64 + 128) :: continuation n k

/-- The encoding of a number. -/
def encoding (n : Nat) : List UInt8 :=
  if n ≤ 127 then [UInt8.ofNat n]
  else if n ≤ 2047 then UInt8.ofNat (n / 64 ^ 1 % 32 + 192) :: continuation n 1
  else if n ≤ 65535 then UInt8.ofNat (n / 64 ^ 2 % 16 + 224) :: continuation n 2
  else UInt8.ofNat (n / 64 ^ 3 % 8 + 240) :: continuation n 3

theorem utf8EncodeChar_eq (c : Char) : String.utf8EncodeChar c = encoding c.val.toNat := by
  simp [String.utf8EncodeChar, encoding, continuation]

section Order

variable {m n : Nat} {x y : List UInt8}

/-- The first byte decides, and if it is the same the others do. -/
theorem cons_ofNat_lt (hm : m < 256) (hn : n < 256) (h : m < n ∨ (m = n ∧ x < y)) :
    UInt8.ofNat m :: x < UInt8.ofNat n :: y := by
  rw [List.cons_lt_cons_iff]
  rcases h with hlt | ⟨rfl, hrest⟩
  · refine Or.inl ?_
    rwa [UInt8.lt_iff_toNat_lt, UInt8.toNat_ofNat_of_lt' hm, UInt8.toNat_ofNat_of_lt' hn]
  · exact Or.inr ⟨rfl, hrest⟩

-- Induction on the number of digits that are left. The digits before them are the same.
/-- Numbers that differ in their last digits only are in the order of these. -/
theorem continuation_lt (hlt : m < n) (k : Nat) (hsame : m / 64 ^ k = n / 64 ^ k) :
    continuation m k ++ x < continuation n k ++ y := by
  induction k with
  | zero =>
      simp only [pow_zero, Nat.div_one] at hsame
      omega
  | succ k ih =>
      rw [pow_succ, ← Nat.div_div_eq_div_mul, ← Nat.div_div_eq_div_mul] at hsame
      have hle : m / 64 ^ k ≤ n / 64 ^ k := Nat.div_le_div_right (Nat.le_of_lt hlt)
      refine cons_ofNat_lt (by omega) (by omega) ?_
      rcases Nat.lt_or_eq_of_le hle with hdigit | hdigit
      · exact Or.inl (by omega)
      · exact Or.inr ⟨by rw [hdigit], ih hdigit⟩

/-- Encodings of one length are in the order of the numbers. -/
theorem lead_lt (hlt : m < n) (k width mark : Nat) (hwidth : n / 64 ^ k < width)
    (hmark : width + mark ≤ 256) :
    UInt8.ofNat (m / 64 ^ k % width + mark) :: (continuation m k ++ x) <
      UInt8.ofNat (n / 64 ^ k % width + mark) :: (continuation n k ++ y) := by
  have hle : m / 64 ^ k ≤ n / 64 ^ k := Nat.div_le_div_right (Nat.le_of_lt hlt)
  rw [Nat.mod_eq_of_lt hwidth, Nat.mod_eq_of_lt (Nat.lt_of_le_of_lt hle hwidth)]
  refine cons_ofNat_lt (by omega) (by omega) ?_
  rcases Nat.lt_or_eq_of_le hle with hdigit | hdigit
  · exact Or.inl (by omega)
  · exact Or.inr ⟨by rw [hdigit], continuation_lt hlt k hdigit⟩

-- A longer encoding is that of a greater number, so the smaller one has no more bytes.
/-- Encodings are in the order of the numbers, whatever follows. -/
theorem encoding_lt (hlt : m < n) (hbound : n < 1114112) : encoding m ++ x < encoding n ++ y := by
  rw [encoding, encoding]
  by_cases hone : n ≤ 127
  · rw [if_pos hone, if_pos (by omega)]
    exact cons_ofNat_lt (by omega) (by omega) (Or.inl hlt)
  rw [if_neg hone]
  by_cases htwo : n ≤ 2047
  · rw [if_pos htwo]
    split
    · exact cons_ofNat_lt (by omega) (by omega) (Or.inl (by omega))
    · rw [if_pos (by omega)]
      exact lead_lt hlt 1 32 192 (by omega) (by decide)
  rw [if_neg htwo]
  by_cases hthree : n ≤ 65535
  · rw [if_pos hthree]
    split
    · exact cons_ofNat_lt (by omega) (by omega) (Or.inl (by omega))
    · split
      · exact cons_ofNat_lt (by omega) (by omega) (Or.inl (by omega))
      · rw [if_pos (by omega)]
        exact lead_lt hlt 2 16 224 (by omega) (by decide)
  rw [if_neg hthree]
  split
  · exact cons_ofNat_lt (by omega) (by omega) (Or.inl (by omega))
  · split
    · exact cons_ofNat_lt (by omega) (by omega) (Or.inl (by omega))
    · split
      · exact cons_ofNat_lt (by omega) (by omega) (Or.inl (by omega))
      · exact lead_lt hlt 3 8 240 (by omega) (by decide)

end Order

/-- The encoding of a smaller character is before that of a greater one, whatever follows. -/
theorem encode_lt {a b : Char} (h : a < b) (x y : List UInt8) :
    String.utf8EncodeChar a ++ x < String.utf8EncodeChar b ++ y := by
  rw [utf8EncodeChar_eq, utf8EncodeChar_eq]
  refine encoding_lt h ?_
  rcases b.valid with hlow | ⟨_, hhigh⟩
  · exact Nat.lt_trans hlow (by decide)
  · exact hhigh

-- Induction on how the characters compare: what the strings have in common has the same bytes.
theorem flatMap_encode_lt {first second : List Char} (h : first < second) :
    first.flatMap String.utf8EncodeChar < second.flatMap String.utf8EncodeChar := by
  induction h with
  | @nil c rest =>
      rw [List.flatMap_cons]
      cases hbytes : String.utf8EncodeChar c with
      | nil =>
          have hlength := String.length_utf8EncodeChar c
          have hpos := c.utf8Size_pos
          rw [hbytes, List.length_nil] at hlength
          omega
      | cons byte bytes => exact List.nil_lt_cons _ _
  | rel hlt =>
      rw [List.flatMap_cons, List.flatMap_cons]
      exact encode_lt hlt _ _
  | cons _ ih =>
      rw [List.flatMap_cons, List.flatMap_cons]
      exact List.append_left_lt ih

/-- Strings are in the order of their bytes. -/
theorem lt_iff_utf8Bytes_lt {s s' : String} : s < s' ↔ utf8Bytes s < utf8Bytes s' := by
  have hmono : ∀ {s s' : String}, s < s' → utf8Bytes s < utf8Bytes s' := by
    intro s s' h
    rw [utf8Bytes_eq, utf8Bytes_eq]
    exact flatMap_encode_lt (String.lt_iff_toList_lt.1 h)
  constructor
  · exact hmono
  · intro h
    rcases Std.lt_trichotomy s s' with hlt | heq | hgt
    · exact hlt
    · exact absurd (heq ▸ h) (List.lt_irrefl _)
    · exact absurd (hmono hgt) (List.lt_asymm h)

end RowLedger
