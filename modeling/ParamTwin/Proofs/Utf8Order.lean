import Mathlib.Data.Char
import Mathlib.Tactic.Common
import ParamTwin.Proofs.Utf8RoundTrip

/-!
# The order of bytes is the order of characters

Texts compare by their characters as their bytes do: a character of more bytes has a larger first
byte, and of two characters with as many bytes the larger one is larger at the first byte in which
they differ.

* `Text.utf8EncodeChar_append_lt`: one character decides, whatever follows.
* `Text.encode_lt_iff`: two texts.
-/

namespace ParamTwin.Text

theorem byte_lt_iff {m n : Nat} (hm : m < 256) (hn : n < 256) :
    UInt8.ofNat m < UInt8.ofNat n ↔ m < n := by
  rw [UInt8.lt_iff_toNat_lt, toNat_byte hm, toNat_byte hn]

theorem byte_inj {m n : Nat} (hm : m < 256) (hn : n < 256) :
    UInt8.ofNat m = UInt8.ofNat n ↔ m = n := by
  rw [← UInt8.toNat_inj, toNat_byte hm, toNat_byte hn]

/-- Numbers compare by their digits, the last one least. -/
theorem lt_iff_digits (m n : Nat) :
    m < n ↔ m / 64 < n / 64 ∨ m / 64 = n / 64 ∧ m % 64 < n % 64 := by
  omega

/-- The four bytes of large characters compare as the characters. -/
theorem four_bytes_lt {m n : Nat} (hm : m < 0x110000) (hn : n < 0x110000) (h : m < n)
    (u v : List UInt8) :
    UInt8.ofNat (m / 262144 % 8 + 240) :: UInt8.ofNat (m / 4096 % 64 + 128) ::
        UInt8.ofNat (m / 64 % 64 + 128) :: UInt8.ofNat (m % 64 + 128) :: u <
      UInt8.ofNat (n / 262144 % 8 + 240) :: UInt8.ofNat (n / 4096 % 64 + 128) ::
        UInt8.ofNat (n / 64 % 64 + 128) :: UInt8.ofNat (n % 64 + 128) :: v := by
  rw [lt_iff_digits, lt_iff_digits (m / 64), lt_iff_digits (m / 64 / 64)] at h
  simp only [Nat.div_div_eq_div_mul, Nat.reduceMul] at h
  have hfirst (k : Nat) (hk : k < 0x110000) : k / 262144 % 8 = k / 262144 := by omega
  rw [hfirst m hm, hfirst n hn]
  simp (disch := omega) only [List.cons_lt_cons_iff, byte_lt_iff, byte_inj]
  obtain ((hlt | ⟨heq, hlt⟩) | ⟨heq, hlt⟩) | ⟨heq, hlt⟩ := h <;> omega

theorem utf8EncodeChar_append_lt {c d : Char} (h : c < d) (u v : List UInt8) :
    String.utf8EncodeChar c ++ u < String.utf8EncodeChar d ++ v := by
  have hlt : c.val.toNat < d.val.toNat := h
  have hd : d.val.toNat < 0x110000 := by
    have hvalid := d.valid
    simp only [UInt32.isValidChar, Nat.isValidChar] at hvalid
    omega
  have hc : c.val.toNat < 0x110000 := by omega
  by_cases hfour : 0xffff < c.val.toNat
  · simp (disch := omega) only [String.utf8EncodeChar, if_neg]
    exact four_bytes_lt hc hd hlt u v
  · simp only [String.utf8EncodeChar]
    -- Where the lengths differ, the first bytes do.
    split_ifs <;>
      simp (disch := omega) only [List.cons_append, List.nil_append, List.cons_lt_cons_iff,
        byte_lt_iff, byte_inj] <;>
      omega

theorem append_lt_append_iff (u s t : List UInt8) : u ++ s < u ++ t ↔ s < t := by
  induction u with
  | nil => rfl
  | cons b u ih =>
    rw [List.cons_append, List.cons_append, List.cons_lt_cons_iff, ih]
    simp

/-- **Texts compare by their bytes as by their characters.** -/
theorem encode_lt_iff (s t : Text) : encode s < encode t ↔ s < t := by
  rw [encode_eq, encode_eq]
  induction s generalizing t with
  | nil =>
    cases t with
    | nil => simp
    | cons d t =>
      obtain ⟨b, bs, hb⟩ := List.exists_cons_of_ne_nil (String.utf8EncodeChar_ne_nil (c := d))
      simp [hb]
  | cons c s ih =>
    cases t with
    | nil => simp
    | cons d t =>
      rw [List.flatMap_cons, List.flatMap_cons, List.cons_lt_cons_iff]
      obtain hlt | rfl | hgt := lt_trichotomy c d
      · exact iff_of_true (utf8EncodeChar_append_lt hlt _ _) (.inl hlt)
      · rw [append_lt_append_iff, ih]
        simp
      · refine iff_of_false (List.lt_asymm (utf8EncodeChar_append_lt hgt _ _)) ?_
        simp [Char.lt_asymm hgt, ne_of_gt hgt]

end ParamTwin.Text
