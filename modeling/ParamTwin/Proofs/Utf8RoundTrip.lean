import Mathlib.Tactic.Common
import ParamTwin.Text.Utf8

/-!
# Texts survive being written

The bytes of a text are decoded to the text again: each character is written as one to four bytes,
and the first of them tells how many more belong to it (`Text.firstChar_utf8EncodeChar`).
-/

namespace ParamTwin.Text

theorem toNat_byte {n : Nat} (h : n < 256) : (UInt8.ofNat n).toNat = n :=
  UInt8.toNat_ofNat_of_lt' h

theorem isContinuation_tail (n : Nat) : isContinuation (UInt8.ofNat (n % 64 + 128)) = true := by
  have h : (UInt8.ofNat (n % 64 + 128)).toNat = n % 64 + 128 := toNat_byte (by omega)
  simp only [isContinuation, UInt8.le_iff_toNat_le, h, Bool.and_eq_true, decide_eq_true_eq]
  exact ⟨Nat.le_add_left _ _, by show _ ≤ 191; omega⟩

theorem lowBits_tail (n : Nat) : lowBits (UInt8.ofNat (n % 64 + 128)) = n % 64 := by
  rw [lowBits, toNat_byte (by omega)]
  omega

/-- Whether the second byte fits the first one is a question of their values. -/
theorem isSecond_eq_true_iff (a b : UInt8) :
    isSecond a b = true ↔
      (if a.toNat = 0xE0 then 0xA0 ≤ b.toNat else if a.toNat = 0xF0 then 0x90 ≤ b.toNat
        else 0x80 ≤ b.toNat) ∧
      (if a.toNat = 0xED then b.toNat ≤ 0x9F else if a.toNat = 0xF4 then b.toNat ≤ 0x8F
        else b.toNat ≤ 0xBF) := by
  have hE0 : a = 0xE0 ↔ a.toNat = 0xE0 := UInt8.toNat_inj.symm
  have hF0 : a = 0xF0 ↔ a.toNat = 0xF0 := UInt8.toNat_inj.symm
  have hED : a = 0xED ↔ a.toNat = 0xED := UInt8.toNat_inj.symm
  have hF4 : a = 0xF4 ↔ a.toNat = 0xF4 := UInt8.toNat_inj.symm
  simp only [isSecond, hE0, hF0, hED, hF4, Bool.and_eq_true]
  refine and_congr ?_ ?_
  · split
    · simp [UInt8.le_iff_toNat_le]
    · split <;> simp [UInt8.le_iff_toNat_le]
  · split
    · simp [UInt8.le_iff_toNat_le]
    · split <;> simp [UInt8.le_iff_toNat_le]

theorem firstChar_two {v : Nat} (hlow : 0x7F < v) (hhigh : v ≤ 0x7FF) (bs : List UInt8) :
    firstChar (UInt8.ofNat (v / 64 % 32 + 192)) (UInt8.ofNat (v % 64 + 128) :: bs) =
      (Char.ofNat v, 1) := by
  have h : (UInt8.ofNat (v / 64 % 32 + 192)).toNat = v / 64 + 192 := by
    rw [toNat_byte (by omega)]
    omega
  have hfirst : ¬ UInt8.ofNat (v / 64 % 32 + 192) < 0x80 := by
    rw [UInt8.lt_iff_toNat_lt, h]
    show ¬ _ < 128
    omega
  have hrange : (0xC2 ≤ UInt8.ofNat (v / 64 % 32 + 192) &&
      UInt8.ofNat (v / 64 % 32 + 192) ≤ 0xDF) = true := by
    simp only [UInt8.le_iff_toNat_le, h, Bool.and_eq_true, decide_eq_true_eq]
    exact ⟨by show 194 ≤ _; omega, by show _ ≤ 223; omega⟩
  have hvalue : (v / 64 + 192) % 32 * 64 + v % 64 = v := by omega
  rw [firstChar, if_neg hfirst, if_pos hrange]
  simp only [isContinuation_tail, if_true, lowBits_tail, h, hvalue]

theorem firstChar_three {v : Nat} (hlow : 0x7FF < v) (hhigh : v ≤ 0xFFFF)
    (hvalid : v < 0xD800 ∨ 0xDFFF < v) (bs : List UInt8) :
    firstChar (UInt8.ofNat (v / 4096 % 16 + 224))
      (UInt8.ofNat (v / 64 % 64 + 128) :: UInt8.ofNat (v % 64 + 128) :: bs) =
      (Char.ofNat v, 2) := by
  have h : (UInt8.ofNat (v / 4096 % 16 + 224)).toNat = v / 4096 + 224 := by
    rw [toNat_byte (by omega)]
    omega
  have hnext : (UInt8.ofNat (v / 64 % 64 + 128)).toNat = v / 64 % 64 + 128 :=
    toNat_byte (by omega)
  have hsecond : isSecond (UInt8.ofNat (v / 4096 % 16 + 224))
      (UInt8.ofNat (v / 64 % 64 + 128)) = true := by
    rw [isSecond_eq_true_iff, h, hnext]
    -- The bounds on the second byte shut out short values and surrogates.
    constructor
    · split
      · omega
      · split <;> omega
    · split
      · omega
      · split <;> omega
  have hvalue : ((v / 4096 + 224) % 16 * 64 + v / 64 % 64) * 64 + v % 64 = v := by omega
  rw [firstChar, if_neg, if_neg, if_pos]
  · simp only [hsecond, isContinuation_tail, if_true, lowBits_tail, h, hvalue, Bool.not_true,
      Bool.false_eq_true, if_false]
  · simp only [UInt8.le_iff_toNat_le, h, Bool.and_eq_true, decide_eq_true_eq]
    exact ⟨Nat.le_add_left _ _, by show _ ≤ 239; omega⟩
  · simp only [UInt8.le_iff_toNat_le, h, Bool.and_eq_true, decide_eq_true_eq]
    show ¬ (_ ∧ _ ≤ 223)
    omega
  · rw [UInt8.lt_iff_toNat_lt, h]
    show ¬ _ < 128
    omega

theorem firstChar_four {v : Nat} (hlow : 0xFFFF < v) (hhigh : v < 0x110000) (bs : List UInt8) :
    firstChar (UInt8.ofNat (v / 262144 % 8 + 240))
      (UInt8.ofNat (v / 4096 % 64 + 128) :: UInt8.ofNat (v / 64 % 64 + 128) ::
        UInt8.ofNat (v % 64 + 128) :: bs) = (Char.ofNat v, 3) := by
  have h : (UInt8.ofNat (v / 262144 % 8 + 240)).toNat = v / 262144 + 240 := by
    rw [toNat_byte (by omega)]
    omega
  have hnext : (UInt8.ofNat (v / 4096 % 64 + 128)).toNat = v / 4096 % 64 + 128 :=
    toNat_byte (by omega)
  have hsecond : isSecond (UInt8.ofNat (v / 262144 % 8 + 240))
      (UInt8.ofNat (v / 4096 % 64 + 128)) = true := by
    rw [isSecond_eq_true_iff, h, hnext]
    constructor
    · split
      · omega
      · split <;> omega
    · split
      · omega
      · split <;> omega
  have hvalue : (((v / 262144 + 240) % 8 * 64 + v / 4096 % 64) * 64 + v / 64 % 64) * 64 + v % 64 =
      v := by omega
  rw [firstChar, if_neg, if_neg, if_neg, if_pos]
  · simp only [hsecond, isContinuation_tail, if_true, lowBits_tail, h, hvalue, Bool.not_true,
      Bool.false_eq_true, if_false]
  · simp only [UInt8.le_iff_toNat_le, h, Bool.and_eq_true, decide_eq_true_eq]
    exact ⟨Nat.le_add_left _ _, by show _ ≤ 244; omega⟩
  · simp only [UInt8.le_iff_toNat_le, h, Bool.and_eq_true, decide_eq_true_eq]
    show ¬ (_ ∧ _ ≤ 239)
    omega
  · simp only [UInt8.le_iff_toNat_le, h, Bool.and_eq_true, decide_eq_true_eq]
    show ¬ (_ ∧ _ ≤ 223)
    omega
  · rw [UInt8.lt_iff_toNat_lt, h]
    show ¬ _ < 128
    omega

/-- The bytes of a character are read as the character, whatever follows them. -/
theorem firstChar_utf8EncodeChar (c : Char) (bs : List UInt8) :
    ∃ b more, String.utf8EncodeChar c = b :: more ∧
      firstChar b (more ++ bs) = (c, more.length) := by
  have hvalid : c.val.toNat < 0xD800 ∨ 0xDFFF < c.val.toNat ∧ c.val.toNat < 0x110000 := c.valid
  have hchar : Char.ofNat c.val.toNat = c := Char.ofNat_toNat c
  unfold String.utf8EncodeChar
  dsimp only
  split
  · have h : (UInt8.ofNat c.val.toNat).toNat = c.val.toNat := toNat_byte (by omega)
    refine ⟨_, _, rfl, ?_⟩
    unfold firstChar
    rw [if_pos (by rw [UInt8.lt_iff_toNat_lt, h]; show _ < 128; omega), h, hchar]
    rfl
  · split
    · exact ⟨_, _, rfl, (firstChar_two (by omega) (by assumption) bs).trans (by rw [hchar]; rfl)⟩
    · split
      · exact ⟨_, _, rfl, (firstChar_three (by omega) (by assumption) (by omega) bs).trans
          (by rw [hchar]; rfl)⟩
      · exact ⟨_, _, rfl, (firstChar_four (by omega) (by omega) bs).trans (by rw [hchar]; rfl)⟩

theorem decodeFrom_length (more bs : List UInt8) :
    decodeFrom more.length (more ++ bs) = decodeFrom 0 bs := by
  induction more with
  | nil => rfl
  | cons b more ih => exact ih

theorem encode_eq (t : Text) : encode t = t.flatMap String.utf8EncodeChar := by
  rw [encode]
  exact List.toList_data_toByteArray

theorem decode_encode (t : Text) : decode (encode t) = t := by
  rw [encode_eq, decode]
  induction t with
  | nil => rfl
  | cons c cs ih =>
    obtain ⟨b, more, hbytes, hfirst⟩ :=
      firstChar_utf8EncodeChar c (cs.flatMap String.utf8EncodeChar)
    rw [List.flatMap_cons, hbytes, List.cons_append, decodeFrom, hfirst]
    simp only [decodeFrom_length, ih]

end ParamTwin.Text
