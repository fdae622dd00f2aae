import ParamTwin.Text.Basic

/-!
# Decoding UTF-8

`Text.decode` reads bytes as UTF-8 and never fails: each longest run of bytes that starts a
character without completing it, and each byte that starts none, becomes one replacement character.
-/

namespace ParamTwin.Text

/-- The character that stands for bytes that are not UTF-8. -/
def replacement : Char := Char.ofNat 0xFFFD

/-- The mark of byte order that may stand at the start of a file. -/
def byteOrderMark : Char := Char.ofNat 0xFEFF

/-- Whether a byte continues a character. -/
def isContinuation (b : UInt8) : Bool :=
  0x80 ≤ b && b ≤ 0xBF

/-- Whether a byte may follow the first byte of a character of three or four bytes. -/
def isSecond (first b : UInt8) : Bool :=
  (if first = 0xE0 then 0xA0 ≤ b else if first = 0xF0 then 0x90 ≤ b else 0x80 ≤ b) &&
    (if first = 0xED then b ≤ 0x9F else if first = 0xF4 then b ≤ 0x8F else b ≤ 0xBF)

/-- The six low bits of a byte. -/
def lowBits (b : UInt8) : Nat :=
  b.toNat % 64

/-- The first character of some bytes, and how many bytes after the first one it takes. -/
def firstChar (b : UInt8) (rest : List UInt8) : Char × Nat :=
  if b < 0x80 then (Char.ofNat b.toNat, 0)
  else if 0xC2 ≤ b && b ≤ 0xDF then
    match rest with
    | c :: _ =>
      if isContinuation c then (Char.ofNat ((b.toNat % 32) * 64 + lowBits c), 1)
      else (replacement, 0)
    | [] => (replacement, 0)
  else if 0xE0 ≤ b && b ≤ 0xEF then
    match rest with
    | c :: d :: _ =>
      if !isSecond b c then (replacement, 0)
      else if isContinuation d then
        (Char.ofNat (((b.toNat % 16) * 64 + lowBits c) * 64 + lowBits d), 2)
      else (replacement, 1)
    | [c] => (replacement, if isSecond b c then 1 else 0)
    | [] => (replacement, 0)
  else if 0xF0 ≤ b && b ≤ 0xF4 then
    match rest with
    | c :: d :: e :: _ =>
      if !isSecond b c then (replacement, 0)
      else if !isContinuation d then (replacement, 1)
      else if isContinuation e then
        (Char.ofNat ((((b.toNat % 8) * 64 + lowBits c) * 64 + lowBits d) * 64 + lowBits e), 3)
      else (replacement, 2)
    | [c, d] =>
      (replacement, if !isSecond b c then 0 else if isContinuation d then 2 else 1)
    | [c] => (replacement, if isSecond b c then 1 else 0)
    | [] => (replacement, 0)
  else (replacement, 0)

/-- The characters of some bytes, of which the first `skip` belong to a character already read. -/
def decodeFrom : Nat → List UInt8 → Text
  | _, [] => []
  | skip + 1, _ :: bs => decodeFrom skip bs
  | 0, b :: bs =>
    let (c, more) := firstChar b bs
    c :: decodeFrom more bs

/-- The characters of some bytes. -/
def decode (bs : List UInt8) : Text :=
  decodeFrom 0 bs

/-- The text without a mark of byte order at its start. -/
def withoutMark : Text → Text
  | [] => []
  | c :: cs => if c = byteOrderMark then cs else c :: cs

/-- The bytes of a text. -/
def encode (t : Text) : List UInt8 :=
  (String.ofList t).toUTF8.data.toList

/-- Whether bytes are UTF-8. -/
def isUtf8 (bs : List UInt8) : Bool :=
  encode (decode bs) == bs

end ParamTwin.Text
