import AnonyMail.Lib.Encoding

/-! # Percent-encoding

Bytes as text in which the bytes of a set `keep` of ASCII characters stand for themselves, and every
other byte is a `%` and its two uppercase hexadecimal digits (RFC 5987, `value-chars`). -/

namespace PercentEncoding

open Encoding

def upperHexAlphabet : List Char := "0123456789ABCDEF".toList

def upperHex (i : Nat) : Char := digit upperHexAlphabet i

variable (keep : UInt8 → Bool)

def encodeByte (b : UInt8) : List Char :=
  if keep b then [Char.ofNat b.toNat] else ['%', upperHex (b.toNat / 16), upperHex (b.toNat % 16)]

def encode (bytes : List UInt8) : List Char := bytes.flatMap (encodeByte keep)

/-- The texts made of literal characters and escapes. -/
inductive IsEncoded : List Char → Prop
  | nil : IsEncoded []
  | literal : keep b → IsEncoded rest → IsEncoded (Char.ofNat b.toNat :: rest)
  | escape : i < 16 → j < 16 → IsEncoded rest →
    IsEncoded ('%' :: upperHex i :: upperHex j :: rest)

def hexValue (c : Char) : Option Nat :=
  if '0' ≤ c ∧ c ≤ '9' then some (c.toNat - '0'.toNat)
  else if 'A' ≤ c ∧ c ≤ 'F' then some (c.toNat - 'A'.toNat + 10)
  else if 'a' ≤ c ∧ c ≤ 'f' then some (c.toNat - 'a'.toNat + 10)
  else none

/-- A `%` that two hexadecimal digits do not follow stands for itself. -/
def decode : List Char → List UInt8
  | [] => []
  | '%' :: h :: l :: rest =>
    match hexValue h, hexValue l with
    | some i, some j => .ofNat (i * 16 + j) :: decode rest
    | _, _ => .ofNat '%'.toNat :: decode (h :: l :: rest)
  | c :: rest => .ofNat c.toNat :: decode rest

variable {keep}

/-- The set holds visible ASCII characters only, and not the `%`. -/
def Literals (keep : UInt8 → Bool) : Prop := ∀ b, keep b → 0x20 < b.toNat ∧ b.toNat < 0x7F ∧ b ≠ 0x25

theorem hexValue_upperHex {i : Nat} (h : i < 16) : hexValue (upperHex i) = some i := by
  have hall : ∀ i < 16, hexValue (upperHex i) = some i := by decide
  exact hall i h

theorem decode_escape {i j : Nat} (hi : i < 16) (hj : j < 16) (rest : List Char) :
    decode ('%' :: upperHex i :: upperHex j :: rest) = .ofNat (i * 16 + j) :: decode rest := by
  rw [decode, hexValue_upperHex hi, hexValue_upperHex hj]

theorem toNat_ofNat_lt {n : Nat} (h : n < 256) : (Char.ofNat n).toNat = n := by
  have hvalid : n.isValidChar := .inl (by omega)
  rw [Char.ofNat, dif_pos hvalid]
  rfl

theorem decode_literal {c : Char} (h : c ≠ '%') (rest : List Char) :
    decode (c :: rest) = .ofNat c.toNat :: decode rest := by
  rw [decode]
  rintro h' l rest' rfl
  exact absurd rfl h

/-- One byte is decoded at a time. -/
theorem decode_encodeByte (hkeep : Literals keep) (b : UInt8) (rest : List Char) :
    decode (encodeByte keep b ++ rest) = b :: decode rest := by
  have hb := uint8_lt b
  unfold encodeByte
  split
  · next h =>
    have hne : Char.ofNat b.toNat ≠ '%' := by
      intro hpct
      have hnat := congrArg Char.toNat hpct
      rw [toNat_ofNat_lt hb] at hnat
      exact (hkeep b h).2.2 (UInt8.toNat_inj.mp hnat)
    rw [List.singleton_append, decode_literal hne, toNat_ofNat_lt hb, UInt8.ofNat_toNat]
  · rw [List.cons_append, List.cons_append, List.cons_append, List.nil_append,
      decode_escape (by omega) (by omega), Nat.div_add_mod', UInt8.ofNat_toNat]

/-- Decoding gives back the bytes that were encoded. -/
theorem decode_encode (hkeep : Literals keep) (bytes : List UInt8) :
    decode (encode keep bytes) = bytes := by
  induction bytes with
  | nil => rfl
  | cons b bytes ih =>
    rw [encode, List.flatMap_cons, decode_encodeByte hkeep]
    exact congrArg _ ih

theorem isEncoded_encode (bytes : List UInt8) : IsEncoded keep (encode keep bytes) := by
  induction bytes with
  | nil => exact .nil
  | cons b bytes ih =>
    have hb := uint8_lt b
    rw [encode, List.flatMap_cons, encodeByte]
    split
    · next h => exact .literal h ih
    · exact .escape (by omega) (by omega) ih

/-- Encoded text is visible ASCII without quotes, if the literals are. -/
theorem IsEncoded.forall {p : Char → Prop} {l : List Char} (h : IsEncoded keep l)
    (hlit : ∀ b, keep b → p (Char.ofNat b.toNat)) (hpct : p '%') (hhex : ∀ i < 16, p (upperHex i)) :
    ∀ c ∈ l, p c := by
  induction h with
  | nil => simp
  | literal hb _ ih => exact List.forall_mem_cons.mpr ⟨hlit _ hb, ih⟩
  | escape hi hj _ ih =>
    simp only [List.forall_mem_cons]
    exact ⟨hpct, hhex _ hi, hhex _ hj, ih⟩

end PercentEncoding
