import Mathlib.Data.List.Nodup

/-! # Bytes as text

Lowercase hexadecimal and base64url without padding (RFC 4648, section 5). Both are injective, so
distinct secrets stay distinct when they are written down. -/

namespace Encoding

/-- The digit `i` of an alphabet. -/
def digit (alphabet : List Char) (i : Nat) : Char := alphabet[i]?.getD 'A'

theorem digit_inj {alphabet : List Char} (h : alphabet.Nodup) {i j : Nat}
    (hi : i < alphabet.length) (hj : j < alphabet.length)
    (he : digit alphabet i = digit alphabet j) : i = j := by
  rw [digit, digit, List.getElem?_eq_getElem hi, List.getElem?_eq_getElem hj] at he
  exact (List.Nodup.getElem_inj_iff h).mp he

theorem uint8_lt (b : UInt8) : b.toNat < 256 := b.toNat_lt

/-! ## Hexadecimal -/

def hexAlphabet : List Char := "0123456789abcdef".toList

theorem hexAlphabet_nodup : hexAlphabet.Nodup := by decide

def hexDigits : List UInt8 → List Char
  | [] => []
  | b :: bs => digit hexAlphabet (b.toNat / 16) :: digit hexAlphabet (b.toNat % 16) :: hexDigits bs

/-- Each byte as `{b:02x}`. -/
def hex (bytes : List UInt8) : String := .ofList (hexDigits bytes)

theorem hexDigit_inj {i j : Nat} (hi : i < 16) (hj : j < 16)
    (h : digit hexAlphabet i = digit hexAlphabet j) : i = j :=
  digit_inj hexAlphabet_nodup hi hj h

theorem hexDigits_inj {a b : List UInt8} (h : hexDigits a = hexDigits b) : a = b := by
  induction a generalizing b with
  | nil => cases b <;> simp_all [hexDigits]
  | cons x a ih =>
    cases b with
    | nil => cases h
    | cons y b =>
      simp only [hexDigits, List.cons.injEq] at h
      obtain ⟨h1, h2, h3⟩ := h
      have hx := uint8_lt x
      have hy := uint8_lt y
      have h1 := hexDigit_inj (by omega) (by omega) h1
      have h2 := hexDigit_inj (by omega) (by omega) h2
      rw [ih h3, UInt8.toNat_inj.mp (by omega : x.toNat = y.toNat)]

theorem hex_inj {a b : List UInt8} (h : hex a = hex b) : a = b :=
  hexDigits_inj (String.ofList_injective h)

/-! ## base64url -/

def urlAlphabet : List Char :=
  "ABCDEFGHIJKLMNOPQRSTUVWXYZabcdefghijklmnopqrstuvwxyz0123456789-_".toList

theorem urlAlphabet_nodup : urlAlphabet.Nodup := by decide

/-- Four digits for three bytes, and what is left over in two or three digits. -/
def urlDigits : List UInt8 → List Nat
  | [] => []
  | [a] => [a.toNat / 4, a.toNat % 4 * 16]
  | [a, b] => [a.toNat / 4, a.toNat % 4 * 16 + b.toNat / 16, b.toNat % 16 * 4]
  | a :: b :: c :: bs =>
    a.toNat / 4 :: (a.toNat % 4 * 16 + b.toNat / 16) :: (b.toNat % 16 * 4 + c.toNat / 64) ::
      c.toNat % 64 :: urlDigits bs

/-- `URL_SAFE_NO_PAD.encode`. -/
def base64Url (bytes : List UInt8) : String := .ofList ((urlDigits bytes).map (digit urlAlphabet))

theorem urlDigits_lt (bs : List UInt8) : ∀ n ∈ urlDigits bs, n < 64 := by
  fun_induction urlDigits bs with
  | case1 => simp
  | case2 a =>
    have := uint8_lt a
    simp only [List.mem_cons, List.not_mem_nil, or_false]
    omega
  | case3 a b =>
    have := uint8_lt a
    have := uint8_lt b
    simp only [List.mem_cons, List.not_mem_nil, or_false]
    omega
  | case4 a b c bs ih =>
    have := uint8_lt a
    have := uint8_lt b
    have := uint8_lt c
    intro n hn
    simp only [List.mem_cons] at hn
    rcases hn with h | h | h | h | h
    · omega
    · omega
    · omega
    · omega
    · exact ih n h

theorem urlDigits_inj {a b : List UInt8} (h : urlDigits a = urlDigits b) : a = b := by
  induction a using urlDigits.induct generalizing b with
  | case1 => rcases b with _ | ⟨y₁, _ | ⟨y₂, _ | ⟨y₃, bs⟩⟩⟩ <;> simp_all [urlDigits]
  | case2 x =>
    rcases b with _ | ⟨y₁, _ | ⟨y₂, _ | ⟨y₃, bs⟩⟩⟩ <;>
      simp only [urlDigits, List.cons.injEq, reduceCtorEq, and_false, and_true] at h
    rw [UInt8.toNat_inj.mp (by omega : x.toNat = y₁.toNat)]
  | case3 x₁ x₂ =>
    rcases b with _ | ⟨y₁, _ | ⟨y₂, _ | ⟨y₃, bs⟩⟩⟩ <;>
      simp only [urlDigits, List.cons.injEq, reduceCtorEq, and_false, and_true] at h
    have := uint8_lt x₂
    have := uint8_lt y₂
    rw [UInt8.toNat_inj.mp (by omega : x₁.toNat = y₁.toNat),
      UInt8.toNat_inj.mp (by omega : x₂.toNat = y₂.toNat)]
  | case4 x₁ x₂ x₃ as ih =>
    rcases b with _ | ⟨y₁, _ | ⟨y₂, _ | ⟨y₃, bs⟩⟩⟩ <;>
      simp only [urlDigits, List.cons.injEq, reduceCtorEq, and_false] at h
    obtain ⟨h1, h2, h3, h4, h5⟩ := h
    have := uint8_lt x₂
    have := uint8_lt y₂
    have := uint8_lt x₃
    have := uint8_lt y₃
    rw [UInt8.toNat_inj.mp (by omega : x₁.toNat = y₁.toNat),
      UInt8.toNat_inj.mp (by omega : x₂.toNat = y₂.toNat),
      UInt8.toNat_inj.mp (by omega : x₃.toNat = y₃.toNat), ih h5]

theorem map_digit_inj {l l' : List Nat} (hl : ∀ n ∈ l, n < 64) (hl' : ∀ n ∈ l', n < 64)
    (h : l.map (digit urlAlphabet) = l'.map (digit urlAlphabet)) : l = l' := by
  induction l generalizing l' with
  | nil => cases l' <;> simp_all
  | cons x l ih =>
    cases l' with
    | nil => cases h
    | cons y l' =>
      simp only [List.map_cons, List.cons.injEq, List.forall_mem_cons] at h hl hl'
      rw [digit_inj urlAlphabet_nodup hl.1 hl'.1 h.1, ih hl.2 hl'.2 h.2]

theorem base64Url_inj {a b : List UInt8} (h : base64Url a = base64Url b) : a = b :=
  urlDigits_inj (map_digit_inj (urlDigits_lt a) (urlDigits_lt b) (String.ofList_injective h))

end Encoding
