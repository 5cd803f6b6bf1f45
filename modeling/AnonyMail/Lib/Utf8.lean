import Mathlib.Data.List.Basic

/-! # UTF-8

The bytes of a text are the bytes of its characters. Characters below 128 have one byte, their own
number; all bytes of the others are at least 128. -/

namespace Utf8

theorem toUTF8_eq (s : String) :
    s.toUTF8.data.toList = s.toList.flatMap String.utf8EncodeChar := by
  change s.toByteArray.data.toList = _
  rw [← String.utf8Encode_toList, List.utf8Encode, List.toList_data_toByteArray]

theorem encodeChar_ascii {c : Char} (h : c.toNat < 128) :
    String.utf8EncodeChar c = [UInt8.ofNat c.toNat] := by
  have hle : c.val.toNat ≤ 0x7f := Nat.le_of_lt_succ h
  exact if_pos hle

theorem flatMap_encodeChar_ascii {l : List Char} (h : ∀ c ∈ l, c.toNat < 128) :
    l.flatMap String.utf8EncodeChar = l.map fun c => UInt8.ofNat c.toNat := by
  induction l with
  | nil => rfl
  | cons c l ih =>
    rw [List.flatMap_cons, encodeChar_ascii (h c List.mem_cons_self),
      ih fun x hx => h x (List.mem_cons_of_mem _ hx)]
    rfl

/-- A text of characters below 128 has as many bytes as characters. -/
theorem length_toUTF8_ascii {s : String} (h : ∀ c ∈ s.toList, c.toNat < 128) :
    s.toUTF8.data.toList.length = s.toList.length := by
  rw [toUTF8_eq, flatMap_encodeChar_ascii h, List.length_map]

end Utf8
