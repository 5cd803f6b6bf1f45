import AnonyMail.Api.Downloads
import AnonyMail.Lib.Utf8
import Mathlib.Data.Bool.AllAny

/-! # The name of a download

The name of an attachment comes from the sender. Whatever it is, the header value made of it is
printable ASCII with one quoted name, so nothing in it ends the header or the name, and a name that
is not ASCII can be read back from the part that RFC 5987 adds. -/

namespace AnonyMail.Api.Messages

/-- What can stand inside quotes in a header. -/
def IsPlain (c : Char) : Prop := 0x20 ≤ c.toNat ∧ c.toNat ≤ 0x7E ∧ c ≠ '"' ∧ c ≠ '\\'

instance : DecidablePred IsPlain := fun c => by unfold IsPlain; infer_instance

/-! ## The quoted name -/

theorem mem_of_mem_trim {s : String} {c : Char} (h : c ∈ (Str.trim s).toList) : c ∈ s.toList := by
  rw [Str.trim, String.toList_ofList, Str.dropEndWhile, List.mem_reverse] at h
  have hstart := (List.dropWhile_sublist _).subset h
  exact (List.dropWhile_sublist _).subset (List.mem_reverse.mp hstart)

theorem plain_of_kept {c : Char} (h : !isControl c && c != '"' && c != '\\' && isAscii c) :
    IsPlain c := by
  simp only [isControl, isAscii, Bool.and_eq_true, Bool.not_eq_true', Bool.or_eq_false_iff,
    decide_eq_false_iff_not, decide_eq_true_eq, bne_iff_ne] at h
  obtain ⟨⟨⟨⟨hlow, hhigh⟩, hquote⟩, hslash⟩, hascii⟩ := h
  refine ⟨by omega, ?_, hquote, hslash⟩
  simp at hhigh
  omega

theorem plain_safeFilename {name : Option String} {c : Char}
    (h : c ∈ (safeFilename name).toList) : IsPlain c := by
  unfold safeFilename at h
  dsimp only at h
  split at h
  · have hall : ∀ c ∈ "attachment".toList, IsPlain c :=
      List.all_iff_forall_prop.mp (by decide)
    exact hall c h
  · have hkept := mem_of_mem_trim h
    rw [String.toList_ofList, List.mem_filter] at hkept
    exact plain_of_kept hkept.2

theorem safeFilename_ne (name : Option String) : safeFilename name ≠ "" := by
  unfold safeFilename
  dsimp only
  split
  · decide
  · next h =>
    rw [String.isEmpty_iff] at h
    exact h

/-! ## The extended name -/

theorem attrChar_spec {b : UInt8} (h : attrChar b) :
    0x20 < b.toNat ∧ b.toNat < 0x7F ∧ b ≠ 0x25 ∧ IsPlain (Char.ofNat b.toNat) := by
  have hall : ∀ n < 256, attrChar (.ofNat n) → 0x20 < n ∧ n < 0x7F ∧ UInt8.ofNat n ≠ 0x25 ∧
      IsPlain (Char.ofNat n) := by
    decide +kernel
  have hb := hall b.toNat b.toNat_lt
  rw [UInt8.ofNat_toNat] at hb
  exact hb h

theorem literals_attrChar : PercentEncoding.Literals attrChar := fun _ hb =>
  have ⟨hlow, hhigh, hpct, _⟩ := attrChar_spec hb
  ⟨hlow, hhigh, hpct⟩

theorem plain_rfc5987Encode {name : String} {c : Char} (h : c ∈ (rfc5987Encode name).toList) :
    IsPlain c := by
  rw [rfc5987Encode, String.toList_ofList] at h
  exact (PercentEncoding.isEncoded_encode _).forall (fun b hb => (attrChar_spec hb).2.2.2)
    (by decide) (by decide) c h

/-! ## The header -/

/-- A value of `Content-Disposition` that cannot be broken out of and does not lose the name. -/
structure IsDisposition (name : Option String) (value : String) : Prop where
  printable : ∀ b ∈ Str.asBytes value, 0x20 ≤ b ∧ b ≤ 0x7E
  quotes : value.toList.count '"' = 2
  backslash : '\\' ∉ value.toList
  parts : ∃ filename rest, value = "attachment; filename=\"" ++ filename ++ "\"" ++ rest ∧
    filename ≠ "" ∧ '"' ∉ filename.toList ∧
    ∀ raw, name = some raw → (∃ c ∈ raw.toList, 128 ≤ c.toNat) →
      ∃ ext, rest = "; filename*=UTF-8''" ++ ext ∧
        PercentEncoding.IsEncoded attrChar ext.toList ∧
        PercentEncoding.decode ext.toList = Str.asBytes raw

theorem not_all_isAscii {raw : String} :
    (!raw.toList.all isAscii) = true ↔ ∃ c ∈ raw.toList, 128 ≤ c.toNat := by
  simp [isAscii]

/-- The value is the quoted name and plain text after it. -/
theorem contentDisposition_eq (name : Option String) :
    ∃ rest, contentDisposition name =
        "attachment; filename=\"" ++ safeFilename name ++ "\"" ++ rest ∧
      (∀ c ∈ rest.toList, IsPlain c) ∧
      ∀ raw, name = some raw → (∃ c ∈ raw.toList, 128 ≤ c.toNat) →
        rest = "; filename*=UTF-8''" ++ rfc5987Encode raw := by
  cases name with
  | none =>
    refine ⟨"", ?_, by simp, fun raw hraw => ?_⟩
    · dsimp only [contentDisposition]
      rw [String.append_empty]
    · exact absurd hraw.symm (Option.some_ne_none raw)
  | some raw =>
    by_cases hascii : (!raw.toList.all isAscii) = true
    · refine ⟨"; filename*=UTF-8''" ++ rfc5987Encode raw, ?_, fun c hc => ?_, ?_⟩
      · dsimp only [contentDisposition]
        rw [if_pos hascii, String.append_assoc]
      · rw [String.toList_append, List.mem_append] at hc
        have hstart : ∀ c ∈ "; filename*=UTF-8''".toList, IsPlain c :=
          List.all_iff_forall_prop.mp (by decide)
        exact hc.elim (hstart c) plain_rfc5987Encode
      · intro raw' hraw _
        rw [Option.some.injEq] at hraw
        rw [hraw]
    · refine ⟨"", ?_, by simp, ?_⟩
      · dsimp only [contentDisposition]
        rw [if_neg hascii, String.append_empty]
      · intro raw' hraw hwide
        rw [← Option.some.inj hraw] at hwide
        exact absurd (not_all_isAscii.mpr hwide) hascii

theorem count_quote_eq_zero {l : List Char} (h : ∀ c ∈ l, IsPlain c) : l.count '"' = 0 :=
  List.count_eq_zero.mpr fun hmem => (h _ hmem).2.2.1 rfl

theorem isDisposition_contentDisposition (name : Option String) :
    IsDisposition name (contentDisposition name) := by
  obtain ⟨rest, hvalue, hrest, hext⟩ := contentDisposition_eq name
  have hlist : (contentDisposition name).toList =
      "attachment; filename=\"".toList ++ (safeFilename name).toList ++ ['"'] ++ rest.toList := by
    rw [hvalue]
    simp only [String.toList_append]
    rfl
  have hstart : ∀ c ∈ "attachment; filename=\"".toList, IsPlain c ∨ c = '"' :=
    List.all_iff_forall_prop.mp (by decide)
  have hchars : ∀ c ∈ (contentDisposition name).toList, IsPlain c ∨ c = '"' := by
    intro c hc
    simp only [hlist, List.mem_append, List.mem_singleton] at hc
    obtain ((hc | hc) | hc) | hc := hc
    · exact hstart c hc
    · exact .inl (plain_safeFilename hc)
    · exact .inr hc
    · exact .inl (hrest c hc)
  have hascii : ∀ c ∈ (contentDisposition name).toList, 0x20 ≤ c.toNat ∧ c.toNat ≤ 0x7E := by
    intro c hc
    obtain h | rfl := hchars c hc
    · exact ⟨h.1, h.2.1⟩
    · decide
  constructor
  · intro b hb
    rw [Str.asBytes, Utf8.toUTF8_eq, Utf8.flatMap_encodeChar_ascii] at hb
    · obtain ⟨c, hc, rfl⟩ := List.mem_map.mp hb
      obtain ⟨hlow, hhigh⟩ := hascii c hc
      rw [UInt8.le_iff_toNat_le, UInt8.le_iff_toNat_le, UInt8.toNat_ofNat',
        Nat.mod_eq_of_lt (by omega)]
      exact ⟨hlow, hhigh⟩
    · intro c hc
      have := hascii c hc
      omega
  · rw [hlist, List.count_append, List.count_append, List.count_append, count_quote_eq_zero hrest,
      count_quote_eq_zero fun c => plain_safeFilename]
    rfl
  · intro hslash
    obtain h | h := hchars _ hslash
    · exact h.2.2.2 rfl
    · cases h
  · refine ⟨safeFilename name, rest, hvalue, safeFilename_ne name, fun hquote => ?_, ?_⟩
    · exact (plain_safeFilename hquote).2.2.1 rfl
    · intro raw hname hraw
      refine ⟨rfc5987Encode raw, hext raw hname hraw, ?_, ?_⟩
      · rw [rfc5987Encode, String.toList_ofList]
        exact PercentEncoding.isEncoded_encode _
      · rw [rfc5987Encode, String.toList_ofList]
        exact PercentEncoding.decode_encode literals_attrChar _

end AnonyMail.Api.Messages
