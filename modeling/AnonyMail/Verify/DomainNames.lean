import AnonyMail.CustomDomains
import AnonyMail.Lib.Utf8

/-! # Domain names that can be claimed

The grammar of the names that `is_valid_domain` accepts, and what `validate_claimable` makes of a
raw name. The names it returns are canonical and outside the server's own namespace, but it compares
with the SMTP hostname as it is configured, and the DNS check compares without its trailing dots. -/

namespace AnonyMail.CustomDomains

open Str (toAsciiLowercase trim trimEndMatches isAsciiLowercase isAsciiDigit)

/-! ## The grammar -/

def isLabelChar (c : Char) : Bool := isAsciiLowercase c || isAsciiDigit c || c == '-'

structure IsLabel (label : List Char) : Prop where
  pos : 1 ≤ label.length
  le : label.length ≤ 63
  chars : ∀ c ∈ label, isLabelChar c
  head : label.head? ≠ some '-'
  last : label.getLast? ≠ some '-'

/-- Two or more labels, the last one alphabetic, in at most 253 bytes. -/
structure IsCanonical (d : String) : Prop where
  len : Str.len d ≤ 253
  labels : ∃ init tld, d.toList = ['.'].intercalate (init ++ [tld]) ∧ init ≠ [] ∧
    (∀ label ∈ init ++ [tld], IsLabel label) ∧ 2 ≤ tld.length ∧ ∀ c ∈ tld, isAsciiLowercase c

theorem isLabelChar_iff {c : Char} : isLabelChar c ↔
    (97 ≤ c.toNat ∧ c.toNat ≤ 122) ∨ (48 ≤ c.toNat ∧ c.toNat ≤ 57) ∨ c.toNat = 45 := by
  have hdash : c = '-' ↔ c.toNat = 45 := Char.toNat_inj.symm
  simp only [isLabelChar, isAsciiLowercase, isAsciiDigit, Bool.or_eq_true, Bool.and_eq_true,
    decide_eq_true_eq, beq_iff_eq, hdash, or_assoc]
  rfl

theorem isLabelChar_ascii {c : Char} (h : isLabelChar c) : c.toNat < 128 := by
  have := isLabelChar_iff.mp h
  omega

theorem len_of_isLabelChar {l : List Char} (h : ∀ c ∈ l, isLabelChar c) :
    Str.len (.ofList l) = l.length := by
  rw [Str.len, Str.asBytes, Utf8.length_toUTF8_ascii, String.toList_ofList]
  intro c hc
  rw [String.toList_ofList] at hc
  exact isLabelChar_ascii (h c hc)

theorem isEmpty_ofList {l : List Char} : ¬(String.ofList l).isEmpty ↔ 1 ≤ l.length := by
  rw [String.isEmpty_iff, ← String.toList_eq_nil_iff, String.toList_ofList]
  exact List.length_pos_iff.symm

theorem startsWith_char {s t : String} {c : Char} (ht : t.toList = [c]) :
    Str.startsWith s t ↔ s.toList.head? = some c := by
  rw [Str.startsWith, ht, List.isPrefixOf_iff_prefix, List.singleton_prefix_iff_head?_eq_some]

theorem endsWith_char {s t : String} {c : Char} (ht : t.toList = [c]) :
    Str.endsWith s t ↔ s.toList.getLast? = some c := by
  rw [Str.endsWith, ht, List.isSuffixOf_iff_suffix, List.singleton_suffix_iff_getLast?_eq_some]

theorem isValidLabel_iff {l : List Char} : isValidLabel (.ofList l) ↔ IsLabel l := by
  simp only [isValidLabel, Bool.and_eq_true, Bool.not_eq_true', decide_eq_true_eq, isEmpty_ofList,
    ← Bool.not_eq_true, @startsWith_char _ "-" '-' rfl, @endsWith_char _ "-" '-' rfl,
    String.toList_ofList, List.all_eq_true]
  constructor
  · rintro ⟨⟨⟨⟨hpos, hlen⟩, hhead⟩, hlast⟩, hchars⟩
    rw [len_of_isLabelChar hchars] at hlen
    exact ⟨hpos, hlen, hchars, hhead, hlast⟩
  · rintro ⟨hpos, hlen, hchars, hhead, hlast⟩
    rw [len_of_isLabelChar hchars]
    exact ⟨⟨⟨⟨hpos, hlen⟩, hhead⟩, hlast⟩, hchars⟩

/-! ## Names -/

theorem dot_not_mem {label : List Char} (h : IsLabel label) : '.' ∉ label := fun hmem =>
  absurd (h.chars '.' hmem) (by decide)

/-- `is_valid_domain` on the labels of the name. -/
theorem isValidDomain_eq {d : String} {init : List (List Char)} {tld : List Char}
    (h : d.toList.splitOn '.' = init ++ [tld]) :
    isValidDomain d ↔ Str.len d ≤ 253 ∧ init ≠ [] ∧ (∀ label ∈ init ++ [tld], IsLabel label) ∧
      2 ≤ Str.len (.ofList tld) ∧ ∀ c ∈ tld, isAsciiLowercase c := by
  have hall : ((init ++ [tld]).map String.ofList).all isValidLabel = true ↔
      ∀ label ∈ init ++ [tld], IsLabel label := by
    simp only [List.all_map, List.all_eq_true, Function.comp_apply, isValidLabel_iff]
  have hlast : ((init ++ [tld]).map String.ofList).getLast? = some (.ofList tld) := by simp
  have hlength : ((init ++ [tld]).map String.ofList).length < 2 ↔ init = [] := by
    rw [List.length_map, List.length_append, List.length_singleton, ← List.length_eq_zero_iff]
    omega
  rw [isValidDomain, Api.splitChar, h]
  dsimp only
  rw [hlast]
  simp only [hlength]
  constructor
  · intro h
    split at h
    · cases h
    next hlen =>
    split at h
    · cases h
    next hinit =>
    split at h
    · cases h
    next hlabels =>
    simp only [Bool.and_eq_true, decide_eq_true_eq, String.toList_ofList, List.all_eq_true] at h
    exact ⟨Nat.not_lt.mp hlen, hinit, hall.mp (by simpa using hlabels), h.1, h.2⟩
  · rintro ⟨hlen, hinit, hlabels, htld, halpha⟩
    rw [if_neg (Nat.not_lt.mpr hlen), if_neg hinit, hall.mpr hlabels]
    simpa [htld] using halpha

/-- `is_valid_domain` is the grammar. -/
theorem isValidDomain_iff {d : String} : isValidDomain d ↔ IsCanonical d := by
  constructor
  · intro h
    obtain ⟨init, tld, hsplit⟩ : ∃ init tld, d.toList.splitOn '.' = init ++ [tld] := by
      obtain h0 | ⟨init, tld, h1⟩ := List.eq_nil_or_concat' (d.toList.splitOn '.')
      · exact absurd h0 (List.splitOn_ne_nil _ _)
      · exact ⟨init, tld, h1⟩
    obtain ⟨hlen, hinit, hlabels, htld, halpha⟩ := (isValidDomain_eq hsplit).mp h
    rw [len_of_isLabelChar (hlabels tld (by simp)).chars] at htld
    refine ⟨hlen, init, tld, ?_, hinit, hlabels, htld, halpha⟩
    rw [← hsplit, List.intercalate_splitOn]
  · rintro ⟨hlen, init, tld, hd, hinit, hlabels, htld, halpha⟩
    have hsplit : d.toList.splitOn '.' = init ++ [tld] := by
      rw [hd]
      exact List.splitOn_intercalate '.' (fun l hl => dot_not_mem (hlabels l hl)) (by simp)
    refine (isValidDomain_eq hsplit).mpr ⟨hlen, hinit, hlabels, ?_, halpha⟩
    rwa [len_of_isLabelChar (hlabels tld (by simp)).chars]

theorem mem_of_mem_intercalate {a x : Char} {parts : List (List Char)}
    (h : a ∈ [x].intercalate parts) : a = x ∨ ∃ p ∈ parts, a ∈ p := by
  induction parts with
  | nil => simp at h
  | cons p parts ih =>
    cases parts with
    | nil => exact .inr ⟨p, List.mem_cons_self, by simpa using h⟩
    | cons q parts =>
      rw [List.intercalate_cons_cons] at h
      simp only [List.mem_append, List.mem_singleton] at h
      obtain (h | h) | h := h
      · exact .inr ⟨p, List.mem_cons_self, h⟩
      · exact .inl h
      · obtain h | ⟨p', hp', ha⟩ := ih h
        · exact .inl h
        · exact .inr ⟨p', List.mem_cons_of_mem _ hp', ha⟩

theorem exists_intercalate_concat (x : Char) (init : List (List Char)) (tld : List Char) :
    ∃ l, [x].intercalate (init ++ [tld]) = l ++ tld := by
  induction init with
  | nil => exact ⟨[], by simp⟩
  | cons p init ih =>
    obtain ⟨l, hl⟩ := ih
    refine ⟨p ++ x :: l, ?_⟩
    rw [List.cons_append, List.intercalate_cons_of_ne_nil (by simp), hl]
    simp

theorem trimEndMatches_eq_self {s : String} {x c : Char} (hs : s.toList = l ++ [x]) (hx : x ≠ c) :
    trimEndMatches s c = s := by
  have hdrop := Str.dropEndWhile_append (p := (· == c)) l [] (beq_false_of_ne hx)
  rw [trimEndMatches, hs, hdrop]
  exact String.toList_injective (by rw [String.toList_ofList, hs]; rfl)

namespace IsCanonical

variable {d : String} {c : Char}

theorem chars (h : IsCanonical d) (hc : c ∈ d.toList) : c = '.' ∨ isLabelChar c := by
  obtain ⟨init, tld, hd, -, hlabels, -⟩ := h.labels
  rw [hd] at hc
  obtain hc | ⟨label, hlabel, hc⟩ := mem_of_mem_intercalate hc
  · exact .inl hc
  · exact .inr ((hlabels label hlabel).chars c hc)

/-- A canonical name ends in a letter. -/
theorem last (h : IsCanonical d) : ∃ l c, d.toList = l ++ [c] ∧ isAsciiLowercase c := by
  obtain ⟨init, tld, hd, -, -, hlen, halpha⟩ := h.labels
  obtain ⟨l, hl⟩ := exists_intercalate_concat '.' init tld
  obtain rfl | ⟨tld', c, rfl⟩ := List.eq_nil_or_concat' tld
  · simp at hlen
  · exact ⟨l ++ tld', c, by rw [hd, hl, List.append_assoc], halpha c (by simp)⟩

theorem lower (h : IsCanonical d) : toAsciiLowercase d = d := by
  refine Str.toAsciiLowercase_eq_self.mpr fun c hc => ?_
  obtain rfl | hc := h.chars hc
  · rfl
  · refine if_neg fun hupper => ?_
    have h65 : 65 ≤ c.toNat := hupper.1
    have h90 : c.toNat ≤ 90 := hupper.2
    have := isLabelChar_iff.mp hc
    omega

/-- Canonical names are their own normal form. -/
theorem normalize_eq (h : IsCanonical d) : normalize d = d := by
  have htrim : trim d = d := by
    refine Str.trim_of_forall fun c hc => ?_
    obtain rfl | hc := h.chars hc
    · rfl
    · have := isLabelChar_iff.mp hc
      simp [Str.isWhitespace]
      omega
  obtain ⟨l, c, hd, hc⟩ := h.last
  have hdot : c ≠ '.' := by
    rintro rfl
    cases hc
  rw [normalize, htrim, trimEndMatches_eq_self hd hdot, h.lower]

end IsCanonical

/-! ## Claims -/

/-- `d` is no configured domain and no subdomain of one. -/
def Outside (cfg : Config) (d : String) : Prop :=
  ∀ served ∈ cfg.domains, d ≠ served ∧ ¬Str.endsWith d ("." ++ served)

theorem outside_iff {cfg : Config} {d : String} :
    Outside cfg d ↔
      ¬cfg.domains.any fun served => d == served || Str.endsWith d ("." ++ served) := by
  simp [Outside]

variable {cfg : Config} {raw d : String}

theorem validateClaimable_eq_ok :
    validateClaimable cfg raw = .ok d ↔ normalize raw = d ∧ IsCanonical d ∧ Outside cfg d ∧
      d ≠ toAsciiLowercase cfg.smtpHostname := by
  unfold validateClaimable
  constructor
  · intro h
    dsimp only at h
    split at h
    · cases h
    next hvalid =>
    split at h
    · cases h
    next hout =>
    split at h
    · cases h
    next hmx =>
    rw [← Except.ok.inj h]
    exact ⟨rfl, isValidDomain_iff.mp (by simpa using hvalid), outside_iff.mpr hout,
      fun heq => hmx (beq_iff_eq.mpr heq)⟩
  · rintro ⟨rfl, hcanon, hout, hmx⟩
    simp only [isValidDomain_iff.mpr hcanon, Bool.not_true, Bool.false_eq_true, if_false,
      if_neg (outside_iff.mp hout), if_neg (mt beq_iff_eq.mp hmx)]

/-- Without a dot at its end the SMTP hostname is the MX target, but for the case. -/
theorem expectedMx_eq (h : ¬Str.endsWith cfg.smtpHostname ".") :
    expectedMx cfg = toAsciiLowercase cfg.smtpHostname := by
  rw [expectedMx]
  rcases List.eq_nil_or_concat' cfg.smtpHostname.toList with hs | ⟨l, x, hs⟩
  · rw [trimEndMatches, hs, String.toList_eq_nil_iff.mp hs]
    rfl
  · have hx : x ≠ '.' := by
      rintro rfl
      exact h ((@endsWith_char _ "." '.' rfl).mpr (by rw [hs, List.getLast?_concat]))
    rw [trimEndMatches_eq_self hs hx]

/-- No canonical name is a hostname with a dot at its end. -/
theorem IsCanonical.ne_hostname (h : IsCanonical d) (hdot : Str.endsWith cfg.smtpHostname ".") :
    d ≠ toAsciiLowercase cfg.smtpHostname := by
  rintro rfl
  obtain ⟨l, c, hd, hc⟩ := h.last
  have hlast : (toAsciiLowercase cfg.smtpHostname).toList.getLast? = some '.' := by
    rw [toAsciiLowercase, String.toList_ofList, List.getLast?_map, (@endsWith_char _ "." '.' rfl).mp hdot]
    rfl
  rw [hd, List.getLast?_concat, Option.some.injEq] at hlast
  rw [hlast] at hc
  cases hc

/-- What `validate_claimable` promises of the name it returns, and that it returns every such
name. -/
structure ValidatesExactly (cfg : Config) (raw : String) : Prop where
  sound : ∀ d, validateClaimable cfg raw = .ok d → IsCanonical d ∧ toAsciiLowercase d = d ∧
    validateClaimable cfg d = .ok d ∧ Outside cfg d ∧ d ≠ expectedMx cfg
  complete : IsCanonical (normalize raw) → Outside cfg (normalize raw) →
    normalize raw ≠ expectedMx cfg → validateClaimable cfg raw = .ok (normalize raw)

/-- The SMTP hostname is configured with a dot at its end, and the raw name is that host: a
claimable name but for that. -/
structure IsDottedHost (cfg : Config) (raw : String) : Prop where
  dot : Str.endsWith cfg.smtpHostname "."
  host : normalize raw = expectedMx cfg
  canonical : IsCanonical (expectedMx cfg)
  outside : Outside cfg (expectedMx cfg)

theorem validateClaimable_exact_iff (cfg : Config) (raw : String) :
    ValidatesExactly cfg raw ↔ ¬IsDottedHost cfg raw := by
  constructor
  · rintro ⟨hsound, -⟩ ⟨hdot, hhost, hcanon, hout⟩
    have hok : validateClaimable cfg raw = .ok (expectedMx cfg) :=
      validateClaimable_eq_ok.mpr ⟨hhost, hcanon, hout, hcanon.ne_hostname hdot⟩
    exact (hsound _ hok).2.2.2.2 rfl
  · intro hhost
    constructor
    · intro d hok
      obtain ⟨hd, hcanon, hout, hmx⟩ := validateClaimable_eq_ok.mp hok
      have hself : validateClaimable cfg d = .ok d :=
        validateClaimable_eq_ok.mpr ⟨hcanon.normalize_eq, hcanon, hout, hmx⟩
      refine ⟨hcanon, hcanon.lower, hself, hout, ?_⟩
      by_cases hdot : Str.endsWith cfg.smtpHostname "."
      · rintro rfl
        exact hhost ⟨hdot, hd, hcanon, hout⟩
      · rwa [expectedMx_eq hdot]
    · intro hcanon hout hmx
      refine validateClaimable_eq_ok.mpr ⟨rfl, hcanon, hout, ?_⟩
      by_cases hdot : Str.endsWith cfg.smtpHostname "."
      · exact hcanon.ne_hostname hdot
      · rwa [← expectedMx_eq hdot]

/-- `SMTP_HOSTNAME=mx.other.example.` lets a client claim the mail host itself. -/
theorem not_validateClaimable_exact :
    ¬∀ (cfg : Config) (raw : String), (∀ d ∈ cfg.domains, toAsciiLowercase d = d) →
      ValidatesExactly cfg raw := by
  intro h
  have hok : validateClaimable { Config.default with smtpHostname := "mx.other.example." }
      "mx.other.example" = .ok "mx.other.example" := by decide +kernel
  have hlower : ∀ d ∈ Config.default.domains, toAsciiLowercase d = d := by decide +kernel
  exact ((h { Config.default with smtpHostname := "mx.other.example." } _ hlower).sound _ hok).2.2.2.2
    (by decide +kernel)

end AnonyMail.CustomDomains
