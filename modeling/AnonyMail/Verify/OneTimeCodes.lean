import AnonyMail.Otp

/-! # The shape of extracted codes

What each expression captures ends with a word character and at a word boundary. Every path but one
reduces what it has captured to ASCII; a `G-` code is returned as it stands, and its six digits can be
digits of any script. -/

namespace AnonyMail.Otp

open Regex
open Str (isAsciiDigit)

/-! ## Groups -/

/-- What an expression has captured in a text, and that no word character follows. -/
structure CodeAt (U : CharClasses) (m : Captures Char) (text before captured after : List Char) :
    Prop extends m.In text before captured after where
  next : ∀ x, after.head? = some x → ¬U.word x

variable {U : CharClasses} {m : Captures Char} {text : List Char}

theorem noGroup_keywords (words : List String) : NoGroup (keywords U words) := by
  refine noGroup_alts fun r hr => ?_
  obtain ⟨word, -, rfl⟩ := List.mem_map.mp hr
  refine noGroup_cat.mpr fun r hr => ?_
  obtain ⟨c, -, rfl⟩ := List.mem_map.mp hr
  trivial

/-- A keyword has a first character. -/
theorem after_ne_of_keywords {words : List String} {s s' : Cursor Char}
    (hwords : ∀ word ∈ words, word.toList ≠ []) (h : Match (keywords U words) s s') :
    s.after ≠ [] := by
  intro hnil
  obtain ⟨r, hr, h⟩ := match_alts h
  obtain ⟨word, hword, rfl⟩ := List.mem_map.mp hr
  obtain ⟨c, cs, hcs⟩ := List.exists_cons_of_ne_nil (hwords word hword)
  rw [literal, hcs] at h
  obtain ⟨s₁, hset, -⟩ := match_cat_cons.mp h
  obtain ⟨a, -, hread, -⟩ := match_set.mp hset
  cases hnil.symm.trans hread.after

/-- A group that ends with a word character and at a boundary is not cut off. -/
theorem codeAt_of_mem (pre post : List (Regex Char)) {g : Regex Char}
    (h : m ∈ capturesIter (.cat (pre ++ .group g :: wordBoundary U :: post)) text)
    (hpost : ∀ r ∈ post, NoGroup r)
    (hlast : ∀ {s s' l}, Match g s s' → s.Reads s' l → ∃ l' a, l = l' ++ [a] ∧ U.word a) :
    ∃ before captured after, CodeAt U m text before captured after ∧
      (∃ s₁ s₂, Match g s₁ s₂ ∧ s₁.Reads s₂ captured) ∧
      ∃ s, s.after = after ∧ Match (cat post) s m.stop := by
  obtain ⟨before, captured, after, hin, ⟨s₁, s₂, hg, hreads⟩, hp, hrest⟩ := captured_of_mem h hpost
  refine ⟨before, captured, after, ⟨hin, fun x hx => ?_⟩, ⟨s₁, s₂, hg, hreads⟩, hrest⟩
  obtain ⟨l', a, rfl, ha⟩ := hlast hg hreads
  simpa [ha, hx] using hp

/-- Characters of a set, as a repetition reads them. -/
theorem reads_rep {p : Char → Bool} {s s' : Cursor Char} {l : List Char}
    (h : Match (.rep greedy lo hi (.set p)) s s') (hl : s.Reads s' l) :
    lo ≤ l.length ∧ l.length ≤ hi ∧ ∀ c ∈ l, p c := by
  obtain ⟨l', hl', -, h⟩ := match_rep_set.mp h
  rwa [← hl.upTo_eq, hl'.upTo_eq]

theorem last_of_rep {p : Char → Bool} {s s' : Cursor Char} {l : List Char}
    (hp : ∀ c, p c → U.word c) (h : Match (.rep greedy (lo + 1) hi (.set p)) s s')
    (hl : s.Reads s' l) : ∃ l' a, l = l' ++ [a] ∧ U.word a := by
  obtain ⟨hlo, -, hall⟩ := reads_rep h hl
  obtain rfl | ⟨l', a, rfl⟩ := List.eq_nil_or_concat' l
  · cases hlo
  · exact ⟨l', a, rfl, hp a (hall a (by simp))⟩

/-- A run of digits and separators ends with a digit. -/
theorem last_of_digitRun {s s' : Cursor Char} {l : List Char} (h : Match (digitRun U) s s')
    (hl : s.Reads s' l) : ∃ l' a, l = l' ++ [a] ∧ U.word a := by
  have hdigit : ∀ {s s' : Cursor Char}, Match (.set U.digit) s s' →
      ∃ a, s.Reads s' [a] ∧ U.word a := by
    intro s s' h
    obtain ⟨a, ha, hread, -⟩ := match_set.mp h
    exact ⟨a, hread, U.word_of_digit a ha⟩
  suffices ∃ l' a, s.Reads s' (l' ++ [a]) ∧ U.word a by
    obtain ⟨l', a, hread, ha⟩ := this
    exact ⟨l', a, by rw [← hl.upTo_eq, hread.upTo_eq], ha⟩
  obtain ⟨s₁, hfirst, h⟩ := match_cat_cons.mp h
  obtain ⟨s₂, hrep, h⟩ := match_cat_cons.mp h
  cases match_cat_nil.mp h
  obtain ⟨a, hread, ha⟩ := hdigit hfirst
  cases hrep with
  | done => exact ⟨[], a, hread, ha⟩
  | more hturn hrest =>
    -- the one turn of the optional part ends with a digit of its own
    cases hrest
    obtain ⟨s₃, hsep, h⟩ := match_cat_cons.mp hturn
    obtain ⟨s₄, hlast, h⟩ := match_cat_cons.mp h
    cases match_cat_nil.mp h
    obtain ⟨b, hread', hb⟩ := hdigit hlast
    exact ⟨_, b, (hread.trans hsep.reads).trans hread', hb⟩

theorem codeAt_gCode (h : m ∈ (gCode U).capturesIter text) :
    ∃ before captured, CodeAt U m text before captured m.stop.after := by
  obtain ⟨before, captured, _, hcode, -, s, rfl, hrest⟩ :=
    codeAt_of_mem [wordBoundary U, .set (· == 'G'), .set (· == '-')] [] h (by simp)
      (last_of_rep U.word_of_digit)
  cases match_cat_nil.mp hrest
  exact ⟨before, captured, hcode⟩

theorem codeAt_keywordThenDigits (h : m ∈ (keywordThenDigits U).capturesIter text) :
    ∃ before captured, CodeAt U m text before captured m.stop.after := by
  obtain ⟨before, captured, _, hcode, -, s, rfl, hrest⟩ :=
    codeAt_of_mem [wordBoundary U, keywords U _, wordBoundary U, .rep false 0 24 (.set _)] [] h
      (by simp) last_of_digitRun
  cases match_cat_nil.mp hrest
  exact ⟨before, captured, hcode⟩

/-- The keyword is read after the digits. -/
theorem codeAt_digitsThenKeyword (h : m ∈ (digitsThenKeyword U).capturesIter text) :
    ∃ before captured after, CodeAt U m text before captured after ∧ after ≠ [] := by
  have hpost : ∀ r ∈ [.rep false 0 40 (.set fun c => c != '\r' && c != '\n'), wordBoundary U,
      keywords U ["code", "otp", "pin", "passcode"], wordBoundary U], NoGroup r := by
    simp only [List.forall_mem_cons]
    exact ⟨trivial, trivial, noGroup_keywords _, trivial, by simp⟩
  obtain ⟨before, captured, after, hcode, -, s, rfl, hrest⟩ :=
    codeAt_of_mem [wordBoundary U] _ h hpost last_of_digitRun
  refine ⟨before, captured, s.after, hcode, fun hnil => ?_⟩
  obtain ⟨s₁, hgap, h₁⟩ := match_cat_cons.mp hrest
  obtain ⟨s₂, hbound, h₂⟩ := match_cat_cons.mp h₁
  obtain ⟨s₃, hkeyword, -⟩ := match_cat_cons.mp h₂
  exact after_ne_of_keywords (by decide) hkeyword (hbound.after_nil (hgap.after_nil hnil))

theorem codeAt_keywordThenAlnum (h : m ∈ (keywordThenAlnum U).capturesIter text) :
    ∃ before captured, CodeAt U m text before captured m.stop.after ∧
      5 ≤ captured.length ∧ captured.length ≤ 10 ∧
      ∀ c ∈ captured, isAsciiUppercase c || isAsciiDigit c := by
  have hword : ∀ c, isAsciiUppercase c || isAsciiDigit c → U.word c := by
    intro c hc
    refine U.word_of_ascii c ?_
    simp only [isAsciiAlphanumeric, isAsciiAlphabetic, Bool.or_eq_true] at hc ⊢
    tauto
  obtain ⟨before, captured, _, hcode, ⟨s₁, s₂, hg, hreads⟩, s, rfl, hrest⟩ :=
    codeAt_of_mem [wordBoundary U, keywords U _, wordBoundary U, .rep true 1 16 (.set _)] [] h
      (by simp) (last_of_rep hword)
  cases match_cat_nil.mp hrest
  exact ⟨before, captured, hcode, reads_rep hg hreads⟩

/-! ## Shapes -/

structure IsDigits (code : String) : Prop where
  min : 4 ≤ code.toList.length
  max : code.toList.length ≤ 8
  digits : ∀ c ∈ code.toList, isAsciiDigit c

structure IsToken (code : String) : Prop where
  min : 5 ≤ code.toList.length
  max : code.toList.length ≤ 10
  chars : ∀ c ∈ code.toList, isAsciiUppercase c || isAsciiDigit c
  digits : 2 ≤ (code.toList.filter isAsciiDigit).length
  letters : 1 ≤ (code.toList.filter isAsciiAlphabetic).length

/-- 4 to 8 digits, or 5 to 10 capital letters and digits with two digits and a letter among them. -/
def IsCode (code : String) : Prop := IsDigits code ∨ IsToken code

theorem isDigits_of_normalizeDigits {raw : List Char} (h : normalizeDigits raw = some code) :
    IsDigits code := by
  unfold normalizeDigits at h
  obtain ⟨⟨hmin, hmax⟩, ⟨⟩⟩ := Option.ite_none_right_eq_some.mp h
  rw [← @String.toList_ofList (raw.filter _)] at hmin hmax
  refine ⟨hmin, hmax, fun c hc => ?_⟩
  rw [String.toList_ofList] at hc
  exact (List.mem_filter.mp hc).2

theorem normalizeDigits_of_standaloneCode {line : String} (h : standaloneCode line = some code) :
    normalizeDigits (Str.trim line).toList = some code := by
  unfold standaloneCode at h
  dsimp only at h
  split at h
  · cases h
  split at h
  · cases h
  split at h
  · cases h
  next hcode =>
  rw [hcode]
  split at h
  · split at h
    · cases h
    · split at h
      · cases h
      · exact h
  · exact h

/-- Without a `G-` code the anchored expressions find codes of the right shape. -/
theorem isCode_of_scanAnchored {haystack : String}
    (hg : (gCode U).captures haystack.toList = none)
    (h : scanAnchored U haystack = some code) : IsCode code := by
  rw [scanAnchored, hg] at h
  dsimp only at h
  split at h
  · next code' hdigits =>
    cases h
    obtain ⟨re, -, hdigits⟩ := List.exists_of_findSome?_eq_some hdigits
    obtain ⟨caps, -, hdigits⟩ := List.exists_of_findSome?_eq_some hdigits
    exact .inl (isDigits_of_normalizeDigits hdigits)
  · split at h
    · next caps hcaps =>
      obtain ⟨⟨hdigits, hletters⟩, ⟨⟩⟩ := Option.ite_none_right_eq_some.mp h
      obtain ⟨before, captured, hcode, hmin, hmax, hchars⟩ :=
        codeAt_keywordThenAlnum (mem_capturesIter hcaps)
      rw [hcode.text_captured] at hdigits hletters ⊢
      rw [← @String.toList_ofList captured] at hmin hmax hchars hdigits hletters
      exact .inr ⟨hmin, hmax, hchars, hdigits, hletters⟩
    · cases h

/-! ## The code of a `G-` prefix -/

/-- `G-` and six digits of any script, with no word character before or after. -/
structure IsGCode (U : CharClasses) (before digits after : List Char) : Prop where
  prev : ∀ x, before.getLast? = some x → ¬U.word x
  length : digits.length = 6
  digits : ∀ c ∈ digits, U.digit c
  next : ∀ x, after.head? = some x → ¬U.word x

/-- `digits` are those of the first `G-` code of the text. -/
def FirstGCode (U : CharClasses) (text digits : List Char) : Prop :=
  ∃ before after, text = before ++ 'G' :: '-' :: (digits ++ after) ∧ IsGCode U before digits after ∧
    ∀ before' digits' after', text = before' ++ 'G' :: '-' :: (digits' ++ after') →
      IsGCode U before' digits' after' → before.length ≤ before'.length

theorem word_G : U.word 'G' := U.word_of_ascii 'G' rfl

/-- Before a word character there is a boundary if there is none before. -/
theorem boundary_before {c : Char} {before after : List Char} (hc : U.word c) :
    ((before.reverse.head?.any U.word != (c :: after).head?.any U.word) = true) ↔
      ∀ x, before.getLast? = some x → ¬U.word x := by
  rw [List.head?_reverse]
  cases before.getLast? <;> simp [hc]

/-- After a word character there is a boundary if there is none after. -/
theorem boundary_after {c : Char} {before after : List Char} (hc : U.word c) :
    (((c :: before).head?.any U.word != after.head?.any U.word) = true) ↔
      ∀ x, after.head? = some x → ¬U.word x := by
  cases after <;> simp [hc]

/-- The place after the `G-` code. -/
def afterGCode (before digits rest : List Char) : Cursor Char :=
  ⟨digits.reverse ++ '-' :: 'G' :: before.reverse, rest, some ('-' :: 'G' :: before.reverse, digits)⟩

/-- The expression matches the `G-` codes. -/
theorem match_gCode {before after : List Char} {s : Cursor Char} :
    Match (gCode U) ⟨before.reverse, after, none⟩ s ↔
      ∃ digits rest, after = 'G' :: '-' :: (digits ++ rest) ∧ IsGCode U before digits rest ∧
        s = afterGCode before digits rest := by
  constructor
  · intro h
    obtain ⟨s₁, hb, h₁⟩ := match_cat_cons.mp h
    obtain ⟨s₂, hG, h₂⟩ := match_cat_cons.mp h₁
    obtain ⟨s₃, hdash, h₃⟩ := match_cat_cons.mp h₂
    obtain ⟨s₄, hgroup, h₄⟩ := match_cat_cons.mp h₃
    obtain ⟨s₅, hb', h₅⟩ := match_cat_cons.mp h₄
    obtain ⟨rfl, hstart⟩ := match_assert.mp hb
    obtain ⟨rfl, hstop⟩ := match_assert.mp hb'
    cases match_cat_nil.mp h₅
    obtain ⟨a, ha, hreadG, -⟩ := match_set.mp hG
    obtain ⟨b, hb₂, hreadDash, -⟩ := match_set.mp hdash
    cases eq_of_beq ha
    cases eq_of_beq hb₂
    cases hgroup with
    | @group _ _ s₄ hrep =>
    obtain ⟨digits, hread, -, hmin, hmax, hdigits⟩ := match_rep_set.mp hrep
    have hbefore : s₃.before = '-' :: 'G' :: before.reverse := by
      rw [hreadDash.before, hreadG.before]
      rfl
    have hafter : after = 'G' :: '-' :: (digits ++ s₄.after) := by
      have h := hreadG.after
      rwa [hreadDash.after, hread.after] at h
    obtain ⟨l, d, rfl⟩ := (List.eq_nil_or_concat' digits).resolve_left (by rintro rfl; cases hmin)
    have hd : U.word d := U.word_of_digit d (hdigits d (by simp))
    have hlast : s₄.before = d :: (l.reverse ++ s₃.before) := by
      rw [hread.before, List.reverse_concat, List.cons_append]
    refine ⟨l ++ [d], s₄.after, hafter, ⟨(boundary_before word_G).mp (hafter ▸ hstart),
      Nat.le_antisymm hmax hmin, hdigits, (boundary_after hd).mp (hlast ▸ hstop)⟩, ?_⟩
    rw [afterGCode, ← hbefore, hread.upTo_eq, ← hread.before]
  · rintro ⟨digits, rest, rfl, ⟨hprev, hlength, hdigits, hnext⟩, rfl⟩
    obtain ⟨l, d, rfl⟩ := (List.eq_nil_or_concat' digits).resolve_left (by rintro rfl; cases hlength)
    have hd : U.word d := U.word_of_digit d (hdigits d (by simp))
    have hreads : Cursor.Reads ⟨'-' :: 'G' :: before.reverse, (l ++ [d]) ++ rest, none⟩
      ⟨(l ++ [d]).reverse ++ '-' :: 'G' :: before.reverse, rest, none⟩ (l ++ [d]) := ⟨rfl, rfl⟩
    have hgroup : Match (.group (.rep true 6 6 (.set U.digit)))
        ⟨'-' :: 'G' :: before.reverse, (l ++ [d]) ++ rest, none⟩ (afterGCode before (l ++ [d]) rest) := by
      have hrep : Match (.rep true 6 6 (.set U.digit)) _ _ := match_rep_set.mpr
        ⟨_, hreads, rfl, Nat.le_of_eq hlength.symm, Nat.le_of_eq hlength, hdigits⟩
      have h := Match.group hrep
      rwa [hreads.upTo_eq] at h
    refine match_cat_cons.mpr ⟨_, match_assert.mpr ⟨rfl, (boundary_before word_G).mpr hprev⟩, ?_⟩
    refine match_cat_cons.mpr ⟨_, .set rfl, match_cat_cons.mpr ⟨_, .set rfl, ?_⟩⟩
    refine match_cat_cons.mpr ⟨_, hgroup, match_cat_cons.mpr ⟨_, match_assert.mpr ⟨rfl, ?_⟩, .empty⟩⟩
    rw [afterGCode, List.reverse_concat]
    exact (boundary_after hd).mpr hnext

theorem gCode_at_none {before after : List Char} :
    matchAt (gCode U) before.reverse after = none ↔
      ∀ digits rest, after = 'G' :: '-' :: (digits ++ rest) → ¬IsGCode U before digits rest := by
  rw [matchAt_eq_none]
  constructor
  · intro h digits rest hafter hcode
    exact h _ (match_gCode.mpr ⟨digits, rest, hafter, hcode, rfl⟩)
  · intro h s hmatch
    obtain ⟨digits, rest, hafter, hcode, -⟩ := match_gCode.mp hmatch
    exact h digits rest hafter hcode

/-- The search stops after the first `G-` code. -/
theorem captures_gCode {before digits after : List Char}
    (htext : text = before ++ 'G' :: '-' :: (digits ++ after)) (hcode : IsGCode U before digits after)
    (hfirst : ∀ before' digits' after', text = before' ++ 'G' :: '-' :: (digits' ++ after') →
      IsGCode U before' digits' after' → before.length ≤ before'.length) :
    (gCode U).captures text = some ⟨before.reverse, afterGCode before digits after⟩ := by
  obtain ⟨s, hs⟩ := Option.ne_none_iff_exists'.mp fun hnone =>
    gCode_at_none.mp hnone digits after rfl hcode
  obtain ⟨digits', rest, hafter, hcode', rfl⟩ := match_gCode.mp (match_of_matchAt hs)
  have hdigits : digits ++ after = digits' ++ rest := (List.cons.inj (List.cons.inj hafter).2).2
  obtain ⟨rfl, rfl⟩ := List.append_inj hdigits (hcode.length.trans hcode'.length.symm)
  refine captures_eq_some.mpr ⟨before, _, htext, by simp, hs, ?_⟩
  intro l' rest' htext' hlt
  rw [List.append_nil]
  refine gCode_at_none.mpr fun digits' after' hrest hcode' => ?_
  have := hfirst l' digits' after' (htext'.trans (congrArg _ hrest)) hcode'
  omega

/-- The search finds the first `G-` code. -/
theorem firstGCode_iff {digits : List Char} :
    FirstGCode U text digits ↔ ∃ m, (gCode U).captures text = some m ∧ m.text = digits := by
  constructor
  · rintro ⟨before, after, htext, hcode, hfirst⟩
    exact ⟨_, captures_gCode htext hcode hfirst, rfl⟩
  · rintro ⟨m, hm, rfl⟩
    obtain ⟨l, rest, htext, hstart, hfound, hnone⟩ := captures_eq_some.mp hm
    rw [List.append_nil] at hstart
    rw [hstart] at hfound
    obtain ⟨digits, after, rfl, hcode, hstop⟩ := match_gCode.mp (match_of_matchAt hfound)
    have hdigits : m.text = digits := by
      rw [Captures.text, hstop]
      rfl
    refine ⟨l, after, hdigits ▸ htext, hdigits ▸ hcode, fun before' digits' after' htext' hcode' => ?_⟩
    by_contra hlt
    have h := hnone before' _ htext' (Nat.lt_of_not_le hlt)
    rw [List.append_nil] at h
    exact gCode_at_none.mp h digits' after' rfl hcode'

/-! ## Extraction -/

/-- The part of the body that is scanned. -/
def scanned (body : Option String) : String :=
  sliceTo (body.getD "") (floorCharBoundary (body.getD "") bodyScanLimit)

/-- The digits of the first `G-` code are ASCII, if there is a `G-` code. -/
def AsciiGCode (U : CharClasses) (text : String) : Prop :=
  ∀ digits, FirstGCode U text.toList digits → ∀ c ∈ digits, c.toNat < 128

theorem scanAnchored_of_gCode {haystack : String} (h : (gCode U).captures haystack.toList = some m) :
    scanAnchored U haystack = some (.ofList m.text) := by
  rw [scanAnchored, h]

theorem IsCode.ascii {c : Char} (h : IsCode code) (hc : c ∈ code.toList) : c.toNat < 128 := by
  have hbound : isAsciiUppercase c || isAsciiDigit c := by
    obtain h | h := h
    · simp [h.digits c hc]
    · exact h.chars c hc
  simp only [isAsciiUppercase, isAsciiDigit, Bool.or_eq_true, Bool.and_eq_true, decide_eq_true_eq]
    at hbound
  obtain ⟨-, hle⟩ | ⟨-, hle⟩ := hbound
  · exact Nat.lt_of_le_of_lt (show c.toNat ≤ 90 from hle) (by decide)
  · exact Nat.lt_of_le_of_lt (show c.toNat ≤ 57 from hle) (by decide)

/-- A `G-` code has the shape of a code exactly if its digits are ASCII. -/
theorem IsGCode.isCode_iff {before digits after : List Char} (h : IsGCode U before digits after) :
    IsCode (.ofList digits) ↔ ∀ c ∈ digits, c.toNat < 128 := by
  constructor
  · intro hcode c hc
    exact hcode.ascii (by rwa [String.toList_ofList])
  · intro hascii
    have hlength : (String.ofList digits).toList.length = 6 := by
      rw [String.toList_ofList, h.length]
    refine .inl ⟨by omega, by omega, fun c hc => ?_⟩
    rw [String.toList_ofList] at hc
    exact U.digit_ascii c (h.digits c hc) (hascii c hc)

theorem isCode_scanAnchored_iff {haystack : String} :
    (∀ code, scanAnchored U haystack = some code → IsCode code) ↔ AsciiGCode U haystack := by
  constructor
  · intro h digits hfirst
    obtain ⟨m, hm, rfl⟩ := firstGCode_iff.mp hfirst
    obtain ⟨before, after, -, hcode, -⟩ := hfirst
    exact hcode.isCode_iff.mp (h _ (scanAnchored_of_gCode hm))
  · intro hascii code hscan
    cases hm : (gCode U).captures haystack.toList with
    | none => exact isCode_of_scanAnchored hm hscan
    | some m =>
      have hfirst := firstGCode_iff.mpr ⟨m, hm, rfl⟩
      obtain ⟨before, after, -, hcode, -⟩ := id hfirst
      cases (scanAnchored_of_gCode hm).symm.trans hscan
      exact hcode.isCode_iff.mpr (hascii _ hfirst)

theorem extract_eq (U : CharClasses) (subject body : Option String) :
    extract U subject body = ((scanAnchored U (subject.getD "")).or (scanAnchored U (scanned body))).or
      ((lines (subject.getD "") ++ lines (scanned body)).findSome? standaloneCode) := by
  unfold extract
  dsimp only
  rw [List.findSome?_cons, List.findSome?_cons, List.findSome?_nil]
  cases scanAnchored U (subject.getD "") with
  | some code => rfl
  | none =>
    rw [Option.none_or, scanned]
    cases scanAnchored U (sliceTo _ _) <;> rfl

/-- Codes have the right shape exactly if the `G-` code that is found, in the subject or else in the
scanned part of the body, is written in ASCII digits. -/
theorem extract_isCode_iff (U : CharClasses) (subject body : Option String) :
    (∀ code, extract U subject body = some code → IsCode code) ↔
      AsciiGCode U (subject.getD "") ∧
        (scanAnchored U (subject.getD "") = none → AsciiGCode U (scanned body)) := by
  rw [extract_eq, ← isCode_scanAnchored_iff, ← isCode_scanAnchored_iff]
  cases hsubject : scanAnchored U (subject.getD "") with
  | some code => simp
  | none =>
    simp only [Option.none_or, true_imp_iff, reduceCtorEq, false_imp_iff, implies_true, true_and]
    cases hbody : scanAnchored U (scanned body) with
    | some code => simp
    | none =>
      simp only [Option.none_or, reduceCtorEq, false_imp_iff, implies_true, iff_true]
      intro code hcode
      obtain ⟨line, -, hline⟩ := List.exists_of_findSome?_eq_some hcode
      exact .inl (isDigits_of_normalizeDigits (normalizeDigits_of_standaloneCode hline))

/-- ASCII and the Arabic-Indic digits. -/
def CharClasses.arabicIndic : CharClasses where
  digit c := isAsciiDigit c || (0x660 ≤ c.toNat && c.toNat ≤ 0x669)
  word c := isAsciiAlphanumeric c || c == '_' || (0x660 ≤ c.toNat && c.toNat ≤ 0x669)
  fold c x := Str.asciiLower x == c
  digit_ascii c h hc := by
    rw [Bool.or_eq_true, Bool.and_eq_true, decide_eq_true_eq, decide_eq_true_eq] at h
    exact h.resolve_right fun h => absurd h.1 (by omega)
  word_of_digit c h := by
    simp only [isAsciiAlphanumeric, Bool.or_eq_true] at h ⊢
    tauto
  word_of_ascii c h := by simp [h]

/-- A `G-` code in Arabic-Indic digits is returned as it stands. -/
theorem not_extract_isCode : ¬∀ (U : CharClasses) (subject body : Option String) (code : String),
    extract U subject body = some code → IsCode code := by
  intro h
  have hcode : extract .arabicIndic none (some "G-\u0661\u0662\u0663\u0664\u0665\u0666") =
      some "\u0661\u0662\u0663\u0664\u0665\u0666" := by decide +kernel
  have hascii : Char.toNat '\u0661' < 128 :=
    (h _ _ _ _ hcode).ascii (by decide +kernel : '\u0661' ∈ "\u0661\u0662\u0663\u0664\u0665\u0666".toList)
  exact absurd hascii (by decide)

end AnonyMail.Otp
