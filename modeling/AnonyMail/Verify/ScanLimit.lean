import AnonyMail.Lib.Utf8
import AnonyMail.Verify.OneTimeCodes
import Mathlib.Data.Bool.AllAny

/-! # Codes at the scan limit

The body is cut before it is searched, and the end of what is left counts as a word boundary. What is
found inside the scanned part is a whole code; what ends with it is one only if no letter or digit was
cut off. -/

namespace AnonyMail.Otp

open Regex
open Str (isWhitespace)

/-! ## Where a code is found -/

inductive Part
  | subject
  | body
  deriving DecidableEq, Repr

/-- A code, the text it is made of, and what is before that. -/
structure Found where
  part : Part
  code : String
  before : List Char
  captured : List Char

def Found.of (part : Part) (m : Captures Char) (code : String) : Found :=
  ⟨part, code, (m.stop.group.map (·.1.reverse)).getD [], m.text⟩

/-- The first match whose digits are a code. -/
def locateDigits (part : Part) (text : List Char) (re : Regex Char) : Option Found :=
  (re.capturesIter text).findSome? fun m => (normalizeDigits m.text).map (Found.of part m)

/-- The digits and letters of a mixed token. -/
def IsMixed (token : List Char) : Prop :=
  (token.filter Str.isAsciiDigit).length ≥ 2 ∧ (token.filter isAsciiAlphabetic).length ≥ 1

instance : DecidablePred IsMixed := fun token => by unfold IsMixed; infer_instance

/-- `scan_anchored`, with the place of the code. -/
def locateAnchored (U : CharClasses) (part : Part) (text : List Char) : Option Found :=
  match (gCode U).captures text with
  | some m => some (.of part m (.ofList m.text))
  | none =>
    match [keywordThenDigits U, digitsThenKeyword U].findSome? (locateDigits part text) with
    | some f => some f
    | none =>
      match (keywordThenAlnum U).captures text with
      | some m => if IsMixed m.text then some (.of part m (.ofList m.text)) else none
      | none => none

/-- The first line that is a code, with its place after the text `before`. -/
def locateLines (part : Part) (before : List Char) : List (List Char) → Option Found
  | [] => none
  | piece :: pieces =>
    let line := stripLineEnd piece
    match standaloneCode (.ofList line) with
    | some code =>
      some ⟨part, code, before ++ line.takeWhile isWhitespace, (Str.trim (.ofList line)).toList⟩
    | none => locateLines part (before ++ piece) pieces

/-- `extract`, with the place of the code. -/
def locate (U : CharClasses) (subject textBody : Option String) : Option Found :=
  let subject := (subject.getD "").toList
  let body := (scanned textBody).toList
  ((locateAnchored U .subject subject).or (locateAnchored U .body body)).or
    ((locateLines .subject [] (splitInclusive subject)).or
      (locateLines .body [] (splitInclusive body)))

variable {U : CharClasses} {part : Part} {text : List Char} {f : Found}

theorem map_locateDigits (part : Part) (text : List Char) (re : Regex Char) :
    (locateDigits part text re).map (·.code) =
      (re.capturesIter text).findSome? fun m => normalizeDigits m.text := by
  rw [locateDigits, List.map_findSome?]
  congr
  funext m
  rw [Function.comp_apply, Option.map_map]
  exact Option.map_id'

theorem scanAnchored_eq_locate (part : Part) (haystack : String) :
    scanAnchored U haystack = (locateAnchored U part haystack.toList).map (·.code) := by
  have hdigits := @List.map_findSome? _ _ _ (locateDigits part haystack.toList) (·.code)
    [keywordThenDigits U, digitsThenKeyword U]
  simp only [Function.comp_def, map_locateDigits] at hdigits
  rw [scanAnchored, locateAnchored, ← hdigits]
  cases (gCode U).captures haystack.toList with
  | some m => rfl
  | none =>
    cases [keywordThenDigits U, digitsThenKeyword U].findSome?
        (locateDigits part haystack.toList) with
    | some f => rfl
    | none =>
      cases (keywordThenAlnum U).captures haystack.toList with
      | none => rfl
      | some m =>
        change (if IsMixed m.text then some _ else none) =
          Option.map _ (if IsMixed m.text then some _ else none)
        split <;> rfl

theorem findSome?_standaloneCode (before : List Char) (pieces : List (List Char)) :
    (pieces.map fun line => String.ofList (stripLineEnd line)).findSome? standaloneCode =
      (locateLines part before pieces).map (·.code) := by
  induction pieces generalizing before with
  | nil => rfl
  | cons piece pieces ih =>
    rw [List.map_cons, List.findSome?_cons, locateLines]
    cases standaloneCode (.ofList (stripLineEnd piece)) with
    | some code => rfl
    | none => exact ih _

theorem extract_eq_locate (U : CharClasses) (subject body : Option String) :
    extract U subject body = (locate U subject body).map (·.code) := by
  rw [extract_eq, scanAnchored_eq_locate .subject, scanAnchored_eq_locate .body, List.findSome?_append,
    lines, lines, findSome?_standaloneCode [], findSome?_standaloneCode [], ← Option.map_or,
    ← Option.map_or, ← Option.map_or]
  rfl

/-- What is captured is the code, or has its digits. -/
def Found.Exact (f : Found) : Prop :=
  f.code = .ofList f.captured ∨ normalizeDigits f.captured = some f.code

/-! ## Codes that end with the text -/

/-- The place of a code in a text: no ASCII letter or digit follows it there. -/
structure Found.In (f : Found) (text after : List Char) : Prop where
  text_eq : text = f.before ++ f.captured ++ after
  next : ∀ x, after.head? = some x → ¬isAsciiAlphanumeric x

/-- The anchored expressions find a code, and it ends with the text. -/
inductive AnchoredAtEnd (U : CharClasses) (text : List Char) : Prop
  | gCode : (gCode U).captures text = some m → m.stop.after = [] → AnchoredAtEnd U text
  | keyword : (gCode U).captures text = none →
    ((keywordThenDigits U).capturesIter text).find? (fun m => (normalizeDigits m.text).isSome) = some m →
    m.stop.after = [] → AnchoredAtEnd U text
  | token : (gCode U).captures text = none →
    (∀ m ∈ (keywordThenDigits U).capturesIter text, normalizeDigits m.text = none) →
    (∀ m ∈ (digitsThenKeyword U).capturesIter text, normalizeDigits m.text = none) →
    (keywordThenAlnum U).captures text = some m → IsMixed m.text → m.stop.after = [] →
    AnchoredAtEnd U text

theorem Found.in_of_codeAt {m : Captures Char} {code : String} {before captured after : List Char}
    (h : CodeAt U m text before captured after) : (Found.of part m code).In text after := by
  refine ⟨?_, fun x hx hword => h.next x hx (U.word_of_ascii x hword)⟩
  rw [Found.of, h.text_captured, h.group]
  simpa using h.text_eq

theorem findSome?_eq_some_iff_find? {g : α → Option β} {l : List α} {b : β} :
    l.findSome? g = some b ↔ ∃ a, l.find? (fun a => (g a).isSome) = some a ∧ g a = some b := by
  induction l with
  | nil => simp
  | cons a l ih =>
    rw [List.findSome?_cons, List.find?_cons]
    cases h : g a with
    | some b' => simp [h]
    | none => simpa using ih

theorem locateDigits_eq_some {re : Regex Char} :
    locateDigits part text re = some f ↔
      ∃ m code, (re.capturesIter text).find? (fun m => (normalizeDigits m.text).isSome) = some m ∧
        normalizeDigits m.text = some code ∧ Found.of part m code = f := by
  rw [locateDigits, findSome?_eq_some_iff_find?]
  simp only [Option.isSome_map, Option.map_eq_some_iff]
  constructor
  · rintro ⟨m, hm, code, hcode, rfl⟩
    exact ⟨m, code, hm, hcode, rfl⟩
  · rintro ⟨m, code, hm, hcode, rfl⟩
    exact ⟨m, hm, code, hcode, rfl⟩

theorem locateDigits_eq_none {re : Regex Char} :
    locateDigits part text re = none ↔
      ∀ m ∈ re.capturesIter text, normalizeDigits m.text = none := by
  rw [locateDigits, List.findSome?_eq_none_iff]
  simp only [Option.map_eq_none_iff]

/-- The expressions in their order. -/
theorem locateAnchored_cases : locateAnchored U part text = some f ↔
    (∃ m, (gCode U).captures text = some m ∧ Found.of part m (.ofList m.text) = f) ∨
      (gCode U).captures text = none ∧
        (locateDigits part text (keywordThenDigits U) = some f ∨
          locateDigits part text (keywordThenDigits U) = none ∧
            (locateDigits part text (digitsThenKeyword U) = some f ∨
              locateDigits part text (digitsThenKeyword U) = none ∧
                ∃ m, (keywordThenAlnum U).captures text = some m ∧ IsMixed m.text ∧
                  Found.of part m (.ofList m.text) = f)) := by
  rw [locateAnchored, List.findSome?_cons, List.findSome?_cons, List.findSome?_nil]
  cases (gCode U).captures text with
  | some m => simp
  | none =>
    cases locateDigits part text (keywordThenDigits U) with
    | some f' => simp
    | none =>
      cases locateDigits part text (digitsThenKeyword U) with
      | some f' => simp
      | none =>
        cases (keywordThenAlnum U).captures text with
        | none => simp
        | some m => simp [Option.ite_none_right_eq_some]

/-- A code that is found at an anchor is a whole one, but for the end of the text. -/
theorem in_of_locateAnchored (h : locateAnchored U part text = some f) :
    ∃ after, f.In text after ∧ (after = [] → AnchoredAtEnd U text) := by
  obtain ⟨m, hm, rfl⟩ | ⟨hg, hkey | ⟨hkey, hdigits | ⟨hdigits, m, hm, hmixed, rfl⟩⟩⟩ :=
    locateAnchored_cases.mp h
  · obtain ⟨before, captured, hcode⟩ := codeAt_gCode (mem_capturesIter hm)
    exact ⟨_, Found.in_of_codeAt hcode, .gCode hm⟩
  · obtain ⟨m, code, hm, -, rfl⟩ := locateDigits_eq_some.mp hkey
    obtain ⟨before, captured, hcode⟩ := codeAt_keywordThenDigits (List.mem_of_find?_eq_some hm)
    exact ⟨_, Found.in_of_codeAt hcode, .keyword hg hm⟩
  · -- the keyword stands between the digits and the end of the text
    obtain ⟨m, code, hm, -, rfl⟩ := locateDigits_eq_some.mp hdigits
    obtain ⟨before, captured, after, hcode, hne⟩ :=
      codeAt_digitsThenKeyword (List.mem_of_find?_eq_some hm)
    exact ⟨after, Found.in_of_codeAt hcode, fun hnil => absurd hnil hne⟩
  · obtain ⟨before, captured, hcode, -⟩ := codeAt_keywordThenAlnum (mem_capturesIter hm)
    exact ⟨_, Found.in_of_codeAt hcode, .token hg (locateDigits_eq_none.mp hkey)
      (locateDigits_eq_none.mp hdigits) hm hmixed⟩

theorem exists_of_anchoredAtEnd (part : Part) (h : AnchoredAtEnd U text) :
    ∃ f, locateAnchored U part text = some f ∧ f.In text [] := by
  cases h with
  | gCode hm hend =>
    obtain ⟨before, captured, hcode⟩ := codeAt_gCode (mem_capturesIter hm)
    exact ⟨_, locateAnchored_cases.mpr (.inl ⟨_, hm, rfl⟩), Found.in_of_codeAt (hend ▸ hcode)⟩
  | keyword hg hm hend =>
    obtain ⟨before, captured, hcode⟩ := codeAt_keywordThenDigits (List.mem_of_find?_eq_some hm)
    have hsome := List.find?_some hm
    obtain ⟨code, hcode'⟩ := Option.isSome_iff_exists.mp hsome
    have hkey : locateDigits part text (keywordThenDigits U) = some (.of part _ code) :=
      locateDigits_eq_some.mpr ⟨_, code, hm, hcode', rfl⟩
    exact ⟨_, locateAnchored_cases.mpr (.inr ⟨hg, .inl hkey⟩), Found.in_of_codeAt (hend ▸ hcode)⟩
  | token hg hkey hdigits hm hmixed hend =>
    obtain ⟨before, captured, hcode, -⟩ := codeAt_keywordThenAlnum (mem_capturesIter hm)
    have hkey : locateDigits part text (keywordThenDigits U) = none := locateDigits_eq_none.mpr hkey
    have hdigits : locateDigits part text (digitsThenKeyword U) = none :=
      locateDigits_eq_none.mpr hdigits
    exact ⟨_, locateAnchored_cases.mpr (.inr ⟨hg, .inr ⟨hkey, .inr ⟨hdigits, _, hm, hmixed, rfl⟩⟩⟩),
      Found.in_of_codeAt (hend ▸ hcode)⟩

/-! ## Lines -/

/-- Lines as `split_inclusive` makes them: all but the last one end with a line feed. -/
def Terminated : List (List Char) → Prop
  | [] => True
  | line :: lines => (lines ≠ [] → line.getLast? = some '\n') ∧ Terminated lines

theorem splitInclusive_spec (text : List Char) :
    (splitInclusive text).flatten = text ∧ Terminated (splitInclusive text) := by
  induction text with
  | nil => exact ⟨rfl, trivial⟩
  | cons c text ih =>
    rw [splitInclusive]
    split
    · next hc => exact ⟨by rw [List.flatten_cons, ih.1]; rfl, fun _ => by rw [hc]; rfl, ih.2⟩
    · split
      · next heq =>
        rw [heq] at ih
        exact ⟨by rw [← ih.1]; rfl, fun h => absurd rfl h, trivial⟩
      · next line lines heq =>
        rw [heq] at ih
        refine ⟨by rw [← ih.1]; rfl, fun hne => ?_, ih.2.2⟩
        rw [List.getLast?_cons, ih.2.1 hne]
        rfl

/-- The end of a line is white. -/
theorem stripLineEnd_spec (piece : List Char) :
    ∃ ending, piece = stripLineEnd piece ++ ending ∧ ∀ c ∈ ending, isWhitespace c := by
  unfold stripLineEnd
  split
  · next rest h =>
    refine ⟨['\r', '\n'], ?_, List.all_iff_forall_prop.mp (by decide)⟩
    rw [← List.reverse_reverse piece, h]
    simp
  · next rest _ h =>
    refine ⟨['\n'], ?_, List.all_iff_forall_prop.mp (by decide)⟩
    rw [← List.reverse_reverse piece, h]
    simp
  · exact ⟨[], (List.append_nil _).symm, by simp⟩

/-- Trimming takes white text away at both ends, and all of it. -/
theorem trim_spec (line : List Char) :
    ∃ trail, line = line.takeWhile isWhitespace ++ (Str.trim (.ofList line)).toList ++ trail ∧
      (∀ c ∈ trail, isWhitespace c) ∧
      ∀ x, (Str.trim (.ofList line)).toList.getLast? = some x → ¬isWhitespace x := by
  rw [Str.trim, String.toList_ofList, String.toList_ofList, Str.dropEndWhile]
  refine ⟨((line.dropWhile isWhitespace).reverse.takeWhile isWhitespace).reverse, ?_, ?_, ?_⟩
  · rw [List.append_assoc, ← List.reverse_append, List.takeWhile_append_dropWhile,
      List.reverse_reverse, List.takeWhile_append_dropWhile]
  · intro c hc
    exact List.all_eq_true.mp (List.all_takeWhile ..) c (List.mem_reverse.mp hc)
  · intro x hx
    rw [List.getLast?_reverse] at hx
    have h := List.head?_dropWhile_not isWhitespace (line.dropWhile isWhitespace).reverse
    rw [hx] at h
    simpa using h

/-- A line that is a code, in the text it comes from. -/
theorem standaloneCode_spec {piece : List Char} {code : String}
    (h : standaloneCode (.ofList (stripLineEnd piece)) = some code) :
    ∃ tail, piece = (stripLineEnd piece).takeWhile isWhitespace ++
        (Str.trim (.ofList (stripLineEnd piece))).toList ++ tail ∧ (∀ c ∈ tail, isWhitespace c) ∧
      (tail = [] ↔ ∃ x, piece.getLast? = some x ∧ ¬isWhitespace x) := by
  obtain ⟨ending, hpiece, hending⟩ := stripLineEnd_spec piece
  obtain ⟨trail, hline, htrail, hlast⟩ := trim_spec (stripLineEnd piece)
  have hne : (Str.trim (.ofList (stripLineEnd piece))).toList ≠ [] := by
    intro hnil
    rw [standaloneCode, String.toList_eq_nil_iff.mp hnil] at h
    cases h
  have hwhite : ∀ c ∈ trail ++ ending, isWhitespace c := fun c hc =>
    (List.mem_append.mp hc).elim (htrail c) (hending c)
  generalize (Str.trim (.ofList (stripLineEnd piece))).toList = captured at hline hlast hne ⊢
  have hall : piece =
      (stripLineEnd piece).takeWhile isWhitespace ++ captured ++ (trail ++ ending) := by
    rw [← List.append_assoc, ← hline, ← hpiece]
  refine ⟨_, hall, hwhite, ?_⟩
  obtain ⟨l, x, rfl⟩ := (List.eq_nil_or_concat' captured).resolve_left hne
  constructor
  · intro hnil
    exact ⟨x, by rw [hall, hnil]; simp, hlast x (by simp)⟩
  · rintro ⟨y, hy, hnot⟩
    by_contra hnil
    obtain ⟨l', z, hz⟩ := (List.eq_nil_or_concat' (trail ++ ending)).resolve_left hnil
    rw [hall, hz, ← List.append_assoc, List.getLast?_concat] at hy
    cases hy
    exact hnot (hwhite y (by simp [hz]))

/-- The last line is the only code among the lines, and no white text is after it. -/
inductive LineAtEnd : List (List Char) → Prop
  | last : standaloneCode (.ofList (stripLineEnd piece)) = some code → piece.getLast? = some x →
    ¬isWhitespace x → LineAtEnd [piece]
  | next : standaloneCode (.ofList (stripLineEnd piece)) = none → LineAtEnd pieces →
    LineAtEnd (piece :: pieces)

theorem not_alphanumeric_of_isWhitespace {c : Char} (h : isWhitespace c) :
    ¬isAsciiAlphanumeric c := by
  intro hword
  have hall : ∀ n < 128, isWhitespace (Char.ofNat n) → ¬isAsciiAlphanumeric (Char.ofNat n) := by
    decide
  have hlt : c.toNat < 128 := by
    simp only [isAsciiAlphanumeric, isAsciiAlphabetic, Str.isAsciiLowercase, isAsciiUppercase,
      Str.isAsciiDigit, Bool.or_eq_true, Bool.and_eq_true, decide_eq_true_eq] at hword
    obtain (⟨-, hle⟩ | ⟨-, hle⟩) | ⟨-, hle⟩ := hword
    all_goals exact Nat.lt_of_le_of_lt hle (by decide)
  have h' := hall c.toNat hlt
  rw [Char.ofNat_toNat] at h'
  exact h' h hword

/-- Where a line that is a code stands, and what follows it. -/
theorem in_of_standaloneCode {piece before : List Char} {pieces : List (List Char)} {code : String}
    (ht : Terminated (piece :: pieces))
    (h : standaloneCode (.ofList (stripLineEnd piece)) = some code) :
    ∃ after, Found.In ⟨part, code, before ++ (stripLineEnd piece).takeWhile isWhitespace,
        (Str.trim (.ofList (stripLineEnd piece))).toList⟩ (before ++ (piece :: pieces).flatten) after ∧
      (after = [] ↔ pieces = [] ∧ ∃ x, piece.getLast? = some x ∧ ¬isWhitespace x) := by
  obtain ⟨tail, hpiece, htail, hempty⟩ := standaloneCode_spec h
  -- the line feed at the end of a line is not part of the code
  have hpieces : tail = [] → pieces = [] := by
    intro hnil
    obtain ⟨y, hy, hwhite⟩ := hempty.mp hnil
    by_contra hne
    rw [ht.1 hne] at hy
    cases hy
    exact hwhite rfl
  refine ⟨tail ++ pieces.flatten, ⟨?_, fun x hx => ?_⟩, ?_⟩
  · conv_lhs => rw [List.flatten_cons, hpiece]
    simp
  · cases tail with
    | cons y tail =>
      cases hx
      exact not_alphanumeric_of_isWhitespace (htail x List.mem_cons_self)
    | nil =>
      rw [hpieces rfl] at hx
      cases hx
  · rw [List.append_eq_nil_iff, ← hempty]
    constructor
    · rintro ⟨hnil, -⟩
      exact ⟨hpieces hnil, hnil⟩
    · rintro ⟨rfl, hnil⟩
      exact ⟨hnil, rfl⟩

/-- A line that is found is a whole code, but for the end of the text. -/
theorem in_of_locateLines {before : List Char} {pieces : List (List Char)}
    (ht : Terminated pieces) (h : locateLines part before pieces = some f) :
    ∃ after, f.In (before ++ pieces.flatten) after ∧ (after = [] → LineAtEnd pieces) := by
  induction pieces generalizing before with
  | nil => cases h
  | cons piece pieces ih =>
    rw [locateLines] at h
    cases hcode : standaloneCode (.ofList (stripLineEnd piece)) with
    | none =>
      rw [hcode] at h
      obtain ⟨after, hin, hend⟩ := ih ht.2 h
      refine ⟨after, ?_, fun hnil => .next hcode (hend hnil)⟩
      rwa [List.flatten_cons, ← List.append_assoc]
    | some code =>
      rw [hcode] at h
      cases h
      obtain ⟨after, hin, hempty⟩ := in_of_standaloneCode ht hcode
      refine ⟨after, hin, fun hnil => ?_⟩
      obtain ⟨rfl, x, hx, hwhite⟩ := hempty.mp hnil
      exact .last hcode hx hwhite

theorem exists_of_lineAtEnd {before : List Char} {pieces : List (List Char)} (part : Part)
    (ht : Terminated pieces) (h : LineAtEnd pieces) :
    ∃ f, locateLines part before pieces = some f ∧ f.In (before ++ pieces.flatten) [] := by
  induction h generalizing before with
  | last hcode hx hwhite =>
    obtain ⟨after, hin, hempty⟩ := in_of_standaloneCode ht hcode
    cases hempty.mpr ⟨rfl, _, hx, hwhite⟩
    refine ⟨_, ?_, hin⟩
    rw [locateLines, hcode]
  | @next piece pieces hcode _ ih =>
    obtain ⟨f, hf, hin⟩ := @ih (before ++ piece) ht.2
    refine ⟨f, ?_, by rwa [List.flatten_cons, ← List.append_assoc]⟩
    rw [locateLines, hcode]
    exact hf

theorem in_of_locateLines_text (h : locateLines part [] (splitInclusive text) = some f) :
    ∃ after, f.In text after ∧ (after = [] → LineAtEnd (splitInclusive text)) := by
  obtain ⟨hflat, hterm⟩ := splitInclusive_spec text
  have hin := in_of_locateLines hterm h
  rwa [List.nil_append, hflat] at hin

theorem exists_of_lineAtEnd_text (part : Part) (h : LineAtEnd (splitInclusive text)) :
    ∃ f, locateLines part [] (splitInclusive text) = some f ∧ f.In text [] := by
  obtain ⟨hflat, hterm⟩ := splitInclusive_spec text
  have hin := @exists_of_lineAtEnd [] _ part hterm h
  rwa [List.nil_append, hflat] at hin

/-! ## The cut -/

theorem takeBytes_append (n : Nat) (text : List Char) :
    ∃ rest, text = takeBytes n text ++ rest := by
  induction text generalizing n with
  | nil => exact ⟨[], rfl⟩
  | cons c text ih =>
    rw [takeBytes]
    split
    · obtain ⟨rest, h⟩ := ih (n - c.utf8Size)
      exact ⟨rest, congrArg (c :: ·) h⟩
    · exact ⟨_, rfl⟩

theorem scanned_append (body : Option String) :
    ∃ rest, (body.getD "").toList = (scanned body).toList ++ rest := by
  rw [scanned, sliceTo, String.toList_ofList]
  exact takeBytes_append _ _

/-- The scan limit stands right before an ASCII letter or digit. -/
def AlnumDropped (body : Option String) : Prop :=
  ∃ x rest, (body.getD "").toList = (scanned body).toList ++ x :: rest ∧ isAsciiAlphanumeric x

/-- What is taken from the body is what the scanned part ends with. -/
inductive CodeAtEnd (U : CharClasses) (subject body : String) : Prop
  | anchored : scanAnchored U subject = none → AnchoredAtEnd U body.toList → CodeAtEnd U subject body
  | line : scanAnchored U subject = none → scanAnchored U body = none →
    (lines subject).findSome? standaloneCode = none → LineAtEnd (splitInclusive body.toList) →
    CodeAtEnd U subject body

theorem of_locateDigits {re : Regex Char} (h : locateDigits part text re = some f) :
    f.part = part ∧ f.Exact := by
  obtain ⟨m, code, -, hcode, rfl⟩ := locateDigits_eq_some.mp h
  exact ⟨rfl, .inr hcode⟩

theorem of_locateAnchored (h : locateAnchored U part text = some f) :
    f.part = part ∧ f.Exact := by
  obtain ⟨m, -, rfl⟩ | ⟨-, hkey | ⟨-, hdigits | ⟨-, m, -, -, rfl⟩⟩⟩ := locateAnchored_cases.mp h
  · exact ⟨rfl, .inl rfl⟩
  · exact of_locateDigits hkey
  · exact of_locateDigits hdigits
  · exact ⟨rfl, .inl rfl⟩

theorem of_locateLines {before : List Char} {pieces : List (List Char)}
    (h : locateLines part before pieces = some f) : f.part = part ∧ f.Exact := by
  induction pieces generalizing before with
  | nil => cases h
  | cons piece pieces ih =>
    rw [locateLines] at h
    cases hcode : standaloneCode (.ofList (stripLineEnd piece)) with
    | none =>
      rw [hcode] at h
      exact ih h
    | some code =>
      rw [hcode] at h
      cases h
      have hdigits := normalizeDigits_of_standaloneCode hcode
      refine ⟨rfl, .inr ?_⟩
      dsimp only
      exact hdigits

theorem exact_of_locate {subject body : Option String} (h : locate U subject body = some f) :
    f.Exact := by
  simp only [locate, Option.or_eq_some_iff, Option.or_eq_none_iff] at h
  obtain (h | ⟨-, h⟩) | ⟨-, h | ⟨-, h⟩⟩ := h
  · exact (of_locateAnchored h).2
  · exact (of_locateAnchored h).2
  · exact (of_locateLines h).2
  · exact (of_locateLines h).2

theorem locateAnchored_eq_none {s : String} :
    locateAnchored U part s.toList = none ↔ scanAnchored U s = none := by
  rw [scanAnchored_eq_locate part, Option.map_eq_none_iff]

theorem locateLines_eq_none {s : String} :
    locateLines part [] (splitInclusive s.toList) = none ↔
      (lines s).findSome? standaloneCode = none := by
  rw [lines, findSome?_standaloneCode [], Option.map_eq_none_iff]

/-- When the body is where a code is found. -/
theorem locate_body {subject body : Option String} :
    locate U subject body = some f ∧ f.part = .body ↔
      scanAnchored U (subject.getD "") = none ∧
        (locateAnchored U .body (scanned body).toList = some f ∨
          scanAnchored U (scanned body) = none ∧
            (lines (subject.getD "")).findSome? standaloneCode = none ∧
              locateLines .body [] (splitInclusive (scanned body).toList) = some f) := by
  rw [← @locateAnchored_eq_none U .subject, ← @locateAnchored_eq_none U .body,
    ← @locateLines_eq_none .subject, locate]
  simp only [Option.or_eq_some_iff, Option.or_eq_none_iff]
  constructor
  · rintro ⟨(h | ⟨hs, hb⟩) | ⟨⟨hs, hb⟩, h | ⟨hl, h⟩⟩, hpart⟩
    · cases (of_locateAnchored h).1.symm.trans hpart
    · exact ⟨hs, .inl hb⟩
    · cases (of_locateLines h).1.symm.trans hpart
    · exact ⟨hs, .inr ⟨hb, hl, h⟩⟩
  · rintro ⟨hs, hb | ⟨hb, hl, h⟩⟩
    · exact ⟨.inl (.inr ⟨hs, hb⟩), (of_locateAnchored hb).1⟩
    · exact ⟨.inr ⟨⟨hs, hb⟩, .inr ⟨hl, h⟩⟩, (of_locateLines h).1⟩

/-- A code of the body, in the part of it that is scanned. -/
theorem in_of_locate {subject body : Option String} (h : locate U subject body = some f)
    (hpart : f.part = .body) : ∃ after, f.In (scanned body).toList after ∧
      (after = [] → CodeAtEnd U (subject.getD "") (scanned body)) := by
  obtain ⟨hs, hb | ⟨hb, hl, h⟩⟩ := locate_body.mp ⟨h, hpart⟩
  · obtain ⟨after, hin, hend⟩ := in_of_locateAnchored hb
    exact ⟨after, hin, fun hnil => .anchored hs (hend hnil)⟩
  · obtain ⟨after, hin, hend⟩ := in_of_locateLines_text h
    exact ⟨after, hin, fun hnil => .line hs hb hl (hend hnil)⟩

theorem exists_of_codeAtEnd {subject body : Option String}
    (h : CodeAtEnd U (subject.getD "") (scanned body)) :
    ∃ f, locate U subject body = some f ∧ f.part = .body ∧ f.In (scanned body).toList [] := by
  cases h with
  | anchored hs hend =>
    obtain ⟨f, hf, hin⟩ := exists_of_anchoredAtEnd .body hend
    obtain ⟨h, hpart⟩ := locate_body.mpr ⟨hs, .inl hf⟩
    exact ⟨f, h, hpart, hin⟩
  | line hs hb hl hend =>
    obtain ⟨f, hf, hin⟩ := exists_of_lineAtEnd_text .body hend
    obtain ⟨h, hpart⟩ := locate_body.mpr ⟨hs, .inr ⟨hb, hl, hf⟩⟩
    exact ⟨f, h, hpart, hin⟩

/-- A code that ends at the scan limit is cut off if a letter or digit follows there. -/
theorem not_whole_of_codeAtEnd {subject body : Option String} (hdropped : AlnumDropped body)
    (hend : CodeAtEnd U (subject.getD "") (scanned body)) :
    ∃ f, locate U subject body = some f ∧ f.part = .body ∧
      ¬∃ after, f.In (body.getD "").toList after := by
  obtain ⟨x, rest, hbody, hword⟩ := hdropped
  obtain ⟨f, hf, hpart, hin⟩ := exists_of_codeAtEnd hend
  refine ⟨f, hf, hpart, fun ⟨after, hwhole⟩ => ?_⟩
  have hafter : after = x :: rest := by
    have htext := hwhole.text_eq
    rw [hbody, hin.text_eq, List.append_nil] at htext
    exact (List.append_cancel_left htext).symm
  exact hwhole.next x (by rw [hafter]; rfl) hword

/-- A code that is taken from the body is followed by no ASCII letter or digit in it, but for the one
at the scan limit: the exception is that the scanned part ends with the code and that the limit stands
right before a letter or digit. -/
theorem extract_whole_iff (U : CharClasses) (subject body : Option String) :
    extract U subject body = (locate U subject body).map (·.code) ∧
      (∀ f, locate U subject body = some f → f.Exact) ∧
      ((∀ f, locate U subject body = some f → f.part = .body →
          ∃ after, f.In (body.getD "").toList after) ↔
        ¬(AlnumDropped body ∧ CodeAtEnd U (subject.getD "") (scanned body))) := by
  refine ⟨extract_eq_locate U subject body, fun f => exact_of_locate, ?_⟩
  constructor
  · rintro h ⟨hdropped, hend⟩
    obtain ⟨f, hf, hpart, hnot⟩ := not_whole_of_codeAtEnd hdropped hend
    exact hnot (h f hf hpart)
  · intro h f hf hpart
    obtain ⟨after, hin, hend⟩ := in_of_locate hf hpart
    obtain ⟨rest, hbody⟩ := scanned_append body
    refine ⟨after ++ rest, by rw [hbody, hin.text_eq, List.append_assoc], fun x hx => ?_⟩
    cases after with
    | cons y after => exact hin.next x hx
    | nil =>
      -- the character is the first one after the scan limit
      obtain ⟨rest, rfl⟩ := List.head?_eq_some_iff.mp hx
      exact fun hword => h ⟨⟨x, rest, hbody, hword⟩, hend rfl⟩

/-! ## Text in ASCII -/

theorem takeBytes_ascii {n : Nat} {text : List Char} (h : ∀ c ∈ text, c.toNat < 128) :
    takeBytes n text = text.take n := by
  induction text generalizing n with
  | nil => simp [takeBytes]
  | cons c text ih =>
    obtain ⟨hc, htext⟩ := List.forall_mem_cons.mp h
    have hsize : c.utf8Size = 1 := by
      rw [← String.length_utf8EncodeChar, Utf8.encodeChar_ascii hc]
      rfl
    rw [takeBytes, hsize, ih htext]
    cases n <;> simp

theorem floorCharBoundary_ascii {s : String} {max : Nat} (h : ∀ c ∈ s.toList, c.toNat < 128)
    (hlt : max < s.toList.length) : floorCharBoundary s max = max := by
  have hlen : Str.len s = s.toList.length := Utf8.length_toUTF8_ascii h
  have hboundary : isCharBoundary s max := by
    rw [isCharBoundary, Str.asBytes, Utf8.toUTF8_eq, Utf8.flatMap_encodeChar_ascii h,
      List.getElem?_map, List.getElem?_eq_getElem hlt]
    have hascii := h _ (List.getElem_mem hlt)
    have hbyte : ∀ n < 128, Str.isContinuation (UInt8.ofNat n) = false := by decide
    simp [hbyte _ hascii]
  rw [floorCharBoundary, if_neg (by omega), List.range_succ, List.reverse_append,
    List.reverse_singleton, List.singleton_append, List.find?_cons, hboundary]
  rfl

/-- A long body in ASCII is cut after 4096 characters. -/
theorem scanned_ascii {body : String} (h : ∀ c ∈ body.toList, c.toNat < 128)
    (hlt : bodyScanLimit < body.toList.length) :
    (scanned (some body)).toList = body.toList.take bodyScanLimit := by
  rw [scanned, Option.getD_some, sliceTo, String.toList_ofList, takeBytes_ascii h,
    floorCharBoundary_ascii h hlt]

/-- A `G-` code of seven digits, the last one of them after the scan limit. -/
def longCode : String := .ofList (List.replicate 4088 ' ' ++ "G-1234567".toList)

theorem toList_longCode : longCode.toList = List.replicate 4088 ' ' ++ "G-1234567".toList :=
  String.toList_ofList

theorem scanned_longCode :
    (scanned (some longCode)).toList = List.replicate 4088 ' ' ++ "G-123456".toList := by
  have hascii : ∀ c ∈ longCode.toList, c.toNat < 128 := by
    intro c hc
    obtain hc | hc := List.mem_append.mp (toList_longCode ▸ hc)
    · rw [List.eq_of_mem_replicate hc]
      decide
    · have hall : ∀ c ∈ "G-1234567".toList, c.toNat < 128 :=
        List.all_iff_forall_prop.mp (by decide +kernel)
      exact hall c hc
  have hlength : longCode.toList.length = 4097 := by
    rw [toList_longCode, List.length_append, List.length_replicate]
    rfl
  rw [scanned_ascii hascii (by rw [hlength]; decide), toList_longCode, List.take_append,
    List.length_replicate, List.take_of_length_le (by rw [List.length_replicate]; decide)]
  congr 1

theorem alnumDropped_longCode : AlnumDropped (some longCode) := by
  have hlast : "G-1234567".toList = "G-123456".toList ++ '7' :: [] := by decide +kernel
  refine ⟨'7', [], ?_, rfl⟩
  rw [scanned_longCode, List.append_assoc, ← hlast]
  exact toList_longCode

theorem anchoredAtEnd_gCode (n : Nat) :
    AnchoredAtEnd .arabicIndic (List.replicate n ' ' ++ "G-123456".toList) := by
  have hcode : IsGCode .arabicIndic (List.replicate n ' ') "123456".toList [] := by
    refine ⟨fun x hx => ?_, rfl, List.all_iff_forall_prop.mp (by decide +kernel), by simp⟩
    rw [List.eq_of_mem_replicate (List.mem_of_getLast? hx)]
    decide
  refine .gCode (captures_gCode rfl hcode fun before' digits' after' htext _ => ?_) rfl
  by_contra hlt
  rw [List.length_replicate] at hlt
  have hspace : (List.replicate n ' ' ++ "G-123456".toList)[before'.length]? = some ' ' := by
    rw [List.getElem?_append_left (by rw [List.length_replicate]; omega), List.getElem?_replicate,
      if_pos (by omega)]
  rw [htext, List.getElem?_append_right (Nat.le_refl _), Nat.sub_self] at hspace
  exact absurd (Option.some.inj hspace) (by decide)

/-- The first six digits are reported. -/
theorem not_extract_whole : ¬∀ (U : CharClasses) (subject body : Option String) (f : Found),
    locate U subject body = some f → f.part = .body → ∃ after, f.In (body.getD "").toList after := by
  intro h
  have hsubject : scanAnchored .arabicIndic "" = none := by decide +kernel
  have hend := anchoredAtEnd_gCode 4088
  rw [← scanned_longCode] at hend
  obtain ⟨f, hf, hpart, hnot⟩ :=
    @not_whole_of_codeAtEnd _ none _ alnumDropped_longCode (.anchored hsubject hend)
  exact hnot (h _ _ _ f hf hpart)

end AnonyMail.Otp
