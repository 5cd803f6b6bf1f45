import Mathlib.Data.List.Basic

/-! # Text

The operations of Rust's `str` that the server uses, on Lean's `String` (both are sequences of
Unicode scalar values). Lengths are in bytes of the UTF-8 form, as `str::len` counts. -/

namespace AnonyMail.Str

/-- `char::is_whitespace`: the Unicode property `White_Space`. -/
def isWhitespace (c : Char) : Bool :=
  let n := c.toNat
  (9 ≤ n && n ≤ 13) || n == 0x20 || n == 0x85 || n == 0xA0 || n == 0x1680 ||
    (0x2000 ≤ n && n ≤ 0x200A) || n == 0x2028 || n == 0x2029 || n == 0x202F || n == 0x205F ||
    n == 0x3000

def dropEndWhile (p : Char → Bool) (l : List Char) : List Char :=
  (l.reverse.dropWhile p).reverse

def trim (s : String) : String :=
  .ofList (dropEndWhile isWhitespace (s.toList.dropWhile isWhitespace))

/-- `trim_end_matches(c)`. -/
def trimEndMatches (s : String) (c : Char) : String := .ofList (dropEndWhile (· == c) s.toList)

def asciiLower (c : Char) : Char :=
  if 'A' ≤ c ∧ c ≤ 'Z' then Char.ofNat (c.toNat + 32) else c

def asciiUpper (c : Char) : Char :=
  if 'a' ≤ c ∧ c ≤ 'z' then Char.ofNat (c.toNat - 32) else c

def toAsciiLowercase (s : String) : String := .ofList (s.toList.map asciiLower)

def toAsciiUppercase (s : String) : String := .ofList (s.toList.map asciiUpper)

def eqIgnoreAsciiCase (s t : String) : Bool := toAsciiLowercase s == toAsciiLowercase t

/-- The parts before and after the first `c`. -/
def splitOnceList (c : Char) : List Char → Option (List Char × List Char)
  | [] => none
  | x :: xs =>
    if x = c then some ([], xs)
    else (splitOnceList c xs).map fun (a, b) => (x :: a, b)

def splitOnce (s : String) (c : Char) : Option (String × String) :=
  (splitOnceList c s.toList).map fun (a, b) => (.ofList a, .ofList b)

/-- The parts before and after the last `c`. -/
def rsplitOnce (s : String) (c : Char) : Option (String × String) :=
  (splitOnceList c s.toList.reverse).map fun (a, b) => (.ofList b.reverse, .ofList a.reverse)

def startsWith (s pre : String) : Bool := pre.toList.isPrefixOf s.toList

def endsWith (s suf : String) : Bool := suf.toList.isSuffixOf s.toList

def asBytes (s : String) : List UInt8 := s.toUTF8.data.toList

def len (s : String) : Nat := (asBytes s).length

def isAsciiLowercase (c : Char) : Bool := 'a' ≤ c && c ≤ 'z'

def isAsciiDigit (c : Char) : Bool := '0' ≤ c && c ≤ '9'

/-- The part before the first character that `p` accepts, and the part after it if there is one. -/
def splitAtFirst (p : Char → Bool) : List Char → List Char × Option (List Char)
  | [] => ([], none)
  | c :: cs =>
    if p c then ([], some cs)
    else
      let (a, b) := splitAtFirst p cs
      (c :: a, b)

/-- What follows the first occurrence of `pat`. -/
def afterFirst (pat : List Char) : List Char → Option (List Char)
  | [] => if pat.isEmpty then some [] else none
  | c :: cs =>
    if pat.isPrefixOf (c :: cs) then some ((c :: cs).drop pat.length) else afterFirst pat cs

def isContinuation (b : UInt8) : Bool := 0x80 ≤ b && b ≤ 0xBF

/-- Second bytes of a sequence of three that `b` may start. -/
def isSecondOfThree (b c : UInt8) : Bool :=
  (b == 0xE0 && 0xA0 ≤ c && c ≤ 0xBF) || (0xE1 ≤ b && b ≤ 0xEC && isContinuation c) ||
    (b == 0xED && 0x80 ≤ c && c ≤ 0x9F) || (0xEE ≤ b && b ≤ 0xEF && isContinuation c)

/-- Second bytes of a sequence of four that `b` may start. -/
def isSecondOfFour (b c : UInt8) : Bool :=
  (b == 0xF0 && 0x90 ≤ c && c ≤ 0xBF) || (0xF1 ≤ b && b ≤ 0xF3 && isContinuation c) ||
    (b == 0xF4 && 0x80 ≤ c && c ≤ 0x8F)

def replacement : Char := Char.ofNat 0xFFFD

/-- The code point of a sequence with the leading bits `lead`. -/
def codePoint (lead : Nat) (conts : List UInt8) : Char :=
  Char.ofNat (conts.foldl (fun n b => n * 64 + (b.toNat - 0x80)) lead)

/-- Decode UTF-8, with one replacement character for each maximal part that is not valid. -/
def lossyChars : List UInt8 → List Char
  | [] => []
  | b :: rest =>
    if b < 0x80 then Char.ofNat b.toNat :: lossyChars rest
    else if 0xC2 ≤ b && b ≤ 0xDF then
      match rest with
      | [] => [replacement]
      | c :: rest' =>
        if isContinuation c then codePoint (b.toNat - 0xC0) [c] :: lossyChars rest'
        else replacement :: lossyChars (c :: rest')
    else if 0xE0 ≤ b && b ≤ 0xEF then
      match rest with
      | [] => [replacement]
      | c :: rest₁ =>
        if isSecondOfThree b c then
          match rest₁ with
          | [] => [replacement]
          | d :: rest₂ =>
            if isContinuation d then codePoint (b.toNat - 0xE0) [c, d] :: lossyChars rest₂
            else replacement :: lossyChars (d :: rest₂)
        else replacement :: lossyChars (c :: rest₁)
    else if 0xF0 ≤ b && b ≤ 0xF4 then
      match rest with
      | [] => [replacement]
      | c :: rest₁ =>
        if isSecondOfFour b c then
          match rest₁ with
          | [] => [replacement]
          | d :: rest₂ =>
            if isContinuation d then
              match rest₂ with
              | [] => [replacement]
              | e :: rest₃ =>
                if isContinuation e then codePoint (b.toNat - 0xF0) [c, d, e] :: lossyChars rest₃
                else replacement :: lossyChars (e :: rest₃)
            else replacement :: lossyChars (d :: rest₂)
        else replacement :: lossyChars (c :: rest₁)
    else replacement :: lossyChars rest

/-- `String::from_utf8_lossy`. -/
def fromUtf8Lossy (bytes : List UInt8) : String := .ofList (lossyChars bytes)

/-- `values.join(", ")`. -/
def join (sep : String) : List String → String
  | [] => ""
  | [s] => s
  | s :: ss => s ++ sep ++ join sep ss

/-! ## Splitting -/

theorem splitOnceList_append {c : Char} {l r : List Char} (h : c ∉ l) :
    splitOnceList c (l ++ c :: r) = some (l, r) := by
  induction l with
  | nil => simp [splitOnceList]
  | cons x l ih =>
    obtain ⟨hx, hl⟩ := List.ne_and_not_mem_of_not_mem_cons h
    rw [List.cons_append, splitOnceList, if_neg hx.symm, ih hl]
    rfl

theorem splitOnceList_eq_some {c : Char} {l a b : List Char}
    (h : splitOnceList c l = some (a, b)) : l = a ++ c :: b ∧ c ∉ a := by
  induction l generalizing a with
  | nil => cases h
  | cons x l ih =>
    rw [splitOnceList] at h
    split at h
    · next hx =>
      cases h
      exact ⟨by rw [hx]; rfl, List.not_mem_nil⟩
    · next hx =>
      obtain ⟨⟨a', b'⟩, h, heq⟩ := Option.map_eq_some_iff.mp h
      cases heq
      obtain ⟨rfl, ha⟩ := ih h
      exact ⟨rfl, List.not_mem_cons_of_ne_of_not_mem (Ne.symm hx) ha⟩

/-- The last `c` is the one after which there is none. -/
theorem rsplitOnce_eq_some {s l d : String} {c : Char} :
    rsplitOnce s c = some (l, d) ↔ s.toList = l.toList ++ c :: d.toList ∧ c ∉ d.toList := by
  constructor
  · intro h
    obtain ⟨⟨a, b⟩, hsplit, heq⟩ := Option.map_eq_some_iff.mp h
    cases heq
    obtain ⟨hs, ha⟩ := splitOnceList_eq_some hsplit
    refine ⟨?_, by simpa using ha⟩
    rw [← List.reverse_reverse s.toList, hs]
    simp
  · rintro ⟨hs, hd⟩
    have hrev : s.toList.reverse = d.toList.reverse ++ c :: l.toList.reverse := by simp [hs]
    rw [rsplitOnce, hrev, splitOnceList_append (by simpa using hd)]
    simp

theorem rsplitOnce_append {l d : String} (h : '@' ∉ d.toList) :
    rsplitOnce (l ++ "@" ++ d) '@' = some (l, d) :=
  rsplitOnce_eq_some.mpr ⟨by simp, h⟩

/-! ## Case -/

theorem asciiLower_of_upper {x : Char} (h : 'A' ≤ x ∧ x ≤ 'Z') :
    isAsciiLowercase (asciiLower x) ∧ isWhitespace x = false ∧
      isWhitespace (asciiLower x) = false ∧ asciiUpper (asciiLower x) = x := by
  have hall : ∀ n < 91, 65 ≤ n → isAsciiLowercase (Char.ofNat (n + 32)) ∧
      isWhitespace (Char.ofNat n) = false ∧ isWhitespace (Char.ofNat (n + 32)) = false ∧
      asciiUpper (Char.ofNat (n + 32)) = Char.ofNat n := by
    decide
  have hx := hall x.toNat (Nat.lt_succ_of_le h.2) h.1
  rw [Char.ofNat_toNat] at hx
  rwa [asciiLower, if_pos h]

theorem asciiLower_idem (x : Char) : asciiLower (asciiLower x) = asciiLower x := by
  by_cases h : 'A' ≤ x ∧ x ≤ 'Z'
  · have hlower : ∀ n < 91, 65 ≤ n → asciiLower (Char.ofNat (n + 32)) = Char.ofNat (n + 32) := by
      decide
    have hx : asciiLower x = Char.ofNat (x.toNat + 32) := if_pos h
    rw [hx]
    exact hlower x.toNat (Nat.lt_succ_of_le h.2) h.1
  · have hx : asciiLower x = x := if_neg h
    rw [hx, hx]

theorem isWhitespace_asciiLower (x : Char) : isWhitespace (asciiLower x) = isWhitespace x := by
  by_cases h : 'A' ≤ x ∧ x ≤ 'Z'
  · obtain ⟨-, hx, hlower, -⟩ := asciiLower_of_upper h
    rw [hx, hlower]
  · rw [asciiLower, if_neg h]

/-- Only letters change. -/
theorem eq_of_asciiLower_eq {x y : Char} (h : asciiLower x = y) (hy : isAsciiLowercase y = false) :
    x = y := by
  by_cases hx : 'A' ≤ x ∧ x ≤ 'Z'
  · rw [← h, (asciiLower_of_upper hx).1] at hy
    cases hy
  · rwa [asciiLower, if_neg hx] at h

theorem asciiUpper_asciiLower (x : Char) : asciiUpper (asciiLower x) = asciiUpper x := by
  by_cases h : 'A' ≤ x ∧ x ≤ 'Z'
  · have hnot : ¬('a' ≤ x ∧ x ≤ 'z') := fun h' =>
      absurd (Char.le_trans h'.1 h.2) (by decide)
    rw [(asciiLower_of_upper h).2.2.2, asciiUpper, if_neg hnot]
  · rw [asciiLower, if_neg h]

theorem toAsciiUppercase_toAsciiLowercase (s : String) :
    toAsciiUppercase (toAsciiLowercase s) = toAsciiUppercase s := by
  rw [toAsciiUppercase, toAsciiLowercase, String.toList_ofList, List.map_map, toAsciiUppercase]
  exact congrArg _ (List.map_congr_left fun x _ => asciiUpper_asciiLower x)

theorem toAsciiLowercase_append (s t : String) :
    toAsciiLowercase (s ++ t) = toAsciiLowercase s ++ toAsciiLowercase t := by
  simp [toAsciiLowercase]

theorem length_toAsciiLowercase (s : String) :
    (toAsciiLowercase s).toList.length = s.toList.length := by
  simp [toAsciiLowercase]

theorem toAsciiLowercase_eq_self {s : String} :
    toAsciiLowercase s = s ↔ ∀ x ∈ s.toList, asciiLower x = x := by
  constructor
  · intro h x hx
    rw [← h, toAsciiLowercase, String.toList_ofList] at hx
    obtain ⟨y, -, rfl⟩ := List.mem_map.mp hx
    exact asciiLower_idem y
  · intro h
    rw [toAsciiLowercase, List.map_congr_left h, List.map_id', String.ofList_toList]

theorem toAsciiLowercase_idem (s : String) :
    toAsciiLowercase (toAsciiLowercase s) = toAsciiLowercase s := by
  refine toAsciiLowercase_eq_self.mpr fun x hx => ?_
  rw [toAsciiLowercase, String.toList_ofList] at hx
  obtain ⟨y, -, rfl⟩ := List.mem_map.mp hx
  exact asciiLower_idem y

/-- Text in another case has the same characters, but for the case. -/
theorem mem_of_mem_variant {v s : String} (h : toAsciiLowercase v = s) {x : Char}
    (hx : x ∈ v.toList) : asciiLower x ∈ s.toList := by
  rw [← h, toAsciiLowercase, String.toList_ofList]
  exact List.mem_map_of_mem hx

theorem not_mem_of_variant {v s : String} (h : toAsciiLowercase v = s) {x : Char}
    (hx : asciiLower x = x) (hs : x ∉ s.toList) : x ∉ v.toList := fun hmem =>
  hs (hx ▸ mem_of_mem_variant h hmem)

theorem isWhitespace_of_variant {v s : String} (h : toAsciiLowercase v = s)
    (hs : ∀ x ∈ s.toList, isWhitespace x = false) {x : Char} (hx : x ∈ v.toList) :
    isWhitespace x = false := by
  rw [← isWhitespace_asciiLower]
  exact hs _ (mem_of_mem_variant h hx)

theorem variant_ne_nil {v s : String} (h : toAsciiLowercase v = s) (hs : s.toList ≠ []) :
    v.toList ≠ [] := by
  intro hv
  rw [← h, toAsciiLowercase, String.toList_ofList, hv] at hs
  exact hs rfl

/-! ## Trimming -/

theorem dropEndWhile_append {p : Char → Bool} {x : Char} (l r : List Char) (hx : p x = false) :
    dropEndWhile p (l ++ x :: r) = l ++ x :: dropEndWhile p r := by
  rw [dropEndWhile, List.reverse_append, List.reverse_cons, List.append_assoc, List.dropWhile_append]
  split
  · next hnil =>
    rw [dropEndWhile, List.isEmpty_iff.mp hnil]
    simp [hx]
  · rw [dropEndWhile]
    simp

/-- Trimming stops at the first and at the last character that is not white. -/
theorem trim_eq {s : String} {x y : Char} {l m r : List Char} (h : s.toList = x :: l)
    (h' : x :: l = m ++ y :: r) (hx : isWhitespace x = false) (hy : isWhitespace y = false) :
    trim s = .ofList (m ++ y :: dropEndWhile isWhitespace r) := by
  rw [trim, h, List.dropWhile_cons_of_neg (by simp [hx]), h', dropEndWhile_append _ _ hy]

theorem trim_eq_self {s : String} {x y : Char} {l m : List Char} (h : s.toList = x :: l)
    (h' : x :: l = m ++ [y]) (hx : isWhitespace x = false) (hy : isWhitespace y = false) :
    trim s = s := by
  rw [trim_eq h h' hx hy]
  exact String.toList_injective (by rw [String.toList_ofList, h, h']; rfl)

theorem trim_of_forall {s : String} (h : ∀ x ∈ s.toList, isWhitespace x = false) : trim s = s := by
  rcases List.eq_nil_or_concat' s.toList with hs | ⟨m, y, hs⟩
  · rw [String.toList_eq_nil_iff.mp hs]
    decide +kernel
  · obtain ⟨x, l, hx⟩ := List.exists_cons_of_ne_nil (show s.toList ≠ [] by simp [hs])
    exact trim_eq_self hx (hx ▸ hs) (h x (by simp [hx])) (h y (by simp [hs]))

/-- Trimming takes nothing away up to a character that is not white, and only white text after it. -/
theorem trim_through {s : String} {l r : List Char} (hl : l ≠ []) (hs : s.toList = l ++ r)
    (hhead : ∀ x, l.head? = some x → isWhitespace x = false)
    (hlast : ∀ x, l.getLast? = some x → isWhitespace x = false) :
    ∃ r' w, (trim s).toList = l ++ r' ∧ r = r' ++ w ∧ ∀ x ∈ w, isWhitespace x := by
  obtain ⟨x, l', rfl⟩ := List.exists_cons_of_ne_nil hl
  obtain ⟨m, y, hm⟩ := (List.eq_nil_or_concat (x :: l')).resolve_left hl
  have hy : isWhitespace y = false := hlast y (by rw [hm]; simp)
  have htrim := @trim_eq s x y (l' ++ r) m r hs (by rw [← List.cons_append, hm]; simp) (hhead x rfl) hy
  refine ⟨dropEndWhile isWhitespace r, (r.reverse.takeWhile isWhitespace).reverse, ?_, ?_, ?_⟩
  · rw [htrim, hm]
    simp
  · rw [dropEndWhile, ← List.reverse_append, List.takeWhile_append_dropWhile, List.reverse_reverse]
  · intro z hz
    exact List.all_eq_true.mp (List.all_takeWhile ..) z (List.mem_reverse.mp hz)

/-! ## Finding -/

theorem splitAtFirst_append {p : Char → Bool} {x : Char} {l : List Char} (r : List Char)
    (hl : ∀ y ∈ l, p y = false) (hx : p x = true) :
    splitAtFirst p (l ++ x :: r) = (l, some r) := by
  induction l with
  | nil => simp [splitAtFirst, hx]
  | cons y l ih =>
    rw [List.cons_append, splitAtFirst, hl y List.mem_cons_self,
      ih fun z hz => hl z (List.mem_cons_of_mem _ hz)]
    rfl

theorem afterFirst_append (pat r : List Char) : afterFirst pat (pat ++ r) = some r := by
  cases hl : pat ++ r with
  | nil =>
    obtain ⟨rfl, rfl⟩ := List.append_eq_nil_iff.mp hl
    rfl
  | cons x l =>
    rw [afterFirst, ← hl, if_pos (List.isPrefixOf_iff_prefix.mpr (List.prefix_append ..)),
      List.drop_left]

theorem splitAtFirst_of_forall {p : Char → Bool} {l : List Char} (hl : ∀ y ∈ l, p y = false) :
    splitAtFirst p l = (l, none) := by
  induction l with
  | nil => rfl
  | cons y l ih =>
    obtain ⟨hy, hl⟩ := List.forall_mem_cons.mp hl
    rw [splitAtFirst, hy, ih hl]
    rfl

/-- `r` follows the first place at which `pat` occurs. -/
structure FirstAfter (pat l r : List Char) : Prop where
  occurs : ∃ before, l = before ++ pat ++ r
  first : ∀ before r', l = before ++ pat ++ r' → r'.length ≤ r.length

theorem FirstAfter.unique (h : FirstAfter pat l r) (h' : FirstAfter pat l r') : r = r' := by
  obtain ⟨b, hb⟩ := h.occurs
  obtain ⟨b', hb'⟩ := h'.occurs
  have hlen : r.length = r'.length := Nat.le_antisymm (h'.first b r hb) (h.first b' r' hb')
  exact (List.append_inj' (hb.symm.trans hb') hlen).2

theorem firstAfter_of_afterFirst {pat l r : List Char} (h : afterFirst pat l = some r) :
    FirstAfter pat l r := by
  induction l with
  | nil =>
    unfold afterFirst at h
    split at h
    · next hpat =>
      cases h
      obtain rfl := List.isEmpty_iff.mp hpat
      refine ⟨⟨[], rfl⟩, fun b r' h => ?_⟩
      obtain ⟨-, rfl⟩ := List.append_eq_nil_iff.mp h.symm
      exact Nat.le_refl _
    · cases h
  | cons x l ih =>
    unfold afterFirst at h
    split at h
    · next hpat =>
      cases h
      obtain ⟨t, ht⟩ := List.isPrefixOf_iff_prefix.mp hpat
      rw [← ht, List.drop_left]
      refine ⟨⟨[], rfl⟩, fun b r' h => ?_⟩
      have hlen := congrArg List.length h
      simp only [List.length_append] at hlen
      omega
    · next hpat =>
      obtain ⟨⟨b, rfl⟩, hfirst⟩ := ih h
      refine ⟨⟨x :: b, rfl⟩, fun b' r' h => ?_⟩
      cases b' with
      | nil => exact absurd (List.isPrefixOf_iff_prefix.mpr ⟨r', h.symm⟩) hpat
      | cons y b' => exact hfirst b' r' (List.cons.inj h).2

theorem exists_afterFirst (pat b r : List Char) : ∃ r', afterFirst pat (b ++ pat ++ r) = some r' := by
  induction b with
  | nil => exact ⟨r, afterFirst_append pat r⟩
  | cons x b ih =>
    rw [List.cons_append, List.cons_append, afterFirst]
    split
    · exact ⟨_, rfl⟩
    · exact ih

theorem afterFirst_eq_some {pat l r : List Char} :
    afterFirst pat l = some r ↔ FirstAfter pat l r := by
  refine ⟨firstAfter_of_afterFirst, fun h => ?_⟩
  obtain ⟨b, rfl⟩ := h.occurs
  obtain ⟨r', hr'⟩ := exists_afterFirst pat b r
  rw [hr', (firstAfter_of_afterFirst hr').unique h]

end AnonyMail.Str
