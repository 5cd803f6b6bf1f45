import AnonyMail.Lib.ChunkReader
import AnonyMail.Smtp.Commands

/-! # The grammar of MAIL and RCPT

`extract_path` looks for the keyword, and then for a `<`, anywhere in the argument. A path in angle
brackets is found whatever comes behind it. A bare path is lost if there is a `<` in the parameters,
and a keyword behind other text, or at the end of another word, is taken for the one in front. -/

namespace AnonyMail.Smtp

open ChunkReader

/-! ## The path behind the keyword -/

/-- What `extract_path` makes of the text behind the keyword. -/
def pathIn (text : List Char) : Option String :=
  let after := text.dropWhile Str.isWhitespace
  match Str.splitAtFirst (· == '<') after with
  | (_, some rest) =>
    match Str.splitAtFirst (· == '>') rest with
    | (path, some _) => some (Str.trim (.ofList path))
    | (_, none) => none
  | (_, none) => some (.ofList (after.takeWhile (!Str.isWhitespace ·)))

/-- `rest` follows the first place of `args` at which the keyword stands, in any case. -/
structure FirstKey (key args rest : List Char) : Prop where
  occurs : ∃ before k, args = before ++ k ++ rest ∧ k.map Str.asciiLower = key
  first : ∀ before k r, args = before ++ k ++ r → k.map Str.asciiLower = key → r.length ≤ rest.length

/-- There is a `<` without a `>` behind it. -/
def Unclosed (text : List Char) : Prop := ∃ a b, text = a ++ '<' :: b ∧ '<' ∉ a ∧ '>' ∉ b

section
variable {key args rest text a b d : List Char} {args' keyword : String}

theorem firstKey_of_firstAfter {tail : List Char}
    (h : Str.FirstAfter key (args.map Str.asciiLower) tail) :
    FirstKey key args (args.drop (args.length - tail.length)) := by
  obtain ⟨b, hb⟩ := h.occurs
  obtain ⟨l, rest, rfl, hl, hrest⟩ := List.map_eq_append_iff.mp hb
  obtain ⟨before, k, rfl, -, hk⟩ := List.map_eq_append_iff.mp hl
  have hlen : rest.length = tail.length := by rw [← hrest, List.length_map]
  have hdrop : (before ++ k ++ rest).length - tail.length = (before ++ k).length := by
    rw [List.length_append, hlen, Nat.add_sub_cancel]
  rw [hdrop, List.drop_left]
  refine ⟨⟨before, k, rfl, hk⟩, fun before' k' r hr hk' => ?_⟩
  have hfirst := h.first (before'.map Str.asciiLower) (r.map Str.asciiLower) (by
    rw [hr, List.map_append, List.map_append, hk'])
  rwa [List.length_map, ← hlen] at hfirst

theorem FirstKey.firstAfter (h : FirstKey key args rest) :
    Str.FirstAfter key (args.map Str.asciiLower) (rest.map Str.asciiLower) := by
  obtain ⟨before, k, rfl, hk⟩ := h.occurs
  refine ⟨⟨before.map Str.asciiLower, by simp [hk]⟩, fun b r hr => ?_⟩
  obtain ⟨l, r', heq, hl, rfl⟩ := List.map_eq_append_iff.mp hr
  obtain ⟨b', k', rfl, -, hk'⟩ := List.map_eq_append_iff.mp hl
  simpa using h.first b' k' r' heq hk'

theorem extractPath_of_firstKey
    (h : FirstKey (Str.toAsciiLowercase keyword ++ ":").toList args'.toList rest) :
    extractPath args' keyword = pathIn rest := by
  have hlower : (Str.toAsciiLowercase args').toList = args'.toList.map Str.asciiLower :=
    String.toList_ofList
  obtain ⟨before, k, hargs, -⟩ := h.occurs
  have hdrop : args'.toList.drop ((Str.toAsciiLowercase args').toList.length -
      (rest.map Str.asciiLower).length) = rest := by
    rw [Str.length_toAsciiLowercase, hargs, List.length_map, List.length_append, Nat.add_sub_cancel,
      List.drop_left]
  have hfind := Str.afterFirst_eq_some.mpr h.firstAfter
  rw [← hlower] at hfind
  show (Str.afterFirst _ _).bind (fun tail => pathIn (args'.toList.drop
    ((Str.toAsciiLowercase args').toList.length - tail.length))) = _
  rw [hfind, Option.bind_some, hdrop]

theorem extractPath_of_forall
    (h : ∀ rest, ¬FirstKey (Str.toAsciiLowercase keyword ++ ":").toList args'.toList rest) :
    extractPath args' keyword = none := by
  have hlower : (Str.toAsciiLowercase args').toList = args'.toList.map Str.asciiLower :=
    String.toList_ofList
  cases hfind : Str.afterFirst (Str.toAsciiLowercase keyword ++ ":").toList
      (Str.toAsciiLowercase args').toList with
  | none =>
    rw [extractPath]
    simp only [hfind, Option.bind_none]
  | some tail =>
    rw [hlower] at hfind
    exact absurd (firstKey_of_firstAfter (Str.afterFirst_eq_some.mp hfind)) (h _)

theorem dropWhile_open (a b : List Char) :
    (a ++ '<' :: b).dropWhile Str.isWhitespace = a.dropWhile Str.isWhitespace ++ '<' :: b := by
  have hopen : Str.isWhitespace '<' = false := by decide
  rw [List.dropWhile_append]
  split
  · next hnil => rw [List.isEmpty_iff.mp hnil, List.dropWhile_cons, hopen]; rfl
  · rfl

theorem splitAtFirst_open (ha : '<' ∉ a) (b : List Char) :
    Str.splitAtFirst (· == '<') ((a ++ '<' :: b).dropWhile Str.isWhitespace) =
      (a.dropWhile Str.isWhitespace, some b) := by
  rw [dropWhile_open]
  refine Str.splitAtFirst_append _ (fun x hx => beq_eq_false_iff_ne.mpr fun heq => ?_) rfl
  exact ha (heq ▸ (List.dropWhile_sublist _).subset hx)

theorem pathIn_closed (ha : '<' ∉ a) (hb : '>' ∉ b) :
    pathIn (a ++ '<' :: (b ++ '>' :: d)) = some (Str.trim (.ofList b)) := by
  have hclose : Str.splitAtFirst (· == '>') (b ++ '>' :: d) = (b, some d) :=
    Str.splitAtFirst_append _ (fun x hx => beq_eq_false_iff_ne.mpr fun heq => hb (heq ▸ hx)) rfl
  rw [pathIn]
  simp only [splitAtFirst_open ha, hclose]

theorem pathIn_unclosed (ha : '<' ∉ a) (hb : '>' ∉ b) : pathIn (a ++ '<' :: b) = none := by
  have hnone : Str.splitAtFirst (· == '>') b = (b, none) :=
    Str.splitAtFirst_of_forall fun x hx => beq_eq_false_iff_ne.mpr fun heq => hb (heq ▸ hx)
  rw [pathIn]
  simp only [splitAtFirst_open ha, hnone]

theorem pathIn_bare (h : '<' ∉ text) : pathIn text =
    some (.ofList ((text.dropWhile Str.isWhitespace).takeWhile (!Str.isWhitespace ·))) := by
  have hnone : Str.splitAtFirst (· == '<') (text.dropWhile Str.isWhitespace) =
      (text.dropWhile Str.isWhitespace, none) := by
    refine Str.splitAtFirst_of_forall fun x hx => beq_eq_false_iff_ne.mpr fun heq => ?_
    exact h (heq ▸ (List.dropWhile_sublist _).subset hx)
  rw [pathIn]
  simp only [hnone]

theorem pathIn_eq_none_iff : pathIn text = none ↔ Unclosed text := by
  constructor
  · intro h
    by_cases hopen : '<' ∈ text
    · obtain ⟨a, b, rfl, ha⟩ := List.eq_append_cons_of_mem hopen
      refine ⟨a, b, rfl, ha, fun hclose => ?_⟩
      obtain ⟨b, d, rfl, hb⟩ := List.eq_append_cons_of_mem hclose
      rw [pathIn_closed ha hb] at h
      cases h
    · rw [pathIn_bare hopen] at h
      cases h
  · rintro ⟨a, b, rfl, ha, hb⟩
    exact pathIn_unclosed ha hb

theorem extractPath_eq_none_iff : extractPath args' keyword = none ↔
    ∀ rest, FirstKey (Str.toAsciiLowercase keyword ++ ":").toList args'.toList rest →
      Unclosed rest := by
  constructor
  · intro h rest hrest
    rwa [extractPath_of_firstKey hrest, pathIn_eq_none_iff] at h
  · intro h
    by_cases hkey : ∃ rest, FirstKey (Str.toAsciiLowercase keyword ++ ":").toList args'.toList rest
    · obtain ⟨rest, hrest⟩ := hkey
      rw [extractPath_of_firstKey hrest]
      exact pathIn_eq_none_iff.mpr (h rest hrest)
    · exact extractPath_of_forall (not_exists.mp hkey)

end

/-! ## The words of a line -/

/-- `MAIL FROM:` and `RCPT TO:`. -/
inductive PathVerb
  | mail
  | rcpt

namespace PathVerb

def verb : PathVerb → String
  | mail => "MAIL"
  | rcpt => "RCPT"

def keyword : PathVerb → String
  | mail => "FROM"
  | rcpt => "TO"

def command : PathVerb → String → Command
  | mail => .mailFrom
  | rcpt => .rcptTo

/-- The keyword as the parser looks for it. -/
def key (v : PathVerb) : String := Str.toAsciiLowercase v.keyword ++ ":"

end PathVerb

/-- The first word of a line, in upper case. -/
def verbOf (line : String) : String :=
  Str.toAsciiUppercase (.ofList (Str.splitAtFirst Str.isWhitespace (Str.trim line).toList).1)

/-- The argument of a line. -/
def argOf (line : String) : String :=
  Str.trim (.ofList ((Str.splitAtFirst Str.isWhitespace (Str.trim line).toList).2.getD []))

variable {v : PathVerb} {line : String} {rest : List Char}

theorem parse_eq (h : verbOf line = v.verb) : Command.parse line =
    ((extractPath (argOf line) v.keyword).map v.command).getD (.unknown (Str.trim line)) := by
  rw [Command.parse, argOf]
  cases v with
  | mail =>
    have hverb : Str.toAsciiUppercase
        (.ofList (Str.splitAtFirst Str.isWhitespace (Str.trim line).toList).1) = "MAIL" := h
    simp only [hverb, PathVerb.keyword, PathVerb.command]
  | rcpt =>
    have hverb : Str.toAsciiUppercase
        (.ofList (Str.splitAtFirst Str.isWhitespace (Str.trim line).toList).1) = "RCPT" := h
    simp only [hverb, PathVerb.keyword, PathVerb.command]

theorem parse_eq_unknown_iff (h : verbOf line = v.verb) :
    Command.parse line = .unknown (Str.trim line) ↔
      ∀ rest, FirstKey v.key.toList (argOf line).toList rest → Unclosed rest := by
  rw [parse_eq h, PathVerb.key, ← extractPath_eq_none_iff]
  cases extractPath (argOf line) v.keyword with
  | none => exact iff_of_true rfl rfl
  | some path => cases v <;> exact iff_of_false nofun nofun

theorem parse_eq_command_iff {path : String} (h : verbOf line = v.verb)
    (hrest : FirstKey v.key.toList (argOf line).toList rest) :
    Command.parse line = v.command path ↔ pathIn rest = some path := by
  rw [parse_eq h, extractPath_of_firstKey hrest]
  cases pathIn rest with
  | none => cases v <;> exact iff_of_false nofun nofun
  | some path' =>
    cases v <;> simp [PathVerb.command]

/-! ## Lines with a path -/

theorem words_of_line {verb : String} {text tail : List Char}
    (hline : line.toList = verb.toList ++ ' ' :: (text ++ tail)) (hne : verb.toList ≠ [])
    (hverb : ∀ x ∈ verb.toList, Str.isWhitespace x = false) (htext : text ≠ [])
    (hhead : ∀ x, text.head? = some x → Str.isWhitespace x = false)
    (hlast : ∀ x, text.getLast? = some x → Str.isWhitespace x = false) :
    ∃ tail' w, verbOf line = Str.toAsciiUppercase verb ∧ (argOf line).toList = text ++ tail' ∧
      tail = tail' ++ w ∧ ∀ x ∈ w, Str.isWhitespace x := by
  obtain ⟨r₁, w₁, htrim, rfl, hw₁⟩ := @Str.trim_through line (verb.toList ++ ' ' :: text) tail
    (by simp) (by rw [hline, List.append_assoc]; rfl)
    (fun x hx => by
      obtain ⟨y, l, hy⟩ := List.exists_cons_of_ne_nil hne
      rw [hy] at hx
      cases hx
      exact hverb _ (hy ▸ List.mem_cons_self))
    (fun x hx => by
      rw [List.getLast?_append, List.getLast?_cons_of_ne_nil htext] at hx
      cases hlast' : text.getLast? with
      | none => exact absurd (List.getLast?_eq_none_iff.mp hlast') htext
      | some y =>
        rw [hlast', Option.some_or] at hx
        cases hx
        exact hlast _ hlast')
  have hsplit : Str.splitAtFirst Str.isWhitespace (Str.trim line).toList =
      (verb.toList, some (text ++ r₁)) := by
    rw [htrim, List.append_assoc]
    exact Str.splitAtFirst_append _ hverb (by decide)
  obtain ⟨r₂, w₂, harg, rfl, hw₂⟩ := @Str.trim_through (.ofList (text ++ r₁)) text r₁ htext
    String.toList_ofList hhead hlast
  refine ⟨r₂, w₂ ++ w₁, ?_, ?_, List.append_assoc .., ?_⟩
  · rw [verbOf, hsplit, String.ofList_toList]
  · rw [argOf, hsplit]
    exact harg
  · exact fun x hx => (List.mem_append.mp hx).elim (hw₂ x) (hw₁ x)

/-- The verb and the keyword, in any case, and white text behind the colon. -/
structure Opens (v : PathVerb) (verb keyword white : String) : Prop where
  verb : Str.toAsciiLowercase verb = Str.toAsciiLowercase v.verb
  keyword : Str.toAsciiLowercase keyword = v.key
  white : ∀ x ∈ white.toList, Str.isWhitespace x

def PlainPath (path : String) : Prop :=
  ∀ x ∈ path.toList, Str.isWhitespace x = false ∧ x ∉ ['<', '>']

instance : Decidable (PlainPath path) := List.decidableBAll _ path.toList

theorem firstKey_of_prefix {key keyword : List Char} (h : keyword.map Str.asciiLower = key) :
    FirstKey key (keyword ++ rest) rest := by
  refine ⟨⟨[], keyword, rfl, h⟩, fun before k r hr hk => ?_⟩
  have hlen := congrArg List.length hr
  have hkeys := congrArg List.length (hk.trans h.symm)
  simp only [List.length_append, List.length_map] at hlen hkeys
  omega

theorem not_white_open {l : List Char} (h : ∀ x ∈ l, Str.isWhitespace x) : '<' ∉ l := fun hmem =>
  absurd (h _ hmem) (by decide)

theorem PathVerb.upper_verb (v : PathVerb) :
    Str.toAsciiUppercase (Str.toAsciiLowercase v.verb) = v.verb := by
  cases v <;> decide +kernel

theorem PathVerb.not_white (v : PathVerb) :
    (∀ x ∈ (Str.toAsciiLowercase v.verb).toList, Str.isWhitespace x = false) ∧
      ∀ x ∈ v.key.toList, Str.isWhitespace x = false := by
  have hall : (Str.toAsciiLowercase v.verb).toList.all (!Str.isWhitespace ·) ∧
      v.key.toList.all (!Str.isWhitespace ·) := by
    cases v <;> decide +kernel
  simpa only [List.all_eq_true, Bool.not_eq_true'] using hall

/-- The words of a line with a path, where `path'` is the path as it is written. -/
theorem Opens.words {verb keyword white path' tail : String} (h : Opens v verb keyword white)
    (hne : path' ≠ "") (hlast : ∀ x, path'.toList.getLast? = some x → Str.isWhitespace x = false) :
    ∃ tail' w, verbOf (verb ++ " " ++ keyword ++ white ++ path' ++ tail) = v.verb ∧
      FirstKey v.key.toList
        (argOf (verb ++ " " ++ keyword ++ white ++ path' ++ tail)).toList
        (white.toList ++ path'.toList ++ tail') ∧
      tail.toList = tail' ++ w ∧ ∀ x ∈ w, Str.isWhitespace x := by
  have hverb : ∀ x ∈ verb.toList, Str.isWhitespace x = false := fun x =>
    Str.isWhitespace_of_variant h.verb v.not_white.1
  have hkey : ∀ x ∈ keyword.toList, Str.isWhitespace x = false := fun x =>
    Str.isWhitespace_of_variant h.keyword v.not_white.2
  have hverbne : verb.toList ≠ [] := Str.variant_ne_nil h.verb (by cases v <;> decide +kernel)
  have hkeyne : keyword.toList ≠ [] := Str.variant_ne_nil h.keyword (by cases v <;> decide +kernel)
  have hpathne : path'.toList ≠ [] := fun hnil => hne (String.toList_eq_nil_iff.mp hnil)
  obtain ⟨tail', w, hv, harg, htail, hw⟩ := @words_of_line
    (verb ++ " " ++ keyword ++ white ++ path' ++ tail) verb
    (keyword.toList ++ (white.toList ++ path'.toList)) tail.toList (by simp) hverbne hverb
    (by simp [hkeyne])
    (fun x hx => by
      obtain ⟨y, l, hy⟩ := List.exists_cons_of_ne_nil hkeyne
      rw [hy] at hx
      cases hx
      exact hkey _ (hy ▸ List.mem_cons_self))
    (fun x hx => by
      rw [← List.append_assoc, List.getLast?_append_of_ne_nil _ hpathne] at hx
      exact hlast x hx)
  refine ⟨tail', w, ?_, ?_, htail, hw⟩
  · rw [hv, ← Str.toAsciiUppercase_toAsciiLowercase, h.verb, v.upper_verb]
  · rw [harg, List.append_assoc]
    refine firstKey_of_prefix ?_
    rw [← h.keyword, Str.toAsciiLowercase, String.toList_ofList]

theorem parse_angle {verb keyword white path : String} (h : Opens v verb keyword white)
    (hclose : '>' ∉ path.toList) (params : String) :
    Command.parse (verb ++ " " ++ keyword ++ white ++ "<" ++ path ++ ">" ++ params) =
      v.command (Str.trim path) := by
  have hline : verb ++ " " ++ keyword ++ white ++ "<" ++ path ++ ">" ++ params =
      verb ++ " " ++ keyword ++ white ++ ("<" ++ path ++ ">") ++ params := by
    simp only [String.append_assoc]
  have hlist : ("<" ++ path ++ ">").toList = '<' :: (path.toList ++ ['>']) := by simp
  have hne : "<" ++ path ++ ">" ≠ "" := fun heq => by
    rw [heq] at hlist
    cases hlist
  obtain ⟨tail', w, hverb, hkey, -, -⟩ := @Opens.words v verb keyword white ("<" ++ path ++ ">")
    params h hne (fun x hx => by
      rw [hlist, ← List.cons_append, List.getLast?_concat] at hx
      cases hx
      decide)
  rw [hline, parse_eq_command_iff hverb hkey, hlist, List.append_assoc, List.cons_append,
    List.append_assoc, List.singleton_append, pathIn_closed (not_white_open h.white) hclose,
    String.ofList_toList]

/-- What is cut off a text lies behind a character that is not cut off. -/
theorem append_cons_eq_append {c : Char} {l r t w : List Char} (h : l ++ c :: t = r ++ w)
    (hw : c ∉ w) : ∃ t', r = l ++ c :: t' ∧ t = t' ++ w := by
  obtain ⟨q, rfl, hq⟩ | ⟨q, rfl, hq⟩ := List.append_eq_append_iff.mp h
  · cases q with
    | nil => exact absurd (by rw [← List.nil_append w, ← hq]; exact List.mem_cons_self) hw
    | cons x q =>
      obtain ⟨rfl, rfl⟩ := List.cons.inj hq
      exact ⟨q, rfl, rfl⟩
  · exact absurd (by rw [hq]; simp) hw

/-- A `<` in the parameters, if there is one, opens the path again. -/
def Reopens (path : String) (params : List Char) : Prop :=
  ∀ a b, params = a ++ '<' :: b → '<' ∉ a →
    ∃ p d, b = p ++ '>' :: d ∧ '>' ∉ p ∧ Str.trim (.ofList p) = path

theorem PlainPath.parse_angle {verb keyword white path : String} (hpath : PlainPath path)
    (h : Opens v verb keyword white) (params : String) :
    Command.parse (verb ++ " " ++ keyword ++ white ++ "<" ++ path ++ ">" ++ params) =
      v.command path := by
  have hclose : '>' ∉ path.toList := fun hmem => absurd (hpath _ hmem).2 (by decide)
  rw [Smtp.parse_angle h hclose, Str.trim_of_forall fun x hx => (hpath x hx).1]

/-- A bare path without a `<` behind it. -/
theorem pathIn_path {white path tail : List Char} (hwhite : ∀ x ∈ white, Str.isWhitespace x)
    (hpath : ∀ x ∈ path, Str.isWhitespace x = false) (hne : path ≠ [])
    (htail : ∀ x, tail.head? = some x → Str.isWhitespace x)
    (hopen : '<' ∉ white ++ path ++ tail) :
    pathIn (white ++ path ++ tail) = some (.ofList path) := by
  obtain ⟨x, l, rfl⟩ := List.exists_cons_of_ne_nil hne
  have hdrop : (white ++ (x :: l) ++ tail).dropWhile Str.isWhitespace = (x :: l) ++ tail := by
    rw [List.append_assoc, List.dropWhile_append_of_pos hwhite, List.cons_append,
      List.dropWhile_cons_of_neg (by simp [hpath x List.mem_cons_self])]
  have htake : tail.takeWhile (!Str.isWhitespace ·) = [] := by
    cases tail with
    | nil => rfl
    | cons y tail => exact List.takeWhile_cons_of_neg (by simp [htail y rfl])
  rw [pathIn_bare hopen, hdrop, List.takeWhile_append_of_pos (fun y hy => by simp [hpath y hy]),
    htake, List.append_nil]

theorem parse_bare_iff {verb keyword white path : String} (h : Opens v verb keyword white)
    (hpath : PlainPath path) (hne : path ≠ "") (params : String) :
    Command.parse (verb ++ " " ++ keyword ++ white ++ path ++ " " ++ params) = v.command path ↔
      Reopens path params.toList := by
  have hwhite : ∀ x ∈ path.toList, Str.isWhitespace x = false := fun x hx => (hpath x hx).1
  have hfree : '<' ∉ white.toList ++ path.toList := fun hmem =>
    (List.mem_append.mp hmem).elim (not_white_open h.white)
      fun hmem => absurd (hpath _ hmem).2 (by decide)
  obtain ⟨tail, w, hverb, hkey, htail, hw⟩ := @Opens.words v verb keyword white path
    (" " ++ params) h hne (fun x hx => hwhite x (List.mem_of_getLast? hx))
  have hspace : ' ' :: params.toList = tail ++ w := by simpa using htail
  rw [← String.append_assoc] at hverb hkey
  rw [parse_eq_command_iff hverb hkey]
  by_cases hopen : '<' ∈ params.toList
  · obtain ⟨a, b, hab, ha⟩ := List.eq_append_cons_of_mem hopen
    rw [hab] at hspace ⊢
    obtain ⟨b', rfl, rfl⟩ := @append_cons_eq_append '<' (' ' :: a) tail b w hspace (not_white_open hw)
    have hfront : '<' ∉ white.toList ++ path.toList ++ ' ' :: a := by
      rw [List.mem_append, List.mem_cons]
      rintro (hmem | heq | hmem)
      · exact hfree hmem
      · cases heq
      · exact ha hmem
    rw [← List.append_assoc]
    by_cases hclose : '>' ∈ b'
    · obtain ⟨p, d, rfl, hp⟩ := List.eq_append_cons_of_mem hclose
      rw [pathIn_closed hfront hp, Option.some.injEq]
      constructor
      · intro htrim a' b₁ heq ha'
        obtain ⟨-, rfl⟩ := append_cons_inj ha ha' heq
        exact ⟨p, d ++ w, by simp, hp, htrim⟩
      · intro hre
        obtain ⟨p', d', heq, hp', htrim⟩ := hre a _ rfl ha
        rw [List.append_assoc, List.cons_append] at heq
        rw [(append_cons_inj hp hp' heq).1, htrim]
    · rw [pathIn_unclosed hfront hclose]
      refine iff_of_false nofun fun hre => ?_
      obtain ⟨p', d', heq, -⟩ := hre a _ rfl ha
      have hmem : '>' ∈ b' ++ w := heq ▸ by simp
      exact (List.mem_append.mp hmem).elim hclose fun hmem => absurd (hw _ hmem) (by decide)
  · have htailfree : '<' ∉ tail := fun hmem => by
      have hmem : '<' ∈ ' ' :: params.toList := hspace ▸ List.mem_append_left w hmem
      exact (List.mem_cons.mp hmem).elim (by decide) hopen
    refine iff_of_true ?_ fun a b heq _ => absurd (heq ▸ by simp) hopen
    rw [pathIn_path h.white hwhite (fun hnil => hne (String.toList_eq_nil_iff.mp hnil)) ?_ ?_,
      String.ofList_toList]
    · intro x hx
      cases tail with
      | nil => cases hx
      | cons y tail =>
        cases hx
        rw [← (List.cons.inj hspace).1]
        decide
    · exact fun hmem => (List.mem_append.mp hmem).elim hfree htailfree

/-! ## The grammar -/

/-- The argument begins with the keyword and a colon. -/
def BeginsWithKey (v : PathVerb) (args : List Char) : Prop :=
  ∃ k rest, args = k ++ rest ∧ k.map Str.asciiLower = v.key.toList

/-- What a client may expect of the lines of a verb. -/
structure PathGrammar (v : PathVerb) : Prop where
  angle : ∀ verb keyword white path params, Opens v verb keyword white → PlainPath path →
    Command.parse (verb ++ " " ++ keyword ++ white ++ "<" ++ path ++ ">" ++ " " ++ params) =
      v.command path
  bare : ∀ verb keyword white path params, Opens v verb keyword white → PlainPath path →
    path ≠ "" → Command.parse (verb ++ " " ++ keyword ++ white ++ path ++ " " ++ params) =
      v.command path
  foreign : ∀ line, verbOf line = v.verb → ¬BeginsWithKey v (argOf line).toList →
    Command.parse line = .unknown (Str.trim line)

/-- A path in angle brackets is found whatever follows it. A bare path is found exactly if no `<`
follows it or the first one opens the same path again. A line of the verb is not recognized exactly
if the keyword occurs nowhere in its argument, or a `<` behind the first occurrence is not closed. -/
theorem parse_path_iff (v : PathVerb) :
    (∀ verb keyword white path params, Opens v verb keyword white → PlainPath path →
      Command.parse (verb ++ " " ++ keyword ++ white ++ "<" ++ path ++ ">" ++ params) =
        v.command path) ∧
    (∀ verb keyword white path params, Opens v verb keyword white → PlainPath path → path ≠ "" →
      (Command.parse (verb ++ " " ++ keyword ++ white ++ path ++ " " ++ params) = v.command path ↔
        Reopens path params.toList)) ∧
    ∀ line, verbOf line = v.verb → (Command.parse line = .unknown (Str.trim line) ↔
      ∀ rest, FirstKey v.key.toList (argOf line).toList rest → Unclosed rest) :=
  ⟨fun _ _ _ _ params h hpath => hpath.parse_angle h params,
    fun _ _ _ _ params h hpath hne => parse_bare_iff h hpath hne params,
    fun _ h => parse_eq_unknown_iff h⟩

theorem parse_path_iff_params :
    Command.parse "mail From: <a@b.c> AUTH=<>" = .mailFrom "a@b.c" ∧
    Command.parse "MAIL FROM:a@b.c SIZE=1" = .mailFrom "a@b.c" ∧
    Command.parse "MAIL TO:<a@b.c>" = .unknown "MAIL TO:<a@b.c>" := by
  obtain ⟨hangle, hbare, hforeign⟩ := parse_path_iff .mail
  refine ⟨?_, ?_, ?_⟩
  · exact hangle "mail" "From:" " " "a@b.c" " AUTH=<>"
      ⟨by decide +kernel, by decide +kernel, by simp [Str.isWhitespace]⟩ (by decide +kernel)
  · refine (hbare "MAIL" "FROM:" "" "a@b.c" "SIZE=1"
      ⟨by decide +kernel, by decide +kernel, by simp⟩ (by decide +kernel)
      (by decide +kernel)).mpr fun a b heq _ => ?_
    have hmem : '<' ∈ "SIZE=1".toList := heq ▸ by simp
    exact absurd hmem (by decide +kernel)
  · refine (hforeign "MAIL TO:<a@b.c>" (by decide +kernel)).mpr fun rest hrest => ?_
    have hnone : Str.afterFirst PathVerb.mail.key.toList
        ((argOf "MAIL TO:<a@b.c>").toList.map Str.asciiLower) = none := by decide +kernel
    cases hnone.symm.trans (Str.afterFirst_eq_some.mpr hrest.firstAfter)

/-- `AUTH=<>` takes the place of a bare path, and `XTO:` that of the keyword. -/
theorem not_pathGrammar : ¬PathGrammar .mail ∧ ¬PathGrammar .rcpt := by
  refine ⟨fun h => ?_, fun h => ?_⟩
  · have hbare := h.bare "MAIL" "FROM:" "" "a@b.c" "AUTH=<>"
      ⟨by decide +kernel, by decide +kernel, by simp⟩ (by decide +kernel) (by decide +kernel)
    have hempty : Command.parse ("MAIL" ++ " " ++ "FROM:" ++ "" ++ "a@b.c" ++ " " ++ "AUTH=<>") =
        .mailFrom "" := by decide +kernel
    exact absurd (hempty.symm.trans hbare) (by decide +kernel)
  · have hforeign := h.foreign "RCPT XTO:<a@b.c>" (by decide +kernel) fun ⟨k, rest, hargs, hk⟩ => by
      have hlower := congrArg (List.map Str.asciiLower) hargs
      rw [List.map_append, hk] at hlower
      exact absurd ⟨_, hlower.symm⟩ (by decide +kernel :
        ¬PathVerb.rcpt.key.toList <+: (argOf "RCPT XTO:<a@b.c>").toList.map Str.asciiLower)
    have hfound : Command.parse "RCPT XTO:<a@b.c>" = .rcptTo "a@b.c" := by decide +kernel
    cases hfound.symm.trans hforeign

end AnonyMail.Smtp
