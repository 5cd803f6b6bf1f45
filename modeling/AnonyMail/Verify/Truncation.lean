import AnonyMail.Verify.Transparency

/-! # A connection that closes during DATA

At the end of the stream `read_line` hands out the bytes it holds as a line, and `is_terminator` does
not ask whether the line had an end. So a stream that ends after the dot which was put before a line
is taken for a message that ends there. -/

namespace AnonyMail.Smtp

open ChunkReader

/-- The message with the given lines, each with an LF at its end. -/
def lfBody (lines : List (List UInt8)) : List UInt8 := lines.flatMap (· ++ [LF])

def lfEncode (lines : List (List UInt8)) : List UInt8 := lines.flatMap fun line => stuff line ++ [LF]

/-- The message as it is sent, with the dot that ends it. -/
def wire (lines : List (List UInt8)) : List UInt8 := lfEncode lines ++ [dot, CR, LF]

/-- The stream ends right after the dot that was put before a line. -/
def CutAfterDot (lines : List (List UInt8)) (p : List UInt8) : Prop :=
  ∃ lines₁ l lines₂, lines = lines₁ ++ l :: lines₂ ∧ l.head? = some dot ∧ p = lfEncode lines₁ ++ [dot]

variable {cs : List (Chunk UInt8)} {lines : List (List UInt8)} {p l s data : List UInt8}
  {cap max : Nat}

theorem lfBody_cons : lfBody (l :: lines) = l ++ [LF] ++ lfBody lines := rfl

theorem lfEncode_cons : lfEncode (l :: lines) = stuff l ++ LF :: lfEncode lines := by
  simp [lfEncode]

theorem wire_cons : wire (l :: lines) = stuff l ++ LF :: wire lines := by
  rw [wire, lfEncode_cons, List.append_assoc]
  rfl

/-! ## The end of the stream -/

/-- The bytes that are left over are a line. -/
theorem readLine_eof (h : LF ∉ flat cs) (hcap : (flat cs).length ≤ cap) :
    readLine ⟨cs, .eof⟩ cap =
      (.ok (if (flat cs).isEmpty then .eof else .line (flat cs)), ⟨[], .eof⟩) := by
  have hfree : ∀ c ∈ cs, LF ∉ c.1 := fun c hc hd => h (List.mem_flatMap.mpr ⟨c, hc, hd⟩)
  have hfit : giveUp cap 0 cs = none := giveUp_eq_none (by omega)
  have hloop := @readLineLoop_append [] cs [] cap .eof hfree
  rw [List.append_nil, List.length_nil, hfit] at hloop
  exact hloop

theorem readDataLoop_eof (h : LF ∉ flat cs) (hcap : (flat cs).length ≤ max + 4)
    (data : List UInt8) :
    readDataLoop max data false ⟨cs, .eof⟩ =
      (.ok (if isTerminator (flat cs) then .complete data else .connectionClosed), ⟨[], .eof⟩) := by
  have hclosed : ∀ data tl, readDataLoop max data tl ⟨[], .eof⟩ =
      (.ok .connectionClosed, ⟨[], .eof⟩) := by
    intro data tl
    rw [readDataLoop]
    rfl
  have hread := readLine_eof h hcap
  split at hread
  · next hnil =>
    rw [readDataLoop, List.isEmpty_iff.mp hnil]
    split <;> simp_all [isTerminator, stripEol]
  · rw [readDataLoop_line hread]
    split
    · rfl
    · rw [if_neg Bool.false_ne_true]
      split <;> exact hclosed _ _

/-! ## Lines as they are sent -/

theorem not_isTerminator_stuff : ¬isTerminator (stuff l ++ [LF]) := by
  rw [isTerminator_iff, stuff]
  split
  · next h =>
    obtain ⟨l, rfl⟩ := List.head?_eq_some_iff.mp h
    simp [CR, dot]
  · next h =>
    rintro (rfl | rfl) <;> exact h rfl

theorem unstuff_stuff : unstuff (stuff l ++ [LF]) = l ++ [LF] := by
  rw [stuff]
  split
  · simp [unstuff]
  · next h => exact unstuff_of_head_ne h

theorem not_mem_stuff (hl : LF ∉ l) : LF ∉ stuff l := by
  rw [stuff]
  split
  · simpa [LF, dot] using hl
  · exact hl

theorem length_stuff_le (l : List UInt8) : (stuff l).length ≤ l.length + 1 := by
  rw [stuff]
  split <;> simp

theorem isTerminator_of_not_mem (hp : LF ∉ p) : isTerminator p ↔ p = [dot] ∨ p = [dot, CR] := by
  have hlast : p.getLast? ≠ some LF := fun h => hp (List.mem_of_getLast? h)
  have hend : isTerminator p ↔ isTerminator (p ++ [LF]) := by
    simp [isTerminator, stripEol, hlast]
  rw [hend, isTerminator_iff]

/-- What is left of a line that starts with a dot is a lone dot only if nothing of it was sent but
the dot before it. -/
theorem isTerminator_prefix_stuff (hl : LF ∉ l) (hp : p <+: stuff l) :
    isTerminator p ↔ l.head? = some dot ∧ p = [dot] := by
  rw [isTerminator_of_not_mem fun h => not_mem_stuff hl (hp.subset h)]
  constructor
  · intro h
    rw [stuff] at hp
    split at hp
    · next hhead =>
      obtain ⟨l, rfl⟩ := List.head?_eq_some_iff.mp hhead
      rcases h with rfl | rfl
      · exact ⟨rfl, rfl⟩
      · simp [List.cons_prefix_cons, CR, dot] at hp
    · next hhead =>
      obtain ⟨r, rfl⟩ := hp
      rcases h with rfl | rfl <;> exact absurd rfl hhead
  · exact fun h => .inl h.2

theorem cutAfterDot_of_not_mem (hp : LF ∉ p) :
    CutAfterDot (l :: lines) p ↔ l.head? = some dot ∧ p = [dot] := by
  constructor
  · rintro ⟨lines₁, l', lines₂, heq, hhead, rfl⟩
    cases lines₁ with
    | nil =>
      cases heq
      exact ⟨hhead, rfl⟩
    | cons l₁ lines₁ =>
      rw [lfEncode_cons] at hp
      simp at hp
  · rintro ⟨hhead, rfl⟩
    exact ⟨[], l, lines, rfl, hhead, rfl⟩

theorem cutAfterDot_cons (hl : LF ∉ l) :
    CutAfterDot (l :: lines) (stuff l ++ LF :: p) ↔ CutAfterDot lines p := by
  constructor
  · rintro ⟨lines₁, l', lines₂, heq, hhead, hp⟩
    cases lines₁ with
    | nil =>
      have hmem : LF ∈ lfEncode [] ++ [dot] := hp ▸ by simp
      simp [lfEncode, LF, dot] at hmem
    | cons l₁ lines₁ =>
      cases heq
      rw [lfEncode_cons, List.append_assoc, List.cons_append] at hp
      obtain ⟨-, rfl⟩ := append_cons_inj (not_mem_stuff hl) (not_mem_stuff hl) hp
      exact ⟨lines₁, l', lines₂, rfl, hhead, rfl⟩
  · rintro ⟨lines₁, l', lines₂, rfl, hhead, rfl⟩
    exact ⟨l :: lines₁, l', lines₂, rfl, hhead, by rw [lfEncode_cons, List.append_assoc]; rfl⟩

/-! ## Cut messages -/

/-- A cut falls into the first line or after it. -/
theorem prefix_wire_cons (h : p <+: wire (l :: lines)) (hne : p ≠ wire (l :: lines)) :
    p <+: stuff l ∨ ∃ p', p = stuff l ++ LF :: p' ∧ p' <+: wire lines ∧ p' ≠ wire lines := by
  rw [wire_cons] at h hne
  obtain ⟨t, ht⟩ := h
  obtain ⟨q, hq, -⟩ | ⟨q, rfl, hq⟩ := List.append_eq_append_iff.mp ht
  · exact .inl ⟨q, hq.symm⟩
  · cases q with
    | nil => exact .inl (by simp)
    | cons x p' =>
      obtain ⟨rfl, hwire⟩ := List.cons.inj hq
      refine .inr ⟨p', rfl, ⟨t, hwire.symm⟩, fun heq => hne (by rw [heq])⟩

/-- A message that is cut short is complete for `read_data` exactly if the cut comes right after the
dot before a line. -/
theorem readDataLoop_cut_wire (hlines : ∀ l ∈ lines, LF ∉ l)
    (hmax : data.length + (lfBody lines).length ≤ max) (hp : p <+: wire lines)
    (hne : p ≠ wire lines) (hcs : flat cs = p) :
    (∀ d r, readDataLoop max data false ⟨cs, .eof⟩ = (.ok (.complete d), r) →
      d = data ++ lfBody lines) ↔ ¬CutAfterDot lines p := by
  induction lines generalizing data cs p with
  | nil =>
    have hlt : p.length ≤ 2 := by
      have hle := hp.length_le
      have hlen : p.length ≠ 3 := fun h => hne (hp.eq_of_length h)
      simp only [wire, lfEncode, List.flatMap_nil, List.nil_append, List.length_cons,
        List.length_nil] at hle
      omega
    have hfree : LF ∉ p := by
      have hp' : p <+: [dot, CR] := by
        refine List.prefix_of_prefix_length_le hp ?_ hlt
        exact ⟨[LF], rfl⟩
      exact fun h => by simpa [LF, dot, CR] using hp'.subset h
    refine iff_of_true ?_ ?_
    · intro d r h
      rw [readDataLoop_eof (hcs ▸ hfree) (by rw [hcs]; omega)] at h
      split at h <;> cases h
      simp [lfBody]
    · rintro ⟨lines₁, l, lines₂, heq, -⟩
      simp at heq
  | cons l lines ih =>
    obtain ⟨hl, hlines⟩ := List.forall_mem_cons.mp hlines
    rw [lfBody_cons, List.length_append, List.length_append, List.length_singleton] at hmax
    have hstuff := length_stuff_le l
    obtain hp | ⟨p', rfl, hp', hne'⟩ := prefix_wire_cons hp hne
    · have hfree : LF ∉ p := fun h => not_mem_stuff hl (hp.subset h)
      have hle := hp.length_le
      rw [readDataLoop_eof (hcs ▸ hfree) (by rw [hcs]; omega), hcs, cutAfterDot_of_not_mem hfree,
        ← isTerminator_prefix_stuff hl hp]
      by_cases hdot : isTerminator p
      · refine iff_of_false (fun h => ?_) (not_not_intro hdot)
        have heq := h data ⟨[], .eof⟩ (by rw [if_pos hdot])
        simp [lfBody_cons] at heq
      · exact iff_of_true (fun d r h => by rw [if_neg hdot] at h; cases h) hdot
    · rw [cutAfterDot_cons hl, readDataLoop_line (readLine_line (not_mem_stuff hl) hcs (by omega)),
        if_neg not_isTerminator_stuff, if_neg Bool.false_ne_true, unstuff_stuff,
        if_neg (by rw [List.length_append, List.length_singleton]; omega), lfBody_cons,
        ← List.append_assoc data (l ++ [LF])]
      refine ih hlines ?_ hp' hne' (flat_dropLine (not_mem_stuff hl) hcs)
      rw [List.length_append, List.length_append, List.length_singleton]
      omega

/-- A message of at most `max` bytes, cut short by the end of the stream, is not taken for another
one unless the stream ends right after the dot that was put before a line. -/
theorem readData_cut_iff (lines : List (List UInt8)) (hlines : ∀ l ∈ lines, LF ∉ l) (max : Nat)
    (hmax : (lfBody lines).length ≤ max) (p : List UInt8) (hp : p <+: wire lines)
    (hne : p ≠ wire lines) (cs : List (Chunk UInt8)) (hcs : flat cs = p) :
    (∀ d r, readData max ⟨cs, .eof⟩ = (.ok (.complete d), r) → d = lfBody lines) ↔
      ¬CutAfterDot lines p := by
  have hmax' : ([] : List UInt8).length + (lfBody lines).length ≤ max := by
    rwa [List.length_nil, Nat.zero_add]
  exact readDataLoop_cut_wire hlines hmax' hp hne hcs

/-- `a` and the beginning of `.b`, sent as `..b`. -/
theorem readData_cut_in_line : ¬CutAfterDot [[97], [dot, 98]] [97, LF, dot, dot, 98] ∧ ∀ d r,
    readData 5 ⟨[⟨[97, LF, dot], by simp⟩, ⟨[dot, 98], by simp⟩], .eof⟩ = (.ok (.complete d), r) →
      d = lfBody [[97], [dot, 98]] := by
  have hcut : ¬CutAfterDot [[97], [dot, 98]] [97, LF, dot, dot, 98] := by
    rintro ⟨lines₁, l, lines₂, -, -, hp⟩
    have hlast := congrArg List.getLast? hp
    simp [dot] at hlast
  exact ⟨hcut, (readData_cut_iff [[97], [dot, 98]] (by decide) 5 (by decide) [97, LF, dot, dot, 98]
    (by decide) (by decide) _ rfl).mpr hcut⟩

/-- The stream ends after the first dot of `..b`: what came before it is taken for the message. -/
theorem not_readData_cut : ¬∀ (lines : List (List UInt8)) (max : Nat) (p : List UInt8)
    (cs : List (Chunk UInt8)), (∀ l ∈ lines, LF ∉ l) → (lfBody lines).length ≤ max →
    p <+: wire lines → p ≠ wire lines → flat cs = p →
    ∀ d r, readData max ⟨cs, .eof⟩ = (.ok (.complete d), r) → d = lfBody lines := by
  intro H
  have hread : readData 5 ⟨[⟨[97, LF, dot], by simp⟩], .eof⟩ =
      (.ok (.complete [97, LF]), ⟨[], .eof⟩) := by
    decide +kernel
  have heq := H [[97], [dot, 98]] 5 [97, LF, dot] _ (by decide) (by decide) (by decide) (by decide)
    rfl _ _ hread
  simp [lfBody] at heq

end AnonyMail.Smtp
