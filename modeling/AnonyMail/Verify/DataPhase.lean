import AnonyMail.Smtp.ReadData

/-! # The DATA phase on the bytes of the stream

`read_line` sees the pieces in which the stream arrives, a sender and the protocol know only its
bytes. The first part of this module says what one call of `read_line` does to a line of the
stream, depending on where the pieces end (`readLine_line`, `readLine_split`, `readLine_giveUp`).

The second part follows `read_data` line by line. `EndsAt` is where the DATA phase ends on the
bytes, and `DotCut` is the way in which the pieces of an over-long line can hide that end. -/

namespace AnonyMail.Smtp

open ChunkReader

/-! ## Where the DATA phase ends -/

/-- The first line of `s` that is a lone dot is followed by `t`. -/
inductive EndsAt : List UInt8 → List UInt8 → Prop
  | here : LF ∉ l → isTerminator (l ++ [LF]) → EndsAt (l ++ LF :: t) t
  | later : LF ∉ l → ¬isTerminator (l ++ [LF]) → EndsAt s t → EndsAt (l ++ LF :: s) t

/-- Before the first lone dot there is a line of more than `cap` bytes, its LF included. -/
inductive LongLine (cap : Nat) : List UInt8 → Prop
  | here : LF ∉ l → ¬isTerminator (l ++ [LF]) → l.length + 1 > cap → LongLine cap (l ++ LF :: s)
  | later : LF ∉ l → ¬isTerminator (l ++ [LF]) → LongLine cap s → LongLine cap (l ++ LF :: s)

/-- The pieces after the first line. -/
def dropLine : List (Chunk UInt8) → List (Chunk UInt8)
  | [] => []
  | c :: cs =>
    match c.1.findIdx? (· == LF) with
    | some pos => consume (pos + 1) (c :: cs)
    | none => dropLine cs

/-- The first line starts with whole pieces of which the reader gives up the last one, and all
that is left of the line is a dot. -/
def CutBeforeDot (cap : Nat) (cs : List (Chunk UInt8)) : Prop :=
  ∃ ps vs, cs = ps ++ vs ∧ ps ≠ [] ∧ (∀ p ∈ ps, LF ∉ p.1) ∧ held cap 0 ps = 0 ∧
    ∃ l t, LF ∉ l ∧ isTerminator (l ++ [LF]) ∧ flat vs = l ++ LF :: t

/-- Some line before the first lone dot is cut so. -/
inductive DotCut (cap : Nat) : List (Chunk UInt8) → Prop
  | here : CutBeforeDot cap cs → DotCut cap cs
  | later : flat cs = l ++ LF :: s → LF ∉ l → ¬isTerminator (l ++ [LF]) →
    DotCut cap (dropLine cs) → DotCut cap cs

variable {cs ps vs rest : List (Chunk UInt8)} {c : Chunk UInt8} {q w l s t buf data : List UInt8}
  {cap max : Nat} {tail : Tail} {tl : Bool} {r r' : Reader}

/-! ## One call of `read_line` -/

theorem readLineLoop_append (h : ∀ p ∈ ps, LF ∉ p.1) :
    readLineLoop cap tail buf (ps ++ cs) =
      match giveUp cap buf.length ps with
      | some ps' => (.ok .tooLong, ⟨ps' ++ cs, tail⟩)
      | none => readLineLoop cap tail (buf ++ flat ps) cs := by
  induction ps generalizing buf with
  | nil => simp [giveUp]
  | cons p ps ih =>
    have hp : p.1.findIdx? (· == LF) = none :=
      findIdx?_eq_none_of_not_mem (h p List.mem_cons_self)
    rw [List.cons_append, readLineLoop, giveUp]
    simp only [hp]
    split
    · rfl
    · rw [ih fun x hx => h x (List.mem_cons_of_mem _ hx), List.length_append, flat_cons,
        List.append_assoc]

theorem findIdx?_chunk (H : Split LF cs ps c rest q w) :
    c.1.findIdx? (· == LF) = some q.length := by
  rw [H.chunk]
  exact findIdx?_append_cons H.free_last

theorem dropLine_append (h : ∀ p ∈ ps, LF ∉ p.1) : dropLine (ps ++ cs) = dropLine cs := by
  induction ps with
  | nil => rfl
  | cons p ps ih =>
    have hp : p.1.findIdx? (· == LF) = none :=
      findIdx?_eq_none_of_not_mem (h p List.mem_cons_self)
    rw [List.cons_append, dropLine, hp]
    exact ih fun x hx => h x (List.mem_cons_of_mem _ hx)

theorem dropLine_eq (H : Split LF cs ps c rest q w) :
    dropLine cs = consume (q.length + 1) (c :: rest) := by
  rw [H.eq, dropLine_append H.free, dropLine, findIdx?_chunk H]

theorem mem_of_eq (h : flat cs = l ++ LF :: t) : LF ∈ flat cs := by simp [h]

theorem flat_dropLine (hl : LF ∉ l) (h : flat cs = l ++ LF :: t) : flat (dropLine cs) = t := by
  obtain ⟨ps, c, rest, q, w, H⟩ := exists_split (mem_of_eq h)
  rw [dropLine_eq H, H.flat_after]
  exact (H.line_eq hl h).2.symm

/-- The pieces before the one with the LF fit: the whole line is taken. -/
theorem readLine_split (H : Split LF cs ps c rest q w) (hg : giveUp cap 0 ps = none) (tail : Tail) :
    readLine ⟨cs, tail⟩ cap =
      (.ok (if (flat ps ++ q).length + 1 > cap then .tooLong else .line (flat ps ++ q ++ [LF])),
        ⟨dropLine cs, tail⟩) := by
  have htake : c.1.take (q.length + 1) = q ++ [LF] := by
    rw [H.chunk, List.take_length_add_append]
    rfl
  have hlen : (flat ps).length + (q.length + 1) = (flat ps ++ q).length + 1 := by
    rw [List.length_append]; omega
  rw [readLine, dropLine_eq H]
  show readLineLoop cap tail [] cs = _
  rw [H.eq, readLineLoop_append H.free, List.length_nil, hg]
  simp only [List.nil_append, readLineLoop, findIdx?_chunk H, htake, hlen]
  split <;> simp

/-- The pieces before the one with the LF do not fit: the line is given up in the middle. -/
theorem readLine_giveUp (H : Split LF cs ps c rest q w) (hg : giveUp cap 0 ps = some ps') :
    readLine ⟨cs, tail⟩ cap = (.ok .tooLong, ⟨ps' ++ c :: rest, tail⟩) := by
  rw [readLine]
  show readLineLoop cap tail [] cs = _
  rw [H.eq, readLineLoop_append H.free, List.length_nil, hg]

theorem giveUp_eq_none (h : n + (flat ps).length ≤ cap) : giveUp cap n ps = none := by
  induction ps generalizing n with
  | nil => rfl
  | cons p ps ih =>
    rw [flat_cons, List.length_append] at h
    rw [giveUp, if_neg (by omega), ih (by omega)]

/-- A line that fits is read as it stands, whatever the pieces are. -/
theorem readLine_line (hl : LF ∉ l) (h : flat cs = l ++ LF :: t) (hcap : l.length + 1 ≤ cap) :
    readLine ⟨cs, tail⟩ cap = (.ok (.line (l ++ [LF])), ⟨dropLine cs, tail⟩) := by
  obtain ⟨ps, c, rest, q, w, H⟩ := exists_split (mem_of_eq h)
  obtain ⟨rfl, -⟩ := H.line_eq hl h
  rw [List.length_append] at hcap
  have hfit : 0 + (flat ps).length ≤ cap := by omega
  rw [readLine_split H (giveUp_eq_none hfit) tail, if_neg (by rw [List.length_append]; omega)]

/-! ## The loop of `read_data` -/

theorem readDataLoop_tooLong (h : readLine r (max + 4) = (.ok .tooLong, r')) :
    readDataLoop max data tl r = readDataLoop max [] true r' := by
  rw [readDataLoop]
  split <;> simp_all

theorem readDataLoop_line (h : readLine r (max + 4) = (.ok (.line l), r')) :
    readDataLoop max data tl r =
      if isTerminator l then (.ok (if tl then .tooLarge else .complete data), r')
      else if tl then readDataLoop max data true r'
      else if data.length + (unstuff l).length > max then readDataLoop max [] true r'
      else readDataLoop max (data ++ unstuff l) false r' := by
  rw [readDataLoop]
  split <;> simp_all

theorem isTerminator_iff : isTerminator (l ++ [LF]) ↔ l = [dot] ∨ l = [dot, CR] := by
  have hstrip : stripEol (l ++ [LF]) = if l.getLast? = some CR then l.dropLast else l := by
    simp [stripEol]
  rw [isTerminator, hstrip, beq_iff_eq]
  split
  · next h =>
    obtain ⟨m, rfl⟩ := List.getLast?_eq_some_iff.mp h
    rw [List.dropLast_concat]
    constructor
    · rintro rfl; exact .inr rfl
    · rintro (h | h)
      · exact absurd (List.append_eq_singleton_iff.mp h) (by simp [CR, dot])
      · have hcat : m ++ [CR] = [dot] ++ [CR] := h
        exact List.append_cancel_right hcat
  · next h =>
    refine ⟨.inl, ?_⟩
    rintro (h' | rfl)
    · exact h'
    · exact absurd rfl h

theorem isTerminator_length (h : isTerminator (l ++ [LF])) : l.length ≤ 2 := by
  rcases isTerminator_iff.mp h with rfl | rfl <;> simp

/-! ## Following the lines -/

theorem EndsAt.length_lt (h : EndsAt s t) : t.length < s.length := by
  induction h with
  | here => simp; omega
  | later _ _ _ ih => simp; omega

theorem EndsAt.inv (h : EndsAt s t) : ∃ l s', LF ∉ l ∧ s = l ++ LF :: s' ∧
    (isTerminator (l ++ [LF]) ∧ t = s' ∨ ¬isTerminator (l ++ [LF]) ∧ EndsAt s' t) := by
  cases h with
  | here hl hd => exact ⟨_, _, hl, rfl, .inl ⟨hd, rfl⟩⟩
  | later hl hd h => exact ⟨_, _, hl, rfl, .inr ⟨hd, h⟩⟩

theorem CutBeforeDot.not_isTerminator (hcut : CutBeforeDot cap cs) (hl : LF ∉ l)
    (h : flat cs = l ++ LF :: t) : ¬isTerminator (l ++ [LF]) := by
  obtain ⟨ps, vs, rfl, hne, hfree, -, l', t', hl', hdot, hvs⟩ := hcut
  have hpos := flat_length_pos hne
  have hfree' : LF ∉ flat ps ++ l' := by
    simp only [List.mem_append, flat, List.mem_flatMap, hl', or_false]
    rintro ⟨x, hx, hd⟩
    exact hfree x hx hd
  have hline : flat ps ++ l' ++ LF :: t' = l ++ LF :: t := by
    rw [List.append_assoc, ← hvs, ← flat_append, h]
  obtain ⟨rfl, -⟩ := append_cons_inj hfree' hl hline
  rw [isTerminator_iff] at hdot ⊢
  obtain ⟨x, xs, hps⟩ := List.exists_cons_of_length_pos hpos
  rw [hps]
  rcases hdot with rfl | rfl <;> cases xs <;> simp [CR, dot]

/-- An over-long line that is cut before its final dot ends the DATA phase. -/
theorem readDataLoop_cut (hcut : CutBeforeDot (max + 4) cs) (data : List UInt8) (tl : Bool)
    (tail : Tail) :
    ∃ out, readDataLoop max data tl ⟨cs, tail⟩ = (.ok out, ⟨dropLine cs, tail⟩) := by
  obtain ⟨ps, vs, rfl, hne, hfree, hheld, l, t, hl, hdot, hvs⟩ := hcut
  have hdrop : dropLine (ps ++ vs) = dropLine vs := dropLine_append hfree
  rw [hdrop]
  clear hdrop
  induction hn : ps.length using Nat.strongRecOn generalizing ps data tl with
  | _ n ih =>
  cases hg : giveUp (max + 4) 0 ps with
  | none =>
    have hpos := flat_length_pos hne
    have := held_of_giveUp_eq_none hg
    omega
  | some ps' =>
    obtain ⟨p, qs, rfl, hheld', -⟩ := held_of_giveUp hg
    have hread :
        readLine ⟨p :: qs ++ ps' ++ vs, tail⟩ (max + 4) = (.ok .tooLong, ⟨ps' ++ vs, tail⟩) := by
      rw [readLine]
      show readLineLoop _ tail [] _ = _
      rw [readLineLoop_append hfree, List.length_nil, hg]
    rw [readDataLoop_tooLong hread]
    by_cases hps' : ps' = []
    · subst hps'
      have hshort : l.length + 1 ≤ max + 4 := by
        have := isTerminator_length hdot
        omega
      rw [List.nil_append, readDataLoop_line (readLine_line hl hvs hshort), if_pos hdot]
      exact ⟨_, rfl⟩
    · refine ih ps'.length ?_ _ _ ps' hps' (fun x hx => hfree x (List.mem_append_right _ hx)) ?_ rfl
      · rw [← hn]
        simp only [List.length_append, List.length_cons]
        omega
      · rw [← hheld', hheld]

/-- Pieces at the end of which the reader starts over do not matter. -/
theorem CutBeforeDot.append (hcut : CutBeforeDot cap cs) (hfree : ∀ p ∈ ps, LF ∉ p.1)
    (hheld : held cap 0 ps = 0) : CutBeforeDot cap (ps ++ cs) := by
  obtain ⟨ps₁, vs, rfl, hne, hfree₁, hheld₁, hend⟩ := hcut
  refine ⟨ps ++ ps₁, vs, (List.append_assoc ..).symm, ?_, fun x hx => ?_, ?_, hend⟩
  · exact List.append_ne_nil_of_right_ne_nil ps hne
  · rcases List.mem_append.mp hx with hx | hx
    · exact hfree x hx
    · exact hfree₁ x hx
  · rw [held_append, hheld, hheld₁]

/-- A line that one call of `read_line` takes to its end. -/
theorem readDataLoop_split (H : Split LF cs ps c rest q w) (hg : giveUp (max + 4) 0 ps = none)
    (hdot : ¬isTerminator (flat ps ++ q ++ [LF])) (data : List UInt8) (tl : Bool) (tail : Tail) :
    ∃ data' tl', readDataLoop max data tl ⟨cs, tail⟩ =
        readDataLoop max data' tl' ⟨dropLine cs, tail⟩ ∧
      (tl = true ∨ (flat ps ++ q).length + 1 > max + 4 → tl' = true) := by
  have hread := readLine_split H hg tail
  by_cases hlong : (flat ps ++ q).length + 1 > max + 4
  · rw [if_pos hlong] at hread
    exact ⟨[], true, readDataLoop_tooLong hread, fun _ => rfl⟩
  · rw [if_neg hlong] at hread
    rw [readDataLoop_line hread, if_neg hdot]
    cases tl with
    | true => exact ⟨data, true, rfl, fun _ => rfl⟩
    | false =>
      rw [if_neg Bool.false_ne_true]
      split
      · exact ⟨[], true, rfl, fun _ => rfl⟩
      · exact ⟨_, false, rfl, fun h => (h.elim Bool.false_ne_true hlong).elim⟩

/-- A line that is not cut so is read to its end, in one or in several calls of `read_line`. -/
theorem readDataLoop_uncut (hcut : ¬CutBeforeDot (max + 4) cs) (hl : LF ∉ l)
    (h : flat cs = l ++ LF :: t) (hdot : ¬isTerminator (l ++ [LF])) (data : List UInt8) (tl : Bool)
    (tail : Tail) :
    ∃ data' tl', readDataLoop max data tl ⟨cs, tail⟩ =
        readDataLoop max data' tl' ⟨dropLine cs, tail⟩ ∧
      (tl = true ∨ l.length + 1 > max + 4 → tl' = true) := by
  obtain ⟨ps, c, rest, q, w, H⟩ := exists_split (mem_of_eq h)
  obtain ⟨rfl, rfl⟩ := H.line_eq hl h
  clear h
  induction hn : ps.length using Nat.strongRecOn generalizing ps cs data tl with
  | _ n ih =>
  cases hg : giveUp (max + 4) 0 ps with
  | none => exact readDataLoop_split H hg hdot data tl tail
  | some ps' =>
    rw [readDataLoop_tooLong (readLine_giveUp H hg)]
    obtain ⟨p, qs, rfl, -, hheld⟩ := held_of_giveUp hg
    have hfree : ∀ x ∈ ps', LF ∉ x.1 := fun x hx => H.free x (List.mem_append_right _ hx)
    have H' : Split LF (ps' ++ c :: rest) ps' c rest q w := ⟨rfl, hfree, H.chunk, H.free_last⟩
    have hcs : cs = p :: qs ++ (ps' ++ c :: rest) := by rw [H.eq, List.append_assoc]
    have hpqs : ∀ x ∈ p :: qs, LF ∉ x.1 := fun x hx => H.free x (List.mem_append_left _ hx)
    have hdot' : ¬isTerminator (flat ps' ++ q ++ [LF]) := fun hd =>
      hcut ⟨p :: qs, _, hcs, by simp, hpqs, hheld, _, _, H'.not_mem, hd, H'.flat_eq⟩
    have hcut' : ¬CutBeforeDot (max + 4) (ps' ++ c :: rest) := fun h =>
      hcut (hcs ▸ h.append hpqs hheld)
    have hlt : ps'.length < n := by
      rw [← hn]
      simp only [List.length_append, List.length_cons]
      omega
    obtain ⟨data', tl', heq, htl⟩ := ih ps'.length hlt hcut' [] true ps' H' H'.not_mem hdot' rfl
    refine ⟨data', tl', ?_, fun _ => htl (.inl rfl)⟩
    rw [heq, dropLine_eq H, dropLine_eq H']

/-- `read_data` stops right after the first lone dot, and reports a message with an over-long line
as too large. -/
def InSync (max : Nat) (r : Reader) : Prop :=
  ∀ t, EndsAt (flat r.chunks) t →
    ∃ out cs', readData max r = (.ok out, ⟨cs', r.tail⟩) ∧ flat cs' = t ∧
      (LongLine (max + 4) (flat r.chunks) → out = .tooLarge)

theorem LongLine.inv (h : LongLine cap (l ++ LF :: s)) (hl : LF ∉ l) :
    ¬isTerminator (l ++ [LF]) ∧ (l.length + 1 > cap ∨ LongLine cap s) := by
  generalize hs : l ++ LF :: s = s' at h
  cases h with
  | here hl' hd hlong =>
    obtain ⟨rfl, rfl⟩ := append_cons_inj hl hl' hs
    exact ⟨hd, .inl hlong⟩
  | later hl' hd h =>
    obtain ⟨rfl, rfl⟩ := append_cons_inj hl hl' hs
    exact ⟨hd, .inr h⟩

theorem readDataLoop_of_not_dotCut (h : EndsAt s t) (hcs : flat cs = s)
    (hcut : ¬DotCut (max + 4) cs) (data : List UInt8) (tl : Bool) (tail : Tail) :
    ∃ out cs', readDataLoop max data tl ⟨cs, tail⟩ = (.ok out, ⟨cs', tail⟩) ∧ flat cs' = t ∧
      (tl = true ∨ LongLine (max + 4) s → out = .tooLarge) := by
  induction h generalizing cs data tl with
  | here hl hdot =>
    have hshort := isTerminator_length hdot
    rw [readDataLoop_line (readLine_line hl hcs (by omega)), if_pos hdot]
    refine ⟨_, _, rfl, flat_dropLine hl hcs, ?_⟩
    rintro (rfl | hlong)
    · rfl
    · exact absurd hdot (hlong.inv hl).1
  | later hl hdot _ ih =>
    obtain ⟨data', tl', heq, htl⟩ := readDataLoop_uncut (fun hc => hcut (.here hc)) hl hcs hdot
      data tl tail
    obtain ⟨out, cs', hread, hrest, hout⟩ := ih (flat_dropLine hl hcs)
      (fun hc => hcut (.later hcs hl hdot hc)) data' tl'
    refine ⟨out, cs', heq.trans hread, hrest, fun hlong => hout ?_⟩
    rcases hlong with htl' | hlong
    · exact .inl (htl (.inl htl'))
    · rcases (hlong.inv hl).2 with hl' | hlong
      · exact .inl (htl (.inr hl'))
      · exact .inr hlong

/-- A cut stops `read_data` before the first lone dot. -/
theorem readDataLoop_of_dotCut (hcut : DotCut (max + 4) cs) (h : EndsAt (flat cs) t)
    (data : List UInt8) (tl : Bool) (tail : Tail) :
    ∃ out cs', readDataLoop max data tl ⟨cs, tail⟩ = (.ok out, ⟨cs', tail⟩) ∧
      t.length < (flat cs').length := by
  induction hcut generalizing data tl t with
  | here hcut =>
    obtain ⟨l, s, hl, hs, ⟨hdot, -⟩ | ⟨-, h'⟩⟩ := h.inv
    · exact absurd hdot (hcut.not_isTerminator hl hs)
    · obtain ⟨out, heq⟩ := readDataLoop_cut hcut data tl tail
      exact ⟨out, _, heq, by rw [flat_dropLine hl hs]; exact h'.length_lt⟩
  | @later cs l s hcs hl hdot _ ih =>
    obtain ⟨l', s', hl', hs, ⟨hdot', -⟩ | ⟨-, h'⟩⟩ := h.inv
    · obtain ⟨rfl, -⟩ := append_cons_inj hl hl' (hcs.symm.trans hs)
      exact absurd hdot' hdot
    · by_cases hcut : CutBeforeDot (max + 4) cs
      · obtain ⟨out, heq⟩ := readDataLoop_cut hcut data tl tail
        exact ⟨out, _, heq, by rw [flat_dropLine hl' hs]; exact h'.length_lt⟩
      · obtain ⟨data', tl', heq, -⟩ := readDataLoop_uncut hcut hl hcs hdot data tl tail
        rw [heq]
        exact ih (by rw [flat_dropLine hl' hs]; exact h') data' tl'

/-- `read_data` is in sync with the sender exactly on the streams in which no over-long line is
cut right before a final dot. -/
theorem readData_inSync_iff (max : Nat) (r : Reader) :
    InSync max r ↔ ((∃ t, EndsAt (flat r.chunks) t) → ¬DotCut (max + 4) r.chunks) := by
  constructor
  · rintro hsync ⟨t, ht⟩ hcut
    obtain ⟨out, cs', hread, hrest, -⟩ := hsync t ht
    obtain ⟨out', cs'', hread', hlt⟩ := readDataLoop_of_dotCut hcut ht [] false r.tail
    rw [readData] at hread
    obtain ⟨-, hcs⟩ := Prod.ext_iff.mp (hread.symm.trans hread')
    cases hcs
    rw [hrest] at hlt
    exact Nat.lt_irrefl _ hlt
  · intro hcut t ht
    obtain ⟨out, cs', hread, hrest, hout⟩ := 
      readDataLoop_of_not_dotCut ht rfl (hcut ⟨t, ht⟩) [] false r.tail
    exact ⟨out, cs', hread, hrest, fun hlong => hout (.inr hlong)⟩

/-- `aaaaa.` in two pieces, then a line and the lone dot: with a cap of 4 bytes the reader gives up
the first piece and takes the second one for the end of the message. -/
def cutStream : Reader :=
  ⟨[⟨[97, 97, 97, 97, 97], by simp⟩, ⟨[dot, CR, LF], by simp⟩,
    ⟨[98, CR, LF, dot, CR, LF, 99], by simp⟩], .eof⟩

theorem not_inSync_cutStream : ¬InSync 0 cutStream := by
  intro h
  have hends : EndsAt (flat cutStream.chunks) [99] :=
    .later (l := [97, 97, 97, 97, 97, dot, CR]) (s := [98, CR, LF, dot, CR, LF, 99])
      (by decide) (by decide)
      (.later (l := [98, CR]) (s := [dot, CR, LF, 99]) (by decide) (by decide)
        (.here (l := [dot, CR]) (by decide) (by decide)))
  obtain ⟨out, cs', hread, hrest, -⟩ := h _ hends
  have hstop : readData 0 cutStream =
      (.ok .tooLarge, ⟨[⟨[98, CR, LF, dot, CR, LF, 99], by simp⟩], .eof⟩) := by decide +kernel
  rw [hstop] at hread
  cases hread
  exact absurd hrest (by decide)

end AnonyMail.Smtp
