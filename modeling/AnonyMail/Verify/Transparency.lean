import AnonyMail.Verify.DataPhase

/-! # Transparency of the DATA phase

A sender terminates lines with CRLF and puts a dot before each such line that starts with one;
`read_data` splits at every LF, as the unit tests of `is_terminator` and `strip_eol` ask for. The
two agree on a message exactly when no line of it has an LF right before a dot.

`Decodes` is what `read_data` computes from the bytes of a stream whose lines all fit, and
`Gives cap s ok b r` says that `s` decodes to the message `b` followed by `r` if `ok` holds, and
to a shorter message if it does not. -/

namespace AnonyMail.Smtp

open ChunkReader

/-- The message with the given lines. -/
def body (lines : List (List UInt8)) : List UInt8 := lines.flatMap (· ++ [CR, LF])

/-- The transparency procedure of RFC 5321 for one line. -/
def stuff (line : List UInt8) : List UInt8 := if line.head? = some dot then dot :: line else line

def encode (lines : List (List UInt8)) : List UInt8 :=
  lines.flatMap fun line => stuff line ++ [CR, LF]

/-- What `read_data` makes of the lines of `s` up to the first lone dot. -/
inductive Decodes (cap : Nat) : List UInt8 → List UInt8 → List UInt8 → Prop
  | stop : LF ∉ l → isTerminator (l ++ [LF]) → Decodes cap (l ++ LF :: r) [] r
  | line : LF ∉ l → ¬isTerminator (l ++ [LF]) → l.length + 1 ≤ cap → Decodes cap s b r →
    Decodes cap (l ++ LF :: s) (unstuff (l ++ [LF]) ++ b) r

def Gives (cap : Nat) (s : List UInt8) (ok : Prop) (b r : List UInt8) : Prop :=
  ∃ b' r', Decodes cap s b' r' ∧ (ok ∧ b' = b ∧ r' = r ∨ ¬ok ∧ b'.length < b.length)

variable {cs : List (Chunk UInt8)} {p l s b r data : List UInt8} {cap max : Nat} {ok : Prop}

theorem readDataLoop_decodes (h : Decodes (max + 4) s b r) (hcs : flat cs = s)
    (data : List UInt8) (hmax : data.length + b.length ≤ max) (tail : Tail) :
    ∃ cs', readDataLoop max data false ⟨cs, tail⟩ = (.ok (.complete (data ++ b)), ⟨cs', tail⟩) ∧
      flat cs' = r := by
  induction h generalizing cs data with
  | stop hl hdot =>
    have hshort := isTerminator_length hdot
    rw [readDataLoop_line (readLine_line hl hcs (by omega)), if_pos hdot]
    exact ⟨_, by simp, flat_dropLine hl hcs⟩
  | line hl hdot hcap _ ih =>
    rw [List.length_append] at hmax
    rw [readDataLoop_line (readLine_line hl hcs hcap), if_neg hdot, if_neg Bool.false_ne_true,
      if_neg (by omega), ← List.append_assoc]
    exact ih (flat_dropLine hl hcs) _ (by rw [List.length_append]; omega)

/-! ## One line -/

theorem unstuff_of_head_ne (h : l.head? ≠ some dot) : unstuff (l ++ [LF]) = l ++ [LF] := by
  cases l with
  | nil => rfl
  | cons x l => exact if_neg h

theorem head_of_isTerminator (h : isTerminator (l ++ [LF])) : l.head? = some dot := by
  rcases isTerminator_iff.mp h with rfl | rfl <;> rfl

theorem Gives.line (h : Gives cap s ok b r) (hp : LF ∉ p) (hcap : p.length + 1 ≤ cap) :
    Gives cap (p ++ LF :: s) (p.head? ≠ some dot ∧ ok) (p ++ LF :: b) r := by
  obtain ⟨b', r', hdec, hres⟩ := h
  by_cases hdot : isTerminator (p ++ [LF])
  · have hhead := head_of_isTerminator hdot
    refine ⟨[], s, .stop hp hdot, .inr ⟨fun h => h.1 hhead, ?_⟩⟩
    simp only [List.length_append, List.length_cons, List.length_nil]
    omega
  refine ⟨_, r', .line hp hdot hcap hdec, ?_⟩
  by_cases hhead : p.head? = some dot
  · obtain ⟨p, rfl⟩ := List.head?_eq_some_iff.mp hhead
    have hlen : b'.length ≤ b.length := by
      rcases hres with ⟨-, rfl, -⟩ | ⟨-, hlt⟩
      · exact Nat.le_refl _
      · exact Nat.le_of_lt hlt
    refine .inr ⟨fun h => h.1 hhead, ?_⟩
    simp [unstuff]
    omega
  · rw [unstuff_of_head_ne hhead]
    rcases hres with ⟨hok, rfl, rfl⟩ | ⟨hok, hlt⟩
    · exact .inl ⟨⟨hhead, hok⟩, by simp, rfl⟩
    · exact .inr ⟨fun h => hok h.2, by simp; omega⟩

/-- A line that the sender has put a dot before. -/
theorem Gives.stuffed (h : Gives cap s ok b r) (hp : LF ∉ p) (hhead : p.head? = some dot)
    (hcap : p.length + 2 ≤ cap) : Gives cap (dot :: p ++ LF :: s) ok (p ++ LF :: b) r := by
  obtain ⟨b', r', hdec, hres⟩ := h
  have hne : LF ∉ dot :: p := by simpa [LF, dot] using hp
  have hdot : ¬isTerminator (dot :: p ++ [LF]) := by
    obtain ⟨p, rfl⟩ := List.head?_eq_some_iff.mp hhead
    rw [isTerminator_iff]
    simp [CR, dot]
  refine ⟨_, r', .line hne hdot hcap hdec, ?_⟩
  have hunstuff : unstuff (dot :: p ++ [LF]) = p ++ [LF] := by simp [unstuff]
  rw [hunstuff]
  rcases hres with ⟨hok, rfl, rfl⟩ | ⟨hok, hlt⟩
  · exact .inl ⟨hok, by simp, rfl⟩
  · exact .inr ⟨hok, by simp; omega⟩

/-! ## Lines with an LF inside -/

/-- An LF stands right before a dot. -/
def LfDot (l : List UInt8) : Prop := [LF, dot] <:+: l

theorem lfDot_append_cons (hp : LF ∉ p) :
    LfDot (p ++ LF :: l) ↔ l.head? = some dot ∨ LfDot l := by
  induction p with
  | nil =>
    rw [LfDot, List.nil_append, List.infix_cons_iff]
    refine or_congr ?_ .rfl
    cases l <;> simp [List.cons_prefix_cons, eq_comm]
  | cons x p ih =>
    have hx : LF ≠ x := List.ne_of_not_mem_cons hp
    rw [LfDot, List.cons_append, List.infix_cons_iff, ← ih (List.not_mem_of_not_mem_cons hp)]
    simp [List.cons_prefix_cons, hx, LfDot]

theorem not_lfDot_of_not_mem (hl : LF ∉ l) : ¬LfDot l := fun h => hl (h.subset (by simp))

theorem Gives.congr {ok' : Prop} (h : Gives cap s ok b r) (hok : ok ↔ ok') :
    Gives cap s ok' b r := by
  rwa [← propext hok]

/-- A line as it is sent when it does not start with a dot. -/
theorem Gives.plain (h : Gives cap s ok b r) (l : List UInt8) (hcap : l.length + 2 ≤ cap) :
    Gives cap (l ++ [CR, LF] ++ s) ((l.head? ≠ some dot ∧ ¬LfDot l) ∧ ok) (l ++ [CR, LF] ++ b) r := by
  induction hn : l.length using Nat.strongRecOn generalizing l with
  | _ n ih =>
  by_cases hl : LF ∈ l
  · obtain ⟨p, l', rfl, hp⟩ := List.eq_append_cons_of_mem hl
    have hlen : (p ++ LF :: l').length = p.length + 1 + l'.length := by simp; omega
    have h' := (ih l'.length (by omega) l' (by omega) rfl).line hp (by omega)
    simp only [List.append_assoc, List.cons_append] at h' ⊢
    refine h'.congr ?_
    have hhead : (p ++ LF :: l').head? = some dot ↔ p.head? = some dot := by
      cases p <;> simp [LF, dot]
    rw [lfDot_append_cons hp, Ne, Ne, Ne, hhead]
    tauto
  · have hne : LF ∉ l ++ [CR] := by simpa [LF, CR] using hl
    have h' := h.line hne (by rw [List.length_append]; exact hcap)
    simp only [List.append_assoc, List.cons_append, List.nil_append] at h' ⊢
    refine h'.congr ?_
    have hhead : (l ++ [CR]).head? = some dot ↔ l.head? = some dot := by
      cases l <;> simp [CR, dot]
    rw [Ne, Ne, hhead]
    simp [not_lfDot_of_not_mem hl]

/-- A line as the sender sends it. -/
theorem Gives.stuff (h : Gives cap s ok b r) (l : List UInt8) (hcap : l.length + 3 ≤ cap) :
    Gives cap (stuff l ++ [CR, LF] ++ s) (¬LfDot l ∧ ok) (l ++ [CR, LF] ++ b) r := by
  by_cases hhead : l.head? = some dot
  · rw [Smtp.stuff, if_pos hhead]
    by_cases hl : LF ∈ l
    · obtain ⟨p, l', rfl, hp⟩ := List.eq_append_cons_of_mem hl
      have hlen : (p ++ LF :: l').length = p.length + 1 + l'.length := by simp; omega
      have hhead' : p.head? = some dot := by
        cases p with
        | nil => simp [LF, dot] at hhead
        | cons x p => exact hhead
      have h' := (h.plain l' (by omega)).stuffed hp hhead' (by omega)
      simp only [List.append_assoc, List.cons_append] at h' ⊢
      refine h'.congr ?_
      rw [lfDot_append_cons hp]
      tauto
    · have hne : LF ∉ l ++ [CR] := by simpa [LF, CR] using hl
      have hhead' : (l ++ [CR]).head? = some dot := by
        cases l with
        | nil => cases hhead
        | cons x l => exact hhead
      have h' := h.stuffed hne hhead' (by simpa using hcap)
      simp only [List.append_assoc, List.cons_append, List.nil_append] at h' ⊢
      refine h'.congr ?_
      simp [not_lfDot_of_not_mem hl]
  · rw [Smtp.stuff, if_neg hhead]
    refine (h.plain l (by omega)).congr ?_
    tauto

theorem gives_terminator : Gives cap ([dot, CR, LF] ++ r) True [] r :=
  ⟨[], r, .stop (l := [dot, CR]) (by decide) (by decide), .inl ⟨trivial, rfl, rfl⟩⟩

theorem gives_encode (lines : List (List UInt8)) (hcap : (body lines).length + 3 ≤ cap) :
    Gives cap (encode lines ++ ([dot, CR, LF] ++ r)) (∀ l ∈ lines, ¬LfDot l) (body lines) r := by
  induction lines with
  | nil => exact gives_terminator.congr (by simp)
  | cons l lines ih =>
    have hlen : (body (l :: lines)).length = l.length + 2 + (body lines).length := by
      rw [body, List.flatMap_cons, ← body, List.length_append, List.length_append]
      rfl
    have h := (ih (by omega)).stuff l (by omega)
    rw [encode, List.flatMap_cons, ← encode, body, List.flatMap_cons, ← body, List.append_assoc]
    exact h.congr (by simp)

/-- A message of at most `max` bytes comes back byte for byte, and the stream is left right after
the terminating dot, exactly when no line of the message has an LF right before a dot. -/
theorem readData_encode_iff (lines : List (List UInt8)) (max : Nat)
    (hmax : (body lines).length ≤ max) (r : List UInt8) (cs : List (Chunk UInt8)) (tail : Tail)
    (hcs : flat cs = encode lines ++ ([dot, CR, LF] ++ r)) :
    (∃ cs', readData max ⟨cs, tail⟩ = (.ok (.complete (body lines)), ⟨cs', tail⟩) ∧ flat cs' = r) ↔
      ∀ l ∈ lines, ¬LfDot l := by
  obtain ⟨b', r', hdec, hres⟩ : Gives (max + 4) (encode lines ++ ([dot, CR, LF] ++ r)) _ _ r :=
    gives_encode lines (by omega)
  have hlen : b'.length ≤ max := by
    rcases hres with ⟨-, rfl, -⟩ | ⟨-, hlt⟩ <;> omega
  obtain ⟨cs', hread, hrest⟩ := readDataLoop_decodes hdec hcs [] (by simpa using hlen) tail
  rw [List.nil_append] at hread
  rw [readData, hread]
  rcases hres with ⟨hok, rfl, rfl⟩ | ⟨hok, hlt⟩
  · exact ⟨fun _ => hok, fun _ => ⟨cs', rfl, hrest⟩⟩
  · refine ⟨?_, fun h => absurd h hok⟩
    rintro ⟨_, h, -⟩
    cases h
    exact absurd hlt (Nat.lt_irrefl _)

/-- `.a`, sent as `..a`, followed by a command. -/
theorem readData_encode_dot_line :
    ∃ cs', readData 4 ⟨[⟨[dot, dot], by simp⟩, ⟨[97, CR, LF, dot, CR, LF, 99], by simp⟩], .eof⟩ =
      (.ok (.complete (body [[dot, 97]])), ⟨cs', .eof⟩) ∧ flat cs' = [99] :=
  (readData_encode_iff [[dot, 97]] 4 (by decide) [99] _ .eof (by decide)).mpr fun l hl => by
    cases List.mem_singleton.mp hl
    exact not_lfDot_of_not_mem (by decide)

/-- The line `a LF . LF b` of a properly encoded message: the message ends inside the line, and
what follows is left to be read as commands. -/
theorem not_transparent_lf_dot :
    ¬∀ (lines : List (List UInt8)) (max : Nat) (r : List UInt8) (cs : List (Chunk UInt8))
      (tail : Tail), (∀ l ∈ lines, ¬[CR, LF] <:+: l) → (body lines).length ≤ max →
      flat cs = encode lines ++ ([dot, CR, LF] ++ r) →
      ∃ cs', readData max ⟨cs, tail⟩ = (.ok (.complete (body lines)), ⟨cs', tail⟩) ∧
        flat cs' = r := by
  intro h
  obtain ⟨cs', hread, -⟩ := h [[97, LF, dot, LF, 98]] 7 []
    [⟨[97, LF, dot, LF, 98, CR, LF, dot, CR, LF], by simp⟩] .eof (by decide) (by decide) (by decide)
  have hstop : readData 7 ⟨[⟨[97, LF, dot, LF, 98, CR, LF, dot, CR, LF], by simp⟩], .eof⟩ =
      (.ok (.complete [97, LF]), ⟨[⟨[98, CR, LF, dot, CR, LF], by simp⟩], .eof⟩) := by
    decide +kernel
  rw [hstop] at hread
  cases hread

end AnonyMail.Smtp
