import AnonyMail.Verify.DataPhase
import AnonyMail.Verify.Session

/-! # How the input of a session is cut

The network cuts the bytes of a client into pieces as it likes. As long as no line of the input reaches
the limit of a line of the DATA phase, the session does not depend on it: it is the same program,
call by call. (A longer line in a DATA body is given up where its pieces end, and where the session
goes on then depends on them.) -/

namespace AnonyMail.Smtp

open Calls ChunkReader

/-- The same bytes, cut into other pieces. -/
structure SameBytes (r r' : Reader) : Prop where
  flat : flat r.chunks = flat r'.chunks
  tail : r.tail = r'.tail

/-- No line has `cap` bytes without its LF; what follows the last LF counts as a line. -/
def LinesBelow (cap : Nat) (b : List UInt8) : Prop := ∀ l, l <:+: b → LF ∉ l → l.length < cap

variable {cs cs' : List (Chunk UInt8)} {l t data : List UInt8} {cap max n : Nat} {tail : Tail}
  {tl : Bool} {r r' : Reader}

theorem LinesBelow.suffix {b b' : List UInt8} (h : LinesBelow cap b) (hb : b' <:+ b) :
    LinesBelow cap b' := fun l hl => h l (hl.trans hb.isInfix)

theorem linesBelow_of_length {b : List UInt8} (h : b.length < cap) : LinesBelow cap b :=
  fun _ hl _ => Nat.lt_of_le_of_lt hl.length_le h

/-! ## One line -/

theorem le_of_giveUp_eq_none {ps : List (Chunk UInt8)} (h : giveUp cap n ps = none) (hn : n ≤ cap) :
    n + (flat ps).length ≤ cap := by
  induction ps generalizing n with
  | nil => exact hn
  | cons p ps ih =>
    unfold giveUp at h
    split at h
    · cases h
    · next hp =>
      have hle := ih h (Nat.le_of_not_lt hp)
      rw [flat_cons, List.length_append]
      omega

theorem readLine_long (hl : LF ∉ l) (h : flat cs = l ++ LF :: t) (hcap : cap < l.length + 1) :
    (readLine ⟨cs, tail⟩ cap).1 = .ok .tooLong := by
  obtain ⟨ps, c, rest, q, w, H⟩ := exists_split (mem_of_eq h)
  obtain ⟨rfl, -⟩ := H.line_eq hl h
  cases hg : giveUp cap 0 ps with
  | none => rw [readLine_split H hg, if_pos hcap]
  | some ps' => rw [readLine_giveUp H hg]

/-- What follows the last LF. -/
theorem readLine_free (h : LF ∉ flat cs) : readLine ⟨cs, tail⟩ cap =
    match giveUp cap 0 cs with
    | some ps => (.ok .tooLong, ⟨ps, tail⟩)
    | none => readLineLoop cap tail (flat cs) [] := by
  have hfree : ∀ p ∈ cs, LF ∉ p.1 := fun p hp hmem => h (List.mem_flatMap.mpr ⟨p, hp, hmem⟩)
  have happend : readLineLoop cap tail [] (cs ++ []) = _ := readLineLoop_append hfree
  rw [List.append_nil] at happend
  rw [readLine, happend]
  cases giveUp cap 0 cs with
  | none => rfl
  | some ps => simp

/-- `read_line` returns the same, and leaves the same bytes unless it has given up. -/
theorem readLine_alike (h : SameBytes r r') (cap : Nat) :
    (readLine r cap).1 = (readLine r' cap).1 ∧
      ((readLine r cap).1 ≠ .ok .tooLong → SameBytes (readLine r cap).2 (readLine r' cap).2) := by
  obtain ⟨cs, tail⟩ := r
  obtain ⟨cs', tail'⟩ := r'
  obtain ⟨hflat, rfl⟩ := h
  dsimp only at hflat ⊢
  by_cases hmem : LF ∈ flat cs
  · obtain ⟨l, t, heq, hl⟩ := List.eq_append_cons_of_mem hmem
    have heq' : flat cs' = l ++ LF :: t := hflat.symm.trans heq
    by_cases hcap : l.length + 1 ≤ cap
    · rw [readLine_line hl heq hcap, readLine_line hl heq' hcap]
      exact ⟨rfl, fun _ => ⟨(flat_dropLine hl heq).trans (flat_dropLine hl heq').symm, rfl⟩⟩
    · rw [readLine_long hl heq (Nat.lt_of_not_le hcap), readLine_long hl heq' (Nat.lt_of_not_le hcap)]
      exact ⟨rfl, fun hne => absurd rfl hne⟩
  · have hmem' : LF ∉ flat cs' := hflat ▸ hmem
    by_cases hcap : (flat cs).length ≤ cap
    · rw [readLine_free hmem, readLine_free hmem', giveUp_eq_none (by omega),
        giveUp_eq_none (by rw [← hflat]; omega), hflat]
      exact ⟨rfl, fun _ => ⟨rfl, rfl⟩⟩
    · have hlong : ∀ {cs : List (Chunk UInt8)}, LF ∉ flat cs → cap < (flat cs).length →
          (readLine ⟨cs, tail⟩ cap).1 = .ok .tooLong := by
        intro cs hmem hlt
        rw [readLine_free hmem]
        cases hg : giveUp cap 0 cs with
        | none =>
          have hle := le_of_giveUp_eq_none hg (Nat.zero_le _)
          omega
        | some ps => rfl
      rw [hlong hmem (Nat.lt_of_not_le hcap), hlong hmem' (hflat ▸ Nat.lt_of_not_le hcap)]
      exact ⟨rfl, fun hne => absurd rfl hne⟩

/-! ## The DATA phase -/

/-- The loop depends on the reader only through its next line. -/
theorem readDataLoop_eq (data : List UInt8) (tl : Bool) (r : Reader) :
    readDataLoop max data tl r = match readLine r (max + 4) with
      | (.error e, r') => (.error e, r')
      | (.ok .eof, r') => (.ok .connectionClosed, r')
      | (.ok .tooLong, r') => readDataLoop max [] true r'
      | (.ok (.line l), r') =>
        if isTerminator l then (.ok (if tl then .tooLarge else .complete data), r')
        else if tl then readDataLoop max data true r'
        else if data.length + (unstuff l).length > max then readDataLoop max [] true r'
        else readDataLoop max (data ++ unstuff l) false r' := by
  rw [readDataLoop]
  split <;> simp_all

theorem readLineLoop_suffix (buf : List UInt8) :
    flat (readLineLoop cap tail buf cs).2.chunks <:+ flat cs := by
  induction cs generalizing buf with
  | nil => cases tail <;> exact List.suffix_refl _
  | cons c cs ih =>
    have hcut (n : Nat) : flat (consume n (c :: cs)) <:+ flat (c :: cs) := by
      rw [flat_consume, flat_cons]
      obtain ⟨q, hq⟩ := List.drop_suffix n c.1
      exact ⟨q, by rw [← List.append_assoc, hq]⟩
    unfold readLineLoop
    split
    · dsimp only
      split <;> exact hcut _
    · split
      · exact List.suffix_append _ _
      · exact (ih _).trans (List.suffix_append _ _)

theorem readLine_suffix {st : Except IoError LineStatus} (h : readLine r cap = (st, r')) :
    flat r'.chunks <:+ flat r.chunks := by
  have hsuffix : flat (readLineLoop cap r.tail [] r.chunks).2.chunks <:+ flat r.chunks :=
    readLineLoop_suffix []
  rwa [show readLineLoop cap r.tail [] r.chunks = (st, r') from h] at hsuffix

/-- What `read_data` leaves is the end of the stream. -/
theorem readDataLoop_suffix (max : Nat) (data : List UInt8) (tl : Bool) (r : Reader) :
    flat (readDataLoop max data tl r).2.chunks <:+ flat r.chunks := by
  fun_induction readDataLoop max data tl r with
  | case1 _ _ _ _ _ h => exact readLine_suffix h
  | case2 _ _ _ _ h => exact readLine_suffix h
  | case3 _ _ _ _ h ih => exact ih.trans (readLine_suffix h)
  | case4 _ _ _ _ _ h => exact readLine_suffix h
  | case5 _ _ _ _ h _ ih => exact ih.trans (readLine_suffix h)
  | case6 _ _ _ _ _ h _ _ _ _ ih => exact ih.trans (readLine_suffix h)
  | case7 _ _ _ _ _ h _ _ _ _ ih => exact ih.trans (readLine_suffix h)

/-- `read_data` returns the same, and leaves the same bytes. -/
theorem readDataLoop_alike (max : Nat) (data : List UInt8) (tl : Bool) (h : SameBytes r r')
    (hlines : LinesBelow (max + 4) (flat r.chunks)) :
    (readDataLoop max data tl r).1 = (readDataLoop max data tl r').1 ∧
      SameBytes (readDataLoop max data tl r).2 (readDataLoop max data tl r').2 := by
  induction hn : (flat r.chunks).length using Nat.strong_induction_on
    generalizing r r' data tl with
  | _ n ih =>
    obtain ⟨cs, tail⟩ := r
    obtain ⟨cs', tail'⟩ := r'
    obtain ⟨hflat, rfl⟩ := h
    dsimp only at hflat hlines hn ⊢
    by_cases hmem : LF ∈ flat cs
    · obtain ⟨l, t, heq, hl⟩ := List.eq_append_cons_of_mem hmem
      have heq' : flat cs' = l ++ LF :: t := hflat.symm.trans heq
      have hcap : l.length + 1 ≤ max + 4 :=
        hlines l (heq ▸ (List.prefix_append ..).isInfix) hl
      have hrest : flat (dropLine cs) = t := flat_dropLine hl heq
      have hsame : SameBytes ⟨dropLine cs, tail⟩ ⟨dropLine cs', tail⟩ :=
        ⟨hrest.trans (flat_dropLine hl heq').symm, rfl⟩
      have hsuffix : flat (dropLine cs) <:+ flat cs := by
        rw [hrest, heq]
        exact ⟨l ++ [LF], by simp⟩
      have hshorter : (flat (dropLine cs)).length < n := by
        rw [← hn, hrest, heq, List.length_append, List.length_cons]
        omega
      have hnext (data : List UInt8) (tl : Bool) :=
        ih _ hshorter data tl hsame (hlines.suffix hsuffix) rfl
      rw [readDataLoop_line (readLine_line hl heq hcap),
        readDataLoop_line (readLine_line hl heq' hcap)]
      split
      · exact ⟨rfl, hsame⟩
      · split
        · exact hnext _ _
        · split <;> exact hnext _ _
    · -- the stream ends within the line, and the readers are the same from there
      have hlt : (flat cs).length < max + 4 := hlines _ (List.infix_refl _) hmem
      have hline : readLine ⟨cs, tail⟩ (max + 4) = readLine ⟨cs', tail⟩ (max + 4) := by
        rw [readLine_free hmem, readLine_free (hflat ▸ hmem), giveUp_eq_none (by omega),
          giveUp_eq_none (by rw [← hflat]; omega), hflat]
      have hloop : readDataLoop max data tl ⟨cs, tail⟩ = readDataLoop max data tl ⟨cs', tail⟩ := by
        rw [readDataLoop_eq, hline, ← readDataLoop_eq]
      rw [hloop]
      exact ⟨rfl, rfl, rfl⟩

/-! ## The session -/

/-- The connections are the same, or not yet encrypted and cut into other pieces. -/
inductive Alike (max : Nat) : Conn → Conn → Prop
  | same (conn : Conn) : Alike max conn conn
  | recut {r r' : Reader} : SameBytes r r' → LinesBelow (max + 4) (flat r.chunks) →
    Alike max ⟨.plain, r⟩ ⟨.plain, r'⟩

variable {ctx : SmtpContext} {s : Session} {β : Type} {K : Next → Io β}

/-- What comes after a turn does not depend on how the input is cut. -/
def Indifferent (max : Nat) (K : Next → Io β) : Prop :=
  ∀ s conn conn', Alike max conn conn' → K (some (s, conn)) = K (some (s, conn'))

theorem handleData_indifferent (hK : Indifferent ctx.app.config.maxMessageSize K)
    (h : SameBytes r r') (hlines : LinesBelow (ctx.app.config.maxMessageSize + 4) (flat r.chunks)) :
    (handleData ctx s ⟨.plain, r⟩ >>= K) = handleData ctx s ⟨.plain, r'⟩ >>= K := by
  have hrefused (line : String) :
      (writeLine line >>= fun _ => K (some (s, ⟨.plain, r⟩))) =
        writeLine line >>= fun _ => K (some (s, ⟨.plain, r'⟩)) := by
    rw [hK _ _ _ (.recut h hlines)]
  unfold handleData
  split
  · simpa only [bind_assoc, pure_bind] using hrefused _
  · split
    · simpa only [bind_assoc, pure_bind] using hrefused _
    · simp only [bind_assoc]
      congr 1
      funext headroom
      cases headroom with
      | false =>
        simp only [Bool.not_false, if_true, bind_assoc, pure_bind]
        exact hrefused _
      | true =>
        simp only [Bool.not_true, Bool.false_eq_true, if_false, bind_assoc]
        congr 1
        funext _
        obtain ⟨houtcome, hsame⟩ :=
          readDataLoop_alike ctx.app.config.maxMessageSize [] false h hlines
        have hrest := hlines.suffix (readDataLoop_suffix ctx.app.config.maxMessageSize [] false r)
        unfold readData
        generalize readDataLoop ctx.app.config.maxMessageSize [] false r = p at houtcome hsame hrest
        generalize readDataLoop ctx.app.config.maxMessageSize [] false r' = p' at houtcome hsame
        obtain ⟨outcome, q⟩ := p
        obtain ⟨outcome', q'⟩ := p'
        cases houtcome
        have hnext := hK s.resetTx _ _ (.recut hsame hrest)
        match outcome with
        | .error _ => rfl
        | .ok (.complete _) => simp only [bind_assoc, pure_bind, hnext]
        | .ok .tooLarge => simp only [bind_assoc, pure_bind, hnext]
        | .ok .connectionClosed => rfl

/-- After `STARTTLS` the stream is the one of the handshake. -/
theorem handleStartTls_indifferent (hK : Indifferent ctx.app.config.maxMessageSize K)
    (h : SameBytes r r') (hlines : LinesBelow (ctx.app.config.maxMessageSize + 4) (flat r.chunks)) :
    (handleStartTls ctx s ⟨.plain, r⟩ >>= K) = handleStartTls ctx s ⟨.plain, r'⟩ >>= K := by
  have hnext := hK s _ _ (.recut h hlines)
  unfold handleStartTls
  split
  · simp only [bind_assoc, pure_bind, hnext]
  · split
    · rfl
    · simp only [bind_assoc, pure_bind, hnext]

theorem dispatch_indifferent (hK : Indifferent ctx.app.config.maxMessageSize K)
    (h : SameBytes r r') (hlines : LinesBelow (ctx.app.config.maxMessageSize + 4) (flat r.chunks))
    (cmd : Command) :
    (dispatch ctx s ⟨.plain, r⟩ cmd >>= K) = dispatch ctx s ⟨.plain, r'⟩ cmd >>= K := by
  have hnext (s : Session) : K (some (s, ⟨.plain, r⟩)) = K (some (s, ⟨.plain, r'⟩)) :=
    hK _ _ _ (.recut h hlines)
  cases cmd with
  | data => exact handleData_indifferent hK h hlines
  | startTls => exact handleStartTls_indifferent hK h hlines
  | _ => simp only [dispatch, bind_assoc, pure_bind, hnext]

theorem step_indifferent (hK : Indifferent ctx.app.config.maxMessageSize K) :
    Indifferent ctx.app.config.maxMessageSize
      fun | none => K none | some (s, conn) => step ctx s conn >>= K := by
  intro s conn conn' h
  cases h with
  | same => rfl
  | @recut r r' hsame hlines =>
    obtain ⟨hline, hrest⟩ := readLine_alike hsame commandLineMax
    have hsuffix : flat (readLine r commandLineMax).2.chunks <:+ flat r.chunks :=
      readLine_suffix (Prod.eta _).symm
    unfold step
    dsimp only
    generalize readLine r commandLineMax = p at hline hrest hsuffix
    generalize readLine r' commandLineMax = p' at hline hrest
    obtain ⟨st, q⟩ := p
    obtain ⟨st', q'⟩ := p'
    cases hline
    match st with
    | .error _ => rfl
    | .ok .eof => rfl
    | .ok .tooLong => rfl
    | .ok (.line l) =>
      exact dispatch_indifferent hK (hrest nofun) (hlines.suffix hsuffix) _

theorem turns_indifferent (n : Nat) :
    Indifferent ctx.app.config.maxMessageSize
      fun | none => pure () | some (s, conn) => turns ctx n s conn := by
  induction n with
  | zero => exact fun _ _ _ _ => rfl
  | succ n ih => exact step_indifferent ih

/-- Each byte in a piece of its own. -/
def bytewise (r : Reader) : Reader where
  chunks := (flat r.chunks).map fun b => ⟨[b], List.cons_ne_nil b []⟩
  tail := r.tail

theorem sameBytes_bytewise (r : Reader) : SameBytes r (bytewise r) where
  flat := by
    unfold bytewise
    induction flat r.chunks with
    | nil => rfl
    | cons b l ih => exact congrArg (b :: ·) ih
  tail := rfl

end AnonyMail.Smtp
