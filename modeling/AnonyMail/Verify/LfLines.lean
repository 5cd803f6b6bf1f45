import AnonyMail.Smtp.DataSteps
import AnonyMail.Verify.Truncation

/-! # Messages of LF lines

The dots that a sender puts before the lines of a message are taken away again, whatever the pieces in
which the stream arrives, and the limits on the line buffer and on the message are kept on the way. -/

namespace AnonyMail.Smtp

open ChunkReader

variable {max : Nat} {tail : Tail} {st st' : DataState} {cs : List (Chunk UInt8)}

/-! ## The buffers -/

/-- The buffers keep to their limits. -/
structure DataState.Bounded (max : Nat) (st : DataState) : Prop where
  line : st.line.length ≤ max + 4
  data : st.data.length ≤ max

theorem DataState.Bounded.fillStep (h : st.Bounded max) :
    (Smtp.fillStep (max + 4) tail st).Bounded max := by
  unfold Smtp.fillStep
  split
  · split <;> exact ⟨h.line, h.data⟩
  · next c cs _ =>
    split
    · next pos _ =>
      dsimp only
      split
      · exact ⟨h.line, h.data⟩
      · refine ⟨?_, h.data⟩
        have htake : (c.1.take (pos + 1)).length ≤ pos + 1 := List.length_take_le _ _
        rw [List.length_append]
        omega
    · split
      · exact ⟨h.line, h.data⟩
      · refine ⟨?_, h.data⟩
        rw [List.length_append]
        omega

theorem DataState.Bounded.nextLine (h : st.data.length ≤ max) : st.nextLine.Bounded max :=
  ⟨Nat.zero_le _, h⟩

theorem DataState.Bounded.lineStep (h : st.Bounded max) (result : Except IoError LineStatus) :
    (Smtp.lineStep max st result).Bounded max := by
  unfold Smtp.lineStep
  split
  · exact ⟨h.line, h.data⟩
  · exact ⟨h.line, h.data⟩
  · split
    · exact .nextLine (Nat.zero_le _)
    · exact .nextLine h.data
  · split
    · exact ⟨h.line, h.data⟩
    · split
      · dsimp only
        split
        · exact .nextLine (Nat.zero_le _)
        · refine .nextLine ?_
          rw [List.length_append]
          omega
      · exact .nextLine h.data

theorem DataState.Bounded.step (h : st.Bounded max) (hs : dataStep max tail st = some st') :
    st'.Bounded max := by
  unfold dataStep at hs
  split at hs <;> cases hs
  · exact h.fillStep
  · exact h.lineStep _

/-- The buffers keep to their limits at every moment. -/
theorem bounded_of_visits (h : Visits max tail (.start cs) st) : st.Bounded max := by
  induction h with
  | refl => exact ⟨Nat.zero_le _, Nat.zero_le _⟩
  | tail _ hs ih => exact ih.step hs

/-! ## What the turns lead to -/

theorem Visits.head (hs : dataStep max tail st = some st') (h : Visits max tail st' st'') :
    Visits max tail st st'' := Relation.ReflTransGen.head hs h

/-- A call of `read_line`. -/
theorem visits_readLineLoop {res : Except IoError LineStatus} {r : Reader}
    (hphase : st.phase = .fill) (h : readLineLoop (max + 4) tail st.line st.chunks = (res, r)) :
    ∃ line, Visits max tail st { st with line, chunks := r.chunks, phase := .lineRead res } := by
  obtain ⟨data, line, tl, cs, phase⟩ := st
  cases hphase
  induction cs generalizing line with
  | nil =>
    refine ⟨line, .single ?_⟩
    cases tail <;> cases h <;> rfl
  | cons c cs ih =>
    simp only [readLineLoop] at h
    split at h
    · next pos hpos =>
      split at h
      · next hlong =>
        cases h
        exact ⟨line, .single (by simp [dataStep, fillStep, hpos, hlong])⟩
      · next hfit =>
        cases h
        exact ⟨line ++ c.1.take (pos + 1), .single (by simp [dataStep, fillStep, hpos, hfit])⟩
    · next hnone =>
      split at h
      · next hlong =>
        cases h
        exact ⟨line, .single (by simp [dataStep, fillStep, hnone, hlong])⟩
      · next hfit =>
        obtain ⟨line', hvisits⟩ := ih (line ++ c.1) h
        refine ⟨line', hvisits.head ?_⟩
        simp [dataStep, fillStep, hnone, hfit]

theorem readLineLoop_tail {cap : Nat} {buf : List UInt8} {res : Except IoError LineStatus}
    {r : Reader} (h : readLineLoop cap tail buf cs = (res, r)) : r.tail = tail := by
  induction cs generalizing buf with
  | nil => cases tail <;> cases h <;> rfl
  | cons c cs ih =>
    simp only [readLineLoop] at h
    split at h
    · split at h <;> (cases h; rfl)
    · split at h
      · cases h; rfl
      · exact ih h

theorem readDataLoop_error {data : List UInt8} {tl : Bool} {r r' : Reader} {e : IoError}
    (h : readLine r (max + 4) = (.error e, r')) : readDataLoop max data tl r = (.error e, r') := by
  rw [readDataLoop]
  split <;> simp_all

theorem readDataLoop_closed {data : List UInt8} {tl : Bool} {r r' : Reader}
    (h : readLine r (max + 4) = (.ok .eof, r')) :
    readDataLoop max data tl r = (.ok .connectionClosed, r') := by
  rw [readDataLoop]
  split <;> simp_all

/-- The turns lead to what `readDataLoop` returns. There is no data once the message is too large. -/
theorem visits_readDataLoop {data : List UInt8} {tl : Bool} {r : Reader}
    (htl : tl = true → data = []) :
    ∃ st, Visits max r.tail ⟨data, [], tl, r.chunks, .fill⟩ st ∧
      st.phase = .done (readDataLoop max data tl r).1 ∧
      st.chunks = (readDataLoop max data tl r).2.chunks := by
  induction hn : (flat r.chunks).length using Nat.strongRecOn generalizing data tl r with
  | _ n ih =>
  obtain ⟨res, r', hread⟩ : ∃ res r', readLine r (max + 4) = (res, r') := ⟨_, _, rfl⟩
  obtain ⟨line, hline⟩ := @visits_readLineLoop max r.tail ⟨data, [], tl, r.chunks, .fill⟩ res r' rfl hread
  -- the call of `read_line` and then the rest, on a shorter stream
  have hrest {st₁ : DataState} (data' : List UInt8) (tl' : Bool) (htl' : tl' = true → data' = [])
      (hlt : (flat r'.chunks).length < n) (hstep : st₁ = ⟨data', [], tl', r'.chunks, .fill⟩) :
      ∃ st, Visits max r.tail st₁ st ∧ st.phase = .done (readDataLoop max data' tl' r').1 ∧
        st.chunks = (readDataLoop max data' tl' r').2.chunks := by
    have h := ih _ hlt htl' rfl
    rwa [readLineLoop_tail hread, ← hstep] at h
  cases res with
  | error e =>
    rw [readDataLoop_error hread]
    exact ⟨_, hline.tail rfl, rfl, rfl⟩
  | ok status =>
    cases status with
    | eof =>
      rw [readDataLoop_closed hread]
      exact ⟨_, hline.tail rfl, rfl, rfl⟩
    | tooLong =>
      have hlt : (flat r'.chunks).length < n := hn ▸ readLine_lt hread nofun
      rw [readDataLoop_tooLong hread]
      obtain ⟨st, hst, hdone⟩ := hrest [] true (fun _ => rfl) hlt rfl
      refine ⟨st, (hline.tail ?_).trans hst, hdone⟩
      cases tl with
      | false => rfl
      | true => rw [htl rfl]; rfl
    | line l =>
      have hlt : (flat r'.chunks).length < n := hn ▸ readLine_lt hread nofun
      have hstep : dataStep max r.tail ⟨data, line, tl, r'.chunks, .lineRead (.ok (.line l))⟩ =
          some (lineStep max _ (.ok (.line l))) := rfl
      rw [readDataLoop_line hread]
      by_cases hdot : isTerminator l
      · rw [lineStep, if_pos hdot] at hstep
        rw [if_pos hdot]
        exact ⟨_, hline.tail hstep, rfl, rfl⟩
      · rw [lineStep, if_neg hdot] at hstep
        rw [if_neg hdot]
        cases tl with
        | true =>
          obtain ⟨st, hst, hdone⟩ := hrest data true htl hlt rfl
          exact ⟨st, (hline.tail hstep).trans hst, hdone⟩
        | false =>
          rw [if_neg Bool.false_ne_true]
          split
          · next hbig =>
            obtain ⟨st, hst, hdone⟩ := hrest [] true (fun _ => rfl) hlt rfl
            exact ⟨st, (hline.tail (hstep.trans (congrArg some (if_pos hbig)))).trans hst, hdone⟩
          · next hfit =>
            obtain ⟨st, hst, hdone⟩ := hrest (data ++ unstuff l) false nofun hlt rfl
            exact ⟨st, (hline.tail (hstep.trans (congrArg some (if_neg hfit)))).trans hst, hdone⟩

/-- The turns lead to what `readData` returns. -/
theorem visits_readData (max : Nat) (r : Reader) :
    ∃ st, Visits max r.tail (.start r.chunks) st ∧ st.phase = .done (readData max r).1 ∧
      st.chunks = (readData max r).2.chunks := visits_readDataLoop nofun

/-! ## Messages of LF lines -/

/-- Put a dot before each line that starts with one. -/
def stuffLines (b : List UInt8) : List UInt8 := [LF].intercalate ((b.splitOn LF).map stuff)

/-- A message that is empty or ends with an LF is one of lines. -/
theorem exists_lines {b : List UInt8} (hb : b = [] ∨ b.getLast? = some LF) :
    ∃ lines, (∀ l ∈ lines, LF ∉ l) ∧ b = lfBody lines := by
  induction hn : b.length using Nat.strongRecOn generalizing b with
  | _ n ih =>
  rcases hb with rfl | hlast
  · exact ⟨[], by simp, rfl⟩
  · obtain ⟨l, b, rfl, hl⟩ := List.eq_append_cons_of_mem (List.mem_of_getLast? hlast)
    have hb : b = [] ∨ b.getLast? = some LF := by
      cases b with
      | nil => exact .inl rfl
      | cons x b => exact .inr (by simpa using hlast)
    have hlt : b.length < n := by
      rw [← hn, List.length_append, List.length_cons]
      omega
    obtain ⟨lines, hlines, rfl⟩ := ih _ hlt hb rfl
    refine ⟨l :: lines, List.forall_mem_cons.mpr ⟨hl, hlines⟩, ?_⟩
    rw [lfBody_cons, List.append_assoc]
    rfl

theorem splitOn_lfBody {lines : List (List UInt8)} (h : ∀ l ∈ lines, LF ∉ l) :
    (lfBody lines).splitOn LF = lines ++ [[]] := by
  induction lines with
  | nil => rfl
  | cons l lines ih =>
    obtain ⟨hl, hlines⟩ := List.forall_mem_cons.mp h
    rw [lfBody_cons, List.append_assoc, List.singleton_append,
      List.splitOn_append_cons_self_of_not_mem hl, ih hlines]
    rfl

theorem intercalate_lines (lines : List (List UInt8)) :
    [LF].intercalate (lines ++ [[]]) = lfBody lines := by
  induction lines with
  | nil => rfl
  | cons l lines ih =>
    rw [lfBody_cons, ← ih]
    cases lines <;> simp [List.intercalate]

theorem lfEncode_eq (lines : List (List UInt8)) : lfEncode lines = lfBody (lines.map stuff) := by
  rw [lfBody, List.flatMap_map, lfEncode]

theorem stuffLines_lfBody {lines : List (List UInt8)} (h : ∀ l ∈ lines, LF ∉ l) :
    stuffLines (lfBody lines) = lfEncode lines := by
  rw [stuffLines, splitOn_lfBody h, lfEncode_eq, ← intercalate_lines, List.map_append]
  rfl

theorem decodes_wire {lines : List (List UInt8)} {r : List UInt8} {cap : Nat}
    (h : ∀ l ∈ lines, LF ∉ l) (hcap : ∀ l ∈ lines, (stuff l).length + 1 ≤ cap) :
    Decodes cap (wire lines ++ r) (lfBody lines) r := by
  induction lines with
  | nil => exact .stop (l := [dot, CR]) (by decide) (by decide)
  | cons l lines ih =>
    obtain ⟨hl, hlines⟩ := List.forall_mem_cons.mp h
    obtain ⟨hlen, hcap⟩ := List.forall_mem_cons.mp hcap
    have hdec := Decodes.line (not_mem_stuff hl) not_isTerminator_stuff hlen (ih hlines hcap)
    rw [unstuff_stuff] at hdec
    rw [wire_cons, lfBody_cons, List.append_assoc]
    exact hdec

section
variable {s b r data : List UInt8}

theorem readDataLoop_drains (h : Decodes (max + 4) s b r) (hcs : flat cs = s) (data : List UInt8)
    (tail : Tail) :
    ∃ cs', readDataLoop max data true ⟨cs, tail⟩ = (.ok .tooLarge, ⟨cs', tail⟩) ∧ flat cs' = r := by
  induction h generalizing cs with
  | stop hl hdot =>
    have hshort := isTerminator_length hdot
    rw [readDataLoop_line (readLine_line hl hcs (by omega)), if_pos hdot]
    exact ⟨_, rfl, flat_dropLine hl hcs⟩
  | line hl hdot hcap _ ih =>
    rw [readDataLoop_line (readLine_line hl hcs hcap), if_neg hdot, if_pos rfl]
    exact ih (flat_dropLine hl hcs)

/-- A message that does not fit is read to its end and reported. -/
theorem readDataLoop_tooLarge (h : Decodes (max + 4) s b r) (hcs : flat cs = s)
    (hdata : data.length ≤ max) (hmax : max < data.length + b.length) (tail : Tail) :
    ∃ cs', readDataLoop max data false ⟨cs, tail⟩ = (.ok .tooLarge, ⟨cs', tail⟩) ∧ flat cs' = r := by
  induction h generalizing cs data with
  | stop => exact absurd hmax (Nat.not_lt.mpr hdata)
  | line hl hdot hcap hrest ih =>
    rw [readDataLoop_line (readLine_line hl hcs hcap), if_neg hdot, if_neg Bool.false_ne_true]
    rw [List.length_append] at hmax
    split
    · exact readDataLoop_drains hrest (flat_dropLine hl hcs) [] tail
    · refine ih (flat_dropLine hl hcs) ?_ ?_ <;>
        (rw [List.length_append]; omega)

end

theorem length_le_lfBody {l : List UInt8} {lines : List (List UInt8)} (h : l ∈ lines) :
    l.length + 1 ≤ (lfBody lines).length := by
  obtain ⟨lines₁, lines₂, rfl⟩ := List.append_of_mem h
  simp only [lfBody, List.flatMap_append, List.flatMap_cons, List.length_append,
    List.length_singleton]
  omega

/-- A message of LF lines that fits comes back byte for byte, one that does not is reported, and
either way the stream is left right after the terminating dot. The buffers keep to their limits at
every moment on the way to the result. -/
theorem readData_lfLines (b : List UInt8) (hb : b = [] ∨ b.getLast? = some LF) (max : Nat)
    (r : List UInt8) (cs : List (Chunk UInt8)) (tail : Tail)
    (hcs : flat cs = stuffLines b ++ [dot, CR, LF] ++ r) :
    (b.length ≤ max →
      ∃ cs', readData max ⟨cs, tail⟩ = (.ok (.complete b), ⟨cs', tail⟩) ∧ flat cs' = r) ∧
    (max < b.length → (∀ l ∈ (stuffLines b).splitOn LF, l.length + 1 ≤ max + 4) →
      ∃ cs', readData max ⟨cs, tail⟩ = (.ok .tooLarge, ⟨cs', tail⟩) ∧ flat cs' = r) ∧
    (∃ st, Visits max tail (.start cs) st ∧ st.phase = .done (readData max ⟨cs, tail⟩).1) ∧
    ∀ st, Visits max tail (.start cs) st → st.line.length ≤ max + 4 ∧ st.data.length ≤ max := by
  obtain ⟨lines, hlines, rfl⟩ := exists_lines hb
  have hwire : stuffLines (lfBody lines) ++ [dot, CR, LF] = wire lines := by
    rw [stuffLines_lfBody hlines, wire]
  rw [hwire] at hcs
  refine ⟨fun hfit => ?_, fun hbig hcap => ?_, ?_, fun st hst => ?_⟩
  · have hcap : ∀ l ∈ lines, (stuff l).length + 1 ≤ max + 4 := by
      intro l hl
      have hlen := length_le_lfBody hl
      have hstuff := length_stuff_le l
      omega
    exact readDataLoop_decodes (decodes_wire hlines hcap) hcs [] (by simpa using hfit) tail
  · have hcap' : ∀ l ∈ lines, (stuff l).length + 1 ≤ max + 4 := by
      rw [stuffLines_lfBody hlines, lfEncode_eq, splitOn_lfBody] at hcap
      · exact fun l hl => hcap _ (List.mem_append_left _ (List.mem_map_of_mem hl))
      · exact List.forall_mem_map.mpr fun l hl => not_mem_stuff (hlines l hl)
    exact readDataLoop_tooLarge (decodes_wire hlines hcap') hcs (Nat.zero_le _) (by simpa using hbig) tail
  · obtain ⟨st, hst, hdone, -⟩ := visits_readData max ⟨cs, tail⟩
    exact ⟨st, hst, hdone⟩
  · exact ⟨(bounded_of_visits hst).line, (bounded_of_visits hst).data⟩

/-- `.a` with an LF, sent as `..a` in two pieces, and a command after it. -/
theorem readData_lfLines_dot_line :
    (∃ cs', readData 3 ⟨[⟨[dot], by simp⟩, ⟨[dot, 97, LF, dot, CR, LF, 99], by simp⟩], .eof⟩ =
      (.ok (.complete [dot, 97, LF]), ⟨cs', .eof⟩) ∧ flat cs' = [99]) ∧
    ∃ cs', readData 2 ⟨[⟨[dot], by simp⟩, ⟨[dot, 97, LF, dot, CR, LF, 99], by simp⟩], .eof⟩ =
      (.ok .tooLarge, ⟨cs', .eof⟩) ∧ flat cs' = [99] :=
  ⟨(readData_lfLines [dot, 97, LF] (by decide) 3 [99] _ .eof (by decide)).1 (by decide),
    (readData_lfLines [dot, 97, LF] (by decide) 2 [99] _ .eof (by decide)).2.1 (by decide) (by decide)⟩

end AnonyMail.Smtp
