import AnonyMail.Lib.ChunkReader

/-! # Reading lines and the DATA phase (`smtp/session.rs`)

The connection as `fill_buf` hands it out: the pieces that arrive, then its end. An I/O error and
the session timeout both end the session and are not told apart. Lengths are unbounded, so
`saturating_add` is addition. -/

namespace AnonyMail.Smtp

open ChunkReader

/-- What follows the last piece: the peer closes the connection, or waiting for more fails. -/
inductive Tail
  | eof
  | error
  deriving DecidableEq, Repr

structure Reader where
  chunks : List (Chunk UInt8)
  tail : Tail
  deriving DecidableEq

structure IoError where
  deriving DecidableEq, Repr

inductive LineStatus
  /-- `line`, with the contents of the buffer. -/
  | line (buf : List UInt8)
  | tooLong
  | eof
  deriving DecidableEq, Repr

def LF : UInt8 := 10
def CR : UInt8 := 13
def dot : UInt8 := 46

def readLineLoop (max : Nat) (tail : Tail) (buf : List UInt8) :
    List (Chunk UInt8) → Except IoError LineStatus × Reader
  | [] =>
    match tail with
    | .error => (.error {}, ⟨[], tail⟩)
    | .eof => (.ok (if buf.isEmpty then .eof else .line buf), ⟨[], tail⟩)
  | c :: cs =>
    match c.1.findIdx? (· == LF) with
    | some pos =>
      let take := pos + 1
      if buf.length + take > max then (.ok .tooLong, ⟨consume take (c :: cs), tail⟩)
      else (.ok (.line (buf ++ c.1.take take)), ⟨consume take (c :: cs), tail⟩)
    | none =>
      if buf.length + c.1.length > max then (.ok .tooLong, ⟨cs, tail⟩)
      else readLineLoop max tail (buf ++ c.1) cs

/-- `read_line`, also under the timeout of `read_line_timed`. -/
def readLine (r : Reader) (max : Nat) : Except IoError LineStatus × Reader :=
  readLineLoop max r.tail [] r.chunks

/-- Strip a trailing `\r\n` or `\n`. -/
def stripEol (line : List UInt8) : List UInt8 :=
  let line := if line.getLast? = some LF then line.dropLast else line
  if line.getLast? = some CR then line.dropLast else line

def isTerminator (line : List UInt8) : Bool := stripEol line == [dot]

inductive DataOutcome
  | complete (data : List UInt8)
  | tooLarge
  | connectionClosed
  deriving DecidableEq, Repr

/-- Dot-unstuffing: a leading `.` is escaped. -/
def unstuff (line : List UInt8) : List UInt8 :=
  if line.head? = some dot then line.tail else line

/-- A call of `read_line` that does not end the DATA phase takes at least one byte. -/
theorem readLineLoop_lt {max : Nat} {tail : Tail} {buf : List UInt8} {cs : List (Chunk UInt8)}
    {st : LineStatus} {r : Reader} (h : readLineLoop max tail buf cs = (.ok st, r)) :
    cs = [] ∨ (flat r.chunks).length < (flat cs).length := by
  induction cs generalizing buf with
  | nil => exact .inl rfl
  | cons c cs ih =>
    have hc := length_pos c
    have hcut (n : Nat) : (flat (consume (n + 1) (c :: cs))).length < (flat (c :: cs)).length := by
      rw [flat_consume, flat_cons, List.length_append, List.length_append, List.length_drop]
      omega
    refine .inr ?_
    simp only [readLineLoop] at h
    split at h
    · split at h <;> (cases h; exact hcut _)
    · split at h
      · cases h
        show (flat cs).length < _
        rw [flat_cons, List.length_append]
        omega
      · rw [flat_cons, List.length_append]
        rcases ih h with rfl | hlt
        · simp only [readLineLoop] at h
          split at h
          · cases h
          · cases h
            show 0 < _
            omega
        · omega

theorem readLine_lt {r r' : Reader} {max : Nat} {st : LineStatus}
    (h : readLine r max = (.ok st, r')) (hst : st ≠ .eof) :
    (flat r'.chunks).length < (flat r.chunks).length := by
  rcases readLineLoop_lt h with h0 | hlt
  · simp only [readLine, h0, readLineLoop] at h
    split at h
    · cases h
    · cases h
      exact absurd rfl hst
  · exact hlt

/-- The loop of `read_data`, with its accumulators. -/
def readDataLoop (max : Nat) (data : List UInt8) (tooLarge : Bool) (r : Reader) :
    Except IoError DataOutcome × Reader :=
  match _h : readLine r (max + 4) with
  | (.error e, r') => (.error e, r')
  | (.ok .eof, r') => (.ok .connectionClosed, r')
  | (.ok .tooLong, r') => readDataLoop max [] true r'
  | (.ok (.line line), r') =>
    if isTerminator line then (.ok (if tooLarge then .tooLarge else .complete data), r')
    else if tooLarge then readDataLoop max data true r'
    else
      let content := unstuff line
      if data.length + content.length > max then readDataLoop max [] true r'
      else readDataLoop max (data ++ content) false r'
termination_by (flat r.chunks).length
decreasing_by all_goals exact readLine_lt _h (by simp)

def readData (max : Nat) (r : Reader) : Except IoError DataOutcome × Reader :=
  readDataLoop max [] false r

end AnonyMail.Smtp
