import AnonyMail.Smtp.ReadData
import Mathlib.Logic.Relation

/-! # The DATA phase, turn by turn (`smtp/session.rs`)

`readData` says what `read_data` returns. Here `read_data`, and the `read_line` it calls, are run one
turn of a loop at a time, so that one can speak of the contents of the buffers at every moment. -/

namespace AnonyMail.Smtp

open ChunkReader

inductive Phase
  /-- At the top of the loop of `read_line`. -/
  | fill
  /-- `read_line` has returned. -/
  | lineRead (result : Except IoError LineStatus)
  /-- `read_data` has returned. -/
  | done (result : Except IoError DataOutcome)

/-- The locals of `read_data`, and what is still to be read. -/
structure DataState where
  data : List UInt8
  line : List UInt8
  tooLarge : Bool
  chunks : List (Chunk UInt8)
  phase : Phase

/-- One turn of the loop of `read_line`. -/
def fillStep (cap : Nat) (tail : Tail) (st : DataState) : DataState :=
  match st.chunks with
  | [] =>
    match tail with
    | .error => { st with phase := .lineRead (.error {}) }
    | .eof => { st with phase := .lineRead (.ok (if st.line.isEmpty then .eof else .line st.line)) }
  | c :: cs =>
    match c.1.findIdx? (· == LF) with
    | some pos =>
      let take := pos + 1
      let chunks := consume take (c :: cs)
      if st.line.length + take > cap then { st with chunks, phase := .lineRead (.ok .tooLong) }
      else
        let line := st.line ++ c.1.take take
        { st with line, chunks, phase := .lineRead (.ok (.line line)) }
    | none =>
      if st.line.length + c.1.length > cap then
        { st with chunks := cs, phase := .lineRead (.ok .tooLong) }
      else { st with line := st.line ++ c.1, chunks := cs }

/-- `read_data` calls `read_line`, which clears its buffer. -/
def DataState.nextLine (st : DataState) : DataState := { st with line := [], phase := .fill }

/-- What `read_data` does once `read_line` has returned. -/
def lineStep (max : Nat) (st : DataState) : Except IoError LineStatus → DataState
  | .error e => { st with phase := .done (.error e) }
  | .ok .eof => { st with phase := .done (.ok .connectionClosed) }
  | .ok .tooLong =>
    if !st.tooLarge then { st with tooLarge := true, data := [] }.nextLine else st.nextLine
  | .ok (.line line) =>
    if isTerminator line then
      { st with phase := .done (.ok (if st.tooLarge then .tooLarge else .complete st.data)) }
    else if !st.tooLarge then
      let content := unstuff line
      if st.data.length + content.length > max then
        { st with tooLarge := true, data := [] }.nextLine
      else { st with data := st.data ++ content }.nextLine
    else st.nextLine

def dataStep (max : Nat) (tail : Tail) (st : DataState) : Option DataState :=
  match st.phase with
  | .fill => some (fillStep (max + 4) tail st)
  | .lineRead result => some (lineStep max st result)
  | .done _ => none

def DataState.start (cs : List (Chunk UInt8)) : DataState := ⟨[], [], false, cs, .fill⟩

/-- `st'` comes up after `st` has. -/
def Visits (max : Nat) (tail : Tail) : DataState → DataState → Prop :=
  Relation.ReflTransGen fun st st' => dataStep max tail st = some st'

end AnonyMail.Smtp
