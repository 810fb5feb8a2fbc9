import Pop3Server.Session

/-!
# Sending (`write_socket_buffer`, `transfer_without_transformation`, `send_file`)

What `send` returns is part of the input: a list of results for the first calls
on a piece of data, after which the socket accepts whatever it is offered.
`sent` are the bytes it has accepted, one entry for each successful call.
-/

namespace Pop3Server

/-- What `send` returns for the bytes it is offered. -/
inductive SendResult where
  /-- some of them are accepted -/
  | accepted (n : Nat)
  /-- `EAGAIN` or `EWOULDBLOCK` -/
  | again
  | failed
deriving DecidableEq, Repr

/-- What a write leaves: the accepted pieces and the value returned. -/
structure Written where
  sent : List Bytes
  returned : Int
deriving DecidableEq, Repr

/-- The loop of `write_socket_buffer` on the bytes that remain, `totalSent` being sent. -/
def writeLoop : Nat → List SendResult → Nat → Bytes → Written
  | turns + 1, results, totalSent, b :: rest =>
    let toCopy := min (rest.length + 1) BUFFER_SIZE
    match results.headD (.accepted toCopy) with
    | .accepted n =>
      let bytesSent := min n toCopy
      let w := writeLoop turns results.tail (totalSent + bytesSent) ((b :: rest).drop bytesSent)
      { w with sent := (b :: rest).take bytesSent :: w.sent }
    | .again => writeLoop turns results.tail totalSent (b :: rest)
    | .failed => ⟨[], -1⟩
  | _, _, totalSent, _ => ⟨[], totalSent⟩

/-- `write_socket_buffer`.  Every turn uses up a result or sends a byte. -/
def writeSocketBuffer (results : List SendResult) (data : Bytes) : Written :=
  writeLoop (results.length + data.length) results 0 data

/-- A successful `read` on a file, with what `send` returns for the bytes read. -/
structure FileRead where
  bytes : Bytes
  nonempty : bytes ≠ []
  fits : bytes.length ≤ BUFFER_SIZE
  results : List SendResult

/-- `transfer_without_transformation` on the reads that come before the end of the file. -/
def transferWithoutTransformation : List FileRead → List Bytes
  | [] => []
  | r :: rs =>
    let w := writeSocketBuffer r.results r.bytes
    if w.returned < 0 then w.sent else w.sent ++ transferWithoutTransformation rs

def terminator : Bytes := str "\r\n.\r\n"

/-- `send_file` without transformation, on the reads of a file that could be opened; `last` are the
results for the terminator. -/
def sendFile (file : Option (List FileRead)) (last : List SendResult) : List Bytes :=
  match file with
  | none => []
  | some reads =>
    transferWithoutTransformation reads ++ (writeSocketBuffer last terminator).sent

/-! ### A socket that accepts everything -/

theorem writeLoop_nil {turns : Nat} {data : Bytes} (h : data.length ≤ turns) (totalSent : Nat) :
    (writeLoop turns [] totalSent data).sent.flatten = data ∧
      (writeLoop turns [] totalSent data).returned = (totalSent + data.length : Nat) := by
  induction turns generalizing totalSent data with
  | zero =>
    obtain rfl : data = [] := List.length_eq_zero_iff.mp (Nat.le_zero.mp h)
    exact ⟨rfl, rfl⟩
  | succ turns ih =>
    cases data with
    | nil => exact ⟨rfl, rfl⟩
    | cons b rest =>
      have hcopy : 0 < min (rest.length + 1) BUFFER_SIZE := by unfold BUFFER_SIZE; omega
      have hlen : ((b :: rest).drop (min (rest.length + 1) BUFFER_SIZE)).length ≤ turns := by
        simp only [List.length_drop, List.length_cons] at h ⊢
        omega
      have htotal := ih hlen (totalSent + min (rest.length + 1) BUFFER_SIZE)
      rw [writeLoop]
      simp only [List.headD_nil, List.tail_nil, Nat.min_self]
      refine ⟨?_, ?_⟩
      · rw [List.flatten_cons, htotal.1, List.take_append_drop]
      · rw [htotal.2]
        simp only [List.length_drop, List.length_cons]
        omega

/-- **A socket that accepts what it is offered gets the data, and the write succeeds.** -/
theorem writeSocketBuffer_nil (data : Bytes) :
    (writeSocketBuffer [] data).sent.flatten = data ∧
      (writeSocketBuffer [] data).returned = data.length := by
  have h := writeLoop_nil (Nat.le_of_eq (Nat.zero_add data.length).symm) 0
  simpa [writeSocketBuffer] using h

def contentOf (reads : List FileRead) : Bytes := (reads.map (·.bytes)).flatten

/-- **However it is read, a file is sent whole and followed by the terminator.** -/
theorem sendFile_flatten {reads : List FileRead} (h : ∀ r ∈ reads, r.results = []) :
    (sendFile (some reads) []).flatten = contentOf reads ++ terminator := by
  have htransfer : (transferWithoutTransformation reads).flatten = contentOf reads := by
    induction reads with
    | nil => rfl
    | cons r rs ih =>
      obtain ⟨hsent, hreturned⟩ := writeSocketBuffer_nil r.bytes
      have hok : ¬ (writeSocketBuffer [] r.bytes).returned < 0 := by omega
      rw [transferWithoutTransformation, h r (by simp)]
      simp only [if_neg hok, List.flatten_append, hsent, ih fun q hq => h q (by simp [hq])]
      rfl
  rw [sendFile, List.flatten_append, htransfer, (writeSocketBuffer_nil terminator).1]

end Pop3Server
