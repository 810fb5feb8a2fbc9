import Pop3Server.SendFile

/-!
# Partial sends (`write_socket_buffer` and the buffer it copies through)

`SendFile` has the loop on the bytes that remain; here it is written as in the
code, with the send buffer of the client, the copy into it and an endless
supply of results of `send`.  `Sending.Sound` relates the offset to what the
socket has accepted, and every turn keeps it and comes closer to the end
(`writeTurn_cases`).  `writeTurns_writeLoop` shows that the two loops agree.
-/

namespace Pop3Server

/-- `memcpy` to the start of an array; `none` when it has no room for the bytes. -/
def memcpy (array bytes : Bytes) : Option Bytes :=
  if bytes.length ≤ array.length then some (bytes ++ array.drop bytes.length) else none

/-- What the calls of `send` return: the `k`-th one, on the number of bytes it is offered.  Some of
them are accepted, and only finitely many calls are to be made again. -/
structure Socket where
  send : Nat → Nat → SendResult
  accepts : ∀ k offered n, 0 < offered → send k offered = .accepted n → 1 ≤ n ∧ n ≤ offered
  settles : ∃ last, ∀ k ≥ last, ∀ offered, send k offered ≠ .again

/-- `send_buffer` of `Client_data`. -/
structure SendBuffer where
  bytes : Bytes
  size_eq : bytes.length = 2 * BUFFER_SIZE

/-- The locals of `write_socket_buffer`, its buffer, and what the socket has been called with and
has accepted so far. -/
structure Sending where
  sendBuffer : Bytes
  totalSent : Nat
  calls : Nat
  accepted : Bytes

/-- How `write_socket_buffer` ends. -/
inductive WriteEnd where
  | returned (value : Int) (accepted : Bytes)
  /-- bytes are copied past the end of the send buffer -/
  | overrun
deriving DecidableEq, Repr

inductive WriteTurn where
  | next (s : Sending)
  | ended (e : WriteEnd)

section Loop

variable (socket : Socket) (data : Bytes)

/-- One turn of the loop of `write_socket_buffer`, its test included. -/
def writeTurn (s : Sending) : WriteTurn :=
  if s.totalSent < data.length then
    let remainingData := data.length - s.totalSent
    let toCopy := if remainingData < BUFFER_SIZE then remainingData else BUFFER_SIZE
    match memcpy s.sendBuffer ((data.drop s.totalSent).take toCopy) with
    | none => .ended .overrun
    | some sendBuffer =>
      match socket.send s.calls toCopy with
      | .again => .next { s with sendBuffer := sendBuffer, calls := s.calls + 1 }
      | .failed => .ended (.returned (-1) s.accepted)
      | .accepted n =>
        .next ⟨sendBuffer, s.totalSent + n, s.calls + 1, s.accepted ++ sendBuffer.take n⟩
  else .ended (.returned (int32 s.totalSent) s.accepted)

/-- The loop; `none` when the turns given do not suffice. -/
def writeTurns : Nat → Sending → Option WriteEnd
  | 0, _ => none
  | turns + 1, s =>
    match writeTurn socket data s with
    | .next s => writeTurns turns s
    | .ended e => some e

/-- `write_socket_buffer`, for a number of turns of its loop. -/
def writeThrough (buffer : SendBuffer) (turns : Nat) : Option WriteEnd :=
  writeTurns socket data turns ⟨buffer.bytes, 0, 0, []⟩

/-! ### The invariant -/

/-- The socket has accepted what lies in front of the offset. -/
structure Sending.Sound (s : Sending) : Prop where
  room : BUFFER_SIZE ≤ s.sendBuffer.length
  inside : s.totalSent ≤ data.length
  accepted : s.accepted = data.take s.totalSent

/-- The number of bytes a turn copies. -/
def chunk (s : Sending) : Nat := min (data.length - s.totalSent) BUFFER_SIZE

theorem chunk_pos {s : Sending} (h : s.totalSent < data.length) : 0 < chunk data s := by
  unfold chunk BUFFER_SIZE
  omega

/-- What a turn that is not the last one comes to: the copy fits, and the socket is offered the
bytes behind the offset. -/
theorem writeTurn_eq {s : Sending} (hs : s.Sound data) (h : s.totalSent < data.length) :
    ∃ sendBuffer : Bytes, BUFFER_SIZE ≤ sendBuffer.length ∧
      sendBuffer.take (chunk data s) = (data.drop s.totalSent).take (chunk data s) ∧
      writeTurn socket data s =
        match socket.send s.calls (chunk data s) with
        | .again => .next { s with sendBuffer := sendBuffer, calls := s.calls + 1 }
        | .failed => .ended (.returned (-1) s.accepted)
        | .accepted n =>
          .next ⟨sendBuffer, s.totalSent + n, s.calls + 1, s.accepted ++ sendBuffer.take n⟩ := by
  have hroom := hs.room
  have hcopy : (if data.length - s.totalSent < BUFFER_SIZE then data.length - s.totalSent
      else BUFFER_SIZE) = chunk data s := by
    unfold chunk
    split <;> omega
  have hlength : ((data.drop s.totalSent).take (chunk data s)).length = chunk data s := by
    unfold chunk
    rw [List.length_take, List.length_drop]
    omega
  have hle : chunk data s ≤ BUFFER_SIZE := Nat.min_le_right _ _
  refine ⟨(data.drop s.totalSent).take (chunk data s) ++ s.sendBuffer.drop (chunk data s), ?_, ?_, ?_⟩
  · rw [List.length_append, hlength, List.length_drop]
    omega
  · exact List.take_left' hlength
  · unfold writeTurn
    simp only [if_pos h, hcopy]
    rw [memcpy, if_pos (by rw [hlength]; omega), hlength]

/-- What is left to do: bytes to be accepted and calls that may have to be made again. -/
def Sending.left (last : Nat) (s : Sending) : Nat := data.length - s.totalSent + (last - s.calls)

/-- How a call may end: with the length of the data, all of which has been accepted, or, when a call
of `send` has failed, with -1 and some of it. -/
def SentInOrder : WriteEnd → Prop
  | .returned value accepted =>
    (value = int32 data.length ∧ accepted = data) ∨
      (value = -1 ∧ accepted <+: data ∧ ∃ k offered, socket.send k offered = .failed)
  | .overrun => False

/-- **Step lemma.**  A turn keeps the invariant and has less left to do, or it is the last one. -/
theorem writeTurn_cases {last : Nat} (hlast : ∀ k ≥ last, ∀ offered, socket.send k offered ≠ .again)
    {s : Sending} (hs : s.Sound data) :
    (∃ s', writeTurn socket data s = .next s' ∧ s'.Sound data ∧ s'.left data last < s.left data last) ∨
      ∃ e, writeTurn socket data s = .ended e ∧ SentInOrder socket data e := by
  obtain ⟨hroom, hinside, haccepted⟩ := hs
  by_cases h : s.totalSent < data.length
  case neg =>
    have hall : s.totalSent = data.length := Nat.le_antisymm hinside (Nat.le_of_not_lt h)
    refine .inr ⟨_, if_neg h, .inl ⟨by rw [hall], ?_⟩⟩
    rw [haccepted, hall, List.take_length]
  have hpos := chunk_pos data h
  obtain ⟨sendBuffer, hroom', hcopied, hturn⟩ := writeTurn_eq socket data ⟨hroom, hinside, haccepted⟩ h
  rw [hturn]
  cases hsend : socket.send s.calls (chunk data s) with
  | again =>
    refine .inl ⟨_, rfl, ⟨hroom', hinside, haccepted⟩, ?_⟩
    have hearly : s.calls < last := by
      by_contra hlate
      exact hlast s.calls (Nat.le_of_not_lt hlate) _ hsend
    simp only [Sending.left]
    omega
  | failed =>
    refine .inr ⟨_, rfl, .inr ⟨rfl, ?_, _, _, hsend⟩⟩
    rw [haccepted]
    exact List.take_prefix _ _
  | accepted n =>
    obtain ⟨hsome, hoffered⟩ := socket.accepts _ _ n hpos hsend
    have hchunk : chunk data s ≤ data.length - s.totalSent := Nat.min_le_left _ _
    have hbytes : sendBuffer.take n = (data.drop s.totalSent).take n := by
      have h := congrArg (List.take n) hcopied
      rwa [List.take_take, List.take_take, Nat.min_eq_left hoffered] at h
    refine .inl ⟨_, rfl, ⟨hroom', ?_, ?_⟩, ?_⟩
    · simp only
      omega
    · simp only [haccepted, hbytes]
      exact List.take_add.symm
    · simp only [Sending.left]
      omega

theorem SendBuffer.sound (buffer : SendBuffer) :
    (⟨buffer.bytes, 0, 0, []⟩ : Sending).Sound data := by
  refine ⟨?_, Nat.zero_le _, rfl⟩
  simp only [buffer.size_eq]
  omega

end Loop

/-! ### The loop on the bytes that remain -/

/-- No more is accepted than is offered. -/
def SendResult.upTo (offered : Nat) : SendResult → SendResult
  | .accepted n => .accepted (min n offered)
  | r => r

/-- The socket a list of results stands for: afterwards it accepts what it is offered. -/
def socketOf (results : List SendResult) (h : SendResult.accepted 0 ∉ results) : Socket where
  send k offered := (results.getD k (.accepted offered)).upTo offered
  accepts k offered n hoffered hsend := by
    have hsome : results.getD k (.accepted offered) ≠ .accepted 0 := by
      rw [List.getD_eq_getElem?_getD]
      intro hzero
      cases hk : results[k]? with
      | none =>
        rw [hk] at hzero
        cases hzero
        exact absurd hoffered (Nat.lt_irrefl 0)
      | some r =>
        rw [hk] at hzero
        cases hzero
        exact h (List.mem_of_getElem? hk)
    generalize results.getD k (.accepted offered) = r at hsome hsend
    cases r with
    | accepted m =>
      have hm : m ≠ 0 := fun e => hsome (congrArg _ e)
      cases hsend
      omega
    | again => cases hsend
    | failed => cases hsend
  settles := by
    refine ⟨results.length, fun k hk offered hagain => ?_⟩
    rw [List.getD_eq_getElem?_getD, List.getElem?_eq_none hk] at hagain
    cases hagain

/-- A turn of the loop of `SendFile` on bytes that remain. -/
theorem writeLoop_succ (turns : Nat) (results : List SendResult) (totalSent : Nat) {bytes : Bytes}
    (h : bytes ≠ []) :
    writeLoop (turns + 1) results totalSent bytes =
      match results.headD (.accepted (min bytes.length BUFFER_SIZE)) with
      | .accepted n =>
        let bytesSent := min n (min bytes.length BUFFER_SIZE)
        let w := writeLoop turns results.tail (totalSent + bytesSent) (bytes.drop bytesSent)
        { w with sent := bytes.take bytesSent :: w.sent }
      | .again => writeLoop turns results.tail totalSent bytes
      | .failed => ⟨[], -1⟩ := by
  obtain ⟨b, rest, rfl⟩ := List.exists_cons_of_ne_nil h
  rfl

/-- **The loop of `SendFile` is this one, without the buffer.** -/
theorem writeTurns_writeLoop {results : List SendResult} (h : SendResult.accepted 0 ∉ results)
    (data : Bytes) {s : Sending} (hs : s.Sound data) {turns : Nat}
    (hturns : (results.drop s.calls).length + (data.drop s.totalSent).length ≤ turns) :
    let w := writeLoop turns (results.drop s.calls) s.totalSent (data.drop s.totalSent)
    writeTurns (socketOf results h) data (turns + 1) s =
      some (.returned (int32 w.returned) (s.accepted ++ w.sent.flatten)) := by
  induction turns generalizing s with
  | zero =>
    have hrest : data.drop s.totalSent = [] := List.length_eq_zero_iff.mp (by omega)
    have hdone : ¬ s.totalSent < data.length := by
      have := congrArg List.length hrest
      rw [List.length_drop, List.length_nil] at this
      omega
    simp only [hrest, writeTurns, writeTurn, if_neg hdone, writeLoop, List.flatten_nil,
      List.append_nil]
  | succ turns ih =>
    by_cases hmore : s.totalSent < data.length
    case neg =>
      have hrest : data.drop s.totalSent = [] := List.drop_eq_nil_of_le (Nat.le_of_not_lt hmore)
      simp only [hrest, writeTurns, writeTurn, if_neg hmore, writeLoop, List.flatten_nil,
        List.append_nil]
    have hcopy : 0 < chunk data s := chunk_pos data hmore
    have hchunk : min (data.drop s.totalSent).length BUFFER_SIZE = chunk data s := by
      rw [List.length_drop]
      rfl
    obtain ⟨sendBuffer, -, hcopied, hturn⟩ := writeTurn_eq (socketOf results h) data hs hmore
    have hnext : ∀ s', writeTurn (socketOf results h) data s = .next s' → s'.Sound data := by
      obtain ⟨last, hlast⟩ := (socketOf results h).settles
      intro s' hs'
      rcases writeTurn_cases _ data hlast hs with ⟨s'', h', hsound, -⟩ | ⟨e, h', -⟩
      · cases hs'.symm.trans h'
        exact hsound
      · cases hs'.symm.trans h'
    have hresult : (results.drop s.calls).headD (.accepted (chunk data s)) =
        results.getD s.calls (.accepted (chunk data s)) := by
      rw [List.headD_eq_head?_getD, List.head?_drop, List.getD_eq_getElem?_getD]
    have hsend : (socketOf results h).send s.calls (chunk data s) =
        (results.getD s.calls (.accepted (chunk data s))).upTo (chunk data s) := rfl
    rw [writeTurns, writeLoop_succ _ _ _ (by simpa using hmore), hchunk, hresult, List.tail_drop]
    rw [hsend] at hturn
    cases hr : results.getD s.calls (.accepted (chunk data s)) with
    | accepted n =>
      rw [hr] at hturn
      have hcopied' : sendBuffer.take (min n (chunk data s)) =
          (data.drop s.totalSent).take (min n (chunk data s)) := by
        have h := congrArg (List.take n) hcopied
        rwa [List.take_take, List.take_take] at h
      obtain ⟨hsome, -⟩ := (socketOf results h).accepts _ _ _ hcopy (by rw [hsend, hr]; rfl)
      have hih := ih (hnext _ hturn) (by simp only [List.length_drop] at hturns ⊢; omega)
      simp only [hturn, SendResult.upTo]
      rw [hih]
      simp only [List.drop_drop, hcopied', List.flatten_cons, List.append_assoc]
    | again =>
      rw [hr] at hturn
      have hcall : s.calls < results.length := by
        by_contra hlate
        rw [List.getD_eq_getElem?_getD, List.getElem?_eq_none (Nat.le_of_not_lt hlate)] at hr
        cases hr
      have hih := ih (hnext _ hturn) (by simp only [List.length_drop] at hturns ⊢; omega)
      simp only [hturn, SendResult.upTo]
      exact hih
    | failed =>
      rw [hr] at hturn
      simp only [hturn, SendResult.upTo, List.flatten_nil, List.append_nil]
      rfl

/-- `write_socket_buffer` gives the same bytes and, as an `int`, the same value in both models. -/
theorem writeThrough_writeSocketBuffer {results : List SendResult}
    (h : SendResult.accepted 0 ∉ results) (data : Bytes) (buffer : SendBuffer) :
    let w := writeSocketBuffer results data
    writeThrough (socketOf results h) data buffer (results.length + data.length + 1) =
      some (.returned (int32 w.returned) w.sent.flatten) :=
  writeTurns_writeLoop h data (buffer.sound data) (Nat.le_refl _)

end Pop3Server
