import Pop3Server.Buffer
import Pop3Server.Machine

/-!
# The I/O buffer as a queue

The bytes between the two pointers are what has been written and not yet read,
until `buffer_compact` is called: its `memset` comes after its `memmove`, and
clears the bytes it has just moved.  A read that empties the buffer compacts it
as well, with nothing left to lose.  `fifo_iff` says which runs do not notice.
-/

namespace Pop3Server

/-- What a caller can do with a buffer. -/
inductive BufferOp where
  /-- `buffer_write` -/
  | write (c : Byte)
  /-- `buffer_read` -/
  | read
  /-- `bytes` are put where `buffer_write_ptr` points, and `buffer_write_adv` is called on `n` -/
  | fill (bytes : Bytes) (n : Int)
  /-- `buffer_read_adv` on `n` -/
  | drop (n : Int)
  | compact
  | reset
deriving DecidableEq

namespace Buffer

/-- `none` is a failed assertion. -/
def step (b : Buffer) : BufferOp → Option Buffer
  | .write c => b.writeByte c
  | .read => b.readByte.map (·.2)
  | .fill bytes n => (b.filledWith bytes).writeAdv n
  | .drop n => b.readAdv n
  | .compact => some b.compact
  | .reset => some b.reset

/-- The caller keeps within the sizes that `buffer_write_ptr` and `buffer_read_ptr` return. -/
def Within (b : Buffer) : BufferOp → Prop
  | .fill bytes n => bytes.length ≤ b.writePtr ∧ n ≤ bytes.length
  | .drop n => n ≤ b.readPtr.2
  | _ => True

instance (b : Buffer) (op : BufferOp) : Decidable (b.Within op) := by
  cases op <;> unfold Within <;> infer_instance

/-- The bytes between the read and the write pointer. -/
def content (b : Buffer) : Bytes := (b.data.drop b.read).take (b.write - b.read)

/-- What an operation makes of the bytes that have been written and not yet read. -/
def queued (pending : Bytes) (b : Buffer) : BufferOp → Bytes
  | .write c => if b.canWrite then pending ++ [c] else pending
  | .read => pending.drop 1
  | .fill bytes n => pending ++ bytes.take n.toNat
  | .drop n => pending.drop n.toNat
  | .compact => pending
  | .reset => []

end Buffer

open Buffer

/-- A run of operations, which a failed assertion ends. -/
def bufferMachine : Machine Buffer BufferOp where
  next b op := (b.step op).getD b
  stop b op := (b.step op).isNone

/-- The run beside the queue it stands for. -/
def queueMachine : Machine (Buffer × Bytes) BufferOp := bufferMachine.ghost queued

/-- The sizes are respected throughout. -/
def KeepsWithin (b : Buffer) (ops : List BufferOp) : Prop :=
  ∀ x ∈ bufferMachine.trace b ops, x.1.Within x.2

instance (b : Buffer) (ops : List BufferOp) : Decidable (KeepsWithin b ops) :=
  inferInstanceAs (Decidable (∀ x ∈ bufferMachine.trace b ops, _))

/-- A buffer that is a queue: no assertion fails, its bytes are those written and not read, a read
returns the first of them, and a compaction moves them to the start. -/
structure IsQueue (b : Buffer) (ops : List BufferOp) : Prop where
  passes : queueMachine.Passes (b, []) ops
  bounds : ∀ pre, pre <+: ops → let b' := (queueMachine.final (b, []) pre).1
    b'.read ≤ b'.write ∧ b'.write ≤ b'.limit ∧ b'.limit = b.limit
  content : ∀ pre, pre <+: ops →
    (queueMachine.final (b, []) pre).1.content = (queueMachine.final (b, []) pre).2
  first : ∀ x ∈ queueMachine.trace (b, []) ops, x.2 = .read →
    x.1.1.readByte.map (·.1) = some (x.1.2.headD NUL)
  compacted : ∀ x ∈ queueMachine.trace (b, []) ops, x.2 = .compact →
    (queueMachine.next x.1 x.2).1.read = 0

/-- Whenever the buffer is compacted, the bytes that wait in it are zeros. -/
def CompactsZeros (b : Buffer) (ops : List BufferOp) : Prop :=
  ∀ x ∈ queueMachine.trace (b, []) ops, x.2 = .compact → ∀ c ∈ x.1.2, c = NUL

instance (b : Buffer) (ops : List BufferOp) : Decidable (CompactsZeros b ops) :=
  inferInstanceAs (Decidable (∀ x ∈ queueMachine.trace (b, []) ops, _))

/-! ### One operation -/

namespace Buffer

theorem content_length (b : Buffer) : b.content.length = b.write - b.read := by
  have h := b.write_le_limit
  simp only [content, List.length_take, List.length_drop]
  omega

/-- The bytes of the memory do not matter beyond the write pointer. -/
theorem content_filledWith (b : Buffer) (bytes : Bytes) :
    (b.filledWith bytes).content = b.content := by
  have h1 := b.read_le_write
  have h2 := b.write_le_limit
  have hlen : (b.data.take b.write).length = b.write := List.length_take_of_le h2
  simp only [content, filledWith]
  rw [List.drop_append_of_le_length (by omega),
    List.take_append_of_le_length (by rw [List.length_drop]; omega), List.drop_take,
    List.take_take, Nat.min_self]

theorem limit_filledWith {b : Buffer} {bytes : Bytes} (h : bytes.length ≤ b.writePtr) :
    (b.filledWith bytes).limit = b.limit := by
  have hle := b.write_le_limit
  simp only [writePtr, limit] at h
  simp only [limit, filledWith, List.length_append, List.length_take, List.length_drop]
  omega

theorem writeAdv_of_le {b : Buffer} {n : Nat} (h : b.write + n ≤ b.data.length) :
    b.writeAdv n = some { b with
      write := b.write + n
      read_le_write := Nat.le_trans b.read_le_write (Nat.le_add_right _ _)
      write_le_limit := h } := by
  have hn : (n : Int) > -1 := by omega
  simp [writeAdv, hn, h]

/-- Advancing the write pointer takes in the bytes that were put behind it. -/
theorem writeAdv_filledWith {b : Buffer} {bytes : Bytes} {n : Nat}
    (hroom : bytes.length ≤ b.writePtr) (hn : n ≤ bytes.length) :
    ∃ b', (b.filledWith bytes).writeAdv n = some b' ∧ b'.limit = b.limit ∧
      b'.content = b.content ++ bytes.take n := by
  have h1 := b.read_le_write
  have h2 := b.write_le_limit
  have hlimit := limit_filledWith hroom
  have hle : (b.filledWith bytes).write + n ≤ (b.filledWith bytes).data.length := by
    change b.write + n ≤ (b.filledWith bytes).limit
    simp only [writePtr, limit] at hroom
    rw [hlimit, limit]
    omega
  refine ⟨_, writeAdv_of_le hle, hlimit, ?_⟩
  have hlen : (b.data.take b.write).length = b.write := List.length_take_of_le h2
  have hwaiting : ((b.data.take b.write).drop b.read).length = b.write - b.read := by
    rw [List.length_drop, hlen]
  have hcount : b.write + n - b.read = (b.write - b.read) + n := by omega
  simp only [content, filledWith]
  rw [List.drop_append_of_le_length (by omega), hcount,
    List.take_append, hwaiting, Nat.add_sub_cancel_left, List.take_append_of_le_length hn,
    List.take_of_length_le (by omega), List.drop_take]

theorem content_cleared (b : Buffer) : b.cleared.content = [] := by
  simp [content, cleared]

theorem limit_cleared (b : Buffer) : b.cleared.limit = b.limit := by
  simp [limit, cleared]

/-- A read takes bytes from the front, also when the buffer compacts itself. -/
theorem readAdv_content {b : Buffer} {n : Nat} (hn : n ≤ b.write - b.read) :
    ∃ b', b.readAdv n = some b' ∧ b'.limit = b.limit ∧ b'.content = b.content.drop n := by
  have h1 := b.read_le_write
  rcases Nat.lt_or_ge (b.read + n) b.write with hlt | hge
  · refine ⟨_, readAdv_lt hlt, rfl, ?_⟩
    simp only [content]
    rw [List.drop_take, List.drop_drop, Nat.sub_sub]
  · have heq : b.read + n = b.write := by omega
    refine ⟨_, readAdv_eq heq, limit_cleared b, ?_⟩
    rw [content_cleared, List.drop_of_length_le (by rw [content_length]; omega)]

theorem limit_compact (b : Buffer) : b.compact.limit = b.limit := by
  have h1 := b.read_le_write
  have h2 := b.write_le_limit
  unfold compact
  split
  · simp [limit]
  · split
    · simp [limit]
    · simp only [limit, List.length_replicate, List.length_append, List.length_take,
        List.length_drop]
      omega

theorem compact_read (b : Buffer) : b.compact.read = 0 := by
  unfold compact
  split
  · assumption
  · split <;> rfl

theorem compact_write (b : Buffer) : b.compact.write = b.write - b.read := by
  unfold compact
  split
  · next h => simp [h]
  · split
    · next h => simp [h]
    · rfl

theorem compact_data (b : Buffer) : b.compact.data = List.replicate b.limit NUL := by
  have hlimit := limit_compact b
  unfold compact at hlimit ⊢
  split at hlimit
  · next h => simp only [if_pos h]; rfl
  · next h =>
    simp only [if_neg h]
    split at hlimit
    · next h' => simp only [if_pos h']; rfl
    · next h' =>
      simp only [if_neg h', limit, List.length_replicate] at hlimit ⊢
      rw [hlimit]

/-- What `buffer_compact` leaves between the pointers. -/
theorem content_compact (b : Buffer) : b.compact.content = List.replicate b.content.length NUL := by
  have h := b.write_le_limit
  rw [content_length, content, compact_data, compact_read, compact_write, List.drop_zero,
    List.take_replicate, Nat.sub_zero, Nat.min_eq_left (by rw [limit]; omega)]

theorem content_head {b : Buffer} (h : b.read < b.write) :
    (b.data.drop b.read).headD NUL = b.content.headD NUL := by
  rw [content]
  cases b.data.drop b.read with
  | nil => simp
  | cons c rest =>
    obtain ⟨k, hk⟩ := Nat.exists_eq_add_of_lt h
    have hcount : b.write - b.read = k + 1 := by omega
    rw [hcount, List.take_succ_cons]
    rfl

/-- **Read.** The first waiting byte is returned and leaves the queue. -/
theorem readByte_content (b : Buffer) :
    ∃ b', b.readByte = some (b.content.headD NUL, b') ∧ b'.limit = b.limit ∧
      b'.content = b.content.drop 1 := by
  rcases Nat.lt_or_ge b.read b.write with hlt | hge
  · obtain ⟨b', hadv, hlimit, hcontent⟩ := readAdv_content (b := b) (n := 1) (by omega)
    refine ⟨b', ?_, hlimit, hcontent⟩
    rw [readByte_of_lt hlt, hadv, content_head hlt]
    rfl
  · have heq : b.read = b.write := Nat.le_antisymm b.read_le_write hge
    have hempty : b.content = [] := List.length_eq_zero_iff.mp (by rw [content_length]; omega)
    exact ⟨b, by rw [readByte_empty heq, hempty]; rfl, rfl, by rw [hempty]; rfl⟩

/-- Within the sizes no assertion fails, and the buffer keeps its array. -/
theorem step_of_within {b : Buffer} {op : BufferOp} (h : b.Within op) :
    ∃ b', b.step op = some b' ∧ b'.limit = b.limit ∧
      (op ≠ .compact → b'.content = queued b.content b op) := by
  cases op with
  | write c =>
    cases hcan : b.canWrite with
    | false => exact ⟨b, by simp [step, writeByte, hcan], rfl, fun _ => by simp [queued, hcan]⟩
    | true =>
      have hroom : [c].length ≤ b.writePtr := by
        simp only [canWrite, decide_eq_true_eq] at hcan
        exact hcan
      obtain ⟨b', hadv, hlimit, hcontent⟩ := writeAdv_filledWith hroom (Nat.le_refl 1)
      refine ⟨b', ?_, hlimit, fun _ => ?_⟩
      · rw [step, writeByte, if_pos hcan]
        exact hadv
      · rw [hcontent, queued, if_pos hcan]
        rfl
  | read =>
    obtain ⟨b', hread, hlimit, hcontent⟩ := readByte_content b
    exact ⟨b', by rw [step, hread]; rfl, hlimit, fun _ => hcontent⟩
  | fill bytes n =>
    obtain ⟨hroom, hn⟩ := h
    rcases Int.lt_or_le n 0 with hneg | hpos
    · refine ⟨b.filledWith bytes, ?_, limit_filledWith hroom, fun _ => ?_⟩
      · have hnot : ¬ n > -1 := by omega
        rw [step, writeAdv, if_neg hnot]
      · have hzero : n.toNat = 0 := by omega
        rw [content_filledWith, queued, hzero, List.take_zero, List.append_nil]
    · obtain ⟨k, rfl⟩ := Int.eq_ofNat_of_zero_le hpos
      obtain ⟨b', hadv, hlimit, hcontent⟩ := writeAdv_filledWith (n := k) hroom (by omega)
      exact ⟨b', hadv, hlimit, fun _ => hcontent⟩
  | drop n =>
    change n ≤ ((b.write - b.read : Nat) : Int) at h
    rcases Int.lt_or_le n 0 with hneg | hpos
    · refine ⟨b, ?_, rfl, fun _ => ?_⟩
      · have hnot : ¬ n > -1 := by omega
        rw [step, readAdv, if_neg hnot]
      · have hzero : n.toNat = 0 := by omega
        rw [queued, hzero, List.drop_zero]
    · obtain ⟨k, rfl⟩ := Int.eq_ofNat_of_zero_le hpos
      obtain ⟨b', hadv, hlimit, hcontent⟩ := readAdv_content (b := b) (n := k) (by omega)
      exact ⟨b', hadv, hlimit, fun _ => hcontent⟩
  | compact => exact ⟨b.compact, rfl, limit_compact b, fun hne => absurd rfl hne⟩
  | reset => exact ⟨b.reset, rfl, rfl, fun _ => by simp [content, reset, queued]⟩

end Buffer

/-! ### Runs -/

theorem queue_stop {x : Buffer × Bytes} {op : BufferOp} (h : x.1.Within op) :
    queueMachine.stop x op = false := by
  obtain ⟨b', hstep, -⟩ := step_of_within h
  change (x.1.step op).isNone = false
  rw [hstep]
  rfl

theorem queue_within {b : Buffer} {ops : List BufferOp} (h : KeepsWithin b ops)
    {x : (Buffer × Bytes) × BufferOp} (hx : x ∈ queueMachine.trace (b, []) ops) :
    x.1.1.Within x.2 :=
  h _ (bufferMachine.mem_trace_of_ghost queued hx)

/-- A run that keeps within the sizes aborts nowhere. -/
theorem queue_passes {b : Buffer} {ops : List BufferOp} (h : KeepsWithin b ops) :
    queueMachine.Passes (b, []) ops := by
  rcases queueMachine.passes_or_halts (b, []) ops with hpass | ⟨pre, op, hinitial, hpre, hstop, -⟩
  · exact hpass
  · have hmem := (queueMachine.mem_trace_iff (x := (queueMachine.final (b, []) pre, op))).mpr
      ⟨pre, hinitial, hpre, rfl⟩
    rw [queue_stop (queue_within h hmem)] at hstop
    cases hstop

/-- **Step lemma.** An operation on a queue that does not compact bytes other than zeros leaves a
queue in the same array. -/
theorem queue_step {x : Buffer × Bytes} {op : BufferOp} (hwithin : x.1.Within op)
    (hzeros : op = .compact → ∀ c ∈ x.2, c = NUL) (hcontent : x.1.content = x.2) :
    (queueMachine.next x op).1.content = (queueMachine.next x op).2 ∧
      (queueMachine.next x op).1.limit = x.1.limit := by
  obtain ⟨b', hstep, hlimit, hqueued⟩ := step_of_within hwithin
  have hnext : queueMachine.next x op = (b', queued x.2 x.1 op) := by
    change ((x.1.step op).getD x.1, queued x.2 x.1 op) = _
    rw [hstep]
    rfl
  rw [hnext]
  refine ⟨?_, hlimit⟩
  by_cases hop : op = .compact
  · subst hop
    have hb' : x.1.compact = b' := Option.some.inj hstep
    rw [← hb', content_compact, hcontent]
    exact (List.eq_replicate_of_mem (hzeros rfl)).symm
  · rw [hqueued hop, hcontent]

/-- **Run lemma.** -/
theorem queue_final {b : Buffer} {ops : List BufferOp} (h : KeepsWithin b ops)
    (hzeros : CompactsZeros b ops) (hempty : b.content = []) :
    ∀ pre, pre <+: ops → queueMachine.Passes (b, []) pre →
      (queueMachine.final (b, []) pre).1.content = (queueMachine.final (b, []) pre).2 ∧
        (queueMachine.final (b, []) pre).1.limit = b.limit := by
  refine @Machine.final_induction _ _ queueMachine
    (fun x => x.1.content = x.2 ∧ x.1.limit = b.limit) _ _ ?_ ⟨hempty, rfl⟩
  intro pre op hinitial hpass ⟨hcontent, hlimit⟩ _
  have hmem := (queueMachine.mem_trace_iff (x := (queueMachine.final (b, []) pre, op))).mpr
    ⟨pre, hinitial, hpass, rfl⟩
  obtain ⟨hcontent', hlimit'⟩ := queue_step (queue_within h hmem) (hzeros _ hmem) hcontent
  exact ⟨hcontent', hlimit'.trans hlimit⟩

/-- A compaction that keeps the waiting bytes had only zeros to move. -/
theorem zeros_of_isQueue {b : Buffer} {ops : List BufferOp} (h : IsQueue b ops) :
    CompactsZeros b ops := by
  intro x hx hop c hc
  obtain ⟨pre, hinitial, hpass, hstate⟩ := queueMachine.mem_trace_iff.mp hx
  have hafter := h.content _ hinitial
  have hbefore := h.content pre ((List.prefix_append pre [x.2]).trans hinitial)
  rw [queueMachine.final_concat hpass, ← hstate, hop] at hafter
  change x.1.1.compact.content = x.1.2 at hafter
  rw [content_compact] at hafter
  rw [← hafter] at hc
  exact List.eq_of_mem_replicate hc

/-- **The buffer is a queue** exactly as long as it is compacted with nothing but zeros waiting. -/
theorem fifo_iff (data : Bytes) (ops : List BufferOp) (h : KeepsWithin (init data) ops) :
    IsQueue (init data) ops ↔ CompactsZeros (init data) ops := by
  refine ⟨zeros_of_isQueue, fun hzeros => ?_⟩
  have hpasses := queue_passes h
  have hempty : (init data).content = [] := by simp [Buffer.content, init]
  have hfinal := queue_final h hzeros hempty
  have hpassed : ∀ pre, pre <+: ops → queueMachine.Passes (init data, []) pre := by
    rintro pre ⟨post, rfl⟩
    exact hpasses.of_append
  have hcontent : ∀ x ∈ queueMachine.trace (init data, []) ops, x.1.1.content = x.1.2 := by
    intro x hx
    obtain ⟨pre, hinitial, hpass, hstate⟩ := queueMachine.mem_trace_iff.mp hx
    rw [hstate]
    exact (hfinal pre ((List.prefix_append pre [x.2]).trans hinitial) hpass).1
  refine ⟨hpasses, fun pre hpre => ?_, fun pre hpre => ?_, fun x hx hop => ?_, fun x hx hop => ?_⟩
  · exact ⟨Buffer.read_le_write _, Buffer.write_le_limit _, (hfinal pre hpre (hpassed pre hpre)).2⟩
  · exact (hfinal pre hpre (hpassed pre hpre)).1
  · obtain ⟨b', hread, -⟩ := readByte_content x.1.1
    rw [hread, Option.map_some, hcontent x hx]
  · rw [hop]
    exact compact_read x.1.1

/-- The documented example: of four bytes three are read, two more are written, and the buffer is
compacted. -/
def onDemand : List BufferOp :=
  [.fill [72, 79, 76, 65] 4, .drop 3, .fill [0, 77] 2, .compact]

theorem not_isQueue_onDemand : KeepsWithin (init (List.replicate 6 NUL)) onDemand ∧
    ¬ IsQueue (init (List.replicate 6 NUL)) onDemand := by
  refine ⟨by decide, fun h => ?_⟩
  have hcontent := h.content onDemand (List.prefix_refl _)
  revert hcontent
  decide

/-- The same run without the compaction. -/
theorem fifo_iff_onDemand :
    IsQueue (init (List.replicate 6 NUL)) (onDemand.take 3) ↔
      CompactsZeros (init (List.replicate 6 NUL)) (onDemand.take 3) :=
  fifo_iff (List.replicate 6 NUL) (onDemand.take 3) (by decide)

end Pop3Server
