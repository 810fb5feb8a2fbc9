import Pop3Server.Framing
import Pop3Server.PollLoop

/-!
# The arrays a line is put together in

`handle_client` copies strings into two arrays of `2 * BUFFER_SIZE` characters:
into `command`, where a line is put together, and into the `recv_buffer` of the
client, where a part of a line is saved.  `handleClientCopies` are these copies
in the order in which the code makes them.

One delivery is shorter than `BUFFER_SIZE`, and only the end of one is saved:
that is the invariant of the table of clients (`SavedShort`).  A line is made of
what was saved and of a piece of one delivery.
-/

namespace Pop3Server

open Function (update)
open Splitting

inductive LineArray where
  | command
  | recvBuffer
deriving DecidableEq, Repr

/-- A `strcpy` or a `strcat`, with the string its destination holds afterwards. -/
structure StringCopy where
  destination : LineArray
  string : Bytes
deriving DecidableEq, Repr

/-- The copies of the loop of `handle_client`: a complete line is put together in `command`, which is
emptied behind it, and what is left over in `recv_buffer`, which is empty until then. -/
def scanCopies (w : LoopState) (command seg : Bytes) : Bytes → List StringCopy
  | [] => if seg ≠ [] then [⟨.recvBuffer, seg⟩] else []
  | aux :: rest =>
    if aux = LF then
      let x := w.exchange (command ++ dropCR seg)
      ⟨.command, command ++ dropCR seg⟩ ::
        if x.step.control = .next then scanCopies (w.after x.step) [] [] rest else []
    else scanCopies w command (seg ++ [aux]) rest

/-- The copies of one call of `handle_client`. -/
def handleClientCopies (env : Nat → Env) (sh : Shared) (cl : ClientData) (recv : Recv)
    (stale : Bytes) : List StringCopy :=
  let r := readSocketBuffer recv stale cl.session.clientState
  ⟨.command, cl.recvBuffer⟩ ::
    scanCopies ⟨env, sh, { cl.session with clientState := r.2 }⟩ cl.recvBuffer [] r.1

def Server.callCopies (sv : Server) (slot : Nat) (o : Occurrence) : List StringCopy :=
  handleClientCopies o.env sv.shared (sv.clients slot) o.recv o.stale

/-- The copy that leaves a part of a line in the client. -/
def savedCopies (saved : Bytes) : List StringCopy :=
  if saved ≠ [] then [⟨.recvBuffer, saved⟩] else []

/-- **The copies of the loop are the commands it dispatches and the part of a line it saves.** -/
theorem scanCopies_eq (w : LoopState) (command seg buff : Bytes) :
    scanCopies w command seg buff =
      (scan w command seg buff).exchanges.map (fun x => ⟨.command, x.command⟩) ++
        savedCopies (scan w command seg buff).client.recvBuffer := by
  induction buff generalizing w command seg with
  | nil => rfl
  | cons aux rest ih =>
    rw [scanCopies, scan]
    by_cases hend : aux = LF
    · simp only [if_pos hend]
      by_cases hnext : (w.exchange (command ++ dropCR seg)).step.control = .next
      · rw [if_pos hnext, if_pos hnext, ih]
        rfl
      · rw [if_neg hnext, if_neg hnext]
        rfl
    · rw [if_neg hend, if_neg hend, ih]

/-! ### One call -/

/-- A string and its NUL leave room in an array of `2 * BUFFER_SIZE` characters. -/
def StringCopy.Fits (c : StringCopy) : Prop := c.string.length + 1 < 2 * BUFFER_SIZE

section Call

variable {saved buff : Bytes} (hsaved : saved.length < BUFFER_SIZE)
  (hbuff : buff.length < BUFFER_SIZE)
include hsaved hbuff

/-- The copies of a call that starts with a short part of a line and receives a short delivery. -/
theorem scanCopies_fit (w : LoopState) : ∀ c ∈ scanCopies w saved [] buff, c.Fits := by
  intro c hc
  rw [scanCopies_eq] at hc
  unfold StringCopy.Fits
  rcases List.mem_append.mp hc with hc | hc
  · obtain ⟨x, hx, rfl⟩ := List.mem_map.mp hc
    have hline := length_of_mem_callLines (mem_callLines_of_exchange hx)
    simp only
    omega
  · unfold savedCopies at hc
    split at hc
    · obtain rfl := List.mem_singleton.mp hc
      have hrest := length_scan_recvBuffer w saved buff
      simp only
      omega
    · cases hc

end Call

/-! ### Runs -/

/-- The part of a line that any slot holds is shorter than a delivery may be. -/
def Server.SavedShort (sv : Server) : Prop := ∀ k, (sv.clients k).recvBuffer.length < BUFFER_SIZE

theorem call_recvBuffer (sv : Server) (slot : Nat) {o : Occurrence} {d : Delivery}
    (hrecv : o.recv = .data d) : (sv.call slot o).client.recvBuffer.length < BUFFER_SIZE := by
  have hd := d.fits
  have hcstr := length_cstr_le d.bytes
  have hsaved := length_scan_recvBuffer ⟨o.env, sv.shared, (sv.clients slot).session⟩
    (sv.clients slot).recvBuffer (cstr d.bytes)
  unfold Server.call handleClient
  rw [hrecv]
  exact Nat.lt_of_le_of_lt hsaved (by omega)

namespace Server

theorem SavedShort.served {sv : Server} (h : sv.SavedShort) {o : Occurrence} {d : Delivery}
    (hrecv : o.recv = .data d) : (sv.served o).SavedShort := by
  intro k
  change (update sv.clients sv.slot (sv.result o).client k).recvBuffer.length < BUFFER_SIZE
  rw [Function.update_apply]
  split
  · exact call_recvBuffer sv sv.slot hrecv
  · exact h k

theorem SavedShort.handleCloseClient {sv : Server} (h : sv.SavedShort) (index : Nat) :
    (sv.handleCloseClient index).SavedShort := by
  have hmoved : ∀ k, (update sv.clients (index - 2)
      (sv.clients (sv.clientCount - 1)) k).recvBuffer.length < BUFFER_SIZE := by
    intro k
    rw [Function.update_apply]
    split
    · exact h _
    · exact h k
  intro k
  simp only [Server.handleCloseClient]
  rw [Function.update_apply]
  split
  · exact hmoved _
  · exact hmoved k

/-- A new session starts with what was left in its slot. -/
theorem SavedShort.joined {sv : Server} (h : sv.SavedShort) (fd : Int) (ip : Bytes) :
    (sv.joined fd ip).SavedShort := by
  intro k
  simp only [Server.joined, Server.acceptClient, Server.addClient]
  rw [Function.update_apply]
  split
  · exact h sv.clientCount
  · exact h k

/-- **Step lemma.** -/
theorem SavedShort.next {sv : Server} (h : sv.SavedShort) {o : Occurrence} {d : Delivery}
    (hrecv : o.recv = .data d) : (sv.step o).server.SavedShort := by
  have hcase := sv.step_cases o
  have hserved := h.served hrecv
  generalize sv.step o = st at hcase ⊢
  cases hcase with
  | admitted _ _ _ _ => exact h.joined _ _
  | faulted _ _ _ _ => exact hserved
  | stayed _ _ _ _ _ => exact hserved
  | closed _ _ _ _ _ => exact hserved.handleCloseClient _
  | _ => exact h

end Server

/-- **In every run in which each `recv` returns between 1 and 1023 bytes, every call finds less than
`BUFFER_SIZE` characters in `recv_buffer`, and no copy fills one of the two arrays.** -/
theorem assembly_within_arrays (sh : Shared) (managerSocket : Int) {os : List Occurrence}
    (h : ∀ o ∈ os, ∃ d, o.recv = .data d) :
    ∀ x ∈ serverMachine.trace (Server.start sh managerSocket) os, ∀ slot,
      (x.1.clients slot).recvBuffer.length ≤ 1023 ∧ ∀ c ∈ x.1.callCopies slot x.2, c.Fits := by
  have hdata : ∀ x ∈ serverMachine.trace (Server.start sh managerSocket) os,
      ∃ d, x.2.recv = .data d := fun x hx =>
    h _ ((serverMachine.trace_inputs_initial _ os).subset (List.mem_map_of_mem hx))
  have hrun : ∀ x ∈ serverMachine.trace (Server.start sh managerSocket) os, x.1.SavedShort := by
    apply serverMachine.trace_induction Server.SavedShort
    · intro x hx hsaved _
      obtain ⟨d, hrecv⟩ := hdata x hx
      exact hsaved.next hrecv
    · intro _
      exact Nat.succ_pos 1023
  intro x hx slot
  have hsaved := hrun x hx slot
  obtain ⟨d, hrecv⟩ := hdata x hx
  refine ⟨Nat.le_of_lt_succ hsaved, ?_⟩
  unfold Server.callCopies handleClientCopies
  rw [hrecv]
  intro c hc
  rcases List.mem_cons.mp hc with rfl | hc
  · unfold StringCopy.Fits BUFFER_SIZE at *
    simp only
    omega
  · have hbuff : (cstr d.bytes).length < BUFFER_SIZE :=
      Nat.lt_of_le_of_lt (length_cstr_le d.bytes) d.fits
    exact scanCopies_fit hsaved hbuff _ c hc

def unfinishedLine : List Occurrence :=
  accepting 4 7 ++ roundOf 5 7 none (delivery "NOOP" (by decide))

/-- A client that sends the beginning of a line and no newline. -/
theorem assembly_within_arrays_unfinished :
    ((serverMachine.final (Server.start sampleShared 4) unfinishedLine).clients 0).recvBuffer =
        str "NOOP" ∧
      ∀ x ∈ serverMachine.trace (Server.start sampleShared 4) unfinishedLine, ∀ slot,
        (x.1.clients slot).recvBuffer.length ≤ 1023 ∧ ∀ c ∈ x.1.callCopies slot x.2, c.Fits := by
  refine ⟨by decide +kernel, assembly_within_arrays sampleShared 4 fun o ho => ?_⟩
  rcases List.mem_append.mp ho with ho | ho
  · exact ⟨_, congrArg Occurrence.recv (List.eq_of_mem_replicate ho)⟩
  · exact ⟨_, congrArg Occurrence.recv (List.eq_of_mem_replicate ho)⟩

end Pop3Server
