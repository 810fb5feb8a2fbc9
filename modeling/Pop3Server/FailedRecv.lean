import Pop3Server.Framing
import Pop3Server.Server

/-!
# Calls in which nothing is received

Where `recv` returns no bytes, `read_socket_buffer` leaves the local buffer of
`handle_client` as it is, and the loop runs over what was there before.  The
partial line of the session has been taken out of its buffer by then.
`failed_recv_iff` says for which contents of the local buffer nothing comes of it.
-/

namespace Pop3Server

open Splitting

/-- The call returns, and no command was dispatched, nothing written and nothing changed. -/
structure NothingExecuted (sh : Shared) (cl : ClientData) (r : CallResult) : Prop where
  returns : ∀ f, r.control ≠ .fault f
  dispatched : dispatchedCommands r.exchanges = []
  effects : r.exchanges.flatMap (·.step.effects) = []
  maildir : r.client.session.maildir = cl.session.maildir
  shared : r.shared = sh

/-- What is asked of a call for each outcome of `recv`: the session is about to be closed after a
disconnect or an error, and exactly as before when there was nothing to receive. -/
def FailsCleanly (sh : Shared) (cl : ClientData) (r : CallResult) : Recv → Prop
  | .data _ => True
  | .closed => NothingExecuted sh cl r ∧ Server.closes r.client.session.clientState = true
  | .failed => NothingExecuted sh cl r ∧ Server.closes r.client.session.clientState = true
  | .again => NothingExecuted sh cl r ∧ r.client = cl

/-- The contents `stale` of the local buffer with which nothing comes of the call. -/
def Harmless (cl : ClientData) (stale : Bytes) : Recv → Prop
  | .data _ => True
  | .closed => LF ∉ cstr stale
  | .failed => LF ∉ cstr stale ∧ Server.closes cl.session.clientState = true
  | .again => LF ∉ cstr stale ∧ cstr stale = cl.recvBuffer

/-- Without a newline the loop takes up no line and saves all of the buffer. -/
theorem scan_of_notMem {buff : Bytes} (h : LF ∉ buff) (w : LoopState) (saved : Bytes) :
    scan w saved [] buff = ⟨[], ⟨w.session, buff⟩, w.shared, .next⟩ := by
  have hscan := @scan_seg w saved [] buff h []
  rw [List.append_nil] at hscan
  exact hscan

theorem callLines_ne_nil {buff : Bytes} (h : LF ∈ buff) (saved : Bytes) :
    callLines saved buff ≠ [] := by
  apply List.ne_nil_of_length_pos
  rw [length_callLines]
  exact List.count_pos_iff.mpr h

/-- A call that takes up a line dispatches it, unless it ends the process. -/
theorem executed_of_lines {w : LoopState} {lines : List Bytes} (h : lines ≠ []) :
    (∃ f, lastControl (exchanges w lines) = .fault f) ∨
      dispatchedCommands (exchanges w lines) ≠ [] := by
  obtain ⟨c, cs, rfl⟩ := List.exists_cons_of_ne_nil h
  by_cases hassert : (w.exchange c).step.control = .fault .assertion
  · have hstop : commandMachine.stop w c = true := by
      apply stop_eq_true_iff.mpr
      rw [hassert]
      nofun
    rw [exchanges_cons_stop hstop]
    exact .inl ⟨_, hassert⟩
  · have hdispatched : (w.exchange c).dispatched = true := decide_eq_true hassert
    have hfirst : ∃ xs, exchanges w (c :: cs) = w.exchange c :: xs := ⟨_, rfl⟩
    obtain ⟨xs, hxs⟩ := hfirst
    rw [hxs, dispatchedCommands, List.filter_cons_of_pos hdispatched]
    exact .inr (List.cons_ne_nil _ _)

theorem notMem_of_nothingExecuted {w : LoopState} {sh : Shared} {cl : ClientData}
    {saved buff : Bytes} (h : NothingExecuted sh cl (scan w saved [] buff)) : LF ∉ buff := by
  intro hmem
  have hreturns := h.returns
  have hdispatched := h.dispatched
  rw [scan_control] at hreturns
  rw [scan_exchanges] at hdispatched
  rcases executed_of_lines (callLines_ne_nil hmem saved) with ⟨f, hf⟩ | hsome
  · exact hreturns f hf
  · exact hsome hdispatched

theorem nothingExecuted_iff {sh : Shared} {cl : ClientData} {env : Nat → Env} (s : Session)
    (hmaildir : s.maildir = cl.session.maildir) (saved buff : Bytes) :
    NothingExecuted sh cl (scan ⟨env, sh, s⟩ saved [] buff) ↔ LF ∉ buff := by
  constructor
  · exact notMem_of_nothingExecuted
  · intro h
    rw [scan_of_notMem h]
    exact ⟨nofun, rfl, rfl, hmaildir, rfl⟩

/-- **A call in which nothing is received comes to nothing exactly when the local buffer holds no
newline and what it holds is what the session had saved, or the session is to be closed anyway.** -/
theorem failed_recv_iff (env : Nat → Env) (sh : Shared) (cl : ClientData) (recv : Recv)
    (stale : Bytes) :
    FailsCleanly sh cl (handleClient env sh cl recv stale) recv ↔ Harmless cl stale recv := by
  cases recv with
  | data d => exact Iff.rfl
  | closed =>
    have hcall : handleClient env sh cl .closed stale =
        scan ⟨env, sh, { cl.session with clientState := .closing }⟩ cl.recvBuffer []
          (cstr stale) := rfl
    rw [FailsCleanly, hcall, nothingExecuted_iff { cl.session with clientState := .closing } rfl]
    apply and_iff_left_of_imp
    intro hnot
    rw [scan_of_notMem hnot]
    rfl
  | failed =>
    have hcall : handleClient env sh cl .failed stale =
        scan ⟨env, sh, cl.session⟩ cl.recvBuffer [] (cstr stale) := rfl
    rw [FailsCleanly, hcall, nothingExecuted_iff cl.session rfl]
    apply and_congr_right
    intro hnot
    rw [scan_of_notMem hnot]
  | again =>
    have hcall : handleClient env sh cl .again stale =
        scan ⟨env, sh, cl.session⟩ cl.recvBuffer [] (cstr stale) := rfl
    rw [FailsCleanly, hcall, nothingExecuted_iff cl.session rfl]
    apply and_congr_right
    intro hnot
    rw [scan_of_notMem hnot]
    constructor
    · intro h
      exact congrArg ClientData.recvBuffer h
    · intro h
      rw [h]

/-- After an error a session is neither closed nor left as it was. -/
theorem failed_recv_stays :
    ¬ ∀ (env : Nat → Env) (sh : Shared) (cl : ClientData) (recv : Recv) (stale : Bytes),
      FailsCleanly sh cl (handleClient env sh cl recv stale) recv := by
  intro h
  obtain ⟨-, hcloses⟩ := h (fun _ => sampleEnv) sampleShared
    ⟨newSession 5 false (str "::1") none, []⟩ .failed (str "NOOP")
  revert hcloses
  decide

end Pop3Server
