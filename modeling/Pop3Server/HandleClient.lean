import Pop3Server.Machine
import Pop3Server.Splitting
import Pop3Server.Dispatch

/-!
# One call of `handle_client`

`scan` is the loop over the received bytes: `command` holds what `strcpy` and
`strcat` have put there, `seg` the bytes from `aux_init` to `aux`.  A complete
line is dispatched at once, so the loop can end in the middle of a delivery when
a command returns from the function or ends the process.

`scan_of_passes` and `scan_of_halts` show what the loop amounts to: the lines of
the delivery, the first one behind the saved partial line, are run in order by
`commandMachine`, and only a run that gets through all of them saves the tail.
-/

namespace Pop3Server

open Splitting

/-- `Client_data`: the session and the partial line saved between calls. -/
structure ClientData where
  session : Session
  recvBuffer : Bytes
deriving DecidableEq

/-- Bytes returned by one successful `recv`: between 1 and `BUFFER_SIZE - 1`. -/
structure Delivery where
  bytes : Bytes
  nonempty : bytes ≠ []
  fits : bytes.length < BUFFER_SIZE

inductive Recv where
  | data (d : Delivery)
  | closed
  | again
  | failed

/-- `read_socket_buffer`: the string `buff` then holds and the state of the session.  When nothing
was received `buff` keeps its `stale` content, on which the loop runs all the same. -/
def readSocketBuffer (recv : Recv) (stale : Bytes) (st : ClientState) : Bytes × ClientState :=
  match recv with
  | .data d => (cstr d.bytes, st)
  | .closed => (cstr stale, .closing)
  | .again => (cstr stale, st)
  | .failed => (cstr stale, st)

/-- A command line as it is dispatched, with what it is dispatched in. -/
structure Exchange where
  env : Env
  shared : Shared
  session : Session
  command : Bytes

def Exchange.step (x : Exchange) : Step := dispatch x.env x.shared x.session x.command

/-- The switch was reached: no assertion failed on the way to it. -/
def Exchange.dispatched (x : Exchange) : Bool := x.step.control ≠ .fault .assertion

/-- The exchange logs its session in, which calls `load_user_structure`. -/
def Exchange.loads (x : Exchange) : Bool :=
  x.session.clientState == .authorization && x.step.session.clientState == .transaction

def dispatchedCommands (xs : List Exchange) : List Bytes :=
  (xs.filter (·.dispatched)).map (·.command)

/-- What a call leaves behind, and the commands it went through. -/
structure CallResult where
  exchanges : List Exchange
  client : ClientData
  shared : Shared
  control : Control

/-- A CR in front of the newline is overwritten, when it is in the buffer. -/
def dropCR (seg : Bytes) : Bytes := if seg.getLast? = some CR then seg.dropLast else seg

/-- What the loop carries from one command to the next; `env k` is what the `k`-th command from
here on finds. -/
structure LoopState where
  env : Nat → Env
  shared : Shared
  session : Session

def LoopState.exchange (w : LoopState) (command : Bytes) : Exchange :=
  ⟨w.env 0, w.shared, w.session, command⟩

def LoopState.after (w : LoopState) (st : Step) : LoopState :=
  ⟨fun k => w.env (k + 1), st.shared, st.session⟩

/-- The loop of `handle_client`. -/
def scan (w : LoopState) (command seg : Bytes) : Bytes → CallResult
  | [] => ⟨[], ⟨w.session, seg⟩, w.shared, .next⟩
  | aux :: rest =>
    if aux = LF then
      let x := w.exchange (command ++ dropCR seg)
      if x.step.control = .next then
        let r := scan (w.after x.step) [] [] rest
        { r with exchanges := x :: r.exchanges }
      else ⟨[x], ⟨x.step.session, []⟩, x.step.shared, x.step.control⟩
    else scan w command (seg ++ [aux]) rest

def handleClient (env : Nat → Env) (sh : Shared) (cl : ClientData) (recv : Recv)
    (stale : Bytes) : CallResult :=
  let r := readSocketBuffer recv stale cl.session.clientState
  scan ⟨env, sh, { cl.session with clientState := r.2 }⟩ cl.recvBuffer [] r.1

/-! ### The loop as a run over the lines -/

/-- Running commands one after another until one does not return to the loop. -/
def commandMachine : Machine LoopState Bytes where
  next w c := w.after (w.exchange c).step
  stop w c := (w.exchange c).step.control ≠ .next

def exchanges (w : LoopState) (lines : List Bytes) : List Exchange :=
  (commandMachine.trace w lines).map fun x => x.1.exchange x.2

/-- The lines a call sees in the bytes `buff` behind the saved partial line. -/
def callLines (saved buff : Bytes) : List Bytes :=
  match complete LF buff with
  | [] => []
  | seg :: segs => (saved ++ dropCR seg) :: segs.map dropCR

theorem callLines_of_notMem {buff : Bytes} (h : LF ∉ buff) (saved : Bytes) :
    callLines saved buff = [] := by
  simp [callLines, complete_of_notMem h]

theorem callLines_append_piece {seg : Bytes} (h : LF ∉ seg) (saved buff : Bytes) :
    callLines saved (seg ++ LF :: buff) = (saved ++ dropCR seg) :: callLines [] buff := by
  simp only [callLines, complete_append_piece h]
  rcases complete LF buff with _ | ⟨s, segs⟩ <;> simp

theorem stop_eq_false_iff {w : LoopState} {c : Bytes} :
    commandMachine.stop w c = false ↔ (w.exchange c).step.control = .next := by
  simp [commandMachine]

theorem stop_eq_true_iff {w : LoopState} {c : Bytes} :
    commandMachine.stop w c = true ↔ (w.exchange c).step.control ≠ .next := by
  simp [commandMachine]

theorem exchanges_cons_go {w : LoopState} {c : Bytes} (h : commandMachine.stop w c = false)
    (cs : List Bytes) :
    exchanges w (c :: cs) = w.exchange c :: exchanges (commandMachine.next w c) cs := by
  rw [exchanges, Machine.trace_cons_go _ h]; rfl

theorem exchanges_cons_stop {w : LoopState} {c : Bytes} (h : commandMachine.stop w c = true)
    (cs : List Bytes) : exchanges w (c :: cs) = [w.exchange c] := by
  rw [exchanges, Machine.trace_cons_stop _ h]; rfl

theorem exchanges_pair {w : LoopState} {c : Bytes} (h : commandMachine.stop w c = false)
    (d : Bytes) :
    exchanges w [c, d] = [w.exchange c, (commandMachine.next w c).exchange d] := by
  rw [exchanges_cons_go h]
  simp [exchanges, Machine.trace]

theorem exchanges_append {w : LoopState} {lines : List Bytes} (h : commandMachine.Passes w lines)
    (more : List Bytes) :
    exchanges w (lines ++ more) =
      exchanges w lines ++ exchanges (commandMachine.final w lines) more := by
  rw [exchanges, Machine.trace_append _ h, List.map_append]
  rfl

theorem exchanges_append_of_not_passes {w : LoopState} {lines : List Bytes}
    (h : ¬ commandMachine.Passes w lines) (more : List Bytes) :
    exchanges w (lines ++ more) = exchanges w lines := by
  rw [exchanges, Machine.trace_append_of_not_passes _ h]
  rfl

theorem exchanges_commands (w : LoopState) (lines : List Bytes) :
    (exchanges w lines).map (·.command) = (commandMachine.trace w lines).map Prod.snd := by
  simp [exchanges, LoopState.exchange, Function.comp_def]

theorem exchanges_split {w : LoopState} {lines : List Bytes} {pre : List Exchange} {x : Exchange}
    {post : List Exchange} (h : exchanges w lines = pre ++ x :: post) :
    commandMachine.Passes w (pre.map (·.command)) ∧
      x = (commandMachine.final w (pre.map (·.command))).exchange x.command ∧
      pre.map (·.command) ++ [x.command] <+: lines := by
  have hinputs := Machine.trace_inputs_initial commandMachine w lines
  rw [← exchanges_commands, h] at hinputs
  obtain ⟨tpre, tpost, htrace, rfl, htpost⟩ := List.map_eq_append_iff.mp h
  obtain ⟨t, tpost', rfl, rfl, rfl⟩ := List.map_eq_cons_iff.mp htpost
  obtain ⟨hpass, hstate⟩ := commandMachine.trace_split htrace
  have hcommands : (tpre.map fun x => x.1.exchange x.2).map (·.command) = tpre.map Prod.snd := by
    simp [LoopState.exchange, Function.comp_def]
  refine ⟨hcommands ▸ hpass, ?_, ?_⟩
  · rw [hcommands, ← hstate]; rfl
  · simp only [List.map_append, List.map_cons] at hinputs
    exact (List.prefix_append_right_inj _ |>.mpr (by simp)).trans hinputs

theorem final_env (w : LoopState) (lines : List Bytes) :
    (commandMachine.final w lines).env = fun k => w.env (k + (exchanges w lines).length) := by
  induction lines generalizing w with
  | nil => rfl
  | cons c cs ih =>
    cases hgo : commandMachine.stop w c with
    | true => rw [Machine.final_cons_stop _ hgo, exchanges_cons_stop hgo]; rfl
    | false =>
      rw [Machine.final_cons_go _ hgo, exchanges_cons_go hgo, ih]
      funext k
      exact congrArg w.env (by simp; omega)

/-- How the last command of a run leaves the loop. -/
def lastControl : List Exchange → Control
  | [] => .next
  | [x] => x.step.control
  | _ :: y :: xs => lastControl (y :: xs)

theorem scan_seg {w : LoopState} {command seg more : Bytes} (h : LF ∉ more) (buff : Bytes) :
    scan w command seg (more ++ buff) = scan w command (seg ++ more) buff := by
  induction more generalizing seg with
  | nil => simp
  | cons a more ih =>
    simp only [List.mem_cons, not_or] at h
    rw [List.cons_append, scan, if_neg (fun e => h.1 e.symm), ih h.2]
    simp

theorem scan_line_go {w : LoopState} {command seg : Bytes}
    (h : commandMachine.stop w (command ++ dropCR seg) = false) (buff : Bytes) :
    scan w command seg (LF :: buff) =
      let r := scan (commandMachine.next w (command ++ dropCR seg)) [] [] buff
      { r with exchanges := w.exchange (command ++ dropCR seg) :: r.exchanges } := by
  rw [scan, if_pos rfl]
  simp only
  rw [if_pos (stop_eq_false_iff.mp h)]
  rfl

theorem scan_line_stop {w : LoopState} {command seg : Bytes}
    (h : commandMachine.stop w (command ++ dropCR seg) = true) (buff : Bytes) :
    scan w command seg (LF :: buff) =
      let x := w.exchange (command ++ dropCR seg)
      ⟨[x], ⟨x.step.session, []⟩, x.step.shared, x.step.control⟩ := by
  rw [scan, if_pos rfl]
  simp only
  rw [if_neg (stop_eq_true_iff.mp h)]

/-- **A call whose commands all return has run every line and saved the tail.** -/
theorem scan_of_passes (buff : Bytes) {w : LoopState} {saved : Bytes}
    (h : commandMachine.Passes w (callLines saved buff)) :
    scan w saved [] buff =
      let v := commandMachine.final w (callLines saved buff)
      ⟨exchanges w (callLines saved buff), ⟨v.session, rest LF buff⟩, v.shared, .next⟩ := by
  induction buff using Splitting.induction (d := LF) generalizing w saved with
  | htail t ht =>
    have hscan := @scan_seg w saved [] t ht []
    rw [List.append_nil] at hscan
    rw [hscan, callLines_of_notMem ht, rest_of_notMem ht]
    rfl
  | hpiece seg buff hseg ih =>
    rw [callLines_append_piece hseg] at h ⊢
    obtain ⟨hgo, hpass⟩ := h
    rw [scan_seg hseg, List.nil_append, scan_line_go hgo, ih hpass, rest_append_piece hseg,
      exchanges_cons_go hgo, Machine.final_cons_go _ hgo]

/-- **A call stopped by one of its commands has run the lines up to it and saves nothing.** -/
theorem scan_of_halts (buff : Bytes) {w : LoopState} {saved : Bytes}
    (h : ¬ commandMachine.Passes w (callLines saved buff)) :
    scan w saved [] buff =
      let v := commandMachine.final w (callLines saved buff)
      ⟨exchanges w (callLines saved buff), ⟨v.session, []⟩, v.shared,
        lastControl (exchanges w (callLines saved buff))⟩ := by
  induction buff using Splitting.induction (d := LF) generalizing w saved with
  | htail t ht =>
    rw [callLines_of_notMem ht] at h
    exact absurd trivial h
  | hpiece seg buff hseg ih =>
    rw [callLines_append_piece hseg] at h ⊢
    rw [scan_seg hseg, List.nil_append]
    cases hgo : commandMachine.stop w (saved ++ dropCR seg) with
    | true =>
      rw [scan_line_stop hgo, exchanges_cons_stop hgo, Machine.final_cons_stop _ hgo]
      rfl
    | false =>
      have hrest : ¬ commandMachine.Passes (commandMachine.next w (saved ++ dropCR seg))
          (callLines [] buff) := fun hp => h ⟨hgo, hp⟩
      rw [scan_line_go hgo, ih hrest, exchanges_cons_go hgo, Machine.final_cons_go _ hgo]
      -- the rest of the run is not empty: the machine has a line left to halt on
      cases hl : callLines [] buff with
      | nil => rw [hl] at hrest; exact absurd trivial hrest
      | cons c cs =>
        cases hc : commandMachine.stop (commandMachine.next w (saved ++ dropCR seg)) c with
        | true => rw [exchanges_cons_stop hc]; rfl
        | false => rw [exchanges_cons_go hc]; rfl

theorem scan_exchanges (w : LoopState) (saved buff : Bytes) :
    (scan w saved [] buff).exchanges = exchanges w (callLines saved buff) := by
  by_cases h : commandMachine.Passes w (callLines saved buff)
  · rw [scan_of_passes buff h]
  · rw [scan_of_halts buff h]

theorem lastControl_ne_next {w : LoopState} {lines : List Bytes}
    (h : ¬ commandMachine.Passes w lines) : lastControl (exchanges w lines) ≠ .next := by
  induction lines generalizing w with
  | nil => exact absurd trivial h
  | cons c cs ih =>
    cases hgo : commandMachine.stop w c with
    | true => rw [exchanges_cons_stop hgo]; exact stop_eq_true_iff.mp hgo
    | false =>
      have hrest : ¬ commandMachine.Passes (commandMachine.next w c) cs := fun hp => h ⟨hgo, hp⟩
      have := ih hrest
      rw [exchanges_cons_go hgo]
      cases hx : exchanges (commandMachine.next w c) cs with
      | nil => rw [hx] at this; exact absurd rfl this
      | cons y ys => rw [hx] at this; exact this

theorem lastControl_of_passes {w : LoopState} {lines : List Bytes}
    (h : commandMachine.Passes w lines) : lastControl (exchanges w lines) = .next := by
  induction lines generalizing w with
  | nil => rfl
  | cons c cs ih =>
    obtain ⟨hgo, hrest⟩ := h
    have hlast := ih hrest
    rw [exchanges_cons_go hgo]
    cases hx : exchanges (commandMachine.next w c) cs with
    | nil => exact stop_eq_false_iff.mp hgo
    | cons y ys => rw [hx] at hlast; exact hlast

theorem scan_control (w : LoopState) (saved buff : Bytes) :
    (scan w saved [] buff).control = lastControl (exchanges w (callLines saved buff)) := by
  by_cases h : commandMachine.Passes w (callLines saved buff)
  · rw [scan_of_passes buff h, lastControl_of_passes h]
  · rw [scan_of_halts buff h]

theorem scan_session (w : LoopState) (saved buff : Bytes) :
    (scan w saved [] buff).client.session =
      (commandMachine.final w (callLines saved buff)).session := by
  by_cases h : commandMachine.Passes w (callLines saved buff)
  · rw [scan_of_passes buff h]
  · rw [scan_of_halts buff h]

theorem scan_shared (w : LoopState) (saved buff : Bytes) :
    (scan w saved [] buff).shared = (commandMachine.final w (callLines saved buff)).shared := by
  by_cases h : commandMachine.Passes w (callLines saved buff)
  · rw [scan_of_passes buff h]
  · rw [scan_of_halts buff h]

theorem scan_control_next_iff (w : LoopState) (saved buff : Bytes) :
    (scan w saved [] buff).control = .next ↔ commandMachine.Passes w (callLines saved buff) := by
  constructor
  · intro hc
    by_contra h
    rw [scan_of_halts buff h] at hc
    exact lastControl_ne_next h hc
  · intro h
    rw [scan_of_passes buff h]

end Pop3Server
