import Pop3Server.Deletion
import Pop3Server.FailedRecv

/-!
# One session over its calls

`handle_client` is called for a session each time its socket is readable, and
between two calls the other sessions run.  `CallHistory.along` carries what the
lines of a session keep over all of its calls, those included in which nothing is
received and the loop runs over what the local buffer held before.

Over such a run the session removes what it has marked, and only at QUIT
(`session_deletes_marked`); a disconnect can remove mail as soon as the local
buffer holds lines that nobody has sent.
-/

namespace Pop3Server

open Machine (Along)

/-- `recv` has returned bytes. -/
def Recv.received : Recv → Bool
  | .data _ => true
  | _ => false

/-- A call for one session, with what it finds: `stale` is what `buff`, an array of `BUFFER_SIZE`
characters, holds when the call begins. -/
structure ClientCall where
  env : Nat → Env
  shared : Shared
  recv : Recv
  stale : Bytes
  inArray : stale.length ≤ BUFFER_SIZE

def ClientCall.result (c : ClientCall) (cl : ClientData) : CallResult :=
  handleClient c.env c.shared cl c.recv c.stale

/-- The calls for one session, until the process ends or `main` closes the session. -/
def clientMachine : Machine ClientData ClientCall where
  next cl c := (c.result cl).client
  stop cl c := (c.result cl).control ≠ .next ∨
    Server.closes (c.result cl).client.session.clientState

def clientExchanges (cl : ClientData) (calls : List ClientCall) : List Exchange :=
  (clientMachine.trace cl calls).flatMap fun y => (y.2.result y.1).exchanges

/-- The files a call removes. -/
def CallResult.removes (r : CallResult) : List Bytes := r.exchanges.flatMap (·.step.removes)

/-! ### One call -/

/-- Whatever was received, the call is the loop over a string that `buff` has room for. -/
theorem ClientCall.result_eq_scan (c : ClientCall) (cl : ClientData) :
    ∃ buff s, c.result cl = scan ⟨c.env, c.shared, s⟩ cl.recvBuffer [] buff ∧
      buff.length ≤ BUFFER_SIZE ∧
      (s = cl.session ∨ s = { cl.session with clientState := .closing }) ∧
      (c.recv.received = false → buff = cstr c.stale) := by
  have hstale : (cstr c.stale).length ≤ BUFFER_SIZE :=
    Nat.le_trans (length_cstr_le c.stale) c.inArray
  obtain ⟨env, sh, recv, stale, inArray⟩ := c
  cases recv with
  | data d =>
    refine ⟨cstr d.bytes, _, rfl, ?_, .inl rfl, nofun⟩
    exact Nat.le_trans (length_cstr_le d.bytes) (Nat.le_of_lt d.fits)
  | closed => exact ⟨_, _, rfl, hstale, .inr rfl, fun _ => rfl⟩
  | again => exact ⟨_, _, rfl, hstale, .inl rfl, fun _ => rfl⟩
  | failed => exact ⟨_, _, rfl, hstale, .inl rfl, fun _ => rfl⟩

theorem ClientCall.length_recvBuffer (c : ClientCall) (cl : ClientData) :
    (c.result cl).client.recvBuffer.length ≤ BUFFER_SIZE := by
  obtain ⟨buff, s, hscan, hbuff, -, -⟩ := c.result_eq_scan cl
  rw [hscan]
  exact Nat.le_trans (length_scan_recvBuffer _ _ _) hbuff

/-- The lines of a call fit the array they are put together in. -/
theorem ClientCall.length_command {c : ClientCall} {cl : ClientData}
    (hsaved : cl.recvBuffer.length ≤ BUFFER_SIZE) {x : Exchange}
    (hx : x ∈ (c.result cl).exchanges) : x.command.length ≤ 2 * BUFFER_SIZE := by
  obtain ⟨buff, s, hscan, hbuff, -, -⟩ := c.result_eq_scan cl
  rw [hscan] at hx
  have hline := length_of_mem_callLines (mem_callLines_of_exchange hx)
  omega

/-- Nothing is run by a call that has received nothing and finds no newline. -/
theorem ClientCall.exchanges_eq_nil {c : ClientCall} (hrecv : c.recv.received = false)
    (hstale : LF ∉ cstr c.stale) (cl : ClientData) : (c.result cl).exchanges = [] := by
  obtain ⟨buff, s, hscan, -, -, hbuff⟩ := c.result_eq_scan cl
  rw [hscan, hbuff hrecv, scan_of_notMem hstale]

/-! ### The history of a session -/

/-- What the lines of a session keep, and a disconnect. -/
structure CallHistory (R : List Exchange → Session → Prop) : Prop where
  line : ∀ past x, R past x.session → x.step.control = .next → R (past ++ [x]) x.step.session
  hangup : ∀ past s, R past s → R past { s with clientState := .closing }

namespace CallHistory

variable {R : List Exchange → Session → Prop} (h : CallHistory R)
include h

/-- A line after the other. -/
theorem lines {past : List Exchange} {w : LoopState} (hw : R past w.session) (lines : List Bytes) :
    Along (exchanges w lines) (fun pre x => R (past ++ pre) x.session) ∧
      (commandMachine.Passes w lines →
        R (past ++ exchanges w lines) (commandMachine.final w lines).session) := by
  induction lines generalizing past w with
  | nil => exact ⟨Machine.along_nil _, fun _ => (List.append_nil past).symm ▸ hw⟩
  | cons c cs ih =>
    have hfirst : R (past ++ []) (w.exchange c).session := (List.append_nil past).symm ▸ hw
    cases hgo : commandMachine.stop w c with
    | true =>
      rw [exchanges_cons_stop hgo]
      refine ⟨Machine.along_cons hfirst (Machine.along_nil _), fun hpass => ?_⟩
      exact absurd hpass.1 (by simp [hgo])
    | false =>
      have hnext := h.line past (w.exchange c) hw (stop_eq_false_iff.mp hgo)
      obtain ⟨hrest, hfinal⟩ := ih (w := commandMachine.next w c) hnext
      rw [exchanges_cons_go hgo, Machine.final_cons_go _ hgo]
      simp only [List.append_assoc, List.singleton_append] at hrest hfinal
      exact ⟨Machine.along_cons hfirst hrest, fun hpass => hfinal hpass.2⟩

/-- **Call lemma.** -/
theorem call {past : List Exchange} {cl : ClientData} (hcl : R past cl.session) (c : ClientCall) :
    Along (c.result cl).exchanges (fun pre x => R (past ++ pre) x.session) ∧
      ((c.result cl).control = .next →
        R (past ++ (c.result cl).exchanges) (c.result cl).client.session) := by
  obtain ⟨buff, s, hscan, -, hs, -⟩ := c.result_eq_scan cl
  have hbegin : R past s := by
    rcases hs with rfl | rfl
    · exact hcl
    · exact h.hangup past _ hcl
  obtain ⟨halong, hfinal⟩ :=
    h.lines (w := ⟨c.env, c.shared, s⟩) hbegin (callLines cl.recvBuffer buff)
  rw [hscan, scan_exchanges, scan_control_next_iff, scan_session]
  exact ⟨halong, hfinal⟩

/-- **Run lemma.** The calls keep what the lines keep, and no line is too long for its array. -/
theorem along {past : List Exchange} {cl : ClientData} (hcl : R past cl.session)
    (hsaved : cl.recvBuffer.length ≤ BUFFER_SIZE) (calls : List ClientCall) :
    Along (clientExchanges cl calls) fun pre x =>
      R (past ++ pre) x.session ∧ x.command.length ≤ 2 * BUFFER_SIZE := by
  induction calls generalizing past cl with
  | nil => exact Machine.along_nil _
  | cons c cs ih =>
    obtain ⟨halong, hfinal⟩ := h.call hcl c
    have hcall : Along (c.result cl).exchanges fun pre x =>
        R (past ++ pre) x.session ∧ x.command.length ≤ 2 * BUFFER_SIZE := by
      intro pre x post hx
      have hmem : x ∈ (c.result cl).exchanges := hx ▸ List.mem_append_right _ List.mem_cons_self
      exact ⟨halong pre x post hx, ClientCall.length_command hsaved hmem⟩
    cases hgo : clientMachine.stop cl c with
    | true =>
      rw [clientExchanges, Machine.trace_cons_stop _ hgo, List.flatMap_singleton]
      exact hcall
    | false =>
      have hcontrol : (c.result cl).control = .next := by
        simp only [clientMachine, decide_eq_false_iff_not, not_or, not_not] at hgo
        exact hgo.1
      have hrest := ih (hfinal hcontrol) (c.length_recvBuffer cl)
      rw [clientExchanges, Machine.trace_cons_go _ hgo, List.flatMap_cons]
      simp only [List.append_assoc] at hrest
      exact Machine.along_append hcall hrest

end CallHistory

/-! ### What a session removes -/

theorem marksCallHistory : CallHistory MarksInvariant where
  line _ _ h hnext := h.step hnext
  hangup _ _ _ := ⟨⟨nofun, nofun⟩, nofun, nofun⟩

/-- Over the calls of a session QUIT in TRANSACTION removes the files of the messages deleted since
the last login and the last RSET, and nothing else removes a file: no other line, and no call in
which nothing is received. -/
structure RemovesMarked (baseDir : Bytes) (cl : ClientData) (calls : List ClientCall) : Prop where
  lines : Along (clientExchanges cl calls) (DeletesMarked baseDir)
  disconnects : ∀ y ∈ clientMachine.trace cl calls, y.2.recv.received = false →
    (y.2.result y.1).removes = []

/-- **A session removes the mail it has marked, at QUIT, and a disconnect removes none**, in every
run of calls in which a call that receives nothing finds no newline in its local buffer. -/
theorem session_deletes_marked {baseDir : Bytes} {calls : List ClientCall} {cl : ClientData}
    {fd : Int} {isManager : Bool} {ip : Bytes} {maildir : Option Maildir}
    (hnew : cl.session = newSession fd isManager ip maildir)
    (hsaved : cl.recvBuffer.length ≤ BUFFER_SIZE)
    (hbase : ∀ x ∈ clientExchanges cl calls, x.shared.pop3.baseDir = baseDir)
    (hstale : ∀ c ∈ calls, c.recv.received = false → LF ∉ cstr c.stale) :
    RemovesMarked baseDir cl calls := by
  have hmarks : MarksInvariant [] cl.session := hnew ▸ .begin fd isManager ip maildir
  constructor
  case lines =>
    intro pre x post hx
    obtain ⟨hinv, hfit⟩ := marksCallHistory.along hmarks hsaved calls pre x post hx
    have hshared : x.shared.pop3.baseDir = baseDir :=
      hbase x (hx ▸ List.mem_append_right _ List.mem_cons_self)
    exact hshared ▸ hinv.deletesMarked hfit
  case disconnects =>
    intro y hy hrecv
    have hcall : y.2 ∈ calls :=
      (clientMachine.trace_inputs_initial cl calls).subset (List.mem_map_of_mem hy)
    rw [CallResult.removes, y.2.exchanges_eq_nil hrecv (hstale _ hcall hrecv)]
    rfl

def newClient : ClientData := ⟨newSession 5 false (str "::1") none, []⟩

def sampleCall (recv : Recv) (stale : Bytes) (h : stale.length ≤ BUFFER_SIZE) : ClientCall :=
  ⟨fun _ => sampleEnv, sampleShared, recv, stale, h⟩

def markingCall : ClientCall :=
  sampleCall (.data (delivery "USER anna\r\nPASS secret\r\nDELE 1\r\nRSET\r\nDELE 3\r\n"
    (by decide))) [] (by decide)

example : (clientExchanges newClient [markingCall, sampleCall (.data (delivery "QUIT\r\n"
    (by decide))) [] (by decide)]).flatMap (·.step.removes) = [str "/mail/anna/cur/c"] := by
  decide +kernel

/-- A session that marks two messages and is cut off; its first line is left in the buffer. -/
theorem session_deletes_marked_cut_off :
    RemovesMarked (str "/mail/") newClient
      [markingCall, sampleCall .closed (str "USER anna") (by decide)] := by
  refine session_deletes_marked rfl (Nat.zero_le _) ?_ ?_
  · decide +kernel
  · intro c hc hrecv
    rcases List.mem_cons.mp hc with rfl | hc
    · cases hrecv
    · obtain rfl := List.mem_singleton.mp hc
      decide

/-- The disconnect of a session for which the local buffer holds the lines of another one. -/
def unsentLines : ClientCall :=
  sampleCall .closed (str "USER anna\r\nPASS secret\r\nDELE 1\r\nQUIT\r\n") (by decide)

theorem disconnect_removes :
    ¬ ∀ (baseDir : Bytes) (cl : ClientData) (calls : List ClientCall),
      (∃ fd isManager ip maildir, cl.session = newSession fd isManager ip maildir) →
      cl.recvBuffer = [] →
      (∀ x ∈ clientExchanges cl calls, x.shared.pop3.baseDir = baseDir) →
      RemovesMarked baseDir cl calls := by
  intro h
  have hruns := h (str "/mail/") newClient [unsentLines] ⟨5, false, str "::1", none, rfl⟩ rfl
    (by decide +kernel)
  have hnone := hruns.disconnects (newClient, unsentLines) List.mem_cons_self rfl
  have hremoved : (unsentLines.result newClient).removes = [str "/mail/anna/new/a"] := by
    decide +kernel
  cases hremoved.symm.trans hnone

end Pop3Server
