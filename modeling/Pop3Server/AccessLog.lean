import Pop3Server.Rounds
import Pop3Server.Service
import Pop3Server.Splitting

/-!
# The access log (`log_connection`)

Every connection, command and disconnect leaves a line in `connections.log`.
`readLog` takes such a file apart again, and `Server.log_reads_back` says what a
reader learns from it: the events of all sessions in their order, each with the
address its session has connected from.

`handle_close_client` frees the address that lies in the last slot, which is that
of the session it has just moved unless it has closed the last one.  The lines of
a moved session are written from freed memory (`Server.written`), so that only
the log of a run that moves no session can be read.
-/

namespace Pop3Server

open Function (update)
open Splitting

/-! ### The file -/

structure LogEntry where
  message : Bytes
  timestamp : Bytes
  ip : Bytes
deriving DecidableEq, Repr

namespace LogEntry

def CLOSE : Byte := 41

def LBRACKET : Byte := 91

def RBRACKET : Byte := 93

/-- The line of an entry, without its line feed. -/
def line (e : LogEntry) : Bytes :=
  str "(" ++ e.message ++ str ")->[" ++ e.timestamp ++ str "] " ++ e.ip

/-- A message that ends where its line says. -/
def CleanMessage (message : Bytes) : Prop :=
  LF ∉ message ∧ CLOSE ∉ message ∧ LBRACKET ∉ message

instance (message : Bytes) : Decidable (CleanMessage message) :=
  inferInstanceAs (Decidable (_ ∧ _))

/-- No field has a character that ends it. -/
structure Plain (e : LogEntry) : Prop where
  message : CleanMessage e.message
  timestamp : LF ∉ e.timestamp ∧ RBRACKET ∉ e.timestamp
  ip : LF ∉ e.ip

/-- The fields of a line. -/
def read (line : Bytes) : Option LogEntry := do
  let stamped ← after LBRACKET line.tail
  let address ← after RBRACKET stamped
  return ⟨before CLOSE line.tail, before RBRACKET stamped, address.tail⟩

end LogEntry

def readLog (file : Bytes) : List (Option LogEntry) := (complete LF file).map LogEntry.read

example : readLog (str "(Noop command)->[Mon Jan  1 00:00:00 2024] ::1\n") =
    [some ⟨str "Noop command", str "Mon Jan  1 00:00:00 2024", str "::1"⟩] := by decide +kernel

/-- **The fields of an entry are read back from its line.** -/
theorem LogEntry.read_line {e : LogEntry} (h : e.Plain) : LogEntry.read e.line = some e := by
  obtain ⟨message, timestamp, ip⟩ := e
  have htail : (LogEntry.line ⟨message, timestamp, ip⟩).tail =
      (message ++ str ")->") ++ LBRACKET :: (timestamp ++ RBRACKET :: (str " " ++ ip)) := by
    simp [LogEntry.line, str, LBRACKET, RBRACKET]
  have hclose : (message ++ str ")->") ++ LBRACKET :: (timestamp ++ RBRACKET :: (str " " ++ ip)) =
      message ++ CLOSE :: (str "->[" ++ timestamp ++ RBRACKET :: (str " " ++ ip)) := by
    simp [str, CLOSE, LBRACKET]
  have hbracket : LBRACKET ∉ message ++ str ")->" := by
    rw [List.mem_append, not_or]
    exact ⟨h.message.2.2, by decide⟩
  have hbefore : before CLOSE (LogEntry.line ⟨message, timestamp, ip⟩).tail = message := by
    rw [htail, hclose]
    exact before_append_piece h.message.2.1 _
  unfold LogEntry.read
  rw [hbefore, htail, after_append_piece hbracket]
  simp only [Option.bind_eq_bind, Option.bind_some]
  rw [after_append_piece h.timestamp.2, before_append_piece h.timestamp.2]
  rfl

theorem LogEntry.notMem_line {e : LogEntry} (h : e.Plain) : LF ∉ e.line := by
  have hfixed : LF ∉ str "(" ∧ LF ∉ str ")->[" ∧ LF ∉ str "] " := by decide
  simp only [LogEntry.line, List.mem_append, not_or]
  exact ⟨⟨⟨⟨⟨hfixed.1, h.message.1⟩, hfixed.2.1⟩, h.timestamp.1⟩, hfixed.2.2⟩, h.ip⟩

/-- Entries appended to a file of complete lines are read behind those that were there. -/
theorem readLog_append {file : Bytes} (hfile : rest LF file = []) {entries : List LogEntry}
    (hplain : ∀ e ∈ entries, e.Plain) :
    readLog (file ++ (entries.map fun e => e.line ++ [LF]).flatten) =
      readLog file ++ entries.map some := by
  have hlines : complete LF (entries.map fun e => e.line ++ [LF]).flatten =
      entries.map LogEntry.line := by
    induction entries with
    | nil => rfl
    | cons e entries ih =>
      obtain ⟨he, hrest⟩ := List.forall_mem_cons.mp hplain
      rw [List.map_cons, List.flatten_cons, List.append_assoc, List.singleton_append,
        complete_append_piece (LogEntry.notMem_line he), ih hrest]
      rfl
  rw [readLog, complete_append, hfile, List.nil_append, hlines, List.map_append, List.map_map]
  congr 1
  apply List.map_congr_left
  intro e he
  exact LogEntry.read_line (hplain e he)

/-! ### What is logged -/

def Effect.logged? : Effect → Option Bytes
  | .log line => some line
  | _ => none

def ServerStep.logged (st : ServerStep) : List Bytes :=
  st.effects.filterMap fun e => e.2.logged?

/-- What a run appends to the log. -/
def Server.logged (sv : Server) (os : List Occurrence) : Bytes :=
  ((serverMachine.trace sv os).flatMap fun x => (x.1.step x.2).logged).flatten

/-- The message of a line; one that does not fit the buffer ends the process before it is logged. -/
def Exchange.message? (x : Exchange) : Option Bytes :=
  if x.command.length ≤ 2 * BUFFER_SIZE then some (commandEntry x.command).message else none

def SessionEvent.message? : SessionEvent → Option Bytes
  | .opened _ _ _ => some (str "Connection established")
  | .line x => x.message?
  | .hangup => none
  | .left => some (str "Disconnected")

def Exchange.entry? (x : Exchange) : Option LogEntry :=
  x.message?.map fun message => ⟨message, x.env.ctime, x.session.ip⟩

/-- The entries of a turn, each with the number of its session. -/
def Server.logEntries (sv : Server) (r : Roster) (o : Occurrence) : List (Nat × LogEntry) :=
  match (sv.step o).event with
  | .quiet => []
  | .opened _ =>
    (sv.accepts o).toList.map fun c =>
      (r.admitted, LogEntry.mk (str "Connection established") (o.env 0).ctime c.2)
  | .served slot xs closed =>
    (xs.filterMap Exchange.entry? ++ if closed then
        [LogEntry.mk (str "Disconnected") (o.env xs.length).ctime
          (sv.call slot o).client.session.ip]
      else []).map (Prod.mk (r.owner slot))

/-- No arm writes to the log by itself. -/
theorem Outcome.logged_eq {env : Env} {sh : Shared} {s : Session} {comm : Pop3Command}
    {arg : Option Bytes} {st : Step} (h : Outcome env sh s comm arg st) :
    st.effects.filterMap Effect.logged? = [] := by
  have hsends : ∀ answers : List Bytes, (answers.map .send).filterMap Effect.logged? = [] := by
    intro answers
    rw [List.filterMap_map]
    exact List.filterMap_eq_nil_iff.mpr fun _ _ => rfl
  have hcloses : ∀ fds : List Int, (fds.map .close).filterMap Effect.logged? = [] := by
    intro fds
    rw [List.filterMap_map]
    exact List.filterMap_eq_nil_iff.mpr fun _ _ => rfl
  cases h with
  | told _ answers _ _ => exact hsends answers
  | dangling _ _ answers => exact hsends answers
  | configured _ _ _ _ _ closes => exact hcloses closes
  | quitMailbox _ _ _ =>
    have hremoves : ∀ paths : List Bytes, (paths.map .remove).filterMap Effect.logged? = [] := by
      intro paths
      rw [List.filterMap_map]
      exact List.filterMap_eq_nil_iff.mpr fun _ _ => rfl
    rw [List.cons_append, List.filterMap_cons_none rfl, List.filterMap_append, hremoves]
    rfl
  | _ => rfl

/-- **A command is logged once, under its name, before it is executed.** -/
theorem Exchange.logged_eq (x : Exchange) :
    x.step.effects.filterMap Effect.logged? =
      (x.entry?.map fun e => e.line ++ [LF]).toList := by
  unfold Exchange.entry? Exchange.message? Exchange.step
  by_cases hfit : x.command.length ≤ 2 * BUFFER_SIZE
  case neg =>
    rw [dispatch_of_huge (Nat.lt_of_not_le hfit), if_neg hfit]
    rfl
  rw [if_pos hfit]
  by_cases h4 : x.command.length < 4
  · rw [dispatch_of_short h4]
    rfl
  · have hout := execute_outcome x.env x.shared x.session (getCommandValue x.command)
      (argument x.command) (cstr (x.command.drop 5))
    rw [dispatch_of_long (Nat.le_of_not_lt h4) hfit]
    simp only
    have hlogged : (commandLog x.env x.session x.command).logged? = some
        ((LogEntry.mk (commandEntry x.command).message x.env.ctime x.session.ip).line ++ [LF]) :=
      rfl
    rw [List.filterMap_cons_some hlogged, hout.logged_eq]
    rfl

theorem logged_exchanges (fd : Int) (xs : List Exchange) :
    ((xs.flatMap (·.step.effects)).map (Prod.mk fd)).filterMap (fun e => e.2.logged?) =
      (xs.filterMap Exchange.entry?).map fun e => e.line ++ [LF] := by
  rw [List.filterMap_map, List.filterMap_flatMap]
  induction xs with
  | nil => rfl
  | cons x xs ih =>
    have hx : x.step.effects.filterMap ((fun e => e.2.logged?) ∘ Prod.mk fd) =
        (x.entry?.map fun e => e.line ++ [LF]).toList := x.logged_eq
    rw [List.flatMap_cons, ih, hx]
    cases hentry : x.entry? with
    | none => rw [List.filterMap_cons_none hentry]; rfl
    | some e => rw [List.filterMap_cons_some hentry]; rfl

namespace Server

/-- **The lines a turn appends are those of its entries.** -/
theorem logged_step {sv : Server} (hroom : sv.clientCount ≤ MAX_CLIENTS) (r : Roster)
    (o : Occurrence) :
    (sv.step o).logged = (sv.logEntries r o).map fun e => e.2.line ++ [LF] := by
  have hcase := sv.step_cases o
  unfold logEntries ServerStep.logged
  generalize sv.step o = st at hcase ⊢
  cases hcase with
  | admitted hevent hlisten hsome _ =>
    simp only [accepts_of_event hevent hlisten, hsome]
    rfl
  | refused _ _ _ hfull => exact absurd hroom (Nat.not_le_of_lt hfull)
  | faulted _ _ _ _ =>
    simp only [Bool.false_eq_true, if_false, List.append_nil, List.map_map]
    exact logged_exchanges _ _
  | stayed _ _ _ _ _ =>
    simp only [Bool.false_eq_true, if_false, List.append_nil, List.map_map]
    exact logged_exchanges _ _
  | closed _ _ _ _ _ =>
    have hip : ((sv.served o).clients (sv.index - 2)).session.ip =
        (sv.call sv.slot o).client.session.ip := by
      change (update sv.clients sv.slot (sv.result o).client sv.slot).session.ip = _
      rw [Function.update_self]
      rfl
    have hleft : ((sv.served o).closeEffects sv.index
        (o.env (sv.result o).exchanges.length).ctime).filterMap (fun e => e.2.logged?) =
        [(LogEntry.mk (str "Disconnected") (o.env (sv.result o).exchanges.length).ctime
          (sv.call sv.slot o).client.session.ip).line ++ [LF]] := by
      rw [← hip]
      rfl
    simp only [if_true, List.map_map, List.filterMap_append, hleft]
    rw [List.map_append]
    exact congrArg (· ++ _) (logged_exchanges _ _)
  | _ => rfl

/-- **The entries of a turn are those of what happens to its session.** -/
theorem messages_step (sv : Server) (r : Roster) (o : Occurrence) :
    (sv.logEntries r o).map (fun e => (e.1, e.2.message)) =
      (sv.sessionEvents r o).filterMap fun a => a.2.message?.map (Prod.mk a.1) := by
  have hlines : ∀ (n : Nat) (xs : List Exchange),
      (xs.filterMap Exchange.entry?).map (fun e => (n, e.message)) =
        (xs.map .line).filterMap fun a => (SessionEvent.message? a).map (Prod.mk n) := by
    intro n xs
    rw [List.map_filterMap, List.filterMap_map]
    congr 1
    funext x
    simp only [Exchange.entry?, Option.map_map, Function.comp_def, SessionEvent.message?]
  have hcall : ∀ (n slot : Nat),
      ((sv.call slot o).exchanges.filterMap Exchange.entry?).map (fun e => (n, e.message)) =
        (Service.callEvents (sv.call slot o) o.recv).filterMap
          fun a => a.message?.map (Prod.mk n) := by
    intro n slot
    have hhangup : (Service.hangups o.recv).filterMap
        (fun a => (SessionEvent.message? a).map (Prod.mk n)) = [] := by
      cases o.recv <;> rfl
    rw [Service.callEvents, List.filterMap_append, hhangup, List.nil_append, hlines]
  have hcase := sv.step_cases o
  unfold logEntries sessionEvents
  generalize sv.step o = st at hcase ⊢
  cases hcase with
  | admitted hevent hlisten hsome _ =>
    simp only [accepts_of_event hevent hlisten, hsome]
    rfl
  | faulted _ _ _ _ =>
    simp only [Bool.false_eq_true, if_false, List.append_nil, List.map_map, List.filterMap_map]
    exact hcall _ _
  | stayed _ _ _ _ _ =>
    simp only [Bool.false_eq_true, if_false, List.append_nil, List.map_map, List.filterMap_map]
    exact hcall _ _
  | closed _ _ _ _ _ =>
    simp only [if_true, List.map_map, List.filterMap_map, List.map_append, List.filterMap_append]
    exact congrArg (· ++ _) (hcall _ _)
  | _ => rfl

end Server

/-- What the library and the network give `log_connection` to print: the time without the line feed
that is cut off, and an address. -/
structure Occurrence.LogsPlainly (o : Occurrence) : Prop where
  timestamp : ∀ k, LF ∉ (o.env k).ctime ∧ LogEntry.RBRACKET ∉ (o.env k).ctime
  address : ∀ c ∈ o.accepted, LF ∉ c.2

theorem commandEntry_mem (command : Bytes) :
    commandEntry command ∈ commandTable ++ [⟨[], .errorCommand, str "Error command"⟩] := by
  unfold commandEntry
  cases hfind : commandTable.find? fun e => strncmpEq command e.keyword with
  | none => exact List.mem_append_right _ List.mem_cons_self
  | some e => exact List.mem_append_left _ (List.mem_of_find?_eq_some hfind)

/-- The entry of a line has the message of a command and the time of the line. -/
theorem Exchange.entry?_eq {x : Exchange} {e : LogEntry} (h : x.entry? = some e) :
    e.message = (commandEntry x.command).message ∧ e.timestamp = x.env.ctime ∧
      e.ip = x.session.ip := by
  unfold Exchange.entry? Exchange.message? at h
  split at h
  · cases h
    exact ⟨rfl, rfl, rfl⟩
  · cases h

/-- The entries of a call. -/
theorem call_entry {sv : Server} {slot : Nat} {o : Occurrence} {e : LogEntry}
    (he : e ∈ (sv.call slot o).exchanges.filterMap Exchange.entry?) :
    (∃ command, e.message = (commandEntry command).message) ∧
      ∃ k, e.timestamp = (o.env k).ctime := by
  obtain ⟨x, hx, hentry⟩ := List.mem_filterMap.mp he
  obtain ⟨hmessage, htimestamp, -⟩ := Exchange.entry?_eq hentry
  refine ⟨⟨_, hmessage⟩, ?_⟩
  unfold Server.call handleClient at hx
  simp only [scan_exchanges] at hx
  obtain ⟨k, hk⟩ := exchanges_env _ _ x hx
  exact ⟨k, htimestamp.trans (congrArg Env.ctime hk)⟩

/-! ### The addresses -/

theorem execute_ip (env : Env) (sh : Shared) (s : Session) (comm : Pop3Command)
    (arg : Option Bytes) (tail : Bytes) :
    (execute env sh s comm arg tail).session.ip = s.ip := by
  have hdropped : (userState s).ip = s.ip := by
    unfold userState
    split <;> rfl
  have hout := execute_outcome env sh s comm arg tail
  generalize execute env sh s comm arg tail = st at hout ⊢
  cases hout with
  | userNotFound _ _ => exact hdropped
  | userFound _ => exact hdropped
  | _ => rfl

theorem exchanges_ip (w : LoopState) (lines : List Bytes) :
    (∀ x ∈ exchanges w lines, x.session.ip = w.session.ip) ∧
      (commandMachine.final w lines).session.ip = w.session.ip := by
  have hstep : ∀ (_ : List Exchange) (x : Exchange), x.session.ip = w.session.ip →
      x.step.session.ip = w.session.ip := by
    intro _ x h
    exact @dispatch_keeps (fun s _ => s.ip = w.session.ip)
      (fun env sh s comm arg tail hs => (execute_ip env sh s comm arg tail).trans hs)
      x.env x.shared x.session h x.command
  obtain ⟨halong, hfinal⟩ := @exchanges_history (fun _ _ s => s.ip = w.session.ip) hstep lines []
    w rfl
  refine ⟨fun x hx => ?_, hfinal⟩
  obtain ⟨pre, -, hip⟩ := halong.mem hx
  exact hip

/-- A call leaves the address of its session as it is. -/
theorem call_ip (sv : Server) (slot : Nat) (o : Occurrence) :
    (∀ x ∈ (sv.call slot o).exchanges, x.session.ip = (sv.clients slot).session.ip) ∧
      (sv.call slot o).client.session.ip = (sv.clients slot).session.ip := by
  unfold Server.call handleClient
  simp only
  rw [scan_exchanges, scan_session]
  exact exchanges_ip _ _

/-- What a run's events have left in the log: their messages, and the address their session has
connected from. -/
structure Recounts (address : Nat → Bytes) (events : List (Nat × SessionEvent))
    (entries : List (Nat × LogEntry)) : Prop where
  messages : entries.map (fun e => (e.1, e.2.message)) =
    events.filterMap fun a => a.2.message?.map (Prod.mk a.1)
  opened : ∀ n fd isManager ip, (n, .opened fd isManager ip) ∈ events → address n = ip
  address : ∀ e ∈ entries, e.2.ip = address e.1

theorem Recounts.append {address : Nat → Bytes} {as bs : List (Nat × SessionEvent)}
    {es fs : List (Nat × LogEntry)} (h : Recounts address as es) (h' : Recounts address bs fs) :
    Recounts address (as ++ bs) (es ++ fs) where
  messages := by rw [List.map_append, List.filterMap_append, h.messages, h'.messages]
  opened n fd isManager ip hmem :=
    (List.mem_append.mp hmem).elim (h.opened n fd isManager ip) (h'.opened n fd isManager ip)
  address e he := (List.mem_append.mp he).elim (h.address e) (h'.address e)

/-- An entry goes back to an event of its session. -/
theorem Recounts.known {address : Nat → Bytes} {events : List (Nat × SessionEvent)}
    {entries : List (Nat × LogEntry)} (h : Recounts address events entries) {e : Nat × LogEntry}
    (he : e ∈ entries) : ∃ a ∈ events, a.1 = e.1 := by
  have hmem : (e.1, e.2.message) ∈ entries.map fun e => (e.1, e.2.message) :=
    List.mem_map_of_mem he
  rw [h.messages] at hmem
  obtain ⟨a, ha, hmessage⟩ := List.mem_filterMap.mp hmem
  obtain ⟨message, -, heq⟩ := Option.map_eq_some_iff.mp hmessage
  exact ⟨a, ha, (Prod.mk.inj heq).1⟩

/-- Only the addresses of the sessions that occur matter. -/
theorem Recounts.congr {address address' : Nat → Bytes} {events : List (Nat × SessionEvent)}
    {entries : List (Nat × LogEntry)} (h : Recounts address events entries)
    (hsame : ∀ a ∈ events, address' a.1 = address a.1) : Recounts address' events entries where
  messages := h.messages
  opened n fd isManager ip hmem :=
    (hsame _ hmem).trans (h.opened n fd isManager ip hmem)
  address e he := by
    obtain ⟨a, ha, hnumber⟩ := h.known he
    have haddress := hsame a ha
    rw [hnumber] at haddress
    rw [haddress]
    exact h.address e he

namespace Server

/-- Each slot in use has the address its session has connected from. -/
structure Addressed (address : Nat → Bytes) (sv : Server) (r : Roster) : Prop where
  clean : ∀ n, LF ∉ address n
  roster : r.Inv sv
  room : sv.clientCount ≤ MAX_CLIENTS
  ip : ∀ k < sv.clientCount, (sv.clients k).session.ip = address (r.owner k)

variable {sv : Server} {r : Roster} {address : Nat → Bytes}

theorem Addressed.same (h : Addressed address sv r) {sv' : Server}
    (hclients : sv'.clients = sv.clients) (hcount : sv'.clientCount = sv.clientCount) :
    Addressed address sv' r where
  clean := h.clean
  roster := h.roster.of_count hcount
  room := hcount ▸ h.room
  ip k hk := hclients ▸ h.ip k (hcount ▸ hk)

/-- A call is logged with the address of the session it is made for. -/
theorem Addressed.call (h : Addressed address sv r) {slot : Nat} (hslot : slot < sv.clientCount)
    (o : Occurrence) :
    (∀ e ∈ (sv.call slot o).exchanges.filterMap Exchange.entry?, e.ip = address (r.owner slot)) ∧
      (sv.call slot o).client.session.ip = address (r.owner slot) := by
  obtain ⟨hexchanges, hclient⟩ := call_ip sv slot o
  rw [← h.ip slot hslot]
  refine ⟨fun e he => ?_, hclient⟩
  obtain ⟨x, hx, hentry⟩ := List.mem_filterMap.mp he
  obtain ⟨message, -, rfl⟩ := Option.map_eq_some_iff.mp hentry
  exact hexchanges x hx

/-- What a turn adds to the log. -/
structure Recounted (sv : Server) (r : Roster) (o : Occurrence) (address address' : Nat → Bytes) :
    Prop where
  same : ∀ n < r.admitted, address' n = address n
  clean : ∀ n, LF ∉ address' n
  recounts : Recounts address' (sv.sessionEvents r o) (sv.logEntries r o)
  known : ∀ a ∈ sv.sessionEvents r o, a.1 < (r.record sv (sv.step o).event).admitted
  grows : r.admitted ≤ (r.record sv (sv.step o).event).admitted
  next : (sv.step o).halted = false →
    Addressed address' (sv.step o).server (r.record sv (sv.step o).event)

/-- A session is served. -/
theorem Addressed.served (h : Addressed address sv r) {o : Occurrence} {slot : Nat}
    (hslot : slot < sv.clientCount) {closed : Bool}
    (hevent : (sv.step o).event = .served slot (sv.call slot o).exchanges closed)
    (hnext : (sv.step o).halted = false →
      Addressed address (sv.step o).server (r.record sv (sv.step o).event)) :
    sv.Recounted r o address address := by
  have hadmitted : (r.record sv (sv.step o).event).admitted = r.admitted := by
    rw [hevent]
    cases closed <;> rfl
  obtain ⟨hlines, hleft⟩ := h.call hslot o
  have hevents : ∀ a ∈ sv.sessionEvents r o,
      a.1 = r.owner slot ∧ ∀ fd isManager ip, a.2 ≠ .opened fd isManager ip := by
    unfold sessionEvents
    simp only [hevent]
    intro a ha
    obtain ⟨b, hb, rfl⟩ := List.mem_map.mp ha
    refine ⟨rfl, ?_⟩
    rintro fd isManager ip rfl
    rcases List.mem_append.mp hb with hcall | hclose
    · rcases List.mem_append.mp hcall with hhangup | hline
      · cases hrecv : o.recv <;> rw [hrecv] at hhangup <;> simp [Service.hangups] at hhangup
      · obtain ⟨x, -, hx⟩ := List.mem_map.mp hline
        cases hx
    · cases closed <;> simp at hclose
  refine ⟨fun _ _ => rfl, h.clean, ⟨sv.messages_step r o, ?_, ?_⟩, ?_,
    Nat.le_of_eq hadmitted.symm, hnext⟩
  · intro n fd isManager ip hopened
    exact absurd rfl ((hevents _ hopened).2 fd isManager ip)
  · unfold logEntries
    simp only [hevent]
    intro e he
    obtain ⟨entry, hentry, rfl⟩ := List.mem_map.mp he
    rcases List.mem_append.mp hentry with hline | hclose
    · exact hlines entry hline
    · cases closed with
      | false => cases hclose
      | true =>
        rw [List.mem_singleton.mp hclose]
        exact hleft
  · intro a ha
    rw [hadmitted, (hevents a ha).1]
    exact h.roster.known slot hslot

theorem Addressed.quiet (h : Addressed address sv r) {o : Occurrence}
    (hevent : (sv.step o).event = .quiet) (hclients : (sv.step o).server.clients = sv.clients)
    (hcount : (sv.step o).server.clientCount = sv.clientCount) :
    sv.Recounted r o address address := by
  have hevents : sv.sessionEvents r o = [] := by unfold sessionEvents; simp only [hevent]
  have hentries : sv.logEntries r o = [] := by unfold logEntries; simp only [hevent]
  refine ⟨fun _ _ => rfl, h.clean, ?_, ?_, ?_, fun _ => ?_⟩
  · rw [hevents, hentries]
    refine ⟨rfl, fun _ _ _ _ ha => absurd ha List.not_mem_nil, fun _ he => absurd he ?_⟩
    exact List.not_mem_nil
  · rw [hevents]
    exact fun _ ha => absurd ha List.not_mem_nil
  · rw [hevent]
    exact Nat.le_refl _
  · rw [hevent]
    exact h.same hclients hcount

/-- A session joins: its number has not been used so far. -/
theorem Addressed.opened (h : Addressed address sv r) {o : Occurrence} (ho : o.LogsPlainly)
    {slot : Nat} (hevent : (sv.step o).event = .opened slot) :
    ∃ address', sv.Recounted r o address address' := by
  have hcase := sv.step_cases o
  generalize hst : sv.step o = st at hcase hevent
  cases hcase with
  | @admitted fd ip hat hlisten hsome hroom =>
    have hevents : sv.sessionEvents r o =
        [(r.admitted, .opened fd ((sv.pollFd sv.index).fd == sv.managerSocket) ip)] := by
      unfold sessionEvents
      simp only [hst, accepts_of_event hat hlisten, hsome]
      rfl
    have hentries : sv.logEntries r o =
        [(r.admitted, LogEntry.mk (str "Connection established") (o.env 0).ctime ip)] := by
      unfold logEntries
      simp only [hst, accepts_of_event hat hlisten, hsome]
      rfl
    have hclean : ∀ n, LF ∉ update address r.admitted ip n := by
      intro n
      rw [Function.update_apply]
      split
      · exact ho.address (fd, ip) hsome
      · exact h.clean n
    refine ⟨update address r.admitted ip, ?_, hclean, ⟨sv.messages_step r o, ?_, ?_⟩, ?_, ?_,
      fun _ => ?_⟩
    · intro n hn
      exact Function.update_of_ne (Nat.ne_of_lt hn) ip address
    · rw [hevents]
      intro n fd isManager ip hmem
      cases List.mem_singleton.mp hmem
      exact Function.update_self ..
    · rw [hentries]
      intro e he
      rw [List.mem_singleton.mp he]
      exact (Function.update_self r.admitted ip address).symm
    · rw [hevents, hst]
      intro a ha
      rw [List.mem_singleton.mp ha]
      exact Nat.lt_succ_self _
    · rw [hst]
      exact Nat.le_succ _
    · rw [hst]
      refine ⟨hclean, h.roster.opened rfl, hroom, fun k hk => ?_⟩
      have hk : k < sv.clientCount + 1 := hk
      rw [Roster.owner_opened]
      simp only [advance, joined_clients]
      rcases Nat.lt_succ_iff_lt_or_eq.mp hk with hlt | rfl
      · have hknown := h.roster.known k hlt
        rw [if_neg (Nat.ne_of_lt hlt), Function.update_of_ne (Nat.ne_of_lt hlt),
          Function.update_of_ne (Nat.ne_of_lt hknown)]
        exact h.ip k hlt
      · rw [if_pos rfl, Function.update_self, Function.update_self]
        rfl
  | _ => cases hevent

/-- **Step lemma of the log.** -/
theorem Addressed.step (h : Addressed address sv r) {o : Occurrence} (ho : o.LogsPlainly) :
    ∃ address', sv.Recounted r o address address' := by
  have hroster := fun hgo => h.roster.next (o := o) hgo
  have hroom := room_next h.room o
  cases sv.step_outcome o with
  | quiet hevent hclients hcount => exact ⟨address, h.quiet hevent hclients hcount⟩
  | opened _ _ _ _ hevent _ _ => exact h.opened ho hevent
  | faulted slot hslot hstop hevent =>
    exact ⟨address, h.served hslot hevent fun hgo => by cases hstop.symm.trans hgo⟩
  | stayed slot hslot hgo _ _ hevent hclients hcount =>
    refine ⟨address, h.served hslot hevent fun _ => ⟨h.clean, hroster hgo, hroom, ?_⟩⟩
    rw [hevent, hcount, hclients]
    intro k hk
    by_cases hks : k = slot
    · rw [hks, Function.update_self]
      exact (h.call hslot o).2
    · rw [Function.update_of_ne hks]
      exact h.ip k hk
  | closed slot hslot hgo _ _ hevent hclients hcount =>
    refine ⟨address, h.served hslot hevent fun _ => ⟨h.clean, hroster hgo, hroom, ?_⟩⟩
    rw [hevent, hcount]
    intro k hk
    rw [hclients k hk, Roster.owner_closed]
    split
    · exact h.ip _ (Nat.sub_lt (Nat.zero_lt_of_lt hslot) Nat.one_pos)
    · exact h.ip k (Nat.lt_of_lt_of_le hk (Nat.sub_le _ _))

theorem commandEntry_clean (command : Bytes) :
    LogEntry.CleanMessage (commandEntry command).message := by
  have hall : ∀ e ∈ commandTable ++ [⟨[], .errorCommand, str "Error command"⟩],
      LogEntry.CleanMessage e.message := by decide
  exact hall _ (commandEntry_mem command)

/-- A turn logs fixed messages and the times it has found. -/
theorem stamped_step (sv : Server) (r : Roster) (o : Occurrence) :
    ∀ e ∈ sv.logEntries r o, LogEntry.CleanMessage e.2.message ∧
      ∃ k, e.2.timestamp = (o.env k).ctime := by
  have hserved : ∀ (slot : Nat) (closed : Bool),
      ∀ e ∈ (sv.call slot o).exchanges.filterMap Exchange.entry? ++ (if closed then
          [LogEntry.mk (str "Disconnected") (o.env (sv.call slot o).exchanges.length).ctime
            (sv.call slot o).client.session.ip]
        else []),
      LogEntry.CleanMessage e.message ∧ ∃ k, e.timestamp = (o.env k).ctime := by
    intro slot closed e he
    rcases List.mem_append.mp he with hline | hclose
    · obtain ⟨⟨command, hmessage⟩, htimestamp⟩ := call_entry hline
      exact ⟨hmessage ▸ commandEntry_clean command, htimestamp⟩
    · cases closed with
      | false => cases hclose
      | true =>
        have hclean : LogEntry.CleanMessage (str "Disconnected") := by decide
        rw [List.mem_singleton.mp hclose]
        exact ⟨hclean, _, rfl⟩
  have hestablished : LogEntry.CleanMessage (str "Connection established") := by decide
  unfold logEntries
  intro e he
  cases sv.step_outcome o with
  | quiet hevent _ _ =>
    simp only [hevent] at he
    exact absurd he List.not_mem_nil
  | opened _ _ _ _ hevent _ _ =>
    simp only [hevent] at he
    obtain ⟨c, -, rfl⟩ := List.mem_map.mp he
    exact ⟨hestablished, _, rfl⟩
  | faulted slot _ _ hevent =>
    simp only [hevent] at he
    obtain ⟨entry, hentry, rfl⟩ := List.mem_map.mp he
    exact hserved slot false entry hentry
  | stayed slot _ _ _ _ hevent _ _ =>
    simp only [hevent] at he
    obtain ⟨entry, hentry, rfl⟩ := List.mem_map.mp he
    exact hserved slot false entry hentry
  | closed slot _ _ _ _ hevent _ _ =>
    simp only [hevent] at he
    obtain ⟨entry, hentry, rfl⟩ := List.mem_map.mp he
    exact hserved slot true entry hentry

/-- The entries of a turn can be read back. -/
theorem Recounted.plain {o : Occurrence} {address' : Nat → Bytes}
    (h : sv.Recounted r o address address') (ho : o.LogsPlainly) :
    ∀ e ∈ sv.logEntries r o, e.2.Plain := by
  intro e he
  obtain ⟨hmessage, k, hk⟩ := sv.stamped_step r o e he
  have hip : LF ∉ e.2.ip := h.recounts.address e he ▸ h.clean e.1
  exact ⟨hmessage, hk ▸ ho.timestamp k, hip⟩

/-! ### The sessions in the table -/

def countMessage (message : Bytes) (entries : List (Nat × LogEntry)) : Nat :=
  entries.countP fun e => e.2.message = message

theorem countMessage_append (message : Bytes) (es fs : List (Nat × LogEntry)) :
    countMessage message (es ++ fs) = countMessage message es + countMessage message fs :=
  List.countP_append

/-- No command is logged as a connection or a disconnect. -/
theorem countMessage_call {message : Bytes}
    (hother : ∀ e ∈ commandTable ++ [⟨[], .errorCommand, str "Error command"⟩],
      e.message ≠ message) (sv : Server) (slot n : Nat) (o : Occurrence) :
    countMessage message
      (((sv.call slot o).exchanges.filterMap Exchange.entry?).map (Prod.mk n)) = 0 := by
  apply List.countP_eq_zero.mpr
  intro e he
  obtain ⟨entry, hentry, rfl⟩ := List.mem_map.mp he
  obtain ⟨⟨command, hmessage⟩, -⟩ := call_entry hentry
  have hne := hother _ (commandEntry_mem command)
  rw [← hmessage] at hne
  exact fun h => hne (of_decide_eq_true h)

/-- **A turn that logs a connection adds a session, and one that logs a disconnect takes one
away.** -/
theorem countMessage_step {sv : Server} {o : Occurrence} (hgo : (sv.step o).halted = false)
    (r : Roster) :
    (sv.step o).server.clientCount + countMessage (str "Disconnected") (sv.logEntries r o) =
      sv.clientCount + countMessage (str "Connection established") (sv.logEntries r o) := by
  have hestablished := fun slot n => countMessage_call
    (show ∀ e ∈ commandTable ++ [⟨[], .errorCommand, str "Error command"⟩],
      e.message ≠ str "Connection established" by decide) sv slot n o
  have hdisconnected := fun slot n => countMessage_call
    (show ∀ e ∈ commandTable ++ [⟨[], .errorCommand, str "Error command"⟩],
      e.message ≠ str "Disconnected" by decide) sv slot n o
  unfold logEntries
  have hcase := sv.step_cases o
  generalize sv.step o = st at hcase hgo ⊢
  cases hcase with
  | admitted hevent hlisten hsome _ =>
    simp only [accepts_of_event hevent hlisten, hsome]
    rfl
  | overflown _ _ _ _ => cases hgo
  | stray _ _ _ => cases hgo
  | faulted _ _ _ _ => cases hgo
  | stayed _ _ _ _ _ =>
    have hnone := hdisconnected sv.slot (r.owner sv.slot)
    have hnone' := hestablished sv.slot (r.owner sv.slot)
    simp only [Bool.false_eq_true, if_false, List.append_nil]
    exact (congrArg (sv.clientCount + ·) hnone).trans
      (congrArg (sv.clientCount + ·) hnone').symm
  | closed hevent _ h2 _ _ =>
    have hslot := hevent.slot_lt h2
    have hnone := hdisconnected sv.slot (r.owner sv.slot)
    have hnone' := hestablished sv.slot (r.owner sv.slot)
    have hcount : (sv.departed o).clientCount = sv.clientCount - 1 := rfl
    simp only [if_true, List.map_append, countMessage_append, hcount]
    change sv.clientCount - 1 + (countMessage _ (((sv.call sv.slot o).exchanges.filterMap
      Exchange.entry?).map (Prod.mk (r.owner sv.slot))) + 1) =
      sv.clientCount + (countMessage _ (((sv.call sv.slot o).exchanges.filterMap
        Exchange.entry?).map (Prod.mk (r.owner sv.slot))) + 0)
    omega
  | _ => rfl

/-! ### A run -/

theorem addressed_start (sh : Shared) (managerSocket : Int) :
    Addressed (fun _ => []) (start sh managerSocket) Roster.empty where
  clean _ := List.not_mem_nil
  roster := Roster.inv_empty rfl
  room := room_start sh managerSocket
  ip k hk := absurd hk (Nat.not_lt_zero k)

/-- **Run lemma of the log.** -/
theorem Addressed.run (h : Addressed address sv r) {os : List Occurrence}
    (hplain : ∀ o ∈ os, o.LogsPlainly) :
    ∃ (address' : Nat → Bytes) (entries : List (Nat × LogEntry)),
      sv.logged os = (entries.map fun e => e.2.line ++ [LF]).flatten ∧
        (∀ n < r.admitted, address' n = address n) ∧ (∀ e ∈ entries, e.2.Plain) ∧
          Recounts address'
            (rosters.emitted (fun x => Server.sessionEvents x.1 x.2) (sv, r) os) entries ∧
          (serverMachine.Passes sv os →
            (serverMachine.final sv os).clientCount + countMessage (str "Disconnected") entries =
              sv.clientCount + countMessage (str "Connection established") entries) := by
  induction os generalizing sv r address with
  | nil =>
    exact ⟨address, [], rfl, fun _ _ => rfl, nofun, ⟨rfl, nofun, nofun⟩, fun _ => rfl⟩
  | cons o os ih =>
    obtain ⟨ho, hos⟩ := List.forall_mem_cons.mp hplain
    obtain ⟨address', hturn⟩ := h.step ho
    have hlines := logged_step h.room r o
    have hentries := hturn.plain ho
    cases hgo : serverMachine.stop sv o with
    | true =>
      refine ⟨address', sv.logEntries r o, ?_, hturn.same, hentries, ?_, fun hpass => ?_⟩
      · rw [logged, serverMachine.trace_cons_stop hgo, List.flatMap_singleton, hlines]
      · rw [Machine.emitted, rosters.trace_cons_stop (s := (sv, r)) hgo, List.flatMap_singleton]
        exact hturn.recounts
      · cases hpass.1.symm.trans hgo
    | false =>
      obtain ⟨address'', entries, hrest, hsame, hentries', hrecounts, hcount⟩ :=
        ih (hturn.next hgo) hos
      refine ⟨address'', sv.logEntries r o ++ entries, ?_, ?_, ?_, ?_, fun hpass => ?_⟩
      · have hnext : serverMachine.next sv o = (sv.step o).server := rfl
        rw [logged] at hrest ⊢
        rw [serverMachine.trace_cons_go hgo, List.flatMap_cons, List.flatten_append, hlines,
          List.map_append, List.flatten_append, hnext, hrest]
      · intro n hn
        exact (hsame n (Nat.lt_of_lt_of_le hn hturn.grows)).trans (hturn.same n hn)
      · intro e he
        exact (List.mem_append.mp he).elim (hentries e) (hentries' e)
      · rw [Machine.emitted, rosters.trace_cons_go (s := (sv, r)) hgo, List.flatMap_cons]
        exact (hturn.recounts.congr fun a ha => hsame _ (hturn.known a ha)).append hrecounts
      · have hturns := countMessage_step hgo r
        have hrun := hcount hpass.2
        have hnext : serverMachine.next sv o = (sv.step o).server := rfl
        rw [serverMachine.final_cons_go hgo, hnext, countMessage_append, countMessage_append]
        omega

/-! ### Freed addresses -/

/-- Which slots have an address that has not been freed.  A close copies the last slot, pointer and
all, into that of the closed session and frees the address in the last one. -/
def recordAddresses (held : Nat → Bool) (sv : Server) : ServerEvent → Nat → Bool
  | .opened slot => update held slot true
  | .served slot _ true => update (update held slot false) (sv.clientCount - 1) false
  | _ => held

def addresses : Machine (Server × (Nat → Bool)) Occurrence :=
  serverMachine.ghost fun held sv o => sv.recordAddresses held (sv.step o).event

/-- What a turn writes; `freed` is what is found where an address was. -/
def text (held : Nat → Bool) (sv : Server) (o : Occurrence) (freed : Bytes) : Bytes :=
  match (sv.step o).event with
  | .served slot _ _ => if held slot then (sv.step o).logged.flatten else freed
  | _ => (sv.step o).logged.flatten

/-- What a run writes to the log. -/
def written (freed : Server → Occurrence → Bytes) (sv : Server) (os : List Occurrence) : Bytes :=
  (addresses.trace (sv, fun _ => false) os).flatMap fun x => text x.1.2 x.1.1 x.2 (freed x.1.1 x.2)

/-- Every session that is closed lies in the last slot, so that none is moved. -/
def ClosesLast (sv : Server) (os : List Occurrence) : Prop :=
  ∀ x ∈ serverMachine.trace sv os, ∀ slot ∈ (x.1.step x.2).event.closed?,
    slot + 1 = x.1.clientCount

instance (sv : Server) (os : List Occurrence) : Decidable (sv.ClosesLast os) :=
  inferInstanceAs (Decidable (∀ x ∈ _, ∀ slot ∈ _, _))

/-- The sessions in the table have their addresses. -/
def Held (held : Nat → Bool) (sv : Server) : Prop := ∀ k < sv.clientCount, held k = true

/-- **Step lemma of the addresses.** -/
theorem Held.step {held : Nat → Bool} (h : Held held sv) {o : Occurrence}
    (hgo : (sv.step o).halted = false)
    (hlast : ∀ slot ∈ (sv.step o).event.closed?, slot + 1 = sv.clientCount) :
    Held (sv.recordAddresses held (sv.step o).event) (sv.step o).server := by
  unfold Held
  cases sv.step_outcome o with
  | quiet hevent _ hcount =>
    rw [hevent, hcount]
    exact h
  | opened _ _ _ _ hevent _ hcount =>
    rw [hevent, hcount]
    intro k hk
    rw [recordAddresses, Function.update_apply]
    split
    · rfl
    · exact h k (by omega)
  | faulted _ _ hstop _ => cases hstop.symm.trans hgo
  | stayed _ _ _ _ _ hevent _ hcount =>
    rw [hevent, hcount]
    exact h
  | closed slot hslot _ _ _ hevent _ hcount =>
    have hslotLast : slot + 1 = sv.clientCount := hlast slot (hevent ▸ rfl)
    rw [hevent, hcount]
    intro k hk
    have hne : k ≠ slot := by omega
    have hne' : k ≠ sv.clientCount - 1 := by omega
    rw [recordAddresses, Function.update_of_ne hne', Function.update_of_ne hne]
    exact h k (by omega)

theorem Held.text {held : Nat → Bool} (h : Held held sv) (o : Occurrence) (freed : Bytes) :
    text held sv o freed = (sv.step o).logged.flatten := by
  have hserved : ∀ {slot xs closed}, slot < sv.clientCount →
      (sv.step o).event = .served slot xs closed →
      Server.text held sv o freed = (sv.step o).logged.flatten := by
    intro slot xs closed hslot hevent
    simp only [Server.text, hevent, h slot hslot, if_true]
  cases sv.step_outcome o with
  | quiet hevent _ _ => simp only [Server.text, hevent]
  | opened _ _ _ _ hevent _ _ => simp only [Server.text, hevent]
  | faulted _ hslot _ hevent => exact hserved hslot hevent
  | stayed _ hslot _ _ _ hevent _ _ => exact hserved hslot hevent
  | closed _ hslot _ _ _ hevent _ _ => exact hserved hslot hevent

/-- **Where no session is moved, no line is written from freed memory.** -/
theorem written_eq_logged {os : List Occurrence} (hempty : sv.clientCount = 0)
    (hlast : sv.ClosesLast os) (freed : Server → Occurrence → Bytes) :
    written freed sv os = sv.logged os := by
  have hheld : ∀ x ∈ addresses.trace (sv, fun _ => false) os, Held x.1.2 x.1.1 := by
    apply addresses.trace_induction fun x => Held x.2 x.1
    · intro x hx hheld hgo
      exact hheld.step hgo (hlast _ (serverMachine.mem_trace_of_ghost _ hx))
    · intro k hk
      exact absurd hk (by simp [hempty])
  have htrace := serverMachine.trace_ghost
    (fun held sv o => sv.recordAddresses held (sv.step o).event) (sv, fun _ => false) os
  rw [logged, ← htrace, List.flatMap_map, List.flatMap_def, List.flatten_flatten, List.map_map,
    written, List.flatMap_def]
  congr 1
  apply List.map_congr_left
  intro x hx
  exact (hheld x hx).text x.2 _

/-- **The log of a run that moves no session can be read back**, behind whatever complete lines were
in it and whatever freed memory holds: it has one entry for every connection, every command line
and every disconnect, in their order, each with the address its session has connected from; and
while the loop goes on, the connections it shows without the disconnects are the sessions in the
table. -/
theorem log_reads_back (sh : Shared) (managerSocket : Int) {os : List Occurrence}
    (hplain : ∀ o ∈ os, o.LogsPlainly) (hlast : (start sh managerSocket).ClosesLast os)
    (freed : Server → Occurrence → Bytes) {file : Bytes} (hfile : rest LF file = []) :
    ∃ (address : Nat → Bytes) (entries : List (Nat × LogEntry)),
      readLog (file ++ written freed (start sh managerSocket) os) =
          readLog file ++ entries.map (fun e => some e.2) ∧
        Recounts address ((start sh managerSocket).runEvents os) entries ∧
          (serverMachine.Passes (start sh managerSocket) os →
            (serverMachine.final (start sh managerSocket) os).clientCount +
                countMessage (str "Disconnected") entries =
              countMessage (str "Connection established") entries) := by
  obtain ⟨address, entries, hlogged, -, hentries, hrecounts, hcount⟩ :=
    (addressed_start sh managerSocket).run hplain
  refine ⟨address, entries, ?_, hrecounts, fun hpass => ?_⟩
  · have hkept : ∀ e ∈ entries.map Prod.snd, e.Plain := by
      intro e he
      obtain ⟨x, hx, rfl⟩ := List.mem_map.mp he
      exact hentries x hx
    have hread := readLog_append hfile hkept
    rw [List.map_map, List.map_map] at hread
    rw [written_eq_logged rfl hlast, hlogged]
    exact hread
  · exact (hcount hpass).trans (Nat.zero_add _)

end Server

/-- Two clients of which the second one quits. -/
def secondQuits : List Occurrence :=
  accepting 4 5 ++ accepting 5 6 ++ roundOf 5 6 none (delivery "QUIT\r\n" quit_fits)

/-- The log, empty at first, of two clients of which the second one quits. -/
theorem Server.log_reads_back_two :
    ∃ (address : Nat → Bytes) (entries : List (Nat × LogEntry)),
      readLog ([] ++ written (fun _ _ => [LF]) (start sampleShared 4) secondQuits) =
          readLog [] ++ entries.map (fun e => some e.2) ∧
        Recounts address ((start sampleShared 4).runEvents secondQuits) entries ∧
          (serverMachine.Passes (start sampleShared 4) secondQuits →
            (serverMachine.final (start sampleShared 4) secondQuits).clientCount +
                countMessage (str "Disconnected") entries =
              countMessage (str "Connection established") entries) := by
  refine log_reads_back sampleShared 4 ?_ (by decide +kernel) _ rfl
  intro o ho
  have hround : ∀ {turns fd accepted d}, (∀ c ∈ accepted, LF ∉ c.2) →
      o ∈ roundOf turns fd accepted d → o.LogsPlainly := by
    intro turns fd accepted d haccepted ho
    have htime : LF ∉ sampleEnv.ctime ∧ LogEntry.RBRACKET ∉ sampleEnv.ctime := by decide
    rw [List.eq_of_mem_replicate ho]
    exact ⟨fun _ => htime, haccepted⟩
  simp only [secondQuits, accepting, List.mem_append] at ho
  rcases ho with (ho | ho) | ho
  · exact hround (by decide) ho
  · exact hround (by decide) ho
  · exact hround (by simp) ho

end Pop3Server
