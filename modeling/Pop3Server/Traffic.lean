import Pop3Server.ConnectionMetrics
import Pop3Server.MarkedView
import Pop3Server.MessageNumbers

/-!
# The commands of a run of the server

`Server.exchanges` are the commands of all sessions in the order in which the
server executes them.  Two things are read off the part of it that is over
(`Kept`): the metrics of the messages, which only a RETR that finds its message
changes, and where the mailboxes in the table come from, which is a PASS of some
session.  `kept_along` shows that this holds at every command of every run.
-/

namespace Pop3Server

def ServerEvent.exchanges : ServerEvent → List Exchange
  | .served _ xs _ => xs
  | _ => []

/-- The commands of a run, whatever session they are of, in the order of their execution. -/
def Server.exchanges (sv : Server) (os : List Occurrence) : List Exchange :=
  (serverMachine.trace sv os).flatMap fun x => (x.1.step x.2).event.exchanges

def IsOk (response : Bytes) : Prop := str "+OK" <+: response

instance (response : Bytes) : Decidable (IsOk response) :=
  inferInstanceAs (Decidable (_ <+: _))

/-- The message of a RETR that is answered `+OK`. -/
def Exchange.retrieved (x : Exchange) : Option FileList :=
  if getCommandValue x.command = .retr ∧ ∃ response ∈ x.step.sends, IsOk response then do
    let md ← x.session.maildir
    let number ← argument x.command
    let target ← viewTarget md (atoi number)
    target.2.head?
  else none

def retrievals (xs : List Exchange) : List FileList := xs.filterMap Exchange.retrieved

theorem retrievals_concat (xs : List Exchange) (x : Exchange) :
    retrievals (xs ++ [x]) = retrievals xs ++ x.retrieved.toList := by
  rw [retrievals, List.filterMap_append]
  cases hx : x.retrieved <;> simp [hx, retrievals]

/-- The mailbox was loaded by a PASS, and only its flags have changed since. -/
def LoadedIn (past : List Exchange) (md : Maildir) : Prop :=
  ∃ y ∈ past, ∃ u, y.LoadsMailbox u (unmarkAll md)

/-- What a session finds between two commands, given the commands so far. -/
structure Kept (past : List Exchange) (sh : Shared) (s : Session) : Prop where
  bytes : sh.metrics.totalBytes = int32 (octets (retrievals past))
  messages : sh.metrics.totalMessages = int32 (retrievals past).length
  held : ∀ md, s.maildir = some md → LoadedIn past md

/-! ### What a command does to the metrics -/

/-- The metrics of the messages. -/
def Metrics.traffic (m : Metrics) : Int × Int := (m.totalBytes, m.totalMessages)

/-- How a RETR ends. -/
inductive RetrCase (x : Exchange) : Prop
  | refused (hsends : ¬ ∃ response ∈ x.step.sends, IsOk response)
      (hshared : x.step.shared = x.shared)
  | found {md number d f more} (hmd : x.session.maildir = some md)
      (harg : argument x.command = some number)
      (htarget : viewTarget md (atoi number) = some (d, f :: more))
      (hsends : ∃ response ∈ x.step.sends, IsOk response)
      (hshared : x.step.shared = { x.shared with metrics := x.shared.metrics.count f })

theorem RetrCase.of_err {x : Exchange} {response : Bytes} (herr : IsErr response)
    (hsends : x.step.sends = [response]) (hshared : x.step.shared = x.shared) : RetrCase x := by
  refine .refused ?_ hshared
  rw [hsends]
  rintro ⟨response', hmem, hok⟩
  obtain rfl := List.mem_singleton.mp hmem
  obtain ⟨rest, rfl⟩ := hok
  exact not_isErr_ok rest herr

theorem RetrCase.of_none {x : Exchange} (hsends : x.step.sends = [])
    (hshared : x.step.shared = x.shared) : RetrCase x := by
  refine .refused ?_ hshared
  rw [hsends]
  rintro ⟨response, hmem, -⟩
  cases hmem

theorem Exchange.retrCase {x : Exchange} (hcomm : getCommandValue x.command = .retr) :
    RetrCase x := by
  have herror : getCommandValue x.command ≠ .errorCommand := by simp [hcomm]
  by_cases hfit : x.command.length ≤ 2 * BUFFER_SIZE
  case neg =>
    have hstep := Exchange.step_of_huge hfit
    exact .of_none (by rw [hstep]; rfl) (by rw [hstep])
  have hsends := Exchange.sends_eq_executed hfit herror
  have hshared : x.step.shared = x.executed.shared := by
    rw [Exchange.step_eq_executed hfit herror]
  have hexecuted : x.executed = retrCommand x.shared x.session (argument x.command) := by
    rw [Exchange.executed, hcomm, execute]
  have herr : ∀ response, IsErr response → x.executed = reply x.shared x.session response →
      RetrCase x := by
    intro response herr hreply
    rw [hreply] at hsends hshared
    exact .of_err herr hsends hshared
  by_cases hstate : x.session.clientState = .transaction
  case neg =>
    exact herr _ (by decide) (hexecuted.trans (if_pos hstate))
  cases harg : argument x.command with
  | none =>
    rw [harg, retrCommand, numberCommand_of_none hstate] at hexecuted
    exact herr _ (by decide) hexecuted
  | some number =>
    rw [harg, retrCommand] at hexecuted
    by_cases hzero : atoi number = 0
    · rw [numberCommand_of_zero hstate _ _ hzero] at hexecuted
      exact herr _ (by decide) hexecuted
    rw [numberCommand_of_number hstate _ _ hzero, viewNumber] at hexecuted
    cases hmd : x.session.maildir with
    | none =>
      rw [mailbox, hmd] at hexecuted
      rw [hexecuted] at hsends hshared
      exact .of_none hsends hshared
    | some md =>
      rw [mailbox, hmd] at hexecuted
      simp only [viewMessage] at hexecuted
      split at hexecuted
      · next d f more htarget =>
        refine .found hmd harg htarget ?_ ?_
        · rw [hsends, hexecuted]
          refine ⟨str "+OK " ++ formatInt f.size ++ str " octets\r\n", ?_, ?_⟩
          · cases x.session.user <;> exact List.mem_cons_self
          · simp only [List.append_assoc]
            exact List.prefix_append _ _
        · rw [hshared, hexecuted]
          cases x.session.user <;> rfl
      · exact herr _ (by decide) hexecuted

/-- A line that is too short or too long leaves everything as it was. -/
theorem Exchange.step_of_malformed {x : Exchange}
    (h : ¬ (4 ≤ x.command.length ∧ x.command.length ≤ 2 * BUFFER_SIZE)) :
    x.step.session = x.session ∧ x.step.shared = x.shared := by
  by_cases h4 : 4 ≤ x.command.length
  · rw [Exchange.step_of_huge fun hfit => h ⟨h4, hfit⟩]
    exact ⟨rfl, rfl⟩
  · rw [Exchange.step_of_short h4]
    exact ⟨rfl, rfl⟩

/-- The metrics of the messages change at a RETR that finds its message, and nowhere else. -/
theorem Exchange.traffic (x : Exchange) :
    x.step.shared.metrics.traffic =
      (x.retrieved.elim x.shared.metrics x.shared.metrics.count).traffic := by
  by_cases hcomm : getCommandValue x.command = .retr
  · cases x.retrCase hcomm with
    | refused hsends hshared =>
      rw [hshared, Exchange.retrieved, if_neg fun h => hsends h.2]
      rfl
    | found hmd harg htarget hsends hshared =>
      rw [hshared, Exchange.retrieved, if_pos ⟨hcomm, hsends⟩, hmd, harg]
      simp only [Option.bind_eq_bind, Option.bind_some, htarget]
      rfl
  · rw [Exchange.retrieved, if_neg fun h => hcomm h.1]
    by_cases hline : 4 ≤ x.command.length ∧ x.command.length ≤ 2 * BUFFER_SIZE
    case neg =>
      rw [(Exchange.step_of_malformed hline).2]
      rfl
    rw [Exchange.step, dispatch_of_long hline.1 hline.2]
    exact @execute_shared (fun sh => sh.metrics.traffic = x.shared.metrics.traffic) x.env x.shared
      rfl _ (fun h => absurd h hcomm) (fun _ _ => rfl) (fun _ _ _ => rfl) x.session _ _

/-! ### Where a mailbox comes from -/

theorem userState_maildir (s : Session) : (userState s).maildir = s.maildir := by
  unfold userState
  split <;> rfl

/-- A session holds what it held before, flags apart, or what it has just loaded. -/
theorem Exchange.maildir_cases {x : Exchange} {md : Maildir}
    (h : x.step.session.maildir = some md) :
    (∃ md', x.session.maildir = some md' ∧ unmarkAll md = unmarkAll md') ∨
      ∃ u, x.LoadsMailbox u (unmarkAll md) := by
  by_cases hline : 4 ≤ x.command.length ∧ x.command.length ≤ 2 * BUFFER_SIZE
  case neg =>
    rw [(Exchange.step_of_malformed hline).1] at h
    exact .inl ⟨md, h, rfl⟩
  obtain ⟨st, hout, hstep⟩ := Exchange.outcome hline.1 hline.2
  have hafter : x.step.session = st.session := by rw [hstep]
  rw [hafter] at h
  generalize hcomm : getCommandValue x.command = comm at hout
  generalize harg : argument x.command = arg at hout
  cases hout with
  | loggedIn hstate huser hload =>
    obtain rfl := Option.some.inj h
    refine .inr ⟨_, hcomm, harg, huser, hstate, by rw [hafter], ?_⟩
    rw [unmarkAll_of_unmarked (loadUserStructure_unmarked hload)]
    exact hload
  | unmarked _ hmd =>
    obtain rfl := Option.some.inj h
    exact .inl ⟨_, hmd, unmarkAll_unmarkAll _⟩
  | marked _ hmd htarget =>
    obtain rfl := Option.some.inj h
    exact .inl ⟨_, hmd, unmarkAll_deleteTarget htarget⟩
  | quitMailbox _ _ _ => cases h
  | userNotFound _ _ => exact .inl ⟨md, (userState_maildir x.session).symm.trans h, rfl⟩
  | userFound _ => exact .inl ⟨md, (userState_maildir x.session).symm.trans h, rfl⟩
  | _ => exact .inl ⟨md, h, rfl⟩

/-! ### One command -/

theorem LoadedIn.mono {past past' : List Exchange} {md : Maildir} (h : LoadedIn past md)
    (hsubset : past ⊆ past') : LoadedIn past' md := by
  obtain ⟨y, hy, hload⟩ := h
  exact ⟨y, hsubset hy, hload⟩

/-- **Step lemma.** -/
theorem Kept.step {past : List Exchange} {x : Exchange} (h : Kept past x.shared x.session) :
    Kept (past ++ [x]) x.step.shared x.step.session := by
  have htraffic := x.traffic
  refine ⟨?_, ?_, fun md hmd => ?_⟩
  · refine (congrArg Prod.fst htraffic).trans ?_
    rw [retrievals_concat]
    cases x.retrieved with
    | none => simpa [Metrics.traffic] using h.bytes
    | some f =>
      simp only [Metrics.traffic, Metrics.count, Option.elim_some, Option.toList_some, h.bytes,
        int32_add, octets_append, octets_cons, octets_nil, Int.add_zero]
  · refine (congrArg Prod.snd htraffic).trans ?_
    rw [retrievals_concat]
    cases x.retrieved with
    | none => simpa [Metrics.traffic] using h.messages
    | some f =>
      simp only [Metrics.traffic, Metrics.count, Option.elim_some, Option.toList_some, h.messages,
        int32_add, List.length_append, List.length_singleton]
      rfl
  · rcases Exchange.maildir_cases hmd with ⟨md', hmd', hunmark⟩ | ⟨u, hload⟩
    · obtain ⟨y, hy, u, hload⟩ := h.held md' hmd'
      exact ⟨y, List.mem_append_left _ hy, u, hunmark ▸ hload⟩
    · exact ⟨x, List.mem_append_right _ (List.mem_singleton_self x), u, hload⟩

/-- Of a session nothing but its mailbox matters. -/
theorem Kept.of_maildir {past : List Exchange} {sh : Shared} {s s' : Session} (h : Kept past sh s)
    (hmaildir : s'.maildir = s.maildir) : Kept past sh s' :=
  ⟨h.bytes, h.messages, fun md hmd => h.held md (hmaildir.symm.trans hmd)⟩

/-- The commands of one session leave the mailboxes of the others. -/
theorem Kept.other {past xs : List Exchange} {sh sh' : Shared} {s s' : Session}
    (h : Kept (past ++ xs) sh' s') (hs : Kept past sh s) : Kept (past ++ xs) sh' s :=
  ⟨h.bytes, h.messages, fun md hmd => (hs.held md hmd).mono (List.subset_append_left past xs)⟩

/-! ### One call and one turn -/

/-- What holds at the start of some lines and is kept by every command holds at each of them and at
their end; it may speak of the commands so far. -/
theorem exchanges_history {R : List Exchange → Shared → Session → Prop}
    (hstep : ∀ past x, R past x.shared x.session → R (past ++ [x]) x.step.shared x.step.session)
    (lines : List Bytes) {past : List Exchange} {w : LoopState} (h : R past w.shared w.session) :
    Machine.Along (exchanges w lines) (fun pre x => R (past ++ pre) x.shared x.session) ∧
      R (past ++ exchanges w lines) (commandMachine.final w lines).shared
        (commandMachine.final w lines).session := by
  have hfirst : R (past ++ []) w.shared w.session := by rwa [List.append_nil]
  induction lines generalizing past w with
  | nil => exact ⟨Machine.along_nil _, hfirst⟩
  | cons c cs ih =>
    have hnext : R (past ++ [w.exchange c]) (commandMachine.next w c).shared
        (commandMachine.next w c).session := hstep past (w.exchange c) h
    cases hgo : commandMachine.stop w c with
    | true =>
      rw [exchanges_cons_stop hgo, Machine.final_cons_stop _ hgo]
      exact ⟨Machine.along_cons hfirst (Machine.along_nil _), hnext⟩
    | false =>
      obtain ⟨halong, hfinal⟩ := ih hnext (by rwa [List.append_nil])
      rw [List.append_assoc] at hfinal
      rw [exchanges_cons_go hgo, Machine.final_cons_go _ hgo]
      refine ⟨Machine.along_cons hfirst ?_, hfinal⟩
      simpa only [List.append_assoc, List.singleton_append] using halong

def KeptAlong (past xs : List Exchange) : Prop :=
  Machine.Along xs fun pre x => Kept (past ++ pre) x.shared x.session

theorem exchanges_kept (lines : List Bytes) {past : List Exchange} {w : LoopState}
    (h : Kept past w.shared w.session) :
    KeptAlong past (exchanges w lines) ∧ Kept (past ++ exchanges w lines)
      (commandMachine.final w lines).shared (commandMachine.final w lines).session :=
  exchanges_history (fun _ _ hkept => hkept.step) lines h

/-- Every slot of the table holds a mailbox of the run, or none. -/
def ServerKept (past : List Exchange) (sv : Server) : Prop :=
  ∀ k, Kept past sv.shared (sv.clients k).session

theorem call_kept {past : List Exchange} {sv : Server} (h : ServerKept past sv) (slot : Nat)
    (o : Occurrence) :
    KeptAlong past (sv.call slot o).exchanges ∧ Kept (past ++ (sv.call slot o).exchanges)
      (sv.call slot o).shared (sv.call slot o).client.session := by
  unfold Server.call handleClient
  simp only
  rw [scan_exchanges, scan_session, scan_shared]
  exact exchanges_kept _ ((h slot).of_maildir rfl)

theorem served_kept {past : List Exchange} {sv : Server} (h : ServerKept past sv)
    (o : Occurrence) : ServerKept (past ++ (sv.result o).exchanges) (sv.served o) := by
  have hcall : Kept (past ++ (sv.result o).exchanges) (sv.served o).shared
      (sv.result o).client.session := (call_kept h sv.slot o).2
  intro k
  by_cases hk : k = sv.slot
  · have hclient : (sv.served o).clients k = (sv.result o).client := by
      rw [hk]
      exact Function.update_self _ _ _
    rwa [hclient]
  · have hclient : (sv.served o).clients k = sv.clients k := Function.update_of_ne hk _ _
    rw [hclient]
    exact hcall.other (h k)

theorem handleCloseClient_kept {past : List Exchange} {sv : Server} (h : ServerKept past sv)
    (index : Nat) : ServerKept past (sv.handleCloseClient index) := by
  have hmoved : ∀ k, Kept past sv.shared
      ((Function.update sv.clients (index - 2) (sv.clients (sv.clientCount - 1))) k).session := by
    intro k
    rw [Function.update_apply]
    split
    · exact h _
    · exact h k
  intro k
  simp only [Server.handleCloseClient]
  rw [Function.update_apply]
  split
  · exact (hmoved _).of_maildir rfl
  · exact hmoved k

theorem joined_kept {past : List Exchange} {sv : Server} (h : ServerKept past sv) (fd : Int)
    (ip : Bytes) : ServerKept past (sv.joined fd ip) := by
  -- the new session starts with the mailbox that was left in its slot
  have hold : ∀ s, Kept past sv.shared s → Kept past (sv.joined fd ip).shared s :=
    fun _ hs => ⟨hs.bytes, hs.messages, hs.held⟩
  intro k
  simp only [Server.joined, Server.acceptClient, Server.addClient]
  rw [Function.update_apply]
  split
  · exact hold _ ((h sv.clientCount).of_maildir rfl)
  · exact hold _ (h k)

/-- **Step lemma for the server.** -/
theorem ServerKept.next {past : List Exchange} {sv : Server} (h : ServerKept past sv)
    (o : Occurrence) :
    KeptAlong past (sv.step o).event.exchanges ∧
      ServerKept (past ++ (sv.step o).event.exchanges) (sv.step o).server := by
  have hcase := sv.step_cases o
  have hidle : KeptAlong past [] := Machine.along_nil _
  have hserved := served_kept h o
  have halong : KeptAlong past (sv.result o).exchanges := (call_kept h sv.slot o).1
  generalize sv.step o = st at hcase ⊢
  cases hcase with
  | admitted _ _ _ _ => exact ⟨hidle, (List.append_nil past).symm ▸ joined_kept h _ _⟩
  | faulted _ _ _ _ => exact ⟨halong, hserved⟩
  | stayed _ _ _ _ _ => exact ⟨halong, hserved⟩
  | closed _ _ _ _ _ => exact ⟨halong, handleCloseClient_kept hserved _⟩
  | _ => exact ⟨hidle, (List.append_nil past).symm ▸ h⟩

/-! ### Whole runs -/

theorem exchanges_keptAlong (os : List Occurrence) {past : List Exchange} {sv : Server}
    (h : ServerKept past sv) : KeptAlong past (sv.exchanges os) := by
  induction os generalizing past sv with
  | nil => exact Machine.along_nil _
  | cons o os ih =>
    obtain ⟨halong, hnext⟩ := h.next o
    cases hgo : serverMachine.stop sv o with
    | true =>
      rw [Server.exchanges, Machine.trace_cons_stop _ hgo, List.flatMap_singleton]
      exact halong
    | false =>
      rw [Server.exchanges, Machine.trace_cons_go _ hgo, List.flatMap_cons]
      refine Machine.along_append halong ?_
      change Machine.Along ((sv.step o).server.exchanges os) _
      simpa only [KeptAlong, List.append_assoc] using ih hnext

/-- **At every command of a run the metrics count the messages sent so far, reduced to an `int`, and
every mailbox goes back to a PASS.** -/
theorem kept_along (sh : Shared) (managerSocket : Int) (os : List Occurrence) :
    Machine.Along ((Server.zeroed sh managerSocket).exchanges os)
      fun past x => Kept past x.shared x.session := by
  have hzero : (0 : Int) = int32 0 := (int32_of_fits ⟨by decide, by decide⟩).symm
  have hstart : ServerKept [] (Server.zeroed sh managerSocket) := fun _ => ⟨hzero, hzero, nofun⟩
  exact exchanges_keptAlong os hstart

end Pop3Server
