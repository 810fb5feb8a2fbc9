import Pop3Server.Descriptors
import Pop3Server.PollTable
import Pop3Server.Service
import Pop3Server.Transfers

/-!
# The connections of the server

The server knows a client by the number of a descriptor.  `runCalls` are the calls
a run makes on the sockets of its clients, each under the number of its session,
and `wired` says that the descriptors are used as they should be: whatever a
session is sent is sent while its descriptor leads to its own connection, and
nothing else is closed for it.  What the kernel owes is `DescriptorsFresh`.
-/

namespace Pop3Server

open Function (update)
open Descriptors

/-! ### The calls of a run -/

/-- A call of the server: the session it is made for, the descriptor, and what is done. -/
abbrev Call := Nat × Int × Use Act

def Effect.calls (n : Nat) (fd : Int) : Effect → List Call
  | .close closed => [(n, closed, .closes)]
  | e => e.acts.map fun a => (n, fd, .acts a)

/-- The session a turn is for; one that is accepted gets the next number. -/
def ServerEvent.number (r : Roster) : ServerEvent → Nat
  | .served slot _ _ => r.owner slot
  | _ => r.admitted

def Server.turnCalls (sv : Server) (r : Roster) (o : Occurrence) : List Call :=
  let n := (sv.step o).event.number r
  ((sv.accepts o).toList.map fun c => (n, c.1, .opens)) ++
    (sv.step o).effects.flatMap fun e => e.2.calls n e.1

def Server.runCalls (sv : Server) (os : List Occurrence) : List Call :=
  rosters.emitted (fun x => Server.turnCalls x.1 x.2) (sv, Roster.empty) os

/-- The calls that need the socket of the client. -/
def Act.UsesSocket : Act → Prop
  | .send _ => True
  | .fork _ _ => True
  | _ => False

/-- `accept` and `socket` return numbers that are not in use. -/
structure Server.FreshFor (sv : Server) (o : Occurrence) : Prop where
  accept : ∀ c ∈ sv.accepts o,
    c.1 ∉ sv.openSockets ∧ c.1 ≠ sv.shared.listener.serverSocket
  socket : ∀ k, ∀ fd ∈ (o.env k).net.socket, fd ∉ sv.openSockets

def Server.DescriptorsFresh (sv : Server) (os : List Occurrence) : Prop :=
  ∀ x ∈ serverMachine.trace sv os, x.1.FreshFor x.2

/-! ### What a command closes -/

/-- The descriptors a command may close beside that of its client: the old listening socket, or a
new one that could not be used. -/
def MayClose (env : Env) (sh : Shared) (fd : Int) : Prop :=
  fd = sh.listener.serverSocket ∨ fd ∈ env.net.socket

theorem openListener_closes (net : NetworkCalls) (l : Listener) {fd : Int}
    (h : fd ∈ (openListener net l).2.1) : fd = l.serverSocket ∨ fd ∈ net.socket := by
  unfold openListener at h
  cases hsocket : net.socket with
  | none =>
    rw [hsocket] at h
    exact absurd h List.not_mem_nil
  | some new =>
    simp only [hsocket] at h
    split at h
    · exact .inr (congrArg some (List.mem_singleton.mp h).symm)
    split at h
    · exact .inr (congrArg some (List.mem_singleton.mp h).symm)
    split at h
    · exact .inr (congrArg some (List.mem_singleton.mp h).symm)
    split at h
    · exact .inr (congrArg some (List.mem_singleton.mp h).symm)
    · exact .inl (List.mem_singleton.mp h)

theorem openListener_serverSocket (net : NetworkCalls) (l : Listener) :
    (openListener net l).1.serverSocket = l.serverSocket ∨
      (openListener net l).1.serverSocket ∈ net.socket := by
  unfold openListener
  cases hsocket : net.socket with
  | none => exact .inl rfl
  | some new =>
    simp only
    split
    · exact .inl rfl
    split
    · exact .inl rfl
    split
    · exact .inl rfl
    split
    · exact .inl rfl
    · exact .inr rfl

/-- The address is changed before the listener is opened. -/
theorem updateServerAddress_cases (net : NetworkCalls) (l : Listener) (newIp : Option Bytes)
    (newPort : Int) :
    updateServerAddress net l newIp newPort = (l, [], -1) ∨
      ∃ l', l'.serverSocket = l.serverSocket ∧
        updateServerAddress net l newIp newPort = openListener net l' := by
  unfold updateServerAddress
  cases newIp with
  | none =>
    simp only
    split
    · exact .inr ⟨{ l with
        serverAddr := { l.serverAddr with port := newPort.toNat % 2 ^ 16 } }, rfl, rfl⟩
    · exact .inl rfl
  | some ip =>
    simp only
    split
    · cases net.inetPton ip with
      | none => exact .inl rfl
      | some addr => exact .inr ⟨{ l with serverAddr := { l.serverAddr with addr := addr } }, rfl, rfl⟩
    · exact .inl rfl

theorem updateServerAddress_closes (net : NetworkCalls) (l : Listener) (newIp : Option Bytes)
    (newPort : Int) {fd : Int} (h : fd ∈ (updateServerAddress net l newIp newPort).2.1) :
    fd = l.serverSocket ∨ fd ∈ net.socket := by
  rcases updateServerAddress_cases net l newIp newPort with heq | ⟨l', hsocket, heq⟩
  · rw [heq] at h
    exact absurd h List.not_mem_nil
  · rw [heq] at h
    exact hsocket ▸ openListener_closes net l' h

theorem updateServerAddress_serverSocket (net : NetworkCalls) (l : Listener) (newIp : Option Bytes)
    (newPort : Int) :
    (updateServerAddress net l newIp newPort).1.serverSocket = l.serverSocket ∨
      (updateServerAddress net l newIp newPort).1.serverSocket ∈ net.socket := by
  rcases updateServerAddress_cases net l newIp newPort with heq | ⟨l', hsocket, heq⟩
  · exact .inl (congrArg (·.1.serverSocket) heq)
  · rw [heq]
    exact hsocket ▸ openListener_serverSocket net l'

/-- How the descriptors come out of a command: its client's is closed at the end of QUIT, and
otherwise only a listening socket. -/
inductive Closing (env : Env) (sh : Shared) (s : Session) (st : Step) : Prop
  | kept (hcloses : ∀ fd, .close fd ∈ st.effects → MayClose env sh fd)
  | quit (es : List Effect) (heffects : st.effects = es ++ [.close s.cliSocket])
      (hkept : ∀ fd, .close fd ∉ es) (hcontrol : st.control = .returned)
      (hclosing : st.session.clientState = .closing)

theorem managerOnly_closing {env : Env} {sh : Shared} {s : Session} {arm : Step}
    (h : Closing env sh s arm) : Closing env sh s (managerOnly sh s arm) := by
  unfold managerOnly
  split
  · refine .kept fun fd hmem => ?_
    cases List.mem_singleton.mp hmem
  · exact h

theorem reply_closing (env : Env) (sh sh' : Shared) (s s' : Session) (response : Bytes) :
    Closing env sh s (reply sh' s' response) := by
  refine .kept fun fd hmem => ?_
  cases List.mem_singleton.mp hmem

theorem updateAddress_closing (env : Env) (sh : Shared) (s : Session) (newIp : Option Bytes)
    (newPort : Int) : Closing env sh s (updateAddress env sh s newIp newPort) := by
  refine .kept fun fd hmem => ?_
  rcases List.mem_cons.mp hmem with hsend | hmem
  · cases hsend
  · obtain ⟨fd', hfd, heq⟩ := List.mem_map.mp hmem
    cases heq
    exact updateServerAddress_closes env.net sh.listener newIp newPort hfd

theorem Outcome.closing {env : Env} {sh : Shared} {s : Session} {comm : Pop3Command}
    {arg : Option Bytes} {st : Step} (h : Outcome env sh s comm arg st)
    (hcomm : comm ≠ .port ∧ comm ≠ .host ∧ comm ≠ .dirr ∧ comm ≠ .tran ∧ comm ≠ .ipv6) :
    Closing env sh s st := by
  have hsends : ∀ (answers : List Bytes) fd, Effect.close fd ∉ answers.map .send := by
    intro answers fd hmem
    obtain ⟨_, -, heq⟩ := List.mem_map.mp hmem
    cases heq
  cases h with
  | configured hconfigures _ _ _ _ _ =>
    obtain ⟨hport, hhost, hdirr, htran, hipv6⟩ := hcomm
    rcases hconfigures with h | h | h | h | h
    · exact absurd h hport
    · exact absurd h hhost
    · exact absurd h hdirr
    · exact absurd h htran
    · exact absurd h hipv6
  | told _ answers _ _ => exact .kept fun fd hmem => absurd hmem (hsends answers fd)
  | dangling _ _ answers => exact .kept fun fd hmem => absurd hmem (hsends answers fd)
  | quitMailbox _ _ _ =>
    refine .quit _ rfl (fun fd hmem => ?_) rfl rfl
    rcases List.mem_cons.mp hmem with hsend | hmem
    · cases hsend
    · obtain ⟨_, -, heq⟩ := List.mem_map.mp hmem
      cases heq
  | quitPlain _ =>
    refine .quit [goodbye] rfl (fun fd hmem => ?_) rfl rfl
    cases List.mem_singleton.mp hmem
  | retrieved _ _ _ _ => exact .kept fun fd hmem => by simp [announced] at hmem
  | logSent _ => exact .kept fun fd hmem => by simp at hmem
  | loggedIn _ _ _ => exact .kept fun fd hmem => by simp [accepted] at hmem
  | noMailbox _ _ _ => exact .kept fun fd hmem => by simp [nullPointer, accepted] at hmem
  | _ => exact reply_closing ..

theorem execute_closing (env : Env) (sh : Shared) (s : Session) (comm : Pop3Command)
    (arg : Option Bytes) (tail : Bytes) : Closing env sh s (execute env sh s comm arg tail) := by
  have hother := (execute_outcome env sh s comm arg tail).closing
  cases comm with
  | port => exact managerOnly_closing (updateAddress_closing ..)
  | ipv6 => exact managerOnly_closing (updateAddress_closing ..)
  | host => exact managerOnly_closing (reply_closing ..)
  | dirr => exact managerOnly_closing (reply_closing ..)
  | tran => exact managerOnly_closing (reply_closing ..)
  | _ => exact hother (by decide)

/-- The listening socket after a command is the one there was, or a new one. -/
theorem execute_socket (env : Env) (sh : Shared) (s : Session) (comm : Pop3Command)
    (arg : Option Bytes) (tail : Bytes) :
    MayClose env sh (execute env sh s comm arg tail).shared.listener.serverSocket := by
  apply @execute_shared (fun sh' => MayClose env sh sh'.listener.serverSocket)
  case h => exact .inl rfl
  case hcount => exact fun _ _ => .inl rfl
  case hpop3 => exact fun _ _ => .inl rfl
  case hlistener => exact fun _ ip port => updateServerAddress_serverSocket env.net sh.listener ip port

theorem Exchange.closing (x : Exchange) : Closing x.env x.shared x.session x.step := by
  unfold Exchange.step
  by_cases h4 : x.command.length < 4
  · rw [dispatch_of_short h4]
    refine .kept fun fd hmem => ?_
    cases List.mem_singleton.mp hmem
  by_cases hfit : x.command.length ≤ 2 * BUFFER_SIZE
  case neg =>
    rw [dispatch_of_huge (Nat.lt_of_not_le hfit)]
    exact .kept fun fd hmem => absurd hmem List.not_mem_nil
  rw [dispatch_of_long (Nat.le_of_not_lt h4) hfit]
  -- the line of the log comes first
  cases execute_closing x.env x.shared x.session (getCommandValue x.command)
    (argument x.command) (cstr (x.command.drop 5)) with
  | kept hcloses =>
    refine .kept fun fd hmem => ?_
    rcases List.mem_cons.mp hmem with hlog | hmem
    · cases hlog
    · exact hcloses fd hmem
  | quit es heffects hkept hcontrol hclosing =>
    refine .quit (commandLog x.env x.session x.command :: es) ?_ (fun fd hmem => ?_) hcontrol
      hclosing
    · simp only [heffects, List.cons_append]
    · rcases List.mem_cons.mp hmem with hlog | hmem
      · cases hlog
      · exact hkept fd hmem

theorem Exchange.socket (x : Exchange) :
    MayClose x.env x.shared x.step.shared.listener.serverSocket := by
  unfold Exchange.step
  by_cases h4 : x.command.length < 4
  · rw [dispatch_of_short h4]
    exact .inl rfl
  by_cases hfit : x.command.length ≤ 2 * BUFFER_SIZE
  · rw [dispatch_of_long (Nat.le_of_not_lt h4) hfit]
    exact execute_socket ..
  · rw [dispatch_of_huge (Nat.lt_of_not_le hfit)]
    exact .inl rfl

/-! ### The calls of some lines -/

/-- Under the rules of the descriptors, a call on a client's socket finds that client. -/
def wiring : LTS (Wiring Int Nat) Call := Wiring.system Act.UsesSocket

theorem run_acts {s : Wiring Int Nat} {n : Nat} {fd : Int} (hleads : s.table fd = some n)
    (acts : List Act) : wiring.Run s (acts.map fun a => (n, fd, Use.acts a)) s := by
  induction acts with
  | nil => exact .nil
  | cons a acts ih => exact .cons (.acts fun _ => hleads) ih

/-- Effects that close no descriptor of a client. -/
theorem run_effects {s : Wiring Int Nat} {n : Nat} {fd : Int} (hleads : s.table fd = some n)
    (hknown : s.known n) {es : List Effect}
    (hcloses : ∀ closed, .close closed ∈ es → s.table closed = none) :
    wiring.Run s (es.flatMap fun e => e.calls n fd) s := by
  induction es with
  | nil => exact .nil
  | cons e es ih =>
    have hrest := ih fun closed h => hcloses closed (List.mem_cons_of_mem _ h)
    rw [List.flatMap_cons]
    refine LTS.Run.append ?_ hrest
    cases e with
    | close closed =>
      have hfree := hcloses closed List.mem_cons_self
      have hstep : wiring.step s (n, closed, .closes) ⟨s.table.closed closed, s.known⟩ :=
        .closes hknown fun y hy => absurd (hfree.symm.trans hy) (Option.some_ne_none y).symm
      rw [Table.closed_of_free hfree] at hstep
      exact .single hstep
    | _ => exact run_acts hleads _

/-- The wiring after a call: the session's own descriptor may be closed, when it leaves. -/
structure Rewired (s s' : Wiring Int Nat) (fd : Int) (leaves : Prop) : Prop where
  known : s'.known = s.known
  table : s'.table = s.table ∨ (s'.table = s.table.closed fd ∧ leaves)

/-- Closing a descriptor of the session that leaves comes to the same when QUIT has closed it. -/
theorem Rewired.closed {s s' : Wiring Int Nat} {fd : Int} {leaves : Prop}
    (h : Rewired s s' fd leaves) :
    (⟨s'.table.closed fd, s'.known⟩ : Wiring Int Nat) = ⟨s.table.closed fd, s.known⟩ := by
  rw [h.known]
  rcases h.table with htable | ⟨htable, -⟩
  · rw [htable]
  · have hfree : s.table.closed fd fd = none := Function.update_self ..
    rw [htable, Table.closed_of_free hfree]

/-- **The lines of a call.** -/
theorem run_call_lines {w : LoopState} (lines : List Bytes) {s : Wiring Int Nat} {n : Nat}
    (hleads : s.table w.session.cliSocket = some n) (hknown : s.known n)
    (hlistener : s.table w.shared.listener.serverSocket = none)
    (hsockets : ∀ k, ∀ fd ∈ (w.env k).net.socket, s.table fd = none) :
    ∃ s', wiring.Run s (((exchanges w lines).flatMap (·.step.effects)).flatMap
        fun e => e.calls n w.session.cliSocket) s' ∧
      Rewired s s' w.session.cliSocket
        ((commandMachine.final w lines).session.clientState = .closing) ∧
      s.table (commandMachine.final w lines).shared.listener.serverSocket = none := by
  induction lines generalizing w with
  | nil => exact ⟨s, .nil, ⟨rfl, .inl rfl⟩, hlistener⟩
  | cons c cs ih =>
    have hfree : ∀ fd, MayClose (w.exchange c).env (w.exchange c).shared fd → s.table fd = none := by
      rintro fd (rfl | hfd)
      · exact hlistener
      · exact hsockets 0 fd hfd
    have hsocket := hfree _ (w.exchange c).socket
    have hcall := @run_effects s n w.session.cliSocket hleads hknown (w.exchange c).step.effects
    cases hgo : commandMachine.stop w c with
    | true =>
      rw [exchanges_cons_stop hgo, Machine.final_cons_stop _ hgo, List.flatMap_singleton]
      cases (w.exchange c).closing with
      | kept hcloses => exact ⟨s, hcall fun fd h => hfree fd (hcloses fd h), ⟨rfl, .inl rfl⟩, hsocket⟩
      | quit es heffects hkept hcontrol hclosing =>
        refine ⟨⟨s.table.closed w.session.cliSocket, s.known⟩, ?_, ⟨rfl, .inr ⟨rfl, hclosing⟩⟩,
          hsocket⟩
        rw [heffects, List.flatMap_append]
        refine (run_effects hleads hknown fun fd h => absurd h (hkept fd)).append (.single ?_)
        exact .closes hknown fun y hy => Option.some.inj (hy.symm.trans hleads)
    | false =>
      have hcontrol := stop_eq_false_iff.mp hgo
      have hcloses : ∀ fd, .close fd ∈ (w.exchange c).step.effects → s.table fd = none := by
        cases (w.exchange c).closing with
        | kept hcloses => exact fun fd h => hfree fd (hcloses fd h)
        | quit _ _ _ hreturned _ => cases hcontrol.symm.trans hreturned
      have hsession : (commandMachine.next w c).session.cliSocket = w.session.cliSocket :=
        @dispatch_keeps (fun s _ => s.cliSocket = w.session.cliSocket)
          (fun env sh s comm arg tail h => (execute_cliSocket env sh s comm arg tail).trans h)
          _ w.shared w.session rfl c
      obtain ⟨s', hrun, hrewired, hfinal⟩ := @ih (commandMachine.next w c) (hsession ▸ hleads) hsocket
        fun k => hsockets (k + 1)
      rw [exchanges_cons_go hgo, Machine.final_cons_go _ hgo, List.flatMap_cons, List.flatMap_append]
      rw [hsession] at hrun hrewired
      exact ⟨s', (hcall hcloses).append hrun, hrewired, hfinal⟩

/-- The calls of a turn that serves a session. -/
def CallResult.calls (r : CallResult) (n : Nat) (fd : Int) : List Call :=
  (r.exchanges.flatMap (·.step.effects)).flatMap fun e => e.calls n fd

/-- **A call of `handle_client`.** -/
theorem run_client_call {sv : Server} {slot : Nat} {o : Occurrence} {s : Wiring Int Nat} {n : Nat}
    (hleads : s.table (sv.clients slot).session.cliSocket = some n) (hknown : s.known n)
    (hlistener : s.table sv.shared.listener.serverSocket = none)
    (hsockets : ∀ k, ∀ fd ∈ (o.env k).net.socket, s.table fd = none) :
    ∃ s', wiring.Run s ((sv.call slot o).calls n (sv.clients slot).session.cliSocket) s' ∧
      Rewired s s' (sv.clients slot).session.cliSocket
        (Server.closes (sv.call slot o).client.session.clientState = true) ∧
      s.table (sv.call slot o).shared.listener.serverSocket = none := by
  have hrun : ∀ {t : Session}, t.cliSocket = (sv.clients slot).session.cliSocket → ∀ buff,
      let r := scan ⟨o.env, sv.shared, t⟩ (sv.clients slot).recvBuffer [] buff
      ∃ s', wiring.Run s (r.calls n (sv.clients slot).session.cliSocket) s' ∧
        Rewired s s' (sv.clients slot).session.cliSocket
          (Server.closes r.client.session.clientState = true) ∧
        s.table r.shared.listener.serverSocket = none := by
    intro t ht buff r
    obtain ⟨s', hlines, hrewired, hfinal⟩ := @run_call_lines ⟨o.env, sv.shared, t⟩
      (callLines (sv.clients slot).recvBuffer buff) s n (ht ▸ hleads) hknown hlistener hsockets
    rw [← scan_exchanges, ht] at hlines
    rw [← scan_session, ht] at hrewired
    rw [← scan_shared] at hfinal
    refine ⟨s', hlines, ⟨hrewired.known, hrewired.table.imp_right fun h => ⟨h.1, ?_⟩⟩, hfinal⟩
    rw [h.2]
    rfl
  unfold Server.call handleClient
  cases o.recv with
  | closed => exact hrun (t := { (sv.clients slot).session with clientState := .closing }) rfl _
  | data d => exact hrun rfl _
  | again => exact hrun rfl _
  | failed => exact hrun rfl _

/-! ### The wiring of a run -/

namespace Server

/-- The descriptors lead to the sessions in the table. -/
structure Wired (x : Server × Roster) (s : Wiring Int Nat) : Prop where
  inStep : x.1.InStep
  roster : x.2.Inv x.1
  room : x.1.clientCount ≤ MAX_CLIENTS
  leads : ∀ d n, s.table d = some n ↔
    ∃ k < x.1.clientCount, x.2.owner k = n ∧ (x.1.clients k).session.cliSocket = d
  known : ∀ n, s.known n ↔ n < x.2.admitted
  listening : s.table x.1.shared.listener.serverSocket = none

theorem wired_start (sh : Shared) (managerSocket : Int) :
    Wired (start sh managerSocket, Roster.empty) Wiring.start where
  inStep := inStep_start sh managerSocket
  roster := Roster.inv_empty rfl
  room := Nat.zero_le _
  leads d n := by
    constructor
    · exact fun h => absurd h (Option.some_ne_none n).symm
    · exact fun ⟨k, hk, _⟩ => absurd hk (Nat.not_lt_zero k)
  known n := (iff_false_intro (Nat.not_lt_zero n)).symm
  listening := rfl

variable {sv : Server} {r : Roster} {s : Wiring Int Nat}

theorem Wired.leads_slot (h : Wired (sv, r) s) {k : Nat} (hk : k < sv.clientCount) :
    s.table (sv.clients k).session.cliSocket = some (r.owner k) :=
  (h.leads _ _).mpr ⟨k, hk, rfl, rfl⟩

/-- A number that no session has is free. -/
theorem Wired.free (h : Wired (sv, r) s) {d : Int} (hd : d ∉ sv.openSockets) :
    s.table d = none := by
  cases hleads : s.table d with
  | none => rfl
  | some n =>
    obtain ⟨k, hk, -, rfl⟩ := (h.leads d n).mp hleads
    exact absurd (List.mem_map.mpr ⟨k, List.mem_range.mpr hk, rfl⟩) hd

/-- Turns that leave the sessions alone. -/
theorem Wired.same (h : Wired (sv, r) s) {sv' : Server} (hinStep : sv'.InStep)
    (hclients : sv'.clients = sv.clients) (hcount : sv'.clientCount = sv.clientCount)
    (hshared : sv'.shared = sv.shared) : Wired (sv', r) s where
  inStep := hinStep
  roster := h.roster.of_count hcount
  room := hcount ▸ h.room
  leads d n := by
    simp only [hclients, hcount]
    exact h.leads d n
  known := h.known
  listening := hshared ▸ h.listening

/-- A connection is accepted. -/
theorem Wired.opened (h : Wired (sv, r) s) {sv' : Server} {fd : Int} {isManager : Bool} {ip : Bytes}
    (hfresh : fd ∉ sv.openSockets ∧ fd ≠ sv.shared.listener.serverSocket)
    (hinStep : sv'.InStep) (hroom : sv.clientCount < MAX_CLIENTS)
    (hclients : sv'.clients = update sv.clients sv.clientCount
      ⟨newSession fd isManager ip (sv.clients sv.clientCount).session.maildir,
        (sv.clients sv.clientCount).recvBuffer⟩)
    (hcount : sv'.clientCount = sv.clientCount + 1)
    (hlistener : sv'.shared.listener = sv.shared.listener) (line : Bytes) (greeting : Bytes) :
    ∃ s', wiring.Run s ((r.admitted, fd, .opens) ::
        ([(fd, Effect.send greeting), (fd, .log line)].flatMap fun e => e.2.calls r.admitted e.1))
        s' ∧
      Wired (sv', r.record sv (.opened sv.clientCount)) s' := by
  have hfree := h.free hfresh.1
  have hnew : ¬ s.known r.admitted := fun hk => Nat.lt_irrefl _ ((h.known _).mp hk)
  have hleads : (s.table.opened fd r.admitted) fd = some r.admitted := Function.update_self ..
  have hsends := @run_effects ⟨s.table.opened fd r.admitted, fun m => s.known m ∨ m = r.admitted⟩
    r.admitted fd hleads (.inr rfl) [.send greeting, .log line] fun closed hmem => by simp at hmem
  refine ⟨_, .cons (.opens hfree hnew) hsends, ?_⟩
  have howner : ∀ k < sv.clientCount, (r.record sv (.opened sv.clientCount)).owner k = r.owner k ∧
      sv'.clients k = sv.clients k := by
    intro k hk
    rw [Roster.owner_opened, if_neg (Nat.ne_of_lt hk), hclients,
      Function.update_of_ne (Nat.ne_of_lt hk)]
    exact ⟨rfl, rfl⟩
  have hlast : (r.record sv (.opened sv.clientCount)).owner sv.clientCount = r.admitted ∧
      (sv'.clients sv.clientCount).session.cliSocket = fd := by
    rw [Roster.owner_opened, if_pos rfl, hclients, Function.update_self]
    exact ⟨rfl, rfl⟩
  constructor
  case inStep => exact hinStep
  case roster => exact h.roster.opened hcount
  case room =>
    simp only [hcount]
    exact hroom
  case leads =>
    intro d n
    simp only [Table.opened_eq_some hfree, h.leads, hcount]
    constructor
    · rintro (⟨k, hk, rfl, rfl⟩ | ⟨rfl, rfl⟩)
      · refine ⟨k, Nat.lt_succ_of_lt hk, (howner k hk).1, ?_⟩
        rw [(howner k hk).2]
      · exact ⟨sv.clientCount, Nat.lt_succ_self _, hlast⟩
    · rintro ⟨k, hk, rfl, rfl⟩
      rcases Nat.lt_succ_iff_lt_or_eq.mp hk with hk | rfl
      · refine .inl ⟨k, hk, (howner k hk).1.symm, ?_⟩
        rw [(howner k hk).2]
      · exact .inr ⟨hlast.2, hlast.1⟩
  case known =>
    intro n
    simp only [h.known n]
    exact Nat.lt_succ_iff_lt_or_eq.symm
  case listening =>
    change s.table.opened fd r.admitted sv'.shared.listener.serverSocket = none
    rw [hlistener, Table.opened, Function.update_of_ne fun he => hfresh.2 he.symm]
    exact h.listening

/-- A session is served, and stays. -/
theorem Wired.stayed (h : Wired (sv, r) s) {sv' : Server} {slot : Nat} {o : Occurrence}
    (hinStep : sv'.InStep)
    (hclients : sv'.clients = update sv.clients slot (sv.call slot o).client)
    (hcount : sv'.clientCount = sv.clientCount) (hshared : sv'.shared = (sv.call slot o).shared)
    (hlistener : s.table (sv.call slot o).shared.listener.serverSocket = none) :
    Wired (sv', r) s where
  inStep := hinStep
  roster := h.roster.of_count hcount
  room := hcount ▸ h.room
  leads d n := by
    have hsocket : ∀ k, (sv'.clients k).session.cliSocket = (sv.clients k).session.cliSocket := by
      intro k
      rw [hclients, Function.update_apply]
      split
      · next hk =>
        rw [hk]
        exact call_cliSocket sv slot o
      · rfl
    simp only [hsocket, hcount]
    exact h.leads d n
  known := h.known
  listening := hshared ▸ hlistener

/-- A session is served, and leaves. -/
theorem Wired.departed (h : Wired (sv, r) s) {o : Occurrence} (hevent : sv.AtEvent)
    (h2 : 2 ≤ sv.index)
    (hlistener : s.table (sv.call sv.slot o).shared.listener.serverSocket = none) (xs : List Exchange) :
    Wired (sv.departed o, r.record sv (.served sv.slot xs true))
      ⟨s.table.closed (sv.clients sv.slot).session.cliSocket, s.known⟩ := by
  have hslot := hevent.slot_lt h2
  have hcount : (sv.departed o).clientCount = sv.clientCount - 1 := rfl
  have hisOpen := @Roster.Inv.isOpen_closed r sv (sv.departed o) h.roster sv.slot hslot rfl xs
  -- what is in slot `k` now was in slot `origin` before
  have hmoved : ∀ k < sv.clientCount - 1, ∃ origin < sv.clientCount, origin ≠ sv.slot ∧
      (r.record sv (.served sv.slot xs true)).owner k = r.owner origin ∧
      (sv.departed o).clients k = sv.clients origin := by
    intro k hk
    rw [Roster.owner_closed, sv.departed_clients o hk]
    by_cases hks : k = sv.slot
    · refine ⟨sv.clientCount - 1, by omega, by omega, ?_, ?_⟩
      · rw [if_pos hks]
      · rw [if_pos hks]
    · refine ⟨k, by omega, hks, ?_, ?_⟩
      · rw [if_neg hks]
      · rw [if_neg hks]
  constructor
  case inStep => exact h.inStep.departed hevent h2 o
  case roster => exact h.roster.closed hslot rfl xs
  case room =>
    simp only [hcount]
    exact (Nat.sub_le _ _).trans h.room
  case leads =>
    intro d n
    simp only [Table.closed_eq_some, h.leads, hcount]
    constructor
    · rintro ⟨⟨j, hj, rfl, rfl⟩, hne⟩
      have hjs : j ≠ sv.slot := fun he => hne (he ▸ rfl)
      have hstays : (r.record sv (.served sv.slot xs true)).IsOpen (sv.departed o) (r.owner j) :=
        (hisOpen _).mpr ⟨⟨j, hj, rfl⟩, fun he => hjs (h.roster.distinct j hj _ hslot he)⟩
      obtain ⟨k, hk, howner⟩ := hstays
      obtain ⟨origin, horigin, -, howner', hclient⟩ := hmoved k hk
      have hsame := h.roster.distinct _ horigin j hj (howner'.symm.trans howner)
      refine ⟨k, hk, howner, ?_⟩
      rw [hclient, hsame]
    · rintro ⟨k, hk, rfl, rfl⟩
      obtain ⟨origin, horigin, hne, howner, hclient⟩ := hmoved k hk
      rw [howner, hclient]
      exact ⟨⟨origin, horigin, rfl, rfl⟩, fun he => hne (h.inStep.distinct _ horigin _ hslot he)⟩
  case known => exact h.known
  case listening =>
    change s.table.closed (sv.clients sv.slot).session.cliSocket
      (sv.call sv.slot o).shared.listener.serverSocket = none
    rw [Table.closed, Function.update_apply]
    split
    · rfl
    · exact hlistener

/-- **The wiring follows every turn of the loop.** -/
theorem Wired.follow (h : Wired (sv, r) s) {o : Occurrence} (hfresh : sv.FreshFor o) :
    ∃ s', wiring.Run s (sv.turnCalls r o) s' ∧ ((sv.step o).halted = false →
      Wired ((sv.step o).server, r.record sv (sv.step o).event) s') := by
  have hinStep := h.inStep.next (o := o) fun c hc => (hfresh.accept c hc).1
  have hsockets : ∀ k, ∀ fd ∈ (o.env k).net.socket, s.table fd = none :=
    fun k fd hfd => h.free (hfresh.socket k fd hfd)
  have hserved : ∀ slot < sv.clientCount, _ := fun slot hslot =>
    @run_client_call sv slot o s (r.owner slot) (h.leads_slot hslot)
      ((h.known _).mpr (h.roster.known slot hslot)) h.listening hsockets
  have hcalls : ∀ n, (sv.servedEffects o).flatMap (fun e => e.2.calls n e.1) =
      (sv.call sv.slot o).calls n (sv.clients sv.slot).session.cliSocket := by
    intro n
    rw [servedEffects, List.flatMap_map]
    rfl
  -- turns in which nothing is accepted and nobody is served
  have hidle : ∀ {sv' : Server}, sv.accepts o = none → sv'.InStep → sv'.clients = sv.clients →
      sv'.clientCount = sv.clientCount → sv'.shared = sv.shared →
      ∃ s', wiring.Run s ((sv.accepts o).toList.map (fun c => (r.admitted, c.1, .opens)) ++ []) s' ∧
        (false = false → Wired (sv', r) s') := by
    intro sv' hnone hinStep hclients hcount hshared
    rw [hnone]
    exact ⟨s, .nil, fun _ => h.same hinStep hclients hcount hshared⟩
  have hcase := sv.step_cases o
  unfold turnCalls
  generalize sv.step o = st at hcase hinStep ⊢
  cases hcase with
  | polled hend =>
    refine hidle (accepts_of_no_event ?_ o) (hinStep rfl) rfl rfl rfl
    exact fun hevent => absurd hevent.index (Nat.not_le_of_lt hend)
  | skipped _ hrevents =>
    refine hidle (accepts_of_no_event ?_ o) (hinStep rfl) rfl rfl rfl
    exact fun hevent => Bool.false_ne_true (hrevents.symm.trans hevent.revents)
  | unaccepted hevent hlisten hnone =>
    exact hidle ((accepts_of_event hevent hlisten o).trans hnone) (hinStep rfl) rfl rfl rfl
  | refused _ _ _ hfull => exact absurd h.room (Nat.not_le_of_lt hfull)
  | stray _ hlisten _ =>
    refine ⟨s, ?_, fun hgo => absurd hgo.symm Bool.false_ne_true⟩
    rw [accepts_of_client hlisten]
    exact .nil
  | overflown hevent hlisten hsome _ =>
    have haccepts := (accepts_of_event hevent hlisten o).trans hsome
    have hfree := h.free (hfresh.accept _ haccepts).1
    have hnew : ¬ s.known r.admitted := fun hk => Nat.lt_irrefl _ ((h.known _).mp hk)
    have hrun := LTS.Run.single (T := wiring) (.opens hfree hnew)
    rw [haccepts]
    exact ⟨_, hrun, fun hgo => absurd hgo.symm Bool.false_ne_true⟩
  | admitted hevent hlisten hsome hroom =>
    have haccepts := (accepts_of_event hevent hlisten o).trans hsome
    obtain ⟨s', hrun, hwired⟩ := h.opened (hfresh.accept _ haccepts) (hinStep rfl) hroom rfl rfl rfl _ _
    rw [haccepts]
    exact ⟨s', hrun, fun _ => hwired⟩
  | faulted hevent hlisten h2 _ =>
    obtain ⟨s', hrun, -⟩ := hserved _ (hevent.slot_lt h2)
    rw [← hcalls] at hrun
    rw [accepts_of_client hlisten]
    exact ⟨s', hrun, fun hgo => absurd hgo.symm Bool.false_ne_true⟩
  | stayed hevent hlisten h2 _ hopen =>
    obtain ⟨s', hrun, hrewired, hlistener⟩ := hserved _ (hevent.slot_lt h2)
    have hsame : s' = s := by
      rcases hrewired.table with htable | ⟨-, hleaves⟩
      · exact congr (congrArg Wiring.mk htable) hrewired.known
      · cases hopen.symm.trans hleaves
    rw [← hcalls, hsame] at hrun
    rw [accepts_of_client hlisten]
    exact ⟨s, hrun, fun _ => h.stayed (hinStep rfl) rfl rfl rfl hlistener⟩
  | closed hevent hlisten h2 _ _ =>
    have hslot := hevent.slot_lt h2
    obtain ⟨s', hrun, hrewired, hlistener⟩ := hserved _ hslot
    have hindex : sv.index = sv.slot + 2 := by
      unfold slot
      omega
    have hfd : ((sv.served o).pollFd sv.index).fd = (sv.clients sv.slot).session.cliSocket := by
      have hzero : sv.index ≠ 0 := by omega
      rw [pollFd, if_neg hzero, ← h.inStep.socket _ hslot, hindex]
      exact sv.clearRevents_fd _
    have hknown : s'.known (r.owner sv.slot) := by
      rw [hrewired.known]
      exact (h.known _).mpr (h.roster.known _ hslot)
    have hclose : wiring.step s' (r.owner sv.slot, (sv.clients sv.slot).session.cliSocket, .closes)
        ⟨s'.table.closed (sv.clients sv.slot).session.cliSocket, s'.known⟩ := by
      refine .closes hknown fun y hy => ?_
      rcases hrewired.table with htable | ⟨htable, -⟩
      · exact Option.some.inj ((htable ▸ hy).symm.trans (h.leads_slot hslot))
      · rw [htable, Table.closed_eq_some] at hy
        exact absurd rfl hy.2
    rw [hrewired.closed] at hclose
    refine ⟨_, ?_, fun _ => h.departed hevent h2 hlistener _⟩
    simp only [accepts_of_client hlisten, List.flatMap_append, hcalls]
    refine hrun.append (.cons (.acts fun huses => huses.elim) ?_)
    rw [hfd]
    exact .single hclose

/-- **The calls of a run use the descriptors as they should be used**: what is sent to a session is
sent on its own connection, whoever has had the descriptor before. -/
theorem wired (sh : Shared) (managerSocket : Int) {os : List Occurrence}
    (hfresh : (start sh managerSocket).DescriptorsFresh os) :
    ∃ s, wiring.Run Wiring.start ((start sh managerSocket).runCalls os) s ∧
      (serverMachine.Passes (start sh managerSocket) os →
        ∃ r, Wired (serverMachine.final (start sh managerSocket) os, r) s) := by
  have hfollow : ∀ (x : Server × Roster) (o : Occurrence) (s : Wiring Int Nat), Wired x s →
      x.1.FreshFor o → ∃ s', wiring.Run s (x.1.turnCalls x.2 o) s' ∧
        (rosters.stop x o = false → Wired (rosters.next x o) s') :=
    fun x o s h hP => h.follow hP
  obtain ⟨s, hrun, hfinal⟩ := Machine.emitted_run hfollow (wired_start sh managerSocket)
    fun x hx => hfresh _ (serverMachine.mem_trace_of_ghost _ hx)
  refine ⟨s, hrun, fun hpass => ?_⟩
  have hserver := serverMachine.final_ghost (fun r sv o => r.record sv (sv.step o).event)
    (start sh managerSocket, Roster.empty) os
  rw [← hserver]
  exact ⟨_, hfinal ((serverMachine.passes_ghost _).mpr hpass)⟩

end Server

end Pop3Server
