import Mathlib.Logic.Function.Basic
import Pop3Server.HandleClient

/-!
# The server (`server/main.c`: the table of clients and the poll loop)

The sessions lie in the first `client_count` entries of `clients`, each with its
descriptor two places further in `pollfds`.  A closed session is replaced by the
last one; whatever the code does not reset stays in the place that becomes free.

One step is one turn of the `for` loop, or the `poll` between two rounds of it.
`pollfds[0].fd` is the descriptor kept in `Shared`, which PORT and IPV6 change.
An index outside the arrays ends the run, like a fault: nothing is said of what
the process does then.
-/

namespace Pop3Server

open Function (update)

def MAX_CLIENTS : Nat := 1022

def POLLIN : Nat := 1

/-- `struct pollfd`; `revents` is the test `revents & POLLIN`. -/
structure PollFd where
  fd : Int
  events : Nat
  revents : Bool
deriving DecidableEq, Repr

/-- The static variables of `main.c` and the locals of `main`; `index` is the `i` of the loop. -/
structure Server where
  clients : Nat → ClientData
  pollfds : Nat → PollFd
  clientCount : Nat
  historicClientCount : Int
  managerSocket : Int
  shared : Shared
  index : Nat

/-- What a turn of the loop finds outside the process. -/
structure Occurrence where
  /-- the descriptors `poll` reports as readable -/
  ready : Int → Bool
  /-- what `accept` returns, with the client's address as `get_client_ip` prints it -/
  accepted : Option (Int × Bytes)
  recv : Recv
  stale : Bytes
  env : Nat → Env

inductive ServerEvent where
  | quiet
  | opened (slot : Nat)
  | served (slot : Nat) (exchanges : List Exchange) (closed : Bool)

/-- The slot a new session is set up in. -/
def ServerEvent.opened? : ServerEvent → Option Nat
  | .opened slot => some slot
  | _ => none

/-- `effects` pairs each effect with the socket of the client it is for. -/
structure ServerStep where
  server : Server
  event : ServerEvent
  effects : List (Int × Effect)
  halted : Bool

namespace Server

def pollFd (sv : Server) (i : Nat) : PollFd :=
  if i = 0 then { sv.pollfds 0 with fd := sv.shared.listener.serverFd } else sv.pollfds i

/-- The server as `main` enters its loop: the arrays are zero, the descriptors `-1`. -/
def start (sh : Shared) (managerSocket : Int) : Server where
  clients _ := ⟨⟨0, none, none, [], .authorization⟩, []⟩
  pollfds i := ⟨if i = 1 then managerSocket else -1, POLLIN, false⟩
  clientCount := 0
  historicClientCount := 0
  managerSocket := managerSocket
  shared := sh
  index := 2

def countConnection (m : Metrics) (clientCount : Nat) : Metrics :=
  { m with
    totalHistoricConnections := int32 (m.totalHistoricConnections + 1)
    maxConsecutiveConnections :=
      if (clientCount : Int) > m.maxConsecutiveConnections then clientCount
      else m.maxConsecutiveConnections }

/-- `add_client` in a slot of the array, and the socket `main` stores there. -/
def addClient (sv : Server) (fd : Int) (isManager : Bool) (ip : Bytes) : Server :=
  let slot := sv.clientCount
  let old := sv.clients slot
  { sv with
    pollfds := update sv.pollfds (slot + 2)
      { sv.pollfds (slot + 2) with fd := fd, events := POLLIN }
    shared := { sv.shared with metrics := countConnection sv.shared.metrics slot }
    clients := update sv.clients slot
      { old with session := newSession fd isManager ip old.session.maildir } }

/-- `handle_close_client` on the entry `index` of `pollfds`.  After the copy of the last slot the code
frees the `ip` of that slot, which a session that has been moved still points to: here the session
keeps its address, and the release is left to the accounts of the allocations (`Ownership`). -/
def handleCloseClient (sv : Server) (index : Nat) : Server :=
  let last := sv.clientCount + 1
  let pollfds := update sv.pollfds index
    { sv.pollfds index with fd := (sv.pollfds last).fd, events := (sv.pollfds last).events }
  let clients := update sv.clients (index - 2) (sv.clients (sv.clientCount - 1))
  let old := clients (sv.clientCount - 1)
  { sv with
    pollfds := update pollfds last { pollfds last with fd := -1, events := POLLIN }
    clients := update clients (sv.clientCount - 1)
      { old with session := { old.session with
          cliSocket := -1, clientState := .errorClient, user := none } }
    clientCount := sv.clientCount - 1 }

/-- What `handle_close_client` does outside the process. -/
def closeEffects (sv : Server) (index : Nat) (ctime : Bytes) : List (Int × Effect) :=
  let s := (sv.clients (index - 2)).session
  [(s.cliSocket, logConnection (str "Disconnected") ctime s.ip),
   (s.cliSocket, .close (sv.pollFd index).fd)]

def advance (sv : Server) : Server := { sv with index := sv.index + 1 }

/-- The accept branch of the loop.  A full table refuses a client only after one has been stored
past its end. -/
def acceptBranch (sv : Server) (isManager : Bool) (o : Occurrence) : ServerStep :=
  match o.accepted with
  | none => ⟨sv.advance, .quiet, [], false⟩
  | some (fd, ip) =>
    let established := (fd, logConnection (str "Connection established") (o.env 0).ctime ip)
    if sv.clientCount < MAX_CLIENTS + 1 then
      if sv.clientCount < MAX_CLIENTS then
        let added := sv.addClient fd isManager ip
        ⟨advance { added with
            clientCount := sv.clientCount + 1
            historicClientCount := int32 (sv.historicClientCount + 1) },
          .opened sv.clientCount, [(fd, .send (str "+OK POP3 server ready\r\n")), established],
          false⟩
      else ⟨sv, .quiet, [], true⟩
    else ⟨sv.advance, .quiet, [established, (fd, .close fd)], false⟩

def closes (st : ClientState) : Bool := st == .errorClient || st == .closing

def call (sv : Server) (slot : Nat) (o : Occurrence) : CallResult :=
  handleClient o.env sv.shared (sv.clients slot) o.recv o.stale

def store (sv : Server) (slot : Nat) (r : CallResult) : Server :=
  { sv with clients := update sv.clients slot r.client, shared := r.shared }

def serveBranch (sv : Server) (o : Occurrence) : ServerStep :=
  let slot := sv.index - 2
  let r := sv.call slot o
  let served := sv.store slot r
  let fd := (sv.clients slot).session.cliSocket
  let effects := (r.exchanges.flatMap (·.step.effects)).map (Prod.mk fd)
  match r.control with
  | .fault _ => ⟨served, .served slot r.exchanges false, effects, true⟩
  | _ =>
    if closes r.client.session.clientState then
      ⟨served.handleCloseClient sv.index, .served slot r.exchanges true,
        effects ++ served.closeEffects sv.index (o.env r.exchanges.length).ctime, false⟩
    else ⟨served.advance, .served slot r.exchanges false, effects, false⟩

/-- `pollfds[i].revents = 0`. -/
def clearRevents (sv : Server) : Server :=
  { sv with
    pollfds := update sv.pollfds sv.index { sv.pollfds sv.index with revents := false } }

def body (sv : Server) (o : Occurrence) : ServerStep :=
  if (sv.pollFd sv.index).revents then
    let fd := (sv.pollFd sv.index).fd
    if fd = sv.shared.listener.serverSocket ∨ fd = sv.managerSocket then
      sv.clearRevents.acceptBranch (fd == sv.managerSocket) o
    else if sv.index < 2 then ⟨sv.clearRevents, .quiet, [], true⟩
    else sv.clearRevents.serveBranch o
  else ⟨sv.advance, .quiet, [], false⟩

/-- `poll` on the first `client_count + 2` entries; negative descriptors are never ready. -/
def poll (sv : Server) (o : Occurrence) : Server :=
  { sv with
    pollfds := fun i =>
      if i < sv.clientCount + 2 then
        { sv.pollfds i with revents := decide (0 ≤ (sv.pollFd i).fd) && o.ready (sv.pollFd i).fd }
      else sv.pollfds i
    index := 0 }

def step (sv : Server) (o : Occurrence) : ServerStep :=
  if sv.index ≤ sv.clientCount + 1 then sv.body o else ⟨sv.poll o, .quiet, [], false⟩

/-! ### The cases of a turn -/

/-- The loop stands at an entry that is reported as readable. -/
structure AtEvent (sv : Server) : Prop where
  index : sv.index ≤ sv.clientCount + 1
  revents : (sv.pollFd sv.index).revents = true

instance (sv : Server) : Decidable sv.AtEvent :=
  decidable_of_iff (sv.index ≤ sv.clientCount + 1 ∧ (sv.pollFd sv.index).revents = true)
    ⟨fun h => ⟨h.1, h.2⟩, fun h => ⟨h.1, h.2⟩⟩

/-- The entry is one of the two listening sockets. -/
def Listens (sv : Server) : Prop :=
  (sv.pollFd sv.index).fd = sv.shared.listener.serverSocket ∨
    (sv.pollFd sv.index).fd = sv.managerSocket

instance (sv : Server) : Decidable sv.Listens := inferInstanceAs (Decidable (_ ∨ _))

/-- The connection a turn accepts: its descriptor and the address of the client. -/
def accepts (sv : Server) (o : Occurrence) : Option (Int × Bytes) :=
  if sv.AtEvent ∧ sv.Listens then o.accepted else none

/-- The slot of the entry the loop stands at. -/
def slot (sv : Server) : Nat := sv.index - 2

theorem AtEvent.slot_lt {sv : Server} (h : sv.AtEvent) (h2 : 2 ≤ sv.index) :
    sv.slot < sv.clientCount := by
  have hindex := h.index
  unfold slot
  omega

/-- What `handle_client` does for that slot. -/
def result (sv : Server) (o : Occurrence) : CallResult := sv.call sv.slot o

/-- The server once `handle_client` has returned. -/
def served (sv : Server) (o : Occurrence) : Server := sv.clearRevents.store sv.slot (sv.result o)

/-- The server once the session it served has been closed. -/
def departed (sv : Server) (o : Occurrence) : Server :=
  (sv.served o).handleCloseClient sv.index

def servedEffects (sv : Server) (o : Occurrence) : List (Int × Effect) :=
  ((sv.result o).exchanges.flatMap (·.step.effects)).map
    (Prod.mk (sv.clients sv.slot).session.cliSocket)

/-- `add_client` and the rest of the accept branch. -/
def acceptClient (sv : Server) (fd : Int) (isManager : Bool) (ip : Bytes) : Server :=
  { sv.addClient fd isManager ip with
    clientCount := sv.clientCount + 1
    historicClientCount := int32 (sv.historicClientCount + 1) }

/-- The server once a connection has been accepted. -/
def joined (sv : Server) (fd : Int) (ip : Bytes) : Server :=
  sv.clearRevents.acceptClient fd ((sv.pollFd sv.index).fd == sv.managerSocket) ip

def established (o : Occurrence) (fd : Int) (ip : Bytes) : Int × Effect :=
  (fd, logConnection (str "Connection established") (o.env 0).ctime ip)

/-- The ways through the body of the loop. -/
inductive StepCase (sv : Server) (o : Occurrence) : ServerStep → Prop
  | polled (hend : sv.clientCount + 1 < sv.index) : StepCase sv o ⟨sv.poll o, .quiet, [], false⟩
  | skipped (hindex : sv.index ≤ sv.clientCount + 1)
      (hrevents : (sv.pollFd sv.index).revents = false) :
      StepCase sv o ⟨sv.advance, .quiet, [], false⟩
  | unaccepted (hevent : sv.AtEvent) (hlisten : sv.Listens) (hnone : o.accepted = none) :
      StepCase sv o ⟨sv.clearRevents.advance, .quiet, [], false⟩
  | admitted {fd ip} (hevent : sv.AtEvent) (hlisten : sv.Listens)
      (hsome : o.accepted = some (fd, ip)) (hroom : sv.clientCount < MAX_CLIENTS) :
      StepCase sv o
        ⟨(sv.joined fd ip).advance, .opened sv.clientCount,
          [(fd, .send (str "+OK POP3 server ready\r\n")), established o fd ip], false⟩
  /-- the client is stored past the end of the table -/
  | overflown {fd ip} (hevent : sv.AtEvent) (hlisten : sv.Listens)
      (hsome : o.accepted = some (fd, ip)) (hfull : sv.clientCount = MAX_CLIENTS) :
      StepCase sv o ⟨sv.clearRevents, .quiet, [], true⟩
  | refused {fd ip} (hevent : sv.AtEvent) (hlisten : sv.Listens)
      (hsome : o.accepted = some (fd, ip)) (hfull : MAX_CLIENTS < sv.clientCount) :
      StepCase sv o
        ⟨sv.clearRevents.advance, .quiet, [established o fd ip, (fd, .close fd)], false⟩
  /-- an entry in front of the clients that is none of the listening sockets -/
  | stray (hevent : sv.AtEvent) (hlisten : ¬ sv.Listens) (h2 : sv.index < 2) :
      StepCase sv o ⟨sv.clearRevents, .quiet, [], true⟩
  | faulted {f} (hevent : sv.AtEvent) (hlisten : ¬ sv.Listens) (h2 : 2 ≤ sv.index)
      (hcontrol : (sv.result o).control = .fault f) :
      StepCase sv o
        ⟨sv.served o, .served sv.slot (sv.result o).exchanges false, sv.servedEffects o, true⟩
  | stayed (hevent : sv.AtEvent) (hlisten : ¬ sv.Listens) (h2 : 2 ≤ sv.index)
      (hcontrol : ∀ f, (sv.result o).control ≠ .fault f)
      (hopen : closes (sv.result o).client.session.clientState = false) :
      StepCase sv o
        ⟨(sv.served o).advance, .served sv.slot (sv.result o).exchanges false,
          sv.servedEffects o, false⟩
  | closed (hevent : sv.AtEvent) (hlisten : ¬ sv.Listens) (h2 : 2 ≤ sv.index)
      (hcontrol : ∀ f, (sv.result o).control ≠ .fault f)
      (hclosed : closes (sv.result o).client.session.clientState = true) :
      StepCase sv o
        ⟨sv.departed o, .served sv.slot (sv.result o).exchanges true,
          sv.servedEffects o ++ (sv.served o).closeEffects sv.index
            (o.env (sv.result o).exchanges.length).ctime, false⟩

/-- **Every turn of the loop is one of the cases.** -/
theorem step_cases (sv : Server) (o : Occurrence) : sv.StepCase o (sv.step o) := by
  unfold step
  by_cases hindex : sv.index ≤ sv.clientCount + 1
  case neg =>
    rw [if_neg hindex]
    exact .polled (Nat.lt_of_not_le hindex)
  rw [if_pos hindex]
  unfold body
  by_cases hrevents : (sv.pollFd sv.index).revents = true
  case neg =>
    rw [if_neg hrevents]
    exact .skipped hindex (Bool.not_eq_true _ ▸ hrevents)
  rw [if_pos hrevents]
  have hevent : sv.AtEvent := ⟨hindex, hrevents⟩
  by_cases hlisten : sv.Listens
  · simp only
    rw [if_pos (show _ ∨ _ from hlisten)]
    unfold acceptBranch
    cases hsome : o.accepted with
    | none => exact .unaccepted hevent hlisten hsome
    | some c =>
      obtain ⟨fd, ip⟩ := c
      have hcount : sv.clearRevents.clientCount = sv.clientCount := rfl
      simp only [hcount]
      by_cases hfull : sv.clientCount < MAX_CLIENTS + 1
      · rw [if_pos hfull]
        by_cases hroom : sv.clientCount < MAX_CLIENTS
        · rw [if_pos hroom]
          exact .admitted hevent hlisten hsome hroom
        · rw [if_neg hroom]
          exact .overflown hevent hlisten hsome (by omega)
      · rw [if_neg hfull]
        exact .refused hevent hlisten hsome (by omega)
  · simp only
    rw [if_neg (show ¬ (_ ∨ _) from hlisten)]
    by_cases h2 : sv.index < 2
    · rw [if_pos h2]
      exact .stray hevent hlisten h2
    · rw [if_neg h2]
      have h2 : 2 ≤ sv.index := Nat.le_of_not_lt h2
      unfold serveBranch
      simp only
      split
      · next f hcontrol => exact .faulted hevent hlisten h2 hcontrol
      · next hcontrol =>
        split
        · next hclosed => exact .closed hevent hlisten h2 hcontrol hclosed
        · next hopen => exact .stayed hevent hlisten h2 hcontrol ((Bool.not_eq_true _).mp hopen)

end Server

/-! ### What a step does to the table -/

/-- The ways a step can end, as far as the table of clients goes. -/
inductive Server.StepOutcome (sv : Server) (o : Occurrence) (st : ServerStep) : Prop
  | quiet (hevent : st.event = .quiet) (hclients : st.server.clients = sv.clients)
      (hcount : st.server.clientCount = sv.clientCount)
  | opened (fd : Int) (isManager : Bool) (ip : Bytes) (hgo : st.halted = false)
      (hevent : st.event = .opened sv.clientCount)
      (hclients : st.server.clients = update sv.clients sv.clientCount
        ⟨newSession fd isManager ip (sv.clients sv.clientCount).session.maildir,
          (sv.clients sv.clientCount).recvBuffer⟩)
      (hcount : st.server.clientCount = sv.clientCount + 1)
  | faulted (slot : Nat) (hslot : slot < sv.clientCount) (hstop : st.halted = true)
      (hevent : st.event = .served slot (sv.call slot o).exchanges false)
  | stayed (slot : Nat) (hslot : slot < sv.clientCount) (hgo : st.halted = false)
      (hcontrol : ∀ f, (sv.call slot o).control ≠ .fault f)
      (hopen : Server.closes (sv.call slot o).client.session.clientState = false)
      (hevent : st.event = .served slot (sv.call slot o).exchanges false)
      (hclients : st.server.clients = update sv.clients slot (sv.call slot o).client)
      (hcount : st.server.clientCount = sv.clientCount)
  | closed (slot : Nat) (hslot : slot < sv.clientCount) (hgo : st.halted = false)
      (hcontrol : ∀ f, (sv.call slot o).control ≠ .fault f)
      (hclosed : Server.closes (sv.call slot o).client.session.clientState = true)
      (hevent : st.event = .served slot (sv.call slot o).exchanges true)
      (hclients : ∀ k < sv.clientCount - 1, st.server.clients k =
        if k = slot then sv.clients (sv.clientCount - 1) else sv.clients k)
      (hcount : st.server.clientCount = sv.clientCount - 1)

/-- The last session goes into the slot of the closed one. -/
theorem Server.departed_clients (sv : Server) (o : Occurrence) {k : Nat}
    (hk : k < sv.clientCount - 1) :
    (sv.departed o).clients k =
      if k = sv.slot then sv.clients (sv.clientCount - 1) else sv.clients k := by
  have hlast : k ≠ sv.clientCount - 1 := by omega
  change update (update (update sv.clients sv.slot _) sv.slot
    (update sv.clients sv.slot _ (sv.clientCount - 1))) (sv.clientCount - 1) _ k = _
  rw [Function.update_of_ne hlast, Function.update_apply]
  by_cases hks : k = sv.slot
  · have hmoved : sv.clientCount - 1 ≠ sv.slot := by omega
    rw [if_pos hks, if_pos hks, Function.update_of_ne hmoved]
  · rw [if_neg hks, if_neg hks, Function.update_of_ne hks]

/-- **What a step does to the table of clients.** -/
theorem Server.step_outcome (sv : Server) (o : Occurrence) : sv.StepOutcome o (sv.step o) := by
  have hcase := sv.step_cases o
  generalize sv.step o = st at hcase ⊢
  cases hcase with
  | polled _ => exact .quiet rfl rfl rfl
  | skipped _ _ => exact .quiet rfl rfl rfl
  | unaccepted _ _ _ => exact .quiet rfl rfl rfl
  | admitted _ _ _ _ => exact .opened _ _ _ rfl rfl rfl rfl
  | overflown _ _ _ _ => exact .quiet rfl rfl rfl
  | refused _ _ _ _ => exact .quiet rfl rfl rfl
  | stray _ _ _ => exact .quiet rfl rfl rfl
  | faulted hevent _ h2 _ => exact .faulted _ (hevent.slot_lt h2) rfl rfl
  | stayed hevent _ h2 hcontrol hopen =>
    exact .stayed _ (hevent.slot_lt h2) rfl hcontrol hopen rfl rfl rfl
  | closed hevent _ h2 hcontrol hclosed =>
    exact .closed _ (hevent.slot_lt h2) rfl hcontrol hclosed rfl
      (fun k hk => sv.departed_clients o hk) rfl

end Pop3Server
