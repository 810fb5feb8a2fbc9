import Pop3Server.PollLoop

/-!
# The table of clients and the poll array

`InStep` says that the entries of `pollfds` from the third on are those of the
clients, in their order.  It is kept by every turn of the loop as long as
`accept` returns sockets that no session holds, and a close takes one session out
of both arrays and leaves the others as they are (`Removes`).

The admission test of `add_client` lets in one client more than the table has
room for: `table_safe_iff` shows that no index leaves its array before that.
-/

namespace Pop3Server

open Function (update)

def MAX_EVENTS : Nat := 1024

/-- The slot of the session a turn closes. -/
def ServerEvent.closed? : ServerEvent → Option Nat
  | .served slot _ true => some slot
  | _ => none

namespace Server

/-- The clients and the entries of the poll array are the same sessions in the same order. -/
structure InStep (sv : Server) : Prop where
  socket : ∀ k < sv.clientCount, (sv.pollfds (k + 2)).fd = (sv.clients k).session.cliSocket
  distinct : ∀ k < sv.clientCount, ∀ k' < sv.clientCount,
    (sv.clients k).session.cliSocket = (sv.clients k').session.cliSocket → k = k'
  vacant : ∀ j, sv.clientCount + 2 ≤ j → (sv.pollfds j).fd = -1

/-- What is in slot `k` after a close was in slot `origin k` before, with its descriptor. -/
structure Moved (sv sv' : Server) (slot : Nat) (origin : Nat → Nat) : Prop where
  count : sv'.clientCount + 1 = sv.clientCount
  kept : ∀ k < sv'.clientCount, sv'.clients k = sv.clients (origin k) ∧
    (sv'.pollfds (k + 2)).fd = (sv.pollfds (origin k + 2)).fd
  into : ∀ k < sv'.clientCount, origin k < sv.clientCount ∧ origin k ≠ slot
  injective : ∀ k < sv'.clientCount, ∀ k' < sv'.clientCount, origin k = origin k' → k = k'
  onto : ∀ j < sv.clientCount, j ≠ slot → ∃ k < sv'.clientCount, origin k = j

/-- One session is taken out of the table, and the others are all still there as they were. -/
def Removes (sv sv' : Server) (slot : Nat) : Prop := ∃ origin, sv.Moved sv' slot origin

/-- The sockets of the sessions in the table. -/
def openSockets (sv : Server) : List Int :=
  (List.range sv.clientCount).map fun k => (sv.clients k).session.cliSocket

/-- `accept` returns sockets that no session holds open. -/
def AcceptsFresh (sv : Server) (os : List Occurrence) : Prop :=
  ∀ x ∈ serverMachine.trace sv os, ∀ c ∈ x.1.accepts x.2, c.1 ∉ x.1.openSockets

/-- Whenever a connection is accepted, fewer than `MAX_CLIENTS` sessions are open. -/
def AcceptsWithRoom (sv : Server) (os : List Occurrence) : Prop :=
  ∀ x ∈ serverMachine.trace sv os, (x.1.accepts x.2).isSome → x.1.clientCount < MAX_CLIENTS

instance (sv : Server) (os : List Occurrence) : Decidable (sv.AcceptsFresh os) :=
  inferInstanceAs (Decidable (∀ x ∈ serverMachine.trace sv os, ∀ c ∈ x.1.accepts x.2, _ ∉ _))

instance (sv : Server) (os : List Occurrence) : Decidable (sv.AcceptsWithRoom os) :=
  inferInstanceAs (Decidable (∀ x ∈ serverMachine.trace sv os, _ → _))

def acceptedCount (sv : Server) (os : List Occurrence) : Nat :=
  (serverMachine.trace sv os).countP fun x => (x.1.accepts x.2).isSome

def closedCount (sv : Server) (os : List Occurrence) : Nat :=
  (serverMachine.trace sv os).countP fun x => (x.1.step x.2).event.closed?.isSome

/-- The two arrays stay in step throughout a run. -/
structure TableInStep (sv : Server) (os : List Occurrence) : Prop where
  inStep : ∀ pre, pre <+: os → serverMachine.Passes sv pre → (serverMachine.final sv pre).InStep
  count : ∀ pre, pre <+: os → serverMachine.Passes sv pre →
    (serverMachine.final sv pre).clientCount + sv.closedCount pre = sv.acceptedCount pre
  removes : ∀ x ∈ serverMachine.trace sv os, ∀ slot ∈ (x.1.step x.2).event.closed?,
    x.1.Removes (x.1.step x.2).server slot

/-! ### What is accepted -/

theorem accepts_of_event {sv : Server} (hevent : sv.AtEvent) (hlisten : sv.Listens)
    (o : Occurrence) : sv.accepts o = o.accepted :=
  if_pos ⟨hevent, hlisten⟩

theorem accepts_of_client {sv : Server} (hlisten : ¬ sv.Listens) (o : Occurrence) :
    sv.accepts o = none :=
  if_neg fun h => hlisten h.2

theorem accepts_of_no_event {sv : Server} (hevent : ¬ sv.AtEvent) (o : Occurrence) :
    sv.accepts o = none :=
  if_neg fun h => hevent h.1

/-- A turn that accepts a connection takes the accept branch. -/
theorem step_of_accepts {sv : Server} {o : Occurrence} {fd : Int} {ip : Bytes}
    (h : sv.accepts o = some (fd, ip)) :
    o.accepted = some (fd, ip) ∧
      sv.step o = sv.clearRevents.acceptBranch ((sv.pollFd sv.index).fd == sv.managerSocket) o := by
  by_cases htaken : sv.AtEvent ∧ sv.Listens
  case neg => cases (if_neg htaken).symm.trans h
  obtain ⟨hevent, hlisten⟩ := htaken
  rw [accepts_of_event hevent hlisten] at h
  refine ⟨h, ?_⟩
  rw [step, if_pos hevent.index, body, if_pos hevent.revents]
  exact if_pos hlisten

theorem step_count {sv : Server} {o : Occurrence} (hgo : (sv.step o).halted = false)
    (hroom : (sv.accepts o).isSome → sv.clientCount < MAX_CLIENTS) :
    (sv.step o).server.clientCount + (if (sv.step o).event.closed?.isSome then 1 else 0) =
      sv.clientCount + (if (sv.accepts o).isSome then 1 else 0) := by
  have hcase := sv.step_cases o
  generalize sv.step o = st at hcase hgo ⊢
  cases hcase with
  | polled hend =>
    rw [accepts_of_no_event fun h => absurd h.index (Nat.not_le_of_lt hend)]
    rfl
  | skipped _ hrevents =>
    rw [accepts_of_no_event fun h => Bool.false_ne_true (hrevents.symm.trans h.revents)]
    rfl
  | unaccepted hevent hlisten hnone =>
    rw [accepts_of_event hevent hlisten, hnone]
    rfl
  | admitted hevent hlisten hsome _ =>
    rw [accepts_of_event hevent hlisten, hsome]
    rfl
  | overflown _ _ _ _ => cases hgo
  | refused hevent hlisten hsome hfull =>
    rw [accepts_of_event hevent hlisten, hsome] at hroom
    exact absurd (hroom rfl) (Nat.not_lt_of_lt hfull)
  | stray _ _ _ => cases hgo
  | faulted _ _ _ _ => cases hgo
  | stayed _ hlisten _ _ _ =>
    rw [accepts_of_client hlisten]
    rfl
  | closed hevent hlisten h2 _ _ =>
    rw [accepts_of_client hlisten]
    have hindex := hevent.index
    change sv.clientCount - 1 + 1 = sv.clientCount
    omega

theorem count_run {os : List Occurrence} {sv : Server} (hpass : serverMachine.Passes sv os)
    (hroom : sv.AcceptsWithRoom os) :
    (serverMachine.final sv os).clientCount + sv.closedCount os =
      sv.clientCount + sv.acceptedCount os := by
  induction os generalizing sv with
  | nil => rfl
  | cons o os ih =>
    obtain ⟨hgo, hrest⟩ := hpass
    have htrace := serverMachine.trace_cons_go hgo os
    have hstep := step_count hgo (hroom (sv, o) (htrace ▸ List.mem_cons_self))
    have hrun := ih hrest fun x hx => hroom x (htrace ▸ List.mem_cons_of_mem _ hx)
    have hnext : serverMachine.next sv o = (sv.step o).server := rfl
    rw [closedCount, acceptedCount, htrace, List.countP_cons, List.countP_cons,
      serverMachine.final_cons_go hgo]
    rw [closedCount, acceptedCount] at hrun
    rw [hnext] at hrun ⊢
    simp only
    omega

/-! ### A close -/

theorem departed_removes {sv : Server} (hevent : sv.AtEvent) (h2 : 2 ≤ sv.index)
    (o : Occurrence) : sv.Removes (sv.departed o) sv.slot := by
  have hindex := hevent.index
  have hslot : sv.slot + 2 = sv.index := by
    unfold slot
    omega
  have hlast : (sv.departed o).clientCount = sv.clientCount - 1 := rfl
  refine ⟨fun k => if k = sv.slot then sv.clientCount - 1 else k, ?_, ?_, ?_, ?_, ?_⟩
  · omega
  · intro k hk
    rw [hlast] at hk
    have hclients := sv.departed_clients o hk
    have hfds := sv.departed_fd o (k + 2)
    rw [if_neg (by omega)] at hfds
    by_cases hks : k = sv.slot
    · have hmoved : sv.clientCount - 1 + 2 = sv.clientCount + 1 := by omega
      rw [if_pos hks] at hclients ⊢
      rw [if_pos (by omega)] at hfds
      exact ⟨hclients, hmoved ▸ hfds⟩
    · rw [if_neg hks] at hclients ⊢
      rw [if_neg (by omega)] at hfds
      exact ⟨hclients, hfds⟩
  · intro k hk
    rw [hlast] at hk
    split <;> omega
  · intro k hk k' hk' he
    rw [hlast] at hk hk'
    split at he <;> split at he <;> omega
  · intro j hj hne
    by_cases hj' : j = sv.clientCount - 1
    · refine ⟨sv.slot, ?_, (if_pos rfl).trans hj'.symm⟩
      rw [hlast]
      omega
    · refine ⟨j, ?_, if_neg hne⟩
      rw [hlast]
      omega

/-! ### The two arrays stay in step -/

theorem inStep_start (sh : Shared) (managerSocket : Int) : (start sh managerSocket).InStep where
  socket k hk := absurd hk (Nat.not_lt_zero k)
  distinct k hk := absurd hk (Nat.not_lt_zero k)
  vacant j hj := by
    have hj : j ≠ 1 := by
      change 0 + 2 ≤ j at hj
      omega
    exact if_neg hj

theorem InStep.of_fds {sv sv' : Server} (h : sv.InStep)
    (hfds : ∀ i, (sv'.pollfds i).fd = (sv.pollfds i).fd) (hcount : sv'.clientCount = sv.clientCount)
    (hsockets : ∀ k, (sv'.clients k).session.cliSocket = (sv.clients k).session.cliSocket) :
    sv'.InStep where
  socket k hk := by
    rw [hfds, hsockets]
    exact h.socket k (hcount ▸ hk)
  distinct k hk k' hk' he := by
    rw [hsockets, hsockets] at he
    exact h.distinct k (hcount ▸ hk) k' (hcount ▸ hk') he
  vacant j hj := by
    rw [hfds]
    exact h.vacant j (hcount ▸ hj)

theorem joined_clients (sv : Server) (fd : Int) (ip : Bytes) :
    (sv.joined fd ip).clients = update sv.clients sv.clientCount
      ⟨newSession fd ((sv.pollFd sv.index).fd == sv.managerSocket) ip
        (sv.clients sv.clientCount).session.maildir, (sv.clients sv.clientCount).recvBuffer⟩ := rfl

theorem InStep.joined {sv : Server} (h : sv.InStep) {fd : Int} (hfresh : fd ∉ sv.openSockets)
    (ip : Bytes) : (sv.joined fd ip).InStep := by
  have hcount : (sv.joined fd ip).clientCount = sv.clientCount + 1 := rfl
  have hnew : ((sv.joined fd ip).clients sv.clientCount).session.cliSocket = fd := by
    rw [joined_clients, Function.update_self]
    rfl
  have hold : ∀ k < sv.clientCount, (sv.joined fd ip).clients k = sv.clients k := by
    intro k hk
    rw [joined_clients, Function.update_of_ne (Nat.ne_of_lt hk)]
  have hother : ∀ k < sv.clientCount, (sv.clients k).session.cliSocket ≠ fd := by
    rintro k hk rfl
    exact hfresh (List.mem_map.mpr ⟨k, List.mem_range.mpr hk, rfl⟩)
  constructor
  · intro k hk
    rw [joined_fd]
    rcases Nat.lt_succ_iff_lt_or_eq.mp (hcount ▸ hk) with hlt | rfl
    · rw [if_neg (by omega), hold k hlt]
      exact h.socket k hlt
    · rw [if_pos rfl, hnew]
  · rw [hcount]
    apply distinct_succ (fun k hk => congrArg (·.session.cliSocket) (hold k hk)) h.distinct
    intro k hk
    rw [hnew]
    exact hother k hk
  · intro j hj
    rw [hcount] at hj
    rw [joined_fd, if_neg (by omega)]
    exact h.vacant j (by omega)

theorem InStep.served {sv : Server} (h : sv.InStep) (o : Occurrence) : (sv.served o).InStep := by
  apply h.of_fds
  · exact sv.clearRevents_fd
  · rfl
  · intro k
    change ((update sv.clients sv.slot (sv.result o).client k).session.cliSocket = _)
    rw [Function.update_apply]
    split
    · next hk => rw [hk]; exact call_cliSocket sv sv.slot o
    · rfl

theorem InStep.departed {sv : Server} (h : sv.InStep) (hevent : sv.AtEvent) (h2 : 2 ≤ sv.index)
    (o : Occurrence) : (sv.departed o).InStep := by
  obtain ⟨origin, hmoved⟩ := departed_removes hevent h2 o
  have hcount := hmoved.count
  constructor
  · intro k hk
    obtain ⟨hclient, hfd⟩ := hmoved.kept k hk
    rw [hfd, hclient]
    exact h.socket _ (hmoved.into k hk).1
  · intro k hk k' hk' he
    rw [(hmoved.kept k hk).1, (hmoved.kept k' hk').1] at he
    exact hmoved.injective k hk k' hk'
      (h.distinct _ (hmoved.into k hk).1 _ (hmoved.into k' hk').1 he)
  · intro j hj
    have hindex := hevent.index
    rw [departed_fd]
    by_cases hlast : j = sv.clientCount + 1
    · rw [if_pos hlast]
    · rw [if_neg hlast, if_neg (by omega)]
      exact h.vacant j (by omega)

/-- **A turn of the loop keeps the two arrays in step.** -/
theorem InStep.next {sv : Server} (h : sv.InStep) {o : Occurrence}
    (hfresh : ∀ c ∈ sv.accepts o, c.1 ∉ sv.openSockets) (hgo : (sv.step o).halted = false) :
    (sv.step o).server.InStep := by
  have hclear : sv.clearRevents.InStep := h.of_fds sv.clearRevents_fd rfl fun _ => rfl
  have hcase := sv.step_cases o
  generalize sv.step o = st at hcase hgo ⊢
  cases hcase with
  | polled _ => exact h.of_fds (sv.poll_fd o) rfl fun _ => rfl
  | skipped _ _ => exact h.of_fds (fun _ => rfl) rfl fun _ => rfl
  | unaccepted _ _ _ => exact hclear.of_fds (fun _ => rfl) rfl fun _ => rfl
  | refused _ _ _ _ => exact hclear.of_fds (fun _ => rfl) rfl fun _ => rfl
  | admitted hevent hlisten hsome _ =>
    rw [accepts_of_event hevent hlisten, hsome] at hfresh
    exact (h.joined (hfresh _ rfl) _).of_fds (fun _ => rfl) rfl fun _ => rfl
  | stayed _ _ _ _ _ => exact (h.served o).of_fds (fun _ => rfl) rfl fun _ => rfl
  | closed hevent _ h2 _ _ => exact h.departed hevent h2 o
  | overflown _ _ _ _ => cases hgo
  | stray _ _ _ => cases hgo
  | faulted _ _ _ _ => cases hgo

theorem removes_of_closed {sv : Server} {o : Occurrence} {slot : Nat}
    (h : slot ∈ (sv.step o).event.closed?) : sv.Removes (sv.step o).server slot := by
  have hcase := sv.step_cases o
  generalize sv.step o = st at hcase h ⊢
  cases hcase with
  | closed hevent _ h2 _ _ =>
    obtain rfl := Option.some.inj h
    exact departed_removes hevent h2 o
  | _ => cases h

theorem inv_final {sv : Server} (h : sv.Inv) (os : List Occurrence) :
    (serverMachine.final sv os).Inv :=
  serverMachine.final_preserves (fun _ o h => h.next o) h os

theorem inv_of_mem_trace {sv : Server} (h : sv.Inv) {os : List Occurrence}
    {x : Server × Occurrence} (hx : x ∈ serverMachine.trace sv os) : x.1.Inv := by
  obtain ⟨pre, -, -, hstate⟩ := (Machine.mem_trace_iff _).mp hx
  exact hstate ▸ inv_final h pre

/-- **The table of clients and the poll array stay in step in every run in which a connection is
only accepted while there is room for it.** -/
theorem table_in_step {sh : Shared} {managerSocket : Int} {os : List Occurrence}
    (hfresh : (start sh managerSocket).AcceptsFresh os)
    (hroom : (start sh managerSocket).AcceptsWithRoom os) :
    (start sh managerSocket).TableInStep os := by
  constructor
  · apply Machine.final_induction _ _ (inStep_start sh managerSocket)
    intro pre o hinitial hpass hinStep hgo
    have hmem := (Machine.mem_trace_iff serverMachine (x := (_, o))).mpr ⟨pre, hinitial, hpass, rfl⟩
    exact hinStep.next (hfresh _ hmem) hgo
  · rintro pre ⟨post, rfl⟩ hpass
    refine (count_run hpass fun x hx => hroom x ?_).trans (Nat.zero_add _)
    rw [Machine.trace_append _ hpass]
    exact List.mem_append_left _ hx
  · intro x _ slot hslot
    exact removes_of_closed hslot

/-- Two clients, of whom the first one quits. -/
theorem table_in_step_quit :
    (start sampleShared 4).TableInStep (accepting 4 5 ++ accepting 5 6 ++
      roundOf 5 5 none (delivery "QUIT\r\n" (by decide))) :=
  table_in_step (by decide +kernel) (by decide +kernel)

/-! ### The bounds of the arrays -/

/-- The indexes a turn uses, into `clients` and into `pollfds`. -/
structure Indexes where
  clients : List Int
  pollfds : List Int

def indexes (sv : Server) (o : Occurrence) : Indexes :=
  let i : Int := sv.index
  let count : Int := sv.clientCount
  if sv.AtEvent then
    if sv.Listens then
      -- `add_client` fills an entry of each array, and the accept branch stores the socket
      if o.accepted.isSome ∧ sv.clientCount < MAX_CLIENTS + 1 then ⟨[count], [i, count + 2]⟩
      else ⟨[], [i]⟩
    else if closes (sv.result o).client.session.clientState then
      ⟨[i - 2, count - 1], [i, 0, count + 1]⟩
    else ⟨[i - 2], [i, 0]⟩
  else if sv.index ≤ sv.clientCount + 1 then ⟨[], [i]⟩
  -- `poll` on the entries in use
  else ⟨[], (List.range (sv.clientCount + 2)).map Int.ofNat⟩

structure InRange (sv : Server) (o : Occurrence) : Prop where
  clients : ∀ i ∈ (sv.indexes o).clients, 0 ≤ i ∧ i < MAX_CLIENTS
  pollfds : ∀ i ∈ (sv.indexes o).pollfds, 0 ≤ i ∧ i < MAX_EVENTS

/-- The connection is turned away: the loop goes on, with the event taken from its entry and
everything else as it was. -/
def TurnsAway (sv : Server) (o : Occurrence) : Prop :=
  (sv.step o).halted = false ∧ (sv.step o).server = sv.clearRevents.advance

/-- The arrays are used within their bounds, and a full table lets nobody in. -/
structure TableSafe (sv : Server) (os : List Occurrence) : Prop where
  inRange : ∀ x ∈ serverMachine.trace sv os, x.1.InRange x.2
  refuses : ∀ x ∈ serverMachine.trace sv os, x.1.clientCount = MAX_CLIENTS →
    (x.1.accepts x.2).isSome → x.1.TurnsAway x.2

theorem Inv.inRange {sv : Server} (h : sv.Inv) {o : Occurrence}
    (hroom : (sv.accepts o).isSome → sv.clientCount < MAX_CLIENTS) : sv.InRange o := by
  have hcount := h.room
  have hmax : (MAX_CLIENTS : Int) = 1022 := rfl
  have hevents : (MAX_EVENTS : Int) = 1024 := rfl
  suffices H : (∀ i ∈ (sv.indexes o).clients, 0 ≤ i ∧ i < MAX_CLIENTS) ∧
      ∀ i ∈ (sv.indexes o).pollfds, 0 ≤ i ∧ i < MAX_EVENTS from ⟨H.1, H.2⟩
  unfold indexes
  simp only
  by_cases hevent : sv.AtEvent
  · have hindex := hevent.index
    rw [if_pos hevent]
    by_cases hlisten : sv.Listens
    · rw [accepts_of_event hevent hlisten] at hroom
      rw [if_pos hlisten]
      split
      · next hsome =>
        have hlt := hroom hsome.1
        simp only [List.forall_mem_cons, List.not_mem_nil, false_imp_iff, implies_true, and_true]
        omega
      · simp only [List.forall_mem_cons, List.not_mem_nil, false_imp_iff, implies_true, and_true,
          true_and]
        omega
    · have h2 : 2 ≤ sv.index := by
        by_contra hno
        exact hlisten (h.listens hevent (Nat.lt_of_not_le hno))
      rw [if_neg hlisten]
      split <;>
      · simp only [List.forall_mem_cons, List.not_mem_nil, false_imp_iff, implies_true, and_true]
        omega
  · rw [if_neg hevent]
    split
    · simp only [List.forall_mem_cons, List.not_mem_nil, false_imp_iff, implies_true, and_true,
          true_and]
      omega
    · refine ⟨nofun, fun i hi => ?_⟩
      obtain ⟨j, hj, rfl⟩ := List.mem_map.mp hi
      have hj := List.mem_range.mp hj
      change 0 ≤ (j : Int) ∧ (j : Int) < MAX_EVENTS
      omega

/-- The test of `add_client` passes on a full table. -/
theorem overflows_of_full {sv : Server} {o : Occurrence} (hfull : sv.clientCount = MAX_CLIENTS)
    (haccepts : (sv.accepts o).isSome) : (sv.step o).halted = true := by
  obtain ⟨⟨fd, ip⟩, hsome⟩ := Option.isSome_iff_exists.mp haccepts
  obtain ⟨haccepted, hstep⟩ := step_of_accepts hsome
  have hcount : sv.clearRevents.clientCount = MAX_CLIENTS := hfull
  rw [hstep, acceptBranch, haccepted]
  simp only [hcount]
  rfl

/-- **The arrays are used within their bounds, and a full table refuses connections, exactly in the
runs in which no connection is accepted while `MAX_CLIENTS` sessions are open.** -/
theorem table_safe_iff {sh : Shared} (hpolled : sh.listener.serverFd = sh.listener.serverSocket)
    (managerSocket : Int) (os : List Occurrence) :
    (start sh managerSocket).TableSafe os ↔ (start sh managerSocket).AcceptsWithRoom os := by
  have hinv : ∀ x ∈ serverMachine.trace (start sh managerSocket) os, x.1.Inv :=
    fun x hx => inv_of_mem_trace (inv_start hpolled managerSocket) hx
  constructor
  · intro h x hx haccepts
    refine Nat.lt_of_le_of_ne (hinv x hx).room fun hfull => ?_
    have hgo := (h.refuses x hx hfull haccepts).1
    cases hgo.symm.trans (overflows_of_full hfull haccepts)
  · intro hroom
    constructor
    · intro x hx
      exact (hinv x hx).inRange (hroom x hx)
    · intro x hx hfull haccepts
      exact absurd hfull (Nat.ne_of_lt (hroom x hx haccepts))

theorem table_safe_quit :
    (start sampleShared 4).TableSafe (accepting 4 5 ++ accepting 5 6 ++
      roundOf 5 5 none (delivery "QUIT\r\n" (by decide))) :=
  (table_safe_iff rfl 4 _).mpr (by decide +kernel)

/-! ### A full table -/

/-- Between two rounds with `n` clients, when nothing but the POP3 port is readable. -/
structure Waiting (n : Nat) (sv : Server) : Prop where
  count : sv.clientCount = n
  ended : n + 1 < sv.index
  listener : sv.shared.listener = sampleShared.listener
  others : ∀ i, 1 ≤ i → (sv.pollfds i).fd ≠ sampleShared.listener.serverFd
  quiet : ∀ i, 1 ≤ i → (sv.pollfds i).revents = false

/-- A connection on the POP3 port. -/
def knock (fd : Int) : Occurrence :=
  ⟨fun f => f == sampleShared.listener.serverFd, some (fd, str "::1"), .again, [],
    fun _ => sampleEnv⟩

theorem Waiting.poll {n : Nat} {sv : Server} (h : Waiting n sv) (fd : Int) :
    sv.step (knock fd) = ⟨sv.poll (knock fd), .quiet, [], false⟩ ∧
      (sv.poll (knock fd)).AtEvent ∧ (sv.poll (knock fd)).Listens ∧
      ∀ i, 1 ≤ i → ((sv.poll (knock fd)).pollfds i).revents = false := by
  have hended := h.ended
  have hcount := h.count
  have hfirst : (sv.poll (knock fd)).pollFd 0 = ⟨3, (sv.pollfds 0).events, true⟩ := by
    simp only [Server.poll, pollFd, if_pos, h.listener]
    rfl
  refine ⟨if_neg (by omega), ⟨Nat.zero_le _, ?_⟩, .inl ?_, fun i hi => ?_⟩
  · exact congrArg PollFd.revents hfirst
  · refine (congrArg PollFd.fd hfirst).trans ?_
    rw [show (sv.poll (knock fd)).shared.listener = sampleShared.listener from h.listener]
    rfl
  · simp only [Server.poll]
    split
    · have hfd : (sv.pollFd i).fd ≠ sampleShared.listener.serverFd := by
        rw [pollFd, if_neg (by omega)]
        exact h.others i hi
      simp [knock, hfd]
    · exact h.quiet i hi

/-- The rest of a round in which nothing more is readable. -/
theorem skip_run {turns : Nat} {sv : Server} (hturns : sv.index + turns = sv.clientCount + 2)
    (hquiet : ∀ i, sv.index ≤ i → (sv.pollfds i).revents = false) (o : Occurrence) :
    serverMachine.Passes sv (List.replicate turns o) ∧
      serverMachine.final sv (List.replicate turns o) =
        { sv with index := sv.clientCount + 2 } := by
  induction turns generalizing sv with
  | zero =>
    refine ⟨trivial, ?_⟩
    have hindex : sv.index = sv.clientCount + 2 := hturns
    rw [← hindex]
    rfl
  | succ turns ih =>
    have hstep : sv.step o = ⟨sv.advance, .quiet, [], false⟩ := by
      rw [step, if_pos (by omega), body, pollFd_revents, hquiet _ (Nat.le_refl _)]
      rfl
    have hgo : serverMachine.stop sv o = false := congrArg ServerStep.halted hstep
    have hnext : serverMachine.next sv o = sv.advance := congrArg ServerStep.server hstep
    obtain ⟨hpass, hfinal⟩ := @ih sv.advance (by simp only [advance]; omega)
      fun i hi => hquiet i (Nat.le_of_succ_le hi)
    rw [List.replicate_succ]
    refine ⟨⟨hgo, hnext ▸ hpass⟩, ?_⟩
    rw [serverMachine.final_cons_go hgo, hnext, hfinal]
    rfl

theorem step_admitted {sv : Server} {o : Occurrence} {fd : Int} {ip : Bytes}
    (hevent : sv.AtEvent) (hlisten : sv.Listens) (hsome : o.accepted = some (fd, ip))
    (hroom : sv.clientCount < MAX_CLIENTS) :
    (sv.step o).server = (sv.joined fd ip).advance ∧ (sv.step o).halted = false := by
  have hcase := sv.step_cases o
  generalize sv.step o = st at hcase ⊢
  cases hcase with
  | admitted _ _ hsome' _ =>
    obtain ⟨rfl, rfl⟩ := Prod.mk.inj (Option.some.inj (hsome.symm.trans hsome'))
    exact ⟨rfl, rfl⟩
  | polled hend => exact absurd hevent.index (Nat.not_le_of_lt hend)
  | skipped _ hrevents => exact absurd (hrevents.symm.trans hevent.revents) Bool.false_ne_true
  | unaccepted _ _ hnone => cases hnone.symm.trans hsome
  | overflown _ _ _ hfull => exact absurd hfull (Nat.ne_of_lt hroom)
  | refused _ _ _ hover => exact absurd hroom (Nat.not_lt_of_lt hover)
  | stray _ hno _ => exact absurd hlisten hno
  | faulted _ hno _ _ => exact absurd hlisten hno
  | stayed _ hno _ _ _ => exact absurd hlisten hno
  | closed _ hno _ _ _ => exact absurd hlisten hno

/-- A round in which a client connects. -/
theorem Waiting.round {n : Nat} {sv : Server} (h : Waiting n sv) (hroom : n < MAX_CLIENTS)
    {fd : Int} (hfd : fd ≠ sampleShared.listener.serverFd) :
    ∃ os, serverMachine.Passes sv os ∧ Waiting (n + 1) (serverMachine.final sv os) := by
  obtain ⟨hpoll, hevent, hlisten, hquiet⟩ := h.poll fd
  have hcount : (sv.poll (knock fd)).clientCount = n := h.count
  obtain ⟨hjoined, hgo⟩ :=
    @step_admitted _ (knock fd) fd (str "::1") hevent hlisten rfl (hcount ▸ hroom)
  have hquiet' : ∀ i, 1 ≤ i →
      (((sv.poll (knock fd)).joined fd (str "::1")).pollfds i).revents = false := by
    intro i hi
    rw [joined_revents]
    split
    · rfl
    · exact hquiet i hi
  obtain ⟨hpass, hfinal⟩ := @skip_run (n + 2) ((sv.poll (knock fd)).joined fd (str "::1")).advance
    (by change 0 + 1 + (n + 2) = (sv.poll (knock fd)).clientCount + 1 + 2; omega) hquiet' (knock fd)
  have hpolled : serverMachine.stop sv (knock fd) = false := congrArg ServerStep.halted hpoll
  have hnext : serverMachine.next sv (knock fd) = sv.poll (knock fd) :=
    congrArg ServerStep.server hpoll
  have hgo' : serverMachine.stop (sv.poll (knock fd)) (knock fd) = false := hgo
  have hnext' : serverMachine.next (sv.poll (knock fd)) (knock fd) = _ := hjoined
  refine ⟨knock fd :: knock fd :: List.replicate (n + 2) (knock fd), ⟨hpolled, ?_⟩, ?_⟩
  · rw [hnext]
    exact ⟨hgo', hnext' ▸ hpass⟩
  · rw [serverMachine.final_cons_go hpolled, hnext, serverMachine.final_cons_go hgo', hnext', hfinal]
    refine ⟨congrArg (· + 1) hcount, ?_, h.listener, fun i hi => ?_, hquiet'⟩
    · change n + 1 + 1 < (sv.poll (knock fd)).clientCount + 1 + 2
      omega
    · refine (congrArg (· ≠ _) ((sv.poll (knock fd)).joined_fd fd (str "::1") i)).mpr ?_
      split
      · exact hfd
      · rw [poll_fd]
        exact h.others i hi

theorem run_fills {n : Nat} (hn : n ≤ MAX_CLIENTS) :
    ∃ os, serverMachine.Passes (start sampleShared 4) os ∧
      Waiting n (serverMachine.final (start sampleShared 4) os) := by
  induction n with
  | zero =>
    refine ⟨[], trivial, rfl, by decide, rfl, fun i hi => ?_, fun i hi => rfl⟩
    change (if i = 1 then (4 : Int) else -1) ≠ 3
    split <;> decide
  | succ n ih =>
    obtain ⟨os, hpass, hwaiting⟩ := ih (Nat.le_of_succ_le hn)
    have hfd : (n : Int) + 5 ≠ sampleShared.listener.serverFd := by
      change (n : Int) + 5 ≠ 3
      omega
    obtain ⟨more, hmore, hround⟩ := hwaiting.round hn hfd
    refine ⟨os ++ more, (serverMachine.passes_append hpass).mpr hmore, ?_⟩
    rw [serverMachine.final_append hpass]
    exact hround

/-- One client more than there are slots: `add_client` stores it past the end of both arrays. -/
theorem table_overflow :
    ¬ ∀ (sh : Shared) (managerSocket : Int) (os : List Occurrence),
      sh.listener.serverFd = sh.listener.serverSocket → (start sh managerSocket).TableSafe os := by
  intro h
  obtain ⟨os, hpass, hwaiting⟩ := run_fills (Nat.le_refl MAX_CLIENTS)
  have hcount := hwaiting.count
  obtain ⟨hpoll, hevent, hlisten, -⟩ := hwaiting.poll 2000
  generalize hfull : serverMachine.final (start sampleShared 4) os = full at *
  have hpolled : serverMachine.stop full (knock 2000) = false := congrArg ServerStep.halted hpoll
  have hnext : serverMachine.next full (knock 2000) = full.poll (knock 2000) :=
    congrArg ServerStep.server hpoll
  have hmem : (full.poll (knock 2000), knock 2000) ∈ serverMachine.trace (start sampleShared 4)
      (os ++ [knock 2000, knock 2000]) := by
    rw [serverMachine.trace_append hpass, hfull, serverMachine.trace_cons_go hpolled, hnext]
    exact List.mem_append_right _ (List.mem_cons_of_mem _ List.mem_cons_self)
  have haccepts : ((full.poll (knock 2000)).accepts (knock 2000)).isSome := by
    rw [accepts_of_event hevent hlisten]
    rfl
  obtain ⟨hgo, -⟩ := (h sampleShared 4 _ rfl).refuses _ hmem hcount haccepts
  cases hgo.symm.trans (overflows_of_full hcount haccepts)

end Server

end Pop3Server
