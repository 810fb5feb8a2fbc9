import Pop3Server.Readiness

/-!
# The rounds of the poll loop

A round goes over the poll array once.  It has a bounded number of turns: a turn
that does not go on to the next entry has closed a session, and only the first
two entries accept any (`Server.round_ends`).

A close moves the last session into the place of the closed one, and with it out
of the round.  So a session can be reported and left out; but then it has moved
to the front, and over its whole life it is left out of no more rounds than the
number of the slot it was accepted in (`Server.misses_bounded`).  A session whose
socket stays readable is reported in vain that often and once more at most
(`Server.unserved_polls_le`).

Rounds are counted, not time: `recv` on a session that is served by mistake and
`send` to a client that does not read can block the server for good.
-/

namespace Pop3Server

open Function (update)

namespace Server

/-- The loop has gone over the array: the next turn is a `poll`. -/
def AtPoll (sv : Server) : Prop := sv.clientCount + 1 < sv.index

instance (sv : Server) : Decidable sv.AtPoll := inferInstanceAs (Decidable (_ < _))

/-! ### A round ends -/

theorem room_start (sh : Shared) (managerSocket : Int) :
    (start sh managerSocket).clientCount ≤ MAX_CLIENTS := Nat.zero_le _

/-- The table is never filled beyond its end. -/
theorem room_next {sv : Server} (h : sv.clientCount ≤ MAX_CLIENTS) (o : Occurrence) :
    (sv.step o).server.clientCount ≤ MAX_CLIENTS := by
  have hcase := sv.step_cases o
  generalize sv.step o = st at hcase ⊢
  cases hcase with
  | admitted _ _ _ hroom => exact hroom
  | closed _ _ _ _ _ => exact Nat.le_trans (Nat.sub_le _ _) h
  | _ => exact h

/-- A bound for the turns left in a round. -/
def turnsLeft (sv : Server) : Nat := 2 * (MAX_EVENTS - sv.index) + sv.clientCount

/-- The most turns a round takes. -/
def roundBound : Nat := 2 * MAX_EVENTS + MAX_CLIENTS

/-- **Every turn within a round brings its end nearer.** -/
theorem turnsLeft_lt {sv : Server} (hroom : sv.clientCount ≤ MAX_CLIENTS) {o : Occurrence}
    (hround : ¬ sv.AtPoll) (hgo : (sv.step o).halted = false) :
    (sv.step o).server.turnsLeft < sv.turnsLeft := by
  have hindex : sv.index ≤ sv.clientCount + 1 := Nat.le_of_not_lt hround
  have hevents : MAX_EVENTS = MAX_CLIENTS + 2 := rfl
  have hadvance : ∀ {sv' : Server}, sv'.clientCount = sv.clientCount →
      sv'.index = sv.index + 1 → sv'.turnsLeft < sv.turnsLeft := by
    intro sv' hcount hnext
    unfold turnsLeft
    omega
  have hcase := sv.step_cases o
  generalize sv.step o = st at hcase hgo ⊢
  cases hcase with
  | polled hend => exact absurd hend hround
  | skipped _ _ => exact hadvance rfl rfl
  | unaccepted _ _ _ => exact hadvance rfl rfl
  | refused _ _ _ _ => exact hadvance rfl rfl
  | stayed _ _ _ _ _ => exact hadvance rfl rfl
  | @admitted fd ip _ _ _ hfree =>
    have hcount : (sv.joined fd ip).advance.clientCount = sv.clientCount + 1 := rfl
    have hnext : (sv.joined fd ip).advance.index = sv.index + 1 := rfl
    simp only [turnsLeft, hcount, hnext]
    omega
  | closed hevent _ h2 _ _ =>
    have hcount : (sv.departed o).clientCount = sv.clientCount - 1 := rfl
    have hnext : (sv.departed o).index = sv.index := rfl
    simp only [turnsLeft, hcount, hnext]
    omega
  | overflown _ _ _ _ => cases hgo
  | stray _ _ _ => cases hgo
  | faulted _ _ _ _ => cases hgo

/-- As long as no `poll` comes the turns are counted down. -/
theorem length_le_turnsLeft {sv : Server} (hroom : sv.clientCount ≤ MAX_CLIENTS)
    {os : List Occurrence} {turns : List (Server × Occurrence)}
    (hrun : turns <+: serverMachine.trace sv os) (hround : ∀ x ∈ turns, ¬ x.1.AtPoll) :
    turns.length ≤ sv.turnsLeft := by
  induction os generalizing sv turns with
  | nil =>
    rw [List.prefix_nil.mp hrun]
    exact Nat.zero_le _
  | cons o os ih =>
    cases turns with
    | nil => exact Nat.zero_le _
    | cons x turns =>
      rw [Machine.trace, List.cons_prefix_cons] at hrun
      obtain ⟨rfl, hrest⟩ := hrun
      have hnow : ¬ sv.AtPoll := hround _ List.mem_cons_self
      cases hgo : serverMachine.stop sv o with
      | true =>
        rw [if_pos hgo, List.prefix_nil] at hrest
        have hindex : sv.index ≤ sv.clientCount + 1 := Nat.le_of_not_lt hnow
        have hevents : MAX_EVENTS = MAX_CLIENTS + 2 := rfl
        rw [hrest, turnsLeft]
        simp only [List.length_singleton]
        omega
      | false =>
        rw [if_neg (by simp [hgo])] at hrest
        have hlater := ih (room_next hroom o) hrest fun y hy => hround y (List.mem_cons_of_mem _ hy)
        exact Nat.lt_of_le_of_lt hlater (turnsLeft_lt hroom hnow hgo)

/-- **A round has a bounded number of turns**: between two calls of `poll` there are at most
`roundBound`, whatever connections are accepted and closed in the round. -/
theorem round_ends (sh : Shared) (managerSocket : Int) {os : List Occurrence}
    {before turns after : List (Server × Occurrence)}
    (hrun : serverMachine.trace (start sh managerSocket) os = before ++ (turns ++ after))
    (hround : ∀ x ∈ turns, ¬ x.1.AtPoll) : turns.length ≤ roundBound := by
  cases turns with
  | nil => exact Nat.zero_le _
  | cons x turns =>
    rw [List.cons_append] at hrun
    obtain ⟨hpass, hstate⟩ := serverMachine.trace_split hrun
    have hroom : x.1.clientCount ≤ MAX_CLIENTS := by
      rw [hstate]
      exact @Machine.final_preserves _ _ serverMachine (fun sv => sv.clientCount ≤ MAX_CLIENTS)
        (fun _ o h => room_next h o) _ (room_start sh managerSocket) _
    obtain ⟨rest, hrest⟩ := serverMachine.trace_tail hrun
    have hinitial : x :: turns <+: serverMachine.trace x.1 rest := by
      rw [hrest]
      exact List.prefix_append (x :: turns) after
    have hstretch := length_le_turnsLeft hroom hinitial hround
    refine Nat.le_trans hstretch ?_
    unfold turnsLeft roundBound
    omega

/-- The turns between the first two calls of `poll`. -/
theorem round_ends_accepting :
    (((serverMachine.trace (start sampleShared 4) (accepting 4 5)).drop 1).take 2).length ≤
      roundBound := by
  refine @round_ends sampleShared 4 (accepting 4 5)
    ((serverMachine.trace (start sampleShared 4) (accepting 4 5)).take 1) _
    (((serverMachine.trace (start sampleShared 4) (accepting 4 5)).drop 1).drop 2) ?_
    (by decide +kernel)
  rw [List.take_append_drop, List.take_append_drop]

end Server

/-! ### Being left out -/

namespace Server

/-- No session has the descriptor of a listening socket. -/
def ListensApart (sv : Server) (os : List Occurrence) : Prop :=
  ∀ x ∈ serverMachine.trace sv os,
    x.1.shared.listener.serverSocket ∉ x.1.openSockets ∧ x.1.managerSocket ∉ x.1.openSockets

instance (sv : Server) (os : List Occurrence) : Decidable (sv.ListensApart os) :=
  inferInstanceAs (Decidable (∀ x ∈ serverMachine.trace sv os, _ ∧ _))

/-- Then only the first two entries of the poll array accept connections. -/
theorem InStep.index_lt {sv : Server} (h : sv.InStep) (hevent : sv.AtEvent) (hlisten : sv.Listens)
    (hserver : sv.shared.listener.serverSocket ∉ sv.openSockets)
    (hmanager : sv.managerSocket ∉ sv.openSockets) : sv.index < 2 := by
  by_contra hno
  have h2 : 2 ≤ sv.index := Nat.le_of_not_lt hno
  have hslot := hevent.slot_lt h2
  have hfd : (sv.pollFd sv.index).fd = (sv.clients sv.slot).session.cliSocket := by
    have hback : sv.slot + 2 = sv.index := Nat.sub_add_cancel h2
    rw [pollFd, if_neg (by omega), ← hback]
    exact h.socket sv.slot hslot
  have hopen : (sv.pollFd sv.index).fd ∈ sv.openSockets := by
    rw [hfd]
    exact List.mem_map_of_mem (List.mem_range.mpr hslot)
  rcases hlisten with he | he
  · exact hserver (he ▸ hopen)
  · exact hmanager (he ▸ hopen)

end Server

/-- A ghost that keeps for each session the slot it was accepted in, and in how many rounds it was
reported as readable and not served. -/
structure Patience where
  seat : Nat → Nat
  missed : Nat → Nat

namespace Patience

def start : Patience := ⟨fun _ => 0, fun _ => 0⟩

def watch (p : Patience) (x : Server × Round) (o : Occurrence) : Patience :=
  match (x.1.step o).event with
  | .quiet =>
    if x.1.AtPoll then
      { p with missed := fun s => if x.2.reported s then p.missed s + 1 else p.missed s }
    else p
  | .opened slot => { p with seat := update p.seat x.2.roster.admitted slot }
  | .served _ _ _ => p

/-- The session in slot `k` is reported, and the loop will not come to it in this round. -/
def late (sv : Server) (g : Round) (k : Nat) : Bool :=
  g.reported (g.roster.owner k) && !(decide (sv.index ≤ k + 2) && (sv.pollfds (k + 2)).revents)

/-- A session that is left out has moved to the front. -/
structure Inv (p : Patience) (sv : Server) (g : Round) : Prop where
  inStep : sv.InStep
  roster : g.roster.Inv sv
  waiting : ∀ k < sv.clientCount, p.missed (g.roster.owner k) + k + (late sv g k).toNat ≤
    p.seat (g.roster.owner k)
  gone : ∀ s, ¬ g.roster.IsOpen sv s → g.reported s = false ∧ p.missed s ≤ p.seat s
  new : ∀ s, g.roster.admitted ≤ s → p.missed s = 0
  seated : ∀ s, p.seat s < MAX_CLIENTS

theorem inv_start (sh : Shared) (managerSocket : Int) :
    start.Inv (Server.start sh managerSocket) Round.start where
  inStep := Server.inStep_start sh managerSocket
  roster := Roster.inv_empty rfl
  waiting k hk := absurd hk (Nat.not_lt_zero k)
  gone _ _ := ⟨rfl, Nat.le_refl _⟩
  new _ _ := rfl
  seated _ := show 0 < MAX_CLIENTS by decide

variable {p : Patience} {sv : Server} {g : Round}

theorem Inv.missed_le (h : p.Inv sv g) (s : Nat) : p.missed s ≤ p.seat s := by
  by_cases hopen : g.roster.IsOpen sv s
  · obtain ⟨k, hk, rfl⟩ := hopen
    have hwaiting := h.waiting k hk
    omega
  · exact (h.gone s hopen).2

/-- What `poll` reports it flags. -/
theorem Inv.flagged (h : p.Inv sv g) {o : Occurrence} {k : Nat} (hk : k < sv.clientCount)
    (hreadable : g.roster.readable sv o (g.roster.owner k) = true) :
    ((sv.poll o).pollfds (k + 2)).revents = true := by
  obtain ⟨k', hk', hready⟩ := List.any_eq_true.mp hreadable
  rw [Bool.and_eq_true, beq_iff_eq] at hready
  have hsame := h.roster.distinct k' (List.mem_range.mp hk') k hk hready.1
  have hplace : k + 2 < sv.clientCount + 2 := Nat.add_lt_add_right hk 2
  rw [Server.poll]
  simp only [if_pos hplace, Server.pollFd, Nat.add_eq_zero_iff, OfNat.ofNat_ne_zero, and_false,
    if_false, h.inStep.socket k hk]
  exact hsame ▸ hready.2

/-- A round is over: who was reported and has not been served has been left out. -/
theorem Inv.polled (h : p.Inv sv g) {o : Occurrence} (hpoll : sv.AtPoll) :
    Inv { p with missed := fun s => if g.reported s then p.missed s + 1 else p.missed s }
      (sv.poll o) ⟨g.roster, g.roster.readable sv o⟩ := by
  refine ⟨h.inStep.of_fds (sv.poll_fd o) rfl fun _ => rfl, h.roster.of_count rfl, ?_, ?_, ?_,
    h.seated⟩
  · intro k hk
    have hk : k < sv.clientCount := hk
    have hwaiting := h.waiting k hk
    have hpassed : ¬ sv.index ≤ k + 2 := by
      unfold Server.AtPoll at hpoll
      omega
    have hnot : late (sv.poll o) ⟨g.roster, g.roster.readable sv o⟩ k = false := by
      have hindex : (sv.poll o).index ≤ k + 2 := Nat.zero_le _
      rw [late, decide_eq_true hindex, Bool.true_and, Bool.and_eq_false_imp]
      intro hreadable
      rw [h.flagged hk hreadable]
      rfl
    rw [hnot]
    unfold late at hwaiting
    rw [decide_eq_false hpassed] at hwaiting
    simp only
    cases hreported : g.reported (g.roster.owner k) with
    | false =>
      rw [hreported] at hwaiting
      exact hwaiting
    | true =>
      simp only [hreported, Bool.false_and, Bool.not_false, Bool.and_true, Bool.toNat_true,
        Bool.toNat_false, if_true] at hwaiting ⊢
      omega
  · intro s hclosed
    have hclosed : ¬ g.roster.IsOpen sv s := hclosed
    obtain ⟨hreported, hmissed⟩ := h.gone s hclosed
    refine ⟨?_, ?_⟩
    · apply List.any_eq_false.mpr
      intro k hk
      have hne : g.roster.owner k ≠ s := fun he => hclosed ⟨k, List.mem_range.mp hk, he⟩
      simp [hne]
    · simp only [hreported, Bool.false_eq_true, if_false]
      exact hmissed
  · intro s hs
    have hclosed : ¬ g.roster.IsOpen sv s := by
      rintro ⟨k, hk, rfl⟩
      exact absurd (h.roster.known k hk) (Nat.not_lt_of_le hs)
    simp only [(h.gone s hclosed).1, Bool.false_eq_true, if_false]
    exact h.new s hs

/-- A turn that takes nobody's place and nobody's report. -/
theorem Inv.kept (h : p.Inv sv g) {sv' : Server} (hinStep : sv'.InStep)
    (hcount : sv'.clientCount = sv.clientCount)
    (hlate : ∀ k < sv.clientCount, late sv' g k = late sv g k) : p.Inv sv' g where
  inStep := hinStep
  roster := h.roster.of_count hcount
  waiting k hk := by
    have hk : k < sv.clientCount := lt_of_lt_of_eq hk hcount
    rw [hlate k hk]
    exact h.waiting k hk
  gone s hclosed := h.gone s (mt (g.roster.isOpen_of_count hcount s).mpr hclosed)
  new := h.new
  seated := h.seated

/-- Going on to the next entry leaves out nobody whose entry is another one. -/
theorem late_advance {sv sv' : Server} {g g' : Round} {k : Nat}
    (hindex : sv'.index = sv.index + 1) (hne : k + 2 ≠ sv.index)
    (hrevents : (sv'.pollfds (k + 2)).revents = (sv.pollfds (k + 2)).revents)
    (hreported : g'.reported (g'.roster.owner k) = g.reported (g.roster.owner k)) :
    late sv' g' k = late sv g k := by
  have hplace : sv.index + 1 ≤ k + 2 ↔ sv.index ≤ k + 2 := by omega
  rw [late, late, hindex, hrevents, hreported, decide_eq_decide.mpr hplace]

/-- The entry the loop stands at is not flagged: its session is late already, if it is reported. -/
theorem late_skip {sv : Server} (g : Round) {k : Nat} (hk : k + 2 = sv.index)
    (hrevents : (sv.pollFd sv.index).revents = false) : late sv.advance g k = late sv g k := by
  rw [sv.pollFd_revents, ← hk] at hrevents
  have hflag : (sv.advance.pollfds (k + 2)).revents = false := hrevents
  rw [late, late, hrevents, hflag, Bool.and_false, Bool.and_false]

theorem clearRevents_of_ne {sv : Server} {k : Nat} (hne : k + 2 ≠ sv.index) :
    (sv.clearRevents.pollfds (k + 2)).revents = (sv.pollfds (k + 2)).revents := by
  rw [sv.clearRevents_revents, if_neg hne]

theorem Inv.opened (h : p.Inv sv g) {fd : Int} {ip : Bytes} (hindex : sv.index < 2)
    (hfresh : fd ∉ sv.openSockets) (hroom : sv.clientCount < MAX_CLIENTS) :
    Inv { p with seat := update p.seat g.roster.admitted sv.clientCount }
      (sv.joined fd ip).advance
      ⟨g.roster.record sv (.opened sv.clientCount), g.reported⟩ := by
  have hisOpen := @Roster.isOpen_opened g.roster sv (sv.joined fd ip).advance rfl
  have hnotOpen : ∀ s, g.roster.admitted ≤ s → ¬ g.roster.IsOpen sv s := by
    rintro s hs ⟨k, hk, rfl⟩
    exact absurd (h.roster.known k hk) (Nat.not_lt_of_le hs)
  have hold : ∀ k < sv.clientCount,
      (g.roster.record sv (.opened sv.clientCount)).owner k = g.roster.owner k := by
    intro k hk
    rw [Roster.owner_opened, if_neg (Nat.ne_of_lt hk)]
  constructor
  case inStep => exact (h.inStep.joined hfresh ip).of_fds (fun _ => rfl) rfl fun _ => rfl
  case roster => exact h.roster.opened rfl
  case waiting =>
    intro k hk
    have hk : k < sv.clientCount + 1 := hk
    rcases Nat.lt_succ_iff_lt_or_eq.mp hk with hlt | rfl
    · have hne : k + 2 ≠ sv.index := by omega
      have hrevents : ((sv.joined fd ip).advance.pollfds (k + 2)).revents =
          (sv.pollfds (k + 2)).revents := by
        refine (sv.joined_revents fd ip (k + 2)).trans ?_
        rw [if_neg hne]
      have hlate := @late_advance sv (sv.joined fd ip).advance g
        ⟨g.roster.record sv (.opened sv.clientCount), g.reported⟩ k rfl hne hrevents
        (congrArg g.reported (hold k hlt))
      have hknown := h.roster.known k hlt
      rw [hlate]
      simp only [hold k hlt, Function.update_of_ne (Nat.ne_of_lt hknown)]
      exact h.waiting k hlt
    · have hnew : (g.roster.record sv (.opened sv.clientCount)).owner sv.clientCount =
          g.roster.admitted := by
        rw [Roster.owner_opened, if_pos rfl]
      have hquiet : g.reported g.roster.admitted = false :=
        (h.gone _ (hnotOpen _ (Nat.le_refl _))).1
      have hnone := h.new _ (Nat.le_refl g.roster.admitted)
      simp only [late, hnew, hquiet, hnone, Function.update_self, Bool.false_and, Bool.toNat_false]
      omega
  case gone =>
    intro s hclosed
    have hclosed := not_or.mp (mt (hisOpen s).mpr hclosed)
    simp only [Function.update_of_ne hclosed.2]
    exact h.gone s hclosed.1
  case new =>
    intro s hs
    exact h.new s (Nat.le_of_succ_le hs)
  case seated =>
    intro s
    simp only [Function.update_apply]
    split
    · exact hroom
    · exact h.seated s

theorem Inv.stayed (h : p.Inv sv g) {o : Occurrence} (hevent : sv.AtEvent) (h2 : 2 ≤ sv.index) :
    p.Inv (sv.served o).advance ⟨g.roster, update g.reported (g.roster.owner sv.slot) false⟩ := by
  have hslot := hevent.slot_lt h2
  have hback : sv.slot + 2 = sv.index := Nat.sub_add_cancel h2
  constructor
  case inStep => exact (h.inStep.served o).of_fds (fun _ => rfl) rfl fun _ => rfl
  case roster => exact h.roster.of_count rfl
  case waiting =>
    intro k hk
    have hk : k < sv.clientCount := hk
    have hwaiting := h.waiting k hk
    by_cases hks : k = sv.slot
    · have hserved : late (sv.served o).advance
          ⟨g.roster, update g.reported (g.roster.owner sv.slot) false⟩ k = false := by
        simp only [late, hks, Function.update_self, Bool.false_and]
      rw [hserved]
      exact Nat.le_trans (Nat.add_le_add_left (Nat.zero_le _) _) hwaiting
    · have howner : g.roster.owner k ≠ g.roster.owner sv.slot :=
        fun he => hks (h.roster.distinct k hk _ hslot he)
      have hne : k + 2 ≠ sv.index := by omega
      have hlate := @late_advance sv (sv.served o).advance g
        ⟨g.roster, update g.reported (g.roster.owner sv.slot) false⟩ k rfl hne
        (clearRevents_of_ne hne) (Function.update_of_ne howner ..)
      rw [hlate]
      exact hwaiting
  case gone =>
    intro s hclosed
    have hclosed : ¬ g.roster.IsOpen sv s := hclosed
    have hne : s ≠ g.roster.owner sv.slot := fun he => hclosed ⟨_, hslot, he.symm⟩
    simp only [Function.update_of_ne hne]
    exact h.gone s hclosed
  case new => exact h.new
  case seated => exact h.seated

/-- The last session takes the place of the closed one, in front of its own. -/
theorem Inv.closed (h : p.Inv sv g) {o : Occurrence} (hevent : sv.AtEvent) (h2 : 2 ≤ sv.index)
    (xs : List Exchange) :
    p.Inv (sv.departed o) ⟨g.roster.record sv (.served sv.slot xs true),
      update g.reported (g.roster.owner sv.slot) false⟩ := by
  have hslot := hevent.slot_lt h2
  have hback : sv.slot + 2 = sv.index := Nat.sub_add_cancel h2
  have hcount : (sv.departed o).clientCount = sv.clientCount - 1 := rfl
  constructor
  case inStep => exact h.inStep.departed hevent h2 o
  case roster => exact h.roster.closed hslot hcount xs
  case waiting =>
    intro k hk
    rw [hcount] at hk
    by_cases hks : k = sv.slot
    · -- the session that moves here is late at worst, and its old place was further back
      have hlast := h.waiting (sv.clientCount - 1) (by omega)
      have howner : (g.roster.record sv (.served sv.slot xs true)).owner k =
          g.roster.owner (sv.clientCount - 1) := by
        rw [Roster.owner_closed, if_pos hks]
      have hbound := Bool.toNat_le (late (sv.departed o) ⟨g.roster.record sv
        (.served sv.slot xs true), update g.reported (g.roster.owner sv.slot) false⟩ k)
      simp only [howner] at hbound ⊢
      omega
    · have hwaiting := h.waiting k (by omega)
      have howner : (g.roster.record sv (.served sv.slot xs true)).owner k = g.roster.owner k := by
        rw [Roster.owner_closed, if_neg hks]
      have hne : g.roster.owner k ≠ g.roster.owner sv.slot :=
        fun he => hks (h.roster.distinct k (by omega) _ hslot he)
      have hrevents : ((sv.departed o).pollfds (k + 2)).revents =
          (sv.pollfds (k + 2)).revents := by
        rw [sv.departed_revents, if_neg (by omega)]
      have hlate : late (sv.departed o) ⟨g.roster.record sv (.served sv.slot xs true),
          update g.reported (g.roster.owner sv.slot) false⟩ k = late sv g k := by
        have hindex : (sv.departed o).index = sv.index := rfl
        simp only [late, hindex, hrevents, howner, Function.update_of_ne hne]
      rw [hlate, howner]
      exact hwaiting
  case gone =>
    intro s hclosed
    have hopen := h.roster.isOpen_closed hslot hcount xs s
    by_cases hself : s = g.roster.owner sv.slot
    · simp only [hself, Function.update_self, true_and]
      exact h.missed_le _
    · simp only [Function.update_of_ne hself]
      exact h.gone s fun hold => hclosed (hopen.mpr ⟨hold, hself⟩)
  case new => exact h.new
  case seated => exact h.seated

/-- **A turn of the loop leaves out no session that does not move to the front.** -/
theorem Inv.next (h : p.Inv sv g) {o : Occurrence}
    (hfresh : ∀ c ∈ sv.accepts o, c.1 ∉ sv.openSockets)
    (hserver : sv.shared.listener.serverSocket ∉ sv.openSockets)
    (hmanager : sv.managerSocket ∉ sv.openSockets) (hgo : (sv.step o).halted = false) :
    (p.watch (sv, g) o).Inv (sv.step o).server (g.watch sv o) := by
  have hturn : ∀ k < sv.clientCount, sv.index < 2 →
      late sv.clearRevents.advance g k = late sv g k := by
    intro k _ hindex
    have hne : k + 2 ≠ sv.index := by omega
    exact late_advance rfl hne (clearRevents_of_ne hne) rfl
  have hclear : sv.clearRevents.advance.InStep :=
    h.inStep.of_fds sv.clearRevents_fd rfl fun _ => rfl
  have hcase := sv.step_cases o
  unfold watch Round.watch
  simp only
  generalize sv.step o = st at hcase hgo ⊢
  cases hcase with
  | polled hend =>
    simp only [if_pos (show sv.AtPoll from hend), Round.report, if_neg (Nat.not_le_of_lt hend)]
    exact h.polled hend
  | skipped hindex hrevents =>
    simp only [if_neg (show ¬ sv.AtPoll from Nat.not_lt_of_le hindex), Round.report, if_pos hindex]
    refine h.kept (h.inStep.of_fds (fun _ => rfl) rfl fun _ => rfl) rfl fun k hk => ?_
    by_cases hk' : k + 2 = sv.index
    · exact late_skip g hk' hrevents
    · exact late_advance rfl hk' rfl rfl
  | unaccepted hevent hlisten _ =>
    simp only [if_neg (show ¬ sv.AtPoll from Nat.not_lt_of_le hevent.index), Round.report,
      if_pos hevent.index]
    exact h.kept hclear rfl fun k hk =>
      hturn k hk (h.inStep.index_lt hevent hlisten hserver hmanager)
  | refused hevent hlisten _ _ =>
    simp only [if_neg (show ¬ sv.AtPoll from Nat.not_lt_of_le hevent.index), Round.report,
      if_pos hevent.index]
    exact h.kept hclear rfl fun k hk =>
      hturn k hk (h.inStep.index_lt hevent hlisten hserver hmanager)
  | admitted hevent hlisten hsome hroom =>
    rw [Server.accepts_of_event hevent hlisten, hsome] at hfresh
    exact h.opened (h.inStep.index_lt hevent hlisten hserver hmanager) (hfresh _ rfl) hroom
  | stayed hevent _ h2 _ _ => exact h.stayed hevent h2
  | closed hevent _ h2 _ _ => exact h.closed hevent h2 _
  | overflown _ _ _ _ => cases hgo
  | stray _ _ _ => cases hgo
  | faulted _ _ _ _ => cases hgo

end Patience

/-! ### Whole runs -/

namespace Server

def waits : Machine ((Server × Round) × Patience) Occurrence := rounds.ghost Patience.watch

def waiting (sh : Shared) (managerSocket : Int) : (Server × Round) × Patience :=
  ((start sh managerSocket, Round.start), Patience.start)

theorem mem_trace_of_waits {y : (Server × Round) × Patience} {os : List Occurrence}
    {x : ((Server × Round) × Patience) × Occurrence} (hx : x ∈ waits.trace y os) :
    (x.1.1.1, x.2) ∈ serverMachine.trace y.1.1 os :=
  serverMachine.mem_trace_of_ghost _ (rounds.mem_trace_of_ghost _ hx)

theorem patience_along (sh : Shared) (managerSocket : Int) {os : List Occurrence}
    (hfresh : (start sh managerSocket).AcceptsFresh os)
    (hapart : (start sh managerSocket).ListensApart os) :
    ∀ pre, pre <+: os → waits.Passes (waiting sh managerSocket) pre →
      (waits.final (waiting sh managerSocket) pre).2.Inv
        (waits.final (waiting sh managerSocket) pre).1.1
        (waits.final (waiting sh managerSocket) pre).1.2 := by
  apply @Machine.final_induction _ _ waits fun y => y.2.Inv y.1.1 y.1.2
  · intro pre o hinitial hpass hinv hgo
    have hmem := mem_trace_of_waits
      ((Machine.mem_trace_iff waits (x := (_, o))).mpr ⟨pre, hinitial, hpass, rfl⟩)
    obtain ⟨hserver, hmanager⟩ := hapart _ hmem
    exact hinv.next (hfresh _ hmem) hserver hmanager hgo
  · exact Patience.inv_start sh managerSocket

/-- What a session has missed so far is bounded by its first slot. -/
def MissesBounded (y : (Server × Round) × Patience) (os : List Occurrence) : Prop :=
  ∀ x ∈ waits.trace y os, ∀ s, x.1.2.missed s ≤ x.1.2.seat s ∧ x.1.2.seat s < MAX_CLIENTS

/-- **A session is left out of no more rounds than the number of the slot it was accepted in**, and
of none if it was accepted in the first one. -/
theorem misses_bounded (sh : Shared) (managerSocket : Int) {os : List Occurrence}
    (hfresh : (start sh managerSocket).AcceptsFresh os)
    (hapart : (start sh managerSocket).ListensApart os) :
    MissesBounded (waiting sh managerSocket) os := by
  intro x hx s
  obtain ⟨pre, hinitial, hpass, hstate⟩ := (Machine.mem_trace_iff waits).mp hx
  have hinv := patience_along sh managerSocket hfresh hapart pre
    ((List.prefix_append pre [x.2]).trans hinitial) hpass
  rw [← hstate] at hinv
  exact ⟨hinv.missed_le s, hinv.seated s⟩

/-- How often the loop calls `poll`. -/
def pollCount (sv : Server) (os : List Occurrence) : Nat :=
  (serverMachine.trace sv os).countP fun x => x.1.AtPoll

/-- The session `s` is in the table, with the socket `fd`. -/
def Holds (sv : Server) (r : Roster) (s : Nat) (fd : Int) : Prop :=
  ∃ k < sv.clientCount, r.owner k = s ∧ (sv.clients k).session.cliSocket = fd

/-- The turn calls `handle_client` for the session `s`. -/
def Serves (sv : Server) (r : Roster) (o : Occurrence) (s : Nat) : Prop :=
  ∃ slot ∈ (sv.step o).event.served?, r.owner slot = s

instance (sv : Server) (r : Roster) (s : Nat) (fd : Int) : Decidable (sv.Holds r s fd) :=
  inferInstanceAs (Decidable (∃ k < sv.clientCount, _))

instance (sv : Server) (r : Roster) (o : Occurrence) (s : Nat) : Decidable (sv.Serves r o s) :=
  inferInstanceAs (Decidable (∃ slot ∈ (sv.step o).event.served?, _))

/-- A session stays in the table, with its socket, until it is served. -/
theorem Holds.next {sv : Server} {r : Roster} {s : Nat} {fd : Int} (h : sv.Holds r s fd)
    {o : Occurrence} (hnot : ¬ sv.Serves r o s)
    (hgo : (sv.step o).halted = false) :
    (sv.step o).server.Holds (r.record sv (sv.step o).event) s fd := by
  obtain ⟨k, hk, howner, hfd⟩ := h
  cases sv.step_outcome o with
  | quiet hevent hclients hcount =>
    rw [hevent]
    exact ⟨k, lt_of_lt_of_eq hk hcount.symm, howner, by rw [hclients]; exact hfd⟩
  | opened _ _ _ _ hevent hclients hcount =>
    rw [hevent]
    have hne : k ≠ sv.clientCount := Nat.ne_of_lt hk
    refine ⟨k, hcount ▸ Nat.lt_succ_of_lt hk, ?_, ?_⟩
    · rw [Roster.owner_opened, if_neg hne]
      exact howner
    · rw [hclients, Function.update_of_ne hne]
      exact hfd
  | faulted _ _ hstop _ => cases hstop.symm.trans hgo
  | stayed slot hslot _ _ _ hevent hclients hcount =>
    have hne : k ≠ slot := by
      rintro rfl
      exact hnot ⟨k, by rw [hevent]; rfl, howner⟩
    rw [hevent]
    refine ⟨k, lt_of_lt_of_eq hk hcount.symm, howner, ?_⟩
    rw [hclients, Function.update_of_ne hne]
    exact hfd
  | closed slot hslot _ _ _ hevent hclients hcount =>
    have hne : k ≠ slot := by
      rintro rfl
      exact hnot ⟨k, by rw [hevent]; rfl, howner⟩
    rw [hevent]
    by_cases hlast : k = sv.clientCount - 1
    · -- the last session is found in the place of the closed one
      refine ⟨slot, by omega, ?_, ?_⟩
      · rw [Roster.owner_closed, if_pos rfl, ← hlast]
        exact howner
      · rw [hclients slot (by omega), if_pos rfl, ← hlast]
        exact hfd
    · refine ⟨k, by omega, ?_, ?_⟩
      · rw [Roster.owner_closed, if_neg hne]
        exact howner
      · rw [hclients k (by omega), if_neg hne]
        exact hfd

end Server

namespace Patience

variable {p : Patience} {sv : Server} {g : Round} {s : Nat} {fd : Int}

/-- A turn that does not serve a session with a readable socket: its report is kept, and every
`poll` counts. -/
theorem Inv.turn (h : p.Inv sv g) (hholds : sv.Holds g.roster s fd) (hfd : 0 ≤ fd) {o : Occurrence}
    (hready : o.ready fd = true) (hnot : ¬ sv.Serves g.roster o s)
    (hgo : (sv.step o).halted = false) :
    (p.watch (sv, g) o).seat s = p.seat s ∧
      (p.watch (sv, g) o).missed s + ((g.watch sv o).reported s).toNat =
        p.missed s + (g.reported s).toNat + (if sv.AtPoll then 1 else 0) := by
  obtain ⟨k, hk, howner, hsocket⟩ := hholds
  have hserved : ∀ {slot : Nat} {xs : List Exchange} {closed : Bool},
      (sv.step o).event = .served slot xs closed → g.roster.owner slot ≠ s := by
    intro slot xs closed hevent he
    exact hnot ⟨slot, by rw [hevent]; rfl, he⟩
  have hcase := sv.step_cases o
  unfold watch Round.watch
  simp only
  generalize sv.step o = st at hcase hgo hserved ⊢
  cases hcase with
  | polled hend =>
    have hreadable : g.roster.readable sv o s = true := by
      apply List.any_eq_true.mpr
      refine ⟨k, List.mem_range.mpr hk, ?_⟩
      rw [howner, hsocket, beq_self_eq_true, Bool.true_and, hready, Bool.and_true]
      exact decide_eq_true hfd
    simp only [if_pos (show sv.AtPoll from hend), Round.report, if_neg (Nat.not_le_of_lt hend),
      hreadable, Bool.toNat_true]
    cases g.reported s <;> simp
  | skipped hindex _ =>
    simp only [if_neg (show ¬ sv.AtPoll from Nat.not_lt_of_le hindex), Round.report, if_pos hindex,
      Nat.add_zero, and_self]
  | unaccepted hevent _ _ =>
    simp only [if_neg (show ¬ sv.AtPoll from Nat.not_lt_of_le hevent.index), Round.report,
      if_pos hevent.index, Nat.add_zero, and_self]
  | refused hevent _ _ _ =>
    simp only [if_neg (show ¬ sv.AtPoll from Nat.not_lt_of_le hevent.index), Round.report,
      if_pos hevent.index, Nat.add_zero, and_self]
  | admitted hevent _ _ _ =>
    have hold : s ≠ g.roster.admitted := howner ▸ Nat.ne_of_lt (h.roster.known k hk)
    simp only [if_neg (show ¬ sv.AtPoll from Nat.not_lt_of_le hevent.index), Round.report,
      Function.update_of_ne hold, Nat.add_zero, and_self]
  | stayed hevent _ _ _ _ =>
    have hother := hserved rfl
    simp only [if_neg (show ¬ sv.AtPoll from Nat.not_lt_of_le hevent.index), Round.report,
      Function.update_of_ne (Ne.symm hother), Nat.add_zero, and_self]
  | closed hevent _ _ _ _ =>
    have hother := hserved rfl
    simp only [if_neg (show ¬ sv.AtPoll from Nat.not_lt_of_le hevent.index), Round.report,
      Function.update_of_ne (Ne.symm hother), Nat.add_zero, and_self]
  | overflown _ _ _ _ => cases hgo
  | stray _ _ _ => cases hgo
  | faulted _ _ _ _ => cases hgo

/-- **The calls of `poll` before a session with a readable socket is served are few.** -/
theorem Inv.polls_le (h : p.Inv sv g) (hholds : sv.Holds g.roster s fd) (hfd : 0 ≤ fd)
    {os : List Occurrence} (hready : ∀ o ∈ os, o.ready fd = true) (hfresh : sv.AcceptsFresh os)
    (hapart : sv.ListensApart os)
    (hnot : ∀ x ∈ Server.rounds.trace (sv, g) os, ¬ x.1.1.Serves x.1.2.roster x.2 s) :
    p.missed s + (g.reported s).toNat + sv.pollCount os ≤ p.seat s + 1 := by
  induction os generalizing p sv g with
  | nil =>
    have hmissed := h.missed_le s
    have hreported := Bool.toNat_le (g.reported s)
    change p.missed s + (g.reported s).toNat + 0 ≤ p.seat s + 1
    omega
  | cons o os ih =>
    cases hgo : serverMachine.stop sv o with
    | true =>
      have hround : ¬ sv.AtPoll := by
        intro hpoll
        have hstep : sv.step o = ⟨sv.poll o, .quiet, [], false⟩ := if_neg (Nat.not_le_of_lt hpoll)
        change (sv.step o).halted = true at hgo
        rw [hstep] at hgo
        cases hgo
      have hmissed := h.missed_le s
      have hreported := Bool.toNat_le (g.reported s)
      rw [Server.pollCount, Machine.trace_cons_stop _ hgo,
        List.countP_singleton, decide_eq_false hround, if_neg Bool.false_ne_true]
      omega
    | false =>
      have htrace : serverMachine.trace sv (o :: os) = _ := Machine.trace_cons_go _ hgo os
      have hghost : Server.rounds.trace (sv, g) (o :: os) = _ :=
        Machine.trace_cons_go (m := Server.rounds) (s := (sv, g)) hgo os
      have hfirst : ¬ sv.Serves g.roster o s := hnot ((sv, g), o) (hghost ▸ List.mem_cons_self)
      obtain ⟨hserver, hmanager⟩ := hapart (sv, o) (htrace ▸ List.mem_cons_self)
      have hnext : (p.watch (sv, g) o).Inv (sv.step o).server (g.watch sv o) :=
        h.next (hfresh (sv, o) (htrace ▸ List.mem_cons_self)) hserver hmanager hgo
      obtain ⟨hseat, hcount⟩ := h.turn hholds hfd (hready o List.mem_cons_self) hfirst hgo
      have hrest := ih hnext (hholds.next hfirst hgo)
        (fun o' ho' => hready o' (List.mem_cons_of_mem _ ho'))
        (fun x hx => hfresh x (htrace ▸ List.mem_cons_of_mem _ hx))
        (fun x hx => hapart x (htrace ▸ List.mem_cons_of_mem _ hx))
        (fun x hx => hnot x (hghost ▸ List.mem_cons_of_mem _ hx))
      have hpolls : sv.pollCount (o :: os) =
          (sv.step o).server.pollCount os + if sv.AtPoll then 1 else 0 := by
        rw [Server.pollCount, htrace, List.countP_cons]
        simp only [decide_eq_true_eq]
        rfl
      rw [hseat] at hrest
      omega

end Patience

/-- **How often `poll` can report a session in vain**: as long as a session whose socket stays
readable is not served, `poll` is called no more than one time more than the number of the slot the
session was accepted in.  A call that blocks on another session ends the rounds altogether. -/
theorem Server.unserved_polls_le (sh : Shared) (managerSocket : Int)
    {before after : List Occurrence} {s : Nat} {fd : Int}
    (hpass : serverMachine.Passes (start sh managerSocket) before)
    (hfresh : (start sh managerSocket).AcceptsFresh (before ++ after))
    (hapart : (start sh managerSocket).ListensApart (before ++ after))
    (hholds : (waits.final (waiting sh managerSocket) before).1.1.Holds
      (waits.final (waiting sh managerSocket) before).1.2.roster s fd)
    (hfd : 0 ≤ fd) (hready : ∀ o ∈ after, o.ready fd = true)
    (hunserved : ∀ x ∈ rounds.trace (waits.final (waiting sh managerSocket) before).1 after,
      ¬ x.1.1.Serves x.1.2.roster x.2 s) :
    (waits.final (waiting sh managerSocket) before).1.1.pollCount after ≤
      (waits.final (waiting sh managerSocket) before).2.seat s + 1 := by
  have htrace := serverMachine.trace_append hpass after
  have hserver : (waits.final (waiting sh managerSocket) before).1.1 =
      serverMachine.final (start sh managerSocket) before := by
    have hrounds := rounds.final_ghost Patience.watch (waiting sh managerSocket) before
    have hservers := serverMachine.final_ghost Round.watch (start sh managerSocket, Round.start)
      before
    exact (congrArg Prod.fst hrounds).trans hservers
  have hinv := patience_along sh managerSocket hfresh hapart before (List.prefix_append _ _)
    ((rounds.passes_ghost _).mpr ((serverMachine.passes_ghost _).mpr hpass))
  have hbound := hinv.polls_le hholds hfd hready
    (fun x hx => hfresh x (htrace ▸ List.mem_append_right _ (hserver ▸ hx)))
    (fun x hx => hapart x (htrace ▸ List.mem_append_right _ (hserver ▸ hx))) hunserved
  omega

/-- Two clients whose sockets stay readable, of whom the first one quits. -/
def twiceReady : List Occurrence := bothReady ++ bothReady

theorem Server.misses_bounded_quit :
    MissesBounded (waiting sampleShared 4) (accepting 4 5 ++ accepting 5 6 ++ twiceReady) :=
  misses_bounded sampleShared 4 (by decide +kernel) (by decide +kernel)

/-- The second client is left out of the round in which the first one quits. -/
theorem Server.unserved_polls_le_second :
    (waits.final (waiting sampleShared 4) (accepting 4 5 ++ accepting 5 6)).1.1.pollCount
        bothReady ≤
      (waits.final (waiting sampleShared 4) (accepting 4 5 ++ accepting 5 6)).2.seat 1 + 1 := by
  refine @unserved_polls_le sampleShared 4 (accepting 4 5 ++ accepting 5 6) bothReady 1 6
    (by decide +kernel) (by decide +kernel) (by decide +kernel) (by decide +kernel) (by decide) ?_
    (by decide +kernel)
  intro o ho
  rw [List.eq_of_mem_replicate ho]
  decide

end Pop3Server
