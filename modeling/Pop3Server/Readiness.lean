import Pop3Server.PollTable
import Pop3Server.Roster

/-!
# Which sessions are served

`poll` leaves its answer in the `revents` of the poll array, a flag for a place
and not for a session.  A close moves the last descriptor and not its flag: a
flag that stays behind in this way is taken, in a later round, for one of the
session that is accepted into its place.  Where no connection is accepted into a
flagged place, a session is served only after `poll` has reported its own
descriptor, and once for each report (`serves_reported`).
-/

namespace Pop3Server

open Function (update)

/-- A ghost of the server: the sessions whose sockets the last `poll` has reported as readable and
that have not been served since. -/
structure Round where
  roster : Roster
  reported : Nat → Bool

/-- The session `s` is in the table, and its descriptor is readable. -/
def Roster.readable (r : Roster) (sv : Server) (o : Occurrence) (s : Nat) : Bool :=
  (List.range sv.clientCount).any fun k =>
    r.owner k == s && (decide (0 ≤ (sv.clients k).session.cliSocket) &&
      o.ready (sv.clients k).session.cliSocket)

namespace Round

def start : Round := ⟨Roster.empty, fun _ => false⟩

def report (g : Round) (sv : Server) (o : Occurrence) : ServerEvent → Nat → Bool
  | .quiet => if sv.index ≤ sv.clientCount + 1 then g.reported else g.roster.readable sv o
  | .opened _ => g.reported
  | .served slot _ _ => update g.reported (g.roster.owner slot) false

def watch (g : Round) (sv : Server) (o : Occurrence) : Round :=
  ⟨g.roster.record sv (sv.step o).event, g.report sv o (sv.step o).event⟩

end Round

/-- The slot of the session a turn serves. -/
def ServerEvent.served? : ServerEvent → Option Nat
  | .served slot _ _ => some slot
  | _ => none

namespace Server

def rounds : Machine (Server × Round) Occurrence := serverMachine.ghost Round.watch

/-- `handle_client` is called only on sessions that the last `poll` has reported and that it has not
been called on since. -/
def ServesReported (sv : Server) (os : List Occurrence) : Prop :=
  ∀ x ∈ rounds.trace (sv, Round.start) os, ∀ slot ∈ (x.1.1.step x.2).event.served?,
    x.1.2.reported (x.1.2.roster.owner slot) = true

/-- No connection is accepted into a place of the poll array that is still flagged. -/
def AcceptsUnflagged (sv : Server) (os : List Occurrence) : Prop :=
  ∀ x ∈ serverMachine.trace sv os, ∀ slot ∈ (x.1.step x.2).event.opened?,
    (x.1.pollfds (slot + 2)).revents = false

instance (sv : Server) (os : List Occurrence) : Decidable (sv.ServesReported os) :=
  inferInstanceAs (Decidable (∀ x ∈ rounds.trace _ os, ∀ slot ∈ (x.1.1.step x.2).event.served?, _))

instance (sv : Server) (os : List Occurrence) : Decidable (sv.AcceptsUnflagged os) :=
  inferInstanceAs (Decidable
    (∀ x ∈ serverMachine.trace sv os, ∀ slot ∈ (x.1.step x.2).event.opened?, _))

end Server

namespace Round

/-- The places of the sessions the loop has not come to yet are flagged for these sessions. -/
structure Flagged (g : Round) (sv : Server) : Prop where
  inStep : sv.InStep
  roster : g.roster.Inv sv
  reported : ∀ k < sv.clientCount, sv.index ≤ k + 2 → (sv.pollfds (k + 2)).revents = true →
    g.reported (g.roster.owner k) = true

theorem flagged_start (sh : Shared) (managerSocket : Int) :
    start.Flagged (Server.start sh managerSocket) where
  inStep := Server.inStep_start sh managerSocket
  roster := Roster.inv_empty rfl
  reported k hk := absurd hk (Nat.not_lt_zero k)

/-- `poll` reports a session where it flags the place of the session. -/
theorem Flagged.polled {g : Round} {sv : Server} (h : g.Flagged sv) (o : Occurrence) {k : Nat}
    (hk : k < sv.clientCount) (hrevents : ((sv.poll o).pollfds (k + 2)).revents = true) :
    g.roster.readable sv o (g.roster.owner k) = true := by
  have hflag : (decide (0 ≤ (sv.pollfds (k + 2)).fd) && o.ready (sv.pollfds (k + 2)).fd) = true := by
    have hplace : k + 2 < sv.clientCount + 2 := Nat.add_lt_add_right hk 2
    simpa [Server.poll, Server.pollFd, hplace] using hrevents
  rw [h.inStep.socket k hk] at hflag
  apply List.any_eq_true.mpr
  refine ⟨k, List.mem_range.mpr hk, ?_⟩
  rw [hflag, Bool.and_true]
  exact beq_self_eq_true _

/-- The loop serves a session in a place it has come to, and the place is flagged. -/
theorem Flagged.served {g : Round} {sv : Server} (h : g.Flagged sv) {o : Occurrence} {slot : Nat}
    (hslot : slot ∈ (sv.step o).event.served?) :
    g.reported (g.roster.owner slot) = true := by
  have hplace : sv.AtEvent → 2 ≤ sv.index → g.reported (g.roster.owner sv.slot) = true := by
    intro hevent h2
    have hback : sv.slot + 2 = sv.index := Nat.sub_add_cancel h2
    apply h.reported sv.slot
    · exact hevent.slot_lt h2
    · exact Nat.le_of_eq hback.symm
    · rw [hback, ← sv.pollFd_revents]
      exact hevent.revents
  have hcase := sv.step_cases o
  generalize sv.step o = st at hcase hslot
  cases hcase with
  | faulted hevent _ h2 _ => exact Option.some.inj hslot ▸ hplace hevent h2
  | stayed hevent _ h2 _ _ => exact Option.some.inj hslot ▸ hplace hevent h2
  | closed hevent _ h2 _ _ => exact Option.some.inj hslot ▸ hplace hevent h2
  | _ => cases hslot

/-- What is flagged after the turn's own flag has been taken was flagged before. -/
theorem Flagged.cleared {g : Round} {sv : Server} (h : g.Flagged sv) {k : Nat}
    (hk : k < sv.clientCount) (hle : sv.index ≤ k + 2)
    (hrevents : (sv.clearRevents.pollfds (k + 2)).revents = true) :
    g.reported (g.roster.owner k) = true := by
  apply h.reported k hk hle
  rw [sv.clearRevents_revents] at hrevents
  split at hrevents
  · cases hrevents
  · exact hrevents

/-- Being served takes the report of a session away, and of no other. -/
theorem Flagged.other {g : Round} {sv : Server} (h : g.Flagged sv) {slot k : Nat}
    (hslot : slot < sv.clientCount) (hk : k < sv.clientCount) (hne : k ≠ slot)
    (hreported : g.reported (g.roster.owner k) = true) :
    update g.reported (g.roster.owner slot) false (g.roster.owner k) = true := by
  have howner : g.roster.owner k ≠ g.roster.owner slot :=
    fun he => hne (h.roster.distinct k hk slot hslot he)
  rw [Function.update_of_ne howner]
  exact hreported

/-- **A turn of the loop keeps the flags to the sessions `poll` has reported.** -/
theorem Flagged.next {g : Round} {sv : Server} (h : g.Flagged sv) {o : Occurrence}
    (hfresh : ∀ c ∈ sv.accepts o, c.1 ∉ sv.openSockets)
    (hunflagged : ∀ slot ∈ (sv.step o).event.opened?, (sv.pollfds (slot + 2)).revents = false)
    (hgo : (sv.step o).halted = false) : (g.watch sv o).Flagged (sv.step o).server := by
  refine ⟨h.inStep.next hfresh hgo, h.roster.next hgo, ?_⟩
  change ∀ k < _, _ → _ →
    g.report sv o (sv.step o).event ((g.roster.record sv (sv.step o).event).owner k) = true
  have hcase := sv.step_cases o
  generalize sv.step o = st at hcase hunflagged hgo ⊢
  cases hcase with
  | polled hend =>
    intro k hk _ hrevents
    rw [report, if_neg (Nat.not_le_of_lt hend)]
    exact h.polled o hk hrevents
  | skipped hindex _ =>
    intro k hk hle hrevents
    rw [report, if_pos hindex]
    exact h.reported k hk (Nat.le_of_succ_le hle) hrevents
  | unaccepted hevent _ _ =>
    intro k hk hle hrevents
    rw [report, if_pos hevent.index]
    exact h.cleared hk (Nat.le_of_succ_le hle) hrevents
  | refused hevent _ _ _ =>
    intro k hk hle hrevents
    rw [report, if_pos hevent.index]
    exact h.cleared hk (Nat.le_of_succ_le hle) hrevents
  | @admitted fd ip hevent _ _ _ =>
    intro k hk hle hrevents
    have hold : ((sv.joined fd ip).pollfds (k + 2)).revents = true := hrevents
    rw [sv.joined_revents fd ip, ← sv.clearRevents_revents] at hold
    have hcount : k < sv.clientCount + 1 := hk
    rw [report, Roster.owner_opened]
    rcases Nat.lt_succ_iff_lt_or_eq.mp hcount with hlt | rfl
    · rw [if_neg (Nat.ne_of_lt hlt)]
      exact h.cleared hlt (Nat.le_of_succ_le hle) hold
    · -- the place of the new session has no flag
      rw [sv.clearRevents_revents, hunflagged _ rfl, ite_self] at hold
      cases hold
  | stayed hevent _ h2 _ _ =>
    intro k hk hle hrevents
    have hslot : sv.slot + 2 = sv.index := Nat.sub_add_cancel h2
    have hlater : sv.index + 1 ≤ k + 2 := hle
    have hcleared : (sv.clearRevents.pollfds (k + 2)).revents = true := hrevents
    refine h.other ?_ hk ?_ (h.cleared hk (Nat.le_of_succ_le hlater) hcleared)
    · exact hevent.slot_lt h2
    · omega
  | closed hevent _ h2 _ _ =>
    intro k hk hle hrevents
    have hslot : sv.slot + 2 = sv.index := Nat.sub_add_cancel h2
    have hfewer : k < sv.clientCount - 1 := hk
    have hold : ((sv.departed o).pollfds (k + 2)).revents = true := hrevents
    rw [sv.departed_revents] at hold
    rw [report, Roster.owner_closed]
    by_cases hk' : k = sv.slot
    · -- the session that moves here leaves its flag behind
      rw [if_pos (by omega)] at hold
      cases hold
    · rw [if_neg (by omega)] at hold
      rw [if_neg hk']
      refine h.other (hevent.slot_lt h2) (by omega) hk' (h.reported k (by omega) hle hold)
  | overflown _ _ _ _ => cases hgo
  | stray _ _ _ => cases hgo
  | faulted _ _ _ _ => cases hgo

end Round

/-- **A session is served only when the last `poll` has reported it, and once for each report, in
every run in which no connection is accepted into a flagged place.** -/
theorem Server.serves_reported (sh : Shared) (managerSocket : Int) {os : List Occurrence}
    (hfresh : (start sh managerSocket).AcceptsFresh os)
    (hunflagged : (start sh managerSocket).AcceptsUnflagged os) :
    (start sh managerSocket).ServesReported os := by
  have hflagged : ∀ x ∈ rounds.trace (start sh managerSocket, Round.start) os,
      x.1.2.Flagged x.1.1 := by
    apply rounds.trace_induction fun x => x.2.Flagged x.1
    · intro x hx hflagged hgo
      have hx' := serverMachine.mem_trace_of_ghost _ hx
      exact hflagged.next (hfresh _ hx') (hunflagged _ hx') hgo
    · exact Round.flagged_start sh managerSocket
  intro x hx slot hslot
  exact (hflagged x hx).served hslot

/-- Two clients whose sockets are readable at once, of whom the first one quits. -/
def bothReady : List Occurrence :=
  List.replicate 5
    ⟨fun f => f == 5 || f == 6, none, .data (delivery "QUIT\r\n" (by decide)), [], fun _ => sampleEnv⟩

theorem Server.serves_reported_quit :
    (start sampleShared 4).ServesReported (accepting 4 5 ++ accepting 5 6 ++ bothReady) :=
  serves_reported sampleShared 4 (by decide +kernel) (by decide +kernel)

/-- The next client is accepted into the place that was the second one's, and is served in the same
round, with nothing to read from its socket. -/
theorem Server.serves_unreported :
    ¬ ∀ (sh : Shared) (managerSocket : Int) (os : List Occurrence),
      (start sh managerSocket).AcceptsFresh os → (start sh managerSocket).ServesReported os := by
  intro h
  have hserves := h sampleShared 4
    (accepting 4 5 ++ accepting 5 6 ++ bothReady ++ accepting 5 7) (by decide +kernel)
  revert hserves
  decide +kernel

end Pop3Server
