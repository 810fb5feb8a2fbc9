import Pop3Server.Framing
import Pop3Server.Roster

/-!
# What a session receives and what it is made to execute

Beside the server, `Tracked` keeps which session lies in which slot, what each
session has received and the lines that were taken up for it.  A session is left
alone when those lines are `sessionLines` of what it has received itself.

`add_client` sets up a slot without clearing the saved line, and
`handle_close_client` leaves in the freed slot what the session it moved had
saved there.  `sessions_apart_iff` shows that this is the only way from one
session to another.
-/

namespace Pop3Server

open Function (update)
open Splitting (rest)

/-! ### The lines of a call -/

/-- The lines that are taken up: nothing is read behind a QUIT. -/
def untilQuit : List Bytes → List Bytes
  | [] => []
  | c :: cs => if getCommandValue c = .quit then [c] else c :: untilQuit cs

theorem untilQuit_append {l : List Bytes} (h : ∀ c ∈ l, getCommandValue c ≠ .quit)
    (r : List Bytes) : untilQuit (l ++ r) = l ++ untilQuit r := by
  induction l with
  | nil => rfl
  | cons c l ih =>
    rw [List.cons_append, untilQuit, if_neg (h c (by simp)), ih fun d hd => h d (by simp [hd]),
      List.cons_append]

theorem untilQuit_of_none {l : List Bytes} (h : ∀ c ∈ l, getCommandValue c ≠ .quit) :
    untilQuit l = l := by
  have happend := untilQuit_append h []
  rw [List.append_nil] at happend
  rw [happend, untilQuit, List.append_nil]

/-- The switch returns from `handle_client` at QUIT only, and leaves the session closing. -/
theorem Exchange.quit_of_control {x : Exchange} :
    (x.step.control = .next → getCommandValue x.command ≠ .quit) ∧
      (x.step.control = .returned → getCommandValue x.command = .quit ∧
        x.step.session.clientState = .closing) := by
  by_cases hassert : x.step.control = .fault .assertion
  · rw [hassert]
    exact ⟨nofun, nofun⟩
  obtain ⟨st, hout, hstep⟩ := Exchange.outcome_of_dispatched hassert
  rw [hstep]
  generalize getCommandValue x.command = comm at hout
  generalize argument x.command = arg at hout
  cases hout with
  | refused hcomm => exact ⟨fun _ => hcomm.2.2.2, nofun⟩
  | told hcomm => exact ⟨fun _ => by rintro rfl; simp at hcomm, nofun⟩
  | configured hcomm => exact ⟨fun _ => by rintro rfl; simp at hcomm, nofun⟩
  | quitMailbox => exact ⟨nofun, fun _ => ⟨rfl, rfl⟩⟩
  | quitPlain => exact ⟨nofun, fun _ => ⟨rfl, rfl⟩⟩
  | _ => exact ⟨nofun, nofun⟩

theorem no_quit_of_passes {w : LoopState} {lines : List Bytes}
    (h : commandMachine.Passes w lines) : ∀ c ∈ lines, getCommandValue c ≠ .quit := by
  induction lines generalizing w with
  | nil => exact fun _ hc => absurd hc List.not_mem_nil
  | cons c cs ih =>
    obtain ⟨hgo, hrest⟩ := h
    intro d hd
    rcases List.mem_cons.mp hd with rfl | hd
    · exact (w.exchange d).quit_of_control.1 (stop_eq_false_iff.mp hgo)
    · exact ih hrest d hd

/-- A call takes up its lines in order and none behind a QUIT. -/
theorem commands_initial (w : LoopState) (lines : List Bytes) :
    (exchanges w lines).map (·.command) <+: untilQuit lines := by
  induction lines generalizing w with
  | nil => exact List.nil_prefix
  | cons c cs ih =>
    cases hgo : commandMachine.stop w c with
    | true =>
      rw [exchanges_cons_stop hgo, untilQuit]
      split
      · exact List.prefix_refl _
      · exact List.cons_prefix_cons.mpr ⟨rfl, List.nil_prefix⟩
    | false =>
      have hnot : getCommandValue c ≠ .quit :=
        (w.exchange c).quit_of_control.1 (stop_eq_false_iff.mp hgo)
      rw [exchanges_cons_go hgo, untilQuit, if_neg hnot]
      exact List.cons_prefix_cons.mpr ⟨rfl, ih _⟩

/-- Unless it ends the process it takes up all of them, and it returns early only on a session that
is closing. -/
theorem commands_of_no_fault {w : LoopState} {lines : List Bytes}
    (h : ∀ f, lastControl (exchanges w lines) ≠ .fault f) :
    (exchanges w lines).map (·.command) = untilQuit lines ∧
      (commandMachine.Passes w lines ∨
        (commandMachine.final w lines).session.clientState = .closing) := by
  induction lines generalizing w with
  | nil => exact ⟨rfl, .inl trivial⟩
  | cons c cs ih =>
    cases hgo : commandMachine.stop w c with
    | true =>
      rw [exchanges_cons_stop hgo] at h ⊢
      have hreturned : (w.exchange c).step.control = .returned := by
        cases hcontrol : (w.exchange c).step.control with
        | next => exact absurd hcontrol (stop_eq_true_iff.mp hgo)
        | returned => rfl
        | fault f => exact absurd hcontrol (h f)
      obtain ⟨hquit, hclosing⟩ : getCommandValue c = .quit ∧ _ :=
        (w.exchange c).quit_of_control.2 hreturned
      rw [untilQuit, if_pos hquit, Machine.final_cons_stop _ hgo]
      exact ⟨rfl, .inr hclosing⟩
    | false =>
      have hnot : getCommandValue c ≠ .quit :=
        (w.exchange c).quit_of_control.1 (stop_eq_false_iff.mp hgo)
      have hrest : ∀ f, lastControl (exchanges (commandMachine.next w c) cs) ≠ .fault f := by
        intro f hf
        apply h f
        rw [exchanges_cons_go hgo]
        cases hx : exchanges (commandMachine.next w c) cs with
        | nil => rw [hx] at hf; cases hf
        | cons y ys => rw [hx] at hf; exact hf
      obtain ⟨hcommands, hend⟩ := ih hrest
      rw [exchanges_cons_go hgo, untilQuit, if_neg hnot, List.map_cons, hcommands,
        Machine.final_cons_go _ hgo]
      exact ⟨rfl, hend.imp_left fun hp => ⟨hgo, hp⟩⟩

/-! ### What a session has received -/

def Recv.delivered : Recv → List Delivery
  | .data d => [d]
  | _ => []

def buffers (ds : List Delivery) : List Bytes := ds.map fun d => cstr d.bytes

/-- The lines a session that receives `ds` is made to execute, if it is left alone. -/
def sessionLines (ds : List Delivery) : List Bytes := untilQuit (callsLines [] (buffers ds))

def sessionRest (ds : List Delivery) : Bytes := callsRest [] (buffers ds)

/-- `recv` does not fail, and a disconnect leaves nothing in the buffer to run on. -/
def Occurrence.Plain (o : Occurrence) : Prop :=
  match o.recv with
  | .data _ => True
  | .closed => cstr o.stale = []
  | _ => False

theorem callsLines_append (saved : Bytes) (ds es : List Bytes) :
    callsLines saved (ds ++ es) = callsLines saved ds ++ callsLines (callsRest saved ds) es := by
  induction ds generalizing saved with
  | nil => rfl
  | cons d ds ih => rw [List.cons_append, callsLines, callsLines, callsRest, ih, List.append_assoc]

theorem callsRest_append (saved : Bytes) (ds es : List Bytes) :
    callsRest saved (ds ++ es) = callsRest (callsRest saved ds) es := by
  induction ds generalizing saved with
  | nil => rfl
  | cons d ds ih => exact ih _

theorem callsLines_concat (ds : List Delivery) (d : Delivery) :
    callsLines [] (buffers (ds ++ [d])) =
      callsLines [] (buffers ds) ++ callLines (sessionRest ds) (cstr d.bytes) := by
  rw [buffers, List.map_append, callsLines_append]
  simp only [List.map_cons, List.map_nil, callsLines, List.append_nil]
  rfl

theorem sessionRest_concat (ds : List Delivery) (d : Delivery) :
    sessionRest (ds ++ [d]) = rest LF (cstr d.bytes) := by
  rw [sessionRest, buffers, List.map_append, callsRest_append]
  rfl

/-- A call on a session that has received `ds`: the lines it takes up come from what the session
has received, and a session that stays open has had all of them taken up. -/
theorem call_of_saved {sv : Server} {slot : Nat} {o : Occurrence} (ho : o.Plain)
    {ds : List Delivery} (hsaved : (sv.clients slot).recvBuffer = sessionRest ds)
    (hnoquit : ∀ c ∈ callsLines [] (buffers ds), getCommandValue c ≠ .quit) :
    let r := sv.call slot o
    let ds' := ds ++ o.recv.delivered
    sessionLines ds ++ r.exchanges.map (·.command) <+: sessionLines ds' ∧
      ((∀ f, r.control ≠ .fault f) →
        sessionLines ds ++ r.exchanges.map (·.command) = sessionLines ds' ∧
          (Server.closes r.client.session.clientState = false →
            r.client.recvBuffer = sessionRest ds' ∧
              ∀ c ∈ callsLines [] (buffers ds'), getCommandValue c ≠ .quit)) := by
  intro r ds'
  have hr : r = handleClient o.env sv.shared (sv.clients slot) o.recv o.stale := rfl
  have hds' : ds' = ds ++ o.recv.delivered := rfl
  unfold Occurrence.Plain at ho
  rw [sessionLines, untilQuit_of_none hnoquit]
  cases hrecv : o.recv with
  | data d =>
    rw [hrecv] at hr hds'
    let w : LoopState := ⟨o.env, sv.shared, (sv.clients slot).session⟩
    let lines := callLines (sessionRest ds) (cstr d.bytes)
    have hscan : r = scan w (sessionRest ds) [] (cstr d.bytes) := by rw [hr, ← hsaved]; rfl
    have hlines : callsLines [] (buffers ds') = callsLines [] (buffers ds) ++ lines := by
      rw [hds']
      exact callsLines_concat ds d
    rw [sessionLines, hlines, untilQuit_append hnoquit, hscan, scan_exchanges]
    refine ⟨(List.prefix_append_right_inj _).mpr (commands_initial w lines), fun hcontrol => ?_⟩
    rw [scan_control] at hcontrol
    obtain ⟨hcommands, hend⟩ := commands_of_no_fault hcontrol
    refine ⟨by rw [hcommands], fun hopen => ?_⟩
    have hpass : commandMachine.Passes w lines := by
      apply hend.resolve_right
      intro hclosing
      rw [scan_session, hclosing] at hopen
      cases hopen
    rw [scan_of_passes _ hpass]
    refine ⟨hds' ▸ (sessionRest_concat ds d).symm, fun c hc => ?_⟩
    rcases List.mem_append.mp hc with hc | hc
    · exact hnoquit c hc
    · exact no_quit_of_passes hpass c hc
  | closed =>
    rw [hrecv] at ho hr hds'
    have hnil : ds' = ds := by rw [hds']; exact List.append_nil ds
    have hstale : cstr o.stale = [] := ho
    have hscan : r = ⟨[], ⟨{ (sv.clients slot).session with clientState := .closing }, []⟩,
        sv.shared, .next⟩ := by
      rw [hr, handleClient, readSocketBuffer]
      simp only [hstale]
      rfl
    rw [hnil, sessionLines, untilQuit_of_none hnoquit, hscan]
    exact ⟨by simp, fun _ => ⟨by simp, fun hopen => by cases hopen⟩⟩
  | again => rw [hrecv] at ho; exact ho.elim
  | failed => rw [hrecv] at ho; exact ho.elim

/-! ### The sessions of a run -/

/-- The server, with the session in each slot and what became of every session so far. -/
structure Tracked where
  server : Server
  admitted : Nat
  owner : Nat → Nat
  received : Nat → List Delivery
  lines : Nat → List Bytes

/-- What a step adds to the record of the sessions. -/
def Tracked.record (g : Tracked) (o : Occurrence) : ServerEvent → Server → Tracked
  | .quiet, sv => { g with server := sv }
  | .opened slot, sv =>
    { g with server := sv, admitted := g.admitted + 1, owner := update g.owner slot g.admitted }
  | .served slot xs closed, sv =>
    let s := g.owner slot
    { g with
      server := sv
      owner := if closed then update g.owner slot (g.owner (g.server.clientCount - 1)) else g.owner
      received := update g.received s (g.received s ++ o.recv.delivered)
      lines := update g.lines s (g.lines s ++ xs.map (·.command)) }

def trackedMachine : Machine Tracked Occurrence where
  next g o := g.record o (g.server.step o).event (g.server.step o).server
  stop g o := (g.server.step o).halted

def Tracked.start (sh : Shared) (managerSocket : Int) : Tracked :=
  ⟨.start sh managerSocket, 0, fun _ => 0, fun _ => [], fun _ => []⟩

/-- No session is set up in a slot that still holds a partial line. -/
def Tracked.TakesCleanSlot (g : Tracked) (o : Occurrence) : Prop :=
  ∀ slot ∈ (g.server.step o).event.opened?, (g.server.clients slot).recvBuffer = []

instance (g : Tracked) (o : Occurrence) : Decidable (g.TakesCleanSlot o) :=
  inferInstanceAs (Decidable (∀ slot ∈ (g.server.step o).event.opened?, _ = _))

/-- What holds while only clean slots are taken. -/
structure Tracked.Inv (g : Tracked) : Prop where
  saved : ∀ k < g.server.clientCount,
    (g.server.clients k).recvBuffer = sessionRest (g.received (g.owner k))
  going : ∀ k < g.server.clientCount, ∀ c ∈ callsLines [] (buffers (g.received (g.owner k))),
    getCommandValue c ≠ .quit
  lines : ∀ s, g.lines s = sessionLines (g.received s)
  known : ∀ k < g.server.clientCount, g.owner k < g.admitted
  distinct : ∀ k < g.server.clientCount, ∀ k' < g.server.clientCount,
    g.owner k = g.owner k' → k = k'
  unknown : ∀ s, g.admitted ≤ s → g.received s = []

/-- The sessions and their slots, without what they have received. -/
def Tracked.roster (g : Tracked) : Roster := ⟨g.admitted, g.owner⟩

theorem Tracked.Inv.roster {g : Tracked} (h : g.Inv) : g.roster.Inv g.server :=
  ⟨h.known, h.distinct⟩

theorem Tracked.inv_start (sh : Shared) (managerSocket : Int) :
    (Tracked.start sh managerSocket).Inv where
  saved k hk := absurd hk (Nat.not_lt_zero k)
  going k hk := absurd hk (Nat.not_lt_zero k)
  lines _ := rfl
  known k hk := absurd hk (Nat.not_lt_zero k)
  distinct k hk := absurd hk (Nat.not_lt_zero k)
  unknown _ _ := rfl

section Step

variable {g : Tracked} (h : g.Inv) {o : Occurrence} (ho : o.Plain)
include h ho

theorem Tracked.Inv.served {slot : Nat} (hslot : slot < g.server.clientCount)
    (hcontrol : ∀ f, (g.server.call slot o).control ≠ .fault f) :
    let s := g.owner slot
    let received := update g.received s (g.received s ++ o.recv.delivered)
    let lines := update g.lines s
      (g.lines s ++ (g.server.call slot o).exchanges.map (·.command))
    (∀ t, lines t = sessionLines (received t)) ∧ (∀ t, g.admitted ≤ t → received t = []) ∧
      (∀ k < g.server.clientCount, k ≠ slot → received (g.owner k) = g.received (g.owner k)) := by
  intro s received lines
  obtain ⟨-, hcall⟩ := call_of_saved ho (h.saved slot hslot) (h.going slot hslot)
  obtain ⟨hlines, -⟩ := hcall hcontrol
  refine ⟨?_, ?_, ?_⟩
  · intro t
    by_cases hts : t = s
    · subst hts
      simp only [lines, received, Function.update_self]
      rw [h.lines s]
      exact hlines
    · simp only [lines, received, Function.update_of_ne hts, h.lines t]
  · intro t ht
    have hts : t ≠ s := by
      have := h.known slot hslot
      omega
    simp only [received, Function.update_of_ne hts, h.unknown t ht]
  · intro k hk hne
    have hks : g.owner k ≠ s := fun he => hne (h.distinct k hk slot hslot he)
    simp only [received, Function.update_of_ne hks]

omit ho in
/-- A session is set up in a clean slot. -/
theorem Tracked.Inv.opened {sv : Server} {session : Session}
    (hempty : (g.server.clients g.server.clientCount).recvBuffer = [])
    (hclients : sv.clients = update g.server.clients g.server.clientCount
      ⟨session, (g.server.clients g.server.clientCount).recvBuffer⟩)
    (hcount : sv.clientCount = g.server.clientCount + 1) :
    (g.record o (.opened g.server.clientCount) sv).Inv := by
  have hnone := h.unknown g.admitted (Nat.le_refl _)
  have hself : update g.owner g.server.clientCount g.admitted g.server.clientCount = g.admitted :=
    Function.update_self ..
  have hold : ∀ k ≠ g.server.clientCount,
      update g.owner g.server.clientCount g.admitted k = g.owner k :=
    fun k hk => Function.update_of_ne hk ..
  constructor
  case lines => exact h.lines
  case unknown =>
    intro s hs
    exact h.unknown s (Nat.le_of_succ_le hs)
  case saved =>
    intro k hk
    simp only [Tracked.record, hcount] at hk ⊢
    rw [hclients]
    by_cases hlast : k = g.server.clientCount
    · rw [hlast, Function.update_self, hself, hnone]
      exact hempty
    · rw [Function.update_of_ne hlast, hold k hlast]
      exact h.saved k (by omega)
  case going =>
    intro k hk
    simp only [Tracked.record, hcount] at hk ⊢
    by_cases hlast : k = g.server.clientCount
    · rw [hlast, hself, hnone]
      intro c hc
      cases hc
    · rw [hold k hlast]
      exact h.going k (by omega)
  case known => exact (h.roster.opened hcount).known
  case distinct => exact (h.roster.opened hcount).distinct

/-- A session is served and stays open. -/
theorem Tracked.Inv.stayed {sv : Server} {slot : Nat} (hslot : slot < g.server.clientCount)
    (hcontrol : ∀ f, (g.server.call slot o).control ≠ .fault f)
    (hopen : Server.closes (g.server.call slot o).client.session.clientState = false)
    (hclients : sv.clients = update g.server.clients slot (g.server.call slot o).client)
    (hcount : sv.clientCount = g.server.clientCount) :
    (g.record o (.served slot (g.server.call slot o).exchanges false) sv).Inv := by
  obtain ⟨hlines, hunknown, hothers⟩ := h.served ho hslot hcontrol
  obtain ⟨hsaved, hgoing⟩ :=
    ((call_of_saved ho (h.saved slot hslot) (h.going slot hslot)).2 hcontrol).2 hopen
  constructor
  case lines => exact hlines
  case unknown => exact hunknown
  case known => exact (h.roster.of_count hcount).known
  case distinct => exact (h.roster.of_count hcount).distinct
  case saved =>
    intro k hk
    simp only [Tracked.record, hcount, hclients] at hk ⊢
    by_cases hks : k = slot
    · subst hks
      simp only [Bool.false_eq_true, if_false, Function.update_self]
      exact hsaved
    · have hother := hothers k hk hks
      simp only [Bool.false_eq_true, if_false, Function.update_of_ne hks]
      rw [hother]
      exact h.saved k hk
  case going =>
    intro k hk
    simp only [Tracked.record, hcount] at hk ⊢
    by_cases hks : k = slot
    · subst hks
      simp only [Bool.false_eq_true, if_false, Function.update_self]
      exact hgoing
    · have hother := hothers k hk hks
      simp only [Bool.false_eq_true, if_false]
      rw [hother]
      exact h.going k hk

/-- A session is served and closed; the last one takes its slot. -/
theorem Tracked.Inv.closed {sv : Server} {slot : Nat} (hslot : slot < g.server.clientCount)
    (hcontrol : ∀ f, (g.server.call slot o).control ≠ .fault f)
    (hclients : ∀ k < g.server.clientCount - 1, sv.clients k =
      if k = slot then g.server.clients (g.server.clientCount - 1) else g.server.clients k)
    (hcount : sv.clientCount = g.server.clientCount - 1) :
    (g.record o (.served slot (g.server.call slot o).exchanges true) sv).Inv := by
  obtain ⟨hlines, hunknown, hothers⟩ := h.served ho hslot hcontrol
  -- what is in slot `k` now was in slot `origin k` before
  let origin : Nat → Nat := fun k => if k = slot then g.server.clientCount - 1 else k
  have horigin : ∀ k < g.server.clientCount - 1,
      origin k < g.server.clientCount ∧ origin k ≠ slot := by
    intro k hk
    simp only [origin]
    split <;> omega
  have hclient : ∀ k < g.server.clientCount - 1, sv.clients k = g.server.clients (origin k) := by
    intro k hk
    rw [hclients k hk]
    simp only [origin]
    split <;> rfl
  have howner : ∀ k < g.server.clientCount - 1,
      update g.owner slot (g.owner (g.server.clientCount - 1)) k = g.owner (origin k) := by
    intro k hk
    rw [Function.update_apply]
    simp only [origin]
    split <;> rfl
  constructor
  case lines => exact hlines
  case unknown => exact hunknown
  case saved =>
    intro k hk
    simp only [Tracked.record, hcount, if_true] at hk ⊢
    obtain ⟨hlt, hne⟩ := horigin k hk
    have hother := hothers (origin k) hlt hne
    rw [hclient k hk, howner k hk, hother]
    exact h.saved _ hlt
  case going =>
    intro k hk
    simp only [Tracked.record, hcount, if_true] at hk ⊢
    obtain ⟨hlt, hne⟩ := horigin k hk
    have hother := hothers (origin k) hlt hne
    rw [howner k hk, hother]
    exact h.going _ hlt
  case known => exact (h.roster.closed hslot hcount []).known
  case distinct => exact (h.roster.closed hslot hcount []).distinct

/-- **A step that takes no dirty slot keeps the sessions apart.** -/
theorem Tracked.Inv.next (hclean : g.TakesCleanSlot o) (hgo : trackedMachine.stop g o = false) :
    (trackedMachine.next g o).Inv := by
  have hnext : trackedMachine.next g o =
      g.record o (g.server.step o).event (g.server.step o).server := rfl
  rw [hnext]
  cases g.server.step_outcome o with
  | quiet hevent hclients hcount =>
    rw [hevent]
    refine ⟨?_, ?_, h.lines, ?_, ?_, h.unknown⟩
    · simpa only [Tracked.record, hclients, hcount] using h.saved
    · simpa only [Tracked.record, hcount] using h.going
    · simpa only [Tracked.record, hcount] using h.known
    · simpa only [Tracked.record, hcount] using h.distinct
  | opened fd isManager ip _ hevent hclients hcount =>
    have hempty := hclean g.server.clientCount (by rw [hevent]; rfl)
    rw [hevent]
    exact h.opened hempty hclients hcount
  | faulted slot hslot hstop hevent => cases hstop.symm.trans hgo
  | stayed slot hslot _ hcontrol hopen hevent hclients hcount =>
    rw [hevent]
    exact h.stayed ho hslot hcontrol hopen hclients hcount
  | closed slot hslot _ hcontrol _ hevent hclients hcount =>
    rw [hevent]
    exact h.closed ho hslot hcontrol hclients hcount

theorem Tracked.Inv.own_of_halted (hstop : trackedMachine.stop g o = true) (t : Nat) :
    (trackedMachine.next g o).lines t <+: sessionLines ((trackedMachine.next g o).received t) := by
  have hnext : trackedMachine.next g o =
      g.record o (g.server.step o).event (g.server.step o).server := rfl
  rw [hnext]
  cases g.server.step_outcome o with
  | quiet hevent =>
    rw [hevent]
    exact h.lines t ▸ List.prefix_refl _
  | faulted slot hslot _ hevent =>
    rw [hevent]
    simp only [Tracked.record]
    by_cases hts : t = g.owner slot
    · subst hts
      rw [Function.update_self, Function.update_self, h.lines]
      exact (call_of_saved ho (h.saved slot hslot) (h.going slot hslot)).1
    · refine ⟨[], ?_⟩
      rw [Function.update_of_ne hts, Function.update_of_ne hts, h.lines, List.append_nil]
  | opened fd isManager ip hgo => cases hgo.symm.trans hstop
  | stayed slot hslot hgo => cases hgo.symm.trans hstop
  | closed slot hslot hgo => cases hgo.symm.trans hstop

end Step

/-! ### Runs -/

/-- No connection of the run is accepted into a slot that still holds a partial line. -/
def TakesCleanSlots (g : Tracked) (os : List Occurrence) : Prop :=
  ∀ x ∈ trackedMachine.trace g os, x.1.TakesCleanSlot x.2

/-- The sessions of a run are kept apart: every line taken up for a session comes from what this
session has sent; a run that goes on has taken up all of them; a new session starts with an empty
saved line; and another run in which a session sends the same has the same lines for it. -/
structure SessionsApart (g : Tracked) (os : List Occurrence) : Prop where
  own : ∀ pre, pre <+: os → ∀ s, (trackedMachine.final g pre).lines s <+:
    sessionLines ((trackedMachine.final g pre).received s)
  all : ∀ pre, pre <+: os → trackedMachine.Passes g pre → ∀ s,
    (trackedMachine.final g pre).lines s = sessionLines ((trackedMachine.final g pre).received s)
  fresh : ∀ x ∈ trackedMachine.trace g os, ∀ slot ∈ (x.1.server.step x.2).event.opened?,
    ((x.1.server.step x.2).server.clients slot).recvBuffer = []
  same : trackedMachine.Passes g os → ∀ os', (∀ o ∈ os', o.Plain) → TakesCleanSlots g os' →
    trackedMachine.Passes g os' → ∀ s,
      (trackedMachine.final g os').received s = (trackedMachine.final g os).received s →
      (trackedMachine.final g os').lines s = (trackedMachine.final g os).lines s

theorem inv_of_takesCleanSlots {g : Tracked} (hg : g.Inv) {os : List Occurrence}
    (hos : ∀ o ∈ os, o.Plain) (hclean : TakesCleanSlots g os) :
    ∀ pre, pre <+: os → trackedMachine.Passes g pre → (trackedMachine.final g pre).Inv := by
  apply Machine.final_induction _ _ hg
  intro pre o hinitial hpass hinv hgo
  have hmem : (trackedMachine.final g pre, o) ∈ trackedMachine.trace g os :=
    (Machine.mem_trace_iff _).mpr ⟨pre, hinitial, hpass, rfl⟩
  exact hinv.next (hos o (hinitial.subset (by simp))) (hclean _ hmem) hgo

theorem opened_recvBuffer {sv : Server} {o : Occurrence} {slot : Nat}
    (h : slot ∈ (sv.step o).event.opened?) :
    ((sv.step o).server.clients slot).recvBuffer = (sv.clients slot).recvBuffer := by
  cases sv.step_outcome o with
  | opened fd isManager ip hgo hevent hclients =>
    rw [hevent] at h
    obtain rfl := Option.some.inj h
    rw [hclients, Function.update_self]
  | quiet hevent => rw [hevent] at h; cases h
  | faulted slot hslot hstop hevent => rw [hevent] at h; cases h
  | stayed slot hslot hgo hcontrol hopen hevent => rw [hevent] at h; cases h
  | closed slot hslot hgo hcontrol hclosed hevent => rw [hevent] at h; cases h

/-- **The sessions of a run are kept apart exactly when no connection is accepted into a slot that
still holds a partial line.** -/
theorem sessions_apart_iff (sh : Shared) (managerSocket : Int) {os : List Occurrence}
    (hos : ∀ o ∈ os, o.Plain) :
    SessionsApart (.start sh managerSocket) os ↔
      TakesCleanSlots (.start sh managerSocket) os := by
  have hstart := Tracked.inv_start sh managerSocket
  constructor
  · intro h x hx slot hevent
    rw [← opened_recvBuffer hevent]
    exact h.fresh x hx slot hevent
  · intro hclean
    have hinv := inv_of_takesCleanSlots hstart hos hclean
    refine ⟨fun pre hinitial s => ?_, fun pre hinitial hpass => (hinv pre hinitial hpass).lines,
      fun x hx slot hevent => ?_, fun hpass os' hos' hclean' hpass' s hs => ?_⟩
    · rcases trackedMachine.passes_or_halts (.start sh managerSocket) pre with
        hpass | ⟨before, o, hbefore, hpass, hstop, hfinal⟩
      · exact ⟨[], by rw [(hinv pre hinitial hpass).lines s, List.append_nil]⟩
      · have hparts := hbefore.trans hinitial
        have ho := hos o (hparts.subset (by simp))
        rw [hfinal]
        exact (hinv before ((List.prefix_append _ _).trans hparts) hpass).own_of_halted ho hstop s
    · rw [opened_recvBuffer hevent]
      exact hclean x hx slot hevent
    · have hlines := (hinv os (List.prefix_refl _) hpass).lines s
      have hlines' := (inv_of_takesCleanSlots hstart hos' hclean' os' (List.prefix_refl _)
        hpass').lines s
      rw [hlines, hlines', hs]

/-! ### Three clients -/

theorem plain_roundOf {turns : Nat} {fd : Int} {accepted : Option (Int × Bytes)} {d : Delivery} :
    ∀ o ∈ roundOf turns fd accepted d, o.Plain := by
  intro o ho
  rw [List.eq_of_mem_replicate ho]
  trivial

theorem quit_fits : str "QUIT\r\n" ≠ [] ∧ (str "QUIT\r\n").length < BUFFER_SIZE := by decide

/-- Two clients; the second one leaves the first bytes of a line behind, and the first one quits. -/
def twoClients : List Occurrence :=
  accepting 4 5 ++ accepting 5 6 ++ roundOf 5 6 none (delivery "QU" (by decide)) ++
    roundOf 5 5 none (delivery "QUIT\r\n" quit_fits)

theorem plain_twoClients : ∀ o ∈ twoClients, o.Plain := by
  intro o ho
  simp only [twoClients, accepting, List.mem_append] at ho
  rcases ho with ((ho | ho) | ho) | ho <;> exact plain_roundOf o ho

theorem sessions_apart_two : SessionsApart (.start sampleShared 4) twoClients :=
  (sessions_apart_iff sampleShared 4 plain_twoClients).mpr (by unfold TakesCleanSlots; decide +kernel)

/-- A third client is accepted where the second one was, and the bytes it sends are taken for the
end of the line left there. -/
theorem sessions_third_client :
    ¬ ∀ (sh : Shared) (managerSocket : Int) (os : List Occurrence), (∀ o ∈ os, o.Plain) →
      SessionsApart (.start sh managerSocket) os := by
  intro h
  have hplain : ∀ o ∈ twoClients ++ accepting 5 7 ++
      roundOf 5 7 none (delivery "IT\r\n" (by decide)), o.Plain := by
    intro o ho
    simp only [accepting, List.mem_append] at ho
    rcases ho with (ho | ho) | ho
    · exact plain_twoClients o ho
    · exact plain_roundOf o ho
    · exact plain_roundOf o ho
  have hown := (h sampleShared 4 _ hplain).own _ (List.prefix_refl _) 2
  exact absurd hown (by decide +kernel)

end Pop3Server
