import Pop3Server.SlotReuse
import Pop3Server.Traffic
import Pop3Server.Transitions

/-!
# The service

What the server is for, without the table and the poll array: sessions that have
a number each, come and go, and in between are served one line at a time in any
order.  A session starts as its port says, its lines are dispatched on the
session itself and on what all of them share, and it takes no line after one
that has not returned to the loop.

`refines` shows that a run of the server is a run of the service: whatever the
slots do, each session is dispatched on its own state.  `session_lives` is what
this says of one session.
-/

namespace Pop3Server

open Function (update)

/-- What happens to a session. -/
inductive SessionEvent where
  | opened (fd : Int) (isManager : Bool) (ip : Bytes)
  | line (x : Exchange)
  | hangup
  | left

def SessionEvent.exchange? : SessionEvent → Option Exchange
  | .line x => some x
  | _ => none

/-- The lines of a sequence of events. -/
def linesOf (as : List SessionEvent) : List Exchange := as.filterMap SessionEvent.exchange?

inductive Phase where
  | absent
  /-- `reading` is false once a line has ended the call for good -/
  | present (session : Session) (reading : Bool)
  | departed

/-- The life of one session.  What `maildir` a session begins with is left open: no line reads it
before a login has replaced it. -/
inductive LifeStep : Phase → SessionEvent → Phase → Prop
  | opened (fd : Int) (isManager : Bool) (ip : Bytes) (maildir : Option Maildir) :
      LifeStep .absent (.opened fd isManager ip)
        (.present (newSession fd isManager ip maildir) true)
  | line (x : Exchange) :
      LifeStep (.present x.session true) (.line x)
        (.present x.step.session (x.step.control = .next))
  | hangup (s : Session) :
      LifeStep (.present s true) .hangup (.present { s with clientState := .closing } true)
  | left (s : Session) (reading : Bool) (hcloses : Server.closes s.clientState = true) :
      LifeStep (.present s reading) .left .departed

def life : LTS Phase SessionEvent := ⟨LifeStep⟩

structure Service where
  shared : Shared
  admitted : Nat
  population : Nat
  up : Bool
  phase : Nat → Phase

namespace Service

def start (sh : Shared) : Service := ⟨sh, 0, 0, true, fun _ => .absent⟩

def goesOn (x : Exchange) : Bool :=
  match x.step.control with
  | .fault _ => false
  | _ => true

theorem goesOn_of_no_fault {x : Exchange} (h : ∀ f, x.step.control ≠ .fault f) :
    goesOn x = true := by
  unfold goesOn
  split
  · next f hf => exact absurd hf (h f)
  · rfl

/-- The service once the session `n` has been dispatched on a line. -/
def dispatched (v : Service) (n : Nat) (x : Exchange) : Service :=
  { v with
    shared := x.step.shared
    up := goesOn x
    phase := update v.phase n (.present x.step.session (x.step.control = .next)) }

/-- The service once the peer of the session `n` has closed the connection. -/
def hungUp (v : Service) (n : Nat) (s : Session) : Service :=
  { v with phase := update v.phase n (.present { s with clientState := .closing } true) }

inductive Step (v : Service) : Nat × SessionEvent → Service → Prop
  | opened {fd isManager ip maildir} (hup : v.up = true) (hroom : v.population < MAX_CLIENTS)
      (hnew : v.phase v.admitted = .absent) :
      Step v (v.admitted, .opened fd isManager ip)
        { v with
          shared := { v.shared with
            metrics := Server.countConnection v.shared.metrics v.population }
          admitted := v.admitted + 1
          population := v.population + 1
          phase := update v.phase v.admitted (.present (newSession fd isManager ip maildir) true) }
  | line {n x} (hup : v.up = true) (hphase : v.phase n = .present x.session true)
      (hshared : x.shared = v.shared) :
      Step v (n, .line x) (v.dispatched n x)
  | hangup {n s} (hup : v.up = true) (hphase : v.phase n = .present s true) :
      Step v (n, .hangup) (v.hungUp n s)
  | left {n s reading} (hup : v.up = true) (hphase : v.phase n = .present s reading)
      (hcloses : Server.closes s.clientState = true) :
      Step v (n, .left)
        { v with population := v.population - 1, phase := update v.phase n .departed }

def system : LTS Service (Nat × SessionEvent) := ⟨Step⟩

theorem Step.life {v v' : Service} {n : Nat} {a : SessionEvent} (h : v.Step (n, a) v') :
    LifeStep (v.phase n) a (v'.phase n) := by
  cases h with
  | opened _ _ hnew =>
    simp only [Function.update_self]
    rw [hnew]
    exact .opened _ _ _ _
  | line _ hphase _ =>
    simp only [dispatched, Function.update_self]
    rw [hphase]
    exact .line _
  | hangup _ hphase =>
    simp only [hungUp, Function.update_self]
    rw [hphase]
    exact .hangup _
  | left _ hphase hcloses =>
    simp only [Function.update_self]
    rw [hphase]
    exact .left _ _ hcloses

theorem Step.frame {v v' : Service} {n : Nat} {a : SessionEvent} (h : v.Step (n, a) v') :
    ∀ k ≠ n, v'.phase k = v.phase k := by
  intro k hk
  cases h with
  | opened _ _ _ => exact Function.update_of_ne hk ..
  | line _ _ _ => exact Function.update_of_ne hk ..
  | hangup _ _ => exact Function.update_of_ne hk ..
  | left _ _ _ => exact Function.update_of_ne hk ..

/-- In a run of the service every session leads its own life. -/
theorem lives {v v' : Service} {as : List (Nat × SessionEvent)} (h : system.Run v as v') (n : Nat) :
    life.Run (v.phase n) (LTS.thread n as) (v'.phase n) :=
  h.project Service.phase Step.life Step.frame n

/-! ### The lines of a call -/

/-- The service after a call has run `lines` for the session `n`. -/
structure After (v v' : Service) (n : Nat) (w : LoopState) (lines : List Bytes) : Prop where
  shared : v'.shared = (commandMachine.final w lines).shared
  admitted : v'.admitted = v.admitted
  population : v'.population = v.population
  up : (∀ f, lastControl (exchanges w lines) ≠ .fault f) → v'.up = true
  own : v'.phase n = .present (commandMachine.final w lines).session (commandMachine.Passes w lines)
  others : ∀ k ≠ n, v'.phase k = v.phase k

/-- A line that the switch has come through is followed by the rest of the call. -/
theorem lastControl_cons {x : Exchange} (hx : x.step.control = .next) (xs : List Exchange) :
    lastControl (x :: xs) = lastControl xs := by
  cases xs with
  | nil => exact hx
  | cons y ys => rfl

/-- **The service follows the lines of a call.** -/
theorem run_lines {v : Service} {n : Nat} {w : LoopState} (lines : List Bytes) (hup : v.up = true)
    (hphase : v.phase n = .present w.session true) (hshared : v.shared = w.shared) :
    ∃ v', system.Run v ((exchanges w lines).map fun x => (n, .line x)) v' ∧
      v.After v' n w lines := by
  induction lines generalizing v w with
  | nil => exact ⟨v, .nil, hshared, rfl, rfl, fun _ => hup, hphase, fun _ _ => rfl⟩
  | cons c cs ih =>
    have hline : v.Step (n, .line (w.exchange c)) (v.dispatched n (w.exchange c)) :=
      .line hup hphase hshared.symm
    cases hgo : commandMachine.stop w c with
    | true =>
      have hcontrol := stop_eq_true_iff.mp hgo
      refine ⟨v.dispatched n (w.exchange c), ?_, ?_⟩
      · rw [exchanges_cons_stop hgo]
        exact .single hline
      constructor
      · rw [Machine.final_cons_stop _ hgo]
        rfl
      · rfl
      · rfl
      · intro hgoes
        rw [exchanges_cons_stop hgo] at hgoes
        exact goesOn_of_no_fault hgoes
      · have hpass : ¬ commandMachine.Passes w (c :: cs) :=
          fun h => Bool.false_ne_true (h.1.symm.trans hgo)
        simp only [dispatched, Function.update_self]
        rw [Machine.final_cons_stop _ hgo, decide_eq_false hcontrol, decide_eq_false hpass]
        rfl
      · intro k hk
        exact Function.update_of_ne hk ..
    | false =>
      have hcontrol := stop_eq_false_iff.mp hgo
      have hown : (v.dispatched n (w.exchange c)).phase n =
          .present (commandMachine.next w c).session true := by
        simp only [dispatched, Function.update_self]
        rw [decide_eq_true hcontrol]
        rfl
      have hgoes : (v.dispatched n (w.exchange c)).up = true :=
        goesOn_of_no_fault fun f hf => by cases hcontrol.symm.trans hf
      obtain ⟨v', hrun, hafter⟩ := ih hgoes hown rfl
      refine ⟨v', ?_, ?_⟩
      · rw [exchanges_cons_go hgo]
        exact .cons hline hrun
      constructor
      · rw [Machine.final_cons_go _ hgo]
        exact hafter.shared
      · exact hafter.admitted
      · exact hafter.population
      · rw [exchanges_cons_go hgo, lastControl_cons hcontrol]
        exact hafter.up
      · rw [Machine.final_cons_go _ hgo, hafter.own]
        simp [Machine.Passes, hgo]
      · intro k hk
        rw [hafter.others k hk]
        exact Function.update_of_ne hk ..

/-- The session is closing before the loop runs on what is left in the buffer. -/
def hangups : Recv → List SessionEvent
  | .closed => [.hangup]
  | _ => []

/-- What a call does to the session it is made for. -/
def callEvents (r : CallResult) (recv : Recv) : List SessionEvent :=
  hangups recv ++ r.exchanges.map .line

/-- The service after a call. -/
structure Called (v v' : Service) (n : Nat) (r : CallResult) : Prop where
  shared : v'.shared = r.shared
  admitted : v'.admitted = v.admitted
  population : v'.population = v.population
  up : (∀ f, r.control ≠ .fault f) → v'.up = true
  own : ∃ reading, v'.phase n = .present r.client.session reading ∧
    ((∀ f, r.control ≠ .fault f) → Server.closes r.client.session.clientState = false →
      reading = true)
  others : ∀ k ≠ n, v'.phase k = v.phase k

theorem After.called {v v' : Service} {n : Nat} {w : LoopState} {saved buff : Bytes}
    (h : v.After v' n w (callLines saved buff)) : v.Called v' n (scan w saved [] buff) := by
  constructor
  · rw [scan_shared]
    exact h.shared
  · exact h.admitted
  · exact h.population
  · rw [scan_control]
    exact h.up
  · rw [scan_control, scan_session]
    refine ⟨_, h.own, fun hcontrol hopen => ?_⟩
    have hpass := (commands_of_no_fault hcontrol).2.resolve_right fun hclosing => by
      rw [hclosing] at hopen
      cases hopen
    exact decide_eq_true hpass
  · exact h.others

/-- **The service follows a call of `handle_client`.** -/
theorem run_call {v : Service} {sv : Server} {n slot : Nat} (o : Occurrence) (hup : v.up = true)
    (hphase : v.phase n = .present (sv.clients slot).session true)
    (hshared : v.shared = sv.shared) :
    ∃ v', system.Run v ((callEvents (sv.call slot o) o.recv).map (Prod.mk n)) v' ∧
      v.Called v' n (sv.call slot o) := by
  have hrun : ∀ {v : Service} {s : Session}, v.up = true → v.phase n = .present s true →
      v.shared = sv.shared → ∀ buff, ∃ v', system.Run v
        ((scan ⟨o.env, sv.shared, s⟩ (sv.clients slot).recvBuffer [] buff).exchanges.map
          fun x => (n, .line x)) v' ∧
        v.Called v' n (scan ⟨o.env, sv.shared, s⟩ (sv.clients slot).recvBuffer [] buff) := by
    intro v s hup hphase hshared buff
    obtain ⟨v', hlines, hafter⟩ := run_lines (w := ⟨o.env, sv.shared, s⟩)
      (callLines (sv.clients slot).recvBuffer buff) hup hphase hshared
    rw [← scan_exchanges] at hlines
    exact ⟨v', hlines, hafter.called⟩
  unfold Server.call handleClient callEvents
  cases hrecv : o.recv with
  | closed =>
    -- the session hangs up first, and the lines are run on the closing session
    obtain ⟨v', hlines, hcalled⟩ := hrun (v := v.hungUp n (sv.clients slot).session) hup
      (Function.update_self ..) hshared (cstr o.stale)
    refine ⟨v', ?_, ?_⟩
    · rw [List.map_append, List.map_map]
      exact .cons (.hangup hup hphase) hlines
    · refine ⟨hcalled.shared, hcalled.admitted, hcalled.population, hcalled.up, hcalled.own, ?_⟩
      intro k hk
      rw [hcalled.others k hk]
      exact Function.update_of_ne hk ..
  | data d =>
    simp only [hangups, List.nil_append, List.map_map]
    exact hrun hup hphase hshared (cstr d.bytes)
  | again =>
    simp only [hangups, List.nil_append, List.map_map]
    exact hrun hup hphase hshared (cstr o.stale)
  | failed =>
    simp only [hangups, List.nil_append, List.map_map]
    exact hrun hup hphase hshared (cstr o.stale)

end Service

/-- Each line of a call is dispatched in one of the environments of the call. -/
theorem exchanges_env (w : LoopState) (lines : List Bytes) :
    ∀ x ∈ exchanges w lines, ∃ k, x.env = w.env k := by
  induction lines generalizing w with
  | nil => exact fun x hx => absurd hx List.not_mem_nil
  | cons c cs ih =>
    cases hgo : commandMachine.stop w c with
    | true =>
      rw [exchanges_cons_stop hgo]
      intro x hx
      rw [List.mem_singleton.mp hx]
      exact ⟨0, rfl⟩
    | false =>
      rw [exchanges_cons_go hgo]
      intro x hx
      rcases List.mem_cons.mp hx with rfl | hx
      · exact ⟨0, rfl⟩
      · obtain ⟨k, hk⟩ := ih _ x hx
        exact ⟨k + 1, hk⟩

/-! ### The server -/

/-- The server with a ghost that numbers its sessions. -/
def rosters : Machine (Server × Roster) Occurrence :=
  serverMachine.ghost fun r sv o => r.record sv (sv.step o).event

/-- What a turn of the loop does, by the numbers of the sessions. -/
def Server.sessionEvents (sv : Server) (r : Roster) (o : Occurrence) : List (Nat × SessionEvent) :=
  match (sv.step o).event with
  | .quiet => []
  | .opened _ =>
    (sv.accepts o).toList.map fun c =>
      (r.admitted, .opened c.1 ((sv.pollFd sv.index).fd == sv.managerSocket) c.2)
  | .served slot _ closed =>
    (Service.callEvents (sv.call slot o) o.recv ++ if closed then [SessionEvent.left] else []).map
      (Prod.mk (r.owner slot))

/-- What a run of the server does. -/
def Server.runEvents (sv : Server) (os : List Occurrence) : List (Nat × SessionEvent) :=
  rosters.emitted (fun x => Server.sessionEvents x.1 x.2) (sv, Roster.empty) os

namespace Service

/-- The service a server provides: the sessions in its table are those that are present.  The address
of a session is the one it was accepted with, also where the code has freed it by a move. -/
structure Represents (x : Server × Roster) (v : Service) : Prop where
  up : v.up = true
  shared : v.shared = x.1.shared
  admitted : v.admitted = x.2.admitted
  population : v.population = x.1.clientCount
  roster : x.2.Inv x.1
  sessions : ∀ k < x.1.clientCount, v.phase (x.2.owner k) = .present (x.1.clients k).session true
  absent : ∀ n, v.admitted ≤ n → v.phase n = .absent
  departed : ∀ n < v.admitted, ¬ x.2.IsOpen x.1 n → v.phase n = .departed

theorem represents_start (sh : Shared) (managerSocket : Int) :
    Represents (Server.start sh managerSocket, Roster.empty) (start sh) where
  up := rfl
  shared := rfl
  admitted := rfl
  population := rfl
  roster := Roster.inv_empty rfl
  sessions k hk := absurd hk (Nat.not_lt_zero k)
  absent _ _ := rfl
  departed n hn := absurd hn (Nat.not_lt_zero n)

variable {sv : Server} {r : Roster} {v : Service}

/-- A turn that does nothing to the sessions. -/
theorem Represents.same (h : Represents (sv, r) v) {sv' : Server}
    (hclients : sv'.clients = sv.clients) (hcount : sv'.clientCount = sv.clientCount)
    (hshared : sv'.shared = sv.shared) : Represents (sv', r) v where
  up := h.up
  shared := h.shared.trans hshared.symm
  admitted := h.admitted
  population := h.population.trans hcount.symm
  roster := h.roster.of_count hcount
  sessions := by
    simp only [hclients, hcount]
    exact h.sessions
  absent := h.absent
  departed n hn hclosed := h.departed n hn (mt (r.isOpen_of_count hcount n).mpr hclosed)

/-- A session joins. -/
theorem Represents.opened (h : Represents (sv, r) v) {sv' : Server} {fd : Int} {isManager : Bool}
    {ip : Bytes} (hroom : sv.clientCount < MAX_CLIENTS)
    (hclients : sv'.clients = update sv.clients sv.clientCount
      ⟨newSession fd isManager ip (sv.clients sv.clientCount).session.maildir,
        (sv.clients sv.clientCount).recvBuffer⟩)
    (hcount : sv'.clientCount = sv.clientCount + 1)
    (hshared : sv'.shared =
      { sv.shared with metrics := Server.countConnection sv.shared.metrics sv.clientCount }) :
    ∃ v', system.Run v [(r.admitted, .opened fd isManager ip)] v' ∧
      Represents (sv', r.record sv (.opened sv.clientCount)) v' := by
  have hnew := h.absent v.admitted (Nat.le_refl _)
  have hadmitted : v.admitted = r.admitted := h.admitted
  have hpopulation : v.population = sv.clientCount := h.population
  have hstep := @Step.opened v fd isManager ip (sv.clients sv.clientCount).session.maildir h.up
    (hpopulation ▸ hroom) hnew
  rw [← hadmitted]
  refine ⟨_, .single hstep, ?_⟩
  constructor
  case up => exact h.up
  case shared =>
    rw [hshared]
    simp only [h.shared, hpopulation]
  case admitted => exact congrArg (· + 1) hadmitted
  case population => exact (congrArg (· + 1) hpopulation).trans hcount.symm
  case roster => exact h.roster.opened hcount
  case sessions =>
    intro k hk
    have hk : k < sv.clientCount + 1 := lt_of_lt_of_eq hk hcount
    simp only [hclients]
    rw [Roster.owner_opened]
    rcases Nat.lt_succ_iff_lt_or_eq.mp hk with hlt | rfl
    · have hknown : r.owner k < v.admitted := hadmitted ▸ h.roster.known k hlt
      rw [if_neg (Nat.ne_of_lt hlt), Function.update_of_ne (Nat.ne_of_lt hlt),
        Function.update_of_ne (Nat.ne_of_lt hknown)]
      exact h.sessions k hlt
    · rw [if_pos rfl, Function.update_self, ← hadmitted, Function.update_self]
  case absent =>
    intro n hn
    have hne : n ≠ v.admitted := Nat.ne_of_gt hn
    refine (Function.update_of_ne hne ..).trans ?_
    exact h.absent n (Nat.le_of_succ_le hn)
  case departed =>
    intro n hn hclosed
    have hclosed := not_or.mp (mt (r.isOpen_opened hcount n).mpr hclosed)
    have hne : n ≠ v.admitted := hadmitted ▸ hclosed.2
    refine (Function.update_of_ne hne ..).trans ?_
    exact h.departed n (Nat.lt_of_le_of_ne (Nat.le_of_lt_succ hn) hne) hclosed.1

/-- A session is served and stays. -/
theorem Represents.stayed (h : Represents (sv, r) v) {v' : Service} {sv' : Server} {slot : Nat}
    {o : Occurrence} (hslot : slot < sv.clientCount)
    (hcalled : v.Called v' (r.owner slot) (sv.call slot o))
    (hcontrol : ∀ f, (sv.call slot o).control ≠ .fault f)
    (hopen : Server.closes (sv.call slot o).client.session.clientState = false)
    (hclients : sv'.clients = update sv.clients slot (sv.call slot o).client)
    (hcount : sv'.clientCount = sv.clientCount) (hshared : sv'.shared = (sv.call slot o).shared) :
    Represents (sv', r) v' := by
  constructor
  case up => exact hcalled.up hcontrol
  case shared => exact hcalled.shared.trans hshared.symm
  case admitted => exact hcalled.admitted.trans h.admitted
  case population => exact (hcalled.population.trans h.population).trans hcount.symm
  case roster => exact h.roster.of_count hcount
  case sessions =>
    intro k hk
    have hk : k < sv.clientCount := lt_of_lt_of_eq hk hcount
    simp only [hclients]
    by_cases hks : k = slot
    · subst hks
      obtain ⟨reading, hown, hreading⟩ := hcalled.own
      rw [Function.update_self, hown, hreading hcontrol hopen]
    · have howner : r.owner k ≠ r.owner slot := fun he => hks (h.roster.distinct k hk slot hslot he)
      rw [Function.update_of_ne hks, hcalled.others _ howner]
      exact h.sessions k hk
  case absent =>
    intro n hn
    rw [hcalled.admitted] at hn
    have hknown : r.owner slot < v.admitted := h.admitted ▸ h.roster.known slot hslot
    rw [hcalled.others n (Nat.ne_of_gt (Nat.lt_of_lt_of_le hknown hn))]
    exact h.absent n hn
  case departed =>
    intro n hn hclosed
    rw [hcalled.admitted] at hn
    have hold : ¬ r.IsOpen sv n := mt (r.isOpen_of_count hcount n).mpr hclosed
    rw [hcalled.others n fun he => hold ⟨slot, hslot, he.symm⟩]
    exact h.departed n hn hold

/-- A session is served and leaves. -/
theorem Represents.closed (h : Represents (sv, r) v) {v' : Service} {sv' : Server} {slot : Nat}
    {o : Occurrence} (hslot : slot < sv.clientCount)
    (hcalled : v.Called v' (r.owner slot) (sv.call slot o))
    (hcontrol : ∀ f, (sv.call slot o).control ≠ .fault f)
    (hclosed : Server.closes (sv.call slot o).client.session.clientState = true)
    (hclients : ∀ k < sv.clientCount - 1, sv'.clients k =
      if k = slot then sv.clients (sv.clientCount - 1) else sv.clients k)
    (hcount : sv'.clientCount = sv.clientCount - 1)
    (hshared : sv'.shared = (sv.call slot o).shared) :
    ∃ v'', system.Run v' [(r.owner slot, .left)] v'' ∧
      Represents (sv', r.record sv (.served slot (sv.call slot o).exchanges true)) v'' := by
  obtain ⟨reading, hown, -⟩ := hcalled.own
  have hstep := Step.left (hcalled.up hcontrol) hown hclosed
  refine ⟨_, .single hstep, ?_⟩
  have hisOpen := fun n => h.roster.isOpen_closed hslot hcount (sv.call slot o).exchanges n
  constructor
  case up => exact hcalled.up hcontrol
  case shared => exact hcalled.shared.trans hshared.symm
  case admitted => exact hcalled.admitted.trans h.admitted
  case population =>
    have hpopulation : v.population = sv.clientCount := h.population
    simp only [hcalled.population, hpopulation, hcount]
  case roster => exact h.roster.closed hslot hcount (sv.call slot o).exchanges
  case sessions =>
    intro k hk
    have hk : k < sv.clientCount - 1 := lt_of_lt_of_eq hk hcount
    -- what is in slot `k` now was in slot `origin` before
    obtain ⟨origin, horigin, hlt, hne⟩ : ∃ origin, (if k = slot then sv.clientCount - 1 else k) =
        origin ∧ origin < sv.clientCount ∧ origin ≠ slot := by
      refine ⟨_, rfl, ?_, ?_⟩ <;> split <;> omega
    have hclient : sv'.clients k = sv.clients origin := by
      rw [hclients k hk, ← horigin]
      split <;> rfl
    have howner : r.owner origin ≠ r.owner slot :=
      fun he => hne (h.roster.distinct origin hlt slot hslot he)
    rw [Roster.owner_closed, horigin, hclient]
    simp only [Function.update_of_ne howner]
    rw [hcalled.others _ howner]
    exact h.sessions origin hlt
  case absent =>
    intro n hn
    have hn : v.admitted ≤ n := hcalled.admitted ▸ hn
    have hknown : r.owner slot < v.admitted := h.admitted ▸ h.roster.known slot hslot
    have hne : n ≠ r.owner slot := Nat.ne_of_gt (Nat.lt_of_lt_of_le hknown hn)
    simp only [Function.update_of_ne hne]
    rw [hcalled.others n hne]
    exact h.absent n hn
  case departed =>
    intro n hn hgone
    have hn : n < v.admitted := hcalled.admitted ▸ hn
    by_cases hself : n = r.owner slot
    · simp only [hself, Function.update_self]
    · have hold : ¬ r.IsOpen sv n := fun hold => hgone ((hisOpen n).mpr ⟨hold, hself⟩)
      simp only [Function.update_of_ne hself]
      rw [hcalled.others n hself]
      exact h.departed n hn hold

/-- **The service follows every turn of the loop.** -/
theorem Represents.follow (h : Represents (sv, r) v) (o : Occurrence) :
    ∃ v', system.Run v (sv.sessionEvents r o) v' ∧ ((sv.step o).halted = false →
      Represents ((sv.step o).server, r.record sv (sv.step o).event) v') := by
  have hserved : ∀ slot < sv.clientCount, _ := fun slot hslot =>
    run_call o h.up (h.sessions slot hslot) h.shared
  have hcase := sv.step_cases o
  unfold Server.sessionEvents
  generalize sv.step o = st at hcase ⊢
  cases hcase with
  | polled _ => exact ⟨v, .nil, fun _ => h.same rfl rfl rfl⟩
  | skipped _ _ => exact ⟨v, .nil, fun _ => h.same rfl rfl rfl⟩
  | unaccepted _ _ _ => exact ⟨v, .nil, fun _ => h.same rfl rfl rfl⟩
  | refused _ _ _ _ => exact ⟨v, .nil, fun _ => h.same rfl rfl rfl⟩
  | overflown _ _ _ _ => exact ⟨v, .nil, nofun⟩
  | stray _ _ _ => exact ⟨v, .nil, nofun⟩
  | @admitted fd ip hevent hlisten hsome hroom =>
    obtain ⟨v', hrun, hrepresents⟩ := @Represents.opened sv r v h
      (sv.joined fd ip).advance fd ((sv.pollFd sv.index).fd == sv.managerSocket) ip hroom rfl rfl
      rfl
    refine ⟨v', ?_, fun _ => hrepresents⟩
    rw [Server.accepts_of_event hevent hlisten, hsome]
    exact hrun
  | faulted hevent _ h2 _ =>
    obtain ⟨v', hrun, -⟩ := hserved _ (hevent.slot_lt h2)
    refine ⟨v', ?_, nofun⟩
    simp only [Bool.false_eq_true, if_false, List.append_nil]
    exact hrun
  | stayed hevent _ h2 hcontrol hopen =>
    obtain ⟨v', hrun, hcalled⟩ := hserved _ (hevent.slot_lt h2)
    refine ⟨v', ?_, fun _ => ?_⟩
    · simp only [Bool.false_eq_true, if_false, List.append_nil]
      exact hrun
    · exact h.stayed (hevent.slot_lt h2) hcalled hcontrol hopen rfl rfl rfl
  | closed hevent _ h2 hcontrol hclosed =>
    obtain ⟨v', hrun, hcalled⟩ := hserved _ (hevent.slot_lt h2)
    obtain ⟨v'', hleft, hrepresents⟩ := @Represents.closed sv r v h v' (sv.departed o) sv.slot o
      (hevent.slot_lt h2) hcalled hcontrol hclosed (fun k hk => sv.departed_clients o hk) rfl rfl
    refine ⟨v'', ?_, fun _ => hrepresents⟩
    simp only [if_true, List.map_append, List.map_cons, List.map_nil]
    exact hrun.append hleft

/-- The service follows the server with its numbering of the sessions. -/
theorem simulates :
    Machine.Simulates system rosters (fun x => Server.sessionEvents x.1 x.2) Represents where
  follow _ o _ h := h.follow o

end Service

/-! ### Runs -/

theorem linesOf_append (as bs : List SessionEvent) :
    linesOf (as ++ bs) = linesOf as ++ linesOf bs :=
  List.filterMap_append ..

/-- The lines of a turn are those the server executes in it. -/
theorem Server.linesOf_sessionEvents (sv : Server) (r : Roster) (o : Occurrence) :
    linesOf ((sv.sessionEvents r o).map Prod.snd) = (sv.step o).event.exchanges := by
  have hlines : ∀ xs : List Exchange, linesOf (xs.map .line) = xs := by
    intro xs
    induction xs with
    | nil => rfl
    | cons x xs ih => exact congrArg (x :: ·) ih
  have hcall : ∀ slot (rest : List SessionEvent), linesOf rest = [] →
      linesOf (((Service.callEvents (sv.call slot o) o.recv ++ rest).map
        (Prod.mk (r.owner slot))).map Prod.snd) = (sv.call slot o).exchanges := by
    intro slot rest hrest
    rw [List.map_map, Function.comp_def, List.map_id', linesOf_append, hrest, List.append_nil,
      Service.callEvents, linesOf_append, hlines]
    cases o.recv <;> rfl
  have hcase := sv.step_cases o
  unfold sessionEvents
  generalize sv.step o = st at hcase ⊢
  cases hcase with
  | admitted hevent hlisten hsome _ =>
    simp only [Server.accepts_of_event hevent hlisten, hsome]
    rfl
  | faulted _ _ _ _ => exact hcall _ _ rfl
  | stayed _ _ _ _ _ => exact hcall _ _ rfl
  | closed _ _ _ _ _ => exact hcall _ _ rfl
  | _ => rfl

theorem Server.linesOf_runEvents (sv : Server) (os : List Occurrence) :
    linesOf ((sv.runEvents os).map Prod.snd) = sv.exchanges os := by
  have htrace := serverMachine.trace_ghost (fun r sv o => r.record sv (sv.step o).event)
    (sv, Roster.empty) os
  unfold runEvents Machine.emitted exchanges
  rw [← htrace]
  change _ = ((rosters.trace (sv, Roster.empty) os).map fun y => (y.1.1, y.2)).flatMap _
  generalize rosters.trace (sv, Roster.empty) os = turns
  induction turns with
  | nil => rfl
  | cons x turns ih =>
    rw [List.flatMap_cons, List.map_append, linesOf_append, ih, Server.linesOf_sessionEvents]
    rfl

/-- The sessions that are present are those in the table. -/
theorem Service.Represents.present_iff {sv : Server} {r : Roster} {v : Service}
    (h : Represents (sv, r) v) (s : Session) :
    (∃ n reading, v.phase n = .present s reading) ↔
      ∃ k < sv.clientCount, (sv.clients k).session = s := by
  constructor
  · rintro ⟨n, reading, hn⟩
    have hknown : n < v.admitted := by
      by_contra hno
      rw [h.absent n (Nat.le_of_not_lt hno)] at hn
      cases hn
    have hopen : r.IsOpen sv n := by
      by_contra hno
      rw [h.departed n hknown hno] at hn
      cases hn
    obtain ⟨k, hk, rfl⟩ := hopen
    rw [h.sessions k hk] at hn
    cases hn
    exact ⟨k, hk, rfl⟩
  · rintro ⟨k, hk, rfl⟩
    exact ⟨_, _, h.sessions k hk⟩

/-- The service a run of the server comes to. -/
theorem Service.represented (sh : Shared) (managerSocket : Int) (os : List Occurrence) :
    ∃ v, Service.system.Run (Service.start sh) ((Server.start sh managerSocket).runEvents os) v ∧
      (serverMachine.Passes (Server.start sh managerSocket) os →
        ∃ r, Represents (serverMachine.final (Server.start sh managerSocket) os, r) v) := by
  obtain ⟨v, hrun, hfinal⟩ :=
    Service.simulates.run (Service.represents_start sh managerSocket) os
  refine ⟨v, hrun, fun hpass => ?_⟩
  have hserver := serverMachine.final_ghost (fun r sv o => r.record sv (sv.step o).event)
    (Server.start sh managerSocket, Roster.empty) os
  rw [← hserver]
  exact ⟨_, hfinal ((serverMachine.passes_ghost _).mpr hpass)⟩

/-- **Every run of the server is a run of the service**, in which each session leads a life of its
own; the lines are those the server executes, in their order, and while the loop goes on the
sessions in the table are those that are present, their addresses aside (`handleCloseClient`). -/
theorem Server.refines_service (sh : Shared) (managerSocket : Int) (os : List Occurrence) :
    ∃ v, Service.system.Run (Service.start sh) ((start sh managerSocket).runEvents os) v ∧
      (∀ n, life.Run .absent (LTS.thread n ((start sh managerSocket).runEvents os)) (v.phase n)) ∧
      linesOf (((start sh managerSocket).runEvents os).map Prod.snd) =
        (start sh managerSocket).exchanges os ∧
      (serverMachine.Passes (start sh managerSocket) os →
        let sv := serverMachine.final (start sh managerSocket) os
        v.shared = sv.shared ∧ v.population = sv.clientCount ∧
          ∀ s, (∃ n reading, v.phase n = .present s reading) ↔
            ∃ k < sv.clientCount, (sv.clients k).session = s) := by
  obtain ⟨v, hrun, hfinal⟩ := Service.represented sh managerSocket os
  refine ⟨v, hrun, Service.lives hrun, linesOf_runEvents _ os, fun hpass => ?_⟩
  obtain ⟨r, hrepresents⟩ := hfinal hpass
  exact ⟨hrepresents.shared, hrepresents.population, hrepresents.present_iff⟩

end Pop3Server
