import Pop3Server.Roster
import Pop3Server.SlotReuse

/-!
# What a session owns

Each session has the descriptor `accept` returned for it, the copy of the
client's address, and a maildir for each time it logged in.  `Ledger` is a ghost
of the server that keeps what has been released so far, with the session it was
acquired for: `handle_close_client` closes the descriptor of the closed session
and frees the address that lies in the last slot, and QUIT closes the descriptor
too and, in TRANSACTION, destroys the maildir that was loaded last.

`accounted_iff` says which runs release everything once and nothing too early.
-/

namespace Pop3Server

open Function (update)

/-- What the session `s` acquires; it can load several maildirs. -/
inductive Resource where
  | socket (s : Nat)
  | ip (s : Nat)
  | maildir (s n : Nat)
deriving DecidableEq, Repr

def Resource.session : Resource → Nat
  | .socket s => s
  | .ip s => s
  | .maildir s _ => s

/-- What QUIT releases of a session that has loaded `loads` maildirs. -/
def Exchange.releases (x : Exchange) (s loads : Nat) : List Resource :=
  if x.step.control = .returned then
    (if x.session.clientState = .transaction then [.maildir s (loads - 1)] else []) ++ [.socket s]
  else []

structure Ledger where
  roster : Roster
  loads : Nat → Nat
  released : List Resource

namespace Ledger

def start : Ledger := ⟨Roster.empty, fun _ => 0, []⟩

def loaded (g : Ledger) : ServerEvent → Nat → Nat
  | .served slot xs _ =>
    update g.loads (g.roster.owner slot) (g.loads (g.roster.owner slot) + xs.countP (·.loads))
  | _ => g.loads

/-- What a turn of the server `sv` releases. -/
def releases (g : Ledger) (sv : Server) (event : ServerEvent) : List Resource :=
  match event with
  | .served slot xs closed =>
    let s := g.roster.owner slot
    xs.flatMap (·.releases s (g.loaded event s)) ++
      if closed then [.socket s, .ip (g.roster.owner (sv.clientCount - 1))] else []
  | _ => []

def watch (g : Ledger) (sv : Server) (o : Occurrence) : Ledger :=
  let event := (sv.step o).event
  ⟨g.roster.record sv event, g.loaded event, g.released ++ g.releases sv event⟩

def Acquired (g : Ledger) : Resource → Prop
  | .socket s => s < g.roster.admitted
  | .ip s => s < g.roster.admitted
  | .maildir s n => n < g.loads s

/-- Everything a session had has been released once it is closed, and only then, and once. -/
structure Accounted (g : Ledger) (sv : Server) : Prop where
  kept : ∀ r ∈ g.released, ¬ g.roster.IsOpen sv r.session
  all : ∀ r, g.Acquired r → ¬ g.roster.IsOpen sv r.session → r ∈ g.released
  once : g.released.Nodup

/-- If the turn closes a session, it is the one in the last slot, it does not quit, and it has
never logged in. -/
def ClosesClean (g : Ledger) (sv : Server) (o : Occurrence) : Prop :=
  match (sv.step o).event with
  | .served slot xs true =>
    slot + 1 = sv.clientCount ∧ (∀ x ∈ xs, x.step.control ≠ .returned) ∧
      g.loaded (.served slot xs true) (g.roster.owner slot) = 0
  | _ => True

end Ledger

def ledgers : Machine (Server × Ledger) Occurrence := serverMachine.ghost Ledger.watch

/-! ### What a turn releases -/

/-- A call that returns at a QUIT leaves the session closing. -/
theorem closing_of_returned {w : LoopState} {lines : List Bytes} {x : Exchange}
    (hx : x ∈ exchanges w lines) (hreturned : x.step.control = .returned) :
    (commandMachine.final w lines).session.clientState = .closing := by
  induction lines generalizing w with
  | nil => cases hx
  | cons c cs ih =>
    cases hgo : commandMachine.stop w c with
    | true =>
      rw [exchanges_cons_stop hgo, List.mem_singleton] at hx
      rw [Machine.final_cons_stop _ hgo]
      subst hx
      exact ((w.exchange c).quit_of_control.2 hreturned).2
    | false =>
      rw [exchanges_cons_go hgo] at hx
      rw [Machine.final_cons_go _ hgo]
      rcases List.mem_cons.mp hx with rfl | hx
      · cases hreturned.symm.trans (stop_eq_false_iff.mp hgo)
      · exact ih hx

theorem no_return_of_open {sv : Server} {slot : Nat} {o : Occurrence}
    (hopen : Server.closes (sv.call slot o).client.session.clientState = false) :
    ∀ x ∈ (sv.call slot o).exchanges, x.step.control ≠ .returned := by
  intro x hx hreturned
  unfold Server.call handleClient at hx hopen
  simp only [scan_exchanges] at hx
  simp only [scan_session] at hopen
  rw [closing_of_returned hx hreturned] at hopen
  cases hopen

theorem flatMap_releases_nil {xs : List Exchange} (h : ∀ x ∈ xs, x.step.control ≠ .returned)
    (s loads : Nat) : xs.flatMap (·.releases s loads) = [] := by
  apply List.flatMap_eq_nil_iff.mpr
  intro x hx
  exact if_neg (h x hx)

theorem socket_mem_releases {xs : List Exchange} {x : Exchange} (hx : x ∈ xs)
    (hreturned : x.step.control = .returned) (s loads : Nat) :
    Resource.socket s ∈ xs.flatMap (·.releases s loads) := by
  refine List.mem_flatMap.mpr ⟨x, hx, ?_⟩
  rw [Exchange.releases, if_pos hreturned]
  exact List.mem_append_right _ (List.mem_singleton_self _)

/-! ### Runs that release everything once -/

namespace Ledger

/-- What holds while only sessions are closed that leave nothing behind. -/
structure Inv (g : Ledger) (sv : Server) : Prop where
  roster : g.roster.Inv sv
  accounted : g.Accounted sv
  known : ∀ r ∈ g.released, r.session < g.roster.admitted
  unloaded : ∀ s, ¬ g.roster.IsOpen sv s → g.loads s = 0

theorem inv_start (sh : Shared) (managerSocket : Int) :
    start.Inv (Server.start sh managerSocket) where
  roster := Roster.inv_empty rfl
  accounted := ⟨nofun, fun r hr => by cases r <;> exact absurd hr (Nat.not_lt_zero _),
    List.nodup_nil⟩
  known := nofun
  unloaded _ _ := rfl

theorem acquired_of_loads {g g' : Ledger} (hadmitted : g'.roster.admitted = g.roster.admitted)
    {r : Resource} (hloads : g'.loads r.session = g.loads r.session) (h : g'.Acquired r) :
    g.Acquired r := by
  unfold Acquired at h ⊢
  cases r with
  | socket s =>
    rw [hadmitted] at h
    exact h
  | ip s =>
    rw [hadmitted] at h
    exact h
  | maildir s n => exact lt_of_lt_of_eq h hloads

/-- A turn that releases nothing and leaves the same sessions open. -/
theorem Inv.kept {g g' : Ledger} {sv sv' : Server} (h : g.Inv sv) (hroster : g'.roster = g.roster)
    (hcount : sv'.clientCount = sv.clientCount) (hreleased : g'.released = g.released)
    (hloads : ∀ s, ¬ g.roster.IsOpen sv s → g'.loads s = g.loads s) : g'.Inv sv' := by
  have hopen : ∀ s, g'.roster.IsOpen sv' s ↔ g.roster.IsOpen sv s := by
    intro s
    rw [hroster]
    exact g.roster.isOpen_of_count hcount s
  constructor
  · rw [hroster]
    exact h.roster.of_count hcount
  · constructor
    · intro r hr
      rw [hopen]
      exact h.accounted.kept r (hreleased ▸ hr)
    · intro r hr hclosed
      rw [hopen] at hclosed
      rw [hreleased]
      refine h.accounted.all r ?_ hclosed
      exact acquired_of_loads (congrArg Roster.admitted hroster) (hloads _ hclosed) hr
    · exact hreleased ▸ h.accounted.once
  · intro r hr
    rw [hroster]
    exact h.known r (hreleased ▸ hr)
  · intro s hs
    rw [hopen] at hs
    rw [hloads s hs]
    exact h.unloaded s hs

theorem Inv.opened {g : Ledger} {sv sv' : Server} (h : g.Inv sv)
    (hcount : sv'.clientCount = sv.clientCount + 1) :
    Inv ⟨g.roster.record sv (.opened sv.clientCount), g.loads, g.released⟩ sv' := by
  have hopen := fun s => g.roster.isOpen_opened hcount s
  constructor
  · exact h.roster.opened hcount
  · constructor
    · intro r hr hr'
      rcases (hopen _).mp hr' with hold | hnew
      · exact h.accounted.kept r hr hold
      · exact absurd (h.known r hr) (hnew ▸ Nat.lt_irrefl _)
    · intro r hr hclosed
      have hclosed := not_or.mp (mt (hopen _).mpr hclosed)
      refine h.accounted.all r ?_ hclosed.1
      cases r with
      | socket s => exact Nat.lt_of_le_of_ne (Nat.le_of_lt_succ hr) hclosed.2
      | ip s => exact Nat.lt_of_le_of_ne (Nat.le_of_lt_succ hr) hclosed.2
      | maildir s n => exact hr
    · exact h.accounted.once
  · intro r hr
    exact Nat.lt_succ_of_lt (h.known r hr)
  · intro s hs
    exact h.unloaded s fun hold => hs ((hopen s).mpr (.inl hold))

/-- A served turn loads maildirs for no session but the one it serves. -/
theorem loaded_of_not_open {g : Ledger} {sv : Server} {slot : Nat} (hslot : slot < sv.clientCount)
    (xs : List Exchange) (closed : Bool) {s : Nat} (hs : ¬ g.roster.IsOpen sv s) :
    g.loaded (.served slot xs closed) s = g.loads s := by
  have hne : s ≠ g.roster.owner slot := fun he => hs ⟨slot, hslot, he.symm⟩
  exact Function.update_of_ne hne ..

/-- The close of the last session without QUIT releases its descriptor and its address. -/
theorem releases_of_last {g : Ledger} {sv : Server} {slot : Nat} {xs : List Exchange}
    (hlast : slot + 1 = sv.clientCount) (hquit : ∀ x ∈ xs, x.step.control ≠ .returned) :
    g.releases sv (.served slot xs true) =
      [.socket (g.roster.owner slot), .ip (g.roster.owner slot)] := by
  have hback : sv.clientCount - 1 = slot := by omega
  simp only [releases, flatMap_releases_nil hquit, hback, List.nil_append, if_true]

/-- The last session is closed, and has nothing but its descriptor and its address. -/
theorem Inv.closed {g : Ledger} {sv sv' : Server} (h : g.Inv sv) {slot : Nat} {xs : List Exchange}
    (hcount : sv'.clientCount = sv.clientCount - 1) (hlast : slot + 1 = sv.clientCount)
    (hquit : ∀ x ∈ xs, x.step.control ≠ .returned)
    (hloads : g.loaded (.served slot xs true) (g.roster.owner slot) = 0) :
    Inv ⟨g.roster.record sv (.served slot xs true), g.loaded (.served slot xs true),
      g.released ++ g.releases sv (.served slot xs true)⟩ sv' := by
  have hslot : slot < sv.clientCount := hlast ▸ Nat.lt_succ_self _
  have hsession : g.roster.IsOpen sv (g.roster.owner slot) := ⟨slot, hslot, rfl⟩
  have hopen := fun s => h.roster.isOpen_closed hslot hcount xs s
  have hreleases := releases_of_last (g := g) hlast hquit
  have hnew : ∀ r ∈ g.releases sv (.served slot xs true), r.session = g.roster.owner slot := by
    rw [hreleases]
    simp [Resource.session]
  constructor
  · exact h.roster.closed hslot hcount xs
  · constructor
    · intro r hr hr'
      obtain ⟨hold, hne⟩ := (hopen _).mp hr'
      rcases List.mem_append.mp hr with hr | hr
      · exact h.accounted.kept r hr hold
      · exact hne (hnew r hr)
    · intro r hr hclosed
      by_cases hs : r.session = g.roster.owner slot
      · apply List.mem_append_right
        rw [hreleases]
        cases r with
        | socket s => exact hs ▸ List.mem_cons_self
        | ip s => exact hs ▸ List.mem_cons_of_mem _ (List.mem_singleton_self _)
        | maildir s n =>
          obtain rfl : s = g.roster.owner slot := hs
          exact absurd (hloads ▸ hr : n < 0) (Nat.not_lt_zero n)
      · have hold : ¬ g.roster.IsOpen sv r.session := fun hold => hclosed ((hopen _).mpr ⟨hold, hs⟩)
        apply List.mem_append_left
        refine h.accounted.all r ?_ hold
        exact acquired_of_loads (show (g.roster.record sv _).admitted = _ from rfl)
          (loaded_of_not_open hslot xs true hold) hr
    · rw [hreleases]
      refine List.nodup_append.mpr ⟨h.accounted.once, by simp, ?_⟩
      rintro r hr r' hr' rfl
      exact h.accounted.kept r hr (hnew r (hreleases ▸ hr') ▸ hsession)
  · intro r hr
    rcases List.mem_append.mp hr with hr | hr
    · exact h.known r hr
    · rw [hnew r hr]
      exact h.roster.known slot hslot
  · intro s hs
    by_cases hself : s = g.roster.owner slot
    · exact hself ▸ hloads
    · have hold : ¬ g.roster.IsOpen sv s := fun hold => hs ((hopen s).mpr ⟨hold, hself⟩)
      exact (loaded_of_not_open hslot xs true hold).trans (h.unloaded s hold)

/-- **A turn that closes no session, or one that leaves nothing behind, keeps the account.** -/
theorem Inv.next {g : Ledger} {sv : Server} (h : g.Inv sv) {o : Occurrence}
    (hclean : g.ClosesClean sv o) (hgo : (sv.step o).halted = false) :
    (g.watch sv o).Inv (sv.step o).server := by
  unfold ClosesClean at hclean
  unfold watch
  have hout := sv.step_outcome o
  generalize sv.step o = st at hout hclean hgo ⊢
  cases hout with
  | quiet hevent _ hcount =>
    rw [hevent]
    exact h.kept rfl hcount (List.append_nil _) fun _ _ => rfl
  | opened _ _ _ _ hevent _ hcount =>
    rw [hevent]
    refine (h.opened hcount).kept rfl rfl (List.append_nil _) fun _ _ => rfl
  | faulted _ _ hstop _ => cases hstop.symm.trans hgo
  | stayed slot hslot _ _ hopen hevent _ hcount =>
    rw [hevent]
    refine h.kept rfl hcount ?_ fun s hs => ?_
    · simp [releases, flatMap_releases_nil (no_return_of_open hopen)]
    · exact loaded_of_not_open hslot _ false hs
  | closed slot _ _ _ _ hevent _ hcount =>
    rw [hevent] at hclean ⊢
    exact h.closed hcount hclean.1 hclean.2.1 hclean.2.2

/-! ### Runs that do not -/

/-- A close frees the address that lies in the last slot, and closes a descriptor that QUIT has
closed before; a maildir is never released by a close. -/
theorem closesClean_of_accounted {g : Ledger} {sv : Server} (hroster : g.roster.Inv sv)
    {o : Occurrence} (hbefore : g.Accounted sv)
    (hafter : (g.watch sv o).Accounted (sv.step o).server) : g.ClosesClean sv o := by
  unfold ClosesClean
  unfold watch at hafter
  have hout := sv.step_outcome o
  generalize sv.step o = st at hout hafter ⊢
  cases hout with
  | quiet hevent _ _ => rw [hevent]; trivial
  | opened _ _ _ _ hevent _ _ => rw [hevent]; trivial
  | faulted _ _ _ hevent => rw [hevent]; trivial
  | stayed _ _ _ _ _ hevent _ _ => rw [hevent]; trivial
  | closed slot hslot _ _ _ hevent _ hcount =>
    rw [hevent] at hafter ⊢
    generalize (sv.call slot o).exchanges = xs at hafter ⊢
    have hsession : g.roster.IsOpen sv (g.roster.owner slot) := ⟨slot, hslot, rfl⟩
    have hclosed : ¬ (g.roster.record sv (.served slot xs true)).IsOpen st.server
        (g.roster.owner slot) := fun h => ((hroster.isOpen_closed hslot hcount xs _).mp h).2 rfl
    have honce := (List.nodup_append.mp hafter.once).2.1
    have hquit : ∀ x ∈ xs, x.step.control ≠ .returned := by
      intro x hx hreturned
      have hdisjoint := (List.nodup_append.mp honce).2.2
      exact hdisjoint _ (socket_mem_releases hx hreturned _ _) _ List.mem_cons_self rfl
    refine ⟨?_, hquit, ?_⟩
    · by_contra hne
      have hlast : sv.clientCount - 1 < sv.clientCount := by omega
      have howner : g.roster.owner (sv.clientCount - 1) ≠ g.roster.owner slot := by
        intro he
        have hsame := hroster.distinct _ hlast _ hslot he
        omega
      refine hafter.kept (.ip (g.roster.owner (sv.clientCount - 1))) ?_ ?_
      · apply List.mem_append_right
        exact List.mem_append_right _ (List.mem_cons_of_mem _ (List.mem_singleton_self _))
      · exact (hroster.isOpen_closed hslot hcount xs _).mpr ⟨⟨_, hlast, rfl⟩, howner⟩
    · by_contra hne
      have hmaildir := hafter.all (.maildir (g.roster.owner slot) 0) (Nat.pos_of_ne_zero hne) hclosed
      rcases List.mem_append.mp hmaildir with hold | hnew
      · exact hbefore.kept _ hold hsession
      · simp [releases, flatMap_releases_nil hquit] at hnew

theorem closesClean_of_halted {g : Ledger} {sv : Server} {o : Occurrence}
    (hstop : (sv.step o).halted = true) : g.ClosesClean sv o := by
  unfold ClosesClean
  have hout := sv.step_outcome o
  generalize sv.step o = st at hout hstop ⊢
  cases hout with
  | quiet hevent _ _ => rw [hevent]; trivial
  | opened _ _ _ _ hevent _ _ => rw [hevent]; trivial
  | faulted _ _ _ hevent => rw [hevent]; trivial
  | stayed _ _ _ _ _ hevent _ _ => rw [hevent]; trivial
  | closed _ _ hgo _ _ _ _ _ => cases hgo.symm.trans hstop

end Ledger

namespace Server

/-- The account holds whenever the loop has finished a turn. -/
def ResourcesAccounted (sv : Server) (os : List Occurrence) : Prop :=
  ∀ pre, pre <+: os → ledgers.Passes (sv, Ledger.start) pre →
    (ledgers.final (sv, Ledger.start) pre).2.Accounted (ledgers.final (sv, Ledger.start) pre).1

def AllCloseClean (sv : Server) (os : List Occurrence) : Prop :=
  ∀ x ∈ ledgers.trace (sv, Ledger.start) os, x.1.2.ClosesClean x.1.1 x.2

/-- **Every resource of a session is released once, and when the session is closed, exactly in the
runs in which each session that is closed lies in the last slot, does not quit, and has never logged
in.** -/
theorem resources_accounted_iff (sh : Shared) (managerSocket : Int) (os : List Occurrence) :
    (start sh managerSocket).ResourcesAccounted os ↔ (start sh managerSocket).AllCloseClean os := by
  constructor
  · intro h x hx
    have hroster : x.1.2.roster.Inv x.1.1 := by
      apply ledgers.trace_induction (fun x => x.2.roster.Inv x.1) _ _ x hx
      · intro y _ hy hgo
        exact hy.next hgo
      · exact Roster.inv_empty rfl
    obtain ⟨pre, hinitial, hpass, hstate⟩ := (Machine.mem_trace_iff ledgers).mp hx
    have hbefore := h pre ((List.prefix_append pre [x.2]).trans hinitial) hpass
    rw [← hstate] at hbefore
    cases hgo : ledgers.stop x.1 x.2 with
    | true => exact Ledger.closesClean_of_halted hgo
    | false =>
      have hgo' : ledgers.stop (ledgers.final _ pre) x.2 = false := hstate ▸ hgo
      have hafter := h (pre ++ [x.2]) hinitial (ledgers.passes_concat.mpr ⟨hpass, hgo'⟩)
      rw [ledgers.final_concat hpass, ← hstate] at hafter
      exact Ledger.closesClean_of_accounted hroster hbefore hafter
  · intro hclean pre hinitial hpass
    have hinv : ∀ pre, pre <+: os → ledgers.Passes (start sh managerSocket, Ledger.start) pre →
        (ledgers.final (start sh managerSocket, Ledger.start) pre).2.Inv
          (ledgers.final (start sh managerSocket, Ledger.start) pre).1 := by
      apply @Machine.final_induction _ _ ledgers fun x => x.2.Inv x.1
      · intro pre o hinitial hpass hinv hgo
        have hmem := (Machine.mem_trace_iff ledgers (x := (_, o))).mpr ⟨pre, hinitial, hpass, rfl⟩
        exact hinv.next (hclean _ hmem) hgo
      · exact Ledger.inv_start sh managerSocket
    exact (hinv pre hinitial hpass).accounted

/-- A single client that quits: its descriptor is closed twice. -/
theorem resources_released_twice :
    ¬ ∀ (sh : Shared) (managerSocket : Int) (os : List Occurrence),
      (start sh managerSocket).ResourcesAccounted os := by
  intro h
  have honce := (h sampleShared 4
    (accepting 4 5 ++ roundOf 4 5 none (delivery "QUIT\r\n" (by decide)))
    _ (List.prefix_refl _) (by decide +kernel)).once
  revert honce
  decide +kernel

end Server

end Pop3Server
