import Pop3Server.PollLoop

/-!
# The sessions of a run

Sessions move between slots, and a slot is used by one session after the other.
`Roster` is a ghost of the server that numbers the sessions in the order in which
they are accepted and keeps which one lies in which slot: this is what the
statements about whole sessions speak of.
-/

namespace Pop3Server

open Function (update)

structure Roster where
  admitted : Nat
  owner : Nat → Nat

namespace Roster

def empty : Roster := ⟨0, fun _ => 0⟩

/-- The roster after a turn of the server `sv`. -/
def record (r : Roster) (sv : Server) : ServerEvent → Roster
  | .opened slot => ⟨r.admitted + 1, update r.owner slot r.admitted⟩
  | .served slot _ true => { r with owner := update r.owner slot (r.owner (sv.clientCount - 1)) }
  | _ => r

/-- A session is in the table. -/
def IsOpen (r : Roster) (sv : Server) (s : Nat) : Prop := ∃ k < sv.clientCount, r.owner k = s

/-- Every slot in use has a session of its own. -/
structure Inv (r : Roster) (sv : Server) : Prop where
  known : ∀ k < sv.clientCount, r.owner k < r.admitted
  distinct : ∀ k < sv.clientCount, ∀ k' < sv.clientCount, r.owner k = r.owner k' → k = k'

theorem inv_empty {sv : Server} (h : sv.clientCount = 0) : empty.Inv sv where
  known k hk := absurd hk (h ▸ Nat.not_lt_zero k)
  distinct k hk := absurd hk (h ▸ Nat.not_lt_zero k)

theorem Inv.of_count {r : Roster} {sv sv' : Server} (h : r.Inv sv)
    (hcount : sv'.clientCount = sv.clientCount) : r.Inv sv' where
  known k hk := h.known k (hcount ▸ hk)
  distinct k hk k' hk' := h.distinct k (hcount ▸ hk) k' (hcount ▸ hk')

theorem owner_opened (r : Roster) (sv : Server) (slot k : Nat) :
    (r.record sv (.opened slot)).owner k = if k = slot then r.admitted else r.owner k :=
  Function.update_apply _ _ _ _

/-- A new session is none of those there are. -/
theorem Inv.opened {r : Roster} {sv sv' : Server} (h : r.Inv sv)
    (hcount : sv'.clientCount = sv.clientCount + 1) :
    (r.record sv (.opened sv.clientCount)).Inv sv' := by
  have hnew : (r.record sv (.opened sv.clientCount)).owner sv.clientCount = r.admitted :=
    Function.update_self ..
  have hold : ∀ k < sv.clientCount, (r.record sv (.opened sv.clientCount)).owner k = r.owner k :=
    fun k hk => Function.update_of_ne (Nat.ne_of_lt hk) ..
  constructor
  · intro k hk
    rcases Nat.lt_succ_iff_lt_or_eq.mp (hcount ▸ hk) with hlt | rfl
    · rw [hold k hlt]
      exact Nat.lt_succ_of_lt (h.known k hlt)
    · rw [hnew]
      exact Nat.lt_succ_self _
  · rw [hcount]
    apply distinct_succ hold h.distinct
    intro k hk
    rw [hnew]
    exact Nat.ne_of_lt (h.known k hk)

/-- The slot of a closed session is given to the last one. -/
theorem owner_closed (r : Roster) (sv : Server) (slot : Nat) (xs : List Exchange) (k : Nat) :
    (r.record sv (.served slot xs true)).owner k =
      r.owner (if k = slot then sv.clientCount - 1 else k) := by
  change update r.owner slot _ k = _
  rw [Function.update_apply]
  split <;> rfl

theorem Inv.closed {r : Roster} {sv sv' : Server} (h : r.Inv sv) {slot : Nat}
    (hslot : slot < sv.clientCount) (hcount : sv'.clientCount = sv.clientCount - 1)
    (xs : List Exchange) : (r.record sv (.served slot xs true)).Inv sv' := by
  constructor
  · intro k hk
    rw [hcount] at hk
    rw [owner_closed]
    apply h.known
    split <;> omega
  · intro k hk k' hk' he
    rw [hcount] at hk hk'
    rw [owner_closed, owner_closed] at he
    have hsame := h.distinct _ (by split <;> omega) _ (by split <;> omega) he
    split at hsame <;> split at hsame <;> omega

/-- **Every turn keeps the sessions apart.** -/
theorem Inv.next {r : Roster} {sv : Server} (h : r.Inv sv) {o : Occurrence}
    (hgo : (sv.step o).halted = false) :
    (r.record sv (sv.step o).event).Inv (sv.step o).server := by
  cases sv.step_outcome o with
  | quiet hevent _ hcount =>
    rw [hevent]
    exact h.of_count hcount
  | opened _ _ _ _ hevent _ hcount =>
    rw [hevent]
    exact h.opened hcount
  | faulted _ _ hstop _ => cases hstop.symm.trans hgo
  | stayed _ _ _ _ _ hevent _ hcount =>
    rw [hevent]
    exact h.of_count hcount
  | closed slot hslot _ _ _ hevent _ hcount =>
    rw [hevent]
    exact h.closed hslot hcount _

theorem isOpen_of_count (r : Roster) {sv sv' : Server} (hcount : sv'.clientCount = sv.clientCount)
    (s : Nat) : r.IsOpen sv' s ↔ r.IsOpen sv s := by
  unfold IsOpen
  rw [hcount]

theorem isOpen_opened (r : Roster) {sv sv' : Server} (hcount : sv'.clientCount = sv.clientCount + 1)
    (s : Nat) : (r.record sv (.opened sv.clientCount)).IsOpen sv' s ↔
      r.IsOpen sv s ∨ s = r.admitted := by
  unfold IsOpen
  rw [hcount]
  constructor
  · rintro ⟨k, hk, rfl⟩
    rw [owner_opened]
    rcases Nat.lt_succ_iff_lt_or_eq.mp hk with hlt | rfl
    · rw [if_neg (Nat.ne_of_lt hlt)]
      exact .inl ⟨k, hlt, rfl⟩
    · exact .inr (if_pos rfl)
  · rintro (⟨k, hk, rfl⟩ | rfl)
    · refine ⟨k, Nat.lt_succ_of_lt hk, ?_⟩
      rw [owner_opened, if_neg (Nat.ne_of_lt hk)]
    · refine ⟨sv.clientCount, Nat.lt_succ_self _, ?_⟩
      rw [owner_opened, if_pos rfl]

/-- The sessions that are open after a close are those that were open, without the closed one. -/
theorem Inv.isOpen_closed {r : Roster} {sv sv' : Server} (h : r.Inv sv) {slot : Nat}
    (hslot : slot < sv.clientCount) (hcount : sv'.clientCount = sv.clientCount - 1)
    (xs : List Exchange) (s : Nat) :
    (r.record sv (.served slot xs true)).IsOpen sv' s ↔ r.IsOpen sv s ∧ s ≠ r.owner slot := by
  unfold IsOpen
  rw [hcount]
  constructor
  · rintro ⟨k, hk, rfl⟩
    rw [owner_closed]
    have hlt : (if k = slot then sv.clientCount - 1 else k) < sv.clientCount := by
      split <;> omega
    refine ⟨⟨_, hlt, rfl⟩, fun he => ?_⟩
    have hsame := h.distinct _ hlt _ hslot he
    split at hsame <;> omega
  · rintro ⟨⟨k, hk, rfl⟩, hne⟩
    have hks : k ≠ slot := fun he => hne (he ▸ rfl)
    by_cases hlast : k = sv.clientCount - 1
    · refine ⟨slot, by omega, ?_⟩
      rw [owner_closed, if_pos rfl, hlast]
    · refine ⟨k, by omega, ?_⟩
      rw [owner_closed, if_neg hks]

end Roster

end Pop3Server
