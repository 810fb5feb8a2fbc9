import Mathlib.Logic.Function.Basic
import Pop3Server.Transitions

/-!
# Descriptor tables

A process names what it has open by descriptors, and a descriptor that has been
closed is given out again.  `Wiring` is the run of a process that opens, uses and
closes: under its rules, which are those of an operating system and of a process
that closes only what is its own, what a descriptor leads to can be read off the
labels of the run (`Wiring.leads_iff`).
-/

universe u v w

namespace Descriptors

open Function (update)

/-- What the descriptors of a process lead to. -/
abbrev Table (δ : Type u) (ω : Type v) := δ → Option ω

namespace Table

variable {δ : Type u} {ω : Type v}

def empty : Table δ ω := fun _ => none

/-- Some descriptor leads there. -/
def Holds (t : Table δ ω) (x : ω) : Prop := ∃ d, t d = some x

theorem not_holds_empty (x : ω) : ¬ (empty : Table δ ω).Holds x :=
  fun ⟨_, h⟩ => absurd h (Option.some_ne_none x).symm

variable [DecidableEq δ]

def opened (t : Table δ ω) (d : δ) (x : ω) : Table δ ω := update t d (some x)

def closed (t : Table δ ω) (d : δ) : Table δ ω := update t d none

variable {t : Table δ ω} {d d' : δ} {x y : ω}

theorem opened_eq_some (hfree : t d = none) :
    t.opened d x d' = some y ↔ t d' = some y ∨ (d' = d ∧ y = x) := by
  rw [opened, Function.update_apply]
  by_cases h : d' = d
  · subst h
    simp [hfree, eq_comm]
  · simp [h]

theorem closed_eq_some : t.closed d d' = some y ↔ t d' = some y ∧ d' ≠ d := by
  rw [closed, Function.update_apply]
  by_cases h : d' = d
  · simp [h]
  · simp [h]

theorem closed_of_free (h : t d = none) : t.closed d = t := by
  rw [closed, ← h]
  exact Function.update_eq_self d t

end Table

/-- What a process does with a descriptor. -/
inductive Use (α : Type w) where
  | opens
  | closes
  | acts (a : α)
deriving DecidableEq

/-- The table of a process, and what it has ever had open. -/
structure Wiring (δ : Type u) (ω : Type v) where
  table : Table δ ω
  known : ω → Prop

namespace Wiring

section Rules

variable {δ : Type u} {ω : Type v} {α : Type w} [DecidableEq δ]

def start : Wiring δ ω := ⟨.empty, fun _ => False⟩

/-- A label says for what a descriptor is used.  A new descriptor is a free one, an action that
needs its connection finds it, and nothing is closed on behalf of something else. -/
inductive Step (needs : α → Prop) (s : Wiring δ ω) : ω × δ × Use α → Wiring δ ω → Prop
  | opens {x d} (hfree : s.table d = none) (hnew : ¬ s.known x) :
      Step needs s (x, d, .opens) ⟨s.table.opened d x, fun y => s.known y ∨ y = x⟩
  | closes {x d} (hknown : s.known x) (hown : ∀ y, s.table d = some y → y = x) :
      Step needs s (x, d, .closes) ⟨s.table.closed d, s.known⟩
  | acts {x d a} (hleads : needs a → s.table d = some x) : Step needs s (x, d, .acts a) s

def system (needs : α → Prop) : LTS (Wiring δ ω) (ω × δ × Use α) := ⟨Step needs⟩

end Rules

variable {δ : Type u} {ω : Type v} {α : Type w}

/-- Something has been opened under a descriptor and not been closed since. -/
def Led (past : List (ω × δ × Use α)) (d : δ) (x : ω) : Prop :=
  (x, d, .opens) ∈ past ∧ (x, d, .closes) ∉ past

/-- Something is open after the labels of a run. -/
def Present (past : List (ω × δ × Use α)) (x : ω) : Prop := ∃ d, Led past d x

/-- What is opened stands in the labels, and only there. -/
structure Recorded (past : List (ω × δ × Use α)) (s : Wiring δ ω) : Prop where
  leads : ∀ d x, s.table d = some x ↔ Led past d x
  known : ∀ x, s.known x ↔ ∃ d, (x, d, .opens) ∈ past
  named : ∀ x d, (x, d, Use.closes) ∈ past → s.known x

variable {needs : α → Prop} {past : List (ω × δ × Use α)} {s s' : Wiring δ ω}

variable [DecidableEq δ]

/-- **Step lemma.** -/
theorem Recorded.step (h : Recorded past s) {a : ω × δ × Use α} (hstep : Step needs s a s') :
    Recorded (past ++ [a]) s' := by
  cases hstep with
  | @opens x d hfree hnew =>
    have hnever : ∀ d, (x, d, Use.opens) ∉ past := fun d hmem => hnew ((h.known x).mpr ⟨d, hmem⟩)
    have hnone : ∀ d, (x, d, Use.closes) ∉ past := fun d hmem => hnew (h.named x d hmem)
    constructor
    case leads =>
      intro d' y
      rw [Table.opened_eq_some hfree, h.leads, Led, Led]
      simp only [List.mem_append, List.mem_singleton, Prod.mk.injEq, reduceCtorEq, and_false,
        or_false, and_true]
      constructor
      · rintro (⟨hopens, hcloses⟩ | ⟨rfl, rfl⟩)
        · exact ⟨.inl hopens, hcloses⟩
        · exact ⟨.inr ⟨rfl, rfl⟩, hnone _⟩
      · rintro ⟨hopens | ⟨rfl, rfl⟩, hcloses⟩
        · exact .inl ⟨hopens, hcloses⟩
        · exact .inr ⟨rfl, rfl⟩
    case known =>
      intro y
      simp only [h.known y, List.mem_append, List.mem_singleton, Prod.mk.injEq, and_true]
      constructor
      · rintro (⟨d', hmem⟩ | rfl)
        · exact ⟨d', .inl hmem⟩
        · exact ⟨d, .inr ⟨rfl, rfl⟩⟩
      · rintro ⟨d', hmem | ⟨rfl, -⟩⟩
        · exact .inl ⟨d', hmem⟩
        · exact .inr rfl
    case named =>
      intro y d' hmem
      rcases List.mem_append.mp hmem with hmem | hmem
      · exact .inl (h.named y d' hmem)
      · cases List.mem_singleton.mp hmem
  | @closes x d hknown hown =>
    constructor
    case leads =>
      intro d' y
      rw [Table.closed_eq_some, h.leads, Led, Led]
      simp only [List.mem_append, List.mem_singleton, Prod.mk.injEq, reduceCtorEq, and_false,
        or_false, and_true, not_or, not_and]
      constructor
      · rintro ⟨⟨hopens, hcloses⟩, hne⟩
        exact ⟨hopens, hcloses, fun _ => hne⟩
      · rintro ⟨hopens, hcloses, hne⟩
        refine ⟨⟨hopens, hcloses⟩, fun hd => ?_⟩
        subst hd
        exact hne (hown y ((h.leads d' y).mpr ⟨hopens, hcloses⟩)) rfl
    case known =>
      intro y
      simp only [h.known y, List.mem_append, List.mem_singleton, Prod.mk.injEq, reduceCtorEq,
        and_false, or_false]
    case named =>
      intro y d' hmem
      rcases List.mem_append.mp hmem with hmem | hmem
      · exact h.named y d' hmem
      · cases List.mem_singleton.mp hmem
        exact hknown
  | @acts x d a _ =>
    constructor
    case leads =>
      intro d' y
      rw [h.leads, Led, Led]
      simp
    case known =>
      intro y
      simp [h.known y]
    case named =>
      intro y d' hmem
      refine h.named y d' ?_
      simpa using hmem

/-- **Run lemma.** -/
theorem recorded (h : (system needs).Run start past s) : Recorded past s := by
  refine h.history (R := Recorded) (fun past s a t hR hstep => hR.step hstep) ⟨?_, ?_, ?_⟩
  · intro d x
    constructor
    · exact fun h => absurd h (Option.some_ne_none x).symm
    · exact fun h => absurd h.1 List.not_mem_nil
  · intro x
    constructor
    · exact False.elim
    · exact fun ⟨_, h⟩ => absurd h List.not_mem_nil
  · exact fun x d h => absurd h List.not_mem_nil

/-- A descriptor leads to what has been opened under it and not been closed since. -/
theorem leads_iff (h : (system needs).Run start past s) {d : δ} {x : ω} :
    s.table d = some x ↔ Led past d x :=
  (recorded h).leads d x

/-- The labels of a run determine its table. -/
theorem table_unique {t : Wiring δ ω} (h : (system needs).Run start past s)
    (h' : (system needs).Run start past t) : s.table = t.table := by
  funext d
  apply Option.ext
  intro x
  exact (leads_iff h).trans (leads_iff h').symm

/-- What is open is present. -/
theorem holds_iff (h : (system needs).Run start past s) (x : ω) :
    s.table.Holds x ↔ Present past x :=
  exists_congr fun d => (recorded h).leads d x

end Wiring

end Descriptors
