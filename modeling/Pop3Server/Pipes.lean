import Mathlib.Data.List.Basic
import Pop3Server.Transitions

/-!
# Pipes

A process writes a fixed output into a pipe that holds up to `capacity` items,
and ends; others read.  A write waits for room, and kills the writer when nobody
has the pipe open for reading; a read waits for an item, and finds the end when
nobody has it open for writing.  `Channel.Step` says what can happen at the pipe,
given who has it open.
-/

universe u

namespace Pipes

variable {α : Type u}

/-- What the writer has still to write, or `none` when it has ended, and what lies in the pipe. -/
structure Channel (α : Type u) where
  output : Option (List α)
  held : List α

inductive Event (α : Type u) where
  | writes (data : List α)
  | exits
  | killed
  | reads (data : List α)
  | findsEnd

namespace Channel

/-- `reader` and `writer`: somebody has that end of the pipe. -/
inductive Step (capacity : Nat) (reader writer : Prop) : Channel α → Event α → Channel α → Prop
  | writes {data rest held} (hdata : data ≠ []) (hroom : held.length + data.length ≤ capacity)
      (hreader : reader) :
      Step capacity reader writer ⟨some (data ++ rest), held⟩ (.writes data)
        ⟨some rest, held ++ data⟩
  | exits {held} : Step capacity reader writer ⟨some [], held⟩ .exits ⟨none, held⟩
  | killed {rest held} (hrest : rest ≠ []) (hnobody : ¬ reader) :
      Step capacity reader writer ⟨some rest, held⟩ .killed ⟨none, held⟩
  | reads {output data held} (hdata : data ≠ []) :
      Step capacity reader writer ⟨output, data ++ held⟩ (.reads data) ⟨output, held⟩
  | findsEnd {output} (hnobody : ¬ writer) :
      Step capacity reader writer ⟨output, []⟩ .findsEnd ⟨output, []⟩

/-- What has still to be read. -/
def content (c : Channel α) : List α := c.held ++ c.output.getD []

/-- What is left to do, an item that has still to be written counting for more than one that lies in
the pipe. -/
def work (c : Channel α) : Nat :=
  match c.output with
  | none => 2 * c.held.length
  | some rest => 3 * rest.length + 2 * c.held.length + 1

/-- The writer waits for room. -/
def Full (capacity : Nat) (c : Channel α) : Prop :=
  c.held.length = capacity ∧ ∃ rest, c.output = some rest ∧ rest ≠ []

end Channel

/-- What an event takes out of the pipe. -/
def Event.taken : Event α → List α
  | .reads data => data
  | _ => []

namespace Channel

variable {capacity : Nat} {reader writer : Prop} {c c' : Channel α} {e : Event α}

/-! What each event says about the two states. -/

theorem Step.writes_output {data : List α} (h : Step capacity reader writer c (.writes data) c') :
    ∃ rest, c.output = some (data ++ rest) ∧ c'.output = some rest := by
  cases h with
  | writes _ _ _ => exact ⟨_, rfl, rfl⟩

theorem Step.writes_room {data : List α} (h : Step capacity reader writer c (.writes data) c') :
    data ≠ [] ∧ c.held.length + data.length ≤ capacity := by
  cases h with
  | writes hdata hroom _ => exact ⟨hdata, hroom⟩

theorem Step.exits_output (h : Step capacity reader writer c .exits c') :
    c.output = some [] ∧ c'.output = none := by
  cases h with
  | exits => exact ⟨rfl, rfl⟩

theorem Step.killed_output (h : Step capacity reader writer c .killed c') :
    ¬ reader ∧ ∃ rest, c.output = some rest := by
  cases h with
  | killed _ hnobody => exact ⟨hnobody, _, rfl⟩

theorem Step.reads_output {data : List α} (h : Step capacity reader writer c (.reads data) c') :
    data ≠ [] ∧ c'.output = c.output := by
  cases h with
  | reads hdata => exact ⟨hdata, rfl⟩

theorem Step.findsEnd_output (h : Step capacity reader writer c .findsEnd c') :
    ¬ writer ∧ c.held = [] ∧ c' = c := by
  cases h with
  | findsEnd hnobody => exact ⟨hnobody, rfl, rfl⟩

/-- **A pipe hands on what it was given**, in order, unless the writer is killed. -/
theorem Step.content (h : Step capacity reader writer c e c') (he : e ≠ .killed) :
    e.taken ++ c'.content = c.content := by
  cases h with
  | writes _ _ _ => simp [Event.taken, Channel.content]
  | exits => simp [Event.taken, Channel.content]
  | killed _ _ => exact absurd rfl he
  | reads _ => simp [Event.taken, Channel.content]
  | findsEnd _ => rfl

theorem Step.held_le (h : Step capacity reader writer c e c') (hle : c.held.length ≤ capacity) :
    c'.held.length ≤ capacity := by
  cases h with
  | writes _ hroom _ => simpa using hroom
  | exits => exact hle
  | killed _ _ => exact hle
  | reads _ =>
    rw [List.length_append] at hle
    exact Nat.le_trans (Nat.le_add_left _ _) hle
  | findsEnd _ => exact hle

theorem Step.work_le (h : Step capacity reader writer c e c') :
    c'.work + 2 * e.taken.length ≤ c.work := by
  cases h with
  | writes _ _ _ =>
    simp only [Channel.work, Event.taken, List.length_append, List.length_nil]
    omega
  | exits => simp [Channel.work, Event.taken]
  | killed _ _ =>
    simp only [Channel.work, Event.taken, List.length_nil]
    omega
  | @reads output data held _ =>
    cases output with
    | none =>
      simp only [Channel.work, Event.taken, List.length_append]
      omega
    | some rest =>
      simp only [Channel.work, Event.taken, List.length_append]
      omega
  | findsEnd _ => exact Nat.le_refl _

/-- Whatever the writer does leaves less to do. -/
theorem Step.work_lt (h : Step capacity reader writer c e c') (htaken : e.taken = [])
    (hend : e ≠ .findsEnd) : c'.work < c.work := by
  cases h with
  | writes hdata _ _ =>
    have hpos := List.length_pos_iff.mpr hdata
    simp only [Channel.work, List.length_append]
    omega
  | exits => simp [Channel.work]
  | killed _ _ =>
    simp only [Channel.work]
    omega
  | reads hdata => exact absurd htaken hdata
  | findsEnd _ => exact absurd rfl hend

/-- **Progress**: a writer that has not ended can go on unless it waits for room. -/
theorem writer_progress (hreader : reader) {rest : List α} (houtput : c.output = some rest)
    (hroom : c.held.length ≤ capacity) (hfull : ¬ c.Full capacity) :
    (rest = [] ∧ Step capacity reader writer c .exits ⟨none, c.held⟩) ∨
      ∃ data, data ≠ [] ∧ ∃ c', Step capacity reader writer c (.writes data) c' := by
  obtain ⟨output, held⟩ := c
  subst houtput
  cases rest with
  | nil => exact .inl ⟨rfl, .exits⟩
  | cons x rest =>
    have hless : held.length < capacity := by
      refine Nat.lt_of_le_of_ne hroom fun he => hfull ⟨he, x :: rest, rfl, by simp⟩
    exact .inr ⟨[x], by simp, _, @Step.writes _ capacity reader writer [x] rest held (by simp)
      (Nat.succ_le_of_lt hless) hreader⟩

/-- A reader can go on unless the pipe is empty and somebody may still write. -/
theorem reader_progress (h : c.held ≠ [] ∨ ¬ writer) :
    (∃ data c', data.length = 1 ∧ Step capacity reader writer c (.reads data) c') ∨
      Step capacity reader writer c .findsEnd c := by
  obtain ⟨output, held⟩ := c
  cases held with
  | nil =>
    have hnobody : ¬ writer := h.resolve_left fun hne => hne rfl
    exact .inr (.findsEnd hnobody)
  | cons x held =>
    exact .inl ⟨[x], ⟨output, held⟩, rfl,
      @Step.reads _ capacity reader writer output [x] held (by simp)⟩

end Channel

end Pipes
