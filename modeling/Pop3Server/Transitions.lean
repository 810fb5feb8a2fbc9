import Pop3Server.Machine

/-!
# Labelled transition systems

A system takes labelled steps; `Run s as t` says that it goes from `s` to `t`
over the labels `as`.  Four rules are used on runs: what a step keeps with
respect to the labels so far (`Run.history`), a measure that bounds their length
(`Run.length_le`), the projection of a run of a family of components on one of
them (`Run.project`), and the simulation of a machine, each of whose steps the
system follows by a run (`Simulates`).
-/

universe u v w

/-- `step s a t`: the system goes from `s` to `t` and shows `a`. -/
structure LTS (σ : Type u) (ℓ : Type v) where
  step : σ → ℓ → σ → Prop

namespace LTS

variable {σ : Type u} {ℓ : Type v} (T : LTS σ ℓ)

inductive Run : σ → List ℓ → σ → Prop
  | nil {s} : Run s [] s
  | cons {s a t as u} (hstep : T.step s a t) (hrest : Run t as u) : Run s (a :: as) u

variable {T} {s t u : σ} {a : ℓ} {as bs : List ℓ}

theorem Run.single (h : T.step s a t) : T.Run s [a] t := .cons h .nil

theorem Run.append (h : T.Run s as t) (h' : T.Run t bs u) : T.Run s (as ++ bs) u := by
  induction h with
  | nil => exact h'
  | cons hstep _ ih => exact .cons hstep (ih h')

theorem Run.concat (h : T.Run s as t) (hstep : T.step t a u) : T.Run s (as ++ [a]) u :=
  h.append (.single hstep)

theorem Run.split (h : T.Run s (as ++ bs) u) : ∃ t, T.Run s as t ∧ T.Run t bs u := by
  induction as generalizing s with
  | nil => exact ⟨s, .nil, h⟩
  | cons a as ih =>
    cases h with
    | cons hstep hrest =>
      obtain ⟨t, has, hbs⟩ := ih hrest
      exact ⟨t, .cons hstep has, hbs⟩

/-- **History rule.** A relation between the labels so far and the state that holds at the start
and is kept by every step holds at the end. -/
theorem Run.history {R : List ℓ → σ → Prop}
    (hstep : ∀ past s a t, R past s → T.step s a t → R (past ++ [a]) t) (h0 : R [] s)
    (h : T.Run s as t) : R as t := by
  suffices H : ∀ {s t as}, T.Run s as t → ∀ past, R past s → R (past ++ as) t by
    exact H h [] h0
  intro s t as h
  induction h with
  | nil =>
    intro past hR
    rwa [List.append_nil]
  | cons hs _ ih =>
    intro past hR
    have hnext := ih _ (hstep past _ _ _ hR hs)
    rwa [List.append_assoc] at hnext

/-- Every label of a run is shown by a step that comes after the labels in front of it. -/
theorem Run.at (h : T.Run s (as ++ a :: bs) u) :
    ∃ t t', T.Run s as t ∧ T.step t a t' ∧ T.Run t' bs u := by
  obtain ⟨t, has, hrest⟩ := h.split
  cases hrest with
  | cons hstep hbs => exact ⟨t, _, has, hstep, hbs⟩

/-- No step leads on. -/
def Stuck (T : LTS σ ℓ) (s : σ) : Prop := ∀ a t, ¬ T.step s a t

/-- **Measure rule.** When every step makes a measure smaller, it bounds the length of a run. -/
theorem Run.length_le {μ : σ → Nat} (hstep : ∀ s a t, T.step s a t → μ t < μ s) (h : T.Run s as t) :
    as.length + μ t ≤ μ s := by
  induction h with
  | nil => simp
  | cons hs _ ih =>
    have hless := hstep _ _ _ hs
    rw [List.length_cons]
    omega

/-! ### Families of components -/

section Project

variable {κ : Type w} [DecidableEq κ] {ρ : Type u} {α : Type v}

/-- The labels a component shows. -/
def thread (k : κ) (as : List (κ × α)) : List α :=
  (as.filter (·.1 = k)).map Prod.snd

@[simp] theorem thread_nil (k : κ) : thread k ([] : List (κ × α)) = [] := rfl

theorem thread_cons_self (k : κ) (a : α) (as : List (κ × α)) :
    thread k ((k, a) :: as) = a :: thread k as := by
  simp [thread]

theorem thread_cons_other {k k' : κ} (h : k' ≠ k) (a : α) (as : List (κ × α)) :
    thread k ((k', a) :: as) = thread k as := by
  simp [thread, h]

theorem mem_thread {k : κ} {a : α} {as : List (κ × α)} : a ∈ thread k as ↔ (k, a) ∈ as := by
  simp [thread]

/-- **Projection.** In a system whose steps move one component by a step of its own and leave the
others alone, the labels of a component are a run of it. -/
theorem Run.project {T : LTS σ (κ × α)} {C : LTS ρ α} (part : σ → κ → ρ)
    (hown : ∀ {s k a t}, T.step s (k, a) t → C.step (part s k) a (part t k))
    (hframe : ∀ {s k a t}, T.step s (k, a) t → ∀ k' ≠ k, part t k' = part s k') (k : κ)
    {as : List (κ × α)} (h : T.Run s as t) : C.Run (part s k) (thread k as) (part t k) := by
  induction h with
  | nil => exact .nil
  | @cons s b t as u hstep _ ih =>
    obtain ⟨k', b⟩ := b
    by_cases hk : k' = k
    · subst hk
      rw [thread_cons_self]
      exact .cons (hown hstep) ih
    · rw [thread_cons_other hk, ← hframe hstep k fun he => hk he.symm]
      exact ih

end Project

end LTS

/-! ### Simulation of a machine -/

namespace Machine

variable {σ : Type u} {ι : Type v} {τ : Type u} {ℓ : Type v}

/-- What the steps of a run show. -/
def emitted (m : Machine σ ι) (emits : σ → ι → List ℓ) (s : σ) (is : List ι) : List ℓ :=
  (m.trace s is).flatMap fun x => emits x.1 x.2

/-- The system follows each step of the machine, and is related to it again unless that was the
last one. -/
structure Simulates (T : LTS τ ℓ) (m : Machine σ ι) (emits : σ → ι → List ℓ) (R : σ → τ → Prop) :
    Prop where
  follow : ∀ s i t, R s t →
    ∃ t', T.Run t (emits s i) t' ∧ (m.stop s i = false → R (m.next s i) t')

/-- A run of a machine is followed by a run that shows the same, when each of its steps is. -/
theorem emitted_run {T : LTS τ ℓ} {m : Machine σ ι} {emits : σ → ι → List ℓ} {R : σ → τ → Prop}
    {P : σ → ι → Prop} (hfollow : ∀ s i t, R s t → P s i →
      ∃ t', T.Run t (emits s i) t' ∧ (m.stop s i = false → R (m.next s i) t'))
    {s : σ} {t : τ} (hR : R s t) {is : List ι} (hP : ∀ x ∈ m.trace s is, P x.1 x.2) :
    ∃ t', T.Run t (m.emitted emits s is) t' ∧ (m.Passes s is → R (m.final s is) t') := by
  induction is generalizing s t with
  | nil => exact ⟨t, .nil, fun _ => hR⟩
  | cons i is ih =>
    cases hgo : m.stop s i with
    | true =>
      rw [trace_cons_stop m hgo] at hP
      obtain ⟨t', hrun, -⟩ := hfollow s i t hR (hP (s, i) List.mem_cons_self)
      refine ⟨t', ?_, fun hpass => absurd (hgo.symm.trans hpass.1) (by decide)⟩
      rw [emitted, trace_cons_stop m hgo, List.flatMap_singleton]
      exact hrun
    | false =>
      rw [trace_cons_go m hgo] at hP
      obtain ⟨t', hrun, hnext⟩ := hfollow s i t hR (hP (s, i) List.mem_cons_self)
      obtain ⟨t'', hrest, hfinal⟩ := ih (hnext hgo) fun x hx => hP x (List.mem_cons_of_mem _ hx)
      refine ⟨t'', ?_, fun hpass => ?_⟩
      · rw [emitted, trace_cons_go m hgo, List.flatMap_cons]
        exact hrun.append hrest
      · rw [final_cons_go m hgo]
        exact hfinal hpass.2

/-- **Every run of a machine is followed by a run that shows the same.** -/
theorem Simulates.run {T : LTS τ ℓ} {m : Machine σ ι} {emits : σ → ι → List ℓ} {R : σ → τ → Prop}
    (h : Simulates T m emits R) {s : σ} {t : τ} (hR : R s t) (is : List ι) :
    ∃ t', T.Run t (m.emitted emits s is) t' ∧ (m.Passes s is → R (m.final s is) t') :=
  emitted_run (P := fun _ _ => True) (fun s i t hR _ => h.follow s i t hR) hR fun _ _ => trivial

end Machine
