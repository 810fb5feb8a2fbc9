import Mathlib.Data.List.Basic
import Mathlib.Data.List.Induction

/-!
# Halting state machines and their runs

A machine reads inputs one at a time; each step yields the next state and may
end the run.  `trace` is the list of the steps it takes, each with the state it
was taken in.  The rules below are the induction principles used on runs: an
invariant of the state (`final_preserves`, `final_induction`, `trace_induction`),
a relation between the past of a run and its current state (`history`), a relation
between two runs (`unwinding`), and the splitting of a run at one of its steps
(`trace_split`).
-/

universe u v

/-- A deterministic machine. `stop s i` says that the step on `i` in state `s` is the last one of
the run. -/
structure Machine (σ : Type u) (ι : Type v) where
  next : σ → ι → σ
  stop : σ → ι → Bool

namespace Machine

variable {σ : Type u} {ι : Type v} (m : Machine σ ι)

def trace : σ → List ι → List (σ × ι)
  | _, [] => []
  | s, i :: is => (s, i) :: if m.stop s i then [] else trace (m.next s i) is

/-- The state a run ends in, the halting step included. -/
def final : σ → List ι → σ
  | s, [] => s
  | s, i :: is => if m.stop s i then m.next s i else final (m.next s i) is

/-- The run reads all its inputs and halts on none of them. -/
def Passes : σ → List ι → Prop
  | _, [] => True
  | s, i :: is => m.stop s i = false ∧ Passes (m.next s i) is

instance decidablePasses : ∀ (s : σ) (is : List ι), Decidable (m.Passes s is)
  | _, [] => .isTrue trivial
  | s, i :: is =>
    have := decidablePasses (m.next s i) is
    inferInstanceAs (Decidable (_ ∧ _))

@[simp] theorem trace_nil (s : σ) : m.trace s [] = [] := rfl

@[simp] theorem final_nil (s : σ) : m.final s [] = s := rfl

theorem trace_cons_stop {s : σ} {i : ι} (h : m.stop s i = true) (is : List ι) :
    m.trace s (i :: is) = [(s, i)] := by
  simp [trace, h]

theorem trace_cons_go {s : σ} {i : ι} (h : m.stop s i = false) (is : List ι) :
    m.trace s (i :: is) = (s, i) :: m.trace (m.next s i) is := by
  simp [trace, h]

theorem final_cons_stop {s : σ} {i : ι} (h : m.stop s i = true) (is : List ι) :
    m.final s (i :: is) = m.next s i := by
  simp [final, h]

theorem final_cons_go {s : σ} {i : ι} (h : m.stop s i = false) (is : List ι) :
    m.final s (i :: is) = m.final (m.next s i) is := by
  simp [final, h]

theorem trace_inputs_initial (s : σ) (is : List ι) : (m.trace s is).map Prod.snd <+: is := by
  induction is generalizing s with
  | nil => simp
  | cons i is ih =>
    cases h : m.stop s i with
    | true => simp [trace_cons_stop m h]
    | false => simpa [trace_cons_go m h] using ih (m.next s i)

/-- A run that does not halt before `js` goes on with them from where it stands. -/
theorem trace_append {s : σ} {is : List ι} (h : m.Passes s is) (js : List ι) :
    m.trace s (is ++ js) = m.trace s is ++ m.trace (m.final s is) js := by
  induction is generalizing s with
  | nil => rfl
  | cons i is ih =>
    obtain ⟨hgo, hrest⟩ := h
    rw [List.cons_append, trace_cons_go m hgo, trace_cons_go m hgo, final_cons_go m hgo, ih hrest,
      List.cons_append]

theorem final_append {s : σ} {is : List ι} (h : m.Passes s is) (js : List ι) :
    m.final s (is ++ js) = m.final (m.final s is) js := by
  induction is generalizing s with
  | nil => rfl
  | cons i is ih =>
    obtain ⟨hgo, hrest⟩ := h
    rw [List.cons_append, final_cons_go m hgo, final_cons_go m hgo, ih hrest]

theorem passes_append {s : σ} {is : List ι} (h : m.Passes s is) {js : List ι} :
    m.Passes s (is ++ js) ↔ m.Passes (m.final s is) js := by
  induction is generalizing s with
  | nil => rfl
  | cons i is ih =>
    obtain ⟨hgo, hrest⟩ := h
    rw [List.cons_append, Passes, final_cons_go m hgo, ih hrest]
    simp [hgo]

theorem Passes.of_append {m : Machine σ ι} {s : σ} {is js : List ι} (h : m.Passes s (is ++ js)) :
    m.Passes s is := by
  induction is generalizing s with
  | nil => trivial
  | cons i is ih => exact ⟨h.1, ih h.2⟩

/-- The run on `is` is the whole of a run that halts within `is`. -/
theorem trace_append_of_not_passes {s : σ} {is : List ι} (h : ¬ m.Passes s is) (js : List ι) :
    m.trace s (is ++ js) = m.trace s is := by
  induction is generalizing s with
  | nil => exact absurd trivial h
  | cons i is ih =>
    cases hgo : m.stop s i with
    | true => rw [List.cons_append, trace_cons_stop m hgo, trace_cons_stop m hgo]
    | false =>
      have hrest : ¬ m.Passes (m.next s i) is := fun hp => h ⟨hgo, hp⟩
      rw [List.cons_append, trace_cons_go m hgo, trace_cons_go m hgo, ih hrest]

theorem trace_inputs_of_passes {s : σ} {is : List ι} (h : m.Passes s is) :
    (m.trace s is).map Prod.snd = is := by
  induction is generalizing s with
  | nil => rfl
  | cons i is ih =>
    obtain ⟨hgo, hrest⟩ := h
    rw [trace_cons_go m hgo, List.map_cons, ih hrest]

/-- A run reads everything exactly when it halts on no input but the last one. -/
theorem trace_inputs_eq_iff {s : σ} {is : List ι} :
    (m.trace s is).map Prod.snd = is ↔ m.Passes s is.dropLast := by
  induction is generalizing s with
  | nil => simp [Passes]
  | cons i is ih =>
    cases is with
    | nil => simp [trace, Passes]
    | cons j js =>
      cases hgo : m.stop s i with
      | true => simp [trace_cons_stop m hgo, Passes, hgo]
      | false =>
        rw [trace_cons_go m hgo, List.map_cons, List.dropLast_cons_of_ne_nil (by simp), Passes,
          ← ih (s := m.next s i)]
        simp [hgo]

theorem Passes.dropLast {m : Machine σ ι} {s : σ} {is : List ι} (h : m.Passes s is) :
    m.Passes s is.dropLast :=
  m.trace_inputs_eq_iff.mp (m.trace_inputs_of_passes h)

theorem passes_or_halts (s : σ) (is : List ι) :
    m.Passes s is ∨ ∃ pre i, pre ++ [i] <+: is ∧ m.Passes s pre ∧
      m.stop (m.final s pre) i = true ∧ m.final s is = m.next (m.final s pre) i := by
  induction is generalizing s with
  | nil => exact .inl trivial
  | cons i is ih =>
    cases hgo : m.stop s i with
    | true => exact .inr ⟨[], i, by simp, trivial, hgo, final_cons_stop m hgo is⟩
    | false =>
      rcases ih (m.next s i) with hpass | ⟨pre, j, hinitial, hpass, hstop, hfinal⟩
      · exact .inl ⟨hgo, hpass⟩
      · refine .inr ⟨i :: pre, j, ?_, ⟨hgo, hpass⟩, ?_, ?_⟩
        · exact List.cons_prefix_cons.mpr ⟨rfl, hinitial⟩
        · rw [final_cons_go m hgo]; exact hstop
        · rw [final_cons_go m hgo, final_cons_go m hgo]; exact hfinal

/-! ### Ghosts -/

/-- The machine with a ghost that watches its steps and does not take part in them. -/
def ghost {γ : Type u} (watch : γ → σ → ι → γ) : Machine (σ × γ) ι where
  next x i := (m.next x.1 i, watch x.2 x.1 i)
  stop x i := m.stop x.1 i

variable {γ : Type u} (watch : γ → σ → ι → γ)

/-- The steps of the machine are those it takes without its ghost. -/
theorem trace_ghost (x : σ × γ) (is : List ι) :
    ((m.ghost watch).trace x is).map (fun y => (y.1.1, y.2)) = m.trace x.1 is := by
  induction is generalizing x with
  | nil => rfl
  | cons i is ih =>
    cases hgo : m.stop x.1 i with
    | true =>
      rw [trace_cons_stop (m.ghost watch) hgo, trace_cons_stop m hgo]
      rfl
    | false =>
      rw [trace_cons_go (m.ghost watch) hgo, trace_cons_go m hgo, List.map_cons, ih]
      rfl

theorem mem_trace_of_ghost {x : σ × γ} {is : List ι} {y : (σ × γ) × ι}
    (hy : y ∈ (m.ghost watch).trace x is) : (y.1.1, y.2) ∈ m.trace x.1 is :=
  m.trace_ghost watch x is ▸ List.mem_map_of_mem hy

theorem passes_ghost {x : σ × γ} {is : List ι} :
    (m.ghost watch).Passes x is ↔ m.Passes x.1 is := by
  induction is generalizing x with
  | nil => exact Iff.rfl
  | cons i is ih => exact and_congr_right fun _ => ih

theorem final_ghost (x : σ × γ) (is : List ι) :
    ((m.ghost watch).final x is).1 = m.final x.1 is := by
  induction is generalizing x with
  | nil => rfl
  | cons i is ih =>
    cases hgo : m.stop x.1 i with
    | true =>
      rw [final_cons_stop (m.ghost watch) hgo, final_cons_stop m hgo]
      rfl
    | false =>
      rw [final_cons_go (m.ghost watch) hgo, final_cons_go m hgo, ih]
      rfl

/-! ### Properties along a run -/

/-- `P` holds of every entry of a list together with what comes before it. -/
def Along {α : Type u} (l : List α) (P : List α → α → Prop) : Prop :=
  ∀ pre x post, l = pre ++ x :: post → P pre x

theorem along_nil {α : Type u} (P : List α → α → Prop) : Along [] P := by
  intro pre x post h
  simp at h

theorem along_cons_iff {α : Type u} {a : α} {l : List α} {P : List α → α → Prop} :
    Along (a :: l) P ↔ P [] a ∧ Along l fun pre x => P (a :: pre) x := by
  constructor
  · intro h
    exact ⟨h [] a l rfl, fun pre x post hl => h (a :: pre) x post (congrArg (a :: ·) hl)⟩
  · rintro ⟨ha, hl⟩ pre x post h
    cases pre with
    | nil =>
      obtain ⟨rfl, -⟩ := List.cons.inj h
      exact ha
    | cons b pre =>
      obtain ⟨rfl, hrest⟩ := List.cons.inj h
      exact hl pre x post hrest

theorem along_cons {α : Type u} {a : α} {l : List α} {P : List α → α → Prop} (ha : P [] a)
    (hl : Along l fun pre x => P (a :: pre) x) : Along (a :: l) P :=
  along_cons_iff.mpr ⟨ha, hl⟩

theorem along_append {α : Type u} {l l' : List α} {P : List α → α → Prop} (hl : Along l P)
    (hl' : Along l' fun pre x => P (l ++ pre) x) : Along (l ++ l') P := by
  induction l generalizing P with
  | nil => exact hl'
  | cons a l ih =>
    obtain ⟨ha, hrest⟩ := along_cons_iff.mp hl
    exact along_cons ha (ih hrest hl')

theorem Along.of_initial {α : Type u} {l l' : List α} {P : List α → α → Prop} (h : Along l P)
    (hinitial : l' <+: l) : Along l' P := by
  obtain ⟨rest, rfl⟩ := hinitial
  intro pre x post hl
  exact h pre x (post ++ rest) (by rw [hl, List.append_assoc, List.cons_append])

theorem Along.mem {α : Type u} {l : List α} {P : List α → α → Prop} (h : Along l P) {x : α}
    (hx : x ∈ l) : ∃ pre, pre ⊆ l ∧ P pre x := by
  obtain ⟨pre, post, rfl⟩ := List.append_of_mem hx
  exact ⟨pre, List.subset_append_left _ _, h pre x post rfl⟩

theorem along_getLast {α : Type u} {l : List α} {P : List α → α → Prop} (h : Along l P) :
    ∀ x ∈ l.getLast?, P l.dropLast x := by
  intro x hx
  obtain ⟨hne, rfl⟩ := List.mem_getLast?_eq_getLast hx
  exact h _ _ [] (List.dropLast_append_getLast hne).symm

/-- `P` holds of some entry of a list together with what comes before it. -/
def Once {α : Type u} (l : List α) (P : List α → α → Prop) : Prop :=
  ∃ pre x post, l = pre ++ x :: post ∧ P pre x

theorem not_once_nil {α : Type u} (P : List α → α → Prop) : ¬ Once [] P := by
  rintro ⟨pre, x, post, h, -⟩
  simp at h

theorem once_concat_iff {α : Type u} {a : α} {l : List α} {P : List α → α → Prop} :
    Once (l ++ [a]) P ↔ Once l P ∨ P l a := by
  constructor
  · rintro ⟨pre, x, post, h, hx⟩
    rcases List.eq_nil_or_concat post with rfl | ⟨post, b, rfl⟩
    · obtain ⟨rfl, rfl⟩ := List.append_singleton_inj.mp h
      exact .inr hx
    · rw [List.concat_eq_append, ← List.cons_append, ← List.append_assoc] at h
      exact .inl ⟨pre, x, post, (List.append_singleton_inj.mp h).1, hx⟩
  · rintro (⟨pre, x, post, rfl, hx⟩ | ha)
    · exact ⟨pre, x, post ++ [a], by simp, hx⟩
    · exact ⟨l, a, [], rfl, ha⟩

instance decidableAlong {α : Type u} : ∀ (l : List α) (P : List α → α → Prop)
    [∀ pre x, Decidable (P pre x)], Decidable (Along l P)
  | [], P, _ => .isTrue (along_nil P)
  | a :: l, P, _ =>
    have := decidableAlong l fun pre x => P (a :: pre) x
    decidable_of_iff' _ along_cons_iff

/-! ### Induction rules -/

theorem final_concat {s : σ} {is : List ι} (h : m.Passes s is) (i : ι) :
    m.final s (is ++ [i]) = m.next (m.final s is) i := by
  rw [final_append m h, final]
  split <;> rfl

theorem passes_concat {s : σ} {is : List ι} {i : ι} :
    m.Passes s (is ++ [i]) ↔ m.Passes s is ∧ m.stop (m.final s is) i = false := by
  constructor
  · intro h
    have his := Passes.of_append h
    exact ⟨his, ((passes_append m his).mp h).1⟩
  · rintro ⟨his, hgo⟩
    exact (passes_append m his).mpr ⟨hgo, trivial⟩

/-- What every step keeps, the last one included, holds at the end of a run. -/
theorem final_preserves {Inv : σ → Prop} (hstep : ∀ s i, Inv s → Inv (m.next s i)) {s : σ}
    (h0 : Inv s) (is : List ι) : Inv (m.final s is) := by
  induction is generalizing s with
  | nil => exact h0
  | cons i is ih =>
    cases hgo : m.stop s i with
    | true => rw [final_cons_stop m hgo]; exact hstep s i h0
    | false => rw [final_cons_go m hgo]; exact ih (hstep s i h0)

/-- **Prefix rule.** What holds at the start and is kept by every step that does not halt holds
after every part of a run that has not halted; the step may be told what came before it. -/
theorem final_induction {Inv : σ → Prop} {s : σ} {is : List ι}
    (hstep : ∀ pre i, pre ++ [i] <+: is → m.Passes s pre → Inv (m.final s pre) →
      m.stop (m.final s pre) i = false → Inv (m.next (m.final s pre) i))
    (h0 : Inv s) : ∀ pre, pre <+: is → m.Passes s pre → Inv (m.final s pre) := by
  intro pre
  induction pre using List.reverseRecOn with
  | nil => exact fun _ _ => h0
  | append_singleton pre i ih =>
    intro hinitial hpass
    obtain ⟨hpre, hgo⟩ := (passes_concat m).mp hpass
    rw [final_concat m hpre]
    exact hstep pre i hinitial hpre (ih ((List.prefix_append pre [i]).trans hinitial) hpre) hgo

/-- **History rule.** A relation between the steps already taken and the current state that holds
of the empty past and is kept by every step holds at every step of the run. -/
theorem history {R : List (σ × ι) → σ → Prop}
    (hstep : ∀ past s i, R past s → m.stop s i = false → R (past ++ [(s, i)]) (m.next s i))
    {s : σ} (h0 : R [] s) (is : List ι) {pre : List (σ × ι)} {x : σ × ι} {post : List (σ × ι)}
    (hx : m.trace s is = pre ++ x :: post) : R pre x.1 := by
  suffices H : ∀ (is : List ι) (past : List (σ × ι)) (s : σ), R past s →
      ∀ pre x post, m.trace s is = pre ++ x :: post → R (past ++ pre) x.1 by
    simpa using H is [] s h0 pre x post hx
  intro is
  induction is with
  | nil => intro past s _ pre x post hx; simp at hx
  | cons i is ih =>
    intro past s hR pre x post hx
    cases hgo : m.stop s i with
    | true =>
      rw [trace_cons_stop m hgo] at hx
      cases pre with
      | nil => simp only [List.nil_append, List.cons.injEq] at hx; simpa [← hx.1] using hR
      | cons p pre => simp at hx
    | false =>
      rw [trace_cons_go m hgo] at hx
      cases pre with
      | nil => simp only [List.nil_append, List.cons.injEq] at hx; simpa [← hx.1] using hR
      | cons p pre =>
        simp only [List.cons_append, List.cons.injEq] at hx
        obtain ⟨rfl, hx⟩ := hx
        simpa using ih (past ++ [(s, i)]) _ (hstep past s i hR hgo) pre x post hx

/-- Before any step of a run the machine has passed all the earlier ones, and the step starts in
the state they lead to. -/
theorem trace_split {s : σ} {is : List ι} {pre : List (σ × ι)} {x : σ × ι} {post : List (σ × ι)}
    (hx : m.trace s is = pre ++ x :: post) :
    m.Passes s (pre.map Prod.snd) ∧ x.1 = m.final s (pre.map Prod.snd) := by
  induction is generalizing s pre with
  | nil => simp at hx
  | cons i is ih =>
    cases hgo : m.stop s i with
    | true =>
      rw [trace_cons_stop m hgo] at hx
      cases pre with
      | nil => simp only [List.nil_append, List.cons.injEq] at hx; exact ⟨trivial, by simp [← hx.1]⟩
      | cons p pre => simp at hx
    | false =>
      rw [trace_cons_go m hgo] at hx
      cases pre with
      | nil => simp only [List.nil_append, List.cons.injEq] at hx; exact ⟨trivial, by simp [← hx.1]⟩
      | cons p pre =>
        simp only [List.cons_append, List.cons.injEq] at hx
        obtain ⟨rfl, hx⟩ := hx
        obtain ⟨hp, he⟩ := ih hx
        exact ⟨⟨hgo, hp⟩, by rw [List.map_cons, final_cons_go m hgo]; exact he⟩

/-- From any of its steps on a run is a run. -/
theorem trace_tail {s : σ} {is : List ι} {pre : List (σ × ι)} {x : σ × ι} {post : List (σ × ι)}
    (hx : m.trace s is = pre ++ x :: post) : ∃ js, m.trace x.1 js = x :: post := by
  induction is generalizing s pre with
  | nil => simp at hx
  | cons i is ih =>
    cases pre with
    | nil =>
      obtain rfl : (s, i) = x := (List.cons.inj hx).1
      exact ⟨i :: is, hx⟩
    | cons p pre =>
      rw [trace, List.cons_append] at hx
      have hrest := (List.cons.inj hx).2
      split at hrest
      · simp at hrest
      · exact ih hrest

theorem mem_trace_iff {s : σ} {is : List ι} {x : σ × ι} :
    x ∈ m.trace s is ↔ ∃ pre, pre ++ [x.2] <+: is ∧ m.Passes s pre ∧ x.1 = m.final s pre := by
  constructor
  · intro hx
    obtain ⟨pre, post, hpre⟩ := List.append_of_mem hx
    obtain ⟨hpass, hstate⟩ := trace_split m hpre
    refine ⟨pre.map Prod.snd, ?_, hpass, hstate⟩
    have hinputs := trace_inputs_initial m s is
    rw [hpre, List.map_append, List.map_cons] at hinputs
    exact ((List.prefix_append_right_inj _).mpr (by simp)).trans hinputs
  · rintro ⟨pre, ⟨post, rfl⟩, hpass, hstate⟩
    rw [List.append_assoc, trace_append m hpass, List.singleton_append, trace, ← hstate]
    exact List.mem_append_right _ List.mem_cons_self

/-- **Unwinding rule.** When a relation between states is kept by steps on inputs that `E` relates,
which then show what `O` relates and halt alike, two runs on related inputs show related things. -/
theorem unwinding {R : σ → σ → Prop} {E : ι → ι → Prop} {O : σ × ι → σ × ι → Prop}
    (hstep : ∀ {s s' i i'}, R s s' → E i i' → O (s, i) (s', i') ∧
      m.stop s i = m.stop s' i' ∧ (m.stop s i = false → R (m.next s i) (m.next s' i')))
    {s s' : σ} (hR : R s s') {is is' : List ι} (hsees : List.Forall₂ E is is') :
    List.Forall₂ O (m.trace s is) (m.trace s' is') ∧
      (m.Passes s is ↔ m.Passes s' is') ∧
      (m.Passes s is → R (m.final s is) (m.final s' is')) := by
  induction hsees generalizing s s' with
  | nil => exact ⟨.nil, Iff.rfl, fun _ => hR⟩
  | @cons i i' is is' hsame _ ih =>
    obtain ⟨hshows, hstop, hnext⟩ := hstep hR hsame
    cases hgo : m.stop s i with
    | true =>
      have hgo' : m.stop s' i' = true := hstop.symm.trans hgo
      rw [trace_cons_stop m hgo, trace_cons_stop m hgo']
      refine ⟨.cons hshows .nil, ?_, fun hpass => ?_⟩
      · simp [Passes, hgo, hgo']
      · exact absurd hpass.1 (by simp [hgo])
    | false =>
      have hgo' : m.stop s' i' = false := hstop.symm.trans hgo
      obtain ⟨htrace, hpasses, hfinal⟩ := ih (hnext hgo)
      rw [trace_cons_go m hgo, trace_cons_go m hgo', final_cons_go m hgo, final_cons_go m hgo']
      refine ⟨.cons hshows htrace, ?_, fun hpass => hfinal hpass.2⟩
      simp [Passes, hgo, hgo', hpasses]

/-- **Step rule.** What holds at the start and is kept by every step of the run that does not halt
holds wherever the run takes a step. -/
theorem trace_induction (Inv : σ → Prop) {s : σ} {is : List ι}
    (hstep : ∀ x ∈ m.trace s is, Inv x.1 → m.stop x.1 x.2 = false → Inv (m.next x.1 x.2))
    (h0 : Inv s) : ∀ x ∈ m.trace s is, Inv x.1 := by
  have hfinal := @final_induction _ _ m Inv s is (fun pre i hinitial hpass =>
    hstep (m.final s pre, i) ((mem_trace_iff m).mpr ⟨pre, hinitial, hpass, rfl⟩)) h0
  intro x hx
  obtain ⟨pre, hinitial, hpass, hstate⟩ := (mem_trace_iff m).mp hx
  rw [hstate]
  exact hfinal pre ((List.prefix_append pre [x.2]).trans hinitial) hpass

end Machine
