import Mathlib.Data.List.Basic
import Mathlib.Data.List.Induction

/-!
# Folds that can fail

Going through a list with a step that can fail ends at the first item whose step
does.  When what each item does is known from the items in front of it
(`Foretold`), the outcome can be told from the list alone: `Foretold.verdict`.
`last` is the field that every item sets anew or leaves alone.
-/

universe u v w x

namespace Folding

variable {σ : Type u} {ι : Type v} {ε : Type w} {α : Type x}

/-- What the last item that sets a field has set it to, and `start` when none does. -/
def last (sets : ι → Option α) (start : α) (is : List ι) : α :=
  (is.filterMap sets).getLast?.getD start

theorem last_concat (sets : ι → Option α) (start : α) (past : List ι) (i : ι) :
    last sets start (past ++ [i]) = (sets i).getD (last sets start past) := by
  unfold last
  rw [List.filterMap_append]
  cases hset : sets i with
  | none => rw [List.filterMap_cons_none hset, List.filterMap_nil, List.append_nil]; rfl
  | some a => rw [List.filterMap_cons_some hset, List.filterMap_nil, List.getLast?_concat]; rfl

theorem last_of_unset {sets : ι → Option α} {is : List ι} (h : ∀ i ∈ is, sets i = none) (start : α) :
    last sets start is = start := by
  rw [last, List.filterMap_eq_nil_iff.mpr h]
  rfl

theorem last_append (sets : ι → Option α) (start : α) (is js : List ι) :
    last sets start (is ++ js) = last sets (last sets start is) js := by
  induction js using List.reverseRecOn with
  | nil => rw [List.append_nil]; rfl
  | append_singleton js j ih => rw [← List.append_assoc, last_concat, last_concat, ih]

/-- Every item that sets the field sets it to `a`, and there is one. -/
theorem last_of_all {sets : ι → Option α} {is : List ι} {a : α}
    (hall : ∀ i ∈ is, sets i = none ∨ sets i = some a) {i : ι} (hi : i ∈ is) (hset : sets i = some a)
    (start : α) : last sets start is = a := by
  induction is using List.reverseRecOn with
  | nil => exact absurd hi List.not_mem_nil
  | append_singleton past j ih =>
    rw [last_concat]
    rcases hall j (by simp) with hj | hj
    · rw [hj]
      apply ih fun k hk => hall k (List.mem_append_left _ hk)
      rcases List.mem_append.mp hi with hi | hi
      · exact hi
      · cases List.mem_singleton.mp hi
        cases hj.symm.trans hset
    · rw [hj]
      rfl

/-- What holds at the start and of everything the field is set to holds of the field. -/
theorem last_induction {sets : ι → Option α} {P : α → Prop} {start : α} (hstart : P start)
    {is : List ι} (h : ∀ i ∈ is, ∀ a, sets i = some a → P a) : P (last sets start is) := by
  induction is using List.reverseRecOn with
  | nil => exact hstart
  | append_singleton past j ih =>
    have hpast := ih fun i hi => h i (List.mem_append_left _ hi)
    rw [last_concat]
    cases hj : sets j with
    | none => exact hpast
    | some a => exact h j (by simp) a hj

/-- No item fails behind those in front of it. -/
def Accepted (fails : List ι → ι → Option ε) (is : List ι) : Prop :=
  ∀ pre i post, is = pre ++ i :: post → fails pre i = none

/-- `i` is the first item that fails. -/
structure FailsAt (fails : List ι → ι → Option ε) (is : List ι) (e : ε) (pre : List ι) (i : ι) :
    Prop where
  place : ∃ post, is = pre ++ i :: post
  accepted : Accepted fails pre
  fails : fails pre i = some e

variable {fails : List ι → ι → Option ε} {is : List ι}

theorem Accepted.nil : Accepted fails [] := fun pre i post h => absurd h (by simp)

theorem Accepted.concat {past : List ι} (h : Accepted fails past) {i : ι}
    (hi : fails past i = none) : Accepted fails (past ++ [i]) := by
  intro pre j post heq
  rcases List.append_eq_append_iff.mp heq with ⟨mid, rfl, hmid⟩ | ⟨mid, rfl, hmid⟩
  · -- the item is the last one
    cases mid with
    | nil =>
      obtain ⟨rfl, -⟩ := List.cons.inj hmid
      rwa [List.append_nil]
    | cons k mid =>
      have hlength := congrArg List.length hmid
      simp only [List.length_cons, List.length_append, List.length_nil] at hlength
      omega
  · cases mid with
    | nil =>
      obtain ⟨rfl, -⟩ := List.cons.inj hmid
      rwa [List.append_nil] at hi
    | cons k mid =>
      obtain ⟨rfl, -⟩ := List.cons.inj hmid
      exact h pre _ mid rfl

theorem Accepted.of_concat {past : List ι} {i : ι} (h : Accepted fails (past ++ [i])) :
    Accepted fails past ∧ fails past i = none := by
  refine ⟨fun pre j post heq => h pre j (post ++ [i]) ?_, h past i [] rfl⟩
  rw [heq, List.append_assoc, List.cons_append]

/-- Items that never fail can follow. -/
theorem Accepted.append {past : List ι} (h : Accepted fails past) {is : List ι}
    (his : ∀ i ∈ is, ∀ pre, fails pre i = none) : Accepted fails (past ++ is) := by
  induction is using List.reverseRecOn with
  | nil => rwa [List.append_nil]
  | append_singleton is i ih =>
    rw [← List.append_assoc]
    exact (ih fun j hj => his j (List.mem_append_left _ hj)).concat (his i (by simp) _)

theorem Accepted.not_failsAt (h : Accepted fails is) {e : ε} {pre : List ι} {i : ι} :
    ¬ FailsAt fails is e pre i := by
  rintro ⟨⟨post, hsplit⟩, -, hi⟩
  cases (h pre i post hsplit).symm.trans hi

/-- The first item that fails is the only first one. -/
theorem FailsAt.unique {e e' : ε} {pre pre' : List ι} {i i' : ι} (h : FailsAt fails is e pre i)
    (h' : FailsAt fails is e' pre' i') : e = e' := by
  obtain ⟨⟨post, hsplit⟩, haccepted, hi⟩ := h
  obtain ⟨⟨post', hsplit'⟩, haccepted', hi'⟩ := h'
  rcases List.append_eq_append_iff.mp (hsplit.symm.trans hsplit') with
    ⟨mid, rfl, hmid⟩ | ⟨mid, rfl, hmid⟩
  · cases mid with
    | nil =>
      obtain ⟨rfl, -⟩ := List.cons.inj hmid
      rw [List.append_nil] at hi'
      exact Option.some.inj (hi.symm.trans hi')
    | cons j mid =>
      obtain ⟨rfl, -⟩ := List.cons.inj hmid
      cases (haccepted' pre i mid rfl).symm.trans hi
  · cases mid with
    | nil =>
      obtain ⟨rfl, -⟩ := List.cons.inj hmid
      rw [List.append_nil] at hi
      exact Option.some.inj (hi.symm.trans hi')
    | cons j mid =>
      obtain ⟨rfl, -⟩ := List.cons.inj hmid
      cases (haccepted pre' i' mid rfl).symm.trans hi'

/-- What a step does is told by the items so far: it fails as `fails` says, or what `R` says of the
items and the state holds again. -/
structure Foretold (f : σ → ι → Except ε σ) (fails : List ι → ι → Option ε)
    (R : List ι → σ → Prop) : Prop where
  failed : ∀ {past s i e}, R past s → fails past i = some e → f s i = .error e
  passed : ∀ {past s i}, R past s → fails past i = none → ∃ s', f s i = .ok s' ∧ R (past ++ [i]) s'

/-- The outcome of a fold, as told from its list. -/
inductive Verdict (fails : List ι → ι → Option ε) (R : List ι → σ → Prop) (is : List ι) :
    Except ε σ → Prop
  | failed {e pre i} (h : FailsAt fails is e pre i) : Verdict fails R is (.error e)
  | passed {s} (haccepted : Accepted fails is) (hR : R is s) : Verdict fails R is (.ok s)

/-- **The outcome of the fold is the one that can be told from the list.** -/
theorem Foretold.verdict {f : σ → ι → Except ε σ} {R : List ι → σ → Prop}
    (h : Foretold f fails R) {s : σ} (hs : R [] s) (is : List ι) :
    Verdict fails R is (is.foldlM f s) := by
  suffices H : ∀ past s, Accepted fails past → R past s →
      Verdict fails R (past ++ is) (is.foldlM f s) by
    exact H [] s .nil hs
  induction is with
  | nil =>
    intro past s haccepted hR
    rw [List.append_nil]
    exact .passed haccepted hR
  | cons i is ih =>
    intro past s haccepted hR
    rw [List.foldlM_cons]
    cases hi : fails past i with
    | some e =>
      rw [h.failed hR hi]
      exact .failed ⟨⟨is, rfl⟩, haccepted, hi⟩
    | none =>
      obtain ⟨s', hstep, hnext⟩ := h.passed hR hi
      have hrest := ih (past ++ [i]) s' (haccepted.concat hi) hnext
      rw [List.append_assoc, List.singleton_append] at hrest
      rw [hstep]
      exact hrest

end Folding
