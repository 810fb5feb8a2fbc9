import Mathlib.Data.List.Basic
import Mathlib.Data.List.TakeWhile

/-!
# Cutting a list at a delimiter

`complete d l` are the pieces of `l` that are ended by a delimiter `d`, without
it, and `rest d l` is what follows the last one.  `complete_append` and
`rest_append` are the laws a reader of a stream in pieces relies on: only the
unfinished part of what was read so far matters for what comes next.
-/

namespace Splitting

universe u

variable {α : Type u} [DecidableEq α] (d : α)

/-- The pieces ended by the delimiter, and the unfinished rest. -/
def cut : List α → List (List α) × List α
  | [] => ([], [])
  | a :: l =>
    if a = d then ([] :: (cut l).1, (cut l).2)
    else
      match (cut l).1 with
      | [] => ([], a :: (cut l).2)
      | s :: segs => ((a :: s) :: segs, (cut l).2)

def complete (l : List α) : List (List α) := (cut d l).1

def rest (l : List α) : List α := (cut d l).2

@[simp] theorem complete_nil : complete d [] = [] := rfl

@[simp] theorem rest_nil : rest d ([] : List α) = [] := rfl

@[simp] theorem complete_cons_delim (l : List α) : complete d (d :: l) = [] :: complete d l := by
  simp [complete, cut]

@[simp] theorem rest_cons_delim (l : List α) : rest d (d :: l) = rest d l := by
  simp [rest, cut]

variable {d}

theorem cut_of_notMem {l : List α} (h : d ∉ l) : cut d l = ([], l) := by
  induction l with
  | nil => rfl
  | cons a l ih =>
    simp only [List.mem_cons, not_or] at h
    have ha : ¬ a = d := fun e => h.1 e.symm
    simp [cut, ha, ih h.2]

theorem complete_of_notMem {l : List α} (h : d ∉ l) : complete d l = [] := by
  rw [complete, cut_of_notMem h]

theorem rest_of_notMem {l : List α} (h : d ∉ l) : rest d l = l := by
  rw [rest, cut_of_notMem h]

/-- A prefix without delimiter goes in front of the first piece. -/
theorem cut_append_of_notMem {p : List α} (h : d ∉ p) (l : List α) :
    cut d (p ++ l) =
      match complete d l with
      | [] => ([], p ++ rest d l)
      | s :: segs => ((p ++ s) :: segs, rest d l) := by
  induction p with
  | nil =>
    unfold complete rest
    rcases hc : cut d l with ⟨_ | ⟨s, segs⟩, t⟩ <;> simp [hc]
  | cons a p ih =>
    simp only [List.mem_cons, not_or] at h
    have ha : ¬ a = d := fun e => h.1 e.symm
    rw [List.cons_append, cut, if_neg ha, ih h.2]
    rcases complete d l with _ | ⟨s, segs⟩ <;> rfl

/-- What is unfinished stays so behind a prefix without delimiter. -/
theorem rest_suffix_append {p : List α} (h : d ∉ p) (l : List α) : rest d l <:+ rest d (p ++ l) := by
  have hcut : rest d (p ++ l) = _ := congrArg Prod.snd (cut_append_of_notMem h l)
  rw [hcut]
  cases complete d l with
  | nil => exact List.suffix_append _ _
  | cons s segs => exact List.suffix_rfl

theorem complete_append_piece {p : List α} (h : d ∉ p) (l : List α) :
    complete d (p ++ d :: l) = p :: complete d l := by
  rw [complete, cut_append_of_notMem h, complete_cons_delim]
  simp

theorem rest_append_piece {p : List α} (h : d ∉ p) (l : List α) :
    rest d (p ++ d :: l) = rest d l := by
  rw [rest, cut_append_of_notMem h, complete_cons_delim]
  simp

theorem length_complete (l : List α) : (complete d l).length = l.count d := by
  induction l with
  | nil => rfl
  | cons a l ih =>
    by_cases ha : a = d
    · subst ha; simp [ih]
    · unfold complete at ih ⊢
      simp only [cut, if_neg ha, List.count_cons_of_ne ha]
      rcases hc : (cut d l).1 with _ | ⟨s, segs⟩ <;> simpa [hc] using ih

theorem notMem_rest (l : List α) : d ∉ rest d l := by
  induction l with
  | nil => simp
  | cons a l ih =>
    by_cases ha : a = d
    · subst ha; simpa using ih
    · unfold rest at ih ⊢
      simp only [cut, if_neg ha]
      rcases hc : (cut d l).1 with _ | ⟨s, segs⟩
      · simp only [List.mem_cons, not_or]
        exact ⟨fun e => ha e.symm, ih⟩
      · exact ih

/-- **Cutting resumes at the unfinished rest.** -/
theorem cut_append (l r : List α) :
    cut d (l ++ r) =
      (complete d l ++ complete d (rest d l ++ r), rest d (rest d l ++ r)) := by
  induction l with
  | nil => rfl
  | cons a l ih =>
    by_cases ha : a = d
    · subst ha
      rw [List.cons_append, cut, if_pos rfl, ih, complete_cons_delim, rest_cons_delim]
      rfl
    · rw [List.cons_append, cut, if_neg ha, ih]
      unfold complete rest
      simp only [cut, if_neg ha]
      rcases hc : (cut d l).1 with _ | ⟨s, segs⟩
      · simp only [List.nil_append, List.cons_append, cut, if_neg ha]
      · rfl

theorem complete_append (l r : List α) :
    complete d (l ++ r) = complete d l ++ complete d (rest d l ++ r) := by
  rw [complete, cut_append]

theorem rest_append (l r : List α) : rest d (l ++ r) = rest d (rest d l ++ r) := by
  rw [rest, cut_append]

/-- **Induction over the pieces.** -/
theorem induction {P : List α → Prop} (htail : ∀ t, d ∉ t → P t)
    (hpiece : ∀ s l, d ∉ s → P l → P (s ++ d :: l)) (l : List α) : P l := by
  suffices H : ∀ p, d ∉ p → P (p ++ l) from H [] (by simp)
  induction l with
  | nil => intro p hp; rw [List.append_nil]; exact htail p hp
  | cons a l ih =>
    intro p hp
    by_cases ha : a = d
    · subst ha
      exact hpiece p l hp (ih [] (by simp))
    · have hp' : d ∉ p ++ [a] := by
        simp only [List.mem_append, List.mem_singleton, not_or]
        exact ⟨hp, fun e => ha e.symm⟩
      simpa using ih (p ++ [a]) hp'

theorem flatten_complete_append_rest (l : List α) :
    ((complete d l).map (· ++ [d])).flatten ++ rest d l = l := by
  induction l with
  | nil => rfl
  | cons a l ih =>
    by_cases ha : a = d
    · subst ha
      rw [complete_cons_delim, rest_cons_delim]
      simpa using ih
    · unfold complete rest at ih ⊢
      simp only [cut, if_neg ha]
      rcases hc : (cut d l).1 with _ | ⟨s, segs⟩
      · rw [hc] at ih; simpa using ih
      · rw [hc] at ih; simpa using ih

theorem length_of_mem_complete {l s : List α} (hs : s ∈ complete d l) : s.length < l.length := by
  have hsub : (s ++ [d]).Sublist (((complete d l).map (· ++ [d])).flatten) :=
    List.sublist_flatten_of_mem (List.mem_map_of_mem hs)
  have hlen := congrArg List.length (flatten_complete_append_rest (d := d) l)
  have := hsub.length_le
  simp only [List.length_append, List.length_singleton] at hlen this
  omega

theorem length_rest_le (l : List α) : (rest d l).length ≤ l.length := by
  have hlen := congrArg List.length (flatten_complete_append_rest (d := d) l)
  rw [List.length_append] at hlen
  omega

/-! ### Fields -/

variable (d) in
/-- The pieces ended by the delimiter, and the rest when it is not empty. -/
def fields (l : List α) : List (List α) := complete d l ++ if rest d l = [] then [] else [rest d l]

@[simp] theorem fields_nil : fields d ([] : List α) = [] := rfl

theorem fields_of_notMem {l : List α} (h : d ∉ l) (hne : l ≠ []) : fields d l = [l] := by
  rw [fields, complete_of_notMem h, rest_of_notMem h, if_neg hne]
  rfl

theorem fields_append_piece {p : List α} (h : d ∉ p) (l : List α) :
    fields d (p ++ d :: l) = p :: fields d l := by
  rw [fields, complete_append_piece h, rest_append_piece h]
  rfl

/-- No field contains the delimiter. -/
theorem notMem_of_mem_fields {l f : List α} (hf : f ∈ fields d l) : d ∉ f := by
  induction l using Splitting.induction (d := d) with
  | htail t ht =>
    by_cases hne : t = []
    · rw [hne] at hf
      cases hf
    · rw [fields_of_notMem ht hne, List.mem_singleton] at hf
      rwa [hf]
  | hpiece seg l hseg ih =>
    rw [fields_append_piece hseg] at hf
    rcases List.mem_cons.mp hf with rfl | hf
    · exact hseg
    · exact ih hf

/-- **Fields that are joined can be told apart again** exactly when none contains the delimiter; the
last one must not be empty. -/
theorem fields_intercalate_iff {fs : List (List α)} {last : List α} (hlast : last ≠ []) :
    fields d ([d].intercalate (fs ++ [last])) = fs ++ [last] ↔ ∀ f ∈ fs ++ [last], d ∉ f := by
  constructor
  · intro h f hf
    rw [← h] at hf
    exact notMem_of_mem_fields hf
  · intro h
    induction fs with
    | nil => simpa using fields_of_notMem (h last (by simp)) hlast
    | cons f fs ih =>
      have hjoin : [d].intercalate (f :: fs ++ [last]) = f ++ d :: [d].intercalate (fs ++ [last]) := by
        obtain ⟨g, gs, hgs⟩ := List.exists_cons_of_ne_nil (l := fs ++ [last]) (by simp)
        rw [List.cons_append, hgs, List.intercalate_cons_cons, List.append_assoc]
        rfl
      rw [hjoin, fields_append_piece (h f (by simp)), ih fun g hg => h g (List.mem_cons_of_mem f hg)]
      rfl

/-! ### At the first delimiter -/

variable (d) in
/-- What lies in front of the first delimiter. -/
def before (l : List α) : List α := l.takeWhile (· ≠ d)

variable (d) in
/-- What follows the first delimiter, when there is one. -/
def after : List α → Option (List α)
  | [] => none
  | a :: l => if a = d then some l else after l

theorem before_of_notMem {l : List α} (h : d ∉ l) : before d l = l := by
  unfold before
  rw [List.takeWhile_eq_self_iff]
  intro a ha
  have hne : a ≠ d := fun e => h (e ▸ ha)
  simpa using hne

theorem after_of_notMem {l : List α} (h : d ∉ l) : after d l = none := by
  induction l with
  | nil => rfl
  | cons a l ih =>
    simp only [List.mem_cons, not_or] at h
    rw [after, if_neg fun e => h.1 e.symm, ih h.2]

theorem before_append_piece {p : List α} (h : d ∉ p) (l : List α) :
    before d (p ++ d :: l) = p := by
  have hp : ∀ a ∈ p, decide (a ≠ d) = true := by
    intro a ha
    have hne : a ≠ d := fun e => h (e ▸ ha)
    simpa using hne
  rw [before, List.takeWhile_append_of_pos hp]
  simp

theorem after_append_piece {p : List α} (h : d ∉ p) (l : List α) :
    after d (p ++ d :: l) = some l := by
  induction p with
  | nil => simp [after]
  | cons a p ih =>
    simp only [List.mem_cons, not_or] at h
    rw [List.cons_append, after, if_neg fun e => h.1 e.symm, ih h.2]

theorem eq_of_after {l r : List α} (h : after d l = some r) : l = before d l ++ d :: r := by
  by_cases hmem : d ∈ l
  · obtain ⟨p, rest, rfl, hp⟩ := List.eq_append_cons_of_mem hmem
    rw [after_append_piece hp] at h
    cases h
    rw [before_append_piece hp]
  · rw [after_of_notMem hmem] at h
    cases h

end Splitting
