import Mathlib.Data.List.Infix

/-!
# Terminators and stuffed elements

`breakOn` looks for the first occurrence of a word in a list and returns what is
in front of it and what follows.  `unstuff` removes one element after each
occurrence of a pair.  These are the two steps of reading a block that ends in a
terminator and in which the sender has protected what looks like one.
-/

universe u

namespace Terminated

variable {α : Type u} [DecidableEq α]

/-- The list in front of the first occurrence of `word`, and what follows this occurrence. -/
def breakOn (word : List α) : List α → Option (List α × List α)
  | [] => if word = [] then some ([], []) else none
  | a :: l =>
    if word <+: a :: l then some ([], (a :: l).drop word.length)
    else (breakOn word l).map fun r => (a :: r.1, r.2)

theorem eq_of_breakOn {word l : List α} {r : List α × List α} (h : breakOn word l = some r) :
    l = r.1 ++ word ++ r.2 := by
  induction l generalizing r with
  | nil =>
    rw [breakOn] at h
    split at h
    · next hword => cases h; simp [hword]
    · cases h
  | cons a l ih =>
    rw [breakOn] at h
    split at h
    · next hword =>
      cases h
      obtain ⟨post, hpost⟩ := hword
      simp [← hpost]
    · obtain ⟨r', hr', rfl⟩ := Option.map_eq_some_iff.mp h
      simp [ih hr']

theorem breakOn_append {word before after : List α}
    (h : ∀ s ≠ [], s <:+ before → ¬ word <+: s ++ word ++ after) :
    breakOn word (before ++ word ++ after) = some (before, after) := by
  induction before with
  | nil =>
    cases word with
    | nil => cases after <;> simp [breakOn]
    | cons w word => simp [breakOn]
  | cons a before ih =>
    have hnot := h (a :: before) (by simp) (List.suffix_refl _)
    have hrest := ih fun s hs hsuffix => h s hs (hsuffix.trans (List.suffix_cons a before))
    simp only [List.cons_append] at hnot hrest ⊢
    rw [breakOn, if_neg hnot, hrest, Option.map_some]

/-- One `x` is removed after each occurrence of `u` and `v`. -/
def unstuff (u v x : α) : List α → List α
  | a :: b :: c :: l =>
    if a = u ∧ b = v ∧ c = x then a :: b :: unstuff u v x l
    else a :: unstuff u v x (b :: c :: l)
  | l => l

theorem length_unstuff_le (u v x : α) (l : List α) : (unstuff u v x l).length ≤ l.length := by
  fun_induction unstuff u v x l with
  | case1 a b c l h ih => simp only [List.length_cons]; omega
  | case2 a b c l h ih => simp only [List.length_cons] at ih ⊢; omega
  | case3 l h => exact Nat.le_refl _

omit [DecidableEq α] in
theorem prefix_three_iff {u v x a b c : α} {l : List α} :
    [u, v, x] <+: a :: b :: c :: l ↔ a = u ∧ b = v ∧ c = x := by
  simp [List.cons_prefix_cons, eq_comm]

theorem unstuff_of_notInfix {u v x : α} {l : List α} (h : ¬ [u, v, x] <:+: l) :
    unstuff u v x l = l := by
  fun_induction unstuff u v x l with
  | case1 a b c l hmatch ih =>
    exact absurd (prefix_three_iff.mpr hmatch).isInfix h
  | case2 a b c l hmatch ih =>
    rw [ih fun hoccurs => h (hoccurs.trans (List.suffix_cons a _).isInfix)]
  | case3 l hshort => rfl

theorem length_unstuff_lt {u v x : α} {l : List α} (h : [u, v, x] <:+: l) :
    (unstuff u v x l).length < l.length := by
  fun_induction unstuff u v x l with
  | case1 a b c l hmatch ih =>
    have := length_unstuff_le u v x l
    simp only [List.length_cons]; omega
  | case2 a b c l hmatch ih =>
    have hrest := (List.infix_cons_iff.mp h).resolve_left fun hinitial =>
      hmatch (prefix_three_iff.mp hinitial)
    have := ih hrest
    simp only [List.length_cons] at this ⊢; omega
  | case3 l hshort =>
    have hlen := h.length_le
    match l, hshort with
    | [], _ | [_], _ | [_, _], _ => simp at hlen
    | a :: b :: c :: l, hshort => exact absurd rfl (hshort a b c l)

end Terminated
