import Mathlib.Data.List.TakeDrop

/-!
# Taking a list in pieces

A reader that is offered some of the elements that are there takes at least one
of them and at most `cap`.  `pieces` is what it takes, read by read, until nothing
is left, and `upTo p` are the pieces a reader takes that stops at the first one
with the property `p`.  `upTo_flatten_iff` says when these are all of them.
-/

universe u

namespace Pieces

variable {α : Type u}

/-- How many elements a read takes when `offered` of them have arrived. -/
def size (cap offered : Nat) : Nat := max 1 (min offered cap)

/-- At most `turns` reads.  `sizes` says what the first ones are offered; the later ones are
offered as much as they can take. -/
def reads (cap : Nat) : Nat → List Nat → List α → List (List α)
  | turns + 1, sizes, a :: l =>
    let n := size cap (sizes.headD cap)
    (a :: l).take n :: reads cap turns sizes.tail ((a :: l).drop n)
  | _, _, _ => []

/-- The pieces a list is taken in: a read takes an element, so there are no more of them. -/
def pieces (cap : Nat) (sizes : List Nat) (l : List α) : List (List α) :=
  reads cap l.length sizes l

/-- The pieces up to the first one with the property. -/
def upTo (p : List α → Bool) : List (List α) → List (List α)
  | [] => []
  | c :: cs => c :: if p c then [] else upTo p cs

/-- The last piece has the property, and no earlier one has. -/
def StopsAtEnd (p : List α → Bool) (cs : List (List α)) : Prop :=
  cs.getLast?.any p = true ∧ ∀ c ∈ cs.dropLast, p c = false

instance (p : List α → Bool) (cs : List (List α)) : Decidable (StopsAtEnd p cs) :=
  inferInstanceAs (Decidable (_ ∧ _))

/-! ### The pieces -/

section Cap

variable (cap : Nat)

theorem size_pos (offered : Nat) : 0 < size cap offered :=
  Nat.lt_of_lt_of_le Nat.zero_lt_one (Nat.le_max_left _ _)

theorem length_drop_size {l : List α} {turns : Nat} (h : l.length ≤ turns + 1) (offered : Nat) :
    (l.drop (size cap offered)).length ≤ turns := by
  have hpos := size_pos cap offered
  rw [List.length_drop]
  omega

/-- More turns than elements change nothing. -/
theorem reads_of_le {turns : Nat} {l : List α} (h : l.length ≤ turns) (sizes : List Nat) :
    reads cap turns sizes l = pieces cap sizes l := by
  suffices H : ∀ (m n : Nat) (sizes : List Nat) (l : List α), l.length ≤ m → l.length ≤ n →
      reads cap m sizes l = reads cap n sizes l from H _ _ sizes l h (Nat.le_refl _)
  intro m
  induction m with
  | zero =>
    intro n sizes l hm _
    obtain rfl := List.eq_nil_of_length_eq_zero (Nat.le_zero.mp hm)
    cases n <;> rfl
  | succ m ih =>
    intro n sizes l hm hn
    cases l with
    | nil => cases n <;> rfl
    | cons a l =>
      cases n with
      | zero => cases hn
      | succ n =>
        rw [reads, reads, ih n]
        · exact length_drop_size cap hm _
        · exact length_drop_size cap hn _

@[simp] theorem pieces_nil (sizes : List Nat) : pieces cap sizes ([] : List α) = [] := rfl

theorem pieces_of_ne_nil {l : List α} (h : l ≠ []) (sizes : List Nat) :
    pieces cap sizes l = l.take (size cap (sizes.headD cap)) ::
      pieces cap sizes.tail (l.drop (size cap (sizes.headD cap))) := by
  cases l with
  | nil => exact absurd rfl h
  | cons a l =>
    have hturns : pieces cap sizes (a :: l) = reads cap (l.length + 1) sizes (a :: l) := rfl
    rw [hturns, reads, reads_of_le cap (length_drop_size cap (Nat.le_refl (l.length + 1)) _)]

/-- **Piece rule.** What holds of nothing, and of a list when it holds of what a read leaves of it,
holds of every list. -/
theorem read_induction {P : List Nat → List α → Prop} (hnil : ∀ sizes, P sizes [])
    (hread : ∀ sizes l, l ≠ [] → P sizes.tail (l.drop (size cap (sizes.headD cap))) → P sizes l)
    (sizes : List Nat) (l : List α) : P sizes l := by
  suffices H : ∀ (n : Nat) (sizes : List Nat) (l : List α), l.length ≤ n → P sizes l from
    H _ sizes l (Nat.le_refl _)
  intro n
  induction n with
  | zero =>
    intro sizes l h
    obtain rfl := List.eq_nil_of_length_eq_zero (Nat.le_zero.mp h)
    exact hnil sizes
  | succ n ih =>
    intro sizes l h
    by_cases hl : l = []
    · rw [hl]
      exact hnil sizes
    · apply hread sizes l hl
      apply ih
      exact length_drop_size cap h _

theorem flatten_pieces (sizes : List Nat) (l : List α) : (pieces cap sizes l).flatten = l := by
  induction sizes, l using read_induction cap with
  | hnil sizes => rfl
  | hread sizes l hl ih =>
    rw [pieces_of_ne_nil cap hl, List.flatten_cons, ih, List.take_append_drop]

theorem ne_nil_of_mem_pieces (sizes : List Nat) (l : List α) :
    ∀ c ∈ pieces cap sizes l, c ≠ [] := by
  induction sizes, l using read_induction cap with
  | hnil sizes =>
    intro c hc
    cases hc
  | hread sizes l hl ih =>
    intro c hc
    rw [pieces_of_ne_nil cap hl] at hc
    rcases List.mem_cons.mp hc with rfl | hc
    · intro htake
      rcases List.take_eq_nil_iff.mp htake with hzero | hnil
      · exact absurd hzero (Nat.ne_of_gt (size_pos cap _))
      · exact hl hnil
    · exact ih c hc

/-- No piece is longer than a read can take. -/
theorem length_le_of_mem_pieces (hcap : 0 < cap) (sizes : List Nat) (l : List α) :
    ∀ c ∈ pieces cap sizes l, c.length ≤ cap := by
  induction sizes, l using read_induction cap with
  | hnil sizes =>
    intro c hc
    cases hc
  | hread sizes l hl ih =>
    intro c hc
    rw [pieces_of_ne_nil cap hl] at hc
    rcases List.mem_cons.mp hc with rfl | hc
    · have hsize : size cap (sizes.headD cap) ≤ cap :=
        Nat.max_le.mpr ⟨hcap, Nat.min_le_right _ _⟩
      exact Nat.le_trans (List.length_take_le _ _) hsize
    · exact ih c hc

/-- The first read takes a list whole exactly when it is the only one. -/
theorem take_size_eq_iff {l : List α} (h : l ≠ []) (sizes : List Nat) :
    l.take (size cap (sizes.headD cap)) = l ↔ (pieces cap sizes l).length = 1 := by
  rw [List.take_eq_self_iff, ← List.drop_eq_nil_iff, pieces_of_ne_nil cap h, List.length_cons]
  constructor
  · intro hnone
    rw [hnone]
    rfl
  · intro hone
    have hnone := List.eq_nil_of_length_eq_zero (Nat.succ.inj hone)
    rw [← flatten_pieces cap sizes.tail (l.drop _), hnone]
    rfl

end Cap

/-! ### Stopping -/

variable {p : List α → Bool}

theorem stopsAtEnd_singleton (c : List α) : StopsAtEnd p [c] ↔ p c = true :=
  ⟨fun h => h.1, fun h => ⟨h, nofun⟩⟩

theorem stopsAtEnd_cons {c : List α} {cs : List (List α)} (h : cs ≠ []) :
    StopsAtEnd p (c :: cs) ↔ p c = false ∧ StopsAtEnd p cs := by
  obtain ⟨d, cs, rfl⟩ := List.exists_cons_of_ne_nil h
  simp only [StopsAtEnd, List.getLast?_cons_cons, List.dropLast_cons_cons, List.forall_mem_cons]
  exact and_left_comm

/-- **A reader that stops at a piece takes everything exactly when it stops at the last one.** -/
theorem upTo_flatten_iff {cs : List (List α)} (hne : ∀ c ∈ cs, c ≠ []) :
    (upTo p cs).flatten = cs.flatten ∧ cs.any p = true ↔ StopsAtEnd p cs := by
  induction cs with
  | nil => simp [StopsAtEnd]
  | cons c cs ih =>
    have hrest : ∀ d ∈ cs, d ≠ [] := fun d hd => hne d (List.mem_cons_of_mem c hd)
    by_cases hcs : cs = []
    · rw [hcs, stopsAtEnd_singleton]
      cases hp : p c <;> simp [upTo, hp]
    rw [stopsAtEnd_cons hcs, ← ih hrest]
    cases hp : p c with
    | true =>
      refine iff_of_false ?_ fun h => Bool.noConfusion h.1
      rintro ⟨hflat, -⟩
      have htail : cs.flatten = [] := by simpa [upTo, hp] using hflat
      obtain ⟨d, hd⟩ := List.exists_mem_of_ne_nil cs hcs
      exact hrest d hd (List.flatten_eq_nil_iff.mp htail d hd)
    | false => simp [upTo, hp]

end Pieces
