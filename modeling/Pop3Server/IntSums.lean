import Mathlib.Algebra.BigOperators.Group.List.Basic
import Pop3Server.Messages

/-!
# Sums in an `int`

The values of an `int` are those that `int32` keeps.  A sum that is taken in an
`int` is the mathematical one reduced at the end, and exact when that fits.
-/

namespace Pop3Server

/-- The values of an `int`. -/
def FitsInt (n : Int) : Prop := -2 ^ 31 ≤ n ∧ n < 2 ^ 31

instance (n : Int) : Decidable (FitsInt n) := inferInstanceAs (Decidable (_ ∧ _))

theorem int32_fits (n : Int) : FitsInt (int32 n) := by
  have hle := Int.le_bmod (x := n) (m := 2 ^ 32) (by decide)
  have hlt := Int.bmod_lt (x := n) (m := 2 ^ 32) (by decide)
  unfold FitsInt int32
  omega

theorem int32_of_fits {n : Int} (h : FitsInt n) : int32 n = n := by
  obtain ⟨hle, hlt⟩ := h
  exact Int.bmod_eq_of_le_mul_two (by omega) (by omega)

theorem int32_eq_iff (n : Int) : int32 n = n ↔ FitsInt n :=
  ⟨fun h => h ▸ int32_fits n, int32_of_fits⟩

theorem int32_add (a b : Int) : int32 (int32 a + b) = int32 (a + b) := Int.bmod_add_bmod

/-- What the messages of a list take up together. -/
def octets (l : List FileList) : Int := (l.map (·.size)).sum

@[simp] theorem octets_nil : octets [] = 0 := rfl

theorem octets_cons (f : FileList) (l : List FileList) : octets (f :: l) = f.size + octets l :=
  List.sum_cons

theorem octets_append (l l' : List FileList) : octets (l ++ l') = octets l + octets l' := by
  rw [octets, List.map_append, List.sum_append]
  rfl

theorem int32_sumSizes (total : Int) (l : List FileList) :
    int32 (sumSizes total l) = int32 (total + octets l) := by
  induction l generalizing total with
  | nil => rw [octets_nil, Int.add_zero]; rfl
  | cons f l ih =>
    rw [octets_cons, ← Int.add_assoc, ← int32_add (total + f.size)]
    exact ih _

theorem sumSizes_fits (l : List FileList) {total : Int} (h : FitsInt total) :
    FitsInt (sumSizes total l) := by
  induction l generalizing total with
  | nil => exact h
  | cons f l ih => exact ih (int32_fits _)

/-- `stat_handeler` prints the sum of the sizes, reduced to an `int`. -/
theorem sumSizes_zero (l : List FileList) : sumSizes 0 l = int32 (octets l) := by
  have hfits : FitsInt (sumSizes 0 l) := sumSizes_fits l ⟨by decide, by decide⟩
  rw [← int32_of_fits hfits, int32_sumSizes, Int.zero_add]

end Pop3Server
