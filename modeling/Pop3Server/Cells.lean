import Mathlib.Data.List.Basic

/-!
# Singly linked lists in memory

A heap keeps the cells that were allocated and the addresses released since.  A
cell can be loaded and released while it is not released; both fail otherwise.

`Linked` says what the `next` fields spell out and does not look at what is
released, so that releasing cells leaves it alone; `Chain` adds that every cell
passed is still there.  Taking a list down succeeds on a `Chain` and on no other
list (`Chain.releaseAll`, `Linked.chain_of_releaseAll`).
-/

universe u

namespace Cells

structure Cell (α : Type u) where
  value : α
  next : Option Nat
deriving DecidableEq

structure Heap (α : Type u) where
  cell : Nat → Option (Cell α)
  released : List Nat

/-- Why a walk over cells does not come to its end. -/
inductive Fault where
  /-- the address is not, or no longer, that of a cell -/
  | invalid (address : Nat)
  | turns
deriving DecidableEq

variable {α : Type u}

def Heap.load (h : Heap α) (a : Nat) : Except Fault (Cell α) :=
  if a ∈ h.released then .error (.invalid a)
  else
    match h.cell a with
    | none => .error (.invalid a)
    | some c => .ok c

/-- The heap with more cells released. -/
def Heap.without (h : Heap α) (as : List Nat) : Heap α :=
  { h with released := h.released ++ as }

def Heap.release (h : Heap α) (a : Nat) : Except Fault (Heap α) :=
  if a ∈ h.released then .error (.invalid a)
  else .ok (h.without [a])

/-- The `next` fields lead from `p` through `nodes` to the end. -/
def Linked (cell : Nat → Option (Cell α)) : Option Nat → List (Nat × α) → Prop
  | p, [] => p = none
  | p, n :: ns => p = some n.1 ∧ ∃ next, cell n.1 = some ⟨n.2, next⟩ ∧ Linked cell next ns

/-- The list at `p` is `nodes`, and none of its cells is released. -/
structure Chain (h : Heap α) (p : Option Nat) (nodes : List (Nat × α)) : Prop where
  linked : Linked h.cell p nodes
  live : ∀ n ∈ nodes, n.1 ∉ h.released

/-- The addresses a walk from `p` can come to. -/
inductive Reaches (h : Heap α) : Option Nat → Nat → Prop where
  | here (a : Nat) : Reaches h (some a) a
  | next {a : Nat} {c : Cell α} {b : Nat} : h.load a = .ok c → Reaches h c.next b →
      Reaches h (some a) b

@[simp] theorem Heap.without_nil (h : Heap α) : h.without [] = h := by
  simp [Heap.without]

@[simp] theorem Heap.without_without (h : Heap α) (as bs : List Nat) :
    (h.without as).without bs = h.without (as ++ bs) := by
  simp [Heap.without]

@[simp] theorem Heap.mem_released_without {h : Heap α} {as : List Nat} {a : Nat} :
    a ∈ (h.without as).released ↔ a ∈ h.released ∨ a ∈ as := List.mem_append

theorem load_eq_ok {h : Heap α} {a : Nat} {c : Cell α} (ha : a ∉ h.released)
    (hc : h.cell a = some c) : h.load a = .ok c := by
  rw [Heap.load, if_neg ha, hc]

theorem load_released {h : Heap α} {a : Nat} (ha : a ∈ h.released) :
    h.load a = .error (.invalid a) := by
  rw [Heap.load, if_pos ha]

theorem release_eq_ok {h : Heap α} {a : Nat} (ha : a ∉ h.released) :
    h.release a = .ok (h.without [a]) := by
  rw [Heap.release, if_neg ha]

/-! ### Linked lists -/

theorem Linked.unique {cell : Nat → Option (Cell α)} {p : Option Nat} {l l' : List (Nat × α)}
    (h : Linked cell p l) (h' : Linked cell p l') : l = l' := by
  induction l generalizing p l' with
  | nil =>
    cases l' with
    | nil => rfl
    | cons n ns => cases h.symm.trans h'.1
  | cons m ms ih =>
    obtain ⟨hp, next, hcell, hrest⟩ := h
    cases l' with
    | nil => cases hp.symm.trans h'
    | cons n ns =>
      obtain ⟨hp', next', hcell', hrest'⟩ := h'
      have haddress : m.1 = n.1 := Option.some.inj (hp.symm.trans hp')
      rw [haddress, hcell'] at hcell
      simp only [Option.some.injEq, Cell.mk.injEq] at hcell
      obtain ⟨hvalue, rfl⟩ := hcell
      rw [Prod.ext haddress hvalue.symm, ih hrest hrest']

def head (nodes : List (Nat × α)) : Option Nat := nodes.head?.map Prod.fst

theorem Linked.head_eq {cell : Nat → Option (Cell α)} {p : Option Nat} {l : List (Nat × α)}
    (h : Linked cell p l) : p = head l := by
  cases l with
  | nil => exact h
  | cons n ns => exact h.1

theorem Linked.tail {cell : Nat → Option (Cell α)} {p : Option Nat} {n : Nat × α}
    {ns : List (Nat × α)} (h : Linked cell p (n :: ns)) : Linked cell (head ns) ns := by
  obtain ⟨-, next, -, hrest⟩ := h
  rwa [← hrest.head_eq]

theorem Linked.cell_eq {cell : Nat → Option (Cell α)} {p : Option Nat} {n : Nat × α}
    {ns : List (Nat × α)} (h : Linked cell p (n :: ns)) : cell n.1 = some ⟨n.2, head ns⟩ := by
  obtain ⟨-, next, hcell, hrest⟩ := h
  rw [hcell, hrest.head_eq]

theorem Linked.dropWhile {cell : Nat → Option (Cell α)} {p : Option Nat} {l : List (Nat × α)}
    (h : Linked cell p l) (q : Nat × α → Bool) :
    Linked cell (head (l.dropWhile q)) (l.dropWhile q) := by
  induction l generalizing p with
  | nil => rfl
  | cons n ns ih =>
    by_cases hn : q n = true
    · rw [List.dropWhile_cons_of_pos hn]
      exact ih h.tail
    · rw [List.dropWhile_cons_of_neg hn]
      rwa [← h.head_eq]

/-! ### Lists whose cells are all there -/

theorem Chain.tail {h : Heap α} {p : Option Nat} {n : Nat × α} {ns : List (Nat × α)}
    (hc : Chain h p (n :: ns)) : Chain h (head ns) ns :=
  ⟨hc.linked.tail, fun m hm => hc.live m (List.mem_cons_of_mem n hm)⟩

theorem Chain.load {h : Heap α} {p : Option Nat} {n : Nat × α} {ns : List (Nat × α)}
    (hc : Chain h p (n :: ns)) : h.load n.1 = .ok ⟨n.2, head ns⟩ :=
  load_eq_ok (hc.live n List.mem_cons_self) hc.linked.cell_eq

theorem Chain.eq_of_linked {h : Heap α} {p : Option Nat} {l l' : List (Nat × α)}
    (hc : Chain h p l) (hl : Linked h.cell p l') : l = l' :=
  hc.linked.unique hl

theorem Chain.mem_of_reaches {h : Heap α} {p : Option Nat} {l : List (Nat × α)} {a : Nat}
    (hc : Chain h p l) (hr : Reaches h p a) : a ∈ l.map Prod.fst := by
  induction hr generalizing l with
  | here a =>
    cases l with
    | nil => cases hc.linked
    | cons n ns =>
      obtain rfl : a = n.1 := Option.some.inj hc.linked.1
      exact List.mem_cons_self
  | @next a c b hload _ ih =>
    cases l with
    | nil => cases hc.linked
    | cons n ns =>
      obtain rfl : a = n.1 := Option.some.inj hc.linked.1
      rw [hc.load, Except.ok.injEq] at hload
      subst hload
      exact List.mem_cons_of_mem _ (ih hc.tail)

theorem Chain.notMem_released {h : Heap α} {p : Option Nat} {l : List (Nat × α)} {a : Nat}
    (hc : Chain h p l) (hr : Reaches h p a) : a ∉ h.released := by
  obtain ⟨n, hn, rfl⟩ := List.mem_map.mp (hc.mem_of_reaches hr)
  exact hc.live n hn

theorem Chain.without {h : Heap α} {p : Option Nat} {l : List (Nat × α)}
    (hc : Chain h p l) {as : List Nat} (has : ∀ n ∈ l, n.1 ∉ as) :
    Chain (h.without as) p l := by
  refine ⟨hc.linked, fun n hn => ?_⟩
  rw [Heap.mem_released_without, not_or]
  exact ⟨hc.live n hn, has n hn⟩

/-! ### Taking a list down -/

/-- Load each cell for its `next` field, release it and go on. -/
def releaseAll : Nat → Heap α → Option Nat → Except Fault (Heap α)
  | _, h, none => .ok h
  | 0, _, some _ => .error .turns
  | turns + 1, h, some a => do
    let c ← h.load a
    let h ← h.release a
    releaseAll turns h c.next

theorem releaseAll_cons {h : Heap α} {n : Nat × α} {ns : List (Nat × α)} {p : Option Nat}
    (hc : Chain h p (n :: ns)) (turns : Nat) :
    releaseAll (turns + 1) h p =
      releaseAll turns (h.without [n.1]) (head ns) := by
  rw [hc.linked.1, releaseAll, hc.load, release_eq_ok (hc.live n List.mem_cons_self)]
  rfl

/-- **A chain of distinct cells is taken down in order.** -/
theorem Chain.releaseAll {h : Heap α} {p : Option Nat} {l : List (Nat × α)} (hc : Chain h p l)
    (hdistinct : (l.map Prod.fst).Nodup) {turns : Nat} (hturns : l.length ≤ turns) :
    releaseAll turns h p = .ok (h.without (l.map Prod.fst)) := by
  induction l generalizing h p turns with
  | nil =>
    rw [hc.linked, Cells.releaseAll, List.map_nil, Heap.without_nil]
  | cons n ns ih =>
    cases turns with
    | zero => simp at hturns
    | succ turns =>
      rw [List.map_cons, List.nodup_cons] at hdistinct
      have hrest : Chain (h.without [n.1]) (head ns) ns := by
        apply hc.tail.without
        intro m hm hmem
        rw [List.mem_singleton] at hmem
        exact hdistinct.1 (hmem ▸ List.mem_map_of_mem hm)
      rw [releaseAll_cons hc, ih hrest hdistinct.2 (by simpa using hturns)]
      rw [Heap.without_without, List.map_cons, List.singleton_append]

/-- A walk that takes a linked list down has met no released cell. -/
theorem Linked.chain_of_releaseAll {h h' : Heap α} {p : Option Nat} {l : List (Nat × α)}
    (hl : Linked h.cell p l) {turns : Nat} (hok : Cells.releaseAll turns h p = .ok h') :
    Chain h p l := by
  induction l generalizing h p turns with
  | nil => exact ⟨hl, by simp⟩
  | cons n ns ih =>
    rw [hl.1] at hok
    cases turns with
    | zero => cases hok
    | succ turns =>
      by_cases hn : n.1 ∈ h.released
      · rw [Cells.releaseAll, load_released hn] at hok
        cases hok
      · rw [Cells.releaseAll, load_eq_ok hn hl.cell_eq, release_eq_ok hn] at hok
        have hrest := @ih (h.without [n.1]) (head ns) hl.tail turns hok
        refine ⟨hl, fun m hm => ?_⟩
        rcases List.mem_cons.mp hm with rfl | hm
        · exact hn
        · intro hmem
          exact hrest.live m hm (Heap.mem_released_without.mpr (.inl hmem))

end Cells
