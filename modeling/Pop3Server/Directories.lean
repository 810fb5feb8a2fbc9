import Mathlib.Data.List.Nodup
import Mathlib.Data.List.Perm.Basic

/-!
# Directories of named entries

Paths lead to directories (`resolve`), as many spellings and links to each as
there may be, and a directory has entries, in the order in which they are
listed.  The path of an entry is that of its directory, a separator and its name;
names contain no separator, and no directory has two entries of one name.

`Unlinked s path s'` is what is relied on of the removal of a path: the entries
the path leads to are gone, every other entry is as it was (no other entry is a
link to the file that is removed), paths lead to the directories they led to, and
the order in which a directory is listed may have changed.
-/

universe u v w

/-- `sep` separates the parts of a path. -/
structure Directories (ι : Type u) {χ : Type v} {ε : Type w} (sep : χ) (name : ε → List χ) where
  resolve : List χ → Option ι
  entries : ι → List ε
  plain : ∀ i, ∀ e ∈ entries i, sep ∉ name e
  distinct : ∀ i, ((entries i).map name).Nodup

namespace Directories

variable {ι : Type u} {χ : Type v} {ε : Type w} {sep : χ} {name : ε → List χ}

/-- What is listed for the path of a directory. -/
def list (s : Directories ι sep name) (path : List χ) : Option (List ε) :=
  (s.resolve path).map s.entries

/-- The path of the entry of a directory with the name `n`. -/
def pathOf (sep : χ) (dir n : List χ) : List χ := dir ++ sep :: n

/-- A path is split at its last separator. -/
theorem pathOf_inj {dir dir' n n' : List χ} (hn : sep ∉ n) (hn' : sep ∉ n') :
    pathOf sep dir n = pathOf sep dir' n' ↔ dir = dir' ∧ n = n' := by
  refine ⟨fun h => ?_, fun h => by rw [h.1, h.2]⟩
  unfold pathOf at h
  rcases List.append_eq_append_iff.mp h with ⟨more, rfl, hmore⟩ | ⟨more, rfl, hmore⟩
  · cases more with
    | nil => exact ⟨(List.append_nil dir).symm, (List.cons.inj hmore).2⟩
    | cons c more =>
      obtain ⟨rfl, rfl⟩ := List.cons.inj hmore
      exact absurd (List.mem_append_right more List.mem_cons_self) hn
  · cases more with
    | nil => exact ⟨List.append_nil dir', (List.cons.inj hmore).2.symm⟩
    | cons c more =>
      obtain ⟨rfl, rfl⟩ := List.cons.inj hmore
      exact absurd (List.mem_append_right more List.mem_cons_self) hn'

/-- The path leads to the entry with the name `n` of the directory `i`. -/
def Leads (s : Directories ι sep name) (path : List χ) (i : ι) (n : List χ) : Prop :=
  ∃ dir, s.resolve dir = some i ∧ path = pathOf sep dir n

variable {s s' s'' : Directories ι sep name} {path dir : List χ} {paths paths' : List (List χ)}

theorem leads_pathOf_iff {i : ι} {n n' : List χ} (hn : sep ∉ n) (hn' : sep ∉ n') :
    s.Leads (pathOf sep dir n) i n' ↔ s.resolve dir = some i ∧ n = n' := by
  constructor
  · rintro ⟨dir', hdir', hpath⟩
    obtain ⟨rfl, rfl⟩ := (pathOf_inj hn hn').mp hpath
    exact ⟨hdir', rfl⟩
  · rintro ⟨hdir, rfl⟩
    exact ⟨dir, hdir, rfl⟩

theorem leads_congr (h : s'.resolve = s.resolve) (path : List χ) (i : ι) (n : List χ) :
    s'.Leads path i n ↔ s.Leads path i n := by
  rw [Leads, h, Leads]

theorem plain_of_list {entries : List ε} (h : s.list dir = some entries) :
    ∀ e ∈ entries, sep ∉ name e := by
  obtain ⟨i, -, rfl⟩ := Option.map_eq_some_iff.mp h
  exact s.plain i

/-! ### Unlinking -/

open Classical in
/-- The entries of a directory to which none of the paths leads. -/
noncomputable def left (s : Directories ι sep name) (paths : List (List χ)) (i : ι) : List ε :=
  (s.entries i).filter fun e => ∀ path ∈ paths, ¬ s.Leads path i (name e)

theorem left_nil (s : Directories ι sep name) (i : ι) : s.left [] i = s.entries i := by
  simp [left]

/-- What the removal of a path comes to. -/
structure Unlinked (s : Directories ι sep name) (path : List χ) (s' : Directories ι sep name) :
    Prop where
  resolve : s'.resolve = s.resolve
  entries : ∀ i, (s'.entries i).Perm (s.left [path] i)

/-- The paths are removed one after the other. -/
inductive UnlinkedAll : Directories ι sep name → List (List χ) → Directories ι sep name → Prop
  | nil (t : Directories ι sep name) : UnlinkedAll t [] t
  | cons {t t' t'' : Directories ι sep name} {p : List χ} {ps : List (List χ)}
      (hpath : t.Unlinked p t') (hpaths : UnlinkedAll t' ps t'') : UnlinkedAll t (p :: ps) t''

theorem UnlinkedAll.resolve (h : s.UnlinkedAll paths s') : s'.resolve = s.resolve := by
  induction h with
  | nil => rfl
  | cons hpath _ ih => exact ih.trans hpath.resolve

theorem Unlinked.left (h : s.Unlinked path s') (paths : List (List χ)) (i : ι) :
    (s'.left paths i).Perm (s.left (path :: paths) i) := by
  classical
  unfold Directories.left
  refine ((h.entries i).filter _).trans (List.Perm.of_eq ?_)
  rw [Directories.left, List.filter_filter]
  apply List.filter_congr
  intro e _
  simp [leads_congr h.resolve, Bool.and_comm]

/-- **Removing one path after the other leaves the entries to which none of them leads.** -/
theorem UnlinkedAll.entries (h : s.UnlinkedAll paths s') (i : ι) :
    (s'.entries i).Perm (s.left paths i) := by
  induction h with
  | nil => rw [left_nil]
  | cons hpath _ ih => exact ih.trans (hpath.left _ i)

/-- Removing a path, the other entries staying in their order. -/
noncomputable def remove (s : Directories ι sep name) (path : List χ) : Directories ι sep name where
  resolve := s.resolve
  entries := s.left [path]
  plain i e he := s.plain i e (List.mem_filter.mp he).1
  distinct i := (s.distinct i).sublist (List.filter_sublist.map name)

theorem unlinked_remove (s : Directories ι sep name) (path : List χ) :
    s.Unlinked path (s.remove path) :=
  ⟨rfl, fun _ => List.Perm.refl _⟩

theorem exists_unlinkedAll (s : Directories ι sep name) (paths : List (List χ)) :
    ∃ s', s.UnlinkedAll paths s' := by
  induction paths generalizing s with
  | nil => exact ⟨s, .nil s⟩
  | cons path paths ih =>
    obtain ⟨s', hpaths⟩ := ih (s.remove path)
    exact ⟨s', .cons (s.unlinked_remove path) hpaths⟩

end Directories
