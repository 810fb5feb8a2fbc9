import Pop3Server.Maildir

/-!
# The messages of a mailbox

Message numbers run through `new`, then `cur`, then `tmp`: `Maildir.messages` is
that sequence.  The lemmas say in its terms what the operations of `Maildir` do
to the deleted flags: DELE sets one, RSET clears them all, QUIT removes what is
marked, and nothing else of the mailbox ever changes.
-/

namespace Pop3Server

/-- A message and the folder it lies in. -/
abbrev Message := Directory × FileList

def Message.mark (m : Message) : Message := (m.1, m.2.mark)

def Message.unmark (m : Message) : Message := (m.1, m.2.unmark)

/-- The messages of a mailbox, in the order of their numbers. -/
def Maildir.messages (md : Maildir) : List Message :=
  md.new.list.map (Prod.mk .new) ++ md.cur.list.map (Prod.mk .cur) ++
    md.tmp.list.map (Prod.mk .tmp)

@[simp] theorem Message.unmark_mark (m : Message) : m.mark.unmark = m.unmark := rfl

@[simp] theorem Message.unmark_unmark (m : Message) : m.unmark.unmark = m.unmark := rfl

/-- The sum the code adds up as `int`s; a mailbox has fewer than 2^31 messages. -/
theorem Maildir.length_messages (md : Maildir) :
    md.messages.length = md.new.size + md.cur.size + md.tmp.size := by
  simp [messages, md.new.size_eq, md.cur.size_eq, md.tmp.size_eq, Nat.add_assoc]

theorem Maildir.folder_list (md : Maildir) (d : Directory) :
    (md.folder d).list = (md.messages.filter (·.1 = d)).map Prod.snd := by
  have hfilter : ∀ (e : Directory) (l : List FileList),
      (l.map (Prod.mk e)).filter (·.1 = d) = if e = d then l.map (Prod.mk e) else [] := by
    intro e l
    induction l with
    | nil => simp
    | cons f l ih => by_cases h : e = d <;> simp [h, ih]
  rw [messages, List.filter_append, List.filter_append, hfilter, hfilter, hfilter]
  cases d <;> simp [folder, Function.comp_def]

theorem Maildir.ext_messages {md md' : Maildir} (h : md.messages = md'.messages) : md = md' := by
  have hfolder : ∀ d, md.folder d = md'.folder d := fun d =>
    FileListHeader.ext_list (by rw [md.folder_list, md'.folder_list, h])
  obtain ⟨cur, new, tmp⟩ := md
  obtain ⟨cur', new', tmp'⟩ := md'
  have hcur : cur = cur' := hfolder .cur
  have hnew : new = new' := hfolder .new
  have htmp : tmp = tmp' := hfolder .tmp
  rw [hcur, hnew, htmp]

theorem modify_append {α : Type} (f : α → α) (l r : List α) (k : Nat) :
    (l ++ r).modify k f =
      if k < l.length then l.modify k f ++ r else l ++ r.modify (k - l.length) f := by
  induction l generalizing k with
  | nil => simp
  | cons a l ih =>
    cases k with
    | zero => simp
    | succ k =>
      rw [List.cons_append, List.modify_succ_cons, ih]
      by_cases h : k < l.length <;> simp [h]

theorem map_modify {α β : Type} {f : α → α} {g : α → β} {f' : β → β} (h : ∀ a, g (f a) = f' (g a))
    (l : List α) (k : Nat) : (l.modify k f).map g = (l.map g).modify k f' := by
  induction l generalizing k with
  | nil => simp
  | cons a l ih => cases k <;> simp [h, ih]

/-! ### DELE -/

theorem markNth_eq {k : Nat} {l : List FileList} (h : k < l.length) :
    markNth k l = some (l.modify k FileList.mark) := by
  induction l generalizing k with
  | nil => simp at h
  | cons f l ih =>
    cases k with
    | zero => rfl
    | succ k => rw [markNth, ih (by simpa using h)]; rfl

theorem markDelInList_eq (l : List FileList) (n : Int) :
    markDelInList l n = markNth (n - 1).toNat l := by
  unfold markDelInList
  split
  · next h => subst h; rfl
  · rfl

theorem markDel_eq {h : FileListHeader} {n : Int} (h1 : 1 ≤ n) (hn : n ≤ h.size) :
    ∃ h', h.markDel n = some h' ∧ h'.list = h.list.modify (n - 1).toNat FileList.mark := by
  have hlt : (n - 1).toNat < h.list.length := by
    have := h.size_eq; omega
  have hmark := markDelInList_eq h.list n
  rw [markNth_eq hlt] at hmark
  unfold FileListHeader.markDel
  split
  · next hm => rw [hmark] at hm; cases hm
  · next l hm =>
    rw [hmark] at hm
    exact ⟨_, rfl, (Option.some.inj hm).symm⟩

/-- **DELE sets the flag of the message with its number.** -/
theorem deleteTarget_messages {md : Maildir} {n : Int} (h1 : 1 ≤ n)
    (hn : n ≤ md.messages.length) :
    ∃ md', deleteTarget md n = some (some md') ∧
      md'.messages = md.messages.modify (n - 1).toNat Message.mark := by
  have hlen := md.length_messages
  have hmap : ∀ (d : Directory) (l : List FileList) (k : Nat),
      (l.modify k FileList.mark).map (Prod.mk d) =
        (l.map (Prod.mk d)).modify k Message.mark :=
    fun d => map_modify fun _ => rfl
  have hnew := md.new.size_eq
  have hcur := md.cur.size_eq
  unfold deleteTarget
  rw [if_neg (by omega), if_neg (by omega)]
  simp only [Maildir.messages, modify_append, List.length_append, List.length_map, ← hnew, ← hcur]
  by_cases h2 : n ≤ md.new.size
  · obtain ⟨h', hh, hlist⟩ := markDel_eq h1 h2
    rw [if_pos h2, hh, if_pos (by omega), if_pos (by omega)]
    exact ⟨_, rfl, by simp [hlist, hmap]⟩
  by_cases h3 : n ≤ md.new.size + md.cur.size
  · obtain ⟨h', hh, hlist⟩ := markDel_eq (h := md.cur) (n := n - md.new.size) (by omega) (by omega)
    rw [if_neg h2, if_pos h3, hh, if_pos (by omega), if_neg (by omega)]
    refine ⟨_, rfl, ?_⟩
    have hk : (n - md.new.size - 1).toNat = (n - 1).toNat - md.new.size := by omega
    simp [hlist, hmap, hk]
  · obtain ⟨h', hh, hlist⟩ := markDel_eq (h := md.tmp) (n := n - (md.new.size + md.cur.size))
      (by omega) (by omega)
    rw [if_neg h2, if_neg h3, hh, if_neg (by omega)]
    refine ⟨_, rfl, ?_⟩
    have hk : (n - (md.new.size + md.cur.size) - 1).toNat =
        (n - 1).toNat - (md.new.size + md.cur.size) := by omega
    simp [hlist, hmap, hk]

theorem deleteTarget_eq_none {md : Maildir} {n : Int} (h : n < 1 ∨ md.messages.length < n) :
    deleteTarget md n = none := by
  have hlen := md.length_messages
  unfold deleteTarget
  by_cases h1 : n < 1
  · rw [if_pos h1]
  · rw [if_neg h1, if_pos (by omega)]

theorem deleteTarget_eq_some {md : Maildir} {n : Int} {r : Option Maildir}
    (h : deleteTarget md n = some r) : 1 ≤ n ∧ n ≤ md.messages.length := by
  by_contra hno
  rw [deleteTarget_eq_none (by omega)] at h
  cases h

theorem messages_of_deleteTarget {md md' : Maildir} {n : Int}
    (h : deleteTarget md n = some (some md')) :
    md'.messages = md.messages.modify (n - 1).toNat Message.mark := by
  obtain ⟨h1, hn⟩ := deleteTarget_eq_some h
  obtain ⟨md'', hmd'', hmessages⟩ := deleteTarget_messages h1 hn
  rw [hmd''] at h
  obtain rfl : md'' = md' := by simpa using h
  exact hmessages

/-- The sizes kept in the headers are right, so `mark_del_in_list` stays inside its list. -/
theorem deleteTarget_ne_null (md : Maildir) (n : Int) : deleteTarget md n ≠ some none := by
  intro h
  obtain ⟨h1, hn⟩ := deleteTarget_eq_some h
  obtain ⟨md', hmd', -⟩ := deleteTarget_messages h1 hn
  rw [hmd'] at h
  cases h

/-! ### RSET -/

theorem unmarkAll_messages (md : Maildir) :
    (unmarkAll md).messages = md.messages.map Message.unmark := by
  simp [Maildir.messages, unmarkAll, Message.unmark, Function.comp_def]

/-- No message is marked any more. -/
theorem unmarkAll_unmarked (md : Maildir) : ∀ m ∈ (unmarkAll md).messages, m.2.deleted = false := by
  intro m hm
  rw [unmarkAll_messages] at hm
  obtain ⟨m', -, rfl⟩ := List.mem_map.mp hm
  rfl

/-- Marking changes nothing but a flag. -/
theorem unmarkAll_deleteTarget {md md' : Maildir} {n : Int}
    (h : deleteTarget md n = some (some md')) : unmarkAll md' = unmarkAll md := by
  refine Maildir.ext_messages ?_
  rw [unmarkAll_messages, unmarkAll_messages, messages_of_deleteTarget h,
    map_modify fun m => m.unmark_mark.trans (id_eq m.unmark).symm]
  simp

theorem unmarkAll_unmarkAll (md : Maildir) : unmarkAll (unmarkAll md) = unmarkAll md := by
  refine Maildir.ext_messages ?_
  simp [unmarkAll_messages, Function.comp_def]

/-! ### Loading -/

/-- The node for an entry that is a regular file; `.` and `..` are none. -/
def DirEntry.regularFile (e : DirEntry) : Option FileList :=
  if e.name = str "." ∨ e.name = str ".." then none
  else (e.stat.filter (·.regular)).map fun st => ⟨e.name, int32 st.size, false⟩

theorem DirEntry.regularFile_name {e : DirEntry} {f : FileList} (h : e.regularFile = some f) :
    f.name = e.name := by
  unfold regularFile at h
  split at h
  · cases h
  · obtain ⟨st, -, rfl⟩ := Option.map_eq_some_iff.mp h
    rfl

theorem createFileListStep_eq (h : FileListHeader) (e : DirEntry) :
    createFileListStep h e = (e.regularFile.map h.append).getD h := by
  unfold createFileListStep DirEntry.regularFile
  by_cases hdots : e.name = str "." ∨ e.name = str ".."
  · rw [if_pos hdots, if_pos hdots]
    rfl
  rw [if_neg hdots, if_neg hdots]
  cases e.stat with
  | none => rfl
  | some st => cases hregular : st.regular <;> simp [Option.filter, hregular]

theorem createFileList_fold (entries : List DirEntry) (h : FileListHeader) :
    (entries.foldl createFileListStep h).list =
      h.list ++ entries.filterMap DirEntry.regularFile := by
  induction entries generalizing h with
  | nil => simp
  | cons e entries ih =>
    rw [List.foldl_cons, ih, createFileListStep_eq]
    cases hfile : e.regularFile with
    | none => rw [List.filterMap_cons_none hfile]; rfl
    | some f =>
      rw [List.filterMap_cons_some hfile, Option.map_some, Option.getD_some,
        FileListHeader.append, List.append_assoc]
      rfl

theorem createFileList_eq_some {dir : Option (List DirEntry)} {header : FileListHeader} :
    createFileList dir = some header ↔
      ∃ entries, dir = some entries ∧ header.list = entries.filterMap DirEntry.regularFile := by
  constructor
  · intro h
    obtain ⟨entries, rfl, rfl⟩ := Option.map_eq_some_iff.mp h
    exact ⟨entries, rfl, createFileList_fold entries _⟩
  · rintro ⟨entries, rfl, hfiles⟩
    rw [createFileList, Option.map_some]
    exact congrArg some (FileListHeader.ext_list
      ((createFileList_fold entries _).trans hfiles.symm))

theorem createFileList_ne_none {dir : Option (List DirEntry)} (h : dir ≠ none) :
    ∃ header, createFileList dir = some header := by
  cases dir with
  | none => exact absurd rfl h
  | some entries => exact ⟨_, rfl⟩

/-- `load_user_structure` loads the three folders, or fails on one that cannot be opened. -/
theorem loadUserStructure_eq_some {opendir : Bytes → Option (List DirEntry)}
    {baseDir user : Bytes} {md : Maildir} :
    loadUserStructure opendir baseDir user = some md ↔
      ∀ d, createFileList (opendir (folderPath baseDir user d)) = some (md.folder d) := by
  simp only [loadUserStructure, Option.bind_eq_bind, Option.bind_eq_some_iff, Option.pure_def,
    Option.some.injEq, FileListHeader.recount_eq]
  constructor
  · rintro ⟨new, hnew, cur, hcur, tmp, htmp, rfl⟩ d
    cases d
    · exact hnew
    · exact hcur
    · exact htmp
  · intro h
    exact ⟨md.new, h .new, md.cur, h .cur, md.tmp, h .tmp, rfl⟩

theorem loadUserStructure_ne_none_iff (opendir : Bytes → Option (List DirEntry))
    (baseDir user : Bytes) :
    loadUserStructure opendir baseDir user ≠ none ↔
      ∀ d, opendir (folderPath baseDir user d) ≠ none := by
  constructor
  · intro h d hnone
    obtain ⟨md, hmd⟩ := Option.ne_none_iff_exists'.mp h
    have hfolder := loadUserStructure_eq_some.mp hmd d
    rw [hnone] at hfolder
    cases hfolder
  · intro h
    obtain ⟨new, hnew⟩ := createFileList_ne_none (h .new)
    obtain ⟨cur, hcur⟩ := createFileList_ne_none (h .cur)
    obtain ⟨tmp, htmp⟩ := createFileList_ne_none (h .tmp)
    simp [loadUserStructure, hnew, hcur, htmp]

theorem regularFile_unmarked {e : DirEntry} {f : FileList} (h : e.regularFile = some f) :
    f.deleted = false := by
  unfold DirEntry.regularFile at h
  split at h
  · cases h
  · obtain ⟨st, -, rfl⟩ := Option.map_eq_some_iff.mp h
    rfl

/-- A mailbox just loaded has no message marked. -/
theorem loadUserStructure_unmarked {opendir : Bytes → Option (List DirEntry)}
    {baseDir user : Bytes} {md : Maildir} (h : loadUserStructure opendir baseDir user = some md) :
    ∀ m ∈ md.messages, m.2.deleted = false := by
  intro m hm
  have hfolder : m.2 ∈ (md.folder m.1).list := by
    rw [md.folder_list]
    exact List.mem_map_of_mem (List.mem_filter.mpr ⟨hm, decide_eq_true rfl⟩)
  obtain ⟨entries, -, hfiles⟩ := createFileList_eq_some.mp (loadUserStructure_eq_some.mp h m.1)
  rw [hfiles] at hfolder
  obtain ⟨e, -, hfile⟩ := List.mem_filterMap.mp hfolder
  exact regularFile_unmarked hfile

theorem unmarkAll_of_unmarked {md : Maildir} (h : ∀ m ∈ md.messages, m.2.deleted = false) :
    unmarkAll md = md := by
  refine Maildir.ext_messages ?_
  rw [unmarkAll_messages]
  refine (List.map_congr_left fun m hm => ?_).trans (List.map_id _)
  obtain ⟨d, name, size, deleted⟩ := m
  have hdeleted : deleted = false := h _ hm
  rw [hdeleted]
  rfl

/-! ### QUIT -/

def Message.path (baseDir user : Bytes) (m : Message) : Bytes :=
  messagePath baseDir user m.1 m.2.name

theorem removedFrom_eq (baseDir user : Bytes) (d : Directory) (l : List FileList) :
    removedFrom baseDir user d l =
      ((l.map (Prod.mk d)).filter (·.2.deleted)).map (Message.path baseDir user) := by
  induction l with
  | nil => rfl
  | cons f l ih =>
    rw [removedFrom]
    split
    · next h => simp [h, ih, Message.path]
    · next h => simp [h, ih]

/-- **QUIT removes the files of the marked messages, in the order of their numbers.** -/
theorem deleteMarkedPaths_eq (baseDir user : Bytes) (md : Maildir) :
    deleteMarkedPaths baseDir user md =
      (md.messages.filter (·.2.deleted)).map (Message.path baseDir user) := by
  simp only [deleteMarkedPaths, removedFrom_eq, Maildir.messages, List.filter_append,
    List.map_append]

end Pop3Server
