import Pop3Server.CStrings

/-!
# Mailboxes (`server/pop3.c`: the file lists and the functions over them)

A `file_list` is a singly linked list, modelled by the list of its nodes; a
pointer into it is the list that starts there, so that two pointers are equal
exactly when they are the same position.  A header carries the count the code
keeps beside the list together with the fact that it is the list's length:
every header is built by `create_file_list` and no command changes a length
before QUIT.  The removal of nodes in place is in `DeleteMarked`.
-/

namespace Pop3Server

/-- A node of `struct file_list`. -/
structure FileList where
  name : Bytes
  size : Int
  deleted : Bool
deriving DecidableEq, Repr

/-- The files of a folder and their number, an `int` in the code: fewer than 2^31 are meant. -/
structure FileListHeader where
  list : List FileList
  size : Nat
  size_eq : size = list.length
deriving DecidableEq

structure Maildir where
  cur : FileListHeader
  new : FileListHeader
  tmp : FileListHeader
deriving DecidableEq

/-- `enum pop3_directory`. -/
inductive Directory where
  | new
  | cur
  | tmp
deriving DecidableEq, Repr

def Directory.name : Directory → Bytes
  | .new => str "new"
  | .cur => str "cur"
  | .tmp => str "tmp"

def Maildir.folder (md : Maildir) : Directory → FileListHeader
  | .new => md.new
  | .cur => md.cur
  | .tmp => md.tmp

def FileListHeader.ofList (l : List FileList) : FileListHeader := ⟨l, l.length, rfl⟩

theorem FileListHeader.ext_list {h h' : FileListHeader} (hl : h.list = h'.list) : h = h' := by
  obtain ⟨l, n, hn⟩ := h
  obtain ⟨l', n', hn'⟩ := h'
  simp only at hl
  subst hl hn hn'
  rfl

/-! ### Loading (`create_file_list`, `load_user_structure`) -/

structure Stat where
  regular : Bool
  size : Int
deriving DecidableEq, Repr

/-- An entry read by `readdir`, with the outcome of `stat` on it. -/
structure DirEntry where
  name : Bytes
  stat : Option Stat
deriving DecidableEq, Repr

def FileListHeader.append (h : FileListHeader) (f : FileList) : FileListHeader :=
  ⟨h.list ++ [f], h.size + 1, by simp [h.size_eq]⟩

/-- One turn of the `readdir` loop: only regular files other than `.` and `..` are kept, and
`st_size` is narrowed to an `int`. -/
def createFileListStep (h : FileListHeader) (e : DirEntry) : FileListHeader :=
  if e.name = str "." ∨ e.name = str ".." then h
  else
    match e.stat with
    | none => h
    | some st => if st.regular then h.append ⟨e.name, int32 st.size, false⟩ else h

/-- `create_file_list` on the outcome of `opendir`; `none` is the null pointer. -/
def createFileList (dir : Option (List DirEntry)) : Option FileListHeader :=
  dir.map fun entries => entries.foldl createFileListStep (.ofList [])

def amountMails : List FileList → Nat
  | [] => 0
  | _ :: rest => amountMails rest + 1

theorem amountMails_eq (l : List FileList) : amountMails l = l.length := by
  induction l with
  | nil => rfl
  | cons f l ih => simp [amountMails, ih]

def FileListHeader.recount (h : FileListHeader) : FileListHeader :=
  ⟨h.list, amountMails h.list, amountMails_eq h.list⟩

theorem FileListHeader.recount_eq (h : FileListHeader) : h.recount = h :=
  FileListHeader.ext_list rfl

/-- The path `load_user_structure` lists for a folder. -/
def folderPath (baseDir user : Bytes) (d : Directory) : Bytes :=
  baseDir ++ user ++ str "/" ++ d.name

/-- `load_user_structure`; `none` when a folder cannot be opened, where the code goes on to read
through the null header. -/
def loadUserStructure (opendir : Bytes → Option (List DirEntry)) (baseDir user : Bytes) :
    Option Maildir := do
  let new ← createFileList (opendir (folderPath baseDir user .new))
  let cur ← createFileList (opendir (folderPath baseDir user .cur))
  let tmp ← createFileList (opendir (folderPath baseDir user .tmp))
  return ⟨cur.recount, new.recount, tmp.recount⟩

/-- The path of a message, as `view_message` and `delete_marked` build it. -/
def messagePath (baseDir user : Bytes) (d : Directory) (name : Bytes) : Bytes :=
  baseDir ++ user ++ str "/" ++ d.name ++ str "/" ++ name

/-! ### STAT and LIST -/

def sumSizes (total : Int) (l : List FileList) : Int :=
  l.foldl (fun t f => int32 (t + f.size)) total

/-- The line `stat_handeler` writes. -/
def statHandeler (md : Maildir) : Bytes :=
  let totalBytes := sumSizes (sumSizes (sumSizes 0 md.new.list) md.cur.list) md.tmp.list
  let totalMessages := md.new.size + md.cur.size + md.tmp.size
  str "+OK " ++ formatNat totalMessages ++ str " messages (" ++ formatInt totalBytes ++
    str " octets)\r\n"

/-- A scan line `%d %d\r\n`. -/
def scanLine (index : Int) (f : FileList) : Bytes :=
  formatInt index ++ str " " ++ formatInt f.size ++ str "\r\n"

/-- `list_directory`: the lines written for a folder, numbered from `index`. -/
def listDirectory (index : Nat) : List FileList → List Bytes
  | [] => []
  | f :: rest => scanLine index f :: listDirectory (index + 1) rest

/-- `while (--remaining && current != NULL) current = current->next;` -/
def walk : Nat → List FileList → List FileList
  | remaining + 2, _ :: rest => walk (remaining + 1) rest
  | _, current => current

/-- The node `list_messages` reaches for a message number, `[]` being the null pointer. -/
def listTarget (md : Maildir) (n : Nat) : Option (Directory × List FileList) :=
  if n ≤ md.new.size then some (.new, walk n md.new.list)
  else if n ≤ md.new.size + md.cur.size then some (.cur, walk (n - md.new.size) md.cur.list)
  else if n ≤ md.new.size + md.cur.size + md.tmp.size then
    some (.tmp, walk (n - (md.new.size + md.cur.size)) md.tmp.list)
  else none

/-- `list_messages`: its writes and its return value. -/
def listMessages (md : Maildir) (n : Int) : List Bytes × Int :=
  if n = -1 then
    ([statHandeler md] ++ listDirectory 1 md.new.list ++
      listDirectory (1 + md.new.list.length) md.cur.list ++
      listDirectory (1 + md.new.list.length + md.cur.list.length) md.tmp.list ++ [str ".\r\n"], 0)
  else if n > 0 then
    match listTarget md n.toNat with
    | some (_, f :: _) => ([scanLine n f], 0)
    | _ => ([], -1)
  else ([], -1)

/-! ### RETR -/

/-- `search_file`: the pointer to the node with the given number in one list. -/
def searchFile (remaining : Int) : List FileList → List FileList
  | [] => []
  | f :: rest => if remaining - 1 = 0 then f :: rest else searchFile (remaining - 1) rest

/-- The node `view_message` finds and the folder it takes it to be in. -/
def viewTarget (md : Maildir) (n : Int) : Option (Directory × List FileList) :=
  match searchFile n md.new.list with
  | f :: rest => some (.new, f :: rest)
  | [] =>
    match searchFile n md.cur.list with
    | f :: rest => some (.cur, f :: rest)
    | [] =>
      match searchFile n md.tmp.list with
      | f :: rest => some (.tmp, f :: rest)
      | [] => none

/-! ### DELE and RSET -/

def FileList.mark (f : FileList) : FileList := { f with deleted := true }

def FileList.unmark (f : FileList) : FileList := { f with deleted := false }

/-- Follow `next` a number of times and set the flag; `none` is a null pointer dereferenced. -/
def markNth : Nat → List FileList → Option (List FileList)
  | _, [] => none
  | 0, f :: rest => some (f.mark :: rest)
  | k + 1, f :: rest => (markNth k rest).map (f :: ·)

def markDelInList (l : List FileList) (n : Int) : Option (List FileList) :=
  if n = 1 then markNth 0 l else markNth (n - 1).toNat l

theorem length_markNth {k : Nat} {l l' : List FileList} (h : markNth k l = some l') :
    l'.length = l.length := by
  induction l generalizing k l' with
  | nil => simp [markNth] at h
  | cons f l ih =>
    cases k with
    | zero => simp only [markNth, Option.some.injEq] at h; subst h; rfl
    | succ k =>
      simp only [markNth, Option.map_eq_some_iff] at h
      obtain ⟨r, hr, rfl⟩ := h
      simp [ih hr]

theorem length_markDelInList {l l' : List FileList} {n : Int}
    (h : markDelInList l n = some l') : l'.length = l.length := by
  unfold markDelInList at h
  split at h <;> exact length_markNth h

/-- `mark_del_in_list` on a header, which keeps its count. -/
def FileListHeader.markDel (h : FileListHeader) (n : Int) : Option FileListHeader :=
  match hm : markDelInList h.list n with
  | none => none
  | some l => some ⟨l, h.size, by rw [h.size_eq, length_markDelInList hm]⟩

/-- The marking of `delete_message`: `none` when the number is refused, `some none` when a null
pointer is followed. -/
def deleteTarget (md : Maildir) (n : Int) : Option (Option Maildir) :=
  if n < 1 then none
  else if n > md.new.size + md.cur.size + md.tmp.size then none
  else if n ≤ md.new.size then some ((md.new.markDel n).map fun h => { md with new := h })
  else if n ≤ md.new.size + md.cur.size then
    some ((md.cur.markDel (n - md.new.size)).map fun h => { md with cur := h })
  else some ((md.tmp.markDel (n - (md.new.size + md.cur.size))).map fun h => { md with tmp := h })

/-- One of the three loops of `unmark_all`.  A turn that clears a flag does not advance, so a
node takes two turns; `none` when the turns given do not suffice. -/
def unmarkLoop : Nat → List FileList → Option (List FileList)
  | _, [] => some []
  | 0, _ :: _ => none
  | turns + 1, f :: rest =>
    if f.deleted then unmarkLoop turns (f.unmark :: rest)
    else (unmarkLoop turns rest).map (f :: ·)

/-- The loop ends after one turn for each node and one for each flag set, with every flag clear. -/
theorem unmarkLoop_eq {turns : Nat} {l : List FileList}
    (h : l.length + l.countP (·.deleted) ≤ turns) :
    unmarkLoop turns l = some (l.map FileList.unmark) := by
  induction turns generalizing l with
  | zero =>
    cases l with
    | nil => rfl
    | cons f l => simp at h
  | succ turns ih =>
    cases l with
    | nil => rfl
    | cons f l =>
      have hone : ∀ g : FileList, g.deleted = false → l.length + 1 + l.countP (·.deleted) ≤ turns + 1 →
          (unmarkLoop turns l).map (g :: ·) = some (g.unmark :: l.map FileList.unmark) := by
        intro g hg hle
        rw [ih (by omega), Option.map_some]
        obtain ⟨name, size, deleted⟩ := g
        simp only at hg
        subst hg; rfl
      by_cases hf : f.deleted = true
      · simp only [List.length_cons, List.countP_cons, hf, if_true] at h
        rw [unmarkLoop, if_pos hf, ih (by simp [FileList.unmark]; omega)]
        simp [FileList.unmark]
      · simp only [Bool.not_eq_true] at hf
        simp only [List.length_cons, List.countP_cons, hf] at h
        rw [unmarkLoop, if_neg (by simp [hf])]
        exact hone f hf (by simpa using h)

theorem unmarkLoop_twice (l : List FileList) :
    unmarkLoop (2 * l.length) l = some (l.map FileList.unmark) :=
  unmarkLoop_eq (by have := List.countP_le_length (p := fun f : FileList => f.deleted) (l := l); omega)

/-- `unmark_all` on one folder. -/
def FileListHeader.unmark (h : FileListHeader) : FileListHeader :=
  ⟨(unmarkLoop (2 * h.list.length) h.list).getD h.list, h.size, by
    rw [unmarkLoop_twice, Option.getD_some, List.length_map, h.size_eq]⟩

/-- `unmark_all`, before it answers with `stat_handeler`. -/
def unmarkAll (md : Maildir) : Maildir :=
  ⟨md.cur.unmark, md.new.unmark, md.tmp.unmark⟩

@[simp] theorem FileListHeader.unmark_list (h : FileListHeader) :
    h.unmark.list = h.list.map FileList.unmark := by
  simp [FileListHeader.unmark, unmarkLoop_twice]

/-! ### QUIT -/

/-- The paths one of the three loops of `delete_marked` gives to `remove`. -/
def removedFrom (baseDir user : Bytes) (d : Directory) : List FileList → List Bytes
  | [] => []
  | f :: rest =>
    if f.deleted then messagePath baseDir user d f.name :: removedFrom baseDir user d rest
    else removedFrom baseDir user d rest

/-- The paths `delete_marked` gives to `remove`, in order. -/
def deleteMarkedPaths (baseDir user : Bytes) (md : Maildir) : List Bytes :=
  removedFrom baseDir user .new md.new.list ++ removedFrom baseDir user .cur md.cur.list ++
    removedFrom baseDir user .tmp md.tmp.list

end Pop3Server
