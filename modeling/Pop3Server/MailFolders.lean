import Pop3Server.Directories
import Pop3Server.SessionLives

/-!
# The mail on disk

The folders of the users are `Directories`: several paths may lead to one folder
(a user `./anna` beside `anna`, a link), `readdir` lists a folder in an order of
its own, and what is relied on of `remove` is `Directories.Unlinked`; it does not
fail, and no other entry is a symbolic link to the file.

A login after a QUIT finds the messages that the session had not deleted
(`Server.quit_then_login`), and while nothing but the server changes the folders a
message leaves its mailbox only by the QUIT of a session that has logged in to
that mailbox and deleted the message (`Server.no_mail_lost`).
-/

namespace Pop3Server

open Directories (pathOf)
open Machine (Along)

def SLASH : Byte := 47

/-- The folders, as `opendir`, `readdir` and `stat` show them. -/
abbrev MailFolders (ι : Type) := Directories ι SLASH DirEntry.name

/-- No file has a `/` in its name. -/
def PlainNames (opendir : Bytes → Option (List DirEntry)) : Prop :=
  ∀ dir entries, opendir dir = some entries → ∀ e ∈ entries, SLASH ∉ e.name

theorem messagePath_eq (baseDir user : Bytes) (d : Directory) (name : Bytes) :
    messagePath baseDir user d name = pathOf SLASH (folderPath baseDir user d) name := by
  have hslash : str "/" = [SLASH] := by decide
  rw [messagePath, folderPath, pathOf, hslash, List.append_assoc _ [SLASH] name]
  rfl

/-! ### Mailboxes -/

open Classical in
/-- `md'` is `md` without the messages that are gone; the files of a folder may be listed in
another order. -/
def Remains (gone : Message → Prop) (md' md : Maildir) : Prop :=
  md'.messages.Perm (md.messages.filter fun m => ¬ gone m)

open Classical in
theorem Remains.of_folders {gone : Message → Prop} {md' md : Maildir}
    (h : ∀ d, (md'.folder d).list.Perm ((md.folder d).list.filter fun f => ¬ gone (d, f))) :
    Remains gone md' md := by
  have hfolder : ∀ d, ((md'.folder d).list.map (Prod.mk d)).Perm
      (((md.folder d).list.map (Prod.mk d)).filter fun m => ¬ gone m) := by
    intro d
    rw [List.filter_map]
    exact (h d).map _
  unfold Remains Maildir.messages
  rw [List.filter_append, List.filter_append]
  exact ((hfolder .new).append (hfolder .cur)).append (hfolder .tmp)

/-- What a login finds is what another one finds, without the messages that are gone: where one
cannot open a folder, neither can the other. -/
def FindsRest (gone : Message → Prop) (after before : Option Maildir) : Prop :=
  Option.Rel (Remains gone) after before

theorem FindsRest.congr {gone gone' : Message → Prop} {after before : Option Maildir}
    (h : FindsRest gone after before)
    (hgone : ∀ md, before = some md → ∀ m ∈ md.messages, gone m ↔ gone' m) :
    FindsRest gone' after before := by
  classical
  cases h with
  | none => exact .none
  | some h =>
    refine .some (List.Perm.trans h (List.Perm.of_eq ?_))
    apply List.filter_congr
    intro m hm
    simp [hgone _ rfl m hm]

theorem FindsRest.trans {gone gone' : Message → Prop} {later after before : Option Maildir}
    (h' : FindsRest gone' later after) (h : FindsRest gone after before) :
    FindsRest (fun m => gone m ∨ gone' m) later before := by
  classical
  cases h with
  | none =>
    cases h'
    exact .none
  | some h =>
    cases h' with
    | some h' =>
      refine .some (List.Perm.trans h' (List.Perm.trans (List.Perm.filter _ h)
        (List.Perm.of_eq ?_)))
      rw [List.filter_filter]
      apply List.filter_congr
      intro m _
      simp [Bool.and_comm]

/-- Every message is a file that `readdir` has given. -/
theorem plain_of_load {opendir : Bytes → Option (List DirEntry)} (hplain : PlainNames opendir)
    {baseDir user : Bytes} {md : Maildir} (h : loadUserStructure opendir baseDir user = some md) :
    ∀ m ∈ md.messages, SLASH ∉ m.2.name := by
  intro m hm
  have hfolder : m.2 ∈ (md.folder m.1).list := by
    rw [md.folder_list]
    exact List.mem_map_of_mem (List.mem_filter.mpr ⟨hm, decide_eq_true rfl⟩)
  obtain ⟨entries, hentries, hlist⟩ :=
    createFileList_eq_some.mp (loadUserStructure_eq_some.mp h m.1)
  rw [hlist] at hfolder
  obtain ⟨e, he, hfile⟩ := List.mem_filterMap.mp hfolder
  rw [DirEntry.regularFile_name hfile]
  exact hplain _ entries hentries e he

section Folders

variable {ι : Type} {s s' : MailFolders ι} {baseDir user : Bytes}

theorem plainNames_list (s : MailFolders ι) : PlainNames s.list :=
  fun _ _ h => Directories.plain_of_list h

theorem resolve_of_load {md : Maildir} (h : loadUserStructure s.list baseDir user = some md)
    (d : Directory) : ∃ i, s.resolve (folderPath baseDir user d) = some i ∧
      (md.folder d).list = (s.entries i).filterMap DirEntry.regularFile := by
  obtain ⟨entries, hentries, hlist⟩ := createFileList_eq_some.mp (loadUserStructure_eq_some.mp h d)
  obtain ⟨i, hi, rfl⟩ := Option.map_eq_some_iff.mp hentries
  exact ⟨i, hi, hlist⟩

/-- One of the paths leads to the file of the message. -/
def LedTo (s : MailFolders ι) (paths : List Bytes) (baseDir user : Bytes) (m : Message) : Prop :=
  ∃ path ∈ paths, ∃ i, s.resolve (folderPath baseDir user m.1) = some i ∧ s.Leads path i m.2.name

theorem load_eq_none_iff : loadUserStructure s.list baseDir user = none ↔
    ∃ d, s.resolve (folderPath baseDir user d) = none := by
  have hload := not_congr (loadUserStructure_ne_none_iff s.list baseDir user)
  simpa [Directories.list] using hload

/-- **A login finds the messages to whose files no removed path leads.** -/
theorem load_unlinked {paths : List Bytes} (h : s.UnlinkedAll paths s') (baseDir user : Bytes) :
    FindsRest (LedTo s paths baseDir user) (loadUserStructure s'.list baseDir user)
      (loadUserStructure s.list baseDir user) := by
  classical
  have hresolve := h.resolve
  have hnone : loadUserStructure s'.list baseDir user = none ↔
      loadUserStructure s.list baseDir user = none := by
    rw [load_eq_none_iff, load_eq_none_iff, hresolve]
  cases hload : loadUserStructure s.list baseDir user with
  | none =>
    rw [hnone.mpr hload]
    exact .none
  | some md =>
    have hsome : loadUserStructure s'.list baseDir user ≠ none := by simp [hnone, hload]
    obtain ⟨md', hload'⟩ := Option.ne_none_iff_exists'.mp hsome
    rw [hload']
    refine .some (.of_folders fun d => ?_)
    obtain ⟨i, hi, hlist⟩ := resolve_of_load hload d
    obtain ⟨i', hi', hlist'⟩ := resolve_of_load hload' d
    rw [hresolve, hi] at hi'
    obtain rfl := Option.some.inj hi'
    rw [hlist, hlist']
    refine ((h.entries i).filterMap _).trans (List.Perm.of_eq ?_)
    rw [Directories.left, List.filterMap_filter, List.filter_filterMap]
    apply List.filterMap_congr
    intro e _
    cases hfile : e.regularFile with
    | none => simp
    | some f =>
      have hname := DirEntry.regularFile_name hfile
      simp [LedTo, Option.filter, hi, hname]

end Folders

/-! ### What a line removes -/

/-- The session has deleted the message `d`, and this line is its QUIT. -/
structure Exchange.QuitsDeleting (x : Exchange) (past : List Exchange) (u : User) (d : Message) :
    Prop where
  quit : getCommandValue x.command = .quit
  state : x.session.clientState = .transaction
  fits : x.command.length ≤ 2 * BUFFER_SIZE
  user : x.session.user = some u
  logged : LoggedInBy past x.session
  deleted : ∃ md, x.session.maildir = some md ∧ ∃ k ∈ deletedSince past, md.messages[k]? = some d

theorem MarksInvariant.mem_removes_iff {past : List Exchange} {x : Exchange}
    (h : MarksInvariant past x.session) (path : Bytes) : path ∈ x.step.removes ↔
      ∃ u d, x.QuitsDeleting past u d ∧ path = d.path x.shared.pop3.baseDir u.name := by
  constructor
  · intro hpath
    obtain ⟨e, he, hremoved⟩ := List.mem_filterMap.mp hpath
    have heffect : .remove path ∈ x.step.effects := by
      cases e with
      | remove path' => exact Option.some.inj hremoved ▸ he
      | _ => cases hremoved
    obtain ⟨hfit, -⟩ := x.outcome_of_effect heffect nofun
    obtain ⟨hquit, hstate⟩ := removes_only_quit x (List.ne_nil_of_mem hpath)
    obtain ⟨-, k, hk, u, md, d, hu, hlogged, hmd, hd, rfl⟩ := h.ownersMail.removes path heffect
    exact ⟨u, d, ⟨hquit, hstate, hfit, hu, hlogged, md, hmd, k, hk, hd⟩, rfl⟩
  · rintro ⟨u, d, hq, rfl⟩
    obtain ⟨md, hmd, k, hk, hd⟩ := hq.deleted
    obtain ⟨u', md', hu', hmd', -, hremoves⟩ := (h.deletesMarked hq.fits).quit hq.quit hq.state
    obtain rfl : u' = u := Option.some.inj (hu'.symm.trans hq.user)
    obtain rfl : md' = md := Option.some.inj (hmd'.symm.trans hmd)
    rw [hremoves]
    refine List.mem_map.mpr ⟨(d, k), List.mem_filter.mpr ⟨?_, decide_eq_true hk⟩, rfl⟩
    exact List.mem_zipIdx_iff_getElem?.mpr hd

theorem Exchange.QuitsDeleting.plain {past : List Exchange} {x : Exchange} {u : User} {d : Message}
    (h : x.QuitsDeleting past u d) (hplain : ∀ p ∈ past, PlainNames p.env.opendir) :
    SLASH ∉ d.2.name := by
  obtain ⟨md, hmd, k, -, hd⟩ := h.deleted
  obtain ⟨before, p, after, u', loaded, md', rfl, hp, -, -, hmd', hloaded⟩ := h.logged
  obtain rfl : md' = md := Option.some.inj (hmd'.symm.trans hmd)
  have hunmarked : d.unmark ∈ loaded.messages := by
    rw [← hloaded, unmarkAll_messages]
    exact List.mem_map_of_mem (List.mem_of_getElem? hd)
  have hopendir := hplain p (List.mem_append_right _ List.mem_cons_self)
  exact plain_of_load hopendir hp.loaded d.unmark hunmarked

section Lines

variable {ι : Type} {s s' : MailFolders ι} {past : List Exchange} {x : Exchange}

/-- The message `m` of a mailbox is one that the session has deleted and now quits with: its file
has the same name and lies in the same directory. -/
def Exchange.Deletes (s : MailFolders ι) (past : List Exchange) (x : Exchange)
    (baseDir user : Bytes) (m : Message) : Prop :=
  ∃ u d, x.QuitsDeleting past u d ∧ d.2.name = m.2.name ∧
    s.resolve (folderPath x.shared.pop3.baseDir u.name d.1) =
      s.resolve (folderPath baseDir user m.1)

theorem ledTo_removes_iff (h : MarksInvariant past x.session)
    (hplain : ∀ p ∈ past, PlainNames p.env.opendir) {baseDir user : Bytes} {md : Maildir}
    (hload : loadUserStructure s.list baseDir user = some md) {m : Message}
    (hm : m ∈ md.messages) :
    LedTo s x.step.removes baseDir user m ↔ x.Deletes s past baseDir user m := by
  have hname := plain_of_load (plainNames_list s) hload m hm
  obtain ⟨i, hi, -⟩ := resolve_of_load hload m.1
  constructor
  · rintro ⟨path, hpath, i', hi', hleads⟩
    obtain rfl : i = i' := Option.some.inj (hi.symm.trans hi')
    obtain ⟨u, d, hq, rfl⟩ := (h.mem_removes_iff path).mp hpath
    rw [Message.path, messagePath_eq,
      Directories.leads_pathOf_iff (hq.plain hplain) hname] at hleads
    exact ⟨u, d, hq, hleads.2, hleads.1.trans hi.symm⟩
  · rintro ⟨u, d, hq, hsame, hresolve⟩
    refine ⟨_, (h.mem_removes_iff _).mpr ⟨u, d, hq, rfl⟩, i, hi, ?_⟩
    rw [Message.path, messagePath_eq, Directories.leads_pathOf_iff (hq.plain hplain) hname]
    exact ⟨hresolve.trans hi, hsame⟩

/-- **Step lemma.** What a login finds after a line is what it would have found before, without the
messages the line deletes. -/
theorem load_after_line (h : MarksInvariant past x.session)
    (hplain : ∀ p ∈ past, PlainNames p.env.opendir) (hunlink : s.UnlinkedAll x.step.removes s')
    (baseDir user : Bytes) :
    FindsRest (x.Deletes s past baseDir user) (loadUserStructure s'.list baseDir user)
      (loadUserStructure s.list baseDir user) :=
  (load_unlinked hunlink baseDir user).congr fun _ hload _ hm => ledTo_removes_iff h hplain hload hm

end Lines

/-! ### QUIT and the next login -/

/-- The three folders of a user are three directories. -/
def ApartFolders {ι : Type} (s : MailFolders ι) (baseDir user : Bytes) : Prop :=
  ∀ d d', s.resolve (folderPath baseDir user d) = s.resolve (folderPath baseDir user d') → d = d'

/-- No folder of the one mailbox is a folder of the other. -/
def ApartMailboxes {ι : Type} (s : MailFolders ι) (baseDir user baseDir' user' : Bytes) : Prop :=
  ∀ d d' i, s.resolve (folderPath baseDir user d) = some i →
    s.resolve (folderPath baseDir' user' d') ≠ some i

/-- What a login finds after the QUIT of a session that has logged in: of the mailbox of its user
under the base directory of the moment, what it would have found before, without the files named
like the messages the session has deleted since its login and its last RSET; of every other mailbox,
what it would have found before. -/
def QuitLeavesRest (past : List Exchange) (x : Exchange) : Prop :=
  getCommandValue x.command = .quit → x.session.clientState = .transaction →
    x.command.length ≤ 2 * BUFFER_SIZE → (∀ p ∈ past, PlainNames p.env.opendir) →
    ∃ u md, x.session.user = some u ∧ LoggedInBy past x.session ∧ x.session.maildir = some md ∧
      ∀ (ι : Type) (s s' : MailFolders ι), s.UnlinkedAll x.step.removes s' →
        (ApartFolders s x.shared.pop3.baseDir u.name →
          FindsRest (fun m => ∃ k ∈ deletedSince past, ∃ d, md.messages[k]? = some d ∧
              d.1 = m.1 ∧ d.2.name = m.2.name)
            (loadUserStructure s'.list x.shared.pop3.baseDir u.name)
            (loadUserStructure s.list x.shared.pop3.baseDir u.name)) ∧
        ∀ baseDir user, ApartMailboxes s x.shared.pop3.baseDir u.name baseDir user →
          FindsRest (fun _ => False) (loadUserStructure s'.list baseDir user)
            (loadUserStructure s.list baseDir user)

theorem MarksInvariant.quitLeavesRest {past : List Exchange} {x : Exchange}
    (h : MarksInvariant past x.session) : QuitLeavesRest past x := by
  intro hquit hstate hfit hplain
  have hlogged := h.logged hstate
  obtain ⟨_, _, _, u, _, md, -, -, -, hu, hmd, -⟩ := h.logged hstate
  refine ⟨u, md, hu, hlogged, hmd, fun ι s s' hunlink => ⟨fun hapart => ?_, ?_⟩⟩
  · apply (load_after_line h hplain hunlink _ _).congr
    intro loaded hload m hm
    constructor
    · rintro ⟨u', d, hq, hname, hdir⟩
      obtain ⟨md', hmd', k, hk, hd⟩ := hq.deleted
      obtain rfl : u = u' := Option.some.inj (hu.symm.trans hq.user)
      obtain rfl : md = md' := Option.some.inj (hmd.symm.trans hmd')
      exact ⟨k, hk, d, hd, hapart _ _ hdir, hname⟩
    · rintro ⟨k, hk, d, hd, hdir, hname⟩
      exact ⟨u, d, ⟨hquit, hstate, hfit, hu, hlogged, md, hmd, k, hk, hd⟩, hname, by rw [hdir]⟩
  · intro baseDir user hother
    apply (load_after_line h hplain hunlink _ _).congr
    intro loaded hload m hm
    refine iff_of_false ?_ not_false
    rintro ⟨u', d, hq, -, hdir⟩
    obtain rfl : u = u' := Option.some.inj (hu.symm.trans hq.user)
    obtain ⟨i, hi, -⟩ := resolve_of_load hload m.1
    exact hother d.1 m.1 i (hdir.trans hi) hi

def QuitRoundTrip (before : List (Nat × SessionEvent)) : Nat × SessionEvent → Prop
  | (n, .line x) => QuitLeavesRest (pastOf n before) x
  | _ => True

/-- **After a QUIT the next login finds what the session had not deleted**, mail that has come in
meanwhile included, and every other mailbox is as it was: in every run and whatever the other
sessions do in between. -/
theorem Server.quit_then_login (sh : Shared) (managerSocket : Int) (os : List Occurrence) :
    Along ((start sh managerSocket).runEvents os) QuitRoundTrip := by
  rintro before ⟨n, e⟩ after hrun
  cases e with
  | line x =>
    obtain ⟨_, _, _, -, hmarks⟩ := marksHistory.along sh managerSocket os hrun
    exact hmarks.quitLeavesRest
  | _ => trivial

/-! ### Whole runs -/

/-- Nothing but the server changes the folders: every line finds them as the lines in front of it
have left them. -/
inductive FolderStep {ι : Type} : MailFolders ι → Nat × SessionEvent → MailFolders ι → Prop
  | line {s s' : MailFolders ι} {n : Nat} {x : Exchange} (hfinds : x.env.opendir = s.list)
      (hunlink : s.UnlinkedAll x.step.removes s') : FolderStep s (n, .line x) s'
  | other {s : MailFolders ι} {n : Nat} {e : SessionEvent} (hother : ∀ x, e ≠ .line x) :
      FolderStep s (n, e) s

def folderSystem (ι : Type) : LTS (MailFolders ι) (Nat × SessionEvent) := ⟨FolderStep⟩

/-- A session that had logged in to the mailbox has deleted the message and quit. -/
def DeletedByOwner {ι : Type} (s : MailFolders ι) (baseDir user : Bytes)
    (events : List (Nat × SessionEvent)) (m : Message) : Prop :=
  Machine.Once events fun before e => ∃ x u d, e.2 = .line x ∧
    x.QuitsDeleting (pastOf e.1 before) u d ∧ d.2.name = m.2.name ∧
    s.resolve (folderPath baseDir u.name d.1) = s.resolve (folderPath baseDir user m.1)

theorem mem_of_mem_pastOf {n : Nat} {events : List (Nat × SessionEvent)} {p : Exchange}
    (h : p ∈ pastOf n events) : (n, .line p) ∈ events := by
  obtain ⟨e, he, hline⟩ := List.mem_filterMap.mp h
  cases e with
  | line p' =>
    obtain rfl : p' = p := Option.some.inj hline
    exact LTS.mem_thread.mp he
  | _ => cases hline

section Runs

variable {ι : Type} {s t t' : MailFolders ι} {baseDir user : Bytes}

/-- The folders `t` after a part of a run that has begun with `s`. -/
structure Accounted (s : MailFolders ι) (baseDir user : Bytes)
    (past : List (Nat × SessionEvent)) (t : MailFolders ι) : Prop where
  resolve : t.resolve = s.resolve
  plain : ∀ n x, (n, .line x) ∈ past → PlainNames x.env.opendir
  rest : FindsRest (DeletedByOwner s baseDir user past) (loadUserStructure t.list baseDir user)
    (loadUserStructure s.list baseDir user)

theorem Accounted.start (s : MailFolders ι) (baseDir user : Bytes) :
    Accounted s baseDir user [] s := by
  classical
  refine ⟨rfl, fun _ _ hx => absurd hx List.not_mem_nil, ?_⟩
  cases loadUserStructure s.list baseDir user with
  | none => exact .none
  | some md =>
    refine .some (List.Perm.of_eq (List.filter_eq_self.mpr fun m _ => ?_).symm)
    exact decide_eq_true (Machine.not_once_nil _)

variable {past : List (Nat × SessionEvent)} {n : Nat}

theorem Accounted.line (h : Accounted s baseDir user past t) {x : Exchange}
    (hmarks : MarksInvariant (pastOf n past) x.session) (hbase : x.shared.pop3.baseDir = baseDir)
    (hfinds : x.env.opendir = t.list) (hunlink : t.UnlinkedAll x.step.removes t') :
    Accounted s baseDir user (past ++ [(n, .line x)]) t' := by
  have hplain : ∀ p ∈ pastOf n past, PlainNames p.env.opendir :=
    fun p hp => h.plain n p (mem_of_mem_pastOf hp)
  refine ⟨hunlink.resolve.trans h.resolve, fun n' x' hx' => ?_, ?_⟩
  · rcases List.mem_append.mp hx' with hx' | hx'
    · exact h.plain n' x' hx'
    · obtain ⟨rfl, hline⟩ := Prod.mk.inj (List.mem_singleton.mp hx')
      obtain rfl := SessionEvent.line.inj hline
      exact hfinds ▸ plainNames_list t
  · apply ((load_after_line hmarks hplain hunlink baseDir user).trans h.rest).congr
    intro md _ m _
    refine Iff.trans (or_congr_right ?_) Machine.once_concat_iff.symm
    subst hbase
    constructor
    · rintro ⟨u, d, hq, hname, hdir⟩
      exact ⟨x, u, d, rfl, hq, hname, h.resolve ▸ hdir⟩
    · rintro ⟨x', u, d, hline, hq, hname, hdir⟩
      obtain rfl := SessionEvent.line.inj hline
      exact ⟨u, d, hq, hname, h.resolve ▸ hdir⟩

theorem Accounted.other (h : Accounted s baseDir user past t) {e : SessionEvent}
    (hother : ∀ x, e ≠ .line x) : Accounted s baseDir user (past ++ [(n, e)]) t := by
  refine ⟨h.resolve, fun n' x hx => ?_, h.rest.congr fun md _ m _ => ?_⟩
  · rcases List.mem_append.mp hx with hx | hx
    · exact h.plain n' x hx
    · exact absurd (Prod.mk.inj (List.mem_singleton.mp hx)).2.symm (hother x)
  · refine Iff.trans (or_iff_left ?_).symm Machine.once_concat_iff.symm
    rintro ⟨x, u, d, hline, -⟩
    exact hother x hline

/-- **No mail is lost.**  While nothing but the server changes the folders, and they stay under one
base directory, a login at any point of a run finds the messages its mailbox had at the start, less
exactly those that sessions logged in to this mailbox have deleted and quit with. -/
theorem Server.no_mail_lost {sh : Shared} {managerSocket : Int} {os : List Occurrence}
    {before after : List (Nat × SessionEvent)}
    (hrun : (start sh managerSocket).runEvents os = before ++ after)
    (hfolders : (folderSystem ι).Run s before t)
    (hbase : ∀ n x, (n, .line x) ∈ before → x.shared.pop3.baseDir = baseDir) (user : Bytes) :
    FindsRest (DeletedByOwner s baseDir user before) (loadUserStructure t.list baseDir user)
      (loadUserStructure s.list baseDir user) := by
  -- what is known is kept by every event of the run
  have haccounted : before <+: before → Accounted s baseDir user before t := by
    refine hfolders.history (R := fun past u => past <+: before → Accounted s baseDir user past u)
      ?_ fun _ => .start s baseDir user
    rintro past u ⟨n, e⟩ v ih hstep hpast
    have hknown := ih ((List.prefix_append _ _).trans hpast)
    cases hstep with
    | @line _ _ x hfinds hunlink =>
      obtain ⟨rest, rfl⟩ := hpast
      rw [List.append_assoc, List.append_assoc] at hrun
      obtain ⟨_, _, _, -, hmarks⟩ := marksHistory.along sh managerSocket os hrun
      exact hknown.line hmarks (hbase n x (by simp)) hfinds hunlink
    | other hother => exact hknown.other hother
  exact (haccounted (List.prefix_refl before)).rest

end Runs

/-! ### A run to evaluate on -/

section Sample

variable {ι : Type} {s : MailFolders ι}

theorem folders_of_quiet {events : List (Nat × SessionEvent)}
    (h : ∀ n x, (n, .line x) ∈ events → x.env.opendir = s.list ∧ x.step.removes = []) :
    (folderSystem ι).Run s events s := by
  induction events with
  | nil => exact .nil
  | cons a events ih =>
    refine .cons ?_ (ih fun n x hx => h n x (List.mem_cons_of_mem _ hx))
    obtain ⟨n, e⟩ := a
    cases e with
    | line x =>
      obtain ⟨hfinds, hnone⟩ := h n x List.mem_cons_self
      exact .line hfinds (hnone ▸ .nil s)
    | _ => exact .other fun _ hline => by cases hline

theorem exists_folderStep (a : Nat × SessionEvent)
    (h : ∀ x, a.2 = .line x → x.env.opendir = s.list) : ∃ t, (folderSystem ι).step s a t := by
  obtain ⟨n, e⟩ := a
  cases e with
  | line x =>
    obtain ⟨t, hunlink⟩ := s.exists_unlinkedAll x.step.removes
    exact ⟨t, .line (h x rfl) hunlink⟩
  | _ => exact ⟨s, .other fun _ hline => by cases hline⟩

end Sample

/-- Folders with the entries of `sampleEnv`, every path leading to a directory of its own. -/
def sampleFolders : MailFolders Bytes where
  resolve := some
  entries dir := (sampleEnv.opendir dir).getD []
  plain dir := by
    simp only [sampleEnv]
    split
    · decide
    · split
      · decide
      · exact nofun
  distinct dir := by
    simp only [sampleEnv]
    split
    · decide
    · split
      · decide
      · exact List.nodup_nil

theorem sampleFolders_list : sampleFolders.list = sampleEnv.opendir := by
  funext dir
  have hopens : sampleEnv.opendir dir ≠ none := by
    simp only [sampleEnv]
    split
    · simp
    · split <;> simp
  obtain ⟨entries, hentries⟩ := Option.ne_none_iff_exists'.mp hopens
  simp [Directories.list, sampleFolders, hentries]

theorem Server.exchanges_env {sv : Server} {os : List Occurrence} {E : Env}
    (h : ∀ o ∈ os, ∀ k, o.env k = E) : ∀ x ∈ sv.exchanges os, x.env = E := by
  intro x hx
  obtain ⟨⟨sv', o⟩, ht, hx⟩ := List.mem_flatMap.mp hx
  have ho : o ∈ os :=
    (Machine.trace_inputs_initial serverMachine sv os).subset (List.mem_map_of_mem ht)
  have hcall : ∀ slot, ∀ x ∈ (sv'.call slot o).exchanges, x.env = E := by
    intro slot
    unfold Server.call handleClient
    simp only [scan_exchanges]
    intro x hx
    obtain ⟨k, hk⟩ := Pop3Server.exchanges_env _ _ x hx
    exact hk.trans (h o ho k)
  cases sv'.step_outcome o with
  | quiet hevent _ _ =>
    rw [hevent] at hx
    cases hx
  | opened _ _ _ _ hevent _ _ =>
    rw [hevent] at hx
    cases hx
  | faulted slot _ _ hevent =>
    rw [hevent] at hx
    exact hcall slot x hx
  | stayed slot _ _ _ _ hevent _ _ =>
    rw [hevent] at hx
    exact hcall slot x hx
  | closed slot _ _ _ _ hevent _ _ =>
    rw [hevent] at hx
    exact hcall slot x hx

/-- A session that logs in, deletes a message and quits. -/
def deletingSession : List Occurrence :=
  accepting 4 5 ++
    roundOf 4 5 none (delivery "USER anna\r\nPASS secret\r\nDELE 1\r\nQUIT\r\n" (by decide))

def deletingEvents : List (Nat × SessionEvent) :=
  (Server.start sampleShared 4).runEvents deletingSession

theorem deletingEvents_line {n : Nat} {x : Exchange} (h : (n, .line x) ∈ deletingEvents) :
    x ∈ (Server.start sampleShared 4).exchanges deletingSession := by
  rw [← Server.linesOf_runEvents]
  exact List.mem_filterMap.mpr ⟨.line x, List.mem_map_of_mem h, rfl⟩

theorem deletingEvents_env {n : Nat} {x : Exchange} (h : (n, .line x) ∈ deletingEvents) :
    x.env = sampleEnv := by
  refine Server.exchanges_env (fun o ho k => ?_) x (deletingEvents_line h)
  rcases List.mem_append.mp ho with ho | ho <;>
    rw [List.eq_of_mem_replicate ho]

theorem Server.no_mail_lost_deleting : ∃ t, (folderSystem Bytes).Run sampleFolders
    (deletingEvents.take 5) t ∧
      FindsRest (DeletedByOwner sampleFolders (str "/mail/") (str "anna") (deletingEvents.take 5))
        (loadUserStructure t.list (str "/mail/") (str "anna"))
        (loadUserStructure sampleFolders.list (str "/mail/") (str "anna")) := by
  have hlines : ∀ {n x}, (n, .line x) ∈ deletingEvents.take 5 → (n, .line x) ∈ deletingEvents :=
    fun h => List.mem_of_mem_take h
  -- only the last of these lines, the QUIT, removes anything
  have hquiet : ∀ x ∈ linesOf ((deletingEvents.take 4).map Prod.snd), x.step.removes = [] := by
    decide +kernel
  obtain ⟨a, ha⟩ : ∃ a, deletingEvents.take 5 = deletingEvents.take 4 ++ [a] := by
    have h4 : 4 < deletingEvents.length := by decide +kernel
    exact ⟨_, (List.take_concat_get' deletingEvents 4 h4).symm⟩
  obtain ⟨t, hstep⟩ := exists_folderStep (s := sampleFolders) a fun x hx => by
    obtain ⟨n, e⟩ := a
    obtain rfl : e = .line x := hx
    have hmem : (n, .line x) ∈ deletingEvents.take 5 := by rw [ha]; simp
    rw [sampleFolders_list, deletingEvents_env (hlines hmem)]
  have hrun : (folderSystem Bytes).Run sampleFolders (deletingEvents.take 5) t := by
    rw [ha]
    refine (folders_of_quiet fun n x hx => ⟨?_, hquiet x ?_⟩).concat hstep
    · rw [sampleFolders_list, deletingEvents_env (List.mem_of_mem_take hx)]
    · exact List.mem_filterMap.mpr ⟨.line x, List.mem_map_of_mem hx, rfl⟩
  have hbase : ∀ x ∈ (Server.start sampleShared 4).exchanges deletingSession,
      x.shared.pop3.baseDir = str "/mail/" := by decide +kernel
  exact ⟨t, hrun, Server.no_mail_lost (List.take_append_drop 5 deletingEvents).symm hrun
    (fun _ _ hx => hbase _ (deletingEvents_line (hlines hx))) (str "anna")⟩

end Pop3Server
