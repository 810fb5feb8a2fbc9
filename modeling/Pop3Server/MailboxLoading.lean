import Pop3Server.SessionInvariant

/-!
# Loading the mailbox at PASS

`create_file_list` keeps the entries of a folder for which `stat` succeeds and
tells a regular file, in the order of the directory; an entry for which `stat`
fails is passed over.  `load_user_structure` goes on with the null header of a
folder that cannot be opened, after the password has been accepted.

What is a regular file is a matter of the disk (`isFile`), which `stat` reports
where it succeeds (`StatTells`).  `login_clean_iff` says which logins end as they
should.
-/

namespace Pop3Server

def filePath (folder name : Bytes) : Bytes := folder ++ str "/" ++ name

/-- `stat` tells the regular files of a folder from its other entries, where it succeeds. -/
def StatTells (isFile : Bytes → Bool) (folder : Bytes) (dir : Option (List DirEntry)) : Prop :=
  ∀ entries ∈ dir, ∀ e ∈ entries, ∀ st ∈ e.stat, st.regular = isFile (filePath folder e.name)

/-- The entry is a regular file of the folder, whatever `stat` says. -/
def DirEntry.isMail (isFile : Bytes → Bool) (folder : Bytes) (e : DirEntry) : Bool :=
  e.name ≠ str "." && e.name ≠ str ".." && isFile (filePath folder e.name)

/-- The folder of the user as it is on the disk: the names of its regular files in the order of the
directory, and their number. -/
structure LoadedFrom (isFile : Bytes → Bool) (folder : Bytes) (entries : List DirEntry)
    (header : FileListHeader) : Prop where
  files : header.list.map FileList.name =
    (entries.filter (DirEntry.isMail isFile folder)).map DirEntry.name
  size : header.size = header.list.length

/-- The folder can be opened, and `stat` succeeds for each of its regular files. -/
def Readable (isFile : Bytes → Bool) (folder : Bytes) (dir : Option (List DirEntry)) : Prop :=
  ∃ entries, dir = some entries ∧ ∀ e ∈ entries, e.isMail isFile folder = true → e.stat ≠ none

/-- A PASS logs the session in with the mailbox as it is on the disk. -/
structure LogsIn (isFile : Bytes → Bool) (x : Exchange) (u : User) : Prop where
  answered : x.step.sends = [str "+OK Password accepted\r\n"]
  control : x.step.control = .next
  state : x.step.session.clientState = .transaction
  maildir : ∃ md, x.step.session.maildir = some md ∧ ∀ d, ∃ entries,
    x.env.opendir (folderPath x.shared.pop3.baseDir u.name d) = some entries ∧
      LoadedFrom isFile (folderPath x.shared.pop3.baseDir u.name d) entries (md.folder d)

/-- A PASS is refused and leaves no mailbox behind. -/
structure LoginRefused (x : Exchange) : Prop where
  answered : ∃ response, IsErr response ∧ x.step.sends = [response]
  control : x.step.control = .next
  state : x.step.session.clientState = .authorization
  maildir : x.step.session.maildir = none

/-! ### The files of a folder -/

section Folder

variable {isFile : Bytes → Bool} {folder : Bytes} {entries : List DirEntry}
  (htells : StatTells isFile folder (some entries))
include htells

/-- The code keeps the regular files for which `stat` succeeds. -/
theorem regularFile_isSome {e : DirEntry} (he : e ∈ entries) :
    e.regularFile.isSome = (e.isMail isFile folder && e.stat.isSome) := by
  have hstat := htells entries rfl e he
  unfold DirEntry.regularFile DirEntry.isMail
  by_cases hdots : e.name = str "." ∨ e.name = str ".."
  · rw [if_pos hdots]
    rcases hdots with h | h <;> simp [h]
  · obtain ⟨hdot, hdotdot⟩ := not_or.mp hdots
    rw [if_neg hdots]
    cases hst : e.stat with
    | none => simp
    | some st => simp [hdot, hdotdot, ← hstat st hst, Option.filter, apply_ite]

theorem regularFile_names : (entries.filterMap DirEntry.regularFile).map FileList.name =
    (entries.filter fun e => e.isMail isFile folder && e.stat.isSome).map DirEntry.name := by
  rw [← List.filter_congr fun e he => regularFile_isSome htells he]
  clear htells
  induction entries with
  | nil => rfl
  | cons e entries ih =>
    cases hfile : e.regularFile with
    | none =>
      rw [List.filterMap_cons_none hfile, List.filter_cons_of_neg (by simp [hfile]), ih]
    | some f =>
      rw [List.filterMap_cons_some hfile, List.filter_cons_of_pos (by simp [hfile]),
        List.map_cons, List.map_cons, ih, DirEntry.regularFile_name hfile]

/-- **`create_file_list` gives the folder as it is on the disk exactly when it can ask about every
file in it.** -/
theorem loadedFrom_iff {header : FileListHeader}
    (hlist : header.list = entries.filterMap DirEntry.regularFile) :
    LoadedFrom isFile folder entries header ↔ Readable isFile folder (some entries) := by
  have hnames := regularFile_names htells
  constructor
  · rintro ⟨hfiles, -⟩
    rw [hlist, hnames] at hfiles
    have hsub := List.monotone_filter_right entries
      (p := fun e => e.isMail isFile folder && e.stat.isSome)
      (q := DirEntry.isMail isFile folder) (fun e he => (Bool.and_eq_true _ _ ▸ he).1)
    have hall := hsub.eq_of_length (by simpa using congrArg List.length hfiles)
    refine ⟨entries, rfl, fun e he hmail hnone => ?_⟩
    have hmem : e ∈ entries.filter fun e => e.isMail isFile folder && e.stat.isSome :=
      hall ▸ List.mem_filter.mpr ⟨he, hmail⟩
    have hsome := (List.mem_filter.mp hmem).2
    simp [hnone] at hsome
  · rintro ⟨entries', hentries, hstat⟩
    obtain rfl := Option.some.inj hentries
    refine ⟨?_, header.size_eq⟩
    rw [hlist, hnames]
    congr 1
    apply List.filter_congr
    intro e he
    cases hmail : e.isMail isFile folder with
    | false => rfl
    | true => exact Option.isSome_iff_ne_none.mpr (hstat e he hmail)

end Folder

/-! ### PASS with the right password -/

section Pass

variable {x : Exchange} {u : User} (hpass : getCommandValue x.command = .pass)
  (hstate : x.session.clientState = .authorization) (huser : x.session.user = some u)
  (harg : argument x.command = some u.pass)
include hpass hstate huser harg

theorem executed_pass :
    execute x.env x.shared x.session (getCommandValue x.command) (argument x.command)
        (cstr (x.command.drop 5)) = logIn x.env x.shared x.session := by
  have hvalid : validatePassword x.session u.pass = false := by
    simp [validatePassword, huser]
  rw [hpass, harg, execute, passCommand, if_neg (not_not_intro hstate)]
  simp only [passReply, hvalid, Bool.false_eq_true, if_false]

/-- What a PASS with the right password comes to. -/
theorem pass_step (hfit : x.command.length ≤ 2 * BUFFER_SIZE) :
    x.step = { logIn x.env x.shared x.session with
      effects := commandLog x.env x.session x.command ::
        (logIn x.env x.shared x.session).effects } := by
  have h4 : 4 ≤ x.command.length := length_of_keyword (by simp [hpass])
  rw [Exchange.step, dispatch_of_long h4 hfit, executed_pass hpass hstate huser harg]

/-- **A login ends as it should exactly when the three folders can be opened and `stat` succeeds
for each of the files in them** (and the line fits its buffer). -/
theorem login_clean_iff {isFile : Bytes → Bool}
    (htells : ∀ d, StatTells isFile (folderPath x.shared.pop3.baseDir u.name d)
      (x.env.opendir (folderPath x.shared.pop3.baseDir u.name d))) :
    (LogsIn isFile x u ∨ LoginRefused x) ↔ x.command.length ≤ 2 * BUFFER_SIZE ∧
      ∀ d, Readable isFile (folderPath x.shared.pop3.baseDir u.name d)
        (x.env.opendir (folderPath x.shared.pop3.baseDir u.name d)) := by
  by_cases hfit : x.command.length ≤ 2 * BUFFER_SIZE
  case neg =>
    have hcontrol : x.step.control ≠ .next := by
      rw [Exchange.step_of_huge hfit]
      simp
    refine iff_of_false ?_ fun h => hfit h.1
    rintro (h | h)
    · exact hcontrol h.control
    · exact hcontrol h.control
  have hstep := pass_step hpass hstate huser harg hfit
  cases hload : loadUserStructure x.env.opendir x.shared.pop3.baseDir u.name with
  | none =>
    have hcontrol : x.step.control ≠ .next := by
      rw [hstep, logIn]
      simp [huser, hload, nullPointer]
    have hopens : ¬ ∀ d, x.env.opendir (folderPath x.shared.pop3.baseDir u.name d) ≠ none :=
      fun h => (loadUserStructure_ne_none_iff _ _ _).mpr h hload
    refine iff_of_false ?_ fun h => hopens fun d => ?_
    · rintro (h | h)
      · exact hcontrol h.control
      · exact hcontrol h.control
    · obtain ⟨entries, hentries, -⟩ := h.2 d
      simp [hentries]
  | some md =>
    have hlogin : logIn x.env x.shared x.session =
        ⟨{ x.session with clientState := .transaction, maildir := some md }, x.shared, [accepted],
          .next⟩ := by
      rw [logIn]
      simp only [huser, hload]
      rfl
    rw [hlogin] at hstep
    have hfolders := loadUserStructure_eq_some.mp hload
    rw [and_iff_right hfit]
    constructor
    · rintro (h | h) d
      · -- the mailbox of the session is the one that has been loaded
        obtain ⟨md', hmd', hloaded⟩ := h.maildir
        obtain rfl : md = md' := by rw [hstep] at hmd'; exact Option.some.inj hmd'
        obtain ⟨entries, hentries, hlist⟩ := createFileList_eq_some.mp (hfolders d)
        obtain ⟨entries', hentries', hfrom⟩ := hloaded d
        obtain rfl := Option.some.inj (hentries.symm.trans hentries')
        have hfolder := htells d
        rw [hentries] at hfolder ⊢
        exact (loadedFrom_iff hfolder hlist).mp hfrom
      · have hstate' := h.state
        rw [hstep] at hstate'
        cases hstate'
    · intro hreadable
      refine .inl ⟨by rw [hstep]; rfl, by rw [hstep], by rw [hstep], md, by rw [hstep], fun d => ?_⟩
      obtain ⟨entries, hentries, hlist⟩ := createFileList_eq_some.mp (hfolders d)
      have hfolder := htells d
      have hfiles := hreadable d
      rw [hentries] at hfolder hfiles
      exact ⟨entries, hentries, (loadedFrom_iff hfolder hlist).mpr hfiles⟩

end Pass

def passExchange (env : Env) : Exchange :=
  ⟨env, sampleShared, { sampleSession with user := some ⟨str "anna", str "secret"⟩ },
    str "PASS secret"⟩

/-- In the folders of the sample environment everything but the directory itself is a file. -/
def listedFiles (path : Bytes) : Bool := !decide (str "/." <:+ path)

theorem login_clean_sample :
    (LogsIn listedFiles (passExchange sampleEnv) ⟨str "anna", str "secret"⟩ ∨
        LoginRefused (passExchange sampleEnv)) ↔
      (passExchange sampleEnv).command.length ≤ 2 * BUFFER_SIZE ∧
        ∀ d, Readable listedFiles (folderPath (str "/mail/") (str "anna") d)
          (sampleEnv.opendir (folderPath (str "/mail/") (str "anna") d)) := by
  refine login_clean_iff (by decide) rfl rfl (by decide) fun d => ?_
  intro entries hentries e he st hst
  have hall : ∀ e ∈ (sampleEnv.opendir (folderPath (str "/mail/") (str "anna") d)).getD [],
      e.stat.all fun st => st.regular == listedFiles (filePath
        (folderPath (str "/mail/") (str "anna") d) e.name) := by
    cases d <;> decide +kernel
  have hentry := hall e (Option.mem_def.mp hentries ▸ he)
  rw [Option.mem_def.mp hst] at hentry
  exact eq_of_beq hentry

/-- Folders that can be listed, and `stat` fails for all that is in them: an empty mailbox. -/
example : (passExchange { sampleEnv with
      opendir := fun _ => some [⟨str "a", none⟩] }).step.session.maildir.map (·.messages) =
    some [] := by
  decide +kernel

/-- A user with nothing but the folder `new`. -/
def onlyNew : Env :=
  { sampleEnv with opendir := fun path => if str "new" <:+ path then some [] else none }

/-- The password is accepted, and the header of `cur` is null. -/
theorem login_without_cur :
    ¬ ∀ (isFile : Bytes → Bool) (x : Exchange) (u : User), getCommandValue x.command = .pass →
      x.session.clientState = .authorization → x.session.user = some u →
      argument x.command = some u.pass → x.command.length ≤ 2 * BUFFER_SIZE →
      (∀ d, StatTells isFile (folderPath x.shared.pop3.baseDir u.name d)
        (x.env.opendir (folderPath x.shared.pop3.baseDir u.name d))) →
      LogsIn isFile x u ∨ LoginRefused x := by
  intro h
  have hcontrol : (passExchange onlyNew).step.control = .fault .nullPointer := by decide +kernel
  have htells : ∀ d, StatTells listedFiles (folderPath (str "/mail/") (str "anna") d)
      (onlyNew.opendir (folderPath (str "/mail/") (str "anna") d)) := by
    intro d entries hentries e he
    have hnone : ∀ e, e ∉ (onlyNew.opendir (folderPath (str "/mail/") (str "anna") d)).getD [] := by
      cases d <;> decide +kernel
    exact absurd (Option.mem_def.mp hentries ▸ he) (hnone e)
  rcases h listedFiles (passExchange onlyNew) ⟨str "anna", str "secret"⟩ (by decide) rfl rfl
    (by decide) (by decide) htells with hin | hout
  · cases hcontrol.symm.trans hin.control
  · cases hcontrol.symm.trans hout.control

end Pop3Server
