import Pop3Server.SettingsHistory

/-!
# The strings built from the settings

HOST and DIRR copy their argument into a block of `strlen` characters, one too
few for the NUL.  The INFO reply, the path of the user and the paths of the
messages go into arrays of `BUFFER_SIZE` characters whatever the length of the
settings.  `Exchange.stringWrites` are these strings with the room they are given;
`strings_fit_iff` says on which runs all of them fit.
-/

namespace Pop3Server

def PATH_MAX : Nat := 4096

/-- A string stored with its NUL, and the size of the array or the block it is stored in. -/
structure StringWrite where
  capacity : Nat
  string : Bytes
deriving DecidableEq

def StringWrite.Fits (w : StringWrite) : Prop := w.string.length + 1 ≤ w.capacity

instance (w : StringWrite) : Decidable w.Fits := inferInstanceAs (Decidable (_ ≤ _))

/-- `snprintf` stores no more than it is told. -/
def snprintf (size : Nat) (s : Bytes) : StringWrite := ⟨size, s.take (size - 1)⟩

/-! ### The strings of each function -/

/-- The copy of `command + 5` that HOST and DIRR keep. -/
def copyWrites (tail : Bytes) : List StringWrite := [⟨tail.length, tail⟩]

/-- `"+OK %s;%s;%s\r\n"` -/
def infoReply (host baseDir ip : Bytes) : Bytes :=
  str "+OK " ++ host ++ str ";" ++ baseDir ++ str ";" ++ ip ++ str "\r\n"

def infoWrites (p : Pop3Structure) : List StringWrite :=
  [⟨BUFFER_SIZE, infoReply p.host p.baseDir p.ip⟩]

def loadUserStructureWrites (baseDir user : Bytes) : List StringWrite :=
  ⟨BUFFER_SIZE, baseDir ++ user⟩ ::
    [Directory.new, .cur, .tmp].map fun d => snprintf PATH_MAX (folderPath baseDir user d)

def viewMessageWrites (baseDir user : Bytes) (md : Maildir) (n : Int) : List StringWrite :=
  match viewTarget md n with
  | some (d, file :: _) => [⟨BUFFER_SIZE, messagePath baseDir user d file.name⟩]
  | _ => []

def deleteMarkedWrites (baseDir user : Bytes) (md : Maildir) : List StringWrite :=
  (deleteMarkedPaths baseDir user md).map fun path => ⟨BUFFER_SIZE, path⟩

def passWrites (sh : Shared) (s : Session) (arg : Option Bytes) : List StringWrite :=
  match s.login.admitted .pass arg with
  | some u => loadUserStructureWrites sh.pop3.baseDir u.name
  | none => []

def retrWrites (sh : Shared) (s : Session) (arg : Option Bytes) : List StringWrite :=
  if s.clientState = .transaction then
    match arg, s.maildir, s.user with
    | some number, some md, some u =>
      if atoi number = 0 then [] else viewMessageWrites sh.pop3.baseDir u.name md (atoi number)
    | _, _, _ => []
  else []

def quitWrites (sh : Shared) (s : Session) : List StringWrite :=
  if s.clientState = .transaction then
    match s.maildir, s.user with
    | some md, some u => deleteMarkedWrites sh.pop3.baseDir u.name md
    | _, _ => []
  else []

/-- The strings of an arm of the switch. -/
def executeWrites (sh : Shared) (s : Session) (comm : Pop3Command) (arg : Option Bytes)
    (tail : Bytes) : List StringWrite :=
  match comm with
  | .host | .dirr => if s.clientState = .manager then copyWrites tail else []
  | .info => if s.clientState = .manager then infoWrites sh.pop3 else []
  | .pass => passWrites sh s arg
  | .retr => retrWrites sh s arg
  | .quit => quitWrites sh s
  | _ => []

/-- The line is executed as this command. -/
def Exchange.Runs (comm : Pop3Command) (x : Exchange) : Prop :=
  x.command.length ≤ 2 * BUFFER_SIZE ∧ getCommandValue x.command = comm

/-- The strings a line builds from the settings. -/
def Exchange.stringWrites (x : Exchange) : List StringWrite :=
  if x.command.length ≤ 2 * BUFFER_SIZE then
    executeWrites x.shared x.session (getCommandValue x.command) (argument x.command) x.tail
  else []

theorem Exchange.stringWrites_eq {x : Exchange} {comm : Pop3Command} (h : x.Runs comm) :
    x.stringWrites = executeWrites x.shared x.session comm (argument x.command) x.tail := by
  rw [Exchange.stringWrites, if_pos h.1, h.2]

/-! ### What becomes of them -/

theorem Outcome.path_written {env : Env} {sh : Shared} {s : Session} {comm : Pop3Command}
    {arg : Option Bytes} {st : Step} (h : Outcome env sh s comm arg st) (tail : Bytes)
    {path : Bytes} :
    (Effect.remove path ∈ st.effects → ⟨BUFFER_SIZE, path⟩ ∈ executeWrites sh s comm arg tail) ∧
      ∀ transformed, Effect.transfer path transformed ∈ st.effects →
        path = LOGGER_FILE ∨ ⟨BUFFER_SIZE, path⟩ ∈ executeWrites sh s comm arg tail := by
  cases h with
  | @retrieved md u number d file more hstate hmaildir huser htarget =>
    have hnumber : ¬ atoi number = 0 := by
      intro hzero
      rw [hzero, viewTarget_zero] at htarget
      cases htarget
    have hwrites : executeWrites sh s .retr (some number) tail =
        [⟨BUFFER_SIZE, messagePath sh.pop3.baseDir u.name d file.name⟩] := by
      simp only [executeWrites, retrWrites, hstate, hmaildir, huser, if_true, if_neg hnumber,
        viewMessageWrites, htarget]
    rw [hwrites]
    constructor
    · simp [announced]
    · intro transformed htransfer
      rw [(eq_of_transfer_mem htransfer).1]
      exact .inr (List.mem_singleton_self _)
  | logSent hstate =>
    constructor
    · simp
    · intro transformed htransfer
      exact .inl (eq_of_transfer_mem htransfer).1
  | @quitMailbox md u arg hstate hmaildir huser =>
    have hwrites : executeWrites sh s .quit arg tail =
        deleteMarkedWrites sh.pop3.baseDir u.name md := by
      simp only [executeWrites, quitWrites, hstate, hmaildir, huser, if_true]
    rw [hwrites, deleteMarkedWrites]
    constructor
    · intro hremove
      simp only [goodbye, List.cons_append, List.mem_cons, reduceCtorEq, List.mem_append,
        List.mem_map, Effect.remove.injEq, List.not_mem_nil, or_false, false_or] at hremove
      obtain ⟨_, hpath, rfl⟩ := hremove
      exact List.mem_map_of_mem hpath
    · simp [goodbye]
  | _ => simp [reply, nullPointer, accepted, goodbye]

/-- **The paths that are sent and removed are among the strings.** -/
theorem Exchange.path_written {x : Exchange} {path : Bytes} :
    (Effect.remove path ∈ x.step.effects → ⟨BUFFER_SIZE, path⟩ ∈ x.stringWrites) ∧
      ∀ transformed, Effect.transfer path transformed ∈ x.step.effects →
        path = LOGGER_FILE ∨ ⟨BUFFER_SIZE, path⟩ ∈ x.stringWrites := by
  constructor
  · intro hremove
    obtain ⟨hfit, st, hout, he⟩ := Exchange.outcome_of_effect hremove nofun
    rw [Exchange.stringWrites, if_pos hfit]
    exact (hout.path_written x.tail).1 he
  · intro transformed htransfer
    obtain ⟨hfit, st, hout, he⟩ := Exchange.outcome_of_effect htransfer nofun
    rw [Exchange.stringWrites, if_pos hfit]
    exact (hout.path_written x.tail).2 transformed he

/-- INFO sends its string. -/
theorem Exchange.sends_info {x : Exchange} (h : x.Configures .info) :
    x.step.sends = [infoReply x.shared.pop3.host x.shared.pop3.baseDir x.shared.pop3.ip] := by
  have hexecuted : x.executed = infoCommand x.shared x.session := by
    rw [Exchange.executed, h.2, execute]
  rw [Exchange.sends_eq_executed h.1.2 (by simp [h.2]), hexecuted, infoCommand, managerOnly,
    if_neg (not_not_intro h.1.1)]
  rfl

/-! ### When the strings of a function fit -/

theorem copyWrites_not_fit (tail : Bytes) : ¬ ∀ w ∈ copyWrites tail, w.Fits := by
  intro h
  exact Nat.not_succ_le_self _ (h _ (List.mem_singleton_self _))

theorem length_infoReply (host baseDir ip : Bytes) :
    (infoReply host baseDir ip).length + 1 = host.length + baseDir.length + ip.length + 9 := by
  have hok : (str "+OK ").length = 4 := rfl
  have hsemicolon : (str ";").length = 1 := rfl
  have hend : (str "\r\n").length = 2 := rfl
  simp only [infoReply, List.length_append, hok, hsemicolon, hend]
  omega

theorem infoWrites_fit_iff (p : Pop3Structure) :
    (∀ w ∈ infoWrites p, w.Fits) ↔
      p.host.length + p.baseDir.length + p.ip.length + 9 ≤ BUFFER_SIZE := by
  rw [infoWrites, List.forall_mem_singleton, StringWrite.Fits, length_infoReply]

theorem snprintf_fits {size : Nat} (h : 0 < size) (s : Bytes) : (snprintf size s).Fits := by
  change (s.take (size - 1)).length + 1 ≤ size
  rw [List.length_take]
  omega

theorem loadUserStructureWrites_fit_iff (baseDir user : Bytes) :
    (∀ w ∈ loadUserStructureWrites baseDir user, w.Fits) ↔
      baseDir.length + user.length + 1 ≤ BUFFER_SIZE := by
  have hfolders : ∀ w ∈ [Directory.new, .cur, .tmp].map fun d =>
      snprintf PATH_MAX (folderPath baseDir user d), w.Fits := by
    intro w hw
    obtain ⟨d, -, rfl⟩ := List.mem_map.mp hw
    exact snprintf_fits (by decide) _
  rw [loadUserStructureWrites, List.forall_mem_cons, StringWrite.Fits, List.length_append]
  exact and_iff_left hfolders

theorem length_messagePath (baseDir user : Bytes) (d : Directory) (name : Bytes) :
    (messagePath baseDir user d name).length = baseDir.length + user.length + name.length + 5 := by
  have hslash : (str "/").length = 1 := rfl
  have hfolder : d.name.length = 3 := by cases d <;> rfl
  simp only [messagePath, List.length_append, hslash, hfolder]
  omega

/-- There is room for the path of a message. -/
def PathFits (baseDir user : Bytes) (m : Message) : Prop :=
  baseDir.length + user.length + m.2.name.length + 6 ≤ BUFFER_SIZE

theorem path_fits_iff (baseDir user : Bytes) (m : Message) :
    (⟨BUFFER_SIZE, messagePath baseDir user m.1 m.2.name⟩ : StringWrite).Fits ↔
      PathFits baseDir user m := by
  rw [StringWrite.Fits, length_messagePath, PathFits]

theorem deleteMarkedWrites_fit_iff (baseDir user : Bytes) (md : Maildir) :
    (∀ w ∈ deleteMarkedWrites baseDir user md, w.Fits) ↔
      ∀ m ∈ md.messages, m.2.deleted = true → PathFits baseDir user m := by
  simp only [deleteMarkedWrites, deleteMarkedPaths_eq, List.forall_mem_map, List.mem_filter,
    and_imp]
  exact forall₂_congr fun m _ => imp_congr_right fun _ => path_fits_iff baseDir user m

/-! ### When the strings of a line fit -/

/-- RETR finds this message. -/
def Exchange.Views (x : Exchange) (u : User) (m : Message) : Prop :=
  x.Runs .retr ∧ x.session.clientState = .transaction ∧ x.session.user = some u ∧
    ∃ number md more, argument x.command = some number ∧ x.session.maildir = some md ∧
      viewTarget md (atoi number) = some (m.1, m.2 :: more)

/-- QUIT finds this message marked. -/
def Exchange.Sweeps (x : Exchange) (u : User) (m : Message) : Prop :=
  x.Runs .quit ∧ x.session.clientState = .transaction ∧ x.session.user = some u ∧
    ∃ md, x.session.maildir = some md ∧ m ∈ md.messages ∧ m.2.deleted = true

/-- PASS logs this user in. -/
def Exchange.Admits (x : Exchange) (u : User) : Prop :=
  x.Runs .pass ∧ x.session.login.admitted .pass (argument x.command) = some u

/-- The line neither sets the host nor the directory, and what it needs of the settings is short
enough. -/
structure WithinLimits (p : Pop3Structure) (x : Exchange) : Prop where
  host : ¬ x.Configures .host
  dirr : ¬ x.Configures .dirr
  info : x.Configures .info →
    p.host.length + p.baseDir.length + p.ip.length + 9 ≤ BUFFER_SIZE
  login : ∀ u, x.Admits u → p.baseDir.length + u.name.length + 1 ≤ BUFFER_SIZE
  viewed : ∀ u m, x.Views u m → PathFits p.baseDir u.name m
  swept : ∀ u m, x.Sweeps u m → PathFits p.baseDir u.name m

section Lines

variable {x : Exchange}

theorem configures_iff {comm : Pop3Command} :
    x.Configures comm ↔ x.Runs comm ∧ x.session.clientState = .manager :=
  ⟨fun h => ⟨⟨h.1.2, h.2⟩, h.1.1⟩, fun h => ⟨⟨h.2, h.1.1⟩, h.1.2⟩⟩

theorem stringWrites_copy {comm : Pop3Command} (hcomm : comm = .host ∨ comm = .dirr)
    (hruns : x.Runs comm) : (∀ w ∈ x.stringWrites, w.Fits) ↔ ¬ x.Configures comm := by
  have hwrites : x.stringWrites =
      if x.session.clientState = .manager then copyWrites x.tail else [] := by
    rw [Exchange.stringWrites_eq hruns]
    rcases hcomm with rfl | rfl <;> rfl
  rw [hwrites, configures_iff, and_iff_right hruns]
  split
  · next hstate => exact iff_of_false (copyWrites_not_fit _) (not_not_intro hstate)
  · next hstate => exact iff_of_true (List.forall_mem_nil _) hstate

theorem stringWrites_info (hruns : x.Runs .info) :
    (∀ w ∈ x.stringWrites, w.Fits) ↔ (x.Configures .info →
      x.shared.pop3.host.length + x.shared.pop3.baseDir.length + x.shared.pop3.ip.length + 9 ≤
        BUFFER_SIZE) := by
  rw [Exchange.stringWrites_eq hruns, executeWrites, configures_iff, and_iff_right hruns]
  split
  · next hstate => rw [infoWrites_fit_iff, forall_prop_of_true hstate]
  · next hstate => exact iff_of_true (List.forall_mem_nil _) fun h => absurd h hstate

theorem stringWrites_pass (hruns : x.Runs .pass) :
    (∀ w ∈ x.stringWrites, w.Fits) ↔
      ∀ u, x.Admits u → x.shared.pop3.baseDir.length + u.name.length + 1 ≤ BUFFER_SIZE := by
  have hadmits : ∀ u, x.Admits u ↔
      x.session.login.admitted .pass (argument x.command) = some u := fun u =>
    and_iff_right hruns
  rw [Exchange.stringWrites_eq hruns, executeWrites]
  unfold passWrites
  simp only [hadmits]
  cases x.session.login.admitted .pass (argument x.command) with
  | none => exact iff_of_true (List.forall_mem_nil _) nofun
  | some v =>
    rw [loadUserStructureWrites_fit_iff]
    constructor
    · rintro h u ⟨⟩
      exact h
    · intro h
      exact h v rfl

theorem stringWrites_retr (hruns : x.Runs .retr) :
    (∀ w ∈ x.stringWrites, w.Fits) ↔
      ∀ u m, x.Views u m → PathFits x.shared.pop3.baseDir u.name m := by
  rw [Exchange.stringWrites_eq hruns, executeWrites]
  unfold retrWrites
  constructor
  · rintro h u ⟨d, file⟩ ⟨-, hstate, huser, number, md, more, harg, hmaildir, htarget⟩
    have hnumber : ¬ atoi number = 0 := by
      intro hzero
      rw [hzero, viewTarget_zero] at htarget
      cases htarget
    simp only [hstate, harg, hmaildir, huser, if_true, if_neg hnumber, viewMessageWrites,
      htarget] at h
    exact (path_fits_iff _ _ (d, file)).mp (h _ (List.mem_singleton_self _))
  · intro h
    split
    case isFalse => exact List.forall_mem_nil _
    case isTrue hstate =>
      split
      case h_2 => exact List.forall_mem_nil _
      case h_1 number md u harg hmaildir huser =>
        split
        case isTrue => exact List.forall_mem_nil _
        case isFalse =>
          unfold viewMessageWrites
          split
          case h_2 => exact List.forall_mem_nil _
          case h_1 d file more htarget =>
            rw [List.forall_mem_singleton]
            apply (path_fits_iff _ _ (d, file)).mpr
            exact h u (d, file) ⟨hruns, hstate, huser, number, md, more, harg, hmaildir, htarget⟩

theorem stringWrites_quit (hruns : x.Runs .quit) :
    (∀ w ∈ x.stringWrites, w.Fits) ↔
      ∀ u m, x.Sweeps u m → PathFits x.shared.pop3.baseDir u.name m := by
  rw [Exchange.stringWrites_eq hruns, executeWrites]
  unfold quitWrites
  constructor
  · rintro h u m ⟨-, hstate, huser, md, hmaildir, hm, hdeleted⟩
    simp only [hstate, hmaildir, huser, if_true] at h
    exact (deleteMarkedWrites_fit_iff _ _ md).mp h m hm hdeleted
  · intro h
    split
    case isFalse => exact List.forall_mem_nil _
    case isTrue hstate =>
      split
      case h_2 => exact List.forall_mem_nil _
      case h_1 md u hmaildir huser =>
        apply (deleteMarkedWrites_fit_iff _ _ md).mpr
        intro m hm hdeleted
        exact h u m ⟨hruns, hstate, huser, md, hmaildir, hm, hdeleted⟩

/-- **The strings of a line fit exactly when it stays within the limits.** -/
theorem lineFits_iff : (∀ w ∈ x.stringWrites, w.Fits) ↔ WithinLimits x.shared.pop3 x := by
  constructor
  · intro h
    constructor
    case host =>
      intro hhost
      exact (stringWrites_copy (.inl rfl) (configures_iff.mp hhost).1).mp h hhost
    case dirr =>
      intro hdirr
      exact (stringWrites_copy (.inr rfl) (configures_iff.mp hdirr).1).mp h hdirr
    case info =>
      intro hinfo
      exact (stringWrites_info (configures_iff.mp hinfo).1).mp h hinfo
    case login =>
      intro u hadmits
      exact (stringWrites_pass hadmits.1).mp h u hadmits
    case viewed =>
      intro u m hviews
      exact (stringWrites_retr hviews.1).mp h u m hviews
    case swept =>
      intro u m hsweeps
      exact (stringWrites_quit hsweeps.1).mp h u m hsweeps
  · intro h
    by_cases hfit : x.command.length ≤ 2 * BUFFER_SIZE
    case neg =>
      rw [Exchange.stringWrites, if_neg hfit]
      exact List.forall_mem_nil _
    cases hcomm : getCommandValue x.command with
    | host => exact (stringWrites_copy (.inl rfl) ⟨hfit, hcomm⟩).mpr h.host
    | dirr => exact (stringWrites_copy (.inr rfl) ⟨hfit, hcomm⟩).mpr h.dirr
    | info => exact (stringWrites_info ⟨hfit, hcomm⟩).mpr h.info
    | pass => exact (stringWrites_pass ⟨hfit, hcomm⟩).mpr h.login
    | retr => exact (stringWrites_retr ⟨hfit, hcomm⟩).mpr h.viewed
    | quit => exact (stringWrites_quit ⟨hfit, hcomm⟩).mpr h.swept
    | _ =>
      rw [Exchange.stringWrites_eq ⟨hfit, hcomm⟩]
      exact List.forall_mem_nil _

end Lines

/-! ### A run of the server -/

theorem WithinLimits.of_eq {p q : Pop3Structure} (hhost : q.host = p.host)
    (hbaseDir : q.baseDir = p.baseDir) (hip : q.ip = p.ip) {x : Exchange}
    (h : WithinLimits p x) : WithinLimits q x where
  host := h.host
  dirr := h.dirr
  info := by
    rw [hhost, hbaseDir, hip]
    exact h.info
  login := by
    rw [hbaseDir]
    exact h.login
  viewed := by
    rw [hbaseDir]
    exact h.viewed
  swept := by
    rw [hbaseDir]
    exact h.swept

/-- Without HOST and DIRR the limits are those of the command line. -/
theorem SettingsAfter.withinLimits_iff {start : Pop3Structure} {past : List Exchange}
    {x : Exchange} (h : SettingsAfter start past x.shared.pop3)
    (hhost : ∀ y ∈ past, ¬ y.Configures .host) (hdirr : ∀ y ∈ past, ¬ y.Configures .dirr) :
    WithinLimits x.shared.pop3 x ↔ WithinLimits start x := by
  have hsame : x.shared.pop3.host = start.host := by
    rw [h.host, lastArgument_eq_none hhost, Option.getD_none]
  have hsameDir : x.shared.pop3.baseDir = start.baseDir := by
    rw [h.baseDir, lastArgument_eq_none hdirr, Option.getD_none]
  exact ⟨.of_eq hsame.symm hsameDir.symm h.ip.symm, .of_eq hsame hsameDir h.ip⟩

/-- **All strings of a run fit exactly when no manager sets the host or the directory, and the host,
the directory and the address of the command line leave room in every line that uses them.** -/
theorem strings_fit_iff (args : Args) (serverSocket managerSocket : Int) (os : List Occurrence) :
    (∀ x ∈ (Server.boot args serverSocket managerSocket).exchanges os, ∀ w ∈ x.stringWrites,
        w.Fits) ↔
      ∀ x ∈ (Server.boot args serverSocket managerSocket).exchanges os,
        WithinLimits args.pop3 x := by
  have hhistory := settings_history args serverSocket managerSocket os
  generalize (Server.boot args serverSocket managerSocket).exchanges os = xs at hhistory ⊢
  have hline : (∀ y ∈ xs, ¬ y.Configures .host ∧ ¬ y.Configures .dirr) →
      ∀ x ∈ xs, (∀ w ∈ x.stringWrites, w.Fits) ↔ WithinLimits args.pop3 x := by
    intro hnever x hx
    obtain ⟨past, hpast, hsettings⟩ := hhistory.mem hx
    have hlimits := hsettings.withinLimits_iff (fun y hy => (hnever y (hpast hy)).1)
      fun y hy => (hnever y (hpast hy)).2
    exact lineFits_iff.trans hlimits
  constructor
  · intro h x hx
    refine (hline (fun y hy => ?_) x hx).mp (h x hx)
    have hlimits := lineFits_iff.mp (h y hy)
    exact ⟨hlimits.host, hlimits.dirr⟩
  · intro h x hx
    exact (hline (fun y hy => ⟨(h y hy).host, (h y hy).dirr⟩) x hx).mpr (h x hx)

/-- The copy of a host of one character is a block of one character. -/
theorem strings_fit_host :
    ¬ ∀ (args : Args) (serverSocket managerSocket : Int) (os : List Occurrence),
      ∀ x ∈ (Server.boot args serverSocket managerSocket).exchanges os, ∀ w ∈ x.stringWrites,
        w.Fits := by
  intro h
  have hlong : ∃ x ∈ (Server.boot defaultArgs 3 4).exchanges
      (managing (delivery "HOST a\r\n" (by decide))), ∃ w ∈ x.stringWrites, ¬ w.Fits := by
    decide +kernel
  obtain ⟨x, hx, w, hw, hfits⟩ := hlong
  exact hfits (h defaultArgs 3 4 _ x hx w hw)

end Pop3Server
