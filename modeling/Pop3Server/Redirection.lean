import Pop3Server.Deletion
import Pop3Server.MessageNumbers
import Pop3Server.Responses

/-!
# Which directory a session works in

At the login `load_user_structure` lists the directory of the user under the
base directory of that moment.  RETR and QUIT build their paths anew, from the
names in that list and the base directory of their own moment, which DIRR
changes for all sessions.  `mailbox_kept_iff` says when the files that are sent
and removed are still those that were listed.
-/

namespace Pop3Server

/-! ### The files of a command -/

def Effect.file? : Effect → Option Bytes
  | .transfer path _ => some path
  | .remove path => some path
  | _ => none

/-- The files a command has sent or removed. -/
def Step.files (st : Step) : List Bytes := st.effects.filterMap Effect.file?

/-- The messages RETR and QUIT are about: the one that is found, and the marked ones. -/
def requests (md : Maildir) : Pop3Command → Option Bytes → List Message
  | .retr, some number =>
    match viewTarget md (atoi number) with
    | some (d, file :: _) => [(d, file)]
    | _ => []
  | .quit, _ => md.messages.filter (·.2.deleted)
  | _, _ => []

def Exchange.requests (x : Exchange) (md : Maildir) : List Message :=
  Pop3Server.requests md (getCommandValue x.command) (argument x.command)

theorem mem_of_requests {md : Maildir} {comm : Pop3Command} {arg : Option Bytes} {m : Message}
    (h : m ∈ requests md comm arg) : m ∈ md.messages := by
  unfold requests at h
  split at h
  · split at h
    · next htarget =>
      obtain rfl := List.mem_singleton.mp h
      exact mem_of_viewTarget htarget
    · cases h
  · exact List.mem_of_mem_filter h
  · cases h

theorem retr_files (sh : Shared) {s : Session} (hstate : s.clientState = .transaction)
    {md : Maildir} (hmd : s.maildir = some md) {u : User} (hu : s.user = some u)
    (arg : Option Bytes) :
    (retrCommand sh s arg).files =
      (requests md .retr arg).map (Message.path sh.pop3.baseDir u.name) := by
  rw [retrCommand]
  cases arg with
  | none => rw [numberCommand_of_none hstate]; rfl
  | some number =>
    simp only [requests]
    by_cases hzero : atoi number = 0
    · rw [numberCommand_of_zero hstate _ _ hzero, hzero, viewTarget_zero]
      rfl
    · rw [numberCommand_of_number hstate _ _ hzero, viewNumber, mailbox, hmd]
      simp only [viewMessage, hu]
      rcases viewTarget md (atoi number) with _ | ⟨d, _ | ⟨file, more⟩⟩ <;> rfl

theorem files_map_send (answers : List Bytes) :
    (answers.map Effect.send).filterMap Effect.file? = [] := by
  rw [List.filterMap_map]
  exact List.filterMap_eq_nil_iff.mpr fun _ _ => rfl

theorem files_map_remove (paths : List Bytes) :
    (paths.map Effect.remove).filterMap Effect.file? = paths := by
  rw [List.filterMap_map]
  exact List.filterMap_some

/-- Every other command of a logged-in session sends no file, and QUIT removes the marked ones. -/
theorem Outcome.files_eq {env : Env} {sh : Shared} {s : Session} {comm : Pop3Command}
    {arg : Option Bytes} {st : Step} (h : Outcome env sh s comm arg st)
    (hstate : s.clientState = .transaction) {md : Maildir} (hmd : s.maildir = some md) {u : User}
    (hu : s.user = some u) (hcomm : comm ≠ .retr) :
    st.files = (requests md comm arg).map (Message.path sh.pop3.baseDir u.name) := by
  have hnone : comm ≠ .quit → requests md comm arg = [] := by
    intro hquit
    unfold requests
    split
    · exact absurd rfl hcomm
    · exact absurd rfl hquit
    · rfl
  cases h with
  | quitMailbox _ hmd' hu' =>
    obtain rfl := Option.some.inj (hmd.symm.trans hmd')
    obtain rfl := Option.some.inj (hu.symm.trans hu')
    rw [Step.files, List.cons_append, List.filterMap_cons_none rfl, List.filterMap_append,
      files_map_remove, deleteMarkedPaths_eq]
    exact List.append_nil _
  | quitPlain hplain => exact absurd hstate hplain
  | refused hne _ _ =>
    rw [hnone hne.2.2.2]
    rfl
  | told hcomm' answers _ _ =>
    rw [hnone (by rintro rfl; simp at hcomm')]
    exact files_map_send answers
  | configured _ hmanager _ _ _ _ => cases hstate.symm.trans hmanager
  | logSent hmanager => cases hstate.symm.trans hmanager
  | retrieved _ _ _ _ => exact absurd rfl hcomm
  | dangling _ hdangling _ =>
    rcases hdangling with hmd' | hu'
    · cases hmd.symm.trans hmd'
    · cases hu.symm.trans hu'
  | _ =>
    rw [hnone nofun]
    rfl

theorem Outcome.files_of_authorization {env : Env} {sh : Shared} {s : Session} {comm : Pop3Command}
    {arg : Option Bytes} {st : Step} (h : Outcome env sh s comm arg st)
    (hstate : s.clientState = .authorization) : st.files = [] := by
  cases h with
  | told _ answers _ _ => exact files_map_send answers
  | configured _ hmanager _ _ _ _ => cases hstate.symm.trans hmanager
  | logSent hmanager => cases hstate.symm.trans hmanager
  | retrieved hlogin _ _ _ => cases hstate.symm.trans hlogin
  | quitMailbox hlogin _ _ => cases hstate.symm.trans hlogin
  | dangling hlogin _ _ => cases hstate.symm.trans hlogin
  | _ => rfl

/-- A line of a logged-in session sends or removes the files it is about, found under the base
directory of that moment. -/
theorem Exchange.files_eq {x : Exchange} (hfit : x.command.length ≤ 2 * BUFFER_SIZE)
    (hstate : x.session.clientState = .transaction) {md : Maildir}
    (hmd : x.session.maildir = some md) {u : User} (hu : x.session.user = some u) :
    x.step.files = (x.requests md).map (Message.path x.shared.pop3.baseDir u.name) := by
  rcases Nat.lt_or_ge x.command.length 4 with hshort | h4
  · have hretr : getCommandValue x.command ≠ .retr :=
      fun h => absurd (length_of_keyword (by simp [h])) (Nat.not_le_of_lt hshort)
    have hquit : getCommandValue x.command ≠ .quit :=
      fun h => absurd (length_of_keyword (by simp [h])) (Nat.not_le_of_lt hshort)
    have hfiles : x.step.files = [] :=
      congrArg Step.files (dispatch_of_short hshort x.env x.shared x.session)
    rw [hfiles]
    unfold Exchange.requests Pop3Server.requests
    split
    · next hcomm _ => exact absurd hcomm hretr
    · next _ hcomm => exact absurd hcomm hquit
    · rfl
  by_cases hretr : getCommandValue x.command = .retr
  · have hstep : x.step.files = (retrCommand x.shared x.session (argument x.command)).files := by
      rw [Exchange.step, dispatch_of_long h4 hfit, hretr]
      rfl
    rw [hstep, retr_files x.shared hstate hmd hu, Exchange.requests, hretr]
  · obtain ⟨st, hout, hstep⟩ := Exchange.outcome h4 hfit
    have hfiles : x.step.files = st.files := by rw [hstep]; rfl
    rw [hfiles, hout.files_eq hstate hmd hu hretr]
    rfl

/-! ### The login a session goes back to -/

def lastLogin (past : List Exchange) : Option Exchange := (past.filter (·.loads)).getLast?

theorem LoggedInBy.lastLogin {past : List Exchange} {s : Session} (h : LoggedInBy past s) :
    ∃ p u loaded md, Pop3Server.lastLogin past = some p ∧ p.LoadsMailbox u loaded ∧
      s.user = some u ∧ s.maildir = some md ∧ unmarkAll md = loaded := by
  obtain ⟨before, p, after, u, loaded, md, rfl, hp, hafter, hu, hmd, hloaded⟩ := h
  refine ⟨p, u, loaded, md, ?_, hp, hu, hmd, hloaded⟩
  have hloads : p.loads = true := by simp [Exchange.loads, hp.before, hp.after]
  have hnone : after.filter (·.loads) = [] := by
    apply List.filter_eq_nil_iff.mpr
    intro y hy hloads
    obtain ⟨hbefore, hafter'⟩ := Bool.and_eq_true_iff.mp hloads
    have hsame : y.step.session.clientState = y.session.clientState :=
      congrArg Login.clientState (hafter y hy)
    rw [eq_of_beq hbefore, eq_of_beq hafter'] at hsame
    cases hsame
  rw [Pop3Server.lastLogin, List.filter_append, List.filter_cons_of_pos hloads, hnone,
    List.getLast?_concat]

/-- The session sends and removes the files it is asked for, in the directory of its user as the
last login listed it. -/
structure InMailbox (past : List Exchange) (x : Exchange) : Prop where
  opened : x.session.clientState = .transaction → ∃ p u loaded md,
    lastLogin past = some p ∧ p.LoadsMailbox u loaded ∧ x.session.maildir = some md ∧
      (∀ m ∈ x.requests md, m.unmark ∈ loaded.messages) ∧
      x.step.files = (x.requests md).map (Message.path p.shared.pop3.baseDir u.name)
  closed : x.session.clientState = .authorization → x.step.files = []

/-- When the session is to send or remove a file, its line fits the buffer of `handle_client` and
the base directory is the one of its last login. -/
def Undiverted (past : List Exchange) (x : Exchange) : Prop :=
  x.session.clientState = .transaction → ∀ p ∈ lastLogin past, ∀ md ∈ x.session.maildir,
    x.requests md ≠ [] →
      x.command.length ≤ 2 * BUFFER_SIZE ∧ x.shared.pop3.baseDir = p.shared.pop3.baseDir

theorem path_inj {baseDir baseDir' user : Bytes} {m : Message} :
    m.path baseDir user = m.path baseDir' user ↔ baseDir = baseDir' := by
  simp [Message.path, messagePath]

theorem map_path_eq_iff {baseDir baseDir' user : Bytes} {l : List Message} :
    l.map (Message.path baseDir user) = l.map (Message.path baseDir' user) ↔
      (l ≠ [] → baseDir = baseDir') := by
  constructor
  · intro h hne
    obtain ⟨m, l, rfl⟩ := List.exists_cons_of_ne_nil hne
    exact path_inj.mp (List.cons.inj h).1
  · intro h
    cases l with
    | nil => rfl
    | cons m l => rw [h (List.cons_ne_nil m l)]

/-- A line that does not fit ends the process before it is looked at. -/
theorem Exchange.files_of_huge {x : Exchange} (h : ¬ x.command.length ≤ 2 * BUFFER_SIZE) :
    x.step.files = [] :=
  congrArg Step.files (Exchange.step_of_huge h)

theorem Exchange.files_eq_iff {x : Exchange} (hstate : x.session.clientState = .transaction)
    {md : Maildir} (hmd : x.session.maildir = some md) {u : User} (hu : x.session.user = some u)
    (baseDir : Bytes) :
    x.step.files = (x.requests md).map (Message.path baseDir u.name) ↔
      (x.requests md ≠ [] →
        x.command.length ≤ 2 * BUFFER_SIZE ∧ x.shared.pop3.baseDir = baseDir) := by
  by_cases hfit : x.command.length ≤ 2 * BUFFER_SIZE
  · rw [Exchange.files_eq hfit hstate hmd hu, map_path_eq_iff]
    exact forall_congr' fun _ => (and_iff_right hfit).symm
  · rw [Exchange.files_of_huge hfit, eq_comm, List.map_eq_nil_iff]
    constructor
    · intro hnil hne
      exact absurd hnil hne
    · intro h
      by_contra hne
      exact hfit (h hne).1

theorem Exchange.files_of_authorization {x : Exchange}
    (hstate : x.session.clientState = .authorization) : x.step.files = [] := by
  by_cases hfit : x.command.length ≤ 2 * BUFFER_SIZE
  case neg => exact Exchange.files_of_huge hfit
  rcases Nat.lt_or_ge x.command.length 4 with hshort | h4
  · exact congrArg Step.files (dispatch_of_short hshort x.env x.shared x.session)
  · obtain ⟨st, hout, hstep⟩ := Exchange.outcome h4 hfit
    have hfiles : x.step.files = st.files := by rw [hstep]; rfl
    rw [hfiles]
    exact hout.files_of_authorization hstate

theorem MarksInvariant.inMailbox_iff {past : List Exchange} {x : Exchange}
    (h : MarksInvariant past x.session) : InMailbox past x ↔ Undiverted past x := by
  constructor
  · intro hin hstate p hp md hmd
    obtain ⟨p', u, loaded, md', hp', hloads, hmd', -, hfiles⟩ := hin.opened hstate
    obtain ⟨p'', u', loaded', md'', hp'', hloads', hu, -⟩ := (h.logged hstate).lastLogin
    obtain rfl := Option.some.inj (hp.symm.trans hp')
    obtain rfl := Option.some.inj (hp.symm.trans hp'')
    obtain rfl := Option.some.inj (hmd.symm.trans hmd')
    obtain rfl := Option.some.inj (hloads.user.symm.trans hloads'.user)
    exact (Exchange.files_eq_iff hstate hmd hu _).mp hfiles
  · intro hundiverted
    refine ⟨fun hstate => ?_, Exchange.files_of_authorization⟩
    obtain ⟨p, u, loaded, md, hp, hloads, hu, hmd, hloaded⟩ := (h.logged hstate).lastLogin
    refine ⟨p, u, loaded, md, hp, hloads, hmd, ?_, ?_⟩
    · intro m hm
      rw [← hloaded, unmarkAll_messages]
      exact List.mem_map_of_mem (mem_of_requests hm)
    · exact (Exchange.files_eq_iff hstate hmd hu _).mpr (hundiverted hstate p hp md hmd)

/-! ### Runs -/

/-- **A session works in the directory it listed at its login exactly when, at each RETR that finds
its message and each QUIT with a message marked, the line fits its buffer and the base directory is
the one of the login.** -/
theorem mailbox_kept_iff (turns : List Turn) (fd : Int) (isManager : Bool) (ip : Bytes)
    (maildir : Option Maildir) :
    Machine.Along (sessionExchanges (newSession fd isManager ip maildir) turns) InMailbox ↔
      Machine.Along (sessionExchanges (newSession fd isManager ip maildir) turns) Undiverted := by
  refine forall_congr' fun pre => forall_congr' fun x => forall_congr' fun post =>
    forall_congr' fun h => ?_
  exact (marks_along h).1.inMailbox_iff

/-- Without DIRR nothing is diverted. -/
theorem undiverted_of_same {baseDir : Bytes} {turns : List Turn}
    (hbase : ∀ t ∈ turns, t.shared.pop3.baseDir = baseDir)
    (hfit : ∀ t ∈ turns, t.command.length ≤ 2 * BUFFER_SIZE) (s : Session) :
    Machine.Along (sessionExchanges s turns) Undiverted := by
  have hall : ∀ x ∈ sessionExchanges s turns,
      x.shared.pop3.baseDir = baseDir ∧ x.command.length ≤ 2 * BUFFER_SIZE := by
    intro x hx
    obtain ⟨y, hy, rfl⟩ := List.mem_map.mp hx
    have hturn : y.2 ∈ turns :=
      (sessionMachine.trace_inputs_initial s turns).subset (List.mem_map_of_mem hy)
    exact ⟨hbase _ hturn, hfit _ hturn⟩
  intro pre x post h _ p hp md _ _
  have hlogin : p ∈ pre := List.mem_of_mem_filter (List.mem_of_getLast? hp)
  obtain ⟨hx, hfits⟩ := hall x (h ▸ List.mem_append_right _ List.mem_cons_self)
  exact ⟨hfits, hx.trans (hall p (h ▸ List.mem_append_left _ hlogin)).1.symm⟩

theorem mailbox_kept_retr :
    Machine.Along (sessionExchanges (newSession 5 false (str "::1") none)
      ([str "USER anna", str "PASS secret", str "RETR 1"].map (Turn.mk sampleEnv sampleShared)))
      InMailbox := by
  have hsame : ∀ t ∈ [str "USER anna", str "PASS secret", str "RETR 1"].map
      (Turn.mk sampleEnv sampleShared), t.shared.pop3.baseDir = str "/mail/" := by
    simp [sampleShared]
  exact (mailbox_kept_iff _ 5 false (str "::1") none).mpr
    (undiverted_of_same hsame (by simp; decide) _)

/-! ### Beside a manager -/

/-- Who sends a line. -/
inductive Party where
  | client
  | manager

/-- The turns of the session `s`, between whose lines those of a manager are run. -/
def besideManager (sh : Shared) (s manager : Session) : List (Party × Env × Bytes) → List Turn
  | [] => []
  | (.client, env, command) :: rest =>
    let st := dispatch env sh s command
    ⟨env, sh, command⟩ :: besideManager st.shared st.session manager rest
  | (.manager, env, command) :: rest =>
    let st := dispatch env sh manager command
    besideManager st.shared s st.session rest

/-- A login, and a RETR after a manager has changed the base directory. -/
def divertedLines : List (Party × Env × Bytes) :=
  [(.client, sampleEnv, str "USER anna"), (.client, sampleEnv, str "PASS secret"),
    (.manager, sampleEnv, str "DIRR /spool/"), (.client, sampleEnv, str "RETR 1")]

def divertedExchanges : List Exchange :=
  sessionExchanges (newSession 5 false (str "::1") none)
    (besideManager sampleShared (newSession 5 false (str "::1") none)
      (newSession 6 true (str "::1") none) divertedLines)

/-- RETR sends a file of the same name from another directory. -/
theorem mailbox_diverted :
    ¬ ∀ (sh : Shared) (lines : List (Party × Env × Bytes)) (fd fd' : Int) (ip ip' : Bytes),
      Machine.Along (sessionExchanges (newSession fd false ip none)
        (besideManager sh (newSession fd false ip none) (newSession fd' true ip' none) lines))
        InMailbox := by
  intro h
  have halong : Machine.Along divertedExchanges InMailbox :=
    h sampleShared divertedLines 5 6 (str "::1") (str "::1")
  have hready : ∀ x ∈ divertedExchanges.getLast?, x.session.clientState = .transaction ∧
      x.step.files = [str "/spool/anna/new/a"] := by decide +kernel
  have hlogin : ∀ p ∈ lastLogin divertedExchanges.dropLast,
      p.shared.pop3.baseDir = str "/mail/" := by decide +kernel
  have hsome : divertedExchanges.getLast?.isSome := by decide +kernel
  obtain ⟨x, hx⟩ := Option.isSome_iff_exists.mp hsome
  obtain ⟨hstate, hfiles⟩ := hready x hx
  obtain ⟨p, u, loaded, md, hp, -, -, -, hlisted⟩ :=
    (Machine.along_getLast halong x hx).opened hstate
  rw [hfiles, hlogin p hp] at hlisted
  obtain ⟨m, -, hm⟩ := List.mem_map.mp (hlisted ▸ List.mem_singleton_self _)
  -- a path under the directory of the login does not begin with `/spool/`
  have hprefix : str "/mail/" <+: str "/spool/anna/new/a" := by
    rw [← hm, Message.path, messagePath]
    simp only [List.append_assoc]
    exact List.prefix_append _ _
  exact absurd hprefix (by decide)

end Pop3Server
