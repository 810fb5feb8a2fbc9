import Pop3Server.Dispatch
import Pop3Server.Messages

/-!
# What a command can come to

`Outcome` has one constructor for each way the switch can end, with the guards
that lead there, and `execute_outcome` shows that there are no others.  The
invariants of the session are read off it: no arm is unfolded again.
-/

namespace Pop3Server

def IsErr (response : Bytes) : Prop := str "-ERR" <+: response

instance (response : Bytes) : Decidable (IsErr response) :=
  inferInstanceAs (Decidable (_ <+: _))

theorem not_isErr_ok (rest : Bytes) : ¬ IsErr (str "+OK" ++ rest) := by
  intro h
  have hplus : str "+OK" = 43 :: str "OK" := by decide
  have hminus : str "-ERR" = 45 :: str "ERR" := by decide
  rw [IsErr, hplus, hminus] at h
  exact absurd (List.cons_prefix_cons.mp h).1 (by decide)

def accepted : Effect := .send (str "+OK Password accepted\r\n")

def goodbye : Effect := .send (str "+OK Goodbye\r\n")

/-- The metrics after a message has been announced. -/
def Metrics.count (m : Metrics) (f : FileList) : Metrics :=
  { m with totalBytes := int32 (m.totalBytes + f.size),
           totalMessages := int32 (m.totalMessages + 1) }

def announced (f : FileList) : Effect :=
  .send (str "+OK " ++ formatInt f.size ++ str " octets\r\n")

def deletedReply (n : Int) : Bytes := str "+OK message " ++ formatInt n ++ str " deleted\r\n"

/-- The commands that are only run in TRANSACTION. -/
def Pop3Command.needsLogin : Pop3Command → Bool
  | .stat | .list | .retr | .dele | .rset => true
  | _ => false

/-- The commands that are only run in MANAGER. -/
def Pop3Command.needsManager : Pop3Command → Bool
  | .port | .host | .dirr | .tran | .ipv6 | .info | .metr | .logg => true
  | _ => false

/-- The ways in which the switch can end. -/
inductive Outcome (env : Env) (sh : Shared) (s : Session) :
    Pop3Command → Option Bytes → Step → Prop
  /-- an error line and nothing else -/
  | refused {comm arg response} (hcomm : comm ≠ .user ∧ comm ≠ .pass ∧ comm ≠ .noop ∧ comm ≠ .quit)
      (hrset : comm = .rset → s.clientState ≠ .transaction) (herr : IsErr response) :
      Outcome env sh s comm arg (reply sh s response)
  /-- answers only -/
  | told {comm arg} (hcomm : comm = .stat ∨ comm = .list ∨ comm = .noop ∨ comm = .info ∨
      comm = .metr) (answers : List Bytes)
      (hlogin : comm.needsLogin → s.clientState = .transaction)
      (hmanager : comm.needsManager → s.clientState = .manager) :
      Outcome env sh s comm arg ⟨s, sh, answers.map .send, .next⟩
  | userNotFound {arg response} (herr : IsErr response)
      (hfind : ∀ user, arg = some user →
        findUser sh.pop3.userList.size sh.pop3.userList.list user = none) :
      Outcome env sh s .user arg (reply sh (userState s) response)
  | userFound {user u} (hfind : findUser sh.pop3.userList.size sh.pop3.userList.list user = some u) :
      Outcome env sh s .user (some user)
        (reply sh { userState s with user := some u }
          (str "+OK User accepted, password needed\r\n"))
  | passRefused {arg response} (herr : IsErr response)
      (hpass : s.clientState = .authorization → ∀ u, s.user = some u → arg ≠ some u.pass) :
      Outcome env sh s .pass arg (reply sh s response)
  | loggedIn {u md} (hstate : s.clientState = .authorization) (huser : s.user = some u)
      (hload : loadUserStructure env.opendir sh.pop3.baseDir u.name = some md) :
      Outcome env sh s .pass (some u.pass)
        ⟨{ s with clientState := .transaction, maildir := some md }, sh, [accepted], .next⟩
  /-- a folder of the user cannot be opened -/
  | noMailbox {u} (hstate : s.clientState = .authorization) (huser : s.user = some u)
      (hload : loadUserStructure env.opendir sh.pop3.baseDir u.name = none) :
      Outcome env sh s .pass (some u.pass)
        (nullPointer sh { s with clientState := .transaction } [accepted])
  | unmarked {md} {arg} (hstate : s.clientState = .transaction) (hmaildir : s.maildir = some md) :
      Outcome env sh s .rset arg
        (reply sh { s with maildir := some (unmarkAll md) } (statHandeler (unmarkAll md)))
  | retrieved {md u number d file more} (hstate : s.clientState = .transaction)
      (hmaildir : s.maildir = some md) (huser : s.user = some u)
      (htarget : viewTarget md (atoi number) = some (d, file :: more)) :
      Outcome env sh s .retr (some number)
        ⟨s, { sh with metrics := sh.metrics.count file },
          [announced file, .transfer (messagePath sh.pop3.baseDir u.name d file.name)
            (sh.pop3.transEnabled && s.clientState == .transaction)], .next⟩
  | marked {md md' number} (hstate : s.clientState = .transaction)
      (hmaildir : s.maildir = some md)
      (htarget : deleteTarget md (atoi number) = some (some md')) :
      Outcome env sh s .dele (some number)
        (reply sh { s with maildir := some md' } (deletedReply (atoi number)))
  | configured {comm arg} (hcomm : comm = .port ∨ comm = .host ∨ comm = .dirr ∨ comm = .tran ∨
      comm = .ipv6) (hstate : s.clientState = .manager) (pop3 : Pop3Structure)
      (husers : pop3.userList = sh.pop3.userList) (listener : Listener) (closes : List Int) :
      Outcome env sh s comm arg
        ⟨s, { sh with pop3 := pop3, listener := listener },
          .send (str "+OK\r\n") :: closes.map .close, .next⟩
  | logSent {arg} (hstate : s.clientState = .manager) :
      Outcome env sh s .logg arg
        ⟨s, sh, [.send (str "+OK Log command\r\n"), .transfer LOGGER_FILE
          (sh.pop3.transEnabled && s.clientState == .transaction)], .next⟩
  | quitMailbox {md u arg} (hstate : s.clientState = .transaction) (hmaildir : s.maildir = some md)
      (huser : s.user = some u) :
      Outcome env sh s .quit arg
        ⟨{ s with maildir := none, clientState := .closing }, sh,
          goodbye :: (deleteMarkedPaths sh.pop3.baseDir u.name md).map .remove ++
            [.close s.cliSocket], .returned⟩
  | quitPlain {arg} (hstate : s.clientState ≠ .transaction) :
      Outcome env sh s .quit arg
        ⟨{ s with clientState := .closing }, sh, [goodbye, .close s.cliSocket], .returned⟩
  /-- TRANSACTION without a mailbox or a user, which no run reaches -/
  | dangling {comm arg sh'} (hstate : s.clientState = .transaction)
      (hnone : s.maildir = none ∨ s.user = none) (answers : List Bytes) :
      Outcome env sh s comm arg (nullPointer sh' s (answers.map .send))

/-- The transfer behind a status line. -/
theorem eq_of_transfer_mem {data path path' : Bytes} {transformed transformed' : Bool}
    (h : Effect.transfer path transformed ∈ [Effect.send data, .transfer path' transformed']) :
    path = path' ∧ transformed = transformed' := by
  rcases List.mem_cons.mp h with hsend | htransfer
  · cases hsend
  · exact Effect.transfer.inj (List.mem_singleton.mp htransfer)

/-! ### The helpers behind the arms -/

theorem validatePassword_eq_false {s : Session} {pass : Bytes}
    (h : validatePassword s pass = false) : ∃ u, s.user = some u ∧ u.pass = pass := by
  unfold validatePassword at h
  cases hu : s.user with
  | none => rw [hu] at h; cases h
  | some u =>
    rw [hu] at h
    simp only [Bool.not_eq_false', Bool.and_eq_true, beq_iff_eq] at h
    exact ⟨u, rfl, h.2⟩

theorem validatePassword_eq_true {s : Session} {pass : Bytes}
    (h : validatePassword s pass = true) (u : User) (hu : s.user = some u) : pass ≠ u.pass := by
  rintro rfl
  simp [validatePassword, hu] at h

theorem userNotFound_isErr : IsErr (str "-ERR User not found\r\n") := by decide

theorem needsLogin_ne {comm : Pop3Command} (h : comm.needsLogin) :
    comm ≠ .user ∧ comm ≠ .pass ∧ comm ≠ .noop ∧ comm ≠ .quit := by
  cases comm <;> simp_all [Pop3Command.needsLogin]

theorem needsManager_ne {comm : Pop3Command} (h : comm.needsManager) :
    comm ≠ .user ∧ comm ≠ .pass ∧ comm ≠ .noop ∧ comm ≠ .quit := by
  cases comm <;> simp_all [Pop3Command.needsManager]

/-! ### One arm at a time -/

section Arms

variable (env : Env) (sh : Shared) (s : Session)

theorem userCommand_outcome (arg : Option Bytes) :
    Outcome env sh s .user arg (userCommand sh s arg) := by
  cases arg with
  | none => exact .userNotFound (by decide) (by simp)
  | some user =>
    simp only [userCommand, validateClient]
    split
    · next hsize =>
      refine .userNotFound userNotFound_isErr ?_
      intro user _
      rw [hsize, findUser]
      simp
    · cases hfind : findUser sh.pop3.userList.size sh.pop3.userList.list user with
      | none =>
        refine .userNotFound userNotFound_isErr ?_
        intro user' huser
        cases huser; exact hfind
      | some u => exact .userFound hfind

theorem passCommand_outcome (arg : Option Bytes) :
    Outcome env sh s .pass arg (passCommand env sh s arg) := by
  unfold passCommand
  split
  · next hstate => exact .passRefused (by decide) fun h => absurd h hstate
  next hstate =>
  have hstate : s.clientState = .authorization := by simpa using hstate
  cases arg with
  | none => exact .passRefused (by decide) fun _ _ _ => by simp
  | some pass =>
    simp only [passReply]
    cases hv : validatePassword s pass with
    | true =>
      exact .passRefused (by decide) fun _ u hu h =>
        validatePassword_eq_true hv u hu (Option.some.inj h)
    | false =>
      obtain ⟨u, hu, rfl⟩ := validatePassword_eq_false hv
      simp only [Bool.false_eq_true, if_false, logIn, hu]
      cases hload : loadUserStructure env.opendir sh.pop3.baseDir u.name with
      | none => exact hu ▸ .noMailbox hstate hu hload
      | some md => exact hu ▸ .loggedIn hstate hu hload

theorem loggedIn_outcome {comm : Pop3Command} (hcomm : comm.needsLogin) {arg : Option Bytes}
    {arm : Step} (harm : s.clientState = .transaction → Outcome env sh s comm arg arm) :
    Outcome env sh s comm arg (loggedIn sh s arm) := by
  unfold loggedIn
  split
  · next hstate => exact .refused (needsLogin_ne hcomm) (fun _ => hstate) (by decide)
  · next hstate => exact harm (by simpa using hstate)

theorem managerOnly_outcome {comm : Pop3Command} (hcomm : comm.needsManager) {arg : Option Bytes}
    {arm : Step} (harm : s.clientState = .manager → Outcome env sh s comm arg arm) :
    Outcome env sh s comm arg (managerOnly sh s arm) := by
  unfold managerOnly
  split
  · exact .refused (needsManager_ne hcomm) (by rintro rfl; cases hcomm) (by decide)
  · next hstate => exact harm (by simpa using hstate)

theorem mailbox_outcome {comm : Pop3Command} {arg : Option Bytes} {arm : Maildir → Step}
    (hstate : s.clientState = .transaction)
    (harm : ∀ md, s.maildir = some md → Outcome env sh s comm arg (arm md)) :
    Outcome env sh s comm arg (mailbox sh s arm) := by
  unfold mailbox
  cases hmd : s.maildir with
  | none => exact .dangling hstate (.inl hmd) []
  | some md => exact harm md hmd

theorem numberCommand_outcome {comm : Pop3Command} (hcomm : comm.needsLogin)
    (hrset : comm ≠ .rset) {arg : Option Bytes}
    {missing : Step} {act : Int → Step}
    (hmissing : s.clientState = .transaction → Outcome env sh s comm arg missing)
    (hact : s.clientState = .transaction → ∀ number, arg = some number →
      Outcome env sh s comm arg (act (atoi number))) :
    Outcome env sh s comm arg (numberCommand sh s arg missing act) := by
  apply loggedIn_outcome env sh s hcomm
  intro hstate
  cases arg with
  | none => exact hmissing hstate
  | some number =>
    simp only
    split
    · exact .refused (needsLogin_ne hcomm) (fun h => absurd h hrset) (by decide)
    · exact hact hstate number rfl

theorem listNumber_outcome (arg : Option Bytes) (hstate : s.clientState = .transaction)
    (n : Int) : Outcome env sh s .list arg (listNumber sh s n) := by
  apply mailbox_outcome env sh s hstate
  intro md _
  exact .told (by simp) _ (fun _ => hstate) nofun

theorem viewNumber_outcome {number : Bytes} (hstate : s.clientState = .transaction) :
    Outcome env sh s .retr (some number) (viewNumber sh s (atoi number)) := by
  apply mailbox_outcome env sh s hstate
  intro md hmd
  unfold viewMessage
  split
  · next d file more htarget =>
    cases hu : s.user with
    | none => exact .dangling hstate (.inr hu) [_]
    | some u => exact .retrieved hstate hmd hu htarget
  · exact .refused (by decide) nofun (by decide)

theorem deleteNumber_outcome {number : Bytes} (hstate : s.clientState = .transaction) :
    Outcome env sh s .dele (some number) (deleteNumber sh s (atoi number)) := by
  apply mailbox_outcome env sh s hstate
  intro md hmd
  unfold deleteMessage
  split
  · split <;> exact .refused (by decide) nofun (by decide)
  · next htarget => exact absurd htarget (deleteTarget_ne_null md _)
  · next htarget => exact .marked hstate hmd htarget

theorem updateAddress_outcome {comm : Pop3Command} (hcomm : comm = .port ∨ comm = .ipv6)
    (arg : Option Bytes) (hstate : s.clientState = .manager) (ip : Option Bytes) (port : Int) :
    Outcome env sh s comm arg (updateAddress env sh s ip port) :=
  .configured (by rcases hcomm with rfl | rfl <;> simp) hstate sh.pop3 rfl _ _

theorem quitCommand_outcome (arg : Option Bytes) :
    Outcome env sh s .quit arg (quitCommand sh s) := by
  unfold quitCommand
  simp only
  split
  · next hstate =>
    split
    · next md u hmd hu => exact .quitMailbox hstate hmd hu
    · next hnone =>
      refine .dangling hstate ?_ [_]
      cases hmd : s.maildir with
      | none => exact .inl rfl
      | some md =>
        cases hu : s.user with
        | none => exact .inr rfl
        | some u => exact absurd hu (hnone md u hmd)
  · next hstate => exact .quitPlain hstate

end Arms

/-- **Every run of the switch ends in one of the ways listed.** -/
theorem execute_outcome (env : Env) (sh : Shared) (s : Session) (comm : Pop3Command)
    (arg : Option Bytes) (tail : Bytes) :
    Outcome env sh s comm arg (execute env sh s comm arg tail) := by
  cases comm with
  | user => exact userCommand_outcome env sh s arg
  | pass => exact passCommand_outcome env sh s arg
  | rset =>
    exact loggedIn_outcome env sh s rfl fun hs =>
      mailbox_outcome env sh s hs fun md hmd => .unmarked hs hmd
  | stat =>
    exact loggedIn_outcome env sh s rfl fun hs =>
      mailbox_outcome env sh s hs fun md _ =>
        .told (by simp) [_] (fun _ => hs) nofun
  | list =>
    exact numberCommand_outcome env sh s rfl (by decide) (fun hs => listNumber_outcome env sh s arg hs _)
      fun hs number _ => listNumber_outcome env sh s arg hs _
  | retr =>
    refine numberCommand_outcome env sh s rfl (by decide)
      (fun _ => .refused (by decide) nofun (by decide)) ?_
    rintro hs number rfl
    exact viewNumber_outcome env sh s hs
  | dele =>
    refine numberCommand_outcome env sh s rfl (by decide)
      (fun _ => .refused (by decide) nofun (by decide)) ?_
    rintro hs number rfl
    exact deleteNumber_outcome env sh s hs
  | noop => exact .told (by simp) [_] nofun nofun
  | port =>
    exact managerOnly_outcome env sh s rfl fun hs =>
      updateAddress_outcome env sh s (.inl rfl) arg hs _ _
  | ipv6 =>
    exact managerOnly_outcome env sh s rfl fun hs =>
      updateAddress_outcome env sh s (.inr rfl) arg hs _ _
  | host =>
    exact managerOnly_outcome env sh s rfl fun hs => .configured (by simp) hs _ (by rfl) sh.listener []
  | dirr =>
    exact managerOnly_outcome env sh s rfl fun hs => .configured (by simp) hs _ (by rfl) sh.listener []
  | tran =>
    exact managerOnly_outcome env sh s rfl fun hs => .configured (by simp) hs _ (by rfl) sh.listener []
  | info =>
    exact managerOnly_outcome env sh s rfl fun hs => .told (by simp) [_] nofun fun _ => hs
  | metr =>
    exact managerOnly_outcome env sh s rfl fun hs => .told (by simp) [_] nofun fun _ => hs
  | logg => exact managerOnly_outcome env sh s rfl fun hs => .logSent hs
  | quit => exact quitCommand_outcome env sh s arg
  | errorCommand => exact .refused (by decide) nofun (by decide)

/-! ### Control -/

/-- No arm fails an assertion: only QUIT returns, and only a null pointer ends the process. -/
theorem Outcome.control_cases {env : Env} {sh : Shared} {s : Session} {comm : Pop3Command}
    {arg : Option Bytes} {st : Step} (h : Outcome env sh s comm arg st) :
    (comm ≠ .quit ∧ st.control = .next) ∨ (comm = .quit ∧ st.control = .returned) ∨
      st.control = .fault .nullPointer := by
  cases h with
  | refused hcomm _ _ => exact .inl ⟨hcomm.2.2.2, rfl⟩
  | passRefused _ _ => exact .inl ⟨by decide, rfl⟩
  | told hcomm _ _ _ => exact .inl ⟨by rcases hcomm with h | h | h | h | h <;> simp [h], rfl⟩
  | userNotFound _ _ => exact .inl ⟨by decide, rfl⟩
  | userFound _ => exact .inl ⟨by decide, rfl⟩
  | loggedIn _ _ _ => exact .inl ⟨by decide, rfl⟩
  | noMailbox _ _ _ => exact .inr (.inr rfl)
  | unmarked _ _ => exact .inl ⟨by decide, rfl⟩
  | retrieved _ _ _ _ => exact .inl ⟨by decide, rfl⟩
  | marked _ _ _ => exact .inl ⟨by decide, rfl⟩
  | configured hcomm _ _ _ _ _ =>
    exact .inl ⟨by rcases hcomm with h | h | h | h | h <;> simp [h], rfl⟩
  | logSent _ => exact .inl ⟨by decide, rfl⟩
  | quitMailbox _ _ _ => exact .inr (.inl ⟨rfl, rfl⟩)
  | quitPlain _ => exact .inr (.inl ⟨rfl, rfl⟩)
  | dangling _ _ _ => exact .inr (.inr rfl)

theorem execute_ne_assertion (env : Env) (sh : Shared) (s : Session) (comm : Pop3Command)
    (arg : Option Bytes) (tail : Bytes) :
    (execute env sh s comm arg tail).control ≠ .fault .assertion := by
  rcases (execute_outcome env sh s comm arg tail).control_cases with ⟨_, h⟩ | ⟨_, h⟩ | h <;>
    simp [h]

theorem dispatch_outcome {command : Bytes} (h4 : 4 ≤ command.length)
    (h : command.length ≤ 2 * BUFFER_SIZE) (env : Env) (sh : Shared) (s : Session) :
    ∃ st, Outcome env sh s (getCommandValue command) (argument command) st ∧
      dispatch env sh s command = { st with effects := commandLog env s command :: st.effects } :=
  ⟨_, execute_outcome env sh s _ _ (cstr (command.drop 5)), dispatch_of_long h4 h env sh s⟩

/-- **A line that fits its buffer fails an assertion exactly when it is shorter than a keyword.** -/
theorem dispatch_assertion_iff {command : Bytes} (h : command.length ≤ 2 * BUFFER_SIZE)
    (env : Env) (sh : Shared) (s : Session) :
    (dispatch env sh s command).control = .fault .assertion ↔ command.length < 4 := by
  by_cases h4 : command.length < 4
  · simp [dispatch_of_short h4, h4]
  · rw [dispatch_of_long (by omega) h]
    simp only [h4, iff_false]
    exact execute_ne_assertion _ _ _ _ _ _

end Pop3Server
