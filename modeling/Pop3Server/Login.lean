import Pop3Server.HandleClient
import Pop3Server.Outcomes

/-!
# The login of a session

Whether a session is logged in, and as whom, depends on nothing but the state,
the selected user, the user list and the lines it sends: `Login` is that part of
a session and `Login.after` what one command makes of it.  `execute_login` shows
that the switch does just this, whatever the mailbox, the metrics and the files.

It decides when the loop is left: at QUIT, at a login whose mailbox cannot be
loaded, and at a line that is too short (`dispatch_control_next_iff`,
`passes_iff`).
-/

namespace Pop3Server

theorem Exchange.outcome {x : Exchange} (h4 : 4 ≤ x.command.length)
    (hfit : x.command.length ≤ 2 * BUFFER_SIZE) :
    ∃ st, Outcome x.env x.shared x.session (getCommandValue x.command) (argument x.command) st ∧
      x.step = { st with effects := commandLog x.env x.session x.command :: st.effects } :=
  dispatch_outcome h4 hfit x.env x.shared x.session

theorem Exchange.step_of_short {x : Exchange} (h : ¬ 4 ≤ x.command.length) :
    x.step = ⟨x.session, x.shared, [commandLog x.env x.session x.command], .fault .assertion⟩ :=
  dispatch_of_short (Nat.lt_of_not_le h) x.env x.shared x.session

theorem Exchange.step_of_huge {x : Exchange} (h : ¬ x.command.length ≤ 2 * BUFFER_SIZE) :
    x.step = ⟨x.session, x.shared, [], .fault .assertion⟩ :=
  dispatch_of_huge (Nat.lt_of_not_le h) x.env x.shared x.session

/-- An effect other than the entry in the log comes from the switch. -/
theorem Exchange.outcome_of_effect {x : Exchange} {e : Effect} (he : e ∈ x.step.effects)
    (hlog : e ≠ commandLog x.env x.session x.command) :
    x.command.length ≤ 2 * BUFFER_SIZE ∧
      ∃ st, Outcome x.env x.shared x.session (getCommandValue x.command) (argument x.command) st ∧
        e ∈ st.effects := by
  by_cases h4 : 4 ≤ x.command.length
  case neg =>
    rw [Exchange.step_of_short h4] at he
    exact absurd (List.mem_singleton.mp he) hlog
  by_cases hfit : x.command.length ≤ 2 * BUFFER_SIZE
  case neg =>
    rw [Exchange.step_of_huge hfit] at he
    cases he
  obtain ⟨st, hout, hstep⟩ := Exchange.outcome h4 hfit
  rw [hstep] at he
  exact ⟨hfit, st, hout, (List.mem_cons.mp he).resolve_left hlog⟩

theorem Exchange.outcome_of_dispatched {x : Exchange} (h : x.step.control ≠ .fault .assertion) :
    ∃ st, Outcome x.env x.shared x.session (getCommandValue x.command) (argument x.command) st ∧
      x.step = { st with effects := commandLog x.env x.session x.command :: st.effects } := by
  refine Exchange.outcome ?_ ?_
  · by_contra hshort
    exact h (congrArg Step.control (Exchange.step_of_short hshort))
  · by_contra hhuge
    exact h (congrArg Step.control (Exchange.step_of_huge hhuge))

/-- A logged-in session has a mailbox and a user. -/
structure Session.Ready (s : Session) : Prop where
  maildir : s.clientState = .transaction → s.maildir ≠ none
  user : s.clientState = .transaction → s.user ≠ none

/-- The part of a session that decides on logins. -/
structure Login where
  clientState : ClientState
  user : Option User
deriving DecidableEq

def Session.login (s : Session) : Login := ⟨s.clientState, s.user⟩

namespace Login

def dropped (l : Login) : ClientState :=
  if l.clientState = .manager then .manager else .authorization

/-- The user a USER line selects. -/
def selected (users : UserListHeader) (arg : Option Bytes) : Option User :=
  arg.bind (findUser users.size users.list)

/-- The user a command logs in: the selected one, on his password. -/
def admitted (l : Login) : Pop3Command → Option Bytes → Option User
  | .pass, some pass =>
    if l.clientState = .authorization then l.user.filter (·.pass = pass) else none
  | _, _ => none

def after (users : UserListHeader) (l : Login) (comm : Pop3Command) (arg : Option Bytes) : Login :=
  match comm with
  | .user => ⟨l.dropped, (selected users arg).or l.user⟩
  | .pass => if (l.admitted .pass arg).isSome then ⟨.transaction, l.user⟩ else l
  | .quit => ⟨.closing, l.user⟩
  | _ => l

theorem admitted_eq_some {l : Login} {comm : Pop3Command} {arg : Option Bytes} {u : User} :
    l.admitted comm arg = some u ↔
      comm = .pass ∧ l.clientState = .authorization ∧ l.user = some u ∧ arg = some u.pass := by
  unfold admitted
  split
  · next pass =>
    split
    · next hstate =>
      simp only [Option.filter_eq_some_iff, decide_eq_true_eq, hstate, true_and, Option.some.injEq]
      exact and_congr_right fun _ => eq_comm
    · next hstate => simp [hstate]
  · next hno =>
    simp only [reduceCtorEq, false_iff]
    rintro ⟨rfl, -, -, rfl⟩
    exact hno u.pass rfl rfl

theorem after_of_ne {comm : Pop3Command} (h : comm ≠ .user ∧ comm ≠ .pass ∧ comm ≠ .quit)
    (users : UserListHeader) (l : Login) (arg : Option Bytes) : l.after users comm arg = l := by
  obtain ⟨h1, h2, h3⟩ := h
  cases comm <;> first | rfl | contradiction

theorem after_of_admitted {l : Login} {comm : Pop3Command} {arg : Option Bytes} {u : User}
    (h : l.admitted comm arg = some u) (users : UserListHeader) :
    l.after users comm arg = ⟨.transaction, some u⟩ := by
  obtain ⟨rfl, -, hu, -⟩ := admitted_eq_some.mp h
  simp [after, h, hu]

theorem after_manager {l : Login} (h : l.clientState = .manager) (users : UserListHeader)
    (comm : Pop3Command) (arg : Option Bytes) :
    (l.after users comm arg).clientState = .manager ∨ comm = .quit := by
  have hpass : l.admitted .pass arg = none := by
    cases arg <;> simp [admitted, h]
  cases comm <;> simp [after, dropped, h, hpass]

theorem after_pass_of_not_admitted {l : Login} {arg : Option Bytes}
    (h : l.admitted .pass arg = none) (users : UserListHeader) :
    l.after users .pass arg = l := by
  simp [after, h]

end Login

theorem userState_login (s : Session) : (userState s).login = ⟨s.login.dropped, s.user⟩ := by
  unfold userState Session.login Login.dropped
  cases hs : s.clientState <;> simp [hs]

theorem userState_ne_transaction (s : Session) : (userState s).clientState ≠ .transaction := by
  have hstate := congrArg Login.clientState (userState_login s)
  simp only [Session.login, Login.dropped] at hstate
  rw [hstate]
  by_cases hm : s.clientState = .manager <;> simp [hm]

/-- **The switch treats the login as `Login.after` says.** -/
theorem Outcome.login_eq {env : Env} {sh : Shared} {s : Session} {comm : Pop3Command}
    {arg : Option Bytes} {st : Step} (h : Outcome env sh s comm arg st) (hs : s.Ready) :
    st.session.login = s.login.after sh.pop3.userList comm arg := by
  cases h with
  | refused hcomm _ _ => exact (Login.after_of_ne ⟨hcomm.1, hcomm.2.1, hcomm.2.2.2⟩ _ _ _).symm
  | told hcomm _ _ _ =>
    refine (Login.after_of_ne ?_ _ _ _).symm
    rcases hcomm with rfl | rfl | rfl | rfl | rfl <;> simp
  | userNotFound _ hfind =>
    have hnone : Login.selected sh.pop3.userList arg = none := by
      cases arg with
      | none => rfl
      | some user => exact hfind user rfl
    rw [reply, userState_login, Login.after, hnone]
    rfl
  | userFound hfind =>
    have hstate := congrArg Login.clientState (userState_login s)
    simp only [Session.login] at hstate
    simp only [reply, Session.login, Login.after, Login.selected, Option.bind_some, hfind, hstate,
      Option.some_or]
  | passRefused _ hpass =>
    refine (Login.after_pass_of_not_admitted ?_ _).symm
    rw [Option.eq_none_iff_forall_ne_some]
    intro u hu
    obtain ⟨-, hstate, huser, harg⟩ := Login.admitted_eq_some.mp hu
    exact hpass hstate u huser harg
  | loggedIn hstate huser _ =>
    rw [Login.after_of_admitted (Login.admitted_eq_some.mpr ⟨rfl, hstate, huser, rfl⟩)]
    simp only [Session.login, huser]
  | noMailbox hstate huser _ =>
    rw [Login.after_of_admitted (Login.admitted_eq_some.mpr ⟨rfl, hstate, huser, rfl⟩)]
    simp only [nullPointer, Session.login, huser]
  | unmarked _ _ => rfl
  | retrieved _ _ _ _ => rfl
  | marked _ _ _ => rfl
  | configured hcomm _ _ _ _ _ =>
    refine (Login.after_of_ne ?_ _ _ _).symm
    rcases hcomm with rfl | rfl | rfl | rfl | rfl <;> simp
  | logSent _ => rfl
  | quitMailbox _ _ _ => rfl
  | quitPlain _ => rfl
  | dangling hstate hnone _ =>
    rcases hnone with h | h
    · exact absurd h (hs.maildir hstate)
    · exact absurd h (hs.user hstate)

theorem Outcome.ready {env : Env} {sh : Shared} {s : Session} {comm : Pop3Command}
    {arg : Option Bytes} {st : Step} (h : Outcome env sh s comm arg st) (hs : s.Ready)
    (hnext : st.control = .next) : st.session.Ready := by
  have hdropped := userState_ne_transaction s
  cases h with
  | refused _ _ _ => exact hs
  | told _ _ _ _ => exact hs
  | userNotFound _ _ => exact ⟨fun h => absurd h hdropped, fun h => absurd h hdropped⟩
  | userFound _ => exact ⟨fun h => absurd h hdropped, fun h => absurd h hdropped⟩
  | passRefused _ _ => exact hs
  | loggedIn _ huser _ => exact ⟨fun _ => by simp, fun _ => by simp [huser]⟩
  | noMailbox _ _ _ => cases hnext
  | unmarked _ _ => exact ⟨fun _ => by simp [reply], hs.user⟩
  | retrieved _ _ _ _ => exact hs
  | marked _ _ _ => exact ⟨fun _ => by simp [reply], hs.user⟩
  | configured _ _ _ _ _ _ => exact hs
  | logSent _ => exact hs
  | quitMailbox _ _ _ => cases hnext
  | quitPlain _ => cases hnext
  | dangling _ _ _ => cases hnext

/-- Only a manager changes the configuration, and nobody the user list. -/
theorem Outcome.configuration {env : Env} {sh : Shared} {s : Session} {comm : Pop3Command}
    {arg : Option Bytes} {st : Step} (h : Outcome env sh s comm arg st)
    (hs : s.Ready) : st.shared.pop3.userList = sh.pop3.userList ∧
      (s.clientState ≠ .manager → st.shared.pop3 = sh.pop3) := by
  cases h with
  | configured _ hstate _ husers _ _ => exact ⟨husers, fun h => absurd hstate h⟩
  | dangling hstate hnone _ =>
    rcases hnone with h | h
    · exact absurd h (hs.maildir hstate)
    · exact absurd h (hs.user hstate)
  | _ => exact ⟨rfl, fun _ => rfl⟩

/-! ### When the loop is left -/

/-- The mailbox of whomever the command logs in can be loaded. -/
def MailboxLoads (env : Env) (baseDir : Bytes) (l : Login) (command : Bytes) : Prop :=
  ∀ u, l.admitted (getCommandValue command) (argument command) = some u →
    loadUserStructure env.opendir baseDir u.name ≠ none

theorem Outcome.control_next_iff {env : Env} {sh : Shared} {s : Session} {comm : Pop3Command}
    {arg : Option Bytes} {st : Step} (h : Outcome env sh s comm arg st) (hs : s.Ready) :
    st.control = .next ↔ comm ≠ .quit ∧ ∀ u, s.login.admitted comm arg = some u →
      loadUserStructure env.opendir sh.pop3.baseDir u.name ≠ none := by
  cases h with
  | loggedIn hstate huser hload =>
    simp only [true_iff, ne_eq, reduceCtorEq, not_false_eq_true, true_and]
    intro u' hu'
    obtain ⟨-, -, huser', -⟩ := Login.admitted_eq_some.mp hu'
    simp only [Session.login, huser, Option.some.injEq] at huser'
    subst huser'
    simp [hload]
  | noMailbox hstate huser hload =>
    simp only [nullPointer, reduceCtorEq, false_iff, not_and, not_forall, not_not]
    intro _
    exact ⟨_, Login.admitted_eq_some.mpr ⟨rfl, hstate, huser, rfl⟩, hload⟩
  | passRefused _ hpass =>
    simp only [reply, true_iff, ne_eq, reduceCtorEq, not_false_eq_true, true_and]
    intro u hu
    obtain ⟨-, hstate, huser, harg⟩ := Login.admitted_eq_some.mp hu
    exact absurd harg (hpass hstate u huser)
  | dangling hstate hnone _ =>
    rcases hnone with h | h
    · exact absurd h (hs.maildir hstate)
    · exact absurd h (hs.user hstate)
  | quitMailbox _ _ _ => simp
  | quitPlain _ => simp
  | refused hcomm _ _ =>
    have hno : ∀ u, s.login.admitted comm arg ≠ some u :=
      fun u hu => hcomm.2.1 (Login.admitted_eq_some.mp hu).1
    simp [reply, hcomm.2.2.2, hno]
  | told hcomm _ _ _ =>
    rcases hcomm with rfl | rfl | rfl | rfl | rfl <;> simp [Login.admitted]
  | configured hcomm _ _ _ _ _ =>
    rcases hcomm with rfl | rfl | rfl | rfl | rfl <;> simp [Login.admitted]
  | _ => simp [reply, Login.admitted]

theorem keyword_begins {command : Bytes} (h : getCommandValue command ≠ .errorCommand) :
    ∃ e ∈ commandTable, getCommandValue command = e.command ∧ e.keyword <+: command := by
  unfold getCommandValue commandEntry at h ⊢
  cases hfind : commandTable.find? fun e => strncmpEq command e.keyword with
  | none => rw [hfind] at h; exact absurd rfl h
  | some e =>
    refine ⟨e, List.mem_of_find?_eq_some hfind, rfl, ?_⟩
    have hkey := List.find?_some hfind
    exact (strncmpEq_iff _ _).mp hkey

theorem length_of_keyword {command : Bytes} (h : getCommandValue command ≠ .errorCommand) :
    4 ≤ command.length := by
  obtain ⟨e, he, -, hbegins⟩ := keyword_begins h
  have hkeyword : ∀ e ∈ commandTable, e.keyword.length = 4 := by decide
  have := hbegins.length_le
  rw [hkeyword e he] at this
  exact this

/-- **When a command line returns to the loop.** -/
theorem dispatch_control_next_iff {command : Bytes} (h : command.length ≤ 2 * BUFFER_SIZE)
    (env : Env) (sh : Shared) {s : Session} (hs : s.Ready) :
    (dispatch env sh s command).control = .next ↔
      4 ≤ command.length ∧ getCommandValue command ≠ .quit ∧
        MailboxLoads env sh.pop3.baseDir s.login command := by
  by_cases h4 : command.length < 4
  · simp [dispatch_of_short h4]
    omega
  · rw [dispatch_of_long (by omega) h]
    simp only [show 4 ≤ command.length by omega, true_and]
    exact (execute_outcome _ _ _ _ _ _).control_next_iff hs

def Login.afterLine (users : UserListHeader) (l : Login) (command : Bytes) : Login :=
  l.after users (getCommandValue command) (argument command)

/-- Every login of the lines finds its mailbox; `env k` is what the `k`-th line finds. -/
def MailboxesLoad (users : UserListHeader) (baseDir : Bytes) :
    (Nat → Env) → Login → List Bytes → Prop
  | _, _, [] => True
  | env, l, c :: cs =>
    MailboxLoads (env 0) baseDir l c ∧
      MailboxesLoad users baseDir (fun k => env (k + 1)) (l.afterLine users c) cs

theorem mailboxesLoad_of_no_pass {lines : List Bytes}
    (h : ∀ c ∈ lines, getCommandValue c ≠ .pass) (users : UserListHeader) (baseDir : Bytes)
    (env : Nat → Env) (l : Login) : MailboxesLoad users baseDir env l lines := by
  induction lines generalizing env l with
  | nil => trivial
  | cons c cs ih =>
    constructor
    · intro u hu
      exact absurd (Login.admitted_eq_some.mp hu).1 (h c (by simp))
    · apply ih
      intro c hc
      exact h c (by simp [hc])

/-- A run through the lines starting in `w`, where `sh` is the configuration to compare with. -/
structure SameConfiguration (sh : Shared) (w : LoopState) : Prop where
  ready : w.session.Ready
  users : w.shared.pop3.userList = sh.pop3.userList
  baseDir : w.session.clientState ≠ .manager → w.shared.pop3.baseDir = sh.pop3.baseDir

theorem SameConfiguration.refl {w : LoopState} (h : w.session.Ready) :
    SameConfiguration w.shared w := ⟨h, rfl, fun _ => rfl⟩

theorem SameConfiguration.mailboxLoads_iff {sh : Shared} {w : LoopState}
    (h : SameConfiguration sh w) (env : Env) (command : Bytes) :
    MailboxLoads env w.shared.pop3.baseDir w.session.login command ↔
      MailboxLoads env sh.pop3.baseDir w.session.login command := by
  unfold MailboxLoads
  refine forall_congr' fun u => imp_congr_right fun hu => ?_
  obtain ⟨-, hstate, -, -⟩ := Login.admitted_eq_some.mp hu
  rw [h.baseDir (by rw [show w.session.clientState = _ from hstate]; simp)]

theorem SameConfiguration.next {sh : Shared} {w : LoopState} (h : SameConfiguration sh w)
    {command : Bytes} (hfit : command.length ≤ 2 * BUFFER_SIZE)
    (hgo : commandMachine.stop w command = false) :
    SameConfiguration sh (commandMachine.next w command) ∧
      (commandMachine.next w command).session.login =
        w.session.login.afterLine sh.pop3.userList command := by
  have hnext := stop_eq_false_iff.mp hgo
  obtain ⟨h4, hquit, -⟩ := (dispatch_control_next_iff hfit _ _ h.ready).mp hnext
  obtain ⟨st, hout, hstep⟩ : ∃ st, Outcome (w.env 0) w.shared w.session (getCommandValue command)
      (argument command) st ∧ (w.exchange command).step = _ :=
    Exchange.outcome (x := w.exchange command) h4 hfit
  have hcontrol : st.control = .next := by rw [hstep] at hnext; exact hnext
  have hs : (commandMachine.next w command).session = st.session := by
    simp only [commandMachine, LoopState.after, hstep]
  have hsh : (commandMachine.next w command).shared = st.shared := by
    simp only [commandMachine, LoopState.after, hstep]
  have hlogin := hout.login_eq h.ready
  rw [h.users] at hlogin
  obtain ⟨husers, hpop3⟩ := hout.configuration h.ready
  refine ⟨⟨hs ▸ hout.ready h.ready hcontrol, ?_, ?_⟩, hs ▸ hlogin⟩
  · rw [hsh, husers, h.users]
  · intro hmanager
    -- a manager stays one, so the session was none before the line
    have hbefore : w.session.clientState ≠ .manager := by
      intro hm
      rcases Login.after_manager (l := w.session.login) hm sh.pop3.userList
        (getCommandValue command) (argument command) with hstate | hq
      · rw [← hlogin] at hstate
        exact hmanager (by rw [hs]; exact hstate)
      · exact hquit hq
    rw [hsh, hpop3 hbefore, h.baseDir hbefore]

theorem SameConfiguration.of_passes {sh : Shared} {lines : List Bytes} {w : LoopState}
    (h : SameConfiguration sh w) (hfit : ∀ c ∈ lines, c.length ≤ 2 * BUFFER_SIZE)
    (hpass : commandMachine.Passes w lines) :
    SameConfiguration sh (commandMachine.final w lines) := by
  induction lines generalizing w with
  | nil => exact h
  | cons c cs ih =>
    obtain ⟨hgo, hrest⟩ := hpass
    rw [Machine.final_cons_go _ hgo]
    exact ih (h.next (hfit c (by simp)) hgo).1 (fun c hc => hfit c (by simp [hc])) hrest

/-- The login after a run of lines. -/
def Login.afterLines (users : UserListHeader) (l : Login) (lines : List Bytes) : Login :=
  lines.foldl (Login.afterLine users) l

theorem SameConfiguration.final_login {sh : Shared} {lines : List Bytes} {w : LoopState}
    (h : SameConfiguration sh w) (hfit : ∀ c ∈ lines, c.length ≤ 2 * BUFFER_SIZE)
    (hpass : commandMachine.Passes w lines) :
    (commandMachine.final w lines).session.login =
      w.session.login.afterLines sh.pop3.userList lines := by
  induction lines generalizing w with
  | nil => rfl
  | cons c cs ih =>
    obtain ⟨hgo, hrest⟩ := hpass
    obtain ⟨hsame, hlogin⟩ := h.next (hfit c (by simp)) hgo
    rw [Machine.final_cons_go _ hgo, ih hsame (fun c hc => hfit c (by simp [hc])) hrest, hlogin]
    rfl

/-- **A run gets through its lines exactly when all of them are long enough, none is QUIT and
every login finds its mailbox.** -/
theorem passes_iff {sh : Shared} {lines : List Bytes}
    (hfit : ∀ c ∈ lines, c.length ≤ 2 * BUFFER_SIZE) {w : LoopState}
    (h : SameConfiguration sh w) :
    commandMachine.Passes w lines ↔
      (∀ c ∈ lines, 4 ≤ c.length ∧ getCommandValue c ≠ .quit) ∧
        MailboxesLoad sh.pop3.userList sh.pop3.baseDir w.env w.session.login lines := by
  induction lines generalizing w with
  | nil => simp [Machine.Passes, MailboxesLoad]
  | cons c cs ih =>
    have hc := hfit c (by simp)
    have hgo_iff : commandMachine.stop w c = false ↔ 4 ≤ c.length ∧ getCommandValue c ≠ .quit ∧
        MailboxLoads (w.env 0) w.shared.pop3.baseDir w.session.login c :=
      stop_eq_false_iff.trans (dispatch_control_next_iff hc (w.env 0) w.shared h.ready)
    rw [h.mailboxLoads_iff] at hgo_iff
    simp only [Machine.Passes, MailboxesLoad, List.forall_mem_cons]
    constructor
    · rintro ⟨hgo, hrest⟩
      obtain ⟨hsame, hlogin⟩ := h.next hc hgo
      obtain ⟨h4, hquit, hload⟩ := hgo_iff.mp hgo
      obtain ⟨hall, hloads⟩ := (ih (fun c hc => hfit c (by simp [hc])) hsame).mp hrest
      exact ⟨⟨⟨h4, hquit⟩, hall⟩, hload, hlogin ▸ hloads⟩
    · rintro ⟨⟨⟨h4, hquit⟩, hall⟩, hload, hloads⟩
      have hgo := hgo_iff.mpr ⟨h4, hquit, hload⟩
      obtain ⟨hsame, hlogin⟩ := h.next hc hgo
      exact ⟨hgo, (ih (fun c hc => hfit c (by simp [hc])) hsame).mpr ⟨hall, hlogin ▸ hloads⟩⟩

/-! ### A server to evaluate on -/

def sampleShared : Shared where
  pop3 := { userList := .ofList [⟨str "anna", str "secret"⟩, ⟨str "ann", str "word"⟩],
            transEnabled := false, trans := none, baseDir := str "/mail/", host := str "host",
            ip := str "::" }
  metrics := ⟨0, 0, 0, 0⟩
  listener := ⟨3, ⟨1110, []⟩, 3⟩

/-- Two messages in `new`, one in `cur` and none in `tmp`, whoever logs in. -/
def sampleEnv : Env where
  opendir path :=
    if str "new" <:+ path then
      some [⟨str "a", some ⟨true, 5⟩⟩, ⟨str ".", some ⟨false, 0⟩⟩, ⟨str "b", some ⟨true, 30⟩⟩]
    else if str "cur" <:+ path then some [⟨str "c", some ⟨true, 7⟩⟩]
    else some []
  ctime := str "now"
  net := { inetPton := fun _ => none, socket := none, setReuseaddr := true, setV6only := true,
           bind := fun _ => true, listen := true }

def sampleSession : Session := newSession 5 false (str "::1") none

def delivery (s : String) (h : str s ≠ [] ∧ (str s).length < BUFFER_SIZE) : Delivery :=
  ⟨str s, h.1, h.2⟩

def sampleLoop : LoopState := ⟨fun _ => sampleEnv, sampleShared, sampleSession⟩

theorem sampleSession_ready : sampleSession.Ready := ⟨by decide, by decide⟩

/-- The sample session with a message, once logged in. -/
def sampleLoggedIn : Session :=
  { sampleSession with
    user := some ⟨str "anna", str "secret"⟩
    maildir := some ⟨.ofList [], .ofList [⟨str "a", 5, false⟩], .ofList []⟩
    clientState := .transaction }

example : (exchanges sampleLoop [str "USER anna", str "PASS secret", str "STAT"]).map
    (·.step.effects.getLast?) =
      [some (.send (str "+OK User accepted, password needed\r\n")),
       some (.send (str "+OK Password accepted\r\n")),
       some (.send (str "+OK 3 messages (42 octets)\r\n"))] := by
  decide +kernel

end Pop3Server
