import Pop3Server.Login

/-!
# The life of one session

Between two lines of a session the other sessions may have run: what a line
finds outside its own session is part of the input (`Turn`), and the session
machine threads the session alone.  `call_is_session_run` shows that what a call
of `handle_client` executes is such a run.

`Privileges` is what every exchange of a run satisfies: the port decides who is
a manager, a logged-in session goes back to the PASS that logged it in
(`LoggedInBy`), and the commands of the other states are refused.
-/

namespace Pop3Server

/-! ### Runs -/

/-- A line and what it finds when it is dispatched. -/
structure Turn where
  env : Env
  shared : Shared
  command : Bytes

def Turn.exchange (t : Turn) (s : Session) : Exchange := ⟨t.env, t.shared, s, t.command⟩

def sessionMachine : Machine Session Turn where
  next s t := (t.exchange s).step.session
  stop s t := (t.exchange s).step.control ≠ .next

def sessionExchanges (s : Session) (turns : List Turn) : List Exchange :=
  (sessionMachine.trace s turns).map fun x => x.2.exchange x.1

def turnsFrom : LoopState → List Bytes → List Turn
  | _, [] => []
  | w, c :: cs => ⟨w.env 0, w.shared, c⟩ :: turnsFrom (commandMachine.next w c) cs

theorem exchanges_eq_sessionExchanges (w : LoopState) (lines : List Bytes) :
    exchanges w lines = sessionExchanges w.session (turnsFrom w lines) := by
  induction lines generalizing w with
  | nil => rfl
  | cons c cs ih =>
    have hstop : sessionMachine.stop w.session ⟨w.env 0, w.shared, c⟩ = commandMachine.stop w c :=
      rfl
    cases hgo : commandMachine.stop w c with
    | true =>
      rw [exchanges_cons_stop hgo, sessionExchanges, turnsFrom,
        Machine.trace_cons_stop _ (hstop.trans hgo)]
      rfl
    | false =>
      rw [exchanges_cons_go hgo, sessionExchanges, turnsFrom,
        Machine.trace_cons_go _ (hstop.trans hgo), List.map_cons, ih]
      rfl

/-- **What a call executes is a run of its session.** -/
theorem call_is_session_run (env : Nat → Env) (sh : Shared) (cl : ClientData) (d : Delivery)
    (stale : Bytes) :
    ∃ turns, turns.map (·.command) = callLines cl.recvBuffer (cstr d.bytes) ∧
      (handleClient env sh cl (.data d) stale).exchanges = sessionExchanges cl.session turns := by
  have hcommands : ∀ (lines : List Bytes) (w : LoopState),
      (turnsFrom w lines).map (·.command) = lines := by
    intro lines
    induction lines with
    | nil => exact fun _ => rfl
    | cons c cs ih => exact fun w => congrArg (c :: ·) (ih _)
  refine ⟨turnsFrom ⟨env, sh, cl.session⟩ (callLines cl.recvBuffer (cstr d.bytes)),
    hcommands _ _, ?_⟩
  rw [← exchanges_eq_sessionExchanges ⟨env, sh, cl.session⟩]
  exact scan_exchanges ⟨env, sh, cl.session⟩ cl.recvBuffer (cstr d.bytes)

/-- **History rule for sessions.** -/
theorem sessionExchanges_history {R : List Exchange → Session → Prop} {turns : List Turn}
    (hstep : ∀ past s, ∀ t ∈ turns, R past s → (t.exchange s).step.control = .next →
      R (past ++ [t.exchange s]) (t.exchange s).step.session)
    {s : Session} (h0 : R [] s) {pre : List Exchange} {x : Exchange} {post : List Exchange}
    (h : sessionExchanges s turns = pre ++ x :: post) :
    R pre x.session ∧ ∃ t ∈ turns, x = t.exchange x.session := by
  obtain ⟨tpre, tpost, htrace, rfl, htpost⟩ := List.map_eq_append_iff.mp h
  obtain ⟨y, tpost', rfl, rfl, -⟩ := List.map_eq_cons_iff.mp htpost
  have hmem : ∀ y ∈ sessionMachine.trace s turns, y.2 ∈ turns := fun y hy =>
    (Machine.trace_inputs_initial _ _ _).subset (List.mem_map_of_mem hy)
  refine ⟨?_, y.2, hmem y (by simp [htrace]), rfl⟩
  -- only turns of the run occur, so the rule is used on pasts made of them
  have hrule := sessionMachine.history
    (R := fun past s => (∀ y ∈ past, y.2 ∈ turns) → R (past.map fun y => y.2.exchange y.1) s)
    (fun past s t ih hgo hpast => by
      have ht : t ∈ turns := hpast (s, t) (by simp)
      have hcontrol : (t.exchange s).step.control = .next := by
        simpa [sessionMachine] using hgo
      have := hstep _ s t ht (ih fun y hy => hpast y (by simp [hy])) hcontrol
      rw [List.map_append]
      exact this)
    (fun _ => h0) turns htrace
  exact hrule fun y hy => hmem y (by simp [htrace, hy])

/-! ### What a run of a session may assume -/

/-- The folders of every configured user can be opened, and the line is one the buffer holds. -/
structure Turn.Admissible (users : UserListHeader) (t : Turn) : Prop where
  users_eq : t.shared.pop3.userList = users
  opens : ∀ u ∈ users.list, ∀ d,
    t.env.opendir (folderPath t.shared.pop3.baseDir u.name d) ≠ none
  long : 4 ≤ t.command.length
  fits : t.command.length ≤ 2 * BUFFER_SIZE

theorem Turn.Admissible.loads {users : UserListHeader} {t : Turn} (h : t.Admissible users)
    {u : User} (hu : u ∈ users.list) :
    loadUserStructure t.env.opendir t.shared.pop3.baseDir u.name ≠ none :=
  (loadUserStructure_ne_none_iff _ _ _).mpr (h.opens u hu)

theorem mem_of_findUser {amount : Nat} {l : List User} {user : Bytes} {u : User}
    (h : findUser amount l user = some u) : u ∈ l := by
  induction l generalizing amount with
  | nil => cases amount <;> cases h
  | cons v l ih =>
    cases amount with
    | zero => cases h
    | succ amount =>
      rw [findUser] at h
      split at h
      · obtain rfl := Option.some.inj h; simp
      · exact List.mem_cons_of_mem _ (ih h)

/-! ### The invariant -/

/-- What the port a session was accepted on makes of its state. -/
def PortState (isManager : Bool) (state : ClientState) : Prop :=
  if isManager then state = .manager ∨ state = .closing else state ≠ .manager

/-- The exchange is a PASS that logs in `u` and loads his mailbox. -/
structure Exchange.LoadsMailbox (x : Exchange) (u : User) (md : Maildir) : Prop where
  pass : getCommandValue x.command = .pass
  argument : argument x.command = some u.pass
  user : x.session.user = some u
  before : x.session.clientState = .authorization
  after : x.step.session.clientState = .transaction
  loaded : loadUserStructure x.env.opendir x.shared.pop3.baseDir u.name = some md

/-- The exchange changes neither the state nor the user of its session. -/
def Exchange.KeepsLogin (x : Exchange) : Prop := x.step.session.login = x.session.login

/-- The session goes back to a PASS of its past: since then neither its state nor its user has
changed, and its mailbox is the one that PASS loaded, deleted flags apart. -/
def LoggedInBy (past : List Exchange) (s : Session) : Prop :=
  ∃ before x after u loaded md, past = before ++ x :: after ∧ x.LoadsMailbox u loaded ∧
    (∀ y ∈ after, y.KeepsLogin) ∧ s.user = some u ∧ s.maildir = some md ∧ unmarkAll md = loaded

theorem LoggedInBy.extend {past : List Exchange} {x : Exchange} {md : Maildir}
    (h : LoggedInBy past x.session) (hlogin : x.KeepsLogin)
    (hmaildir : ∀ md', x.session.maildir = some md' →
      x.step.session.maildir = some md ∧ unmarkAll md = unmarkAll md') :
    LoggedInBy (past ++ [x]) x.step.session := by
  obtain ⟨before, p, after, u, loaded, md', rfl, hp, hafter, huser, hmd', hloaded⟩ := h
  obtain ⟨hmd, hunmark⟩ := hmaildir md' hmd'
  refine ⟨before, p, after ++ [x], u, loaded, md, by simp, hp, ?_, ?_, hmd, hunmark.trans hloaded⟩
  · intro y hy
    rcases List.mem_append.mp hy with hy | hy
    · exact hafter y hy
    · rw [List.mem_singleton.mp hy]; exact hlogin
  · rw [← huser]; exact congrArg Login.user hlogin

/-- The state of a session between two lines. -/
structure SessionInvariant (users : UserListHeader) (isManager : Bool) (past : List Exchange)
    (s : Session) : Prop where
  live : s.clientState ≠ .closing
  port : PortState isManager s.clientState
  logged : s.clientState = .transaction → LoggedInBy past s
  ready : s.Ready
  configured : ∀ u, s.user = some u → u ∈ users.list

theorem newSession_invariant (users : UserListHeader) (fd : Int) (isManager : Bool) (ip : Bytes)
    (maildir : Option Maildir) :
    SessionInvariant users isManager [] (newSession fd isManager ip maildir) := by
  have hstate : (newSession fd isManager ip maildir).clientState ≠ .transaction := by
    cases isManager <;> simp [newSession]
  refine ⟨?_, ?_, fun h => absurd h hstate,
    ⟨fun h => absurd h hstate, fun h => absurd h hstate⟩, ?_⟩
  · cases isManager <;> simp [newSession]
  · cases isManager <;> simp [PortState, newSession]
  · simp [newSession]

theorem PortState.after {isManager : Bool} {l : Login} (h : PortState isManager l.clientState)
    (hclosing : l.clientState ≠ .closing) (users : UserListHeader) (comm : Pop3Command)
    (arg : Option Bytes) : PortState isManager (l.after users comm arg).clientState := by
  cases isManager with
  | true =>
    have hmanager : l.clientState = .manager := h.resolve_right hclosing
    rcases Login.after_manager hmanager users comm arg with h | rfl
    · exact .inl h
    · exact .inr rfl
  | false =>
    have hmanager : l.clientState ≠ .manager := h
    intro he
    cases comm with
    | user => simp [Login.after, Login.dropped, hmanager] at he
    | pass =>
      simp only [Login.after] at he
      split at he
      · cases he
      · exact hmanager he
    | quit => cases he
    | _ => exact hmanager he

/-- The commands that belong to another state are answered by an error line and do nothing else. -/
def Exchange.Refused (x : Exchange) : Prop :=
  ∃ response, IsErr response ∧ x.step =
    ⟨x.session, x.shared, [commandLog x.env x.session x.command, .send response], .next⟩

/-- The command is one of another state than its session is in. -/
def Exchange.Misplaced (x : Exchange) : Prop :=
  (getCommandValue x.command).needsLogin ∧ x.session.clientState ≠ .transaction ∨
    (getCommandValue x.command).needsManager ∧ x.session.clientState ≠ .manager

theorem Outcome.refused_of_misplaced {env : Env} {sh : Shared} {s : Session} {comm : Pop3Command}
    {arg : Option Bytes} {st : Step} (h : Outcome env sh s comm arg st) (hs : s.Ready)
    (hmisplaced : comm.needsLogin ∧ s.clientState ≠ .transaction ∨
      comm.needsManager ∧ s.clientState ≠ .manager) :
    ∃ response, IsErr response ∧ st = reply sh s response := by
  cases h with
  | refused _ _ herr => exact ⟨_, herr, rfl⟩
  | told _ _ hlogin hmanager =>
    rcases hmisplaced with ⟨hc, hstate⟩ | ⟨hc, hstate⟩
    · exact absurd (hlogin hc) hstate
    · exact absurd (hmanager hc) hstate
  | configured hcomm hstate _ _ _ _ =>
    rcases hcomm with rfl | rfl | rfl | rfl | rfl <;>
      simp [Pop3Command.needsLogin, hstate] at hmisplaced
  | dangling hstate hnone _ =>
    rcases hnone with h | h
    · exact absurd h (hs.maildir hstate)
    · exact absurd h (hs.user hstate)
  | unmarked hstate _ => simp [Pop3Command.needsManager, hstate] at hmisplaced
  | retrieved hstate _ _ _ => simp [Pop3Command.needsManager, hstate] at hmisplaced
  | marked hstate _ _ => simp [Pop3Command.needsManager, hstate] at hmisplaced
  | logSent hstate => simp [Pop3Command.needsLogin, hstate] at hmisplaced
  | _ => simp [Pop3Command.needsLogin, Pop3Command.needsManager] at hmisplaced

/-! ### One step -/

section Step

variable {users : UserListHeader} {isManager : Bool} {past : List Exchange} {s : Session} {t : Turn}

theorem step_logged {x : Exchange} (hready : x.session.Ready)
    (hlogged : x.session.clientState = .transaction → LoggedInBy past x.session)
    (hassert : x.step.control ≠ .fault .assertion) (hnull : x.step.control ≠ .fault .nullPointer)
    (hafter : x.step.session.clientState = .transaction) :
    LoggedInBy (past ++ [x]) x.step.session := by
  obtain ⟨st, hout, hstep⟩ := Exchange.outcome_of_dispatched hassert
  have hsession : x.step.session = st.session := by rw [hstep]
  rw [hsession] at hafter
  -- a session that keeps login and messages goes back where it went back before
  have hextend : ∀ md, x.session.clientState = .transaction → st.session.login = x.session.login →
      (∀ md', x.session.maildir = some md' → st.session.maildir = some md ∧
        unmarkAll md = unmarkAll md') →
      LoggedInBy (past ++ [x]) x.step.session := by
    intro md hstate hlogin hmaildir
    refine @LoggedInBy.extend past x md (hlogged hstate) ?_ ?_
    · rw [Exchange.KeepsLogin, hsession]; exact hlogin
    · rw [hsession]; exact hmaildir
  have hsame : st.session = x.session →
      LoggedInBy (past ++ [x]) x.step.session := by
    intro he
    rw [he] at hafter
    obtain ⟨md, hmd⟩ := Option.ne_none_iff_exists'.mp (hready.maildir hafter)
    apply hextend md hafter (by rw [he])
    intro md' hmd'
    rw [hmd] at hmd'
    rw [he, Option.some.inj hmd']
    exact ⟨hmd.trans hmd', rfl⟩
  generalize hcomm : getCommandValue x.command = comm at hout
  generalize harg : argument x.command = arg at hout
  cases hout with
  | refused _ _ _ => exact hsame rfl
  | told _ _ _ _ => exact hsame rfl
  | userNotFound _ _ => exact absurd hafter (userState_ne_transaction x.session)
  | userFound _ => exact absurd hafter (userState_ne_transaction x.session)
  | passRefused _ _ => exact hsame rfl
  | loggedIn hstate huser hload =>
    refine ⟨past, x, [], _, _, _, rfl,
      ⟨hcomm, harg, huser, hstate, by rw [hsession], hload⟩, by simp, by rw [hsession]; exact huser,
      by rw [hsession], ?_⟩
    exact unmarkAll_of_unmarked (loadUserStructure_unmarked hload)
  | noMailbox _ _ _ => exact absurd (by rw [hstep]; rfl) hnull
  | unmarked hstate hmd =>
    refine hextend _ hstate rfl fun md' hmd' => ⟨rfl, ?_⟩
    rw [hmd] at hmd'
    rw [Option.some.inj hmd', unmarkAll_unmarkAll]
  | retrieved _ _ _ _ => exact hsame rfl
  | marked hstate hmd htarget =>
    refine hextend _ hstate rfl fun md' hmd' => ⟨rfl, ?_⟩
    rw [hmd] at hmd'
    rw [← Option.some.inj hmd', unmarkAll_deleteTarget htarget]
  | configured _ _ _ _ _ _ => exact hsame rfl
  | logSent _ => exact hsame rfl
  | quitMailbox _ _ _ => cases hafter
  | quitPlain _ => cases hafter
  | dangling _ _ _ => exact hsame rfl

theorem Turn.Admissible.outcome (ht : t.Admissible users) (s : Session) :
    ∃ st, Outcome t.env t.shared s (getCommandValue t.command) (argument t.command) st ∧
      (t.exchange s).step = { st with effects := commandLog t.env s t.command :: st.effects } :=
  Exchange.outcome (x := t.exchange s) ht.long ht.fits

theorem step_login (ht : t.Admissible users) (hs : s.Ready) :
    (t.exchange s).step.session.login =
      s.login.after users (getCommandValue t.command) (argument t.command) := by
  obtain ⟨st, hout, hstep⟩ := ht.outcome s
  rw [hstep, ← ht.users_eq]
  exact hout.login_eq hs

theorem step_control (ht : t.Admissible users) (h : SessionInvariant users isManager past s)
    (hquit : getCommandValue t.command ≠ .quit) : (t.exchange s).step.control = .next := by
  obtain ⟨st, hout, hstep⟩ := ht.outcome s
  rw [hstep]
  refine (hout.control_next_iff h.ready).mpr ⟨hquit, fun u hu => ?_⟩
  exact ht.loads (h.configured u (Login.admitted_eq_some.mp hu).2.2.1)

theorem step_logged_admissible (ht : t.Admissible users)
    (h : SessionInvariant users isManager past s)
    (hafter : (t.exchange s).step.session.clientState = .transaction) :
    LoggedInBy (past ++ [t.exchange s]) (t.exchange s).step.session := by
  have hquit : getCommandValue t.command ≠ .quit := by
    intro hq
    have hstate : (t.exchange s).step.session.clientState = _ :=
      congrArg Login.clientState (step_login ht h.ready)
    rw [hq] at hstate
    rw [hstate] at hafter
    cases hafter
  have hnext := step_control ht h hquit
  exact step_logged h.ready h.logged (by simp [hnext]) (by simp [hnext]) hafter

theorem step_configured (ht : t.Admissible users) (h : SessionInvariant users isManager past s) :
    ∀ u, (t.exchange s).step.session.user = some u → u ∈ users.list := by
  intro u hu
  have huser : (t.exchange s).step.session.user = _ :=
    congrArg Login.user (step_login ht h.ready)
  rw [huser] at hu
  unfold Login.after at hu
  split at hu
  · rcases Option.or_eq_some_iff.mp hu with hsel | ⟨-, hsel⟩
    · obtain ⟨a, -, hfind⟩ := Option.bind_eq_some_iff.mp hsel
      exact mem_of_findUser hfind
    · exact h.configured u hsel
  · split at hu <;> exact h.configured u hu
  · exact h.configured u hu
  · exact h.configured u hu

theorem step_invariant (ht : t.Admissible users) (h : SessionInvariant users isManager past s)
    (hnext : (t.exchange s).step.control = .next) :
    SessionInvariant users isManager (past ++ [t.exchange s]) (t.exchange s).step.session := by
  have hlogin := step_login ht h.ready
  have hstate : (t.exchange s).step.session.clientState = _ := congrArg Login.clientState hlogin
  obtain ⟨st, hout, hstep⟩ := ht.outcome s
  have hsession : (t.exchange s).step.session = st.session := by rw [hstep]
  have hcontrol : st.control = .next := by rw [hstep] at hnext; exact hnext
  refine ⟨?_, ?_, step_logged_admissible ht h, ?_, step_configured ht h⟩
  · have hquit := ((hout.control_next_iff h.ready).mp hcontrol).1
    rw [hstate]
    intro hclosing
    unfold Login.after at hclosing
    split at hclosing
    · simp only [Login.dropped] at hclosing
      split at hclosing <;> cases hclosing
    · split at hclosing
      · cases hclosing
      · exact h.live hclosing
    · next hq => exact hquit hq
    · exact h.live hclosing
  · rw [hstate]; exact h.port.after h.live users _ _
  · rw [hsession]; exact hout.ready h.ready hcontrol

theorem step_refused (ht : t.Admissible users) (hs : s.Ready)
    (hmisplaced : (t.exchange s).Misplaced) : (t.exchange s).Refused := by
  obtain ⟨st, hout, hstep⟩ := ht.outcome s
  obtain ⟨response, herr, rfl⟩ := hout.refused_of_misplaced hs hmisplaced
  exact ⟨response, herr, hstep⟩

end Step

theorem dispatch_quit_ne_next {command : Bytes} (h : getCommandValue command = .quit) (env : Env)
    (sh : Shared) (s : Session) : (dispatch env sh s command).control ≠ .next := by
  have h4 : 4 ≤ command.length := length_of_keyword (by simp [h])
  by_cases hfit : command.length ≤ 2 * BUFFER_SIZE
  · obtain ⟨st, hout, hstep⟩ := dispatch_outcome h4 hfit env sh s
    rw [hstep]
    rw [h] at hout
    rcases hout.control_cases with ⟨hq, -⟩ | ⟨-, hc⟩ | hc
    · exact absurd rfl hq
    · simp [hc]
    · simp [hc]
  · rw [dispatch_of_huge (by omega)]; simp

/-- Nothing of a delivery is executed after QUIT, and nothing of it is saved. -/
theorem scan_quit_last {w : LoopState} {saved buff : Bytes} {pre : List Exchange} {x : Exchange}
    {post : List Exchange} (h : (scan w saved [] buff).exchanges = pre ++ x :: post)
    (hquit : getCommandValue x.command = .quit) :
    post = [] ∧ (scan w saved [] buff).client.recvBuffer = [] := by
  have hne := dispatch_quit_ne_next hquit x.env x.shared x.session
  rw [scan_exchanges] at h
  have hstop : ∀ {v : LoopState} {lines : List Bytes} {pre : List Exchange},
      exchanges v lines = pre ++ x :: post → post = [] ∧ ¬ commandMachine.Passes v lines := by
    intro v lines
    induction lines generalizing v with
    | nil => intro pre h; simp [exchanges] at h
    | cons c cs ih =>
      intro pre h
      cases hgo : commandMachine.stop v c with
      | true =>
        rw [exchanges_cons_stop hgo] at h
        refine ⟨?_, fun hp => by simp [hp.1] at hgo⟩
        rcases pre with _ | ⟨y, pre⟩
        · exact (List.cons.inj h).2.symm
        · simp at h
      | false =>
        rw [exchanges_cons_go hgo] at h
        rcases pre with _ | ⟨y, pre⟩
        · obtain ⟨rfl, -⟩ := List.cons.inj h
          exact absurd (stop_eq_false_iff.mp hgo) hne
        · obtain ⟨hpost, hp⟩ := ih (List.cons.inj h).2
          exact ⟨hpost, fun hall => hp hall.2⟩
  obtain ⟨hpost, hp⟩ := hstop h
  exact ⟨hpost, by rw [scan_of_halts buff hp]⟩

/-- What every exchange of a session accepted on a port satisfies. -/
structure Privileges (isManager : Bool) (past : List Exchange) (x : Exchange) : Prop where
  port_before : PortState isManager x.session.clientState
  port_after : PortState isManager x.step.session.clientState
  logged_before : x.session.clientState = .transaction → LoggedInBy past x.session
  logged_after : x.step.session.clientState = .transaction →
    LoggedInBy (past ++ [x]) x.step.session
  refused : x.Misplaced → x.Refused

/-- **The privileges of a session, over all its runs; and QUIT ends a delivery.** -/
theorem session_privileges {users : UserListHeader} {turns : List Turn}
    (hturns : ∀ t ∈ turns, t.Admissible users) (fd : Int) (isManager : Bool) (ip : Bytes)
    (maildir : Option Maildir) :
    Machine.Along (sessionExchanges (newSession fd isManager ip maildir) turns)
      (Privileges isManager) ∧
    (∀ env sh cl recv stale pre x post,
      (handleClient env sh cl recv stale).exchanges = pre ++ x :: post →
      getCommandValue x.command = .quit →
      post = [] ∧ (handleClient env sh cl recv stale).client.recvBuffer = []) := by
  constructor
  · intro pre x post h
    obtain ⟨hinv, t, ht, hx⟩ := sessionExchanges_history
      (R := SessionInvariant users isManager)
      (fun past s t ht hinv hnext => step_invariant (hturns t ht) hinv hnext)
      (newSession_invariant users fd isManager ip maildir) h
    have hadm := hturns t ht
    have hlogin := step_login hadm hinv.ready
    rw [hx] at hinv ⊢
    refine ⟨hinv.port, ?_, hinv.logged, step_logged_admissible hadm hinv, step_refused hadm hinv.ready⟩
    have hstate : (t.exchange x.session).step.session.clientState = _ :=
      congrArg Login.clientState hlogin
    rw [hstate]
    exact hinv.port.after hinv.live users _ _
  · intro env sh cl recv stale pre x post h hquit
    exact scan_quit_last h hquit

/-- A login, a listing and a command that needs privileges. -/
theorem session_privileges_sample :
    Machine.Along (sessionExchanges (newSession 5 false (str "::1") none)
      [⟨sampleEnv, sampleShared, str "USER anna"⟩, ⟨sampleEnv, sampleShared, str "PASS secret"⟩,
        ⟨sampleEnv, sampleShared, str "LIST"⟩, ⟨sampleEnv, sampleShared, str "METR"⟩])
      (Privileges false) := by
  refine (@session_privileges sampleShared.pop3.userList _ ?_ 5 false (str "::1") none).1
  intro t ht
  have hopen : ∀ path, sampleEnv.opendir path ≠ none := by
    intro path
    simp only [sampleEnv]
    split
    · simp
    · split <;> simp
  simp only [List.mem_cons, List.not_mem_nil, or_false] at ht
  rcases ht with rfl | rfl | rfl | rfl <;>
    exact ⟨rfl, fun _ _ _ => hopen _, by decide, by decide⟩

end Pop3Server
