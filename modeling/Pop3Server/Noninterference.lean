import Pop3Server.SessionCalls
import Pop3Server.SettingsHistory

/-!
# What the answers to a session depend on

Two sessions of the POP3 port that receive the same bytes, call by call, start
from the same saved part of a line, and work with the same users, directory and
mail are answered alike, send the same files and remove the same files
(`no_interference`).  Their descriptors and addresses, the maildir their slots
held before, the counters, the host name, the listening sockets and the log
differ as they like.  The saved part is the one thing of an earlier session that
does reach them, and the local buffer when nothing is received.
-/

namespace Pop3Server

/-- What the client or the mail notices. -/
def Effect.noticed : Effect → Bool
  | .send _ => true
  | .transfer _ _ => true
  | .remove _ => true
  | .log _ => false
  | .close _ => false

def Step.noticed (st : Step) : List Effect := st.effects.filter Effect.noticed

/-- The settings a POP3 session works with are the same. -/
structure Shared.SameView (sh sh' : Shared) : Prop where
  users : sh.pop3.userList = sh'.pop3.userList
  baseDir : sh.pop3.baseDir = sh'.pop3.baseDir
  transEnabled : sh.pop3.transEnabled = sh'.pop3.transEnabled

/-- The sessions differ in their descriptor and address, and in a mailbox that is not open. -/
structure Session.Alike (s s' : Session) : Prop where
  state : s.clientState = s'.clientState
  noManager : s.clientState ≠ .manager
  user : s.user = s'.user
  maildir : s.clientState = .transaction → s.maildir = s'.maildir

structure Step.Alike (st st' : Step) : Prop where
  session : st.control = .next → st.session.Alike st'.session
  control : st.control = st'.control
  noticed : st.noticed = st'.noticed

/-! ### The arms of the switch -/

section Arms

variable {sh sh' : Shared} {s s' : Session}

/-- Nothing comes after the fault. -/
theorem nullPointer_alike (effects : List Effect) :
    (nullPointer sh s effects).Alike (nullPointer sh' s' effects) :=
  ⟨fun hnext => (by cases hnext), rfl, rfl⟩

variable (h : s.Alike s')
include h

theorem reply_alike (response : Bytes) : (reply sh s response).Alike (reply sh' s' response) :=
  ⟨fun _ => h, rfl, rfl⟩

theorem managerOnly_alike {arm arm' : Step} :
    (managerOnly sh s arm).Alike (managerOnly sh' s' arm') := by
  rw [managerOnly, managerOnly, if_pos h.noManager, if_pos (h.state ▸ h.noManager)]
  exact reply_alike h _

theorem loggedIn_alike {arm arm' : Step} (harm : s.clientState = .transaction → arm.Alike arm') :
    (loggedIn sh s arm).Alike (loggedIn sh' s' arm') := by
  unfold loggedIn
  by_cases hstate : s.clientState = .transaction
  · rw [if_neg (not_not_intro hstate), if_neg (not_not_intro (h.state ▸ hstate))]
    exact harm hstate
  · rw [if_pos hstate, if_pos (h.state ▸ hstate)]
    exact reply_alike h _

theorem mailbox_alike (hstate : s.clientState = .transaction) {arm arm' : Maildir → Step}
    (harm : ∀ md, (arm md).Alike (arm' md)) : (mailbox sh s arm).Alike (mailbox sh' s' arm') := by
  unfold mailbox
  rw [← h.maildir hstate]
  cases s.maildir with
  | none => exact nullPointer_alike []
  | some md => exact harm md

theorem numberCommand_alike (arg : Option Bytes) {missing missing' : Step} {act act' : Int → Step}
    (hmissing : s.clientState = .transaction → missing.Alike missing')
    (hact : s.clientState = .transaction → ∀ n, (act n).Alike (act' n)) :
    (numberCommand sh s arg missing act).Alike (numberCommand sh' s' arg missing' act') := by
  refine loggedIn_alike h fun hstate => ?_
  cases arg with
  | none => exact hmissing hstate
  | some number =>
    simp only
    split
    · exact reply_alike h _
    · exact hact hstate _

theorem userState_alike : (userState s).Alike (userState s') := by
  unfold userState
  by_cases hdrops : s.clientState ≠ .authorization ∧ s.clientState ≠ .manager
  · rw [if_pos hdrops, if_pos (h.state ▸ hdrops)]
    exact ⟨rfl, by simp, h.user, fun hstate => by cases hstate⟩
  · rw [if_neg hdrops, if_neg (h.state ▸ hdrops)]
    exact h

theorem userCommand_alike (hview : sh.SameView sh') (arg : Option Bytes) :
    (userCommand sh s arg).Alike (userCommand sh' s' arg) := by
  have hstate := userState_alike h
  cases arg with
  | none => exact reply_alike hstate _
  | some user =>
    rw [userCommand, userCommand, ← hview.users]
    unfold validateClient
    split
    · exact reply_alike hstate _
    · cases findUser sh.pop3.userList.size sh.pop3.userList.list user with
      | none => exact reply_alike hstate _
      | some u =>
        have hfound : Session.Alike { userState s with user := some u }
            { userState s' with user := some u } :=
          ⟨hstate.state, hstate.noManager, rfl, hstate.maildir⟩
        exact reply_alike hfound _

theorem logIn_alike {env env' : Env} (hopendir : env.opendir = env'.opendir)
    (hview : sh.SameView sh') : (logIn env sh s).Alike (logIn env' sh' s') := by
  simp only [logIn, ← h.user, ← hopendir, ← hview.baseDir]
  cases s.user with
  | none => exact nullPointer_alike _
  | some u =>
    simp only
    cases loadUserStructure env.opendir sh.pop3.baseDir u.name with
    | none => exact nullPointer_alike _
    | some md => exact ⟨fun _ => ⟨rfl, by simp, rfl, fun _ => rfl⟩, rfl, rfl⟩

theorem passCommand_alike {env env' : Env} (hopendir : env.opendir = env'.opendir)
    (hview : sh.SameView sh') (arg : Option Bytes) :
    (passCommand env sh s arg).Alike (passCommand env' sh' s' arg) := by
  unfold passCommand
  by_cases hstate : s.clientState = .authorization
  · rw [if_neg (not_not_intro hstate), if_neg (not_not_intro (h.state ▸ hstate))]
    cases arg with
    | none => exact reply_alike h _
    | some pass =>
      have hrefused : validatePassword s pass = validatePassword s' pass := by
        rw [validatePassword, validatePassword, h.user]
      simp only [passReply, ← hrefused]
      split
      · exact reply_alike h _
      · exact logIn_alike h hopendir hview
  · rw [if_pos hstate, if_pos (h.state ▸ hstate)]
    exact reply_alike h _

theorem viewMessage_alike (hview : sh.SameView sh') (md : Maildir) (n : Int) :
    (viewMessage sh s md n).Alike (viewMessage sh' s' md n) := by
  unfold viewMessage
  split
  · next d file _ htarget =>
    rw [← h.user]
    cases s.user with
    | none => exact nullPointer_alike _
    | some u =>
      simp only [← hview.baseDir, ← hview.transEnabled, ← h.state]
      exact ⟨fun _ => h, rfl, rfl⟩
  · exact reply_alike h _

theorem deleteMessage_alike (md : Maildir) (n : Int) :
    (deleteMessage sh s md n).Alike (deleteMessage sh' s' md n) := by
  unfold deleteMessage
  cases deleteTarget md n with
  | none =>
    simp only
    split
    · exact reply_alike h _
    · exact reply_alike h _
  | some target =>
    cases target with
    | none => exact nullPointer_alike []
    | some md' =>
      have hmarked : Session.Alike { s with maildir := some md' } { s' with maildir := some md' } :=
        ⟨h.state, h.noManager, h.user, fun _ => rfl⟩
      exact reply_alike hmarked _

theorem quitCommand_alike (hview : sh.SameView sh') :
    (quitCommand sh s).Alike (quitCommand sh' s') := by
  unfold quitCommand
  by_cases hstate : s.clientState = .transaction
  · simp only [if_pos hstate, if_pos (h.state ▸ hstate), ← h.maildir hstate, ← h.user,
      ← hview.baseDir]
    split
    · refine ⟨fun hnext => (by cases hnext), rfl, ?_⟩
      simp only [Step.noticed, List.filter_append]
      rfl
    · exact nullPointer_alike _
  · simp only [if_neg hstate, if_neg (h.state ▸ hstate)]
    exact ⟨fun hnext => (by cases hnext), rfl, rfl⟩

/-- **Every arm of the switch answers alike.** -/
theorem execute_alike {env env' : Env} (hopendir : env.opendir = env'.opendir)
    (hview : sh.SameView sh') (comm : Pop3Command) (arg : Option Bytes) (tail : Bytes) :
    (execute env sh s comm arg tail).Alike (execute env' sh' s' comm arg tail) := by
  cases comm with
  | user => exact userCommand_alike h hview arg
  | pass => exact passCommand_alike h hopendir hview arg
  | rset =>
    refine loggedIn_alike h fun hstate => mailbox_alike h hstate fun md => ?_
    have hreset : Session.Alike { s with maildir := some (unmarkAll md) }
        { s' with maildir := some (unmarkAll md) } :=
      ⟨h.state, h.noManager, h.user, fun _ => rfl⟩
    exact reply_alike hreset _
  | stat => exact loggedIn_alike h fun hstate => mailbox_alike h hstate fun md => reply_alike h _
  | list =>
    have hlisted : s.clientState = .transaction → ∀ n,
        (listNumber sh s n).Alike (listNumber sh' s' n) :=
      fun hstate n => mailbox_alike h hstate fun md => ⟨fun _ => h, rfl, rfl⟩
    exact numberCommand_alike h arg (fun hstate => hlisted hstate _) hlisted
  | retr =>
    exact numberCommand_alike h arg (fun _ => reply_alike h _) fun hstate n =>
      mailbox_alike h hstate fun md => viewMessage_alike h hview md n
  | dele =>
    exact numberCommand_alike h arg (fun _ => reply_alike h _) fun hstate n =>
      mailbox_alike h hstate fun md => deleteMessage_alike h md n
  | noop => exact reply_alike h _
  | quit => exact quitCommand_alike h hview
  | errorCommand => exact reply_alike h _
  | _ => exact managerOnly_alike h

end Arms

/-! ### Lines -/

theorem Exchange.step_alike {x x' : Exchange} (h : x.session.Alike x'.session)
    (hcommand : x.command = x'.command) (hopendir : x.env.opendir = x'.env.opendir)
    (hview : x.shared.SameView x'.shared) : x.step.Alike x'.step := by
  unfold Exchange.step
  rw [← hcommand]
  by_cases h4 : 4 ≤ x.command.length
  case neg =>
    rw [dispatch_of_short (Nat.lt_of_not_le h4), dispatch_of_short (Nat.lt_of_not_le h4)]
    exact ⟨fun hnext => (by cases hnext), rfl, rfl⟩
  by_cases hfit : x.command.length ≤ 2 * BUFFER_SIZE
  case neg =>
    rw [dispatch_of_huge (Nat.lt_of_not_le hfit), dispatch_of_huge (Nat.lt_of_not_le hfit)]
    exact ⟨fun hnext => (by cases hnext), rfl, rfl⟩
  obtain ⟨hsession, hcontrol, hnoticed⟩ := execute_alike h hopendir hview
    (getCommandValue x.command) (argument x.command) (cstr (x.command.drop 5))
  rw [dispatch_of_long h4 hfit, dispatch_of_long h4 hfit]
  exact ⟨hsession, hcontrol, hnoticed⟩

/-- A session that is no manager leaves the settings as they are. -/
theorem Exchange.step_pop3 {x : Exchange} (h : x.session.clientState ≠ .manager) :
    x.step.shared.pop3 = x.shared.pop3 := by
  rw [x.step_settings.1, if_neg fun hmanages : x.Manages => h hmanages.1]

theorem Exchange.view_step {x x' : Exchange} (h : x.session.Alike x'.session)
    (hview : x.shared.SameView x'.shared) : x.step.shared.SameView x'.step.shared := by
  have hpop3 := x.step_pop3 h.noManager
  have hpop3' := x'.step_pop3 (h.state ▸ h.noManager)
  exact ⟨by rw [hpop3, hpop3', hview.users], by rw [hpop3, hpop3', hview.baseDir],
    by rw [hpop3, hpop3', hview.transEnabled]⟩

/-- The lines are the same, are answered alike, and control goes on alike. -/
structure Exchange.AnsweredAlike (x x' : Exchange) : Prop where
  command : x.command = x'.command
  noticed : x.step.noticed = x'.step.noticed
  control : x.step.control = x'.step.control

/-- The loop stands alike. -/
structure LoopState.Alike (w w' : LoopState) : Prop where
  opendir : ∀ k, (w.env k).opendir = (w'.env k).opendir
  view : w.shared.SameView w'.shared
  session : w.session.Alike w'.session

variable {w w' : LoopState}

/-- **Step lemma.** -/
theorem LoopState.Alike.line (h : w.Alike w') (c : Bytes) :
    (w.exchange c).AnsweredAlike (w'.exchange c) ∧
      commandMachine.stop w c = commandMachine.stop w' c ∧
      (commandMachine.stop w c = false →
        (commandMachine.next w c).Alike (commandMachine.next w' c)) := by
  have hstep := @Exchange.step_alike (w.exchange c) (w'.exchange c) h.session rfl (h.opendir 0)
    h.view
  refine ⟨⟨rfl, hstep.noticed, hstep.control⟩, ?_, fun hgo => ?_⟩
  · simp only [commandMachine, hstep.control]
  · exact ⟨fun k => h.opendir (k + 1), Exchange.view_step h.session h.view,
      hstep.session (stop_eq_false_iff.mp hgo)⟩

/-- **Run lemma.** -/
theorem LoopState.Alike.lines (h : w.Alike w') (lines : List Bytes) :
    List.Forall₂ Exchange.AnsweredAlike (exchanges w lines) (exchanges w' lines) ∧
      (commandMachine.Passes w lines ↔ commandMachine.Passes w' lines) ∧
      (commandMachine.Passes w lines →
        (commandMachine.final w lines).Alike (commandMachine.final w' lines)) := by
  have hrule := commandMachine.unwinding (R := LoopState.Alike) (E := Eq)
    (O := fun y y' => (y.1.exchange y.2).AnsweredAlike (y'.1.exchange y'.2))
    (fun {w w' c c'} hw hc => hc ▸ hw.line c) h (List.forall₂_refl lines)
  refine ⟨?_, hrule.2⟩
  rw [exchanges, exchanges, List.forall₂_map_left_iff, List.forall₂_map_right_iff]
  exact hrule.1

theorem lastControl_alike {xs xs' : List Exchange}
    (h : List.Forall₂ Exchange.AnsweredAlike xs xs') : lastControl xs = lastControl xs' := by
  induction h with
  | nil => rfl
  | cons hx hrest ih =>
    cases hrest with
    | nil => exact hx.control
    | cons _ _ => exact ih

/-! ### Calls -/

/-- Two calls receive the same, and find the same users, directory and mail. -/
structure ClientCall.SeesSame (c c' : ClientCall) : Prop where
  opendir : ∀ k, (c.env k).opendir = (c'.env k).opendir
  view : c.shared.SameView c'.shared
  recv : c.recv = c'.recv
  stale : c.recv.received = false → cstr c.stale = cstr c'.stale

structure ClientData.Alike (cl cl' : ClientData) : Prop where
  session : cl.session.Alike cl'.session
  saved : cl.recvBuffer = cl'.recvBuffer

/-- The calls take up the same lines and answer them alike, and leave the loop alike. -/
structure CallResult.AnsweredAlike (r r' : CallResult) : Prop where
  exchanges : List.Forall₂ Exchange.AnsweredAlike r.exchanges r'.exchanges
  control : r.control = r'.control

/-- The loop over the same bytes. -/
theorem scan_alike (h : w.Alike w') (saved buff : Bytes) :
    (scan w saved [] buff).AnsweredAlike (scan w' saved [] buff) ∧
      ((scan w saved [] buff).control = .next →
        (scan w saved [] buff).client.Alike (scan w' saved [] buff).client) := by
  obtain ⟨hexchanges, hpasses, hfinal⟩ := h.lines (callLines saved buff)
  constructor
  · constructor
    · rw [scan_exchanges, scan_exchanges]
      exact hexchanges
    · rw [scan_control, scan_control]
      exact lastControl_alike hexchanges
  · intro hnext
    have hpass := (scan_control_next_iff w saved buff).mp hnext
    rw [scan_of_passes buff hpass, scan_of_passes buff (hpasses.mp hpass)]
    exact ⟨(hfinal hpass).session, rfl⟩

/-- **Call lemma.** -/
theorem ClientData.Alike.call {cl cl' : ClientData} (h : cl.Alike cl') {c c' : ClientCall}
    (hsees : c.SeesSame c') :
    (c.result cl).AnsweredAlike (c'.result cl') ∧
      ((c.result cl).control = .next → (c.result cl).client.Alike (c'.result cl').client) := by
  have hloop : ∀ {s s' : Session}, s.Alike s' → ∀ buff,
      (scan ⟨c.env, c.shared, s⟩ cl.recvBuffer [] buff).AnsweredAlike
          (scan ⟨c'.env, c'.shared, s'⟩ cl'.recvBuffer [] buff) ∧
        ((scan ⟨c.env, c.shared, s⟩ cl.recvBuffer [] buff).control = .next →
          (scan ⟨c.env, c.shared, s⟩ cl.recvBuffer [] buff).client.Alike
            (scan ⟨c'.env, c'.shared, s'⟩ cl'.recvBuffer [] buff).client) := by
    intro s s' hs buff
    rw [← h.saved]
    exact @scan_alike ⟨c.env, c.shared, s⟩ ⟨c'.env, c'.shared, s'⟩
      ⟨hsees.opendir, hsees.view, hs⟩ cl.recvBuffer buff
  unfold ClientCall.result handleClient
  rw [← hsees.recv]
  have hstale := hsees.stale
  cases hrecv : c.recv with
  | data d => exact hloop h.session (cstr d.bytes)
  | closed =>
    have hclosing : Session.Alike { cl.session with clientState := .closing }
        { cl'.session with clientState := .closing } :=
      ⟨rfl, by simp, h.session.user, nofun⟩
    rw [hrecv] at hstale
    simp only [readSocketBuffer, ← hstale rfl]
    exact hloop hclosing (cstr c.stale)
  | again =>
    rw [hrecv] at hstale
    simp only [readSocketBuffer, ← hstale rfl]
    exact hloop h.session (cstr c.stale)
  | failed =>
    rw [hrecv] at hstale
    simp only [readSocketBuffer, ← hstale rfl]
    exact hloop h.session (cstr c.stale)

/-- What the calls for a session come to, one after the other. -/
def clientResults (cl : ClientData) (calls : List ClientCall) : List CallResult :=
  (clientMachine.trace cl calls).map fun y => y.2.result y.1

/-- **What the answers to a session depend on**: two sessions of the POP3 port that begin with the
same saved part and see the same, call by call, are answered alike, call by call. -/
theorem no_interference {calls calls' : List ClientCall} {saved : Bytes} {fd fd' : Int}
    {ip ip' : Bytes} {maildir maildir' : Option Maildir}
    (hsees : List.Forall₂ ClientCall.SeesSame calls calls') :
    List.Forall₂ CallResult.AnsweredAlike
      (clientResults ⟨newSession fd false ip maildir, saved⟩ calls)
      (clientResults ⟨newSession fd' false ip' maildir', saved⟩ calls') := by
  have hbegin : ClientData.Alike ⟨newSession fd false ip maildir, saved⟩
      ⟨newSession fd' false ip' maildir', saved⟩ :=
    ⟨⟨rfl, by simp [newSession], rfl, nofun⟩, rfl⟩
  have hrule := clientMachine.unwinding (R := ClientData.Alike) (E := ClientCall.SeesSame)
    (O := fun y y' => (y.2.result y.1).AnsweredAlike (y'.2.result y'.1)) ?_ hbegin hsees
  · rw [clientResults, clientResults, List.forall₂_map_left_iff, List.forall₂_map_right_iff]
    exact hrule.1
  intro cl cl' c c' hcl hc
  obtain ⟨hanswered, hclient⟩ := hcl.call hc
  refine ⟨hanswered, ?_, fun hgo => ?_⟩
  · -- where the loop was left alike the states are the same, and the server closes both or none
    by_cases hnext : (c.result cl).control = .next
    · have hnext' : (c'.result cl').control = .next := hanswered.control ▸ hnext
      simp only [clientMachine, hnext, hnext', (hclient hnext).session.state]
    · have hnext' : ¬ (c'.result cl').control = .next := hanswered.control ▸ hnext
      simp only [clientMachine, hnext, hnext', not_false_eq_true, ne_eq, true_or]
  · simp only [clientMachine, decide_eq_false_iff_not, not_or, not_not] at hgo
    exact hclient hgo.1

/-- A call for a server with another name that has served others. -/
def busyCall : ClientCall where
  env _ := { sampleEnv with ctime := str "later" }
  shared :=
    { sampleShared with
      metrics := ⟨7, 700, 7, 2⟩
      pop3 := { sampleShared.pop3 with host := str "other" } }
  recv := markingCall.recv
  stale := str "QUIT"
  inArray := by decide

/-- The same lines, to a server that has just started and to a busy one. -/
theorem no_interference_busy :
    List.Forall₂ CallResult.AnsweredAlike
      (clientResults ⟨newSession 5 false (str "::1") none, []⟩ [markingCall])
      (clientResults ⟨newSession 9 false (str "::2") (some ⟨.ofList [], .ofList [], .ofList []⟩), []⟩
        [busyCall]) :=
  no_interference
    (.cons ⟨fun _ => rfl, ⟨rfl, rfl, rfl⟩, rfl, fun h => absurd h (by decide)⟩ .nil)

end Pop3Server
