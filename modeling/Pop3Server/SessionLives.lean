import Pop3Server.Answers
import Pop3Server.MessageNumbers
import Pop3Server.Service
import Pop3Server.SessionCalls
import Pop3Server.SettingsHistory

/-!
# What the sessions of a run may do

Whatever the other sessions of a run do in between, a line is dispatched on what
the earlier lines of its own session have left (`Server.life_history`).  Over
whole runs of the server this gives: only a connection accepted on the
management port changes what the server is configured with, reads the log or the
metrics, and the mail files a session sends or removes are those of the user
whose password it has given.
-/

namespace Pop3Server

open LTS (thread)

/-! ### Histories -/

/-- The lines of the session `n`. -/
def pastOf (n : Nat) (events : List (Nat × SessionEvent)) : List Exchange :=
  linesOf (thread n events)

/-- What is true of a session as it is set up and is kept by its lines and by a disconnect. -/
structure SessionHistory (R : Bool → List Exchange → Session → Prop) : Prop where
  opened : ∀ fd isManager ip maildir, R isManager [] (newSession fd isManager ip maildir)
  line : ∀ isManager past x, R isManager past x.session → x.step.control = .next →
    R isManager (past ++ [x]) x.step.session
  hangup : ∀ isManager past s, R isManager past s →
    R isManager past { s with clientState := .closing }

/-- What the events of a session so far say of its phase. -/
def Chronicle (R : Bool → List Exchange → Session → Prop) (events : List SessionEvent) :
    Phase → Prop
  | .absent => linesOf events = []
  | .present s true =>
    ∃ fd isManager ip, .opened fd isManager ip ∈ events ∧ R isManager (linesOf events) s
  | .present _ false => True
  | .departed => True

variable {R : Bool → List Exchange → Session → Prop}

/-- **What the lines of a session keep holds throughout its life.** -/
theorem SessionHistory.chronicle (h : SessionHistory R) {events : List SessionEvent} {p : Phase}
    (hrun : life.Run .absent events p) : Chronicle R events p := by
  apply LTS.Run.history (R := Chronicle R) _ (show Chronicle R [] .absent from rfl) hrun
  intro past p a p' hpast hstep
  have hlines : linesOf (past ++ [a]) = linesOf past ++ linesOf [a] := linesOf_append _ _
  cases hstep with
  | opened fd isManager ip maildir =>
    have hnone : linesOf past = [] := hpast
    refine ⟨fd, isManager, ip, List.mem_append_right _ (List.mem_singleton_self _), ?_⟩
    rw [hlines, hnone]
    exact h.opened fd isManager ip maildir
  | line x =>
    obtain ⟨fd, isManager, ip, hopened, hR⟩ := hpast
    cases hcontrol : x.step.control with
    | next =>
      refine ⟨fd, isManager, ip, List.mem_append_left _ hopened, ?_⟩
      rw [hlines]
      exact h.line isManager _ x hR hcontrol
    | returned => trivial
    | fault f => trivial
  | hangup s =>
    obtain ⟨fd, isManager, ip, hopened, hR⟩ := hpast
    refine ⟨fd, isManager, ip, List.mem_append_left _ hopened, ?_⟩
    rw [hlines]
    exact (List.append_nil (linesOf past)).symm ▸ h.hangup isManager _ s hR
  | left s reading hcloses => trivial

/-- **History rule for the sessions of a run of the server.** -/
theorem SessionHistory.along (h : SessionHistory R) (sh : Shared) (managerSocket : Int)
    (os : List Occurrence) {before after : List (Nat × SessionEvent)} {n : Nat} {x : Exchange}
    (hrun : (Server.start sh managerSocket).runEvents os = before ++ (n, .line x) :: after) :
    ∃ fd isManager ip, (n, .opened fd isManager ip) ∈ before ∧
      R isManager (pastOf n before) x.session := by
  obtain ⟨v, hservice, -⟩ := Service.simulates.run (Service.represents_start sh managerSocket) os
  change Service.system.Run _ ((Server.start sh managerSocket).runEvents os) v at hservice
  rw [hrun] at hservice
  obtain ⟨t, t', hbefore, hline, -⟩ := hservice.at
  have hlife := h.chronicle (Service.lives hbefore n)
  have hphase : t.phase n = .present x.session true := by
    cases hline with
    | line _ hphase _ => exact hphase
  rw [hphase] at hlife
  obtain ⟨fd, isManager, ip, hopened, hR⟩ := hlife
  exact ⟨fd, isManager, ip, LTS.mem_thread.mp hopened, hR⟩

/-! ### The management port -/

/-- The line changes what the server is configured with, or is a command of the managers that is
answered by something else than an error. -/
def Exchange.Administers (x : Exchange) : Prop :=
  x.step.shared.pop3 ≠ x.shared.pop3 ∨ x.step.shared.listener ≠ x.shared.listener ∨
    (getCommandValue x.command).needsManager ∧ ∃ response ∈ x.step.sends, ¬ IsErr response

theorem Outcome.manager_of_answer {env : Env} {sh : Shared} {s : Session} {comm : Pop3Command}
    {arg : Option Bytes} {st : Step} (h : Outcome env sh s comm arg st) (hs : s.Ready)
    (hcomm : comm.needsManager) {response : Bytes} (hmem : .send response ∈ st.effects)
    (hanswer : ¬ IsErr response) : s.clientState = .manager := by
  cases h with
  | refused _ _ herr =>
    obtain rfl : response = _ := Effect.send.inj (List.mem_singleton.mp hmem)
    exact absurd herr hanswer
  | told _ _ _ hmanager => exact hmanager hcomm
  | configured _ hstate _ _ _ _ => exact hstate
  | logSent hstate => exact hstate
  | dangling hstate hnone _ =>
    rcases hnone with hmaildir | huser
    · exact absurd hmaildir (hs.maildir hstate)
    · exact absurd huser (hs.user hstate)
  | _ => cases hcomm

/-- Only a manager administers. -/
theorem Exchange.Administers.manager {x : Exchange} (h : x.Administers) (hs : x.session.Ready) :
    x.session.clientState = .manager := by
  obtain ⟨hpop3, hlistener⟩ := x.step_settings
  rcases h with h | h | ⟨hcomm, response, hmem, hanswer⟩
  · by_contra hstate
    rw [if_neg fun hmanages : x.Manages => hstate hmanages.1] at hpop3
    exact h hpop3
  · by_contra hstate
    rw [if_neg fun hmanages : x.Manages => hstate hmanages.1] at hlistener
    exact h hlistener
  · obtain ⟨e, he, hsent⟩ := List.mem_filterMap.mp hmem
    obtain rfl : e = .send response := by
      cases e with
      | send data => exact congrArg Effect.send (Option.some.inj hsent)
      | _ => cases hsent
    obtain ⟨-, st, hout, heffect⟩ := x.outcome_of_effect he nofun
    exact hout.manager_of_answer hs hcomm heffect hanswer

/-- No line makes a manager of a session that is none. -/
theorem Exchange.manager_of_step {x : Exchange} (hs : x.session.Ready)
    (hnext : x.step.control = .next) (hmanager : x.step.session.clientState = .manager) :
    x.session.clientState = .manager := by
  obtain ⟨st, hout, hstep⟩ := x.outcome_of_dispatched (by simp [hnext])
  have hlogin := congrArg Login.clientState (hout.login_eq hs)
  rw [hstep] at hmanager
  have hafter : (x.session.login.after x.shared.pop3.userList (getCommandValue x.command)
      (argument x.command)).clientState = .manager := hlogin.symm.trans hmanager
  unfold Login.after at hafter
  split at hafter
  · simp only [Login.dropped] at hafter
    split at hafter
    · next hstate => exact hstate
    · cases hafter
  · split at hafter
    · cases hafter
    · exact hafter
  · cases hafter
  · exact hafter

/-- A session is a manager only if the management port has accepted it. -/
theorem managerHistory : SessionHistory fun isManager _ s =>
    s.Ready ∧ (s.clientState = .manager → isManager = true) where
  opened fd isManager ip maildir := by
    have hstate : (newSession fd isManager ip maildir).clientState ≠ .transaction := by
      cases isManager <;> simp [newSession]
    refine ⟨⟨fun h => absurd h hstate, fun h => absurd h hstate⟩, fun h => ?_⟩
    cases isManager with
    | true => rfl
    | false => cases h
  line isManager past x h hnext := by
    obtain ⟨st, hout, hstep⟩ := x.outcome_of_dispatched (by simp [hnext])
    have hcontrol : st.control = .next := by rw [hstep] at hnext; exact hnext
    refine ⟨?_, fun hmanager => h.2 (x.manager_of_step h.1 hnext hmanager)⟩
    rw [hstep]
    exact hout.ready h.1 hcontrol
  hangup _ _ _ _ := ⟨⟨nofun, nofun⟩, nofun⟩

/-- A change of the configuration goes back to a line that makes it. -/
theorem Service.administered {v v' : Service} {events : List (Nat × SessionEvent)}
    (h : Service.system.Run v events v')
    (hchanged : v'.shared.pop3 ≠ v.shared.pop3 ∨ v'.shared.listener ≠ v.shared.listener) :
    ∃ n x, (n, .line x) ∈ events ∧ x.Administers := by
  have hrule := h.history (R := fun past t =>
    (t.shared.pop3 = v.shared.pop3 ∧ t.shared.listener = v.shared.listener) ∨
      ∃ n x, (n, .line x) ∈ past ∧ x.Administers) ?_ (.inl ⟨rfl, rfl⟩)
  · rcases hrule with ⟨hpop3, hlistener⟩ | hfound
    · rcases hchanged with hne | hne
      · exact absurd hpop3 hne
      · exact absurd hlistener hne
    · exact hfound
  intro past t a t' hpast hstep
  rcases hpast with ⟨hpop3, hlistener⟩ | ⟨n, x, hmem, hx⟩
  case inr => exact .inr ⟨n, x, List.mem_append_left _ hmem, hx⟩
  cases hstep with
  | opened _ _ _ => exact .inl ⟨hpop3, hlistener⟩
  | hangup _ _ => exact .inl ⟨hpop3, hlistener⟩
  | left _ _ _ => exact .inl ⟨hpop3, hlistener⟩
  | @line n x _ _ hshared =>
    by_cases hx : x.Administers
    · exact .inr ⟨n, x, List.mem_append_right _ (List.mem_singleton_self _), hx⟩
    · obtain ⟨hp, hl, -⟩ := not_or.mp hx |>.imp_right not_or.mp
      rw [not_not, hshared] at hp hl
      exact .inl ⟨hp.trans hpop3, hl.trans hlistener⟩

/-- A line that administers the server is of a session that the management port has accepted. -/
def SentByManager (before : List (Nat × SessionEvent)) : Nat × SessionEvent → Prop
  | (n, .line x) => x.Administers → ∃ fd ip, (n, .opened fd true ip) ∈ before
  | _ => True

/-- **Only connections accepted on the management port administer the server**, and where a run has
changed the settings or the listening socket, one of them has sent a line that does. -/
theorem Server.administered_by_manager (sh : Shared) (managerSocket : Int) (os : List Occurrence) :
    Machine.Along ((start sh managerSocket).runEvents os) SentByManager ∧
    (serverMachine.Passes (start sh managerSocket) os →
      let sv := serverMachine.final (start sh managerSocket) os
      sv.shared.pop3 ≠ sh.pop3 ∨ sv.shared.listener ≠ sh.listener →
        ∃ n x, (n, .line x) ∈ (start sh managerSocket).runEvents os ∧ x.Administers) := by
  constructor
  · rintro before ⟨n, e⟩ after hrun
    cases e with
    | line x =>
      intro hx
      obtain ⟨fd, isManager, ip, hopened, hready, hmanager⟩ :=
        managerHistory.along sh managerSocket os hrun
      rw [hmanager (hx.manager hready)] at hopened
      exact ⟨fd, ip, hopened⟩
    | _ => trivial
  · intro hpass sv hchanged
    obtain ⟨v, hrun, hfinal⟩ := Service.represented sh managerSocket os
    obtain ⟨r, hrepresents⟩ := hfinal hpass
    apply Service.administered hrun
    rw [hrepresents.shared]
    exact hchanged

/-! ### The mail -/

/-- The marks and the login of a session, whatever port it was accepted on. -/
theorem marksHistory : SessionHistory fun _ => MarksInvariant where
  opened fd isManager ip maildir := .begin fd isManager ip maildir
  line _ past x := marksCallHistory.line past x
  hangup _ past s := marksCallHistory.hangup past s

/-- The file is that of a message in the mailbox of the user the session has logged in as with his
password; `k` is its number, counted from 0. -/
def OwnMail (past : List Exchange) (x : Exchange) (k : Nat) (path : Bytes) : Prop :=
  ∃ u md m, x.session.user = some u ∧ LoggedInBy past x.session ∧ x.session.maildir = some md ∧
    md.messages[k]? = some m ∧ path = m.path x.shared.pop3.baseDir u.name

/-- What a line does to the mail files, given the lines of its session so far: a transfer sends a
file of the session's own mailbox, or the log, to a manager; only QUIT removes files, those of the
messages the session has deleted since its login and its last RSET. -/
structure OwnersMail (past : List Exchange) (x : Exchange) : Prop where
  transfers : ∀ path transformed, .transfer path transformed ∈ x.step.effects →
    (∃ k, OwnMail past x k path) ∨ x.session.clientState = .manager ∧ path = LOGGER_FILE
  removes : ∀ path, .remove path ∈ x.step.effects →
    getCommandValue x.command = .quit ∧ ∃ k ∈ deletedSince past, OwnMail past x k path

theorem MarksInvariant.ownersMail {past : List Exchange} {x : Exchange}
    (h : MarksInvariant past x.session) : OwnersMail past x := by
  constructor
  case transfers =>
    intro path transformed he
    obtain ⟨-, st, hout, hmem⟩ := x.outcome_of_effect he nofun
    rcases hout.effect_cases hmem with ⟨_, hsend⟩ | ⟨_, hclose⟩ | ⟨-, _, hremove⟩ |
      ⟨path', transformed', htransfer, hstarts⟩
    · cases hsend
    · cases hclose
    · cases hremove
    · obtain ⟨rfl, -⟩ := Effect.transfer.inj htransfer
      generalize getCommandValue x.command = comm at hstarts
      generalize argument x.command = arg at hstarts
      cases hstarts with
      | retr hstate hmd hu htarget =>
        obtain ⟨k, hk⟩ := List.getElem?_of_mem (mem_of_viewTarget htarget)
        exact .inl ⟨k, _, _, _, hu, h.logged hstate, hmd, hk, rfl⟩
      | logg hstate => exact .inr ⟨hstate, rfl⟩
  case removes =>
    intro path he
    obtain ⟨hfit, -⟩ := x.outcome_of_effect he nofun
    have hremoved : path ∈ x.step.removes := List.mem_filterMap.mpr ⟨_, he, rfl⟩
    obtain ⟨hquit, hstate⟩ := removes_only_quit x (List.ne_nil_of_mem hremoved)
    obtain ⟨u, md, hu, hmd, hlogged, hremoves⟩ := (h.deletesMarked hfit).quit hquit hstate
    rw [hremoves] at hremoved
    obtain ⟨⟨m, k⟩, hmem, rfl⟩ := List.mem_map.mp hremoved
    obtain ⟨hindex, hdeleted⟩ := List.mem_filter.mp hmem
    refine ⟨hquit, k, of_decide_eq_true hdeleted, u, md, m, hu, hlogged, hmd, ?_, rfl⟩
    exact List.mem_zipIdx_iff_getElem?.mp hindex

def MailOfOwner (before : List (Nat × SessionEvent)) : Nat × SessionEvent → Prop
  | (n, .line x) => OwnersMail (pastOf n before) x
  | _ => True

/-- **The mail of a user is sent and removed only by sessions that have given his password**, in
every run and whatever the other sessions do in between. -/
theorem Server.mail_of_owner (sh : Shared) (managerSocket : Int) (os : List Occurrence) :
    Machine.Along ((start sh managerSocket).runEvents os) MailOfOwner := by
  rintro before ⟨n, e⟩ after hrun
  cases e with
  | line x =>
    obtain ⟨_, _, _, -, hmarks⟩ := marksHistory.along sh managerSocket os hrun
    exact hmarks.ownersMail
  | _ => trivial

end Pop3Server
