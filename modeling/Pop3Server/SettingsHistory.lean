import Pop3Server.Arguments
import Pop3Server.Traffic

/-!
# The settings of a run

A command changes the settings and the listening socket only when a manager
sends it; what it makes of them is `configured` and `readdressed`
(`Exchange.step_settings`).  `settings_along` carries a
relation between the commands so far and the settings through every run of the
server, and `settings_history` is the one all statements about settings use:
the last HOST and the last DIRR count, and nothing changes the address string or
the transformation.
-/

namespace Pop3Server

/-- A manager sends the line, and it fits the buffer of `handle_client`. -/
def Exchange.Manages (x : Exchange) : Prop :=
  x.session.clientState = .manager ∧ x.command.length ≤ 2 * BUFFER_SIZE

instance (x : Exchange) : Decidable x.Manages := inferInstanceAs (Decidable (_ ∧ _))

/-- `command + 5`. -/
def Exchange.tail (x : Exchange) : Bytes := cstr (x.command.drop 5)

/-- What a manager's command makes of the settings. -/
def Pop3Structure.configured (p : Pop3Structure) (comm : Pop3Command) (tail : Bytes) :
    Pop3Structure :=
  match comm with
  | .host => { p with host := tail }
  | .dirr => { p with baseDir := tail }
  | .tran => { p with transEnabled := atoi tail == 1 }
  | _ => p

/-- What a manager's command makes of the listening socket. -/
def Listener.readdressed (l : Listener) (net : NetworkCalls) (comm : Pop3Command) (tail : Bytes) :
    Listener :=
  match comm with
  | .port => storeServerFd (updateServerAddress net l none (atoi tail))
  | .ipv6 => storeServerFd (updateServerAddress net l (some tail) 0)
  | _ => l

/-! ### One command -/

theorem execute_settings (env : Env) (sh : Shared) (s : Session) (comm : Pop3Command)
    (arg : Option Bytes) (tail : Bytes) :
    (execute env sh s comm arg tail).shared.pop3 =
        (if s.clientState = .manager then sh.pop3.configured comm tail else sh.pop3) ∧
      (execute env sh s comm arg tail).shared.listener =
        (if s.clientState = .manager then sh.listener.readdressed env.net comm tail
          else sh.listener) := by
  by_cases hcomm : comm ∈ [.host, .dirr, .tran, .port, .ipv6]
  · simp only [List.mem_cons, List.not_mem_nil, or_false] at hcomm
    rcases hcomm with rfl | rfl | rfl | rfl | rfl <;>
      simp only [execute, hostCommand, dirrCommand, tranCommand, portCommand, ipv6Command,
        managerOnly] <;>
      by_cases hstate : s.clientState = .manager <;>
      simp [hstate, reply, updateAddress, Pop3Structure.configured, Listener.readdressed]
  · have hsame : (execute env sh s comm arg tail).shared.pop3 = sh.pop3 ∧
        (execute env sh s comm arg tail).shared.listener = sh.listener := by
      refine @execute_shared (fun sh' => sh'.pop3 = sh.pop3 ∧ sh'.listener = sh.listener) env sh
        ⟨rfl, rfl⟩ comm (fun _ _ => ⟨rfl, rfl⟩) ?_ ?_ s arg tail
      · intro hpop3
        exact absurd hcomm (not_not_intro (List.mem_append_left [Pop3Command.port, .ipv6] hpop3))
      · intro hlistener
        exact absurd hcomm
          (not_not_intro (List.mem_append_right [Pop3Command.host, .dirr, .tran] hlistener))
    have hpop3 : sh.pop3.configured comm tail = sh.pop3 := by
      cases comm <;> first | rfl | simp at hcomm
    have hlistener : sh.listener.readdressed env.net comm tail = sh.listener := by
      cases comm <;> first | rfl | simp at hcomm
    rw [hsame.1, hsame.2, hpop3, hlistener, ite_self, ite_self]
    exact ⟨rfl, rfl⟩

theorem getCommandValue_of_short {command : Bytes} (h : ¬ 4 ≤ command.length) :
    getCommandValue command = .errorCommand := by
  by_contra hkeyword
  exact h (length_of_keyword hkeyword)

/-- **Spec lemma for the settings and the listening socket.** -/
theorem Exchange.step_settings (x : Exchange) :
    x.step.shared.pop3 =
        (if x.Manages then x.shared.pop3.configured (getCommandValue x.command) x.tail
          else x.shared.pop3) ∧
      x.step.shared.listener =
        (if x.Manages then
          x.shared.listener.readdressed x.env.net (getCommandValue x.command) x.tail
          else x.shared.listener) := by
  by_cases hline : 4 ≤ x.command.length ∧ x.command.length ≤ 2 * BUFFER_SIZE
  · have hexecuted := execute_settings x.env x.shared x.session (getCommandValue x.command)
      (argument x.command) x.tail
    rw [Exchange.step, dispatch_of_long hline.1 hline.2]
    by_cases hstate : x.session.clientState = .manager
    · have hmanages : x.Manages := ⟨hstate, hline.2⟩
      rw [if_pos hstate, if_pos hstate] at hexecuted
      rw [if_pos hmanages, if_pos hmanages]
      exact hexecuted
    · have hmanages : ¬ x.Manages := fun h => hstate h.1
      rw [if_neg hstate, if_neg hstate] at hexecuted
      rw [if_neg hmanages, if_neg hmanages]
      exact hexecuted
  · rw [(Exchange.step_of_malformed hline).2]
    by_cases hmanages : x.Manages
    · rw [getCommandValue_of_short fun h4 => hline ⟨h4, hmanages.2⟩, if_pos hmanages,
        if_pos hmanages]
      exact ⟨rfl, rfl⟩
    · rw [if_neg hmanages, if_neg hmanages]
      exact ⟨rfl, rfl⟩

/-! ### Whole runs -/

section Runs

-- a relation between the commands so far and the settings that every command keeps
variable {R : List Exchange → Pop3Structure → Listener → Prop}
  (hstep : ∀ past x, R past x.shared.pop3 x.shared.listener →
    R (past ++ [x]) x.step.shared.pop3 x.step.shared.listener)
include hstep

theorem call_settings {past : List Exchange} {sv : Server}
    (h : R past sv.shared.pop3 sv.shared.listener) (slot : Nat) (o : Occurrence) :
    Machine.Along (sv.call slot o).exchanges
        (fun pre x => R (past ++ pre) x.shared.pop3 x.shared.listener) ∧
      R (past ++ (sv.call slot o).exchanges) (sv.call slot o).shared.pop3
        (sv.call slot o).shared.listener := by
  unfold Server.call handleClient
  simp only
  rw [scan_exchanges, scan_shared]
  exact @exchanges_history (fun past sh _ => R past sh.pop3 sh.listener) hstep _ past ⟨_, _, _⟩ h

/-- What is accepted and what is closed leaves the settings alone. -/
theorem step_settings {past : List Exchange} {sv : Server}
    (h : R past sv.shared.pop3 sv.shared.listener) (o : Occurrence) :
    Machine.Along (sv.step o).event.exchanges
        (fun pre x => R (past ++ pre) x.shared.pop3 x.shared.listener) ∧
      R (past ++ (sv.step o).event.exchanges) (sv.step o).server.shared.pop3
        (sv.step o).server.shared.listener := by
  have hcase := sv.step_cases o
  have hcall := call_settings hstep h sv.slot o
  have hidle : Machine.Along ([] : List Exchange)
        (fun pre x => R (past ++ pre) x.shared.pop3 x.shared.listener) ∧
      R (past ++ []) sv.shared.pop3 sv.shared.listener :=
    ⟨Machine.along_nil _, by rwa [List.append_nil]⟩
  generalize sv.step o = st at hcase ⊢
  cases hcase with
  | faulted _ _ _ _ => exact hcall
  | stayed _ _ _ _ _ => exact hcall
  | closed _ _ _ _ _ => exact hcall
  | _ => exact hidle

/-- **Run lemma for the settings.** -/
theorem settings_along (os : List Occurrence) {past : List Exchange} {sv : Server}
    (h : R past sv.shared.pop3 sv.shared.listener) :
    Machine.Along (sv.exchanges os) fun pre x =>
      R (past ++ pre) x.shared.pop3 x.shared.listener := by
  induction os generalizing past sv with
  | nil => exact Machine.along_nil _
  | cons o os ih =>
    obtain ⟨halong, hnext⟩ := step_settings hstep h o
    cases hgo : serverMachine.stop sv o with
    | true =>
      rw [Server.exchanges, Machine.trace_cons_stop _ hgo, List.flatMap_singleton]
      exact halong
    | false =>
      rw [Server.exchanges, Machine.trace_cons_go _ hgo, List.flatMap_cons]
      refine Machine.along_append halong ?_
      change Machine.Along ((sv.step o).server.exchanges os) _
      simpa only [List.append_assoc] using ih hnext

end Runs

/-! ### What a run makes of the settings -/

/-- `in6addr_any`. -/
def in6addrAny : Bytes := List.replicate 16 NUL

/-- The server as `main` sets it up with the settings of the command line. -/
def Server.boot (args : Args) (serverSocket managerSocket : Int) : Server :=
  Server.zeroed ⟨args.pop3, ⟨0, 0, 0, 0⟩, ⟨serverSocket, ⟨args.port, in6addrAny⟩, serverSocket⟩⟩
    managerSocket

/-- A manager's command of this kind. -/
def Exchange.Configures (comm : Pop3Command) (x : Exchange) : Prop :=
  x.Manages ∧ getCommandValue x.command = comm

instance (comm : Pop3Command) (x : Exchange) : Decidable (x.Configures comm) :=
  inferInstanceAs (Decidable (_ ∧ _))

/-- The argument of the last command of this kind that was accepted. -/
def lastArgument (comm : Pop3Command) (past : List Exchange) : Option Bytes :=
  ((past.filter fun x => x.Configures comm).getLast?).map Exchange.tail

theorem lastArgument_concat (comm : Pop3Command) (past : List Exchange) (x : Exchange) :
    lastArgument comm (past ++ [x]) =
      if x.Configures comm then some x.tail else lastArgument comm past := by
  unfold lastArgument
  rw [List.filter_append]
  by_cases h : x.Configures comm <;> simp [h]

theorem lastArgument_eq_none {comm : Pop3Command} {past : List Exchange}
    (h : ∀ x ∈ past, ¬ x.Configures comm) : lastArgument comm past = none := by
  have hnone : past.filter (fun x => x.Configures comm) = [] :=
    List.filter_eq_nil_iff.mpr fun x hx => by simpa using h x hx
  rw [lastArgument, hnone]
  rfl

/-- A TRAN that turns the transformation on. -/
def Exchange.EnablesTransformation (x : Exchange) : Prop :=
  x.Configures .tran ∧ atoi x.tail = 1

instance (x : Exchange) : Decidable x.EnablesTransformation :=
  inferInstanceAs (Decidable (_ ∧ _))

/-- The settings after some commands, as far as they follow from those of the command line. -/
structure SettingsAfter (start : Pop3Structure) (past : List Exchange) (p : Pop3Structure) :
    Prop where
  host : p.host = (lastArgument .host past).getD start.host
  baseDir : p.baseDir = (lastArgument .dirr past).getD start.baseDir
  ip : p.ip = start.ip
  trans : p.trans = start.trans
  enabled : p.transEnabled = true →
    start.transEnabled = true ∨ ∃ x ∈ past, x.EnablesTransformation

theorem SettingsAfter.nil (p : Pop3Structure) : SettingsAfter p [] p := ⟨rfl, rfl, rfl, rfl, .inl⟩

/-- **Step lemma for the settings.** -/
theorem SettingsAfter.step {start : Pop3Structure} {past : List Exchange} {x : Exchange}
    (h : SettingsAfter start past x.shared.pop3) :
    SettingsAfter start (past ++ [x]) x.step.shared.pop3 := by
  have hearlier : (start.transEnabled = true ∨ ∃ x ∈ past, x.EnablesTransformation) →
      start.transEnabled = true ∨ ∃ y ∈ past ++ [x], y.EnablesTransformation := by
    rintro (hstart | ⟨y, hy, hyes⟩)
    · exact .inl hstart
    · exact .inr ⟨y, List.mem_append_left _ hy, hyes⟩
  have hkept : ∀ comm, ¬ x.Configures comm →
      lastArgument comm (past ++ [x]) = lastArgument comm past := fun comm hno =>
    (lastArgument_concat comm past x).trans (if_neg hno)
  rw [x.step_settings.1]
  by_cases hmanages : x.Manages
  case neg =>
    have hno : ∀ comm, ¬ x.Configures comm := fun comm hx => hmanages hx.1
    rw [if_neg hmanages]
    exact ⟨by rw [h.host, hkept _ (hno _)], by rw [h.baseDir, hkept _ (hno _)], h.ip, h.trans,
      fun he => hearlier (h.enabled he)⟩
  rw [if_pos hmanages]
  have hnew : ∀ comm, getCommandValue x.command = comm →
      lastArgument comm (past ++ [x]) = some x.tail := fun comm hcomm =>
    (lastArgument_concat comm past x).trans (if_pos ⟨hmanages, hcomm⟩)
  have hother : ∀ comm, getCommandValue x.command ≠ comm →
      lastArgument comm (past ++ [x]) = lastArgument comm past := fun comm hcomm =>
    hkept comm fun hx => hcomm hx.2
  generalize hcomm : getCommandValue x.command = comm at hnew hother
  constructor
  · by_cases hhost : comm = .host
    · rw [hhost, hnew .host hhost]
      rfl
    · rw [hother .host hhost, ← h.host]
      cases comm <;> first | rfl | exact absurd rfl hhost
  · by_cases hdirr : comm = .dirr
    · rw [hdirr, hnew .dirr hdirr]
      rfl
    · rw [hother .dirr hdirr, ← h.baseDir]
      cases comm <;> first | rfl | exact absurd rfl hdirr
  · rw [← h.ip]
    cases comm <;> rfl
  · rw [← h.trans]
    cases comm <;> rfl
  · intro henabled
    by_cases htran : comm = .tran
    · rw [htran] at henabled hcomm
      have hone : atoi x.tail = 1 := by simpa [Pop3Structure.configured] using henabled
      exact .inr ⟨x, List.mem_append_right _ (List.mem_singleton_self x), ⟨hmanages, hcomm⟩, hone⟩
    · have hsame : (x.shared.pop3.configured comm x.tail).transEnabled =
          x.shared.pop3.transEnabled := by
        cases comm <;> first | rfl | exact absurd rfl htran
      exact hearlier (h.enabled (hsame.symm.trans henabled))

/-- **At every command of a run the settings are those of the command line and of the commands so
far.** -/
theorem settings_history (args : Args) (serverSocket managerSocket : Int) (os : List Occurrence) :
    Machine.Along ((Server.boot args serverSocket managerSocket).exchanges os)
      fun past x => SettingsAfter args.pop3 past x.shared.pop3 := by
  have hstart : SettingsAfter args.pop3 []
      (Server.boot args serverSocket managerSocket).shared.pop3 := .nil args.pop3
  exact settings_along (R := fun past p _ => SettingsAfter args.pop3 past p) (fun _ _ h => h.step) os
    hstart

/-- A manager connects and sends some lines. -/
def managing (lines : Delivery) : List Occurrence :=
  (accepting 4 5).map (fun o => { o with ready := fun fd => fd == 4 }) ++ roundOf 4 5 none lines

end Pop3Server
