import Pop3Server.Listening
import Pop3Server.Server

/-!
# Runs of the server

A call of `handle_client` changes of its session neither the socket nor, beyond
what PORT and IPV6 store, the listening socket (`call_cliSocket`,
`call_listener`).  So the first two entries of the poll array stay those of the
listening sockets, and the loop takes no other entry for one of a client
(`Inv.listens`).
-/

namespace Pop3Server

def serverMachine : Machine Server Occurrence where
  next sv o := (sv.step o).server
  stop sv o := (sv.step o).halted

/-! ### What a call leaves alone -/

theorem execute_cliSocket (env : Env) (sh : Shared) (s : Session) (comm : Pop3Command)
    (arg : Option Bytes) (tail : Bytes) :
    (execute env sh s comm arg tail).session.cliSocket = s.cliSocket := by
  have hdropped : (userState s).cliSocket = s.cliSocket := by
    unfold userState
    split <;> rfl
  have hout := execute_outcome env sh s comm arg tail
  generalize execute env sh s comm arg tail = st at hout ⊢
  cases hout with
  | userNotFound _ _ => exact hdropped
  | userFound _ => exact hdropped
  | _ => rfl

/-- The POP3 port is polled on the socket that is listened on, or not at all. -/
def Listener.Polled (l : Listener) : Prop := l.serverFd = l.serverSocket ∨ l.serverFd = -1

theorem storeServerFd_polled (net : NetworkCalls) (l : Listener) (ip : Option Bytes) (port : Int) :
    (storeServerFd (updateServerAddress net l ip port)).Polled := by
  have hopen : ∀ l : Listener, (storeServerFd (openListener net l)).Polled := by
    intro l
    rcases openListener_eq net l with ⟨fd, -, heq⟩ | ⟨-, closed, heq⟩
    · rw [heq]
      exact .inl rfl
    · rw [heq]
      exact .inr rfl
  unfold updateServerAddress
  split
  · split
    · exact hopen _
    · exact .inr rfl
  · split
    · split
      · exact .inr rfl
      · exact hopen _
    · exact .inr rfl

section Shared

variable {P : Shared → Prop}

theorem managerOnly_shared {sh : Shared} (h : P sh) (s : Session) {arm : Step}
    (harm : P arm.shared) : P (managerOnly sh s arm).shared := by
  unfold managerOnly
  split
  · exact h
  · exact harm

theorem loggedIn_shared {sh : Shared} (h : P sh) (s : Session) {arm : Step}
    (harm : P arm.shared) : P (loggedIn sh s arm).shared := by
  unfold loggedIn
  split
  · exact h
  · exact harm

theorem mailbox_shared {sh : Shared} (h : P sh) (s : Session) {arm : Maildir → Step}
    (harm : ∀ md, P (arm md).shared) : P (mailbox sh s arm).shared := by
  unfold mailbox
  split
  · exact h
  · exact harm _

theorem numberCommand_shared {sh : Shared} (h : P sh) (s : Session) (arg : Option Bytes)
    {missing : Step} {act : Int → Step} (hmissing : P missing.shared)
    (hact : ∀ n, P (act n).shared) : P (numberCommand sh s arg missing act).shared := by
  apply loggedIn_shared h
  split
  · exact hmissing
  · split
    · exact h
    · exact hact _

/-- What RETR, the settings and the listening socket are kept in is all that a command changes of
what the sessions share. -/
theorem execute_shared (env : Env) {sh : Shared} (h : P sh) (comm : Pop3Command)
    (hcount : comm = .retr → ∀ f, P { sh with metrics := sh.metrics.count f })
    (hpop3 : comm ∈ [.host, .dirr, .tran] → ∀ pop3, P { sh with pop3 := pop3 })
    (hlistener : comm ∈ [.port, .ipv6] → ∀ ip port, P { sh with
      listener := storeServerFd (updateServerAddress env.net sh.listener ip port) })
    (s : Session) (arg : Option Bytes) (tail : Bytes) :
    P (execute env sh s comm arg tail).shared := by
  cases comm with
  | user =>
    simp only [execute, userCommand, userReply]
    split
    · exact h
    · split <;> exact h
  | pass =>
    simp only [execute, passCommand, passReply, logIn]
    split
    · exact h
    split
    · exact h
    split
    · exact h
    split
    · exact h
    · split <;> exact h
  | rset => exact loggedIn_shared h s (mailbox_shared h s fun _ => h)
  | stat => exact loggedIn_shared h s (mailbox_shared h s fun _ => h)
  | list =>
    exact numberCommand_shared h s arg (mailbox_shared h s fun _ => h)
      fun _ => mailbox_shared h s fun _ => h
  | retr =>
    refine numberCommand_shared h s arg h fun _ => mailbox_shared h s fun _ => ?_
    unfold viewMessage
    split
    · cases s.user <;> exact hcount rfl _
    · exact h
  | dele =>
    refine numberCommand_shared h s arg h fun _ => mailbox_shared h s fun _ => ?_
    unfold deleteMessage
    split
    · split <;> exact h
    · exact h
    · exact h
  | port => exact managerOnly_shared h s (hlistener (by decide) _ _)
  | ipv6 => exact managerOnly_shared h s (hlistener (by decide) _ _)
  | host => exact managerOnly_shared h s (hpop3 (by decide) _)
  | dirr => exact managerOnly_shared h s (hpop3 (by decide) _)
  | tran => exact managerOnly_shared h s (hpop3 (by decide) _)
  | info => exact managerOnly_shared h s h
  | metr => exact managerOnly_shared h s h
  | logg => exact managerOnly_shared h s h
  | quit =>
    simp only [execute, quitCommand]
    split
    · split <;> exact h
    · exact h
  | noop => exact h
  | errorCommand => exact h

end Shared

theorem execute_listener (env : Env) {sh : Shared} (h : sh.listener.Polled) (s : Session)
    (comm : Pop3Command) (arg : Option Bytes) (tail : Bytes) :
    (execute env sh s comm arg tail).shared.listener.Polled :=
  @execute_shared (fun sh => sh.listener.Polled) env sh h comm (fun _ _ => h) (fun _ _ => h)
    (fun _ ip port => storeServerFd_polled env.net sh.listener ip port) s arg tail

theorem dispatch_keeps {P : Session → Shared → Prop}
    (hexecute : ∀ env sh s comm arg tail, P s sh →
      P (execute env sh s comm arg tail).session (execute env sh s comm arg tail).shared)
    (env : Env) {sh : Shared} {s : Session} (h : P s sh) (command : Bytes) :
    P (dispatch env sh s command).session (dispatch env sh s command).shared := by
  by_cases h4 : command.length < 4
  · rw [dispatch_of_short h4]
    exact h
  by_cases hfit : command.length ≤ 2 * BUFFER_SIZE
  · rw [dispatch_of_long (Nat.le_of_not_lt h4) hfit]
    exact hexecute _ _ _ _ _ _ h
  · rw [dispatch_of_huge (Nat.lt_of_not_le hfit)]
    exact h

/-- What every command keeps a call keeps, when the state of the session does not matter. -/
theorem call_keeps {P : Session → Shared → Prop}
    (hexecute : ∀ env sh s comm arg tail, P s sh →
      P (execute env sh s comm arg tail).session (execute env sh s comm arg tail).shared)
    (hstate : ∀ s sh st, P s sh → P { s with clientState := st } sh) {sv : Server} {slot : Nat}
    (h : P (sv.clients slot).session sv.shared) (o : Occurrence) :
    P (sv.call slot o).client.session (sv.call slot o).shared := by
  unfold Server.call handleClient
  simp only
  rw [scan_session, scan_shared]
  apply @Machine.final_preserves _ _ commandMachine fun w => P w.session w.shared
  · intro w command hw
    exact dispatch_keeps hexecute _ hw command
  · exact hstate _ _ _ h

theorem call_cliSocket (sv : Server) (slot : Nat) (o : Occurrence) :
    (sv.call slot o).client.session.cliSocket = (sv.clients slot).session.cliSocket :=
  call_keeps (P := fun s _ => s.cliSocket = (sv.clients slot).session.cliSocket)
    (fun env sh s comm arg tail h => (execute_cliSocket env sh s comm arg tail).trans h)
    (fun _ _ _ h => h) rfl o

theorem call_listener {sv : Server} (h : sv.shared.listener.Polled) (slot : Nat) (o : Occurrence) :
    (sv.call slot o).shared.listener.Polled :=
  @call_keeps (fun _ sh => sh.listener.Polled)
    (fun env _ s comm arg tail h => execute_listener env h s comm arg tail)
    (fun _ _ _ h => h) sv slot h o

/-! ### The poll array -/

namespace Server

theorem pollFd_revents (sv : Server) (i : Nat) : (sv.pollFd i).revents = (sv.pollfds i).revents := by
  unfold pollFd
  split
  · next h => rw [h]
  · rfl

theorem poll_fd (sv : Server) (o : Occurrence) (i : Nat) :
    ((sv.poll o).pollfds i).fd = (sv.pollfds i).fd := by
  unfold poll
  simp only
  split <;> rfl

theorem clearRevents_fd (sv : Server) (i : Nat) :
    (sv.clearRevents.pollfds i).fd = (sv.pollfds i).fd := by
  simp only [clearRevents, Function.update_apply]
  split
  · next hi => rw [hi]
  · rfl

theorem clearRevents_revents (sv : Server) (i : Nat) :
    (sv.clearRevents.pollfds i).revents = if i = sv.index then false else (sv.pollfds i).revents := by
  simp only [clearRevents, Function.update_apply]
  split <;> rfl

theorem joined_fd (sv : Server) (fd : Int) (ip : Bytes) (i : Nat) :
    ((sv.joined fd ip).pollfds i).fd =
      if i = sv.clientCount + 2 then fd else (sv.pollfds i).fd := by
  have hcount : sv.clearRevents.clientCount = sv.clientCount := rfl
  simp only [joined, acceptClient, addClient, Function.update_apply, hcount]
  split
  · rfl
  · exact sv.clearRevents_fd i

/-- The entry of the new client keeps the flag that was left in its place. -/
theorem joined_revents (sv : Server) (fd : Int) (ip : Bytes) (i : Nat) :
    ((sv.joined fd ip).pollfds i).revents =
      if i = sv.index then false else (sv.pollfds i).revents := by
  have hcount : sv.clearRevents.clientCount = sv.clientCount := rfl
  simp only [joined, acceptClient, addClient, Function.update_apply, hcount]
  rw [← sv.clearRevents_revents i]
  split
  · next hi => rw [hi]
  · rfl

/-- The last entry goes where the closed one was, and its place becomes free. -/
theorem departed_fd (sv : Server) (o : Occurrence) (i : Nat) :
    ((sv.departed o).pollfds i).fd =
      if i = sv.clientCount + 1 then -1
      else if i = sv.index then (sv.pollfds (sv.clientCount + 1)).fd else (sv.pollfds i).fd := by
  have hcount : (sv.served o).clientCount = sv.clientCount := rfl
  have hfd : ∀ i, ((sv.served o).pollfds i).fd = (sv.pollfds i).fd := sv.clearRevents_fd
  simp only [departed, handleCloseClient, Function.update_apply, hcount]
  split
  · rfl
  split
  · exact hfd _
  · exact hfd _

/-- The last descriptor moves without its flag. -/
theorem departed_revents (sv : Server) (o : Occurrence) (i : Nat) :
    ((sv.departed o).pollfds i).revents = if i = sv.index then false else (sv.pollfds i).revents := by
  have hserved : ∀ i, ((sv.served o).pollfds i).revents = _ := sv.clearRevents_revents
  simp only [departed, handleCloseClient, Function.update_apply]
  rw [← hserved i]
  split
  · next hlast =>
    rw [hlast]
    split
    · next heq => rw [heq]
    · rfl
  split
  · next hindex => rw [hindex]
  · rfl

/-! ### Invariants of every run -/

/-- What holds of the listening sockets and the number of clients throughout a run. -/
structure Inv (sv : Server) : Prop where
  polled : sv.shared.listener.Polled
  manager : (sv.pollfds 1).fd = sv.managerSocket
  first : sv.index = 0 → (sv.pollfds 0).revents = true →
    sv.shared.listener.serverFd = sv.shared.listener.serverSocket
  room : sv.clientCount ≤ MAX_CLIENTS

theorem inv_start {sh : Shared} (h : sh.listener.serverFd = sh.listener.serverSocket)
    (managerSocket : Int) : (start sh managerSocket).Inv where
  polled := .inl h
  manager := rfl
  first _ _ := h
  room := Nat.zero_le _

/-- The first two entries are those of the listening sockets. -/
theorem Inv.listens {sv : Server} (h : sv.Inv) (hevent : sv.AtEvent) (h2 : sv.index < 2) :
    sv.Listens := by
  rcases Nat.lt_or_ge sv.index 1 with hzero | hone
  · have hindex : sv.index = 0 := Nat.lt_one_iff.mp hzero
    have hrevents := hevent.revents
    rw [hindex] at hrevents
    refine .inl ?_
    rw [hindex]
    exact h.first hindex hrevents
  · have hindex : sv.index = 1 := Nat.le_antisymm (Nat.le_of_lt_succ h2) hone
    refine .inr ?_
    rw [hindex]
    exact h.manager

theorem Inv.next {sv : Server} (h : sv.Inv) (o : Occurrence) : (sv.step o).server.Inv := by
  have hclear : (sv.clearRevents.pollfds 1).fd = sv.managerSocket :=
    (sv.clearRevents_fd 1).trans h.manager
  have hcase := sv.step_cases o
  generalize sv.step o = st at hcase ⊢
  cases hcase with
  | polled _ =>
    refine ⟨h.polled, (sv.poll_fd o 1).trans h.manager, fun _ hrevents => ?_, h.room⟩
    have hready : (decide (0 ≤ (sv.pollFd 0).fd) && o.ready (sv.pollFd 0).fd) = true := hrevents
    have hnonneg : 0 ≤ sv.shared.listener.serverFd :=
      of_decide_eq_true (Bool.and_eq_true_iff.mp hready).1
    refine h.polled.resolve_right fun hminus => ?_
    rw [hminus] at hnonneg
    exact absurd hnonneg (by decide)
  | skipped _ _ => exact ⟨h.polled, h.manager, nofun, h.room⟩
  | unaccepted _ _ _ => exact ⟨h.polled, hclear, nofun, h.room⟩
  | @admitted fd ip _ _ _ hroom =>
    refine ⟨h.polled, ?_, nofun, hroom⟩
    refine (sv.joined_fd fd ip 1).trans ?_
    rw [if_neg (by omega)]
    exact h.manager
  | overflown _ _ _ _ =>
    refine ⟨h.polled, hclear, fun hzero hrevents => ?_, h.room⟩
    have hcleared := sv.clearRevents_revents 0
    rw [if_pos (show 0 = sv.index from Eq.symm hzero)] at hcleared
    cases hcleared.symm.trans hrevents
  | refused _ _ _ _ => exact ⟨h.polled, hclear, nofun, h.room⟩
  | stray hevent hlisten h2 => exact absurd (h.listens hevent h2) hlisten
  | faulted _ _ h2 _ =>
    exact ⟨call_listener h.polled _ o, hclear, fun hzero => absurd (hzero ▸ h2) (by decide), h.room⟩
  | stayed _ _ h2 _ _ => exact ⟨call_listener h.polled _ o, hclear, nofun, h.room⟩
  | closed hevent _ h2 _ _ =>
    have hindex := hevent.index
    refine ⟨call_listener h.polled _ o, ?_, fun hzero => absurd (hzero ▸ h2) (by decide),
      Nat.le_trans (Nat.sub_le _ _) h.room⟩
    refine (sv.departed_fd o 1).trans ?_
    rw [if_neg (by omega), if_neg (by omega)]
    exact h.manager

end Server

/-- Different values and one more that is none of them. -/
theorem distinct_succ {α : Type} {f g : Nat → α} {n : Nat} (hold : ∀ k < n, g k = f k)
    (hdistinct : ∀ k < n, ∀ k' < n, f k = f k' → k = k') (hnew : ∀ k < n, f k ≠ g n) :
    ∀ k < n + 1, ∀ k' < n + 1, g k = g k' → k = k' := by
  intro k hk k' hk' he
  rcases Nat.lt_succ_iff_lt_or_eq.mp hk with hlt | rfl <;>
    rcases Nat.lt_succ_iff_lt_or_eq.mp hk' with hlt' | rfl
  · rw [hold k hlt, hold k' hlt'] at he
    exact hdistinct k hlt k' hlt' he
  · rw [hold k hlt] at he
    exact absurd he (hnew k hlt)
  · rw [hold k' hlt'] at he
    exact absurd he.symm (hnew k' hlt')
  · rfl

/-! ### Rounds to evaluate on -/

/-- `turns` turns of a round in which one descriptor is readable. -/
def roundOf (turns : Nat) (fd : Int) (accepted : Option (Int × Bytes)) (d : Delivery) :
    List Occurrence :=
  List.replicate turns ⟨fun f => f == fd, accepted, .data d, [], fun _ => sampleEnv⟩

def accepting (turns : Nat) (fd : Int) : List Occurrence :=
  roundOf turns sampleShared.listener.serverFd (some (fd, str "::1")) (delivery "?" (by decide))

end Pop3Server
