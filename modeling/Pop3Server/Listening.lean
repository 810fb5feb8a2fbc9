import Pop3Server.IntSums
import Pop3Server.Login

/-!
# Changing the listening address

`openListener_eq` is what `update_server_address` comes to once the address has
been changed in place: a listener on it when every call succeeds, and otherwise
the old socket behind the changed address and a descriptor of -1.  PORT and IPV6
have answered by then, so that only a change that goes through is reported
truthfully (`listener_update_iff`).
-/

namespace Pop3Server

/-- The calls by which a socket comes to listen on an address all succeed. -/
structure Opens (net : NetworkCalls) (addr : SockAddr) (fd : Int) : Prop where
  socket : net.socket = some fd
  reuseaddr : net.setReuseaddr = true
  v6only : net.setV6only = true
  bind : net.bind addr = true
  listen : net.listen = true

/-- The address a command asks for, when its argument is one: the component it names is replaced
and the other one kept.  A port is asked for by its numeral, whatever `atoi` makes of other texts. -/
def requestedAddr (net : NetworkCalls) (current : SockAddr) (comm : Pop3Command) (tail : Bytes) :
    Option SockAddr :=
  match comm with
  | .port =>
    let port := digitsValue 0 tail
    if IsNumeral tail port ∧ 1 ≤ port ∧ port ≤ 65535 then some { current with port := port }
    else none
  | .ipv6 => (net.inetPton tail).map fun addr => { current with addr := addr }
  | _ => none

/-- The change that is asked for can be made. -/
def Grantable (net : NetworkCalls) (current : SockAddr) (comm : Pop3Command) (tail : Bytes) :
    Prop :=
  ∃ addr fd, requestedAddr net current comm tail = some addr ∧ Opens net addr fd

/-- The change is made and reported, or refused with everything as it was, the sockets too. -/
def AllOrNothing (net : NetworkCalls) (sh : Shared) (comm : Pop3Command) (tail : Bytes)
    (st : Step) : Prop :=
  (∃ status addr fd, st.sends = [status] ∧ str "+OK" <+: status ∧
    requestedAddr net sh.listener.serverAddr comm tail = some addr ∧ Opens net addr fd ∧
    st.shared = { sh with listener := ⟨fd, addr, fd⟩ }) ∨
  (∃ status, st.sends = [status] ∧ IsErr status ∧ st.shared = sh ∧
    ∀ fd, Effect.close fd ∉ st.effects)

/-! ### The update -/

theorem openListener_eq (net : NetworkCalls) (l : Listener) :
    (∃ fd, Opens net l.serverAddr fd ∧
      openListener net l = ({ l with serverSocket := fd }, [l.serverSocket], fd)) ∨
    ((∀ fd, ¬ Opens net l.serverAddr fd) ∧ ∃ closed, openListener net l = (l, closed, -1)) := by
  unfold openListener
  cases hsocket : net.socket with
  | none =>
    refine .inr ⟨fun fd h => ?_, [], rfl⟩
    cases hsocket.symm.trans h.socket
  | some fd =>
    simp only
    split
    · next hfail => exact .inr ⟨fun fd h => Bool.noConfusion (hfail.symm.trans h.reuseaddr), _, rfl⟩
    split
    · next hfail => exact .inr ⟨fun fd h => Bool.noConfusion (hfail.symm.trans h.v6only), _, rfl⟩
    split
    · next hfail => exact .inr ⟨fun fd h => Bool.noConfusion (hfail.symm.trans h.bind), _, rfl⟩
    split
    · next hfail => exact .inr ⟨fun fd h => Bool.noConfusion (hfail.symm.trans h.listen), _, rfl⟩
    · next hreuseaddr hv6only hbind hlisten =>
      simp only [Bool.not_eq_false] at hreuseaddr hv6only hbind hlisten
      exact .inl ⟨fd, ⟨hsocket, hreuseaddr, hv6only, hbind, hlisten⟩, rfl⟩

theorem Opens.unique {net : NetworkCalls} {addr addr' : SockAddr} {fd fd' : Int}
    (h : Opens net addr fd) (h' : Opens net addr' fd') : fd = fd' :=
  Option.some.inj (h.socket.symm.trans h'.socket)

/-- What an accepted request leaves: the listener on the new address. -/
theorem storeServerFd_openListener {net : NetworkCalls} {addr : SockAddr} {fd : Int}
    (h : Opens net addr fd) (l : Listener) :
    storeServerFd (openListener net { l with serverAddr := addr }) = ⟨fd, addr, fd⟩ := by
  rcases openListener_eq net { l with serverAddr := addr } with ⟨fd', hopens, heq⟩ | ⟨hno, -⟩
  · rw [heq, h.unique hopens]
    rfl
  · exact absurd h (hno fd)

/-- The numeral of a port is read as that port. -/
theorem atoi_of_port {tail : Bytes} {port : Nat} (h : IsNumeral tail port) (hport : port ≤ 65535) :
    atoi tail = port := by
  have hfits : FitsInt (min (2 ^ 63 - 1) (port : Int)) := by
    unfold FitsInt
    omega
  rw [atoi_of_numeral h, int32_of_fits hfits]
  omega

/-- PORT and IPV6 as they are sent by a manager. -/
def addressCommand (env : Env) (sh : Shared) (s : Session) (comm : Pop3Command) (tail : Bytes) :
    Step :=
  if comm = .port then updateAddress env sh s none (atoi tail)
  else updateAddress env sh s (some tail) 0

theorem updateAddress_sends (env : Env) (sh : Shared) (s : Session) (ip : Option Bytes)
    (port : Int) : (updateAddress env sh s ip port).sends = [str "+OK\r\n"] := by
  have hcloses : ∀ fds : List Int, (fds.map Effect.close).filterMap Effect.sent? = [] := by
    intro fds
    induction fds with
    | nil => rfl
    | cons fd fds ih => exact ih
  simp only [Step.sends, updateAddress]
  exact congrArg (List.cons _) (hcloses _)

/-- A change that is asked for and goes through. -/
theorem addressCommand_shared {env : Env} {sh : Shared} {comm : Pop3Command} {tail : Bytes}
    {addr : SockAddr} {fd : Int}
    (haddr : requestedAddr env.net sh.listener.serverAddr comm tail = some addr)
    (hopens : Opens env.net addr fd) (s : Session) :
    (addressCommand env sh s comm tail).shared = { sh with listener := ⟨fd, addr, fd⟩ } := by
  unfold requestedAddr at haddr
  unfold addressCommand
  split at haddr
  · simp only at haddr
    split at haddr
    · next hrange =>
      obtain rfl := Option.some.inj haddr
      obtain ⟨hnumeral, hlow, hhigh⟩ := hrange
      have hpos : atoi tail > 0 := by rw [atoi_of_port hnumeral hhigh]; omega
      have hport : (atoi tail).toNat % 2 ^ 16 = digitsValue 0 tail := by
        rw [atoi_of_port hnumeral hhigh]; omega
      rw [if_pos rfl, updateAddress, updateServerAddress]
      simp only [if_pos hpos, hport]
      rw [storeServerFd_openListener hopens sh.listener]
    · cases haddr
  · obtain ⟨bytes, hbytes, rfl⟩ := Option.map_eq_some_iff.mp haddr
    rw [if_neg (by decide), updateAddress, updateServerAddress]
    simp only [if_pos, hbytes]
    rw [storeServerFd_openListener hopens sh.listener]
  · cases haddr

/-! ### All or nothing -/

theorem dispatch_address {command : Bytes} (hfit : command.length ≤ 2 * BUFFER_SIZE)
    (hcomm : getCommandValue command = .port ∨ getCommandValue command = .ipv6) (env : Env)
    (sh : Shared) (s : Session) :
    dispatch env sh s command =
      let step := managerOnly sh s
        (addressCommand env sh s (getCommandValue command) (cstr (command.drop 5)))
      { step with effects := commandLog env s command :: step.effects } := by
  have hkeyword : getCommandValue command ≠ .errorCommand := by
    rcases hcomm with h | h <;> rw [h] <;> decide
  rw [dispatch_of_long (length_of_keyword hkeyword) hfit env sh s]
  rcases hcomm with h | h <;> rw [h] <;> rfl

/-- **PORT and IPV6 change the listener and say so, or leave it and say so, exactly when the line
fits the buffer of `handle_client` and the session may not use them or the change that is asked for
can be made.** -/
theorem listener_update_iff (env : Env) (sh : Shared) (s : Session) {command : Bytes}
    (hcomm : getCommandValue command = .port ∨ getCommandValue command = .ipv6) :
    AllOrNothing env.net sh (getCommandValue command) (cstr (command.drop 5))
        (dispatch env sh s command) ↔
      command.length ≤ 2 * BUFFER_SIZE ∧ (s.clientState ≠ .manager ∨
        Grantable env.net sh.listener.serverAddr (getCommandValue command)
          (cstr (command.drop 5))) := by
  by_cases hfit : command.length ≤ 2 * BUFFER_SIZE
  case neg =>
    -- the process ends without a reply
    rw [dispatch_of_huge (Nat.lt_of_not_le hfit)]
    refine iff_of_false ?_ fun h => hfit h.1
    rintro (⟨status, -, -, hsends, -⟩ | ⟨status, hsends, -⟩) <;> cases hsends
  rw [and_iff_right hfit, dispatch_address hfit hcomm env sh s]
  unfold managerOnly
  by_cases hmanager : s.clientState = .manager
  · have hsends : (addressCommand env sh s (getCommandValue command)
        (cstr (command.drop 5))).sends = [str "+OK\r\n"] := by
      unfold addressCommand
      split <;> exact updateAddress_sends env sh s _ _
    rw [if_neg (not_not_intro hmanager)]
    constructor
    · rintro (⟨status, addr, fd, -, -, haddr, hopens, -⟩ | ⟨status, hstatus, herr, -⟩)
      · exact .inr ⟨addr, fd, haddr, hopens⟩
      · -- the reply is never an error
        obtain rfl := (List.cons.inj (hsends.symm.trans hstatus)).1
        exact absurd herr (by decide)
    · rintro (hno | ⟨addr, fd, haddr, hopens⟩)
      · exact absurd hmanager hno
      · exact .inl ⟨_, addr, fd, hsends, by decide, haddr, hopens,
          addressCommand_shared haddr hopens s⟩
  · rw [if_pos hmanager]
    refine iff_of_true (.inr ⟨_, rfl, by decide, rfl, fun fd => ?_⟩) (.inl hmanager)
    simp [commandLog, logConnection, reply]

def sampleManager : Session := newSession 6 true (str "::1") none

/-- The sample environment, where a socket can be opened and bound to any port from 1024 on. -/
def bindingEnv : Env :=
  { sampleEnv with
    net := { sampleEnv.net with socket := some 9, bind := fun addr => decide (1024 ≤ addr.port) } }

theorem listener_update_port :
    AllOrNothing bindingEnv.net sampleShared (getCommandValue (str "PORT 2110"))
      (cstr ((str "PORT 2110").drop 5))
      (dispatch bindingEnv sampleShared sampleManager (str "PORT 2110")) := by
  refine (listener_update_iff bindingEnv sampleShared sampleManager (by decide)).mpr
    ⟨by decide, .inr ⟨⟨2110, []⟩, 9, by decide +kernel, ?_⟩⟩
  constructor <;> decide

/-- A number that wraps around to a port asks for none, and is listened on all the same. -/
example : requestedAddr bindingEnv.net ⟨110, []⟩ .port (str "4294969406") = none ∧
    (dispatch bindingEnv sampleShared sampleManager (str "PORT 4294969406")).shared.listener =
      ⟨9, ⟨2110, []⟩, 9⟩ := by
  decide +kernel

/-- PORT 25 where the port may not be bound: the reply is +OK, the port in `server_addr` is 25 and
nothing is polled for connections any more. -/
theorem listener_update_refused_port :
    ¬ ∀ (env : Env) (sh : Shared) (s : Session) (command : Bytes),
      getCommandValue command = .port ∨ getCommandValue command = .ipv6 →
      AllOrNothing env.net sh (getCommandValue command) (cstr (command.drop 5))
        (dispatch env sh s command) := by
  intro h
  rcases h bindingEnv sampleShared sampleManager (str "PORT 25") (by decide) with
    ⟨status, addr, fd, -, -, haddr, hopens, -⟩ | ⟨status, -, -, hshared, -⟩
  · have hasked : requestedAddr bindingEnv.net sampleShared.listener.serverAddr
        (getCommandValue (str "PORT 25")) (cstr ((str "PORT 25").drop 5)) = some ⟨25, []⟩ := by
      decide +kernel
    obtain rfl := Option.some.inj (hasked.symm.trans haddr)
    exact absurd hopens.bind (by decide)
  · have hafter : (dispatch bindingEnv sampleShared sampleManager (str "PORT 25")).shared.listener =
        ⟨3, ⟨25, []⟩, -1⟩ := by decide +kernel
    rw [hshared] at hafter
    exact absurd hafter (by decide)

end Pop3Server
