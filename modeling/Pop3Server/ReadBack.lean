import Pop3Server.Listening
import Pop3Server.StringBounds

/-!
# Reading the settings back

INFO reports `host` and `base_dir` where HOST and DIRR put them, but the address
from a string that only the command line sets: IPV6 changes `server_addr`, and
the wildcard the server starts on is not in the settings at all.  `listening` is
the address of the socket that the server holds (`listening_history`), and
`read_back_iff` says when the string agrees with it.
-/

namespace Pop3Server

/-! ### The listening socket -/

/-- The socket that comes to listen on an address, when every call succeeds. -/
def opened (net : NetworkCalls) (addr : SockAddr) : Option Int :=
  net.socket.filter fun _ =>
    net.setReuseaddr && net.setV6only && net.bind addr && net.listen

/-- What `server_addr` is changed to before the calls are made. -/
def Exchange.askedAddr (x : Exchange) : Option SockAddr :=
  if x.Configures .port then
    if atoi x.tail > 0 then
      some { x.shared.listener.serverAddr with port := (atoi x.tail).toNat % 2 ^ 16 }
    else none
  else if x.Configures .ipv6 then
    (x.env.net.inetPton x.tail).map fun addr => { x.shared.listener.serverAddr with addr := addr }
  else none

/-- The socket and the address a manager's PORT or IPV6 moves the server to. -/
def Exchange.movesTo (x : Exchange) : Option (Int × SockAddr) :=
  x.askedAddr.bind fun addr => (opened x.env.net addr).map fun fd => (fd, addr)

/-- The listening socket after some commands, with the address it was bound to. -/
def listening (start : Int × SockAddr) (past : List Exchange) : Int × SockAddr :=
  ((past.filterMap Exchange.movesTo).getLast?).getD start

/-- The socket that `main` listens on, and its address. -/
def Args.listening (args : Args) (serverSocket : Int) : Int × SockAddr :=
  (serverSocket, ⟨args.port, in6addrAny⟩)

theorem opened_eq_some {net : NetworkCalls} {addr : SockAddr} {fd : Int} :
    opened net addr = some fd ↔ Opens net addr fd := by
  unfold opened
  rw [Option.filter_eq_some_iff]
  simp only [Bool.and_eq_true]
  constructor
  · rintro ⟨hsocket, ⟨⟨hreuseaddr, hv6only⟩, hbind⟩, hlisten⟩
    exact ⟨hsocket, hreuseaddr, hv6only, hbind, hlisten⟩
  · intro h
    exact ⟨h.socket, ⟨⟨h.reuseaddr, h.v6only⟩, h.bind⟩, h.listen⟩

theorem opened_eq_none {net : NetworkCalls} {addr : SockAddr} :
    opened net addr = none ↔ ∀ fd, ¬ Opens net addr fd := by
  rw [Option.eq_none_iff_forall_ne_some]
  exact forall_congr' fun fd => not_congr opened_eq_some

theorem openListener_socket (net : NetworkCalls) (l : Listener) :
    (storeServerFd (openListener net l)).serverSocket =
      (opened net l.serverAddr).getD l.serverSocket := by
  rcases openListener_eq net l with ⟨fd, hopens, heq⟩ | ⟨hno, closed, heq⟩
  · rw [heq, opened_eq_some.mpr hopens]
    rfl
  · rw [heq, opened_eq_none.mpr hno]
    rfl

theorem readdressed_port (net : NetworkCalls) (l : Listener) (tail : Bytes) :
    (l.readdressed net .port tail).serverSocket =
      if atoi tail > 0 then
        (opened net { l.serverAddr with port := (atoi tail).toNat % 2 ^ 16 }).getD l.serverSocket
      else l.serverSocket := by
  change (storeServerFd (updateServerAddress net l none (atoi tail))).serverSocket = _
  rw [updateServerAddress]
  simp only
  split
  · exact openListener_socket net _
  · rfl

theorem readdressed_ipv6 (net : NetworkCalls) (l : Listener) (tail : Bytes) :
    (l.readdressed net .ipv6 tail).serverSocket =
      match net.inetPton tail with
      | some addr => (opened net { l.serverAddr with addr := addr }).getD l.serverSocket
      | none => l.serverSocket := by
  change (storeServerFd (updateServerAddress net l (some tail) 0)).serverSocket = _
  rw [updateServerAddress]
  simp only [if_true]
  cases net.inetPton tail with
  | none => rfl
  | some addr => exact openListener_socket net _

/-- **The server holds the socket it was moved to.** -/
theorem Exchange.step_socket (x : Exchange) :
    x.step.shared.listener.serverSocket =
      (x.movesTo.map Prod.fst).getD x.shared.listener.serverSocket := by
  have hmoves : x.movesTo.map Prod.fst = x.askedAddr.bind fun addr => opened x.env.net addr := by
    unfold Exchange.movesTo
    cases x.askedAddr with
    | none => rfl
    | some addr =>
      simp only [Option.bind_some]
      cases opened x.env.net addr <;> rfl
  rw [x.step_settings.2, hmoves, Exchange.askedAddr]
  by_cases hport : x.Configures .port
  · rw [if_pos hport.1, if_pos hport, hport.2, readdressed_port]
    split <;> rfl
  by_cases hipv6 : x.Configures .ipv6
  · rw [if_pos hipv6.1, if_neg hport, if_pos hipv6, hipv6.2, readdressed_ipv6]
    cases x.env.net.inetPton x.tail <;> rfl
  rw [if_neg hport, if_neg hipv6]
  split
  · next hmanages =>
    cases hcomm : getCommandValue x.command with
    | port => exact absurd ⟨hmanages, hcomm⟩ hport
    | ipv6 => exact absurd ⟨hmanages, hcomm⟩ hipv6
    | _ => rfl
  · rfl

theorem listening_concat (start : Int × SockAddr) (past : List Exchange) (x : Exchange) :
    listening start (past ++ [x]) = x.movesTo.getD (listening start past) := by
  unfold listening
  rw [List.filterMap_append]
  cases hmoves : x.movesTo with
  | none => simp [hmoves]
  | some target => simp [hmoves]

/-- **At every command of a run the server holds the socket of the last move.** -/
theorem listening_history (args : Args) (serverSocket managerSocket : Int) (os : List Occurrence) :
    Machine.Along ((Server.boot args serverSocket managerSocket).exchanges os) fun past x =>
      x.shared.listener.serverSocket =
        (listening (args.listening serverSocket) past).1 := by
  have hstart : (Server.boot args serverSocket managerSocket).shared.listener.serverSocket =
      (listening (args.listening serverSocket) []).1 := rfl
  refine settings_along (R := fun past _ l =>
    l.serverSocket = (listening (args.listening serverSocket) past).1) ?_ os hstart
  intro past x h
  rw [x.step_socket, listening_concat, h]
  cases x.movesTo <;> rfl

/-! ### What INFO reports -/

/-- The argument of the last IPV6 that moved the server. -/
def lastIpv6 (past : List Exchange) : Option Bytes :=
  ((past.filter fun x => x.Configures .ipv6 ∧ x.movesTo.isSome).getLast?).map Exchange.tail

/-- The reply with these fields is complete, and `ip` is the address the server listens on, as the
last successful IPV6 named it. -/
structure Truthful (start : Int × SockAddr) (past : List Exchange) (x : Exchange)
    (host baseDir ip : Bytes) : Prop where
  room : (infoReply host baseDir ip).length < BUFFER_SIZE
  named : ∀ arg ∈ lastIpv6 past, ip = arg
  listening : x.env.net.inetPton ip = some (listening start past).2.addr

/-- INFO reports the settings as they were set last. -/
def ReadsBack (args : Args) (serverSocket : Int) (past : List Exchange) (x : Exchange) : Prop :=
  x.Configures .info → ∃ ip,
    x.step.sends = [infoReply ((lastArgument .host past).getD args.pop3.host)
      ((lastArgument .dirr past).getD args.pop3.baseDir) ip] ∧
    Truthful (args.listening serverSocket) past x ((lastArgument .host past).getD args.pop3.host)
      ((lastArgument .dirr past).getD args.pop3.baseDir) ip

/-- The address of the command line is still that of the server, and the strings leave room for
it. -/
structure AddressStands (args : Args) (serverSocket : Int) (past : List Exchange) (x : Exchange) :
    Prop where
  room : ((lastArgument .host past).getD args.pop3.host).length +
    ((lastArgument .dirr past).getD args.pop3.baseDir).length + args.pop3.ip.length + 9 ≤
      BUFFER_SIZE
  named : ∀ arg ∈ lastIpv6 past, arg = args.pop3.ip
  listening : x.env.net.inetPton args.pop3.ip =
    some (Pop3Server.listening (args.listening serverSocket) past).2.addr

theorem infoReply_inj {host baseDir ip ip' : Bytes}
    (h : infoReply host baseDir ip = infoReply host baseDir ip') : ip = ip' := by
  simp only [infoReply] at h
  exact List.append_cancel_left (List.append_cancel_right h)

theorem truthful_iff {args : Args} {serverSocket : Int} {past : List Exchange} {x : Exchange} :
    Truthful (args.listening serverSocket) past x ((lastArgument .host past).getD args.pop3.host)
        ((lastArgument .dirr past).getD args.pop3.baseDir) args.pop3.ip ↔
      AddressStands args serverSocket past x := by
  constructor
  · intro h
    refine ⟨?_, fun arg harg => (h.named arg harg).symm, h.listening⟩
    rw [← length_infoReply]
    exact h.room
  · intro h
    refine ⟨?_, fun arg harg => (h.named arg harg).symm, h.listening⟩
    have hroom := h.room
    rw [← length_infoReply] at hroom
    exact hroom

/-- One INFO. -/
theorem readsBack_iff {args : Args} {serverSocket : Int} {past : List Exchange} {x : Exchange}
    (h : SettingsAfter args.pop3 past x.shared.pop3) :
    ReadsBack args serverSocket past x ↔
      (x.Configures .info → AddressStands args serverSocket past x) := by
  refine imp_congr_right fun hinfo => ?_
  rw [Exchange.sends_info hinfo, h.host, h.baseDir, h.ip, ← truthful_iff]
  constructor
  · rintro ⟨ip, hsends, htruthful⟩
    rwa [infoReply_inj (List.cons.inj hsends).1]
  · intro htruthful
    exact ⟨args.pop3.ip, rfl, htruthful⟩

/-- **INFO reads back what was set exactly when, each time it is sent, the settings leave room for
the reply and the address of the command line is the one the server listens on**, in the words of
the last successful IPV6. -/
theorem read_back_iff (args : Args) (serverSocket managerSocket : Int) (os : List Occurrence) :
    Machine.Along ((Server.boot args serverSocket managerSocket).exchanges os)
        (ReadsBack args serverSocket) ↔
      Machine.Along ((Server.boot args serverSocket managerSocket).exchanges os) fun past x =>
        x.Configures .info → AddressStands args serverSocket past x := by
  have hhistory := settings_history args serverSocket managerSocket os
  constructor
  · intro h past x post hsplit
    exact (readsBack_iff (hhistory past x post hsplit)).mp (h past x post hsplit)
  · intro h past x post hsplit
    exact (readsBack_iff (hhistory past x post hsplit)).mpr (h past x post hsplit)

/-- The sample environment, where three addresses are known and a socket can be opened. -/
def movingEnv : Env :=
  { sampleEnv with
    net := { sampleEnv.net with
      inetPton := fun ip => [(str "::", in6addrAny), (str "::1", List.replicate 15 NUL ++ [1]),
        (str "::2", List.replicate 15 NUL ++ [2])].lookup ip
      socket := some 9 } }

/-- Another program holds the port of the PORT; when IPV6 is sent it has let go of it. -/
def movedInfo : List Occurrence :=
  (managing (delivery "PORT 2110\r\nIPV6 ::2\r\nINFO\r\n" (by decide))).map fun o =>
    { o with
      env := fun k =>
        if k = 0 then { movingEnv with net := { movingEnv.net with bind := fun _ => false } }
        else movingEnv }

/-- A PORT fails, the server moves to the address `::2`, and INFO still reports `::1`. -/
theorem read_back_moved :
    ¬ ∀ (args : Args) (serverSocket managerSocket : Int) (os : List Occurrence),
      Machine.Along ((Server.boot args serverSocket managerSocket).exchanges os)
        (ReadsBack args serverSocket) := by
  intro h
  have hstale : ∃ x ∈ ((Server.boot defaultArgs 3 4).exchanges movedInfo).getLast?,
      x.Configures .info ∧
        lastIpv6 ((Server.boot defaultArgs 3 4).exchanges movedInfo).dropLast =
          some (str "::2") := by decide +kernel
  obtain ⟨x, hx, hinfo, hlast⟩ := hstale
  have hhistory := Machine.along_getLast (settings_history defaultArgs 3 4 movedInfo) x hx
  have hstands := (readsBack_iff hhistory).mp
    (Machine.along_getLast (h defaultArgs 3 4 movedInfo) x hx) hinfo
  have hnamed := hstands.named _ hlast
  exact absurd hnamed (by decide)

end Pop3Server
