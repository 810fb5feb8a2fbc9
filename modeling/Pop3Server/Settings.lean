import Pop3Server.CStrings

/-!
# What the sessions share: configuration, metrics and the listening socket

`pop3_structure` keeps the fields that the dispatcher and its helpers read or
write.  The user list carries the count `client_validation` walks it by together
with the fact that it is the list's length, which is how `parse_args` builds it.
-/

namespace Pop3Server

structure User where
  name : Bytes
  pass : Bytes
deriving DecidableEq, Repr

structure UserListHeader where
  list : List User
  size : Nat
  size_eq : size = list.length
deriving DecidableEq

def UserListHeader.ofList (l : List User) : UserListHeader := ⟨l, l.length, rfl⟩

structure TransformationStructure where
  transBinaryPath : Bytes
  transArgs : Option Bytes
deriving DecidableEq, Repr

structure Pop3Structure where
  userList : UserListHeader
  transEnabled : Bool
  trans : Option TransformationStructure
  baseDir : Bytes
  host : Bytes
  ip : Bytes
deriving DecidableEq

structure Metrics where
  totalMessages : Int
  totalBytes : Int
  totalHistoricConnections : Int
  maxConsecutiveConnections : Int
deriving DecidableEq, Repr

/-- The part of `struct sockaddr_in6` that changes: the port (in host order) and the address. -/
structure SockAddr where
  port : Nat
  addr : Bytes
deriving DecidableEq, Repr

/-- The listening socket of the POP3 port as `main` holds it: `server_socket`, `server_addr` and
the polled descriptor `pollfds[0].fd`. -/
structure Listener where
  serverSocket : Int
  serverAddr : SockAddr
  serverFd : Int
deriving DecidableEq, Repr

structure Shared where
  pop3 : Pop3Structure
  metrics : Metrics
  listener : Listener
deriving DecidableEq

structure NetworkCalls where
  inetPton : Bytes → Option Bytes
  socket : Option Int
  setReuseaddr : Bool
  setV6only : Bool
  bind : SockAddr → Bool
  listen : Bool

/-- The tail of `update_server_address`, once the address has been changed in place: the listener
it leaves, the descriptors it closes and the value it returns. -/
def openListener (net : NetworkCalls) (l : Listener) : Listener × List Int × Int :=
  match net.socket with
  | none => (l, [], -1)
  | some fd =>
    if net.setReuseaddr = false then (l, [fd], -1)
    else if net.setV6only = false then (l, [fd], -1)
    else if net.bind l.serverAddr = false then (l, [fd], -1)
    else if net.listen = false then (l, [fd], -1)
    else ({ l with serverSocket := fd }, [l.serverSocket], fd)

def updateServerAddress (net : NetworkCalls) (l : Listener) (newIp : Option Bytes)
    (newPort : Int) : Listener × List Int × Int :=
  match newIp with
  | none =>
    if newPort > 0 then
      openListener net
        { l with serverAddr := { l.serverAddr with port := newPort.toNat % 2 ^ 16 } }
    else (l, [], -1)
  | some ip =>
    if newPort = 0 then
      match net.inetPton ip with
      | none => (l, [], -1)
      | some addr => openListener net { l with serverAddr := { l.serverAddr with addr := addr } }
    else (l, [], -1)

/-- `*server_fd = update_server_address(...)`: the value returned is stored whatever it is. -/
def storeServerFd (r : Listener × List Int × Int) : Listener := { r.1 with serverFd := r.2.2 }

end Pop3Server
