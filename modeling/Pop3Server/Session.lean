import Pop3Server.Maildir
import Pop3Server.Settings

/-!
# The commands (`server/pop3.c`: the arms of the switch and their helpers)

A command yields a `Step`: the session and the shared structures afterwards, the
effects in the order the code has them, and how control goes on.  The arms of
the switch are defined here on the argument of the line, and `execute` is the
switch over them; `Dispatch` has the switch on the command buffer.

The process ends at a failed assertion and at a null pointer dereference; both
are the control `fault`.  Sends are complete and allocations and forks succeed.
Reads of released nodes and writes past an array are given no meaning here.
-/

namespace Pop3Server

def BUFFER_SIZE : Nat := 1024

def LOGGER_FILE : Bytes := str "connections.log"

/-- `enum client_state`. -/
inductive ClientState where
  | authorization
  | transaction
  | closing
  | manager
  | errorClient
deriving DecidableEq, Repr

/-- `enum pop3_command`. -/
inductive Pop3Command where
  | user | pass | stat | list | retr | dele | noop | rset | info | metr | logg | port | host | dirr
  | tran | ipv6 | quit | errorCommand
deriving DecidableEq, Repr

/-- The fields of `Client_data` that a command can read or write. -/
structure Session where
  cliSocket : Int
  user : Option User
  maildir : Option Maildir
  ip : Bytes
  clientState : ClientState
deriving DecidableEq

/-- The session `add_client` and the accept branch of `main` set up in a slot; the slot keeps the
mailbox pointer it held. -/
def newSession (fd : Int) (isManager : Bool) (ip : Bytes) (maildir : Option Maildir) : Session :=
  { cliSocket := fd, user := none, maildir := maildir, ip := ip,
    clientState := if isManager then .manager else .authorization }

/-- What a command finds outside the process. -/
structure Env where
  opendir : Bytes → Option (List DirEntry)
  ctime : Bytes
  net : NetworkCalls

/-- What a command does outside the structures of the process. -/
inductive Effect where
  /-- `write_socket_buffer` on the client's socket -/
  | send (data : Bytes)
  /-- a line appended to `connections.log` -/
  | log (line : Bytes)
  /-- `send_file_process`: a child sends the file, through the transformation or not -/
  | transfer (path : Bytes) (transformed : Bool)
  | remove (path : Bytes)
  | close (fd : Int)
deriving DecidableEq, Repr

inductive Fault where
  | assertion
  | nullPointer
deriving DecidableEq, Repr

/-- How control leaves a command: back to the loop, out of `handle_client`, or out of the
process. -/
inductive Control where
  | next
  | returned
  | fault (f : Fault)
deriving DecidableEq, Repr

structure Step where
  session : Session
  shared : Shared
  effects : List Effect
  control : Control
deriving DecidableEq

def Effect.sent? : Effect → Option Bytes
  | .send data => some data
  | _ => none

def Effect.removed? : Effect → Option Bytes
  | .remove path => some path
  | _ => none

/-- What a command sends on its client's socket by itself. -/
def Step.sends (st : Step) : List Bytes := st.effects.filterMap Effect.sent?

def Step.removes (st : Step) : List Bytes := st.effects.filterMap Effect.removed?

/-- One write on the client's socket. -/
def reply (sh : Shared) (s : Session) (response : Bytes) : Step :=
  ⟨s, sh, [.send response], .next⟩

def nullPointer (sh : Shared) (s : Session) (effects : List Effect) : Step :=
  ⟨s, sh, effects, .fault .nullPointer⟩

/-- `log_connection` on the log file, which is taken to open: where `fopen` refuses it, the code ends
the process, at any line and at any change of connections. -/
def logConnection (message timestamp ip : Bytes) : Effect :=
  .log (str "(" ++ message ++ str ")->[" ++ timestamp ++ str "] " ++ ip ++ str "\n")

/-! ### Recognising the command -/

structure CommandEntry where
  keyword : Bytes
  command : Pop3Command
  message : Bytes

/-- The comparisons of `get_command_value`, in order, each with the message it logs. -/
def commandTable : List CommandEntry :=
  [⟨str "USER", .user, str "User command"⟩, ⟨str "QUIT", .quit, str "Quit command"⟩,
   ⟨str "PASS", .pass, str "Pass command"⟩, ⟨str "STAT", .stat, str "Stat command"⟩,
   ⟨str "LIST", .list, str "List command"⟩, ⟨str "RETR", .retr, str "Retr command"⟩,
   ⟨str "DELE", .dele, str "Dele command"⟩, ⟨str "NOOP", .noop, str "Noop command"⟩,
   ⟨str "RSET", .rset, str "Rset command"⟩, ⟨str "INFO", .info, str "Info command"⟩,
   ⟨str "METR", .metr, str "Metr command"⟩, ⟨str "LOGG", .logg, str "Logg command"⟩,
   ⟨str "PORT", .port, str "Port command"⟩, ⟨str "HOST", .host, str "Host command"⟩,
   ⟨str "DIRR", .dirr, str "Dirr command"⟩, ⟨str "TRAN", .tran, str "Tran command"⟩,
   ⟨str "IPV6", .ipv6, str "Ipv6 command"⟩]

def commandEntry (command : Bytes) : CommandEntry :=
  (commandTable.find? fun e => strncmpEq command e.keyword).getD
    ⟨[], .errorCommand, str "Error command"⟩

def getCommandValue (command : Bytes) : Pop3Command := (commandEntry command).command

/-! ### Credentials -/

/-- The loop of `client_validation`: `amount` nodes are compared, on as many characters as were
sent. -/
def findUser : Nat → List User → Bytes → Option User
  | amount + 1, aux :: rest, user =>
    if strncmpEq aux.name user then some aux else findUser amount rest user
  | _, _, _ => none

/-- `client_validation` on the argument: whether it fails, and the session it leaves. -/
def validateClient (users : UserListHeader) (s : Session) (user : Bytes) : Bool × Session :=
  if users.size = 0 then (true, s)
  else
    match findUser users.size users.list user with
    | some aux => (false, { s with user := some aux })
    | none => (true, s)

/-- The comparison of `password_validation`: whether it fails. -/
def validatePassword (s : Session) (pass : Bytes) : Bool :=
  match s.user with
  | none => true
  | some u => !(u.pass.length == pass.length && u.pass == pass)

/-! ### Guards shared by the arms -/

/-- The commands of a logged-in session. -/
def loggedIn (sh : Shared) (s : Session) (arm : Step) : Step :=
  if s.clientState ≠ .transaction then reply sh s (str "-ERR You must log in first\r\n") else arm

/-- Following `cli_data->maildir`.  A logged-in session has one, so that the other branch is only
taken by a state no run reaches. -/
def mailbox (sh : Shared) (s : Session) (arm : Maildir → Step) : Step :=
  match s.maildir with
  | none => nullPointer sh s []
  | some md => arm md

def managerOnly (sh : Shared) (s : Session) (arm : Step) : Step :=
  if s.clientState ≠ .manager then reply sh s (str "-ERR You lack privillege\r\n") else arm

/-! ### The arms -/

/-- USER drops a logged-in session back to AUTHORIZATION before it looks at its argument. -/
def userState (s : Session) : Session :=
  if s.clientState ≠ .authorization ∧ s.clientState ≠ .manager then
    { s with clientState := .authorization }
  else s

def userReply (sh : Shared) (r : Bool × Session) : Step :=
  if r.1 then reply sh r.2 (str "-ERR User not found\r\n")
  else reply sh r.2 (str "+OK User accepted, password needed\r\n")

def userCommand (sh : Shared) (s : Session) : Option Bytes → Step
  | none => reply sh (userState s) (str "-ERR Missing username\r\n")
  | some user => userReply sh (validateClient sh.pop3.userList (userState s) user)

/-- An accepted password: the reply and the state come before the mailbox is loaded. -/
def logIn (env : Env) (sh : Shared) (s : Session) : Step :=
  let s := { s with clientState := .transaction }
  let sent := [Effect.send (str "+OK Password accepted\r\n")]
  match s.user with
  | none => nullPointer sh s sent
  | some u =>
    match loadUserStructure env.opendir sh.pop3.baseDir u.name with
    | none => nullPointer sh s sent
    | some md => ⟨{ s with maildir := some md }, sh, sent, .next⟩

def passReply (env : Env) (sh : Shared) (s : Session) (refused : Bool) : Step :=
  if refused then reply sh s (str "-ERR Password incorrect\r\n") else logIn env sh s

def passCommand (env : Env) (sh : Shared) (s : Session) (arg : Option Bytes) : Step :=
  if s.clientState ≠ .authorization then
    reply sh s (str "-ERR You had already logged on\r\n")
  else
    match arg with
    | none => reply sh s (str "-ERR Missing password\r\n")
    | some pass => passReply env sh s (validatePassword s pass)

def rsetCommand (sh : Shared) (s : Session) : Step :=
  loggedIn sh s <| mailbox sh s fun md =>
    reply sh { s with maildir := some (unmarkAll md) } (statHandeler (unmarkAll md))

def statCommand (sh : Shared) (s : Session) : Step :=
  loggedIn sh s <| mailbox sh s fun md => reply sh s (statHandeler md)

/-- `list_messages` answers nothing when it returns -1. -/
def listReply (sh : Shared) (s : Session) (md : Maildir) (n : Int) : Step :=
  ⟨s, sh, (listMessages md n).1.map .send, .next⟩

def argumentError (sh : Shared) (s : Session) : Step :=
  reply sh s (str "-ERR Argument Error \r\n")

def viewMessage (sh : Shared) (s : Session) (md : Maildir) (n : Int) : Step :=
  match viewTarget md n with
  | some (d, file :: _) =>
    let m := sh.metrics
    let sh := { sh with metrics := { m with totalBytes := int32 (m.totalBytes + file.size),
                                            totalMessages := int32 (m.totalMessages + 1) } }
    let sent := Effect.send (str "+OK " ++ formatInt file.size ++ str " octets\r\n")
    match s.user with
    | none => nullPointer sh s [sent]
    | some u =>
      ⟨s, sh, [sent, .transfer (messagePath sh.pop3.baseDir u.name d file.name)
        (sh.pop3.transEnabled && s.clientState == .transaction)], .next⟩
  | _ => reply sh s (str "-ERR Message not found\r\n")

def deleteMessage (sh : Shared) (s : Session) (md : Maildir) (n : Int) : Step :=
  match deleteTarget md n with
  | none =>
    if n < 1 then reply sh s (str "-ERR Invalid message number\r\n")
    else reply sh s (str "-ERR Message not found\r\n")
  | some none => nullPointer sh s []
  | some (some md) =>
    reply sh { s with maildir := some md }
      (str "+OK message " ++ formatInt n ++ str " deleted\r\n")

/-- The shape of LIST, RETR and DELE: what a missing argument does, and what a number does. -/
def numberCommand (sh : Shared) (s : Session) (arg : Option Bytes) (missing : Step)
    (act : Int → Step) : Step :=
  loggedIn sh s
    (match arg with
    | none => missing
    | some number => if atoi number = 0 then argumentError sh s else act (atoi number))

def listNumber (sh : Shared) (s : Session) (n : Int) : Step :=
  mailbox sh s fun md => listReply sh s md n

def viewNumber (sh : Shared) (s : Session) (n : Int) : Step :=
  mailbox sh s fun md => viewMessage sh s md n

def deleteNumber (sh : Shared) (s : Session) (n : Int) : Step :=
  mailbox sh s fun md => deleteMessage sh s md n

def listCommand (sh : Shared) (s : Session) (arg : Option Bytes) : Step :=
  numberCommand sh s arg (listNumber sh s (-1)) (listNumber sh s)

def retrCommand (sh : Shared) (s : Session) (arg : Option Bytes) : Step :=
  numberCommand sh s arg (argumentError sh s) (viewNumber sh s)

def deleCommand (sh : Shared) (s : Session) (arg : Option Bytes) : Step :=
  numberCommand sh s arg (argumentError sh s) (deleteNumber sh s)

def noopCommand (sh : Shared) (s : Session) : Step := reply sh s (str "+OK\r\n")

/-- PORT and IPV6 answer before they try, and store whatever the attempt returns. -/
def updateAddress (env : Env) (sh : Shared) (s : Session) (newIp : Option Bytes)
    (newPort : Int) : Step :=
  let r := updateServerAddress env.net sh.listener newIp newPort
  ⟨s, { sh with listener := storeServerFd r }, .send (str "+OK\r\n") :: r.2.1.map .close, .next⟩

def portCommand (env : Env) (sh : Shared) (s : Session) (tail : Bytes) : Step :=
  managerOnly sh s (updateAddress env sh s none (atoi tail))

def ipv6Command (env : Env) (sh : Shared) (s : Session) (tail : Bytes) : Step :=
  managerOnly sh s (updateAddress env sh s (some tail) 0)

def hostCommand (sh : Shared) (s : Session) (tail : Bytes) : Step :=
  managerOnly sh s (reply { sh with pop3 := { sh.pop3 with host := tail } } s (str "+OK\r\n"))

def dirrCommand (sh : Shared) (s : Session) (tail : Bytes) : Step :=
  managerOnly sh s (reply { sh with pop3 := { sh.pop3 with baseDir := tail } } s (str "+OK\r\n"))

def tranCommand (sh : Shared) (s : Session) (tail : Bytes) : Step :=
  managerOnly sh s
    (reply { sh with pop3 := { sh.pop3 with transEnabled := atoi tail == 1 } } s (str "+OK\r\n"))

def infoCommand (sh : Shared) (s : Session) : Step :=
  managerOnly sh s
    (reply sh s (str "+OK " ++ sh.pop3.host ++ str ";" ++ sh.pop3.baseDir ++ str ";" ++
      sh.pop3.ip ++ str "\r\n"))

def metrCommand (sh : Shared) (s : Session) : Step :=
  managerOnly sh s
    (reply sh s (str "+OK " ++ formatInt sh.metrics.totalMessages ++ str ";" ++
      formatInt sh.metrics.totalBytes ++ str ";" ++
      formatInt sh.metrics.totalHistoricConnections ++ str ";" ++
      formatInt sh.metrics.maxConsecutiveConnections ++ str "\r\n"))

def loggCommand (sh : Shared) (s : Session) : Step :=
  managerOnly sh s
    ⟨s, sh, [.send (str "+OK Log command\r\n"), .transfer LOGGER_FILE
      (sh.pop3.transEnabled && s.clientState == .transaction)], .next⟩

/-- QUIT: `delete_marked` and `destroy_maildir` in TRANSACTION, then the socket is closed and
`handle_client` returns. -/
def quitCommand (sh : Shared) (s : Session) : Step :=
  let goodbye := Effect.send (str "+OK Goodbye\r\n")
  if s.clientState = .transaction then
    match s.maildir, s.user with
    | some md, some u =>
      ⟨{ s with maildir := none, clientState := .closing }, sh,
        goodbye :: (deleteMarkedPaths sh.pop3.baseDir u.name md).map .remove ++
          [.close s.cliSocket], .returned⟩
    | _, _ => nullPointer sh s [goodbye]
  else ⟨{ s with clientState := .closing }, sh, [goodbye, .close s.cliSocket], .returned⟩

def errorCommand (sh : Shared) (s : Session) : Step :=
  reply sh s (str "-ERR Unknown command\r\n")

/-! ### The switch, given the argument of the line -/

/-- The argument of a command line: what follows the keyword and one separator character. -/
def argument (command : Bytes) : Option Bytes :=
  match command.drop 4 with
  | [] => none
  | separator :: rest => if separator = NUL then none else some (cstr rest)

def execute (env : Env) (sh : Shared) (s : Session) (comm : Pop3Command) (arg : Option Bytes)
    (tail : Bytes) : Step :=
  match comm with
  | .user => userCommand sh s arg
  | .pass => passCommand env sh s arg
  | .rset => rsetCommand sh s
  | .stat => statCommand sh s
  | .list => listCommand sh s arg
  | .retr => retrCommand sh s arg
  | .dele => deleCommand sh s arg
  | .noop => noopCommand sh s
  | .port => portCommand env sh s tail
  | .host => hostCommand sh s tail
  | .dirr => dirrCommand sh s tail
  | .tran => tranCommand sh s tail
  | .ipv6 => ipv6Command env sh s tail
  | .info => infoCommand sh s
  | .metr => metrCommand sh s
  | .logg => loggCommand sh s
  | .quit => quitCommand sh s
  | .errorCommand => errorCommand sh s

end Pop3Server
