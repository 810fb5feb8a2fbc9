import Mathlib.Data.List.Infix
import Pop3Server.Pieces
import Pop3Server.Server
import Pop3Server.Transfers

/-!
# The management client (`client/main.c`, `client/monitoring_handler.c`)

The client sends a line, takes the reply that belongs to it by its own idea of
the commands, and asks with a NOOP whether the server is still there.  The server
at the other end of the `Link` answers each line in full before the next one; how
much of what it has written a `recv` returns is part of the input.

The process leaves the loop with QUIT, when a command does not fit its array, and
when the NOOP cannot be sent.  It can also wait in a `recv` for ever.  What it
prints is left out.
-/

namespace Pop3Server

/-! ### The server's end -/

def GREETING : Bytes := str "+OK POP3 server ready\r\n"

section Transform

variable (transform : Bytes → Bytes)

/-- What is written on the socket for a run of effects: a file is complete before the next effect. -/
def transcript : Files → List Effect → Bytes
  | _, [] => []
  | fs, .send data :: es => data ++ transcript fs es
  | fs, .log line :: es => transcript (fs.append line) es
  | fs, .transfer path transformed :: es =>
    (if fs.linked path then fs.body transform path transformed ++ terminator else []) ++
      transcript fs es
  | fs, .remove path :: es => transcript (fs.remove path) es
  | fs, .close _ :: es => transcript fs es

/-- The session of the client, and what the server has written and no `recv` has returned. -/
structure Link where
  session : Session
  hungUp : Bool
  unread : Bytes

/-- A command on its way: whether `send` succeeds, how much the calls of `recv` behind it are
offered, and what the server finds when it comes to the command. -/
structure Attempt where
  sent : Bool
  offered : List Nat
  env : Env
  shared : Shared
  files : Files

/-- What the server writes for a command, and the link afterwards. -/
def Link.serve (l : Link) (a : Attempt) (command : Bytes) : Bytes × Link :=
  if l.hungUp then ([], l)
  else
    let w : LoopState := ⟨fun _ => a.env, a.shared, l.session⟩
    let xs := exchanges w (callLines [] command)
    let response := transcript transform a.files (xs.flatMap (·.step.effects))
    (response, ⟨(commandMachine.final w (callLines [] command)).session,
      decide (lastControl xs ≠ .next), l.unread ++ response⟩)

/-! ### Receiving -/

/-- `recv(pop3_socket, buffer, BUFFER_SIZE - 1, 0)`; `none` when it does not return. -/
def Link.recv (l : Link) (offered : Nat) : Option (Bytes × Link) :=
  if l.unread = [] then if l.hungUp then some ([], l) else none
  else
    let n := Pieces.size (BUFFER_SIZE - 1) offered
    some (l.unread.take n, { l with unread := l.unread.drop n })

/-- What `get_command` returns, except for the -1. -/
inductive ClientCommand where
  | config | info | metr | logg
deriving DecidableEq

def getCommand (command : Bytes) : Option ClientCommand :=
  if strncmpEq command (str "PORT") || strncmpEq command (str "HOST") ||
      strncmpEq command (str "DIRR") || strncmpEq command (str "TRAN") ||
      strncmpEq command (str "IPV6") then some .config
  else if strncmpEq command (str "INFO") then some .info
  else if strncmpEq command (str "METR") then some .metr
  else if strncmpEq command (str "LOGG") then some .logg
  else none

/-- `strstr(response_buffer, ".\r\n") != NULL`. -/
def hasLogEnd (bytes : Bytes) : Bool := decide (str ".\r\n" <:+: cstr bytes)

/-- `returned` is the value of `recv_response`, which there is none of when a `recv` in it does not
return. -/
structure Received where
  link : Link
  consumed : Bytes
  returned : Option Int

/-- The loop of LOGG: a turn takes at least one byte, so that one turn more than there are bytes is
enough. -/
def recvLog : Nat → List Nat → Link → Received
  | 0, _, l => ⟨l, [], none⟩
  | turns + 1, offered, l =>
    match l.recv (offered.headD (BUFFER_SIZE - 1)) with
    | none => ⟨l, [], none⟩
    | some (bytes, l) =>
      if bytes = [] then ⟨l, [], some 0⟩
      else if hasLogEnd bytes then ⟨l, bytes, some 0⟩
      else
        let r := recvLog turns offered.tail l
        { r with consumed := bytes ++ r.consumed }

def recvResponse (l : Link) (offered : List Nat) (command : Bytes) : Received :=
  match getCommand command with
  | none => ⟨l, [], some 1⟩
  | some .logg => recvLog (l.unread.length + 1) offered l
  | some _ =>
    match l.recv (offered.headD (BUFFER_SIZE - 1)) with
    | none => ⟨l, [], none⟩
    | some (bytes, l) => ⟨l, bytes, some (if strncmpEq bytes (str "+OK") then 0 else 1)⟩

/-! ### The loop of `main` -/

/-- `connection_status`, and whether the client waits in a `recv` that does not return. -/
inductive Status where
  | online | offline | blocked
deriving DecidableEq

structure Client where
  link : Link
  status : Status

/-- A command that was sent, the server's response to it, and the bytes consumed for it. -/
structure Receipt where
  command : Bytes
  response : Bytes
  consumed : Bytes
  returned : Bool

def NOOP_CMD : Bytes := str "NOOP\r\n"

def verifyServerStatus (cl : Client) (a : Attempt) : List Receipt × Client :=
  if a.sent then
    let served := cl.link.serve transform a NOOP_CMD
    match served.2.recv (a.offered.headD (BUFFER_SIZE - 1)) with
    | none => ([⟨NOOP_CMD, served.1, [], false⟩], ⟨served.2, .blocked⟩)
    | some (bytes, l) => ([⟨NOOP_CMD, served.1, bytes, true⟩], ⟨l, .online⟩)
  else ([], ⟨cl.link, .offline⟩)

/-- A line as it is typed, without the newline, of at least four characters. -/
structure TypedLine where
  text : Bytes
  plain : ∀ b ∈ text, b ≠ LF ∧ b ≠ NUL
  long : 4 ≤ text.length

/-- The string `CMD`: what `fgets` stores of the line, with CR and LF for its last character; `none`
when that writes outside of the array. -/
def readCommand (text : Bytes) : Option Bytes :=
  let CMD := cstr ((text ++ [LF]).take (BUFFER_SIZE - 1))
  if 0 < CMD.length ∧ CMD.length + 1 < BUFFER_SIZE then
    some (CMD.take (CMD.length - 1) ++ [CR, LF])
  else none

structure Prompt where
  line : TypedLine
  command : Attempt
  probe : Attempt

structure ClientStep where
  receipts : List Receipt
  client : Client
  stops : Bool

def ClientStep.ofProbe (receipts : List Receipt) (v : List Receipt × Client) : ClientStep :=
  ⟨receipts ++ v.1, v.2, v.2.status ≠ .online⟩

/-- `send_command`, `recv_response` and `verify_server_status`, as `main` calls them. -/
def Client.exchange (cl : Client) (p : Prompt) (command : Bytes) : ClientStep :=
  if p.command.sent then
    let served := cl.link.serve transform p.command command
    let r := recvResponse served.2 p.command.offered command
    let receipt : Receipt := ⟨command, served.1, r.consumed, r.returned.isSome⟩
    match r.returned with
    | none => ⟨[receipt], ⟨r.link, .blocked⟩, true⟩
    | some _ => .ofProbe [receipt] (verifyServerStatus transform ⟨r.link, cl.status⟩ p.probe)
  else .ofProbe [] (verifyServerStatus transform ⟨cl.link, .offline⟩ p.probe)

/-- A turn of the loop.  After QUIT, which the server is sent when it can be, the socket is closed:
its reply is not received. -/
def Client.turn (cl : Client) (p : Prompt) : ClientStep :=
  match readCommand p.line.text with
  | none => ⟨[], cl, true⟩
  | some command =>
    if strncmpEq command (str "QUIT") then ⟨[], cl, true⟩ else cl.exchange transform p command

def mainMachine : Machine Client Prompt where
  next cl p := (cl.turn transform p).client
  stop cl p := (cl.turn transform p).stops

def mainReceipts (cl : Client) (prompts : List Prompt) : List Receipt :=
  ((mainMachine transform).trace cl prompts).flatMap fun x => (x.1.turn transform x.2).receipts

/-- The client once `recv_initial_response` has returned, being offered so much of the greeting. -/
def connected (s : Session) (offered : Nat) : Client :=
  ⟨⟨s, false, GREETING.drop (Pieces.size (BUFFER_SIZE - 1) offered)⟩, .online⟩

/-- The commands of a run of `main`: the first NOOP, and those of the loop if it is entered. -/
def clientReceipts (s : Session) (offered : Nat) (probe : Attempt) (prompts : List Prompt) :
    List Receipt :=
  let v := verifyServerStatus transform (connected s offered) probe
  v.1 ++ if v.2.status = .online then mainReceipts transform v.2 prompts else []

/-! ### Where a link begins -/

/-- A connection the server accepts begins with a new session and the greeting. -/
theorem Server.opened_greets {sv : Server} {o : Occurrence} {slot : Nat}
    (h : (sv.step o).event = .opened slot) :
    ∃ fd isManager ip maildir,
      ((sv.step o).server.clients slot).session = newSession fd isManager ip maildir ∧
        (fd, Effect.send GREETING) ∈ (sv.step o).effects := by
  have hcase := sv.step_cases o
  generalize sv.step o = st at h hcase ⊢
  cases hcase with
  | @admitted fd ip hevent hlisten hsome hroom =>
    cases h
    refine ⟨fd, (sv.pollFd sv.index).fd == sv.managerSocket, ip,
      (sv.clients sv.clientCount).session.maildir, ?_, List.mem_cons_self⟩
    exact congrArg ClientData.session (Function.update_self sv.clientCount _ sv.clients)
  | _ => cases h

/-! ### The transcript and the responses of `Transfers` -/

theorem responses_sends (fs : Files) (pieces : List Bytes) (acts : List Act) :
    responses transform fs (pieces.map .send ++ acts) =
      (responses transform fs acts).map (pieces.flatten ++ ·) := by
  induction pieces with
  | nil => simp
  | cons piece pieces ih =>
    rw [List.map_cons, List.cons_append, responses, ih, Option.map_map, List.flatten_cons]
    congr 1
    funext rest
    exact (List.append_assoc piece pieces.flatten rest).symm

/-- The transcript is made of the complete responses, where there are any. -/
theorem transcript_of_responses {fs : Files} {es : List Effect} {all : Bytes}
    (h : responses transform fs (es.flatMap Effect.acts) = some all) :
    transcript transform fs es = all := by
  induction es generalizing fs all with
  | nil => exact Option.some.inj h
  | cons e es ih =>
    rw [List.flatMap_cons] at h
    cases e with
    | send data =>
      rw [Effect.acts, responses_sends, (writeSocketBuffer_nil data).1] at h
      obtain ⟨rest, hrest, rfl⟩ := Option.map_eq_some_iff.mp h
      rw [transcript, ih hrest]
    | log line => exact ih h
    | transfer path transformed =>
      rw [Effect.acts, List.singleton_append, responses] at h
      split at h
      · next hlinked =>
        obtain ⟨rest, hrest, rfl⟩ := Option.map_eq_some_iff.mp h
        rw [transcript, if_pos hlinked, ih hrest]
      · cases h
    | remove path => exact ih h
    | close fd => exact ih h

end Transform

end Pop3Server
