import Pop3Server.Buffer
import Pop3Server.Session

/-!
# The dispatcher on the command buffer (`handle_client`, the body of its loop)

`switchCommand` is the switch as written, on the buffer set up over the line, and
`dispatch` what the loop does with one complete line.  `dispatch_eq` shows that
the pointer arithmetic comes down to the length of the line: a line of at least
four bytes is executed on its argument, and a shorter one fails the assertion of
`buffer_read_adv`.
-/

namespace Pop3Server

/-! ### The switch on the command buffer -/

def clientValidation (users : UserListHeader) (b : Buffer) (s : Session) :
    Option (Bool × Session) := do
  let user := cstr b.readPtr.1
  let _ ← b.readRest
  return validateClient users s user

def passwordValidation (b : Buffer) (s : Session) : Option Bool :=
  match s.user with
  | none => some true
  | some _ => do
    let pass := cstr b.readPtr.1
    let _ ← b.readRest
    return validatePassword s pass

def parseNumber (b : Buffer) : Option Int := do
  let number := cstr b.readPtr.1
  let _ ← b.readRest
  return atoi number

def numberArm (b : Buffer) (sh : Shared) (s : Session) (missing : Step) (act : Int → Step) :
    Option Step :=
  if s.clientState ≠ .transaction then some (reply sh s (str "-ERR You must log in first\r\n"))
  else do
    let (c, b) ← b.readByte
    if c = NUL then return missing
    else
      let num ← parseNumber b
      return if num = 0 then argumentError sh s else act num

/-- The switch of `handle_client` after `buffer_read_adv(b, 4)`; `none` is a failed assertion.
`command + 5` is read in the memory of the buffer, which a compaction may have cleared. -/
def switchCommand (env : Env) (sh : Shared) (s : Session) (comm : Pop3Command) (b : Buffer) :
    Option Step :=
  let tail := cstr (b.data.drop 5)
  match comm with
  | .user => do
    let (c, b) ← b.readByte
    if c = NUL then return reply sh (userState s) (str "-ERR Missing username\r\n")
    else
      let r ← clientValidation sh.pop3.userList b (userState s)
      return userReply sh r
  | .pass =>
    if s.clientState ≠ .authorization then
      some (reply sh s (str "-ERR You had already logged on\r\n"))
    else do
      let (c, b) ← b.readByte
      if c = NUL then return reply sh s (str "-ERR Missing password\r\n")
      else
        let refused ← passwordValidation b s
        return passReply env sh s refused
  | .rset => some (rsetCommand sh s)
  | .stat => some (statCommand sh s)
  | .list => numberArm b sh s (listNumber sh s (-1)) (listNumber sh s)
  | .retr => numberArm b sh s (argumentError sh s) (viewNumber sh s)
  | .dele => numberArm b sh s (argumentError sh s) (deleteNumber sh s)
  | .noop => some (noopCommand sh s)
  | .port => some (portCommand env sh s tail)
  | .host => some (hostCommand sh s tail)
  | .dirr => some (dirrCommand sh s tail)
  | .tran => some (tranCommand sh s tail)
  | .ipv6 => some (ipv6Command env sh s tail)
  | .info => some (infoCommand sh s)
  | .metr => some (metrCommand sh s)
  | .logg => some (loggCommand sh s)
  | .quit => some (quitCommand sh s)
  | .errorCommand => some (errorCommand sh s)

/-- The array `command`, holding the line.  The bytes after its NUL are stale in the code; no
operation reads them before a compaction has cleared them. -/
def commandMemory (command : Bytes) : Bytes :=
  (command ++ List.replicate (2 * BUFFER_SIZE) NUL).take (2 * BUFFER_SIZE)

/-- The body of the loop for one complete line: the buffer is set up over `command`, the command is
recognised and logged, four bytes are skipped, and the switch runs.  The log file is taken to open
at every line (`logConnection`). -/
def dispatch (env : Env) (sh : Shared) (s : Session) (command : Bytes) : Step :=
  let logged := logConnection (commandEntry command).message env.ctime s.ip
  let failed : Step := ⟨s, sh, [logged], .fault .assertion⟩
  match (Buffer.init (commandMemory command)).writeAdv command.length with
  | none => ⟨s, sh, [], .fault .assertion⟩
  | some b =>
    match b.readAdv 4 with
    | none => failed
    | some b =>
      match switchCommand env sh s (getCommandValue command) b with
      | none => failed
      | some step => { step with effects := logged :: step.effects }

/-! ### The pointer arithmetic -/

/-- What the arms rely on of the buffer left by `buffer_read_adv(b, 4)`: the next byte is the
separator, NUL when there is none, and both ways of reading on give the rest of the line. -/
structure AfterKeyword (b : Buffer) (command : Bytes) : Prop where
  readByte : ∃ b', b.readByte = some ((command.drop 4).headD NUL, b') ∧
    cstr b'.readPtr.1 = cstr (command.drop 5)
  tail : cstr (b.data.drop 5) = cstr (command.drop 5)

theorem length_commandMemory (command : Bytes) :
    (commandMemory command).length = 2 * BUFFER_SIZE := by
  simp [commandMemory]

theorem commandMemory_eq {command : Bytes} (h : command.length ≤ 2 * BUFFER_SIZE) :
    commandMemory command =
      command ++ List.replicate (2 * BUFFER_SIZE - command.length) NUL := by
  rw [commandMemory, List.take_append, List.take_of_length_le h, List.take_replicate]
  congr 2
  omega

theorem cstr_replicate (n : Nat) : cstr (List.replicate n NUL) = [] := cstr_append_zeros [] n

theorem cstr_drop_commandMemory {command : Bytes} (h : command.length ≤ 2 * BUFFER_SIZE)
    {k : Nat} (hk : k ≤ command.length) :
    cstr ((commandMemory command).drop k) = cstr (command.drop k) := by
  rw [commandMemory_eq h, List.drop_append_of_le_length hk, cstr_append_zeros]

theorem filled_read_le (command : Bytes) : 0 ≤ command.length := Nat.zero_le _

def filled (command : Bytes) (h : command.length ≤ 2 * BUFFER_SIZE) : Buffer :=
  ⟨commandMemory command, 0, command.length, filled_read_le command,
    by rwa [length_commandMemory]⟩

theorem writeAdv_init {command : Bytes} (h : command.length ≤ 2 * BUFFER_SIZE) :
    (Buffer.init (commandMemory command)).writeAdv command.length = some (filled command h) := by
  have h1 : (-1 : Int) < (command.length : Int) := by omega
  simp [Buffer.writeAdv, Buffer.init, h1, length_commandMemory, h, filled]

/-- Skipping the keyword of a line of at least four bytes succeeds. -/
theorem readAdv_filled {command : Bytes} (h4 : 4 ≤ command.length)
    (h : command.length ≤ 2 * BUFFER_SIZE) :
    ∃ b, (filled command h).readAdv 4 = some b ∧ AfterKeyword b command := by
  rcases Nat.eq_or_lt_of_le h4 with hfour | h5
  · -- the read pointer meets the write pointer: the array is cleared
    have hd4 : command.drop 4 = [] := List.drop_eq_nil_of_le (by omega)
    have hd5 : command.drop 5 = [] := List.drop_eq_nil_of_le (by omega)
    refine ⟨(filled command h).cleared, Buffer.readAdv_eq (n := 4) hfour, ?_, ?_⟩
    · refine ⟨(filled command h).cleared, ?_, ?_⟩
      · rw [Buffer.readByte_empty rfl, hd4]; rfl
      · rw [hd5]; exact cstr_replicate _
    · rw [hd5, Buffer.cleared, List.drop_replicate]; exact cstr_replicate _
  · refine ⟨{ filled command h with read := 4, read_le_write := h4 }, Buffer.readAdv_lt (n := 4) h5,
      ?_, cstr_drop_commandMemory h h5⟩
    have hhead : ((commandMemory command).drop 4).headD NUL = (command.drop 4).headD NUL := by
      rw [commandMemory_eq h, List.drop_append_of_le_length h4]
      cases hd : command.drop 4 with
      | nil => have := congrArg List.length hd; simp at this; omega
      | cons c cs => rfl
    rcases Nat.eq_or_lt_of_le h5 with hfive | h6
    · have hd5 : command.drop 5 = [] := List.drop_eq_nil_of_le (by omega)
      refine ⟨(filled command h).cleared, ?_, ?_⟩
      · rw [Buffer.readByte_of_lt h5, Buffer.readAdv_eq hfive, ← hhead]; rfl
      · rw [hd5]; exact cstr_replicate _
    · refine ⟨{ filled command h with read := 5, read_le_write := h5 }, ?_,
        cstr_drop_commandMemory h h5⟩
      rw [Buffer.readByte_of_lt h5, Buffer.readAdv_lt (n := 1) h6, ← hhead]; rfl

theorem argument_eq (command : Bytes) :
    argument command = if (command.drop 4).headD NUL = NUL then none
      else some (cstr (command.drop 5)) := by
  unfold argument
  have h5 : command.drop 5 = (command.drop 4).tail := by rw [List.tail_drop]
  rw [h5]
  cases command.drop 4 with
  | nil => simp
  | cons separator rest => simp

/-- Whatever the helpers read to the end, they read without a failed assertion. -/
theorem clientValidation_eq (users : UserListHeader) (b : Buffer) (s : Session) :
    clientValidation users b s = some (validateClient users s (cstr b.readPtr.1)) := by
  simp [clientValidation, Buffer.readRest_eq]

theorem passwordValidation_eq (b : Buffer) (s : Session) :
    passwordValidation b s = some (validatePassword s (cstr b.readPtr.1)) := by
  cases hu : s.user with
  | none => simp [passwordValidation, validatePassword, hu]
  | some u => simp [passwordValidation, hu, Buffer.readRest_eq]

theorem parseNumber_eq (b : Buffer) : parseNumber b = some (atoi (cstr b.readPtr.1)) := by
  simp [parseNumber, Buffer.readRest_eq]

theorem numberArm_eq {b : Buffer} {command : Bytes} (hb : AfterKeyword b command) (sh : Shared)
    (s : Session) (missing : Step) (act : Int → Step) :
    numberArm b sh s missing act =
      some (numberCommand sh s (argument command) missing act) := by
  obtain ⟨b', hread, hrest⟩ := hb.readByte
  unfold numberArm numberCommand loggedIn
  by_cases hs : s.clientState = .transaction
  · rw [if_neg (by simpa using hs), if_neg (by simpa using hs), hread, argument_eq]
    simp only [Option.bind_eq_bind, Option.bind_some]
    by_cases hc : (command.drop 4).headD NUL = NUL
    · rw [if_pos hc, if_pos hc]; rfl
    · rw [if_neg hc, if_neg hc, parseNumber_eq, hrest]; rfl
  · rw [if_pos (by simpa using hs), if_pos (by simpa using hs)]

/-- **The switch on the buffer is the switch on the argument of the line.** -/
theorem switchCommand_eq {b : Buffer} {command : Bytes} (hb : AfterKeyword b command) (env : Env)
    (sh : Shared) (s : Session) (comm : Pop3Command) :
    switchCommand env sh s comm b =
      some (execute env sh s comm (argument command) (cstr (command.drop 5))) := by
  obtain ⟨b', hread, hrest⟩ := hb.readByte
  cases comm with
  | user =>
    simp only [switchCommand, execute, hread, argument_eq, Option.bind_eq_bind, Option.bind_some]
    by_cases hc : (command.drop 4).headD NUL = NUL
    · rw [if_pos hc, if_pos hc]; rfl
    · rw [if_neg hc, if_neg hc, clientValidation_eq, hrest]; rfl
  | pass =>
    simp only [switchCommand, execute, passCommand]
    by_cases hs : s.clientState = .authorization
    · rw [if_neg (by simpa using hs), if_neg (by simpa using hs), hread, argument_eq]
      simp only [Option.bind_eq_bind, Option.bind_some]
      by_cases hc : (command.drop 4).headD NUL = NUL
      · rw [if_pos hc, if_pos hc]; rfl
      · rw [if_neg hc, if_neg hc, passwordValidation_eq, hrest]; rfl
    · rw [if_pos (by simpa using hs), if_pos (by simpa using hs)]
  | list => exact numberArm_eq hb sh s _ _
  | retr => exact numberArm_eq hb sh s _ _
  | dele => exact numberArm_eq hb sh s _ _
  | _ => simp only [switchCommand, execute, hb.tail]

def commandLog (env : Env) (s : Session) (command : Bytes) : Effect :=
  logConnection (commandEntry command).message env.ctime s.ip

/-- A line of at least four bytes is logged and executed on its argument. -/
theorem dispatch_of_long {command : Bytes} (h4 : 4 ≤ command.length)
    (h : command.length ≤ 2 * BUFFER_SIZE) (env : Env) (sh : Shared) (s : Session) :
    dispatch env sh s command =
      let step := execute env sh s (getCommandValue command) (argument command)
        (cstr (command.drop 5))
      { step with effects := commandLog env s command :: step.effects } := by
  obtain ⟨b, hadv, hb⟩ := readAdv_filled h4 h
  unfold dispatch
  rw [writeAdv_init h]
  simp only [hadv, switchCommand_eq hb]
  rfl

/-- A shorter line fails the assertion of `buffer_read_adv`. -/
theorem dispatch_of_short {command : Bytes} (h4 : command.length < 4) (env : Env) (sh : Shared)
    (s : Session) :
    dispatch env sh s command = ⟨s, sh, [commandLog env s command], .fault .assertion⟩ := by
  have h : command.length ≤ 2 * BUFFER_SIZE := by unfold BUFFER_SIZE; omega
  have hadv : (filled command h).readAdv 4 = none := Buffer.readAdv_gt (n := 4) (by simpa [filled])
  unfold dispatch
  rw [writeAdv_init h]
  simp only [hadv]
  rfl

theorem dispatch_of_huge {command : Bytes} (h : 2 * BUFFER_SIZE < command.length) (env : Env)
    (sh : Shared) (s : Session) :
    dispatch env sh s command = ⟨s, sh, [], .fault .assertion⟩ := by
  have h1 : (-1 : Int) < (command.length : Int) := by omega
  have h2 : ¬ command.length ≤ 2 * BUFFER_SIZE := by omega
  have hadv : (Buffer.init (commandMemory command)).writeAdv command.length = none := by
    simp [Buffer.writeAdv, Buffer.init, h1, length_commandMemory, h2]
  unfold dispatch
  rw [hadv]

end Pop3Server
