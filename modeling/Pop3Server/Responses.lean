import Pop3Server.Login
import Pop3Server.MessageNumbers

/-!
# The response to a command

Every arm but one answers its command with a status line: by itself, in front of
a file, or in front of the lines of a list (`Answered`).  LIST with a number
answers with the bare line of the message, and with nothing when there is no
such message: these are the lines without a response.
-/

namespace Pop3Server

/-- A line that says how a command went. -/
def IsStatus (data : Bytes) : Prop := str "+OK" <+: data ∨ IsErr data

instance (data : Bytes) : Decidable (IsStatus data) := inferInstanceAs (Decidable (_ ∨ _))

/-- A write on the client's socket, by the server or by a child it starts. -/
def Effect.writes : Effect → Bool
  | .send _ | .transfer _ _ => true
  | _ => false

/-- One response: a status line by itself, in front of a file, or in front of lines which a dot
closes. -/
inductive Response : List Effect → Prop
  | line {status} (h : IsStatus status) : Response [.send status]
  | file {status path transformed} (h : IsStatus status) :
      Response [.send status, .transfer path transformed]
  | listing {status} {lines : List Bytes} (h : IsStatus status)
      (hlines : ∀ line ∈ lines, ¬ IsStatus line) :
      Response (.send status :: (lines ++ [str ".\r\n"]).map .send)

/-- What is written on the client's socket. -/
def Step.written (st : Step) : List Effect := st.effects.filter (·.writes)

/-- LIST with a number other than 0, which is an argument error, and -1, which is the whole list. -/
def Session.ListsOne (s : Session) (arg : Option Bytes) : Prop :=
  s.clientState = .transaction ∧ ∃ number, arg = some number ∧ atoi number ≠ 0 ∧ atoi number ≠ -1

/-! ### Status lines and scan lines -/

theorem IsStatus.ok (rest : Bytes) : IsStatus (str "+OK" ++ rest) := .inl (List.prefix_append _ _)

/-- A line of the kind LIST writes for a message. -/
def BeginsWithDigit (data : Bytes) : Prop := ∃ d rest, data = d :: rest ∧ isdigit d = true

theorem BeginsWithDigit.append {data : Bytes} (h : BeginsWithDigit data) (more : Bytes) :
    BeginsWithDigit (data ++ more) := by
  obtain ⟨d, rest, rfl, hd⟩ := h
  exact ⟨d, rest ++ more, rfl, hd⟩

theorem BeginsWithDigit.not_status {data : Bytes} (h : BeginsWithDigit data) : ¬ IsStatus data := by
  obtain ⟨d, rest, rfl, hd⟩ := h
  have hplus : str "+OK" = 43 :: str "OK" := by decide
  have hminus : str "-ERR" = 45 :: str "ERR" := by decide
  rintro (hok | herr)
  · rw [hplus] at hok
    obtain rfl := (List.cons_prefix_cons.mp hok).1
    exact absurd hd (by decide)
  · rw [IsErr, hminus] at herr
    obtain rfl := (List.cons_prefix_cons.mp herr).1
    exact absurd hd (by decide)

theorem formatNat_digit (n : Nat) : BeginsWithDigit (formatNat n) := by
  unfold formatNat
  cases hdigits : Nat.toDigits 10 n with
  | nil => exact absurd hdigits Nat.toDigits_ne_nil
  | cons c cs =>
    have hdigit : c.isDigit = true :=
      Nat.isDigit_of_mem_toDigits (by decide) (by decide) (hdigits ▸ List.mem_cons_self)
    exact ⟨c.toNat.toUInt8, _, rfl, (isdigit_byte hdigit).1⟩

theorem scanLine_digit (n : Nat) (f : FileList) : BeginsWithDigit (scanLine n f) := by
  have hpos : ¬ (n : Int) < 0 := by omega
  simp only [scanLine, List.append_assoc, formatInt, if_neg hpos]
  exact (formatNat_digit _).append _

theorem listDirectory_digit (index : Nat) (l : List FileList) :
    ∀ line ∈ listDirectory index l, BeginsWithDigit line := by
  induction l generalizing index with
  | nil => intro line hline; cases hline
  | cons f l ih =>
    intro line hline
    rcases List.mem_cons.mp hline with rfl | hlater
    · exact scanLine_digit _ _
    · exact ih _ line hlater

theorem statHandeler_status (md : Maildir) : IsStatus (statHandeler md) := by
  have hok : str "+OK " = str "+OK" ++ str " " := by decide
  simp only [statHandeler, hok, List.append_assoc]
  exact .ok _

/-! ### The answers of the arms -/

/-- The effects of an arm that answers: nothing else is written behind the status line but a file
or the lines of a list, and only the log file is sent as it is. -/
inductive Answered : List Effect → Prop
  | line {status rest} (h : IsStatus status)
      (hrest : ∀ e ∈ rest, (∃ path, e = .remove path) ∨ ∃ fd, e = .close fd) :
      Answered (.send status :: rest)
  | file {status path transformed} (h : IsStatus status)
      (hlog : path = LOGGER_FILE → transformed = false) :
      Answered [.send status, .transfer path transformed]
  | listing {status} {lines : List Bytes} (h : IsStatus status)
      (hlines : ∀ line ∈ lines, BeginsWithDigit line) :
      Answered (.send status :: (lines ++ [str ".\r\n"]).map .send)

theorem Response.begins {es : List Effect} (h : Response es) :
    ∃ status rest, es = .send status :: rest ∧ IsStatus status := by
  cases h with
  | line h => exact ⟨_, _, rfl, h⟩
  | file h => exact ⟨_, _, rfl, h⟩
  | listing h _ => exact ⟨_, _, rfl, h⟩

theorem Answered.begins {es : List Effect} (h : Answered es) :
    ∃ status rest, es = .send status :: rest ∧ IsStatus status := by
  cases h with
  | line h _ => exact ⟨_, _, rfl, h⟩
  | file h _ => exact ⟨_, _, rfl, h⟩
  | listing h _ => exact ⟨_, _, rfl, h⟩

theorem Answered.response {es : List Effect} (h : Answered es) :
    Response (es.filter (·.writes)) := by
  cases h with
  | @line status rest h hrest =>
    have hquiet : rest.filter (·.writes) = [] := by
      refine List.filter_eq_nil_iff.mpr fun e he => ?_
      rcases hrest e he with ⟨path, rfl⟩ | ⟨fd, rfl⟩ <;> exact Bool.false_ne_true
    simp only [List.filter_cons_of_pos (show (Effect.send status).writes = true from rfl), hquiet]
    exact .line h
  | file h _ => exact .file h
  | listing h hlines =>
    rw [List.filter_eq_self.mpr]
    · exact .listing h fun line hline => (hlines line hline).not_status
    · intro e he
      rcases List.mem_cons.mp he with rfl | he
      · rfl
      · obtain ⟨data, -, rfl⟩ := List.mem_map.mp he
        rfl

theorem messagePath_ne_log (baseDir user : Bytes) (d : Directory) (name : Bytes) :
    messagePath baseDir user d name ≠ LOGGER_FILE := by
  intro h
  have hslash : (47 : Byte) ∈ messagePath baseDir user d name := by
    have hhere : (47 : Byte) ∈ str "/" := by decide
    simp [messagePath, hhere]
  rw [h] at hslash
  exact absurd hslash (by decide)

section Arms

variable (env : Env) (sh : Shared) (s : Session)

theorem reply_answered {response : Bytes} (h : IsStatus response) :
    Answered (reply sh s response).effects :=
  .line h nofun

theorem loggedIn_answered {arm : Step} (harm : s.clientState = .transaction → Answered arm.effects) :
    Answered (loggedIn sh s arm).effects := by
  unfold loggedIn
  split
  · exact reply_answered sh s (by decide)
  · next hstate => exact harm (by simpa using hstate)

theorem managerOnly_answered {arm : Step} (harm : s.clientState = .manager → Answered arm.effects) :
    Answered (managerOnly sh s arm).effects := by
  unfold managerOnly
  split
  · exact reply_answered sh s (by decide)
  · next hstate => exact harm (by simpa using hstate)

theorem userCommand_answered (arg : Option Bytes) : Answered (userCommand sh s arg).effects := by
  cases arg with
  | none => exact reply_answered sh _ (by decide)
  | some user =>
    simp only [userCommand, userReply]
    split <;> exact reply_answered sh _ (by decide)

theorem passCommand_answered (arg : Option Bytes) : Answered (passCommand env sh s arg).effects := by
  unfold passCommand
  split
  · exact reply_answered sh s (by decide)
  cases arg with
  | none => exact reply_answered sh s (by decide)
  | some pass =>
    simp only [passReply, logIn]
    split
    · exact reply_answered sh s (by decide)
    split
    · exact .line (by decide) (List.forall_mem_nil _)
    · split <;> exact .line (by decide) (List.forall_mem_nil _)

theorem updateAddress_answered (ip : Option Bytes) (port : Int) :
    Answered (updateAddress env sh s ip port).effects := by
  refine .line (by decide) ?_
  intro e he
  obtain ⟨fd, -, rfl⟩ := List.mem_map.mp he
  exact .inr ⟨fd, rfl⟩

theorem quitCommand_answered : Answered (quitCommand sh s).effects := by
  unfold quitCommand
  simp only
  split
  · split
    · refine .line (by decide) ?_
      intro e he
      rcases List.mem_append.mp he with hremove | hclose
      · obtain ⟨path, -, rfl⟩ := List.mem_map.mp hremove
        exact .inl ⟨path, rfl⟩
      · exact .inr ⟨_, List.mem_singleton.mp hclose⟩
    · exact .line (by decide) nofun
  · refine .line (by decide) ?_
    intro e he
    exact .inr ⟨_, List.mem_singleton.mp he⟩

theorem viewMessage_answered (md : Maildir) (n : Int) :
    Answered (viewMessage sh s md n).effects := by
  unfold viewMessage
  split
  · next d file more htarget =>
    have hannounced : IsStatus (str "+OK " ++ formatInt file.size ++ str " octets\r\n") := by
      have hok : str "+OK " = str "+OK" ++ str " " := by decide
      simp only [hok, List.append_assoc]
      exact .ok _
    cases s.user with
    | none => exact .line hannounced nofun
    | some u => exact .file hannounced fun hlog => absurd hlog (messagePath_ne_log _ _ _ _)
  · exact reply_answered sh s (by decide)

theorem deleteMessage_answered (md : Maildir) (n : Int) :
    Answered (deleteMessage sh s md n).effects := by
  unfold deleteMessage
  split
  · split <;> exact reply_answered sh s (by decide)
  · next hnull => exact absurd hnull (deleteTarget_ne_null md n)
  · apply reply_answered
    have hok : str "+OK message " = str "+OK" ++ str " message " := by decide
    simp only [hok, List.append_assoc]
    exact .ok _

/-- RETR and DELE answer whatever their argument. -/
theorem numberCommand_answered (arg : Option Bytes) {act : Int → Step}
    (hact : s.clientState = .transaction → ∀ n, Answered (act n).effects) :
    Answered (numberCommand sh s arg (argumentError sh s) act).effects := by
  apply loggedIn_answered sh s
  intro hstate
  cases arg with
  | none => exact reply_answered sh s (by decide)
  | some number =>
    simp only
    split
    · exact reply_answered sh s (by decide)
    · exact hact hstate _

variable {s} (hloaded : s.clientState = .transaction → s.maildir ≠ none)
include hloaded

theorem mailbox_answered {arm : Maildir → Step} (hstate : s.clientState = .transaction)
    (harm : ∀ md, Answered (arm md).effects) : Answered (mailbox sh s arm).effects := by
  unfold mailbox
  cases hmd : s.maildir with
  | none => exact absurd hmd (hloaded hstate)
  | some md => exact harm md

/-- **Every arm but LIST answers.** -/
theorem execute_answered {comm : Pop3Command} (hother : comm ≠ .list) (arg : Option Bytes)
    (tail : Bytes) : Answered (execute env sh s comm arg tail).effects := by
  cases comm with
  | list => exact absurd rfl hother
  | user => exact userCommand_answered sh s arg
  | pass => exact passCommand_answered env sh s arg
  | rset =>
    exact loggedIn_answered sh s fun hstate => mailbox_answered sh hloaded hstate fun md =>
      reply_answered sh _ (statHandeler_status _)
  | stat =>
    exact loggedIn_answered sh s fun hstate => mailbox_answered sh hloaded hstate fun md =>
      reply_answered sh _ (statHandeler_status _)
  | retr =>
    exact numberCommand_answered sh s arg fun hstate n =>
      mailbox_answered sh hloaded hstate fun md => viewMessage_answered sh s md n
  | dele =>
    exact numberCommand_answered sh s arg fun hstate n =>
      mailbox_answered sh hloaded hstate fun md => deleteMessage_answered sh s md n
  | noop => exact reply_answered sh s (by decide)
  | port => exact managerOnly_answered sh s fun _ => updateAddress_answered env sh s _ _
  | ipv6 => exact managerOnly_answered sh s fun _ => updateAddress_answered env sh s _ _
  | host => exact managerOnly_answered sh s fun _ => reply_answered _ s (by decide)
  | dirr => exact managerOnly_answered sh s fun _ => reply_answered _ s (by decide)
  | tran => exact managerOnly_answered sh s fun _ => reply_answered _ s (by decide)
  | info =>
    have hok : str "+OK " = str "+OK" ++ str " " := by decide
    refine managerOnly_answered sh s fun _ => reply_answered sh s ?_
    simp only [hok, List.append_assoc]
    exact .ok _
  | metr =>
    have hok : str "+OK " = str "+OK" ++ str " " := by decide
    refine managerOnly_answered sh s fun _ => reply_answered sh s ?_
    simp only [hok, List.append_assoc]
    exact .ok _
  | logg =>
    refine managerOnly_answered sh s fun hstate => .file (by decide) ?_
    intro _
    simp [hstate]
  | quit => exact quitCommand_answered sh s
  | errorCommand => exact reply_answered sh s (by decide)

end Arms

/-! ### LIST, RETR and DELE of a logged-in session -/

section Numbers

variable {sh : Shared} {s : Session} (hstate : s.clientState = .transaction) {number : Bytes}
  (missing : Step) (act : Int → Step)
include hstate

theorem numberCommand_of_none : numberCommand sh s none missing act = missing :=
  if_neg (not_not_intro hstate)

theorem numberCommand_of_zero (hzero : atoi number = 0) :
    numberCommand sh s (some number) missing act = argumentError sh s := by
  unfold numberCommand loggedIn
  rw [if_neg (not_not_intro hstate)]
  exact if_pos hzero

theorem numberCommand_of_number (hne : atoi number ≠ 0) :
    numberCommand sh s (some number) missing act = act (atoi number) := by
  unfold numberCommand loggedIn
  rw [if_neg (not_not_intro hstate)]
  exact if_neg hne

end Numbers

/-- LIST answers as well, or is asked for one message and writes what `list_messages` does. -/
theorem listCommand_cases (sh : Shared) {s : Session}
    (hloaded : s.clientState = .transaction → s.maildir ≠ none) (arg : Option Bytes) :
    (¬ s.ListsOne arg ∧ Answered (listCommand sh s arg).effects) ∨
      (s.ListsOne arg ∧ ∃ number md, arg = some number ∧ s.maildir = some md ∧
        listCommand sh s arg = listReply sh s md (atoi number)) := by
  by_cases hstate : s.clientState = .transaction
  case neg =>
    refine .inl ⟨fun h => hstate h.1, ?_⟩
    exact loggedIn_answered sh s fun h => absurd h hstate
  obtain ⟨md, hmd⟩ := Option.ne_none_iff_exists'.mp (hloaded hstate)
  have hnumber : ∀ n, listNumber sh s n = listReply sh s md n := fun n => by
    simp only [listNumber, mailbox, hmd]
  have hall : Answered (listReply sh s md (-1)).effects := by
    rw [listReply, listMessages_all]
    exact .listing (statHandeler_status md) (listDirectory_digit _ _)
  rw [listCommand]
  cases arg with
  | none =>
    rw [numberCommand_of_none hstate, hnumber]
    refine .inl ⟨?_, hall⟩
    rintro ⟨-, number, hnone, -⟩
    cases hnone
  | some number =>
    by_cases hzero : atoi number = 0
    · rw [numberCommand_of_zero hstate _ _ hzero]
      refine .inl ⟨?_, reply_answered sh s (by decide)⟩
      rintro ⟨-, number', hsome, hne, -⟩
      exact hne (Option.some.inj hsome ▸ hzero)
    rw [numberCommand_of_number hstate _ _ hzero, hnumber]
    by_cases hminus : atoi number = -1
    · rw [hminus]
      refine .inl ⟨?_, hall⟩
      rintro ⟨-, number', hsome, -, hne⟩
      exact hne (Option.some.inj hsome ▸ hminus)
    · exact .inr ⟨⟨hstate, number, rfl, hzero, hminus⟩, number, md, rfl, hmd, rfl⟩

/-! ### One response for every line -/

theorem not_response_nil : ¬ Response [] := by
  intro h
  obtain ⟨status, rest, hbegins, -⟩ := h.begins
  cases hbegins

/-- The bare line of a message, or nothing. -/
theorem listReply_not_response (sh : Shared) (s : Session) (md : Maildir) {n : Int}
    (h : n ≠ -1) : ¬ Response (listReply sh s md n).written := by
  by_cases hpos : 1 ≤ n
  · obtain ⟨k, rfl⟩ := Int.eq_ofNat_of_zero_le (Int.le_trans (by decide) hpos)
    have hk : 1 ≤ k := by omega
    have hwritten : (listReply sh s md k).written =
        md.messages[k - 1]?.toList.map fun m => .send (scanLine k m.2) := by
      rw [Step.written, listReply, listMessages_number md hk]
      cases md.messages[k - 1]? <;> rfl
    intro hresponse
    obtain ⟨status, rest, hbegins, hstatus⟩ := hresponse.begins
    rw [hwritten] at hbegins
    cases hm : md.messages[k - 1]? with
    | none => rw [hm] at hbegins; cases hbegins
    | some m =>
      rw [hm] at hbegins
      obtain rfl := Effect.send.inj (List.cons.inj hbegins).1
      exact (scanLine_digit k m.2).not_status hstatus
  · have hnothing : (listReply sh s md n).written = [] := by
      rw [Step.written, listReply, listMessages, if_neg h, if_neg (by omega)]
      rfl
    rw [hnothing]
    exact not_response_nil

/-- **A command line gets exactly one response, with its status line, when it fits the buffer of
`handle_client` and is not a LIST of one message.** -/
theorem dispatch_response_iff (env : Env) (sh : Shared) {s : Session}
    (hloaded : s.clientState = .transaction → s.maildir ≠ none) {command : Bytes}
    (h4 : 4 ≤ command.length) :
    Response (dispatch env sh s command).written ↔
      command.length ≤ 2 * BUFFER_SIZE ∧
        ¬ (getCommandValue command = .list ∧ s.ListsOne (argument command)) := by
  by_cases hfit : command.length ≤ 2 * BUFFER_SIZE
  case neg =>
    rw [dispatch_of_huge (Nat.lt_of_not_le hfit)]
    exact iff_of_false not_response_nil fun h => hfit h.1
  rw [and_iff_right hfit]
  have hwritten : (dispatch env sh s command).written =
      (execute env sh s (getCommandValue command) (argument command)
        (cstr (command.drop 5))).written := by
    rw [dispatch_of_long h4 hfit]
    rfl
  rw [hwritten]
  by_cases hlist : getCommandValue command = .list
  · rw [hlist]
    rcases listCommand_cases sh hloaded (argument command) with
      ⟨hno, hanswered⟩ | ⟨hone, number, md, harg, hmd, heq⟩
    · exact iff_of_true hanswered.response fun h => hno h.2
    · obtain ⟨-, number', hsome, -, hminus⟩ := id hone
      obtain rfl := Option.some.inj (hsome.symm.trans harg)
      refine iff_of_false ?_ fun h => h ⟨rfl, hone⟩
      rw [execute, heq]
      exact listReply_not_response sh s md hminus
  · refine iff_of_true ?_ fun h => hlist h.1
    exact (execute_answered env sh hloaded hlist _ _).response

theorem dispatch_response_list :
    Response (dispatch sampleEnv sampleShared sampleLoggedIn (str "LIST")).written := by
  refine (dispatch_response_iff sampleEnv sampleShared (s := sampleLoggedIn) (by decide)
    (by decide)).mpr ⟨by decide, ?_⟩
  rintro ⟨-, -, number, harg, -⟩
  have hnone : argument (str "LIST") = none := by decide
  rw [hnone] at harg
  cases harg

/-- LIST 9 with one message in the mailbox is not answered at all. -/
theorem dispatch_response_list_unknown :
    ¬ ∀ (env : Env) (sh : Shared) (s : Session),
      (s.clientState = .transaction → s.maildir ≠ none) →
      ∀ command : Bytes, 4 ≤ command.length → Response (dispatch env sh s command).written := by
  intro h
  obtain ⟨status, rest, hbegins, -⟩ := (h sampleEnv sampleShared sampleLoggedIn (by decide)
    (str "LIST 9") (by decide)).begins
  have hsilent : (dispatch sampleEnv sampleShared sampleLoggedIn (str "LIST 9")).written = [] := by
    decide +kernel
  rw [hsilent] at hbegins
  cases hbegins

end Pop3Server
