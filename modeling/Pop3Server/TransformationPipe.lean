import Pop3Server.Descriptors
import Pop3Server.Pipes
import Pop3Server.TransferStart
import Pop3Server.Transfers

/-!
# The pipe of a transformation (`setup_pipes`, `fork_and_exec`, `transfer_with_transformation`)

`fork_and_exec` starts the program of a transformation, which reads the file and
writes into a pipe, and the transfer copies what it reads from the pipe to the
client.  The two run beside each other; what keeps them together is who has which
end of the pipe.  The transfer closes its write end, so that it finds the end of
the output; the program keeps the read end that it has inherited.

`Pipeline.delivers` says that the client gets the whole output and that both
processes end when the socket takes everything, `Pipeline.left_behind_iff` when
the program is left behind.
-/

namespace Pop3Server

open Descriptors Pipes

def STDIN_FILENO : Int := 0
def STDOUT_FILENO : Int := 1

/-- What a descriptor of a transfer leads to. -/
inductive OpenFile where
  | stream
  | connection (n : Nat)
  | file
  | readEnd
  | writeEnd
deriving DecidableEq

def dup2 (t : Table Int OpenFile) (fd fd' : Int) : Table Int OpenFile :=
  match t fd with
  | some r => t.opened fd' r
  | none => t

/-- A transfer that has opened its file and the pipe, which are given descriptors that are free. -/
structure Piped where
  before : Table Int OpenFile
  file : Int
  pipeChildToParent : Int × Int
  stdin : before STDIN_FILENO ≠ none
  stdout : before STDOUT_FILENO ≠ none
  opened : before file = some .file
  noPipe : ∀ d, before d ≠ some .readEnd ∧ before d ≠ some .writeEnd
  free : before pipeChildToParent.1 = none ∧ before pipeChildToParent.2 = none
  different : pipeChildToParent.1 ≠ pipeChildToParent.2

namespace Piped

variable (s : Piped)

/-- The descriptors of the transfer after `pipe`. -/
def table : Table Int OpenFile :=
  (s.before.opened s.pipeChildToParent.1 .readEnd).opened s.pipeChildToParent.2 .writeEnd

/-- The descriptors the child of `fork_and_exec` has when it calls `execve`, or exits before. -/
def child (calls : TransferCalls) : Table Int OpenFile :=
  if calls.dup2Stdin = false then s.table
  else
    let t := dup2 s.table s.file STDIN_FILENO
    if calls.dup2Stdout = false then t
    else (dup2 t s.pipeChildToParent.2 STDOUT_FILENO).closed s.pipeChildToParent.2

/-- Those of the transfer when `fork_and_exec` returns. -/
def parent : Table Int OpenFile := s.table.closed s.pipeChildToParent.2

end Piped

/-- Where the transfer is: in `fork_and_exec`, in a read, in a write of the bytes read, at the
terminator, or it has ended. -/
inductive PipeStage where
  | started
  | copying
  | holding (chunk : Bytes)
  | ending
  | done
deriving DecidableEq

/-- How far it is from its end, but for the bytes. -/
def PipeStage.rank : PipeStage → Nat
  | .started => 3
  | .copying => 2
  | .holding _ => 3
  | .ending => 1
  | .done => 0

/-- The transfer, the program it has started, and the pipe between them. -/
structure Pipeline where
  channel : Channel Byte
  transfer : Table Int OpenFile
  program : Table Int OpenFile
  stage : PipeStage
  sent : Bytes

inductive PipeMove where
  | closes
  | pipe (e : Event Byte)
  | sends (results : List SendResult)

namespace Pipeline

def Readable (p : Pipeline) : Prop := p.transfer.Holds .readEnd ∨ p.program.Holds .readEnd

def Writable (p : Pipeline) : Prop := p.transfer.Holds .writeEnd ∨ p.program.Holds .writeEnd

/-- A step of either process.  The descriptors of a process that ends are closed. -/
inductive Step (s : Piped) (capacity : Nat) (p : Pipeline) : PipeMove → Pipeline → Prop
  | closes (hstage : p.stage = .started) :
      Step s capacity p .closes
        { p with transfer := p.transfer.closed s.pipeChildToParent.2, stage := .copying }
  | writes {data c} (hstdout : p.program STDOUT_FILENO = some .writeEnd)
      (hpipe : Channel.Step capacity p.Readable p.Writable p.channel (.writes data) c) :
      Step s capacity p (.pipe (.writes data)) { p with channel := c }
  | exits {c} (hpipe : Channel.Step capacity p.Readable p.Writable p.channel .exits c) :
      Step s capacity p (.pipe .exits) { p with channel := c, program := .empty }
  | killed {c} (hpipe : Channel.Step capacity p.Readable p.Writable p.channel .killed c) :
      Step s capacity p (.pipe .killed) { p with channel := c, program := .empty }
  | reads {data c} (hstage : p.stage = .copying) (hfits : data.length ≤ BUFFER_SIZE)
      (hpipe : Channel.Step capacity p.Readable p.Writable p.channel (.reads data) c) :
      Step s capacity p (.pipe (.reads data)) { p with channel := c, stage := .holding data }
  | findsEnd {c} (hstage : p.stage = .copying)
      (hpipe : Channel.Step capacity p.Readable p.Writable p.channel .findsEnd c) :
      Step s capacity p (.pipe .findsEnd) { p with channel := c, stage := .ending }
  | sends {chunk} (hstage : p.stage = .holding chunk) (results : List SendResult) :
      Step s capacity p (.sends results)
        { p with
          sent := p.sent ++ (writeSocketBuffer results chunk).sent.flatten
          stage := if (writeSocketBuffer results chunk).returned < 0 then .ending else .copying }
  | terminates (hstage : p.stage = .ending) (results : List SendResult) :
      Step s capacity p (.sends results)
        { p with
          sent := p.sent ++ (writeSocketBuffer results terminator).sent.flatten
          transfer := .empty
          stage := .done }

def system (s : Piped) (capacity : Nat) : LTS Pipeline PipeMove := ⟨Step s capacity⟩

/-- `fork_and_exec` has forked; `output` is what the program is going to write. -/
def start (s : Piped) (calls : TransferCalls) (output : Bytes) : Pipeline :=
  ⟨⟨some output, []⟩, s.table, s.child calls, .started, []⟩

end Pipeline

/-! ### Who has which end -/

namespace Piped

variable (s : Piped) (calls : TransferCalls)

theorem stdin_ne : s.pipeChildToParent.1 ≠ STDIN_FILENO ∧ s.pipeChildToParent.2 ≠ STDIN_FILENO :=
  ⟨fun h => s.stdin (h ▸ s.free.1), fun h => s.stdin (h ▸ s.free.2)⟩

theorem stdout_ne : s.pipeChildToParent.1 ≠ STDOUT_FILENO ∧ s.pipeChildToParent.2 ≠ STDOUT_FILENO :=
  ⟨fun h => s.stdout (h ▸ s.free.1), fun h => s.stdout (h ▸ s.free.2)⟩

theorem ne_file {d : Int} (hfree : s.before d = none) : d ≠ s.file := by
  rintro rfl
  rw [s.opened] at hfree
  cases hfree

theorem table_readEnd : s.table s.pipeChildToParent.1 = some .readEnd := by
  simp [table, Table.opened, s.different]

theorem table_writeEnd : s.table s.pipeChildToParent.2 = some .writeEnd := by
  simp [table, Table.opened]

theorem table_of_ne {d : Int} (h1 : d ≠ s.pipeChildToParent.1) (h2 : d ≠ s.pipeChildToParent.2) :
    s.table d = s.before d := by
  simp [table, Table.opened, h1, h2]

theorem table_file : s.table s.file = some .file :=
  (s.table_of_ne (s.ne_file s.free.1).symm (s.ne_file s.free.2).symm).trans s.opened

/-- The file as the standard input. -/
theorem dup2_file (d : Int) : dup2 s.table s.file STDIN_FILENO d =
    if d = STDIN_FILENO then some .file else s.table d := by
  rw [dup2, s.table_file]
  exact Function.update_apply _ _ _ _

theorem dup2_writeEnd :
    dup2 s.table s.file STDIN_FILENO s.pipeChildToParent.2 = some .writeEnd := by
  rw [s.dup2_file, if_neg s.stdin_ne.2, s.table_writeEnd]

/-- Both redirections have succeeded. -/
theorem child_redirected (h : calls.dup2Stdin = true ∧ calls.dup2Stdout = true) :
    s.child calls =
      ((dup2 s.table s.file STDIN_FILENO).opened STDOUT_FILENO .writeEnd).closed
        s.pipeChildToParent.2 := by
  have hdup2 : dup2 (dup2 s.table s.file STDIN_FILENO) s.pipeChildToParent.2 STDOUT_FILENO =
      (dup2 s.table s.file STDIN_FILENO).opened STDOUT_FILENO .writeEnd := by
    rw [dup2, s.dup2_writeEnd]
  simp only [child, h.1, h.2, Bool.true_eq_false, if_false, hdup2]

/-- What the child of `fork_and_exec` has kept, wherever it has got to. -/
theorem child_of_ne {d : Int} (hstdin : d ≠ STDIN_FILENO) (hstdout : d ≠ STDOUT_FILENO)
    (hwrite : d ≠ s.pipeChildToParent.2) : s.child calls d = s.table d := by
  have hin : dup2 s.table s.file STDIN_FILENO d = s.table d := by
    rw [s.dup2_file, if_neg hstdin]
  by_cases hboth : calls.dup2Stdin = true ∧ calls.dup2Stdout = true
  · rw [s.child_redirected calls hboth, Table.closed, Function.update_of_ne hwrite, Table.opened,
      Function.update_of_ne hstdout, hin]
  · unfold child
    by_cases hfirst : calls.dup2Stdin = false
    · rw [if_pos hfirst]
    · have hsecond : calls.dup2Stdout = false := by simpa [hfirst] using hboth
      simp only [if_neg hfirst, if_pos hsecond, hin]

/-- The program keeps the read end. -/
theorem child_readEnd : (s.child calls).Holds .readEnd :=
  ⟨s.pipeChildToParent.1,
    (s.child_of_ne calls s.stdin_ne.1 s.stdout_ne.1 s.different).trans s.table_readEnd⟩

theorem child_stdout (h : calls.dup2Stdin = true ∧ calls.dup2Stdout = true) :
    s.child calls STDOUT_FILENO = some .writeEnd := by
  rw [s.child_redirected calls h, Table.closed, Function.update_of_ne s.stdout_ne.2.symm]
  exact Function.update_self _ _ _

theorem child_writeEnd : (s.child calls).Holds .writeEnd := by
  by_cases hboth : calls.dup2Stdin = true ∧ calls.dup2Stdout = true
  · exact ⟨_, s.child_stdout calls hboth⟩
  · refine ⟨s.pipeChildToParent.2, ?_⟩
    unfold child
    by_cases hfirst : calls.dup2Stdin = false
    · rw [if_pos hfirst, s.table_writeEnd]
    · have hsecond : calls.dup2Stdout = false := by simpa [hfirst] using hboth
      simp only [if_neg hfirst, if_pos hsecond, s.dup2_writeEnd]

/-- The transfer has closed its write end. -/
theorem parent_writeEnd : ¬ s.parent.Holds .writeEnd := by
  rintro ⟨d, hd⟩
  obtain ⟨hleads, hne⟩ := Table.closed_eq_some.mp hd
  by_cases hread : d = s.pipeChildToParent.1
  · rw [hread, s.table_readEnd] at hleads
    cases hleads
  · exact (s.noPipe d).2 ((s.table_of_ne hread hne).symm.trans hleads)

end Piped

/-! ### Writes to the client -/

theorem writeLoop_of_not_failed {turns : Nat} {results : List SendResult} {totalSent : Nat}
    {data : Bytes} (hturns : results.length + data.length ≤ turns) (h : .failed ∉ results) :
    (writeLoop turns results totalSent data).sent.flatten = data ∧
      0 ≤ (writeLoop turns results totalSent data).returned := by
  induction turns generalizing results totalSent data with
  | zero =>
    obtain rfl : data = [] := List.length_eq_zero_iff.mp (by omega)
    exact ⟨rfl, Int.natCast_nonneg _⟩
  | succ turns ih =>
    cases data with
    | nil => exact ⟨rfl, Int.natCast_nonneg _⟩
    | cons b rest =>
      have htail : .failed ∉ results.tail := fun hmem => h (List.mem_of_mem_tail hmem)
      rw [writeLoop]
      cases results with
      | nil =>
        have hcopy : 0 < min (rest.length + 1) BUFFER_SIZE := by unfold BUFFER_SIZE; omega
        have hless : ([] : List SendResult).length +
            ((b :: rest).drop (min (rest.length + 1) BUFFER_SIZE)).length ≤ turns := by
          simp only [List.length_nil, List.length_drop, List.length_cons] at hturns ⊢
          omega
        obtain ⟨hsent, hreturned⟩ := @ih [] _ _ hless htail
        simp only [List.headD_nil, List.tail_nil, Nat.min_self]
        exact ⟨by rw [List.flatten_cons, hsent, List.take_append_drop], hreturned⟩
      | cons r results =>
        simp only [List.length_cons] at hturns
        simp only [List.headD_cons, List.tail_cons] at htail ⊢
        cases r with
        | accepted n =>
          have hless : results.length +
              ((b :: rest).drop (min n (min (rest.length + 1) BUFFER_SIZE))).length ≤ turns := by
            simp only [List.length_drop, List.length_cons]
            omega
          obtain ⟨hsent, hreturned⟩ := ih hless htail
          exact ⟨by rw [List.flatten_cons, hsent, List.take_append_drop], hreturned⟩
        | again =>
          apply ih
          · simp only [List.length_cons]
            omega
          · exact htail
        | failed => exact absurd List.mem_cons_self h

/-- **Unless a call fails, a write sends its data.** -/
theorem writeSocketBuffer_of_not_failed {results : List SendResult} (h : .failed ∉ results)
    (data : Bytes) : (writeSocketBuffer results data).sent.flatten = data ∧
      0 ≤ (writeSocketBuffer results data).returned :=
  writeLoop_of_not_failed (Nat.le_refl _) h

namespace Pipeline

/-! ### What every step keeps -/

/-- What the transfer has read. -/
def taken (moves : List PipeMove) : Bytes :=
  moves.flatMap fun
    | .pipe e => e.taken
    | _ => []

/-- The socket has not failed. -/
def Accepted (moves : List PipeMove) : Prop :=
  ∀ results, .sends results ∈ moves → .failed ∉ results

section Invariant

variable {s : Piped} {capacity : Nat} {calls : TransferCalls} {output : Bytes}

/-- The program has what it was given until it ends, the transfer what its stage says, and the
pipe what has been written and not been read. -/
structure Inv (s : Piped) (capacity : Nat) (calls : TransferCalls) (output : Bytes)
    (past : List PipeMove) (p : Pipeline) : Prop where
  running : ∀ rest, p.channel.output = some rest →
    p.program = s.child calls ∧ (rest ≠ [] → calls.dup2Stdin = true ∧ calls.dup2Stdout = true)
  ended : p.channel.output = none → p.program = .empty
  transfer : p.transfer =
    match p.stage with
    | .started => s.table
    | .done => .empty
    | _ => s.parent
  room : p.channel.held.length ≤ capacity
  content : taken past ++ p.channel.content = output
  alive : .pipe .killed ∉ past

/-- What the client has been sent, as long as the socket has not failed. -/
def SentInv (output : Bytes) (past : List PipeMove) (p : Pipeline) : Prop :=
  match p.stage with
  | .started => p.sent = taken past
  | .copying => p.sent = taken past
  | .holding chunk => p.sent ++ chunk = taken past
  | .ending => p.sent = output ∧ taken past = output ∧ p.channel.output = none
  | .done => p.sent = output ++ terminator ∧ taken past = output ∧ p.channel.output = none

variable {past : List PipeMove} {p p' : Pipeline} {m : PipeMove}

theorem taken_concat (past : List PipeMove) (m : PipeMove) :
    taken (past ++ [m]) = taken past ++ taken [m] := by
  rw [taken, List.flatMap_append]
  rfl

theorem Inv.readable (h : Inv s capacity calls output past p) {rest : Bytes}
    (houtput : p.channel.output = some rest) : p.Readable := by
  right
  rw [(h.running rest houtput).1]
  exact s.child_readEnd calls

/-- When nobody can write any more, everything has been written. -/
theorem Inv.output_of_not_writable (h : Inv s capacity calls output past p) (hw : ¬ p.Writable) :
    p.channel.output = none := by
  cases houtput : p.channel.output with
  | none => rfl
  | some rest =>
    refine absurd (.inr ?_) hw
    rw [(h.running rest houtput).1]
    exact s.child_writeEnd calls

/-- While the transfer reads, only the program can write. -/
theorem Inv.not_writable (h : Inv s capacity calls output past p) (hstage : p.stage = .copying)
    (houtput : p.channel.output = none) : ¬ p.Writable := by
  have htransfer := h.transfer
  rw [hstage] at htransfer
  rintro (htrans | hprog)
  · rw [htransfer] at htrans
    exact s.parent_writeEnd htrans
  · rw [h.ended houtput] at hprog
    exact Table.not_holds_empty _ hprog

theorem Inv.start (s : Piped) (capacity : Nat) {calls : TransferCalls} {output : Bytes}
    (hstarts : output ≠ [] → calls.dup2Stdin = true ∧ calls.dup2Stdout = true) :
    Inv s capacity calls output [] (start s calls output) where
  running rest houtput := by
    obtain rfl := Option.some.inj houtput
    exact ⟨rfl, hstarts⟩
  ended houtput := by cases houtput
  transfer := rfl
  room := Nat.zero_le _
  content := rfl
  alive := List.not_mem_nil

/-- What a step at the pipe leaves of what was to be read. -/
theorem Inv.content_pipe (h : Inv s capacity calls output past p) {e : Event Byte}
    {c : Channel Byte} {reader writer : Prop}
    (hpipe : Channel.Step capacity reader writer p.channel e c) (he : e ≠ .killed) :
    taken (past ++ [.pipe e]) ++ c.content = output := by
  have htaken : taken [.pipe e] = e.taken := List.append_nil _
  rw [taken_concat, htaken, List.append_assoc, hpipe.content he, h.content]

theorem Inv.alive_concat (h : Inv s capacity calls output past p) (hm : m ≠ .pipe .killed) :
    .pipe .killed ∉ past ++ [m] := by
  intro hmem
  rcases List.mem_append.mp hmem with hold | hnew
  · exact h.alive hold
  · exact hm (List.mem_singleton.mp hnew).symm

/-- **Step lemma.**  The program is not killed, as it has the read end itself. -/
theorem Inv.step (h : Inv s capacity calls output past p) (hstep : Step s capacity p m p') :
    Inv s capacity calls output (past ++ [m]) p' := by
  cases hstep with
  | closes hstage =>
    refine { h with transfer := ?_, content := ?_, alive := h.alive_concat nofun }
    · have htransfer := h.transfer
      rw [hstage] at htransfer
      rw [htransfer]
      rfl
    · rw [taken_concat]
      simpa [taken] using h.content
  | writes hstdout hpipe =>
    obtain ⟨rest, hbefore, hafter⟩ := hpipe.writes_output
    obtain ⟨hprogram, hdup2⟩ := h.running _ hbefore
    constructor
    case running =>
      intro rest' houtput
      obtain rfl := Option.some.inj (hafter.symm.trans houtput)
      refine ⟨hprogram, fun hrest => hdup2 fun hnil => hrest (List.append_eq_nil_iff.mp hnil).2⟩
    case ended => exact fun houtput => by cases hafter.symm.trans houtput
    case transfer => exact h.transfer
    case room => exact hpipe.held_le h.room
    case content => exact h.content_pipe hpipe nofun
    case alive => exact h.alive_concat nofun
  | exits hpipe =>
    obtain ⟨-, hafter⟩ := hpipe.exits_output
    constructor
    case running => exact fun rest houtput => by cases hafter.symm.trans houtput
    case ended => exact fun _ => rfl
    case transfer => exact h.transfer
    case room => exact hpipe.held_le h.room
    case content => exact h.content_pipe hpipe nofun
    case alive => exact h.alive_concat nofun
  | killed hpipe =>
    obtain ⟨hnobody, rest, hbefore⟩ := hpipe.killed_output
    exact absurd (h.readable hbefore) hnobody
  | reads hstage _ hpipe =>
    obtain ⟨-, hsame⟩ := hpipe.reads_output
    constructor
    case running => exact fun rest houtput => h.running rest (hsame.symm.trans houtput)
    case ended => exact fun houtput => h.ended (hsame.symm.trans houtput)
    case transfer =>
      have htransfer := h.transfer
      rw [hstage] at htransfer
      exact htransfer
    case room => exact hpipe.held_le h.room
    case content => exact h.content_pipe hpipe nofun
    case alive => exact h.alive_concat nofun
  | findsEnd hstage hpipe =>
    obtain ⟨-, -, rfl⟩ := hpipe.findsEnd_output
    constructor
    case running => exact h.running
    case ended => exact h.ended
    case transfer =>
      have htransfer := h.transfer
      rw [hstage] at htransfer
      exact htransfer
    case room => exact h.room
    case content => exact h.content_pipe hpipe nofun
    case alive => exact h.alive_concat nofun
  | @sends chunk hstage results =>
    refine { h with transfer := ?_, content := ?_, alive := h.alive_concat nofun }
    · have htransfer := h.transfer
      rw [hstage] at htransfer
      rw [htransfer]
      by_cases hfailed : (writeSocketBuffer results chunk).returned < 0
      · rw [if_pos hfailed]
      · rw [if_neg hfailed]
    · rw [taken_concat]
      simpa [taken] using h.content
  | terminates hstage results =>
    refine { h with transfer := rfl, content := ?_, alive := h.alive_concat nofun }
    rw [taken_concat]
    simpa [taken] using h.content

/-- While the program runs, what it does changes nothing for the client. -/
theorem SentInv.of_running {past' : List PipeMove} (h : SentInv output past p) {rest : Bytes}
    (hrunning : p.channel.output = some rest) (hstage : p'.stage = p.stage) (hsent : p'.sent = p.sent)
    (htaken : taken past' = taken past) : SentInv output past' p' := by
  unfold SentInv at h ⊢
  rw [hstage, hsent, htaken]
  cases hwhere : p.stage with
  | started => rwa [hwhere] at h
  | copying => rwa [hwhere] at h
  | holding chunk => rwa [hwhere] at h
  | ending =>
    rw [hwhere] at h
    cases hrunning.symm.trans h.2.2
  | done =>
    rw [hwhere] at h
    cases hrunning.symm.trans h.2.2

/-- **Step lemma.**  The end is found when the program has written everything. -/
theorem SentInv.step (hinv : Inv s capacity calls output past p) (h : SentInv output past p)
    (haccepted : Accepted (past ++ [m])) (hstep : Step s capacity p m p') :
    SentInv output (past ++ [m]) p' := by
  have hquiet : ∀ m, taken [m] = [] → taken (past ++ [m]) = taken past := fun m hm => by
    rw [taken_concat, hm, List.append_nil]
  cases hstep with
  | closes hstage =>
    simp only [SentInv, hstage] at h ⊢
    rw [hquiet _ rfl]
    exact h
  | writes hstdout hpipe =>
    obtain ⟨rest, hbefore, -⟩ := hpipe.writes_output
    exact of_running h hbefore rfl rfl (hquiet _ rfl)
  | exits hpipe =>
    obtain ⟨hbefore, -⟩ := hpipe.exits_output
    exact of_running h hbefore rfl rfl (hquiet _ rfl)
  | killed hpipe =>
    obtain ⟨hnobody, rest, hbefore⟩ := hpipe.killed_output
    exact absurd (hinv.readable hbefore) hnobody
  | @reads data c hstage _ hpipe =>
    simp only [SentInv, hstage] at h ⊢
    have htaken : taken [.pipe (.reads data)] = data := List.append_nil _
    rw [taken_concat, htaken, h]
  | findsEnd hstage hpipe =>
    obtain ⟨hnobody, hheld, rfl⟩ := hpipe.findsEnd_output
    have houtput := hinv.output_of_not_writable hnobody
    have hall : taken past = output := by
      have hcontent := hinv.content
      rw [Channel.content, hheld, houtput] at hcontent
      simpa using hcontent
    simp only [SentInv, hstage] at h ⊢
    rw [hquiet _ rfl]
    exact ⟨h.trans hall, hall, houtput⟩
  | @sends chunk hstage results =>
    obtain ⟨hsent, hreturned⟩ := writeSocketBuffer_of_not_failed (haccepted results (by simp)) chunk
    simp only [SentInv, hstage, hsent, if_neg (Int.not_lt.mpr hreturned)] at h ⊢
    rw [hquiet _ rfl]
    exact h
  | terminates hstage results =>
    obtain ⟨hsent, -⟩ := writeSocketBuffer_of_not_failed (haccepted results (by simp)) terminator
    simp only [SentInv, hstage, hsent] at h ⊢
    rw [hquiet _ rfl, h.1]
    exact ⟨rfl, h.2⟩

/-- What the client has is a beginning of what it is to get. -/
theorem SentInv.beginning (hinv : Inv s capacity calls output past p) (h : SentInv output past p) :
    p.sent <+: output ++ terminator := by
  have htaken : taken past <+: output ++ terminator :=
    List.IsPrefix.trans ⟨_, hinv.content⟩ (List.prefix_append _ _)
  unfold SentInv at h
  cases hstage : p.stage with
  | started =>
    rw [hstage] at h
    exact h ▸ htaken
  | copying =>
    rw [hstage] at h
    exact h ▸ htaken
  | holding chunk =>
    rw [hstage] at h
    exact (List.prefix_append _ _).trans (h ▸ htaken)
  | ending =>
    rw [hstage] at h
    exact h.1 ▸ List.prefix_append _ _
  | done =>
    rw [hstage] at h
    exact h.1 ▸ List.prefix_rfl

/-- **Progress**: a state in which nobody can go on is one where the transfer has ended, and the
program has ended or waits for room. -/
theorem Inv.stuck (h : Inv s capacity calls output past p) (hcapacity : 0 < capacity)
    (hstuck : (system s capacity).Stuck p) :
    p.stage = .done ∧ (p.channel.output = none ∨ p.channel.Full capacity) := by
  -- the program can go on unless it has ended or waits for room
  have hprogram : p.channel.output = none ∨ p.channel.Full capacity := by
    cases houtput : p.channel.output with
    | none => exact .inl rfl
    | some rest =>
      refine .inr (by_contra fun hfull => ?_)
      rcases @Channel.writer_progress _ capacity p.Readable p.Writable p.channel
        (h.readable houtput) rest houtput h.room hfull with ⟨-, hexits⟩ | ⟨data, hdata, c, hwrites⟩
      · exact hstuck _ _ (.exits hexits)
      · obtain ⟨rest', hbefore, -⟩ := hwrites.writes_output
        obtain ⟨hchild, hdup2⟩ := h.running _ hbefore
        have hstdout := s.child_stdout calls
          (hdup2 fun hnil => hdata (List.append_eq_nil_iff.mp hnil).1)
        exact hstuck _ _ (.writes (hchild ▸ hstdout) hwrites)
  refine ⟨?_, hprogram⟩
  cases hstage : p.stage with
  | started => exact absurd (.closes hstage) (hstuck _ _)
  | copying =>
    have hread : p.channel.held ≠ [] ∨ ¬ p.Writable := by
      rcases hprogram with houtput | ⟨hheld, -⟩
      · exact .inr (h.not_writable hstage houtput)
      · refine .inl fun hnil => ?_
        rw [hnil] at hheld
        exact hcapacity.ne hheld
    rcases @Channel.reader_progress _ capacity p.Readable p.Writable p.channel hread
      with ⟨data, c, hlength, hreads⟩ | hend
    · have hfits : data.length ≤ BUFFER_SIZE := by rw [hlength]; decide
      exact absurd (.reads hstage hfits hreads) (hstuck _ _)
    · exact absurd (.findsEnd hstage hend) (hstuck _ _)
  | holding chunk => exact absurd (.sends hstage []) (hstuck _ _)
  | ending => exact absurd (.terminates hstage []) (hstuck _ _)
  | done => rfl

/-- Then nobody can go on indeed. -/
theorem stuck_of_done (hstage : p.stage = .done)
    (h : p.channel.output = none ∨ p.channel.Full capacity ∧ p.Readable) :
    (system s capacity).Stuck p := by
  intro m p' hstep
  change Step s capacity p m p' at hstep
  cases hstep with
  | closes hother => cases hother.symm.trans hstage
  | @writes data c _ hpipe =>
    obtain ⟨rest, hbefore, -⟩ := hpipe.writes_output
    rcases h with houtput | ⟨⟨hheld, -⟩, -⟩
    · cases houtput.symm.trans hbefore
    · obtain ⟨hdata, hroom⟩ := hpipe.writes_room
      have hpos := List.length_pos_iff.mpr hdata
      omega
  | exits hpipe =>
    obtain ⟨hbefore, -⟩ := hpipe.exits_output
    rcases h with houtput | ⟨⟨-, rest, houtput, hrest⟩, -⟩
    · cases houtput.symm.trans hbefore
    · exact hrest (Option.some.inj (houtput.symm.trans hbefore))
  | killed hpipe =>
    obtain ⟨hnobody, rest, hbefore⟩ := hpipe.killed_output
    rcases h with houtput | ⟨-, hreadable⟩
    · cases houtput.symm.trans hbefore
    · exact hnobody hreadable
  | reads hother _ _ => cases hother.symm.trans hstage
  | findsEnd hother _ => cases hother.symm.trans hstage
  | sends hother _ => cases hother.symm.trans hstage
  | terminates hother _ => cases hother.symm.trans hstage

end Invariant

/-! ### Runs -/

/-- What is left to do for both processes. -/
def work (p : Pipeline) : Nat := p.channel.work + PipeStage.rank p.stage

theorem Step.work_lt {s : Piped} {capacity : Nat} {p p' : Pipeline} {m : PipeMove}
    (h : Step s capacity p m p') : p'.work < p.work := by
  unfold Pipeline.work
  cases h with
  | closes hstage => simp [hstage, PipeStage.rank]
  | writes _ hpipe =>
    have hless := hpipe.work_lt rfl nofun
    simpa using hless
  | exits hpipe =>
    have hless := hpipe.work_lt rfl nofun
    simpa using hless
  | killed hpipe =>
    have hless := hpipe.work_lt rfl nofun
    simpa using hless
  | reads hstage _ hpipe =>
    obtain ⟨hdata, -⟩ := hpipe.reads_output
    have hpos := List.length_pos_iff.mpr hdata
    have hle := hpipe.work_le
    simp only [Event.taken] at hle
    simp only [hstage, PipeStage.rank]
    omega
  | findsEnd hstage hpipe =>
    have hle := hpipe.work_le
    simp only [hstage, PipeStage.rank]
    omega
  | sends hstage _ =>
    simp only [hstage]
    split <;> simp [PipeStage.rank]
  | terminates hstage _ => simp [hstage, PipeStage.rank]

section Outcome

variable {s : Piped} {capacity : Nat} {calls : TransferCalls} {output : Bytes}
  {moves : List PipeMove} {p : Pipeline}

theorem inv_of_run (hstarts : output ≠ [] → calls.dup2Stdin = true ∧ calls.dup2Stdout = true)
    (hrun : (system s capacity).Run (start s calls output) moves p) :
    Inv s capacity calls output moves p ∧ (Accepted moves → SentInv output moves p) := by
  refine hrun.history (R := fun past p => Inv s capacity calls output past p ∧
    (Accepted past → SentInv output past p)) ?_ ⟨.start s capacity hstarts, fun _ => rfl⟩
  intro past p m p' ⟨hinv, hsent⟩ hstep
  refine ⟨hinv.step hstep, fun haccepted => ?_⟩
  have hbefore : Accepted past := fun results hmem =>
    haccepted results (List.mem_append_left _ hmem)
  exact (hsent hbefore).step hinv haccepted hstep

theorem length_of_run (hrun : (system s capacity).Run (start s calls output) moves p) :
    moves.length ≤ 3 * output.length + 4 := by
  have hlength := hrun.length_le fun _ _ _ => Step.work_lt
  have hstart : (start s calls output).work = 3 * output.length + 4 := rfl
  omega

variable (transform : Bytes → Bytes) {trans : Option TransformationStructure} {path content : Bytes}

/-- **A transformed file arrives whole.**  In every order of the steps of the transfer and the
program, with reads and writes of any size and a pipe of any capacity, the client has a beginning of
the output and the terminator, and when neither process can go on it has all of it and both have
ended, provided that the program has started and the socket does not fail; no order is longer than
the output allows. -/
theorem delivers (hopen : calls.openRead path = some content) (hpipe : calls.pipe = true)
    (hfork : calls.forkAgain = true) (hstarts : calls.Starts trans) (hcapacity : 0 < capacity)
    (hrun : (system s capacity).Run (start s calls (transform content)) moves p)
    (haccepted : Accepted moves) :
    let all := (sendFileTransformed transform trans calls path true).flatten
    moves.length ≤ 3 * (transform content).length + 4 ∧ p.sent <+: all ∧
      ((system s capacity).Stuck p →
        p.sent = all ∧ p.transfer = .empty ∧ p.program = .empty) := by
  obtain ⟨hinv, hsent⟩ := inv_of_run (fun _ => hstarts.redirected) hrun
  have hsent := hsent haccepted
  simp only [sendFileTransformed_of_starts transform hopen hpipe hfork hstarts]
  refine ⟨length_of_run hrun, hsent.beginning hinv, fun hstuck => ?_⟩
  obtain ⟨hdone, -⟩ := hinv.stuck hcapacity hstuck
  have htransfer := hinv.transfer
  rw [hdone] at htransfer
  simp only [SentInv, hdone] at hsent
  exact ⟨hsent.1, htransfer, hinv.ended hsent.2.2⟩

/-- **When a program is left behind.**  A program that has started is never killed, as it has the
read end of its own pipe: when neither process can go on, the transfer has ended, and the program is
there for good exactly if its output was more than what the transfer has read and what the pipe
holds.  It then has every descriptor of the transfer but for its streams and the write end,
connections among them. -/
theorem left_behind_iff (hstarts : calls.Starts trans) (hcapacity : 0 < capacity)
    (hrun : (system s capacity).Run (start s calls output) moves p)
    (hstuck : (system s capacity).Stuck p) :
    .pipe .killed ∉ moves ∧ p.transfer = .empty ∧
      (p.program ≠ .empty ↔ (taken moves).length + capacity < output.length) ∧
        (p.program ≠ .empty → ∀ d, d ≠ STDIN_FILENO → d ≠ STDOUT_FILENO →
          d ≠ s.pipeChildToParent.2 → p.program d = s.table d) := by
  obtain ⟨hinv, -⟩ := inv_of_run (fun _ => hstarts.redirected) hrun
  obtain ⟨hdone, hprogram⟩ := hinv.stuck hcapacity hstuck
  have htransfer := hinv.transfer
  rw [hdone] at htransfer
  have hlength := congrArg List.length hinv.content
  rw [List.length_append, Channel.content, List.length_append] at hlength
  refine ⟨hinv.alive, htransfer, ?_, ?_⟩
  · rcases hprogram with houtput | ⟨hheld, rest, houtput, hrest⟩
    · rw [houtput] at hlength
      refine iff_of_false (not_not_intro (hinv.ended houtput)) ?_
      have hroom := hinv.room
      simp only [Option.getD_none, List.length_nil] at hlength
      omega
    · have hpos := List.length_pos_iff.mpr hrest
      rw [houtput, hheld, Option.getD_some] at hlength
      refine iff_of_true (fun hempty => ?_) (by omega)
      have hreadEnd := s.child_readEnd calls
      rw [← (hinv.running rest houtput).1, hempty] at hreadEnd
      exact Table.not_holds_empty _ hreadEnd
  · intro hleft d hstdin hstdout hwrite
    cases houtput : p.channel.output with
    | none => exact absurd (hinv.ended houtput) hleft
    | some rest => rw [(hinv.running rest houtput).1, s.child_of_ne calls hstdin hstdout hwrite]

end Outcome

/-- A transfer to the connection behind descriptor 5. -/
def samplePiped : Piped where
  before := (((Table.empty.opened 0 .stream).opened 1 .stream).opened 5 (.connection 0)).opened 6 .file
  file := 6
  pipeChildToParent := (7, 8)
  stdin := by decide
  stdout := by decide
  opened := by decide
  noPipe d := by
    simp only [Table.opened, Table.empty, Function.update_apply]
    split_ifs <;> exact ⟨by decide, by decide⟩
  free := by decide
  different := by decide

def sampleCalls : TransferCalls where
  fork := true
  openRead _ := some [97, 98, 99]
  pipe := true
  forkAgain := true
  dup2Stdin := true
  dup2Stdout := true
  execve _ := true
  unflushed := []
  sizes := []

def sampleTransformation : TransformationStructure := ⟨str "/bin/rev", none⟩

theorem sampleCalls_starts : sampleCalls.Starts (some sampleTransformation) :=
  ⟨rfl, rfl, _, rfl, rfl⟩

/-- The transfer has sent everything, by a pipe that holds two bytes. -/
def sampleEnd : Pipeline :=
  ⟨⟨none, []⟩, .empty, .empty, .done, [99, 98, 97] ++ terminator⟩

def sampleMoves : List PipeMove :=
  [.pipe (.writes [99, 98]), .closes, .pipe (.reads [99]), .pipe (.writes [97]), .sends [.again],
    .pipe (.reads [98, 97]), .pipe .exits, .sends [.accepted 1], .pipe .findsEnd, .sends []]

theorem sampleMoves_run :
    (system samplePiped 2).Run (start samplePiped sampleCalls [99, 98, 97]) sampleMoves sampleEnd := by
  have hreadable : ∀ {t : Table Int OpenFile}, t.Holds .readEnd ∨
      (samplePiped.child sampleCalls).Holds .readEnd := .inr (samplePiped.child_readEnd _)
  refine .cons (.writes rfl
    (@Channel.Step.writes _ 2 _ _ [99, 98] [97] [] nofun (by decide) hreadable)) ?_
  refine .cons (.closes rfl) ?_
  refine .cons (.reads rfl (by decide) (@Channel.Step.reads _ 2 _ _ _ [99] [98] nofun)) ?_
  refine .cons (.writes rfl
    (@Channel.Step.writes _ 2 _ _ [97] [] [98] nofun (by decide) hreadable)) ?_
  refine .cons (.sends rfl [.again]) ?_
  refine .cons (.reads rfl (by decide) (@Channel.Step.reads _ 2 _ _ _ [98, 97] [] nofun)) ?_
  refine .cons (.exits .exits) ?_
  refine .cons (.sends rfl [.accepted 1]) ?_
  refine .cons (.findsEnd rfl (.findsEnd ?_)) ?_
  · rintro (h | h)
    · exact samplePiped.parent_writeEnd h
    · exact Table.not_holds_empty _ h
  · exact .single (.terminates rfl [])

theorem sampleMoves_accepted : Accepted sampleMoves := by
  intro results hmem
  simp only [sampleMoves, List.mem_cons, PipeMove.sends.injEq, reduceCtorEq, false_or, or_false,
    List.not_mem_nil] at hmem
  rcases hmem with rfl | rfl | rfl
  · decide
  · decide
  · decide

/-- Three bytes by a pipe that holds two. -/
theorem delivers_reversed :
    sampleEnd.sent = (sendFileTransformed List.reverse (some sampleTransformation) sampleCalls []
      true).flatten :=
  ((delivers List.reverse rfl rfl rfl sampleCalls_starts (by decide) sampleMoves_run
      sampleMoves_accepted).2.2
    (stuck_of_done rfl (.inl rfl))).1

/-- The client is gone when the first byte has been read, and the pipe holds one. -/
def failingMoves : List PipeMove :=
  [.closes, .pipe (.writes [99]), .pipe (.reads [99]), .sends [.failed], .pipe (.writes [98]),
    .sends [.failed]]

def failingEnd : Pipeline :=
  ⟨⟨some [97], [98]⟩, .empty, samplePiped.child sampleCalls, .done, []⟩

theorem failingMoves_run :
    (system samplePiped 1).Run (start samplePiped sampleCalls [99, 98, 97]) failingMoves
      failingEnd := by
  have hreadable : ∀ {t : Table Int OpenFile}, t.Holds .readEnd ∨
      (samplePiped.child sampleCalls).Holds .readEnd := .inr (samplePiped.child_readEnd _)
  refine .cons (.closes rfl) ?_
  refine .cons (.writes rfl
    (@Channel.Step.writes _ 1 _ _ [99] [98, 97] [] nofun (by decide) hreadable)) ?_
  refine .cons (.reads rfl (by decide) (@Channel.Step.reads _ 1 _ _ _ [99] [] nofun)) ?_
  refine .cons (.sends rfl [.failed]) ?_
  refine .cons (.writes rfl
    (@Channel.Step.writes _ 1 _ _ [98] [97] [] nofun (by decide) hreadable)) ?_
  exact .single (.terminates rfl [.failed])

/-- The program waits for room for good, and has the client's connection. -/
theorem left_behind_failing :
    failingEnd.transfer = .empty ∧ failingEnd.program 5 = some (.connection 0) := by
  have hfull : failingEnd.channel.Full 1 ∧ failingEnd.Readable :=
    ⟨⟨rfl, [97], rfl, nofun⟩, .inr (samplePiped.child_readEnd sampleCalls)⟩
  obtain ⟨-, htransfer, hleft, hkept⟩ :=
    left_behind_iff sampleCalls_starts (by decide) failingMoves_run
      (stuck_of_done rfl (.inr hfull))
  have hprogram := hkept (hleft.mpr (by decide)) 5 (by decide) (by decide) (by decide)
  exact ⟨htransfer, hprogram.trans (by decide)⟩

end Pipeline

/-! ### The transfer without its pipe -/

/-- The steps of a child alone: what it sends, and where it is then. -/
def Child.run (transform : Bytes → Bytes) (fs : Files) : Child → List Nat → Bytes × Child
  | c, [] => ([], c)
  | c, size :: sizes =>
    let r := c.step transform fs size
    let rest := Child.run transform fs r.2 sizes
    (r.1 ++ rest.1, rest.2)

/-- The stage of a child that has read so much. -/
def PipeStage.toStage (offset : Nat) : PipeStage → Stage
  | .started => .copying offset
  | .copying => .copying offset
  | .holding chunk => .holding (offset - chunk.length) chunk
  | .ending => .ending
  | .done => .done

section Refinement

variable {transform : Bytes → Bytes} {fs : Files}

theorem Child.run_append (c : Child) (sizes sizes' : List Nat) :
    Child.run transform fs c (sizes ++ sizes') =
      ((Child.run transform fs c sizes).1 ++
          (Child.run transform fs (Child.run transform fs c sizes).2 sizes').1,
        (Child.run transform fs (Child.run transform fs c sizes).2 sizes').2) := by
  induction sizes generalizing c with
  | nil => rfl
  | cons size sizes ih => simp only [List.cons_append, Child.run, ih, List.append_assoc]

namespace Pipeline

variable {s : Piped} {capacity : Nat} {calls : TransferCalls} {past : List PipeMove}
  {p p' : Pipeline} {m : PipeMove} {path : Bytes}

/-- A child has done what the transfer has. -/
def Followed (transform : Bytes → Bytes) (fs : Files) (path : Bytes) (past : List PipeMove)
    (p : Pipeline) : Prop :=
  ∃ sizes, Child.run transform fs ⟨path, true, .copying 0⟩ sizes =
    (p.sent, ⟨path, true, p.stage.toStage (taken past).length⟩)

/-- Another step of the child. -/
theorem Followed.concat (h : Followed transform fs path past p) {past' : List PipeMove} (size : Nat)
    {data : Bytes} (hsent : p'.sent = p.sent ++ data)
    (hstep : Child.step transform fs size ⟨path, true, p.stage.toStage (taken past).length⟩ =
      (data, ⟨path, true, p'.stage.toStage (taken past').length⟩)) :
    Followed transform fs path past' p' := by
  obtain ⟨sizes, hrun⟩ := h
  refine ⟨sizes ++ [size], ?_⟩
  rw [Child.run_append, hrun]
  simp only [Child.run, hstep, List.append_nil, hsent]

/-- The child has nothing to do. -/
theorem Followed.same (h : Followed transform fs path past p) {past' : List PipeMove}
    (hsent : p'.sent = p.sent) (hstage : p'.stage.toStage (taken past').length =
      p.stage.toStage (taken past).length) : Followed transform fs path past' p' := by
  unfold Followed
  rw [hsent, hstage]
  exact h

/-- **Step lemma.** -/
theorem Followed.step (h : Followed transform fs path past p)
    (hinv : Inv s capacity calls (transform (fs.content path)) past p)
    (hsentinv : SentInv (transform (fs.content path)) past p) (haccepted : Accepted (past ++ [m]))
    (hstep : Step s capacity p m p') : Followed transform fs path (past ++ [m]) p' := by
  have hquiet : ∀ m, taken [m] = [] → taken (past ++ [m]) = taken past := fun m hm => by
    rw [taken_concat, hm, List.append_nil]
  cases hstep with
  | closes hstage => exact h.same rfl (by rw [hquiet _ rfl, hstage]; rfl)
  | writes _ _ => exact h.same rfl (by rw [hquiet _ rfl])
  | exits _ => exact h.same rfl (by rw [hquiet _ rfl])
  | killed _ => exact h.same rfl (by rw [hquiet _ rfl])
  | @reads data c hstage hfits hpipe =>
    have htaken : taken [.pipe (.reads data)] = data := List.append_nil _
    obtain ⟨hdata, -⟩ := hpipe.reads_output
    have hpos := List.length_pos_iff.mpr hdata
    -- the bytes read are those behind what has been read before
    have hbody : (transform (fs.content path)).drop (taken past).length = data ++ c.content := by
      rw [← hinv.content, List.drop_left, ← hpipe.content nofun]
      rfl
    have hmore : ¬ (transform (fs.content path)).length ≤ (taken past).length := by
      rw [← List.drop_eq_nil_iff, hbody]
      exact fun hnil => hdata (List.append_eq_nil_iff.mp hnil).1
    have hsize : max 1 (min data.length BUFFER_SIZE) = data.length := by
      rw [Nat.min_eq_left hfits, Nat.max_eq_right hpos]
    refine h.concat data.length (List.append_nil _).symm ?_
    rw [taken_concat, htaken, List.length_append]
    simp only [Child.step, hstage, PipeStage.toStage, Files.body, if_true, if_neg hmore, hbody, hsize,
      List.take_left, Nat.add_sub_cancel]
  | findsEnd hstage hpipe =>
    obtain ⟨hnobody, hheld, rfl⟩ := hpipe.findsEnd_output
    have hall : taken past = transform (fs.content path) := by
      have hcontent := hinv.content
      rw [Channel.content, hheld, hinv.output_of_not_writable hnobody] at hcontent
      simpa using hcontent
    refine h.concat 0 (List.append_nil _).symm ?_
    simp only [Child.step, hstage, PipeStage.toStage, Files.body, if_true, hall, Nat.le_refl]
  | @sends chunk hstage results =>
    obtain ⟨hsent, hreturned⟩ := writeSocketBuffer_of_not_failed (haccepted results (by simp)) chunk
    simp only [SentInv, hstage] at hsentinv
    have hlength := congrArg List.length hsentinv
    rw [List.length_append] at hlength
    refine h.concat 0 (congrArg (p.sent ++ ·) hsent) ?_
    have hoffset : (taken past).length - chunk.length + chunk.length = (taken past).length := by omega
    rw [hquiet _ rfl]
    simp only [Child.step, hstage, PipeStage.toStage, if_neg (Int.not_lt.mpr hreturned), hoffset]
  | terminates hstage results =>
    obtain ⟨hsent, -⟩ := writeSocketBuffer_of_not_failed (haccepted results (by simp)) terminator
    refine h.concat 0 (congrArg (p.sent ++ ·) hsent) ?_
    simp only [Child.step, hstage, PipeStage.toStage]

/-- **The pipe does not show**: whatever the order of its steps and those of the program, a transfer
does what a child does that reads the output of the transformation from a file. -/
theorem refines_child {trans : Option TransformationStructure} {moves : List PipeMove}
    (hstarts : calls.Starts trans)
    (hrun : (system s capacity).Run (start s calls (transform (fs.content path))) moves p)
    (haccepted : Accepted moves) : Followed transform fs path moves p := by
  have hfollowed := hrun.history (R := fun past p =>
    (Inv s capacity calls (transform (fs.content path)) past p ∧
      (Accepted past → SentInv (transform (fs.content path)) past p)) ∧
        (Accepted past → Followed transform fs path past p)) ?_
    ⟨⟨.start s capacity fun _ => hstarts.redirected, fun _ => rfl⟩, fun _ => ⟨[], rfl⟩⟩
  · exact hfollowed.2 haccepted
  · intro past p m p' ⟨⟨hinv, hsent⟩, hfollowed⟩ hstep
    have hbefore : Accepted (past ++ [m]) → Accepted past := fun h results hmem =>
      h results (List.mem_append_left _ hmem)
    refine ⟨⟨hinv.step hstep, fun h => (hsent (hbefore h)).step hinv h hstep⟩, fun h => ?_⟩
    exact (hfollowed (hbefore h)).step hinv (hsent (hbefore h)) h hstep

/-- The three bytes as they come out of their pipe. -/
theorem refines_child_reversed :
    Followed List.reverse ⟨fun _ => [97, 98, 99], fun _ => true⟩ [] sampleMoves sampleEnd :=
  @refines_child List.reverse ⟨fun _ => [97, 98, 99], fun _ => true⟩ samplePiped 2 sampleCalls
    sampleEnd [] (some sampleTransformation) sampleMoves sampleCalls_starts sampleMoves_run
    sampleMoves_accepted

end Pipeline

end Refinement

end Pop3Server
