import Pop3Server.NumberArguments
import Pop3Server.Pieces
import Pop3Server.SendFile

/-!
# What RETR promises (`send_file_process`, `send_file`, `fork_and_exec`)

`view_message` sends the status line and counts the message before the process
forks, and each of the calls that come then can fail in the child, which returns
and says nothing.  `TransferCalls` are their outcomes; `retr_promise_iff` gives
those for which the file follows the line that announces it.
-/

namespace Pop3Server

/-- The outcomes of the system calls of one transfer.  `sizes` is what the reads are offered. -/
structure TransferCalls where
  fork : Bool
  /-- what `open` finds under a path -/
  openRead : Bytes → Option Bytes
  pipe : Bool
  /-- the fork of `fork_and_exec` -/
  forkAgain : Bool
  dup2Stdin : Bool
  dup2Stdout : Bool
  execve : TransformationStructure → Bool
  /-- what the server has printed and not yet written out at the forks: the children inherit it in
  the buffer of standard output, and `exit` writes it out -/
  unflushed : Bytes
  sizes : List Nat

/-- The reads of some content, each followed by a write that the socket accepts. -/
def readsOf (sizes : List Nat) (content : Bytes) : List FileRead :=
  (Pieces.pieces BUFFER_SIZE sizes content).attach.map fun c =>
    ⟨c.1, Pieces.ne_nil_of_mem_pieces BUFFER_SIZE sizes content c.1 c.2,
      Pieces.length_le_of_mem_pieces BUFFER_SIZE Nat.succ_pos' sizes content c.1 c.2, []⟩

/-- The line that announces a message. -/
def announcement (f : FileList) : Bytes := str "+OK " ++ formatInt f.size ++ str " octets\r\n"

def setupPipes (calls : TransferCalls) : Int := if calls.pipe then 0 else -1

section Transformation

-- what the transformation makes of its input
variable (transform : Bytes → Bytes)

/-- `fork_and_exec` on the file: what is written into the pipe before it is closed, or `none` when
no process is there to write.  The process ends at a failed call, and at a null `trans`.  Standard
output is the pipe by the time of `execve`, so that the `exit` behind it writes into the pipe. -/
def forkAndExec (trans : Option TransformationStructure) (calls : TransferCalls)
    (content : Bytes) : Option Bytes :=
  if calls.forkAgain = false then none
  else if calls.dup2Stdin = false then some []
  else if calls.dup2Stdout = false then some []
  else
    match trans with
    | none => some []
    | some t => some (if calls.execve t then transform content else calls.unflushed)

/-- The loop of `transfer_without_transformation`, on the pipe. -/
def transferWithTransformation (reads : List FileRead) : List Bytes :=
  transferWithoutTransformation reads

/-- `send_file` whole, on a socket that accepts everything. -/
def sendFileTransformed (trans : Option TransformationStructure) (calls : TransferCalls)
    (filename : Bytes) (transformed : Bool) : List Bytes :=
  match calls.openRead filename with
  | none => []
  | some content =>
    if transformed then
      if setupPipes calls ≠ 0 then []
      else
        match forkAndExec transform trans calls content with
        | none => []
        | some written =>
          transferWithTransformation (readsOf calls.sizes written) ++
            (writeSocketBuffer [] terminator).sent
    else sendFile (some (readsOf calls.sizes content)) []

def sendFileProcess (trans : Option TransformationStructure) (calls : TransferCalls)
    (filename : Bytes) (transformed : Bool) : List Bytes :=
  if calls.fork then sendFileTransformed transform trans calls filename transformed else []

/-- What an effect puts on the client's socket in the end. -/
def Effect.output (trans : Option TransformationStructure) (calls : TransferCalls) :
    Effect → Bytes
  | .send data => data
  | .transfer path transformed => (sendFileProcess transform trans calls path transformed).flatten
  | _ => []

/-- All that a command puts on the client's socket. -/
def Step.output (trans : Option TransformationStructure) (calls : TransferCalls) (st : Step) :
    Bytes :=
  (st.effects.map (Effect.output transform trans calls)).flatten

/-- The transformation runs. -/
def TransferCalls.Starts (trans : Option TransformationStructure) (calls : TransferCalls) : Prop :=
  calls.dup2Stdin = true ∧ calls.dup2Stdout = true ∧ ∃ t, trans = some t ∧ calls.execve t = true

theorem TransferCalls.Starts.redirected {trans : Option TransformationStructure}
    {calls : TransferCalls} (h : calls.Starts trans) :
    calls.dup2Stdin = true ∧ calls.dup2Stdout = true :=
  ⟨h.1, h.2.1⟩

/-- RETR announces and counts a message, starts the transformation there is, and sends the body and
the terminator, or answers with an error and counts nothing. -/
def KeepsPromise (sh : Shared) (u : User) (md : Maildir) (n : Int) (calls : TransferCalls)
    (st : Step) : Prop :=
  (∃ d f rest content, viewTarget md n = some (d, f :: rest) ∧
      calls.openRead (messagePath sh.pop3.baseDir u.name d f.name) = some content ∧
      (sh.pop3.transEnabled = true → calls.Starts sh.pop3.trans) ∧
      st.shared.metrics = sh.metrics.count f ∧
      st.output transform sh.pop3.trans calls = announcement f ++
        ((if sh.pop3.transEnabled then transform content else content) ++ terminator)) ∨
    ∃ response, IsErr response ∧ st.output transform sh.pop3.trans calls = response ∧
      st.shared.metrics = sh.metrics

/-- Every call of the transfer succeeds, or there is no message to transfer. -/
def TransferStarts (sh : Shared) (u : User) (md : Maildir) (n : Int) (calls : TransferCalls) :
    Prop :=
  ∀ d f rest, viewTarget md n = some (d, f :: rest) → calls.fork = true ∧
    calls.openRead (messagePath sh.pop3.baseDir u.name d f.name) ≠ none ∧
      (sh.pop3.transEnabled = true →
        calls.pipe = true ∧ calls.forkAgain = true ∧ calls.Starts sh.pop3.trans)

/-! ### The child -/

theorem contentOf_readsOf (sizes : List Nat) (content : Bytes) :
    contentOf (readsOf sizes content) = content := by
  have hbytes : (readsOf sizes content).map (·.bytes) = Pieces.pieces BUFFER_SIZE sizes content := by
    rw [readsOf, List.map_map]
    exact List.attach_map_subtype_val _
  rw [contentOf, hbytes, Pieces.flatten_pieces]

theorem readsOf_results (sizes : List Nat) (content : Bytes) :
    ∀ r ∈ readsOf sizes content, r.results = [] := by
  intro r hr
  obtain ⟨c, -, rfl⟩ := List.mem_map.mp hr
  rfl

/-- What a transfer sends that gets as far as its loop. -/
theorem transfer_flatten (sizes : List Nat) (content : Bytes) :
    (sendFile (some (readsOf sizes content)) []).flatten = content ++ terminator := by
  rw [sendFile_flatten (readsOf_results sizes content), contentOf_readsOf]

theorem forkAndExec_eq_none {trans : Option TransformationStructure} {calls : TransferCalls}
    {content : Bytes} :
    forkAndExec transform trans calls content = none ↔ calls.forkAgain = false := by
  unfold forkAndExec
  by_cases hfork : calls.forkAgain = false
  · simp [hfork]
  · rw [if_neg hfork]
    refine iff_of_false ?_ hfork
    split
    · simp
    split
    · simp
    · cases trans <;> simp

theorem forkAndExec_of_starts {trans : Option TransformationStructure} {calls : TransferCalls}
    (hfork : calls.forkAgain = true) (hstarts : calls.Starts trans) (content : Bytes) :
    forkAndExec transform trans calls content = some (transform content) := by
  obtain ⟨hstdin, hstdout, t, rfl, hexec⟩ := hstarts
  simp [forkAndExec, hfork, hstdin, hstdout, hexec]

theorem terminator_ne_nil (body : Bytes) : body ++ terminator ≠ [] := by
  intro h
  exact absurd (List.append_eq_nil_iff.mp h).2 (by decide)

theorem setupPipes_ne_zero_iff (calls : TransferCalls) : setupPipes calls ≠ 0 ↔ calls.pipe = false := by
  unfold setupPipes
  split
  · next hpipe => simp [hpipe]
  · next hpipe => simpa using hpipe

/-- The child with a transformation. -/
theorem sendFileTransformed_of_starts {trans : Option TransformationStructure}
    {calls : TransferCalls} {path content : Bytes} (hopen : calls.openRead path = some content)
    (hpipe : calls.pipe = true) (hfork : calls.forkAgain = true) (hstarts : calls.Starts trans) :
    (sendFileTransformed transform trans calls path true).flatten =
      transform content ++ terminator := by
  have hsetup : ¬ setupPipes calls ≠ 0 := by simp [setupPipes, hpipe]
  simp only [sendFileTransformed, hopen, if_true, if_neg hsetup,
    forkAndExec_of_starts transform hfork hstarts content]
  exact transfer_flatten calls.sizes (transform content)

/-- Without the pipe or the process that writes into it nothing is sent. -/
theorem calls_of_sendFileTransformed {trans : Option TransformationStructure}
    {calls : TransferCalls} {path : Bytes}
    (hsent : (sendFileTransformed transform trans calls path true).flatten ≠ []) :
    calls.pipe = true ∧ calls.forkAgain = true := by
  unfold sendFileTransformed at hsent
  split at hsent
  · exact absurd rfl hsent
  rw [if_pos rfl] at hsent
  split at hsent
  · exact absurd rfl hsent
  next hsetup =>
  refine ⟨by_contra fun hno => hsetup ((setupPipes_ne_zero_iff calls).mpr ?_), ?_⟩
  · exact Bool.not_eq_true _ ▸ hno
  · by_contra hno
    rw [(forkAndExec_eq_none transform).mpr (Bool.not_eq_true _ ▸ hno)] at hsent
    exact hsent rfl

/-- **The child sends the body and the terminator exactly when its calls succeed**, provided that
the transformation it is to send the file through starts. -/
theorem sendFileProcess_iff {trans : Option TransformationStructure} {calls : TransferCalls}
    {path content : Bytes} (hopen : calls.openRead path = some content) {transformed : Bool}
    (hstarts : transformed = true → calls.Starts trans) :
    (sendFileProcess transform trans calls path transformed).flatten =
        (if transformed then transform content else content) ++ terminator ↔
      calls.fork = true ∧ (transformed = true → calls.pipe = true ∧ calls.forkAgain = true) := by
  unfold sendFileProcess
  cases calls.fork with
  | false => exact iff_of_false (fun h => terminator_ne_nil _ h.symm) (by simp)
  | true =>
    simp only [if_true, true_and]
    cases transformed with
    | true =>
      rw [if_pos rfl]
      constructor
      · intro hsent _
        exact calls_of_sendFileTransformed transform (hsent ▸ terminator_ne_nil _)
      · intro h
        obtain ⟨hpipe, hfork⟩ := h rfl
        exact sendFileTransformed_of_starts transform hopen hpipe hfork (hstarts rfl)
    | false =>
      simp only [sendFileTransformed, hopen, Bool.false_eq_true, if_false]
      exact iff_of_true (transfer_flatten calls.sizes content) nofun

theorem not_isErr_announcement (f : FileList) (more : Bytes) : ¬ IsErr (announcement f ++ more) := by
  have hok : str "+OK " = str "+OK" ++ str " " := by decide
  simp only [announcement, hok, List.append_assoc]
  exact not_isErr_ok _

/-! ### RETR -/

/-- **RETR promises only what it delivers exactly when every call of the transfer succeeds**, or
there is no such message. -/
theorem retr_promise_iff {sh : Shared} {s : Session} {u : User}
    (hstate : s.clientState = .transaction) (hu : s.user = some u) (md : Maildir) (n : Int)
    (calls : TransferCalls) :
    KeepsPromise transform sh u md n calls (viewMessage sh s md n) ↔
      TransferStarts sh u md n calls := by
  rcases viewTarget_cases md n with hview | ⟨d, f, rest, hview⟩
  · refine iff_of_true (.inr ?_) fun d f rest h => ?_
    · obtain ⟨response, herr, hreply⟩ := @viewMessage_refuses sh s md n hview
      refine ⟨response, herr, ?_, by rw [hreply]; rfl⟩
      rw [hreply]
      exact List.append_nil response
    · rw [hview] at h
      cases h
  · have hfound := @viewMessage_found sh s u md hu n d f rest hview
    have htransformed : (sh.pop3.transEnabled && s.clientState == .transaction) =
        sh.pop3.transEnabled := by
      rw [hstate]
      exact Bool.and_true _
    have hout : (viewMessage sh s md n).output transform sh.pop3.trans calls = announcement f ++
        (sendFileProcess transform sh.pop3.trans calls
          (messagePath sh.pop3.baseDir u.name d f.name) sh.pop3.transEnabled).flatten := by
      rw [hfound, Step.output, retrieval, htransformed]
      simp only [List.map_cons, List.map_nil, List.flatten_cons, List.flatten_nil, List.append_nil]
      rfl
    constructor
    · rintro (⟨d', f', rest', content, hview', hopen, hstarts, -, hdelivered⟩ |
        ⟨response, herr, hreply, -⟩)
      · intro d'' f'' rest'' hview''
        obtain ⟨rfl, hlist⟩ := Prod.mk.inj (Option.some.inj (hview.symm.trans hview'))
        obtain ⟨rfl, -⟩ := List.cons.inj hlist
        obtain ⟨rfl, hlist⟩ := Prod.mk.inj (Option.some.inj (hview.symm.trans hview''))
        obtain ⟨rfl, -⟩ := List.cons.inj hlist
        rw [hout] at hdelivered
        have hsent := List.append_cancel_left hdelivered
        obtain ⟨hfork, hpipe⟩ := (sendFileProcess_iff transform hopen hstarts).mp hsent
        refine ⟨hfork, by simp [hopen], fun htrans => ?_⟩
        exact ⟨(hpipe htrans).1, (hpipe htrans).2, hstarts htrans⟩
      · rw [hout] at hreply
        subst hreply
        exact absurd herr (not_isErr_announcement f _)
    · intro h
      obtain ⟨hfork, hopen, hrun⟩ := h d f rest hview
      obtain ⟨content, hcontent⟩ := Option.ne_none_iff_exists'.mp hopen
      have hstarts := fun htrans => (hrun htrans).2.2
      refine .inl ⟨d, f, rest, content, hview, hcontent, hstarts, by rw [hfound], ?_⟩
      rw [hout, (sendFileProcess_iff transform hcontent hstarts).mpr
        ⟨hfork, fun htrans => ⟨(hrun htrans).1, (hrun htrans).2.1⟩⟩]

end Transformation

/-- The only message can be opened, and every call succeeds. -/
def allSucceed : TransferCalls where
  fork := true
  openRead := fun _ => some (str "hello")
  pipe := true
  forkAgain := true
  dup2Stdin := true
  dup2Stdout := true
  execve := fun _ => true
  unflushed := []
  sizes := [2]

theorem retr_promise_sample :
    KeepsPromise id sampleShared ⟨str "anna", str "secret"⟩ singleMessage 1 allSucceed
        (viewMessage sampleShared sampleLoggedIn singleMessage 1) ↔
      TransferStarts sampleShared ⟨str "anna", str "secret"⟩ singleMessage 1 allSucceed :=
  retr_promise_iff id rfl rfl singleMessage 1 allSucceed

/-- `execve` fails: the client is sent what the server has printed. -/
example : (sendFileTransformed id (some ⟨str "/bin/none", none⟩)
      { allSucceed with execve := fun _ => false, unflushed := str "Client disconnected.\n" }
      [] true).flatten = str "Client disconnected.\n" ++ terminator := by
  decide +kernel

/-- The file has been removed by another session: it is announced, counted and never sent. -/
theorem retr_promise_removed :
    ¬ ∀ (transform : Bytes → Bytes) (sh : Shared) (s : Session) (u : User) (md : Maildir) (n : Int)
      (calls : TransferCalls), s.clientState = .transaction → s.user = some u →
      KeepsPromise transform sh u md n calls (viewMessage sh s md n) := by
  intro h
  rcases h id sampleShared sampleLoggedIn ⟨str "anna", str "secret"⟩ singleMessage 1
    { allSucceed with openRead := fun _ => none } rfl rfl with
    ⟨d, f, rest, content, -, hopen, -, -⟩ | ⟨response, herr, hreply, hmetrics⟩
  · cases hopen
  · revert hmetrics
    decide

end Pop3Server
