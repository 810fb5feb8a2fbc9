import Mathlib.Data.List.Find
import Pop3Server.Receiving
import Pop3Server.Responses

/-!
# Replies and the commands they belong to

While every reply has been taken whole the server's session stays what it was, and
nothing is left on the link between two commands.  So a run pairs every reply with
its command exactly when each turn by itself does: `replies_paired_iff` gives the
lines and the deliveries.
-/

namespace Pop3Server

/-! ### The server's part -/

/-- A link on which everything has been received. -/
def Link.idle (s : Session) : Link := ⟨s, false, []⟩

theorem TypedLine.newline_notMem (line : TypedLine) : LF ∉ line.text :=
  fun h => (line.plain LF h).1 rfl

/-- A line is sent with CR and LF behind it when there is room for them. -/
theorem readCommand_eq (line : TypedLine) :
    readCommand line.text =
      if line.text.length + 2 < BUFFER_SIZE then some (line.text ++ [CR, LF]) else none := by
  have hnul : ∀ n, NUL ∉ (line.text ++ [LF]).take n := by
    intro n h
    rcases List.mem_append.mp (List.mem_of_mem_take h) with htext | hlf
    · exact (line.plain NUL htext).2 rfl
    · exact absurd (List.mem_singleton.mp hlf) (by decide)
  unfold readCommand
  simp only [cstr_of_notMem (hnul _)]
  by_cases hfits : line.text.length + 2 < BUFFER_SIZE
  · have hwhole : (line.text ++ [LF]).take (BUFFER_SIZE - 1) = line.text ++ [LF] := by
      apply List.take_of_length_le
      simp only [List.length_append, List.length_singleton]
      omega
    have hroom : 0 < (line.text ++ [LF]).length ∧ (line.text ++ [LF]).length + 1 < BUFFER_SIZE := by
      simp only [List.length_append, List.length_singleton]
      omega
    rw [if_pos hfits, hwhole, if_pos hroom]
    simp
  · have hroom : ¬ ((line.text ++ [LF]).take (BUFFER_SIZE - 1)).length + 1 < BUFFER_SIZE := by
      simp only [List.length_take, List.length_append, List.length_singleton]
      omega
    rw [if_neg hfits, if_neg fun h => hroom h.2]

theorem callLines_command {text : Bytes} (h : LF ∉ text) :
    callLines [] (text ++ [CR, LF]) = [text] := by
  have hseg : LF ∉ text ++ [CR] := by
    intro hmem
    rcases List.mem_append.mp hmem with htext | hcr
    · exact h htext
    · exact absurd (List.mem_singleton.mp hcr) (by decide)
  have hdrop : dropCR (text ++ [CR]) = text := by simp [dropCR]
  have hsplit : text ++ [CR, LF] = (text ++ [CR]) ++ LF :: [] := by simp
  rw [hsplit, callLines_append_piece hseg, hdrop]
  rfl

/-- The keywords have four letters: no more of a line is looked at. -/
theorem getCommandValue_take (text : Bytes) :
    getCommandValue text = getCommandValue (text.take 4) := by
  have hkeyword : ∀ e ∈ commandTable, e.keyword.length = 4 := by decide
  have hsame : ∀ e ∈ commandTable,
      strncmpEq text e.keyword = strncmpEq (text.take 4) e.keyword := by
    intro e he
    rw [strncmpEq, strncmpEq, hkeyword e he, List.take_take]
    rfl
  unfold getCommandValue commandEntry
  rw [List.find?_congr hsame]

theorem needsManager_of_keyword {text key : Bytes} (h4 : 4 ≤ text.length) (hlength : key.length = 4)
    (hkey : (getCommandValue key).needsManager = true)
    (h : strncmpEq (text ++ [CR, LF]) key = true) :
    (getCommandValue text).needsManager = true := by
  have htake : text.take 4 = key := by
    rw [strncmpEq, hlength, List.take_append_of_le_length h4] at h
    exact eq_of_beq h
  rw [getCommandValue_take, htake]
  exact hkey

/-- The commands the client knows are management commands of the server. -/
theorem needsManager_of_getCommand {text : Bytes} (h4 : 4 ≤ text.length)
    (h : getCommand (text ++ [CR, LF]) ≠ none) : (getCommandValue text).needsManager = true := by
  unfold getCommand at h
  split at h
  · next hconfig =>
    simp only [Bool.or_eq_true] at hconfig
    rcases hconfig with (((hkey | hkey) | hkey) | hkey) | hkey <;>
      exact needsManager_of_keyword h4 (by decide) (by decide) hkey
  split at h
  · next hkey => exact needsManager_of_keyword h4 (by decide) (by decide) hkey
  split at h
  · next hkey => exact needsManager_of_keyword h4 (by decide) (by decide) hkey
  split at h
  · next hkey => exact needsManager_of_keyword h4 (by decide) (by decide) hkey
  · exact absurd rfl h

/-- A session that is not logged in stays as it is through NOOP and the management commands. -/
theorem Outcome.keeps_session {env : Env} {sh : Shared} {s : Session} {comm : Pop3Command}
    {arg : Option Bytes} {st : Step} (h : Outcome env sh s comm arg st)
    (hs : s.clientState ≠ .transaction) (hcomm : comm = .noop ∨ comm.needsManager = true) :
    st.session = s ∧ st.control = .next := by
  cases h with
  | refused _ _ _ => exact ⟨rfl, rfl⟩
  | told _ _ _ _ => exact ⟨rfl, rfl⟩
  | configured _ _ _ _ _ _ => exact ⟨rfl, rfl⟩
  | logSent _ => exact ⟨rfl, rfl⟩
  | dangling hstate _ _ => exact absurd hstate hs
  | _ => rcases hcomm with hnoop | hmanager <;> contradiction

theorem execute_answers (env : Env) (sh : Shared) {s : Session} (hs : s.clientState ≠ .transaction)
    (comm : Pop3Command) (arg : Option Bytes) (tail : Bytes) :
    Answered (execute env sh s comm arg tail).effects := by
  have hloaded : s.clientState = .transaction → s.maildir ≠ none := fun h => absurd h hs
  by_cases hlist : comm = .list
  · rw [hlist]
    rcases listCommand_cases sh hloaded arg with ⟨-, hanswered⟩ | ⟨hone, -⟩
    · exact hanswered
    · exact absurd hone.1 hs
  · exact execute_answered env sh hloaded hlist arg tail

section Transform

variable (transform : Bytes → Bytes)

/-- What the server writes for a command when the link is idle. -/
def Attempt.response (a : Attempt) (s : Session) (command : Bytes) : Bytes :=
  ((Link.idle s).serve transform a command).1

theorem Link.serve_line {text : Bytes} (h : LF ∉ text) (s : Session) (unread : Bytes)
    (a : Attempt) :
    (⟨s, false, unread⟩ : Link).serve transform a (text ++ [CR, LF]) =
      let st := dispatch a.env a.shared s text
      (transcript transform a.files st.effects,
        ⟨st.session, decide (st.control ≠ .next),
          unread ++ transcript transform a.files st.effects⟩) := by
  have hone : ∀ w : LoopState, exchanges w [text] = [w.exchange text] ∧
      commandMachine.final w [text] = w.after (w.exchange text).step := by
    intro w
    cases hgo : commandMachine.stop w text with
    | true => exact ⟨exchanges_cons_stop hgo [], Machine.final_cons_stop _ hgo []⟩
    | false => exact ⟨exchanges_cons_go hgo [], Machine.final_cons_go _ hgo []⟩
  unfold Link.serve
  rw [if_neg Bool.false_ne_true, callLines_command h]
  simp only [hone, List.flatMap_singleton]
  rfl

variable {s : Session} (hs : s.clientState ≠ .transaction) (a : Attempt) {text : Bytes}
  (h4 : 4 ≤ text.length) (hfit : text.length ≤ 2 * BUFFER_SIZE)
include hs h4 hfit

/-- A session that is not logged in gets an answer to every line. -/
theorem transcript_ne_nil :
    transcript transform a.files (dispatch a.env a.shared s text).effects ≠ [] := by
  rw [dispatch_of_long h4 hfit]
  obtain ⟨status, rest, heffects, hstatus⟩ := (execute_answers a.env a.shared hs
    (getCommandValue text) (argument text) (cstr (text.drop 5))).begins
  simp only [heffects, commandLog, logConnection, transcript]
  intro hnil
  obtain ⟨rfl, -⟩ := List.append_eq_nil_iff.mp hnil
  exact absurd hstatus (by decide)

theorem dispatch_stays (hcomm : getCommandValue text = .noop ∨
    (getCommandValue text).needsManager = true) :
    (dispatch a.env a.shared s text).session = s ∧
      (dispatch a.env a.shared s text).control = .next := by
  obtain ⟨st, hout, hstep⟩ := dispatch_outcome h4 hfit a.env a.shared s
  rw [hstep]
  exact hout.keeps_session hs hcomm

/-- **A command alone on the link is paired with its response exactly when that comes as expected**,
and then the link is idle again.  A command the client does not know is answered nevertheless. -/
theorem serve_paired_iff (hline : LF ∉ text) (offered : List Nat) :
    let served := (Link.idle s).serve transform a (text ++ [CR, LF])
    let r := recvResponse served.2 offered (text ++ [CR, LF])
    (r.consumed = served.1 ∧ r.returned.isSome = true ↔
        AsExpected (text ++ [CR, LF]) offered (a.response transform s (text ++ [CR, LF]))) ∧
      (AsExpected (text ++ [CR, LF]) offered (a.response transform s (text ++ [CR, LF])) →
        r.link = .idle s) := by
  have hnonempty := transcript_ne_nil transform hs a h4 hfit
  unfold Attempt.response
  rw [Link.idle, Link.serve_line transform hline]
  simp only [List.nil_append]
  generalize transcript transform a.files (dispatch a.env a.shared s text).effects = response
    at hnonempty ⊢
  by_cases hknown : getCommand (text ++ [CR, LF]) = none
  · have hnot : ¬ AsExpected (text ++ [CR, LF]) offered response := by
      rw [AsExpected, hknown]
      exact not_false
    refine ⟨iff_of_false ?_ hnot, fun h => absurd h hnot⟩
    rintro ⟨hconsumed, -⟩
    rw [recvResponse, hknown] at hconsumed
    exact hnonempty hconsumed.symm
  · obtain ⟨hsession, hcontrol⟩ :=
      dispatch_stays hs a h4 hfit (.inr (needsManager_of_getCommand h4 hknown))
    simp only [hsession, hcontrol, ne_eq, not_true_eq_false, decide_false]
    have hpaired := recvResponse_paired_iff s offered response (text ++ [CR, LF])
    rw [or_iff_left fun h => hknown h.1] at hpaired
    refine ⟨hpaired, fun hexpected => ?_⟩
    have htakes := recvResponse_takes ⟨s, false, response⟩ offered (text ++ [CR, LF])
    rw [(hpaired.mpr hexpected).1] at htakes
    exact htakes.drained

omit hs h4 hfit in
/-- NOOP is answered whatever is still unread. -/
theorem serve_noop (hs : s.clientState ≠ .transaction) (unread : Bytes) :
    (⟨s, false, unread⟩ : Link).serve transform a NOOP_CMD =
      (str "+OK\r\n", ⟨s, false, unread ++ str "+OK\r\n"⟩) := by
  have hcmd : NOOP_CMD = str "NOOP" ++ [CR, LF] := by decide
  have hnoop : getCommandValue (str "NOOP") = .noop := by decide
  obtain ⟨hsession, hcontrol⟩ :=
    @dispatch_stays s hs a (str "NOOP") (by decide) (by decide) (.inl hnoop)
  have hwritten : transcript transform a.files (dispatch a.env a.shared s (str "NOOP")).effects =
      str "+OK\r\n" := by
    rw [dispatch_of_long (by decide) (by decide), hnoop]
    rfl
  rw [hcmd, Link.serve_line transform (by decide)]
  simp only [hwritten, hsession, hcontrol]
  rfl

end Transform

/-! ### One turn -/

/-- The command a turn sends and takes a reply for: none at QUIT, nor when it does not fit. -/
def Prompt.request (p : Prompt) : Option Bytes :=
  (readCommand p.line.text).filter fun command => !strncmpEq command (str "QUIT")

/-- The loop is left after this turn. -/
def Prompt.leaves (p : Prompt) : Bool := p.request.isNone || !p.probe.sent

/-- The prompts `main` comes to. -/
def reached : List Prompt → List Prompt
  | [] => []
  | p :: ps => p :: if p.leaves then [] else reached ps

section Turns

variable (transform : Bytes → Bytes)

/-- The answers to the command and to the probe, if they are sent, come as the client expects. -/
def Prompt.ExchangeDelivered (s : Session) (p : Prompt) (command : Bytes) : Prop :=
  (p.command.sent = true →
    AsExpected command p.command.offered (p.command.response transform s command)) ∧
  (p.probe.sent = true → InOneRecv p.probe.offered (str "+OK\r\n"))

def Prompt.Delivered (s : Session) (p : Prompt) : Prop :=
  ∀ command ∈ p.request, p.ExchangeDelivered transform s command

/-- The client between two turns that went well. -/
def Client.idle (s : Session) : Client := ⟨.idle s, .online⟩

@[simp] theorem Client.idle_link (s : Session) : (Client.idle s).link = .idle s := rfl

@[simp] theorem Client.idle_status (s : Session) : (Client.idle s).status = .online := rfl

/-- On an idle link the step pairs its replies exactly under a condition, and then it is the last
one or leaves the client as it was. -/
structure PairsIf (s : Session) (st : ClientStep) (condition : Prop) (last : Bool) : Prop where
  paired : (∀ r ∈ st.receipts, r.Paired) ↔ condition
  stops : condition → st.stops = last
  client : condition → last = false → st.client = .idle s

variable {s : Session}

theorem PairsIf.of_iff {st : ClientStep} {condition condition' : Prop} {last : Bool}
    (h : PairsIf s st condition last) (hiff : condition' ↔ condition) :
    PairsIf s st condition' last :=
  ⟨h.paired.trans hiff.symm, fun hc => h.stops (hiff.mp hc), fun hc => h.client (hiff.mp hc)⟩

/-- A turn that sends nothing is the last one. -/
theorem turn_pairsIf_of_none {p : Prompt} (h : p.request = none) (cl : Client) :
    PairsIf s ⟨[], cl, true⟩ (p.Delivered transform s) p.leaves := by
  have hdelivered : p.Delivered transform s := by
    intro command hcommand
    rw [h] at hcommand
    cases hcommand
  have hleaves : p.leaves = true := by rw [Prompt.leaves, h]; rfl
  refine ⟨iff_of_true nofun hdelivered, fun _ => hleaves.symm, fun _ hstays => ?_⟩
  rw [hleaves] at hstays
  cases hstays

variable (hs : s.clientState ≠ .transaction)
include hs

theorem probe_pairsIf (receipts : List Receipt) (status : Status) (a : Attempt) :
    PairsIf s (.ofProbe receipts (verifyServerStatus transform ⟨.idle s, status⟩ a))
      ((∀ r ∈ receipts, r.Paired) ∧ (a.sent = true → InOneRecv a.offered (str "+OK\r\n")))
      (!a.sent) := by
  unfold verifyServerStatus ClientStep.ofProbe
  cases a.sent with
  | false =>
    refine ⟨?_, fun _ => rfl, fun _ h => Bool.noConfusion h⟩
    simp
  | true =>
    have hnonempty : str "+OK\r\n" ≠ [] := by decide
    have hwhole := Pieces.take_size_eq_iff (BUFFER_SIZE - 1) hnonempty a.offered
    simp only [if_true, Link.idle, serve_noop transform a hs, List.nil_append,
      Link.recv_response s _ hnonempty]
    refine ⟨?_, fun _ => rfl, fun h _ => ?_⟩
    · simp only [List.forall_mem_append, List.forall_mem_singleton, Receipt.Paired, and_true,
        forall_const, hwhole]
      exact Iff.rfl
    · have hrest := hwhole.mpr (h.2 trivial)
      rw [List.take_eq_self_iff, ← List.drop_eq_nil_iff] at hrest
      rw [hrest]
      rfl

theorem exchange_pairsIf (p : Prompt) (hfit : p.line.text.length ≤ 2 * BUFFER_SIZE) :
    PairsIf s ((Client.idle s).exchange transform p (p.line.text ++ [CR, LF]))
      (p.ExchangeDelivered transform s (p.line.text ++ [CR, LF])) (!p.probe.sent) := by
  unfold Client.exchange Prompt.ExchangeDelivered
  cases p.command.sent with
  | false =>
    apply (probe_pairsIf transform hs [] .offline p.probe).of_iff
    simp
  | true =>
    obtain ⟨hpaired, hlink⟩ := serve_paired_iff transform hs p.command p.line.long hfit
      p.line.newline_notMem p.command.offered
    simp only [if_true, forall_const, Client.idle_link, Client.idle_status]
    by_cases hexpected : AsExpected (p.line.text ++ [CR, LF]) p.command.offered
        (p.command.response transform s (p.line.text ++ [CR, LF]))
    · have hreceipt := hpaired.mpr hexpected
      have hidle := hlink hexpected
      split
      · next hnone =>
        rw [hnone] at hreceipt
        cases hreceipt.2
      · rw [hidle]
        apply (probe_pairsIf transform hs _ .online p.probe).of_iff
        rw [List.forall_mem_singleton]
        exact and_congr_left' (iff_of_true hexpected hreceipt)
    · split
      · refine ⟨iff_of_false ?_ fun h => hexpected h.1, fun h => absurd h.1 hexpected,
          fun h => absurd h.1 hexpected⟩
        intro h
        exact hexpected (hpaired.mp (h _ List.mem_cons_self))
      · refine ⟨iff_of_false ?_ fun h => hexpected h.1, fun h => absurd h.1 hexpected,
          fun h => absurd h.1 hexpected⟩
        intro h
        exact hexpected (hpaired.mp (h _ List.mem_cons_self))

theorem turn_pairsIf (p : Prompt) :
    PairsIf s ((Client.idle s).turn transform p) (p.Delivered transform s) p.leaves := by
  unfold Client.turn
  have hrequest : p.request =
      (readCommand p.line.text).filter fun command => !strncmpEq command (str "QUIT") := rfl
  cases hread : readCommand p.line.text with
  | none =>
    rw [hread] at hrequest
    exact turn_pairsIf_of_none transform hrequest _
  | some command =>
    rw [hread, Option.filter_some] at hrequest
    simp only
    cases hquit : strncmpEq command (str "QUIT") with
    | true =>
      rw [hquit] at hrequest
      exact turn_pairsIf_of_none transform hrequest _
    | false =>
      rw [hquit] at hrequest
      have hleaves : p.leaves = !p.probe.sent := by rw [Prompt.leaves, hrequest]; rfl
      have hdelivered : p.Delivered transform s ↔ p.ExchangeDelivered transform s command := by
        rw [Prompt.Delivered, hrequest]
        simp
      rw [readCommand_eq] at hread
      split at hread
      · next hroom =>
        obtain rfl := Option.some.inj hread
        rw [hleaves]
        exact (exchange_pairsIf transform hs p (by omega)).of_iff hdelivered
      · cases hread

/-! ### Runs -/

theorem mainReceipts_paired_iff (prompts : List Prompt) :
    (∀ r ∈ mainReceipts transform (.idle s) prompts, r.Paired) ↔
      ∀ p ∈ reached prompts, p.Delivered transform s := by
  induction prompts with
  | nil => simp [mainReceipts, reached]
  | cons p ps ih =>
    obtain ⟨hpaired, hstops, hclient⟩ := turn_pairsIf transform hs p
    unfold mainReceipts at ih ⊢
    rw [reached, List.forall_mem_cons]
    by_cases hdelivered : p.Delivered transform s
    · have hgo : (mainMachine transform).stop (.idle s) p = p.leaves := hstops hdelivered
      cases hleaves : p.leaves with
      | true =>
        rw [hleaves] at hgo
        rw [Machine.trace_cons_stop _ hgo, List.flatMap_singleton, hpaired]
        simp
      | false =>
        rw [hleaves] at hgo
        have hnext : (mainMachine transform).next (.idle s) p = .idle s :=
          hclient hdelivered hleaves
        rw [Machine.trace_cons_go _ hgo, List.flatMap_cons, List.forall_mem_append, hpaired, hnext,
          ih]
        simp
    · refine iff_of_false (fun h => hdelivered (hpaired.mp ?_)) fun h => hdelivered h.1
      intro r hr
      apply h
      rw [Machine.trace, List.flatMap_cons]
      exact List.mem_append_left _ hr

/-- Behind a greeting that has not been received whole the first NOOP takes a rest of it for its
answer: no `+` comes after the first byte. -/
theorem probe_behind_greeting {rest : Bytes} (hrest : rest ≠ []) (hsuffix : rest <:+ GREETING.tail)
    {a : Attempt} (hsent : a.sent = true) :
    ¬ ∀ r ∈ (verifyServerStatus transform ⟨⟨s, false, rest⟩, .online⟩ a).1, r.Paired := by
  obtain ⟨b, rest, rfl⟩ := List.exists_cons_of_ne_nil hrest
  have hplus : b ≠ 43 := by
    have hnone : ∀ c ∈ GREETING.tail, c ≠ 43 := by decide +kernel
    exact hnone b (hsuffix.subset List.mem_cons_self)
  have hunread : (b :: rest) ++ str "+OK\r\n" ≠ [] := List.cons_ne_nil _ _
  unfold verifyServerStatus
  rw [hsent]
  simp only [if_true, serve_noop transform a hs, Link.recv_response s _ hunread,
    List.forall_mem_singleton, Receipt.Paired, and_true]
  intro hpaired
  obtain ⟨n, hn⟩ := Nat.exists_eq_succ_of_ne_zero
    (Nat.ne_of_gt (Pieces.size_pos (BUFFER_SIZE - 1) (a.offered.headD (BUFFER_SIZE - 1))))
  rw [hn, List.cons_append, List.take_succ_cons] at hpaired
  exact hplus (List.cons.inj hpaired).1

/-- The greeting and the answer to the first NOOP are received whole, and so is what the prompts
are about. -/
structure WellDelivered (s : Session) (offered : Nat) (probe : Attempt) (prompts : List Prompt) :
    Prop where
  greeting : InOneRecv [offered] GREETING
  probe : InOneRecv probe.offered (str "+OK\r\n")
  prompts : ∀ p ∈ reached prompts, p.Delivered transform s

omit hs in
theorem greeting_received_iff (offered : Nat) :
    InOneRecv [offered] GREETING ↔
      GREETING.drop (Pieces.size (BUFFER_SIZE - 1) offered) = [] := by
  have hnonempty : GREETING ≠ [] := by decide
  rw [InOneRecv, ← Pieces.take_size_eq_iff _ hnonempty, List.take_eq_self_iff, List.drop_eq_nil_iff]
  rfl

/-- From the first NOOP on, the greeting having been received. -/
theorem probed_paired_iff {probe : Attempt} (hsent : probe.sent = true) (prompts : List Prompt) :
    let v := verifyServerStatus transform (.idle s) probe
    (∀ r ∈ v.1 ++ if v.2.status = .online then mainReceipts transform v.2 prompts else [],
        r.Paired) ↔
      InOneRecv probe.offered (str "+OK\r\n") ∧
        ∀ p ∈ reached prompts, p.Delivered transform s := by
  obtain ⟨hpaired, -, hclient⟩ := probe_pairsIf transform hs [] .online probe
  have hnothing : ∀ r ∈ ([] : List Receipt), r.Paired := nofun
  intro v
  by_cases hprobe : InOneRecv probe.offered (str "+OK\r\n")
  · have hfirst : ∀ r ∈ v.1, r.Paired := hpaired.mpr ⟨hnothing, fun _ => hprobe⟩
    have hnext : v.2 = .idle s := hclient ⟨hnothing, fun _ => hprobe⟩ (by rw [hsent]; rfl)
    rw [hnext, if_pos (Client.idle_status s), List.forall_mem_append,
      mainReceipts_paired_iff transform hs]
    exact and_congr_left' (iff_of_true hfirst hprobe)
  · refine iff_of_false (fun h => hprobe ?_) fun h => hprobe h.1
    have hfirst := hpaired.mp fun r hr => h r (List.mem_append_left _ hr)
    exact hfirst.2 hsent

theorem clientReceipts_paired_iff (offered : Nat) (probe : Attempt) (prompts : List Prompt) :
    (∀ r ∈ clientReceipts transform s offered probe prompts, r.Paired) ↔
      (probe.sent = true → WellDelivered transform s offered probe prompts) := by
  cases hsent : probe.sent with
  | false => simp [clientReceipts, verifyServerStatus, hsent]
  | true =>
    rw [forall_prop_of_true rfl]
    by_cases hgreeting : GREETING.drop (Pieces.size (BUFFER_SIZE - 1) offered) = []
    · have hidle : connected s offered = .idle s :=
        congrArg (fun unread => (⟨⟨s, false, unread⟩, .online⟩ : Client)) hgreeting
      unfold clientReceipts
      rw [hidle]
      refine (probed_paired_iff transform hs hsent prompts).trans ⟨?_, ?_⟩
      · rintro ⟨hprobe, hprompts⟩
        exact ⟨(greeting_received_iff offered).mpr hgreeting, hprobe, hprompts⟩
      · intro h
        exact ⟨h.probe, h.prompts⟩
    · refine iff_of_false ?_ fun h => hgreeting ((greeting_received_iff offered).mp h.greeting)
      intro h
      have hsuffix : GREETING.drop (Pieces.size (BUFFER_SIZE - 1) offered) <:+ GREETING.tail := by
        rw [← List.drop_one]
        exact List.drop_suffix_drop_left _ (Pieces.size_pos _ _)
      apply probe_behind_greeting transform hs hgreeting hsuffix hsent
      intro r hr
      exact h r (List.mem_append_left _ hr)

end Turns

/-- **The client pairs every reply with its command exactly when the greeting, each answer to a NOOP
and each reply but the log come in one `recv`, the log comes with its first end in its last piece,
and no command is sent that the client does not know.** -/
theorem replies_paired_iff (transform : Bytes → Bytes) (fd : Int) (isManager : Bool) (ip : Bytes)
    (maildir : Option Maildir) (offered : Nat) (probe : Attempt) (prompts : List Prompt) :
    (∀ r ∈ clientReceipts transform (newSession fd isManager ip maildir) offered probe prompts,
        r.Paired) ↔
      (probe.sent = true →
        WellDelivered transform (newSession fd isManager ip maildir) offered probe prompts) := by
  have hs : (newSession fd isManager ip maildir).clientState ≠ .transaction := by
    cases isManager <;> simp [newSession]
  exact clientReceipts_paired_iff transform hs offered probe prompts

/-- Everything is sent, and received as it comes. -/
def sampleAttempt : Attempt := ⟨true, [], sampleEnv, sampleShared, ⟨fun _ => [], fun _ => false⟩⟩

def helpPrompt : Prompt where
  line := ⟨str "HELP", by decide +kernel, by decide⟩
  command := sampleAttempt
  probe := sampleAttempt

/-- HELP is sent and answered, but no reply is taken for it: the NOOP behind it takes that one. -/
theorem replies_shifted :
    ¬ ∀ (transform : Bytes → Bytes) (fd : Int) (ip : Bytes) (maildir : Option Maildir)
      (offered : Nat) (probe : Attempt) (prompts : List Prompt),
      ∀ r ∈ clientReceipts transform (newSession fd true ip maildir) offered probe prompts,
        r.Paired := by
  intro h
  have hshifted : ¬ ∀ r ∈ clientReceipts id (newSession 5 true (str "::1") none) GREETING.length
      sampleAttempt [helpPrompt], r.Paired := by decide +kernel
  exact hshifted (h id 5 (str "::1") none GREETING.length sampleAttempt [helpPrompt])

end Pop3Server
