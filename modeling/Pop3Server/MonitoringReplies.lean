import Pop3Server.ConnectionMetrics
import Pop3Server.InfoDecoding
import Pop3Server.OctetCounts
import Pop3Server.ReadBack
import Pop3Server.Service

/-!
# What the replies to INFO and METR tell

The server keeps settings and metrics through a whole run and formats them for
INFO and METR.  `Server.monitoring_replies` takes the reply to any line of a run
apart as the management client does: its fields are read off the events of the
run, and nothing else.  Whether the client that asks receives this reply, whole
and in its turn, is a matter of `recv_response`, which has no part in it.
-/

namespace Pop3Server

/-! ### The census of the events -/

namespace Census

def follow (c : Census) : SessionEvent → Census
  | .opened _ _ _ => ⟨c.admitted + 1, c.opened + 1, max c.peak (c.opened + 1)⟩
  | .left => { c with opened := c.opened - 1 }
  | _ => c

/-- The sessions admitted, present, and present at most, after some events. -/
def ofEvents (events : List (Nat × SessionEvent)) : Census :=
  events.foldl (fun c a => c.follow a.2) empty

theorem ofEvents_concat (events : List (Nat × SessionEvent)) (a : Nat × SessionEvent) :
    ofEvents (events ++ [a]) = (ofEvents events).follow a.2 := by
  rw [ofEvents, List.foldl_append]
  rfl

/-- The metrics of a service that are kept when a session is admitted. -/
structure Counts (c : Census) (v : Service) : Prop where
  opened : c.opened = v.population
  historic : v.shared.metrics.totalHistoricConnections = int32 c.admitted
  maximum : v.shared.metrics.maxConsecutiveConnections = (c.peak - 1 : Nat)

theorem dispatch_connections (x : Exchange) :
    x.step.shared.metrics.connections = x.shared.metrics.connections := by
  apply dispatch_keeps (P := fun _ sh => sh.metrics.connections = x.shared.metrics.connections)
  · intro env sh s comm arg tail h
    exact @execute_shared (fun sh => sh.metrics.connections = x.shared.metrics.connections)
      env sh h comm (fun _ _ => h) (fun _ _ => h) (fun _ _ _ => h) s arg tail
  · rfl

/-- An event that admits nobody. -/
theorem Counts.kept {c c' : Census} {v v' : Service} (h : c.Counts v)
    (hadmitted : c'.admitted = c.admitted) (hpeak : c'.peak = c.peak)
    (hopened : c'.opened = v'.population)
    (hmetrics : v'.shared.metrics.connections = v.shared.metrics.connections) : c'.Counts v' where
  opened := hopened
  historic := by
    rw [hadmitted]
    exact (congrArg Prod.fst hmetrics).trans h.historic
  maximum := by
    rw [hpeak]
    exact (congrArg Prod.snd hmetrics).trans h.maximum

/-- **Step lemma of the census.** -/
theorem Counts.step {c : Census} {v v' : Service} (h : c.Counts v) {a : Nat × SessionEvent}
    (hstep : v.Step a v') : (c.follow a.2).Counts v' := by
  cases hstep with
  | opened _ _ _ =>
    constructor
    case opened => exact congrArg (· + 1) h.opened
    case historic =>
      simp only [Server.countConnection, h.historic, int32_add]
      rfl
    case maximum =>
      have hmax := countConnection_max h.maximum v.population
      rw [← h.opened] at hmax
      exact h.opened ▸ hmax
  | @line n x _ _ hshared =>
    refine h.kept rfl rfl h.opened ?_
    rw [← hshared]
    exact dispatch_connections x
  | hangup _ _ => exact h.kept rfl rfl h.opened rfl
  | left _ _ _ => exact h.kept rfl rfl (congrArg (· - 1) h.opened) rfl

/-- **Run lemma of the census.** -/
theorem counts_of_run {sh : Shared} {events : List (Nat × SessionEvent)} {v : Service}
    (hzero : sh.metrics.connections = (0, 0))
    (h : Service.system.Run (Service.start sh) events v) : (ofEvents events).Counts v := by
  refine h.history (R := fun past v => (ofEvents past).Counts v) ?_ ?_
  · intro past v a v' hpast hstep
    rw [ofEvents_concat]
    exact hpast.step hstep
  · refine ⟨rfl, (congrArg Prod.fst hzero).trans ?_, congrArg Prod.snd hzero⟩
    exact (int32_of_fits (n := 0) ⟨by decide, by decide⟩).symm

end Census

/-! ### The replies -/

/-- The fields of the server's reply to a line, as the client's functions take a text apart. -/
def Exchange.replyFields (x : Exchange) (type : ClientCommand) : List Bytes :=
  decodeReply x.step.sends.flatten type

theorem Exchange.executed_of_configures {x : Exchange} {comm : Pop3Command}
    (hx : x.Configures comm) (hcomm : comm ≠ .errorCommand) :
    x.step.sends =
      (execute x.env x.shared x.session comm (argument x.command) x.tail).sends := by
  rw [Exchange.sends_eq_executed hx.1.2 (hx.2 ▸ hcomm), Exchange.executed, hx.2]
  rfl

theorem notMem_cstr (s : Bytes) : NUL ∉ cstr s := by
  intro h
  unfold cstr at h
  have hne := List.mem_takeWhile_imp h
  exact absurd rfl (of_decide_eq_true hne)

theorem lastArgument_clean {comm : Pop3Command} {past : List Exchange} {start : Bytes}
    (hstart : NUL ∉ start) : NUL ∉ (lastArgument comm past).getD start := by
  unfold lastArgument
  cases (past.filter fun x => x.Configures comm).getLast? with
  | none => exact hstart
  | some x => exact notMem_cstr _

/-- The settings and the metrics in the reply to a manager's line, from the events before it. -/
structure RepliesTell (args : Args) (before : List (Nat × SessionEvent)) (x : Exchange) : Prop where
  info : x.Configures .info →
    let past := linesOf (before.map Prod.snd)
    let fields := [(lastArgument .host past).getD args.pop3.host,
      (lastArgument .dirr past).getD args.pop3.baseDir, args.pop3.ip ++ str "\r\n"]
    x.replyFields .info = fields ↔ ∀ f ∈ fields, SEMICOLON ∉ f
  metr : x.Configures .metr →
    let sent := retrievals (linesOf (before.map Prod.snd))
    let census := Census.ofEvents before
    FitsInt sent.length → FitsInt (octets sent) → FitsInt census.admitted →
      x.replyFields .metr = [formatInt sent.length, formatInt (octets sent),
        formatInt census.admitted, formatInt (census.peak - 1 : Nat) ++ str "\r\n"]

section Run

variable {args : Args} (hhost : NUL ∉ args.pop3.host) (hdir : NUL ∉ args.pop3.baseDir)
  (hip : NUL ∉ args.pop3.ip) {before : List (Nat × SessionEvent)} {x : Exchange}

theorem crlf_ne_nil (text : Bytes) : text ++ str "\r\n" ≠ [] :=
  fun h => absurd (List.append_eq_nil_iff.mp h).2 (by decide)

include hhost hdir hip in
theorem replyFields_info (hx : x.Configures .info)
    (hsettings : SettingsAfter args.pop3 (linesOf (before.map Prod.snd)) x.shared.pop3) :
    let past := linesOf (before.map Prod.snd)
    let fields := [(lastArgument .host past).getD args.pop3.host,
      (lastArgument .dirr past).getD args.pop3.baseDir, args.pop3.ip ++ str "\r\n"]
    x.replyFields .info = fields ↔ ∀ f ∈ fields, SEMICOLON ∉ f := by
  intro past fields
  have hfields : infoFields x.shared = fields := by
    rw [infoFields, hsettings.host, hsettings.baseDir, hsettings.ip]
  have hnul : ∀ f ∈ fields, NUL ∉ f := by
    simp only [fields, List.forall_mem_cons, List.mem_append, not_or]
    exact ⟨lastArgument_clean hhost, lastArgument_clean hdir, ⟨hip, by decide⟩,
      fun _ h => absurd h List.not_mem_nil⟩
  have hreply : x.step.sends.flatten = str "+OK " ++ joined fields := by
    rw [Exchange.executed_of_configures hx (by decide), execute, infoCommand_sends hx.1.1, hfields]
  rw [Exchange.replyFields, hreply]
  exact @decodeReply_iff [_, _] _ (crlf_ne_nil _) hnul .info rfl

theorem replyFields_metr (hx : x.Configures .metr) :
    x.replyFields .metr = metrFields x.shared.metrics := by
  have hreply : x.step.sends.flatten = str "+OK " ++ joined (metrFields x.shared.metrics) := by
    rw [Exchange.executed_of_configures hx (by decide), execute, metrCommand_sends hx.1.1]
  rw [Exchange.replyFields, hreply]
  apply (@decodeReply_iff [_, _, _] _ (crlf_ne_nil _) _ .metr rfl).mpr
  · exact notMem_metrFields (by decide) (by decide) (by decide) x.shared.metrics
  · exact notMem_metrFields (by decide) (by decide) (by decide) x.shared.metrics

include hhost hdir hip in
/-- **The replies of any run tell what has happened so far**: that to INFO the arguments of the last
HOST and DIRR that any manager has sent, when no field has a semicolon in it, and that to METR the
messages and octets sent, the sessions admitted, and one less than the most that were present at
once. -/
theorem Server.monitoring_replies (serverSocket managerSocket : Int) (os : List Occurrence)
    {after : List (Nat × SessionEvent)} {n : Nat}
    (hrun : (Server.boot args serverSocket managerSocket).runEvents os =
      before ++ (n, .line x) :: after) : RepliesTell args before x := by
  have hlines := Server.linesOf_runEvents (Server.boot args serverSocket managerSocket) os
  rw [hrun, List.map_append, List.map_cons, linesOf_append] at hlines
  have hsplit : (Server.boot args serverSocket managerSocket).exchanges os =
      linesOf (before.map Prod.snd) ++ x :: linesOf (after.map Prod.snd) := hlines.symm
  constructor
  case info =>
    intro hx
    exact replyFields_info hhost hdir hip hx
      (settings_history args serverSocket managerSocket os _ x _ hsplit)
  case metr =>
    intro hx sent census hmessages hoctets hadmitted
    have hkept := kept_along _ managerSocket os _ x _ hsplit
    obtain ⟨v, hservice, -⟩ := Service.represented _ managerSocket os
    rw [show (Server.start _ managerSocket).runEvents os = _ from hrun] at hservice
    obtain ⟨t, t', hbefore, hline, -⟩ := hservice.at
    have hcounts := Census.counts_of_run rfl hbefore
    have hhistoric := hcounts.historic
    have hmaximum := hcounts.maximum
    rw [show t.shared = x.shared by cases hline with | line _ _ hshared => exact hshared.symm]
      at hhistoric hmaximum
    rw [replyFields_metr hx, metrFields, hkept.messages, hkept.bytes, hhistoric, hmaximum,
      int32_of_fits hmessages, int32_of_fits hoctets, int32_of_fits hadmitted]

end Run

/-- A manager sets the host, and the reply to the next INFO has it. -/
theorem Server.monitoring_replies_host :
    ∃ before n x after,
      (Server.boot defaultArgs 3 4).runEvents
          (managing (delivery "HOST a\r\nINFO\r\n" (by decide))) =
          before ++ (n, .line x) :: after ∧
        RepliesTell defaultArgs before x ∧
        x.replyFields .info = [str "a", str "./src/root/", str "::1\r\n"] := by
  have hevents : ((Server.boot defaultArgs 3 4).runEvents
      (managing (delivery "HOST a\r\nINFO\r\n" (by decide)))).any
        (fun a => a.2.exchange?.any fun x =>
          decide (x.replyFields .info = [str "a", str "./src/root/", str "::1\r\n"])) = true := by
    decide +kernel
  obtain ⟨⟨n, event⟩, hmem, hevent⟩ := List.any_eq_true.mp hevents
  obtain ⟨before, after, hsplit⟩ := List.append_of_mem hmem
  cases event with
  | line x =>
    exact ⟨before, n, x, after, hsplit,
      monitoring_replies (by decide) (by decide) (by decide) 3 4 _ hsplit, of_decide_eq_true hevent⟩
  | opened _ _ _ => exact absurd hevent Bool.false_ne_true
  | hangup => exact absurd hevent Bool.false_ne_true
  | left => exact absurd hevent Bool.false_ne_true

end Pop3Server
