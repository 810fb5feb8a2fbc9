import Pop3Server.Connections
import Pop3Server.Pipelining
import Pop3Server.SettingsHistory

/-!
# The processes of the server

`send_file_process` forks, and `fork_and_exec` forks again for the program of a
transformation.  A process has the descriptors its parent had when it was forked
off, until it ends: a `Host` is the server, these processes, and what has been
written on every connection.  A schedule is any sequence of picks.

`Server.writes_isolated` says that no write goes astray, although descriptors are
given out again while transfers are under way; `Server.connection_open_iff` says
how long a connection lives.
-/

namespace Pop3Server

open Descriptors

/-- What a process beside the server does: `send_file` on a socket, or the program that
`fork_and_exec` starts, which ends when it likes. -/
inductive Job where
  | transfer (fd : Int) (child : Child)
  | program (exited : Bool)

def Job.running : Job → Bool
  | .transfer _ child => child.stage ≠ .done
  | .program exited => !exited

/-- `forked` is the number of calls the server had made when the process was forked off. -/
structure Process where
  table : Table Int Nat
  job : Job
  forked : Nat

/-- What was written on a connection, and by which process; the server is none of them. -/
structure SocketWrite where
  connection : Nat
  process : Option Nat
  data : Bytes

structure Host where
  table : Table Int Nat
  files : Files
  todo : List Call
  made : Nat
  processes : List Process
  written : List SocketWrite

/-- A write on a descriptor that leads nowhere fails. -/
def writeOn (t : Table Int Nat) (fd : Int) (process : Option Nat) (data : Bytes) : List SocketWrite :=
  (t fd).toList.map fun n => ⟨n, process, data⟩

namespace Host

/-- A call of the server. -/
def call (w : Host) : Call → Host
  | (n, fd, .opens) => { w with table := w.table.opened fd n }
  | (_, fd, .closes) => { w with table := w.table.closed fd }
  | (_, fd, .acts (.send data)) =>
    { w with written := w.written ++ writeOn w.table fd none data }
  | (_, _, .acts (.append line)) => { w with files := w.files.append line }
  | (_, _, .acts (.remove path)) => { w with files := w.files.remove path }
  | (_, fd, .acts (.fork path transformed)) =>
    { w with processes := w.processes ++
        [⟨w.table, .transfer fd ⟨path, transformed, .forked⟩, w.made⟩] }

section Run

variable (transform : Bytes → Bytes)

/-- A step of `send_file` in the process `k`.  Once the file is open the program of a transformation
is started; when the process ends its descriptors are closed. -/
def transferStep (w : Host) (k : Nat) (p : Process) (fd : Int) (c : Child) (size : Nat) : Host :=
  let r := c.step transform w.files size
  let stepped : Process :=
    { p with
      table := if r.2.stage = .done then .empty else p.table
      job := .transfer fd r.2 }
  let started :=
    if c.stage = .forked ∧ c.transformed = true ∧ r.2.stage ≠ .done then
      [{ p with job := .program false }]
    else []
  { w with
    written := w.written ++ if r.1 = [] then [] else writeOn p.table fd (some k) r.1
    processes := w.processes.set k stepped ++ started }

def step (w : Host) : Pick → Host
  | .parent =>
    match w.todo with
    | [] => w
    | c :: todo => { w.call c with todo := todo, made := w.made + 1 }
  | .child k size =>
    match w.processes[k]? with
    | none => w
    | some p =>
      match p.job with
      | .transfer fd c => w.transferStep transform k p fd c size
      | .program _ =>
        { w with processes := w.processes.set k { p with table := .empty, job := .program true } }

def run (w : Host) (picks : List Pick) : Host := picks.foldl (step transform) w

end Run

def start (fs : Files) (calls : List Call) : Host := ⟨.empty, fs, calls, 0, [], []⟩

/-- Some process still has a descriptor of the connection: its client sees no end of it. -/
def Open (w : Host) (n : Nat) : Prop :=
  w.table.Holds n ∨ ∃ p ∈ w.processes, p.table.Holds n

end Host

/-- A call that sends, by the session it is for. -/
def Call.sent? : Call → Option (Nat × Bytes)
  | (n, _, .acts (.send data)) => some (n, data)
  | _ => none

/-- What the server itself has written. -/
def SocketWrite.byServer? (x : SocketWrite) : Option (Nat × Bytes) :=
  if x.process = none then some (x.connection, x.data) else none

/-- The process runs a transfer that has been started for the session. -/
def Process.StartedFor (calls : List Call) (n : Nat) (p : Process) : Prop :=
  ∃ fd c, p.job = .transfer fd c ∧
    calls[p.forked]? = some (n, fd, .acts (.fork c.path c.transformed))

/-- Every write is on the connection of the session it is made for: the server's are those of its
calls so far, in their order, and a transfer's go to the session that has asked for it. -/
structure Isolated (calls : List Call) (w : Host) : Prop where
  server : w.written.filterMap SocketWrite.byServer? = (calls.take w.made).filterMap Call.sent?
  transfers : ∀ x ∈ w.written, ∀ k ∈ x.process,
    ∃ p, w.processes[k]? = some p ∧ p.StartedFor calls x.connection

/-- A process has the descriptors the server had when it was forked off. -/
structure Process.Inherits (calls : List Call) (made : Nat) (p : Process) : Prop where
  forked : p.forked ≤ made
  running : p.job.running = true →
    ∃ s, wiring.Run Wiring.start (calls.take p.forked) s ∧ s.table = p.table
  ended : p.job.running = false → p.table = .empty
  own : ∀ fd c, p.job = .transfer fd c →
    ∃ n, calls[p.forked]? = some (n, fd, .acts (.fork c.path c.transformed)) ∧
      (p.job.running = true → p.table fd = some n)

structure Host.Inv (calls : List Call) (w : Host) : Prop where
  todo : w.todo = calls.drop w.made
  table : ∃ s, wiring.Run Wiring.start (calls.take w.made) s ∧ s.table = w.table
  processes : ∀ p ∈ w.processes, p.Inherits calls w.made
  isolated : Isolated calls w

theorem Child.step_kept (transform : Bytes → Bytes) (fs : Files) (size : Nat) (c : Child) :
    (c.step transform fs size).2.path = c.path ∧
      (c.step transform fs size).2.transformed = c.transformed := by
  unfold Child.step
  cases c.stage with
  | forked => exact ⟨rfl, rfl⟩
  | copying offset =>
    simp only
    split
    · exact ⟨rfl, rfl⟩
    · exact ⟨rfl, rfl⟩
  | holding offset chunk => exact ⟨rfl, rfl⟩
  | ending => exact ⟨rfl, rfl⟩
  | done => exact ⟨rfl, rfl⟩

/-- A process that has ended does nothing. -/
theorem Child.step_done (transform : Bytes → Bytes) (fs : Files) (size : Nat) {c : Child}
    (h : c.stage = .done) : c.step transform fs size = ([], c) := by
  unfold Child.step
  rw [h]

/-! ### What one step keeps -/

section Keeps

variable {calls : List Call} {w : Host}

theorem Process.Inherits.mono {made made' : Nat} {p : Process} (h : p.Inherits calls made)
    (hle : made ≤ made') : p.Inherits calls made' :=
  { h with forked := h.forked.trans hle }

theorem Process.Inherits.startedFor {made : Nat} {p : Process} (h : p.Inherits calls made) {fd : Int}
    {c : Child} (hjob : p.job = .transfer fd c) {n : Nat} (hleads : p.table fd = some n) :
    p.StartedFor calls n := by
  obtain ⟨m, hcall, htable⟩ := h.own fd c hjob
  have hrunning : p.job.running = true := by
    by_contra hended
    rw [h.ended (Bool.not_eq_true _ ▸ hended)] at hleads
    cases hleads
  have hsame : m = n := Option.some.inj ((htable hrunning).symm.trans hleads)
  exact ⟨fd, c, hjob, hsame ▸ hcall⟩

theorem mem_writeOn {t : Table Int Nat} {fd : Int} {process : Option Nat} {data : Bytes}
    {x : SocketWrite} (h : x ∈ writeOn t fd process data) :
    t fd = some x.connection ∧ x.process = process := by
  obtain ⟨n, hn, rfl⟩ := List.mem_map.mp h
  exact ⟨Option.mem_toList.mp hn, rfl⟩

/-- A call of the server: what it leaves in the table, the process it forks off, and what it
writes. -/
theorem Host.Inv.advance (h : w.Inv calls) {c : Call} (hcall : calls[w.made]? = some c) {w' : Host}
    (hmade : w'.made = w.made + 1) (htodo : w'.todo = calls.drop (w.made + 1))
    (htable : ∃ s, wiring.Run Wiring.start (calls.take (w.made + 1)) s ∧ s.table = w'.table)
    {forked : List Process} (hprocesses : w'.processes = w.processes ++ forked)
    (hforked : ∀ p ∈ forked, p.Inherits calls (w.made + 1)) {writes : List SocketWrite}
    (hwritten : w'.written = w.written ++ writes)
    (hwrites : writes.filterMap SocketWrite.byServer? = c.sent?.toList)
    (hserver : ∀ x ∈ writes, x.process = none) : w'.Inv calls where
  todo := by rw [htodo, hmade]
  table := by rwa [hmade]
  processes p hp := by
    rw [hprocesses] at hp
    rw [hmade]
    rcases List.mem_append.mp hp with hold | hnew
    · exact (h.processes p hold).mono (Nat.le_succ _)
    · exact hforked p hnew
  isolated := by
    constructor
    case server =>
      have hlast : [c].filterMap Call.sent? = c.sent?.toList := by
        cases hsent : c.sent? with
        | none => rw [List.filterMap_cons_none hsent]; rfl
        | some x => rw [List.filterMap_cons_some hsent]; rfl
      rw [hwritten, hmade, List.filterMap_append, hwrites, h.isolated.server, List.take_add_one, hcall,
        Option.toList_some, List.filterMap_append, hlast]
    case transfers =>
      intro x hx k hk
      rw [hwritten] at hx
      rcases List.mem_append.mp hx with hold | hnew
      · obtain ⟨p, hp, hstarted⟩ := h.isolated.transfers x hold k hk
        refine ⟨p, ?_, hstarted⟩
        rw [hprocesses, List.getElem?_append_left (List.getElem?_eq_some_iff.mp hp).1, hp]
      · rw [hserver x hnew] at hk
        cases hk

/-- A call that writes nothing and forks nobody off. -/
theorem Host.Inv.quietly (h : w.Inv calls) {c : Call} (hcall : calls[w.made]? = some c)
    (hquiet : c.sent? = none) {w' : Host} (hmade : w'.made = w.made + 1)
    (htodo : w'.todo = calls.drop (w.made + 1))
    (htable : ∃ s, wiring.Run Wiring.start (calls.take (w.made + 1)) s ∧ s.table = w'.table)
    (hprocesses : w'.processes = w.processes) (hwritten : w'.written = w.written) :
    w'.Inv calls := by
  refine h.advance hcall hmade htodo htable (hprocesses.trans (List.append_nil _).symm)
    (fun p hp => absurd hp List.not_mem_nil) (hwritten.trans (List.append_nil _).symm) ?_
    fun x hx => absurd hx List.not_mem_nil
  rw [hquiet]
  rfl

/-- The next call of the server is one its table allows. -/
theorem Host.Inv.next (h : w.Inv calls) {v : Wiring Int Nat}
    (hrun : wiring.Run Wiring.start calls v) {c : Call} {rest : List Call}
    (htodo : w.todo = c :: rest) :
    calls[w.made]? = some c ∧ rest = calls.drop (w.made + 1) ∧ ∃ t t', t.table = w.table ∧
      wiring.step t c t' ∧ wiring.Run Wiring.start (calls.take (w.made + 1)) t' := by
  have hdrop : calls.drop w.made = c :: rest := h.todo.symm.trans htodo
  have hcall : calls[w.made]? = some c := by
    rw [← List.head?_drop, hdrop]
    rfl
  have hrest : rest = calls.drop (w.made + 1) := by
    rw [← List.tail_drop, hdrop]
    rfl
  have hsplit : calls = calls.take w.made ++ c :: rest := by
    rw [← hdrop, List.take_append_drop]
  obtain ⟨t, t', hpast, hstep, -⟩ := (hsplit ▸ hrun).at
  obtain ⟨s, hs, htable⟩ := h.table
  refine ⟨hcall, hrest, t, t', (Wiring.table_unique hpast hs).trans htable, hstep, ?_⟩
  rw [List.take_add_one, hcall]
  exact hpast.concat hstep

/-- **Step lemma of the server.** -/
theorem Host.Inv.parent (h : w.Inv calls) {v : Wiring Int Nat}
    (hrun : wiring.Run Wiring.start calls v) {c : Call} {rest : List Call}
    (htodo : w.todo = c :: rest) :
    Host.Inv calls { w.call c with todo := rest, made := w.made + 1 } := by
  obtain ⟨hcall, hrest, t, t', ht, hstep, hnext⟩ := h.next hrun htodo
  cases hstep with
  | opens _ _ => exact h.quietly hcall rfl rfl hrest ⟨_, hnext, ht ▸ rfl⟩ rfl rfl
  | closes _ _ => exact h.quietly hcall rfl rfl hrest ⟨_, hnext, ht ▸ rfl⟩ rfl rfl
  | @acts n fd a hleads =>
    cases a with
    | send data =>
      have hleads : w.table fd = some n := ht ▸ hleads trivial
      have hwrites : writeOn w.table fd none data = [⟨n, none, data⟩] := by
        rw [writeOn, hleads]
        rfl
      refine h.advance hcall rfl hrest ⟨_, hnext, ht⟩ (List.append_nil _).symm
        (fun p hp => absurd hp List.not_mem_nil) rfl ?_ fun x hx => (mem_writeOn hx).2
      rw [hwrites]
      rfl
    | append line => exact h.quietly hcall rfl rfl hrest ⟨_, hnext, ht⟩ rfl rfl
    | remove path => exact h.quietly hcall rfl rfl hrest ⟨_, hnext, ht⟩ rfl rfl
    | fork path transformed =>
      have hleads : w.table fd = some n := ht ▸ hleads trivial
      refine h.advance hcall rfl hrest ⟨_, hnext, ht⟩ rfl ?_ (List.append_nil _).symm rfl
        fun x hx => absurd hx List.not_mem_nil
      intro p hp
      rw [List.mem_singleton.mp hp]
      constructor
      case forked => exact Nat.le_succ _
      case running => exact fun _ => h.table
      case ended => exact fun hended => absurd hended.symm Bool.false_ne_true
      case own =>
        intro fd' c hjob
        cases hjob
        exact ⟨n, hcall, fun _ => hleads⟩

/-- A step of a process: its place is taken by what it has become, and what it starts stands behind
the others. -/
theorem Host.Inv.replace (h : w.Inv calls) {k : Nat} {p p' : Process}
    (hp : w.processes[k]? = some p) (hp' : p'.Inherits calls w.made)
    (hkept : ∀ n, p.StartedFor calls n → p'.StartedFor calls n) {started : List Process}
    (hstarted : ∀ q ∈ started, q.Inherits calls w.made) {writes : List SocketWrite}
    (hwrites : ∀ x ∈ writes, x.process = some k ∧ p'.StartedFor calls x.connection) {w' : Host}
    (htodo : w'.todo = w.todo) (hmade : w'.made = w.made) (htable : w'.table = w.table)
    (hprocesses : w'.processes = w.processes.set k p' ++ started)
    (hwritten : w'.written = w.written ++ writes) : w'.Inv calls := by
  have hk : k < w.processes.length := (List.getElem?_eq_some_iff.mp hp).1
  have hself : w'.processes[k]? = some p' := by
    rw [hprocesses, List.getElem?_append_left (by rwa [List.length_set]), List.getElem?_set_self hk]
  constructor
  case todo => rw [htodo, hmade, h.todo]
  case table =>
    rw [hmade, htable]
    exact h.table
  case processes =>
    intro q hq
    rw [hmade]
    rw [hprocesses] at hq
    rcases List.mem_append.mp hq with hq | hq
    · rcases List.mem_or_eq_of_mem_set hq with hold | rfl
      · exact h.processes q hold
      · exact hp'
    · exact hstarted q hq
  constructor
  case server =>
    have hnone : writes.filterMap SocketWrite.byServer? = [] := by
      refine List.filterMap_eq_nil_iff.mpr fun x hx => ?_
      rw [SocketWrite.byServer?, (hwrites x hx).1]
      rfl
    rw [hwritten, hmade, List.filterMap_append, hnone, List.append_nil]
    exact h.isolated.server
  case transfers =>
    intro x hx j hj
    rw [hwritten] at hx
    rcases List.mem_append.mp hx with hold | hnew
    · obtain ⟨q, hq, hfor⟩ := h.isolated.transfers x hold j hj
      by_cases hjk : j = k
      · subst hjk
        have hsame : q = p := Option.some.inj (hq.symm.trans hp)
        exact ⟨p', hself, hkept _ (hsame ▸ hfor)⟩
      · have hlength : j < w.processes.length := (List.getElem?_eq_some_iff.mp hq).1
        refine ⟨q, ?_, hfor⟩
        rw [hprocesses, List.getElem?_append_left (by rwa [List.length_set]),
          List.getElem?_set_ne fun he => hjk he.symm, hq]
    · obtain ⟨hprocess, hfor⟩ := hwrites x hnew
      have hsame : k = j := Option.some.inj (hprocess.symm.trans hj)
      exact ⟨p', hsame ▸ hself, hfor⟩

/-- **Step lemma of a transfer.** -/
theorem Host.Inv.transfer (transform : Bytes → Bytes) (h : w.Inv calls) {k : Nat} {p : Process}
    (hp : w.processes[k]? = some p) {fd : Int} {c : Child} (hjob : p.job = .transfer fd c)
    (size : Nat) : (w.transferStep transform k p fd c size).Inv calls := by
  have hold := h.processes p (List.mem_of_getElem? hp)
  obtain ⟨n, hcall, hleads⟩ := hold.own fd c hjob
  obtain ⟨hpath, htransformed⟩ := c.step_kept transform w.files size
  -- a transfer that goes on after the step was under way before it
  have hgoes : (c.step transform w.files size).2.stage ≠ .done → p.job.running = true := by
    intro hstage
    rw [hjob]
    refine decide_eq_true fun hdone => hstage ?_
    rw [c.step_done transform w.files size hdone]
    exact hdone
  unfold Host.transferStep
  simp only
  generalize c.step transform w.files size = r at *
  refine h.replace hp ?_ ?_ ?_ ?_ rfl rfl rfl rfl rfl
  · constructor
    case forked => exact hold.forked
    case running =>
      intro hrunning
      have hstage : r.2.stage ≠ .done := of_decide_eq_true hrunning
      simp only [if_neg hstage]
      exact hold.running (hgoes hstage)
    case ended =>
      intro hended
      have hstage : r.2.stage = .done := by simpa [Job.running] using hended
      simp only [if_pos hstage]
    case own =>
      intro fd' c' hjob'
      cases hjob'
      refine ⟨n, ?_, fun hrunning => ?_⟩
      · rw [hpath, htransformed]
        exact hcall
      · have hstage : r.2.stage ≠ .done := of_decide_eq_true hrunning
        simp only [if_neg hstage]
        exact hleads (hgoes hstage)
  · rintro m ⟨fd', c', hjob', hcall'⟩
    cases hjob.symm.trans hjob'
    refine ⟨fd, r.2, rfl, ?_⟩
    rw [hpath, htransformed]
    exact hcall'
  · intro q hq
    split at hq
    · next hstarts =>
      rw [List.mem_singleton.mp hq]
      constructor
      case forked => exact hold.forked
      case running => exact fun _ => hold.running (hgoes hstarts.2.2)
      case ended => exact fun hended => absurd hended.symm Bool.false_ne_true
      case own => exact fun fd' c' hjob' => Job.noConfusion hjob'
    · exact absurd hq List.not_mem_nil
  · intro x hx
    split at hx
    · exact absurd hx List.not_mem_nil
    · obtain ⟨hconnection, hprocess⟩ := mem_writeOn hx
      obtain ⟨fd', c', hjob', hcall'⟩ := hold.startedFor hjob hconnection
      cases hjob.symm.trans hjob'
      refine ⟨hprocess, fd, r.2, rfl, ?_⟩
      rw [hpath, htransformed]
      exact hcall'

/-- The program of a transformation ends. -/
theorem Host.Inv.program (h : w.Inv calls) {k : Nat} {p : Process} (hp : w.processes[k]? = some p)
    {exited : Bool} (hjob : p.job = .program exited) :
    Host.Inv calls
      { w with processes := w.processes.set k { p with table := .empty, job := .program true } } := by
  have hold := h.processes p (List.mem_of_getElem? hp)
  have hstarted : ∀ q ∈ ([] : List Process), q.Inherits calls w.made :=
    fun q hq => absurd hq List.not_mem_nil
  refine @Host.Inv.replace _ _ h _ _ _ hp ?_ ?_ [] hstarted [] ?_ _ rfl rfl rfl
    (List.append_nil _).symm (List.append_nil _).symm
  · constructor
    case forked => exact hold.forked
    case running => exact fun hrunning => absurd hrunning Bool.false_ne_true
    case ended => exact fun _ => rfl
    case own => exact fun fd c hjob' => Job.noConfusion hjob'
  · rintro n ⟨fd, c, hjob', -⟩
    cases hjob.symm.trans hjob'
  · exact fun x hx => absurd hx List.not_mem_nil

theorem Host.Inv.step (transform : Bytes → Bytes) (h : w.Inv calls) {v : Wiring Int Nat}
    (hrun : wiring.Run Wiring.start calls v) (pick : Pick) : (w.step transform pick).Inv calls := by
  unfold Host.step
  cases pick with
  | parent =>
    simp only
    split
    · exact h
    · next htodo => exact h.parent hrun htodo
  | child k size =>
    simp only
    split
    · exact h
    next hp =>
    split
    · next hjob => exact h.transfer transform hp hjob size
    · next hjob => exact h.program hp hjob

/-- **Run lemma.** -/
theorem Host.inv_run (transform : Bytes → Bytes) (fs : Files) {v : Wiring Int Nat}
    (hrun : wiring.Run Wiring.start calls v) (picks : List Pick) :
    ((Host.start fs calls).run transform picks).Inv calls := by
  have hstart : (Host.start fs calls).Inv calls := by
    constructor
    case todo => rfl
    case table => exact ⟨_, .nil, rfl⟩
    case processes => exact fun p hp => absurd hp List.not_mem_nil
    case isolated =>
      constructor
      case server => rfl
      case transfers => exact fun x hx => absurd hx List.not_mem_nil
  unfold Host.run
  generalize Host.start fs calls = w at hstart ⊢
  induction picks generalizing w with
  | nil => exact hstart
  | cons pick picks ih => exact ih _ (hstart.step transform hrun pick)

/-- A connection is open for the server while it is present, and for a process that runs when it was
present as the process was forked off. -/
theorem Host.Inv.open_iff (h : w.Inv calls) (n : Nat) :
    w.Open n ↔ Wiring.Present (calls.take w.made) n ∨
      ∃ p ∈ w.processes, p.job.running = true ∧ Wiring.Present (calls.take p.forked) n := by
  obtain ⟨s, hrun, htable⟩ := h.table
  have hserver : w.table.Holds n ↔ Wiring.Present (calls.take w.made) n := by
    rw [← htable]
    exact Wiring.holds_iff hrun n
  have hprocess : ∀ p ∈ w.processes, p.table.Holds n ↔
      p.job.running = true ∧ Wiring.Present (calls.take p.forked) n := by
    intro p hp
    have hinherits := h.processes p hp
    cases hrunning : p.job.running with
    | true =>
      obtain ⟨t, hpast, ht⟩ := hinherits.running hrunning
      rw [← ht, Wiring.holds_iff hpast n]
      exact ⟨fun hpresent => ⟨rfl, hpresent⟩, And.right⟩
    | false =>
      rw [hinherits.ended hrunning]
      exact iff_of_false (Table.not_holds_empty n) fun hno => Bool.false_ne_true hno.1
  rw [Host.Open, hserver]
  exact or_congr_right (exists_congr fun p => and_congr_right fun hp => hprocess p hp)

end Keeps

/-! ### The server -/

section Server

variable (transform : Bytes → Bytes) (sh : Shared) (managerSocket : Int) {os : List Occurrence}
  (hfresh : (Server.start sh managerSocket).DescriptorsFresh os) (fs : Files) (picks : List Pick)
include hfresh

/-- **Whatever the schedule, no write goes astray**: what the server has written is what its calls
send to each session, on that session's connection and in their order, and a transfer writes on
the connection of the session that has asked for it, although descriptors are used again. -/
theorem Server.writes_isolated :
    Isolated ((start sh managerSocket).runCalls os)
      ((Host.start fs ((start sh managerSocket).runCalls os)).run transform picks) := by
  obtain ⟨v, hrun, -⟩ := wired sh managerSocket hfresh
  exact (Host.inv_run transform fs hrun picks).isolated

/-- **How long a connection lives**: while the server has not closed it, and after that as long as
a process runs that was forked off before, for whatever session. -/
theorem Server.connection_open_iff (n : Nat) :
    let calls := (start sh managerSocket).runCalls os
    let w := (Host.start fs calls).run transform picks
    w.Open n ↔ Wiring.Present (calls.take w.made) n ∨
      ∃ p ∈ w.processes, p.job.running = true ∧ Wiring.Present (calls.take p.forked) n := by
  obtain ⟨v, hrun, -⟩ := wired sh managerSocket hfresh
  exact (Host.inv_run transform fs hrun picks).open_iff n

end Server

/-- A manager asks for the log and quits; the next client is given its descriptor. -/
def logThenQuit : List Occurrence :=
  managing (delivery "LOGG\r\nQUIT\r\n" (by decide)) ++ accepting 4 5

/-- The server does all it has to do, and then the transfer opens its file and sends a piece. -/
def serverFirst : List Pick := List.replicate 14 .parent ++ List.replicate 3 (.child 0 4)

theorem no_socket_roundOf {turns : Nat} {fd : Int} {accepted : Option (Int × Bytes)} {d : Delivery} :
    ∀ o ∈ roundOf turns fd accepted d, ∀ k, (o.env k).net.socket = none := by
  intro o ho k
  rw [List.eq_of_mem_replicate ho]
  rfl

/-- When no line asks for a socket, only the accepted descriptors have to be fresh. -/
theorem Server.fresh_of_no_socket {sv : Server} {os : List Occurrence}
    (hnone : ∀ o ∈ os, ∀ k, (o.env k).net.socket = none)
    (haccepts : ∀ x ∈ serverMachine.trace sv os, ∀ c ∈ x.1.accepts x.2,
      c.1 ∉ x.1.openSockets ∧ c.1 ≠ x.1.shared.listener.serverSocket) : sv.DescriptorsFresh os := by
  intro x hx
  constructor
  case accept => exact haccepts x hx
  case socket =>
    intro k fd hfd
    have hmem := (serverMachine.trace_inputs_initial _ _).subset (List.mem_map_of_mem hx)
    rw [hnone _ hmem k] at hfd
    cases hfd

theorem fresh_logThenQuit : (Server.start sampleShared 4).DescriptorsFresh logThenQuit := by
  refine Server.fresh_of_no_socket ?_ (by decide +kernel)
  intro o ho
  simp only [logThenQuit, managing, accepting, List.mem_append, List.mem_map] at ho
  rcases ho with (⟨o, ho, rfl⟩ | ho) | ho
  · exact no_socket_roundOf o ho
  · exact no_socket_roundOf o ho
  · exact no_socket_roundOf o ho

theorem Server.writes_isolated_reused :
    Isolated ((start sampleShared 4).runCalls logThenQuit)
      ((Host.start sampleFiles ((start sampleShared 4).runCalls logThenQuit)).run id serverFirst) :=
  writes_isolated id sampleShared 4 fresh_logThenQuit sampleFiles serverFirst

/-- The server has closed the connection, and the client it was closed for sees no end of it. -/
theorem Server.connection_open_quit :
    let calls := (start sampleShared 4).runCalls logThenQuit
    let w := (Host.start sampleFiles calls).run id serverFirst
    ¬ Wiring.Present (calls.take w.made) 0 ∧ w.Open 0 := by
  intro calls w
  constructor
  · have hclosed : ∀ c ∈ calls.take w.made, c.1 = 0 → c.2.2 = .opens →
        (0, c.2.1, .closes) ∈ calls.take w.made := by
      decide +kernel
    rintro ⟨d, hopens, hcloses⟩
    exact hcloses (hclosed _ hopens rfl rfl)
  · have hrunning : (w.processes.any fun p => p.job.running && p.forked == 5) = true := by
      decide +kernel
    have hpresent : (0, 5, .opens) ∈ calls.take 5 ∧ (0, 5, .closes) ∉ calls.take 5 := by
      decide +kernel
    obtain ⟨p, hp, hprocess⟩ := List.any_eq_true.mp hrunning
    obtain ⟨hruns, hforked⟩ := Bool.and_eq_true_iff.mp hprocess
    refine (connection_open_iff id sampleShared 4 fresh_logThenQuit sampleFiles serverFirst 0).mpr
      (.inr ⟨p, hp, hruns, 5, ?_⟩)
    rw [eq_of_beq hforked]
    exact hpresent

end Pop3Server
