import Pop3Server.TransferProcesses

/-!
# What a client reads

The server and the transfers it has forked off write on the same connections.
`Host.Waits` is a schedule in which a session gets no answer while a file is
still sent to it, as when its client reads every response to the end before it
sends the next line.  Then its connection has the answers in the order of the
lines, the output of each transfer where it was asked for, and that output is
the file, whatever the other sessions and their transfers do
(`Server.reads_in_order`).  No `send`, `fork`, `pipe` or `execve` fails here, and
no `open` of a file that is there.
-/

namespace Pop3Server

open Descriptors

/-! ### What is written on a connection -/

/-- A call after which there is something to read. -/
def Call.answers : Call → Bool
  | (_, _, .acts (.send _)) => true
  | (_, _, .acts (.fork _ _)) => true
  | _ => false

/-- What a call sends to a session. -/
def Call.sends (n : Nat) : Call → Bytes
  | (m, _, .acts (.send data)) => if m = n then data else []
  | _ => []

namespace Host

def transcript (w : Host) (n : Nat) : Bytes :=
  (w.written.filter fun x => x.connection = n).flatMap SocketWrite.data

/-- The number of the call that has started the process it was written by. -/
def startedBy (w : Host) (x : SocketWrite) : Option Nat :=
  (x.process.bind (w.processes[·]?)).map Process.forked

/-- What the transfer has written that the call number `i` has started. -/
def output (w : Host) (i : Nat) : Bytes :=
  (w.written.filter fun x => w.startedBy x = some i).flatMap SocketWrite.data

/-- What the session `n` is to read of a call, which comes with its number. -/
def said (w : Host) (n : Nat) : Call × Nat → Bytes
  | ((m, _, .acts (.send data)), _) => if m = n then data else []
  | ((m, _, .acts (.fork _ _)), i) => if m = n then w.output i else []
  | _ => []

instance (calls : List Call) (n : Nat) (p : Process) : Decidable (p.StartedFor calls n) :=
  match h : p.job with
  | .transfer fd c =>
    decidable_of_iff (calls[p.forked]? = some (n, fd, .acts (.fork c.path c.transformed)))
      ⟨fun hcall => ⟨fd, c, h, hcall⟩, fun ⟨_, _, hjob, hcall⟩ => by
        cases h.symm.trans hjob
        exact hcall⟩
  | .program _ => .isFalse fun ⟨_, _, hjob, _⟩ => Job.noConfusion (h.symm.trans hjob)

/-- The session gets no answer while a file is sent to it. -/
def Attends (calls : List Call) (n : Nat) (w : Host) : Pick → Prop
  | .parent => ∀ c ∈ w.todo.head?, c.1 = n → c.answers = true →
      ∀ p ∈ w.processes, p.StartedFor calls n → p.job.running = false
  | .child _ _ => True

def Waits (transform : Bytes → Bytes) (calls : List Call) (n : Nat) : Host → List Pick → Prop
  | _, [] => True
  | w, pick :: picks =>
    w.Attends calls n pick ∧ Waits transform calls n (w.step transform pick) picks

instance (calls : List Call) (n : Nat) (w : Host) : ∀ pick, Decidable (w.Attends calls n pick)
  | .parent => inferInstanceAs (Decidable (∀ c ∈ w.todo.head?, c.1 = n → c.answers = true →
      ∀ p ∈ w.processes, p.StartedFor calls n → p.job.running = false))
  | .child _ _ => .isTrue trivial

instance decidableWaits (transform : Bytes → Bytes) (calls : List Call) (n : Nat) :
    ∀ (w : Host) (picks : List Pick), Decidable (w.Waits transform calls n picks)
  | _, [] => .isTrue trivial
  | w, pick :: picks =>
    have := decidableWaits transform calls n (w.step transform pick) picks
    inferInstanceAs (Decidable (w.Attends calls n pick ∧ _))

end Host

/-- The file was there at the start, and no call so far removes it. -/
def Files.Kept (fs : Files) (calls : List Call) (path : Bytes) : Prop :=
  fs.linked path = true ∧ ∀ n fd, (n, fd, .acts (.remove path)) ∉ calls

/-- All that a transfer has to write. -/
def Files.whole (transform : Bytes → Bytes) (fs : Files) (path : Bytes) (transformed : Bool) :
    Bytes :=
  fs.body transform path transformed ++ terminator

/-- The answers stand in the order of the calls, each transfer's where it was started; and a
transfer of mail has written a beginning of the file and the terminator, and all of it when it has
ended, unless the file was gone. -/
structure Conversation (transform : Bytes → Bytes) (fs : Files) (calls : List Call) (n : Nat)
    (w : Host) : Prop where
  inOrder : w.transcript n = (calls.take w.made).zipIdx.flatMap (w.said n)
  transfers : ∀ i fd path transformed,
    (calls.take w.made)[i]? = some (n, fd, .acts (.fork path transformed)) → path ≠ LOGGER_FILE →
      w.output i <+: fs.whole transform path transformed ∧
        (fs.Kept (calls.take w.made) path →
          (∀ p ∈ w.processes, p.forked = i → p.StartedFor calls n → p.job.running = false) →
            w.output i = fs.whole transform path transformed)

/-! ### Lists with one item that says more -/

/-- When one item says more, and nothing is said behind it, that is what is said more in all. -/
theorem flatMap_zipIdx_extended {α β : Type} {f g : α × Nat → List β} {d : List β} {l : List α}
    {start i : Nat} {a : α} (ha : l[i]? = some a) (hmore : g (a, start + i) = f (a, start + i) ++ d)
    (hother : ∀ x j, l[j]? = some x → j ≠ i → g (x, start + j) = f (x, start + j))
    (hbehind : ∀ x j, l[j]? = some x → i < j → f (x, start + j) = []) :
    (l.zipIdx start).flatMap g = (l.zipIdx start).flatMap f ++ d := by
  induction l generalizing start i with
  | nil => cases ha
  | cons x l ih =>
    rw [List.zipIdx_cons, List.flatMap_cons, List.flatMap_cons]
    have hshift : ∀ j, start + 1 + j = start + (j + 1) := fun j => by omega
    cases i with
    | zero =>
      cases ha
      have hquiet : ∀ y ∈ l.zipIdx (start + 1), f y = [] ∧ g y = [] := by
        rintro ⟨y, k⟩ hy
        obtain ⟨hle, hget⟩ := List.mk_mem_zipIdx_iff_le_and_getElem?_sub.mp hy
        obtain ⟨j, rfl⟩ := Nat.exists_eq_add_of_le hle
        rw [Nat.add_sub_cancel_left] at hget
        have hf := hbehind y (j + 1) hget (Nat.succ_pos j)
        rw [← hshift] at hf
        refine ⟨hf, ?_⟩
        rw [hshift, hother y (j + 1) hget (Nat.succ_ne_zero j), ← hshift, hf]
      rw [List.flatMap_eq_nil_iff.mpr fun y hy => (hquiet y hy).1,
        List.flatMap_eq_nil_iff.mpr fun y hy => (hquiet y hy).2, List.append_nil, List.append_nil]
      exact hmore
    | succ i =>
      have hfirst : g (x, start) = f (x, start) := hother x 0 rfl (Nat.succ_ne_zero i).symm
      rw [hfirst, List.append_assoc, ih ha]
      · rw [hshift]
        exact hmore
      · intro y j hj hne
        rw [hshift]
        exact hother y (j + 1) hj fun he => hne (Nat.succ.inj he)
      · intro y j hj hlt
        rw [hshift]
        exact hbehind y (j + 1) hj (Nat.succ_lt_succ hlt)

/-! ### What a step adds -/

namespace Host

/-- Something is written, and the processes stay where they are. -/
structure Extends (w w' : Host) (writes : List SocketWrite) : Prop where
  written : w'.written = w.written ++ writes
  kept : ∀ {k : Nat} {p : Process}, w.processes[k]? = some p →
    ∃ p', w'.processes[k]? = some p' ∧ p'.forked = p.forked

/-- Every process that wrote is there. -/
def WritersKnown (w : Host) : Prop :=
  ∀ x ∈ w.written, ∀ k ∈ x.process, ∃ p, w.processes[k]? = some p

section Extends

variable {w w' : Host} {writes : List SocketWrite}

theorem startedBy_of_process {x : SocketWrite} {k : Nat} {p : Process} (hx : x.process = some k)
    (hp : w.processes[k]? = some p) : w.startedBy x = some p.forked := by
  rw [startedBy, hx, Option.bind_some, hp]
  rfl

theorem Extends.transcript (h : w.Extends w' writes) (n : Nat) :
    w'.transcript n =
      w.transcript n ++ (writes.filter fun x => x.connection = n).flatMap SocketWrite.data := by
  rw [Host.transcript, h.written, List.filter_append, List.flatMap_append]
  rfl

theorem Extends.output (h : w.Extends w' writes) (hknown : w.WritersKnown) (i : Nat) :
    w'.output i = w.output i ++
      (writes.filter fun x => w'.startedBy x = some i).flatMap SocketWrite.data := by
  have hsame : ∀ x ∈ w.written, w'.startedBy x = w.startedBy x := by
    intro x hx
    cases hprocess : x.process with
    | none => rw [startedBy, startedBy, hprocess]; rfl
    | some k =>
      obtain ⟨p, hp⟩ := hknown x hx k hprocess
      obtain ⟨p', hp', hforked⟩ := h.kept hp
      rw [startedBy_of_process hprocess hp, startedBy_of_process hprocess hp', hforked]
  have hfilter : (w.written.filter fun x => w'.startedBy x = some i) =
      w.written.filter fun x => w.startedBy x = some i :=
    List.filter_congr fun x hx => by rw [hsame x hx]
  rw [Host.output, h.written, List.filter_append, List.flatMap_append, hfilter]
  rfl

/-- The server itself writes nothing of a transfer. -/
theorem Extends.output_of_server (h : w.Extends w' writes) (hknown : w.WritersKnown)
    (hserver : ∀ x ∈ writes, x.process = none) (i : Nat) : w'.output i = w.output i := by
  have hnone : (writes.filter fun x => w'.startedBy x = some i) = [] := by
    refine List.filter_eq_nil_iff.mpr fun x hx => ?_
    rw [startedBy, hserver x hx]
    exact Bool.false_ne_true
  rw [h.output hknown, hnone]
  exact List.append_nil _

/-- Nothing was written by a process that is yet to be started. -/
theorem output_of_later (hknown : w.WritersKnown) (hforked : ∀ p ∈ w.processes, p.forked < w.made) :
    w.output w.made = [] := by
  have hnone : (w.written.filter fun x => w.startedBy x = some w.made) = [] := by
    refine List.filter_eq_nil_iff.mpr fun x hx => ?_
    cases hprocess : x.process with
    | none =>
      rw [startedBy, hprocess]
      exact Bool.false_ne_true
    | some k =>
      obtain ⟨p, hp⟩ := hknown x hx k hprocess
      rw [startedBy_of_process hprocess hp]
      have hlt := hforked p (List.mem_of_getElem? hp)
      simpa using Nat.ne_of_lt hlt
  rw [output, hnone]
  rfl

end Extends

section Steps

variable {transform : Bytes → Bytes} {calls : List Call} {w : Host}

theorem Inv.writersKnown (h : w.Inv calls) : w.WritersKnown := by
  intro x hx k hk
  obtain ⟨p, hp, -⟩ := h.isolated.transfers x hx k hk
  exact ⟨p, hp⟩

/-- What a step of a transfer adds, for its session and for its call. -/
theorem Inv.transferStep_adds (h : w.Inv calls) {k : Nat} {p : Process}
    (hp : w.processes[k]? = some p) {fd : Int} {c : Child} (hjob : p.job = .transfer fd c)
    (size : Nat) : ∃ n, calls[p.forked]? = some (n, fd, .acts (.fork c.path c.transformed)) ∧
      (∀ m, (w.transferStep transform k p fd c size).transcript m =
        w.transcript m ++ if m = n then (c.step transform w.files size).1 else []) ∧
      ∀ i, (w.transferStep transform k p fd c size).output i =
        w.output i ++ if i = p.forked then (c.step transform w.files size).1 else [] := by
  have hinherits := h.processes p (List.mem_of_getElem? hp)
  obtain ⟨n, hcall, hleads⟩ := hinherits.own fd c hjob
  have hk : k < w.processes.length := (List.getElem?_eq_some_iff.mp hp).1
  have hrunning : (c.step transform w.files size).1 ≠ [] → p.table fd = some n := by
    intro hsome
    apply hleads
    rw [hjob]
    refine decide_eq_true fun hdone => hsome ?_
    rw [c.step_done transform w.files size hdone]
  have hextends : w.Extends (w.transferStep transform k p fd c size)
      (if (c.step transform w.files size).1 = [] then []
      else [⟨n, some k, (c.step transform w.files size).1⟩]) := by
    constructor
    case written =>
      unfold transferStep
      split
      · next hnone => simp only [if_pos hnone]
      · next hsome =>
        simp only [if_neg hsome, writeOn, hrunning hsome, Option.toList_some, List.map]
    case kept =>
      intro j q hq
      have hj : j < w.processes.length := (List.getElem?_eq_some_iff.mp hq).1
      unfold transferStep
      simp only
      rw [List.getElem?_append_left (by rwa [List.length_set])]
      by_cases hjk : j = k
      · subst hjk
        cases hp.symm.trans hq
        exact ⟨_, List.getElem?_set_self hk, rfl⟩
      · exact ⟨q, (List.getElem?_set_ne fun he => hjk he.symm).trans hq, rfl⟩
  refine ⟨n, hcall, fun m => ?_, fun i => ?_⟩
  · rw [hextends.transcript]
    congr 1
    split
    · next hnone => rw [hnone]; simp
    · by_cases hm : m = n
      · simp [hm]
      · simp [hm, Ne.symm hm]
  · rw [hextends.output h.writersKnown]
    congr 1
    split
    · next hnone => rw [hnone]; simp
    · obtain ⟨q, hq, hforked⟩ := hextends.kept hp
      have hstarted := @startedBy_of_process (w.transferStep transform k p fd c size)
        ⟨n, some k, (c.step transform w.files size).1⟩ k q rfl hq
      rw [hforked] at hstarted
      by_cases hi : i = p.forked
      · simp [hstarted, hi]
      · simp [hstarted, hi, Ne.symm hi]

/-- The program of a transformation writes nothing. -/
theorem Inv.program_adds (h : w.Inv calls) {k : Nat} {p : Process} (hp : w.processes[k]? = some p)
    {w' : Host} (hwritten : w'.written = w.written) {q : Process}
    (hprocesses : w'.processes = w.processes.set k q) (hq : q.forked = p.forked) :
    (∀ m, w'.transcript m = w.transcript m) ∧ ∀ i, w'.output i = w.output i := by
  have hk : k < w.processes.length := (List.getElem?_eq_some_iff.mp hp).1
  have hextends : w.Extends w' [] := by
    constructor
    case written => rw [hwritten, List.append_nil]
    case kept =>
      intro j r hr
      rw [hprocesses]
      by_cases hjk : j = k
      · subst hjk
        cases hp.symm.trans hr
        exact ⟨q, List.getElem?_set_self hk, hq⟩
      · exact ⟨r, (List.getElem?_set_ne fun he => hjk he.symm).trans hr, rfl⟩
  refine ⟨fun m => ?_,
    hextends.output_of_server h.writersKnown fun _ hx => absurd hx List.not_mem_nil⟩
  rw [hextends.transcript]
  exact List.append_nil _

/-- What a call of the server adds. -/
theorem Inv.parent_adds (h : w.Inv calls) {v : Wiring Int Nat}
    (hrun : wiring.Run Wiring.start calls v) {c : Call} {rest : List Call}
    (htodo : w.todo = c :: rest) {w' : Host}
    (hw' : w' = { w.call c with todo := rest, made := w.made + 1 }) :
    (∀ m, w'.transcript m = w.transcript m ++ c.sends m) ∧ ∀ i, w'.output i = w.output i := by
  subst hw'
  obtain ⟨-, -, t, t', ht, hstep, -⟩ := h.next hrun htodo
  have hadds : ∀ {w' : Host} {writes : List SocketWrite}, w.Extends w' writes →
      (∀ x ∈ writes, x.process = none) →
      (∀ m, (writes.filter fun x => x.connection = m).flatMap SocketWrite.data = c.sends m) →
      (∀ m, w'.transcript m = w.transcript m ++ c.sends m) ∧ ∀ i, w'.output i = w.output i := by
    intro w' writes hextends hserver hsends
    refine ⟨fun m => ?_, hextends.output_of_server h.writersKnown hserver⟩
    rw [hextends.transcript, hsends]
  have hnobody : ∀ x ∈ ([] : List SocketWrite), x.process = none :=
    fun x hx => absurd hx List.not_mem_nil
  cases hstep with
  | opens _ _ => exact hadds ⟨(List.append_nil _).symm, fun hp => ⟨_, hp, rfl⟩⟩ hnobody fun _ => rfl
  | closes _ _ => exact hadds ⟨(List.append_nil _).symm, fun hp => ⟨_, hp, rfl⟩⟩ hnobody fun _ => rfl
  | @acts n fd a hleads =>
    cases a with
    | send data =>
      have hleads : w.table fd = some n := ht ▸ hleads trivial
      have hwrites : writeOn w.table fd none data = [⟨n, none, data⟩] := by
        rw [writeOn, hleads]
        rfl
      refine hadds ⟨rfl, fun hp => ⟨_, hp, rfl⟩⟩ (fun x hx => (mem_writeOn hx).2) fun m => ?_
      rw [hwrites, Call.sends]
      by_cases hm : n = m
      · simp [hm]
      · simp [hm]
    | append line =>
      exact hadds ⟨(List.append_nil _).symm, fun hp => ⟨_, hp, rfl⟩⟩ hnobody fun _ => rfl
    | remove path =>
      exact hadds ⟨(List.append_nil _).symm, fun hp => ⟨_, hp, rfl⟩⟩ hnobody fun _ => rfl
    | fork path transformed =>
      refine hadds ⟨(List.append_nil _).symm, fun {k p} hp => ⟨p, ?_, rfl⟩⟩ hnobody fun _ => rfl
      exact (List.getElem?_append_left (List.getElem?_eq_some_iff.mp hp).1).trans hp

end Steps

/-! ### The transfers -/

/-- What the transfer of a call has written and what it has left make the file, or it has ended
without a word because the file was gone. -/
def Accounted (transform : Bytes → Bytes) (fs : Files) (calls : List Call) (w : Host) (i : Nat)
    (c : Child) : Prop :=
  (c.stage = .done ∧ w.output i = [] ∧ ¬ fs.Kept (calls.take w.made) c.path) ∨
    w.output i ++ c.left transform fs = fs.whole transform c.path c.transformed

/-- Every call that starts a transfer has one, and it is the only one to write for it. -/
structure Sends (transform : Bytes → Bytes) (fs : Files) (calls : List Call) (w : Host) : Prop where
  started : ∀ {i n : Nat} {fd : Int} {path : Bytes} {transformed : Bool}, i < w.made →
    calls[i]? = some (n, fd, .acts (.fork path transformed)) →
      ∃ p ∈ w.processes, ∃ c, p.forked = i ∧ p.job = .transfer fd c ∧ c.path = path ∧
        c.transformed = transformed
  forked : ∀ p ∈ w.processes, p.forked < w.made
  unique : ∀ {j k : Nat} {p q : Process} {fd fd' : Int} {c c' : Child},
    w.processes[j]? = some p → w.processes[k]? = some q → p.job = .transfer fd c →
      q.job = .transfer fd' c' → p.forked = q.forked → j = k
  content : ∀ path ≠ LOGGER_FILE, w.files.content path = fs.content path
  linked : ∀ path ≠ LOGGER_FILE, fs.Kept (calls.take w.made) path → w.files.linked path = true
  accounted : ∀ p ∈ w.processes, ∀ fd c, p.job = .transfer fd c → c.path ≠ LOGGER_FILE →
    Accounted transform fs calls w p.forked c

section Transfers

variable {transform : Bytes → Bytes} {fs : Files} {calls : List Call} {w : Host}

theorem kept_of_take {k k' : Nat} (hle : k ≤ k') {path : Bytes}
    (h : fs.Kept (calls.take k') path) : fs.Kept (calls.take k) path :=
  ⟨h.1, fun n fd hmem => h.2 n fd ((List.take_prefix_take_left hle).subset hmem)⟩

theorem mem_take_made {c : Call} {made : Nat} (hcall : calls[made]? = some c) :
    c ∈ calls.take (made + 1) := by
  rw [List.take_add_one, hcall]
  exact List.mem_append_right _ (List.mem_singleton_self c)

theorem Accounted.mono {i : Nat} {c : Child} (h : w.Accounted transform fs calls i c) {w' : Host}
    (houtput : w'.output i = w.output i) (hmade : w.made ≤ w'.made) :
    w'.Accounted transform fs calls i c := by
  rcases h with ⟨hdone, hnone, hgone⟩ | hwhole
  · exact .inl ⟨hdone, houtput.trans hnone, fun hkept => hgone (kept_of_take hmade hkept)⟩
  · exact .inr (by rw [houtput, hwhole])

/-- A call that starts no transfer. -/
theorem Sends.quietly (h : w.Sends transform fs calls) {c : Call}
    (hcall : calls[w.made]? = some c)
    (hnofork : ∀ n fd path transformed, c ≠ (n, fd, .acts (.fork path transformed))) {w' : Host}
    (hmade : w'.made = w.made + 1) (hprocesses : w'.processes = w.processes)
    (houtput : ∀ i, w'.output i = w.output i)
    (hcontent : ∀ path ≠ LOGGER_FILE, w'.files.content path = w.files.content path)
    (hlinked : ∀ path ≠ LOGGER_FILE, (∀ n fd, c ≠ (n, fd, .acts (.remove path))) →
      w.files.linked path = true → w'.files.linked path = true) :
    w'.Sends transform fs calls where
  started {i n fd path transformed} hi hget := by
    rw [hmade] at hi
    rcases Nat.lt_succ_iff_lt_or_eq.mp hi with hi | rfl
    · rw [hprocesses]
      exact h.started hi hget
    · exact absurd (Option.some.inj (hcall.symm.trans hget)) (hnofork _ _ _ _)
  forked p hp := by
    rw [hmade]
    exact Nat.lt_succ_of_lt (h.forked p (hprocesses ▸ hp))
  unique hp hq := by
    rw [hprocesses] at hp hq
    exact h.unique hp hq
  content path hpath := (hcontent path hpath).trans (h.content path hpath)
  linked path hpath hkept := by
    rw [hmade] at hkept
    apply hlinked path hpath
    · rintro n fd rfl
      exact hkept.2 n fd (mem_take_made hcall)
    · exact h.linked path hpath (kept_of_take (Nat.le_succ _) hkept)
  accounted p hp fd c hjob hpath := by
    rw [hprocesses] at hp
    exact (h.accounted p hp fd c hjob hpath).mono (houtput _) (hmade ▸ Nat.le_succ _)

/-- A call that starts one. -/
theorem Sends.fork (h : w.Sends transform fs calls) (hknown : w.WritersKnown) {n : Nat} {fd : Int}
    {path : Bytes} {transformed : Bool}
    (hcall : calls[w.made]? = some (n, fd, .acts (.fork path transformed))) {w' : Host}
    (hmade : w'.made = w.made + 1) (hfiles : w'.files = w.files)
    (hprocesses : w'.processes = w.processes ++
      [⟨w.table, .transfer fd ⟨path, transformed, .forked⟩, w.made⟩])
    (houtput : ∀ i, w'.output i = w.output i) : w'.Sends transform fs calls where
  started {i m fd' path' transformed'} hi hget := by
    rw [hmade] at hi
    rw [hprocesses]
    rcases Nat.lt_succ_iff_lt_or_eq.mp hi with hi | rfl
    · obtain ⟨p, hp, hstarted⟩ := h.started hi hget
      exact ⟨p, List.mem_append_left _ hp, hstarted⟩
    · cases hcall.symm.trans hget
      exact ⟨_, List.mem_append_right _ (List.mem_singleton_self _), _, rfl, rfl, rfl, rfl⟩
  forked p hp := by
    rw [hmade]
    rw [hprocesses] at hp
    rcases List.mem_append.mp hp with hp | hp
    · exact Nat.lt_succ_of_lt (h.forked p hp)
    · rw [List.mem_singleton.mp hp]
      exact Nat.lt_succ_self _
  unique {j k p q fd' fd'' c c'} hp hq hjob hjob' hforked := by
    have hplace : ∀ {j p}, w'.processes[j]? = some p →
        (w.processes[j]? = some p ∧ p.forked < w.made) ∨
          (j = w.processes.length ∧ p.forked = w.made) := by
      intro j p hp
      rw [hprocesses] at hp
      rcases Nat.lt_or_ge j w.processes.length with hj | hj
      · rw [List.getElem?_append_left hj] at hp
        exact .inl ⟨hp, h.forked p (List.mem_of_getElem? hp)⟩
      · rw [List.getElem?_append_right hj] at hp
        obtain ⟨hlt, hget⟩ := List.getElem?_eq_some_iff.mp hp
        have hzero : j - w.processes.length = 0 := Nat.lt_one_iff.mp hlt
        rw [List.getElem_singleton] at hget
        exact .inr ⟨Nat.le_antisymm (Nat.le_of_sub_eq_zero hzero) hj, hget ▸ rfl⟩
    rcases hplace hp with ⟨hp, hlt⟩ | ⟨hj, hnew⟩
    · rcases hplace hq with ⟨hq, -⟩ | ⟨-, hnew⟩
      · exact h.unique hp hq hjob hjob' hforked
      · omega
    · rcases hplace hq with ⟨-, hlt⟩ | ⟨hk, -⟩
      · omega
      · rw [hj, hk]
  content path hpath := by
    rw [hfiles]
    exact h.content path hpath
  linked path hpath hkept := by
    rw [hfiles]
    exact h.linked path hpath (kept_of_take (hmade ▸ Nat.le_succ _) hkept)
  accounted p hp fd' c hjob hpath := by
    rw [hprocesses] at hp
    rcases List.mem_append.mp hp with hp | hp
    · exact (h.accounted p hp fd' c hjob hpath).mono (houtput _) (hmade ▸ Nat.le_succ _)
    · cases List.mem_singleton.mp hp
      cases hjob
      refine .inr ?_
      rw [houtput, output_of_later hknown h.forked]
      rfl

/-- **Step lemma of the server.** -/
theorem Sends.parent (h : w.Sends transform fs calls) (hinv : w.Inv calls) {v : Wiring Int Nat}
    (hrun : wiring.Run Wiring.start calls v) {c : Call} {rest : List Call}
    (htodo : w.todo = c :: rest) :
    Host.Sends transform fs calls { w.call c with todo := rest, made := w.made + 1 } := by
  obtain ⟨hcall, -⟩ := hinv.next hrun htodo
  obtain ⟨-, houtput⟩ := hinv.parent_adds hrun htodo rfl
  obtain ⟨n, fd, use⟩ := c
  cases use with
  | opens =>
    exact h.quietly hcall (fun _ _ _ _ he => by cases he) rfl rfl houtput (fun _ _ => rfl)
      fun _ _ _ hl => hl
  | closes =>
    exact h.quietly hcall (fun _ _ _ _ he => by cases he) rfl rfl houtput (fun _ _ => rfl)
      fun _ _ _ hl => hl
  | acts a =>
    cases a with
    | send data =>
      exact h.quietly hcall (fun _ _ _ _ he => by cases he) rfl rfl houtput (fun _ _ => rfl)
        fun _ _ _ hl => hl
    | append line =>
      refine h.quietly hcall (fun _ _ _ _ he => by cases he) rfl rfl houtput
        (fun path hpath => ?_) fun path hpath _ hl => ?_
      · exact Function.update_of_ne hpath _ _
      · exact (Function.update_of_ne hpath _ _).trans hl
    | remove path =>
      refine h.quietly hcall (fun _ _ _ _ he => by cases he) rfl rfl houtput (fun _ _ => rfl)
        fun path' _ hother hl => ?_
      have hne : path' ≠ path := by
        rintro rfl
        exact hother n fd rfl
      exact (Function.update_of_ne hne _ _).trans hl
    | fork path transformed => exact h.fork hinv.writersKnown hcall rfl rfl rfl houtput

/-- A step of a process: it goes on with its transfer, and what it starts writes nothing. -/
theorem Sends.replace (h : w.Sends transform fs calls) {k : Nat} {p p' : Process}
    (hp : w.processes[k]? = some p) (hforked : p'.forked = p.forked)
    (hkept : ∀ fd c, p.job = .transfer fd c → ∃ c', p'.job = .transfer fd c' ∧ c'.path = c.path ∧
      c'.transformed = c.transformed)
    (hwas : ∀ fd c', p'.job = .transfer fd c' → ∃ c, p.job = .transfer fd c)
    {started : List Process}
    (hstarted : ∀ q ∈ started, q.forked = p.forked ∧ ∀ fd c, q.job ≠ .transfer fd c) {w' : Host}
    (hmade : w'.made = w.made) (hfiles : w'.files = w.files)
    (hprocesses : w'.processes = w.processes.set k p' ++ started)
    (houtput : ∀ j ≠ k, ∀ q fd c, w.processes[j]? = some q → q.job = .transfer fd c →
      w'.output q.forked = w.output q.forked)
    (haccounted : ∀ fd c', p'.job = .transfer fd c' → c'.path ≠ LOGGER_FILE →
      w'.Accounted transform fs calls p.forked c') : w'.Sends transform fs calls := by
  have hk : k < w.processes.length := (List.getElem?_eq_some_iff.mp hp).1
  have hself : w'.processes[k]? = some p' := by
    rw [hprocesses, List.getElem?_append_left (by rwa [List.length_set]), List.getElem?_set_self hk]
  have hothers : ∀ {j q}, j ≠ k → w.processes[j]? = some q → w'.processes[j]? = some q := by
    intro j q hjk hq
    have hj : j < w.processes.length := (List.getElem?_eq_some_iff.mp hq).1
    rw [hprocesses, List.getElem?_append_left (by rwa [List.length_set]),
      List.getElem?_set_ne fun he => hjk he.symm, hq]
  -- where a process of the new host has come from
  have hplace : ∀ {j q}, w'.processes[j]? = some q →
      (j = k ∧ q = p') ∨ (j ≠ k ∧ w.processes[j]? = some q) ∨
        (q.forked = p.forked ∧ ∀ fd c, q.job ≠ .transfer fd c) := by
    intro j q hq
    rcases Nat.lt_or_ge j w.processes.length with hj | hj
    · by_cases hjk : j = k
      · subst hjk
        exact .inl ⟨rfl, Option.some.inj (hq.symm.trans hself)⟩
      · obtain ⟨r, hr⟩ : ∃ r, w.processes[j]? = some r := ⟨_, List.getElem?_eq_getElem hj⟩
        cases hq.symm.trans (hothers hjk hr)
        exact .inr (.inl ⟨hjk, hr⟩)
    · rw [hprocesses, List.getElem?_append_right (by rwa [List.length_set])] at hq
      exact .inr (.inr (hstarted q (List.mem_of_getElem? hq)))
  constructor
  case started =>
    intro i n fd path transformed hi hget
    obtain ⟨q, hq, c, hqforked, hjob, hpath, htransformed⟩ := h.started (hmade ▸ hi) hget
    obtain ⟨j, hj⟩ := List.mem_iff_getElem?.mp hq
    by_cases hjk : j = k
    · subst hjk
      cases hp.symm.trans hj
      obtain ⟨c', hjob', hpath', htransformed'⟩ := hkept fd c hjob
      exact ⟨p', List.mem_of_getElem? hself, c', hforked.trans hqforked, hjob', hpath'.trans hpath,
        htransformed'.trans htransformed⟩
    · exact ⟨q, List.mem_of_getElem? (hothers hjk hj), c, hqforked, hjob, hpath, htransformed⟩
  case forked =>
    intro q hq
    have hlt := h.forked p (List.mem_of_getElem? hp)
    obtain ⟨j, hj⟩ := List.mem_iff_getElem?.mp hq
    rw [hmade]
    rcases hplace hj with ⟨-, rfl⟩ | ⟨-, hold⟩ | ⟨hqforked, -⟩
    · rwa [hforked]
    · exact h.forked q (List.mem_of_getElem? hold)
    · rwa [hqforked]
  case unique =>
    have hold : ∀ {j : Nat} {q : Process} {fd : Int} {c : Child}, w'.processes[j]? = some q →
        q.job = .transfer fd c → ∃ (q' : Process) (c' : Child), w.processes[j]? = some q' ∧
          q'.job = .transfer fd c' ∧ q'.forked = q.forked := by
      intro j q fd c hq hjob
      rcases hplace hq with ⟨rfl, rfl⟩ | ⟨-, hold⟩ | ⟨-, hno⟩
      · obtain ⟨c', hjob'⟩ := hwas fd c hjob
        exact ⟨p, c', hp, hjob', hforked.symm⟩
      · exact ⟨q, c, hold, hjob, rfl⟩
      · exact absurd hjob (hno fd c)
    intro j j' q q' fd fd' c c' hq hq' hjob hjob' hsame
    obtain ⟨r, d, hr, hrjob, hrforked⟩ := hold hq hjob
    obtain ⟨r', d', hr', hrjob', hrforked'⟩ := hold hq' hjob'
    exact h.unique hr hr' hrjob hrjob' (hrforked.trans (hsame.trans hrforked'.symm))
  case content =>
    rw [hfiles]
    exact h.content
  case linked =>
    rw [hfiles, hmade]
    exact h.linked
  case accounted =>
    intro q hq fd c hjob hpath
    obtain ⟨j, hj⟩ := List.mem_iff_getElem?.mp hq
    rcases hplace hj with ⟨-, rfl⟩ | ⟨hjk, hold⟩ | ⟨-, hno⟩
    · rw [hforked]
      exact haccounted fd c hjob hpath
    · exact (h.accounted q (List.mem_of_getElem? hold) fd c hjob hpath).mono
        (houtput j hjk q fd c hold hjob) (Nat.le_of_eq hmade.symm)
    · exact absurd hjob (hno fd c)

/-- What a transfer of mail writes and what it has left are all of it at every step, once the file
could be opened. -/
theorem step_left_of_content {fs fs' : Files} {c : Child}
    (hopen : c.stage = .forked → fs'.linked c.path = true)
    (hcontent : fs'.content c.path = fs.content c.path) (size : Nat) :
    (c.step transform fs' size).1 ++ (c.step transform fs' size).2.left transform fs =
      c.left transform fs := by
  have hall : c.step transform fs' size =
      c.step transform { fs' with linked := fun _ => true } size := by
    unfold Child.step
    cases hstage : c.stage with
    | forked => simp only [hopen hstage]
    | _ => rfl
  obtain ⟨hwhole, hpath⟩ :=
    @Child.step_left transform { fs' with linked := fun _ => true } c rfl size
  rw [← hall] at hwhole hpath
  have hsame : ∀ d : Child, d.path = c.path →
      d.left transform { fs' with linked := fun _ => true } = d.left transform fs :=
    fun d hd => d.left_congr transform (hd ▸ hcontent)
  rwa [hsame _ hpath, hsame c rfl] at hwhole

/-- **Step lemma of a transfer.** -/
theorem Sends.transfer (h : w.Sends transform fs calls) (hinv : w.Inv calls) {k : Nat} {p : Process}
    (hp : w.processes[k]? = some p) {fd : Int} {c : Child} (hjob : p.job = .transfer fd c)
    (size : Nat) : (w.transferStep transform k p fd c size).Sends transform fs calls := by
  obtain ⟨n, -, -, houtput⟩ := @Inv.transferStep_adds transform _ _ hinv _ _ hp _ _ hjob size
  obtain ⟨hpath, htransformed⟩ := c.step_kept transform w.files size
  refine h.replace hp ?_ ?_ ?_ ?_ rfl rfl rfl ?_ ?_
  · rfl
  · intro fd' c' hjob'
    cases hjob.symm.trans hjob'
    exact ⟨_, rfl, hpath, htransformed⟩
  · intro fd' c' hjob'
    cases hjob'
    exact ⟨c, hjob⟩
  · intro q hq
    split at hq
    · rw [List.mem_singleton.mp hq]
      exact ⟨rfl, fun _ _ he => Job.noConfusion he⟩
    · exact absurd hq List.not_mem_nil
  · intro j hjk q fd' c' hq hqjob
    have hne : q.forked ≠ p.forked := fun he => hjk (h.unique hq hp hqjob hjob he)
    rw [houtput, if_neg hne, List.append_nil]
  · intro fd' c' hjob' hmail
    cases hjob'
    rw [hpath] at hmail
    have hcontent := h.content c.path hmail
    rcases h.accounted p (List.mem_of_getElem? hp) fd c hjob hmail with
      ⟨hdone, hnone, hgone⟩ | hwhole
    · have hstep := c.step_done transform w.files size hdone
      refine .inl ⟨?_, ?_, ?_⟩
      · rw [hstep]
        exact hdone
      · rw [houtput, hnone, if_pos rfl, hstep]
        rfl
      · rw [hpath]
        exact hgone
    · by_cases hopen : c.stage = .forked → w.files.linked c.path = true
      · refine .inr ?_
        rw [houtput, if_pos rfl, List.append_assoc, step_left_of_content hopen hcontent, hwhole,
          hpath, htransformed]
      · -- the file is gone before it is opened
        obtain ⟨hforked, hunlinked⟩ := Classical.not_imp.mp hopen
        have hstep : c.step transform w.files size = ([], { c with stage := .done }) := by
          unfold Child.step
          rw [hforked]
          simp only [if_neg hunlinked]
        refine .inl ⟨by rw [hstep], ?_, fun hkept => hunlinked ?_⟩
        · have hnone : w.output p.forked = [] := by
            unfold Child.left at hwhole
            rw [hforked] at hwhole
            exact List.append_left_eq_self.mp hwhole
          rw [houtput, hnone, if_pos rfl, hstep]
          rfl
        · rw [hpath] at hkept
          exact h.linked c.path hmail hkept

/-- The program of a transformation ends. -/
theorem Sends.program (h : w.Sends transform fs calls) (hinv : w.Inv calls) {k : Nat} {p : Process}
    (hp : w.processes[k]? = some p) {exited : Bool} (hjob : p.job = .program exited) :
    Host.Sends transform fs calls
      { w with processes := w.processes.set k { p with table := .empty, job := .program true } } := by
  have hno : ∀ (fd : Int) (c : Child), Job.program true ≠ .transfer fd c :=
    fun _ _ he => Job.noConfusion he
  obtain ⟨-, houtput⟩ := @Inv.program_adds _ _ hinv k p hp
    { w with processes := w.processes.set k { p with table := .empty, job := .program true } }
    rfl _ rfl rfl
  refine @Sends.replace _ _ _ _ h k p { p with table := .empty, job := .program true } hp rfl ?_
    (fun fd c he => absurd he (hno fd c)) [] (fun q hq => absurd hq List.not_mem_nil) _ rfl rfl
    (List.append_nil _).symm (fun j _ q _ _ _ _ => houtput q.forked)
    (fun fd c he => absurd he (hno fd c))
  intro fd c hjob'
  cases hjob.symm.trans hjob'

end Transfers

/-! ### The order on one connection -/

/-- The connection has the answers in their order, and nothing has been answered behind a call whose
transfer still runs. -/
structure Turns (calls : List Call) (n : Nat) (w : Host) : Prop where
  inOrder : w.transcript n = (calls.take w.made).zipIdx.flatMap (w.said n)
  last : ∀ p ∈ w.processes, p.StartedFor calls n → p.job.running = true → ∀ j c, p.forked < j →
    j < w.made → calls[j]? = some c → c.1 = n → c.answers = false

section Turns

variable {transform : Bytes → Bytes} {fs : Files} {calls : List Call} {n : Nat} {w : Host}

theorem said_congr {w w' : Host} {c : Call} {i : Nat} (h : c.1 = n → w'.output i = w.output i) :
    w'.said n (c, i) = w.said n (c, i) := by
  obtain ⟨m, fd, use⟩ := c
  cases use with
  | acts a =>
    cases a with
    | fork path transformed =>
      change (if m = n then w'.output i else []) = if m = n then w.output i else []
      split
      · next hm => exact h hm
      · rfl
    | _ => rfl
  | _ => rfl

theorem said_of_silent {c : Call} (h : c.1 = n → c.answers = false) (i : Nat) :
    w.said n (c, i) = [] := by
  obtain ⟨m, fd, use⟩ := c
  cases use with
  | acts a =>
    cases a with
    | send data => exact if_neg fun hm => Bool.noConfusion (h hm)
    | fork path transformed => exact if_neg fun hm => Bool.noConfusion (h hm)
    | _ => rfl
  | _ => rfl

/-- What is said of a call that is just made. -/
theorem said_of_new {c : Call} {i : Nat} (h : w.output i = []) : w.said n (c, i) = c.sends n := by
  obtain ⟨m, fd, use⟩ := c
  cases use with
  | acts a =>
    cases a with
    | fork path transformed =>
      change (if m = n then w.output i else []) = []
      rw [h, ite_self]
    | _ => rfl
  | _ => rfl

theorem mem_call_processes {c : Call} {p : Process} (hp : p ∈ (w.call c).processes) :
    p ∈ w.processes ∨ p.forked = w.made := by
  obtain ⟨m, fd, use⟩ := c
  cases use with
  | acts a =>
    cases a with
    | fork path transformed =>
      rcases List.mem_append.mp hp with hp | hp
      · exact .inl hp
      · exact .inr (by rw [List.mem_singleton.mp hp])
    | _ => exact .inl hp
  | _ => exact .inl hp

theorem zipIdx_take_succ {c : Call} {k : Nat} (h : calls[k]? = some c) :
    (calls.take (k + 1)).zipIdx = (calls.take k).zipIdx ++ [(c, k)] := by
  have hlength : (calls.take k).length = k :=
    List.length_take_of_le (Nat.le_of_lt (List.getElem?_eq_some_iff.mp h).1)
  rw [List.take_add_one, h, Option.toList_some, List.zipIdx_append, hlength, Nat.zero_add]
  rfl

/-- **Step lemma of the server**, when the session waits. -/
theorem Turns.parent (h : w.Turns calls n) (hinv : w.Inv calls)
    (hsends : w.Sends transform fs calls) {v : Wiring Int Nat}
    (hrun : wiring.Run Wiring.start calls v) {c : Call} {rest : List Call}
    (htodo : w.todo = c :: rest) (hwaits : c.1 = n → c.answers = true →
      ∀ p ∈ w.processes, p.StartedFor calls n → p.job.running = false) :
    Host.Turns calls n { w.call c with todo := rest, made := w.made + 1 } := by
  obtain ⟨hcall, -⟩ := hinv.next hrun htodo
  obtain ⟨htranscript, houtput⟩ := hinv.parent_adds hrun htodo rfl
  constructor
  case inOrder =>
    have hsaid : ∀ x ∈ (calls.take w.made).zipIdx,
        Host.said { w.call c with todo := rest, made := w.made + 1 } n x = w.said n x :=
      fun x _ => said_congr fun _ => houtput x.2
    have hnew : Host.output { w.call c with todo := rest, made := w.made + 1 } w.made = [] :=
      (houtput w.made).trans (output_of_later hinv.writersKnown hsends.forked)
    rw [htranscript, h.inOrder, zipIdx_take_succ hcall, List.flatMap_append, List.flatMap_singleton,
      said_of_new hnew, List.flatMap_congr hsaid]
  case last =>
    intro p hp hstarted hrunning j x hj hmade hget hx
    rcases mem_call_processes hp with hold | hnew
    · rcases Nat.lt_succ_iff_lt_or_eq.mp hmade with hj' | rfl
      · exact h.last p hold hstarted hrunning j x hj hj' hget hx
      · cases hcall.symm.trans hget
        refine Bool.eq_false_iff.mpr fun hanswers => ?_
        rw [hwaits hx hanswers p hold hstarted] at hrunning
        cases hrunning
    · have hlt : j < w.made + 1 := hmade
      omega

/-- A process that goes on, and what it starts, is not one more that runs for the session. -/
theorem Turns.last_of_replace (h : w.Turns calls n) {k : Nat} {p p' : Process}
    (hp : w.processes[k]? = some p) (hforked : p'.forked = p.forked)
    (hwas : p'.StartedFor calls n → p.StartedFor calls n)
    (hruns : p'.job.running = true → p.job.running = true) {started : List Process}
    (hstarted : ∀ q ∈ started, ∀ fd c, q.job ≠ .transfer fd c) {w' : Host}
    (hmade : w'.made = w.made) (hprocesses : w'.processes = w.processes.set k p' ++ started) :
    ∀ q ∈ w'.processes, q.StartedFor calls n → q.job.running = true → ∀ j c, q.forked < j →
      j < w'.made → calls[j]? = some c → c.1 = n → c.answers = false := by
  intro q hq hfor hrunning
  rw [hmade]
  rw [hprocesses] at hq
  rcases List.mem_append.mp hq with hq | hq
  · rcases List.mem_or_eq_of_mem_set hq with hold | rfl
    · exact h.last q hold hfor hrunning
    · rw [hforked]
      exact h.last p (List.mem_of_getElem? hp) (hwas hfor) (hruns hrunning)
  · obtain ⟨fd, c, hjob, -⟩ := hfor
    exact absurd hjob (hstarted q hq fd c)

/-- **Step lemma of a transfer.** -/
theorem Turns.transfer (h : w.Turns calls n) (hinv : w.Inv calls)
    (hsends : w.Sends transform fs calls) {k : Nat} {p : Process}
    (hp : w.processes[k]? = some p) {fd : Int} {c : Child} (hjob : p.job = .transfer fd c)
    (size : Nat) :
    (w.transferStep transform k p fd c size).Turns calls n := by
  obtain ⟨m, hcall, htranscript, houtput⟩ :=
    @Inv.transferStep_adds transform _ _ hinv _ _ hp _ _ hjob size
  obtain ⟨hpath, htransformed⟩ := c.step_kept transform w.files size
  have hmem := List.mem_of_getElem? hp
  have hdone : c.stage = .done → (c.step transform w.files size).1 = [] ∧
      (c.step transform w.files size).2.stage = .done := by
    intro hdone
    rw [c.step_done transform w.files size hdone]
    exact ⟨rfl, hdone⟩
  constructor
  case inOrder =>
    have hget : (calls.take w.made)[p.forked]? =
        some (m, fd, .acts (.fork c.path c.transformed)) := by
      rw [List.getElem?_take_of_lt (hsends.forked p hmem), hcall]
    have hother : ∀ x j, (calls.take w.made)[j]? = some x → j ≠ p.forked →
        (w.transferStep transform k p fd c size).said n (x, j) = w.said n (x, j) := by
      intro x j _ hne
      exact said_congr fun _ => by rw [houtput, if_neg hne, List.append_nil]
    rw [htranscript, h.inOrder]
    by_cases hmine : n = m ∧ (c.step transform w.files size).1 ≠ []
    · obtain ⟨rfl, hsome⟩ := hmine
      have hfor : p.StartedFor calls n := ⟨fd, c, hjob, hcall⟩
      have hrunning : p.job.running = true := by
        rw [hjob]
        exact decide_eq_true fun hstage => hsome (hdone hstage).1
      rw [if_pos rfl]
      have hextended := @flatMap_zipIdx_extended _ _ (w.said n)
        ((w.transferStep transform k p fd c size).said n) (c.step transform w.files size).1
        (calls.take w.made) 0 p.forked _ hget
      simp only [Nat.zero_add] at hextended
      refine (hextended ?_ hother fun x j hx hj => ?_).symm
      · change (if n = n then _ else _) = (if n = n then _ else _) ++ _
        rw [if_pos rfl, if_pos rfl, houtput, if_pos rfl]
      · rw [List.getElem?_take] at hx
        split at hx
        · next hmade => exact said_of_silent (h.last p hmem hfor hrunning j x hj hmade hx) j
        · cases hx
    · -- nothing is written on this connection
      have hnothing : (if n = m then (c.step transform w.files size).1 else []) = [] := by
        by_cases hm : n = m
        · rw [if_pos hm]
          by_contra hsome
          exact hmine ⟨hm, hsome⟩
        · exact if_neg hm
      rw [hnothing, List.append_nil]
      refine List.flatMap_congr ?_
      rintro ⟨x, j⟩ hx
      have hx : (calls.take w.made)[j]? = some x := List.mem_zipIdx_iff_getElem?.mp hx
      by_cases hj : j = p.forked
      · subst hj
        cases hget.symm.trans hx
        refine (said_congr fun hm => ?_).symm
        have hm : n = m := hm.symm
        rw [if_pos hm] at hnothing
        rw [houtput, if_pos rfl, hnothing, List.append_nil]
      · exact (hother x j hx hj).symm
  case last =>
    refine h.last_of_replace hp ?_ ?_ ?_ ?_ rfl rfl
    · rfl
    · rintro ⟨fd', c', hjob', hcall'⟩
      cases hjob'
      refine ⟨fd, c, hjob, ?_⟩
      rw [← hpath, ← htransformed]
      exact hcall'
    · intro hrunning
      have hstage : (c.step transform w.files size).2.stage ≠ .done := of_decide_eq_true hrunning
      rw [hjob]
      exact decide_eq_true fun hended => hstage (hdone hended).2
    · intro q hq
      split at hq
      · rw [List.mem_singleton.mp hq]
        exact fun _ _ he => Job.noConfusion he
      · exact absurd hq List.not_mem_nil

/-- The program of a transformation ends. -/
theorem Turns.program (h : w.Turns calls n) (hinv : w.Inv calls) {k : Nat} {p : Process}
    (hp : w.processes[k]? = some p) :
    Host.Turns calls n
      { w with processes := w.processes.set k { p with table := .empty, job := .program true } } := by
  obtain ⟨htranscript, houtput⟩ := @Inv.program_adds _ _ hinv k p hp
    { w with processes := w.processes.set k { p with table := .empty, job := .program true } }
    rfl _ rfl rfl
  constructor
  case inOrder =>
    rw [htranscript, h.inOrder]
    exact List.flatMap_congr fun x _ => (said_congr fun _ => houtput x.2).symm
  case last =>
    refine @last_of_replace _ _ _ h k p { p with table := .empty, job := .program true } hp rfl ?_ ?_
      [] (fun q hq => absurd hq List.not_mem_nil) _ rfl (List.append_nil _).symm
    · rintro ⟨fd, c, hjob', -⟩
      cases hjob'
    · exact fun hrunning => absurd hrunning Bool.false_ne_true

end Turns

/-! ### Any schedule -/

section Run

variable (transform : Bytes → Bytes) {fs : Files} {calls : List Call} {w : Host}

theorem Sends.step (h : w.Sends transform fs calls) (hinv : w.Inv calls) {v : Wiring Int Nat}
    (hrun : wiring.Run Wiring.start calls v) (pick : Pick) :
    (w.step transform pick).Sends transform fs calls := by
  unfold Host.step
  cases pick with
  | parent =>
    simp only
    split
    · exact h
    · next htodo => exact h.parent hinv hrun htodo
  | child k size =>
    simp only
    split
    · exact h
    next hp =>
    split
    · next hjob => exact h.transfer hinv hp hjob size
    · next hjob => exact h.program hinv hp hjob

theorem Turns.step {n : Nat} (h : w.Turns calls n) (hinv : w.Inv calls)
    (hsends : w.Sends transform fs calls) {v : Wiring Int Nat}
    (hrun : wiring.Run Wiring.start calls v) {pick : Pick} (hattends : w.Attends calls n pick) :
    (w.step transform pick).Turns calls n := by
  unfold Host.step
  cases pick with
  | parent =>
    simp only
    split
    · exact h
    · next c rest htodo =>
      refine h.parent hinv hsends hrun htodo (hattends c ?_)
      rw [htodo]
      rfl
  | child k size =>
    simp only
    split
    · exact h
    next hp =>
    split
    · next hjob => exact h.transfer hinv hsends hp hjob size
    · exact h.program hinv hp

/-- **Run lemma.** -/
theorem turns_run {n : Nat} {v : Wiring Int Nat} (hrun : wiring.Run Wiring.start calls v)
    (picks : List Pick) {w : Host} (hinv : w.Inv calls) (hsends : w.Sends transform fs calls)
    (hturns : w.Turns calls n) (hwaits : w.Waits transform calls n picks) :
    (w.run transform picks).Sends transform fs calls ∧ (w.run transform picks).Turns calls n := by
  unfold Host.run
  induction picks generalizing w with
  | nil => exact ⟨hsends, hturns⟩
  | cons pick picks ih =>
    obtain ⟨hattends, hrest⟩ := hwaits
    exact ih (hinv.step transform hrun pick) (hsends.step transform hinv hrun pick)
      (hturns.step transform hinv hsends hrun hattends) hrest

theorem sends_start : (Host.start fs calls).Sends transform fs calls where
  started hi _ := absurd hi (Nat.not_lt_zero _)
  forked _ hp := absurd hp List.not_mem_nil
  unique hp _ _ _ _ := by cases hp
  content _ _ := rfl
  linked _ _ hkept := hkept.1
  accounted _ hp := absurd hp List.not_mem_nil

theorem turns_start (n : Nat) : (Host.start fs calls).Turns calls n where
  inOrder := rfl
  last _ hp := absurd hp List.not_mem_nil

/-- What a client that waits finds on its connection. -/
theorem Turns.conversation {n : Nat} (h : w.Turns calls n) (hsends : w.Sends transform fs calls) :
    Conversation transform fs calls n w where
  inOrder := h.inOrder
  transfers i fd path transformed hget hmail := by
    rw [List.getElem?_take] at hget
    split at hget
    · next hi =>
      obtain ⟨p, hp, c, rfl, hjob, rfl, rfl⟩ := hsends.started hi hget
      have hfor : p.StartedFor calls n := ⟨fd, c, hjob, hget⟩
      rcases hsends.accounted p hp fd c hjob hmail with ⟨hdone, hnone, hgone⟩ | hwhole
      · refine ⟨?_, fun hkept _ => absurd hkept hgone⟩
        rw [hnone]
        exact List.nil_prefix
      · refine ⟨⟨_, hwhole⟩, fun _ hended => ?_⟩
        have hstage : c.stage = .done := by
          have hnot := hended p hp rfl hfor
          rw [hjob] at hnot
          exact of_decide_eq_false hnot |> not_not.mp
        have hleft : c.left transform fs = [] := by
          unfold Child.left
          rw [hstage]
        rwa [hleft, List.append_nil] at hwhole
    · cases hget

end Run

end Host

/-- **A client that waits reads its answers one after the other**, whatever the other sessions,
their transfers and the schedule do. -/
theorem Server.reads_in_order (transform : Bytes → Bytes) (sh : Shared) (managerSocket : Int)
    {os : List Occurrence} (hfresh : (Server.start sh managerSocket).DescriptorsFresh os)
    (fs : Files) (picks : List Pick) (n : Nat)
    (hwaits : (Host.start fs ((start sh managerSocket).runCalls os)).Waits transform
      ((start sh managerSocket).runCalls os) n picks) :
    Conversation transform fs ((start sh managerSocket).runCalls os) n
      ((Host.start fs ((start sh managerSocket).runCalls os)).run transform picks) := by
  obtain ⟨v, hrun, -⟩ := wired sh managerSocket hfresh
  have hstart := Host.inv_run transform fs hrun []
  obtain ⟨hsends, hturns⟩ := Host.turns_run transform hrun picks hstart (Host.sends_start transform)
    (Host.turns_start n) hwaits
  exact hturns.conversation transform hsends

/-- A client logs in and is sent a message, and then it sends two more lines. -/
def retrieving : List Occurrence :=
  accepting 4 5 ++
    roundOf 4 5 none (delivery "USER anna\r\nPASS secret\r\nRETR 1\r\n" (by decide)) ++
    roundOf 4 5 none (delivery "NOOP\r\nQUIT\r\n" (by decide))

/-- The transfer ends before the client goes on. -/
def transferFirst : List Pick :=
  List.replicate 10 .parent ++ List.replicate 8 (.child 0 4) ++ List.replicate 7 .parent

theorem Server.reads_in_order_retr :
    Conversation id sampleFiles ((start sampleShared 4).runCalls retrieving) 0
      ((Host.start sampleFiles ((start sampleShared 4).runCalls retrieving)).run id
        transferFirst) := by
  apply reads_in_order id sampleShared 4 _ sampleFiles transferFirst 0 (by decide +kernel)
  refine fresh_of_no_socket (fun o ho => ?_) (by decide +kernel)
  simp only [retrieving, accepting, List.mem_append] at ho
  rcases ho with (ho | ho) | ho
  · exact no_socket_roundOf o ho
  · exact no_socket_roundOf o ho
  · exact no_socket_roundOf o ho

end Pop3Server
