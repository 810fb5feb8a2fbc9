import Pop3Server.Answers
import Pop3Server.SessionInvariant
import Pop3Server.Transfers

/-!
# Pipelined commands

`program` is the work the parent does for one client while the other sessions go
on: the effects of its lines in order, between the log lines and the removals of
the others.  It is a `Program` in the sense of `Transfers`, and so it delivers
its responses exactly when every transfer finds its file and is left alone
(`pipelined_iff`).
-/

namespace Pop3Server

/-- What the process does for others that a transfer can notice. -/
inductive Foreign where
  | log (message timestamp ip : Bytes)
  | remove (path : Bytes)

def Foreign.effect : Foreign → Effect
  | .log message timestamp ip => logConnection message timestamp ip
  | .remove path => .remove path

/-- What the process comes to next: a line of this session, or something else. -/
inductive Item where
  | line (t : Turn)
  | elsewhere (f : Foreign)

def Item.foreign? : Item → Option Foreign
  | .line _ => none
  | .elsewhere f => some f

/-- The effects of the process from a state of the session on.  Nothing of a closed session is
dispatched. -/
def parentEffects (s : Session) : List Item → List Effect
  | [] => []
  | .elsewhere f :: is => f.effect :: parentEffects s is
  | .line t :: is =>
    let st := (t.exchange s).step
    st.effects ++
      match st.control with
      | .next => parentEffects st.session is
      | .returned => (is.filterMap Item.foreign?).map Foreign.effect
      | .fault _ => []

/-- The same as single calls. -/
def program (s : Session) (is : List Item) : List Act := (parentEffects s is).flatMap Effect.acts

/-! ### When a transfer is left alone -/

/-- It neither adds to the file nor removes it. -/
def Foreign.Spares (path : Bytes) : Foreign → Prop
  | .log _ _ _ => path ≠ LOGGER_FILE
  | .remove removed => removed ≠ path

/-- Behind the transfer of a file the session has only lines that get no answer, and none at all
when it is the log file, and the others spare the file.  A line shorter than a keyword ends the
process. -/
def Undisturbed (path : Bytes) (s : Session) : List Item → Prop
  | [] => True
  | .elsewhere f :: is => f.Spares path ∧ Undisturbed path s is
  | .line t :: is =>
    path ≠ LOGGER_FILE ∧
      (t.command.length < 4 ∨ (t.exchange s).Unanswered ∧ Undisturbed path s is)

/-- Every transfer finds its file and is left alone. -/
def TransfersEnd (fs : Files) (s : Session) : List Item → Prop
  | [] => True
  | .elsewhere f :: is => TransfersEnd (filesAfter fs f.effect.acts) s is
  | .line t :: is =>
    let x := t.exchange s
    let fs := filesAfter fs x.logged.acts
    (∀ path, x.Transfers path → fs.linked path = true ∧ Undisturbed path s is) ∧
      (x.step.control = .next → TransfersEnd fs x.step.session is)

/-! ### Effects as calls -/

theorem writeLoop_head {turns totalSent : Nat} {b : Byte} {rest : Bytes} (h : turns ≠ 0) :
    ∃ first pieces, (writeLoop turns [] totalSent (b :: rest)).sent = (b :: first) :: pieces := by
  obtain ⟨turns, rfl⟩ := Nat.exists_eq_succ_of_ne_zero h
  obtain ⟨k, hk⟩ : ∃ k, min (rest.length + 1) BUFFER_SIZE = k + 1 :=
    ⟨min (rest.length + 1) BUFFER_SIZE - 1, by unfold BUFFER_SIZE; omega⟩
  rw [writeLoop]
  simp only [List.headD_nil, List.tail_nil, Nat.min_self, hk]
  exact ⟨_, _, rfl⟩

theorem acts_send {data : Bytes} (h : StartsAnswer data) :
    ∃ first acts, Effect.acts (.send data) = .send first :: acts ∧ StartsAnswer first := by
  obtain ⟨b, rest, rfl, hb⟩ := h.eq_cons
  obtain ⟨first, pieces, hsent⟩ := @writeLoop_head (b :: rest).length 0 b rest (by simp)
  refine ⟨b :: first, pieces.map .send, ?_, hb⟩
  rw [Effect.acts, writeSocketBuffer, List.length_nil, Nat.zero_add, hsent]
  rfl

theorem mem_acts_of_send {data : Bytes} {a : Act} (h : a ∈ Effect.acts (.send data)) :
    ∃ piece, a = .send piece := by
  obtain ⟨piece, -, rfl⟩ := List.mem_map.mp h
  exact ⟨piece, rfl⟩

theorem flatMap_acts_split {es : List Effect} {pre post : List Act} {a : Act}
    (h : es.flatMap Effect.acts = pre ++ a :: post) :
    ∃ es1 e es2 p q, es = es1 ++ e :: es2 ∧ e.acts = p ++ a :: q ∧
      pre = es1.flatMap Effect.acts ++ p ∧ post = q ++ es2.flatMap Effect.acts := by
  induction es generalizing pre with
  | nil => exact absurd h (by simp)
  | cons e es ih =>
    rw [List.flatMap_cons] at h
    rcases List.append_eq_append_iff.mp h with ⟨mid, rfl, hmid⟩ | ⟨mid, hacts, hmid⟩
    · obtain ⟨es1, e', es2, p, q, rfl, hacts, rfl, rfl⟩ := ih hmid
      refine ⟨e :: es1, e', es2, p, q, rfl, hacts, ?_, rfl⟩
      rw [List.flatMap_cons, List.append_assoc]
    · cases mid with
      | nil =>
        obtain ⟨es1, e', es2, p, q, rfl, hacts', hp, rfl⟩ := @ih [] hmid.symm
        refine ⟨e :: es1, e', es2, p, q, rfl, hacts', ?_, rfl⟩
        rw [List.flatMap_cons, hacts, List.append_nil, List.append_assoc, ← hp, List.append_nil]
      | cons b mid =>
        obtain ⟨rfl, rfl⟩ := List.cons.inj hmid
        exact ⟨[], e, es, pre, mid, rfl, hacts, rfl, rfl⟩

theorem eq_transfer_of_acts {e : Effect} {p q : List Act} {path : Bytes} {transformed : Bool}
    (h : e.acts = p ++ .fork path transformed :: q) :
    e = .transfer path transformed ∧ p = [] ∧ q = [] := by
  cases e with
  | send data =>
    obtain ⟨piece, hpiece⟩ := @mem_acts_of_send data (.fork path transformed) (by simp [h])
    cases hpiece
  | transfer path' transformed' =>
    cases p with
    | nil =>
      obtain ⟨hfork, rfl⟩ := List.cons.inj h
      cases hfork
      exact ⟨rfl, rfl, rfl⟩
    | cons b p => simp [Effect.acts] at h
  | _ =>
    have hmem : Act.fork path transformed ∈ p ++ .fork path transformed :: q := by simp
    rw [← h] at hmem
    simp [Effect.acts] at hmem

theorem eq_send_of_acts {e : Effect} {p q : List Act} {data : Bytes}
    (h : e.acts = p ++ .send data :: q) : ∃ answer, e = .send answer := by
  have hmem : Act.send data ∈ e.acts := by simp [h]
  cases e with
  | send answer => exact ⟨answer, rfl⟩
  | _ => simp [Effect.acts] at hmem

/-- **The work of the parent is a program.** -/
theorem Answering.program {es : List Effect} (h : Answering es) :
    Program (es.flatMap Effect.acts) where
  announced := by
    intro pre path transformed post hacts
    obtain ⟨es1, e, es2, p, q, rfl, he, rfl, rfl⟩ := flatMap_acts_split hacts
    obtain ⟨rfl, rfl, rfl⟩ := eq_transfer_of_acts he
    obtain ⟨before, data, rfl⟩ := h.announced es1 path transformed es2 rfl
    obtain ⟨first, acts, hsend, -⟩ := acts_send (h.sends data (by simp))
    have hne : Effect.acts (.send data) ≠ [] := by simp [hsend]
    obtain ⟨piece, hpiece⟩ := mem_acts_of_send (List.getLast_mem hne)
    refine ⟨before.flatMap Effect.acts ++ (Effect.acts (.send data)).dropLast, piece, ?_⟩
    rw [List.append_nil, List.flatMap_append, List.flatMap_singleton, List.append_assoc, ← hpiece,
      List.dropLast_concat_getLast hne]
  answers := by
    intro pre path transformed mid data post hacts hmid
    obtain ⟨es1, e, es2, p, q, rfl, he, rfl, hpost⟩ := flatMap_acts_split hacts
    obtain ⟨rfl, rfl, rfl⟩ := eq_transfer_of_acts he
    obtain ⟨es3, e, es4, p, q, rfl, he, rfl, rfl⟩ := flatMap_acts_split hpost.symm
    obtain ⟨answer, rfl⟩ := eq_send_of_acts he
    obtain ⟨first, acts, hsend, hfirst⟩ := acts_send (h.sends answer (by simp))
    -- the call that is looked at is the first one of its effect
    cases p with
    | nil =>
      rw [hsend] at he
      obtain ⟨hdata, -⟩ := List.cons.inj he
      exact Act.send.inj hdata ▸ hfirst.eq_cons
    | cons b p =>
      obtain ⟨piece, rfl⟩ := @mem_acts_of_send answer b (by simp [he])
      exact absurd (by simp) (hmid piece)
  lines := by
    intro line hline
    obtain ⟨e, he, hacts⟩ := List.mem_flatMap.mp hline
    cases e <;> simp [Effect.acts] at hacts
    subst hacts
    exact h.lines line he
  plainLog := by
    intro transformed hfork
    obtain ⟨e, he, hacts⟩ := List.mem_flatMap.mp hfork
    obtain ⟨p, q, hsplit⟩ := List.append_of_mem hacts
    obtain ⟨rfl, -, -⟩ := eq_transfer_of_acts hsplit
    exact h.plainLog transformed he

theorem Foreign.answering (f : Foreign) : Answering [f.effect] := by
  cases f with
  | log message timestamp ip => exact .log
  | remove path => exact .of_plain (by simp [Foreign.effect]) (by simp [Foreign.effect])

theorem foreign_answering (fs : List Foreign) : Answering (fs.map Foreign.effect) := by
  induction fs with
  | nil => exact .nil
  | cons f fs ih => exact f.answering.append ih

theorem Exchange.ready_next {x : Exchange} (hready : x.session.Ready)
    (hnext : x.step.control = .next) : x.step.session.Ready := by
  obtain ⟨st, hout, hstep⟩ := Exchange.outcome_of_dispatched (x := x) (by simp [hnext])
  rw [hstep] at hnext ⊢
  exact hout.ready hready hnext

/-- The lines of a session fit their buffer. -/
def Fitting (is : List Item) : Prop :=
  ∀ t, .line t ∈ is → t.command.length ≤ 2 * BUFFER_SIZE

theorem Fitting.tail {i : Item} {is : List Item} (h : Fitting (i :: is)) : Fitting is :=
  fun t ht => h t (List.mem_cons_of_mem i ht)

theorem parentEffects_answering {s : Session} {is : List Item} (hready : s.Ready)
    (hfit : Fitting is) : Answering (parentEffects s is) := by
  induction is generalizing s with
  | nil => exact .nil
  | cons i is ih =>
    cases i with
    | elsewhere f => exact f.answering.append (ih hready hfit.tail)
    | line t =>
      have hx := @Exchange.answering (t.exchange s) hready (hfit t List.mem_cons_self)
      rw [parentEffects]
      refine hx.append ?_
      cases hcontrol : (t.exchange s).step.control with
      | next => exact ih (Exchange.ready_next hready hcontrol) hfit.tail
      | returned => exact foreign_answering _
      | fault f => exact .nil

/-! ### When the transfers come last -/

/-- The calls that may come behind the transfer of a file. -/
def Act.Spares (path : Bytes) : Act → Prop
  | .send _ => False
  | .append _ => path ≠ LOGGER_FILE
  | .fork _ _ => True
  | .remove removed => removed ≠ path

theorem spares_iff {path : Bytes} {acts : List Act} :
    (∀ a ∈ acts, a.Spares path) ↔
      (∀ data, .send data ∉ acts) ∧ .remove path ∉ acts ∧
        (path = LOGGER_FILE → ∀ line, .append line ∉ acts) := by
  constructor
  · intro h
    exact ⟨fun data hdata => h _ hdata, fun hremove => h _ hremove rfl,
      fun hlog line hline => h _ hline hlog⟩
  · rintro ⟨hsend, hremove, hlog⟩ a ha
    cases a with
    | send data => exact hsend data ha
    | append line => exact fun he => hlog he line ha
    | fork p t => trivial
    | remove p => exact fun he => hremove (he ▸ ha)

theorem transfersLast_cons_iff {fs : Files} {a : Act} {acts : List Act} :
    TransfersLast fs (a :: acts) ↔
      (∀ path transformed, a = .fork path transformed →
        fs.linked path = true ∧ ∀ b ∈ acts, b.Spares path) ∧
      TransfersLast (filesAfter fs [a]) acts := by
  constructor
  · intro h
    refine ⟨?_, h.tail⟩
    rintro path transformed rfl
    obtain ⟨hlinked, hrest⟩ := h [] path transformed acts rfl
    exact ⟨hlinked, spares_iff.mpr hrest⟩
  · rintro ⟨hhere, hlater⟩ pre path transformed post hacts
    cases pre with
    | nil =>
      obtain ⟨rfl, rfl⟩ := List.cons.inj hacts
      obtain ⟨hlinked, hrest⟩ := hhere path transformed rfl
      exact ⟨hlinked, spares_iff.mp hrest⟩
    | cons b pre =>
      obtain ⟨rfl, rfl⟩ := List.cons.inj hacts
      have hfiles : filesAfter fs (a :: pre) = filesAfter (filesAfter fs [a]) pre := by
        cases a <;> rfl
      rw [hfiles]
      exact hlater pre path transformed post rfl

theorem filesAfter_append (fs : Files) (acts more : List Act) :
    filesAfter fs (acts ++ more) = filesAfter (filesAfter fs acts) more := by
  induction acts generalizing fs with
  | nil => rfl
  | cons a acts ih => cases a <;> exact ih _

theorem transfersLast_append_iff {fs : Files} {acts more : List Act}
    (hnofork : ∀ path transformed, .fork path transformed ∉ acts) :
    TransfersLast fs (acts ++ more) ↔ TransfersLast (filesAfter fs acts) more := by
  induction acts generalizing fs with
  | nil => rfl
  | cons a acts ih =>
    have hhere : ∀ path transformed, a ≠ .fork path transformed := by
      rintro path transformed rfl
      exact hnofork path transformed List.mem_cons_self
    have hfiles := filesAfter_append fs [a] acts
    rw [List.singleton_append] at hfiles
    rw [List.cons_append, transfersLast_cons_iff, hfiles,
      ← ih fun path transformed h => hnofork path transformed (List.mem_cons_of_mem a h)]
    exact and_iff_right fun path transformed h => absurd h (hhere path transformed)

theorem transfersLast_of_no_fork {fs : Files} {acts : List Act}
    (hnofork : ∀ path transformed, .fork path transformed ∉ acts) : TransfersLast fs acts :=
  fun pre path transformed post hacts => absurd (by simp [hacts]) (hnofork path transformed)

theorem filesAfter_untouched {acts : List Act} (fs : Files)
    (h : ∀ a ∈ acts, (∃ data, a = .send data) ∨ ∃ path transformed, a = .fork path transformed) :
    filesAfter fs acts = fs := by
  induction acts with
  | nil => rfl
  | cons a acts ih =>
    have hrest := ih fun b hb => h b (List.mem_cons_of_mem a hb)
    rcases h a List.mem_cons_self with ⟨data, rfl⟩ | ⟨path, transformed, rfl⟩ <;> exact hrest

theorem fork_mem_flatMap_iff {es : List Effect} {path : Bytes} {transformed : Bool} :
    .fork path transformed ∈ es.flatMap Effect.acts ↔ .transfer path transformed ∈ es := by
  constructor
  · intro h
    obtain ⟨e, he, hacts⟩ := List.mem_flatMap.mp h
    obtain ⟨p, q, hsplit⟩ := List.append_of_mem hacts
    obtain ⟨rfl, -, -⟩ := eq_transfer_of_acts hsplit
    exact he
  · intro h
    exact List.mem_flatMap.mpr ⟨_, h, List.mem_singleton_self _⟩

section Program

variable {path : Bytes} {s : Session} {is : List Item} {t : Turn}

theorem program_elsewhere (f : Foreign) :
    program s (.elsewhere f :: is) = f.effect.acts ++ program s is := rfl

theorem program_next (h : (t.exchange s).step.control = .next) :
    program s (.line t :: is) = (t.exchange s).step.effects.flatMap Effect.acts ++
      program (t.exchange s).step.session is := by
  rw [program, parentEffects, List.flatMap_append, h]
  rfl

theorem program_returned (h : (t.exchange s).step.control = .returned) :
    program s (.line t :: is) = (t.exchange s).step.effects.flatMap Effect.acts ++
      ((is.filterMap Item.foreign?).map Foreign.effect).flatMap Effect.acts := by
  rw [program, parentEffects, List.flatMap_append, h]

theorem program_fault {f : Fault} (h : (t.exchange s).step.control = .fault f) :
    program s (.line t :: is) = (t.exchange s).step.effects.flatMap Effect.acts := by
  rw [program, parentEffects, h]
  exact congrArg (List.flatMap Effect.acts) (List.append_nil _)

theorem Foreign.spares_acts (f : Foreign) :
    (∀ a ∈ f.effect.acts, a.Spares path) ↔ f.Spares path := by
  cases f <;> simp [Foreign.effect, logConnection, Effect.acts, Act.Spares, Foreign.Spares]

theorem Exchange.spares_logged (x : Exchange) :
    (∀ a ∈ x.logged.acts, a.Spares path) ↔ path ≠ LOGGER_FILE := by
  simp [Exchange.logged, commandLog, logConnection, Effect.acts, Act.Spares]

/-- **A transfer is left alone by what the session and the others do next.** -/
theorem spares_program_iff (hready : s.Ready) (hfit : Fitting is) :
    (∀ a ∈ program s is, a.Spares path) ↔ Undisturbed path s is := by
  induction is with
  | nil => exact ⟨fun _ => trivial, fun _ => nofun⟩
  | cons i is ih =>
    cases i with
    | elsewhere f =>
      rw [program_elsewhere, List.forall_mem_append, f.spares_acts, ih hfit.tail]
      rfl
    | line t =>
      have hcases := @Exchange.answers (t.exchange s) hready (hfit t List.mem_cons_self)
      rcases hcases with ⟨hshort, hstep⟩ | ⟨h4, hover, hstep⟩ | ⟨h4, hnot, st, hst, hstep⟩
      · have hacts : program s (.line t :: is) = (t.exchange s).logged.acts := by
          rw [@program_fault s is t .assertion (by rw [hstep]), hstep]
          exact List.flatMap_singleton _ _
        rw [hacts, Exchange.spares_logged]
        exact ⟨fun h => ⟨h, .inl hshort⟩, fun h => h.1⟩
      · have hacts : program s (.line t :: is) = (t.exchange s).logged.acts ++ program s is := by
          rw [program_next (by rw [hstep]), hstep]
          exact congrArg (· ++ program s is) (List.flatMap_singleton _ _)
        rw [hacts, List.forall_mem_append, Exchange.spares_logged, ih hfit.tail]
        refine and_congr_right fun _ => ⟨fun h => .inr ⟨hover, h⟩, ?_⟩
        rintro (hshort | ⟨-, h⟩)
        · exact absurd hshort (Nat.not_lt.mpr h4)
        · exact h
      · -- an answer cannot come behind a transfer
        obtain ⟨data, hdata⟩ := hst.answered
        obtain ⟨first, acts, hsend, -⟩ := acts_send (hst.answering.sends data hdata)
        have hmem : Act.send first ∈ program s (.line t :: is) := by
          refine List.mem_flatMap.mpr ⟨.send data, ?_, by simp [hsend]⟩
          rw [parentEffects, hstep]
          exact List.mem_append_left _ (List.mem_cons_of_mem _ hdata)
        constructor
        · intro h
          exact (h _ hmem).elim
        · rintro ⟨-, hshort | ⟨hover, -⟩⟩
          · exact absurd hshort (Nat.not_lt.mpr h4)
          · exact absurd hover hnot

theorem Exchange.fork_notMem_logged (x : Exchange) (path : Bytes) (transformed : Bool) :
    .fork path transformed ∉ x.logged.acts := by
  simp [Exchange.logged, commandLog, logConnection, Effect.acts]

theorem Exchange.effects_of_not_transfers {x : Exchange}
    (hfit : x.command.length ≤ 2 * BUFFER_SIZE) (h : ∀ path, ¬ x.Transfers path) (fs : Files) :
    (∀ path transformed, .fork path transformed ∉ x.step.effects.flatMap Effect.acts) ∧
      (x.step.control = .next →
        filesAfter fs (x.step.effects.flatMap Effect.acts) = filesAfter fs x.logged.acts) := by
  rcases Nat.lt_or_ge x.command.length 4 with hshort | h4
  · have hstep : x.step = ⟨x.session, x.shared, [x.logged], .fault .assertion⟩ :=
      dispatch_of_short hshort x.env x.shared x.session
    rw [hstep, List.flatMap_singleton]
    exact ⟨x.fork_notMem_logged, nofun⟩
  obtain ⟨st, hout, hstep⟩ := Exchange.outcome h4 hfit
  have hacts : x.step.effects.flatMap Effect.acts =
      x.logged.acts ++ st.effects.flatMap Effect.acts := by
    rw [hstep]
    rfl
  rw [hacts]
  constructor
  · intro path transformed hfork
    rcases List.mem_append.mp hfork with hlogged | hfork
    · exact x.fork_notMem_logged path transformed hlogged
    · rcases hout.effect_cases (fork_mem_flatMap_iff.mp hfork) with
        ⟨_, he⟩ | ⟨_, he⟩ | ⟨-, _, he⟩ | ⟨p, t, -, hstarts⟩
      · cases he
      · cases he
      · cases he
      · exact h p hstarts
  · intro hnext
    have hgoes : st.control = .next := by
      rw [hstep] at hnext
      exact hnext
    rw [filesAfter_append]
    apply filesAfter_untouched
    intro a ha
    obtain ⟨e, he, hea⟩ := List.mem_flatMap.mp ha
    rcases hout.effect_cases he with ⟨_, rfl⟩ | ⟨_, rfl⟩ | ⟨hreturned, _, rfl⟩ | ⟨p, t, rfl, -⟩
    · exact .inl (mem_acts_of_send hea)
    · cases hea
    · rw [hgoes] at hreturned
      cases hreturned
    · exact .inr ⟨p, t, List.mem_singleton.mp hea⟩

/-- The work of the parent from a line on that starts a transfer. -/
theorem transfersLast_transfer_iff {fs : Files} (hpath : (t.exchange s).Transfers path)
    (hline : t.command.length ≤ 2 * BUFFER_SIZE) :
    TransfersLast fs (program s (.line t :: is)) ↔
      ((filesAfter fs (t.exchange s).logged.acts).linked path = true ∧
        ∀ a ∈ program s is, a.Spares path) ∧
      TransfersLast (filesAfter fs (t.exchange s).logged.acts) (program s is) := by
  obtain ⟨sh, data, transformed, hstep⟩ := hpath.step_eq hline
  have hacts : program s (.line t :: is) =
      ((t.exchange s).logged.acts ++ Effect.acts (.send data)) ++
        .fork path transformed :: program s is := by
    rw [program_next (by rw [hstep]), hstep]
    simp only [List.flatMap_cons, List.flatMap_nil, List.append_nil, List.append_assoc]
    rfl
  have hfiles : filesAfter fs ((t.exchange s).logged.acts ++ Effect.acts (.send data)) =
      filesAfter fs (t.exchange s).logged.acts := by
    rw [filesAfter_append]
    exact filesAfter_untouched _ fun a ha => .inl (mem_acts_of_send ha)
  have hnofork : ∀ p transformed, .fork p transformed ∉
      (t.exchange s).logged.acts ++ Effect.acts (.send data) := by
    intro p transformed h
    rcases List.mem_append.mp h with h | h
    · exact Exchange.fork_notMem_logged _ p transformed h
    · obtain ⟨piece, hpiece⟩ := mem_acts_of_send h
      cases hpiece
  rw [hacts, transfersLast_append_iff hnofork, hfiles, transfersLast_cons_iff]
  apply and_congr_left
  intro _
  constructor
  · intro h
    exact h path transformed rfl
  · intro h p t' hfork
    obtain ⟨rfl, rfl⟩ := Act.fork.inj hfork
    exact h

/-- Behind a closed session no transfer is started. -/
theorem fork_notMem_foreign (fs : List Foreign) (path : Bytes) (transformed : Bool) :
    .fork path transformed ∉ (fs.map Foreign.effect).flatMap Effect.acts := by
  intro h
  obtain ⟨f, -, hf⟩ := List.mem_map.mp (fork_mem_flatMap_iff.mp h)
  cases f <;> simp [Foreign.effect, logConnection] at hf

/-- **The transfers come last exactly when each one is left alone.** -/
theorem transfersLast_program_iff {fs : Files} (hready : s.Ready) (hfit : Fitting is) :
    TransfersLast fs (program s is) ↔ TransfersEnd fs s is := by
  induction is generalizing fs s with
  | nil => exact ⟨fun _ => trivial, fun _ => transfersLast_of_no_fork fun _ _ => List.not_mem_nil⟩
  | cons i is ih =>
    cases i with
    | elsewhere f =>
      rw [program_elsewhere, transfersLast_append_iff, ih hready hfit.tail]
      · rfl
      · cases f <;> simp [Foreign.effect, logConnection, Effect.acts]
    | line t =>
      have hline := hfit t List.mem_cons_self
      by_cases htransfers : ∃ path, (t.exchange s).Transfers path
      · obtain ⟨path, hpath⟩ := htransfers
        obtain ⟨sh, data, transformed, hstep⟩ := hpath.step_eq hline
        rw [transfersLast_transfer_iff hpath hline, spares_program_iff hready hfit.tail,
          ih hready hfit.tail, TransfersEnd, hstep]
        constructor
        · rintro ⟨hhere, hlater⟩
          refine ⟨?_, fun _ => hlater⟩
          intro path' hpath'
          exact hpath.unique hpath' hline ▸ hhere
        · rintro ⟨hhere, hlater⟩
          exact ⟨hhere path hpath, hlater rfl⟩
      · have hnot : ∀ path, ¬ (t.exchange s).Transfers path := fun path h => htransfers ⟨path, h⟩
        obtain ⟨hnofork, hfiles⟩ := Exchange.effects_of_not_transfers hline hnot fs
        have hhere : TransfersEnd fs s (.line t :: is) ↔
            ((t.exchange s).step.control = .next →
              TransfersEnd (filesAfter fs (t.exchange s).logged.acts)
                (t.exchange s).step.session is) :=
          and_iff_right fun path h => absurd h (hnot path)
        rw [hhere]
        cases hcontrol : (t.exchange s).step.control with
        | next =>
          rw [program_next hcontrol, transfersLast_append_iff hnofork, hfiles hcontrol,
            ih (Exchange.ready_next hready hcontrol) hfit.tail]
          exact ⟨fun h _ => h, fun h => h rfl⟩
        | returned =>
          refine ⟨fun _ h => Control.noConfusion h, fun _ => ?_⟩
          rw [program_returned hcontrol]
          apply transfersLast_of_no_fork
          intro path transformed h
          rcases List.mem_append.mp h with h | h
          · exact hnofork path transformed h
          · exact fork_notMem_foreign _ path transformed h
        | fault f =>
          refine ⟨fun _ h => Control.noConfusion h, fun _ => ?_⟩
          rw [program_fault hcontrol]
          exact transfersLast_of_no_fork hnofork

end Program

/-- **Every schedule of the transfers delivers the complete responses, each file there until it is
sent, exactly when every transfer finds its file and is left alone.** -/
theorem pipelined_iff (transform : Bytes → Bytes) (fs : Files) {s : Session} (hready : s.Ready)
    {is : List Item} (hfit : Fitting is) :
    Delivers transform fs (program s is) ↔ TransfersEnd fs s is := by
  rw [← transfersLast_program_iff hready hfit]
  exact delivers_iff transform (parentEffects_answering hready hfit).program

/-- Lines of the sample session, each as it finds the sample server. -/
def sampleItems (lines : List Bytes) : List Item :=
  lines.map fun line => .line ⟨sampleEnv, sampleShared, line⟩

theorem sampleItems_fitting {lines : List Bytes} (h : ∀ c ∈ lines, c.length ≤ 2 * BUFFER_SIZE) :
    Fitting (sampleItems lines) := by
  intro t ht
  obtain ⟨line, hline, heq⟩ := List.mem_map.mp ht
  obtain rfl := Item.line.inj heq
  exact h line hline

/-- Every file is there. -/
def sampleFiles : Files := ⟨fun _ => str "hello", fun _ => true⟩

/-- A RETR behind which LIST is given a number of no message. -/
theorem pipelined_retr_last :
    Delivers id sampleFiles (program sampleLoggedIn (sampleItems [str "RETR 1", str "LIST 2"])) := by
  refine (pipelined_iff id sampleFiles (s := sampleLoggedIn) ⟨by decide, by decide⟩
    (sampleItems_fitting (by decide))).mpr ?_
  have hretr : getCommandValue (str "RETR 1") = .retr := by decide
  have hlist : getCommandValue (str "LIST 2") = .list := by decide
  refine ⟨fun path hpath => ⟨?_, ?_, .inr ⟨?_, trivial⟩⟩,
    fun _ => ⟨fun path hpath => ?_, fun _ => trivial⟩⟩
  · simp [Exchange.logged, commandLog, logConnection, Effect.acts, filesAfter, Files.append,
      sampleFiles]
  · replace hpath : Starts _ _ (getCommandValue (str "RETR 1")) _ path := hpath
    rw [hretr] at hpath
    exact hpath.path_ne_log
  · exact ⟨hlist, rfl, str "2", _, (by decide : argument (str "LIST 2") = _), rfl, by decide,
      by decide, by decide⟩
  · replace hpath : Starts _ _ (getCommandValue (str "LIST 2")) _ path := hpath
    rw [hlist] at hpath
    cases hpath

/-- RETR 1, DELE 1 and QUIT sent together: the child comes when the file is gone, and nothing of
the message is sent. -/
theorem pipelined_retr_dele_quit :
    ¬ ∀ (transform : Bytes → Bytes) (fs : Files) (s : Session), s.Ready →
      ∀ is, Fitting is → Delivers transform fs (program s is) := by
  intro h
  obtain ⟨all, hall, hpicks⟩ := h id sampleFiles sampleSession sampleSession_ready
    (sampleItems [str "USER anna", str "PASS secret", str "RETR 1", str "DELE 1", str "QUIT"])
    (sampleItems_fitting (by decide))
  obtain ⟨-, hfinal, -⟩ := hpicks (List.replicate 12 .parent ++ [.child 0 1])
  have hsocket := hfinal ⟨by decide +kernel, by decide +kernel⟩
  rw [← Option.getD_some (a := all) (b := []), ← hall] at hsocket
  exact absurd hsocket (by decide +kernel)

end Pop3Server
