import Mathlib.Data.List.Basic
import Mathlib.Logic.Function.Basic
import Pop3Server.SendFile

/-!
# File transfers beside the dispatching process

`send_file_process` forks: from then on a child opens the file, copies it to the
socket piece by piece and ends with the terminator, while the parent goes on with
its own writes, removals and lines of the log file.  A world is what they share,
what the parent has left to do, and where each child stands; a schedule is any
sequence of picks.

`Delivers` is what a client may expect of every schedule, and `TransfersLast` is
the condition on the parent's work under which it can be had (`delivers_iff`).
-/

namespace Pop3Server

open Function (update)

/-- The files by their paths.  What a child has opened it goes on reading when the path is gone. -/
structure Files where
  content : Bytes → Bytes
  linked : Bytes → Bool

/-- A line at the end of the log file, which is created if need be. -/
def Files.append (fs : Files) (line : Bytes) : Files where
  content := update fs.content LOGGER_FILE
    (if fs.linked LOGGER_FILE then fs.content LOGGER_FILE ++ line else line)
  linked := update fs.linked LOGGER_FILE true

def Files.remove (fs : Files) (path : Bytes) : Files :=
  { fs with linked := update fs.linked path false }

/-- What a transfer sends of a file: the file, or what the transformation makes of it. -/
def Files.body (transform : Bytes → Bytes) (fs : Files) (path : Bytes) (transformed : Bool) :
    Bytes :=
  if transformed then transform (fs.content path) else fs.content path

/-- A single call of the parent that others can notice. -/
inductive Act where
  | send (data : Bytes)
  | append (line : Bytes)
  | fork (path : Bytes) (transformed : Bool)
  | remove (path : Bytes)
deriving DecidableEq

/-- An effect as calls; a long answer takes several calls of `send`. -/
def Effect.acts : Effect → List Act
  | .send data => (writeSocketBuffer [] data).sent.map .send
  | .log line => [.append line]
  | .transfer path transformed => [.fork path transformed]
  | .remove path => [.remove path]
  | .close _ => []

/-- Where a child is in `send_file`. -/
inductive Stage where
  | forked
  | copying (offset : Nat)
  | holding (offset : Nat) (chunk : Bytes)
  | ending
  | done
deriving DecidableEq

structure Child where
  path : Bytes
  transformed : Bool
  stage : Stage
deriving DecidableEq

structure World where
  socket : Bytes
  files : Files
  todo : List Act
  children : List Child

/-- Who runs next: the parent, or a child, whose next read returns at most `size` bytes. -/
inductive Pick where
  | parent
  | child (k size : Nat)

section Worlds

variable (transform : Bytes → Bytes)

/-- A step of a child: what it sends and where it is then. -/
def Child.step (fs : Files) (size : Nat) (c : Child) : Bytes × Child :=
  let body := fs.body transform c.path c.transformed
  match c.stage with
  | .forked => ([], { c with stage := if fs.linked c.path then .copying 0 else .done })
  | .copying offset =>
    if body.length ≤ offset then ([], { c with stage := .ending })
    else
      let n := max 1 (min size BUFFER_SIZE)
      ([], { c with stage := .holding offset ((body.drop offset).take n) })
  | .holding offset chunk => (chunk, { c with stage := .copying (offset + chunk.length) })
  | .ending => (terminator, { c with stage := .done })
  | .done => ([], c)

def World.step (w : World) : Pick → World
  | .parent =>
    match w.todo with
    | [] => w
    | .send data :: todo => { w with socket := w.socket ++ data, todo := todo }
    | .append line :: todo => { w with files := w.files.append line, todo := todo }
    | .fork path transformed :: todo =>
      { w with children := w.children ++ [⟨path, transformed, .forked⟩], todo := todo }
    | .remove path :: todo => { w with files := w.files.remove path, todo := todo }
  | .child k size =>
    match w.children[k]? with
    | none => w
    | some c =>
      let r := c.step transform w.files size
      { w with socket := w.socket ++ r.1, children := w.children.set k r.2 }

def World.run (w : World) (picks : List Pick) : World := picks.foldl (World.step transform) w

def World.start (fs : Files) (acts : List Act) : World := ⟨[], fs, acts, []⟩

/-- Everything has been done. -/
def World.Finished (w : World) : Prop := w.todo = [] ∧ ∀ c ∈ w.children, c.stage = .done

/-- The complete responses in the order of the commands: every file is the one that is there when
its transfer is started. -/
def responses (fs : Files) : List Act → Option Bytes
  | [] => some []
  | .send data :: acts => (responses fs acts).map (data ++ ·)
  | .append line :: acts => responses (fs.append line) acts
  | .fork path transformed :: acts =>
    if fs.linked path then
      (responses fs acts).map (fs.body transform path transformed ++ terminator ++ ·)
    else none
  | .remove path :: acts => responses (fs.remove path) acts

/-- Whatever the schedule, the socket has a beginning of the responses, and all of them in the end,
and no file is gone while it is still to be sent. -/
def Delivers (fs : Files) (acts : List Act) : Prop :=
  ∃ all, responses transform fs acts = some all ∧ ∀ picks,
    let w := (World.start fs acts).run transform picks
    w.socket <+: all ∧ (w.Finished → w.socket = all) ∧
      ∀ c ∈ w.children, c.stage ≠ .done → w.files.linked c.path = true

end Worlds

def filesAfter (fs : Files) : List Act → Files
  | [] => fs
  | .append line :: acts => filesAfter (fs.append line) acts
  | .remove path :: acts => filesAfter (fs.remove path) acts
  | .send _ :: acts => filesAfter fs acts
  | .fork _ _ :: acts => filesAfter fs acts

/-- A transfer finds its file, and what comes after it neither sends, nor removes the file, nor,
when it is the log file, adds to it. -/
def TransfersLast (fs : Files) (acts : List Act) : Prop :=
  ∀ pre path transformed post, acts = pre ++ .fork path transformed :: post →
    (filesAfter fs pre).linked path = true ∧ (∀ data, .send data ∉ post) ∧
      .remove path ∉ post ∧ (path = LOGGER_FILE → ∀ line, .append line ∉ post)

/-- What the parent's work is always like: a transfer follows its status line, the next answer does
not begin like the terminator, log lines are not empty and the log file is sent as it is. -/
structure Program (acts : List Act) : Prop where
  announced : ∀ pre path transformed post, acts = pre ++ .fork path transformed :: post →
    ∃ before data, pre = before ++ [.send data]
  answers : ∀ pre path transformed mid data post,
    acts = pre ++ .fork path transformed :: (mid ++ .send data :: post) →
      (∀ d, .send d ∉ mid) → ∃ b rest, data = b :: rest ∧ b ≠ CR
  lines : ∀ line, .append line ∈ acts → line ≠ []
  plainLog : ∀ transformed, .fork LOGGER_FILE transformed ∈ acts → transformed = false

def Quiet (acts : List Act) : Prop :=
  ∀ a ∈ acts, (∀ data, a ≠ .send data) ∧ ∀ path transformed, a ≠ .fork path transformed

theorem Program.quiet_of_no_send {acts : List Act} (hp : Program acts) {pre : List Act}
    {path : Bytes} {transformed : Bool} {mid post : List Act}
    (h : acts = pre ++ .fork path transformed :: (mid ++ post))
    (hnosend : ∀ data, .send data ∉ mid) : Quiet mid := by
  intro a ha
  constructor
  · intro data hdata
    exact hnosend data (hdata ▸ ha)
  rintro path' transformed' rfl
  obtain ⟨m1, m2, rfl⟩ := List.append_of_mem ha
  obtain ⟨before, data, hbefore⟩ := hp.announced (pre ++ .fork path transformed :: m1) path'
    transformed' (m2 ++ post) (by simp [h])
  -- what stands in front of the second transfer is not a send
  have hlast := congrArg List.getLast? hbefore
  rw [List.getLast?_append_of_ne_nil _ (List.cons_ne_nil _ _), List.getLast?_concat] at hlast
  rcases List.mem_cons.mp (List.mem_of_getLast? hlast) with hfork | hm1
  · cases hfork
  · exact hnosend data (List.mem_append_left _ hm1)

/-! ### Calls that only touch the files -/

theorem Quiet.tail {a : Act} {acts : List Act} (h : Quiet (a :: acts)) : Quiet acts :=
  fun b hb => h b (List.mem_cons_of_mem a hb)

theorem Quiet.responses {acts : List Act} (h : Quiet acts) (transform : Bytes → Bytes)
    (fs : Files) : responses transform fs acts = some [] := by
  induction acts generalizing fs with
  | nil => rfl
  | cons a acts ih =>
    cases a with
    | send data => exact absurd rfl ((h _ List.mem_cons_self).1 data)
    | fork path transformed => exact absurd rfl ((h _ List.mem_cons_self).2 path transformed)
    | append line => exact ih h.tail _
    | remove path => exact ih h.tail _

theorem filesAfter_kept {acts : List Act} {path : Bytes} (hremove : .remove path ∉ acts) {fs : Files}
    (hlinked : fs.linked path = true) :
    (filesAfter fs acts).linked path = true ∧
      ((path = LOGGER_FILE → ∀ line, .append line ∉ acts) →
        (filesAfter fs acts).content path = fs.content path) := by
  induction acts generalizing fs with
  | nil => exact ⟨hlinked, fun _ => rfl⟩
  | cons a acts ih =>
    have hremove' : .remove path ∉ acts := fun h => hremove (List.mem_cons_of_mem a h)
    have htail : (path = LOGGER_FILE → ∀ line, .append line ∉ a :: acts) →
        path = LOGGER_FILE → ∀ line, .append line ∉ acts :=
      fun h hlog line hline => h hlog line (List.mem_cons_of_mem a hline)
    cases a with
    | send data => exact (ih hremove' hlinked).imp_right fun h hlog => h (htail hlog)
    | fork p t => exact (ih hremove' hlinked).imp_right fun h hlog => h (htail hlog)
    | append line =>
      have hstill : (fs.append line).linked path = true := by
        by_cases hlog : path = LOGGER_FILE
        · simp [Files.append, hlog]
        · simp [Files.append, Function.update_of_ne hlog, hlinked]
      apply (ih hremove' hstill).imp_right
      intro h hlog
      have hother : path ≠ LOGGER_FILE := fun he => hlog he line List.mem_cons_self
      rw [filesAfter, h (htail hlog)]
      exact Function.update_of_ne hother _ _
    | remove p =>
      have hother : path ≠ p := fun he => hremove (he ▸ List.mem_cons_self)
      have hstill : (fs.remove p).linked path = true := by
        simp [Files.remove, Function.update_of_ne hother, hlinked]
      exact (ih hremove' hstill).imp_right fun h hlog => h (htail hlog)

theorem filesAfter_log {acts : List Act} (hremove : .remove LOGGER_FILE ∉ acts) {fs : Files}
    (hlinked : fs.linked LOGGER_FILE = true) :
    (fs.content LOGGER_FILE).length ≤ ((filesAfter fs acts).content LOGGER_FILE).length ∧
      ∀ line, .append line ∈ acts → line ≠ [] →
        (fs.content LOGGER_FILE).length < ((filesAfter fs acts).content LOGGER_FILE).length := by
  induction acts generalizing fs with
  | nil => exact ⟨Nat.le_refl _, fun _ h => absurd h List.not_mem_nil⟩
  | cons a acts ih =>
    have hremove' : .remove LOGGER_FILE ∉ acts := fun h => hremove (List.mem_cons_of_mem a h)
    cases a with
    | send data =>
      refine (ih hremove' hlinked).imp_right fun h line hline => h line ?_
      simpa using hline
    | fork p t =>
      refine (ih hremove' hlinked).imp_right fun h line hline => h line ?_
      simpa using hline
    | append line =>
      have hcontent : (fs.append line).content LOGGER_FILE = fs.content LOGGER_FILE ++ line := by
        simp [Files.append, hlinked]
      have hstill : (fs.append line).linked LOGGER_FILE = true := by simp [Files.append]
      obtain ⟨hle, hlt⟩ := ih hremove' hstill
      rw [hcontent, List.length_append] at hle hlt
      refine ⟨Nat.le_trans (Nat.le_add_right _ _) hle, fun line' hline' hne => ?_⟩
      rcases List.mem_cons.mp hline' with hhere | hlater
      · obtain rfl := Act.append.inj hhere
        exact Nat.lt_of_lt_of_le (Nat.lt_add_of_pos_right (List.length_pos_iff.mpr hne)) hle
      · exact Nat.lt_of_le_of_lt (Nat.le_add_right _ _) (hlt line' hlater hne)
    | remove p =>
      have hother : LOGGER_FILE ≠ p := fun he => hremove (he ▸ List.mem_cons_self)
      have hstill : (fs.remove p).linked LOGGER_FILE = true := by
        simp [Files.remove, Function.update_of_ne hother, hlinked]
      refine (ih hremove' hstill).imp_right fun h line hline => h line ?_
      simpa using hline

/-! ### When the transfers come last, every schedule delivers -/

/-- Nothing is transferred behind a transfer. -/
def OneFork (acts : List Act) : Prop :=
  ∀ pre path transformed post, acts = pre ++ .fork path transformed :: post → Quiet post

theorem TransfersLast.tail {fs : Files} {a : Act} {acts : List Act}
    (h : TransfersLast fs (a :: acts)) : TransfersLast (filesAfter fs [a]) acts := by
  intro pre path transformed post hacts
  have hpre := h (a :: pre) path transformed post (by rw [hacts]; rfl)
  have hfiles : filesAfter fs (a :: pre) = filesAfter (filesAfter fs [a]) pre := by
    cases a <;> rfl
  rwa [hfiles] at hpre

theorem OneFork.tail {a : Act} {acts : List Act} (h : OneFork (a :: acts)) : OneFork acts :=
  fun pre path transformed post hacts =>
    h (a :: pre) path transformed post (by rw [hacts]; rfl)

theorem TransfersLast.oneFork {fs : Files} {acts : List Act} (h : TransfersLast fs acts)
    (hp : Program acts) : OneFork acts := by
  intro pre path transformed post hacts
  obtain ⟨-, hnosend, -⟩ := h pre path transformed post hacts
  exact @Program.quiet_of_no_send _ hp pre path transformed post [] (by simpa using hacts) hnosend

theorem TransfersLast.responses {fs : Files} {acts : List Act} (h : TransfersLast fs acts)
    (hone : OneFork acts) (transform : Bytes → Bytes) :
    ∃ all, responses transform fs acts = some all := by
  induction acts generalizing fs with
  | nil => exact ⟨[], rfl⟩
  | cons a acts ih =>
    obtain ⟨all, hall⟩ := ih h.tail hone.tail
    cases a with
    | send data => exact ⟨data ++ all, by rw [Pop3Server.responses]; exact hall ▸ rfl⟩
    | append line => exact ⟨all, hall⟩
    | remove path => exact ⟨all, hall⟩
    | fork path transformed =>
      obtain ⟨hlinked, -⟩ := h [] path transformed acts rfl
      have hlinked : fs.linked path = true := hlinked
      rw [Pop3Server.responses, if_pos hlinked]
      exact ⟨_, congrArg (Option.map _) hall⟩

section Delivering

variable (transform : Bytes → Bytes)

/-- What a child has left to send. -/
def Child.left (fs : Files) (c : Child) : Bytes :=
  let body := fs.body transform c.path c.transformed
  match c.stage with
  | .forked => body ++ terminator
  | .copying offset => body.drop offset ++ terminator
  | .holding offset chunk => chunk ++ body.drop (offset + chunk.length) ++ terminator
  | .ending => terminator
  | .done => []

theorem Child.step_left {fs : Files} {c : Child} (hlinked : fs.linked c.path = true) (size : Nat) :
    (c.step transform fs size).1 ++ (c.step transform fs size).2.left transform fs =
      c.left transform fs ∧
    (c.step transform fs size).2.path = c.path := by
  obtain ⟨path, transformed, stage⟩ := c
  cases stage with
  | forked => simp_all [Child.step, Child.left]
  | copying offset =>
    simp only [Child.step, Child.left]
    split
    · next hend => simp [List.drop_eq_nil_of_le hend]
    · next hmore =>
      refine ⟨?_, rfl⟩
      generalize fs.body transform path transformed = body at hmore ⊢
      generalize max 1 (min size BUFFER_SIZE) = n
      have hchunk : (body.drop offset).take n ++ body.drop (offset + ((body.drop offset).take n).length) =
          body.drop offset := by
        rw [← List.drop_drop, List.length_take]
        rcases Nat.le_total n (body.drop offset).length with hle | hle
        · rw [Nat.min_eq_left hle, List.take_append_drop]
        · rw [Nat.min_eq_right hle, List.take_of_length_le hle, List.drop_length, List.append_nil]
      change [] ++ ((body.drop offset).take n ++ body.drop _ ++ terminator) = _
      rw [List.nil_append, hchunk]
  | holding offset chunk => simp [Child.step, Child.left]
  | ending => simp [Child.step, Child.left]
  | done => simp [Child.step, Child.left]

/-- The states of a world whose transfer comes last. -/
inductive World.Inv (all : Bytes) (w : World) : Prop
  /-- the transfer is still to be started -/
  | before (hchildren : w.children = []) (later : Bytes)
      (hresponses : responses transform w.files w.todo = some later)
      (hsocket : w.socket ++ later = all) (hlast : TransfersLast w.files w.todo)
      (hone : OneFork w.todo)
  /-- the parent only touches other files -/
  | during (c : Child) (hchildren : w.children = [c]) (hquiet : Quiet w.todo)
      (hlinked : w.files.linked c.path = true) (hremove : .remove c.path ∉ w.todo)
      (hlog : c.path = LOGGER_FILE → ∀ line, .append line ∉ w.todo)
      (hsocket : w.socket ++ c.left transform w.files = all)

theorem Child.left_congr {fs fs' : Files} {c : Child}
    (h : fs'.content c.path = fs.content c.path) :
    c.left transform fs' = c.left transform fs := by
  simp only [Child.left, Files.body, h]

/-- The parent goes on while nothing is transferred. -/
theorem World.Inv.parent_before {all socket later : Bytes} {fs : Files} {todo : List Act}
    (hresponses : responses transform fs todo = some later) (hsocket : socket ++ later = all)
    (hlast : TransfersLast fs todo) (hone : OneFork todo) :
    (World.step transform ⟨socket, fs, todo, []⟩ .parent).Inv transform all := by
  cases todo with
  | nil => exact .before rfl later hresponses hsocket hlast hone
  | cons a todo =>
    cases a with
    | send data =>
      obtain ⟨later', hresponses', rfl⟩ := Option.map_eq_some_iff.mp hresponses
      refine .before rfl later' hresponses' ?_ hlast.tail hone.tail
      simpa [World.step] using hsocket
    | append line => exact .before rfl later hresponses hsocket hlast.tail hone.tail
    | remove path => exact .before rfl later hresponses hsocket hlast.tail hone.tail
    | fork path transformed =>
      obtain ⟨hlinked, -, hremove, hlog⟩ := hlast [] path transformed todo rfl
      have hlinked : fs.linked path = true := hlinked
      have hquiet := hone [] path transformed todo rfl
      rw [responses, if_pos hlinked, hquiet.responses] at hresponses
      obtain rfl := Option.some.inj hresponses
      refine .during ⟨path, transformed, .forked⟩ rfl hquiet hlinked hremove hlog ?_
      simpa [World.step, Child.left] using hsocket

/-- The parent goes on while the child sends its file. -/
theorem World.Inv.parent_during {all socket : Bytes} {fs : Files} {todo : List Act} {c : Child}
    (hquiet : Quiet todo) (hlinked : fs.linked c.path = true) (hremove : .remove c.path ∉ todo)
    (hlog : c.path = LOGGER_FILE → ∀ line, .append line ∉ todo)
    (hsocket : socket ++ c.left transform fs = all) :
    (World.step transform ⟨socket, fs, todo, [c]⟩ .parent).Inv transform all := by
  cases todo with
  | nil => exact .during c rfl hquiet hlinked hremove hlog hsocket
  | cons a todo =>
    have hhere : ∀ b ∈ [a], b ∈ a :: todo := by
      intro b hb
      rw [List.mem_singleton.mp hb]
      exact List.mem_cons_self
    have hkept := @filesAfter_kept [a] c.path (fun h => hremove (hhere _ h)) fs hlinked
    have hremove' : .remove c.path ∉ todo := fun h => hremove (List.mem_cons_of_mem a h)
    have hlog' : c.path = LOGGER_FILE → ∀ line, .append line ∉ todo :=
      fun he line h => hlog he line (List.mem_cons_of_mem a h)
    have hleft := c.left_congr transform (hkept.2 fun he line h => hlog he line (hhere _ h))
    cases a with
    | send data => exact absurd rfl ((hquiet _ List.mem_cons_self).1 data)
    | fork p t => exact absurd rfl ((hquiet _ List.mem_cons_self).2 p t)
    | append line =>
      refine .during c rfl hquiet.tail hkept.1 hremove' hlog' ?_
      exact (congrArg (socket ++ ·) hleft).trans hsocket
    | remove path =>
      refine .during c rfl hquiet.tail hkept.1 hremove' hlog' ?_
      exact (congrArg (socket ++ ·) hleft).trans hsocket

theorem World.Inv.step {all : Bytes} {w : World} (h : w.Inv transform all) (pick : Pick) :
    (w.step transform pick).Inv transform all := by
  obtain ⟨socket, fs, todo, children⟩ := w
  cases h with
  | before hchildren later hresponses hsocket hlast hone =>
    simp only at hchildren hresponses hsocket hlast hone
    subst hchildren
    cases pick with
    | parent => exact World.Inv.parent_before transform hresponses hsocket hlast hone
    | child k size => exact .before rfl later hresponses hsocket hlast hone
  | during c hchildren hquiet hlinked hremove hlog hsocket =>
    simp only at hchildren hquiet hlinked hremove hlog hsocket
    subst hchildren
    cases pick with
    | parent => exact World.Inv.parent_during transform hquiet hlinked hremove hlog hsocket
    | child k size =>
      cases k with
      | succ k => exact .during c rfl hquiet hlinked hremove hlog hsocket
      | zero =>
        obtain ⟨hleft, hpath⟩ := Child.step_left transform hlinked size
        refine .during (c.step transform fs size).2 rfl hquiet (hpath ▸ hlinked) (hpath ▸ hremove)
          (hpath ▸ hlog) ?_
        change socket ++ (c.step transform fs size).1 ++ (c.step transform fs size).2.left transform fs
          = all
        rw [List.append_assoc, hleft, hsocket]

theorem World.Inv.run {all : Bytes} {w : World} (h : w.Inv transform all) (picks : List Pick) :
    (w.run transform picks).Inv transform all := by
  induction picks generalizing w with
  | nil => exact h
  | cons pick picks ih => exact ih (h.step transform pick)

theorem World.Inv.delivered {all : Bytes} {w : World} (h : w.Inv transform all) :
    w.socket <+: all ∧ (w.Finished → w.socket = all) ∧
      ∀ c ∈ w.children, c.stage ≠ .done → w.files.linked c.path = true := by
  cases h with
  | before hchildren later hresponses hsocket =>
    refine ⟨⟨later, hsocket⟩, fun hfinished => ?_, by simp [hchildren]⟩
    rw [hfinished.1] at hresponses
    obtain rfl := Option.some.inj hresponses
    rwa [List.append_nil] at hsocket
  | during c hchildren _ hlinked _ _ hsocket =>
    refine ⟨⟨_, hsocket⟩, fun hfinished => ?_, fun c' hc' _ => ?_⟩
    · have hdone := hfinished.2 c (by simp [hchildren])
      rwa [Child.left, hdone, List.append_nil] at hsocket
    · rw [hchildren, List.mem_singleton] at hc'
      rwa [hc']

theorem delivers_of_transfersLast {fs : Files} {acts : List Act} (hp : Program acts)
    (h : TransfersLast fs acts) : Delivers transform fs acts := by
  have hone := h.oneFork hp
  obtain ⟨all, hall⟩ := h.responses hone transform
  refine ⟨all, hall, fun picks => ?_⟩
  have hstart : (World.start fs acts).Inv transform all := .before rfl all hall rfl h hone
  exact (hstart.run transform picks).delivered transform

/-! ### Schedules -/

theorem World.run_append (w : World) (picks more : List Pick) :
    w.run transform (picks ++ more) = (w.run transform picks).run transform more :=
  List.foldl_append

theorem World.run_quiet {acts : List Act} (h : Quiet acts) (socket : Bytes) (fs : Files)
    (rest : List Act) (children : List Child) :
    World.run transform ⟨socket, fs, acts ++ rest, children⟩
        (List.replicate acts.length .parent) =
      ⟨socket, filesAfter fs acts, rest, children⟩ := by
  induction acts generalizing fs with
  | nil => rfl
  | cons a acts ih =>
    cases a with
    | send data => exact absurd rfl ((h _ List.mem_cons_self).1 data)
    | fork path transformed => exact absurd rfl ((h _ List.mem_cons_self).2 path transformed)
    | append line => exact ih h.tail _
    | remove path => exact ih h.tail _

section Children

variable (fs : Files) (todo : List Act) {k : Nat} (path : Bytes) (transformed : Bool)

theorem World.step_child {children : List Child} {c : Child} (h : children[k]? = some c)
    (socket : Bytes) (size : Nat) :
    World.step transform ⟨socket, fs, todo, children⟩ (.child k size) =
      ⟨socket ++ (c.step transform fs size).1, fs, todo,
        children.set k (c.step transform fs size).2⟩ := by
  simp only [World.step, h]

theorem getElem?_set {children : List Child} {c : Child} (h : children[k]? = some c) (c' : Child) :
    (children.set k c')[k]? = some c' := by
  obtain ⟨hlt, -⟩ := List.getElem?_eq_some_iff.mp h
  rw [List.getElem?_set_self hlt]

/-- A child that copies sends the rest of the file, when it is left alone. -/
theorem World.run_copying (n : Nat) {offset : Nat} {children : List Child} (socket : Bytes)
    (hn : (fs.body transform path transformed).length - offset ≤ n)
    (hk : children[k]? = some ⟨path, transformed, .copying offset⟩) :
    ∃ picks offset', (fs.body transform path transformed).length ≤ offset' ∧
      World.run transform ⟨socket, fs, todo, children⟩ picks =
        ⟨socket ++ (fs.body transform path transformed).drop offset, fs, todo,
          children.set k ⟨path, transformed, .copying offset'⟩⟩ := by
  induction n generalizing offset children socket with
  | zero =>
    obtain ⟨hlt, hget⟩ := List.getElem?_eq_some_iff.mp hk
    refine ⟨[], offset, by omega, ?_⟩
    rw [List.drop_eq_nil_of_le (by omega), List.append_nil, ← hget, List.set_getElem_self]
    rfl
  | succ n ih =>
    by_cases hend : (fs.body transform path transformed).length ≤ offset
    · exact ih socket (by omega) hk
    · -- one byte is read and sent
      let byte := ((fs.body transform path transformed).drop offset).take 1
      have hbyte : byte.length = 1 := by simp [byte]; omega
      have hread : (Child.step transform fs 1 ⟨path, transformed, .copying offset⟩) =
          ([], ⟨path, transformed, .holding offset byte⟩) := by
        simp only [Child.step, if_neg hend]
        rfl
      have hsend : (Child.step transform fs 1 ⟨path, transformed, .holding offset byte⟩) =
          (byte, ⟨path, transformed, .copying (offset + 1)⟩) := by
        simp only [Child.step, hbyte]
      have hk' := getElem?_set hk ⟨path, transformed, .holding offset byte⟩
      have hk'' := getElem?_set hk' ⟨path, transformed, .copying (offset + 1)⟩
      obtain ⟨picks, offset', hle, hrun⟩ := ih (socket ++ byte) (by omega) hk''
      refine ⟨.child k 1 :: .child k 1 :: picks, offset', hle, ?_⟩
      have hrest : byte ++ (fs.body transform path transformed).drop (offset + 1) =
          (fs.body transform path transformed).drop offset := by
        rw [← List.drop_drop, List.take_append_drop]
      rw [World.run, List.foldl_cons, List.foldl_cons, World.step_child transform fs todo hk, hread,
        List.append_nil, World.step_child transform fs todo hk', hsend, ← World.run, hrun,
        List.append_assoc, hrest, List.set_set, List.set_set]

variable {path} {transformed} (hlinked : fs.linked path = true)
include hlinked

/-- A child that has been forked opens the file and sends it, when it is left alone. -/
theorem World.run_body {children : List Child} (socket : Bytes)
    (hk : children[k]? = some ⟨path, transformed, .forked⟩) :
    ∃ picks offset, (fs.body transform path transformed).length ≤ offset ∧
      World.run transform ⟨socket, fs, todo, children⟩ picks =
        ⟨socket ++ fs.body transform path transformed, fs, todo,
          children.set k ⟨path, transformed, .copying offset⟩⟩ := by
  have hopen : Child.step transform fs 1 ⟨path, transformed, .forked⟩ =
      ([], ⟨path, transformed, .copying 0⟩) := by
    simp only [Child.step, hlinked, if_true]
  have hk' := getElem?_set hk ⟨path, transformed, .copying 0⟩
  obtain ⟨picks, offset, hle, hrun⟩ := World.run_copying transform fs todo path transformed
    (fs.body transform path transformed).length socket (Nat.sub_le _ _) hk'
  refine ⟨.child k 1 :: picks, offset, hle, ?_⟩
  rw [World.run, List.foldl_cons, World.step_child transform fs todo hk, hopen, List.append_nil,
    ← World.run, hrun, List.drop_zero, List.set_set]

theorem World.run_child {children : List Child} (socket : Bytes)
    (hk : children[k]? = some ⟨path, transformed, .forked⟩) :
    ∃ picks, World.run transform ⟨socket, fs, todo, children⟩ picks =
      ⟨socket ++ (fs.body transform path transformed ++ terminator), fs, todo,
        children.set k ⟨path, transformed, .done⟩⟩ := by
  obtain ⟨picks, offset, hle, hrun⟩ := World.run_body transform fs todo hlinked socket hk
  have hend : Child.step transform fs 1 ⟨path, transformed, .copying offset⟩ =
      ([], ⟨path, transformed, .ending⟩) := by
    simp only [Child.step, if_pos hle]
  have hk' := getElem?_set hk ⟨path, transformed, .copying offset⟩
  have hk'' := getElem?_set hk' ⟨path, transformed, .ending⟩
  refine ⟨picks ++ [.child k 1, .child k 1], ?_⟩
  rw [World.run_append, hrun, World.run, List.foldl_cons, List.foldl_cons, List.foldl_nil,
    World.step_child transform fs todo hk', hend, World.step_child transform fs todo hk'',
    List.append_nil, List.append_assoc, List.set_set, List.set_set]
  rfl

end Children

/-- The schedule in which every child is done before the parent goes on. -/
theorem World.run_sequential {pre rest : List Act} {socket : Bytes} {fs : Files}
    {children : List Child} {all : Bytes} (hdone : ∀ c ∈ children, c.stage = .done)
    (hall : responses transform fs (pre ++ rest) = some all) :
    ∃ picks socket' children' later,
      World.run transform ⟨socket, fs, pre ++ rest, children⟩ picks =
        ⟨socket', filesAfter fs pre, rest, children'⟩ ∧ (∀ c ∈ children', c.stage = .done) ∧
      responses transform (filesAfter fs pre) rest = some later ∧
      socket' ++ later = socket ++ all := by
  induction pre generalizing socket fs children all with
  | nil => exact ⟨[], socket, children, all, rfl, hdone, hall, rfl⟩
  | cons a pre ih =>
    cases a with
    | append line =>
      obtain ⟨picks, socket', children', later, hrun, hrest⟩ := @ih socket _ _ _ hdone hall
      exact ⟨.parent :: picks, socket', children', later, hrun, hrest⟩
    | remove path =>
      obtain ⟨picks, socket', children', later, hrun, hrest⟩ := @ih socket _ _ _ hdone hall
      exact ⟨.parent :: picks, socket', children', later, hrun, hrest⟩
    | send data =>
      obtain ⟨all', hall', rfl⟩ := Option.map_eq_some_iff.mp hall
      obtain ⟨picks, socket', children', later, hrun, hdone', hlater, hsocket⟩ :=
        @ih (socket ++ data) _ _ _ hdone hall'
      refine ⟨.parent :: picks, socket', children', later, hrun, hdone', hlater, ?_⟩
      rw [hsocket, List.append_assoc]
    | fork path transformed =>
      rw [List.cons_append, responses] at hall
      split at hall
      · next hlinked =>
        obtain ⟨all', hall', rfl⟩ := Option.map_eq_some_iff.mp hall
        have hk : (children ++ [⟨path, transformed, .forked⟩])[children.length]? =
            some ⟨path, transformed, .forked⟩ := List.getElem?_concat_length
        obtain ⟨body, hbody⟩ :=
          World.run_child transform fs (pre ++ rest) hlinked socket hk
        have hset : (children ++ [(⟨path, transformed, .forked⟩ : Child)]).set children.length
            ⟨path, transformed, .done⟩ = children ++ [⟨path, transformed, .done⟩] := by
          simp
        have hdone' : ∀ c ∈ children ++ [(⟨path, transformed, .done⟩ : Child)],
            c.stage = .done := by
          intro c hc
          rcases List.mem_append.mp hc with hc | hc
          · exact hdone c hc
          · rw [List.mem_singleton.mp hc]
        obtain ⟨picks, socket', children', later, hrun, hdone'', hlater, hsocket⟩ :=
          @ih (socket ++ (fs.body transform path transformed ++ terminator)) _ _ _ hdone' hall'
        refine ⟨.parent :: (body ++ picks), socket', children', later, ?_, hdone'', hlater, ?_⟩
        · rw [hset] at hbody
          rw [World.run, List.foldl_cons, ← World.run, World.run_append]
          exact (congrArg (World.run transform · picks) hbody).trans hrun
        · rw [hsocket]
          simp only [List.append_assoc]
      · cases hall

theorem exists_first_send {acts : List Act} (h : ∃ data, .send data ∈ acts) :
    ∃ mid data post, acts = mid ++ .send data :: post ∧ ∀ d, .send d ∉ mid := by
  induction acts with
  | nil =>
    obtain ⟨data, hdata⟩ := h
    cases hdata
  | cons a acts ih =>
    by_cases ha : ∃ data, a = .send data
    · obtain ⟨data, rfl⟩ := ha
      exact ⟨[], data, acts, rfl, fun _ => List.not_mem_nil⟩
    · obtain ⟨data, hdata⟩ := h
      have hlater : .send data ∈ acts :=
        (List.mem_cons.mp hdata).resolve_left fun he => ha ⟨data, he.symm⟩
      obtain ⟨mid, data', post, rfl, hmid⟩ := ih ⟨data, hlater⟩
      refine ⟨a :: mid, data', post, rfl, fun d hd => ?_⟩
      rcases List.mem_cons.mp hd with he | hd
      · exact ha ⟨d, he.symm⟩
      · exact hmid d hd

/-! ### A schedule against every other order -/

/-- What `Delivers` says of the schedules from here on. -/
def World.DeliversFrom (all : Bytes) (w : World) : Prop :=
  ∀ picks, (w.run transform picks).socket <+: all ∧
    ((w.run transform picks).Finished → (w.run transform picks).socket = all)

section Against

variable {fs : Files} {path : Bytes} {transformed : Bool} {socket later all : Bytes}
  {children : List Child}

/-- The answer that comes next can be sent in front of the terminator. -/
theorem send_before_terminator {mid post : List Act} {data : Bytes}
    (h : World.DeliversFrom transform all
      ⟨socket, fs, mid ++ .send data :: post, children ++ [⟨path, transformed, .forked⟩]⟩)
    (hlinked : fs.linked path = true) (hquiet : Quiet mid)
    (hall : all = socket ++ (fs.body transform path transformed ++ terminator ++ later))
    (hdata : ∃ b rest, data = b :: rest ∧ b ≠ CR) : False := by
  have hk : (children ++ [⟨path, transformed, .forked⟩])[children.length]? =
      some ⟨path, transformed, .forked⟩ := List.getElem?_concat_length
  obtain ⟨picks, offset, -, hbody⟩ :=
    World.run_body transform fs (mid ++ .send data :: post) hlinked socket hk
  have hsocket := (h (picks ++ (List.replicate mid.length .parent ++ [.parent]))).1
  rw [World.run_append, hbody, World.run_append, World.run_quiet transform hquiet] at hsocket
  change socket ++ fs.body transform path transformed ++ data <+: all at hsocket
  have hstart : socket ++ fs.body transform path transformed ++ (terminator ++ later) = all := by
    rw [hall]
    simp only [List.append_assoc]
  rw [← hstart, List.prefix_append_right_inj] at hsocket
  obtain ⟨b, rest, rfl, hb⟩ := hdata
  have hfirst : b = CR := (List.cons_prefix_cons.mp hsocket).1
  exact hb hfirst

/-- A child that comes late does not find a removed file. -/
theorem open_after_remove {m1 m2 : List Act}
    (h : World.DeliversFrom transform all
      ⟨socket, fs, m1 ++ .remove path :: m2, children ++ [⟨path, transformed, .forked⟩]⟩)
    (hdone : ∀ c ∈ children, c.stage = .done) (hquiet : Quiet (m1 ++ .remove path :: m2))
    (hall : all = socket ++ (fs.body transform path transformed ++ terminator ++ later)) :
    False := by
  have hk : (children ++ [⟨path, transformed, .forked⟩])[children.length]? =
      some ⟨path, transformed, .forked⟩ := List.getElem?_concat_length
  have hm1 : Quiet m1 := fun a ha => hquiet a (List.mem_append_left _ ha)
  have hm2 : Quiet m2 := fun a ha =>
    hquiet a (List.mem_append_right _ (List.mem_cons_of_mem _ ha))
  have hopen : Child.step transform ((filesAfter fs m1).remove path) 1
      ⟨path, transformed, .forked⟩ = ([], ⟨path, transformed, .done⟩) := by
    simp [Child.step, Files.remove]
  obtain ⟨-, hfinal⟩ := h (List.replicate m1.length .parent ++ (.parent ::
    .child children.length 1 :: List.replicate m2.length .parent))
  have hrun : World.run transform
      ⟨socket, fs, m1 ++ .remove path :: m2, children ++ [⟨path, transformed, .forked⟩]⟩
      (List.replicate m1.length .parent ++ (.parent :: .child children.length 1 ::
        List.replicate m2.length .parent)) =
      ⟨socket, filesAfter ((filesAfter fs m1).remove path) m2, [],
        children ++ [⟨path, transformed, .done⟩]⟩ := by
    rw [World.run_append, World.run_quiet transform hm1, World.run, List.foldl_cons,
      List.foldl_cons]
    change List.foldl _ (World.step transform ⟨socket, (filesAfter fs m1).remove path, m2, _⟩ _) _
      = _
    rw [World.step_child transform _ _ hk, hopen, List.append_nil, ← World.run]
    have hrest := World.run_quiet transform hm2 socket ((filesAfter fs m1).remove path) []
      (children ++ [⟨path, transformed, .done⟩])
    rw [List.append_nil] at hrest
    simpa using hrest
  rw [hrun] at hfinal
  have hsocket : socket = all := by
    apply hfinal
    refine ⟨rfl, fun c hc => ?_⟩
    rcases List.mem_append.mp hc with hc | hc
    · exact hdone c hc
    · rw [List.mem_singleton.mp hc]
  rw [hall] at hsocket
  have hempty := List.append_right_eq_self.mp hsocket.symm
  simp only [List.append_eq_nil_iff] at hempty
  exact absurd hempty.1.2 (by decide)

/-- A child that comes late sends the log file with the lines added since. -/
theorem open_after_append {post : List Act}
    (h : World.DeliversFrom transform all
      ⟨socket, fs, post, children ++ [⟨LOGGER_FILE, false, .forked⟩]⟩)
    (hdone : ∀ c ∈ children, c.stage = .done) (hquiet : Quiet post)
    (hlinked : fs.linked LOGGER_FILE = true) (hremove : .remove LOGGER_FILE ∉ post)
    (hall : all = socket ++ (fs.body transform LOGGER_FILE false ++ terminator)) {line : Bytes}
    (hline : line ≠ []) : .append line ∉ post := by
  intro hmem
  have hstill := (filesAfter_kept hremove hlinked).1
  have hlonger := (filesAfter_log hremove hlinked).2 line hmem hline
  have hk : (children ++ [⟨LOGGER_FILE, false, .forked⟩])[children.length]? =
      some ⟨LOGGER_FILE, false, .forked⟩ := List.getElem?_concat_length
  obtain ⟨picks, hchild⟩ := World.run_child transform (filesAfter fs post) [] hstill socket hk
  obtain ⟨-, hfinal⟩ := h (List.replicate post.length .parent ++ picks)
  have hparent := World.run_quiet transform hquiet socket fs []
    (children ++ [⟨LOGGER_FILE, false, .forked⟩])
  rw [List.append_nil] at hparent
  rw [World.run_append, hparent, hchild] at hfinal
  have hsocket := hfinal ⟨rfl, fun c hc => ?_⟩
  · rw [hall] at hsocket
    have hlength := congrArg List.length hsocket
    simp only [List.length_append, Files.body, Bool.false_eq_true, if_false] at hlength
    omega
  · simp only [List.set_append_right _ _ (Nat.le_refl _), Nat.sub_self, List.set_cons_zero] at hc
    rcases List.mem_append.mp hc with hc | hc
    · exact hdone c hc
    · rw [List.mem_singleton.mp hc]

end Against

theorem transfersLast_of_delivers {fs : Files} {acts : List Act} (hp : Program acts)
    (h : Delivers transform fs acts) : TransfersLast fs acts := by
  obtain ⟨all, hall, hpicks⟩ := h
  intro pre path transformed post hacts
  subst hacts
  -- everything up to the transfer is done in order
  obtain ⟨picks, socket, children, later, hrun, hdone, hlater, hsocket⟩ :=
    @World.run_sequential transform _ _ [] _ [] _ (by simp) hall
  rw [responses] at hlater
  split at hlater
  case isFalse => cases hlater
  case isTrue hlinked =>
  obtain ⟨later, hresponses, rfl⟩ := Option.map_eq_some_iff.mp hlater
  rw [List.nil_append] at hsocket
  have hfrom : World.DeliversFrom transform all
      ⟨socket, filesAfter fs pre, post, children ++ [⟨path, transformed, .forked⟩]⟩ := by
    intro more
    have hmore := hpicks (picks ++ .parent :: more)
    simp only [World.start] at hmore
    rw [World.run_append, hrun] at hmore
    exact ⟨hmore.1, hmore.2.1⟩
  have hnosend : ∀ data, .send data ∉ post := by
    intro data hdata
    obtain ⟨mid, first, rest, rfl, hmid⟩ := exists_first_send ⟨data, hdata⟩
    exact send_before_terminator transform hfrom hlinked
      (@Program.quiet_of_no_send _ hp _ _ _ mid (.send first :: rest) rfl hmid) hsocket.symm
      (hp.answers pre path transformed mid first rest rfl hmid)
  have hquiet : Quiet post :=
    @Program.quiet_of_no_send _ hp _ _ _ post [] (by rw [List.append_nil]) hnosend
  have hnoremove : .remove path ∉ post := by
    intro hmem
    obtain ⟨m1, m2, rfl⟩ := List.append_of_mem hmem
    exact open_after_remove transform hfrom hdone hquiet hsocket.symm
  refine ⟨hlinked, hnosend, hnoremove, ?_⟩
  rintro rfl line
  obtain rfl := hp.plainLog transformed (by simp)
  by_cases hmem : .append line ∈ post
  · rw [hquiet.responses] at hresponses
    obtain rfl := Option.some.inj hresponses
    rw [List.append_nil] at hsocket
    exact open_after_append transform hfrom hdone hquiet hlinked hnoremove hsocket.symm
      (hp.lines line (by simp [hmem]))
  · exact hmem

end Delivering

/-- **Every schedule delivers the complete responses exactly when nothing follows a transfer that
sends or touches its file.** -/
theorem delivers_iff (transform : Bytes → Bytes) {fs : Files} {acts : List Act}
    (hp : Program acts) : Delivers transform fs acts ↔ TransfersLast fs acts :=
  ⟨transfersLast_of_delivers transform hp, delivers_of_transfersLast transform hp⟩

end Pop3Server
