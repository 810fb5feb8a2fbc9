import Pop3Server.SessionInvariant

/-!
# The mailbox between PASS and QUIT

`Frozen` compares the mailbox of a session with the one its PASS loaded: the
flags are all that a command of TRANSACTION changes, and RSET clears them.
-/

namespace Pop3Server

/-- The commands of a logged-in session that neither leave TRANSACTION nor end the session. -/
def mailboxCommands : List Pop3Command := [.stat, .list, .retr, .dele, .noop, .rset]

def FileList.file (f : FileList) : Bytes × Int := (f.name, f.size)

/-- A mailbox that differs in its flags alone from the one loaded, and from which `unmark_all`
gets back there. -/
structure Frozen (loaded md : Maildir) : Prop where
  sizes : ∀ d, (md.folder d).size = (loaded.folder d).size
  files : ∀ d, (md.folder d).list.map FileList.file = (loaded.folder d).list.map FileList.file
  ends : ∀ d, ∃ turns, unmarkLoop turns (md.folder d).list = some (loaded.folder d).list
  restored : unmarkAll md = loaded

/-- A logged-in session with a mailbox that is frozen. -/
structure HoldsFrozen (u : User) (loaded : Maildir) (s : Session) : Prop where
  state : s.clientState = .transaction
  user : s.user = some u
  maildir : ∃ md, s.maildir = some md ∧ Frozen loaded md

/-- RSET brings the loaded mailbox back, and a QUIT right after it removes nothing. -/
structure Resets (loaded : Maildir) (s : Session) : Prop where
  restores : ∀ rset : Turn, getCommandValue rset.command = .rset →
    rset.command.length ≤ 2 * BUFFER_SIZE →
    (rset.exchange s).step.session = { s with maildir := some loaded } ∧
      (rset.exchange s).step.control = .next
  removes : ∀ rset quit : Turn, getCommandValue rset.command = .rset →
    getCommandValue quit.command = .quit →
    (rset.exchange s).step.control = .next →
    (quit.exchange (rset.exchange s).step.session).step.removes = []

theorem unmarkAll_folder (md : Maildir) (d : Directory) :
    (unmarkAll md).folder d = (md.folder d).unmark := by
  cases d <;> rfl

theorem Frozen.of_unmarkAll {loaded md : Maildir} (h : unmarkAll md = loaded) :
    Frozen loaded md := by
  have hfolder : ∀ d, loaded.folder d = (md.folder d).unmark := fun d => by
    rw [← h, unmarkAll_folder]
  refine ⟨fun d => ?_, fun d => ?_, fun d => ?_, h⟩
  · rw [hfolder]
    rfl
  · rw [hfolder, FileListHeader.unmark_list, List.map_map]
    rfl
  · exact ⟨_, by rw [unmarkLoop_twice, hfolder, FileListHeader.unmark_list]⟩

/-! ### One line -/

theorem Turn.step_of_huge {t : Turn} (h : ¬ t.command.length ≤ 2 * BUFFER_SIZE) (s : Session) :
    (t.exchange s).step = ⟨s, t.shared, [], .fault .assertion⟩ :=
  Exchange.step_of_huge h

theorem Outcome.frozen {env : Env} {sh : Shared} {s : Session} {comm : Pop3Command}
    {arg : Option Bytes} {st : Step} (h : Outcome env sh s comm arg st)
    (hcomm : comm ∈ mailboxCommands) {u : User} {loaded : Maildir}
    (hs : HoldsFrozen u loaded s) : HoldsFrozen u loaded st.session := by
  obtain ⟨hstate, huser, md, hmd, hfrozen⟩ := hs
  have hsame : HoldsFrozen u loaded s := ⟨hstate, huser, md, hmd, hfrozen⟩
  have hflags : ∀ md', unmarkAll md' = unmarkAll md →
      HoldsFrozen u loaded { s with maildir := some md' } := by
    intro md' hunmark
    exact ⟨hstate, huser, md', rfl, .of_unmarkAll (hunmark.trans hfrozen.restored)⟩
  cases h with
  | refused _ _ _ => exact hsame
  | told _ _ _ _ => exact hsame
  | userNotFound _ _ => exact absurd hcomm (by decide)
  | userFound _ => exact absurd hcomm (by decide)
  | passRefused _ _ => exact hsame
  | loggedIn _ _ _ => exact absurd hcomm (by decide)
  | noMailbox _ _ _ => exact absurd hcomm (by decide)
  | unmarked _ hmd' =>
    obtain rfl := Option.some.inj (hmd.symm.trans hmd')
    exact hflags _ (unmarkAll_unmarkAll md)
  | retrieved _ _ _ _ => exact hsame
  | marked _ hmd' htarget =>
    obtain rfl := Option.some.inj (hmd.symm.trans hmd')
    exact hflags _ (unmarkAll_deleteTarget htarget)
  | configured _ _ _ _ _ _ => exact hsame
  | logSent _ => exact hsame
  | quitMailbox _ _ _ => exact absurd hcomm (by decide)
  | quitPlain _ => exact absurd hcomm (by decide)
  | dangling _ _ _ => exact hsame

/-- **Step lemma.** A line that ends the process leaves the mailbox as it was too. -/
theorem step_frozen {t : Turn} (hcomm : getCommandValue t.command ∈ mailboxCommands) {u : User}
    {loaded : Maildir} {s : Session} (hs : HoldsFrozen u loaded s) :
    HoldsFrozen u loaded (t.exchange s).step.session := by
  have h4 : 4 ≤ t.command.length := by
    apply length_of_keyword
    intro herror
    rw [herror] at hcomm
    revert hcomm
    decide
  by_cases hfit : t.command.length ≤ 2 * BUFFER_SIZE
  · obtain ⟨st, hout, hstep⟩ := dispatch_outcome h4 hfit t.env t.shared s
    rw [Exchange.step, Turn.exchange, hstep]
    exact hout.frozen hcomm hs
  · rw [Turn.step_of_huge hfit]
    exact hs

/-- **Run lemma.** -/
theorem final_frozen {turns : List Turn}
    (hcomms : ∀ t ∈ turns, getCommandValue t.command ∈ mailboxCommands) {u : User}
    {loaded : Maildir} {s : Session} (hs : HoldsFrozen u loaded s) :
    HoldsFrozen u loaded (sessionMachine.final s turns) := by
  induction turns generalizing s with
  | nil => exact hs
  | cons t turns ih =>
    have hnext := step_frozen (hcomms t List.mem_cons_self) hs
    cases hgo : sessionMachine.stop s t with
    | true => rwa [Machine.final_cons_stop _ hgo]
    | false =>
      rw [Machine.final_cons_go _ hgo]
      exact ih (fun t ht => hcomms t (List.mem_cons_of_mem _ ht)) hnext

/-- A PASS that loads a mailbox leaves the session with it, and with no message marked. -/
theorem Exchange.LoadsMailbox.holds {x : Exchange} {u : User} {loaded : Maildir}
    (h : x.LoadsMailbox u loaded) : HoldsFrozen u loaded x.step.session := by
  have h4 : 4 ≤ x.command.length := length_of_keyword (by simp [h.pass])
  have hfit : x.command.length ≤ 2 * BUFFER_SIZE := by
    by_contra hhuge
    have hsession : x.step.session = x.session := congrArg Step.session (Exchange.step_of_huge hhuge)
    have hafter := h.after
    rw [hsession, h.before] at hafter
    cases hafter
  obtain ⟨st, hout, hstep⟩ := Exchange.outcome h4 hfit
  have hsession : x.step.session = st.session := by rw [hstep]
  have hafter := h.after
  rw [hsession] at hafter ⊢
  have hpass := h.pass
  generalize getCommandValue x.command = comm at hout hpass
  generalize Pop3Server.argument x.command = arg at hout
  cases hout with
  | loggedIn hstate huser hload =>
    obtain rfl := Option.some.inj (h.user.symm.trans huser)
    obtain rfl := Option.some.inj (h.loaded.symm.trans hload)
    exact ⟨rfl, huser, _, rfl, .of_unmarkAll (unmarkAll_of_unmarked (loadUserStructure_unmarked hload))⟩
  | noMailbox hstate huser hload =>
    obtain rfl := Option.some.inj (h.user.symm.trans huser)
    cases h.loaded.symm.trans hload
  | passRefused _ _ => exact absurd (h.before.symm.trans hafter) (by decide)
  | refused _ _ _ => exact absurd (h.before.symm.trans hafter) (by decide)
  | told _ _ _ _ => exact absurd (h.before.symm.trans hafter) (by decide)
  | configured _ hstate _ _ _ _ => exact absurd (h.before.symm.trans hstate) (by decide)
  | dangling hstate _ _ => exact absurd (h.before.symm.trans hstate) (by decide)
  | _ => cases hpass

/-! ### RSET and QUIT -/

theorem deleteMarkedPaths_of_unmarked {md : Maildir}
    (h : ∀ m ∈ md.messages, m.2.deleted = false) (baseDir user : Bytes) :
    deleteMarkedPaths baseDir user md = [] := by
  have hnone : md.messages.filter (·.2.deleted) = [] :=
    List.filter_eq_nil_iff.mpr fun m hm => by simp [h m hm]
  rw [deleteMarkedPaths_eq, hnone]
  rfl

/-- QUIT removes nothing when nothing is marked. -/
theorem quitCommand_removes_nil {sh : Shared} {s : Session} {md : Maildir}
    (hmd : s.maildir = some md) (hunmarked : ∀ m ∈ md.messages, m.2.deleted = false) :
    (quitCommand sh s).removes = [] := by
  unfold quitCommand
  simp only [hmd]
  split
  · cases s.user with
    | none => rfl
    | some u =>
      simp only [deleteMarkedPaths_of_unmarked hunmarked]
      rfl
  · rfl

theorem dispatch_quit_removes_nil {s : Session} {md : Maildir} (hmd : s.maildir = some md)
    (hunmarked : ∀ m ∈ md.messages, m.2.deleted = false) {t : Turn}
    (hcomm : getCommandValue t.command = .quit) : (t.exchange s).step.removes = [] := by
  have h4 : 4 ≤ t.command.length := length_of_keyword (by simp [hcomm])
  by_cases hfit : t.command.length ≤ 2 * BUFFER_SIZE
  · rw [Exchange.step, Turn.exchange, dispatch_of_long h4 hfit, hcomm]
    exact quitCommand_removes_nil hmd hunmarked
  · rw [Turn.step_of_huge hfit]
    rfl

theorem dispatch_rset {s : Session} {md : Maildir} (hstate : s.clientState = .transaction)
    (hmd : s.maildir = some md) {t : Turn} (hcomm : getCommandValue t.command = .rset)
    (hfit : t.command.length ≤ 2 * BUFFER_SIZE) :
    (t.exchange s).step.session = { s with maildir := some (unmarkAll md) } ∧
      (t.exchange s).step.control = .next := by
  have h4 : 4 ≤ t.command.length := length_of_keyword (by simp [hcomm])
  rw [Exchange.step, Turn.exchange, dispatch_of_long h4 hfit, hcomm, execute, rsetCommand,
    loggedIn, if_neg (not_not_intro hstate), mailbox, hmd]
  exact ⟨rfl, rfl⟩

theorem HoldsFrozen.resets {u : User} {loaded : Maildir} {s : Session}
    (h : HoldsFrozen u loaded s) : Resets loaded s := by
  obtain ⟨hstate, -, md, hmd, hfrozen⟩ := h
  have hunmarked : ∀ m ∈ loaded.messages, m.2.deleted = false := by
    rw [← hfrozen.restored]
    exact unmarkAll_unmarked md
  have hrestores : ∀ rset : Turn, getCommandValue rset.command = .rset →
      rset.command.length ≤ 2 * BUFFER_SIZE →
      (rset.exchange s).step.session = { s with maildir := some loaded } ∧
        (rset.exchange s).step.control = .next := by
    intro rset hcomm hfit
    rw [← hfrozen.restored]
    exact dispatch_rset hstate hmd hcomm hfit
  refine ⟨hrestores, fun rset quit hrset hquit hnext => ?_⟩
  have hfit : rset.command.length ≤ 2 * BUFFER_SIZE := by
    by_contra hhuge
    rw [Turn.step_of_huge hhuge] at hnext
    cases hnext
  rw [(hrestores rset hrset hfit).1]
  exact dispatch_quit_removes_nil rfl hunmarked hquit

/-- **The mailbox is frozen from PASS on, and RSET undoes every DELE.** -/
theorem mailbox_frozen {x : Exchange} {u : User} {loaded : Maildir} (h : x.LoadsMailbox u loaded)
    {turns : List Turn} (hcomms : ∀ t ∈ turns, getCommandValue t.command ∈ mailboxCommands) :
    HoldsFrozen u loaded (sessionMachine.final x.step.session turns) ∧
      Resets loaded (sessionMachine.final x.step.session turns) := by
  have hholds := final_frozen hcomms h.holds
  exact ⟨hholds, hholds.resets⟩

/-- Two of three messages are deleted, and one is sent in between. -/
theorem mailbox_frozen_sample :
    let x : Exchange := ⟨sampleEnv, sampleShared,
      { sampleSession with user := some ⟨str "anna", str "secret"⟩ }, str "PASS secret"⟩
    let loaded : Maildir := ⟨.ofList [⟨str "c", 7, false⟩],
      .ofList [⟨str "a", 5, false⟩, ⟨str "b", 30, false⟩], .ofList []⟩
    let turns := [str "DELE 1", str "RETR 2", str "DELE 3"].map (Turn.mk sampleEnv sampleShared)
    HoldsFrozen ⟨str "anna", str "secret"⟩ loaded (sessionMachine.final x.step.session turns) ∧
      Resets loaded (sessionMachine.final x.step.session turns) :=
  mailbox_frozen ⟨by decide +kernel, by decide +kernel, rfl, rfl, by decide +kernel,
    by decide +kernel⟩ (by decide +kernel)

end Pop3Server
