import Mathlib.Data.List.DropRight
import Mathlib.Data.List.Enum
import Pop3Server.SessionInvariant

/-!
# Which files a session removes

The marks on a mailbox are set by DELE, cleared by RSET and forgotten by the
next login.  `deletedSince` reads off the past of a run what should be marked,
and `MarksInvariant` says that this is what is marked.  QUIT in TRANSACTION
turns the marks into removals (`DeletesMarked`); no other line removes a file.
-/

namespace Pop3Server

/-- The exchange is an RSET or a PASS that logs in. -/
def Exchange.resets (x : Exchange) : Bool :=
  getCommandValue x.command = .rset ∨
    (getCommandValue x.command = .pass ∧ x.session.clientState ≠ .transaction ∧
      x.step.session.clientState = .transaction)

/-- The message, counted from 0, that the exchange deletes: it is a DELE answered by success. -/
def Exchange.deleted? (x : Exchange) : Option Nat :=
  match getCommandValue x.command, argument x.command with
  | .dele, some number =>
    if x.step.sends = [deletedReply (atoi number)] then some (atoi number - 1).toNat else none
  | _, _ => none

/-- The messages deleted since the later of the last login and the last RSET. -/
def deletedSince (past : List Exchange) : List Nat :=
  (past.rtakeWhile fun x => !x.resets).filterMap (·.deleted?)

theorem deletedSince_of_resets {x : Exchange} (h : x.resets = true) (past : List Exchange) :
    deletedSince (past ++ [x]) = [] := by
  rw [deletedSince, List.rtakeWhile_concat_neg _ _ _ (by simp [h])]
  rfl

theorem deletedSince_of_not_resets {x : Exchange} (h : x.resets = false) (past : List Exchange) :
    deletedSince (past ++ [x]) = deletedSince past ++ x.deleted?.toList := by
  rw [deletedSince, List.rtakeWhile_concat_pos _ _ _ (by simp [h]), List.filterMap_append]
  cases hx : x.deleted? <;> simp [deletedSince, hx]

theorem resets_eq_false {x : Exchange} (hrset : getCommandValue x.command ≠ .rset)
    (hpass : getCommandValue x.command ≠ .pass ∨ x.session.clientState = .transaction) :
    x.resets = false := by
  simp only [Exchange.resets, decide_eq_false_iff_not, not_or, not_and]
  refine ⟨hrset, fun hp hstate => ?_⟩
  rcases hpass with hpass | hpass
  · exact absurd hp hpass
  · exact absurd hpass hstate

theorem deleted?_eq_none {x : Exchange}
    (h : getCommandValue x.command ≠ .dele ∨ ∃ response, IsErr response ∧
      x.step.sends = [response]) : x.deleted? = none := by
  unfold Exchange.deleted?
  split
  · next number hdele _ =>
    rcases h with h | ⟨response, herr, hsends⟩
    · exact absurd hdele h
    · apply if_neg
      intro hreply
      obtain rfl : response = deletedReply (atoi number) := by
        rw [hsends] at hreply; exact (List.cons.inj hreply).1
      exact not_isErr_ok _ herr
  · rfl

/-! ### The invariant -/

/-- The marked messages of a logged-in session are those deleted since it began. -/
structure MarksInvariant (past : List Exchange) (s : Session) : Prop where
  ready : s.Ready
  logged : s.clientState = .transaction → LoggedInBy past s
  marks : s.clientState = .transaction → ∀ md, s.maildir = some md → ∀ k m,
    md.messages[k]? = some m → (m.2.deleted = true ↔ k ∈ deletedSince past)

variable {past : List Exchange} {x : Exchange}

theorem MarksInvariant.marks_of_same (h : MarksInvariant past x.session)
    (hsession : x.step.session = x.session)
    (hresets : x.session.clientState = .transaction → x.resets = false)
    (hdeleted : x.deleted? = none) :
    x.step.session.clientState = .transaction → ∀ md, x.step.session.maildir = some md → ∀ k m,
      md.messages[k]? = some m → (m.2.deleted = true ↔ k ∈ deletedSince (past ++ [x])) := by
  rw [hsession]
  intro hstate md hmd k m hm
  rw [deletedSince_of_not_resets (hresets hstate), hdeleted, Option.toList_none, List.append_nil]
  exact h.marks hstate md hmd k m hm

theorem marks_modify {l : List Message} {j : Nat} {numbers : List Nat}
    (h : ∀ k m, l[k]? = some m → (m.2.deleted = true ↔ k ∈ numbers)) :
    ∀ k m, (l.modify j Message.mark)[k]? = some m →
      (m.2.deleted = true ↔ k ∈ numbers ++ [j]) := by
  intro k m hm
  rw [List.getElem?_modify, Option.map_eq_map, Option.map_eq_some_iff] at hm
  obtain ⟨m', hm', rfl⟩ := hm
  by_cases hj : j = k
  · subst hj; simp [Message.mark, FileList.mark]
  · have hk : ¬ k = j := fun e => hj e.symm
    simp [hj, hk, h k m' hm']

/-- After a login or an RSET nothing is marked. -/
theorem marks_of_resets (hresets : x.resets = true)
    (hunmarked : ∀ md, x.step.session.maildir = some md → ∀ m ∈ md.messages, m.2.deleted = false) :
    x.step.session.clientState = .transaction → ∀ md, x.step.session.maildir = some md → ∀ k m,
      md.messages[k]? = some m → (m.2.deleted = true ↔ k ∈ deletedSince (past ++ [x])) := by
  intro _ md hmd k m hm
  have hm' := hunmarked md hmd m (List.mem_of_getElem? hm)
  rw [deletedSince_of_resets hresets, hm']
  simp

/-- A DELE that is answered by success marks the message it names. -/
theorem MarksInvariant.marks_of_deleted (h : MarksInvariant past x.session) {md md' : Maildir}
    {number : Bytes} (hresets : x.resets = false)
    (hdeleted : x.deleted? = some (atoi number - 1).toNat)
    (hstate : x.session.clientState = .transaction) (hmd : x.session.maildir = some md)
    (htarget : deleteTarget md (atoi number) = some (some md'))
    (hmd' : x.step.session.maildir = some md') :
    x.step.session.clientState = .transaction → ∀ md, x.step.session.maildir = some md → ∀ k m,
      md.messages[k]? = some m → (m.2.deleted = true ↔ k ∈ deletedSince (past ++ [x])) := by
  rw [deletedSince_of_not_resets hresets, hdeleted]
  intro _ md₁ hmd₁ k m hm
  obtain rfl : md' = md₁ := Option.some.inj (hmd'.symm.trans hmd₁)
  rw [messages_of_deleteTarget htarget] at hm
  exact marks_modify (h.marks hstate md hmd) k m hm

theorem marks_step (h : MarksInvariant past x.session) (hnext : x.step.control = .next) :
    x.step.session.clientState = .transaction → ∀ md, x.step.session.maildir = some md → ∀ k m,
      md.messages[k]? = some m → (m.2.deleted = true ↔ k ∈ deletedSince (past ++ [x])) := by
  obtain ⟨st, hout, hstep⟩ := Exchange.outcome_of_dispatched (x := x) (by simp [hnext])
  have hsession : x.step.session = st.session := by rw [hstep]
  have hcontrol : st.control = .next := by rw [hstep] at hnext; exact hnext
  have hsends : x.step.sends = st.sends := by rw [hstep]; rfl
  have hdeleted_none := deleted?_eq_none (x := x)
  have hresets_false := resets_eq_false (x := x)
  generalize hcomm : getCommandValue x.command = comm at hout hdeleted_none hresets_false
  generalize harg : argument x.command = arg at hout
  cases hout with
  | refused hne hrset herr =>
    refine h.marks_of_same hsession (fun hstate => ?_)
      (hdeleted_none (.inr ⟨_, herr, by rw [hsends]; rfl⟩))
    exact hresets_false (fun hr => hrset hr hstate) (.inl hne.2.1)
  | told hcomm' _ _ _ =>
    refine h.marks_of_same hsession (fun _ => hresets_false ?_ (.inl ?_))
      (hdeleted_none (.inl ?_)) <;>
    rcases hcomm' with rfl | rfl | rfl | rfl | rfl <;> simp
  | userNotFound _ _ =>
    rw [hsession]; intro hstate; exact absurd hstate (userState_ne_transaction _)
  | userFound _ =>
    rw [hsession]; intro hstate; exact absurd hstate (userState_ne_transaction _)
  | passRefused herr _ =>
    exact h.marks_of_same hsession (fun hstate => hresets_false (by simp) (.inr hstate))
      (hdeleted_none (.inl (by simp)))
  | loggedIn hstate _ hload =>
    have hresets : x.resets = true := by simp [Exchange.resets, hcomm, hstate, hsession]
    apply marks_of_resets hresets
    rw [hsession]
    intro md hmd
    obtain rfl : _ = md := Option.some.inj hmd
    exact loadUserStructure_unmarked hload
  | noMailbox _ _ _ => cases hcontrol
  | unmarked hstate _ =>
    have hresets : x.resets = true := by simp [Exchange.resets, hcomm]
    apply marks_of_resets hresets
    rw [hsession]
    intro md hmd
    obtain rfl : _ = md := Option.some.inj hmd
    exact unmarkAll_unmarked _
  | retrieved _ _ _ _ =>
    exact h.marks_of_same hsession (fun _ => hresets_false (by simp) (.inl (by simp)))
      (hdeleted_none (.inl (by simp)))
  | marked hstate hmd htarget =>
    rename_i md md' number
    have hresets := hresets_false (by simp) (.inl (by simp))
    have hdeleted : x.deleted? = some (atoi number - 1).toNat := by
      rw [Exchange.deleted?, hcomm, harg, hsends]
      exact if_pos rfl
    exact h.marks_of_deleted hresets hdeleted hstate hmd htarget (congrArg Session.maildir hsession)
  | configured hcomm' _ _ _ _ _ =>
    refine h.marks_of_same hsession (fun _ => hresets_false ?_ (.inl ?_))
      (hdeleted_none (.inl ?_)) <;>
    rcases hcomm' with rfl | rfl | rfl | rfl | rfl <;> simp
  | logSent _ =>
    exact h.marks_of_same hsession (fun _ => hresets_false (by simp) (.inl (by simp)))
      (hdeleted_none (.inl (by simp)))
  | quitMailbox _ _ _ => cases hcontrol
  | quitPlain _ => cases hcontrol
  | dangling _ _ _ => cases hcontrol

theorem MarksInvariant.step (h : MarksInvariant past x.session) (hnext : x.step.control = .next) :
    MarksInvariant (past ++ [x]) x.step.session := by
  obtain ⟨st, hout, hstep⟩ := Exchange.outcome_of_dispatched (x := x) (by simp [hnext])
  have hcontrol : st.control = .next := by rw [hstep] at hnext; exact hnext
  refine ⟨?_, step_logged h.ready h.logged (by simp [hnext]) (by simp [hnext]),
    marks_step h hnext⟩
  rw [hstep]
  exact hout.ready h.ready hcontrol

/-! ### What an exchange removes -/

/-- QUIT in TRANSACTION removes the files of the messages deleted since the later of the last login
and the last RSET, and no other exchange removes anything. -/
structure DeletesMarked (baseDir : Bytes) (past : List Exchange) (x : Exchange) : Prop where
  quit : getCommandValue x.command = .quit → x.session.clientState = .transaction →
    ∃ u md, x.session.user = some u ∧ x.session.maildir = some md ∧
      LoggedInBy past x.session ∧
      x.step.removes = (md.messages.zipIdx.filter fun m => m.2 ∈ deletedSince past).map
        fun m => m.1.path baseDir u.name
  other : getCommandValue x.command ≠ .quit ∨ x.session.clientState ≠ .transaction →
    x.step.removes = []

theorem filter_eq_filter_zipIdx {α : Type} {l : List α} {p : α → Bool} {numbers : List Nat}
    (h : ∀ k a, l[k]? = some a → (p a = true ↔ k ∈ numbers)) :
    l.filter p = (l.zipIdx.filter fun a => a.2 ∈ numbers).map Prod.fst := by
  have hfst : l.zipIdx.map Prod.fst = l := List.zipIdx_map_fst 0 l
  conv => lhs; rw [← hfst]
  rw [List.filter_map]
  congr 1
  apply List.filter_congr
  intro a ha
  have hk := List.mk_mem_zipIdx_iff_getElem?.mp ha
  rw [Bool.eq_iff_iff, decide_eq_true_eq]
  exact h a.2 a.1 hk

theorem removes_eq_nil {effects : List Effect} (h : ∀ e ∈ effects, e.removed? = none) :
    effects.filterMap Effect.removed? = [] :=
  List.filterMap_eq_nil_iff.mpr h

theorem removes_map_remove (paths : List Bytes) :
    (paths.map Effect.remove).filterMap Effect.removed? = paths := by
  rw [List.filterMap_map]
  exact List.filterMap_some

theorem Outcome.removes_quit {env : Env} {sh : Shared} {s : Session} {comm : Pop3Command}
    {arg : Option Bytes} {st : Step} (h : Outcome env sh s comm arg st) (hs : s.Ready)
    (hquit : comm = .quit) (hstate : s.clientState = .transaction) :
    ∃ u md, s.user = some u ∧ s.maildir = some md ∧
      st.removes = deleteMarkedPaths sh.pop3.baseDir u.name md := by
  cases h with
  | quitMailbox _ hmd hu =>
    refine ⟨_, _, hu, hmd, ?_⟩
    rw [Step.removes, List.cons_append, List.filterMap_cons_none rfl, List.filterMap_append,
      removes_map_remove]
    exact List.append_nil _
  | quitPlain hplain => exact absurd hstate hplain
  | refused hne _ _ => exact absurd hquit hne.2.2.2
  | told hcomm _ _ _ => subst hquit; simp at hcomm
  | configured hcomm _ _ _ _ _ => subst hquit; simp at hcomm
  | dangling _ hnone _ =>
    rcases hnone with h | h
    · exact absurd h (hs.maildir hstate)
    · exact absurd h (hs.user hstate)
  | _ => cases hquit

theorem Outcome.removes_other {env : Env} {sh : Shared} {s : Session} {comm : Pop3Command}
    {arg : Option Bytes} {st : Step} (h : Outcome env sh s comm arg st)
    (hother : comm ≠ .quit ∨ s.clientState ≠ .transaction) : st.removes = [] := by
  cases h with
  | quitMailbox hstate _ _ =>
    rcases hother with hne | hne
    · exact absurd rfl hne
    · exact absurd hstate hne
  | told _ answers _ _ =>
    apply removes_eq_nil
    intro e he
    obtain ⟨a, -, rfl⟩ := List.mem_map.mp he
    rfl
  | configured _ _ _ _ _ closes =>
    apply removes_eq_nil
    intro e he
    rcases List.mem_cons.mp he with rfl | he
    · rfl
    · obtain ⟨a, -, rfl⟩ := List.mem_map.mp he
      rfl
  | dangling _ _ answers =>
    apply removes_eq_nil
    intro e he
    obtain ⟨a, -, rfl⟩ := List.mem_map.mp he
    rfl
  | _ => rfl

theorem MarksInvariant.deletesMarked (h : MarksInvariant past x.session)
    (hfit : x.command.length ≤ 2 * BUFFER_SIZE) :
    DeletesMarked x.shared.pop3.baseDir past x := by
  by_cases h4 : 4 ≤ x.command.length
  · obtain ⟨st, hout, hstep⟩ := Exchange.outcome h4 hfit
    have hremoves : x.step.removes = st.removes := by rw [hstep]; rfl
    constructor
    · intro hquit hstate
      obtain ⟨u, md, hu, hmd, hr⟩ := hout.removes_quit h.ready hquit hstate
      refine ⟨u, md, hu, hmd, h.logged hstate, ?_⟩
      rw [hremoves, hr, deleteMarkedPaths_eq, filter_eq_filter_zipIdx (h.marks hstate md hmd),
        List.map_map]
      rfl
    · intro hother
      exact hremoves.trans (hout.removes_other hother)
  · -- a line that is too short is no QUIT and only goes to the log
    have hshort := @dispatch_of_short x.command (by omega) x.env x.shared x.session
    constructor
    · intro hquit
      exact absurd (length_of_keyword (by simp [hquit])) h4
    · intro _
      exact congrArg Step.removes hshort

/-- Whatever line a call runs, it removes files only as a QUIT in TRANSACTION. -/
theorem removes_only_quit (x : Exchange) (h : x.step.removes ≠ []) :
    getCommandValue x.command = .quit ∧ x.session.clientState = .transaction := by
  by_contra hno
  apply h
  by_cases h4 : 4 ≤ x.command.length
  · by_cases hfit : x.command.length ≤ 2 * BUFFER_SIZE
    · obtain ⟨st, hout, hstep⟩ := Exchange.outcome h4 hfit
      have hremoves : x.step.removes = st.removes := by rw [hstep]; rfl
      exact hremoves.trans (hout.removes_other (by
        by_cases hq : getCommandValue x.command = .quit
        · exact .inr fun hstate => hno ⟨hq, hstate⟩
        · exact .inl hq))
    · exact congrArg Step.removes (Exchange.step_of_huge hfit)
  · exact congrArg Step.removes (Exchange.step_of_short h4)

theorem MarksInvariant.begin (fd : Int) (isManager : Bool) (ip : Bytes)
    (maildir : Option Maildir) : MarksInvariant [] (newSession fd isManager ip maildir) := by
  have hstate : (newSession fd isManager ip maildir).clientState ≠ .transaction := by
    cases isManager <;> simp [newSession]
  exact ⟨⟨fun h => absurd h hstate, fun h => absurd h hstate⟩, fun h => absurd h hstate,
    fun h => absurd h hstate⟩

/-- The marks of a session that begins with `add_client`, before each of its lines. -/
theorem marks_along {turns : List Turn} {fd : Int} {isManager : Bool} {ip : Bytes}
    {maildir : Option Maildir} {pre : List Exchange} {x : Exchange} {post : List Exchange}
    (h : sessionExchanges (newSession fd isManager ip maildir) turns = pre ++ x :: post) :
    MarksInvariant pre x.session ∧ ∃ t ∈ turns, x = t.exchange x.session := by
  exact sessionExchanges_history (R := MarksInvariant)
    (fun past s t _ hinv hnext => MarksInvariant.step (x := t.exchange s) hinv hnext)
    (.begin fd isManager ip maildir) h

end Pop3Server
