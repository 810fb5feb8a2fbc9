import Pop3Server.Login

/-!
# DELE marks one message

`deletedFrom` is the mailbox a DELE leaves, whatever its number: the flags are
all it can change, so that repeating or reordering DELEs is a matter of lists.
-/

namespace Pop3Server

/-- The mailbox after a DELE. -/
def deletedFrom (md : Maildir) (n : Int) : Maildir :=
  match deleteTarget md n with
  | some (some md') => md'
  | _ => md

/-- DELE sets the flag of the message with its number and nothing else, or is refused. -/
structure MarksExactly (sh : Shared) (s : Session) (md : Maildir) (n : Int) : Prop where
  inRange : 1 ≤ n → n ≤ md.messages.length → ∃ md',
    deleteTarget md n = some (some md') ∧
      md'.messages = md.messages.modify (n - 1).toNat Message.mark ∧
      (∀ d, (md'.folder d).size = (md.folder d).size) ∧
      deleteNumber sh s n = reply sh { s with maildir := some md' } (deletedReply n)
  outOfRange : n < 1 ∨ md.messages.length < n →
    ∃ response, IsErr response ∧ deleteNumber sh s n = reply sh s response
  idempotent : deleteNumber sh (deleteNumber sh s n).session n = deleteNumber sh s n
  commutes : ∀ k, (deleteNumber sh (deleteNumber sh s n).session k).session =
    (deleteNumber sh (deleteNumber sh s k).session n).session

/-! ### Flags of a list -/

theorem modify_comm {α : Type} (f : α → α) (l : List α) (i j : Nat) :
    (l.modify i f).modify j f = (l.modify j f).modify i f := by
  apply List.ext_getElem?
  intro k
  simp only [List.getElem?_modify]
  cases l[k]? with
  | none => rfl
  | some a => by_cases hi : i = k <;> by_cases hj : j = k <;> simp [hi, hj]

theorem Message.mark_comp_mark : Message.mark ∘ Message.mark = Message.mark := rfl

/-! ### The mailbox after DELE -/

section Mailbox

variable {md : Maildir} {n : Int}

theorem deletedFrom_of_outside (h : n < 1 ∨ md.messages.length < n) : deletedFrom md n = md := by
  rw [deletedFrom, deleteTarget_eq_none h]

theorem deletedFrom_eq {md' : Maildir} (h : deleteTarget md n = some (some md')) :
    deletedFrom md n = md' := by
  rw [deletedFrom, h]

theorem deletedFrom_messages (h1 : 1 ≤ n) (hn : n ≤ md.messages.length) :
    (deletedFrom md n).messages = md.messages.modify (n - 1).toNat Message.mark := by
  obtain ⟨md', htarget, hmessages⟩ := deleteTarget_messages h1 hn
  rw [deletedFrom_eq htarget, hmessages]

theorem length_deletedFrom (md : Maildir) (n : Int) :
    (deletedFrom md n).messages.length = md.messages.length := by
  by_cases h : n < 1 ∨ md.messages.length < n
  · rw [deletedFrom_of_outside h]
  · rw [deletedFrom_messages (by omega) (by omega), List.length_modify]

/-- Marking keeps every message in its folder, so the folders keep their sizes. -/
theorem folder_size_of_fst {md md' : Maildir}
    (h : md'.messages.map Prod.fst = md.messages.map Prod.fst) (d : Directory) :
    (md'.folder d).size = (md.folder d).size := by
  have hcount : ∀ md : Maildir, (md.folder d).size = (md.messages.map Prod.fst).countP (· = d) := by
    intro md
    rw [(md.folder d).size_eq, md.folder_list, List.length_map, List.countP_map,
      List.countP_eq_length_filter]
    rfl
  rw [hcount, hcount, h]

theorem deleteTarget_size {md' : Maildir} (h : deleteTarget md n = some (some md'))
    (d : Directory) : (md'.folder d).size = (md.folder d).size := by
  apply folder_size_of_fst
  have hfst : ∀ m : Message, m.mark.1 = id m.1 := fun m => rfl
  rw [messages_of_deleteTarget h, map_modify hfst, List.modify_id]

theorem deletedFrom_idem (md : Maildir) (n : Int) :
    deletedFrom (deletedFrom md n) n = deletedFrom md n := by
  have hlength := length_deletedFrom md n
  by_cases h : n < 1 ∨ md.messages.length < n
  · rw [@deletedFrom_of_outside (deletedFrom md n) _ (by rwa [hlength])]
  · refine Maildir.ext_messages ?_
    rw [deletedFrom_messages (by omega) (by omega), deletedFrom_messages (by omega) (by omega),
      List.modify_modify_eq, Message.mark_comp_mark]

theorem deletedFrom_comm (md : Maildir) (n k : Int) :
    deletedFrom (deletedFrom md n) k = deletedFrom (deletedFrom md k) n := by
  have hn := length_deletedFrom md n
  have hk := length_deletedFrom md k
  by_cases hnout : n < 1 ∨ md.messages.length < n
  · rw [deletedFrom_of_outside hnout, @deletedFrom_of_outside (deletedFrom md k) _ (by rwa [hk])]
  by_cases hkout : k < 1 ∨ md.messages.length < k
  · rw [deletedFrom_of_outside hkout, @deletedFrom_of_outside (deletedFrom md n) _ (by rwa [hn])]
  refine Maildir.ext_messages ?_
  rw [deletedFrom_messages (by omega) (by omega), deletedFrom_messages (by omega) (by omega),
    deletedFrom_messages (by omega) (by omega), deletedFrom_messages (by omega) (by omega),
    modify_comm]

end Mailbox

/-! ### DELE -/

section Dele

variable {sh : Shared} {s : Session} {md : Maildir} (hmd : s.maildir = some md) (n : Int)
include hmd

theorem deleteNumber_eq : deleteNumber sh s n = deleteMessage sh s md n := by
  rw [deleteNumber, mailbox, hmd]

theorem deleteNumber_of_outside (h : n < 1 ∨ md.messages.length < n) :
    ∃ response, IsErr response ∧ deleteNumber sh s n = reply sh s response := by
  rw [deleteNumber_eq hmd, deleteMessage, deleteTarget_eq_none h]
  simp only
  split
  · exact ⟨_, by decide, rfl⟩
  · exact ⟨_, by decide, rfl⟩

theorem deleteNumber_of_target {md' : Maildir} (h : deleteTarget md n = some (some md')) :
    deleteNumber sh s n = reply sh { s with maildir := some md' } (deletedReply n) := by
  rw [deleteNumber_eq hmd, deleteMessage, h]
  rfl

theorem deleteNumber_session :
    (deleteNumber sh s n).session = { s with maildir := some (deletedFrom md n) } := by
  by_cases h : n < 1 ∨ md.messages.length < n
  · obtain ⟨response, -, heq⟩ := @deleteNumber_of_outside sh _ _ hmd n h
    rw [heq, deletedFrom_of_outside h, ← hmd]
    rfl
  · obtain ⟨md', htarget, -⟩ := @deleteTarget_messages md n (by omega) (by omega)
    rw [deleteNumber_of_target hmd n htarget, deletedFrom_eq htarget]
    rfl

end Dele

/-- **DELE marks exactly the message with its number.** -/
theorem deleteNumber_marks (sh : Shared) {s : Session} {md : Maildir} (hmd : s.maildir = some md)
    (n : Int) : MarksExactly sh s md n := by
  refine ⟨fun h1 hn => ?_, deleteNumber_of_outside hmd n, ?_, fun k => ?_⟩
  · obtain ⟨md', htarget, hmessages⟩ := deleteTarget_messages h1 hn
    exact ⟨md', htarget, hmessages, deleteTarget_size htarget, deleteNumber_of_target hmd n htarget⟩
  · by_cases h : n < 1 ∨ md.messages.length < n
    · obtain ⟨response, -, heq⟩ := @deleteNumber_of_outside sh _ _ hmd n h
      rw [heq]
      exact heq
    · have hafter := length_deletedFrom md n
      obtain ⟨md', htarget, -⟩ := @deleteTarget_messages md n (by omega) (by omega)
      obtain ⟨md'', htwice, -⟩ :=
        @deleteTarget_messages (deletedFrom md n) n (by omega) (by omega)
      have hsame : md'' = md' := by
        rw [← deletedFrom_eq htwice, deletedFrom_idem, deletedFrom_eq htarget]
      rw [deleteNumber_session hmd, deleteNumber_of_target rfl n htwice,
        deleteNumber_of_target hmd n htarget, hsame]
  · rw [deleteNumber_session hmd, deleteNumber_session hmd, deleteNumber_session rfl,
      deleteNumber_session rfl, deletedFrom_comm]

/-- The second of two messages in `cur`, with one in `new`. -/
theorem deleteNumber_marks_third :
    MarksExactly sampleShared
      { sampleLoggedIn with maildir := some ⟨.ofList [⟨str "b", 6, false⟩, ⟨str "c", 7, false⟩],
          .ofList [⟨str "a", 5, false⟩], .ofList []⟩ }
      ⟨.ofList [⟨str "b", 6, false⟩, ⟨str "c", 7, false⟩], .ofList [⟨str "a", 5, false⟩],
        .ofList []⟩ 3 :=
  deleteNumber_marks sampleShared rfl 3

end Pop3Server
