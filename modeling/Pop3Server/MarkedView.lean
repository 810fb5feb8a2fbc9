import Pop3Server.Deletion
import Pop3Server.Responses

/-!
# What a session sees of the messages it has deleted

STAT, LIST, RETR and DELE go through the lists of the mailbox without a look at
the deleted flags.  `ViewsRemaining` is what POP3 asks of them, for the messages the
session has deleted since its login or its last RSET; `marked_view_iff` says
which lines meet it all the same.
-/

namespace Pop3Server

/-! ### The mailbox without the marked messages -/

/-- The messages that are not marked, each with its index. -/
def remaining (marked : List Nat) (md : Maildir) : List (Message × Nat) :=
  md.messages.zipIdx.filter fun m => m.2 ∉ marked

def statLine (count : Nat) (bytes : Int) : Bytes :=
  str "+OK " ++ formatNat count ++ str " messages (" ++ formatInt bytes ++ str " octets)\r\n"

def remainingStat (marked : List Nat) (md : Maildir) : Bytes :=
  statLine (remaining marked md).length (sumSizes 0 ((remaining marked md).map (·.1.2)))

def remainingList (marked : List Nat) (md : Maildir) : List Bytes :=
  remainingStat marked md :: (remaining marked md).map (fun m => scanLine (m.2 + 1 : Nat) m.1.2) ++
    [str ".\r\n"]

def MarkedNumber (marked : List Nat) (md : Maildir) (n : Int) : Prop :=
  ∃ k < md.messages.length, k ∈ marked ∧ n = (k + 1 : Nat)

instance (marked : List Nat) (md : Maildir) (n : Int) : Decidable (MarkedNumber marked md n) :=
  inferInstanceAs (Decidable (∃ k < md.messages.length, _))

/-- The arguments with which LIST writes the whole list. -/
def ListsAll (arg : Option Bytes) : Prop := ∀ number ∈ arg, atoi number = -1

instance (arg : Option Bytes) : Decidable (ListsAll arg) :=
  inferInstanceAs (Decidable (∀ number ∈ arg, _))

/-- STAT and the whole LIST leave the marked messages out, and the other commands refuse them. -/
structure ViewsRemaining (marked : List Nat) (md : Maildir) (x : Exchange) : Prop where
  stat : getCommandValue x.command = .stat → x.step.sends = [remainingStat marked md]
  list : getCommandValue x.command = .list → ListsAll (argument x.command) →
    x.step.sends = remainingList marked md
  number : getCommandValue x.command ∈ [.list, .retr, .dele] →
    ∀ number ∈ argument x.command, MarkedNumber marked md (atoi number) → x.Refused

/-- The line asks for nothing that depends on a marked message, and fits the buffer of
`handle_client` where it is to be answered. -/
structure AvoidsMarked (marked : List Nat) (md : Maildir) (x : Exchange) : Prop where
  whole : getCommandValue x.command = .stat ∨
      getCommandValue x.command = .list ∧ ListsAll (argument x.command) →
    x.command.length ≤ 2 * BUFFER_SIZE ∧ ∀ k < md.messages.length, k ∉ marked
  number : getCommandValue x.command ∈ [.list, .dele] →
    ∀ number ∈ argument x.command, ¬ MarkedNumber marked md (atoi number)
  retr : getCommandValue x.command = .retr →
    ∀ number ∈ argument x.command, MarkedNumber marked md (atoi number) →
      x.command.length ≤ 2 * BUFFER_SIZE ∧
        md.new.size < atoi number ∧ md.cur.size < atoi number ∧ md.tmp.size < atoi number

theorem sumSizes_append (total : Int) (l r : List FileList) :
    sumSizes total (l ++ r) = sumSizes (sumSizes total l) r :=
  List.foldl_append

theorem statHandeler_eq (md : Maildir) :
    statHandeler md = statLine md.messages.length (sumSizes 0 (md.messages.map Prod.snd)) := by
  have hsnd : md.messages.map Prod.snd = md.new.list ++ md.cur.list ++ md.tmp.list := by
    simp [Maildir.messages, Function.comp_def]
  rw [hsnd, sumSizes_append, sumSizes_append, md.length_messages]
  rfl

/-- The number of messages can be read off the line. -/
theorem count_of_statLine {count count' : Nat} {bytes bytes' : Int}
    (h : statLine count bytes = statLine count' bytes') : count = count' := by
  have hspace : str " messages (" = 32 :: str "messages (" := by decide
  unfold statLine at h
  rw [hspace] at h
  simp only [List.append_assoc, List.cons_append] at h
  exact formatNat_inj (by decide) (List.append_cancel_left h)

theorem listDirectory_eq_map (index : Nat) (l : List FileList) :
    listDirectory (index + 1) l = (l.zipIdx index).map fun f => scanLine (f.2 + 1 : Nat) f.1 := by
  induction l generalizing index with
  | nil => rfl
  | cons f l ih =>
    rw [listDirectory, ih, List.zipIdx_cons, List.map_cons]

theorem remaining_eq_of_unmarked {marked : List Nat} {md : Maildir}
    (h : ∀ k < md.messages.length, k ∉ marked) : remaining marked md = md.messages.zipIdx := by
  apply List.filter_eq_self.mpr
  intro m hm
  have hlt := (List.mem_zipIdx hm).2.1
  exact decide_eq_true (h m.2 (by simpa using hlt))

theorem remainingStat_eq_iff (marked : List Nat) (md : Maildir) :
    statHandeler md = remainingStat marked md ↔ ∀ k < md.messages.length, k ∉ marked := by
  rw [statHandeler_eq]
  constructor
  · intro h k hk
    have hlength : (remaining marked md).length = md.messages.zipIdx.length := by
      rw [List.length_zipIdx]
      exact (count_of_statLine h).symm
    have hall := List.length_filter_eq_length_iff.mp hlength
    have hmem : (md.messages[k], k) ∈ md.messages.zipIdx := by
      apply List.mk_mem_zipIdx_iff_getElem?.mpr
      exact List.getElem?_eq_getElem hk
    exact of_decide_eq_true (hall _ hmem)
  · intro h
    have hsizes : md.messages.zipIdx.map (·.1.2) = md.messages.map Prod.snd := by
      conv => rhs; rw [← List.zipIdx_map_fst 0 md.messages, List.map_map]
      rfl
    rw [remainingStat, remaining_eq_of_unmarked h, List.length_zipIdx, hsizes]

theorem remainingList_eq_iff (marked : List Nat) (md : Maildir) :
    (listMessages md (-1)).1 = remainingList marked md ↔ ∀ k < md.messages.length, k ∉ marked := by
  constructor
  · intro h
    rw [listMessages_all] at h
    exact (remainingStat_eq_iff marked md).mp (List.cons.inj h).1
  · intro h
    have hlines : listDirectory 1 (md.messages.map Prod.snd) =
        md.messages.zipIdx.map fun m => scanLine (m.2 + 1 : Nat) m.1.2 := by
      rw [listDirectory_eq_map, List.zipIdx_map, List.map_map]
      rfl
    rw [listMessages_all, hlines, (remainingStat_eq_iff marked md).mpr h, remainingList,
      remaining_eq_of_unmarked h]

/-! ### The lines of a logged-in session -/

section Lines

variable {x : Exchange} {md : Maildir}

/-- What the switch makes of a line that is long enough for its command. -/
def Exchange.executed (x : Exchange) : Step :=
  execute x.env x.shared x.session (getCommandValue x.command) (argument x.command)
    (cstr (x.command.drop 5))

theorem Exchange.step_eq_executed (hfit : x.command.length ≤ 2 * BUFFER_SIZE)
    (hcomm : getCommandValue x.command ≠ .errorCommand) :
    x.step = { x.executed with
      effects := commandLog x.env x.session x.command :: x.executed.effects } :=
  dispatch_of_long (length_of_keyword hcomm) hfit x.env x.shared x.session

theorem Exchange.sends_eq_executed (hfit : x.command.length ≤ 2 * BUFFER_SIZE)
    (hcomm : getCommandValue x.command ≠ .errorCommand) :
    x.step.sends = x.executed.sends := by
  rw [Exchange.step_eq_executed hfit hcomm]
  rfl

/-- A line is refused when all that is executed is the sending of an error. -/
theorem Exchange.refused_iff (hfit : x.command.length ≤ 2 * BUFFER_SIZE)
    (hcomm : getCommandValue x.command ≠ .errorCommand) :
    x.Refused ↔ ∃ response, IsErr response ∧ x.executed = reply x.shared x.session response := by
  unfold Exchange.Refused
  rw [Exchange.step_eq_executed hfit hcomm]
  refine exists_congr fun response => and_congr_right fun _ => ?_
  constructor
  · intro h
    obtain ⟨hsession, hshared, heffects, hcontrol⟩ := Step.mk.inj h
    rw [reply, ← hsession, ← hshared, ← hcontrol, ← (List.cons.inj heffects).2]
  · intro h
    rw [h]
    rfl

theorem executed_stat (hstate : x.session.clientState = .transaction)
    (hmd : x.session.maildir = some md) (hcomm : getCommandValue x.command = .stat) :
    x.executed.sends = [statHandeler md] := by
  rw [Exchange.executed, hcomm, execute, statCommand, loggedIn, if_neg (not_not_intro hstate),
    mailbox, hmd]
  rfl

theorem listNumber_eq (hmd : x.session.maildir = some md) (n : Int) :
    listNumber x.shared x.session n = listReply x.shared x.session md n := by
  rw [listNumber, mailbox, hmd]

theorem sends_listReply (sh : Shared) (s : Session) (md : Maildir) (n : Int) :
    (listReply sh s md n).sends = (listMessages md n).1 := by
  rw [Step.sends, listReply, List.filterMap_map]
  exact List.filterMap_some

theorem executed_list_all (hstate : x.session.clientState = .transaction)
    (hmd : x.session.maildir = some md) (hcomm : getCommandValue x.command = .list)
    (hall : ListsAll (argument x.command)) :
    x.executed.sends = (listMessages md (-1)).1 := by
  have hlist : x.executed = listReply x.shared x.session md (-1) := by
    rw [Exchange.executed, hcomm, execute, listCommand]
    cases harg : argument x.command with
    | none =>
      unfold numberCommand loggedIn
      rw [if_neg (not_not_intro hstate)]
      exact listNumber_eq hmd _
    | some number =>
      have hminus : atoi number = -1 := hall number harg
      rw [numberCommand_of_number hstate _ _ (by omega), hminus]
      exact listNumber_eq hmd _
  rw [hlist]
  exact sends_listReply _ _ _ _

theorem MarkedNumber.pos {marked : List Nat} {n : Int} (h : MarkedNumber marked md n) : 1 ≤ n := by
  obtain ⟨k, -, -, rfl⟩ := h
  omega

/-- LIST and DELE answer a number of the mailbox, marked or not. -/
theorem not_refused_of_list (hfit : x.command.length ≤ 2 * BUFFER_SIZE)
    (hstate : x.session.clientState = .transaction) (hmd : x.session.maildir = some md)
    (hcomm : getCommandValue x.command = .list) {number : Bytes}
    (harg : argument x.command = some number) (hpos : 1 ≤ atoi number) : ¬ x.Refused := by
  rw [Exchange.refused_iff hfit (by simp [hcomm])]
  rintro ⟨response, herr, hreply⟩
  rw [Exchange.executed, hcomm, harg, execute, listCommand,
    numberCommand_of_number hstate _ _ (by omega), listNumber_eq hmd] at hreply
  apply listReply_not_response x.shared x.session md (n := atoi number) (by omega)
  rw [hreply]
  exact .line (.inr herr)

theorem not_refused_of_dele (hfit : x.command.length ≤ 2 * BUFFER_SIZE)
    (hstate : x.session.clientState = .transaction) (hmd : x.session.maildir = some md)
    (hcomm : getCommandValue x.command = .dele) {number : Bytes}
    (harg : argument x.command = some number) (hpos : 1 ≤ atoi number)
    (hle : atoi number ≤ md.messages.length) : ¬ x.Refused := by
  rw [Exchange.refused_iff hfit (by simp [hcomm])]
  rintro ⟨response, herr, hreply⟩
  obtain ⟨md', hmd', -⟩ := deleteTarget_messages hpos hle
  rw [Exchange.executed, hcomm, harg, execute, deleCommand,
    numberCommand_of_number hstate _ _ (by omega), deleteNumber, mailbox, hmd] at hreply
  have hsends := congrArg Step.sends hreply
  simp only [deleteMessage, hmd'] at hsends
  obtain rfl : deletedReply (atoi number) = response := (List.cons.inj hsends).1
  exact not_isErr_ok _ herr

/-- RETR refuses a number that it finds in none of the folders. -/
theorem refused_retr_iff (hfit : x.command.length ≤ 2 * BUFFER_SIZE)
    (hstate : x.session.clientState = .transaction) (hmd : x.session.maildir = some md)
    (hcomm : getCommandValue x.command = .retr) {number : Bytes}
    (harg : argument x.command = some number) (hpos : 1 ≤ atoi number) :
    x.Refused ↔ md.new.size < atoi number ∧ md.cur.size < atoi number ∧
      md.tmp.size < atoi number := by
  obtain ⟨n, hn⟩ := Int.eq_ofNat_of_zero_le (Int.le_trans (by decide) hpos)
  have hone : 1 ≤ n := by omega
  have hview : x.executed = viewMessage x.shared x.session md n := by
    rw [Exchange.executed, hcomm, harg, execute, retrCommand,
      numberCommand_of_number hstate _ _ (by omega), viewNumber, mailbox, hmd, hn]
  rw [Exchange.refused_iff hfit (by simp [hcomm]), hview, hn, ← viewTarget_eq_none_iff md hone]
  constructor
  · rintro ⟨response, herr, hreply⟩
    rcases viewTarget_cases md n with hnone | ⟨d, f, rest, hfound⟩
    · exact hnone
    · have hsends := congrArg Step.sends hreply
      simp only [viewMessage, hfound] at hsends
      have hok : str "+OK " ++ formatInt f.size ++ str " octets\r\n" = response := by
        split at hsends <;> exact (List.cons.inj hsends).1
      subst hok
      exact absurd herr (not_isErr_ok (str " " ++ formatInt f.size ++ str " octets\r\n"))
  · intro hnone
    refine ⟨_, ?_, by rw [viewMessage, hnone]⟩
    decide

theorem AvoidsMarked.unmarked {marked : List Nat} (h : AvoidsMarked marked md x)
    (hcomm : getCommandValue x.command ∈ [.list, .retr, .dele])
    (hretr : getCommandValue x.command ≠ .retr) :
    ∀ number ∈ argument x.command, ¬ MarkedNumber marked md (atoi number) := by
  apply h.number
  simp only [List.mem_cons, List.not_mem_nil, or_false] at hcomm ⊢
  exact hcomm.imp_right fun hcomm => hcomm.resolve_left hretr

/-- A line that does not fit ends the process without a reply. -/
theorem viewsRemaining_iff_of_huge (hhuge : ¬ x.command.length ≤ 2 * BUFFER_SIZE)
    (marked : List Nat) : ViewsRemaining marked md x ↔ AvoidsMarked marked md x := by
  have hstep := Exchange.step_of_huge hhuge
  have hsends : x.step.sends = [] := by rw [hstep]; rfl
  have hrefused : ¬ x.Refused := by
    rintro ⟨response, -, hreply⟩
    cases hstep.symm.trans hreply
  constructor
  · intro h
    constructor
    · rintro (hcomm | ⟨hcomm, hall⟩)
      · cases hsends.symm.trans (h.stat hcomm)
      · cases hsends.symm.trans (h.list hcomm hall)
    · intro hcomm number harg hmarked
      refine hrefused (h.number ?_ number harg hmarked)
      rcases List.mem_pair.mp hcomm with hcomm | hcomm <;> simp [hcomm]
    · intro hcomm number harg hmarked
      exact absurd (h.number (by simp [hcomm]) number harg hmarked) hrefused
  · intro h
    constructor
    · intro hcomm
      exact absurd (h.whole (.inl hcomm)).1 hhuge
    · intro hcomm hall
      exact absurd (h.whole (.inr ⟨hcomm, hall⟩)).1 hhuge
    · intro hcomm number harg hmarked
      by_cases hretr : getCommandValue x.command = .retr
      · exact absurd (h.retr hretr number harg hmarked).1 hhuge
      · exact absurd hmarked (h.unmarked hcomm hretr number harg)

/-- **A line meets what POP3 asks exactly when nothing in its answer depends on a marked message.** -/
theorem viewsRemaining_iff (hstate : x.session.clientState = .transaction)
    (hmd : x.session.maildir = some md) (marked : List Nat) :
    ViewsRemaining marked md x ↔ AvoidsMarked marked md x := by
  by_cases hfit : x.command.length ≤ 2 * BUFFER_SIZE
  case neg => exact viewsRemaining_iff_of_huge hfit marked
  have hstat : getCommandValue x.command = .stat → x.step.sends = [statHandeler md] := by
    intro hcomm
    rw [Exchange.sends_eq_executed hfit (by simp [hcomm])]
    exact executed_stat hstate hmd hcomm
  have hlist : getCommandValue x.command = .list → ListsAll (argument x.command) →
      x.step.sends = (listMessages md (-1)).1 := by
    intro hcomm hall
    rw [Exchange.sends_eq_executed hfit (by simp [hcomm])]
    exact executed_list_all hstate hmd hcomm hall
  constructor
  · intro h
    constructor
    · rintro (hcomm | ⟨hcomm, hall⟩)
      · refine ⟨hfit, (remainingStat_eq_iff marked md).mp ?_⟩
        exact (List.cons.inj ((hstat hcomm).symm.trans (h.stat hcomm))).1
      · refine ⟨hfit, (remainingList_eq_iff marked md).mp ?_⟩
        exact (hlist hcomm hall).symm.trans (h.list hcomm hall)
    · intro hcomm number harg hmarked
      have hpos := hmarked.pos
      have hle : atoi number ≤ md.messages.length := by
        obtain ⟨k, hk, -, hn⟩ := hmarked
        omega
      rcases List.mem_cons.mp hcomm with hcomm | hcomm
      · apply not_refused_of_list hfit hstate hmd hcomm harg hpos
        exact h.number (by simp [hcomm]) number harg hmarked
      · have hcomm := List.mem_singleton.mp hcomm
        apply not_refused_of_dele hfit hstate hmd hcomm harg hpos hle
        exact h.number (by simp [hcomm]) number harg hmarked
    · intro hcomm number harg hmarked
      refine ⟨hfit, (refused_retr_iff hfit hstate hmd hcomm harg hmarked.pos).mp ?_⟩
      exact h.number (by simp [hcomm]) number harg hmarked
  · intro h
    constructor
    · intro hcomm
      rw [hstat hcomm, (remainingStat_eq_iff marked md).mpr (h.whole (.inl hcomm)).2]
    · intro hcomm hall
      rw [hlist hcomm hall]
      exact (remainingList_eq_iff marked md).mpr (h.whole (.inr ⟨hcomm, hall⟩)).2
    · intro hcomm number harg hmarked
      by_cases hretr : getCommandValue x.command = .retr
      · apply (refused_retr_iff hfit hstate hmd hretr harg hmarked.pos).mpr
        exact (h.retr hretr number harg hmarked).2
      · exact absurd hmarked (h.unmarked hcomm hretr number harg)

end Lines

/-! ### Runs -/

/-- What POP3 asks of the line, for the messages deleted so far. -/
def ViewsUndeleted (past : List Exchange) (x : Exchange) : Prop :=
  x.session.clientState = .transaction →
    ∀ md ∈ x.session.maildir, ViewsRemaining (deletedSince past) md x

def AvoidsDeleted (past : List Exchange) (x : Exchange) : Prop :=
  x.session.clientState = .transaction →
    ∀ md ∈ x.session.maildir, AvoidsMarked (deletedSince past) md x

instance (marked : List Nat) (md : Maildir) (x : Exchange) :
    Decidable (AvoidsMarked marked md x) :=
  decidable_of_iff
    ((getCommandValue x.command = .stat ∨
        getCommandValue x.command = .list ∧ ListsAll (argument x.command) →
      x.command.length ≤ 2 * BUFFER_SIZE ∧ ∀ k < md.messages.length, k ∉ marked) ∧
    (getCommandValue x.command ∈ [.list, .dele] →
      ∀ number ∈ argument x.command, ¬ MarkedNumber marked md (atoi number)) ∧
    (getCommandValue x.command = .retr →
      ∀ number ∈ argument x.command, MarkedNumber marked md (atoi number) →
        x.command.length ≤ 2 * BUFFER_SIZE ∧
          md.new.size < atoi number ∧ md.cur.size < atoi number ∧ md.tmp.size < atoi number))
    ⟨fun h => ⟨h.1, h.2.1, h.2.2⟩, fun h => ⟨h.whole, h.number, h.retr⟩⟩

instance (past : List Exchange) (x : Exchange) : Decidable (AvoidsDeleted past x) :=
  inferInstanceAs (Decidable (_ → ∀ md ∈ x.session.maildir, _))

/-- **Over every run of a session its view is the one POP3 asks for exactly when it asks for
nothing that depends on a message deleted since the last login and the last RSET.** -/
theorem marked_view_iff (turns : List Turn) (fd : Int) (isManager : Bool) (ip : Bytes)
    (maildir : Option Maildir) :
    Machine.Along (sessionExchanges (newSession fd isManager ip maildir) turns) ViewsUndeleted ↔
      Machine.Along (sessionExchanges (newSession fd isManager ip maildir) turns)
        AvoidsDeleted := by
  refine forall_congr' fun pre => forall_congr' fun x => forall_congr' fun post =>
    forall_congr' fun _ => forall_congr' fun hstate => forall_congr' fun md =>
      forall_congr' fun hmd => ?_
  exact viewsRemaining_iff hstate hmd _

/-- The second message is deleted, the first one listed and sent, and RSET brings both back. -/
theorem marked_view_rset :
    Machine.Along (sessionExchanges (newSession 5 false (str "::1") none)
      ([str "USER anna", str "PASS secret", str "DELE 2", str "LIST 1", str "RETR 1", str "RSET",
        str "LIST"].map (Turn.mk sampleEnv sampleShared))) ViewsUndeleted :=
  (marked_view_iff _ 5 false (str "::1") none).mpr (by decide +kernel)

def deletedExchanges : List Exchange :=
  sessionExchanges (newSession 5 false (str "::1") none)
    ([str "USER anna", str "PASS secret", str "DELE 1", str "STAT"].map
      (Turn.mk sampleEnv sampleShared))

/-- STAT counts a deleted message. -/
theorem marked_view_stat :
    ¬ ∀ (turns : List Turn) (fd : Int) (ip : Bytes),
      Machine.Along (sessionExchanges (newSession fd false ip none) turns) ViewsUndeleted := by
  intro h
  have halong : Machine.Along deletedExchanges ViewsUndeleted :=
    h _ 5 (str "::1")
  have hready : ∀ x ∈ deletedExchanges.getLast?, x.session.clientState = .transaction ∧
      getCommandValue x.command = .stat := by decide +kernel
  have hstat : ∀ x ∈ deletedExchanges.getLast?, ∀ md ∈ x.session.maildir,
      x.step.sends = [remainingStat (deletedSince deletedExchanges.dropLast) md] := by
    intro x hx md hmd
    obtain ⟨hstate, hcomm⟩ := hready x hx
    exact (Machine.along_getLast halong x hx hstate md hmd).stat hcomm
  revert hstat
  decide +kernel

end Pop3Server
