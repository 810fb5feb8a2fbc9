import Pop3Server.IntSums
import Pop3Server.MarkedView

/-!
# The arguments of LIST, RETR and DELE

The argument goes through `atoi`, which takes spaces, a sign and whatever follows
the digits, saturates, and is truncated to an `int`; then each command checks the
number in its own way.  `Exchange.Reads` asks that only the numeral of a message
reaches that message and that every other argument is refused, and
`number_read_iff` gives the arguments for which it is so.
-/

namespace Pop3Server

/-- What the commands do about the message `m` with the number `k`, having read `n`. -/
inductive ActsOn (sh : Shared) (s : Session) (u : User) (md : Maildir) (n : Int) (k : Nat)
    (m : Message) : Pop3Command → Step → Prop
  | listed : ActsOn sh s u md n k m .list ⟨s, sh, [.send (scanLine k m.2)], .next⟩
  | retrieved (hnode : viewTarget md n = md.nodes[k - 1]?) :
      ActsOn sh s u md n k m .retr
        ⟨s, { sh with metrics := sh.metrics.count m.2 }, retrieval sh s u (some m), .next⟩
  | marked {md'} (hmessages : md'.messages = md.messages.modify (k - 1) Message.mark) :
      ActsOn sh s u md n k m .dele (reply sh { s with maildir := some md' } (deletedReply k))

/-- The line acts on the message whose numeral its argument is, or is refused. -/
def Exchange.Reads (x : Exchange) (u : User) (md : Maildir) (number : Bytes) : Prop :=
  x.Refused ∨ ∃ k m st, IsNumeral number k ∧ 1 ≤ k ∧ md.messages[k - 1]? = some m ∧
    ActsOn x.shared x.session u md (atoi number) k m (getCommandValue x.command) st ∧
    x.step = { st with effects := commandLog x.env x.session x.command :: st.effects }

/-- The lines that are read as they are written. -/
structure ReadableNumber (md : Maildir) (number : Bytes) (x : Exchange) : Prop where
  fits : x.command.length ≤ 2 * BUFFER_SIZE
  list : getCommandValue x.command = .list →
    atoi number = 0 ∨ 1 ≤ atoi number ∧ atoi number ≤ md.messages.length ∧
      IsNumeral number (atoi number).toNat
  dele : getCommandValue x.command = .dele → 1 ≤ atoi number →
    atoi number ≤ md.messages.length → IsNumeral number (atoi number).toNat
  retr : getCommandValue x.command = .retr → 1 ≤ atoi number →
    (md.new.size < atoi number ∧ md.cur.size < atoi number ∧ md.tmp.size < atoi number) ∨
      IsNumeral number (atoi number).toNat ∧
        (atoi number ≤ md.new.size ∨ md.new.size = 0 ∧ atoi number ≤ md.cur.size ∨
          md.new.size = 0 ∧ md.cur.size = 0)

/-! ### Reading a numeral -/

/-- A numeral that is not read as its value is read as a number far below it. -/
theorem atoi_eq_of_le {s : Bytes} {k : Nat} (h : IsNumeral s k) (h1 : 1 ≤ atoi s)
    (hk : (k : Int) ≤ 3 * atoi s - 2) : atoi s = k := by
  have hatoi := atoi_of_numeral h
  have hmod := Int.bmod_eq_self_sub_mul_bdiv (min (2 ^ 63 - 1) (k : Int)) (2 ^ 32)
  have hfits := int32_fits (min (2 ^ 63 - 1) (k : Int))
  change int32 _ = _ at hmod
  rw [← hatoi] at hmod hfits
  obtain ⟨hlow, hhigh⟩ := hfits
  omega

/-! ### The node of a numeral -/

/-- The number of messages in the folders in front of a folder. -/
def Maildir.before (md : Maildir) : Directory → Nat
  | .new => 0
  | .cur => md.new.size
  | .tmp => md.new.size + md.cur.size

/-- A node is at the place that its folder and the rest of its list tell. -/
theorem Maildir.nodes_index {md : Maildir} {i : Nat} {d : Directory} {l : List FileList}
    (h : md.nodes[i]? = some (d, l)) : i = md.before d + ((md.folder d).size - l.length) := by
  have hnew := md.new.size_eq
  have hcur := md.cur.size_eq
  have htmp := md.tmp.size_eq
  rw [md.nodes_getElem?] at h
  split at h
  · obtain ⟨rfl, rfl⟩ := Prod.mk.inj (Option.some.inj h)
    simp only [before, folder, List.length_drop]
    omega
  split at h
  · obtain ⟨rfl, rfl⟩ := Prod.mk.inj (Option.some.inj h)
    simp only [before, folder, List.length_drop]
    omega
  split at h
  · obtain ⟨rfl, rfl⟩ := Prod.mk.inj (Option.some.inj h)
    simp only [before, folder, List.length_drop]
    omega
  · cases h

/-- The node that `view_message` finds is the one with the number in its folder, behind folders
that are too short for the number. -/
theorem viewTarget_index {md : Maildir} {n : Nat} (hn : 1 ≤ n) {d : Directory}
    {l : List FileList} (h : viewTarget md n = some (d, l)) :
    n ≤ (md.folder d).size ∧ l.length = (md.folder d).size - (n - 1) ∧
      md.before d ≤ 2 * (n - 1) := by
  have hrest : ∀ header : FileListHeader,
      (header.list.drop (n - 1)).length = header.size - (n - 1) := fun header => by
    rw [List.length_drop, header.size_eq]
  rw [viewTarget_eq md hn] at h
  split at h
  · next hnew =>
    obtain ⟨rfl, rfl⟩ := Prod.mk.inj (Option.some.inj h)
    exact ⟨hnew, hrest md.new, Nat.zero_le _⟩
  split at h
  · next hnew hcur =>
    obtain ⟨rfl, rfl⟩ := Prod.mk.inj (Option.some.inj h)
    refine ⟨hcur, hrest md.cur, ?_⟩
    simp only [Maildir.before]
    omega
  split at h
  · next hnew hcur htmp =>
    obtain ⟨rfl, rfl⟩ := Prod.mk.inj (Option.some.inj h)
    refine ⟨htmp, hrest md.tmp, ?_⟩
    simp only [Maildir.before]
    omega
  · cases h

/-- When RETR works on the node of a numeral, it has read that numeral as its value. -/
theorem atoi_eq_of_node {md : Maildir} {number : Bytes} {k : Nat} (hnumeral : IsNumeral number k)
    (hk : 1 ≤ k) (h1 : 1 ≤ atoi number) {d : Directory} {l : List FileList}
    (hview : viewTarget md (atoi number) = some (d, l)) (hnode : md.nodes[k - 1]? = some (d, l)) :
    atoi number = k := by
  obtain ⟨n, hn⟩ := Int.eq_ofNat_of_zero_le (Int.le_trans (by decide) h1)
  rw [hn] at hview
  obtain ⟨hle, hlength, hbefore⟩ := viewTarget_index (by omega) hview
  have hindex := md.nodes_index hnode
  exact atoi_eq_of_le hnumeral h1 (by omega)

/-! ### One command at a time -/

section Commands

variable {x : Exchange} {u : User} {md : Maildir} {number : Bytes}

theorem reads_iff (hfit : x.command.length ≤ 2 * BUFFER_SIZE)
    (hcomm : getCommandValue x.command ≠ .errorCommand) :
    x.Reads u md number ↔
      (∃ response, IsErr response ∧ x.executed = reply x.shared x.session response) ∨
        ∃ k m, IsNumeral number k ∧ 1 ≤ k ∧ md.messages[k - 1]? = some m ∧
          ActsOn x.shared x.session u md (atoi number) k m (getCommandValue x.command)
            x.executed := by
  rw [Exchange.Reads, Exchange.refused_iff hfit hcomm]
  refine or_congr_right (exists_congr fun k => exists_congr fun m => ?_)
  constructor
  · rintro ⟨st, hnumeral, hk, hm, hacts, hstep⟩
    rw [Exchange.step_eq_executed hfit hcomm] at hstep
    obtain ⟨hsession, hshared, heffects, hcontrol⟩ := Step.mk.inj hstep
    have hst : st = x.executed := by
      rw [Step.mk.injEq]
      exact ⟨hsession.symm, hshared.symm, (List.cons.inj heffects).2.symm, hcontrol.symm⟩
    exact ⟨hnumeral, hk, hm, hst ▸ hacts⟩
  · rintro ⟨hnumeral, hk, hm, hacts⟩
    exact ⟨_, hnumeral, hk, hm, hacts, Exchange.step_eq_executed hfit hcomm⟩

variable (hstate : x.session.clientState = .transaction)
  (harg : argument x.command = some number)
include hstate harg

theorem executed_zero (hcomm : getCommandValue x.command ∈ [.list, .retr, .dele])
    (hzero : atoi number = 0) : x.executed = argumentError x.shared x.session := by
  simp only [List.mem_cons, List.not_mem_nil, or_false] at hcomm
  rw [Exchange.executed, harg]
  rcases hcomm with hcomm | hcomm | hcomm
  · rw [hcomm, execute, listCommand, numberCommand_of_zero hstate _ _ hzero]
  · rw [hcomm, execute, retrCommand, numberCommand_of_zero hstate _ _ hzero]
  · rw [hcomm, execute, deleCommand, numberCommand_of_zero hstate _ _ hzero]

variable (hmd : x.session.maildir = some md)
include hmd

theorem executed_list (hcomm : getCommandValue x.command = .list) (hne : atoi number ≠ 0) :
    x.executed = listReply x.shared x.session md (atoi number) := by
  rw [Exchange.executed, hcomm, harg, execute, listCommand, numberCommand_of_number hstate _ _ hne,
    listNumber_eq hmd]

theorem executed_retr (hcomm : getCommandValue x.command = .retr) (hne : atoi number ≠ 0) :
    x.executed = viewMessage x.shared x.session md (atoi number) := by
  rw [Exchange.executed, hcomm, harg, execute, retrCommand, numberCommand_of_number hstate _ _ hne,
    viewNumber, mailbox, hmd]

theorem executed_dele (hcomm : getCommandValue x.command = .dele) (hne : atoi number ≠ 0) :
    x.executed = deleteMessage x.shared x.session md (atoi number) := by
  rw [Exchange.executed, hcomm, harg, execute, deleCommand, numberCommand_of_number hstate _ _ hne,
    deleteNumber, mailbox, hmd]

end Commands

theorem argumentError_refuses (sh : Shared) (s : Session) :
    ∃ response, IsErr response ∧ argumentError sh s = reply sh s response :=
  ⟨_, by decide, rfl⟩

section Acts

variable (sh : Shared) (s : Session) (u : User) (md : Maildir) (number : Bytes)

/-- What is asked of the step that a command makes of its number. -/
def ReadsTo (comm : Pop3Command) (st : Step) : Prop :=
  (∃ response, IsErr response ∧ st = reply sh s response) ∨
    ∃ k m, IsNumeral number k ∧ 1 ≤ k ∧ md.messages[k - 1]? = some m ∧
      ActsOn sh s u md (atoi number) k m comm st

variable {sh s u md number}

theorem ReadsTo.length_effects {st : Step} (h : ReadsTo sh s u md number .list st) :
    st.effects.length = 1 := by
  rcases h with ⟨response, -, rfl⟩ | ⟨k, m, -, -, -, hacts⟩
  · rfl
  · cases hacts
    rfl

theorem formatInt_natCast (n : Nat) : formatInt n = formatNat n := by
  have hpos : ¬ (n : Int) < 0 := by omega
  rw [formatInt, if_neg hpos, Int.natAbs_natCast]

theorem scanLine_inj {n k : Nat} {f f' : FileList} (h : scanLine n f = scanLine k f') : n = k := by
  have hspace : str " " = [32] := by decide
  simp only [scanLine, formatInt_natCast, hspace, List.append_assoc, List.cons_append] at h
  exact formatNat_inj (by decide) h

theorem deletedReply_inj {n k : Nat} (h : deletedReply n = deletedReply k) : n = k := by
  have hspace : str " deleted\r\n" = 32 :: str "deleted\r\n" := by decide
  simp only [deletedReply, formatInt_natCast, hspace, List.append_assoc] at h
  exact formatNat_inj (by decide) (List.append_cancel_left h)

theorem not_isErr_scanLine (n : Nat) (f : FileList) : ¬ IsErr (scanLine n f) := fun h =>
  (scanLine_digit n f).not_status (.inr h)

theorem not_isErr_deletedReply (n : Int) : ¬ IsErr (deletedReply n) :=
  not_isErr_ok _

/-- LIST writes one line for the number of a message, and some other count of lines otherwise. -/
theorem listReply_cases (sh : Shared) (s : Session) (md : Maildir) (n : Int) :
    (listReply sh s md n).effects.length ≠ 1 ∧ (n < 1 ∨ md.messages.length < n) ∨
      ∃ k m, n = (k : Nat) ∧ 1 ≤ k ∧ md.messages[k - 1]? = some m ∧
        listReply sh s md n = ⟨s, sh, [.send (scanLine k m.2)], .next⟩ := by
  rcases Int.lt_or_le n 1 with hneg | hpos
  · refine .inl ⟨?_, .inl hneg⟩
    rw [listReply, List.length_map]
    by_cases hall : n = -1
    · rw [hall, listMessages_all]
      simp
    · rw [listMessages, if_neg hall, if_neg (by omega)]
      decide
  · obtain ⟨k, rfl⟩ := Int.eq_ofNat_of_zero_le (Int.le_trans (by decide) hpos)
    have hlines := listMessages_number md (n := k) (by omega)
    cases hm : md.messages[k - 1]? with
    | none =>
      rw [hm] at hlines
      refine .inl ⟨?_, ?_⟩
      · rw [listReply, hlines]
        exact Nat.zero_ne_one
      · have hbeyond := List.getElem?_eq_none_iff.mp hm
        omega
    | some m =>
      rw [hm] at hlines
      refine .inr ⟨k, m, rfl, by omega, hm, ?_⟩
      rw [listReply, hlines]
      rfl

/-- LIST reads the numerals of the messages, and answers no other number with an error. -/
theorem readsTo_list : ReadsTo sh s u md number .list (listReply sh s md (atoi number)) ↔
    1 ≤ atoi number ∧ atoi number ≤ md.messages.length ∧
      IsNumeral number (atoi number).toNat := by
  rcases listReply_cases sh s md (atoi number) with ⟨hlength, hout⟩ | ⟨n, m, hn, h1, hm, hreply⟩
  · refine iff_of_false (fun h => hlength h.length_effects) (fun h => ?_)
    obtain ⟨hpos, hle, -⟩ := h
    omega
  · have hlt := (List.getElem?_eq_some_iff.mp hm).1
    rw [hreply, hn, Int.toNat_natCast]
    constructor
    · rintro (⟨response, herr, heq⟩ | ⟨k, m', hnumeral, -, -, hacts⟩)
      · obtain ⟨-, -, heffects, -⟩ := Step.mk.inj heq
        obtain rfl := Effect.send.inj (List.cons.inj heffects).1
        exact absurd herr (not_isErr_scanLine n m.2)
      · generalize hst : (⟨s, sh, [.send (scanLine n m.2)], .next⟩ : Step) = st at hacts
        cases hacts
        obtain ⟨-, -, heffects, -⟩ := Step.mk.inj hst
        obtain rfl := scanLine_inj (Effect.send.inj (List.cons.inj heffects).1)
        exact ⟨by omega, by omega, hnumeral⟩
    · rintro ⟨-, -, hnumeral⟩
      exact .inr ⟨n, m, hnumeral, h1, hm, .listed⟩

/-- DELE refuses the numbers of no message. -/
theorem readsTo_dele : ReadsTo sh s u md number .dele (deleteMessage sh s md (atoi number)) ↔
    (1 ≤ atoi number → atoi number ≤ md.messages.length →
      IsNumeral number (atoi number).toNat) := by
  by_cases hout : atoi number < 1 ∨ md.messages.length < atoi number
  · refine iff_of_true (.inl ?_) fun hpos hle => by omega
    rw [deleteMessage, deleteTarget_eq_none hout]
    simp only
    split
    · exact ⟨_, by decide, rfl⟩
    · exact ⟨_, by decide, rfl⟩
  · obtain ⟨md', htarget, hmessages⟩ :=
      @deleteTarget_messages md (atoi number) (by omega) (by omega)
    obtain ⟨n, hn⟩ := Int.eq_ofNat_of_zero_le (a := atoi number) (by omega)
    have hstep : deleteMessage sh s md (atoi number) =
        reply sh { s with maildir := some md' } (deletedReply n) := by
      rw [deleteMessage, htarget, hn]
      rfl
    have hlt : n - 1 < md.messages.length := by omega
    rw [hstep, hn, Int.toNat_natCast]
    constructor
    · rintro (⟨response, herr, heq⟩ | ⟨k, m', hnumeral, -, -, hacts⟩)
      · obtain ⟨-, -, heffects, -⟩ := Step.mk.inj heq
        obtain rfl := Effect.send.inj (List.cons.inj heffects).1
        exact absurd herr (not_isErr_deletedReply n)
      · generalize hst : reply sh { s with maildir := some md' } (deletedReply n) = st at hacts
        cases hacts
        obtain ⟨-, -, heffects, -⟩ := Step.mk.inj hst
        obtain rfl := deletedReply_inj (Effect.send.inj (List.cons.inj heffects).1)
        exact fun _ _ => hnumeral
    · intro h
      refine .inr ⟨n, md.messages[n - 1], h (by omega) (by omega), by omega,
        List.getElem?_eq_getElem hlt, .marked ?_⟩
      rw [hmessages, hn]
      congr 1
      omega

theorem viewTarget_of_neg (md : Maildir) {n : Int} (h : n < 1) : viewTarget md n = none := by
  have hsearch : ∀ l, searchFile n l = [] := fun l => searchFile_zero l (by omega)
  simp only [viewTarget, hsearch]

theorem viewMessage_refuses {n : Int} (h : viewTarget md n = none) :
    ∃ response, IsErr response ∧ viewMessage sh s md n = reply sh s response := by
  refine ⟨str "-ERR Message not found\r\n", by decide, ?_⟩
  rw [viewMessage, h]

theorem viewMessage_found (hu : s.user = some u) {n : Int} {d : Directory} {f : FileList}
    {rest : List FileList} (h : viewTarget md n = some (d, f :: rest)) :
    viewMessage sh s md n =
      ⟨s, { sh with metrics := sh.metrics.count f }, retrieval sh s u (some (d, f)), .next⟩ := by
  rw [viewMessage, h]
  simp only [hu]
  rfl

/-- RETR finds the node of a number in front of which no folder is passed over, and refuses the
numbers that are too great for every folder. -/
theorem readsTo_retr (hu : s.user = some u) :
    ReadsTo sh s u md number .retr (viewMessage sh s md (atoi number)) ↔
      (1 ≤ atoi number →
        (md.new.size < atoi number ∧ md.cur.size < atoi number ∧ md.tmp.size < atoi number) ∨
          IsNumeral number (atoi number).toNat ∧
            (atoi number ≤ md.new.size ∨ md.new.size = 0 ∧ atoi number ≤ md.cur.size ∨
              md.new.size = 0 ∧ md.cur.size = 0)) := by
  rcases Int.lt_or_le (atoi number) 1 with hneg | hpos
  · exact iff_of_true (.inl (viewMessage_refuses (viewTarget_of_neg md hneg))) fun h => by omega
  obtain ⟨n, hn⟩ := Int.eq_ofNat_of_zero_le (Int.le_trans (by decide) hpos)
  have h1 : 1 ≤ n := by omega
  have hnone := viewTarget_eq_none_iff md h1
  have hnode := viewTarget_eq_node_iff md h1
  rcases viewTarget_cases md (atoi number) with hview | ⟨d, f, rest, hview⟩
  · exact iff_of_true (.inl (viewMessage_refuses hview)) fun _ => .inl
      (by rw [hn] at hview ⊢; exact hnone.mp hview)
  rw [viewMessage_found hu hview]
  constructor
  · rintro (⟨response, -, heq⟩ | ⟨k, m, hnumeral, hk, hm, hacts⟩) _
    · have heffects := congrArg (·.effects.length) heq
      cases heffects
    · generalize hst : (⟨s, { sh with metrics := sh.metrics.count f },
        retrieval sh s u (some (d, f)), .next⟩ : Step) = st at hacts
      cases hacts with
      | retrieved hfound =>
      have hread := atoi_eq_of_node hnumeral hk hpos hview (hfound ▸ hview)
      obtain rfl : n = k := by omega
      have hlt := (List.getElem?_eq_some_iff.mp hm).1
      rw [hn] at hfound ⊢
      rcases hnode.mp hfound with hbeyond | hplace
      · omega
      · exact .inr ⟨hnumeral, by omega⟩
  · intro h
    rcases h hpos with hbeyond | ⟨hnumeral, hplace⟩
    · rw [hn] at hview hbeyond
      rw [hnone.mpr hbeyond] at hview
      cases hview
    · rw [hn, Int.toNat_natCast] at hnumeral
      have hfound : viewTarget md n = md.nodes[n - 1]? := hnode.mpr (.inr (by omega))
      rw [hn] at hview
      obtain ⟨f', rest', hrest, hm⟩ := md.nodes_messages (hfound ▸ hview)
      obtain ⟨rfl, -⟩ := List.cons.inj hrest
      refine .inr ⟨n, (d, f), hnumeral, h1, hm, ?_⟩
      rw [hn]
      exact .retrieved hfound

end Acts

/-- **A number is read as it is written** exactly when the line fits its buffer and the argument is
the numeral of the message the command takes it for, or one that the command refuses. -/
theorem number_read_iff {x : Exchange} {u : User} {md : Maildir} {number : Bytes}
    (hstate : x.session.clientState = .transaction) (huser : x.session.user = some u)
    (hmd : x.session.maildir = some md) (hcomm : getCommandValue x.command ∈ [.list, .retr, .dele])
    (harg : argument x.command = some number) :
    x.Reads u md number ↔ ReadableNumber md number x := by
  have herror : getCommandValue x.command ≠ .errorCommand := by
    rintro h
    rw [h] at hcomm
    revert hcomm
    decide
  by_cases hfit : x.command.length ≤ 2 * BUFFER_SIZE
  case neg =>
    have hstep := Exchange.step_of_huge hfit
    refine iff_of_false ?_ (fun h => hfit h.fits)
    rintro (⟨response, -, hreply⟩ | ⟨k, m, st, -, -, -, -, hdone⟩)
    · cases hstep.symm.trans hreply
    · have heffects := congrArg Step.effects (hstep.symm.trans hdone)
      cases heffects
  rw [reads_iff hfit herror]
  change ReadsTo _ _ _ _ _ _ _ ↔ _
  by_cases hzero : atoi number = 0
  · rw [executed_zero hstate harg hcomm hzero]
    refine iff_of_true (.inl (argumentError_refuses _ _)) ⟨hfit, ?_, ?_, ?_⟩
    · exact fun _ => .inl hzero
    · intro _ h1
      omega
    · intro _ h1
      omega
  simp only [List.mem_cons, List.not_mem_nil, or_false] at hcomm
  rcases hcomm with hcomm | hcomm | hcomm
  · rw [executed_list hstate harg hmd hcomm hzero, hcomm, readsTo_list]
    exact ⟨fun h => ⟨hfit, fun _ => .inr h, by simp [hcomm], by simp [hcomm]⟩,
      fun h => (h.list hcomm).resolve_left hzero⟩
  · rw [executed_retr hstate harg hmd hcomm hzero, hcomm, readsTo_retr huser]
    exact ⟨fun h => ⟨hfit, by simp [hcomm], by simp [hcomm], fun _ => h⟩, fun h => h.retr hcomm⟩
  · rw [executed_dele hstate harg hmd hcomm hzero, hcomm, readsTo_dele]
    exact ⟨fun h => ⟨hfit, by simp [hcomm], fun _ => h, by simp [hcomm]⟩, fun h => h.dele hcomm⟩

def numberLine (command : Bytes) : Exchange := ⟨sampleEnv, sampleShared, sampleLoggedIn, command⟩

def singleMessage : Maildir := ⟨.ofList [], .ofList [⟨str "a", 5, false⟩], .ofList []⟩

theorem number_read_one :
    (numberLine (str "DELE 1")).Reads ⟨str "anna", str "secret"⟩ singleMessage (str "1") ↔
      ReadableNumber singleMessage (str "1") (numberLine (str "DELE 1")) :=
  number_read_iff rfl rfl rfl (by decide) (by decide)

/-- A number above 4294967296 wraps around and deletes another message. -/
theorem number_wraps :
    ¬ ∀ (x : Exchange) (u : User) (md : Maildir) (number : Bytes),
      x.session.clientState = .transaction → x.session.user = some u →
      x.session.maildir = some md → getCommandValue x.command ∈ [.list, .retr, .dele] →
      argument x.command = some number → number ≠ [] → x.Reads u md number := by
  intro h
  have harg : argument (numberLine (str "DELE 4294967297")).command = some (str "4294967297") := by
    decide +kernel
  have hcomm : getCommandValue (numberLine (str "DELE 4294967297")).command = .dele := by
    decide +kernel
  have hreads := h (numberLine (str "DELE 4294967297")) ⟨str "anna", str "secret"⟩ singleMessage
    (str "4294967297") rfl rfl rfl (by simp [hcomm]) harg (by decide)
  rw [reads_iff (by decide +kernel) (by simp [hcomm]),
    executed_dele rfl harg rfl hcomm (by decide +kernel), hcomm] at hreads
  have hnumeral := readsTo_dele.mp hreads
  revert hnumeral
  decide +kernel

end Pop3Server
