import Mathlib.Data.List.Basic
import Pop3Server.Responses

/-!
# What a line answers

Every line of a session is answered at once, with text that cannot be taken for
the end of a transfer, but for two kinds: a line shorter than a keyword ends the
process, and LIST with the number of no message is passed over in silence
(`Exchange.Unanswered`).  A transfer is started by RETR and LOGG alone, behind
their status line (`Exchange.Transfers`).
-/

namespace Pop3Server

/-! ### The beginning of an answer -/

/-- There is a first byte, and it is not the one the terminator begins with. -/
def StartsAnswer (data : Bytes) : Prop := data.headD CR ≠ CR

instance (data : Bytes) : Decidable (StartsAnswer data) := inferInstanceAs (Decidable (_ ≠ _))

theorem StartsAnswer.eq_cons {data : Bytes} (h : StartsAnswer data) :
    ∃ b rest, data = b :: rest ∧ b ≠ CR := by
  cases data with
  | nil => exact absurd rfl h
  | cons b rest => exact ⟨b, rest, rfl, h⟩

theorem StartsAnswer.append {data : Bytes} (h : StartsAnswer data) (more : Bytes) :
    StartsAnswer (data ++ more) := by
  obtain ⟨b, rest, rfl, hb⟩ := h.eq_cons
  exact hb

theorem IsStatus.startsAnswer {data : Bytes} (h : IsStatus data) : StartsAnswer data := by
  rcases h with ⟨rest, rfl⟩ | ⟨rest, rfl⟩
  · exact StartsAnswer.append (by decide) rest
  · exact StartsAnswer.append (by decide) rest

theorem BeginsWithDigit.startsAnswer {data : Bytes} (h : BeginsWithDigit data) :
    StartsAnswer data := by
  obtain ⟨d, rest, rfl, hd⟩ := h
  rintro rfl
  exact absurd hd (by decide)

/-- LIST answers with lines of numbers; a number of no message gets no answer. -/
theorem listMessages_answers (md : Maildir) (n : Int) :
    (∀ answer ∈ (listMessages md n).1, StartsAnswer answer) ∧
      ((listMessages md n).1 = [] ↔ n ≠ -1 ∧ ¬ (1 ≤ n ∧ n ≤ md.messages.length)) := by
  by_cases hall : n = -1
  · subst hall
    rw [listMessages_all]
    constructor
    · intro answer hanswer
      simp only [List.cons_append, List.mem_cons, List.mem_append, List.not_mem_nil, or_false]
        at hanswer
      rcases hanswer with rfl | hline | rfl
      · exact (statHandeler_status md).startsAnswer
      · exact (listDirectory_digit _ _ answer hline).startsAnswer
      · decide
    · simp
  by_cases hpos : 1 ≤ n
  · obtain ⟨k, rfl⟩ := Int.eq_ofNat_of_zero_le (Int.le_trans (by decide) hpos)
    have hk : 1 ≤ k := by omega
    rw [listMessages_number md hk]
    constructor
    · intro answer hanswer
      obtain ⟨m, -, rfl⟩ := List.mem_map.mp hanswer
      exact (scanLine_digit k m.2).startsAnswer
    · simp only [List.map_eq_nil_iff, Option.toList_eq_nil_iff, List.getElem?_eq_none_iff]
      omega
  · have hnone : (listMessages md n).1 = [] := by
      rw [listMessages, if_neg hall, if_neg (by omega)]
    rw [hnone]
    exact ⟨List.forall_mem_nil _, fun _ => ⟨hall, fun h => hpos h.1⟩, fun _ => rfl⟩

/-! ### The effects of a line -/

/-- What holds of the effects of every line, and of those of several lines. -/
structure Answering (es : List Effect) : Prop where
  sends : ∀ data, .send data ∈ es → StartsAnswer data
  announced : ∀ es1 path transformed es2, es = es1 ++ .transfer path transformed :: es2 →
    ∃ before data, es1 = before ++ [.send data]
  lines : ∀ line, .log line ∈ es → line ≠ []
  plainLog : ∀ transformed, .transfer LOGGER_FILE transformed ∈ es → transformed = false

theorem Answering.append {es es' : List Effect} (h : Answering es) (h' : Answering es') :
    Answering (es ++ es') where
  sends data hdata := (List.mem_append.mp hdata).elim (h.sends data) (h'.sends data)
  lines line hline := (List.mem_append.mp hline).elim (h.lines line) (h'.lines line)
  plainLog t ht := (List.mem_append.mp ht).elim (h.plainLog t) (h'.plainLog t)
  announced := by
    intro es1 path transformed es2 hsplit
    rcases List.append_eq_append_iff.mp hsplit with ⟨mid, rfl, hmid⟩ | ⟨mid, rfl, hmid⟩
    · obtain ⟨before, data, rfl⟩ := h'.announced mid path transformed es2 hmid
      exact ⟨es ++ before, data, (List.append_assoc _ _ _).symm⟩
    · cases mid with
      | nil =>
        obtain ⟨before, data, hbefore⟩ := h'.announced [] path transformed es2 hmid.symm
        exact absurd hbefore (by simp)
      | cons e mid =>
        obtain ⟨rfl, rfl⟩ := List.cons.inj hmid
        exact h.announced es1 path transformed mid rfl

theorem Answering.of_plain {es : List Effect}
    (h : ∀ e ∈ es, (∀ line, e ≠ .log line) ∧ ∀ path transformed, e ≠ .transfer path transformed)
    (hsends : ∀ data, .send data ∈ es → StartsAnswer data) : Answering es where
  sends := hsends
  lines line hline := absurd rfl ((h _ hline).1 line)
  plainLog t ht := absurd rfl ((h _ ht).2 _ t)
  announced es1 path transformed es2 hsplit :=
    absurd rfl ((h (.transfer path transformed) (by simp [hsplit])).2 path transformed)

theorem Answering.of_sends {answers : List Bytes} (h : ∀ data ∈ answers, StartsAnswer data) :
    Answering (answers.map .send) := by
  apply Answering.of_plain
  · intro e he
    obtain ⟨data, -, rfl⟩ := List.mem_map.mp he
    exact ⟨nofun, nofun⟩
  · intro data hdata
    obtain ⟨d, hd, heq⟩ := List.mem_map.mp hdata
    exact Effect.send.inj heq ▸ h d hd

theorem Answering.nil : Answering [] := .of_plain nofun nofun

theorem Answering.log {message timestamp ip : Bytes} :
    Answering [logConnection message timestamp ip] where
  sends data hdata := by simp [logConnection] at hdata
  plainLog t ht := by simp [logConnection] at ht
  lines line hline := by
    obtain rfl := Effect.log.inj (List.mem_singleton.mp hline)
    have hopen : str "(" ≠ [] := by decide
    simp [hopen]
  announced es1 path transformed es2 hsplit := by
    have hmem : Effect.transfer path transformed ∈ [logConnection message timestamp ip] := by
      simp [hsplit]
    simp [logConnection] at hmem

theorem Answering.transfer {data path : Bytes} {transformed : Bool} (hdata : StartsAnswer data)
    (hlog : path = LOGGER_FILE → transformed = false) :
    Answering [.send data, .transfer path transformed] where
  sends d hd := by
    simp only [List.mem_cons, Effect.send.injEq, List.not_mem_nil, or_false, reduceCtorEq] at hd
    exact hd ▸ hdata
  lines line hline := by simp at hline
  plainLog t ht := by
    simp only [List.mem_cons, Effect.transfer.injEq, List.not_mem_nil, or_false, reduceCtorEq,
      false_or] at ht
    rw [ht.2]
    exact hlog ht.1.symm
  announced es1 p t es2 hsplit := by
    rcases es1 with _ | ⟨e, _ | ⟨e', es1⟩⟩
    · simp at hsplit
    · obtain rfl := (List.cons.inj hsplit).1
      exact ⟨[], data, rfl⟩
    · simp at hsplit

/-- An answered line. -/
structure Step.Replies (st : Step) : Prop where
  answering : Answering st.effects
  answered : ∃ data, .send data ∈ st.effects

theorem Answered.replies {st : Step} (h : Answered st.effects) : st.Replies := by
  obtain ⟨s, sh, es, control⟩ := st
  replace h : Answered es := h
  cases h with
  | line hstatus hrest =>
    refine ⟨?_, _, List.mem_cons_self⟩
    apply Answering.of_plain
    · intro e he
      rcases List.mem_cons.mp he with rfl | he
      · exact ⟨nofun, nofun⟩
      · rcases hrest e he with ⟨path, rfl⟩ | ⟨fd, rfl⟩ <;> exact ⟨nofun, nofun⟩
    · intro data hdata
      rcases List.mem_cons.mp hdata with hdata | hdata
      · exact Effect.send.inj hdata ▸ hstatus.startsAnswer
      · rcases hrest _ hdata with ⟨path, hpath⟩ | ⟨fd, hfd⟩
        · cases hpath
        · cases hfd
  | file hstatus hlog =>
    exact ⟨.transfer hstatus.startsAnswer hlog, _, List.mem_cons_self⟩
  | @listing status lines hstatus hlines =>
    refine ⟨@Answering.of_sends (status :: (lines ++ [str ".\r\n"])) ?_, _,
      List.mem_cons_self⟩
    intro data hdata
    rcases List.mem_cons.mp hdata with rfl | hdata
    · exact hstatus.startsAnswer
    rcases List.mem_append.mp hdata with hline | hdot
    · exact (hlines data hline).startsAnswer
    · rw [List.mem_singleton.mp hdot]
      decide

/-! ### Silence -/

/-- A number that LIST passes over in TRANSACTION: no message has it, and it is neither 0, which is
an argument error, nor -1, which is the whole list. -/
def Session.PassedOver (s : Session) (arg : Option Bytes) : Prop :=
  s.clientState = .transaction ∧ ∃ number md, arg = some number ∧ s.maildir = some md ∧
    atoi number ≠ 0 ∧ atoi number ≠ -1 ∧ ¬ (1 ≤ atoi number ∧ atoi number ≤ md.messages.length)

/-- A command that gets no answer. -/
def Exchange.Unanswered (x : Exchange) : Prop :=
  getCommandValue x.command = .list ∧ x.session.PassedOver (argument x.command)

/-- LIST is silent about a number it passes over, and answers everything else. -/
theorem listCommand_answers (sh : Shared) {s : Session} (hready : s.Ready) (arg : Option Bytes) :
    (s.PassedOver arg ∧ listCommand sh s arg = ⟨s, sh, [], .next⟩) ∨
      (¬ s.PassedOver arg ∧ (listCommand sh s arg).Replies) := by
  rcases listCommand_cases sh hready.maildir arg with
    ⟨hno, hanswered⟩ | ⟨⟨hstate, number, rfl, hzero, hall⟩, number', md, harg, hmd, heq⟩
  · refine .inr ⟨?_, hanswered.replies⟩
    rintro ⟨hstate, number, md, rfl, -, hzero, hall, -⟩
    exact hno ⟨hstate, number, rfl, hzero, hall⟩
  obtain rfl := Option.some.inj harg
  obtain ⟨hanswers, hsilent⟩ := listMessages_answers md (atoi number)
  rw [heq]
  by_cases hnil : (listMessages md (atoi number)).1 = []
  · refine .inl ⟨⟨hstate, number, md, rfl, hmd, hzero, hall, (hsilent.mp hnil).2⟩, ?_⟩
    rw [listReply, hnil]
    rfl
  · obtain ⟨answer, answers, hcons⟩ := List.exists_cons_of_ne_nil hnil
    refine .inr ⟨?_, Answering.of_sends hanswers, answer, by simp [listReply, hcons]⟩
    rintro ⟨-, number', md', hsome, hmd', -, -, hnone⟩
    obtain rfl := Option.some.inj hsome
    obtain rfl := Option.some.inj (hmd.symm.trans hmd')
    exact hnil (hsilent.mpr ⟨hall, hnone⟩)

def Exchange.logged (x : Exchange) : Effect := commandLog x.env x.session x.command

/-- **A line that fits its buffer ends the process, or is passed over, or is answered.** -/
theorem Exchange.answers {x : Exchange} (hready : x.session.Ready)
    (hfit : x.command.length ≤ 2 * BUFFER_SIZE) :
    (x.command.length < 4 ∧ x.step = ⟨x.session, x.shared, [x.logged], .fault .assertion⟩) ∨
      (4 ≤ x.command.length ∧ x.Unanswered ∧
        x.step = ⟨x.session, x.shared, [x.logged], .next⟩) ∨
      (4 ≤ x.command.length ∧ ¬ x.Unanswered ∧
        ∃ st : Step, st.Replies ∧ x.step = { st with effects := x.logged :: st.effects }) := by
  rcases Nat.lt_or_ge x.command.length 4 with hshort | h4
  · exact .inl ⟨hshort, dispatch_of_short hshort x.env x.shared x.session⟩
  have hstep : x.step = _ := dispatch_of_long h4 hfit x.env x.shared x.session
  by_cases hlist : getCommandValue x.command = .list
  · simp only [hlist, execute] at hstep
    rcases listCommand_answers x.shared hready (argument x.command) with ⟨hover, heq⟩ | ⟨hnot, hr⟩
    · refine .inr (.inl ⟨h4, ⟨hlist, hover⟩, ?_⟩)
      rw [hstep, heq]
      rfl
    · exact .inr (.inr ⟨h4, fun h => hnot h.2, _, hr, hstep⟩)
  · exact .inr (.inr ⟨h4, fun h => hlist h.1, _,
      (execute_answered x.env x.shared hready.maildir hlist _ _).replies, hstep⟩)

theorem Exchange.answering {x : Exchange} (hready : x.session.Ready)
    (hfit : x.command.length ≤ 2 * BUFFER_SIZE) : Answering x.step.effects := by
  rcases Exchange.answers hready hfit with ⟨-, h⟩ | ⟨-, -, h⟩ | ⟨-, -, st, hst, h⟩
  · rw [h]
    exact .log
  · rw [h]
    exact .log
  · rw [h]
    exact @Answering.append [x.logged] st.effects .log hst.answering

/-! ### Transfers -/

/-- The commands that have a child send a file, with the file. -/
inductive Starts (sh : Shared) (s : Session) : Pop3Command → Option Bytes → Bytes → Prop
  | retr {md u number d file more} (hstate : s.clientState = .transaction)
      (hmaildir : s.maildir = some md) (huser : s.user = some u)
      (htarget : viewTarget md (atoi number) = some (d, file :: more)) :
      Starts sh s .retr (some number) (messagePath sh.pop3.baseDir u.name d file.name)
  | logg {arg} (hstate : s.clientState = .manager) : Starts sh s .logg arg LOGGER_FILE

/-- A line that starts a transfer. -/
def Exchange.Transfers (x : Exchange) (path : Bytes) : Prop :=
  Starts x.shared x.session (getCommandValue x.command) (argument x.command) path

theorem Starts.path_ne_log {sh : Shared} {s : Session} {arg : Option Bytes} {path : Bytes}
    (h : Starts sh s .retr arg path) : path ≠ LOGGER_FILE := by
  cases h with
  | retr _ _ _ _ => exact messagePath_ne_log _ _ _ _

/-- The line is answered with its status line, and the transfer comes behind it. -/
theorem Starts.execute_eq {sh : Shared} {s : Session} {comm : Pop3Command} {arg : Option Bytes}
    {path : Bytes} (h : Starts sh s comm arg path) (env : Env) (tail : Bytes) :
    ∃ sh' data transformed, execute env sh s comm arg tail =
      ⟨s, sh', [.send data, .transfer path transformed], .next⟩ := by
  cases h with
  | @retr md u number d file more hstate hmd hu htarget =>
    have hne : atoi number ≠ 0 := by
      intro hzero
      rw [hzero, viewTarget_zero] at htarget
      cases htarget
    have hview : execute env sh s .retr (some number) tail = viewMessage sh s md (atoi number) := by
      simp only [execute, retrCommand, numberCommand, loggedIn, hstate, ne_eq, not_true_eq_false,
        if_false, if_neg hne, viewNumber, mailbox, hmd]
    rw [hview, viewMessage, htarget]
    simp only [hu]
    exact ⟨_, _, _, rfl⟩
  | logg hstate =>
    simp only [execute, loggCommand, managerOnly, hstate, ne_eq, not_true_eq_false, if_false]
    exact ⟨_, _, _, rfl⟩

theorem Exchange.Transfers.step_eq {x : Exchange} {path : Bytes} (h : x.Transfers path)
    (hfit : x.command.length ≤ 2 * BUFFER_SIZE) :
    ∃ sh data transformed,
      x.step = ⟨x.session, sh, [x.logged, .send data, .transfer path transformed], .next⟩ := by
  have hkeyword : getCommandValue x.command ≠ .errorCommand := by
    intro herror
    rw [Exchange.Transfers, herror] at h
    cases h
  have hstep : x.step = _ :=
    dispatch_of_long (length_of_keyword hkeyword) hfit x.env x.shared x.session
  obtain ⟨sh, data, transformed, hexecute⟩ := Starts.execute_eq h x.env (cstr (x.command.drop 5))
  refine ⟨sh, data, transformed, ?_⟩
  rw [hstep, hexecute]
  rfl

theorem Exchange.Transfers.unique {x : Exchange} {path path' : Bytes} (h : x.Transfers path)
    (h' : x.Transfers path') (hfit : x.command.length ≤ 2 * BUFFER_SIZE) : path' = path := by
  obtain ⟨_, _, _, hstep⟩ := h.step_eq hfit
  obtain ⟨_, _, _, hstep'⟩ := h'.step_eq hfit
  have heffects := congrArg Step.effects (hstep'.symm.trans hstep)
  simp only [List.cons.injEq, Effect.transfer.injEq] at heffects
  exact heffects.2.2.1.1

/-- What the arms do outside the process: they never write to the log file. -/
theorem Outcome.effect_cases {env : Env} {sh : Shared} {s : Session} {comm : Pop3Command}
    {arg : Option Bytes} {st : Step} (h : Outcome env sh s comm arg st) {e : Effect}
    (he : e ∈ st.effects) :
    (∃ data, e = .send data) ∨ (∃ fd, e = .close fd) ∨
      (st.control = .returned ∧ ∃ path, e = .remove path) ∨
      ∃ path transformed, e = .transfer path transformed ∧ Starts sh s comm arg path := by
  cases h with
  | told _ answers _ _ =>
    obtain ⟨data, -, rfl⟩ := List.mem_map.mp he
    exact .inl ⟨data, rfl⟩
  | dangling _ _ answers =>
    obtain ⟨data, -, rfl⟩ := List.mem_map.mp he
    exact .inl ⟨data, rfl⟩
  | configured _ _ _ _ _ closes =>
    rcases List.mem_cons.mp he with rfl | he
    · exact .inl ⟨_, rfl⟩
    · obtain ⟨fd, -, rfl⟩ := List.mem_map.mp he
      exact .inr (.inl ⟨fd, rfl⟩)
  | retrieved hstate hmd hu htarget =>
    simp only [List.mem_cons, List.not_mem_nil, or_false] at he
    rcases he with rfl | rfl
    · exact .inl ⟨_, rfl⟩
    · exact .inr (.inr (.inr ⟨_, _, rfl, .retr hstate hmd hu htarget⟩))
  | logSent hstate =>
    simp only [List.mem_cons, List.not_mem_nil, or_false] at he
    rcases he with rfl | rfl
    · exact .inl ⟨_, rfl⟩
    · exact .inr (.inr (.inr ⟨_, _, rfl, .logg hstate⟩))
  | quitMailbox _ _ _ =>
    simp only [List.cons_append, List.mem_cons, List.mem_append, List.not_mem_nil, or_false,
      List.mem_map] at he
    rcases he with rfl | ⟨path, -, rfl⟩ | rfl
    · exact .inl ⟨_, rfl⟩
    · exact .inr (.inr (.inl ⟨rfl, path, rfl⟩))
    · exact .inr (.inl ⟨_, rfl⟩)
  | quitPlain _ =>
    simp only [List.mem_cons, List.not_mem_nil, or_false] at he
    rcases he with rfl | rfl
    · exact .inl ⟨_, rfl⟩
    · exact .inr (.inl ⟨_, rfl⟩)
  | _ => exact .inl ⟨_, List.mem_singleton.mp he⟩

end Pop3Server
