import Mathlib.Data.List.DropRight
import Mathlib.Data.List.Nodup
import Pop3Server.Login

/-!
# Whom a session authenticates as

`Authentic` says what USER and PASS are for, in terms of the lines sent so far:
a PASS logs in the user whom the last USER line named in full, on his password,
and a USER line that names nobody is refused.  The dispatcher selects the first
user whose name begins with the argument, and keeps the selection when USER
fails.  `CredentialsOk` is the condition under which this comes to the same, and
`authentic_iff` shows that no weaker one will do.
-/

namespace Pop3Server

/-! ### The selection -/

/-- `client_validation` finds the first user whose name begins with the argument. -/
theorem findUser_eq_find? (l : List User) (user : Bytes) :
    findUser l.length l user = l.find? fun u => strncmpEq u.name user := by
  induction l with
  | nil => rfl
  | cons u l ih =>
    rw [List.length_cons, findUser, List.find?_cons, ih]
    cases strncmpEq u.name user <;> rfl

theorem UserListHeader.findUser_eq (users : UserListHeader) (user : Bytes) :
    findUser users.size users.list user =
      users.list.find? fun u => strncmpEq u.name user := by
  rw [users.size_eq, findUser_eq_find?]

theorem selected_eq_none_iff {users : UserListHeader} {arg : Option Bytes} :
    Login.selected users arg = none ↔
      ∀ a, arg = some a → ∀ u ∈ users.list, ¬ a <+: u.name := by
  cases arg with
  | none => simp [Login.selected]
  | some a =>
    simp only [Login.selected, Option.bind_some, users.findUser_eq, List.find?_eq_none,
      strncmpEq_iff, Option.some.injEq, forall_eq']

/-- The argument of the last USER line. -/
def lastUserArgument (lines : List Bytes) : Option Bytes :=
  ((lines.filter fun c => getCommandValue c = .user).getLast?).bind argument

/-- The user whom the last USER line names in full. -/
def named (users : UserListHeader) (lines : List Bytes) : Option User :=
  (lastUserArgument lines).bind fun a => users.list.find? fun u => u.name = a

theorem named_eq_some_iff {users : UserListHeader} (hnames : (users.list.map (·.name)).Nodup)
    {lines : List Bytes} {u : User} :
    named users lines = some u ↔
      u ∈ users.list ∧ lastUserArgument lines = some u.name := by
  unfold named
  rw [Option.bind_eq_some_iff]
  constructor
  · rintro ⟨a, ha, hfind⟩
    have hname : u.name = a := by simpa using List.find?_some hfind
    exact ⟨List.mem_of_find?_eq_some hfind, hname ▸ ha⟩
  · rintro ⟨hu, ha⟩
    refine ⟨u.name, ha, ?_⟩
    cases hfind : users.list.find? fun v => v.name = u.name with
    | none =>
      have := List.find?_eq_none.mp hfind u hu
      simp at this
    | some v =>
      have hname : v.name = u.name := by simpa using List.find?_some hfind
      rw [List.inj_on_of_nodup_map hnames (List.mem_of_find?_eq_some hfind) hu hname]

/-- The user who is selected after the lines: the last USER line that selects one at all counts. -/
def selectedBy (users : UserListHeader) (lines : List Bytes) : Option User :=
  lines.reverse.findSome? fun c =>
    if getCommandValue c = .user then Login.selected users (argument c) else none

/-- Since the last USER line a PASS line has given the password of the selected user. -/
def PassGiven (users : UserListHeader) (lines : List Bytes) : Prop :=
  ∃ u, selectedBy users lines = some u ∧ ∃ c ∈ lines.rtakeWhile fun c => getCommandValue c ≠ .user,
    getCommandValue c = .pass ∧ argument c = some u.pass

section Lines

variable {users : UserListHeader} {lines : List Bytes} {c : Bytes}

theorem selectedBy_concat_user (h : getCommandValue c = .user) :
    selectedBy users (lines ++ [c]) =
      (Login.selected users (argument c)).or (selectedBy users lines) := by
  rw [selectedBy, List.reverse_concat, List.findSome?_cons, if_pos h]
  cases Login.selected users (argument c) <;> rfl

theorem selectedBy_concat_pass (h : getCommandValue c = .pass) :
    selectedBy users (lines ++ [c]) = selectedBy users lines := by
  rw [selectedBy, List.reverse_concat, List.findSome?_cons, if_neg (by simp [h])]
  rfl

theorem not_passGiven_concat_user (h : getCommandValue c = .user) :
    ¬ PassGiven users (lines ++ [c]) := by
  rintro ⟨u, -, c', hc', -⟩
  rw [List.rtakeWhile_concat_neg _ _ _ (by simp [h])] at hc'
  cases hc'

theorem passGiven_concat_pass (h : getCommandValue c = .pass) :
    PassGiven users (lines ++ [c]) ↔
      PassGiven users lines ∨ ∃ u, selectedBy users lines = some u ∧ argument c = some u.pass := by
  unfold PassGiven
  rw [selectedBy_concat_pass h, List.rtakeWhile_concat_pos _ _ _ (by simp [h]), ← exists_or]
  apply exists_congr
  intro u
  rw [← and_or_left]
  apply and_congr_right
  intro _
  simp [or_and_right, exists_or, h]

/-- **What the lines have made of a new session**, in terms of the lines. -/
theorem afterLines_new (h : ∀ c ∈ lines, getCommandValue c = .user ∨ getCommandValue c = .pass) :
    let l := (⟨.authorization, none⟩ : Login).afterLines users lines
    l.user = selectedBy users lines ∧
      (l.clientState = .authorization ∧ ¬ PassGiven users lines ∨
        l.clientState = .transaction ∧ PassGiven users lines) := by
  induction lines using List.reverseRecOn with
  | nil => exact ⟨rfl, .inl ⟨rfl, fun ⟨u, hu, _⟩ => by cases hu⟩⟩
  | append_singleton lines c ih =>
    obtain ⟨huser, hstate⟩ := ih fun c' hc' => h c' (List.mem_append_left _ hc')
    simp only [Login.afterLines, List.foldl_append, List.foldl_cons,
      List.foldl_nil] at huser hstate ⊢
    generalize lines.foldl (Login.afterLine users) ⟨.authorization, none⟩ = l at huser hstate ⊢
    rcases h c (by simp) with hc | hc
    · rw [selectedBy_concat_user hc, Login.afterLine, hc, ← huser]
      refine ⟨rfl, .inl ⟨?_, not_passGiven_concat_user hc⟩⟩
      rcases hstate with ⟨hl, -⟩ | ⟨hl, -⟩ <;> simp [Login.after, Login.dropped, hl]
    · rw [selectedBy_concat_pass hc, passGiven_concat_pass hc, Login.afterLine, hc, ← huser]
      cases hadm : l.admitted .pass (argument c) with
      | some u =>
        obtain ⟨-, -, hu, harg⟩ := Login.admitted_eq_some.mp hadm
        rw [Login.after_of_admitted hadm, hu]
        exact ⟨rfl, .inr ⟨rfl, .inr ⟨u, rfl, harg⟩⟩⟩
      | none =>
        rw [Login.after_pass_of_not_admitted hadm]
        refine ⟨rfl, ?_⟩
        rcases hstate with ⟨hl, hnot⟩ | ⟨hl, hgiven⟩
        · refine .inl ⟨hl, not_or.mpr ⟨hnot, ?_⟩⟩
          rintro ⟨u, hu, harg⟩
          cases hadm.symm.trans (Login.admitted_eq_some.mpr ⟨rfl, hl, hu, harg⟩)
        · exact .inr ⟨hl, .inl hgiven⟩

end Lines

/-! ### What is asked of an exchange -/

/-- The exchange moves its session to TRANSACTION as `u`. -/
def Exchange.LogsIn (x : Exchange) (u : User) : Prop :=
  x.session.clientState ≠ .transaction ∧ x.step.session.clientState = .transaction ∧
    x.step.session.user = some u

/-- The exchange is answered by one error line and selects nobody. -/
def Exchange.SelectsNobody (x : Exchange) : Prop :=
  (∃ response, x.step.sends = [response] ∧ IsErr response) ∧ x.step.session.user = x.session.user

/-- What USER and PASS are to do, after the lines `past`. -/
structure Authentic (users : UserListHeader) (past : List Bytes) (x : Exchange) : Prop where
  pass : getCommandValue x.command = .pass → ∀ u, x.LogsIn u ↔
    u ∈ users.list ∧ lastUserArgument past = some u.name ∧ argument x.command = some u.pass
  user : getCommandValue x.command = .user →
    (argument x.command = some [] ∨ ∀ u ∈ users.list, argument x.command ≠ some u.name) →
    x.SelectsNobody

/-- When they do it.  The argument of a USER line is a whole name, not an empty one, or the
beginning of no name.  At a PASS line no earlier one has given the password yet, and the selected
user is the one whom the last USER line names, or the argument is neither that user's password nor,
unless the password has been given, the selected one's. -/
structure CredentialsOk (users : UserListHeader) (past : List Bytes) (command : Bytes) : Prop where
  pass : getCommandValue command = .pass →
    (¬ PassGiven users past ∧ selectedBy users past = named users past) ∨
      ((∀ u, named users past = some u → argument command ≠ some u.pass) ∧
        (¬ PassGiven users past → ∀ v, selectedBy users past = some v →
          argument command ≠ some v.pass))
  user : getCommandValue command = .user → ∀ a, argument command = some a →
    (a ≠ [] ∧ ∃ u ∈ users.list, u.name = a) ∨ ∀ u ∈ users.list, ¬ a <+: u.name

/-! ### One exchange -/

/-- A session in which a POP3 client sent the lines `past` and sends `x` next. -/
structure Exchange.Follows (users : UserListHeader) (past : List Bytes) (x : Exchange) : Prop where
  users_eq : x.shared.pop3.userList = users
  ready : x.session.Ready
  login : x.session.login = (⟨.authorization, none⟩ : Login).afterLines users past

variable {users : UserListHeader} {past : List Bytes} {x : Exchange}

theorem logsIn_iff_admitted (h : x.Follows users past) (h4 : 4 ≤ x.command.length)
    (hfit : x.command.length ≤ 2 * BUFFER_SIZE) (hpass : getCommandValue x.command = .pass)
    (u : User) :
    x.LogsIn u ↔ x.session.login.admitted .pass (argument x.command) = some u := by
  obtain ⟨st, hout, hstep⟩ := Exchange.outcome h4 hfit
  have hs : x.step.session = st.session := by rw [hstep]
  have hlogin := hout.login_eq h.ready
  rw [hpass] at hlogin
  have hstate : st.session.clientState = _ := congrArg Login.clientState hlogin
  have huser : st.session.user = _ := congrArg Login.user hlogin
  rw [Exchange.LogsIn, hs, hstate, huser]
  cases hadm : x.session.login.admitted .pass (argument x.command) with
  | none =>
    rw [Login.after_pass_of_not_admitted hadm]
    simp only [reduceCtorEq, iff_false]
    rintro ⟨hbefore, hafter, -⟩
    exact hbefore hafter
  | some v =>
    obtain ⟨-, hbefore, -, -⟩ := Login.admitted_eq_some.mp hadm
    have hbefore : x.session.clientState = .authorization := hbefore
    rw [Login.after_of_admitted hadm]
    simp [hbefore]

theorem selectsNobody_iff (h : x.Follows users past) (h4 : 4 ≤ x.command.length)
    (hfit : x.command.length ≤ 2 * BUFFER_SIZE) (huser : getCommandValue x.command = .user) :
    x.SelectsNobody ↔ Login.selected users (argument x.command) = none := by
  obtain ⟨st, hout, hstep⟩ := Exchange.outcome h4 hfit
  have hs : x.step.session = st.session := by rw [hstep]
  have hsends : x.step.sends = st.sends := by rw [hstep]; rfl
  have husers := h.users_eq
  rw [huser] at hout
  rw [Exchange.SelectsNobody, hs, hsends, ← husers]
  generalize argument x.command = arg at hout
  cases hout with
  | refused hcomm _ _ => exact absurd rfl hcomm.1
  | told hcomm _ _ _ => simp at hcomm
  | userNotFound herr hfind =>
    have huser_eq := congrArg Login.user (userState_login x.session)
    refine iff_of_true ⟨⟨_, rfl, herr⟩, huser_eq⟩ ?_
    cases arg with
    | none => rfl
    | some user => exact hfind user rfl
  | userFound hfind =>
    refine iff_of_false ?_ (by simp [Login.selected, hfind])
    rintro ⟨⟨response, hresponse, herr⟩, -⟩
    have hsent : [str "+OK User accepted, password needed\r\n"] = [response] := hresponse
    rw [← (List.cons.inj hsent).1] at herr
    exact absurd herr (by decide)
  | configured hcomm _ _ _ _ _ => simp at hcomm
  | dangling hstate hnone _ =>
    rcases hnone with hno | hno
    · exact absurd hno (h.ready.maildir hstate)
    · exact absurd hno (h.ready.user hstate)

/-- The two answers to a password agree exactly when the right user is selected or the password is
nobody's. -/
theorem admitted_agrees_iff (l : Login) (target : Option User) (arg : Option Bytes) :
    (∀ u, l.admitted .pass arg = some u ↔ target = some u ∧ arg = some u.pass) ↔
      (l.clientState = .authorization ∧ l.user = target) ∨
        ((∀ u, target = some u → arg ≠ some u.pass) ∧
          (l.clientState = .authorization → ∀ v, l.user = some v → arg ≠ some v.pass)) := by
  simp only [Login.admitted_eq_some, true_and]
  by_cases hstate : l.clientState = .authorization
  · simp only [hstate, true_and, true_implies]
    constructor
    · intro h
      by_cases hhit : ∃ u, target = some u ∧ arg = some u.pass
      · obtain ⟨u, hu⟩ := hhit
        exact .inl (((h u).mpr hu).1.trans hu.1.symm)
      · refine .inr ⟨fun u hu harg => hhit ⟨u, hu, harg⟩, fun v hv harg => ?_⟩
        exact hhit ⟨v, (h v).mp ⟨hv, harg⟩⟩
    · rintro (h | ⟨htarget, hselected⟩) u
      · rw [h]
      · exact iff_of_false (fun hu => hselected u hu.1 hu.2) (fun hu => htarget u hu.1 hu.2)
  · simp only [hstate, false_and, false_or, false_implies, and_true, false_iff]
    exact forall_congr' fun u => not_and

/-- **One exchange does what is asked exactly under the condition.** -/
theorem exchange_authentic_iff (hnames : (users.list.map (·.name)).Nodup)
    (hpast : ∀ c ∈ past, getCommandValue c = .user ∨ getCommandValue c = .pass)
    (h : x.Follows users past) (h4 : 4 ≤ x.command.length)
    (hfit : x.command.length ≤ 2 * BUFFER_SIZE) :
    Authentic users past x ↔ CredentialsOk users past x.command := by
  obtain ⟨hselected, hstate⟩ := @afterLines_new users past hpast
  have hnew : (Login.afterLines users ⟨.authorization, none⟩ past).clientState = .authorization ↔
      ¬ PassGiven users past := by
    rcases hstate with ⟨hl, hnot⟩ | ⟨hl, hgiven⟩
    · exact iff_of_true hl hnot
    · exact iff_of_false (by simp [hl]) (not_not_intro hgiven)
  have hpass : getCommandValue x.command = .pass →
      ((∀ u, x.LogsIn u ↔ u ∈ users.list ∧ lastUserArgument past = some u.name ∧
          argument x.command = some u.pass) ↔
        (¬ PassGiven users past ∧ selectedBy users past = named users past) ∨
          ((∀ u, named users past = some u → argument x.command ≠ some u.pass) ∧
            (¬ PassGiven users past → ∀ v, selectedBy users past = some v →
              argument x.command ≠ some v.pass))) := fun hc => by
    simp only [logsIn_iff_admitted h h4 hfit hc, h.login, ← and_assoc,
      ← named_eq_some_iff hnames, ← hnew, ← hselected]
    exact admitted_agrees_iff _ (named users past) (argument x.command)
  have huser : getCommandValue x.command = .user →
      (((argument x.command = some [] ∨ ∀ u ∈ users.list, argument x.command ≠ some u.name) →
          x.SelectsNobody) ↔
        ∀ a, argument x.command = some a →
          (a ≠ [] ∧ ∃ u ∈ users.list, u.name = a) ∨ ∀ u ∈ users.list, ¬ a <+: u.name) := fun hc => by
    rw [selectsNobody_iff h h4 hfit hc, selected_eq_none_iff]
    constructor
    · intro hall a ha
      by_cases hex : a ≠ [] ∧ ∃ u ∈ users.list, u.name = a
      · exact .inl hex
      · refine .inr (hall ?_ a ha)
        by_cases hempty : a = []
        · exact .inl (hempty ▸ ha)
        · refine .inr fun u hu harg => hex ⟨hempty, u, hu, ?_⟩
          rw [ha] at harg
          exact (Option.some.inj harg).symm
    · intro hall hno a ha u hu
      rcases hall a ha with ⟨hempty, v, hv, rfl⟩ | hbegins
      · rcases hno with hnil | hno
        · exact absurd (Option.some.inj (ha.symm.trans hnil)) hempty
        · exact absurd ha (hno v hv)
      · exact hbegins u hu
  constructor
  · rintro ⟨hp, hu⟩
    exact ⟨fun hc => (hpass hc).mp (hp hc), fun hc => (huser hc).mp (hu hc)⟩
  · rintro ⟨hp, hu⟩
    exact ⟨fun hc => (hpass hc).mpr (hp hc), fun hc => (huser hc).mpr (hu hc)⟩

/-! ### Runs of USER and PASS -/

theorem exchanges_follow {w : LoopState} (hready : w.session.Ready)
    (hfresh : w.session.login = ⟨.authorization, none⟩) {lines : List Bytes}
    (hfit : ∀ c ∈ lines, c.length ≤ 2 * BUFFER_SIZE) {pre : List Exchange} {x : Exchange}
    {post : List Exchange} (h : exchanges w lines = pre ++ x :: post) :
    x.Follows w.shared.pop3.userList (pre.map (·.command)) ∧
      ∀ c ∈ pre.map (·.command) ++ [x.command], c ∈ lines := by
  obtain ⟨hpass, hx, hbegins⟩ := exchanges_split h
  have hmem : ∀ c ∈ pre.map (·.command) ++ [x.command], c ∈ lines :=
    fun c hc => hbegins.subset hc
  have hpre : ∀ c ∈ pre.map (·.command), c.length ≤ 2 * BUFFER_SIZE :=
    fun c hc => hfit c (hmem c (by simp [hc]))
  have hsame := SameConfiguration.refl hready
  have hfinal := hsame.of_passes hpre hpass
  have hlogin := hsame.final_login hpre hpass
  rw [hfresh] at hlogin
  refine ⟨?_, hmem⟩
  rw [hx]
  exact ⟨hfinal.users, hfinal.ready, hlogin⟩

/-- **In a run of USER and PASS lines every exchange does what is asked exactly when every line
meets the condition.** -/
theorem authentic_iff {w : LoopState} (hready : w.session.Ready)
    (hfresh : w.session.login = ⟨.authorization, none⟩)
    (hnames : (w.shared.pop3.userList.list.map (·.name)).Nodup) {lines : List Bytes}
    (hcredentials : ∀ c ∈ lines, getCommandValue c = .user ∨ getCommandValue c = .pass)
    (hfit : ∀ c ∈ lines, c.length ≤ 2 * BUFFER_SIZE) :
    (Machine.Along (exchanges w lines) fun past x =>
      Authentic w.shared.pop3.userList (past.map (·.command)) x) ↔
    (Machine.Along (exchanges w lines) fun past x =>
      CredentialsOk w.shared.pop3.userList (past.map (·.command)) x.command) := by
  refine forall₃_congr fun pre x post => forall_congr' fun h => ?_
  obtain ⟨hfollows, hmem⟩ := exchanges_follow hready hfresh hfit h
  have hx : x.command ∈ lines := hmem _ (by simp)
  refine exchange_authentic_iff hnames (fun c hc => ?_) hfollows (length_of_keyword ?_) (hfit _ hx)
  · exact hcredentials c (hmem c (List.mem_append_left _ hc))
  · rcases hcredentials _ hx with hc | hc <;> rw [hc] <;> decide

theorem authentic_ordinary_login :
    Machine.Along (exchanges sampleLoop [str "USER anna", str "PASS secret"]) fun past x =>
      Authentic sampleShared.pop3.userList (past.map (·.command)) x := by
  refine (authentic_iff sampleSession_ready rfl (by decide) (by decide) (by decide)).mpr ?_
  rw [exchanges_pair (by decide +kernel)]
  refine Machine.along_cons ?_ (Machine.along_cons ?_ (Machine.along_nil _))
  · refine ⟨fun hpass => absurd hpass (by decide), fun _ a ha => .inl ?_⟩
    obtain rfl : str "anna" = a := Option.some.inj ha
    exact ⟨by decide, ⟨str "anna", str "secret"⟩, by decide, rfl⟩
  · refine ⟨fun _ => .inl ⟨?_, by decide +kernel⟩, fun huser => absurd huser (by decide)⟩
    exact @not_passGiven_concat_user _ [] (str "USER anna") (by decide)

/-- The password of anna, after a USER line that names ann. -/
theorem authentic_other_password :
    ¬ ∀ (w : LoopState), w.session.Ready → w.session.login = ⟨.authorization, none⟩ →
      (w.shared.pop3.userList.list.map (·.name)).Nodup → ∀ lines : List Bytes,
      (∀ c ∈ lines, getCommandValue c = .user ∨ getCommandValue c = .pass) →
      (∀ c ∈ lines, c.length ≤ 2 * BUFFER_SIZE) →
      Machine.Along (exchanges w lines) fun past x =>
        Authentic w.shared.pop3.userList (past.map (·.command)) x := by
  intro h
  have hpass := h sampleLoop sampleSession_ready rfl (by decide) [str "USER ann", str "PASS secret"]
    (by decide) (by decide) [sampleLoop.exchange (str "USER ann")] _ []
    (exchanges_pair (by decide +kernel) _)
  have hlogin := (hpass.pass (by decide) ⟨str "anna", str "secret"⟩).mp
    ⟨by decide +kernel, by decide +kernel, by decide +kernel⟩
  exact absurd hlogin.2.1 (by decide)

end Pop3Server
