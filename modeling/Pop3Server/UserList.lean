import Mathlib.Data.List.Count
import Pop3Server.Arguments

/-!
# The user list of the command line

`strsep` yields the two parts of an argument when both fit its arrays, and
stores past their end when one does not (`strsep_eq`).  The limit of
`parse_args` counts the `-u` options only: `UsersCase` lists how the options can
end, and `user_list_iff` when the list they leave is the one that was asked for.
-/

namespace Pop3Server

open Splitting

/-- The user that `name:pass` stands for. -/
def userOf (s : Bytes) : User := ⟨before COLON s, (after COLON s).getD []⟩

/-- The name and the password fit the arrays they are stored in. -/
def FieldsFit (s : Bytes) : Prop :=
  (userOf s).name.length < USER_SIZE ∧ (userOf s).pass.length < USER_SIZE

instance (s : Bytes) : Decidable (FieldsFit s) := inferInstanceAs (Decidable (_ ∧ _))

/-- The users an option asks for. -/
def Opt.users : Opt → List User
  | .u optarg => [userOf optarg]
  | .default => Pop3Server.users.map userOf
  | _ => []

def Opt.userArgument : Opt → Option Bytes
  | .u optarg => some optarg
  | _ => none

/-- The arguments of the `-u` options. -/
def userArguments (opts : List Opt) : List Bytes := opts.filterMap Opt.userArgument

/-- `-u name:pass`, or `--default`. -/
def Opt.AsksUsers : Opt → Prop
  | .u optarg => COLON ∈ optarg
  | .default => True
  | _ => False

instance : ∀ o : Opt, Decidable o.AsksUsers
  | .u optarg => inferInstanceAs (Decidable (COLON ∈ optarg))
  | .default => .isTrue trivial
  | .h | .l _ | .L _ | .N _ | .P _ | .v _ | .T _ | .d _ | .p _ | .ip _ | .port _ | .host _
  | .path _ | .unknown => .isFalse id

/-- When `parse_args` returns, the list has the size it says, at most `MAX_USERS`, and the users of
the options in their order; the arrays of `strsep` are never overrun. -/
def UsersFaithful (behind : Bytes → Bytes) (argv : List Bytes) : Prop :=
  match parseArgs behind argv with
  | .ok args =>
    args.pop3.userList.size = args.pop3.userList.list.length ∧
      args.pop3.userList.size ≤ MAX_USERS ∧
        args.pop3.userList.list = (options argv).flatMap Opt.users
  | .error (.exit _) => True
  | .error .overrun => False

/-- The arguments that are looked at fit, and the users of all options do, or there are so many `-u`
options that the process ends. -/
structure UsersFit (opts : List Opt) : Prop where
  fields : ∀ s ∈ (userArguments opts).take MAX_USERS, FieldsFit s
  number : MAX_USERS < (userArguments opts).length ∨
    (userArguments opts).length + 6 * opts.count .default ≤ MAX_USERS

/-! ### One argument -/

theorem store_of_lt {field : Bytes} (h : field.length < USER_SIZE) (c : Byte) :
    store field c = .ok (field ++ [c]) := if_pos h

theorem store_of_le {field : Bytes} (h : USER_SIZE ≤ field.length) (c : Byte) :
    store field c = .error .overrun := if_neg (Nat.not_lt.mpr h)

theorem firstField_of_le {delim : Byte} {p : Bytes} (hp : delim ∉ p) {field : Bytes}
    (h : field.length + p.length ≤ USER_SIZE) (rest : Bytes) :
    firstField delim field (p ++ delim :: rest) = .ok (field ++ p, delim :: rest) := by
  induction p generalizing field with
  | nil =>
    rw [List.nil_append, firstField, if_neg (not_not_intro rfl), List.append_nil]
    rfl
  | cons c p ih =>
    simp only [List.mem_cons, not_or] at hp
    rw [List.length_cons] at h
    rw [List.cons_append, firstField, if_pos fun e => hp.1 e.symm, store_of_lt (by omega)]
    refine (ih hp.2 ?_).trans ?_
    · rw [List.length_append, List.length_singleton]
      omega
    · rw [List.append_assoc, List.singleton_append]

theorem firstField_of_gt {delim : Byte} {p : Bytes} (hp : delim ∉ p) {field : Bytes}
    (hfield : field.length ≤ USER_SIZE) (h : USER_SIZE < field.length + p.length) (rest : Bytes) :
    firstField delim field (p ++ delim :: rest) = .error .overrun := by
  induction p generalizing field with
  | nil => exact absurd h (Nat.not_lt.mpr hfield)
  | cons c p ih =>
    simp only [List.mem_cons, not_or] at hp
    rw [List.length_cons] at h
    rw [List.cons_append, firstField, if_pos fun e => hp.1 e.symm]
    by_cases hroom : field.length < USER_SIZE
    · rw [store_of_lt hroom]
      apply ih hp.2
      · rwa [List.length_append]
      · rw [List.length_append, List.length_singleton]
        omega
    · rw [store_of_le (Nat.le_of_not_lt hroom)]
      rfl

theorem secondField_of_le {field s : Bytes} (h : field.length + s.length ≤ USER_SIZE) :
    secondField field s = .ok (field ++ s) := by
  induction s generalizing field with
  | nil =>
    rw [secondField, List.append_nil]
    rfl
  | cons c s ih =>
    rw [List.length_cons] at h
    rw [secondField, store_of_lt (by omega)]
    refine (ih ?_).trans ?_
    · rw [List.length_append, List.length_singleton]
      omega
    · rw [List.append_assoc, List.singleton_append]

theorem secondField_of_gt {field s : Bytes} (hfield : field.length ≤ USER_SIZE)
    (h : USER_SIZE < field.length + s.length) : secondField field s = .error .overrun := by
  induction s generalizing field with
  | nil => exact absurd h (Nat.not_lt.mpr hfield)
  | cons c s ih =>
    rw [List.length_cons] at h
    rw [secondField]
    by_cases hroom : field.length < USER_SIZE
    · rw [store_of_lt hroom]
      apply ih
      · rwa [List.length_append]
      · rw [List.length_append, List.length_singleton]
        omega
    · rw [store_of_le (Nat.le_of_not_lt hroom)]
      rfl

section Separate

variable {delim : Byte} {name : Bytes} (hdelim : delim ∉ name) {pass : Bytes}
include hdelim

/-- **`strsep` yields what lies around the first delimiter when both parts fit with their NUL.** -/
theorem strsep_of_fit (hname : name.length < USER_SIZE) (hpass : pass.length < USER_SIZE) :
    strsep (name ++ delim :: pass) delim = .ok (some (name, pass)) := by
  have hfirst : firstField delim [] (name ++ delim :: pass) = .ok (name, delim :: pass) :=
    firstField_of_le hdelim (by simpa using Nat.le_of_lt hname) pass
  have hsecond : secondField [] pass = .ok pass :=
    secondField_of_le (by simpa using Nat.le_of_lt hpass)
  simp only [strsep, hfirst, hsecond, store_of_lt hname, store_of_lt hpass, bind, Except.bind]
  rfl

/-- A part that does not fit is stored past the end of its array. -/
theorem strsep_of_long (h : ¬ (name.length < USER_SIZE ∧ pass.length < USER_SIZE)) :
    strsep (name ++ delim :: pass) delim = .error .overrun := by
  by_cases hfirst : name.length ≤ USER_SIZE
  case neg =>
    rw [strsep, firstField_of_gt hdelim (Nat.zero_le _) (by simpa using hfirst)]
    rfl
  have hfirst : firstField delim [] (name ++ delim :: pass) = .ok (name, delim :: pass) :=
    firstField_of_le hdelim (by simpa using hfirst) pass
  by_cases hname : name.length < USER_SIZE
  case neg =>
    simp only [strsep, hfirst, store_of_le (Nat.le_of_not_lt hname), bind, Except.bind]
  have hpass : USER_SIZE ≤ pass.length := Nat.le_of_not_lt fun hpass => h ⟨hname, hpass⟩
  by_cases hsecond : pass.length ≤ USER_SIZE
  · have hsecond : secondField [] pass = .ok pass := secondField_of_le (by simpa using hsecond)
    simp only [strsep, hfirst, hsecond, store_of_lt hname, store_of_le hpass, bind, Except.bind]
  · have hsecond : secondField [] pass = .error .overrun :=
      secondField_of_gt (Nat.zero_le _) (by simpa using hsecond)
    simp only [strsep, hfirst, hsecond, store_of_lt hname, bind, Except.bind]

end Separate

theorem userOf_append {name : Bytes} (h : COLON ∉ name) (pass : Bytes) :
    userOf (name ++ COLON :: pass) = ⟨name, pass⟩ := by
  rw [userOf, before_append_piece h, after_append_piece h]
  rfl

theorem user_of_fit {s : Bytes} (h : COLON ∈ s) (hfit : FieldsFit s) (l : UserListHeader) :
    user s l = .ok (l.append (userOf s)) := by
  obtain ⟨name, pass, rfl, hname⟩ := List.eq_append_cons_of_mem h
  unfold FieldsFit at hfit
  rw [userOf_append hname] at hfit ⊢
  rw [user, strsep_of_fit hname hfit.1 hfit.2]
  rfl

theorem user_of_long {s : Bytes} (h : COLON ∈ s) (hlong : ¬ FieldsFit s) (l : UserListHeader) :
    user s l = .error .overrun := by
  obtain ⟨name, pass, rfl, hname⟩ := List.eq_append_cons_of_mem h
  unfold FieldsFit at hlong
  rw [userOf_append hname] at hlong
  rw [user, strsep_of_long hname hlong]
  rfl

/-! ### All options -/

theorem append_list (l : UserListHeader) (u : User) : (l.append u).list = l.list ++ [u] := rfl

/-- The users of `--default` are stored one behind the other. -/
theorem foldlM_user {ss : List Bytes} (h : ∀ s ∈ ss, COLON ∈ s ∧ FieldsFit s) (l : UserListHeader) :
    ∃ l', ss.foldlM (fun l s => user s l) l = .ok l' ∧ l'.list = l.list ++ ss.map userOf := by
  induction ss generalizing l with
  | nil => exact ⟨l, rfl, (List.append_nil _).symm⟩
  | cons s ss ih =>
    obtain ⟨hcolon, hfit⟩ := h s List.mem_cons_self
    obtain ⟨l', hfold, hlist⟩ := ih (fun s hs => h s (List.mem_cons_of_mem _ hs))
      (l.append (userOf s))
    refine ⟨l', ?_, ?_⟩
    · rw [List.foldlM_cons, user_of_fit hcolon hfit]
      exact hfold
    · rw [hlist, append_list, List.append_assoc, List.map_cons, List.singleton_append]

/-- How the options end when `room` more `-u` options are let through. -/
inductive UsersCase (opts : List Opt) (room : Nat) (l : List User) : Except ArgsEnd Parsing → Prop
  | parsed {p : Parsing} (hfields : ∀ s ∈ userArguments opts, FieldsFit s)
      (hroom : (userArguments opts).length ≤ room)
      (hlist : p.args.pop3.userList.list = l ++ opts.flatMap Opt.users) :
      UsersCase opts room l (.ok p)
  | maximum (hfields : ∀ s ∈ (userArguments opts).take room, FieldsFit s)
      (hmore : room < (userArguments opts).length) :
      UsersCase opts room l (.error (.exit .maximumUsers))
  | overrun {s : Bytes} (hs : s ∈ (userArguments opts).take room) (hlong : ¬ FieldsFit s) :
      UsersCase opts room l (.error .overrun)

theorem UsersCase.u {s : Bytes} (hfit : FieldsFit s) {opts : List Opt} {room : Nat} {l : List User}
    {r : Except ArgsEnd Parsing} (h : UsersCase opts room (l ++ [userOf s]) r) :
    UsersCase (.u s :: opts) (room + 1) l r := by
  have hcons : userArguments (.u s :: opts) = s :: userArguments opts := rfl
  cases h with
  | parsed hfields hroom hlist =>
    refine .parsed ?_ (Nat.succ_le_succ hroom) ?_
    · rw [hcons]
      exact List.forall_mem_cons.mpr ⟨hfit, hfields⟩
    · rw [hlist, List.flatMap_cons, List.append_assoc]
      rfl
  | maximum hfields hmore =>
    refine .maximum ?_ (Nat.succ_lt_succ hmore)
    rw [hcons, List.take_succ_cons]
    exact List.forall_mem_cons.mpr ⟨hfit, hfields⟩
  | overrun hs hlong =>
    refine .overrun ?_ hlong
    rw [hcons, List.take_succ_cons]
    exact List.mem_cons_of_mem _ hs

theorem UsersCase.default {opts : List Opt} {room : Nat} {l : List User}
    {r : Except ArgsEnd Parsing} (h : UsersCase opts room (l ++ users.map userOf) r) :
    UsersCase (.default :: opts) room l r := by
  cases h with
  | parsed hfields hroom hlist =>
    refine .parsed hfields hroom ?_
    rw [hlist, List.flatMap_cons, List.append_assoc]
    rfl
  | maximum hfields hmore => exact .maximum hfields hmore
  | overrun hs hlong => exact .overrun hs hlong

/-- **The options are parsed, end at the eleventh `-u`, or overrun an array.** -/
theorem users_cases (behind : Bytes → Bytes) {opts : List Opt} (h : ∀ o ∈ opts, o.AsksUsers)
    (p : Parsing) :
    UsersCase opts (MAX_USERS - p.nusers) p.args.pop3.userList.list
      (opts.foldlM (parseOption behind) p) := by
  induction opts generalizing p with
  | nil => exact .parsed nofun (Nat.zero_le _) (List.append_nil _).symm
  | cons o opts ih =>
    have hasks := h o List.mem_cons_self
    have ih := ih fun o ho => h o (List.mem_cons_of_mem _ ho)
    rw [List.foldlM_cons]
    cases o with
    | u s =>
      have hcons : userArguments (.u s :: opts) = s :: userArguments opts := rfl
      by_cases hfull : MAX_USERS ≤ p.nusers
      · have hnone : MAX_USERS - p.nusers = 0 := Nat.sub_eq_zero_of_le hfull
        have hstep : parseOption behind p (.u s) = .error (.exit .maximumUsers) := if_pos hfull
        rw [hstep, hnone]
        exact .maximum (by simp) (by simp [hcons])
      · obtain ⟨room, hroom⟩ : ∃ room, MAX_USERS - p.nusers = room + 1 :=
          ⟨MAX_USERS - p.nusers - 1, by omega⟩
        have hnext : MAX_USERS - (p.nusers + 1) = room := by omega
        rw [hroom]
        by_cases hfit : FieldsFit s
        · have hstep : parseOption behind p (.u s) = .ok
              ⟨{ p.args with pop3 := { p.args.pop3 with
                userList := p.args.pop3.userList.append (userOf s) } }, p.nusers + 1⟩ := by
            rw [parseOption, if_neg hfull, user_of_fit hasks hfit]
            rfl
          have hcase := ih ⟨{ p.args with pop3 := { p.args.pop3 with
            userList := p.args.pop3.userList.append (userOf s) } }, p.nusers + 1⟩
          rw [hnext] at hcase
          rw [hstep]
          exact hcase.u hfit
        · have hstep : parseOption behind p (.u s) = .error .overrun := by
            rw [parseOption, if_neg hfull, user_of_long hasks hfit]
            rfl
          rw [hstep]
          exact .overrun (by simp [hcons]) hfit
    | default =>
      have hsix : ∀ s ∈ users, COLON ∈ s ∧ FieldsFit s := by decide
      obtain ⟨l', hfold, hlist⟩ := foldlM_user hsix p.args.pop3.userList
      have hstep : ∃ p', parseOption behind p .default = .ok p' ∧ p'.nusers = p.nusers ∧
          p'.args.pop3.userList = l' := by
        rw [parseOption, hfold]
        exact ⟨_, rfl, rfl, rfl⟩
      obtain ⟨p', hok, hnusers, hl'⟩ := hstep
      have hcase := ih p'
      rw [hnusers, hl', hlist] at hcase
      rw [hok]
      exact hcase.default
    | _ => cases hasks

theorem length_users (opts : List Opt) :
    (opts.flatMap Opt.users).length = (userArguments opts).length + 6 * opts.count .default := by
  induction opts with
  | nil => rfl
  | cons o opts ih =>
    rw [List.flatMap_cons, List.length_append, ih, List.count_cons]
    cases o with
    | u s =>
      have hcons : userArguments (.u s :: opts) = s :: userArguments opts := rfl
      rw [hcons, List.length_cons]
      simp only [Opt.users, List.length_singleton, beq_iff_eq, reduceCtorEq, if_false]
      omega
    | default =>
      have hcons : userArguments (.default :: opts) = userArguments opts := rfl
      have hsix : (Opt.users .default).length = 6 := rfl
      rw [hcons, hsix]
      simp only [BEq.rfl, if_true]
      omega
    | _ => exact Nat.zero_add _

/-- **The list is the one that was asked for exactly when the names and passwords that are looked at
fit, and the users of the `-u` and the `--default` options together do not exceed the limit** or
there are more `-u` options than it allows. -/
theorem user_list_iff (behind : Bytes → Bytes) {argv : List Bytes}
    (hoptions : ∀ o ∈ options argv, o.AsksUsers) (hleftover : leftover argv = []) :
    UsersFaithful behind argv ↔ UsersFit (options argv) := by
  have hcase := users_cases behind hoptions ⟨defaultArgs, 0⟩
  unfold UsersFaithful parseArgs
  generalize (options argv).foldlM (parseOption behind) ⟨defaultArgs, 0⟩ = r at hcase
  cases hcase with
  | @parsed p hfields hroom hlist =>
    have hlist : p.args.pop3.userList.list = (options argv).flatMap Opt.users := hlist
    have hroom : (userArguments (options argv)).length ≤ MAX_USERS := hroom
    have hlength := p.args.pop3.userList.size_eq
    have husers := length_users (options argv)
    simp only [bind, Except.bind, if_neg (not_not_intro hleftover)]
    change (p.args.pop3.userList.size = p.args.pop3.userList.list.length ∧
      p.args.pop3.userList.size ≤ MAX_USERS ∧ p.args.pop3.userList.list = _) ↔ _
    rw [hlength, hlist, husers]
    constructor
    · rintro ⟨-, hsize, -⟩
      exact ⟨fun s hs => hfields s (List.mem_of_mem_take hs), .inr hsize⟩
    · rintro ⟨-, hmore | hsize⟩
      · exact absurd hroom (Nat.not_le.mpr hmore)
      · exact ⟨rfl, hsize, rfl⟩
  | maximum hfields hmore => exact iff_of_true trivial ⟨hfields, .inl hmore⟩
  | overrun hs hlong => exact iff_of_false id fun h => hlong (h.fields _ hs)

/-- Two users, and the six of `--default`. -/
theorem user_list_eight :
    UsersFaithful (fun _ => []) [str "pop3d", str "-u", str "anna:secret", str "--default",
      str "-uben:a:b"] :=
  (user_list_iff (fun _ => []) (by decide) (by decide)).mpr ⟨by decide, .inr (by decide)⟩

/-- The users of `--default` are not counted: given twice, it leaves twelve. -/
theorem user_list_twelve :
    ¬ ∀ (behind : Bytes → Bytes) (argv : List Bytes), (∀ o ∈ options argv, o.AsksUsers) →
      leftover argv = [] → UsersFaithful behind argv := by
  intro h
  have htwelve := h (fun _ => []) [str "pop3d", str "--default", str "--default"] (by decide)
    (by decide)
  have hsize : (parseArgs (fun _ => []) [str "pop3d", str "--default", str "--default"]).toOption.map
      (·.pop3.userList.size) = some 12 := by decide +kernel
  unfold UsersFaithful at htwelve
  split at htwelve
  · next args hargs =>
    rw [hargs] at hsize
    have hsize : args.pop3.userList.size = 12 := Option.some.inj hsize
    rw [hsize] at htwelve
    exact absurd htwelve.2.1 (by decide)
  · next hend =>
    rw [hend] at hsize
    cases hsize
  · exact htwelve

end Pop3Server
