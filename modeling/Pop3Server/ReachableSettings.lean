import Pop3Server.CommandLine

/-!
# The settings a command line can give

`Opt.words` writes an option and `getopt_long` reads it back, so that every list
of options is the options of a command line (`getoptLong_words`).  What the
settings can be is told by `Reachable`: the users come one by one, at most ten of
them, or in the six of `--default`; a transformation that is off with its program
set was turned off by `--default`; the rest is free.
-/

namespace Pop3Server

open Splitting Folding

/-! ### Writing options -/

/-- An option as it can be written on a command line. -/
def Opt.words : Opt → List Bytes
  | .h => [str "-h"]
  | .l optarg => [str "-l", optarg]
  | .L optarg => [str "-L", optarg]
  | .N optarg => [str "-N", optarg]
  | .P optarg => [str "-P", optarg]
  | .u optarg => [str "-u", optarg]
  | .v optarg => [str "-v", optarg]
  | .T optarg => [str "-T", optarg]
  | .d optarg => [str "-d", optarg]
  | .p optarg => [str "-p", optarg]
  | .ip optarg => [str "--ip", optarg]
  | .port optarg => [str "--port", optarg]
  | .host optarg => [str "--host", optarg]
  | .path optarg => [str "--path", optarg]
  | .default => [str "--default"]
  | .unknown => [str "-?"]

theorem getoptLong_option (o : Opt) (rest : List Bytes) :
    getoptLong none (o.words ++ rest) =
      (o :: (getoptLong none rest).1, (getoptLong none rest).2) := by
  cases o with
  | _ => rfl

/-- **Options that are written are read back**, and nothing is left over. -/
theorem getoptLong_words (opts : List Opt) :
    getoptLong none (opts.flatMap Opt.words) = (opts, []) := by
  induction opts with
  | nil => rfl
  | cons o opts ih => rw [List.flatMap_cons, getoptLong_option, ih]

/-- The argument of an option. -/
def Opt.optarg : Opt → Option Bytes
  | .l optarg | .L optarg | .N optarg | .P optarg | .u optarg | .v optarg | .T optarg | .d optarg
  | .p optarg | .ip optarg | .port optarg | .host optarg | .path optarg => some optarg
  | .h | .default | .unknown => none

/-- The argument of an option, if it has one, is a string. -/
def Opt.Textual (o : Opt) : Prop := ∀ s ∈ o.optarg, NUL ∉ s

theorem nul_notMem_words {o : Opt} (h : o.Textual) : ∀ s ∈ o.words, NUL ∉ s := by
  intro s hs
  cases o with
  | h | default | unknown =>
    cases List.mem_singleton.mp hs
    decide
  | l arg | L arg | N arg | P arg | u arg | v arg | T arg | d arg | p arg | ip arg | port arg
  | host arg | path arg =>
    rcases List.mem_cons.mp hs with rfl | hs
    · decide
    · cases List.mem_singleton.mp hs
      exact h s rfl

/-! ### Arguments come from the command line -/

/-- The option keeps the argument it is given. -/
def Keeps (o : Bytes → Opt) : Prop := ∀ s, (o s).optarg = some s

theorem shortOption_declared {letter : Byte} {d : Declared} (h : shortOption letter = some d) :
    d = .plain .h ∨ ∃ o, d = .withArgument o ∧ Keeps o := by
  obtain ⟨e, he, rfl⟩ := Option.map_eq_some_iff.mp h
  have hmem := List.mem_of_find?_eq_some he
  simp only [shortOptions, List.mem_cons, List.not_mem_nil, or_false] at hmem
  rcases hmem with rfl | rfl | rfl | rfl | rfl | rfl | rfl | rfl | rfl | rfl
  · exact .inl rfl
  all_goals exact .inr ⟨_, rfl, fun _ => rfl⟩

theorem longOption_declared {name : Bytes} {d : Declared} (h : longOption name = some d) :
    d = .plain .default ∨ ∃ o, d = .withArgument o ∧ Keeps o := by
  have hmem : ∃ e ∈ longOptions, e.2 = d := by
    unfold longOption at h
    split at h
    · next e he => exact ⟨e, List.mem_of_find?_eq_some he, Option.some.inj h⟩
    · split at h
      · next e he =>
        have hin : e ∈ longOptions.filter (name.isPrefixOf ·.1) := he ▸ List.mem_singleton_self e
        exact ⟨e, List.mem_of_mem_filter hin, Option.some.inj h⟩
      · cases h
  obtain ⟨e, he, rfl⟩ := hmem
  simp only [longOptions, List.mem_cons, List.not_mem_nil, or_false] at he
  rcases he with rfl | rfl | rfl | rfl | rfl
  · exact .inr ⟨_, rfl, fun _ => rfl⟩
  · exact .inr ⟨_, rfl, fun _ => rfl⟩
  · exact .inr ⟨_, rfl, fun _ => rfl⟩
  · exact .inr ⟨_, rfl, fun _ => rfl⟩
  · exact .inl rfl

/-- The options in an element are textual when it is, and so is the one that waits for its argument
once it has it. -/
def ElementTextual (found : ElementOptions) : Prop :=
  (∀ o ∈ found.1, o.Textual) ∧ ∀ o ∈ found.2, Keeps o

theorem textual_of_keeps {o : Bytes → Opt} (h : Keeps o) {s : Bytes} (hs : NUL ∉ s) :
    (o s).Textual := by
  intro t ht
  rw [h s] at ht
  cases ht
  exact hs

theorem letterOptions_textual {text : Bytes} (h : NUL ∉ text) :
    ElementTextual (letterOptions text) := by
  induction text with
  | nil => exact ⟨fun _ h => absurd h List.not_mem_nil, fun _ h => by cases h⟩
  | cons letter letters ih =>
    simp only [List.mem_cons, not_or] at h
    have hrest := ih h.2
    unfold letterOptions
    split
    · refine ⟨fun o ho => ?_, hrest.2⟩
      rcases List.mem_cons.mp ho with rfl | ho
      · exact fun s hs => by cases hs
      · exact hrest.1 o ho
    · next o hdeclared =>
      rcases shortOption_declared hdeclared with hplain | ⟨_, harg, _⟩
      · cases hplain
        refine ⟨fun o ho => ?_, hrest.2⟩
        rcases List.mem_cons.mp ho with rfl | ho
        · exact fun s hs => by cases hs
        · exact hrest.1 o ho
      · cases harg
    · next o hdeclared =>
      rcases shortOption_declared hdeclared with hplain | ⟨_, harg, hkeeps⟩
      · cases hplain
      · cases harg
        split
        · refine ⟨fun _ h => absurd h List.not_mem_nil, fun o ho => ?_⟩
          cases ho
          exact hkeeps
        · refine ⟨fun o ho => ?_, fun _ h => by cases h⟩
          cases List.mem_singleton.mp ho
          exact textual_of_keeps hkeeps h.2

theorem nameOptions_textual {text : Bytes} (h : NUL ∉ text) :
    ElementTextual (nameOptions text) := by
  unfold nameOptions
  split
  · refine ⟨fun o ho => ?_, fun _ h => by cases h⟩
    cases List.mem_singleton.mp ho
    exact fun s hs => by cases hs
  · next o hdeclared _ =>
    rcases longOption_declared hdeclared with hplain | ⟨_, harg, _⟩
    · cases hplain
      refine ⟨fun o ho => ?_, fun _ h => by cases h⟩
      cases List.mem_singleton.mp ho
      exact fun s hs => by cases hs
    · cases harg
  · refine ⟨fun o ho => ?_, fun _ h => by cases h⟩
    cases List.mem_singleton.mp ho
    exact fun s hs => by cases hs
  · next o optarg hdeclared hafter =>
    rcases longOption_declared hdeclared with hplain | ⟨_, harg, hkeeps⟩
    · cases hplain
    · cases harg
      refine ⟨fun o ho => ?_, fun _ h => by cases h⟩
      cases List.mem_singleton.mp ho
      refine textual_of_keeps hkeeps fun hnul => h ?_
      rw [eq_of_after hafter]
      exact List.mem_append_right _ (List.mem_cons_of_mem _ hnul)
  · next o hdeclared _ =>
    rcases longOption_declared hdeclared with hplain | ⟨_, harg, hkeeps⟩
    · cases hplain
    · cases harg
      refine ⟨fun _ h => absurd h List.not_mem_nil, fun o ho => ?_⟩
      cases ho
      exact hkeeps

/-- **The arguments of the options are strings of the command line.** -/
theorem getoptLong_textual {args : List Bytes} (h : ∀ s ∈ args, NUL ∉ s)
    {pending : Option (Bytes → Opt)} (hpending : ∀ o ∈ pending, Keeps o) :
    ∀ o ∈ (getoptLong pending args).1, o.Textual := by
  induction args generalizing pending with
  | nil =>
    intro o ho
    cases pending with
    | none => exact absurd ho List.not_mem_nil
    | some f =>
      cases List.mem_singleton.mp ho
      exact fun s hs => by cases hs
  | cons e rest ih =>
    have hrest := fun s hs => h s (List.mem_cons_of_mem _ hs)
    have he : NUL ∉ e := h e List.mem_cons_self
    have hnone : ∀ o ∈ (getoptLong none rest).1, o.Textual := ih hrest fun _ h => by cases h
    intro o ho
    cases pending with
    | some f =>
      rcases List.mem_cons.mp ho with rfl | ho
      · exact textual_of_keeps (hpending f rfl) he
      · exact hnone o ho
    | none =>
      cases e with
      | nil => exact hnone o ho
      | cons first text =>
        simp only [List.mem_cons, not_or] at he
        simp only [getoptLong] at ho
        split at ho
        · exact hnone o ho
        split at ho
        · exact absurd ho List.not_mem_nil
        have hfound : ElementTextual
            (if text.head? = some HYPHEN then nameOptions text.tail else letterOptions text) := by
          split
          · exact nameOptions_textual fun hnul => he.2 (List.mem_of_mem_tail hnul)
          · exact letterOptions_textual he.2
        rcases List.mem_append.mp ho with ho | ho
        · exact hfound.1 o ho
        · exact ih hrest hfound.2 o ho

/-! ### What the settings can be -/

/-- A user that `-u` can give. -/
structure User.Given (u : User) : Prop where
  name : COLON ∉ u.name ∧ NUL ∉ u.name ∧ u.name.length < USER_SIZE
  pass : NUL ∉ u.pass ∧ u.pass.length < USER_SIZE

/-- The users of `n` options `-u`, with those of `--default` among them when it is `given`. -/
inductive UsersGiven : Nat → Bool → List User → Prop
  | nil : UsersGiven 0 false []
  | user {n given us u} (h : UsersGiven n given us) (hroom : n < MAX_USERS) (hu : u.Given) :
      UsersGiven (n + 1) given (us ++ [u])
  | default {n given us} (h : UsersGiven n given us) :
      UsersGiven n true (us ++ users.map userOf)

/-- A transformation that `-T` can give. -/
structure TransformationStructure.Given (t : TransformationStructure) : Prop where
  path : COLON ∉ t.transBinaryPath ∧ NUL ∉ t.transBinaryPath
  args : ∀ s ∈ t.transArgs, NUL ∉ s

/-- The settings that a command line can give. -/
structure Args.Reachable (args : Args) : Prop where
  /-- only `--default` turns a transformation off, and it adds its users -/
  users : ∃ n given, UsersGiven n given args.pop3.userList.list ∧
    (args.pop3.transEnabled = false → args.pop3.trans ≠ none → given = true)
  enabled : args.pop3.transEnabled = true → args.pop3.trans ≠ none
  trans : ∀ t ∈ args.pop3.trans, t.Given
  texts : NUL ∉ args.pop3.ip ∧ NUL ∉ args.pop3.host ∧ NUL ∉ args.pop3.baseDir ∧ NUL ∉ args.mngIp
  ports : args.port ≤ 65535 ∧ args.mngPort ≤ 65535
  mngSocket : args.mngSocket = 0

/-! ### From the options to the settings -/

theorem ends_user_iff {n : Nat} {s : Bytes} :
    (Opt.u s).ends n = none ↔ n < MAX_USERS ∧ COLON ∈ s ∧ FieldsFit s := by
  simp only [Opt.ends]
  split_ifs with hfull hcolon hfit hlength
  · exact ⟨fun h => (by cases h), fun h => absurd h.1 (Nat.not_lt.mpr hfull)⟩
  · exact ⟨fun _ => ⟨Nat.lt_of_not_le hfull, hcolon, hfit⟩, fun _ => rfl⟩
  · exact ⟨fun h => (by cases h), fun h => absurd h.2.2 hfit⟩
  · exact ⟨fun h => (by cases h), fun h => absurd h.2.1 hcolon⟩
  · exact ⟨fun h => (by cases h), fun h => absurd h.2.1 hcolon⟩

theorem given_userOf {s : Bytes} (hnul : NUL ∉ s) (hcolon : COLON ∈ s) (hfit : FieldsFit s) :
    (userOf s).Given := by
  obtain ⟨name, pass, rfl, hname⟩ := List.eq_append_cons_of_mem hcolon
  unfold FieldsFit at hfit
  rw [userOf_append hname] at hfit ⊢
  refine ⟨⟨hname, fun h => hnul (List.mem_append_left _ h), hfit.1⟩, ⟨fun h => hnul ?_, hfit.2⟩⟩
  exact List.mem_append_right _ (List.mem_cons_of_mem _ h)

theorem userArguments_concat (past : List Opt) (o : Opt) :
    userArguments (past ++ [o]) = userArguments past ++ o.userArgument.toList := by
  unfold userArguments
  rw [List.filterMap_append]
  cases ho : o.userArgument with
  | none => rw [List.filterMap_cons_none ho]; rfl
  | some s => rw [List.filterMap_cons_some ho]; rfl

/-- An option that asks for no users. -/
theorem UsersGiven.concat {past : List Opt} {n : Nat} {given : Bool}
    (h : UsersGiven n given (past.flatMap Opt.users)) {o : Opt} (ho : o.users = []) :
    UsersGiven n given ((past ++ [o]).flatMap Opt.users) := by
  rwa [List.flatMap_append, List.flatMap_singleton, ho, List.append_nil]

theorem usersGiven_of_accepted {opts : List Opt} (h : Accepted Opt.endsAfter opts)
    (htext : ∀ o ∈ opts, o.Textual) :
    UsersGiven (userArguments opts).length (decide (Opt.default ∈ opts))
      (opts.flatMap Opt.users) := by
  induction opts using List.reverseRecOn with
  | nil => exact .nil
  | append_singleton past o ih =>
    obtain ⟨hpast, ho⟩ := h.of_concat
    have hgiven := ih hpast fun o ho => htext o (List.mem_append_left _ ho)
    have hself : o.Textual := htext o (by simp)
    rw [userArguments_concat, List.flatMap_append, List.flatMap_singleton]
    cases o with
    | u s =>
      obtain ⟨hroom, hcolon, hfit⟩ := ends_user_iff.mp ho
      have hdefault : (Opt.default ∈ past ++ [Opt.u s]) ↔ Opt.default ∈ past := by simp
      rw [List.length_append, decide_eq_decide.mpr hdefault]
      exact hgiven.user hroom (given_userOf (hself s rfl) hcolon hfit)
    | default =>
      have hdefault : Opt.default ∈ past ++ [Opt.default] := by simp
      rw [decide_eq_true hdefault, List.length_append]
      exact hgiven.default
    | _ =>
      have hdefault : ∀ {o : Opt}, o ≠ .default →
          ((Opt.default ∈ past ++ [o]) ↔ Opt.default ∈ past) := by
        intro o ho
        simp [ho.symm]
      rw [decide_eq_decide.mpr (hdefault (by simp)), List.length_append]
      simpa [Opt.users, Opt.userArgument] using hgiven

/-- The flag is set behind a `-T` and cleared by `--default` alone. -/
theorem transformation_of_options (opts : List Opt) :
    (last Opt.setsTransEnabled false opts = true → last Opt.setsTrans none opts ≠ none) ∧
      (last Opt.setsTransEnabled false opts = false → last Opt.setsTrans none opts ≠ none →
        Opt.default ∈ opts) := by
  induction opts using List.reverseRecOn with
  | nil => exact ⟨fun h => (by cases h), fun _ h => absurd rfl h⟩
  | append_singleton past o ih =>
    rw [last_concat, last_concat]
    cases o with
    | T s => exact ⟨fun _ h => (by cases h), fun h => by cases h⟩
    | default => exact ⟨fun h => (by cases h), fun _ _ => by simp⟩
    | _ => exact ⟨ih.1, fun hoff hsome => List.mem_append_left _ (ih.2 hoff hsome)⟩

/-- The strings that options set are their arguments or the ones of `--default`. -/
theorem Opt.Textual.sets {o : Opt} (h : o.Textual) {s : Bytes}
    (hs : o.setsIp = some s ∨ o.setsHost = some s ∨ o.setsBaseDir = some s ∨ o.setsMngIp = some s) :
    NUL ∉ s := by
  have hset : o.optarg = some s ∨ s ∈ [str "::1", str "localhost", str "./src/root/"] := by
    cases o with
    | l | L | d | ip | host | path =>
      simp only [Opt.setsIp, Opt.setsHost, Opt.setsBaseDir, Opt.setsMngIp, reduceCtorEq, false_or,
        or_false] at hs
      exact .inl hs
    | default =>
      simp only [Opt.setsIp, Opt.setsHost, Opt.setsBaseDir, Opt.setsMngIp, reduceCtorEq,
        or_false, Option.some.injEq] at hs
      simp only [List.mem_cons, List.not_mem_nil, or_false]
      rcases hs with rfl | rfl | rfl
      · exact .inr (.inl rfl)
      · exact .inr (.inr (.inl rfl))
      · exact .inr (.inr (.inr rfl))
    | _ => simp [Opt.setsIp, Opt.setsHost, Opt.setsBaseDir, Opt.setsMngIp] at hs
  rcases hset with hset | hset
  · exact h s hset
  · have hliterals : ∀ s ∈ [str "::1", str "localhost", str "./src/root/"], NUL ∉ s := by decide
    exact hliterals s hset

theorem portNumber_le {s : Bytes} {n : Nat} (h : portNumber s = some n) : n ≤ 65535 := by
  cases portNumber_iff.mp h with
  | plain _ _ hn => exact hn
  | plus _ _ hn => exact hn
  | minus _ _ => exact Nat.zero_le _

theorem given_configuredBy {s : Bytes} (hnul : NUL ∉ s) : (configuredBy s).Given := by
  refine ⟨⟨fun h => ?_, fun h => hnul ((List.takeWhile_sublist _).subset h)⟩, fun t ht h => hnul ?_⟩
  · have hne := List.mem_takeWhile_imp h
    simp at hne
  · rw [eq_of_after ht]
    exact List.mem_append_right _ (List.mem_cons_of_mem _ h)

theorem Configures.reachable {opts : List Opt} {args : Args} (h : Configures opts args)
    (haccepted : Accepted Opt.endsAfter opts) (htext : ∀ o ∈ opts, o.Textual) : args.Reachable where
  users := by
    refine ⟨_, _, h.users ▸ usersGiven_of_accepted haccepted htext, fun hoff hsome => ?_⟩
    rw [h.transEnabled] at hoff
    rw [h.trans] at hsome
    exact decide_eq_true ((transformation_of_options opts).2 hoff hsome)
  enabled hon := by
    rw [h.transEnabled] at hon
    rw [h.trans]
    exact (transformation_of_options opts).1 hon
  trans := by
    rw [h.trans]
    apply @last_induction _ _ _ (fun t : Option TransformationStructure => ∀ t' ∈ t, t'.Given)
    · exact fun t ht => by cases ht
    · intro o ho t ht
      cases o with
      | T s =>
        cases ht
        intro t ht
        cases ht
        rw [cstr_of_notMem (htext _ ho s rfl)]
        exact given_configuredBy (htext _ ho s rfl)
      | _ => cases ht
  texts := by
    rw [h.ip, h.host, h.baseDir, h.mngIp]
    refine ⟨?_, ?_, ?_, ?_⟩
    · exact @last_induction _ _ _ (NUL ∉ ·) _ (by decide) _ fun o ho s hs =>
        (htext o ho).sets (.inl hs)
    · exact @last_induction _ _ _ (NUL ∉ ·) _ (by decide) _ fun o ho s hs =>
        (htext o ho).sets (.inr (.inl hs))
    · exact @last_induction _ _ _ (NUL ∉ ·) _ (by decide) _ fun o ho s hs =>
        (htext o ho).sets (.inr (.inr (.inl hs)))
    · exact @last_induction _ _ _ (NUL ∉ ·) _ (by decide) _ fun o ho s hs =>
        (htext o ho).sets (.inr (.inr (.inr hs)))
  ports := by
    rw [h.port, h.mngPort]
    constructor
    · apply @last_induction _ _ _ (· ≤ 65535) _ (by decide)
      intro o _ n hn
      cases o with
      | p s | port s => exact portNumber_le hn
      | default =>
        cases hn
        decide
      | _ => cases hn
    · apply @last_induction _ _ _ (· ≤ 65535) _ (by decide)
      intro o _ n hn
      cases o with
      | P s => exact portNumber_le hn
      | _ => cases hn
  mngSocket := h.mngSocket

/-! ### From the settings to the options -/

/-- Options that give some users and touch no other setting than those of `--default`. -/
structure Asks (opts : List Opt) (n : Nat) (given : Bool) (us : List User) : Prop where
  number : (userArguments opts).length = n
  users : opts.flatMap Opt.users = us
  given : given = true → Opt.default ∈ opts
  asks : ∀ o ∈ opts, o.AsksUsers ∧ o.Textual

theorem UsersGiven.asks {n : Nat} {given : Bool} {us : List User} (h : UsersGiven n given us)
    {first : List Opt} (hfirst : Accepted Opt.endsAfter first) (hnone : userArguments first = []) :
    ∃ opts, Accepted Opt.endsAfter (first ++ opts) ∧ Asks opts n given us := by
  induction h with
  | nil =>
    refine ⟨[], ?_, rfl, rfl, fun h => (by cases h), fun _ h => absurd h List.not_mem_nil⟩
    rwa [List.append_nil]
  | @user n given us u _ hroom hu ih =>
    obtain ⟨opts, haccepted, hasks⟩ := ih
    obtain ⟨⟨hcolon, hname, hfit⟩, hpass, hfit'⟩ := hu
    have huser : userOf (u.name ++ COLON :: u.pass) = u := userOf_append hcolon u.pass
    refine ⟨opts ++ [.u (u.name ++ COLON :: u.pass)], ?_, ?_, ?_, fun h => ?_, ?_⟩
    · rw [← List.append_assoc]
      apply haccepted.concat
      refine ends_user_iff.mpr ⟨?_, by simp, ?_⟩
      · unfold userArguments at hnone
        rw [userArguments, List.filterMap_append, hnone, List.nil_append]
        exact hasks.number.symm ▸ hroom
      · unfold FieldsFit
        rw [huser]
        exact ⟨hfit, hfit'⟩
    · rw [userArguments_concat, List.length_append, hasks.number]
      rfl
    · rw [List.flatMap_append, hasks.users, List.flatMap_singleton, Opt.users, huser]
    · exact List.mem_append_left _ (hasks.given h)
    · intro o ho
      rcases List.mem_append.mp ho with ho | ho
      · exact hasks.asks o ho
      · cases List.mem_singleton.mp ho
        refine ⟨by simp [Opt.AsksUsers], fun s hs => ?_⟩
        cases hs
        have hnul : NUL ≠ COLON := by decide
        simp [hname, hpass, hnul]
  | @default n given us _ ih =>
    obtain ⟨opts, haccepted, hasks⟩ := ih
    refine ⟨opts ++ [.default], ?_, ?_, ?_, fun _ => by simp, ?_⟩
    · rw [← List.append_assoc]
      exact haccepted.concat rfl
    · rw [userArguments_concat, List.length_append, hasks.number]
      rfl
    · rw [List.flatMap_append, hasks.users, List.flatMap_singleton]
      rfl
    · intro o ho
      rcases List.mem_append.mp ho with ho | ho
      · exact hasks.asks o ho
      · cases List.mem_singleton.mp ho
        exact ⟨trivial, fun s hs => by cases hs⟩

/-- The argument that gives a transformation. -/
def TransformationStructure.optarg (t : TransformationStructure) : Bytes :=
  t.transBinaryPath ++ (t.transArgs.map (COLON :: ·)).getD []

theorem TransformationStructure.Given.configured {t : TransformationStructure} (h : t.Given) :
    NUL ∉ t.optarg ∧ configuredBy t.optarg = t := by
  obtain ⟨path, args⟩ := t
  obtain ⟨⟨hcolon, hpath⟩, hargs⟩ := h
  cases args with
  | none =>
    have htext : (TransformationStructure.mk path none).optarg = path := List.append_nil _
    rw [htext, configuredBy, before_of_notMem hcolon, after_of_notMem hcolon]
    exact ⟨hpath, rfl⟩
  | some arg =>
    have htext : (TransformationStructure.mk path (some arg)).optarg = path ++ COLON :: arg := rfl
    have hne : NUL ≠ COLON := by decide
    have harg : NUL ∉ arg := hargs arg rfl
    rw [htext, configuredBy, before_append_piece hcolon, after_append_piece hcolon]
    exact ⟨by simp [hpath, hne, harg], rfl⟩

section Settings

variable (args : Args)

def Args.transOptions : List Opt := (args.pop3.trans.map fun t => Opt.T t.optarg).toList

/-- A transformation that is off is given in front of the `--default` that turns it off. -/
def Args.firstOptions : List Opt := if args.pop3.transEnabled then [] else args.transOptions

/-- What `--default` may have changed is given behind it. -/
def Args.settingOptions : List Opt :=
  [.l args.pop3.ip, .host args.pop3.host, .d args.pop3.baseDir, .p (formatNat args.port),
    .L args.mngIp, .P (formatNat args.mngPort)] ++ if args.disectorsEnabled then [.N []] else []

def Args.lastOptions : List Opt :=
  (if args.pop3.transEnabled then args.transOptions else []) ++ args.settingOptions

variable {args}

theorem forall_settingOptions {P : Opt → Prop} (hip : P (.l args.pop3.ip))
    (hhost : P (.host args.pop3.host)) (hdir : P (.d args.pop3.baseDir))
    (hport : P (.p (formatNat args.port))) (hmngIp : P (.L args.mngIp))
    (hmngPort : P (.P (formatNat args.mngPort))) (hdisectors : P (.N [])) :
    ∀ o ∈ args.settingOptions, P o := by
  intro o ho
  rcases List.mem_append.mp ho with ho | ho
  · simp only [List.mem_cons, List.not_mem_nil, or_false] at ho
    rcases ho with rfl | rfl | rfl | rfl | rfl | rfl
    · exact hip
    · exact hhost
    · exact hdir
    · exact hport
    · exact hmngIp
    · exact hmngPort
  · split at ho
    · cases List.mem_singleton.mp ho
      exact hdisectors
    · exact absurd ho List.not_mem_nil

theorem mem_transOptions {o : Opt} (ho : o ∈ args.transOptions) :
    ∃ t, args.pop3.trans = some t ∧ o = .T t.optarg := by
  obtain ⟨t, ht, rfl⟩ := Option.map_eq_some_iff.mp (Option.mem_toList.mp ho)
  exact ⟨t, ht, rfl⟩

theorem mem_firstOptions {o : Opt} (ho : o ∈ args.firstOptions) :
    ∃ t, args.pop3.trans = some t ∧ o = .T t.optarg := by
  unfold Args.firstOptions at ho
  split at ho
  · exact absurd ho List.not_mem_nil
  · exact mem_transOptions ho

/-- The options behind the users. -/
theorem forall_lastOptions {P : Opt → Prop} (htrans : ∀ t ∈ args.pop3.trans, P (.T t.optarg))
    (h : ∀ o ∈ args.settingOptions, P o) : ∀ o ∈ args.lastOptions, P o := by
  intro o ho
  rcases List.mem_append.mp ho with ho | ho
  · split at ho
    · obtain ⟨t, ht, rfl⟩ := mem_transOptions ho
      exact htrans t ht
    · exact absurd ho List.not_mem_nil
  · exact h o ho

/-- A setting that is given last. -/
theorem last_lastOptions {α : Type} (sets : Opt → Option α) {o : Opt} {a : α}
    (ho : o ∈ args.settingOptions) (hset : sets o = some a)
    (hall : ∀ o ∈ args.settingOptions, sets o = none ∨ sets o = some a) (start : α)
    (opts : List Opt) : a = last sets start (opts ++ args.lastOptions) := by
  rw [Args.lastOptions, last_append, last_append]
  exact (last_of_all hall ho hset _).symm

/-- The options that ask for users leave the transformation where it is, and turn it off. -/
theorem Opt.AsksUsers.transformation {o : Opt} (h : o.AsksUsers) :
    o.setsTrans = none ∧ (o.setsTransEnabled = none ∨ o.setsTransEnabled = some false) := by
  cases o with
  | u _ => exact ⟨rfl, .inl rfl⟩
  | default => exact ⟨rfl, .inr rfl⟩
  | _ => exact h.elim

theorem Opt.AsksUsers.disectors {o : Opt} (h : o.AsksUsers) : o.setsDisectors = none := by
  cases o with
  | u _ | default => rfl
  | _ => exact h.elim

/-- The transformation in front of the settings that do not touch it. -/
theorem trans_settings (h : args.Reachable) {opts : List Opt} (hopts : ∀ o ∈ opts, o.AsksUsers)
    (hoff : args.pop3.transEnabled = false → args.pop3.trans ≠ none → Opt.default ∈ opts) :
    last Opt.setsTrans none (args.firstOptions ++ opts ++ args.lastOptions) = args.pop3.trans ∧
      last Opt.setsTransEnabled false (args.firstOptions ++ opts ++ args.lastOptions) =
        args.pop3.transEnabled := by
  have hunset : ∀ o ∈ args.settingOptions, o.setsTrans = none ∧ o.setsTransEnabled = none :=
    forall_settingOptions ⟨rfl, rfl⟩ ⟨rfl, rfl⟩ ⟨rfl, rfl⟩ ⟨rfl, rfl⟩ ⟨rfl, rfl⟩ ⟨rfl, rfl⟩
      ⟨rfl, rfl⟩
  have hgiven : ∀ t ∈ args.pop3.trans, configuredBy (cstr t.optarg) = t := by
    intro t ht
    obtain ⟨hnul, hconfigured⟩ := (h.trans t ht).configured
    rw [cstr_of_notMem hnul, hconfigured]
  rw [Args.lastOptions, last_append, last_append, last_append, last_append, last_append,
    last_append, last_of_unset fun o ho => (hunset o ho).1,
    last_of_unset fun o ho => (hunset o ho).2,
    last_of_unset fun o ho => (hopts o ho).transformation.1]
  unfold Args.firstOptions Args.transOptions
  cases hon : args.pop3.transEnabled with
  | true =>
    cases htrans : args.pop3.trans with
    | none => exact absurd htrans (h.enabled hon)
    | some t => exact ⟨congrArg some (hgiven t htrans), rfl⟩
  | false =>
    cases htrans : args.pop3.trans with
    | none =>
      refine ⟨rfl, @last_induction _ _ _ (· = false) _ rfl _ fun o ho b hb => ?_⟩
      rcases (hopts o ho).transformation.2 with hnone | hfalse
      · cases hnone.symm.trans hb
      · exact Option.some.inj (hb.symm.trans hfalse)
    | some t =>
      have hdefault : Opt.default ∈ opts := hoff hon (by rw [htrans]; exact Option.some_ne_none t)
      refine ⟨congrArg some (hgiven t htrans), ?_⟩
      exact last_of_all (fun o ho => (hopts o ho).transformation.2) hdefault rfl _

theorem disectors_settings {opts : List Opt} (hopts : ∀ o ∈ opts, o.AsksUsers) :
    last Opt.setsDisectors false (args.firstOptions ++ opts ++ args.lastOptions) =
      args.disectorsEnabled := by
  have hfirst : ∀ o ∈ args.firstOptions, o.setsDisectors = none := by
    intro o ho
    obtain ⟨t, -, rfl⟩ := mem_firstOptions ho
    rfl
  have hlast : ∀ o ∈ args.lastOptions, o.setsDisectors = none ∨ o = .N [] :=
    @forall_lastOptions args (fun o => o.setsDisectors = none ∨ o = .N []) (fun _ _ => .inl rfl)
      (forall_settingOptions (.inl rfl) (.inl rfl) (.inl rfl) (.inl rfl) (.inl rfl) (.inl rfl)
        (.inr rfl))
  rw [last_append, last_append, last_of_unset hfirst,
    last_of_unset fun o ho => (hopts o ho).disectors]
  cases hon : args.disectorsEnabled with
  | true =>
    have hmem : Opt.N [] ∈ args.lastOptions := by simp [Args.lastOptions, Args.settingOptions, hon]
    refine @last_of_all _ _ Opt.setsDisectors _ true (fun o ho => ?_) _ hmem rfl _
    rcases hlast o ho with hnone | rfl
    · exact .inl hnone
    · exact .inr rfl
  | false =>
    apply last_of_unset
    intro o ho
    refine (hlast o ho).resolve_right ?_
    rintro rfl
    simp [Args.lastOptions, Args.settingOptions, Args.transOptions, hon] at ho

/-- **The options configure the settings they were made for.** -/
theorem Asks.configures (h : args.Reachable) {opts : List Opt} {n : Nat} {given : Bool}
    (hasks : Asks opts n given args.pop3.userList.list)
    (hoff : args.pop3.transEnabled = false → args.pop3.trans ≠ none → given = true) :
    Configures (args.firstOptions ++ opts ++ args.lastOptions) args := by
  have hopts : ∀ o ∈ opts, o.AsksUsers := fun o ho => (hasks.asks o ho).1
  have htransformation := trans_settings h hopts fun h₁ h₂ => hasks.given (hoff h₁ h₂)
  have hport : Opt.setsPort (.p (formatNat args.port)) = some args.port :=
    portNumber_formatNat h.ports.1
  have hmngPort : Opt.setsMngPort (.P (formatNat args.mngPort)) = some args.mngPort :=
    portNumber_formatNat h.ports.2
  constructor
  case users =>
    have hfirst : args.firstOptions.flatMap Opt.users = [] := by
      refine List.flatMap_eq_nil_iff.mpr fun o ho => ?_
      obtain ⟨t, -, rfl⟩ := mem_firstOptions ho
      rfl
    have hlast : args.lastOptions.flatMap Opt.users = [] :=
      List.flatMap_eq_nil_iff.mpr (forall_lastOptions (fun _ _ => rfl)
        (forall_settingOptions rfl rfl rfl rfl rfl rfl rfl))
    rw [List.flatMap_append, List.flatMap_append, hfirst, hlast, List.append_nil, List.nil_append,
      hasks.users]
  case ip =>
    exact last_lastOptions Opt.setsIp (o := .l args.pop3.ip)
      (by simp [Args.settingOptions]) rfl (forall_settingOptions (.inr rfl) (.inl rfl)
        (.inl rfl) (.inl rfl) (.inl rfl) (.inl rfl) (.inl rfl)) _ _
  case host =>
    exact last_lastOptions Opt.setsHost (o := .host args.pop3.host)
      (by simp [Args.settingOptions]) rfl (forall_settingOptions (.inl rfl) (.inr rfl)
        (.inl rfl) (.inl rfl) (.inl rfl) (.inl rfl) (.inl rfl)) _ _
  case baseDir =>
    exact last_lastOptions Opt.setsBaseDir (o := .d args.pop3.baseDir)
      (by simp [Args.settingOptions]) rfl (forall_settingOptions (.inl rfl) (.inl rfl)
        (.inr rfl) (.inl rfl) (.inl rfl) (.inl rfl) (.inl rfl)) _ _
  case port =>
    exact last_lastOptions Opt.setsPort (o := .p (formatNat args.port))
      (by simp [Args.settingOptions]) hport (forall_settingOptions (.inl rfl) (.inl rfl)
        (.inl rfl) (.inr hport) (.inl rfl) (.inl rfl) (.inl rfl)) _ _
  case mngIp =>
    exact last_lastOptions Opt.setsMngIp (o := .L args.mngIp)
      (by simp [Args.settingOptions]) rfl (forall_settingOptions (.inl rfl) (.inl rfl)
        (.inl rfl) (.inl rfl) (.inr rfl) (.inl rfl) (.inl rfl)) _ _
  case mngPort =>
    exact last_lastOptions Opt.setsMngPort (o := .P (formatNat args.mngPort))
      (by simp [Args.settingOptions]) hmngPort (forall_settingOptions (.inl rfl) (.inl rfl)
        (.inl rfl) (.inl rfl) (.inl rfl) (.inr hmngPort) (.inl rfl)) _ _
  case trans => exact htransformation.1.symm
  case transEnabled => exact htransformation.2.symm
  case disectors => exact (disectors_settings hopts).symm
  case mngSocket => exact h.mngSocket

theorem endsAfter_firstOptions : ∀ o ∈ args.firstOptions, ∀ pre, Opt.endsAfter pre o = none := by
  intro o ho pre
  obtain ⟨t, -, rfl⟩ := mem_firstOptions ho
  rfl

theorem endsAfter_lastOptions (h : args.Reachable) :
    ∀ o ∈ args.lastOptions, ∀ pre, Opt.endsAfter pre o = none := by
  have hends : ∀ {n}, n ≤ 65535 → ¬ portNumber (formatNat n) = none := by
    intro n hn
    rw [portNumber_formatNat hn]
    exact Option.some_ne_none n
  exact forall_lastOptions (fun _ _ _ => rfl) (forall_settingOptions (fun _ => rfl) (fun _ => rfl)
    (fun _ => rfl) (fun _ => if_neg (hends h.ports.1)) (fun _ => rfl)
    (fun _ => if_neg (hends h.ports.2)) (fun _ => rfl))

theorem textual_transOption (h : args.Reachable) {t : TransformationStructure}
    (ht : args.pop3.trans = some t) : (Opt.T t.optarg).Textual := by
  intro s hs
  cases hs
  exact (h.trans t ht).configured.1

theorem textual_options (h : args.Reachable) {opts : List Opt} (hopts : ∀ o ∈ opts, o.Textual) :
    ∀ o ∈ args.firstOptions ++ opts ++ args.lastOptions, o.Textual := by
  have hnumber : ∀ n, NUL ∉ formatNat n := by
    intro n hnul
    cases (isNumeral_formatNat n).2.1 NUL hnul
  obtain ⟨hip, hhost, hdir, hmngIp⟩ := h.texts
  have hlast : ∀ o ∈ args.lastOptions, o.Textual :=
    forall_lastOptions (fun t ht => textual_transOption h ht)
      (forall_settingOptions (@textual_of_keeps .l (fun _ => rfl) _ hip)
        (@textual_of_keeps .host (fun _ => rfl) _ hhost)
        (@textual_of_keeps .d (fun _ => rfl) _ hdir)
        (@textual_of_keeps .p (fun _ => rfl) _ (hnumber _))
        (@textual_of_keeps .L (fun _ => rfl) _ hmngIp)
        (@textual_of_keeps .P (fun _ => rfl) _ (hnumber _))
        (@textual_of_keeps .N (fun _ => rfl) [] List.not_mem_nil))
  intro o ho
  rcases List.mem_append.mp ho with ho | ho
  · rcases List.mem_append.mp ho with ho | ho
    · obtain ⟨t, ht, rfl⟩ := mem_firstOptions ho
      exact textual_transOption h ht
    · exact hopts o ho
  · exact hlast o ho

end Settings

/-- **The settings that a command line can give**, whatever lies behind its words in memory. -/
theorem settings_reachable_iff (behind : Bytes → Bytes) (args : Args) :
    (∃ argv : List Bytes, (∀ s ∈ argv, NUL ∉ s) ∧ parseArgs behind argv = .ok args) ↔
      args.Reachable := by
  constructor
  · rintro ⟨argv, htext, hargs⟩
    have hverdict := parse_args_verdict behind argv
    rw [hargs] at hverdict
    cases hverdict with
    | configured haccepted _ hsettings =>
      apply hsettings.reachable haccepted
      exact getoptLong_textual (fun s hs => htext s (List.mem_of_mem_tail hs)) fun _ h => by cases h
  · intro h
    obtain ⟨n, given, hgiven, hoff⟩ := h.users
    have hfirst : Accepted Opt.endsAfter args.firstOptions := by
      have hempty := Accepted.append .nil (@endsAfter_firstOptions args)
      rwa [List.nil_append] at hempty
    have hnone : userArguments args.firstOptions = [] := by
      refine List.filterMap_eq_nil_iff.mpr fun o ho => ?_
      obtain ⟨t, -, rfl⟩ := mem_firstOptions ho
      rfl
    obtain ⟨opts, haccepted, hasks⟩ := hgiven.asks hfirst hnone
    have hread := getoptLong_words (args.firstOptions ++ opts ++ args.lastOptions)
    have htext := textual_options h fun o ho => (hasks.asks o ho).2
    have hsettings := hasks.configures h hoff
    have hall := haccepted.append (endsAfter_lastOptions h)
    generalize args.firstOptions ++ opts ++ args.lastOptions = all at hread htext hsettings hall
    have hoptions : options ([] :: all.flatMap Opt.words) = all := congrArg Prod.fst hread
    have hleft : leftover ([] :: all.flatMap Opt.words) = [] := congrArg Prod.snd hread
    refine ⟨[] :: all.flatMap Opt.words, ?_, ?_⟩
    · intro s hs
      rcases List.mem_cons.mp hs with rfl | hs
      · exact List.not_mem_nil
      · obtain ⟨o, ho, hs⟩ := List.mem_flatMap.mp hs
        exact nul_notMem_words (htext o ho) s hs
    · rw [← hoptions] at hall hsettings
      exact (parse_args_verdict behind _).unique (.configured hall hleft hsettings)

end Pop3Server
