import Pop3Server.Folding
import Pop3Server.NumberArguments
import Pop3Server.Transformations
import Pop3Server.UserList

/-!
# What a command line says

`parse_args` takes the options one after the other.  `ParseVerdict` says what comes
of a command line without taking it apart step by step: the first option that is
not acceptable ends the process, and otherwise each setting is what the last
option that sets it has set, `--default` being one of them for some
(`parse_args_iff`).
-/

namespace Pop3Server

open Splitting Folding

/-! ### What an option says -/

/-- The number that `port` reads. -/
def portNumber (optarg : Bytes) : Option Nat := (port optarg).toOption

/-- Why an option ends the process, when `nusers` options `-u` stand in front of it. -/
def Opt.ends (nusers : Nat) : Opt → Option ArgsEnd
  | .h => some (.exit .usage)
  | .v _ => some (.exit .version)
  | .unknown => some (.exit .unknownArgument)
  | .p optarg | .P optarg | .port optarg =>
    if portNumber optarg = none then some (.exit .port) else none
  | .u optarg =>
    if MAX_USERS ≤ nusers then some (.exit .maximumUsers)
    else if COLON ∈ optarg then if FieldsFit optarg then none else some .overrun
    else if optarg.length ≤ USER_SIZE then some (.exit .passwordNotFound)
    else some .overrun
  | _ => none

/-- The same with the options in front of it. -/
def Opt.endsAfter (past : List Opt) (o : Opt) : Option ArgsEnd :=
  o.ends (userArguments past).length

def Opt.setsIp : Opt → Option Bytes
  | .l optarg | .ip optarg => some optarg
  | .default => some (str "::1")
  | _ => none

def Opt.setsHost : Opt → Option Bytes
  | .host optarg => some optarg
  | .default => some (str "localhost")
  | _ => none

def Opt.setsBaseDir : Opt → Option Bytes
  | .d optarg | .path optarg => some optarg
  | .default => some (str "./src/root/")
  | _ => none

def Opt.setsPort : Opt → Option Nat
  | .p optarg | .port optarg => portNumber optarg
  | .default => some DEFAULT_PORT
  | _ => none

def Opt.setsMngPort : Opt → Option Nat
  | .P optarg => portNumber optarg
  | _ => none

def Opt.setsMngIp : Opt → Option Bytes
  | .L optarg => some optarg
  | _ => none

def Opt.setsDisectors : Opt → Option Bool
  | .N _ => some true
  | _ => none

def Opt.setsTransEnabled : Opt → Option Bool
  | .T _ => some true
  | .default => some false
  | _ => none

/-- `--default` turns the transformation off and leaves it where it is. -/
def Opt.setsTrans : Opt → Option (Option TransformationStructure)
  | .T optarg => some (some (configuredBy (cstr optarg)))
  | _ => none

/-- The settings after some options. -/
structure Configures (opts : List Opt) (args : Args) : Prop where
  users : args.pop3.userList.list = opts.flatMap Opt.users
  ip : args.pop3.ip = last Opt.setsIp (str "::1") opts
  host : args.pop3.host = last Opt.setsHost (str "localhost") opts
  baseDir : args.pop3.baseDir = last Opt.setsBaseDir (str "./src/root/") opts
  trans : args.pop3.trans = last Opt.setsTrans none opts
  transEnabled : args.pop3.transEnabled = last Opt.setsTransEnabled false opts
  port : args.port = last Opt.setsPort DEFAULT_PORT opts
  disectors : args.disectorsEnabled = last Opt.setsDisectors false opts
  mngPort : args.mngPort = last Opt.setsMngPort DEFAULT_MGMT_PORT opts
  mngIp : args.mngIp = last Opt.setsMngIp (str "::1") opts
  mngSocket : args.mngSocket = 0

/-- What comes of a command line. -/
inductive ParseVerdict (argv : List Bytes) : Except ArgsEnd Args → Prop
  | ended {e pre o} (h : FailsAt Opt.endsAfter (options argv) e pre o) : ParseVerdict argv (.error e)
  /-- the first words that are no options are looked at last -/
  | notAccepted (haccepted : Accepted Opt.endsAfter (options argv)) (hleft : leftover argv ≠ []) :
      ParseVerdict argv (.error (.exit .argumentNotAccepted))
  | configured {args} (haccepted : Accepted Opt.endsAfter (options argv)) (hleft : leftover argv = [])
      (h : Configures (options argv) args) : ParseVerdict argv (.ok args)

/-! ### Ports -/

theorem port_of_none {s : Bytes} (h : portNumber s = none) : port s = .error (.exit .port) := by
  unfold portNumber port at *
  split
  · rfl
  · next hvalid =>
    rw [if_neg hvalid] at h
    cases h

theorem port_of_some {s : Bytes} {n : Nat} (h : portNumber s = some n) : port s = .ok n := by
  unfold portNumber at h
  cases hport : port s with
  | error e =>
    rw [hport] at h
    cases h
  | ok m =>
    rw [hport] at h
    exact congrArg Except.ok (Option.some.inj h)

/-- A port as `port` takes it: a numeral behind blanks and a sign, which is a minus for zero only. -/
inductive PortText : Bytes → Nat → Prop
  | plain {blanks digits n} (hblanks : ∀ b ∈ blanks, isspace b = true) (hnumeral : IsNumeral digits n)
      (hn : n ≤ 65535) : PortText (blanks ++ digits) n
  | plus {blanks digits n} (hblanks : ∀ b ∈ blanks, isspace b = true) (hnumeral : IsNumeral digits n)
      (hn : n ≤ 65535) : PortText (blanks ++ 43 :: digits) n
  | minus {blanks digits} (hblanks : ∀ b ∈ blanks, isspace b = true)
      (hnumeral : IsNumeral digits 0) : PortText (blanks ++ 45 :: digits) 0

theorem numeral_of_end {digits s : Bytes}
    (hsome : (if digits.takeWhile isdigit = [] then s else digits.dropWhile isdigit) ≠ s)
    (hend : (if digits.takeWhile isdigit = [] then s else digits.dropWhile isdigit) = []) :
    IsNumeral digits (digitsValue 0 digits) := by
  by_cases hnone : digits.takeWhile isdigit = []
  · exact absurd (if_pos hnone) hsome
  · rw [if_neg hnone] at hend
    refine ⟨?_, List.dropWhile_eq_nil_iff.mp hend, rfl⟩
    rintro rfl
    exact hnone rfl

theorem end_of_numeral {digits : Bytes} {k : Nat} (h : IsNumeral digits k) (s : Bytes) :
    (if digits.takeWhile isdigit = [] then s else digits.dropWhile isdigit) = [] := by
  obtain ⟨hne, hdigits, -⟩ := h
  rw [List.takeWhile_eq_self_iff.mpr hdigits, if_neg hne, List.dropWhile_eq_nil_iff.mpr hdigits]

theorem portNumber_of {s : Bytes} {n : Nat} (hs : s ≠ []) (hend : strtolEnd s = [])
    (hvalue : strtol s = n) (hn : n ≤ 65535) : portNumber s = some n := by
  unfold portNumber port
  rw [if_neg]
  · rw [hvalue]
    rfl
  · rw [hend, hvalue]
    rintro (h | h | h | h)
    · exact hs h.symm
    · exact h rfl
    · omega
    · omega

theorem dropWhile_blanks {blanks : Bytes} (h : ∀ b ∈ blanks, isspace b = true) {c : Byte}
    (hc : isspace c = false) (rest : Bytes) :
    (blanks ++ c :: rest).dropWhile isspace = c :: rest := by
  rw [List.dropWhile_append_of_pos h, List.dropWhile_cons, hc]
  rfl

theorem strtol_unsigned {s t : Bytes} (ht : s.dropWhile isspace = t) (hminus : ∀ r, t ≠ 45 :: r)
    (hplus : ∀ r, t ≠ 43 :: r) : strtol s = min (2 ^ 63 - 1) (digitsValue 0 t : Int) ∧
      strtolEnd s = if t.takeWhile isdigit = [] then s else t.dropWhile isdigit := by
  rw [strtol, strtolEnd, ht]
  constructor
  · split
    · next r => exact absurd rfl (hminus r)
    · next r => exact absurd rfl (hplus r)
    · rfl
  · split
    · next r => exact absurd rfl (hminus r)
    · next r => exact absurd rfl (hplus r)
    · rfl

theorem strtol_plus {s r : Bytes} (hs : s.dropWhile isspace = 43 :: r) :
    strtol s = min (2 ^ 63 - 1) (digitsValue 0 r : Int) ∧
      strtolEnd s = if r.takeWhile isdigit = [] then s else r.dropWhile isdigit := by
  rw [strtol, strtolEnd, hs]
  exact ⟨rfl, rfl⟩

theorem strtol_minus {s r : Bytes} (hs : s.dropWhile isspace = 45 :: r) :
    strtol s = max (-2 ^ 63) (-(digitsValue 0 r : Int)) ∧
      strtolEnd s = if r.takeWhile isdigit = [] then s else r.dropWhile isdigit := by
  rw [strtol, strtolEnd, hs]
  exact ⟨rfl, rfl⟩

/-- **The ports that are taken.** -/
theorem portNumber_iff {s : Bytes} {n : Nat} : portNumber s = some n ↔ PortText s n := by
  constructor
  · intro h
    have hport := port_of_some h
    unfold port at hport
    split at hport
    · cases hport
    next hvalid =>
    simp only [not_or, not_not] at hvalid
    obtain ⟨hsome, hend, hlow, hhigh⟩ := hvalid
    have hn : (strtol s).toNat = n := Except.ok.inj hport
    have hsplit : s.takeWhile isspace ++ s.dropWhile isspace = s := List.takeWhile_append_dropWhile
    have hblanks : ∀ b ∈ s.takeWhile isspace, isspace b = true := fun b hb =>
      List.mem_takeWhile_imp hb
    rw [← hsplit]
    by_cases hminus : ∃ r, s.dropWhile isspace = 45 :: r
    · obtain ⟨r, hr⟩ := hminus
      obtain ⟨hvalue, heq⟩ := strtol_minus hr
      rw [heq] at hsome hend
      have hnumeral := numeral_of_end hsome hend
      have hzero : digitsValue 0 r = 0 ∧ n = 0 := by omega
      rw [hzero.1] at hnumeral
      rw [hr, hzero.2]
      exact .minus hblanks hnumeral
    by_cases hplus : ∃ r, s.dropWhile isspace = 43 :: r
    · obtain ⟨r, hr⟩ := hplus
      obtain ⟨hvalue, heq⟩ := strtol_plus hr
      rw [heq] at hsome hend
      have hnumeral := numeral_of_end hsome hend
      have hdigits : digitsValue 0 r = n ∧ n ≤ 65535 := by omega
      rw [hr]
      exact .plus hblanks (hdigits.1 ▸ hnumeral) hdigits.2
    · obtain ⟨hvalue, heq⟩ := strtol_unsigned rfl (not_exists.mp hminus) (not_exists.mp hplus)
      rw [heq] at hsome hend
      have hnumeral := numeral_of_end hsome hend
      have hdigits : digitsValue 0 (s.dropWhile isspace) = n ∧ n ≤ 65535 := by omega
      exact .plain hblanks (hdigits.1 ▸ hnumeral) hdigits.2
  · intro h
    cases h with
    | @plain blanks digits _ hblanks hnumeral hn =>
      obtain ⟨c, rest, rfl⟩ := List.exists_cons_of_ne_nil hnumeral.1
      obtain ⟨hspace, hminus, hplus⟩ := isdigit_head (hnumeral.2.1 c List.mem_cons_self)
      obtain ⟨hvalue, heq⟩ := strtol_unsigned (dropWhile_blanks hblanks hspace rest)
        (fun r h => hminus (List.cons.inj h).1) fun r h => hplus (List.cons.inj h).1
      rw [hnumeral.2.2] at hvalue
      refine portNumber_of (by simp) (heq.trans (end_of_numeral hnumeral _)) ?_ hn
      omega
    | @plus blanks digits _ hblanks hnumeral hn =>
      obtain ⟨hvalue, heq⟩ := strtol_plus (@dropWhile_blanks _ hblanks 43 (by decide) digits)
      rw [hnumeral.2.2] at hvalue
      refine portNumber_of (by simp) (heq.trans (end_of_numeral hnumeral _)) ?_ hn
      omega
    | @minus blanks digits hblanks hnumeral =>
      obtain ⟨hvalue, heq⟩ := strtol_minus (@dropWhile_blanks _ hblanks 45 (by decide) digits)
      rw [hnumeral.2.2] at hvalue
      refine portNumber_of (by simp) (heq.trans (end_of_numeral hnumeral _)) ?_ (Nat.zero_le _)
      omega

theorem isNumeral_formatNat (n : Nat) : IsNumeral (formatNat n) n := by
  have hdigits : ∀ c ∈ Nat.toDigits 10 n, c.isDigit = true := fun c hc =>
    Nat.isDigit_of_mem_toDigits (by decide) (by decide) hc
  refine ⟨?_, ?_, ?_⟩
  · intro hempty
    exact Nat.toDigits_ne_nil (List.map_eq_nil_iff.mp hempty)
  · intro b hb
    obtain ⟨c, hc, rfl⟩ := List.mem_map.mp hb
    exact (isdigit_byte (hdigits c hc)).1
  · have hvalue := digitsValue_map hdigits 0 []
    rw [List.append_nil, Nat.ofDigitChars_ten_toDigits] at hvalue
    exact hvalue

/-- A port that is written can be read again. -/
theorem portNumber_formatNat {n : Nat} (hn : n ≤ 65535) : portNumber (formatNat n) = some n :=
  portNumber_iff.mpr (@PortText.plain [] _ _ (fun _ h => absurd h List.not_mem_nil)
    (isNumeral_formatNat n) hn)

/-! ### One option -/

/-- Without a colon the first loop of `strsep` runs to the end of the argument. -/
theorem firstField_no_delim {delim : Byte} {s field : Bytes} (hs : delim ∉ s)
    (hfield : field.length ≤ USER_SIZE) :
    firstField delim field s =
      if field.length + s.length ≤ USER_SIZE then .ok (field ++ s, []) else .error .overrun := by
  induction s generalizing field with
  | nil =>
    rw [firstField, List.append_nil, List.length_nil, Nat.add_zero, if_pos hfield]
    rfl
  | cons c s ih =>
    simp only [List.mem_cons, not_or] at hs
    rw [firstField, if_pos fun he => hs.1 he.symm]
    by_cases hroom : field.length < USER_SIZE
    · have hnext : (field ++ [c]).length ≤ USER_SIZE := by
        rw [List.length_append]
        exact hroom
      rw [store_of_lt hroom]
      refine (ih hs.2 hnext).trans ?_
      rw [List.length_append, List.length_singleton, List.append_assoc, List.singleton_append,
        List.length_cons, Nat.add_assoc, Nat.add_comm 1]
    · rw [store_of_le (Nat.le_of_not_lt hroom), if_neg]
      · rfl
      · rw [List.length_cons]
        omega

theorem user_no_colon {s : Bytes} (h : COLON ∉ s) (l : UserListHeader) :
    user s l = .error (if s.length ≤ USER_SIZE then .exit .passwordNotFound else .overrun) := by
  have hfirst := @firstField_no_delim _ s [] h (Nat.zero_le _)
  rw [List.length_nil, Nat.zero_add, List.nil_append] at hfirst
  rw [user, strsep, hfirst]
  split
  · rfl
  · rfl

/-- The settings, and the count of the options `-u`. -/
structure Parsed (past : List Opt) (p : Parsing) : Prop where
  settings : Configures past p.args
  nusers : p.nusers = (userArguments past).length

theorem parsed_start : Parsed [] ⟨defaultArgs, 0⟩ :=
  ⟨⟨rfl, rfl, rfl, rfl, rfl, rfl, rfl, rfl, rfl, rfl, rfl⟩, rfl⟩

/-- An option sets its settings and leaves the others. -/
theorem Configures.concat {past : List Opt} {args args' : Args} (h : Configures past args) {o : Opt}
    (husers : args'.pop3.userList.list = args.pop3.userList.list ++ o.users)
    (hip : args'.pop3.ip = o.setsIp.getD args.pop3.ip)
    (hhost : args'.pop3.host = o.setsHost.getD args.pop3.host)
    (hbaseDir : args'.pop3.baseDir = o.setsBaseDir.getD args.pop3.baseDir)
    (htrans : args'.pop3.trans = o.setsTrans.getD args.pop3.trans)
    (henabled : args'.pop3.transEnabled = o.setsTransEnabled.getD args.pop3.transEnabled)
    (hport : args'.port = o.setsPort.getD args.port)
    (hdisectors : args'.disectorsEnabled = o.setsDisectors.getD args.disectorsEnabled)
    (hmngPort : args'.mngPort = o.setsMngPort.getD args.mngPort)
    (hmngIp : args'.mngIp = o.setsMngIp.getD args.mngIp)
    (hmngSocket : args'.mngSocket = args.mngSocket) : Configures (past ++ [o]) args' where
  users := by rw [husers, h.users, List.flatMap_append, List.flatMap_singleton]
  ip := by rw [hip, h.ip, last_concat]
  host := by rw [hhost, h.host, last_concat]
  baseDir := by rw [hbaseDir, h.baseDir, last_concat]
  trans := by rw [htrans, h.trans, last_concat]
  transEnabled := by rw [henabled, h.transEnabled, last_concat]
  port := by rw [hport, h.port, last_concat]
  disectors := by rw [hdisectors, h.disectors, last_concat]
  mngPort := by rw [hmngPort, h.mngPort, last_concat]
  mngIp := by rw [hmngIp, h.mngIp, last_concat]
  mngSocket := hmngSocket.trans h.mngSocket

/-- An option that is not `-u`. -/
theorem Parsed.concat {past : List Opt} {p p' : Parsing} (h : Parsed past p) {o : Opt}
    (ho : o.userArgument = none) (hnusers : p'.nusers = p.nusers)
    (hsettings : Configures (past ++ [o]) p'.args) : Parsed (past ++ [o]) p' where
  settings := hsettings
  nusers := by
    rw [hnusers, h.nusers, userArguments, userArguments, List.filterMap_append,
      List.filterMap_cons_none ho, List.filterMap_nil, List.append_nil]

/-- The options that set a port. -/
theorem Parsed.port_option {behind : Bytes → Bytes} {past : List Opt} {p : Parsing} (h : Parsed past p)
    {o : Opt} {s : Bytes} {n : Nat} (hn : portNumber s = some n)
    (ho : o = .p s ∨ o = .P s ∨ o = .port s) :
    ∃ p', parseOption behind p o = .ok p' ∧ Parsed (past ++ [o]) p' := by
  have hport := port_of_some hn
  rcases ho with rfl | rfl | rfl
  · refine ⟨{ p with args := { p.args with port := n } }, by rw [parseOption, hport]; rfl, ?_⟩
    refine h.concat rfl rfl (h.settings.concat (List.append_nil _).symm rfl rfl rfl rfl rfl ?_ rfl rfl
      rfl rfl)
    rw [Opt.setsPort, hn]
    rfl
  · refine ⟨{ p with args := { p.args with mngPort := n } }, by rw [parseOption, hport]; rfl, ?_⟩
    refine h.concat rfl rfl (h.settings.concat (List.append_nil _).symm rfl rfl rfl rfl rfl rfl rfl ?_
      rfl rfl)
    rw [Opt.setsMngPort, hn]
    rfl
  · refine ⟨{ p with args := { p.args with port := n } }, by rw [parseOption, hport]; rfl, ?_⟩
    refine h.concat rfl rfl (h.settings.concat (List.append_nil _).symm rfl rfl rfl rfl rfl ?_ rfl rfl
      rfl rfl)
    rw [Opt.setsPort, hn]
    rfl

/-- An option `-u` that is let through. -/
theorem Parsed.user_option {behind : Bytes → Bytes} {past : List Opt} {p : Parsing} (h : Parsed past p)
    {s : Bytes} (hroom : ¬ MAX_USERS ≤ p.nusers) (hcolon : COLON ∈ s) (hfit : FieldsFit s) :
    ∃ p', parseOption behind p (.u s) = .ok p' ∧ Parsed (past ++ [.u s]) p' := by
  refine ⟨⟨{ p.args with pop3 := { p.args.pop3 with
    userList := p.args.pop3.userList.append (userOf s) } }, p.nusers + 1⟩, ?_, ?_⟩
  · rw [parseOption, if_neg hroom, user_of_fit hcolon hfit]
    rfl
  · constructor
    case settings => exact h.settings.concat rfl rfl rfl rfl rfl rfl rfl rfl rfl rfl rfl
    case nusers =>
      rw [h.nusers, userArguments, userArguments, List.filterMap_append, List.length_append]
      rfl

theorem Parsed.default_option {behind : Bytes → Bytes} {past : List Opt} {p : Parsing}
    (h : Parsed past p) :
    ∃ p', parseOption behind p .default = .ok p' ∧ Parsed (past ++ [.default]) p' := by
  have hsix : ∀ s ∈ users, COLON ∈ s ∧ FieldsFit s := by decide
  obtain ⟨l, hfold, hlist⟩ := foldlM_user hsix p.args.pop3.userList
  rw [parseOption, hfold]
  exact ⟨_, rfl, h.concat rfl rfl
    (h.settings.concat hlist rfl rfl rfl rfl rfl rfl rfl rfl rfl rfl)⟩

/-- **What an option does is told by the options in front of it.** -/
theorem parseOption_foretold (behind : Bytes → Bytes) :
    Foretold (parseOption behind) Opt.endsAfter Parsed where
  failed {past p o e} h hends := by
    unfold Opt.endsAfter at hends
    rw [← h.nusers] at hends
    cases o with
    | h => cases hends; rfl
    | v s => cases hends; rfl
    | unknown => cases hends; rfl
    | p s | P s | port s =>
      simp only [Opt.ends] at hends
      split at hends
      · next hnone =>
        cases hends
        rw [parseOption, port_of_none hnone]
        rfl
      · cases hends
    | u s =>
      simp only [Opt.ends] at hends
      rw [parseOption]
      split at hends
      · next hfull =>
        cases hends
        exact if_pos hfull
      next hroom =>
      rw [if_neg hroom]
      split at hends
      · next hcolon =>
        split at hends
        · cases hends
        · next hlong =>
          cases hends
          rw [user_of_long hcolon hlong]
          rfl
      · next hcolon =>
        rw [user_no_colon hcolon]
        split at hends
        · next hlength =>
          cases hends
          rw [if_pos hlength]
          rfl
        · next hlength =>
          cases hends
          rw [if_neg hlength]
          rfl
    | _ => cases hends
  passed {past p o} h hends := by
    unfold Opt.endsAfter at hends
    rw [← h.nusers] at hends
    cases o with
    | h | v | unknown => cases hends
    | p s =>
      simp only [Opt.ends] at hends
      cases hn : portNumber s with
      | none => cases (if_pos hn).symm.trans hends
      | some n => exact h.port_option hn (.inl rfl)
    | P s =>
      simp only [Opt.ends] at hends
      cases hn : portNumber s with
      | none => cases (if_pos hn).symm.trans hends
      | some n => exact h.port_option hn (.inr (.inl rfl))
    | port s =>
      simp only [Opt.ends] at hends
      cases hn : portNumber s with
      | none => cases (if_pos hn).symm.trans hends
      | some n => exact h.port_option hn (.inr (.inr rfl))
    | u s =>
      simp only [Opt.ends] at hends
      split at hends
      · cases hends
      next hroom =>
      split at hends
      · next hcolon =>
        split at hends
        · next hfit => exact h.user_option hroom hcolon hfit
        · cases hends
      · split at hends
        · cases hends
        · cases hends
    | default => exact h.default_option
    | T s =>
      refine ⟨_, rfl, h.concat rfl rfl (h.settings.concat (List.append_nil _).symm rfl rfl rfl ?_ rfl
        rfl rfl rfl rfl rfl)⟩
      exact congrArg some (transformationOf_eq behind s)
    | _ =>
      exact ⟨_, rfl, h.concat rfl rfl
        (h.settings.concat (List.append_nil _).symm rfl rfl rfl rfl rfl rfl rfl rfl rfl rfl)⟩

/-! ### The whole command line -/

theorem parse_args_verdict (behind : Bytes → Bytes) (argv : List Bytes) :
    ParseVerdict argv (parseArgs behind argv) := by
  have hverdict := (parseOption_foretold behind).verdict parsed_start (options argv)
  rw [parseArgs]
  generalize (options argv).foldlM (parseOption behind) ⟨defaultArgs, 0⟩ = r at hverdict ⊢
  cases hverdict with
  | failed h => exact .ended h
  | @passed p haccepted hparsed =>
    change ParseVerdict argv
      (if leftover argv ≠ [] then .error (.exit .argumentNotAccepted) else .ok p.args)
    by_cases hleft : leftover argv = []
    · rw [if_neg (not_not_intro hleft)]
      exact .configured haccepted hleft hparsed.settings
    · rw [if_pos hleft]
      exact .notAccepted haccepted hleft

theorem UserListHeader.eq_of_list {l l' : UserListHeader} (h : l.list = l'.list) : l = l' := by
  obtain ⟨list, size, hsize⟩ := l
  obtain ⟨list', size', hsize'⟩ := l'
  cases h
  cases hsize.trans hsize'.symm
  rfl

/-- Some options configure one thing only. -/
theorem Configures.unique {opts : List Opt} {args args' : Args} (h : Configures opts args)
    (h' : Configures opts args') : args = args' := by
  obtain ⟨⟨userList, enabled, trans, baseDir, host, ip⟩, port, disectors, mngPort, mngIp, socket⟩ :=
    args
  obtain ⟨⟨userList', enabled', trans', baseDir', host', ip'⟩, port', disectors', mngPort', mngIp',
    socket'⟩ := args'
  have husers : userList = userList' := UserListHeader.eq_of_list (h.users.trans h'.users.symm)
  have henabled : enabled = enabled' := h.transEnabled.trans h'.transEnabled.symm
  have htrans : trans = trans' := h.trans.trans h'.trans.symm
  have hbaseDir : baseDir = baseDir' := h.baseDir.trans h'.baseDir.symm
  have hhost : host = host' := h.host.trans h'.host.symm
  have hip : ip = ip' := h.ip.trans h'.ip.symm
  have hport : port = port' := h.port.trans h'.port.symm
  have hdisectors : disectors = disectors' := h.disectors.trans h'.disectors.symm
  have hmngPort : mngPort = mngPort' := h.mngPort.trans h'.mngPort.symm
  have hmngIp : mngIp = mngIp' := h.mngIp.trans h'.mngIp.symm
  have hsocket : socket = socket' := h.mngSocket.trans h'.mngSocket.symm
  subst husers henabled htrans hbaseDir hhost hip hport hdisectors hmngPort hmngIp hsocket
  rfl

theorem ParseVerdict.unique {argv : List Bytes} {r r' : Except ArgsEnd Args}
    (h : ParseVerdict argv r) (h' : ParseVerdict argv r') : r = r' := by
  cases h with
  | ended hends =>
    cases h' with
    | ended hends' => exact congrArg Except.error (hends.unique hends')
    | notAccepted haccepted _ => exact absurd hends haccepted.not_failsAt
    | configured haccepted _ _ => exact absurd hends haccepted.not_failsAt
  | notAccepted haccepted hleft =>
    cases h' with
    | ended hends => exact absurd hends haccepted.not_failsAt
    | notAccepted _ _ => rfl
    | configured _ hnone _ => exact absurd hnone hleft
  | configured haccepted hleft hsettings =>
    cases h' with
    | ended hends => exact absurd hends haccepted.not_failsAt
    | notAccepted _ hsome => exact absurd hleft hsome
    | configured _ _ hsettings' => exact congrArg Except.ok (hsettings.unique hsettings')

/-- **`parse_args` does what its command line says**: the first option that is not acceptable where
it stands ends the process, for its reason; then come words that are no options; and otherwise
every setting is what the last option that sets it has set. -/
theorem parse_args_iff (behind : Bytes → Bytes) (argv : List Bytes) (r : Except ArgsEnd Args) :
    parseArgs behind argv = r ↔ ParseVerdict argv r := by
  constructor
  · rintro rfl
    exact parse_args_verdict behind argv
  · exact (parse_args_verdict behind argv).unique

end Pop3Server
