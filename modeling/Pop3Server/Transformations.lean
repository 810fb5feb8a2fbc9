import Pop3Server.SettingsHistory

/-!
# The transformation and its flag

`fork_and_exec` and `free_pop3_structure` follow `trans` when `trans_enabled` is
set.  The options set both, or clear the flag (`parsed_transformation`); TRAN
sets the flag and nothing else.  `split_t_arg` measures the part behind the colon
before it looks whether there is one, so that it reads past an argument without
(`splitTArg_eq`).
-/

namespace Pop3Server

open Splitting

/-- `free_pop3_structure`: the strings it releases; `none` when it follows a null `trans`. -/
def freePop3Structure (p : Pop3Structure) : Option (List Bytes) :=
  let users := p.userList.list.flatMap fun u => [u.name, u.pass]
  if p.transEnabled then p.trans.map fun t => users ++ t.transBinaryPath :: t.transArgs.toList
  else some users

def Opt.transformationArgument : Opt → Option Bytes
  | .T optarg => some optarg
  | _ => none

/-- The arguments of the `-T` options. -/
def transformationArguments (argv : List Bytes) : List Bytes :=
  (options argv).filterMap Opt.transformationArgument

/-- The path up to the first colon, and what follows it. -/
def configuredBy (arg : Bytes) : TransformationStructure := ⟨before COLON arg, after COLON arg⟩

/-- When the flag is set, `trans` is what the `-T` argument says, and the structure can be freed. -/
structure Guarded (arg : Option Bytes) (p : Pop3Structure) : Prop where
  configured : p.transEnabled = true → ∃ s ∈ arg, p.trans = some (configuredBy (cstr s))
  freed : freePop3Structure p ≠ none

/-- The flag guards the transformation of the last `-T` from the start and after every command,
no child is forked for one that is missing, and nothing is read past an argument. -/
structure TransformationsConfigured (behind : Bytes → Bytes) (argv : List Bytes)
    (start : Pop3Structure) (xs : List Exchange) : Prop where
  reads : ∀ s ∈ transformationArguments argv,
    (splitTArg (argumentMemory behind s)).lastRead ≤ (cstr s).length
  start : Guarded (transformationArguments argv).getLast? start
  commands : ∀ x ∈ xs, Guarded (transformationArguments argv).getLast? x.step.shared.pop3
  forks : ∀ x ∈ xs, ∀ path, Effect.transfer path true ∈ x.step.effects →
    x.shared.pop3.trans ≠ none

/-! ### Splitting an argument -/

theorem cstr_append_nul {s : Bytes} (h : NUL ∉ s) (rest : Bytes) : cstr (s ++ NUL :: rest) = s :=
  before_append_piece h rest

theorem cstr_cut (s rest : Bytes) : cstr (s ++ NUL :: rest) = cstr s := by
  by_cases h : NUL ∈ s
  · obtain ⟨arg, beyond, rfl, harg⟩ := List.eq_append_cons_of_mem h
    rw [List.append_assoc, List.cons_append, cstr_append_nul harg, cstr_append_nul harg]
  · exact (cstr_append_nul h rest).trans (before_of_notMem h).symm

theorem takeWhile_until {p : Bytes} (hcolon : COLON ∉ p) (hnul : NUL ∉ p) {c : Byte}
    (hc : c = COLON ∨ c = NUL) (rest : Bytes) :
    (p ++ c :: rest).takeWhile (fun c => c ≠ COLON ∧ c ≠ NUL) = p := by
  have hp : ∀ b ∈ p, decide (b ≠ COLON ∧ b ≠ NUL) = true := by
    intro b hb
    have hne : b ≠ COLON ∧ b ≠ NUL := ⟨fun e => hcolon (e ▸ hb), fun e => hnul (e ▸ hb)⟩
    simpa using hne
  rw [List.takeWhile_append_of_pos hp]
  rcases hc with rfl | rfl <;> simp

theorem getD_behind (p : Bytes) (c : Byte) (rest : Bytes) :
    (p ++ c :: rest).getD p.length NUL = c := by
  rw [List.getD_eq_getElem?_getD, List.getElem?_append_right (Nat.le_refl _), Nat.sub_self,
    List.getElem?_cons_zero, Option.getD_some]

/-- **`split_t_arg` on an argument and the memory behind it.** -/
theorem splitTArg_eq {arg : Bytes} (hnul : NUL ∉ arg) (beyond : Bytes) :
    splitTArg (arg ++ NUL :: beyond) = ⟨before COLON arg, after COLON arg,
      if COLON ∈ arg then arg.length else arg.length + 1 + (cstr beyond).length⟩ := by
  simp only [splitTArg]
  by_cases hcolon : COLON ∈ arg
  · obtain ⟨p, rest, rfl, hp⟩ := List.eq_append_cons_of_mem hcolon
    have hnulp : NUL ∉ p := fun h => hnul (List.mem_append_left _ h)
    have hnulrest : NUL ∉ rest := fun h =>
      hnul (List.mem_append_right _ (List.mem_cons_of_mem _ h))
    have hdrop : (p ++ COLON :: (rest ++ NUL :: beyond)).drop (p.length + 1) =
        rest ++ NUL :: beyond := by
      rw [← List.drop_drop, List.drop_left, List.drop_one, List.tail_cons]
    have hcstr : cstr (p ++ COLON :: (rest ++ NUL :: beyond)) = p ++ COLON :: rest := by
      have h := cstr_append_nul hnul beyond
      rwa [List.append_assoc, List.cons_append] at h
    rw [List.append_assoc, List.cons_append, takeWhile_until hp hnulp (.inl rfl), hdrop, hcstr,
      cstr_append_nul hnulrest, before_append_piece hp, after_append_piece hp, if_pos hcolon,
      List.take_left, List.take_length, getD_behind, if_pos rfl]
    simp only [List.length_append, List.length_cons]
    congr 1
    omega
  · have hdrop : (arg ++ NUL :: beyond).drop (arg.length + 1) = beyond := by
      rw [← List.drop_drop, List.drop_left, List.drop_one, List.tail_cons]
    have hend : ¬ NUL = COLON := by decide
    rw [takeWhile_until hcolon hnul (.inr rfl), hdrop, cstr_append_nul hnul,
      before_of_notMem hcolon, after_of_notMem hcolon, if_neg hcolon, List.take_length,
      getD_behind, if_neg hend]

theorem argumentMemory_eq (behind : Bytes → Bytes) (s : Bytes) :
    NUL ∉ cstr s ∧ ∃ beyond, argumentMemory behind s = cstr s ++ NUL :: beyond := by
  have hmem : NUL ∈ argumentMemory behind s := List.mem_append_right _ List.mem_cons_self
  obtain ⟨arg, beyond, heq, harg⟩ := List.eq_append_cons_of_mem hmem
  have hcstr : cstr s = arg := by
    rw [← cstr_cut s (behind s), ← argumentMemory, heq, cstr_append_nul harg]
  rw [hcstr]
  exact ⟨harg, beyond, heq⟩

theorem transformationOf_eq (behind : Bytes → Bytes) (s : Bytes) :
    transformationOf behind s = configuredBy (cstr s) := by
  obtain ⟨hnul, beyond, hmemory⟩ := argumentMemory_eq behind s
  rw [transformationOf, hmemory, splitTArg_eq hnul]
  rfl

theorem lastRead_le_iff (behind : Bytes → Bytes) (s : Bytes) :
    (splitTArg (argumentMemory behind s)).lastRead ≤ (cstr s).length ↔ COLON ∈ cstr s := by
  obtain ⟨hnul, beyond, hmemory⟩ := argumentMemory_eq behind s
  rw [hmemory, splitTArg_eq hnul]
  simp only
  split
  · next hcolon => exact iff_of_true (Nat.le_refl _) hcolon
  · next hcolon => exact iff_of_false (by omega) hcolon

/-! ### The options -/

/-- What the options `opts` make of the transformation and its flag. -/
structure Sets (opts : List Opt) (p p' : Pop3Structure) : Prop where
  trans : p'.trans =
    ((opts.filterMap Opt.transformationArgument).getLast?.map (configuredBy ∘ cstr)).or p.trans
  enabled : p'.transEnabled = true →
    p.transEnabled = true ∨ opts.filterMap Opt.transformationArgument ≠ []

theorem bind_eq_ok {ε α β : Type} {m : Except ε α} {f : α → Except ε β} {b : β} :
    m >>= f = .ok b ↔ ∃ a, m = .ok a ∧ f a = .ok b := by
  cases m <;> simp [bind, Except.bind]

/-- An option other than `-T` leaves the transformation as it is and does not set the flag. -/
theorem Sets.other {o : Opt} (ho : o.transformationArgument = none) {p p' : Pop3Structure}
    (htrans : p'.trans = p.trans) (henabled : p'.transEnabled = true → p.transEnabled = true) :
    Sets [o] p p' := by
  have hnone : [o].filterMap Opt.transformationArgument = [] := by
    rw [List.filterMap_cons_none ho, List.filterMap_nil]
  constructor
  · rw [hnone, htrans]
    rfl
  · intro h
    exact .inl (henabled h)

/-- **Step lemma of the parsing.** -/
theorem parseOption_sets {behind : Bytes → Bytes} {p p' : Parsing} {o : Opt}
    (h : parseOption behind p o = .ok p') : Sets [o] p.args.pop3 p'.args.pop3 := by
  cases o with
  | T s =>
    cases h
    exact ⟨congrArg some (transformationOf_eq behind s), fun _ => .inr (List.cons_ne_nil _ _)⟩
  | p s | P s | port s =>
    obtain ⟨n, -, hp⟩ := bind_eq_ok.mp h
    cases hp
    exact .other rfl rfl id
  | u s =>
    rw [parseOption] at h
    split at h
    · cases h
    · obtain ⟨userList, -, hp⟩ := bind_eq_ok.mp h
      cases hp
      exact .other rfl rfl id
  | default =>
    obtain ⟨userList, -, hp⟩ := bind_eq_ok.mp h
    cases hp
    exact .other rfl rfl nofun
  | h | v | unknown => cases h
  | _ =>
    cases h
    exact .other rfl rfl id

theorem Sets.append {os os' : List Opt} {p p' p'' : Pop3Structure} (h : Sets os p p')
    (h' : Sets os' p' p'') : Sets (os ++ os') p p'' := by
  constructor
  · rw [h'.trans, h.trans, List.filterMap_append, List.getLast?_append, Option.map_or,
      Option.or_assoc]
  · intro henabled
    rw [List.filterMap_append]
    rcases h'.enabled henabled with hbefore | hset
    · rcases h.enabled hbefore with hstart | hset
      · exact .inl hstart
      · exact .inr (List.append_ne_nil_of_left_ne_nil hset _)
    · exact .inr (List.append_ne_nil_of_right_ne_nil _ hset)

/-- **Run lemma of the parsing.** -/
theorem foldlM_sets {behind : Bytes → Bytes} {opts : List Opt} {p p' : Parsing}
    (h : opts.foldlM (parseOption behind) p = .ok p') : Sets opts p.args.pop3 p'.args.pop3 := by
  induction opts generalizing p with
  | nil =>
    cases h
    exact ⟨rfl, .inl⟩
  | cons o opts ih =>
    rw [List.foldlM_cons] at h
    obtain ⟨q, hq, hrest⟩ := bind_eq_ok.mp h
    exact (parseOption_sets hq).append (ih hrest)

theorem parsed_transformation {behind : Bytes → Bytes} {argv : List Bytes} {args : Args}
    (h : parseArgs behind argv = .ok args) :
    args.pop3.trans = (transformationArguments argv).getLast?.map (configuredBy ∘ cstr) ∧
      (args.pop3.transEnabled = true → transformationArguments argv ≠ []) := by
  obtain ⟨p, hp, hend⟩ := bind_eq_ok.mp h
  have hsets := foldlM_sets hp
  have hargs : p.args = args := by
    split at hend
    · cases hend
    · exact Except.ok.inj hend
  rw [hargs] at hsets
  refine ⟨hsets.trans.trans Option.or_none, fun henabled => ?_⟩
  exact (hsets.enabled henabled).resolve_left (Bool.false_ne_true)

/-! ### The consumers -/

theorem freePop3Structure_ne_none {p : Pop3Structure} :
    freePop3Structure p ≠ none ↔ (p.transEnabled = true → p.trans ≠ none) := by
  unfold freePop3Structure
  cases p.transEnabled <;> cases p.trans <;> simp

/-- A child that is to transform is forked only while the flag is set. -/
theorem Outcome.transfer_enabled {env : Env} {sh : Shared} {s : Session} {comm : Pop3Command}
    {arg : Option Bytes} {st : Step} (h : Outcome env sh s comm arg st) {path : Bytes}
    (he : Effect.transfer path true ∈ st.effects) : sh.pop3.transEnabled = true := by
  cases h with
  | retrieved _ _ _ _ => exact (Bool.and_eq_true_iff.mp (eq_of_transfer_mem he).2.symm).1
  | logSent _ => exact (Bool.and_eq_true_iff.mp (eq_of_transfer_mem he).2.symm).1
  | _ => simp [reply, nullPointer, accepted, goodbye] at he

theorem Exchange.transfer_enabled {x : Exchange} {path : Bytes}
    (h : Effect.transfer path true ∈ x.step.effects) : x.shared.pop3.transEnabled = true := by
  obtain ⟨-, st, hout, he⟩ := Exchange.outcome_of_effect h nofun
  exact hout.transfer_enabled he

/-! ### A run of the server -/

/-- The flag guards what was configured exactly when there is something or it is not set. -/
theorem guarded_iff {argv : List Bytes} {start p : Pop3Structure} {past : List Exchange}
    (hparsed : start.trans = (transformationArguments argv).getLast?.map (configuredBy ∘ cstr))
    (h : SettingsAfter start past p) :
    Guarded (transformationArguments argv).getLast? p ↔
      (p.transEnabled = true → transformationArguments argv ≠ []) := by
  have htrans := h.trans.trans hparsed
  constructor
  · intro hguarded henabled hnone
    obtain ⟨s, hs, -⟩ := hguarded.configured henabled
    rw [hnone] at hs
    cases hs
  · intro hsome
    cases hlast : (transformationArguments argv).getLast? with
    | none =>
      have hoff : ¬ p.transEnabled = true := fun henabled =>
        hsome henabled (List.getLast?_eq_none_iff.mp hlast)
      exact ⟨fun henabled => absurd henabled hoff,
        freePop3Structure_ne_none.mpr fun henabled => absurd henabled hoff⟩
    | some s =>
      rw [hlast] at htrans
      have htrans : p.trans = some (configuredBy (cstr s)) := htrans
      refine ⟨fun _ => ⟨s, rfl, htrans⟩, freePop3Structure_ne_none.mpr fun _ => ?_⟩
      rw [htrans]
      exact Option.some_ne_none _

/-- **The flag always guards a transformation exactly when every `-T` argument has a colon, and no
manager turns a transformation on when there is none.** -/
theorem transformations_configured_iff {behind : Bytes → Bytes} {argv : List Bytes} {args : Args}
    (hargs : parseArgs behind argv = .ok args) (serverSocket managerSocket : Int)
    (os : List Occurrence) :
    TransformationsConfigured behind argv args.pop3
        ((Server.boot args serverSocket managerSocket).exchanges os) ↔
      (∀ s ∈ transformationArguments argv, COLON ∈ cstr s) ∧
        (transformationArguments argv ≠ [] ∨
          ∀ x ∈ (Server.boot args serverSocket managerSocket).exchanges os,
            ¬ x.EnablesTransformation) := by
  obtain ⟨hparsed, hflag⟩ := parsed_transformation hargs
  have hhistory := settings_history args serverSocket managerSocket os
  generalize (Server.boot args serverSocket managerSocket).exchanges os = xs at hhistory ⊢
  constructor
  · intro h
    refine ⟨fun s hs => (lastRead_le_iff behind s).mp (h.reads s hs), ?_⟩
    by_contra hneither
    simp only [not_or, not_not, not_forall] at hneither
    obtain ⟨hnone, x, hx, henables⟩ := hneither
    obtain ⟨past, -, hsettings⟩ := hhistory.mem hx
    have henabled : x.step.shared.pop3.transEnabled = true := by
      rw [x.step_settings.1, if_pos henables.1.1, henables.1.2]
      simp [Pop3Structure.configured, henables.2]
    exact (guarded_iff hparsed hsettings.step).mp (h.commands x hx) henabled hnone
  · rintro ⟨hcolons, hset⟩
    have hguarded : ∀ past p, past ⊆ xs → SettingsAfter args.pop3 past p →
        Guarded (transformationArguments argv).getLast? p := by
      intro past p hpast hsettings
      apply (guarded_iff hparsed hsettings).mpr
      intro henabled
      rcases hsettings.enabled henabled with hstart | ⟨y, hy, henables⟩
      · exact hflag hstart
      · exact hset.resolve_right fun hnever => hnever y (hpast hy) henables
    constructor
    case reads => exact fun s hs => (lastRead_le_iff behind s).mpr (hcolons s hs)
    case start => exact hguarded [] args.pop3 (List.nil_subset _) (.nil args.pop3)
    case commands =>
      intro x hx
      obtain ⟨past, hpast, hsettings⟩ := hhistory.mem hx
      have hnow : past ++ [x] ⊆ xs :=
        List.append_subset.mpr ⟨hpast, List.cons_subset.mpr ⟨hx, List.nil_subset _⟩⟩
      exact hguarded (past ++ [x]) _ hnow hsettings.step
    case forks =>
      intro x hx path hfork
      obtain ⟨past, hpast, hsettings⟩ := hhistory.mem hx
      obtain ⟨s, -, htrans⟩ :=
        (hguarded past _ hpast hsettings).configured (Exchange.transfer_enabled hfork)
      rw [htrans]
      exact Option.some_ne_none _

/-- The settings of `-T cat:-n`. -/
def catArgs : Args :=
  { defaultArgs with
    pop3 :=
      { defaultArgs.pop3 with
        trans := some ⟨str "cat", some (str "-n")⟩, transEnabled := true } }

/-- A manager turns the transformation off and on again. -/
theorem transformations_configured_cat :
    TransformationsConfigured (fun _ => []) [str "pop3d", str "-T", str "cat:-n"] catArgs.pop3
      ((Server.boot catArgs 3 4).exchanges
        (managing (delivery "TRAN 0\r\nTRAN 1\r\n" (by decide)))) := by
  have hargs : parseArgs (fun _ => []) [str "pop3d", str "-T", str "cat:-n"] = .ok catArgs := by
    decide +kernel
  exact (transformations_configured_iff hargs 3 4 _).mpr ⟨by decide, .inl (by decide)⟩

/-- Without one, TRAN sets the flag all the same. -/
theorem transformations_configured_missing :
    ¬ ∀ (behind : Bytes → Bytes) (argv : List Bytes) (args : Args),
      parseArgs behind argv = .ok args → ∀ (serverSocket managerSocket : Int)
        (os : List Occurrence), TransformationsConfigured behind argv args.pop3
          ((Server.boot args serverSocket managerSocket).exchanges os) := by
  intro h
  have hmissing := h (fun _ => []) [str "pop3d"] defaultArgs rfl 3 4
    (managing (delivery "TRAN 1\r\n" (by decide)))
  have hset : ∃ x ∈ (Server.boot defaultArgs 3 4).exchanges
      (managing (delivery "TRAN 1\r\n" (by decide))),
        x.step.shared.pop3.transEnabled = true := by decide +kernel
  obtain ⟨x, hx, henabled⟩ := hset
  obtain ⟨s, hs, -⟩ := (hmissing.commands x hx).configured henabled
  cases hs

end Pop3Server
