import Pop3Server.Login

/-!
# Framing across calls of `handle_client`

The lines of a stream are its pieces between newlines, with a carriage return in
front of the newline taken off (`streamLines`).  What a sequence of calls makes
of the stream is `callsLines` and `callsRest`: each call starts from the part of
a line that the call before it saved.

`framing_iff_cutOk` compares the two.  They agree exactly when the cuts fall as
`CutOk` says: a call that receives no newline forgets what was saved before, and
a carriage return at the end of the saved part is no longer found.  The main
theorem adds the lines that make a session leave the loop.
-/

namespace Pop3Server

open Splitting

/-! ### The lines of a stream and the lines of the calls -/

/-- The commands of a stream. -/
def streamLines (stream : Bytes) : List Bytes := (complete LF stream).map dropCR

/-- The lines that successive calls put together, from the partial line saved before the first. -/
def callsLines : Bytes → List Bytes → List Bytes
  | _, [] => []
  | saved, d :: ds => callLines saved d ++ callsLines (rest LF d) ds

/-- The partial line saved after the last call. -/
def callsRest : Bytes → List Bytes → Bytes
  | saved, [] => saved
  | _, d :: ds => callsRest (rest LF d) ds

theorem callLines_nil_eq (buff : Bytes) : callLines [] buff = streamLines buff := by
  unfold callLines streamLines
  cases complete LF buff <;> simp

theorem streamLines_append (l r : Bytes) :
    streamLines (l ++ r) = streamLines l ++ streamLines (rest LF l ++ r) := by
  rw [streamLines, complete_append, List.map_append]
  rfl

theorem streamLines_append_piece {seg : Bytes} (h : LF ∉ seg) (l : Bytes) :
    streamLines (seg ++ LF :: l) = dropCR seg :: streamLines l := by
  rw [streamLines, complete_append_piece h, List.map_cons]
  rfl

theorem length_streamLines (stream : Bytes) : (streamLines stream).length = stream.count LF := by
  rw [streamLines, List.length_map, length_complete]

theorem length_callLines (saved buff : Bytes) :
    (callLines saved buff).length = buff.count LF := by
  rw [← length_complete]
  unfold callLines
  cases complete LF buff <;> simp

theorem length_callsLines (saved : Bytes) (ds : List Bytes) :
    (callsLines saved ds).length = (streamLines ds.flatten).length := by
  rw [length_streamLines]
  induction ds generalizing saved with
  | nil => rfl
  | cons d ds ih =>
    rw [callsLines, List.length_append, length_callLines, ih, List.flatten_cons, List.count_append]

/-- What the calls leave is the end of what they should leave. -/
theorem callsRest_suffix {saved : Bytes} (h : LF ∉ saved) (ds : List Bytes) :
    callsRest saved ds <:+ rest LF (saved ++ ds.flatten) := by
  induction ds generalizing saved with
  | nil => simp [callsRest, rest_of_notMem h]
  | cons d ds ih =>
    have hrest := ih (notMem_rest (d := LF) d)
    rw [← rest_append] at hrest
    exact hrest.trans (rest_suffix_append h _)

/-! ### Where a stream may be cut -/

/-- When the line ended by a newline comes out right: `pieces` are its parts received by earlier
calls and `seg` the part in front of the newline.  The last alternative is a line of carriage
returns, in which the one that is forgotten is the one that should go. -/
def LineOk (pieces : List Bytes) (seg : Bytes) : Prop :=
  pieces = [] ∨ (∃ p, pieces = [p] ∧ (seg = [] → p.getLast? ≠ some CR)) ∨
    (seg = [] ∧ ∃ p, pieces = [[CR], p] ∧ ∀ b ∈ p, b = CR)

/-- When all lines and the rest come out right: `pieces` are the parts of the current line received
so far. -/
def CutOk : List Bytes → List Bytes → Prop
  | pieces, [] => pieces.length ≤ 1
  | pieces, d :: ds =>
    match complete LF d with
    | [] => CutOk (pieces ++ [d]) ds
    | seg :: _ => LineOk pieces seg ∧ CutOk (if rest LF d = [] then [] else [rest LF d]) ds

theorem cutOk_cons_line {pieces : List Bytes} {seg : Bytes} (h : LF ∉ seg) (more : Bytes)
    (ds : List Bytes) :
    CutOk pieces ((seg ++ LF :: more) :: ds) ↔ LineOk pieces seg ∧
      CutOk (if rest LF more = [] then [] else [rest LF more]) ds := by
  rw [CutOk, complete_append_piece h, rest_append_piece h]

theorem cutOk_cons_of_notMem {pieces : List Bytes} {d : Bytes} (h : LF ∉ d) (ds : List Bytes) :
    CutOk pieces (d :: ds) ↔ CutOk (pieces ++ [d]) ds := by
  rw [CutOk, complete_of_notMem h]

theorem dropCR_append {s : Bytes} (h : s ≠ []) (p : Bytes) : dropCR (p ++ s) = p ++ dropCR s := by
  unfold dropCR
  rw [List.getLast?_append_of_ne_nil _ h]
  split
  · rw [List.dropLast_append_of_ne_nil h]
  · rfl

theorem length_dropCR_le (s : Bytes) : (dropCR s).length ≤ s.length := by
  unfold dropCR
  split <;> simp

theorem dropCR_eq_self_iff {s : Bytes} : dropCR s = s ↔ s.getLast? ≠ some CR := by
  unfold dropCR
  constructor
  · intro h hlast
    rw [if_pos hlast] at h
    have := congrArg List.length h
    rw [List.length_dropLast] at this
    cases s with
    | nil => simp at hlast
    | cons b s => simp at this
  · intro h
    rw [if_neg h]

/-- Behind its first byte, a string that ends in CR repeats itself only as carriage returns. -/
theorem eq_CR_of_shift {b : Byte} {s : Bytes} (h : s ++ [CR] = b :: s) :
    b = CR ∧ ∀ c ∈ s, c = CR := by
  induction s with
  | nil => simp at h; exact ⟨h.symm, by simp⟩
  | cons a s ih =>
    simp only [List.cons_append, List.cons.injEq] at h
    obtain ⟨rfl, h⟩ := h
    obtain ⟨ha, hs⟩ := ih h
    exact ⟨ha, by simpa [ha] using hs⟩

theorem eq_append_dropCR_iff {p earlier : Bytes} (hp : p ≠ []) (he : earlier ≠ []) :
    p = earlier ++ dropCR p ↔ earlier = [CR] ∧ ∀ b ∈ p, b = CR := by
  obtain ⟨s, last, rfl⟩ := (List.eq_nil_or_concat' p).resolve_left hp
  by_cases hlast : last = CR
  · subst hlast
    have hdrop : dropCR (s ++ [CR]) = s := by simp [dropCR]
    rw [hdrop]
    constructor
    · intro h
      have hlen := congrArg List.length h
      simp only [List.length_append, List.length_singleton] at hlen
      obtain ⟨e, rfl⟩ := List.length_eq_one_iff.mp (by omega : earlier.length = 1)
      obtain ⟨he, hs⟩ := eq_CR_of_shift h
      refine ⟨by rw [he], ?_⟩
      simpa [or_imp, forall_and] using hs
    · rintro ⟨rfl, hall⟩
      have hs : s = List.replicate s.length CR :=
        List.eq_replicate_iff.mpr ⟨rfl, fun b hb => hall b (by simp [hb])⟩
      rw [hs, ← List.replicate_succ', List.singleton_append, ← List.replicate_succ]
  · have hdrop : dropCR (s ++ [last]) = s ++ [last] := dropCR_eq_self_iff.mpr (by simpa using hlast)
    rw [hdrop]
    constructor
    · intro h
      have hlen := congrArg List.length h
      rw [@List.length_append _ earlier] at hlen
      exact absurd (List.length_eq_zero_iff.mp (by omega)) he
    · rintro ⟨-, hall⟩
      exact absurd (hall last (by simp)) hlast

theorem flatten_eq_nil_iff {pieces : List Bytes} (hne : ∀ p ∈ pieces, p ≠ []) :
    pieces.flatten = [] ↔ pieces = [] := by
  cases pieces with
  | nil => simp
  | cons p ps => simp [hne p (by simp)]

theorem flatten_eq_singleton_iff {pieces : List Bytes} (hne : ∀ p ∈ pieces, p ≠ []) (b : Byte) :
    pieces.flatten = [b] ↔ pieces = [[b]] := by
  cases pieces with
  | nil => simp
  | cons p ps =>
    have hp := hne p (by simp)
    have hps := @flatten_eq_nil_iff ps fun q hq => hne q (by simp [hq])
    rw [List.flatten_cons, List.append_eq_singleton_iff, hps]
    simp [hp]

theorem lineOk_concat (earlier : List Bytes) (p seg : Bytes) :
    LineOk (earlier ++ [p]) seg ↔ (earlier = [] ∧ (seg = [] → p.getLast? ≠ some CR)) ∨
      (seg = [] ∧ earlier = [[CR]] ∧ ∀ b ∈ p, b = CR) := by
  have hpair : ∀ q : Bytes, earlier ++ [p] = [[CR], q] ↔ earlier = [[CR]] ∧ p = q := by
    intro q
    have : [[CR], q] = [[CR]] ++ [q] := rfl
    rw [this, List.append_singleton_inj]
  simp only [LineOk, hpair, List.append_eq_nil_iff, List.append_eq_singleton_iff]
  constructor
  · rintro (⟨-, h⟩ | ⟨q, ⟨rfl, hq⟩ | ⟨-, h⟩, hseg⟩ | ⟨hseg, q, ⟨he, rfl⟩, hall⟩)
    · cases h
    · simp only [List.cons.injEq, and_true] at hq
      subst hq; exact .inl ⟨rfl, hseg⟩
    · cases h
    · exact .inr ⟨hseg, he, hall⟩
  · rintro (⟨rfl, hseg⟩ | ⟨hseg, he, hall⟩)
    · exact .inr (.inl ⟨p, .inl ⟨rfl, rfl⟩, hseg⟩)
    · exact .inr (.inr ⟨hseg, p, ⟨he, rfl⟩, hall⟩)

theorem line_eq_iff {pieces : List Bytes} (hne : ∀ p ∈ pieces, p ≠ []) (seg : Bytes) :
    pieces.getLastD [] ++ dropCR seg = dropCR (pieces.flatten ++ seg) ↔ LineOk pieces seg := by
  rcases List.eq_nil_or_concat' pieces with rfl | ⟨earlier, p, rfl⟩
  · simp [LineOk]
  have hp : p ≠ [] := hne p (by simp)
  have hearlier : ∀ q ∈ earlier, q ≠ [] := fun q hq => hne q (by simp [hq])
  have hflat : (earlier ++ [p]).flatten = earlier.flatten ++ p := by simp
  rw [hflat, List.getLastD_concat, lineOk_concat]
  by_cases hseg : seg = []
  · subst hseg
    have hnil : dropCR [] = [] := rfl
    rw [List.append_nil, dropCR_append hp, hnil, List.append_nil]
    by_cases hnone : earlier = []
    · subst hnone
      rw [List.flatten_nil, List.nil_append, eq_comm, dropCR_eq_self_iff]
      simp
    · rw [eq_append_dropCR_iff hp (by rwa [Ne, flatten_eq_nil_iff hearlier]),
        flatten_eq_singleton_iff hearlier]
      simp [hnone]
  · rw [dropCR_append hseg, List.append_assoc, List.self_eq_append_left]
    simp [hseg, flatten_eq_nil_iff hearlier]

/-- **The calls put the stream together exactly when it is cut at the right places.** -/
theorem framing_iff_cutOk {pieces : List Bytes} (hne : ∀ p ∈ pieces, p ≠ [])
    (hlf : ∀ p ∈ pieces, LF ∉ p) {ds : List Bytes} (hds : ∀ d ∈ ds, d ≠ []) :
    (callsLines (pieces.getLastD []) ds = streamLines (pieces.flatten ++ ds.flatten) ∧
      callsRest (pieces.getLastD []) ds = rest LF (pieces.flatten ++ ds.flatten)) ↔
      CutOk pieces ds := by
  have hflat : ∀ {pieces : List Bytes}, (∀ p ∈ pieces, LF ∉ p) → LF ∉ pieces.flatten := by
    intro pieces h hmem
    obtain ⟨p, hp, hb⟩ := List.mem_flatten.mp hmem
    exact h p hp hb
  induction ds generalizing pieces with
  | nil =>
    have hnone : streamLines pieces.flatten = [] := by
      rw [streamLines, complete_of_notMem (hflat hlf), List.map_nil]
    simp only [callsLines, callsRest, List.flatten_nil, List.append_nil, hnone, true_and, CutOk,
      rest_of_notMem (hflat hlf)]
    rcases List.eq_nil_or_concat' pieces with rfl | ⟨earlier, p, rfl⟩
    · simp
    · have hearlier : ∀ q ∈ earlier, q ≠ [] := fun q hq => hne q (by simp [hq])
      simp [flatten_eq_nil_iff hearlier, List.length_eq_zero_iff]
  | cons d ds ih =>
    have hd := hds d (by simp)
    have hds' : ∀ d ∈ ds, d ≠ [] := fun d h => hds d (by simp [h])
    by_cases hmem : LF ∈ d
    · -- the first newline ends the current line; what follows the last one starts afresh
      obtain ⟨seg, more, rfl, hseg⟩ := List.eq_append_cons_of_mem hmem
      have hnext : ∀ t : Bytes, (if t = [] then [] else [t] : List Bytes).getLastD [] = t ∧
          (if t = [] then [] else [t] : List Bytes).flatten = t := by
        intro t
        by_cases ht : t = [] <;> simp [ht]
      have hih := @ih (if rest LF more = [] then [] else [rest LF more])
        (by by_cases ht : rest LF more = [] <;> simp [ht])
        (by by_cases ht : rest LF more = [] <;> simp [ht, notMem_rest]) hds'
      rw [(hnext _).1, (hnext _).2] at hih
      have hstream : pieces.flatten ++ ((seg ++ LF :: more) :: ds).flatten =
          (pieces.flatten ++ seg) ++ LF :: (more ++ ds.flatten) := by simp
      have hfirst : LF ∉ pieces.flatten ++ seg := by simp [hflat hlf, hseg]
      rw [hstream, streamLines_append_piece hfirst, rest_append_piece hfirst, streamLines_append,
        rest_append, callsLines, callsRest, callLines_append_piece hseg, callLines_nil_eq,
        rest_append_piece hseg, cutOk_cons_line hseg, ← line_eq_iff hne, List.cons_append,
        List.cons.injEq, List.append_cancel_left_eq, and_assoc]
      exact and_congr_right fun _ => hih
    · -- no newline: the call saves what it received and nothing else
      have hih := @ih (pieces ++ [d]) (by simpa [or_imp, forall_and] using ⟨hne, hd⟩)
        (by simpa [or_imp, forall_and] using ⟨hlf, hmem⟩) hds'
      simp only [List.getLastD_concat, List.flatten_append, List.flatten_singleton,
        List.append_assoc] at hih
      simp only [callsLines, callsRest, callLines_of_notMem hmem, rest_of_notMem hmem,
        List.nil_append, List.flatten_cons, cutOk_cons_of_notMem hmem]
      exact hih

/-! ### The run of the calls -/

/-- A client between two calls, with the environments its next commands find. -/
structure Connection where
  loop : LoopState
  recvBuffer : Bytes

/-- The call on a delivery; what `buff` held before is overwritten. -/
def Connection.receive (c : Connection) (d : Delivery) : CallResult :=
  handleClient c.loop.env c.loop.shared ⟨c.loop.session, c.recvBuffer⟩ (.data d) []

def deliveryMachine : Machine Connection Delivery where
  next c d :=
    let r := c.receive d
    ⟨⟨fun k => c.loop.env (k + r.exchanges.length), r.shared, r.client.session⟩,
      r.client.recvBuffer⟩
  stop c d := (c.receive d).control ≠ .next

def callsExchanges (c : Connection) (ds : List Delivery) : List Exchange :=
  (deliveryMachine.trace c ds).flatMap fun x => (x.1.receive x.2).exchanges

def stream (ds : List Delivery) : Bytes := (ds.map (·.bytes)).flatten

theorem receive_eq_scan (c : Connection) {d : Delivery} (h : NUL ∉ d.bytes) :
    c.receive d = scan c.loop c.recvBuffer [] d.bytes := by
  have : c.receive d = scan c.loop c.recvBuffer [] (cstr d.bytes) := rfl
  rw [this, cstr_of_notMem h]

/-- One call is a run of its lines; it saves the rest of the delivery when it comes to its end. -/
theorem next_delivery (c : Connection) {d : Delivery} (h : NUL ∉ d.bytes) :
    let lines := callLines c.recvBuffer d.bytes
    (c.receive d).exchanges = exchanges c.loop lines ∧
      (deliveryMachine.next c d).loop = commandMachine.final c.loop lines ∧
      (deliveryMachine.stop c d = false ↔ commandMachine.Passes c.loop lines) ∧
      (commandMachine.Passes c.loop lines →
        (deliveryMachine.next c d).recvBuffer = rest LF d.bytes) ∧
      (¬ commandMachine.Passes c.loop lines → (deliveryMachine.next c d).recvBuffer = []) := by
  have henv := final_env c.loop (callLines c.recvBuffer d.bytes)
  have hstop := scan_control_next_iff c.loop c.recvBuffer d.bytes
  simp only [deliveryMachine, decide_eq_false_iff_not, not_not, receive_eq_scan c h, hstop,
    scan_exchanges, true_and]
  rw [← henv]
  by_cases hp : commandMachine.Passes c.loop (callLines c.recvBuffer d.bytes)
  · simp [scan_of_passes _ hp, hp]
  · simp [scan_of_halts _ hp, hp]

/-- **The calls are one run of the lines they put together.** -/
theorem calls_run (c : Connection) {ds : List Delivery} (h : ∀ d ∈ ds, NUL ∉ d.bytes) :
    let lines := callsLines c.recvBuffer (ds.map (·.bytes))
    callsExchanges c ds = exchanges c.loop lines ∧
      (commandMachine.Passes c.loop lines → (deliveryMachine.final c ds).recvBuffer =
        callsRest c.recvBuffer (ds.map (·.bytes))) ∧
      (¬ commandMachine.Passes c.loop lines → (deliveryMachine.final c ds).recvBuffer = []) := by
  induction ds generalizing c with
  | nil => simp [callsExchanges, callsLines, callsRest, exchanges, Machine.Passes]
  | cons d ds ih =>
    obtain ⟨hxs, hloop, hstop, hgo, hhalt⟩ := next_delivery c (h d (by simp))
    have hds : ∀ d ∈ ds, NUL ∉ d.bytes := fun d hd => h d (by simp [hd])
    simp only [List.map_cons, callsLines, callsRest]
    by_cases hp : commandMachine.Passes c.loop (callLines c.recvBuffer d.bytes)
    · have hcont := hstop.mpr hp
      obtain ⟨hxs', hgo', hhalt'⟩ := ih (deliveryMachine.next c d) hds
      rw [hloop, hgo hp] at hxs' hgo' hhalt'
      have hboth := @Machine.passes_append _ _ commandMachine _ _ hp
        (callsLines (rest LF d.bytes) (ds.map (·.bytes)))
      rw [hboth]
      refine ⟨?_, ?_, ?_⟩
      · rw [callsExchanges, Machine.trace_cons_go _ hcont, List.flatMap_cons, hxs]
        rw [callsExchanges] at hxs'
        rw [hxs', exchanges_append hp]
      · rw [Machine.final_cons_go _ hcont]; exact hgo'
      · rw [Machine.final_cons_go _ hcont]; exact hhalt'
    · have hcont : deliveryMachine.stop c d = true := by
        rw [← Bool.not_eq_false]; exact fun e => hp (hstop.mp e)
      have hboth : ¬ commandMachine.Passes c.loop (callLines c.recvBuffer d.bytes ++
          callsLines (rest LF d.bytes) (ds.map (·.bytes))) :=
        fun hall => hp (Machine.Passes.of_append hall)
      refine ⟨?_, fun hall => absurd hall hboth, fun _ => ?_⟩
      · rw [callsExchanges, Machine.trace_cons_stop _ hcont, List.flatMap_singleton, hxs,
          exchanges_append_of_not_passes hp]
      · rw [Machine.final_cons_stop _ hcont]; exact hhalt hp

/-! ### Which lines are dispatched -/

theorem dispatched_iff {x : Exchange} (h : x.command.length ≤ 2 * BUFFER_SIZE) :
    x.dispatched = true ↔ 4 ≤ x.command.length := by
  have := dispatch_assertion_iff h x.env x.shared x.session
  simp only [Exchange.dispatched, Exchange.step, decide_eq_true_eq, ne_eq, this]
  omega

theorem dispatchedCommands_sublist (w : LoopState) (lines : List Bytes) :
    (dispatchedCommands (exchanges w lines)).Sublist lines := by
  have hfilter : (dispatchedCommands (exchanges w lines)).Sublist
      ((exchanges w lines).map (·.command)) := List.filter_sublist.map _
  rw [exchanges_commands] at hfilter
  exact hfilter.trans (Machine.trace_inputs_initial _ _ _).sublist

/-- All lines are dispatched when they are long enough and only the last one leaves the loop. -/
theorem dispatchedCommands_eq_iff {lines : List Bytes}
    (hfit : ∀ c ∈ lines, c.length ≤ 2 * BUFFER_SIZE) (w : LoopState) :
    dispatchedCommands (exchanges w lines) = lines ↔
      (∀ c ∈ lines, 4 ≤ c.length) ∧ commandMachine.Passes w lines.dropLast := by
  rw [← Machine.trace_inputs_eq_iff, ← exchanges_commands]
  have hbegins : (exchanges w lines).map (·.command) <+: lines := by
    rw [exchanges_commands]; exact Machine.trace_inputs_initial _ _ _
  have hmem : ∀ x ∈ exchanges w lines, x.command.length ≤ 2 * BUFFER_SIZE := fun x hx =>
    hfit _ (hbegins.subset (List.mem_map_of_mem hx))
  constructor
  · intro h
    have hsub : (dispatchedCommands (exchanges w lines)).Sublist
        ((exchanges w lines).map (·.command)) := List.filter_sublist.map _
    rw [h] at hsub
    have hinputs : (exchanges w lines).map (·.command) = lines :=
      hbegins.sublist.antisymm hsub
    refine ⟨?_, hinputs⟩
    have hall : (exchanges w lines).filter (·.dispatched) = exchanges w lines := by
      apply List.filter_sublist.eq_of_length
      have := congrArg List.length (h.trans hinputs.symm)
      simpa [dispatchedCommands] using this
    intro c hc
    rw [← hinputs] at hc
    obtain ⟨x, hx, rfl⟩ := List.mem_map.mp hc
    rw [← hall] at hx
    have hx' := List.mem_filter.mp hx
    exact (dispatched_iff (hmem x hx'.1)).mp hx'.2
  · rintro ⟨h4, hinputs⟩
    have hall : (exchanges w lines).filter (·.dispatched) = exchanges w lines := by
      apply List.filter_eq_self.mpr
      intro x hx
      have hc : x.command ∈ lines := hbegins.subset (List.mem_map_of_mem hx)
      exact (dispatched_iff (hmem x hx)).mpr (h4 _ hc)
    rw [dispatchedCommands, hall, hinputs]

theorem lastControl_mem {xs : List Exchange} (h : xs ≠ []) :
    ∃ x ∈ xs, lastControl xs = x.step.control := by
  induction xs with
  | nil => exact absurd rfl h
  | cons x xs ih =>
    cases xs with
    | nil => exact ⟨x, by simp, rfl⟩
    | cons y ys =>
      obtain ⟨z, hz, he⟩ := ih (by simp)
      exact ⟨z, by simp [hz], he⟩

theorem length_of_mem_callLines {saved buff c : Bytes} (h : c ∈ callLines saved buff) :
    c.length < saved.length + buff.length := by
  unfold callLines at h
  have hpiece : ∀ seg ∈ complete LF buff, (dropCR seg).length < buff.length := fun seg hseg =>
    Nat.lt_of_le_of_lt (length_dropCR_le seg) (length_of_mem_complete hseg)
  split at h
  · cases h
  · next seg segs hc =>
    rw [hc] at hpiece
    rcases List.mem_cons.mp h with rfl | h
    · have := hpiece seg (by simp)
      simp only [List.length_append]; omega
    · obtain ⟨s, hs, rfl⟩ := List.mem_map.mp h
      have := hpiece s (by simp [hs])
      omega

theorem length_scan_recvBuffer (w : LoopState) (saved buff : Bytes) :
    (scan w saved [] buff).client.recvBuffer.length ≤ buff.length := by
  by_cases h : commandMachine.Passes w (callLines saved buff)
  · rw [scan_of_passes buff h]
    exact length_rest_le buff
  · rw [scan_of_halts buff h]
    exact Nat.zero_le _

theorem mem_callLines_of_exchange {w : LoopState} {saved buff : Bytes} {x : Exchange}
    (hx : x ∈ (scan w saved [] buff).exchanges) : x.command ∈ callLines saved buff := by
  rw [scan_exchanges] at hx
  have hmem : x.command ∈ (exchanges w (callLines saved buff)).map (·.command) :=
    List.mem_map_of_mem hx
  rw [exchanges_commands] at hmem
  exact (Machine.trace_inputs_initial _ _ _).subset hmem

/-! ### What the state of a client keeps -/

/-- A client between two calls: the saved part fits `buff`, and a logged-in session has its mailbox
and its user. -/
structure ClientData.WellFormed (cl : ClientData) : Prop where
  saved : cl.recvBuffer.length < BUFFER_SIZE
  ready : cl.session.Ready

/-- Every call that comes to its end leaves its client well formed. -/
theorem handleClient_wellFormed {cl : ClientData} (h : cl.WellFormed) (env : Nat → Env)
    (sh : Shared) (d : Delivery) (stale : Bytes)
    (hnext : (handleClient env sh cl (.data d) stale).control = .next) :
    (handleClient env sh cl (.data d) stale).client.WellFormed := by
  have hscan : handleClient env sh cl (.data d) stale =
      scan ⟨env, sh, cl.session⟩ cl.recvBuffer [] (cstr d.bytes) := rfl
  rw [hscan] at hnext ⊢
  have hpass := (scan_control_next_iff _ _ _).mp hnext
  have hlen : (cstr d.bytes).length ≤ d.bytes.length := (List.takeWhile_prefix _).length_le
  have hd := d.fits
  rw [scan_of_passes _ hpass]
  refine ⟨Nat.lt_of_le_of_lt (length_rest_le _) (by omega), ?_⟩
  have hfit : ∀ c ∈ callLines cl.recvBuffer (cstr d.bytes), c.length ≤ 2 * BUFFER_SIZE := by
    intro c hc
    have := length_of_mem_callLines hc
    have := h.saved
    omega
  exact (SameConfiguration.refl h.ready).of_passes hfit hpass |>.ready

/-! ### Calls and the stream -/

/-- **A call asserts nothing and processes every line exactly when each line has the length of a
keyword and none but the last leaves the loop.** -/
theorem handleClient_processes_iff (env : Nat → Env) (sh : Shared) {cl : ClientData}
    (hcl : cl.WellFormed) {d : Delivery} (hnul : NUL ∉ d.bytes) (stale : Bytes) :
    let r := handleClient env sh cl (.data d) stale
    let lines := callLines cl.recvBuffer d.bytes
    (r.control ≠ .fault .assertion ∧ dispatchedCommands r.exchanges = lines) ↔
      (∀ c ∈ lines, 4 ≤ c.length) ∧ (∀ c ∈ lines.dropLast, getCommandValue c ≠ .quit) ∧
        MailboxesLoad sh.pop3.userList sh.pop3.baseDir env cl.session.login lines.dropLast := by
  intro r lines
  have hr : r = scan ⟨env, sh, cl.session⟩ cl.recvBuffer [] d.bytes :=
    receive_eq_scan ⟨⟨env, sh, cl.session⟩, cl.recvBuffer⟩ hnul
  have hfit : ∀ c ∈ lines, c.length ≤ 2 * BUFFER_SIZE := by
    intro c hc
    have := length_of_mem_callLines hc
    have := hcl.saved
    have := d.fits
    omega
  have hlines := dispatchedCommands_eq_iff hfit ⟨env, sh, cl.session⟩
  have hpass := passes_iff (fun c hc => hfit c (List.dropLast_subset _ hc))
    (SameConfiguration.refl (w := ⟨env, sh, cl.session⟩) hcl.ready)
  have hcond : (∀ c ∈ lines, 4 ≤ c.length) ∧
      commandMachine.Passes ⟨env, sh, cl.session⟩ lines.dropLast ↔
      (∀ c ∈ lines, 4 ≤ c.length) ∧ (∀ c ∈ lines.dropLast, getCommandValue c ≠ .quit) ∧
        MailboxesLoad sh.pop3.userList sh.pop3.baseDir env cl.session.login lines.dropLast := by
    rw [hpass]
    apply and_congr_right
    intro h4
    apply and_congr_left
    intro _
    exact forall₂_congr fun c hc => and_iff_right (h4 c (List.dropLast_subset _ hc))
  rw [← hcond, ← hlines, hr, scan_exchanges]
  apply and_iff_right_of_imp
  intro hall
  -- the last command was dispatched, so it failed no assertion
  by_cases hp : commandMachine.Passes ⟨env, sh, cl.session⟩ lines
  · rw [(scan_control_next_iff _ _ _).mpr hp]; simp
  · rw [scan_of_halts _ hp]
    simp only
    have hne : exchanges ⟨env, sh, cl.session⟩ lines ≠ [] := by
      intro he
      rw [he] at hall
      exact hp (by rw [← hall]; trivial)
    obtain ⟨x, hx, hlast⟩ := lastControl_mem hne
    rw [hlast]
    have hbegins : (exchanges ⟨env, sh, cl.session⟩ lines).map (·.command) <+: lines := by
      rw [exchanges_commands]; exact Machine.trace_inputs_initial _ _ _
    have hc : x.command ∈ lines := hbegins.subset (List.mem_map_of_mem hx)
    have := (dispatched_iff (hfit _ hc)).mpr ((hlines.mp hall).1 _ hc)
    simpa [Exchange.dispatched] using this

theorem sampleClient_wellFormed : (⟨sampleSession, str "NO"⟩ : ClientData).WellFormed :=
  ⟨by decide, sampleSession_ready⟩

/-- The rest of a line, and another one, in one delivery. -/
theorem handleClient_processes_two_lines :
    (handleClient (fun _ => sampleEnv) sampleShared ⟨sampleSession, str "NO"⟩
        (.data (delivery "OP\r\nNOOP\n" (by decide))) []).control ≠ .fault .assertion ∧
      dispatchedCommands (handleClient (fun _ => sampleEnv) sampleShared ⟨sampleSession, str "NO"⟩
        (.data (delivery "OP\r\nNOOP\n" (by decide))) []).exchanges =
          callLines (str "NO") (str "OP\r\nNOOP\n") := by
  refine (handleClient_processes_iff (fun _ => sampleEnv) sampleShared sampleClient_wellFormed
    (d := delivery "OP\r\nNOOP\n" (by decide)) (by decide) []).mpr ⟨by decide, by decide, ?_⟩
  exact mailboxesLoad_of_no_pass (by decide) _ _ _ _

/-- An empty line ends the process: the buffer holds no four bytes to skip. -/
theorem handleClient_empty_line :
    ¬ ∀ (env : Nat → Env) (sh : Shared) (cl : ClientData), cl.WellFormed →
      ∀ (d : Delivery), NUL ∉ d.bytes → ∀ stale : Bytes,
        (handleClient env sh cl (.data d) stale).control ≠ .fault .assertion ∧
          dispatchedCommands (handleClient env sh cl (.data d) stale).exchanges =
            callLines cl.recvBuffer d.bytes := by
  intro h
  have hempty := h (fun _ => sampleEnv) sampleShared ⟨sampleSession, []⟩
    ⟨by decide, sampleSession_ready⟩ (delivery "\r\n" (by decide)) (by decide) []
  exact hempty.1 (by decide +kernel)

/-- The lines of a stream that something follows. -/
def earlyLines (stream : Bytes) : List Bytes :=
  if rest LF stream = [] then (streamLines stream).dropLast else streamLines stream

/-- What lets the calls come to the end of a stream: every line has the length of a keyword, and
none that something follows leaves the loop. -/
structure GetsThrough (w : LoopState) (stream : Bytes) : Prop where
  long : ∀ c ∈ streamLines stream, 4 ≤ c.length
  stays : ∀ c ∈ earlyLines stream, getCommandValue c ≠ .quit
  loads : MailboxesLoad w.shared.pop3.userList w.shared.pop3.baseDir w.env w.session.login
    (earlyLines stream)

theorem getsThrough_iff {w : LoopState} (hready : w.session.Ready) {stream : Bytes}
    (hfit : ∀ c ∈ streamLines stream, c.length ≤ 2 * BUFFER_SIZE) :
    GetsThrough w stream ↔ (∀ c ∈ streamLines stream, 4 ≤ c.length) ∧
      commandMachine.Passes w (earlyLines stream) := by
  have hsub : ∀ c ∈ earlyLines stream, c ∈ streamLines stream := by
    intro c hc
    unfold earlyLines at hc
    split at hc
    · exact List.dropLast_subset _ hc
    · exact hc
  rw [passes_iff (fun c hc => hfit c (hsub c hc)) (SameConfiguration.refl hready)]
  constructor
  · rintro ⟨hlong, hstays, hloads⟩
    exact ⟨hlong, fun c hc => ⟨hlong c (hsub c hc), hstays c hc⟩, hloads⟩
  · rintro ⟨hlong, hstays, hloads⟩
    exact ⟨hlong, fun c hc => (hstays c hc).2, hloads⟩

/-- **The calls dispatch the lines of the stream and save its tail exactly when the cuts fall at
the right places and the session gets through.** -/
theorem calls_frame_stream_iff {w : LoopState} (hready : w.session.Ready) {ds : List Delivery}
    (hnul : ∀ d ∈ ds, NUL ∉ d.bytes)
    (hfit : ∀ c ∈ streamLines (stream ds), c.length < 2 * BUFFER_SIZE) :
    (dispatchedCommands (callsExchanges ⟨w, []⟩ ds) = streamLines (stream ds) ∧
      (deliveryMachine.final ⟨w, []⟩ ds).recvBuffer = rest LF (stream ds)) ↔
      CutOk [] (ds.map (·.bytes)) ∧ GetsThrough w (stream ds) := by
  obtain ⟨hxs, hsaved, hnone⟩ := calls_run ⟨w, []⟩ hnul
  have hfit' : ∀ c ∈ streamLines (stream ds), c.length ≤ 2 * BUFFER_SIZE :=
    fun c hc => (hfit c hc).le
  have hframe := @framing_iff_cutOk [] (by simp) (by simp) (ds.map (·.bytes))
    (by simpa using fun d _ => d.nonempty)
  simp only [List.getLastD_nil, List.flatten_nil, List.nil_append] at hframe
  change (_ = streamLines (stream ds) ∧ _ = rest LF (stream ds)) ↔ _ at hframe
  have hearly : commandMachine.Passes w (streamLines (stream ds)).dropLast ∧
      (rest LF (stream ds) ≠ [] → commandMachine.Passes w (streamLines (stream ds))) ↔
      commandMachine.Passes w (earlyLines (stream ds)) := by
    unfold earlyLines
    by_cases hr : rest LF (stream ds) = []
    · simp [hr]
    · simp only [hr, ne_eq, not_false_eq_true, true_implies, if_false]
      exact and_iff_right_of_imp Machine.Passes.dropLast
  rw [← hframe, getsThrough_iff hready hfit', ← hearly, hxs]
  constructor
  · rintro ⟨hcommands, hrest⟩
    have hlines : callsLines [] (ds.map (·.bytes)) = streamLines (stream ds) := by
      have hsub := dispatchedCommands_sublist w (callsLines [] (ds.map (·.bytes)))
      rw [hcommands] at hsub
      exact (hsub.eq_of_length (length_callsLines [] _).symm).symm
    simp only [hlines] at hcommands hsaved hnone ⊢
    obtain ⟨h4, hpass⟩ := (dispatchedCommands_eq_iff hfit' w).mp hcommands
    refine ⟨⟨trivial, ?_⟩, h4, hpass, fun hr => ?_⟩
    · by_cases hp : commandMachine.Passes w (streamLines (stream ds))
      · rw [← hsaved hp, hrest]
      · -- nothing was left, so nothing was to be saved
        have hsuffix := @callsRest_suffix [] (by simp) (ds.map (·.bytes))
        have hnil : rest LF (stream ds) = [] := hrest ▸ hnone hp
        change _ <:+ rest LF (stream ds) at hsuffix
        rw [hnil] at hsuffix ⊢
        exact List.suffix_nil.mp hsuffix
    · by_contra hp
      exact hr (hrest ▸ hnone hp)
  · rintro ⟨⟨hlines, hrest⟩, h4, hpass, hall⟩
    simp only [hlines] at hsaved hnone ⊢
    refine ⟨(dispatchedCommands_eq_iff hfit' w).mpr ⟨h4, hpass⟩, ?_⟩
    by_cases hp : commandMachine.Passes w (streamLines (stream ds))
    · rw [hsaved hp, hrest]
    · rw [hnone hp]
      by_contra hr
      exact hp (hall fun e => hr e.symm)

theorem calls_frame_two_deliveries :
    dispatchedCommands (callsExchanges ⟨sampleLoop, []⟩
      [delivery "NO" (by decide), delivery "OP\r\nNO" (by decide)]) = [str "NOOP"] ∧
    (deliveryMachine.final ⟨sampleLoop, []⟩
      [delivery "NO" (by decide), delivery "OP\r\nNO" (by decide)]).recvBuffer = str "NO" := by
  refine (calls_frame_stream_iff sampleSession_ready (by decide) (by decide)).mpr
    ⟨?_, by decide, by decide, mailboxesLoad_of_no_pass (by decide) _ _ _ _⟩
  refine ⟨.inr (.inl ⟨str "NO", rfl, by decide⟩), ?_⟩
  show List.length _ ≤ 1
  decide

/-- The same line in three deliveries loses its beginning. -/
theorem calls_three_deliveries :
    ¬ ∀ (w : LoopState), w.session.Ready → ∀ ds : List Delivery, (∀ d ∈ ds, NUL ∉ d.bytes) →
      (∀ c ∈ streamLines (stream ds), c.length < 2 * BUFFER_SIZE) →
        dispatchedCommands (callsExchanges ⟨w, []⟩ ds) = streamLines (stream ds) ∧
          (deliveryMachine.final ⟨w, []⟩ ds).recvBuffer = rest LF (stream ds) := by
  intro h
  have hlines := (h sampleLoop sampleSession_ready
    [delivery "LIST" (by decide), delivery " 1" (by decide), delivery "23\r\n" (by decide)]
    (by decide) (by decide)).1
  exact absurd hlines (by decide +kernel)

end Pop3Server
