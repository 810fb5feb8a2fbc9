import Pop3Server.IntSums
import Pop3Server.PollTable
import Pop3Server.Roster

/-!
# The metrics of the connections

`Census` is a ghost of the server that counts, from what the turns report, the
sessions admitted so far, those that are open and the most that were open at
once.  The server keeps the first exactly, up to the range of an `int`.  The
last one falls short: `add_client` compares the old maximum with
`client_count`, which `main` increments only afterwards, so a maximum is
recorded without the session it is reached with (`Census.Inv.maximum`).
-/

namespace Pop3Server

structure Census where
  admitted : Nat
  opened : Nat
  peak : Nat

namespace Census

def empty : Census := ⟨0, 0, 0⟩

def record (c : Census) : ServerEvent → Census
  | .opened _ => ⟨c.admitted + 1, c.opened + 1, max c.peak (c.opened + 1)⟩
  | .served _ _ true => { c with opened := c.opened - 1 }
  | _ => c

def watch (c : Census) (sv : Server) (o : Occurrence) : Census := c.record (sv.step o).event

/-- The metrics are those of the census, as long as it fits in an `int`. -/
def Exact (c : Census) (m : Metrics) : Prop :=
  FitsInt c.admitted → FitsInt c.peak →
    m.totalHistoricConnections = c.admitted ∧ m.maxConsecutiveConnections = c.peak

end Census

def censuses : Machine (Server × Census) Occurrence := serverMachine.ghost Census.watch

/-- The server as `main` enters its loop, which sets the metrics to zero. -/
def Server.zeroed (sh : Shared) (managerSocket : Int) : Server :=
  start { sh with metrics := ⟨0, 0, 0, 0⟩ } managerSocket

/-! ### What a turn does to the metrics -/

/-- The metrics of the connections. -/
def Metrics.connections (m : Metrics) : Int × Int :=
  (m.totalHistoricConnections, m.maxConsecutiveConnections)

/-- No command changes them. -/
theorem call_connections (sv : Server) (slot : Nat) (o : Occurrence) :
    (sv.call slot o).shared.metrics.connections = sv.shared.metrics.connections := by
  apply call_keeps (P := fun _ sh => sh.metrics.connections = sv.shared.metrics.connections)
  · intro env sh s comm arg tail h
    exact @execute_shared (fun sh => sh.metrics.connections = sv.shared.metrics.connections)
      env sh h comm (fun _ _ => h) (fun _ _ => h) (fun _ _ _ => h) s arg tail
  · exact fun _ _ _ h => h
  · rfl

/-- The maximum is the one before the session that is being added. -/
theorem countConnection_max {m : Metrics} {peak : Nat}
    (h : m.maxConsecutiveConnections = (peak - 1 : Nat)) (clientCount : Nat) :
    (Server.countConnection m clientCount).maxConsecutiveConnections =
      (max peak (clientCount + 1) - 1 : Nat) := by
  simp only [Server.countConnection, h]
  split <;> omega

namespace Census

/-! ### The law of the metrics -/

/-- What relates the server to its census throughout a run. -/
structure Inv (c : Census) (sv : Server) : Prop where
  opened : c.opened = sv.clientCount
  opened_le : c.opened ≤ c.peak
  peak_le : c.peak ≤ c.admitted
  reached : 0 < c.admitted → 0 < c.peak
  historic : sv.shared.metrics.totalHistoricConnections = int32 c.admitted
  maximum : sv.shared.metrics.maxConsecutiveConnections = (c.peak - 1 : Nat)

theorem inv_start (sh : Shared) (managerSocket : Int) :
    empty.Inv (Server.zeroed sh managerSocket) where
  opened := rfl
  opened_le := Nat.le_refl _
  peak_le := Nat.le_refl _
  reached h := h
  historic := (int32_of_fits (n := 0) ⟨by decide, by decide⟩).symm
  maximum := rfl

variable {c : Census} {sv : Server}

/-- A turn that admits nobody. -/
theorem Inv.lower (h : c.Inv sv) {c' : Census} {sv' : Server}
    (hadmitted : c'.admitted = c.admitted) (hpeak : c'.peak = c.peak)
    (hopened : c'.opened = sv'.clientCount) (hle : c'.opened ≤ c.opened)
    (hmetrics : sv'.shared.metrics.connections = sv.shared.metrics.connections) : c'.Inv sv' where
  opened := hopened
  opened_le := hpeak ▸ hle.trans h.opened_le
  peak_le := by
    rw [hadmitted, hpeak]
    exact h.peak_le
  reached := by
    rw [hadmitted, hpeak]
    exact h.reached
  historic := by
    rw [hadmitted]
    exact (congrArg Prod.fst hmetrics).trans h.historic
  maximum := by
    rw [hpeak]
    exact (congrArg Prod.snd hmetrics).trans h.maximum

theorem Inv.kept (h : c.Inv sv) {sv' : Server} (hcount : sv'.clientCount = sv.clientCount)
    (hmetrics : sv'.shared.metrics.connections = sv.shared.metrics.connections) : c.Inv sv' :=
  h.lower rfl rfl (h.opened.trans hcount.symm) (Nat.le_refl _) hmetrics

theorem Inv.opens (h : c.Inv sv) {sv' : Server} (hcount : sv'.clientCount = sv.clientCount + 1)
    (hmetrics : sv'.shared.metrics =
      Server.countConnection sv.shared.metrics sv.clientCount) :
    (c.record (.opened sv.clientCount)).Inv sv' where
  opened := by
    rw [hcount, ← h.opened]
    rfl
  opened_le := Nat.le_max_right _ _
  peak_le := Nat.max_le.mpr ⟨Nat.le_succ_of_le h.peak_le,
    Nat.succ_le_succ (h.opened_le.trans h.peak_le)⟩
  reached _ := Nat.lt_of_lt_of_le (Nat.succ_pos _) (Nat.le_max_right _ _)
  historic := by
    rw [hmetrics]
    simp only [Server.countConnection, h.historic, int32_add]
    rfl
  maximum := by
    rw [hmetrics, countConnection_max h.maximum, ← h.opened]
    rfl

theorem Inv.close (h : c.Inv sv) {sv' : Server} (hcount : sv'.clientCount = sv.clientCount - 1)
    (hmetrics : sv'.shared.metrics.connections = sv.shared.metrics.connections)
    (slot : Nat) (xs : List Exchange) : (c.record (.served slot xs true)).Inv sv' := by
  have hopened : c.opened - 1 = sv'.clientCount := by rw [hcount, h.opened]
  exact h.lower rfl rfl hopened (Nat.sub_le _ _) hmetrics

/-- One turn keeps the law. -/
theorem Inv.next (h : c.Inv sv) (o : Occurrence) : (c.watch sv o).Inv (sv.step o).server := by
  have hcase := sv.step_cases o
  unfold watch
  generalize sv.step o = st at hcase ⊢
  cases hcase with
  | polled _ => exact h.kept rfl rfl
  | skipped _ _ => exact h.kept rfl rfl
  | unaccepted _ _ _ => exact h.kept rfl rfl
  | admitted _ _ _ _ => exact h.opens rfl rfl
  | overflown _ _ _ _ => exact h.kept rfl rfl
  | refused _ _ _ _ => exact h.kept rfl rfl
  | stray _ _ _ => exact h.kept rfl rfl
  | faulted _ _ _ _ => exact h.kept rfl (call_connections _ _ o)
  | stayed _ _ _ _ _ => exact h.kept rfl (call_connections _ _ o)
  | closed _ _ _ _ _ => exact h.close rfl (call_connections _ _ o) _ _

/-- **The law of the metrics**, after every run. -/
theorem inv_final (sh : Shared) (managerSocket : Int) (os : List Occurrence) :
    (censuses.final (Server.zeroed sh managerSocket, empty) os).2.Inv
      (censuses.final (Server.zeroed sh managerSocket, empty) os).1 := by
  apply @Machine.final_preserves _ _ censuses fun x => x.2.Inv x.1
  · exact fun _ o h => h.next o
  · exact inv_start sh managerSocket

/-- The metrics are exact before the first session, and fall short from then on. -/
theorem Inv.exact_iff (h : c.Inv sv) (hfits : FitsInt c.admitted) :
    c.Exact sv.shared.metrics ↔ c.admitted = 0 := by
  have hpeak_le := h.peak_le
  constructor
  · intro hexact
    have hpeak : FitsInt c.peak := by
      obtain ⟨-, hlt⟩ := hfits
      exact ⟨by omega, by omega⟩
    have hmax := h.maximum.symm.trans (hexact hfits hpeak).2
    by_contra hne
    have hreached := h.reached (Nat.pos_of_ne_zero hne)
    omega
  · intro hzero _ _
    have hnone : c.peak = 0 := by omega
    rw [h.historic, h.maximum, int32_of_fits hfits, hnone]
    exact ⟨rfl, rfl⟩

end Census

/-! ### Runs with exact metrics -/

namespace Server

/-- The metrics of the connections are exact whenever the loop has finished a turn. -/
def ConnectionsExact (sv : Server) (os : List Occurrence) : Prop :=
  ∀ pre, pre <+: os → censuses.Passes (sv, Census.empty) pre →
    (censuses.final (sv, Census.empty) pre).2.Exact
      (censuses.final (sv, Census.empty) pre).1.shared.metrics

/-- A connection that is accepted while there is room is a new session. -/
theorem admits_of_accepts {sv : Server} {o : Occurrence} {c : Int × Bytes}
    (h : sv.accepts o = some c) (hroom : sv.clientCount < MAX_CLIENTS) :
    (sv.step o).halted = false ∧ (sv.step o).event = .opened sv.clientCount := by
  obtain ⟨haccepted, hstep⟩ := step_of_accepts h
  have hcount : sv.clearRevents.clientCount = sv.clientCount := rfl
  rw [hstep, acceptBranch, haccepted]
  simp only [hcount]
  rw [if_pos (Nat.lt_succ_of_lt hroom), if_pos hroom]
  exact ⟨rfl, rfl⟩

/-- A turn that accepts no connection admits no session. -/
theorem watch_of_not_accepts {sv : Server} {o : Occurrence} (h : sv.accepts o = none)
    (c : Census) : (c.watch sv o).admitted = c.admitted := by
  have hcase := sv.step_cases o
  unfold Census.watch
  generalize sv.step o = st at hcase ⊢
  cases hcase with
  | admitted hevent hlisten hsome _ =>
    rw [accepts_of_event hevent hlisten, hsome] at h
    cases h
  | _ => rfl

/-- The first session makes the maximum fall short. -/
theorem accepts_none_of_exact {sv : Server} {c : Census} (h : c.Inv sv) (hzero : c.admitted = 0)
    {o : Occurrence} (hafter : (sv.step o).halted = false →
      (c.watch sv o).Exact (sv.step o).server.shared.metrics) : sv.accepts o = none := by
  by_contra hne
  obtain ⟨connection, haccepts⟩ := Option.ne_none_iff_exists'.mp hne
  have hempty : sv.clientCount = 0 := by
    have hopened := h.opened
    have hopened_le := h.opened_le
    have hpeak_le := h.peak_le
    omega
  obtain ⟨hgo, hevent⟩ := admits_of_accepts haccepts (hempty ▸ (by decide : 0 < MAX_CLIENTS))
  have hone : (c.watch sv o).admitted = 1 := by
    rw [Census.watch, hevent]
    exact congrArg (· + 1) hzero
  have hfits : FitsInt (c.watch sv o).admitted := by
    rw [hone]
    decide
  have hnone := ((h.next o).exact_iff hfits).mp (hafter hgo)
  cases hone.symm.trans hnone

/-- A run that accepts nothing as long as it has admitted nobody admits nobody. -/
theorem none_admitted {sv : Server} {os : List Occurrence}
    (h : ∀ pre o, pre ++ [o] <+: os → censuses.Passes (sv, Census.empty) pre →
      (censuses.final (sv, Census.empty) pre).2.admitted = 0 →
      (censuses.final (sv, Census.empty) pre).1.accepts o = none) :
    ∀ pre, pre <+: os → censuses.Passes (sv, Census.empty) pre →
      (censuses.final (sv, Census.empty) pre).2.admitted = 0 := by
  apply @Machine.final_induction _ _ censuses fun x => x.2.admitted = 0
  · intro pre o hinitial hpass hzero _
    exact (watch_of_not_accepts (h pre o hinitial hpass hzero) _).trans hzero
  · rfl

/-- **The metrics of the connections are exact exactly in the runs in which no connection is
accepted.** -/
theorem connections_exact_iff (sh : Shared) (managerSocket : Int) (os : List Occurrence) :
    (zeroed sh managerSocket).ConnectionsExact os ↔
      ∀ x ∈ serverMachine.trace (zeroed sh managerSocket) os, x.1.accepts x.2 = none := by
  have hinv := Census.inv_final sh managerSocket
  rw [← serverMachine.trace_ghost Census.watch (_, Census.empty), List.forall_mem_map]
  constructor
  · intro h
    have haccepts : ∀ pre o, pre ++ [o] <+: os →
        censuses.Passes (zeroed sh managerSocket, Census.empty) pre →
        (censuses.final (zeroed sh managerSocket, Census.empty) pre).2.admitted = 0 →
        (censuses.final (zeroed sh managerSocket, Census.empty) pre).1.accepts o = none := by
      intro pre o hinitial hpass hzero
      refine accepts_none_of_exact (hinv pre) hzero fun hgo => ?_
      have hexact := h (pre ++ [o]) hinitial (censuses.passes_concat.mpr ⟨hpass, hgo⟩)
      rwa [censuses.final_concat hpass] at hexact
    intro x hx
    obtain ⟨pre, hinitial, hpass, hstate⟩ := (Machine.mem_trace_iff _).mp hx
    rw [hstate]
    have hzero := none_admitted haccepts pre ((List.prefix_append pre [x.2]).trans hinitial) hpass
    exact haccepts pre x.2 hinitial hpass hzero
  · intro hnone pre hinitial hpass
    have hzero : (censuses.final (zeroed sh managerSocket, Census.empty) pre).2.admitted = 0 := by
      refine none_admitted (fun pre o hinitial hpass _ => ?_) pre hinitial hpass
      exact hnone (_, o) ((Machine.mem_trace_iff censuses).mpr ⟨pre, hinitial, hpass, rfl⟩)
    refine ((hinv pre).exact_iff ?_).mpr hzero
    rw [hzero]
    decide

/-- One client connects: the metrics say that none has ever been connected. -/
theorem one_connection_uncounted :
    ¬ ∀ (sh : Shared) (managerSocket : Int) (os : List Occurrence),
      (zeroed sh managerSocket).ConnectionsExact os := by
  intro h
  have hexact := h sampleShared 4 (accepting 3 5) _ (List.prefix_refl _) (by decide +kernel)
    (by decide +kernel) (by decide +kernel)
  revert hexact
  decide +kernel

end Server

end Pop3Server
