import Mathlib.Algebra.Order.BigOperators.Group.List
import Pop3Server.FrozenMailbox
import Pop3Server.ScanListing
import Pop3Server.Traffic

/-!
# Octet counts

`st_size` goes through an `int` three times: into the node of the message, into
the sum of STAT, and into `total_bytes`, which grows for as long as the server
runs.  `OctetsExact` is what a command must find and leave for all three to be
the numbers of mathematics, `OctetsFit` that the files of the mailbox loaded and
the traffic so far are small enough, and `octets_exact_iff` that over a whole
run of the server the one comes to the other.
-/

namespace Pop3Server

/-- The name and `st_size` of an entry that is a regular file. -/
def DirEntry.mailFile (e : DirEntry) : Option (Bytes × Int) :=
  if e.name = str "." ∨ e.name = str ".." then none
  else (e.stat.filter (·.regular)).map fun st => (e.name, st.size)

/-- The files in the folders of a user, in the order in which they are loaded. -/
def mailFiles (opendir : Bytes → Option (List DirEntry)) (baseDir user : Bytes) :
    List (Directory × Bytes × Int) :=
  [Directory.new, .cur, .tmp].flatMap fun d =>
    (((opendir (folderPath baseDir user d)).getD []).filterMap DirEntry.mailFile).map (Prod.mk d)

def Exchange.mailFiles (x : Exchange) (u : User) : List (Directory × Bytes × Int) :=
  Pop3Server.mailFiles x.env.opendir x.shared.pop3.baseDir u.name

/-- What is kept of the file of a message. -/
def Message.recorded (m : Message) : Directory × Bytes × Int := (m.1, m.2.file)

/-- Adding up in an `int` neither wraps around nor gets below zero on the way. -/
def SumsExactly (l : List FileList) : Prop :=
  ∀ pre, pre <+: l → sumSizes 0 pre = octets pre ∧ 0 ≤ octets pre

/-- The octets a command deals with are counted exactly; `past` are the commands before it. -/
structure OctetsExact (past : List Exchange) (x : Exchange) : Prop where
  recorded : ∀ u md, x.LoadsMailbox u md → md.messages.map Message.recorded = x.mailFiles u ∧
    ∀ f ∈ x.mailFiles u, 0 ≤ f.2.2
  summed : ∀ md, x.step.session.maildir = some md → SumsExactly (md.messages.map Prod.snd)
  stat : getCommandValue x.command = .stat → x.session.clientState = .transaction →
    ∀ md, x.session.maildir = some md →
      ∀ line ∈ x.step.sends, line = statLine md.messages.length md.octets
  bytes : x.step.shared.metrics.totalBytes = octets (retrievals (past ++ [x])) ∧
    0 ≤ octets (retrievals (past ++ [x]))
  messages : x.step.shared.metrics.totalMessages = (retrievals (past ++ [x])).length
  metr : getCommandValue x.command = .metr → x.session.clientState = .manager →
    ∀ line ∈ x.step.sends, str "+OK " ++ formatInt (retrievals past).length ++ str ";" ++
      formatInt (octets (retrievals past)) ++ str ";" <+: line

/-- The files of a mailbox that is loaded have sizes that an `int` holds, and so has their sum. -/
def Exchange.LoadFits (x : Exchange) : Prop :=
  ∀ u md, x.LoadsMailbox u md → (∀ f ∈ x.mailFiles u, 0 ≤ f.2.2 ∧ f.2.2 < 2 ^ 31) ∧
    ((x.mailFiles u).map fun f => f.2.2).sum < 2 ^ 31

/-- What has been sent since the server started fits in an `int` too. -/
structure OctetsFit (past : List Exchange) (x : Exchange) : Prop where
  load : x.LoadFits
  bytes : octets (retrievals (past ++ [x])) < 2 ^ 31
  messages : (retrievals (past ++ [x])).length < 2 ^ 31

/-! ### Sums -/

theorem octets_nonneg {l : List FileList} (h : ∀ f ∈ l, 0 ≤ f.size) : 0 ≤ octets l :=
  List.sum_nonneg fun n hn => by
    obtain ⟨f, hf, rfl⟩ := List.mem_map.mp hn
    exact h f hf

theorem sumsExactly_iff {l : List FileList} (h : ∀ f ∈ l, 0 ≤ f.size) :
    SumsExactly l ↔ octets l < 2 ^ 31 := by
  constructor
  · intro hsums
    have hsum := (hsums l (List.prefix_refl l)).1
    rw [sumSizes_zero, int32_eq_iff] at hsum
    exact hsum.2
  · rintro hlt pre ⟨rest, rfl⟩
    have hpre : 0 ≤ octets pre := octets_nonneg fun f hf => h f (List.mem_append_left _ hf)
    have hrest : 0 ≤ octets rest := octets_nonneg fun f hf => h f (List.mem_append_right _ hf)
    rw [octets_append] at hlt
    rw [sumSizes_zero]
    exact ⟨int32_of_fits ⟨by omega, by omega⟩, hpre⟩

/-! ### A mailbox that is loaded -/

/-- The message for a file: its size is converted to an `int`. -/
def narrowed (f : Directory × Bytes × Int) : Message := (f.1, ⟨f.2.1, int32 f.2.2, false⟩)

theorem regularFile_eq (e : DirEntry) :
    e.regularFile = e.mailFile.map fun f => ⟨f.1, int32 f.2, false⟩ := by
  unfold DirEntry.regularFile DirEntry.mailFile
  split
  · rfl
  · rw [Option.map_map]
    rfl

theorem messages_of_load {opendir : Bytes → Option (List DirEntry)} {baseDir user : Bytes}
    {md : Maildir} (h : loadUserStructure opendir baseDir user = some md) :
    md.messages = (mailFiles opendir baseDir user).map narrowed := by
  have hfolder : ∀ d, (md.folder d).list.map (Prod.mk d) =
      ((((opendir (folderPath baseDir user d)).getD []).filterMap DirEntry.mailFile).map
        (Prod.mk d)).map narrowed := by
    intro d
    obtain ⟨entries, hentries, hfiles⟩ :=
      createFileList_eq_some.mp (loadUserStructure_eq_some.mp h d)
    have hregular : DirEntry.regularFile = fun e => e.mailFile.map fun f =>
        (⟨f.1, int32 f.2, false⟩ : FileList) := funext regularFile_eq
    rw [hentries, Option.getD_some, hfiles, hregular, ← List.map_filterMap, List.map_map,
      List.map_map]
    rfl
  simp only [mailFiles, List.flatMap_cons, List.flatMap_nil, List.append_nil, List.map_append,
    ← hfolder, ← List.append_assoc]
  rfl

/-- The sizes of the messages are those of the files. -/
theorem sizes_of_recorded {md : Maildir} {files : List (Directory × Bytes × Int)}
    (h : md.messages.map Message.recorded = files) :
    md.messages.map (fun m => m.2.size) = files.map fun f => f.2.2 := by
  rw [← h, List.map_map]
  rfl

theorem octets_of_recorded {md : Maildir} {files : List (Directory × Bytes × Int)}
    (h : md.messages.map Message.recorded = files) :
    md.octets = (files.map fun f => f.2.2).sum := by
  rw [← sizes_of_recorded h, Maildir.octets, octets, List.map_map]
  rfl

namespace Exchange.LoadsMailbox

variable {x : Exchange} {u : User} {md : Maildir} (h : x.LoadsMailbox u md)
include h

/-- **A mailbox is recorded as it is on the disk exactly when every size fits in an `int`.** -/
theorem recorded_iff :
    md.messages.map Message.recorded = x.mailFiles u ↔ ∀ f ∈ x.mailFiles u, FitsInt f.2.2 := by
  have hrecorded : md.messages.map Message.recorded =
      (x.mailFiles u).map fun f => (f.1, f.2.1, int32 f.2.2) := by
    rw [messages_of_load h.loaded, List.map_map]
    rfl
  rw [hrecorded]
  refine (Eq.congr_right (List.map_id _).symm).trans (List.map_inj_left.trans ?_)
  refine forall₂_congr fun f _ => ?_
  rw [← int32_eq_iff, id, Prod.ext_iff, Prod.ext_iff]
  simp

end Exchange.LoadsMailbox

/-! ### The mailboxes of a run -/

/-- Sizes that can be added up in an `int`. -/
structure Maildir.Sound (md : Maildir) : Prop where
  nonneg : ∀ f ∈ md.messages.map Prod.snd, 0 ≤ f.size
  small : md.octets < 2 ^ 31

theorem unmarkAll_files (md : Maildir) :
    (unmarkAll md).messages.map Prod.snd = (md.messages.map Prod.snd).map FileList.unmark := by
  rw [unmarkAll_messages, List.map_map, List.map_map]
  rfl

theorem unmarkAll_octets (md : Maildir) : (unmarkAll md).octets = md.octets := by
  rw [Maildir.octets, unmarkAll_files, octets, List.map_map]
  rfl

theorem Maildir.Sound.of_unmarkAll {md : Maildir} (h : (unmarkAll md).Sound) : md.Sound := by
  refine ⟨fun f hf => ?_, unmarkAll_octets md ▸ h.small⟩
  have hnonneg := h.nonneg f.unmark
  rw [unmarkAll_files] at hnonneg
  exact hnonneg (List.mem_map_of_mem hf)

/-- What is loaded within bounds can be added up. -/
theorem Exchange.LoadFits.sound {x : Exchange} (h : x.LoadFits) {u : User} {md : Maildir}
    (hload : x.LoadsMailbox u md) : md.Sound := by
  obtain ⟨hfiles, hsum⟩ := h u md hload
  have hrecorded := hload.recorded_iff.mpr fun f hf => by
    obtain ⟨hle, hlt⟩ := hfiles f hf
    exact ⟨by omega, hlt⟩
  refine ⟨?_, octets_of_recorded hrecorded ▸ hsum⟩
  have hsizes : ∀ n ∈ md.messages.map (fun m => m.2.size), 0 ≤ n := by
    rw [sizes_of_recorded hrecorded, List.forall_mem_map]
    exact fun f hf => (hfiles f hf).1
  rw [List.forall_mem_map] at hsizes ⊢
  exact hsizes

theorem LoadedIn.sound {past : List Exchange} {md : Maildir} (h : LoadedIn past md)
    (hfits : ∀ y ∈ past, y.LoadFits) : md.Sound := by
  obtain ⟨y, hy, u, hload⟩ := h
  exact .of_unmarkAll ((hfits y hy).sound hload)

/-- A message that is sent is one of the mailbox of its session. -/
theorem Exchange.mem_of_retrieved {x : Exchange} {f : FileList} (h : x.retrieved = some f) :
    ∃ md, x.session.maildir = some md ∧ f ∈ md.messages.map Prod.snd := by
  unfold Exchange.retrieved at h
  split at h
  · simp only [Option.bind_eq_bind, Option.bind_eq_some_iff] at h
    obtain ⟨md, hmd, number, -, ⟨d, nodes⟩, htarget, hhead⟩ := h
    obtain ⟨more, rfl⟩ := List.head?_eq_some_iff.mp hhead
    exact ⟨md, hmd, List.mem_map_of_mem (mem_of_viewTarget htarget)⟩
  · cases h

section Run

variable {past : List Exchange} {x : Exchange}

/-- No size that is sent is negative. -/
theorem retrievals_nonneg {xs : List Exchange}
    (hkept : Machine.Along xs fun past x => Kept past x.shared x.session)
    (hfits : ∀ y ∈ xs, y.LoadFits) : ∀ f ∈ retrievals xs, 0 ≤ f.size := by
  intro f hf
  obtain ⟨y, hy, hretrieved⟩ := List.mem_filterMap.mp hf
  obtain ⟨past, hpast, hy⟩ := hkept.mem hy
  obtain ⟨md, hmd, hmem⟩ := Exchange.mem_of_retrieved hretrieved
  exact ((hy.held md hmd).sound fun z hz => hfits z (hpast hz)).nonneg f hmem

theorem OctetsExact.fit (h : OctetsExact past x) (hkept : Kept past x.shared x.session) :
    OctetsFit past x := by
  have hafter := hkept.step
  refine ⟨fun u md hload => ?_, ?_, ?_⟩
  · obtain ⟨hrecorded, hnonneg⟩ := h.recorded u md hload
    obtain ⟨md', hmd', hfrozen⟩ := hload.holds.maildir
    have hfits := hload.recorded_iff.mp hrecorded
    have hsums := h.summed md' hmd'
    refine ⟨fun f hf => ⟨hnonneg f hf, (hfits f hf).2⟩, ?_⟩
    rw [← octets_of_recorded hrecorded, ← hfrozen.restored, unmarkAll_octets]
    have hsum := (hsums _ (List.prefix_refl _)).1
    rw [sumSizes_zero, int32_eq_iff] at hsum
    exact hsum.2
  · have hbytes := hafter.bytes.symm.trans h.bytes.1
    exact ((int32_eq_iff _).mp hbytes).2
  · have hmessages := hafter.messages.symm.trans h.messages
    have hlt := ((int32_eq_iff _).mp hmessages).2
    omega

/-- What STAT answers. -/
theorem stat_sends (hcomm : getCommandValue x.command = .stat)
    (hstate : x.session.clientState = .transaction) {md : Maildir}
    (hmd : x.session.maildir = some md) {line : Bytes} (hline : line ∈ x.step.sends) :
    line = statLine md.messages.length (int32 md.octets) := by
  by_cases hfit : x.command.length ≤ 2 * BUFFER_SIZE
  · rw [Exchange.sends_eq_executed hfit (by simp [hcomm]), executed_stat hstate hmd hcomm,
      statHandeler_octets] at hline
    exact List.mem_singleton.mp hline
  · rw [Exchange.step_of_huge hfit] at hline
    cases hline

/-- What METR answers. -/
theorem metr_sends (hcomm : getCommandValue x.command = .metr)
    (hstate : x.session.clientState = .manager) {line : Bytes} (hline : line ∈ x.step.sends) :
    str "+OK " ++ formatInt x.shared.metrics.totalMessages ++ str ";" ++
      formatInt x.shared.metrics.totalBytes ++ str ";" <+: line := by
  by_cases hfit : x.command.length ≤ 2 * BUFFER_SIZE
  · have hexecuted : x.executed = metrCommand x.shared x.session := by
      rw [Exchange.executed, hcomm, execute]
    rw [Exchange.sends_eq_executed hfit (by simp [hcomm]), hexecuted, metrCommand, managerOnly,
      if_neg (not_not_intro hstate)] at hline
    refine ⟨formatInt x.shared.metrics.totalHistoricConnections ++ str ";" ++
      formatInt x.shared.metrics.maxConsecutiveConnections ++ str "\r\n", ?_⟩
    rw [List.mem_singleton.mp hline]
    simp only [List.append_assoc]
  · rw [Exchange.step_of_huge hfit] at hline
    cases hline

/-- METR sends no message. -/
theorem retrievals_metr (hcomm : getCommandValue x.command = .metr) :
    retrievals (past ++ [x]) = retrievals past := by
  have hnone : x.retrieved = none := if_neg fun h => by simp [hcomm] at h
  rw [retrievals_concat, hnone]
  exact List.append_nil _

theorem OctetsFit.exact (h : OctetsFit past x) (hkept : Kept past x.shared x.session)
    (hfits : ∀ y ∈ past ++ [x], y.LoadFits)
    (hnonneg : ∀ f ∈ retrievals (past ++ [x]), 0 ≤ f.size) : OctetsExact past x := by
  have hafter := hkept.step
  have hbytes_nonneg := octets_nonneg hnonneg
  have hbytes : FitsInt (octets (retrievals (past ++ [x]))) := ⟨by omega, h.bytes⟩
  have hmessages : FitsInt (retrievals (past ++ [x])).length := by
    have hlt := h.messages
    exact ⟨by omega, by omega⟩
  constructor
  · intro u md hload
    obtain ⟨hfiles, -⟩ := h.load u md hload
    refine ⟨hload.recorded_iff.mpr fun f hf => ?_, fun f hf => (hfiles f hf).1⟩
    obtain ⟨hle, hlt⟩ := hfiles f hf
    exact ⟨by omega, hlt⟩
  · intro md hmd
    have hsound := (hafter.held md hmd).sound hfits
    exact (sumsExactly_iff hsound.nonneg).mpr hsound.small
  · intro hcomm hstate md hmd line hline
    have hsound := (hkept.held md hmd).sound fun y hy => hfits y (List.mem_append_left _ hy)
    have hoctets : 0 ≤ md.octets := octets_nonneg hsound.nonneg
    rw [stat_sends hcomm hstate hmd hline, int32_of_fits ⟨by omega, hsound.small⟩]
  · exact ⟨hafter.bytes.trans (int32_of_fits hbytes), hbytes_nonneg⟩
  · exact hafter.messages.trans (int32_of_fits hmessages)
  · intro hcomm hstate line hline
    rw [retrievals_metr hcomm] at hbytes hmessages
    have hmetr := metr_sends hcomm hstate hline
    rwa [hkept.messages, hkept.bytes, int32_of_fits hmessages, int32_of_fits hbytes] at hmetr

end Run

/-- **Over a whole run the octets are counted exactly exactly when the mailboxes loaded and what has
been sent fit in an `int`.** -/
theorem octets_exact_iff (sh : Shared) (managerSocket : Int) (os : List Occurrence) :
    Machine.Along ((Server.zeroed sh managerSocket).exchanges os) OctetsExact ↔
      Machine.Along ((Server.zeroed sh managerSocket).exchanges os) OctetsFit := by
  have hkept := kept_along sh managerSocket os
  constructor
  · intro h past x post hsplit
    exact (h past x post hsplit).fit (hkept past x post hsplit)
  · intro h past x post hsplit
    have hinitial : past ++ [x] <+: (Server.zeroed sh managerSocket).exchanges os :=
      ⟨post, by rw [hsplit, List.append_assoc, List.singleton_append]⟩
    have hfits : ∀ y ∈ past ++ [x], y.LoadFits := by
      intro y hy
      obtain ⟨_, -, hfit⟩ := (h.of_initial hinitial).mem hy
      exact hfit.load
    exact (h past x post hsplit).exact (hkept past x post hsplit) hfits
      (retrievals_nonneg (hkept.of_initial hinitial) hfits)

/-- A folder with one file of 3000000000 bytes. -/
def greatFile : Env :=
  { sampleEnv with
    opendir := fun path =>
      if str "new" <:+ path then some [⟨str "a", some ⟨true, 3000000000⟩⟩] else some [] }

def greatFileLogin : List Occurrence :=
  accepting 4 5 ++ (roundOf 4 5 none (delivery "USER anna\r\nPASS secret\r\n" (by decide))).map
    fun o => { o with env := fun _ => greatFile }

/-- A session logs in to it, and the size that is recorded is negative. -/
theorem great_file_negative :
    ¬ ∀ (sh : Shared) (managerSocket : Int) (os : List Occurrence),
      Machine.Along ((Server.zeroed sh managerSocket).exchanges os) OctetsExact := by
  intro h
  have hnegative : ∃ x ∈ (Server.zeroed sampleShared 4).exchanges greatFileLogin,
      ∃ md ∈ x.step.session.maildir, md.octets < 0 := by decide +kernel
  obtain ⟨x, hx, md, hmd, hlt⟩ := hnegative
  obtain ⟨_, -, hexact⟩ := (h sampleShared 4 greatFileLogin).mem hx
  obtain ⟨-, hnonneg⟩ := hexact.summed md hmd _ (List.prefix_refl _)
  exact absurd hlt (Int.not_lt.mpr hnonneg)

end Pop3Server
