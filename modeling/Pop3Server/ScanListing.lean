import Pop3Server.IntSums
import Pop3Server.MarkedView

/-!
# The scan listing

STAT counts by the headers and adds up in three loops, LIST runs one index
through three lists, and LIST with a number walks to a node by offsets.
`ScanListing` is what the three say of a mailbox in common: one list of
numbered sizes.
-/

namespace Pop3Server

/-- The line `%d %d\r\n` of a number and a size. -/
def scanEntry (e : Nat × Int) : Bytes :=
  formatInt e.1 ++ str " " ++ formatInt e.2 ++ str "\r\n"

/-- `stat` and `listing` are the answers of STAT and LIST about the messages of `md`. -/
structure ScanListing (md : Maildir) (stat listing : List Bytes) (entries : List (Nat × Int)) :
    Prop where
  header : stat = [statLine entries.length (entries.map Prod.snd).sum]
  listing : listing = stat ++ entries.map scanEntry ++ [str ".\r\n"]
  numbers : entries.map Prod.fst = List.range' 1 md.messages.length
  sizes : entries.map Prod.snd = md.messages.map fun m => m.2.size
  single : ∀ (k : Nat) (e : Nat × Int), 1 ≤ k → entries[k - 1]? = some e →
    (listMessages md k).1 = [scanEntry e]

/-- The numbered sizes of the messages. -/
def Maildir.entries (md : Maildir) : List (Nat × Int) :=
  md.messages.zipIdx.map fun m => (m.2 + 1, m.1.2.size)

/-- The sum of the sizes of the messages. -/
def Maildir.octets (md : Maildir) : Int := Pop3Server.octets (md.messages.map Prod.snd)

namespace Maildir

variable (md : Maildir)

theorem length_entries : md.entries.length = md.messages.length := by
  rw [entries, List.length_map, List.length_zipIdx]

theorem entries_fst : md.entries.map Prod.fst = List.range' 1 md.messages.length := by
  have hsucc : Prod.fst ∘ (fun m : Message × Nat => (m.2 + 1, m.1.2.size)) = (1 + ·) ∘ Prod.snd :=
    funext fun m => Nat.add_comm m.2 1
  rw [entries, List.map_map, hsucc, ← List.map_map, List.zipIdx_map_snd, List.map_add_range']

theorem entries_snd : md.entries.map Prod.snd = md.messages.map fun m => m.2.size := by
  rw [entries, List.map_map]
  conv => rhs; rw [← List.zipIdx_map_fst 0 md.messages, List.map_map]
  rfl

theorem octets_eq_sum : md.octets = (md.entries.map Prod.snd).sum := by
  rw [entries_snd, octets, Pop3Server.octets, List.map_map]
  rfl

theorem entries_getElem? (k : Nat) :
    md.entries[k]? = md.messages[k]?.map fun m => (k + 1, m.2.size) := by
  rw [entries, List.getElem?_map, List.getElem?_zipIdx, Option.map_map, Nat.zero_add]
  rfl

/-- The lines of the three calls of `list_directory`. -/
theorem listDirectory_entries :
    listDirectory 1 (md.messages.map Prod.snd) = md.entries.map scanEntry := by
  rw [listDirectory_eq_map, List.zipIdx_map, entries, List.map_map, List.map_map]
  rfl

end Maildir

theorem statHandeler_octets (md : Maildir) :
    statHandeler md = statLine md.messages.length (int32 md.octets) := by
  rw [statHandeler_eq, sumSizes_zero]
  rfl

theorem listMessages_entry (md : Maildir) {k : Nat} (hk : 1 ≤ k) {e : Nat × Int}
    (he : md.entries[k - 1]? = some e) : (listMessages md k).1 = [scanEntry e] := by
  rw [md.entries_getElem?] at he
  obtain ⟨m, hm, rfl⟩ := Option.map_eq_some_iff.mp he
  have hsucc : k - 1 + 1 = k := by omega
  rw [listMessages_number md hk, hm, hsucc]
  rfl

/-! ### The answers of STAT and LIST -/

section Answers

variable {sh : Shared} {s : Session} {md : Maildir} (hstate : s.clientState = .transaction)
  (hmd : s.maildir = some md)
include hstate hmd

theorem statCommand_sends :
    (statCommand sh s).sends = [statLine md.messages.length (int32 md.octets)] := by
  rw [statCommand, loggedIn, if_neg (not_not_intro hstate), mailbox, hmd, ← statHandeler_octets]
  rfl

theorem listCommand_sends :
    (listCommand sh s none).sends =
      (statCommand sh s).sends ++ md.entries.map scanEntry ++ [str ".\r\n"] := by
  rw [statCommand_sends hstate hmd, listCommand, numberCommand_of_none hstate, listNumber, mailbox,
    hmd]
  simp only [sends_listReply]
  rw [listMessages_all, md.listDirectory_entries, statHandeler_octets]
  rfl

/-- **The scan listing is consistent**, as long as the sum of the sizes is the value of an `int`. -/
theorem scan_listing (hfits : FitsInt md.octets) :
    ∃ entries, ScanListing md (statCommand sh s).sends (listCommand sh s none).sends entries := by
  refine ⟨md.entries, ?_, listCommand_sends hstate hmd, md.entries_fst, md.entries_snd,
    fun _ _ hk he => listMessages_entry md hk he⟩
  rw [statCommand_sends hstate hmd, int32_of_fits hfits, md.octets_eq_sum, md.length_entries]

end Answers

theorem scan_listing_sample :
    ∃ entries, ScanListing ⟨.ofList [], .ofList [⟨str "a", 5, false⟩], .ofList []⟩
      (statCommand sampleShared sampleLoggedIn).sends
      (listCommand sampleShared sampleLoggedIn none).sends entries :=
  scan_listing rfl rfl (by decide)

/-- The mailbox of two files of 2147483648 bytes, as their sizes are kept. -/
def negativeSizes : Maildir :=
  ⟨.ofList [], .ofList [⟨str "a", int32 2147483648, false⟩, ⟨str "b", int32 2147483648, false⟩],
    .ofList []⟩

/-- The sum of negative sizes is below 2147483648 as well, and wraps around. -/
theorem scan_listing_negative :
    ¬ ∀ (sh : Shared) (s : Session) (md : Maildir), s.clientState = .transaction →
      s.maildir = some md → md.octets < 2 ^ 31 →
      ∃ entries, ScanListing md (statCommand sh s).sends (listCommand sh s none).sends entries := by
  intro h
  obtain ⟨entries, hlisting⟩ := h sampleShared { sampleLoggedIn with maildir := some negativeSizes }
    negativeSizes rfl rfl (by decide)
  have hlength : entries.length = 2 := by
    have hnumbers := congrArg List.length hlisting.numbers
    rwa [List.length_map, List.length_range'] at hnumbers
  have hheader := hlisting.header
  rw [hlisting.sizes, hlength] at hheader
  revert hheader
  decide +kernel

end Pop3Server
