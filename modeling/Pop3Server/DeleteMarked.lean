import Mathlib.Data.List.Nodup
import Pop3Server.Cells
import Pop3Server.Messages

/-!
# QUIT on the cells of a mailbox (`delete_marked`, `destroy_maildir`)

Here a folder is a header with the address of its first node and the count, and
the nodes are cells of a heap; what `Maildir` says of the same mailbox is
`Represents`.

A loop of `delete_marked` releases the marked nodes and moves the header past
the leading ones.  No `next` field is written, so a marked node behind a kept
one stays linked: `deleteMarked_keeps_iff` gives the mailboxes that come out
right, and `destroyMaildir_deleteMarked_iff` shows that `destroy_maildir` runs
into a released node in all the others.
-/

namespace Pop3Server

open Cells

/-- `struct file_list_header`, with the address of the first node. -/
structure ListHeader where
  list : Option Nat
  size : Int
deriving DecidableEq

/-- `struct maildir`, with its headers. -/
structure MaildirHeaders where
  cur : ListHeader
  new : ListHeader
  tmp : ListHeader
deriving DecidableEq

def MaildirHeaders.folder (m : MaildirHeaders) : Directory → ListHeader
  | .new => m.new
  | .cur => m.cur
  | .tmp => m.tmp

structure LoopResult where
  removed : List Bytes
  header : ListHeader
  heap : Heap FileList

/-- One of the three loops of `delete_marked`: `i` counts the nodes kept so far. -/
def deleteLoop (baseDir user : Bytes) (d : Directory) :
    Nat → Heap FileList → ListHeader → Nat → Option Nat → Except Cells.Fault LoopResult
  | _, h, header, _, none => .ok ⟨[], header, h⟩
  | 0, _, _, _, some _ => .error .turns
  | turns + 1, h, header, i, some aux => do
    let c ← h.load aux
    if c.value.deleted then
      let list := if i = 0 then c.next else header.list
      let h ← h.release aux
      let r ← deleteLoop baseDir user d turns h ⟨list, header.size - 1⟩ i c.next
      return { r with removed := messagePath baseDir user d c.value.name :: r.removed }
    else deleteLoop baseDir user d turns h header (i + 1) c.next

structure DeleteResult where
  removed : List Bytes
  maildir : MaildirHeaders
  heap : Heap FileList

def deleteMarked (baseDir user : Bytes) (turns : Nat) (h : Heap FileList) (m : MaildirHeaders) :
    Except Cells.Fault DeleteResult := do
  let new ← deleteLoop baseDir user .new turns h m.new 0 m.new.list
  let cur ← deleteLoop baseDir user .cur turns new.heap m.cur 0 m.cur.list
  let tmp ← deleteLoop baseDir user .tmp turns cur.heap m.tmp 0 m.tmp.list
  return ⟨new.removed ++ cur.removed ++ tmp.removed, ⟨cur.header, new.header, tmp.header⟩, tmp.heap⟩

/-- `destroy_user_list` on a list of files. -/
def destroyUserList (turns : Nat) (h : Heap FileList) (header : ListHeader) :
    Except Cells.Fault (Heap FileList) :=
  releaseAll turns h header.list

def destroyMaildir (turns : Nat) (h : Heap FileList) (m : MaildirHeaders) :
    Except Cells.Fault (Heap FileList) := do
  let h ← destroyUserList turns h m.cur
  let h ← destroyUserList turns h m.new
  destroyUserList turns h m.tmp

/-! ### The mailbox in memory -/

/-- A node of a folder: its address and what it holds. -/
abbrev FileNode := Nat × FileList

def marked (n : FileNode) : Bool := n.2.deleted

def kept (l : List FileNode) : List FileNode := l.filter fun n => !marked n

def addresses (l : List FileNode) : List Nat := l.map Prod.fst

/-- The headers and the heap hold the mailbox `md`, whose nodes are `nodes`. -/
structure Represents (h : Heap FileList) (m : MaildirHeaders) (nodes : Directory → List FileNode)
    (md : Maildir) : Prop where
  chain : ∀ d, Chain h (m.folder d).list (nodes d)
  size : ∀ d, (m.folder d).size = (md.folder d).size
  values : ∀ d, (nodes d).map Prod.snd = (md.folder d).list
  distinct : ∀ d, (addresses (nodes d)).Nodup
  disjoint : ∀ d e, d ≠ e → ∀ a ∈ nodes d, ∀ b ∈ nodes e, a.1 ≠ b.1

theorem Represents.size_eq {h : Heap FileList} {m : MaildirHeaders}
    {nodes : Directory → List FileNode} {md : Maildir} (hr : Represents h m nodes md) (d : Directory) :
    (m.folder d).size = (nodes d).length := by
  have hlen := congrArg List.length (hr.values d)
  rw [List.length_map, ← (md.folder d).size_eq] at hlen
  rw [hr.size, hlen]

/-- The mailbox fits in the turns allowed to each loop. -/
def Fits (nodes : Directory → List FileNode) (turns : Nat) : Prop := ∀ d, (nodes d).length ≤ turns

theorem kept_address_ne {l : List FileNode} (hd : (addresses l).Nodup) {n k : FileNode} (hn : n ∈ l)
    (hk : k ∈ l) (hmarked : marked n = true) (hkept : marked k = false) : k.1 ≠ n.1 := by
  intro haddress
  obtain rfl : k = n := List.inj_on_of_nodup_map hd hk hn haddress
  rw [hmarked] at hkept
  cases hkept

/-! ### One loop of `delete_marked` -/

/-- The header after the loop over `l`. -/
def ListHeader.cut (header : ListHeader) (l : List FileNode) : ListHeader :=
  ⟨head (l.dropWhile marked), header.size - l.countP marked⟩

/-- The heap after the loop over `l`. -/
def releaseMarked (h : Heap FileList) (l : List FileNode) : Heap FileList :=
  h.without (addresses (l.filter marked))

section Loop

variable (baseDir user : Bytes) (d : Directory) {h : Heap FileList} {p : Option Nat} {n : FileNode}
  {l : List FileNode} (hc : Chain h p (n :: l)) (turns : Nat) (header : ListHeader) (i : Nat)
include hc

theorem deleteLoop_marked (hn : marked n = true) :
    deleteLoop baseDir user d (turns + 1) h header i p =
      (deleteLoop baseDir user d turns (h.without [n.1])
        ⟨if i = 0 then head l else header.list, header.size - 1⟩ i (head l)).map fun r =>
          { r with removed := messagePath baseDir user d n.2.name :: r.removed } := by
  have hdeleted : n.2.deleted = true := hn
  rw [hc.linked.1, deleteLoop, hc.load]
  change (if n.2.deleted then _ else _) = _
  rw [if_pos hdeleted, release_eq_ok (hc.live n List.mem_cons_self)]
  rfl

theorem deleteLoop_kept (hn : marked n = false) :
    deleteLoop baseDir user d (turns + 1) h header i p =
      deleteLoop baseDir user d turns h header (i + 1) (head l) := by
  have hdeleted : ¬ n.2.deleted = true := Bool.eq_false_iff.mp hn
  rw [hc.linked.1, deleteLoop, hc.load]
  change (if n.2.deleted then _ else _) = _
  rw [if_neg hdeleted]

end Loop

/-- A loop gives the marked files to `remove` and releases their nodes; its header moves past
leading marked nodes only, which is when nothing has been kept yet. -/
theorem deleteLoop_eq (baseDir user : Bytes) (d : Directory) {h : Heap FileList} {p : Option Nat}
    {l : List FileNode} (hc : Chain h p l) (hdistinct : (addresses l).Nodup) {turns : Nat}
    (hturns : l.length ≤ turns) (header : ListHeader) {i : Nat} (hi : i = 0 → header.list = p) :
    deleteLoop baseDir user d turns h header i p =
      .ok ⟨removedFrom baseDir user d (l.map Prod.snd),
        ⟨if i = 0 then head (l.dropWhile marked) else header.list,
          header.size - l.countP marked⟩, releaseMarked h l⟩ := by
  induction l generalizing h p turns header i with
  | nil =>
    obtain rfl : p = none := hc.linked
    have hlist : (if i = 0 then head ([].dropWhile marked) else header.list) = header.list := by
      split
      · next h0 => exact (hi h0).symm
      · rfl
    rw [deleteLoop, hlist]
    simp [removedFrom, releaseMarked, addresses]
  | cons n l ih =>
    obtain ⟨turns, rfl⟩ : ∃ t, turns = t + 1 := ⟨turns - 1, by simp at hturns; omega⟩
    have hlen : l.length ≤ turns := by simpa using hturns
    obtain ⟨hnotMem, hnodup⟩ := List.nodup_cons.mp hdistinct
    cases hn : marked n with
    | true =>
      have hrest : Chain (h.without [n.1]) (head l) l := by
        apply hc.tail.without
        intro k hk hmem
        rw [List.mem_singleton] at hmem
        exact hnotMem (hmem ▸ List.mem_map_of_mem hk)
      have hnext : i = 0 → (if i = 0 then head l else header.list) = head l := fun h0 => if_pos h0
      have hdeleted : n.2.deleted = true := hn
      rw [deleteLoop_marked baseDir user d hc turns header i hn, ih hrest hnodup hlen _ hnext]
      simp only [Except.map, List.map_cons, removedFrom, if_pos hdeleted,
        List.dropWhile_cons_of_pos hn, List.countP_cons_of_pos hn, releaseMarked, addresses,
        List.filter_cons_of_pos hn, Heap.without_without, List.singleton_append]
      congr 3
      · split <;> rfl
      · omega
    | false =>
      have hn' : ¬ marked n = true := by simp [hn]
      have hdeleted : ¬ n.2.deleted = true := hn'
      rw [deleteLoop_kept baseDir user d hc turns header i hn,
        ih hc.tail hnodup hlen header (fun h0 => absurd h0 (by omega))]
      simp only [List.map_cons, removedFrom, if_neg hdeleted, List.countP_cons_of_neg hn',
        List.dropWhile_cons_of_neg hn', releaseMarked, List.filter_cons_of_neg hn']
      congr 2
      rw [if_neg (by omega)]
      split
      · next h0 => rw [hi h0, hc.linked.head_eq]
      · rfl

/-! ### The three loops -/

theorem chain_releaseMarked {h : Heap FileList} {p : Option Nat} {l r : List FileNode}
    (hc : Chain h p r) (hne : ∀ a ∈ l, ∀ b ∈ r, a.1 ≠ b.1) : Chain (releaseMarked h l) p r := by
  apply hc.without
  intro b hb hmem
  obtain ⟨a, ha, hab⟩ := List.mem_map.mp hmem
  exact hne a (List.mem_of_mem_filter ha) b hb hab

/-- The headers after `delete_marked`. -/
def MaildirHeaders.cut (m : MaildirHeaders) (nodes : Directory → List FileNode) : MaildirHeaders :=
  ⟨m.cur.cut (nodes .cur), m.new.cut (nodes .new), m.tmp.cut (nodes .tmp)⟩

/-- The heap after `delete_marked`. -/
def releaseAllMarked (h : Heap FileList) (nodes : Directory → List FileNode) : Heap FileList :=
  releaseMarked (releaseMarked (releaseMarked h (nodes .new)) (nodes .cur)) (nodes .tmp)

theorem MaildirHeaders.folder_cut (m : MaildirHeaders) (nodes : Directory → List FileNode)
    (d : Directory) : (m.cut nodes).folder d = (m.folder d).cut (nodes d) := by
  cases d <;> rfl

theorem mem_released_iff (h : Heap FileList) (nodes : Directory → List FileNode) (a : Nat) :
    a ∈ (releaseAllMarked h nodes).released ↔
      a ∈ h.released ∨ ∃ d, ∃ n ∈ nodes d, marked n = true ∧ n.1 = a := by
  have hfolder : ∀ d, a ∈ addresses ((nodes d).filter marked) ↔
      ∃ n ∈ nodes d, marked n = true ∧ n.1 = a := by
    intro d
    simp [addresses, and_assoc]
  simp only [releaseAllMarked, releaseMarked, Heap.mem_released_without, hfolder, or_assoc]
  refine or_congr_right ⟨?_, ?_⟩
  · rintro (h | h | h)
    · exact ⟨.new, h⟩
    · exact ⟨.cur, h⟩
    · exact ⟨.tmp, h⟩
  · rintro ⟨d, h⟩
    cases d with
    | new => exact .inl h
    | cur => exact .inr (.inl h)
    | tmp => exact .inr (.inr h)

section Mailbox

variable {h : Heap FileList} {m : MaildirHeaders} {nodes : Directory → List FileNode} {md : Maildir}
  {turns : Nat}

/-- **`delete_marked` comes to its end, and removes what the list model says.** -/
theorem deleteMarked_eq (hr : Represents h m nodes md) (hfits : Fits nodes turns)
    (baseDir user : Bytes) :
    deleteMarked baseDir user turns h m =
      .ok ⟨deleteMarkedPaths baseDir user md, m.cut nodes, releaseAllMarked h nodes⟩ := by
  have hnew := hr.chain .new
  have hcur : Chain (releaseMarked h (nodes .new)) m.cur.list (nodes .cur) :=
    chain_releaseMarked (hr.chain .cur) (hr.disjoint .new .cur (by decide))
  have htmp : Chain (releaseMarked (releaseMarked h (nodes .new)) (nodes .cur)) m.tmp.list
      (nodes .tmp) :=
    chain_releaseMarked (chain_releaseMarked (hr.chain .tmp) (hr.disjoint .new .tmp (by decide)))
      (hr.disjoint .cur .tmp (by decide))
  have hnewLoop := deleteLoop_eq baseDir user .new hnew (hr.distinct .new) (hfits .new) m.new
    (i := 0) fun _ => rfl
  have hcurLoop := deleteLoop_eq baseDir user .cur hcur (hr.distinct .cur) (hfits .cur) m.cur
    (i := 0) fun _ => rfl
  have htmpLoop := deleteLoop_eq baseDir user .tmp htmp (hr.distinct .tmp) (hfits .tmp) m.tmp
    (i := 0) fun _ => rfl
  have hvalues := hr.values
  rw [hvalues .new] at hnewLoop
  rw [hvalues .cur] at hcurLoop
  rw [hvalues .tmp] at htmpLoop
  change deleteLoop _ _ _ _ _ m.new 0 m.new.list = _ at hnewLoop
  unfold deleteMarked
  rw [hnewLoop]
  simp only [bind, Except.bind]
  rw [hcurLoop]
  simp only
  rw [htmpLoop]
  rfl

/-! ### What the mailbox is then -/

/-- In each folder every message in front of a marked one is marked too. -/
def MarksLead (md : Maildir) : Prop :=
  ∀ d, (md.folder d).list.Pairwise fun f g => g.deleted = true → f.deleted = true

/-- The mailbox that should be left of `nodes`: each folder has its unmarked nodes, in order, with
their count; no released node is reached; and `destroy_maildir` releases each of them once. -/
structure KeepsMailbox (nodes : Directory → List FileNode) (turns : Nat) (r : DeleteResult) : Prop where
  chain : ∀ d, Chain r.heap (r.maildir.folder d).list (kept (nodes d))
  size : ∀ d, (r.maildir.folder d).size = (kept (nodes d)).length
  live : ∀ d a, Reaches r.heap (r.maildir.folder d).list a → a ∉ r.heap.released
  destroyed : destroyMaildir turns r.heap r.maildir =
    .ok (r.heap.without (addresses (kept (nodes .cur) ++ kept (nodes .new) ++ kept (nodes .tmp))))

theorem dropWhile_eq_filter_iff {α : Type} (q : α → Bool) (l : List α) :
    l.dropWhile q = (l.filter fun a => !q a) ↔ l.Pairwise fun a b => q b = true → q a = true := by
  induction l with
  | nil => simp
  | cons a l ih =>
    rw [List.pairwise_cons]
    by_cases ha : q a = true
    · rw [List.dropWhile_cons_of_pos ha, List.filter_cons_of_neg (by simp [ha]), ih]
      simp [ha]
    · have hfilter : l = (l.filter fun a => !q a) ↔ ∀ b ∈ l, q b = true → q a = true := by
        rw [eq_comm, List.filter_eq_self]
        simp [ha]
      rw [List.dropWhile_cons_of_neg ha, List.filter_cons_of_pos (by simpa using ha),
        List.cons.injEq, hfilter]
      constructor
      · rintro ⟨-, hall⟩
        exact ⟨hall, List.pairwise_of_forall_mem_list fun x _ y hy hq => absurd (hall y hy hq) ha⟩
      · rintro ⟨hall, -⟩
        exact ⟨rfl, hall⟩

theorem marksLead_iff (hr : Represents h m nodes md) :
    MarksLead md ↔ ∀ d, (nodes d).dropWhile marked = kept (nodes d) := by
  unfold MarksLead kept
  apply forall_congr'
  intro d
  rw [dropWhile_eq_filter_iff, ← hr.values, List.pairwise_map]
  rfl

theorem linked_cut (hr : Represents h m nodes md) (d : Directory) :
    Linked (releaseAllMarked h nodes).cell ((m.cut nodes).folder d).list
      ((nodes d).dropWhile marked) := by
  rw [MaildirHeaders.folder_cut]
  exact (hr.chain d).linked.dropWhile marked

theorem kept_live (hr : Represents h m nodes md) {d : Directory} {n : FileNode}
    (hn : n ∈ kept (nodes d)) : n.1 ∉ (releaseAllMarked h nodes).released := by
  obtain ⟨hmem, hkept⟩ := List.mem_filter.mp hn
  rw [mem_released_iff, not_or]
  refine ⟨(hr.chain d).live n hmem, ?_⟩
  rintro ⟨e, k, hk, hmarked, haddress⟩
  by_cases hde : e = d
  · subst hde
    exact kept_address_ne (hr.distinct e) hk hmem hmarked (by simpa using hkept) haddress.symm
  · exact hr.disjoint e d hde k hk n hmem haddress

theorem chain_kept (hr : Represents h m nodes md) (hlead : MarksLead md) (d : Directory) :
    Chain (releaseAllMarked h nodes) ((m.cut nodes).folder d).list (kept (nodes d)) := by
  have hlinked := linked_cut hr d
  rw [(marksLead_iff hr).mp hlead d] at hlinked
  exact ⟨hlinked, fun n hn => kept_live hr hn⟩

theorem size_cut (hr : Represents h m nodes md) (d : Directory) :
    ((m.cut nodes).folder d).size = (kept (nodes d)).length := by
  have hsplit := @List.length_eq_countP_add_countP _ marked (nodes d)
  have hkept : (kept (nodes d)).length = (nodes d).countP fun n => !marked n :=
    List.countP_eq_length_filter.symm
  simp only [Bool.not_eq_true, Bool.decide_eq_false] at hsplit
  rw [MaildirHeaders.folder_cut]
  change (m.folder d).size - ((nodes d).countP marked : Int) = _
  rw [hr.size_eq]
  omega

theorem nodup_kept (hr : Represents h m nodes md) (d : Directory) :
    ((kept (nodes d)).map Prod.fst).Nodup :=
  (hr.distinct d).sublist (List.filter_sublist.map Prod.fst)

theorem kept_ne (hr : Represents h m nodes md) {d e : Directory} (hde : d ≠ e) {n : FileNode}
    (hn : n ∈ kept (nodes e)) : n.1 ∉ addresses (kept (nodes d)) := by
  intro hmem
  obtain ⟨k, hk, haddress⟩ := List.mem_map.mp hmem
  exact hr.disjoint d e hde k (List.mem_of_mem_filter hk) n (List.mem_of_mem_filter hn) haddress

theorem destroyUserList_kept (hr : Represents h m nodes md) (hfits : Fits nodes turns)
    (hlead : MarksLead md) (d : Directory) {as : List Nat}
    (has : ∀ n ∈ kept (nodes d), n.1 ∉ as) :
    destroyUserList turns ((releaseAllMarked h nodes).without as) ((m.cut nodes).folder d) =
      .ok ((releaseAllMarked h nodes).without (as ++ addresses (kept (nodes d)))) := by
  have hturns : (kept (nodes d)).length ≤ turns :=
    Nat.le_trans (List.length_filter_le _ _) (hfits d)
  have hchain := (chain_kept hr hlead d).without has
  rw [destroyUserList, hchain.releaseAll (nodup_kept hr d) hturns, Heap.without_without]
  rfl

theorem destroyMaildir_kept (hr : Represents h m nodes md) (hfits : Fits nodes turns)
    (hlead : MarksLead md) :
    destroyMaildir turns (releaseAllMarked h nodes) (m.cut nodes) =
      .ok ((releaseAllMarked h nodes).without
        (addresses (kept (nodes .cur) ++ kept (nodes .new) ++ kept (nodes .tmp)))) := by
  have hcur := @destroyUserList_kept _ _ _ _ _ hr hfits hlead .cur [] fun _ _ => List.not_mem_nil
  have hnew := @destroyUserList_kept _ _ _ _ _ hr hfits hlead .new
    (addresses (kept (nodes .cur))) fun n hn => kept_ne hr (by decide) hn
  have htmp := @destroyUserList_kept _ _ _ _ _ hr hfits hlead .tmp
    (addresses (kept (nodes .cur)) ++ addresses (kept (nodes .new))) fun n hn => by
      rw [List.mem_append, not_or]
      exact ⟨kept_ne hr (by decide) hn, kept_ne hr (by decide) hn⟩
  rw [Heap.without_nil, List.nil_append] at hcur
  change (destroyUserList _ _ ((m.cut nodes).folder .cur) >>= fun h =>
    destroyUserList turns h ((m.cut nodes).folder .new) >>= fun h =>
      destroyUserList turns h ((m.cut nodes).folder .tmp)) = _
  rw [hcur]
  change (destroyUserList _ _ ((m.cut nodes).folder .new) >>= _) = _
  rw [hnew]
  change destroyUserList _ _ ((m.cut nodes).folder .tmp) = _
  rw [htmp]
  simp only [addresses, List.map_append]

/-- **QUIT leaves the mailbox well formed exactly when in each folder the marked messages come
first.** -/
theorem deleteMarked_keeps_iff (hr : Represents h m nodes md) (hfits : Fits nodes turns)
    (baseDir user : Bytes) :
    (∃ r, deleteMarked baseDir user turns h m = .ok r ∧ KeepsMailbox nodes turns r) ↔
      MarksLead md := by
  rw [deleteMarked_eq hr hfits]
  constructor
  · rintro ⟨r, hok, hkeeps⟩
    obtain rfl := Except.ok.inj hok
    rw [marksLead_iff hr]
    intro d
    exact ((hkeeps.chain d).eq_of_linked (linked_cut hr d)).symm
  · intro hlead
    refine ⟨_, rfl, chain_kept hr hlead, size_cut hr, ?_, destroyMaildir_kept hr hfits hlead⟩
    intro d a hreaches
    exact (chain_kept hr hlead d).notMem_released hreaches

theorem dropWhile_eq_kept {l : List FileNode} (h : ∀ n ∈ l.dropWhile marked, marked n = false) :
    l.dropWhile marked = kept l := by
  induction l with
  | nil => rfl
  | cons n l ih =>
    cases hn : marked n with
    | true =>
      rw [List.dropWhile_cons_of_pos hn] at h ⊢
      rw [ih h, kept, kept, List.filter_cons_of_neg (by simp [hn])]
    | false =>
      have hn' : ¬ marked n = true := by simp [hn]
      rw [List.dropWhile_cons_of_neg hn'] at h ⊢
      exact (List.filter_eq_self.mpr fun k hk => by simp [h k hk]).symm

theorem kept_of_destroyUserList (hr : Represents h m nodes md) (hfits : Fits nodes turns)
    {d : Directory} {as : List Nat} {h' : Heap FileList}
    (hok : destroyUserList turns ((releaseAllMarked h nodes).without as)
      ((m.cut nodes).folder d) = .ok h') :
    (nodes d).dropWhile marked = kept (nodes d) ∧
      ∃ bs, h' = (releaseAllMarked h nodes).without bs := by
  have hsub : ((nodes d).dropWhile marked).Sublist (nodes d) :=
    (List.dropWhile_suffix _).sublist
  have hchain := (linked_cut hr d).chain_of_releaseAll
    (h := (releaseAllMarked h nodes).without as) hok
  refine ⟨dropWhile_eq_kept fun n hn => ?_, ?_⟩
  · -- a marked node that is still linked would be released
    rw [← Bool.not_eq_true]
    intro hmarked
    refine hchain.live n hn (Heap.mem_released_without.mpr (.inl ?_))
    exact (mem_released_iff h nodes n.1).mpr (.inr ⟨d, n, hsub.subset hn, hmarked, rfl⟩)
  · have hnodup := (hr.distinct d).sublist (hsub.map Prod.fst)
    have hreleased := hchain.releaseAll hnodup (Nat.le_trans hsub.length_le (hfits d))
    rw [destroyUserList, hreleased, Heap.without_without] at hok
    exact ⟨_, (Except.ok.inj hok).symm⟩

/-- **`destroy_maildir` follows a released node in every other mailbox.** -/
theorem destroyMaildir_deleteMarked_iff (hr : Represents h m nodes md) (hfits : Fits nodes turns)
    (baseDir user : Bytes) :
    (∃ r h', deleteMarked baseDir user turns h m = .ok r ∧
      destroyMaildir turns r.heap r.maildir = .ok h') ↔ MarksLead md := by
  constructor
  · rintro ⟨r, h', hok, hdestroyed⟩
    rw [deleteMarked_eq hr hfits] at hok
    obtain rfl := Except.ok.inj hok
    rw [destroyMaildir] at hdestroyed
    simp only at hdestroyed
    cases hcur : destroyUserList turns (releaseAllMarked h nodes) (m.cut nodes).cur with
    | error e => rw [hcur] at hdestroyed; cases hdestroyed
    | ok h1 =>
    rw [← (releaseAllMarked h nodes).without_nil] at hcur
    obtain ⟨hc, as, rfl⟩ := kept_of_destroyUserList (d := .cur) hr hfits hcur
    rw [Heap.without_nil] at hcur
    rw [hcur] at hdestroyed
    change (destroyUserList _ _ (m.cut nodes).new >>= _) = _ at hdestroyed
    cases hnew : destroyUserList turns ((releaseAllMarked h nodes).without as)
      (m.cut nodes).new with
    | error e => rw [hnew] at hdestroyed; cases hdestroyed
    | ok h2 =>
    rw [hnew] at hdestroyed
    obtain ⟨hn, bs, rfl⟩ := kept_of_destroyUserList (d := .new) hr hfits hnew
    obtain ⟨ht, -⟩ := kept_of_destroyUserList (d := .tmp) hr hfits hdestroyed
    rw [marksLead_iff hr]
    intro d
    cases d with
    | new => exact hn
    | cur => exact hc
    | tmp => exact ht
  · intro hlead
    exact ⟨_, _, deleteMarked_eq hr hfits baseDir user, destroyMaildir_kept hr hfits hlead⟩

end Mailbox

/-! ### Two messages in `new` and one in `cur` -/

def twoMessages (marks : Bool × Bool) : List FileList :=
  [⟨str "a", 5, marks.1⟩, ⟨str "b", 30, marks.2⟩]

def sampleMaildir (marks : Bool × Bool) : Maildir :=
  ⟨.ofList [⟨str "c", 7, false⟩], .ofList (twoMessages marks), .ofList []⟩

def sampleNodes (marks : Bool × Bool) : Directory → List FileNode
  | .new => [(0, ⟨str "a", 5, marks.1⟩), (1, ⟨str "b", 30, marks.2⟩)]
  | .cur => [(2, ⟨str "c", 7, false⟩)]
  | .tmp => []

def sampleHeap (marks : Bool × Bool) : Heap FileList where
  cell
    | 0 => some ⟨⟨str "a", 5, marks.1⟩, some 1⟩
    | 1 => some ⟨⟨str "b", 30, marks.2⟩, none⟩
    | 2 => some ⟨⟨str "c", 7, false⟩, none⟩
    | _ => none
  released := []

def sampleHeaders : MaildirHeaders := ⟨⟨some 2, 1⟩, ⟨some 0, 2⟩, ⟨none, 0⟩⟩

theorem represents_sample (marks : Bool × Bool) :
    Represents (sampleHeap marks) sampleHeaders (sampleNodes marks) (sampleMaildir marks) where
  chain d := by
    refine ⟨?_, fun _ _ => List.not_mem_nil⟩
    cases d with
    | new => exact ⟨rfl, _, rfl, rfl, _, rfl, rfl⟩
    | cur => exact ⟨rfl, _, rfl, rfl⟩
    | tmp => rfl
  size d := by cases d <;> rfl
  values d := by cases d <;> rfl
  distinct d := by cases d <;> simp [sampleNodes, addresses]
  disjoint d e hde := by cases d <;> cases e <;> simp_all [sampleNodes]

theorem fits_sample (marks : Bool × Bool) : Fits (sampleNodes marks) 2 := by
  intro d
  cases d <;> simp [sampleNodes]

/-- The first message of `new` is marked. -/
theorem deleteMarked_keeps_first :
    ∃ r, deleteMarked (str "/mail/") (str "anna") 2 (sampleHeap (true, false)) sampleHeaders =
      .ok r ∧ KeepsMailbox (sampleNodes (true, false)) 2 r := by
  refine (deleteMarked_keeps_iff (represents_sample (true, false)) (fits_sample _) (str "/mail/")
    (str "anna")).mpr ?_
  intro d
  cases d <;> decide

/-- The second message of `new` is marked and the first one is not: its node stays linked. -/
theorem deleteMarked_second :
    ¬ ∀ (h : Heap FileList) (m : MaildirHeaders) (nodes : Directory → List FileNode) (md : Maildir)
      (turns : Nat), Represents h m nodes md → Fits nodes turns → ∀ baseDir user : Bytes,
        ∃ r, deleteMarked baseDir user turns h m = .ok r ∧ KeepsMailbox nodes turns r := by
  intro hall
  obtain ⟨r, hok, hkeeps⟩ := hall _ _ _ _ 2 (represents_sample (false, true)) (fits_sample _)
    (str "/mail/") (str "anna")
  have hdestroyed : (deleteMarked (str "/mail/") (str "anna") 2 (sampleHeap (false, true))
      sampleHeaders >>= fun r => destroyMaildir 2 r.heap r.maildir).toOption.isSome = false := by
    decide +kernel
  rw [hok] at hdestroyed
  change (destroyMaildir 2 r.heap r.maildir).toOption.isSome = false at hdestroyed
  rw [hkeeps.destroyed] at hdestroyed
  cases hdestroyed

end Pop3Server
