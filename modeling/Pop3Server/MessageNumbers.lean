import Pop3Server.Outcomes

/-!
# What a message number designates

LIST, DELE and RETR each resolve a number on their own.  A number stands for the
node at its place in `new`, `cur`, `tmp` (`Maildir.nodes`); a node is a folder
and a pointer into its list, so that two messages of the same name and size are
still two.  `list_messages` and `delete_message` find that node
(`listTarget_eq`, `deleteTarget_messages`); `view_message` starts counting again
in every folder (`viewTarget_eq`), and `numbers_agree_iff` says for which
numbers this makes no difference.
-/

namespace Pop3Server

abbrev Node := Directory × List FileList

def positions : List FileList → List (List FileList)
  | [] => []
  | f :: rest => (f :: rest) :: positions rest

/-- The nodes of a mailbox, in the order of their numbers. -/
def Maildir.nodes (md : Maildir) : List Node :=
  (positions md.new.list).map (Prod.mk .new) ++ (positions md.cur.list).map (Prod.mk .cur) ++
    (positions md.tmp.list).map (Prod.mk .tmp)

theorem positions_getElem? (l : List FileList) (k : Nat) :
    (positions l)[k]? = if k < l.length then some (l.drop k) else none := by
  induction l generalizing k with
  | nil => simp [positions]
  | cons f l ih =>
    cases k with
    | zero => simp [positions]
    | succ k => simp [positions, ih]

theorem length_positions (l : List FileList) : (positions l).length = l.length := by
  induction l with
  | nil => rfl
  | cons f l ih => simp [positions, ih]

theorem Maildir.nodes_getElem? (md : Maildir) (k : Nat) :
    md.nodes[k]? =
      if k < md.new.size then some (.new, md.new.list.drop k)
      else if k < md.new.size + md.cur.size then some (.cur, md.cur.list.drop (k - md.new.size))
      else if k < md.new.size + md.cur.size + md.tmp.size then
        some (.tmp, md.tmp.list.drop (k - (md.new.size + md.cur.size)))
      else none := by
  have hnew := md.new.size_eq
  have hcur := md.cur.size_eq
  have htmp := md.tmp.size_eq
  simp only [nodes, List.getElem?_append, List.length_append, List.length_map, length_positions,
    List.getElem?_map, positions_getElem?, ← hnew, ← hcur, ← htmp]
  by_cases h1 : k < md.new.size
  · rw [if_pos (by omega), if_pos h1, if_pos h1, if_pos h1]; rfl
  by_cases h2 : k < md.new.size + md.cur.size
  · rw [if_pos h2, if_neg h1, if_neg h1, if_pos h2, if_pos (by omega)]; rfl
  rw [if_neg h2, if_neg h1, if_neg h2]
  by_cases h3 : k < md.new.size + md.cur.size + md.tmp.size
  · rw [if_pos h3, if_pos (by omega)]; rfl
  · rw [if_neg h3, if_neg (by omega)]; rfl

theorem Maildir.length_nodes (md : Maildir) : md.nodes.length = md.messages.length := by
  simp [nodes, messages, length_positions]

theorem Maildir.messages_of_no_node (md : Maildir) {k : Nat} (h : md.nodes[k]? = none) :
    md.messages[k]? = none := by
  rw [List.getElem?_eq_none_iff] at h ⊢
  rwa [← md.length_nodes]

theorem Maildir.nodes_messages (md : Maildir) {k : Nat} {d : Directory} {l : List FileList}
    (h : md.nodes[k]? = some (d, l)) :
    ∃ f rest, l = f :: rest ∧ md.messages[k]? = some (d, f) := by
  have hdrop : ∀ (l : List FileList) (k : Nat), k < l.length →
      ∃ f rest, l.drop k = f :: rest ∧ l[k]? = some f := by
    intro l k hk
    exact ⟨l[k], l.drop (k + 1), List.drop_eq_getElem_cons hk, List.getElem?_eq_getElem hk⟩
  have hnew := md.new.size_eq
  have hcur := md.cur.size_eq
  have htmp := md.tmp.size_eq
  rw [md.nodes_getElem?] at h
  simp only [messages, List.getElem?_append, List.length_append, List.length_map,
    List.getElem?_map, ← hnew, ← hcur]
  by_cases h1 : k < md.new.size
  · rw [if_pos h1] at h
    obtain ⟨f, rest, hl, hf⟩ := hdrop md.new.list k (by omega)
    obtain ⟨rfl, rfl⟩ : _ ∧ _ := by simpa using h
    exact ⟨f, rest, hl, by rw [if_pos (by omega), if_pos h1, hf]; rfl⟩
  rw [if_neg h1] at h
  by_cases h2 : k < md.new.size + md.cur.size
  · rw [if_pos h2] at h
    obtain ⟨f, rest, hl, hf⟩ := hdrop md.cur.list (k - md.new.size) (by omega)
    obtain ⟨rfl, rfl⟩ : _ ∧ _ := by simpa using h
    exact ⟨f, rest, hl, by rw [if_pos h2, if_neg h1, hf]; rfl⟩
  rw [if_neg h2] at h
  by_cases h3 : k < md.new.size + md.cur.size + md.tmp.size
  · rw [if_pos h3] at h
    obtain ⟨f, rest, hl, hf⟩ := hdrop md.tmp.list (k - (md.new.size + md.cur.size)) (by omega)
    obtain ⟨rfl, rfl⟩ : _ ∧ _ := by simpa using h
    exact ⟨f, rest, hl, by rw [if_neg h2, hf]; rfl⟩
  · rw [if_neg h3] at h; cases h

/-! ### LIST -/

theorem walk_eq (n : Nat) (l : List FileList) : walk n l = l.drop (n - 1) := by
  induction l generalizing n with
  | nil => rcases n with _ | _ | n <;> simp [walk]
  | cons f l ih =>
    rcases n with _ | _ | n
    · simp [walk]
    · simp [walk]
    · rw [walk, ih]; simp

/-- **`list_messages` finds the node with the number.** -/
theorem listTarget_eq (md : Maildir) {n : Nat} (h : 1 ≤ n) :
    listTarget md n = md.nodes[n - 1]? := by
  rw [md.nodes_getElem?, listTarget]
  simp only [walk_eq]
  by_cases h1 : n ≤ md.new.size
  · rw [if_pos h1, if_pos (by omega)]
  by_cases h2 : n ≤ md.new.size + md.cur.size
  · rw [if_neg h1, if_pos h2, if_neg (by omega), if_pos (by omega),
      show n - md.new.size - 1 = n - 1 - md.new.size by omega]
  by_cases h3 : n ≤ md.new.size + md.cur.size + md.tmp.size
  · rw [if_neg h1, if_neg h2, if_pos h3, if_neg (by omega), if_neg (by omega), if_pos (by omega),
      show n - (md.new.size + md.cur.size) - 1 = n - 1 - (md.new.size + md.cur.size) by omega]
  · rw [if_neg h1, if_neg h2, if_neg h3, if_neg (by omega), if_neg (by omega), if_neg (by omega)]

theorem listDirectory_append (i : Nat) (l l' : List FileList) :
    listDirectory i (l ++ l') = listDirectory i l ++ listDirectory (i + l.length) l' := by
  induction l generalizing i with
  | nil => rfl
  | cons f l ih =>
    rw [List.cons_append, listDirectory, listDirectory, ih, List.cons_append, List.length_cons,
      Nat.add_right_comm, Nat.add_assoc]

theorem listDirectory_getElem? (i : Nat) (l : List FileList) (k : Nat) :
    (listDirectory i l)[k]? = l[k]?.map (scanLine (i + k : Nat)) := by
  induction l generalizing i k with
  | nil => simp [listDirectory]
  | cons f l ih =>
    cases k with
    | zero => simp [listDirectory]
    | succ k =>
      rw [listDirectory, List.getElem?_cons_succ, ih, List.getElem?_cons_succ,
        show i + 1 + k = i + (k + 1) by omega]

theorem listMessages_all (md : Maildir) :
    (listMessages md (-1)).1 =
      statHandeler md :: listDirectory 1 (md.messages.map Prod.snd) ++ [str ".\r\n"] := by
  have hsnd : md.messages.map Prod.snd = md.new.list ++ md.cur.list ++ md.tmp.list := by
    simp [Maildir.messages, Function.comp_def]
  rw [hsnd, listDirectory_append, listDirectory_append, List.length_append]
  simp [listMessages, Nat.add_assoc]

/-! ### RETR -/

theorem searchFile_eq {n : Int} (h : 1 ≤ n) (l : List FileList) :
    searchFile n l = l.drop (n.toNat - 1) := by
  induction l generalizing n with
  | nil => simp [searchFile]
  | cons f l ih =>
    rw [searchFile]
    by_cases h1 : n - 1 = 0
    · rw [if_pos h1, show n.toNat - 1 = 0 by omega, List.drop_zero]
    · rw [if_neg h1, ih (by omega), show n.toNat - 1 = (n - 1).toNat - 1 + 1 by omega,
        List.drop_succ_cons]

theorem searchFile_zero (l : List FileList) {n : Int} (h : n ≤ 0) : searchFile n l = [] := by
  induction l generalizing n with
  | nil => rfl
  | cons f l ih =>
    rw [searchFile, if_neg (by omega)]
    exact ih (by omega)

theorem viewTarget_zero (md : Maildir) : viewTarget md 0 = none := by
  simp [viewTarget, searchFile_zero]

theorem mem_of_searchFile {n : Int} {l : List FileList} {f : FileList} {rest : List FileList}
    (h : searchFile n l = f :: rest) : f ∈ l := by
  induction l generalizing n with
  | nil => cases h
  | cons g l ih =>
    rw [searchFile] at h
    split at h
    · obtain ⟨rfl, -⟩ := List.cons.inj h
      exact List.mem_cons_self
    · exact List.mem_cons_of_mem _ (ih h)

/-- What `view_message` finds is a message of the mailbox. -/
theorem mem_of_viewTarget {md : Maildir} {n : Int} {d : Directory} {f : FileList}
    {rest : List FileList} (h : viewTarget md n = some (d, f :: rest)) : (d, f) ∈ md.messages := by
  unfold viewTarget at h
  split at h
  · next hnew =>
    obtain ⟨rfl, rfl, rfl⟩ := h
    exact List.mem_append_left _ (List.mem_append_left _ (List.mem_map_of_mem (mem_of_searchFile hnew)))
  split at h
  · next hcur =>
    obtain ⟨rfl, rfl, rfl⟩ := h
    exact List.mem_append_left _ (List.mem_append_right _ (List.mem_map_of_mem (mem_of_searchFile hcur)))
  split at h
  · next htmp =>
    obtain ⟨rfl, rfl, rfl⟩ := h
    exact List.mem_append_right _ (List.mem_map_of_mem (mem_of_searchFile htmp))
  · cases h

/-- **`view_message` looks for the same number in each folder.** -/
theorem viewTarget_eq (md : Maildir) {n : Nat} (h : 1 ≤ n) :
    viewTarget md n =
      if n ≤ md.new.size then some (.new, md.new.list.drop (n - 1))
      else if n ≤ md.cur.size then some (.cur, md.cur.list.drop (n - 1))
      else if n ≤ md.tmp.size then some (.tmp, md.tmp.list.drop (n - 1))
      else none := by
  have hdrop : ∀ hd : FileListHeader, hd.list.drop (n - 1) = [] ↔ ¬ n ≤ hd.size := by
    intro hd
    rw [List.drop_eq_nil_iff, hd.size_eq]
    omega
  have hsearch : ∀ l, searchFile (n : Int) l = l.drop (n - 1) := fun l => by
    rw [searchFile_eq (by omega), Int.toNat_natCast]
  unfold viewTarget
  simp only [hsearch]
  split
  · next f rest hnew =>
    rw [if_pos (by by_contra hno; simp [(hdrop md.new).mpr hno] at hnew), hnew]
  next hnew =>
  rw [if_neg ((hdrop md.new).mp hnew)]
  split
  · next f rest hcur =>
    rw [if_pos (by by_contra hno; simp [(hdrop md.cur).mpr hno] at hcur), hcur]
  next hcur =>
  rw [if_neg ((hdrop md.cur).mp hcur)]
  split
  · next f rest htmp =>
    rw [if_pos (by by_contra hno; simp [(hdrop md.tmp).mpr hno] at htmp), htmp]
  · next htmp => rw [if_neg ((hdrop md.tmp).mp htmp)]

theorem viewTarget_cases (md : Maildir) (n : Int) :
    viewTarget md n = none ∨ ∃ d f rest, viewTarget md n = some (d, f :: rest) := by
  unfold viewTarget
  split
  · exact .inr ⟨_, _, _, rfl⟩
  split
  · exact .inr ⟨_, _, _, rfl⟩
  split
  · exact .inr ⟨_, _, _, rfl⟩
  · exact .inl rfl

theorem viewTarget_eq_none_iff (md : Maildir) {n : Nat} (h : 1 ≤ n) :
    viewTarget md n = none ↔
      (md.new.size : Int) < n ∧ (md.cur.size : Int) < n ∧ (md.tmp.size : Int) < n := by
  rw [viewTarget_eq md h]
  split
  · exact iff_of_false nofun (by omega)
  split
  · exact iff_of_false nofun (by omega)
  split
  · exact iff_of_false nofun (by omega)
  · exact iff_of_true rfl (by omega)

/-- The node RETR finds is the right one only where no earlier folder is to be counted. -/
theorem viewTarget_eq_node_iff (md : Maildir) {n : Nat} (h : 1 ≤ n) :
    viewTarget md n = md.nodes[n - 1]? ↔
      md.messages.length < n ∨ n ≤ md.new.size ∨ (md.new.size = 0 ∧ n ≤ md.cur.size) ∨
        (md.new.size = 0 ∧ md.cur.size = 0) := by
  have hlen := md.length_messages
  have hcur := md.cur.size_eq
  rw [viewTarget_eq md h, md.nodes_getElem?]
  by_cases h1 : n ≤ md.new.size
  · rw [if_pos h1, if_pos (show n - 1 < md.new.size by omega)]
    exact iff_of_true rfl (by omega)
  rw [if_neg h1, if_neg (show ¬ n - 1 < md.new.size by omega)]
  by_cases h2 : n ≤ md.new.size + md.cur.size
  · rw [if_pos (show n - 1 < md.new.size + md.cur.size by omega)]
    by_cases h3 : n ≤ md.cur.size
    · rw [if_pos h3]
      constructor
      · intro he
        -- the two pointers leave lists of different lengths behind unless `new` is empty
        have hdrop : md.cur.list.drop (n - 1) = md.cur.list.drop (n - 1 - md.new.size) := by
          simpa using he
        have := congrArg List.length hdrop
        rw [List.length_drop, List.length_drop] at this
        omega
      · intro hcond
        rw [show md.new.size = 0 by omega, Nat.sub_zero]
    · rw [if_neg h3]
      refine iff_of_false ?_ (by omega)
      split <;> simp
  rw [if_neg (show ¬ n - 1 < md.new.size + md.cur.size by omega),
    if_neg (show ¬ n ≤ md.cur.size by omega)]
  by_cases h3 : n ≤ md.new.size + md.cur.size + md.tmp.size
  · rw [if_pos (show n - 1 < md.new.size + md.cur.size + md.tmp.size by omega)]
    have htmp := md.tmp.size_eq
    by_cases h4 : n ≤ md.tmp.size
    · rw [if_pos h4]
      constructor
      · intro he
        have hdrop : md.tmp.list.drop (n - 1) =
            md.tmp.list.drop (n - 1 - (md.new.size + md.cur.size)) := by simpa using he
        have := congrArg List.length hdrop
        rw [List.length_drop, List.length_drop] at this
        omega
      · intro hcond
        rw [show md.new.size + md.cur.size = 0 by omega, Nat.sub_zero]
    · rw [if_neg h4]
      exact iff_of_false (by simp) (by omega)
  · rw [if_neg (show ¬ n - 1 < md.new.size + md.cur.size + md.tmp.size by omega),
      if_neg (show ¬ n ≤ md.tmp.size by omega)]
    exact iff_of_true rfl (by omega)

/-! ### One number, one message -/

/-- What RETR does about a message: it announces the size and sends the file, or finds nothing. -/
def retrieval (sh : Shared) (s : Session) (u : User) : Option Message → List Effect
  | some m => [announced m.2, .transfer (m.path sh.pop3.baseDir u.name)
      (sh.pop3.transEnabled && s.clientState == .transaction)]
  | none => [.send (str "-ERR Message not found\r\n")]

/-- The number designates the message at its place for every command, or none beyond the last. -/
structure OneMessage (md : Maildir) (n : Nat) : Prop where
  list : listTarget md n = md.nodes[n - 1]?
  listed : (listMessages md n).1 = md.messages[n - 1]?.toList.map fun m => scanLine n m.2
  marked : n ≤ md.messages.length → ∃ md', deleteTarget md n = some (some md') ∧
    md'.messages = md.messages.modify (n - 1) Message.mark
  unmarked : md.messages.length < n → deleteTarget md n = none
  retr : viewTarget md n = md.nodes[n - 1]?
  sent : ∀ sh s u, s.user = some u →
    (viewMessage sh s md n).effects = retrieval sh s u md.messages[n - 1]?
  line : ∀ m, md.messages[n - 1]? = some m →
    (listMessages md (-1)).1[n]? = some (scanLine n m.2)

theorem listMessages_number (md : Maildir) {n : Nat} (h : 1 ≤ n) :
    (listMessages md n).1 = md.messages[n - 1]?.toList.map fun m => scanLine n m.2 := by
  have hne : (n : Int) ≠ -1 := by omega
  have hpos : (n : Int) > 0 := by omega
  rw [listMessages, if_neg hne, if_pos hpos, Int.toNat_natCast, listTarget_eq md h]
  rcases hnode : md.nodes[n - 1]? with _ | ⟨d, l⟩
  · rw [md.messages_of_no_node hnode]
    rfl
  · obtain ⟨f, rest, rfl, hmessage⟩ := md.nodes_messages hnode
    rw [hmessage]; rfl

theorem listMessages_line (md : Maildir) {n : Nat} (h : 1 ≤ n) {m : Message}
    (hm : md.messages[n - 1]? = some m) :
    (listMessages md (-1)).1[n]? = some (scanLine n m.2) := by
  obtain ⟨k, rfl⟩ : ∃ k, n = k + 1 := ⟨n - 1, by omega⟩
  rw [Nat.add_sub_cancel] at hm
  have hline : (listDirectory 1 (md.messages.map Prod.snd))[k]? =
      some (scanLine (k + 1 : Nat) m.2) := by
    rw [listDirectory_getElem?, List.getElem?_map, hm, Nat.add_comm 1 k]
    rfl
  rw [listMessages_all, List.cons_append, List.getElem?_cons_succ, List.getElem?_append_left]
  · exact hline
  · exact (List.getElem?_eq_some_iff.mp hline).1

theorem viewMessage_effects {md : Maildir} {n : Nat} (h : viewTarget md n = md.nodes[n - 1]?)
    (sh : Shared) {s : Session} {u : User} (hu : s.user = some u) :
    (viewMessage sh s md n).effects = retrieval sh s u md.messages[n - 1]? := by
  unfold viewMessage
  rw [h]
  rcases hnode : md.nodes[n - 1]? with _ | ⟨d, l⟩
  · rw [md.messages_of_no_node hnode]
    rfl
  · obtain ⟨f, rest, rfl, hmessage⟩ := md.nodes_messages hnode
    rw [hmessage]
    simp only [hu]
    rfl

/-- **A number designates one message for every command exactly when it lies in `new`, or in `cur`
with `new` empty, or in `tmp` with both empty, or beyond the last message.** -/
theorem numbers_agree_iff (md : Maildir) {n : Nat} (h : 1 ≤ n) :
    OneMessage md n ↔
      md.messages.length < n ∨ n ≤ md.new.size ∨ (md.new.size = 0 ∧ n ≤ md.cur.size) ∨
        (md.new.size = 0 ∧ md.cur.size = 0) := by
  rw [← viewTarget_eq_node_iff md h]
  constructor
  · intro hone
    exact hone.retr
  · intro hview
    refine ⟨listTarget_eq md h, listMessages_number md h, ?_, ?_, hview,
      fun sh s u hu => viewMessage_effects hview sh hu, fun m hm => listMessages_line md h hm⟩
    · intro hn
      obtain ⟨md', hmd', hmessages⟩ := @deleteTarget_messages md n (by omega) (by omega)
      exact ⟨md', hmd', by rw [hmessages, show ((n : Int) - 1).toNat = n - 1 by omega]⟩
    · intro hn
      exact deleteTarget_eq_none (.inr (by omega))

/-- The second of two messages in `cur`, with `new` empty. -/
theorem numbers_agree_in_cur :
    OneMessage ⟨.ofList [⟨str "a", 5, false⟩, ⟨str "b", 6, false⟩], .ofList [], .ofList []⟩ 2 :=
  (numbers_agree_iff _ (by decide)).mpr (.inr (.inr (.inl (by decide))))

/-- With one message in `new` and two in `cur`, RETR 2 sends the third. -/
theorem numbers_mixed_folders :
    ¬ ∀ (md : Maildir) (n : Nat), 1 ≤ n → OneMessage md n := by
  intro h
  have hretr := (h ⟨.ofList [⟨str "b", 6, false⟩, ⟨str "c", 7, false⟩],
    .ofList [⟨str "a", 5, false⟩], .ofList []⟩ 2 (by decide)).retr
  exact absurd hretr (by decide)

end Pop3Server
