import Pop3Server.Listening
import Pop3Server.ManagementClient

/-!
# What the management client makes of INFO and METR

The server joins the fields of a reply with semicolons; `separator` cuts them
apart again, as many as it expects.  `separator_eq` shows that it goes through
the fields of the text one by one, so that the client has the server's fields as
long as none of them contains a semicolon itself.
-/

namespace Pop3Server

open Splitting

def SEMICOLON : Byte := 59

/-- The loop of `extract_token`, from `index` on; the memory behind the text reads as NUL. -/
def tokenEnd (delim : Byte) (index : Nat) : Bytes → Nat
  | [] => index
  | c :: rest => if c ≠ NUL ∧ c ≠ delim then tokenEnd delim (index + 1) rest else index

/-- `extract_token`: the token, or `none` for the null pointer, and the index afterwards. -/
def extractToken (text : Bytes) (delim : Byte) (start : Nat) : Option Bytes × Nat :=
  let index := tokenEnd delim start (text.drop start)
  let length := index - start
  if length = 0 ∧ text.getD index NUL = NUL then (none, index)
  else
    (some ((text.drop start).take length),
      if text.getD index NUL = delim then index + 1 else index)

/-- The loop of `separator`: the tokens in front of the first null pointer. -/
def separatorLoop (text : Bytes) (delim : Byte) : Nat → Nat → List Bytes
  | 0, _ => []
  | count + 1, index =>
    match extractToken text delim index with
    | (none, _) => []
    | (some token, index) => token :: separatorLoop text delim count index

def separator (text : Bytes) (delim : Byte) (type : ClientCommand) : List Bytes :=
  separatorLoop text delim (if type = .metr then 4 else 3) 0

/-- `get_server_info` and `get_metrics`: the fields of a reply behind `+OK `. -/
def decodeReply (response : Bytes) (type : ClientCommand) : List Bytes :=
  separator (cstr response |>.drop 4) SEMICOLON type

/-- The server's fields, of which the last one carries the end of the line. -/
def infoFields (sh : Shared) : List Bytes :=
  [sh.pop3.host, sh.pop3.baseDir, sh.pop3.ip ++ str "\r\n"]

def metrFields (m : Metrics) : List Bytes :=
  [formatInt m.totalMessages, formatInt m.totalBytes, formatInt m.totalHistoricConnections,
    formatInt m.maxConsecutiveConnections ++ str "\r\n"]

/-- The client has the fields of the server, in order and in full number. -/
structure DecodesReplies (sh : Shared) (s : Session) : Prop where
  info : decodeReply (infoCommand sh s).sends.flatten .info = infoFields sh
  metr : decodeReply (metrCommand sh s).sends.flatten .metr = metrFields sh.metrics

/-! ### The loops -/

theorem tokenEnd_append {delim : Byte} {t : Bytes} (hnul : NUL ∉ t) (h : delim ∉ t)
    (index : Nat) (rest : Bytes) :
    tokenEnd delim index (t ++ rest) = tokenEnd delim (index + t.length) rest := by
  induction t generalizing index with
  | nil => rfl
  | cons c t ih =>
    simp only [List.mem_cons, not_or] at hnul h
    have hgo : c ≠ NUL ∧ c ≠ delim := ⟨fun e => hnul.1 e.symm, fun e => h.1 e.symm⟩
    rw [List.cons_append, tokenEnd, if_pos hgo, ih hnul.2 h.2, List.length_cons, Nat.add_assoc,
      Nat.add_comm 1]

section Text

variable {text : Bytes} {delim : Byte} {start : Nat}

/-- A token in front of a delimiter, which may be empty. -/
theorem extractToken_delim (hdelim : delim ≠ NUL) {t rest : Bytes} (hnul : NUL ∉ t)
    (h : delim ∉ t) (htext : text.drop start = t ++ delim :: rest) :
    extractToken text delim start = (some t, start + t.length + 1) ∧
      text.drop (start + t.length + 1) = rest := by
  have hdrop : text.drop (start + t.length) = delim :: rest := by
    rw [← List.drop_drop, htext, List.drop_left]
  have hchar : text.getD (start + t.length) NUL = delim := by
    rw [List.getD_eq_getElem?_getD, ← List.head?_drop, hdrop]
    rfl
  have hend : tokenEnd delim start (text.drop start) = start + t.length := by
    have hstop : ¬ (delim ≠ NUL ∧ delim ≠ delim) := fun hgo => hgo.2 rfl
    rw [htext, tokenEnd_append hnul h, tokenEnd, if_neg hstop]
  constructor
  · rw [extractToken]
    simp only [hend, hchar, Nat.add_sub_cancel_left, hdelim, and_false, if_false, if_true]
    rw [htext, List.take_left]
  · rw [← List.drop_drop, hdrop]
    rfl

/-- The last token, which is there only when it is not empty. -/
theorem extractToken_last (hdelim : delim ≠ NUL) {t : Bytes} (hnul : NUL ∉ t) (h : delim ∉ t)
    (htext : text.drop start = t) :
    extractToken text delim start = (if t = [] then none else some t, start + t.length) ∧
      text.drop (start + t.length) = [] := by
  have hdrop : text.drop (start + t.length) = [] := by
    rw [← List.drop_drop, htext, List.drop_length]
  have hchar : text.getD (start + t.length) NUL = NUL := by
    rw [List.getD_eq_getElem?_getD, ← List.head?_drop, hdrop]
    rfl
  have hend : tokenEnd delim start (text.drop start) = start + t.length := by
    have hall := tokenEnd_append hnul h start []
    rw [List.append_nil] at hall
    rw [htext, hall]
    rfl
  refine ⟨?_, hdrop⟩
  rw [extractToken]
  simp only [hend, hchar, Nat.add_sub_cancel_left, and_true]
  by_cases hne : t = []
  · simp [hne]
  · have hlength : t.length ≠ 0 := fun hzero => hne (List.length_eq_zero_iff.mp hzero)
    rw [if_neg hlength, if_neg (Ne.symm hdelim), htext, List.take_length, if_neg hne]

theorem separatorLoop_end (hdelim : delim ≠ NUL) (hend : text.drop start = []) (count : Nat) :
    separatorLoop text delim count start = [] := by
  cases count with
  | zero => rfl
  | succ count =>
    obtain ⟨htoken, -⟩ := extractToken_last hdelim (List.not_mem_nil) (List.not_mem_nil) hend
    rw [separatorLoop, htoken]
    rfl

/-- **`separator` goes through the fields of the text**, until it has as many as it wants. -/
theorem separatorLoop_eq (hdelim : delim ≠ NUL) (hnul : NUL ∉ text) (count start : Nat) :
    separatorLoop text delim count start = (fields delim (text.drop start)).take count := by
  suffices H : ∀ l, ∀ count start, text.drop start = l →
      separatorLoop text delim count start = (fields delim l).take count from H _ count start rfl
  intro l
  induction l using Splitting.induction (d := delim) with
  | htail t ht =>
    intro count start htext
    have hnul' : NUL ∉ t := fun h => hnul (List.mem_of_mem_drop (htext ▸ h))
    cases count with
    | zero => rfl
    | succ count =>
      obtain ⟨htoken, hrest⟩ := extractToken_last hdelim hnul' ht htext
      rw [separatorLoop, htoken]
      by_cases hne : t = []
      · rw [if_pos hne, hne, fields_nil, List.take_nil]
      · rw [if_neg hne, fields_of_notMem ht hne]
        simp only [separatorLoop_end hdelim hrest, List.take_succ_cons, List.take_nil]
  | hpiece seg l hseg ih =>
    intro count start htext
    have hnul' : NUL ∉ seg := fun h =>
      hnul (List.mem_of_mem_drop (htext ▸ List.mem_append_left _ h))
    cases count with
    | zero => rfl
    | succ count =>
      obtain ⟨htoken, hrest⟩ := extractToken_delim hdelim hnul' hseg htext
      rw [separatorLoop, htoken, fields_append_piece hseg, List.take_succ_cons]
      simp only [ih count _ hrest]

end Text

/-! ### The replies -/

/-- The text of a reply. -/
def joined (fs : List Bytes) : Bytes := [SEMICOLON].intercalate fs

theorem notMem_joined {fs : List Bytes} (h : ∀ f ∈ fs, NUL ∉ f) : NUL ∉ joined fs := by
  induction fs with
  | nil => simp [joined]
  | cons f fs ih =>
    have hrest := ih fun g hg => h g (List.mem_cons_of_mem f hg)
    have hfirst := h f List.mem_cons_self
    cases fs with
    | nil => simpa [joined] using hfirst
    | cons g gs =>
      rw [joined, List.intercalate_cons_cons]
      simp only [List.mem_append, List.mem_singleton, not_or]
      exact ⟨⟨hfirst, by decide⟩, hrest⟩

/-- **A reply is decoded to its fields exactly when none of them contains a semicolon.** -/
theorem decodeReply_iff {fs : List Bytes} {last : Bytes} (hlast : last ≠ [])
    (hnul : ∀ f ∈ fs ++ [last], NUL ∉ f) (type : ClientCommand)
    (hcount : (fs ++ [last]).length = if type = .metr then 4 else 3) :
    decodeReply (str "+OK " ++ joined (fs ++ [last])) type = fs ++ [last] ↔
      ∀ f ∈ fs ++ [last], SEMICOLON ∉ f := by
  have htext : NUL ∉ str "+OK " ++ joined (fs ++ [last]) := by
    simp only [List.mem_append, not_or]
    exact ⟨by decide, notMem_joined hnul⟩
  have hbehind : (str "+OK " ++ joined (fs ++ [last])).drop 4 = joined (fs ++ [last]) := by
    rfl
  rw [decodeReply, cstr_of_notMem htext, hbehind, separator, ← hcount,
    separatorLoop_eq (by decide) (notMem_joined hnul), List.drop_zero]
  constructor
  · intro h f hf
    rw [← h] at hf
    exact notMem_of_mem_fields (List.mem_of_mem_take hf)
  · intro h
    rw [joined, (fields_intercalate_iff hlast).mpr h, List.take_length]

theorem formatInt_bytes (n : Int) : ∀ b ∈ formatInt n, b = 45 ∨ isdigit b = true := by
  have hnat : ∀ k, ∀ b ∈ formatNat k, isdigit b = true := by
    intro k b hb
    obtain ⟨c, hc, rfl⟩ := List.mem_map.mp hb
    exact (isdigit_byte (Nat.isDigit_of_mem_toDigits (by decide) (by decide) hc)).1
  intro b hb
  unfold formatInt at hb
  split at hb
  · rcases List.mem_append.mp hb with hb | hb
    · exact .inl (List.mem_singleton.mp hb)
    · exact .inr (hnat _ b hb)
  · exact .inr (hnat _ b hb)

/-- A number holds no byte that is neither a digit nor a minus. -/
theorem notMem_formatInt {b : Byte} (hminus : b ≠ 45) (hdigit : isdigit b = false) (n : Int) :
    b ∉ formatInt n := by
  intro hb
  rcases formatInt_bytes n b hb with h | h
  · exact hminus h
  · rw [hdigit] at h
    cases h

theorem notMem_metrFields {b : Byte} (hminus : b ≠ 45) (hdigit : isdigit b = false)
    (hend : b ∉ str "\r\n") (m : Metrics) : ∀ f ∈ metrFields m, b ∉ f := by
  have hnumber := notMem_formatInt hminus hdigit
  intro f hf
  simp only [metrFields, List.mem_cons, List.not_mem_nil, or_false] at hf
  rcases hf with rfl | rfl | rfl | rfl
  · exact hnumber _
  · exact hnumber _
  · exact hnumber _
  · simp only [List.mem_append, not_or]
    exact ⟨hnumber _, hend⟩

section Replies

variable {sh : Shared} {s : Session} (hstate : s.clientState = .manager)
include hstate

theorem infoCommand_sends : (infoCommand sh s).sends.flatten = str "+OK " ++ joined (infoFields sh) := by
  rw [infoCommand, managerOnly, if_neg (not_not_intro hstate)]
  simp only [Step.sends, reply, Effect.sent?, List.filterMap_cons, List.filterMap_nil,
    List.flatten_cons, List.flatten_nil, List.append_nil, infoFields, joined,
    List.intercalate_cons_cons, List.intercalate_singleton, List.append_assoc]
  rfl

theorem metrCommand_sends :
    (metrCommand sh s).sends.flatten = str "+OK " ++ joined (metrFields sh.metrics) := by
  rw [metrCommand, managerOnly, if_neg (not_not_intro hstate)]
  simp only [Step.sends, reply, Effect.sent?, List.filterMap_cons, List.filterMap_nil,
    List.flatten_cons, List.flatten_nil, List.append_nil, metrFields, joined,
    List.intercalate_cons_cons, List.intercalate_singleton, List.append_assoc]
  rfl

/-- **The client decodes what the server encodes exactly when no field of INFO contains a
semicolon.** -/
theorem replies_decoded_iff (hhost : NUL ∉ sh.pop3.host) (hdir : NUL ∉ sh.pop3.baseDir)
    (hip : NUL ∉ sh.pop3.ip) :
    DecodesReplies sh s ↔
      SEMICOLON ∉ sh.pop3.host ∧ SEMICOLON ∉ sh.pop3.baseDir ∧ SEMICOLON ∉ sh.pop3.ip := by
  have hcrlf : ∀ text : Bytes, text ++ str "\r\n" ≠ [] := fun text h =>
    absurd (List.append_eq_nil_iff.mp h).2 (by decide)
  have hmetr : decodeReply (metrCommand sh s).sends.flatten .metr = metrFields sh.metrics := by
    rw [metrCommand_sends hstate]
    apply (@decodeReply_iff [_, _, _] _ (hcrlf _) _ .metr rfl).mpr
    · exact notMem_metrFields (by decide) (by decide) (by decide) sh.metrics
    · exact notMem_metrFields (by decide) (by decide) (by decide) sh.metrics
  have hnul : ∀ f ∈ infoFields sh, NUL ∉ f := by
    simp only [infoFields, List.forall_mem_cons, List.mem_append, not_or]
    exact ⟨hhost, hdir, ⟨hip, by decide⟩, nofun⟩
  have hinfo : decodeReply (infoCommand sh s).sends.flatten .info = infoFields sh ↔
      ∀ f ∈ infoFields sh, SEMICOLON ∉ f := by
    rw [infoCommand_sends hstate]
    exact @decodeReply_iff [_, _] _ (hcrlf _) hnul .info rfl
  have hfields : (∀ f ∈ infoFields sh, SEMICOLON ∉ f) ↔
      SEMICOLON ∉ sh.pop3.host ∧ SEMICOLON ∉ sh.pop3.baseDir ∧ SEMICOLON ∉ sh.pop3.ip := by
    have hend : SEMICOLON ∉ str "\r\n" := by decide
    simp [infoFields, hend]
  rw [← hfields, ← hinfo]
  exact ⟨fun h => h.info, fun h => ⟨h, hmetr⟩⟩

end Replies

theorem replies_decoded_sample :
    DecodesReplies sampleShared sampleManager ↔
      SEMICOLON ∉ sampleShared.pop3.host ∧ SEMICOLON ∉ sampleShared.pop3.baseDir ∧
        SEMICOLON ∉ sampleShared.pop3.ip :=
  replies_decoded_iff rfl (by decide) (by decide) (by decide)

/-- A host that contains a semicolon is shown as a host and a directory. -/
theorem host_with_semicolon :
    ¬ ∀ (sh : Shared) (s : Session) (tail : Bytes), s.clientState = .manager →
      NUL ∉ tail → NUL ∉ sh.pop3.baseDir → NUL ∉ sh.pop3.ip →
      DecodesReplies (hostCommand sh s tail).shared s := by
  intro h
  have hinfo := (h sampleShared sampleManager (str "a;b") rfl (by decide) (by decide)
    (by decide)).info
  revert hinfo
  decide

end Pop3Server
