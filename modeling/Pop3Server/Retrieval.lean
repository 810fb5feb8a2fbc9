import Pop3Server.SendFile
import Pop3Server.Terminated

/-!
# Reading a RETR response back

A client reads a multi-line response up to a line that is a single dot, and takes
a dot off every line that begins with one.  The server sends the file as it is:
`retrieve_iff` gives the files that survive.
-/

namespace Pop3Server

open Terminated

def crlf : Bytes := [CR, LF]

/-- The multi-line rule on the bytes behind a status line: the body ends at the first CRLF, dot,
CRLF, where the CRLF of the status line counts as standing in front of the body, and one dot is
removed from each line of the body that begins with one.  The result is the message and what
follows the response. -/
def decodeMultiLine (received : Bytes) : Option (Bytes × Bytes) :=
  (breakOn terminator (crlf ++ received)).map fun r => ((unstuff CR LF DOT r.1).drop 2, r.2)

/-- Some line of the message begins with a dot. -/
def DottedLine (message : Bytes) : Prop := [CR, LF, DOT] <:+: crlf ++ message

instance (message : Bytes) : Decidable (DottedLine message) :=
  inferInstanceAs (Decidable ([CR, LF, DOT] <:+: crlf ++ message))

example : decodeMultiLine (str "one\r\n..two\r\n.\r\n+OK\r\n") = some (str "one\r\n.two", str "+OK\r\n") := by
  decide +kernel

theorem terminator_eq : terminator = [CR, LF, DOT, CR, LF] := by decide

/-- The terminator begins neither inside a message without dotted lines nor across its end. -/
theorem terminator_not_earlier {message : Bytes} (h : ¬ DottedLine message) {s more : Bytes}
    (hs : s ≠ []) (hsuffix : s <:+ crlf ++ message) : ¬ terminator <+: s ++ terminator ++ more := by
  rw [terminator_eq]
  intro hearly
  match s, hs with
  | [a], _ => simp [CR, LF, DOT] at hearly
  | [a, b], _ => simp [CR, LF, DOT] at hearly
  | a :: b :: c :: s, _ =>
    apply h
    have hthree : [CR, LF, DOT] <+: a :: b :: c :: s := by
      simp only [List.cons_append, List.cons_prefix_cons] at hearly
      simp [List.cons_prefix_cons, hearly.1, hearly.2.1, hearly.2.2.1]
    exact hthree.isInfix.trans hsuffix.isInfix

/-- **A message is recovered exactly when none of its lines begins with a dot.** -/
theorem decode_iff (message more : Bytes) :
    decodeMultiLine (message ++ terminator ++ more) = some (message, more) ↔
      ¬ DottedLine message := by
  constructor
  · intro h hdotted
    obtain ⟨⟨before, after⟩, hbreak, hresult⟩ := Option.map_eq_some_iff.mp h
    simp only [Prod.mk.injEq] at hresult
    obtain ⟨hmessage, rfl⟩ := hresult
    have hsplit := eq_of_breakOn hbreak
    simp only [← List.append_assoc, List.append_cancel_right_eq] at hsplit
    -- the body is the whole message, so nothing can have been removed from it
    have hshorter := length_unstuff_lt (l := crlf ++ message) hdotted
    rw [hsplit] at hshorter
    have hlength := congrArg List.length hmessage
    have hbody := congrArg List.length hsplit
    have hnonempty : message ≠ [] := by
      rintro rfl
      exact absurd hdotted (by decide)
    have := List.length_pos_iff.mpr hnonempty
    simp only [List.length_drop, List.length_append] at hlength hbody
    simp only [crlf, List.length_cons, List.length_nil] at hbody
    omega
  · intro h
    have hbreak := @breakOn_append _ _ terminator (crlf ++ message) more
      fun s hs hsuffix => terminator_not_earlier h hs hsuffix
    rw [decodeMultiLine, ← List.append_assoc, ← List.append_assoc, hbreak, Option.map_some,
      unstuff_of_notInfix h]
    rfl

/-- **A client recovers a file exactly when none of its lines begins with a dot**, whatever the
reads it was sent by and whatever the server sends after it. -/
theorem retrieve_iff {reads : List FileRead} (hreads : ∀ r ∈ reads, r.results = [])
    (more : Bytes) :
    decodeMultiLine ((sendFile (some reads) []).flatten ++ more) = some (contentOf reads, more) ↔
      ¬ DottedLine (contentOf reads) := by
  rw [sendFile_flatten hreads]
  exact decode_iff (contentOf reads) more

def fileRead (s : String) (h : str s ≠ [] ∧ (str s).length ≤ BUFFER_SIZE) : FileRead :=
  ⟨str s, h.1, h.2, []⟩

theorem retrieve_two_reads :
    decodeMultiLine ((sendFile (some [fileRead "one.\r\ntw" (by decide),
        fileRead "o.three" (by decide)]) []).flatten ++ str "+OK\r\n") =
      some (contentOf [fileRead "one.\r\ntw" (by decide), fileRead "o.three" (by decide)],
        str "+OK\r\n") := by
  refine (retrieve_iff ?_ _).mpr (by decide)
  simp [fileRead]

/-- A line that is a single dot ends the response for the client; the rest of the file is taken for
the next response. -/
theorem retrieve_dot_line :
    ¬ ∀ reads : List FileRead, (∀ r ∈ reads, r.results = []) →
      decodeMultiLine (sendFile (some reads) []).flatten = some (contentOf reads, []) := by
  intro h
  have hdot := h [fileRead "one\r\n.\r\ntwo\r\n" (by decide)] (by simp [fileRead])
  exact absurd hdot (by decide +kernel)

end Pop3Server
