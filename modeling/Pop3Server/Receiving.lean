import Pop3Server.ManagementClient

/-!
# What the management client receives

Whatever a `recv` returns, the client takes the bytes of the server in order:
`clientReceipts_in_order`.  `recvResponse_paired_iff` says when the bytes it takes
for one command, with nothing left from an earlier one, are the whole response.
-/

namespace Pop3Server

/-- The bytes consumed for a command are the response to it, and the client goes on. -/
def Receipt.Paired (r : Receipt) : Prop := r.consumed = r.response ∧ r.returned = true

instance (r : Receipt) : Decidable r.Paired := inferInstanceAs (Decidable (_ ∧ _))

/-! ### What is received, in order -/

/-- Bytes are taken from the front of what is there, and nothing else changes. -/
structure Takes (l : Link) (bytes : Bytes) (l' : Link) : Prop where
  session : l'.session = l.session
  hungUp : l'.hungUp = l.hungUp
  unread : bytes ++ l'.unread = l.unread

theorem Takes.nothing (l : Link) : Takes l [] l := ⟨rfl, rfl, rfl⟩

theorem Takes.trans {l l' l'' : Link} {bytes bytes' : Bytes} (h : Takes l bytes l')
    (h' : Takes l' bytes' l'') : Takes l (bytes ++ bytes') l'' := by
  refine ⟨h'.session.trans h.session, h'.hungUp.trans h.hungUp, ?_⟩
  rw [List.append_assoc, h'.unread, h.unread]

/-- Who takes everything leaves the link as it was before the response. -/
theorem Takes.drained {s : Session} {response : Bytes} {l' : Link}
    (h : Takes ⟨s, false, response⟩ response l') : l' = ⟨s, false, []⟩ := by
  have hnone : l'.unread = [] := List.append_right_eq_self.mp h.unread
  calc l' = ⟨l'.session, l'.hungUp, l'.unread⟩ := rfl
    _ = ⟨s, false, []⟩ := by rw [h.session, h.hungUp, hnone]

theorem Link.recv_takes {l l' : Link} {offered : Nat} {bytes : Bytes}
    (h : l.recv offered = some (bytes, l')) : Takes l bytes l' := by
  unfold Link.recv at h
  split at h
  · split at h
    · cases h
      exact .nothing l
    · cases h
  · cases h
    exact ⟨rfl, rfl, List.take_append_drop _ _⟩

theorem recvLog_takes (turns : Nat) (offered : List Nat) (l : Link) :
    Takes l (recvLog turns offered l).consumed (recvLog turns offered l).link := by
  induction turns generalizing offered l with
  | zero => exact .nothing l
  | succ turns ih =>
    unfold recvLog
    split
    · exact .nothing l
    · next bytes l' hrecv =>
      have htakes := Link.recv_takes hrecv
      split
      · next hnil => exact hnil ▸ htakes
      split
      · exact htakes
      · exact htakes.trans (ih offered.tail l')

theorem recvResponse_takes (l : Link) (offered : List Nat) (command : Bytes) :
    Takes l (recvResponse l offered command).consumed (recvResponse l offered command).link := by
  unfold recvResponse
  split
  · exact .nothing l
  · exact recvLog_takes _ offered l
  · split
    · exact .nothing l
    · next hrecv => exact Link.recv_takes hrecv

def consumedBy (rs : List Receipt) : Bytes := rs.flatMap (·.consumed)

def writtenFor (rs : List Receipt) : Bytes := rs.flatMap (·.response)

section Transform

variable (transform : Bytes → Bytes)

/-- From one state of the client to another nothing is lost, and nothing gets out of order. -/
def Accounts (cl : Client) (rs : List Receipt) (cl' : Client) : Prop :=
  consumedBy rs ++ cl'.link.unread = cl.link.unread ++ writtenFor rs

theorem Accounts.trans {cl cl' cl'' : Client} {rs rs' : List Receipt} (h : Accounts cl rs cl')
    (h' : Accounts cl' rs' cl'') : Accounts cl (rs ++ rs') cl'' := by
  unfold Accounts consumedBy writtenFor at h h' ⊢
  rw [List.flatMap_append, List.flatMap_append, List.append_assoc, h', ← List.append_assoc, h,
    List.append_assoc]

theorem Link.serve_unread (l : Link) (a : Attempt) (command : Bytes) :
    (l.serve transform a command).2.unread = l.unread ++ (l.serve transform a command).1 := by
  unfold Link.serve
  split
  · exact (List.append_nil _).symm
  · rfl

/-- A command and what is received for it. -/
theorem accounts_receipt {cl : Client} {a : Attempt} {command bytes : Bytes} {l : Link}
    (h : Takes (cl.link.serve transform a command).2 bytes l) (returned : Bool) (status : Status) :
    Accounts cl [⟨command, (cl.link.serve transform a command).1, bytes, returned⟩] ⟨l, status⟩ := by
  have hunread := h.unread.trans (Link.serve_unread transform cl.link a command)
  simpa [Accounts, consumedBy, writtenFor] using hunread

theorem verifyServerStatus_accounts (cl : Client) (a : Attempt) :
    Accounts cl (verifyServerStatus transform cl a).1 (verifyServerStatus transform cl a).2 := by
  unfold verifyServerStatus
  split
  · simp only
    split
    · exact accounts_receipt transform (.nothing _) _ _
    · next hrecv => exact accounts_receipt transform (Link.recv_takes hrecv) _ _
  · exact (List.append_nil _).symm

theorem Client.exchange_accounts (cl : Client) (p : Prompt) (command : Bytes) :
    Accounts cl (cl.exchange transform p command).receipts
      (cl.exchange transform p command).client := by
  unfold Client.exchange
  split
  · simp only
    have htakes := recvResponse_takes (cl.link.serve transform p.command command).2
      p.command.offered command
    split
    · exact accounts_receipt transform htakes _ _
    · exact (accounts_receipt transform htakes _ cl.status).trans
        (verifyServerStatus_accounts transform _ p.probe)
  · exact verifyServerStatus_accounts transform ⟨cl.link, .offline⟩ p.probe

theorem Client.turn_accounts (cl : Client) (p : Prompt) :
    Accounts cl (cl.turn transform p).receipts (cl.turn transform p).client := by
  unfold Client.turn
  split
  · exact (List.append_nil _).symm
  split
  · exact (List.append_nil _).symm
  · exact cl.exchange_accounts transform p _

theorem mainReceipts_accounts (cl : Client) (prompts : List Prompt) :
    Accounts cl (mainReceipts transform cl prompts)
      ((mainMachine transform).final cl prompts) := by
  induction prompts generalizing cl with
  | nil => exact (List.append_nil _).symm
  | cons p ps ih =>
    have hturn := cl.turn_accounts transform p
    unfold mainReceipts
    cases hgo : (mainMachine transform).stop cl p with
    | true =>
      rw [Machine.trace_cons_stop _ hgo, Machine.final_cons_stop _ hgo, List.flatMap_singleton]
      exact hturn
    | false =>
      rw [Machine.trace_cons_go _ hgo, Machine.final_cons_go _ hgo, List.flatMap_cons]
      exact hturn.trans (ih _)

/-- **The client receives what the server writes, in order**: behind what is left of the greeting,
the bytes consumed so far are a beginning of the responses so far. -/
theorem clientReceipts_in_order (s : Session) (offered : Nat) (probe : Attempt)
    (prompts : List Prompt) :
    consumedBy (clientReceipts transform s offered probe prompts) <+:
      (connected s offered).link.unread ++
        writtenFor (clientReceipts transform s offered probe prompts) := by
  have hprobe := verifyServerStatus_accounts transform (connected s offered) probe
  unfold clientReceipts
  simp only
  split
  · have hrun := hprobe.trans (mainReceipts_accounts transform _ prompts)
    exact ⟨_, hrun⟩
  · rw [List.append_nil]
    exact ⟨_, hprobe⟩

end Transform

/-! ### What is received of one response -/

/-- A response that comes in one `recv`. -/
def InOneRecv (offered : List Nat) (response : Bytes) : Prop :=
  (Pieces.pieces (BUFFER_SIZE - 1) offered response).length = 1

instance (offered : List Nat) (response : Bytes) : Decidable (InOneRecv offered response) :=
  inferInstanceAs (Decidable (_ = _))

/-- The response comes the way the client expects it for the command, which it has to know: whole,
or for LOGG with the first end of a log in the last piece. -/
def AsExpected (command : Bytes) (offered : List Nat) (response : Bytes) : Prop :=
  match getCommand command with
  | none => False
  | some .logg => Pieces.StopsAtEnd hasLogEnd (Pieces.pieces (BUFFER_SIZE - 1) offered response)
  | some _ => InOneRecv offered response

section Received

variable (s : Session) (offered : List Nat) (response : Bytes)

/-- A `recv` on a response, when nothing else is there. -/
theorem Link.recv_response (h : response ≠ []) (offer : Nat) :
    (⟨s, false, response⟩ : Link).recv offer =
      some (response.take (Pieces.size (BUFFER_SIZE - 1) offer),
        ⟨s, false, response.drop (Pieces.size (BUFFER_SIZE - 1) offer)⟩) := by
  unfold Link.recv
  rw [if_neg h]

/-- The loop of LOGG takes the pieces up to the first one with the end of a log in it, and waits for
ever when there is none. -/
theorem recvLog_eq {turns : Nat} (h : response.length < turns) :
    (recvLog turns offered ⟨s, false, response⟩).consumed =
        (Pieces.upTo hasLogEnd (Pieces.pieces (BUFFER_SIZE - 1) offered response)).flatten ∧
      (recvLog turns offered ⟨s, false, response⟩).returned.isSome =
        (Pieces.pieces (BUFFER_SIZE - 1) offered response).any hasLogEnd := by
  induction turns generalizing offered response with
  | zero => cases h
  | succ turns ih =>
    by_cases hnil : response = []
    · rw [hnil]
      exact ⟨rfl, rfl⟩
    rw [recvLog, Link.recv_response s response hnil, Pieces.pieces_of_ne_nil _ hnil]
    have hpos := Pieces.size_pos (BUFFER_SIZE - 1) (offered.headD (BUFFER_SIZE - 1))
    generalize Pieces.size (BUFFER_SIZE - 1) (offered.headD (BUFFER_SIZE - 1)) = n at hpos
    have hpiece : response.take n ≠ [] := by
      intro htake
      rcases List.take_eq_nil_iff.mp htake with hzero | hnone
      · exact absurd hzero (Nat.ne_of_gt hpos)
      · exact hnil hnone
    have hshorter : (response.drop n).length < turns := by
      have hlength := List.length_pos_iff.mpr hnil
      rw [List.length_drop]
      omega
    obtain ⟨hconsumed, hreturned⟩ := ih offered.tail (response.drop n) hshorter
    simp only [if_neg hpiece, Pieces.upTo, List.any_cons, List.flatten_cons]
    split
    · next hend => simp [hend]
    · next hend => simp [hend, hconsumed, hreturned]

/-- **What belongs to a command is received for it, and no more, exactly when it comes as
expected**, or there is nothing to receive and the client does not try. -/
theorem recvResponse_paired_iff (command : Bytes) :
    ((recvResponse ⟨s, false, response⟩ offered command).consumed = response ∧
        (recvResponse ⟨s, false, response⟩ offered command).returned.isSome = true) ↔
      AsExpected command offered response ∨ getCommand command = none ∧ response = [] := by
  have hall := Pieces.flatten_pieces (BUFFER_SIZE - 1) offered response
  unfold recvResponse AsExpected
  cases hcommand : getCommand command with
  | none => simp [eq_comm]
  | some comm =>
    cases comm with
    | logg =>
      obtain ⟨hconsumed, hreturned⟩ := recvLog_eq s offered response (Nat.lt_succ_self _)
      have hstops := Pieces.upTo_flatten_iff (p := hasLogEnd)
        (Pieces.ne_nil_of_mem_pieces (BUFFER_SIZE - 1) offered response)
      rw [hall] at hstops
      simp only [hconsumed, hreturned, hstops, reduceCtorEq, false_and, or_false]
    | _ =>
      simp only [reduceCtorEq, false_and, or_false, InOneRecv]
      by_cases hnil : response = []
      · simp [hnil, Link.recv]
      · rw [Link.recv_response s response hnil, ← Pieces.take_size_eq_iff _ hnil]
        simp only [Option.isSome_some, and_true]

end Received

end Pop3Server
