import Pop3Server.CStrings

/-!
# The I/O buffer (`shared/buffer.c`)

`data` is the memory between `b->data` and `b->limit`, and `read` and `write`
are the two pointers as offsets into it.  The documented invariant
`R <= W <= limit` is carried by the structure, so a call whose assertion fails
has no buffer to return: the operations that advance a pointer return `none`
there, which is the abort of the process.
-/

namespace Pop3Server

structure Buffer where
  data : Bytes
  read : Nat
  write : Nat
  read_le_write : read ≤ write
  write_le_limit : write ≤ data.length

namespace Buffer

def limit (b : Buffer) : Nat := b.data.length

def reset (b : Buffer) : Buffer :=
  { b with read := 0, write := 0, read_le_write := Nat.le_refl 0,
           write_le_limit := Nat.zero_le _ }

/-- `buffer_init` on the array `data`. -/
def init (data : Bytes) : Buffer := ⟨data, 0, 0, Nat.le_refl 0, Nat.zero_le _⟩

def canWrite (b : Buffer) : Bool := 0 < b.limit - b.write

def canRead (b : Buffer) : Bool := 0 < b.write - b.read

/-- `buffer_read_ptr`: the memory from the read pointer on, and the bytes that may be read. -/
def readPtr (b : Buffer) : Bytes × Nat := (b.data.drop b.read, b.write - b.read)

def writeAdv (b : Buffer) (bytes : Int) : Option Buffer :=
  if bytes > -1 then
    if h : b.write + bytes.toNat ≤ b.data.length then
      some { b with write := b.write + bytes.toNat,
                    read_le_write := Nat.le_trans b.read_le_write (Nat.le_add_right _ _),
                    write_le_limit := h }
    else none
  else some b

/-- `buffer_write_ptr`: how many bytes may be written behind the write pointer. -/
def writePtr (b : Buffer) : Nat := b.limit - b.write

/-- The memory once a caller has put bytes where `buffer_write_ptr` points. -/
def filledWith (b : Buffer) (bytes : Bytes) : Buffer :=
  { b with
    data := b.data.take b.write ++ (bytes ++ b.data.drop (b.write + bytes.length))
    write_le_limit := by
      have h := b.write_le_limit
      rw [List.length_append, List.length_take_of_le h]
      exact Nat.le_add_right _ _ }

/-- `buffer_compact`.  The `memset` comes after the `memmove` and covers the whole array. -/
def compact (b : Buffer) : Buffer :=
  if b.read = 0 then
    { b with data := List.replicate b.data.length NUL,
             write_le_limit := by simpa using b.write_le_limit }
  else if b.read = b.write then
    ⟨List.replicate b.data.length NUL, 0, 0, Nat.le_refl 0, Nat.zero_le _⟩
  else
    let n := b.write - b.read
    let moved := (b.data.drop b.read).take n ++ b.data.drop n
    ⟨List.replicate moved.length NUL, 0, n, Nat.zero_le _, by
      have h1 := b.read_le_write
      have h2 := b.write_le_limit
      simp only [moved, n, List.length_replicate, List.length_append, List.length_take,
        List.length_drop]
      omega⟩

def readAdv (b : Buffer) (bytes : Int) : Option Buffer :=
  if bytes > -1 then
    if h : b.read + bytes.toNat ≤ b.write then
      let b' : Buffer := { b with read := b.read + bytes.toNat, read_le_write := h }
      some (if b'.read = b'.write then b'.compact else b')
    else none
  else some b

def readByte (b : Buffer) : Option (Byte × Buffer) :=
  if b.canRead then (b.readAdv 1).map fun b' => ((b.data.drop b.read).headD NUL, b')
  else some (NUL, b)

/-- `buffer_write`: a byte there is no room for is dropped. -/
def writeByte (b : Buffer) (c : Byte) : Option Buffer :=
  if b.canWrite then (b.filledWith [c]).writeAdv 1 else some b

/-- `buffer_read_adv(b, b->write - b->read)`, with which the callers drop what is left. -/
def readRest (b : Buffer) : Option Buffer := b.readAdv ((b.write - b.read : Nat) : Int)

/-- The buffer once everything is read: both pointers at the start of a cleared array. -/
def cleared (b : Buffer) : Buffer :=
  ⟨List.replicate b.data.length NUL, 0, 0, Nat.le_refl 0, Nat.zero_le _⟩

theorem readAdv_lt {b : Buffer} {n : Nat} (h : b.read + n < b.write) :
    b.readAdv n = some { b with read := b.read + n, read_le_write := Nat.le_of_lt h } := by
  have hn : (n : Int) > -1 := by omega
  have hle : b.read + n ≤ b.write := Nat.le_of_lt h
  have hne : ¬ b.read + n = b.write := by omega
  simp [readAdv, hn, hle, hne]

theorem readAdv_eq {b : Buffer} {n : Nat} (h : b.read + n = b.write) :
    b.readAdv n = some b.cleared := by
  obtain ⟨data, read, write, hrw, hwl⟩ := b
  simp only at h
  subst h
  have hn : (n : Int) > -1 := by omega
  by_cases hzero : read + n = 0
  · simp [readAdv, hn, compact, cleared, hzero]
  · simp [readAdv, hn, compact, cleared]

theorem readAdv_gt {b : Buffer} {n : Nat} (h : b.write < b.read + n) : b.readAdv n = none := by
  have hn : (n : Int) > -1 := by omega
  have hle : ¬ b.read + n ≤ b.write := by omega
  simp [readAdv, hn, hle]

theorem readRest_eq (b : Buffer) : b.readRest = some b.cleared := by
  have h := b.read_le_write
  exact readAdv_eq (by omega)

theorem readByte_empty {b : Buffer} (h : b.read = b.write) : b.readByte = some (NUL, b) := by
  simp [readByte, canRead, h]

theorem readByte_of_lt {b : Buffer} (h : b.read < b.write) :
    b.readByte = (b.readAdv (1 : Nat)).map fun b' => ((b.data.drop b.read).headD NUL, b') := by
  have hcan : b.canRead = true := by simp [canRead]; omega
  rw [readByte, if_pos hcan]
  rfl

end Buffer

end Pop3Server
