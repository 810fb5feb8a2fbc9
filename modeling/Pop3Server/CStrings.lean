import Mathlib.Algebra.Ring.Int.Defs
import Mathlib.Algebra.Ring.Nat
import Mathlib.Data.List.TakeWhile

/-!
# Bytes, C strings and the number conversions of the server

A C string is the list of its bytes before the terminating NUL; `cstr` reads one
out of memory.  `atoi` follows glibc: `strtol` saturates to 64 bits and the
result is truncated to an `int`.
-/

namespace Pop3Server

abbrev Byte := UInt8

abbrev Bytes := List Byte

def str (s : String) : Bytes := s.toList.map fun c => c.toNat.toUInt8

def NUL : Byte := 0
def LF : Byte := 10
def CR : Byte := 13
def DOT : Byte := 46

/-- The C string that starts at the first byte of `memory`. -/
def cstr (memory : Bytes) : Bytes := memory.takeWhile (· ≠ NUL)

theorem cstr_of_notMem {s : Bytes} (h : NUL ∉ s) : cstr s = s := by
  unfold cstr
  rw [List.takeWhile_eq_self_iff]
  intro b hb
  have : b ≠ NUL := fun e => h (e ▸ hb)
  simpa using this

theorem length_cstr_le (memory : Bytes) : (cstr memory).length ≤ memory.length :=
  (List.takeWhile_prefix _).length_le

/-- Zeros after a string do not change it: they end it where it ended. -/
theorem cstr_append_zeros (s : Bytes) (n : Nat) :
    cstr (s ++ List.replicate n NUL) = cstr s := by
  induction s with
  | nil => cases n <;> simp [cstr, List.replicate_succ]
  | cons b s ih =>
    by_cases hb : b = NUL
    · simp [cstr, hb]
    · simpa [cstr, List.takeWhile_cons, hb] using ih

/-- `strncmp(s, key, strlen(key)) == 0`. -/
def strncmpEq (s key : Bytes) : Bool := s.take key.length == key

theorem strncmpEq_iff (s key : Bytes) : strncmpEq s key = true ↔ key <+: s := by
  rw [strncmpEq, beq_iff_eq, List.prefix_iff_eq_take]
  exact eq_comm

/-! ### Integers -/

/-- The value of a conversion to `int`. -/
def int32 (n : Int) : Int := Int.bmod n (2 ^ 32)

def isspace (b : Byte) : Bool := b == 32 || (9 ≤ b && b ≤ 13)

def isdigit (b : Byte) : Bool := 48 ≤ b && b ≤ 57

def digitsValue (acc : Nat) : Bytes → Nat
  | [] => acc
  | b :: rest => if isdigit b then digitsValue (acc * 10 + (b.toNat - 48)) rest else acc

/-- `strtol(s, NULL, 10)` on a 64-bit `long`: the value saturates at `LONG_MIN` and `LONG_MAX`. -/
def strtol (s : Bytes) : Int :=
  match s.dropWhile isspace with
  | 45 :: rest => max (-2 ^ 63) (-(digitsValue 0 rest : Int))
  | 43 :: rest => min (2 ^ 63 - 1) (digitsValue 0 rest : Int)
  | rest => min (2 ^ 63 - 1) (digitsValue 0 rest : Int)

def atoi (s : Bytes) : Int := int32 (strtol s)

/-- The decimal numeral of `k`: digits and nothing else. -/
def IsNumeral (s : Bytes) (k : Nat) : Prop :=
  s ≠ [] ∧ (∀ b ∈ s, isdigit b = true) ∧ digitsValue 0 s = k

instance (s : Bytes) (k : Nat) : Decidable (IsNumeral s k) :=
  inferInstanceAs (Decidable (_ ∧ _))

theorem isdigit_head {b : Byte} (h : isdigit b = true) :
    isspace b = false ∧ b ≠ 45 ∧ b ≠ 43 := by
  have hrange : 48 ≤ b.toNat ∧ b.toNat ≤ 57 := by
    simpa [isdigit, UInt8.le_iff_toNat_le] using h
  have hne : ∀ c : Byte, c.toNat < 48 → b ≠ c := by
    rintro c hc rfl
    omega
  refine ⟨?_, hne 45 (by decide), hne 43 (by decide)⟩
  have hnine : ¬ b.toNat ≤ 13 := by omega
  simp [isspace, hne 32 (by decide), UInt8.le_iff_toNat_le, hnine]

/-- A numeral is converted to its value, saturated and truncated. -/
theorem atoi_of_numeral {s : Bytes} {k : Nat} (h : IsNumeral s k) :
    atoi s = int32 (min (2 ^ 63 - 1) k) := by
  obtain ⟨hne, hdigits, rfl⟩ := h
  cases s with
  | nil => exact absurd rfl hne
  | cons b rest =>
    obtain ⟨hspace, hminus, hplus⟩ := isdigit_head (hdigits b List.mem_cons_self)
    have hdrop : (b :: rest).dropWhile isspace = b :: rest := by
      rw [List.dropWhile_cons, hspace]
      rfl
    rw [atoi, strtol, hdrop]
    split
    · next heq => exact absurd (List.cons.inj heq).1 hminus
    · next heq => exact absurd (List.cons.inj heq).1 hplus
    · rfl

/-- `%d` for a natural number. -/
def formatNat (n : Nat) : Bytes := (Nat.toDigits 10 n).map fun c => c.toNat.toUInt8

/-- `%d`. -/
def formatInt (n : Int) : Bytes :=
  if n < 0 then str "-" ++ formatNat n.natAbs else formatNat n.natAbs

theorem isdigit_byte {c : Char} (h : c.isDigit = true) :
    isdigit c.toNat.toUInt8 = true ∧ c.toNat.toUInt8.toNat = c.toNat := by
  simp only [Char.isDigit, Bool.and_eq_true, decide_eq_true_eq] at h
  have h48 : 48 ≤ c.toNat := h.1
  have h57 : c.toNat ≤ 57 := h.2
  have hbyte : c.toNat.toUInt8.toNat = c.toNat := Nat.mod_eq_of_lt (by omega)
  refine ⟨?_, hbyte⟩
  simp only [isdigit, Bool.and_eq_true, decide_eq_true_eq, UInt8.le_iff_toNat_le, hbyte]
  exact ⟨h48, h57⟩

theorem digitsValue_map {cs : List Char} (h : ∀ c ∈ cs, c.isDigit = true) (acc : Nat)
    (rest : Bytes) :
    digitsValue acc (cs.map (fun c => c.toNat.toUInt8) ++ rest) =
      digitsValue (Nat.ofDigitChars 10 cs acc) rest := by
  induction cs generalizing acc with
  | nil => rfl
  | cons c cs ih =>
    obtain ⟨hdigit, hvalue⟩ := isdigit_byte (h c List.mem_cons_self)
    have hzero : '0'.toNat = 48 := rfl
    rw [List.map_cons, List.cons_append, digitsValue, if_pos hdigit, hvalue,
      ih fun d hd => h d (List.mem_cons_of_mem _ hd), Nat.ofDigitChars_cons, Nat.mul_comm, hzero]

/-- A number that is written can be read again. -/
theorem digitsValue_formatNat (n : Nat) {b : Byte} (h : isdigit b = false) (rest : Bytes) :
    digitsValue 0 (formatNat n ++ b :: rest) = n := by
  have hdigits : ∀ c ∈ Nat.toDigits 10 n, c.isDigit = true := fun c hc =>
    Nat.isDigit_of_mem_toDigits (by decide) (by decide) hc
  rw [formatNat, digitsValue_map hdigits, Nat.ofDigitChars_ten_toDigits, digitsValue, h]
  rfl

theorem formatNat_inj {m n : Nat} {b : Byte} (hb : isdigit b = false) {rest rest' : Bytes}
    (h : formatNat m ++ b :: rest = formatNat n ++ b :: rest') : m = n := by
  rw [← digitsValue_formatNat m hb rest, h, digitsValue_formatNat n hb]

example : atoi (str " 4294967297x") = 1 ∧ formatInt (-120) = str "-120" := by decide

end Pop3Server
