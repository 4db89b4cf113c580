/-
  Byte strings and decimal numerals.

  Strings and byte slices are lists of bytes.  Numbers are written in decimal,
  either with a fixed number of digits (`fixed`, for the fields of a timestamp)
  or with as many as they need (`decimal`, for counters and revisions), and
  read back with `numeral`.
-/
import Mathlib.Tactic
import Mathlib.Data.List.Basic

namespace HomeLab

/-- A string or byte slice: its bytes in order. -/
abbrev Bytes := List UInt8

/-- Byte strings are compared byte by byte. -/
instance byteOrder : LinearOrder UInt8 where
  le_refl := UInt8.le_refl
  le_trans _ _ _ := UInt8.le_trans
  lt_iff_le_not_ge a b := by grind
  le_antisymm _ _ := UInt8.le_antisymm
  le_total := UInt8.le_total
  toDecidableLE := inferInstance

instance bytesLawfulBEq : LawfulBEq Bytes := inferInstance

/-- The bytes of an ASCII literal. -/
def ascii (s : String) : Bytes := s.toList.map fun c => c.toNat.toUInt8

/-- What is said of every byte of a text is decided along the text, not over all bytes. -/
instance (priority := high) {p : UInt8 → Prop} [DecidablePred p] (bs : Bytes) :
    Decidable (∀ b ∈ bs, p b) :=
  List.decidableBAll p bs

/-- A lower-case hexadecimal digit. -/
def hexByte (b : UInt8) : Bool := 48 ≤ b && b ≤ 57 || 97 ≤ b && b ≤ 102

/-- A 32-byte digest. -/
abbrev Digest := Vector UInt8 32

/-- The digest function.  Nothing below depends on which one it is. -/
class Sha256 where
  sum256 : Bytes → Digest

/-- A digest function to run the models with. -/
@[reducible] def plainDigest : Sha256 := ⟨fun _ => Vector.replicate 32 0⟩

/-! ## Digits -/

/-- The ASCII digit of `d % 10`. -/
def digit (d : ℕ) : UInt8 := (48 + d % 10).toUInt8

def isDigit (b : UInt8) : Bool := 48 ≤ b.toNat && b.toNat ≤ 57

def digitVal (b : UInt8) : ℕ := b.toNat - 48

theorem toNat_digit (d : ℕ) : (digit d).toNat = 48 + d % 10 := by
  have h : d % 10 < 10 := Nat.mod_lt _ (by decide)
  simp only [digit, Nat.toUInt8_eq, UInt8.toNat_ofNat']
  omega

@[simp] theorem digitVal_digit (d : ℕ) : digitVal (digit d) = d % 10 := by
  simp [digitVal, toNat_digit]

@[simp] theorem isDigit_digit (d : ℕ) : isDigit (digit d) = true := by
  simp only [isDigit, toNat_digit, Bool.and_eq_true, decide_eq_true_eq]
  omega

/-- The number a string of digits denotes. -/
def numeral (bs : Bytes) : ℕ := bs.foldl (fun n b => 10 * n + digitVal b) 0

@[simp] theorem numeral_nil : numeral [] = 0 := rfl

theorem numeral_concat (bs : Bytes) (b : UInt8) :
    numeral (bs ++ [b]) = 10 * numeral bs + digitVal b := by
  simp [numeral]

theorem numeral_lt_pow {bs : Bytes} (h : ∀ b ∈ bs, isDigit b = true) :
    numeral bs < 10 ^ bs.length := by
  induction bs using List.reverseRecOn with
  | nil => simp
  | append_singleton bs b ih =>
    have hb : isDigit b = true := h b (by simp)
    have hbs := ih fun c hc => h c (by simp [hc])
    simp only [isDigit, Bool.and_eq_true, decide_eq_true_eq] at hb
    rw [numeral_concat, List.length_append, List.length_singleton, pow_succ, digitVal]
    omega

/-! ## Fixed width -/

/-- The last `w` decimal digits of `n`. -/
def fixed : ℕ → ℕ → Bytes
  | 0, _ => []
  | w + 1, n => fixed w (n / 10) ++ [digit n]

@[simp] theorem length_fixed (w n : ℕ) : (fixed w n).length = w := by
  induction w generalizing n with
  | zero => rfl
  | succ w ih => simp [fixed, ih]

variable {b : UInt8} {n w m f : ℕ}

theorem isDigit_of_mem_fixed (h : b ∈ fixed w n) : isDigit b = true := by
  induction w generalizing n with
  | zero => simp [fixed] at h
  | succ w ih =>
    rcases List.mem_append.1 h with h | h
    · exact ih h
    · rw [List.mem_singleton.1 h]; exact isDigit_digit n

theorem numeral_fixed (h : n < 10 ^ w) : numeral (fixed w n) = n := by
  induction w generalizing n with
  | zero => simp [fixed]; omega
  | succ w ih =>
    rw [pow_succ] at h
    rw [fixed, numeral_concat, ih (by omega), digitVal_digit]
    omega

/-! ## Order -/

/-- Byte strings that start with equally long parts are compared part by part. -/
theorem append_lt_append_iff {a b c d : Bytes} (h : a.length = b.length) :
    a ++ c < b ++ d ↔ a < b ∨ a = b ∧ c < d := by
  induction a generalizing b with
  | nil =>
    obtain rfl := List.length_eq_zero_iff.1 h.symm
    simp
  | cons x a ih =>
    cases b with
    | nil => simp at h
    | cons y b =>
      simp only [List.length_cons, Nat.add_right_cancel_iff] at h
      simp only [List.cons_append, List.cons_lt_cons_iff, ih h, List.cons.injEq]
      tauto

theorem digit_lt_digit_iff : digit m < digit n ↔ m % 10 < n % 10 := by
  rw [UInt8.lt_iff_toNat_lt, toNat_digit, toNat_digit]
  omega

theorem fixed_lt_fixed_iff (hm : m < 10 ^ w) (hn : n < 10 ^ w) :
    fixed w m < fixed w n ↔ m < n := by
  induction w generalizing m n with
  | zero =>
    rw [pow_zero] at hm hn
    simp [fixed]
    omega
  | succ w ih =>
    rw [pow_succ] at hm hn
    have hlt := ih (m := m / 10) (n := n / 10) (by omega) (by omega)
    have heq : fixed w (m / 10) = fixed w (n / 10) ↔ m / 10 = n / 10 := by
      constructor
      · intro h
        have := congrArg numeral h
        rwa [numeral_fixed (by omega), numeral_fixed (by omega)] at this
      · intro h; rw [h]
    rw [fixed, fixed, append_lt_append_iff (by simp), hlt, heq, List.cons_lt_cons_iff]
    simp only [digit_lt_digit_iff, List.lt_irrefl, and_false, or_false]
    omega

/-! ## Shortest form -/

/-- `decimal` with a bound on the number of digits. -/
def decimalAux : ℕ → ℕ → Bytes
  | 0, _ => []
  | f + 1, n => if n < 10 then [digit n] else decimalAux f (n / 10) ++ [digit n]

/-- The decimal digits of `n`, without leading zeros. -/
def decimal (n : ℕ) : Bytes := decimalAux (n + 1) n

theorem isDigit_of_mem_decimalAux (h : b ∈ decimalAux f n) :
    isDigit b = true := by
  induction f generalizing n with
  | zero => simp [decimalAux] at h
  | succ f ih =>
    rw [decimalAux] at h
    split_ifs at h with hn
    · rw [List.mem_singleton.1 h]; exact isDigit_digit n
    · rcases List.mem_append.1 h with h | h
      · exact ih h
      · rw [List.mem_singleton.1 h]; exact isDigit_digit n

theorem isDigit_of_mem_decimal (h : b ∈ decimal n) : isDigit b = true :=
  isDigit_of_mem_decimalAux h

theorem numeral_decimalAux (h : n < f) : numeral (decimalAux f n) = n := by
  induction f generalizing n with
  | zero => omega
  | succ f ih =>
    rw [decimalAux]
    split_ifs with hn
    · simp [numeral]; omega
    · rw [numeral_concat, ih (by omega), digitVal_digit]; omega

@[simp] theorem numeral_decimal (n : ℕ) : numeral (decimal n) = n :=
  numeral_decimalAux (Nat.lt_succ_self n)

theorem decimal_ne_nil (n : ℕ) : decimal n ≠ [] := by
  rw [decimal, decimalAux]; split_ifs <;> simp

/-- No leading zero: a numeral that starts with `0` is `0`. -/
theorem decimalAux_head (h : n < f) (h0 : (decimalAux f n).head? = some 48) : n = 0 := by
  induction f generalizing n with
  | zero => omega
  | succ f ih =>
    rw [decimalAux] at h0
    split_ifs at h0 with hn
    · have hd : digit n = digit 0 := by simpa [digit] using h0
      have := congrArg digitVal hd
      rw [digitVal_digit, digitVal_digit] at this
      omega
    · have hne : decimalAux f (n / 10) ≠ [] := by
        cases f with
        | zero => omega
        | succ f => rw [decimalAux]; split_ifs <;> simp
      rw [List.head?_append_of_ne_nil _ hne] at h0
      have := ih (by omega) h0
      omega

theorem decimal_head (h : (decimal n).head? = some 48) : decimal n = [48] := by
  have hn : n = 0 := decimalAux_head (Nat.lt_succ_self n) h
  subst hn; rfl

theorem decimal_injective : Function.Injective decimal := by
  intro m n h
  have := congrArg numeral h
  simpa using this

/-- A number below `10 ^ w` has at most `w` digits. -/
theorem length_decimalAux_le (h : n < 10 ^ (w + 1)) :
    (decimalAux f n).length ≤ w + 1 := by
  induction f generalizing n w with
  | zero => simp [decimalAux]
  | succ f ih =>
    rw [decimalAux]
    split_ifs with hn
    · simp
    · cases w with
      | zero => omega
      | succ w =>
        have := ih (n := n / 10) (w := w) (by rw [pow_succ] at h; omega)
        simp only [List.length_append, List.length_singleton]; omega

theorem length_decimal_le (h : n < 10 ^ (w + 1)) : (decimal n).length ≤ w + 1 :=
  length_decimalAux_le h

theorem length_decimal_mono (h : m ≤ n) : (decimal m).length ≤ (decimal n).length := by
  have hlt : n < 10 ^ (decimal n).length := by
    have hdigits : numeral (decimal n) < 10 ^ (decimal n).length :=
      numeral_lt_pow fun b => isDigit_of_mem_decimal
    rwa [numeral_decimal] at hdigits
  have hpos : 0 < (decimal n).length := List.length_pos_iff.2 (decimal_ne_nil n)
  obtain ⟨w, hw⟩ : ∃ w, (decimal n).length = w + 1 := ⟨(decimal n).length - 1, by omega⟩
  rw [hw] at hlt ⊢
  exact length_decimal_le (h.trans_lt hlt)

end HomeLab
