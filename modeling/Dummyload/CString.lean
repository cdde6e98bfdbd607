import Mathlib

/-!
# Dummyload.CString

Bytes and the few C library functions the parsers call on them: `isspace` and
`atoi` (in the C locale, 64-bit `long`, 32-bit `int`), and the conversions
between `int` and `size_t` that C++ inserts where the two meet.
-/

namespace Dummyload

/-- A `char` of a buffer. -/
abbrev Byte := UInt8

/-- A byte string (`std::string`, or the range between two pointers). -/
abbrev Bytes := List Byte

/-- The bytes of an ASCII literal. -/
def ascii (s : String) : Bytes := s.toList.map fun c => c.toNat.toUInt8

/-- The byte of an ASCII character. -/
def chr (c : Char) : Byte := c.toNat.toUInt8

/-- `Buffer::kCRLF`. -/
def kCRLF : Bytes := [13, 10]

@[simp] theorem kCRLF_ne_nil : kCRLF ≠ [] := by simp [kCRLF]

/-- `[first, last)` of a range, both counted from its start. -/
def slice (l : Bytes) (first last : Nat) : Bytes := (l.drop first).take (last - first)

/-- `std::find(first, end, c)` on the range `l`, as an offset from its start;
`l.length` stands for `end`. -/
def find (l : Bytes) (first : Nat) (c : Byte) : Nat := first + (l.drop first).idxOf c

/-! ### `isspace`, `atoi` -/

/-- The white space of the C locale: tab, line feed, vertical tab, form feed,
carriage return, space. -/
def isspace (c : Byte) : Bool := (9 ≤ c && c ≤ 13) || c == 32

def isdigit (c : Byte) : Bool := 48 ≤ c && c ≤ 57

/-- The number a string of decimal digits denotes. -/
def decimal (ds : Bytes) : Nat := ds.foldl (fun n d => 10 * n + (d.toNat - 48)) 0

def LONG_MAX : Int := 2 ^ 63 - 1
def LONG_MIN : Int := -2 ^ 63

/-- `strtol(s, NULL, 10)`: white space, an optional sign, digits up to the
first byte that is none; out of range it answers the nearest `long`. -/
def strtol (s : Bytes) : Int :=
  match s.dropWhile isspace with
  | 45 :: ds => max LONG_MIN (-(decimal (ds.takeWhile isdigit) : Int))
  | 43 :: ds => min LONG_MAX (decimal (ds.takeWhile isdigit) : Int)
  | ds => min LONG_MAX (decimal (ds.takeWhile isdigit) : Int)

/-- Conversion to a 32-bit `int`. -/
def toInt (x : Int) : Int := x.bmod (2 ^ 32)

/-- `atoi(s)`, that is `(int) strtol(s, NULL, 10)`. -/
def atoi (s : Bytes) : Int := toInt (strtol s)

/-- Conversion to `size_t`. -/
def toSize (x : Int) : Nat := (x % 2 ^ 64).toNat

theorem toSize_of_nonneg {x : Int} (h : 0 ≤ x) (hlt : x < 2 ^ 64) : (toSize x : Int) = x := by
  rw [toSize, Int.emod_eq_of_lt h hlt, Int.toNat_of_nonneg h]

@[simp] theorem toSize_natCast {n : Nat} (h : n < 2 ^ 64) : toSize n = n := by
  have := toSize_of_nonneg (x := n) (by omega) (by omega)
  omega

theorem toInt_of_range {x : Int} (h : -2 ^ 31 ≤ x) (hlt : x < 2 ^ 31) : toInt x = x := by
  unfold toInt
  exact Int.bmod_eq_of_le (by omega) (by omega)

/-! ### Decimal strings -/

theorem isspace_of_isdigit {c : Byte} (h : isdigit c = true) : isspace c = false := by
  revert h
  simp only [isdigit, isspace, Bool.and_eq_true, decide_eq_true_eq, Bool.or_eq_false_iff,
    Bool.and_eq_false_iff, decide_eq_false_iff_not, beq_eq_false_iff_ne, UInt8.le_iff_toNat_le]
  intro hand
  obtain ⟨h₁, h₂⟩ := hand
  refine ⟨Or.inr ?_, ?_⟩
  · have : (13 : UInt8).toNat = 13 := rfl
    have : (48 : UInt8).toNat = 48 := rfl
    omega
  · intro heq
    obtain rfl := heq
    revert h₁
    decide

/-- From a digit on `strtol` reads the digits. -/
theorem strtol_of_isdigit {d : Byte} (hd : isdigit d = true) (s : Bytes) :
    strtol (d :: s) = min LONG_MAX (decimal ((d :: s).takeWhile isdigit) : Int) := by
  have hdrop : (d :: s).dropWhile isspace = d :: s := by
    rw [List.dropWhile_cons, isspace_of_isdigit hd, if_neg Bool.false_ne_true]
  have h45 : d ≠ 45 := by rintro rfl; revert hd; decide
  have h43 : d ≠ 43 := by rintro rfl; revert hd; decide
  rw [strtol, hdrop]
  split
  · rename_i ds heq; exact absurd (List.cons.inj heq).1 h45
  · rename_i ds heq; exact absurd (List.cons.inj heq).1 h43
  · rfl

/-- On a non-empty string of digits it reads all of it. -/
theorem strtol_digits {ds : Bytes} (hne : ds ≠ []) (hds : ∀ d ∈ ds, isdigit d = true) :
    strtol ds = min LONG_MAX (decimal ds : Int) := by
  obtain ⟨d, ds', rfl⟩ := List.exists_cons_of_ne_nil hne
  rw [strtol_of_isdigit (hds d List.mem_cons_self), List.takeWhile_eq_self_iff.mpr hds]

/-- It stops at the first byte that is no digit. -/
theorem strtol_digits_append {ds : Bytes} (hne : ds ≠ []) (hds : ∀ d ∈ ds, isdigit d = true)
    {c : Byte} (hc : isdigit c = false) (s : Bytes) : strtol (ds ++ c :: s) = strtol ds := by
  have htake : (ds ++ c :: s).takeWhile isdigit = ds := by
    rw [List.takeWhile_append_of_pos hds, List.takeWhile_cons_of_neg (by simp [hc]),
      List.append_nil]
  obtain ⟨d, ds', rfl⟩ := List.exists_cons_of_ne_nil hne
  rw [strtol_digits hne hds, List.cons_append, strtol_of_isdigit (hds d List.mem_cons_self),
    ← List.cons_append, htake]

theorem atoi_digits {ds : Bytes} (hne : ds ≠ []) (hds : ∀ d ∈ ds, isdigit d = true)
    (hlt : decimal ds < 2 ^ 31) : atoi ds = decimal ds := by
  have hmin : min LONG_MAX (decimal ds : Int) = decimal ds := by
    rw [LONG_MAX, min_eq_right]
    omega
  rw [atoi, strtol_digits hne hds, hmin]
  exact toInt_of_range (by omega) (by omega)

theorem atoi_digits_append {ds : Bytes} (hne : ds ≠ []) (hds : ∀ d ∈ ds, isdigit d = true)
    {c : Byte} (hc : isdigit c = false) (s : Bytes) : atoi (ds ++ c :: s) = atoi ds := by
  rw [atoi, strtol_digits_append hne hds hc, atoi]

/-- The decimal representation of a number (`std::to_string`). -/
def toDecimal (n : Nat) : Bytes := (Nat.toDigits 10 n).map chr

theorem isDigit_toNat {c : Char} (h : c.isDigit = true) : 48 ≤ c.toNat ∧ c.toNat ≤ 57 := by
  simp only [Char.isDigit, Bool.and_eq_true, decide_eq_true_eq, ge_iff_le,
    UInt32.le_iff_toNat_le] at h
  exact h

theorem chr_toNat {c : Char} (h : c.isDigit = true) : (chr c).toNat = c.toNat := by
  have := isDigit_toNat h
  simp only [chr, Nat.toUInt8, UInt8.toNat_ofNat']
  omega

theorem isdigit_chr {c : Char} (h : c.isDigit = true) : isdigit (chr c) = true := by
  have hc := isDigit_toNat h
  simp only [isdigit, Bool.and_eq_true, decide_eq_true_eq, UInt8.le_iff_toNat_le, chr_toNat h]
  exact hc

@[simp] theorem toDecimal_ne_nil (n : Nat) : toDecimal n ≠ [] := by
  simp [toDecimal, Nat.toDigits_ne_nil]

theorem isdigit_of_mem_toDecimal {n : Nat} {d : Byte} (h : d ∈ toDecimal n) :
    isdigit d = true := by
  obtain ⟨c, hc, rfl⟩ := List.mem_map.mp h
  exact isdigit_chr (Nat.isDigit_of_mem_toDigits (by norm_num) (by norm_num) hc)

/-- Reading a decimal representation gives the number back. -/
theorem decimal_toDecimal (n : Nat) : decimal (toDecimal n) = n := by
  have key : ∀ (cs : List Char) (k : Nat), (∀ c ∈ cs, c.isDigit = true) →
      (cs.map chr).foldl (fun n d => 10 * n + (d.toNat - 48)) k = Nat.ofDigitChars 10 cs k := by
    intro cs
    induction cs with
    | nil => intro k _; rfl
    | cons c cs ih =>
        intro k hcs
        obtain ⟨hc, hcs⟩ := List.forall_mem_cons.mp hcs
        rw [List.map_cons, List.foldl_cons, chr_toNat hc, ih _ hcs, Nat.ofDigitChars_cons]
        rfl
  rw [decimal, toDecimal, key _ _ fun c hc =>
    Nat.isDigit_of_mem_toDigits (by norm_num) (by norm_num) hc]
  exact Nat.ofDigitChars_ten_toDigits

theorem atoi_toDecimal {n : Nat} (h : n < 2 ^ 31) : atoi (toDecimal n) = n := by
  have hdec := decimal_toDecimal n
  rw [atoi_digits (toDecimal_ne_nil n) (fun d hd => isdigit_of_mem_toDecimal hd) (by omega), hdec]

end Dummyload
