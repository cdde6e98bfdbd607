import Dummyload.CString
import Dummyload.Lib.Rounding

/-!
# Dummyload.FloatText

How the streams of the C++ library write and read a `long double`: `num_put` in the
default notation with a given precision (`%.*Lg`) and `num_get`, which takes the longest
start of a literal and converts it. A finite `long double` is a rational, of 64 significant
bits or fewer below `LDBL_MIN`, or the zero with a minus.

What is written is a literal whose value is the number, rounded to the precision
(`exists_literal_numPut`), and a literal is read to its end and as the `long double`
nearest to its value (`numGet_literal`).
-/

namespace Dummyload

open Lib.Rounding (nearestEven round)

/-- A finite `long double`. -/
inductive LongDouble
  | rat (x : ℚ)
  /-- `-0.0`. -/
  | negZero
  deriving DecidableEq

namespace LongDouble

def value : LongDouble → ℚ
  | .rat x => x
  | .negZero => 0

/-- A number whose sign is known even if it is zero. -/
def signed (neg : Bool) (x : ℚ) : LongDouble := if neg ∧ x = 0 then .negZero else .rat x

end LongDouble

/-! ### Writing -/

/-- The `p` significant digits of a positive number, as an integer, and the exponent of the
first of them. -/
def significant (p : Nat) (a : ℚ) : Nat × Int :=
  let e := Int.log 10 a
  let d := (nearestEven (a / 10 ^ (e + 1 - p))).toNat
  if d = 10 ^ p then (10 ^ (p - 1), e + 1) else (d, e)

/-- The digits behind the point, without the zeros at their end, and the point. -/
def fraction (ds : Bytes) : Bytes :=
  let ds := ds.rdropWhile (· == chr '0')
  if ds = [] then [] else chr '.' :: ds

/-- At least two digits. -/
def putExponent (e : Int) : Bytes :=
  let n := e.natAbs
  chr 'e' :: (if e < 0 then chr '-' else chr '+') ::
    (if n < 10 then chr '0' :: toDecimal n else toDecimal n)

/-- `d`, a number of `p` digits, times `10 ^ (e + 1 - p)`. -/
def putDigits (p d : Nat) (e : Int) : Bytes :=
  let ds := toDecimal d
  if -4 ≤ e ∧ e < p then
    if 0 ≤ e then ds.take (e.toNat + 1) ++ fraction (ds.drop (e.toNat + 1))
    else chr '0' :: fraction (List.replicate (-e - 1).toNat (chr '0') ++ ds)
  else ds.take 1 ++ fraction (ds.drop 1) ++ putExponent e

/-- A rational, to `p` significant digits. -/
def putRational (p : Nat) (x : ℚ) : Bytes :=
  if x = 0 then [chr '0']
  else
    let (d, e) := significant p |x|
    (if x < 0 then [chr '-'] else []) ++ putDigits p d e

/-- `stream << std::setprecision(p) << x`. A precision of 0 is one of 1. -/
def numPut (p : Nat) : LongDouble → Bytes
  | .rat x => putRational (max p 1) x
  | .negZero => [chr '-', chr '0']

/-- The number written: `x` to `p` significant digits. -/
def toPrecision (p : Nat) (x : ℚ) : ℚ :=
  if x = 0 then 0
  else
    let (d, e) := significant p |x|
    (if x < 0 then -1 else 1) * (d * 10 ^ (e + 1 - p))

/-! ### Reading -/

/-- `LDBL_MAX` is less than that. -/
def LDBL_LIMIT : ℚ := 2 ^ 16384

/-- An optional sign: whether it is a minus, and how many characters it takes. -/
def scanSign : Bytes → Bool × Nat
  | 45 :: _ => (true, 1)
  | 43 :: _ => (false, 1)
  | _ => (false, 0)

/-- The digits behind a point, and how many characters they take with it. -/
def scanFraction : Bytes → Bytes × Nat
  | 46 :: t => (t.takeWhile isdigit, (t.takeWhile isdigit).length + 1)
  | _ => ([], 0)

/-- An exponent and how many characters it takes. It has a value if it has a digit. -/
def scanExponent : Bytes → Option Int × Nat
  | c :: t =>
    if c = chr 'e' ∨ c = chr 'E' then
      let (neg, k) := scanSign t
      let ds := (t.drop k).takeWhile isdigit
      let e : Int := decimal ds
      (if ds = [] then none else some (if neg then -e else e), 1 + k + ds.length)
    else (some 0, 0)
  | [] => (some 0, 0)

/-- The least positive number with all its 64 bits. -/
def LDBL_MIN : ℚ := 1 / 2 ^ 16382

/-- The least positive number. -/
def LDBL_TRUE_MIN : ℚ := 1 / 2 ^ 16445

/-- The nearest `long double`, were there no largest one. -/
def longDouble (x : ℚ) : ℚ :=
  if |x| < LDBL_MIN then nearestEven (x / LDBL_TRUE_MIN) * LDBL_TRUE_MIN else round 64 x

/-- Conversion of a literal of value `a`, behind a minus if `neg`; it fails out of range, but
not where it underflows. -/
def toLongDouble (neg : Bool) (a : ℚ) : Option LongDouble :=
  let x := longDouble ((if neg then -1 else 1) * a)
  if |x| < LDBL_LIMIT then some (.signed neg x) else none

/-- `num_get`: how many characters it takes, and the value. -/
def numGet (s : Bytes) : Nat × Option LongDouble :=
  let (neg, k) := scanSign s
  let s₁ := s.drop k
  let int := s₁.takeWhile isdigit
  let s₂ := s₁.drop int.length
  let (frac, m) := scanFraction s₂
  let s₃ := s₂.drop m
  if int ++ frac = [] then (k + int.length + m, none)
  else
    let (e, n) := scanExponent s₃
    (k + int.length + m + n, e.bind fun e =>
      toLongDouble neg (decimal (int ++ frac) * 10 ^ (e - frac.length)))

/-! ### Digits -/

theorem decimal_concat (ds : Bytes) (d : Byte) :
    decimal (ds ++ [d]) = 10 * decimal ds + (d.toNat - 48) := by
  rw [decimal, List.foldl_append, List.foldl_cons, List.foldl_nil, decimal]

theorem decimal_append_zeros (ds : Bytes) (n : Nat) :
    decimal (ds ++ List.replicate n (chr '0')) = decimal ds * 10 ^ n := by
  induction n with
  | zero => simp
  | succ n ih =>
      have hzero : (chr '0').toNat - 48 = 0 := by decide
      rw [List.replicate_succ', ← List.append_assoc, decimal_concat, ih, hzero]
      ring

theorem decimal_zeros_append (n : Nat) (ds : Bytes) :
    decimal (List.replicate n (chr '0') ++ ds) = decimal ds := by
  induction n with
  | zero => rfl
  | succ n ih =>
      rw [List.replicate_succ, List.cons_append, decimal, List.foldl_cons]
      exact ih

/-- Zeros at the end do not count behind the point. -/
theorem decimal_rdropWhile (int ds : Bytes) :
    (decimal (int ++ ds.rdropWhile (· == chr '0')) : ℚ) *
        10 ^ (-((ds.rdropWhile (· == chr '0')).length : ℤ)) =
      decimal (int ++ ds) * 10 ^ (-(ds.length : ℤ)) := by
  obtain ⟨n, hn⟩ : ∃ n, ds = ds.rdropWhile (· == chr '0') ++ List.replicate n (chr '0') := by
    refine ⟨(ds.rtakeWhile (· == chr '0')).length, ?_⟩
    have hall : ds.rtakeWhile (· == chr '0') =
        List.replicate (ds.rtakeWhile (· == chr '0')).length (chr '0') :=
      List.eq_replicate_of_mem fun d hd => by
        simpa using List.mem_rtakeWhile_imp hd
    rw [← hall, List.rdropWhile_append_rtakeWhile]
  generalize ds.rdropWhile (· == chr '0') = f at hn ⊢
  subst hn
  have hten : (10 : ℚ) ≠ 0 := by norm_num
  rw [← List.append_assoc, decimal_append_zeros, List.length_append, List.length_replicate]
  push_cast
  rw [neg_add, zpow_add₀ hten, zpow_neg, zpow_neg, zpow_natCast, zpow_natCast]
  field_simp

theorem length_toDecimal {d p : Nat} (hlo : 10 ^ p ≤ d) (hhi : d < 10 ^ (p + 1)) :
    (toDecimal d).length = p + 1 := by
  have hle (k : Nat) (hk : 0 < k) : (toDecimal d).length ≤ k ↔ d < 10 ^ k := by
    rw [toDecimal, List.length_map]
    exact Nat.length_toDigits_le_iff (by norm_num) hk
  have hupper := (hle (p + 1) p.succ_pos).mpr hhi
  rcases Nat.eq_zero_or_pos p with rfl | hp
  · have := List.length_pos_of_ne_nil (toDecimal_ne_nil d)
    omega
  · have := mt (hle p hp).mp (by omega)
    omega

theorem decimal_lt {ds : Bytes} (hds : ∀ d ∈ ds, isdigit d = true) :
    decimal ds < 10 ^ ds.length := by
  induction ds using List.reverseRecOn with
  | nil => decide
  | append_singleton ds d ih =>
      have hlt := ih fun d hd => hds d (List.mem_append_left _ hd)
      have hd : isdigit d = true := hds d (by simp)
      have hdigit : ∀ d : Byte, isdigit d = true → d.toNat ≤ 57 := by decide +kernel
      have hle := hdigit d hd
      rw [decimal_concat, List.length_append, List.length_singleton, pow_succ]
      omega

/-- A number of `p + 1` digits does not start with a zero. -/
theorem head?_toDecimal {d p : Nat} (hlo : 10 ^ p ≤ d) (hhi : d < 10 ^ (p + 1)) :
    (toDecimal d).head? ≠ some (chr '0') := by
  intro hhead
  obtain ⟨t, ht⟩ := List.head?_eq_some_iff.mp hhead
  have hlen := length_toDecimal hlo hhi
  have hdec := decimal_toDecimal d
  rw [ht, List.length_cons] at hlen
  rw [ht] at hdec
  have hzero : decimal t = d := (decimal_zeros_append 1 t).symm.trans hdec
  have hlt : decimal t < 10 ^ t.length := decimal_lt fun c hc =>
    isdigit_of_mem_toDecimal (n := d) (by rw [ht]; exact List.mem_cons_of_mem _ hc)
  obtain rfl : t.length = p := by omega
  omega

/-! ### Literals -/

/-- An exponent as it may be written. -/
structure Exponent where
  upper : Bool
  /-- Whether the sign is a minus, if there is one. -/
  sign : Option Bool
  digits : Bytes
  digits_ne : digits ≠ []
  isdigit_digits : ∀ d ∈ digits, isdigit d = true

/-- A decimal literal without a sign. -/
structure Literal where
  int : Bytes
  frac : Bytes
  exp : Option Exponent
  int_ne : int ≠ []
  /-- No zeros in front. -/
  int_zero : int.head? = some (chr '0') → int = [chr '0']
  isdigit_int : ∀ d ∈ int, isdigit d = true
  isdigit_frac : ∀ d ∈ frac, isdigit d = true

def signText (neg : Bool) : Bytes := if neg then [chr '-'] else []

namespace Exponent

def signText : Option Bool → Bytes
  | none => []
  | some neg => [if neg then chr '-' else chr '+']

def text (x : Exponent) : Bytes :=
  (if x.upper then chr 'E' else chr 'e') :: (signText x.sign ++ x.digits)

def value (x : Exponent) : Int := if x.sign = some true then -decimal x.digits else decimal x.digits

end Exponent

namespace Literal

def point (frac : Bytes) : Bytes := if frac = [] then [] else chr '.' :: frac

def expText (exp : Option Exponent) : Bytes := exp.elim [] Exponent.text

def text (l : Literal) : Bytes := l.int ++ (point l.frac ++ expText l.exp)

def value (l : Literal) : ℚ :=
  decimal (l.int ++ l.frac) * 10 ^ (l.exp.elim 0 Exponent.value - l.frac.length)

end Literal

/-- What may follow a literal so that it ends there. -/
def EndsLiteral (rest : Bytes) : Prop :=
  ∀ c ∈ rest.head?, isdigit c = false ∧ c ≠ chr '.' ∧ c ≠ chr 'e' ∧ c ≠ chr 'E'

/-! ### Reading a literal -/

section Read

variable {ds rest : Bytes}

def NoDigit (rest : Bytes) : Prop := ∀ c ∈ rest.head?, isdigit c = false

theorem EndsLiteral.noDigit (h : EndsLiteral rest) : NoDigit rest := fun c hc => (h c hc).1

theorem noDigit_cons {c : Byte} (h : isdigit c = false) (t : Bytes) : NoDigit (c :: t) := by
  intro c' hc'
  obtain rfl : c = c' := by simpa using hc'
  exact h

theorem takeWhile_isdigit (hds : ∀ d ∈ ds, isdigit d = true) (hrest : NoDigit rest) :
    (ds ++ rest).takeWhile isdigit = ds := by
  rw [List.takeWhile_append_of_pos hds]
  cases rest with
  | nil => simp
  | cons c t => rw [List.takeWhile_cons_of_neg (by simp [hrest c rfl]), List.append_nil]

/-- Digits do not start with a sign. -/
theorem scanSign_digits (hne : ds ≠ []) (hds : ∀ d ∈ ds, isdigit d = true) (rest : Bytes) :
    scanSign (ds ++ rest) = (false, 0) := by
  obtain ⟨d, ds, rfl⟩ := List.exists_cons_of_ne_nil hne
  have hd := hds d List.mem_cons_self
  rw [List.cons_append]
  unfold scanSign
  split
  · rename_i heq
    obtain rfl := (List.cons.inj heq).1
    exact absurd hd (by decide)
  · rename_i heq
    obtain rfl := (List.cons.inj heq).1
    exact absurd hd (by decide)
  · rfl

theorem scanSign_signText (neg : Bool) (hne : ds ≠ []) (hds : ∀ d ∈ ds, isdigit d = true)
    (rest : Bytes) :
    scanSign (signText neg ++ (ds ++ rest)) = (neg, (signText neg).length) := by
  cases neg with
  | false => exact scanSign_digits hne hds rest
  | true => rfl

theorem scanFraction_point (hds : ∀ d ∈ ds, isdigit d = true) (hrest : NoDigit rest)
    (hpoint : ∀ c ∈ rest.head?, c ≠ chr '.') :
    scanFraction (Literal.point ds ++ rest) = (ds, (Literal.point ds).length) := by
  by_cases hne : ds = []
  · subst hne
    rw [Literal.point, if_pos rfl, List.nil_append]
    unfold scanFraction
    split
    · rename_i t heq
      exact absurd rfl (hpoint (chr '.') (by simp; decide))
    · rfl
  · rw [Literal.point, if_neg hne, List.cons_append]
    change ((ds ++ rest).takeWhile isdigit, ((ds ++ rest).takeWhile isdigit).length + 1) = _
    rw [takeWhile_isdigit hds hrest, List.length_cons]

theorem scanExponent_text (x : Exponent) (hrest : NoDigit rest) :
    scanExponent (x.text ++ rest) = (some x.value, x.text.length) := by
  have hsign : scanSign (Exponent.signText x.sign ++ (x.digits ++ rest)) =
      (decide (x.sign = some true), (Exponent.signText x.sign).length) := by
    cases x.sign with
    | none => exact scanSign_digits x.digits_ne x.isdigit_digits rest
    | some neg => cases neg <;> rfl
  have he : (if x.upper then chr 'E' else chr 'e') = chr 'e' ∨
      (if x.upper then chr 'E' else chr 'e') = chr 'E' := by
    cases x.upper
    · exact Or.inl rfl
    · exact Or.inr rfl
  rw [Exponent.text, List.cons_append, List.append_assoc, scanExponent, if_pos he]
  simp only [hsign, List.drop_left, takeWhile_isdigit x.isdigit_digits hrest, if_neg x.digits_ne,
    decide_eq_true_eq, List.length_cons, List.length_append]
  rw [Exponent.value]
  congr 1
  omega

theorem scanExponent_expText (exp : Option Exponent) (hrest : EndsLiteral rest) :
    scanExponent (Literal.expText exp ++ rest) =
      (some (exp.elim 0 Exponent.value), (Literal.expText exp).length) := by
  cases exp with
  | some x => exact scanExponent_text x hrest.noDigit
  | none =>
      change scanExponent rest = (some 0, 0)
      cases rest with
      | nil => rfl
      | cons c t =>
          obtain ⟨-, -, he, hE⟩ := hrest c rfl
          rw [scanExponent, if_neg (not_or.mpr ⟨he, hE⟩)]

/-- Behind the digits of a literal comes no digit, and no point that is not its own. -/
theorem head_expText (exp : Option Exponent) (hrest : EndsLiteral rest) :
    ∀ c ∈ (Literal.expText exp ++ rest).head?, isdigit c = false ∧ c ≠ chr '.' := by
  cases exp with
  | none => exact fun c hc => ⟨(hrest c hc).1, (hrest c hc).2.1⟩
  | some x =>
      intro c hc
      obtain rfl : (if x.upper then chr 'E' else chr 'e') = c := by
        simpa [Literal.expText, Exponent.text] using hc
      cases x.upper <;> decide

/-- `num_get` takes a literal to its end. -/
theorem numGet_literal (neg : Bool) (l : Literal) (hrest : EndsLiteral rest) :
    numGet (signText neg ++ (l.text ++ rest)) = ((signText neg ++ l.text).length,
      toLongDouble neg l.value) := by
  have hexp := head_expText l.exp hrest
  have hfrac : NoDigit (Literal.point l.frac ++ (Literal.expText l.exp ++ rest)) := by
    by_cases hne : l.frac = []
    · rw [hne]
      exact fun c hc => (hexp c hc).1
    · rw [Literal.point, if_neg hne]
      exact noDigit_cons (by decide) _
  have htext : l.text ++ rest =
      l.int ++ (Literal.point l.frac ++ (Literal.expText l.exp ++ rest)) := by
    rw [Literal.text, List.append_assoc, List.append_assoc]
  have hne : l.int ++ l.frac ≠ [] := by simp [l.int_ne]
  rw [htext, numGet]
  simp only [scanSign_signText neg l.int_ne l.isdigit_int, List.drop_left,
    takeWhile_isdigit l.isdigit_int hfrac,
    scanFraction_point l.isdigit_frac (fun c hc => (hexp c hc).1) (fun c hc => (hexp c hc).2),
    if_neg hne, scanExponent_expText l.exp hrest, Option.bind_some, Literal.text,
    List.length_append, Literal.value]
  congr 1
  omega

end Read

/-! ### Reading what was written -/

section Write

variable {p d : Nat} {e : Int}

theorem isdigit_zero : ∀ d ∈ [chr '0'], isdigit d = true := by
  intro d hd
  rw [List.mem_singleton.mp hd]
  rfl

theorem isdigit_rdropWhile {ds : Bytes} (h : ∀ d ∈ ds, isdigit d = true) :
    ∀ d ∈ ds.rdropWhile (· == chr '0'), isdigit d = true :=
  fun d hd => h d ((ds.rdropWhile_prefix _).subset hd)

/-- The exponent that `putExponent` writes. -/
def exponentOf (e : Int) : Exponent where
  upper := false
  sign := some (decide (e < 0))
  digits := if e.natAbs < 10 then chr '0' :: toDecimal e.natAbs else toDecimal e.natAbs
  digits_ne := by
    split
    · exact List.cons_ne_nil _ _
    · exact toDecimal_ne_nil _
  isdigit_digits := by
    intro d hd
    split at hd
    · rcases List.mem_cons.mp hd with rfl | hd
      · rfl
      · exact isdigit_of_mem_toDecimal hd
    · exact isdigit_of_mem_toDecimal hd

theorem text_exponentOf (e : Int) : (exponentOf e).text = putExponent e := by
  by_cases he : e < 0 <;>
    simp [Exponent.text, Exponent.signText, exponentOf, putExponent, he]

theorem value_exponentOf (e : Int) : (exponentOf e).value = e := by
  have hdec : decimal (exponentOf e).digits = e.natAbs := by
    unfold exponentOf
    dsimp only
    split
    · exact (decimal_zeros_append 1 _).trans (decimal_toDecimal _)
    · exact decimal_toDecimal _
  rw [Exponent.value, hdec]
  by_cases he : e < 0
  · rw [if_pos (by simp [exponentOf, he])]
    omega
  · rw [if_neg (by simp [exponentOf, he])]
    omega

/-- An integer part with digits behind the point, some of them zeros at the end. -/
theorem value_fraction {int ds : Bytes} (exp : Option Exponent) (hne : int ≠ [])
    (hzero : int.head? = some (chr '0') → int = [chr '0']) (hint : ∀ d ∈ int, isdigit d = true)
    (hds : ∀ d ∈ ds, isdigit d = true) :
    ∃ l : Literal, l.text = int ++ (fraction ds ++ Literal.expText exp) ∧
      l.value = decimal (int ++ ds) * 10 ^ (exp.elim 0 Exponent.value - ds.length) := by
  refine ⟨⟨int, ds.rdropWhile (· == chr '0'), exp, hne, hzero, hint, isdigit_rdropWhile hds⟩, rfl,
    ?_⟩
  have hten : (10 : ℚ) ≠ 0 := by norm_num
  have hdrop := decimal_rdropWhile int ds
  rw [Literal.value, sub_eq_add_neg, sub_eq_add_neg, zpow_add₀ hten, zpow_add₀ hten]
  linear_combination (10 : ℚ) ^ (exp.elim 0 Exponent.value) * hdrop

/-- What `putDigits` writes is a literal of that value. -/
theorem exists_literal (hlo : 10 ^ p ≤ d) (hhi : d < 10 ^ (p + 1)) :
    ∃ l : Literal, l.text = putDigits (p + 1) d e ∧ l.value = d * 10 ^ (e - p) := by
  have hlen := length_toDecimal hlo hhi
  have hdigits : ∀ c ∈ toDecimal d, isdigit c = true := fun c hc => isdigit_of_mem_toDecimal hc
  have htake (n : Nat) : ∀ c ∈ (toDecimal d).take n, isdigit c = true :=
    fun c hc => hdigits c (List.mem_of_mem_take hc)
  have hdrop (n : Nat) : ∀ c ∈ (toDecimal d).drop n, isdigit c = true :=
    fun c hc => hdigits c (List.mem_of_mem_drop hc)
  have hne (n : Nat) : (toDecimal d).take (n + 1) ≠ [] := by
    simp [List.take_eq_nil_iff]
  have hzero (n : Nat) : ((toDecimal d).take (n + 1)).head? = some (chr '0') →
      (toDecimal d).take (n + 1) = [chr '0'] := by
    rw [List.head?_take, if_neg n.succ_ne_zero]
    exact fun hhead => absurd hhead (head?_toDecimal hlo hhi)
  by_cases hfixed : -4 ≤ e ∧ e < (p + 1 : Nat)
  · by_cases he : 0 ≤ e
    · -- the point is among the digits
      obtain ⟨l, htext, hvalue⟩ := value_fraction none (hne e.toNat) (hzero _) (htake _)
        (hdrop (e.toNat + 1))
      refine ⟨l, ?_, ?_⟩
      · rw [htext, putDigits, if_pos hfixed, if_pos he]
        exact congrArg _ (List.append_nil _)
      · rw [hvalue, List.take_append_drop, decimal_toDecimal, List.length_drop, hlen,
          Option.elim_none, zero_sub]
        congr 2
        omega
    · -- zeros between the point and the digits
      have hzeros : ∀ c ∈ List.replicate (-e - 1).toNat (chr '0') ++ toDecimal d,
          isdigit c = true := by
        intro c hc
        rcases List.mem_append.mp hc with hc | hc
        · rw [List.eq_of_mem_replicate hc]
          rfl
        · exact hdigits c hc
      obtain ⟨l, htext, hvalue⟩ := value_fraction none (List.cons_ne_nil (chr '0') [])
        (fun _ => rfl) isdigit_zero hzeros
      refine ⟨l, ?_, ?_⟩
      · rw [htext, putDigits, if_pos hfixed, if_neg he]
        exact congrArg (chr '0' :: ·) (List.append_nil _)
      · rw [hvalue, List.length_append, hlen, List.length_replicate, Option.elim_none, zero_sub]
        have hdec : decimal ([chr '0'] ++ (List.replicate (-e - 1).toNat (chr '0') ++
            toDecimal d)) = d := by
          rw [← decimal_toDecimal d]
          exact (decimal_zeros_append 1 _).trans
            ((decimal_zeros_append _ _).trans (by rw [decimal_toDecimal]))
        rw [hdec]
        congr 2
        omega
  · obtain ⟨l, htext, hvalue⟩ := value_fraction (some (exponentOf e)) (hne 0) (hzero 0)
      (htake _) (hdrop 1)
    refine ⟨l, ?_, ?_⟩
    · rw [htext, putDigits, if_neg hfixed, ← text_exponentOf, List.append_assoc]
      rfl
    · rw [hvalue, List.take_append_drop, decimal_toDecimal, List.length_drop, hlen,
        Option.elim_some, value_exponentOf]
      rfl

theorem nearestEven_mem {y : ℚ} {a b : ℤ} (hlo : (a : ℚ) ≤ y) (hhi : y < b) :
    a ≤ nearestEven y ∧ nearestEven y ≤ b := by
  have hfloor : a ≤ ⌊y⌋ := Int.le_floor.mpr hlo
  have hlt : ⌊y⌋ < b := Int.floor_lt.mpr hhi
  unfold nearestEven
  split
  · omega
  · split <;> omega

/-- The digits are as many as asked for. -/
theorem significant_bounds {a : ℚ} (ha : 0 < a) :
    10 ^ p ≤ (significant (p + 1) a).1 ∧ (significant (p + 1) a).1 < 10 ^ (p + 1) := by
  have hten : (10 : ℚ) ≠ 0 := by norm_num
  have hlo : ((10 : ℕ) : ℚ) ^ Int.log 10 a ≤ a := Int.zpow_log_le_self (by norm_num) ha
  have hhi : a < ((10 : ℕ) : ℚ) ^ (Int.log 10 a + 1) := Int.lt_zpow_succ_log_self (by norm_num) a
  push_cast at hlo hhi
  have hpos : (0 : ℚ) < 10 ^ (Int.log 10 a + 1 - (p + 1 : ℕ)) := zpow_pos (by norm_num) _
  have hmem := nearestEven_mem (y := a / 10 ^ (Int.log 10 a + 1 - (p + 1 : ℕ)))
    (a := 10 ^ p) (b := 10 ^ (p + 1))
    (by
      rw [le_div_iff₀ hpos]
      push_cast
      rw [← zpow_natCast, ← zpow_add₀ hten]
      refine le_of_eq_of_le ?_ hlo
      congr 1
      omega)
    (by
      rw [div_lt_iff₀ hpos]
      push_cast
      rw [← zpow_natCast, ← zpow_add₀ hten]
      refine lt_of_lt_of_eq hhi ?_
      congr 1
      push_cast
      omega)
  have hpow : (10 : Nat) ^ p < 10 ^ (p + 1) := Nat.pow_lt_pow_right (by norm_num) p.lt_succ_self
  simp only [significant]
  split
  · exact ⟨le_rfl, hpow⟩
  · rename_i hne
    obtain ⟨h₁, h₂⟩ := hmem
    generalize nearestEven (a / 10 ^ (Int.log 10 a + 1 - (p + 1 : ℕ))) = n at hne h₁ h₂
    have hn : (n.toNat : ℤ) = n := Int.toNat_of_nonneg (le_trans (by positivity) h₁)
    constructor
    · exact_mod_cast hn ▸ h₁
    · refine lt_of_le_of_ne ?_ hne
      exact_mod_cast hn ▸ h₂

/-- The literal `0`. -/
def zeroLiteral : Literal :=
  ⟨[chr '0'], [], none, List.cons_ne_nil _ _, fun _ => rfl, isdigit_zero,
    fun _ h => absurd h List.not_mem_nil⟩

theorem value_zeroLiteral : zeroLiteral.value = 0 := by
  have hdec : decimal (zeroLiteral.int ++ zeroLiteral.frac) = 0 := rfl
  rw [Literal.value, hdec, Nat.cast_zero, zero_mul]

/-- What is written of a rational is a literal: the number to the precision of the text. -/
theorem exists_literal_putRational (p : Nat) (x : ℚ) :
    ∃ l : Literal, putRational (p + 1) x = signText (decide (x < 0)) ++ l.text ∧
      toPrecision (p + 1) x = (if decide (x < 0) then -1 else 1) * l.value := by
  by_cases hx : x = 0
  · refine ⟨zeroLiteral, ?_, ?_⟩
    · rw [putRational, if_pos hx, hx]
      rfl
    · rw [toPrecision, if_pos hx, value_zeroLiteral, mul_zero]
  · obtain ⟨hlo, hhi⟩ := significant_bounds (p := p) (abs_pos.mpr hx)
    obtain ⟨l, htext, hvalue⟩ := exists_literal (e := (significant (p + 1) |x|).2) hlo hhi
    refine ⟨l, ?_, ?_⟩
    · rw [putRational, if_neg hx, htext, signText]
      simp only [decide_eq_true_eq]
    · rw [toPrecision, if_neg hx, hvalue]
      simp only [decide_eq_true_eq]
      congr 3
      push_cast
      ring

/-- Of an integer with no more digits than that, these and zeros. -/
theorem significant_natCast {a : Nat} (ha : 0 < a) (h : a < 10 ^ (p + 1)) :
    significant (p + 1) (a : ℚ) = (a * 10 ^ (p - Nat.log 10 a), (Nat.log 10 a : ℤ)) := by
  have hle : Nat.log 10 a ≤ p := Nat.lt_succ_iff.mp (Nat.log_lt_of_lt_pow ha.ne' h)
  have hexp : (Nat.log 10 a : ℤ) + 1 - (p + 1 : ℕ) = -((p - Nat.log 10 a : ℕ) : ℤ) := by omega
  -- the exponent is less than the precision, so the quotient is an integer
  have hquot : (a : ℚ) / 10 ^ ((Nat.log 10 a : ℤ) + 1 - (p + 1 : ℕ)) =
      ((a * 10 ^ (p - Nat.log 10 a) : ℕ) : ℤ) := by
    rw [hexp, zpow_neg, zpow_natCast, div_inv_eq_mul]
    push_cast
    rfl
  have hsmall : a * 10 ^ (p - Nat.log 10 a) ≠ 10 ^ (p + 1) := by
    have hpow : 10 ^ (Nat.log 10 a + 1) * 10 ^ (p - Nat.log 10 a) = 10 ^ (p + 1) := by
      rw [← pow_add]
      congr 1
      omega
    refine (lt_of_lt_of_eq ?_ hpow).ne
    exact Nat.mul_lt_mul_of_pos_right (Nat.lt_pow_succ_log_self (by norm_num) _) (by positivity)
  rw [significant, Int.log_natCast, hquot, Lib.Rounding.nearestEven_intCast, Int.toNat_natCast]
  exact if_neg hsmall

/-- An integer of so many digits is written in full. -/
theorem toPrecision_intCast {n : ℤ} (h : |n| < 10 ^ (p + 1)) : toPrecision (p + 1) n = n := by
  by_cases hn : n = 0
  · simp [toPrecision, hn]
  · have hne : (n : ℚ) ≠ 0 := by exact_mod_cast hn
    have habs : |(n : ℚ)| = (n.natAbs : ℚ) := by
      rw [← Int.cast_abs, Int.abs_eq_natAbs, Int.cast_natCast]
    have hlt : n.natAbs < 10 ^ (p + 1) := by
      rw [Int.abs_eq_natAbs] at h
      exact_mod_cast h
    have hle : Nat.log 10 n.natAbs ≤ p :=
      Nat.lt_succ_iff.mp (Nat.log_lt_of_lt_pow (Int.natAbs_pos.mpr hn).ne' hlt)
    have hvalue : ((n.natAbs * 10 ^ (p - Nat.log 10 n.natAbs) : ℕ) : ℚ) *
        10 ^ ((Nat.log 10 n.natAbs : ℤ) + 1 - (p + 1 : ℕ)) = |(n : ℚ)| := by
      have hexp : (Nat.log 10 n.natAbs : ℤ) + 1 - (p + 1 : ℕ) =
          -((p - Nat.log 10 n.natAbs : ℕ) : ℤ) := by omega
      rw [hexp, zpow_neg, zpow_natCast, habs, Nat.cast_mul, Nat.cast_pow, Nat.cast_ofNat]
      field_simp
    rw [toPrecision, if_neg hne, habs, significant_natCast (Int.natAbs_pos.mpr hn) hlt]
    dsimp only
    rw [hvalue]
    by_cases hneg : (n : ℚ) < 0
    · rw [if_pos hneg, abs_of_neg hneg]
      ring
    · rw [if_neg hneg, abs_of_nonneg (not_lt.mp hneg), one_mul]

theorem longDouble_intCast {n : ℤ} (h : |n| < 2 ^ 64) : longDouble n = n := by
  by_cases hn : n = 0
  · have hzero : nearestEven (0 : ℚ) = 0 := Lib.Rounding.nearestEven_intCast 0
    have hmin : |(0 : ℚ)| < LDBL_MIN := by
      rw [abs_zero, LDBL_MIN]
      positivity
    rw [hn, Int.cast_zero, longDouble, if_pos hmin, zero_div, hzero, Int.cast_zero, zero_mul]
  · have hle : LDBL_MIN ≤ |(n : ℚ)| := by
      have hone : (1 : ℚ) ≤ |(n : ℚ)| := by exact_mod_cast Int.one_le_abs hn
      have hmin : LDBL_MIN ≤ 1 := by
        rw [LDBL_MIN, div_le_one (by positivity)]
        exact one_le_pow₀ (by norm_num)
      exact hmin.trans hone
    rw [longDouble, if_neg (not_lt.mpr hle), Lib.Rounding.round_intCast h]

theorem longDouble_zero : longDouble 0 = 0 := by
  simpa using longDouble_intCast (n := 0) (by norm_num)

/-- An integer, as it is written. -/
theorem toLongDouble_natCast (neg : Bool) {n : Nat} (h : n < 2 ^ 64) :
    toLongDouble neg n = some (.signed neg ((if neg then -1 else 1) * n)) := by
  have hcast : ((if neg then -1 else 1) * (n : ℚ)) = ((if neg then -1 else 1) * n : ℤ) := by
    cases neg <;> simp
  have habs : |((if neg then -1 else 1) * n : ℤ)| < 2 ^ 64 := by
    cases neg <;> simp <;> exact_mod_cast h
  have hlt : |(((if neg then -1 else 1) * n : ℤ) : ℚ)| < LDBL_LIMIT := by
    have hle : (2 : ℚ) ^ 64 ≤ LDBL_LIMIT := pow_le_pow_right₀ (by norm_num) (by norm_num)
    refine lt_of_lt_of_le ?_ hle
    exact_mod_cast habs
  rw [toLongDouble, hcast, longDouble_intCast habs, if_pos hlt]

/-! ### What is read back -/

/-- Written with `p` digits the number is still a `long double`. -/
def InRange (p : Nat) (n : LongDouble) : Prop :=
  |longDouble (toPrecision (max p 1) n.value)| < LDBL_LIMIT

/-- What is read of it then. A zero keeps its sign, and so does a number that becomes zero. -/
def LongDouble.rounded (p : Nat) : LongDouble → LongDouble
  | .rat x => .signed (decide (x < 0)) (longDouble (toPrecision (max p 1) x))
  | .negZero => .negZero

/-- What `num_put` writes is a literal that is read as the number to the precision of the text. -/
theorem exists_literal_numPut {p : Nat} {n : LongDouble} (h : InRange p n) :
    ∃ (neg : Bool) (l : Literal), numPut p n = signText neg ++ l.text ∧
      toLongDouble neg l.value = some (n.rounded p) := by
  cases n with
  | rat x =>
      obtain ⟨q, hq⟩ : ∃ q, max p 1 = q + 1 := ⟨max p 1 - 1, by omega⟩
      obtain ⟨l, htext, hvalue⟩ := exists_literal_putRational q x
      rw [← hq] at htext hvalue
      rw [InRange, LongDouble.value] at h
      refine ⟨decide (x < 0), l, htext, ?_⟩
      rw [toLongDouble, ← hvalue]
      exact if_pos h
  | negZero =>
      have hlimit : |(0 : ℚ)| < LDBL_LIMIT := by
        rw [abs_zero, LDBL_LIMIT]
        positivity
      refine ⟨true, zeroLiteral, rfl, ?_⟩
      rw [value_zeroLiteral, toLongDouble, mul_zero, longDouble_zero]
      exact if_pos hlimit

/-! ### Sizes -/

theorem significant_exp_le (p : Nat) (a : ℚ) : (significant p a).2 ≤ Int.log 10 a + 1 := by
  simp only [significant]
  split
  · exact le_rfl
  · exact Int.le_add_one le_rfl

/-- What is written is of the size of the number. -/
theorem abs_toPrecision_le (p : Nat) (x : ℚ) : |toPrecision (p + 1) x| ≤ 100 * |x| := by
  by_cases hx : x = 0
  · simp [toPrecision, hx]
  · have hten : (10 : ℚ) ≠ 0 := by norm_num
    have hlog : ((10 : ℕ) : ℚ) ^ Int.log 10 |x| ≤ |x| :=
      Int.zpow_log_le_self (by norm_num) (abs_pos.mpr hx)
    have hdigits : ((significant (p + 1) |x|).1 : ℚ) ≤ 10 ^ ((p + 1 : ℕ) : ℤ) := by
      rw [zpow_natCast]
      exact_mod_cast (significant_bounds (p := p) (abs_pos.mpr hx)).2.le
    have hexp := significant_exp_le (p + 1) |x|
    generalize hsig : significant (p + 1) |x| = sig at hdigits hexp
    obtain ⟨d, e⟩ := sig
    have hsign : |(if x < 0 then (-1 : ℚ) else 1)| = 1 := by split <;> simp
    have hscale : (0 : ℚ) ≤ 10 ^ (e + 1 - (p + 1 : ℕ)) := zpow_nonneg (by norm_num) _
    push_cast at hlog
    rw [toPrecision, if_neg hx, hsig]
    dsimp only at hdigits hexp ⊢
    calc |(if x < 0 then (-1 : ℚ) else 1) * (d * 10 ^ (e + 1 - (p + 1 : ℕ)))|
        = d * 10 ^ (e + 1 - (p + 1 : ℕ)) := by
          rw [abs_mul, hsign, one_mul, abs_of_nonneg (mul_nonneg (Nat.cast_nonneg d) hscale)]
      _ ≤ 10 ^ ((p + 1 : ℕ) : ℤ) * 10 ^ (e + 1 - (p + 1 : ℕ)) := by gcongr
      _ = 10 ^ (e + 1) := by rw [← zpow_add₀ hten]; congr 1; ring
      _ ≤ 10 ^ (Int.log 10 |x| + 2) := zpow_le_zpow_right₀ (by norm_num) (by omega)
      _ = 100 * 10 ^ Int.log 10 |x| := by rw [zpow_add₀ hten]; ring
      _ ≤ 100 * |x| := by gcongr

/-- To the nearest multiple of `u`. -/
theorem abs_nearestEven_mul_sub_le {u : ℚ} (hu : 0 < u) (x : ℚ) :
    |nearestEven (x / u) * u - x| ≤ 1 / 2 * u := by
  have hnear := Lib.Rounding.abs_nearestEven_sub_le (x / u)
  have hfactor : nearestEven (x / u) * u - x = (nearestEven (x / u) - x / u) * u := by
    rw [sub_mul, div_mul_cancel₀ x hu.ne']
  rw [hfactor, abs_mul, abs_of_pos hu]
  gcongr

theorem abs_longDouble_le (x : ℚ) : |longDouble x| ≤ 2 * |x| + 1 := by
  rw [longDouble]
  split
  · have hpos : (0 : ℚ) < LDBL_TRUE_MIN := by
      rw [LDBL_TRUE_MIN]
      positivity
    have hle : LDBL_TRUE_MIN ≤ 1 := by
      rw [LDBL_TRUE_MIN, div_le_one (by positivity)]
      exact one_le_pow₀ (by norm_num)
    have hsub := abs_nearestEven_mul_sub_le hpos x
    have htri := abs_sub_abs_le_abs_sub (nearestEven (x / LDBL_TRUE_MIN) * LDBL_TRUE_MIN) x
    have hx := abs_nonneg x
    linarith
  · have herr := Lib.Rounding.abs_round_sub_le 64 x
    have hsmall : |x| / 2 ^ 64 ≤ |x| := div_le_self (abs_nonneg x) (one_le_pow₀ (by norm_num))
    have htri := abs_sub_abs_le_abs_sub (round 64 x) x
    have hx := abs_nonneg x
    linarith

theorem inRange_of_abs_le {n : LongDouble} (h : |n.value| ≤ 2 ^ 64) : InRange p n := by
  obtain ⟨q, hq⟩ : ∃ q, max p 1 = q + 1 := ⟨max p 1 - 1, by omega⟩
  have hsize : |longDouble (toPrecision (q + 1) n.value)| ≤ 2 ^ 80 := by
    have hle := abs_longDouble_le (toPrecision (q + 1) n.value)
    have hle' := abs_toPrecision_le q n.value
    norm_num at h ⊢
    linarith
  rw [InRange, hq]
  exact hsize.trans_lt (pow_lt_pow_right₀ (by norm_num) (by norm_num))

end Write

end Dummyload
