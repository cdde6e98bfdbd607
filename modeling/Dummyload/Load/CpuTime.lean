import Dummyload.CString
import Dummyload.Lib.Rounding

/-!
# Dummyload.Load.CpuTime

`getCpuTime` (`examples/dummyload/dummyload.cpp`), which `fixed` calls once in each
round: the share of time that was not idle since the call before, from the first
line of `/proc/stat`.

An `int` operation that overflows is undefined, and so is the call: `none`. The
quotient is computed in `double`, which has 53 significant bits; what the conversion
to `int` makes of a NaN or an infinity (no time has passed) is a parameter.
-/

namespace Dummyload.Load

/-! ### Reading `/proc/stat` -/

/-- The counters of the line `cpu`. -/
structure Stat where
  user : Int
  nice : Int
  system : Int
  idle : Int
  iowait : Int
  irq : Int
  softirq : Int
  stealstolen : Int
  guest : Int
  deriving DecidableEq

/-- `%s` into `char buf[64]`: what stands behind the word. -/
def scanWord (s : Bytes) : Option Bytes :=
  let s := s.dropWhile isspace
  let word := s.takeWhile (!isspace ·)
  if word ≠ [] ∧ word.length < 64 then some (s.drop word.length) else none

/-- `%d`: the number, and what stands behind it. -/
def scanInt (s : Bytes) : Option (Int × Bytes) :=
  let s := s.dropWhile isspace
  let ds := if s.head? = some (chr '-') ∨ s.head? = some (chr '+') then s.tail else s
  if ds.takeWhile isdigit ≠ [] then some (atoi s, ds.dropWhile isdigit) else none

/-- `sscanf(tmp.c_str(), "%s%d%d%d%d%d%d%d%d%d", ...)`. A conversion that fails leaves
variables uninitialised: `none`. -/
def sscanf (tmp : Bytes) : Option Stat := do
  let s ← scanWord (tmp.takeWhile (· ≠ 0))
  let (user, s) ← scanInt s
  let (nice, s) ← scanInt s
  let (system, s) ← scanInt s
  let (idle, s) ← scanInt s
  let (iowait, s) ← scanInt s
  let (irq, s) ← scanInt s
  let (softirq, s) ← scanInt s
  let (stealstolen, s) ← scanInt s
  let (guest, _) ← scanInt s
  some ⟨user, nice, system, idle, iowait, irq, softirq, stealstolen, guest⟩

/-! ### Arithmetic -/

def INT_MAX : Int := 2 ^ 31 - 1
def INT_MIN : Int := -2 ^ 31

/-- The value of an operation on `int`s, if it is one. -/
def int (x : Int) : Option Int := if INT_MIN ≤ x ∧ x ≤ INT_MAX then some x else none

/-- A `double`; `none` is a NaN or an infinity. -/
abbrev Double := Option ℚ

/-- `(double) n`. -/
def Double.ofInt (n : Int) : Double := some (Lib.Rounding.round 53 n)

/-- `x / y`. -/
def Double.div : Double → Double → Double
  | some x, some y => if y = 0 then none else some (Lib.Rounding.round 53 (x / y))
  | _, _ => none

/-- Conversion to `int`. Where it is undefined it gives `undef`. -/
def Double.toInt (undef : Int) (x : Double) : Int :=
  match x with
  | some x => (int (Lib.Rounding.trunc x)).getD undef
  | none => undef

/-- `user + nice + system + idle + iowait + irq + softirq + stealstolen + guest`. -/
def Stat.sum (c : Stat) : Option Int :=
  [c.nice, c.system, c.idle, c.iowait, c.irq, c.softirq, c.stealstolen, c.guest].foldlM
    (fun x y => int (x + y)) c.user

/-! ### `getCpuTime` -/

/-- The static variables. `currIdleTime` and `currCpuTime` are static too, but each
call assigns them before it reads them. -/
structure CpuTime where
  lastIdleTime : Int := 0
  lastCpuTime : Int := 0
  deriving DecidableEq

/-- `getCpuTime()`, where `tmp` is what `readFile("/proc/stat")` returned. -/
def getCpuTime (undef : Int) (s : CpuTime) (tmp : Bytes) : Option (Int × CpuTime) :=
  if tmp = [] then some (100, s)
  else do
    let c ← sscanf tmp
    let currIdleTime := c.idle
    let currCpuTime ← c.sum
    let i ← int (currIdleTime - s.lastIdleTime)
    let a ← int (currCpuTime - s.lastCpuTime)
    let busy ← int (a - i)
    -- The factor 100 is applied before the cast to `double`.
    let scaled ← int (busy * 100)
    let t := Double.toInt undef ((Double.ofInt scaled).div (Double.ofInt a))
    some (if t < 0 then 0 else if t > 100 then 100 else t, ⟨currIdleTime, currCpuTime⟩)

/-- Successive calls. -/
def getCpuTimes (undef : Int) : CpuTime → List Bytes → Option (List Int)
  | _, [] => some []
  | s, tmp :: tmps => do
    let (t, s) ← getCpuTime undef s tmp
    let ts ← getCpuTimes undef s tmps
    some (t :: ts)

/-! ### Readings -/

namespace Stat

/-- The counters, in the order of the line. -/
def counters (c : Stat) : List Int :=
  [c.user, c.nice, c.system, c.idle, c.iowait, c.irq, c.softirq, c.stealstolen, c.guest]

def total (c : Stat) : Int := c.counters.sum

/-- The counters are not negative, and their sum fits in an `int`. -/
structure Valid (c : Stat) : Prop where
  nonneg : ∀ x ∈ c.counters, 0 ≤ x
  fits : c.total ≤ INT_MAX

/-- No counter has decreased. -/
instance : LE Stat := ⟨fun c d => List.Forall₂ (· ≤ ·) c.counters d.counters⟩

theorem le_def {c d : Stat} : c ≤ d ↔ List.Forall₂ (· ≤ ·) c.counters d.counters := Iff.rfl

/-- What the first call compares with. -/
def zero : Stat := ⟨0, 0, 0, 0, 0, 0, 0, 0, 0⟩

end Stat

/-- The time that passed between two readings. -/
def dTotal (prev cur : Stat) : Int := cur.total - prev.total

/-- The idle part of it. -/
def dIdle (prev cur : Stat) : Int := cur.idle - prev.idle

/-- The readings, each with the one before. -/
def steps (stats : List Stat) : List (Stat × Stat) := (Stat.zero :: stats).zip stats

/-- `t` is the busy percentage between the two readings, if any time has passed. -/
def IsBusyPercentage (step : Stat × Stat) (t : Int) : Prop :=
  0 < dTotal step.1 step.2 →
    t = 100 * (dTotal step.1 step.2 - dIdle step.1 step.2) / dTotal step.1 step.2 ∧
      0 ≤ t ∧ t ≤ 100

/-- All calls return, without overflow, and each with the busy percentage. -/
def Measures (undef : Int) (texts : List Bytes) (stats : List Stat) : Prop :=
  ∃ ts, getCpuTimes undef {} texts = some ts ∧ List.Forall₂ IsBusyPercentage (steps stats) ts

/-! ### Operations that do not overflow -/

theorem int_of_mem {x : Int} (hlo : INT_MIN ≤ x) (hhi : x ≤ INT_MAX) : int x = some x :=
  if_pos ⟨hlo, hhi⟩

theorem int_of_gt {x : Int} (h : INT_MAX < x) : int x = none :=
  if_neg fun hmem => absurd hmem.2 (not_le.mpr h)

/-- No partial sum overflows where the addends are not negative and the sum fits. -/
theorem foldlM_add {xs : List Int} {x : Int} (hx : 0 ≤ x) (hxs : ∀ y ∈ xs, 0 ≤ y)
    (hsum : x + xs.sum ≤ INT_MAX) :
    xs.foldlM (fun x y => int (x + y)) x = some (x + xs.sum) := by
  induction xs generalizing x with
  | nil => simp
  | cons y xs ih =>
      obtain ⟨hy, hxs⟩ := List.forall_mem_cons.mp hxs
      have hrest : 0 ≤ xs.sum := List.sum_nonneg hxs
      rw [List.sum_cons] at hsum
      have hint : int (x + y) = some (x + y) := by
        refine int_of_mem ?_ (by omega)
        unfold INT_MIN
        omega
      rw [List.foldlM_cons, hint, Option.bind_eq_bind, Option.bind_some,
        ih (by omega) hxs (by omega), List.sum_cons, add_assoc]

namespace Stat

variable {c prev cur : Stat}

theorem Valid.sum_eq (h : c.Valid) : c.sum = some c.total := by
  obtain ⟨huser, hrest⟩ := List.forall_mem_cons.mp h.nonneg
  have htotal : c.total = c.user +
      [c.nice, c.system, c.idle, c.iowait, c.irq, c.softirq, c.stealstolen, c.guest].sum :=
    List.sum_cons
  have hfits := h.fits
  rw [htotal] at hfits
  rw [sum, foldlM_add huser hrest hfits, htotal]

theorem Valid.zero : Valid zero where
  nonneg := by decide
  fits := by decide

/-- Nothing has decreased from zero. -/
theorem Valid.zero_le (h : c.Valid) : Stat.zero ≤ c := by
  have hnonneg := h.nonneg
  rw [le_def]
  simpa [counters, Stat.zero] using hnonneg

/-- The idle time is part of the time. -/
theorem dIdle_mem (h : prev ≤ cur) : 0 ≤ dIdle prev cur ∧ dIdle prev cur ≤ dTotal prev cur := by
  rw [le_def] at h
  simp only [counters, List.forall₂_cons] at h
  obtain ⟨h₁, h₂, h₃, h₄, h₅, h₆, h₇, h₈, h₉, -⟩ := h
  simp only [dIdle, dTotal, total, counters, List.sum_cons, List.sum_nil]
  omega

/-- No more time passes between two readings than an `int` can hold. -/
theorem Valid.dTotal_le (hprev : prev.Valid) (hcur : cur.Valid) : dTotal prev cur ≤ INT_MAX := by
  have hnonneg : 0 ≤ prev.total := List.sum_nonneg hprev.nonneg
  have hfits := hcur.fits
  rw [dTotal]
  omega

end Stat

/-! ### The line is read back -/

/-- A file that shows these counters on its first line. -/
def procStat (c : Stat) (rest : Bytes) : Bytes :=
  ascii "cpu " ++ c.counters.flatMap (fun x => 32 :: toDecimal x.toNat) ++ 10 :: rest

theorem scanInt_toDecimal {x : Int} (hx : 0 ≤ x) (hfits : x ≤ INT_MAX) {c : Byte}
    (hc : isdigit c = false) (s : Bytes) :
    scanInt (32 :: (toDecimal x.toNat ++ c :: s)) = some (x, c :: s) := by
  have hdigits : ∀ d ∈ toDecimal x.toNat, isdigit d = true := fun d => isdigit_of_mem_toDecimal
  have hne := toDecimal_ne_nil x.toNat
  have htake : (toDecimal x.toNat ++ c :: s).takeWhile isdigit = toDecimal x.toNat := by
    rw [List.takeWhile_append_of_pos hdigits, List.takeWhile_cons_of_neg (by simp [hc]),
      List.append_nil]
  have hdrop : (toDecimal x.toNat ++ c :: s).dropWhile isdigit = c :: s := by
    rw [List.dropWhile_append_of_pos hdigits, List.dropWhile_cons_of_neg (by simp [hc])]
  have hatoi : atoi (toDecimal x.toNat ++ c :: s) = x := by
    unfold INT_MAX at hfits
    rw [atoi_digits_append hne hdigits hc, atoi_toDecimal (by omega), Int.toNat_of_nonneg hx]
  obtain ⟨d, ds, hcons⟩ := List.exists_cons_of_ne_nil hne
  have hd : isdigit d = true := hdigits d (by rw [hcons]; exact List.mem_cons_self)
  have hspace : (32 :: (toDecimal x.toNat ++ c :: s)).dropWhile isspace =
      toDecimal x.toNat ++ c :: s := by
    rw [List.dropWhile_cons_of_pos (by decide), hcons, List.cons_append,
      List.dropWhile_cons_of_neg (by simp [isspace_of_isdigit hd])]
  have hsign : ¬ ((toDecimal x.toNat ++ c :: s).head? = some (chr '-') ∨
      (toDecimal x.toNat ++ c :: s).head? = some (chr '+')) := by
    rw [hcons, List.cons_append, List.head?_cons, Option.some_inj, Option.some_inj]
    rintro (rfl | rfl)
    · exact absurd hd (by decide)
    · exact absurd hd (by decide)
  rw [scanInt, hspace, if_neg hsign, htake, if_pos hne, hdrop, hatoi]

theorem scanInt_space (s : Bytes) : scanInt (32 :: s) = scanInt s := by
  rw [scanInt, scanInt, List.dropWhile_cons_of_pos (by decide)]

/-- The line has no NUL. -/
theorem takeWhile_procStat (c : Stat) (rest : Bytes) :
    (procStat c rest).takeWhile (· ≠ 0) = procStat c (rest.takeWhile (· ≠ 0)) := by
  have hcpu : ∀ d ∈ ascii "cpu ", decide (d ≠ 0) = true := by decide +kernel
  have hfields : ∀ d ∈ c.counters.flatMap (fun x => 32 :: toDecimal x.toNat),
      decide (d ≠ 0) = true := by
    intro d hd
    obtain ⟨x, -, hx⟩ := List.mem_flatMap.mp hd
    rcases List.mem_cons.mp hx with rfl | hdigit
    · decide
    · have := isdigit_of_mem_toDecimal hdigit
      rw [decide_eq_true_eq]
      rintro rfl
      exact absurd this (by decide)
  rw [procStat, List.append_assoc, List.takeWhile_append_of_pos hcpu,
    List.takeWhile_append_of_pos hfields, List.takeWhile_cons_of_pos (by decide), procStat,
    List.append_assoc]

/-- `sscanf` finds the counters on the first line. -/
theorem sscanf_procStat {c : Stat} (h : c.Valid) (rest : Bytes) :
    sscanf (procStat c rest) = some c := by
  have hle : ∀ x ∈ c.counters, x ≤ INT_MAX := fun x hx =>
    (List.single_le_sum h.nonneg x hx).trans h.fits
  have hread : ∀ x ∈ c.counters, ∀ (d : Byte) (s : Bytes), isdigit d = false →
      scanInt (32 :: (toDecimal x.toNat ++ d :: s)) = some (x, d :: s) := fun x hx d s hd =>
    scanInt_toDecimal (h.nonneg x hx) (hle x hx) hd s
  have hspace : isdigit 32 = false := by decide
  have hnewline : isdigit 10 = false := by decide
  obtain ⟨user, nice, system, idle, iowait, irq, softirq, stealstolen, guest⟩ := c
  simp only [Stat.counters, List.forall_mem_cons] at hread
  obtain ⟨h₁, h₂, h₃, h₄, h₅, h₆, h₇, h₈, h₉, -⟩ := hread
  have hword : ∀ s : Bytes, scanWord (ascii "cpu " ++ s) = some (32 :: s) := fun s => rfl
  rw [sscanf, takeWhile_procStat, procStat, List.append_assoc, hword]
  simp only [Stat.counters, List.flatMap_cons, List.flatMap_nil, List.append_nil, List.cons_append,
    List.append_assoc, Option.bind_eq_bind, Option.bind_some, scanInt_space, h₁ _ _ hspace,
    h₂ _ _ hspace, h₃ _ _ hspace, h₄ _ _ hspace, h₅ _ _ hspace, h₆ _ _ hspace, h₇ _ _ hspace,
    h₈ _ _ hspace, h₉ _ _ hnewline]

/-! ### The division -/

/-- `int`s are exact in `double`. -/
theorem Double.ofInt_eq {n : Int} (hlo : INT_MIN ≤ n) (hhi : n ≤ INT_MAX) :
    Double.ofInt n = some (n : ℚ) := by
  have hbits : |n| < 2 ^ 53 := by
    unfold INT_MIN at hlo
    unfold INT_MAX at hhi
    rw [abs_lt]
    omega
  rw [Double.ofInt, Lib.Rounding.round_intCast hbits]

/-- Dividing in `double` and converting the quotient is integer division. -/
theorem toInt_div {undef n a : Int} (hn : 0 ≤ n) (hn' : n ≤ INT_MAX) (ha : 0 < a)
    (ha' : a ≤ INT_MAX) :
    Double.toInt undef ((Double.ofInt n).div (Double.ofInt a)) = n / a := by
  have hmin : INT_MIN ≤ 0 := by decide
  have hne : (a : ℚ) ≠ 0 := by exact_mod_cast ha.ne'
  have hbits : n < 2 ^ 53 := by
    unfold INT_MAX at hn'
    omega
  have hfloor := Lib.Rounding.floor_round_div hn hbits ha
  have hquot : 0 ≤ n / a := Int.ediv_nonneg hn ha.le
  have hnonneg : 0 ≤ Lib.Rounding.round 53 ((n : ℚ) / a) := by
    have := Int.floor_le (Lib.Rounding.round 53 ((n : ℚ) / a))
    rw [hfloor] at this
    exact le_trans (by exact_mod_cast hquot) this
  have hle : n / a ≤ INT_MAX := (Int.ediv_le_self a hn).trans hn'
  rw [Double.ofInt_eq (hmin.trans hn) hn', Double.ofInt_eq (hmin.trans ha.le) ha', Double.div,
    if_neg hne]
  dsimp only [Double.toInt]
  rw [Lib.Rounding.trunc_of_nonneg hnonneg, hfloor, int_of_mem (hmin.trans hquot) hle,
    Option.getD_some]

/-! ### One call -/

section Call

variable (undef : Int) {text : Bytes} {prev cur : Stat}
  (hscan : sscanf text = some cur) (hprev : prev.Valid) (hcur : cur.Valid) (hle : prev ≤ cur)
include hscan hprev hcur hle

/-- Only the multiplication by 100 can overflow. -/
theorem getCpuTime_scanned :
    getCpuTime undef ⟨prev.idle, prev.total⟩ text =
      (int ((dTotal prev cur - dIdle prev cur) * 100)).map fun scaled =>
        let t := Double.toInt undef ((Double.ofInt scaled).div (Double.ofInt (dTotal prev cur)))
        (if t < 0 then 0 else if t > 100 then 100 else t, ⟨cur.idle, cur.total⟩) := by
  have hne : text ≠ [] := by
    rintro rfl
    have hnone : sscanf [] = none := by decide
    rw [hnone] at hscan
    exact absurd hscan (by simp)
  have hmin : INT_MIN ≤ 0 := by decide
  obtain ⟨hidle, hbusy⟩ := Stat.dIdle_mem hle
  have htotal := hprev.dTotal_le hcur
  have hi : int (cur.idle - prev.idle) = some (dIdle prev cur) :=
    int_of_mem (hmin.trans hidle) (hbusy.trans htotal)
  have ha : int (cur.total - prev.total) = some (dTotal prev cur) :=
    int_of_mem (hmin.trans (hidle.trans hbusy)) htotal
  have hb : int (dTotal prev cur - dIdle prev cur) = some (dTotal prev cur - dIdle prev cur) :=
    int_of_mem (by omega) (by omega)
  rw [getCpuTime, if_neg hne, hscan]
  simp only [Option.bind_eq_bind, Option.bind_some, hcur.sum_eq, hi, ha, hb]
  rw [Option.map_eq_bind]
  rfl

/-- A call that does not overflow returns the busy percentage. -/
theorem getCpuTime_of_le (hfits : 100 * (dTotal prev cur - dIdle prev cur) ≤ INT_MAX) :
    ∃ t, getCpuTime undef ⟨prev.idle, prev.total⟩ text = some (t, ⟨cur.idle, cur.total⟩) ∧
      IsBusyPercentage (prev, cur) t := by
  have hmin : INT_MIN ≤ 0 := by decide
  obtain ⟨hidle, hbusy⟩ := Stat.dIdle_mem hle
  rw [mul_comm] at hfits
  rw [getCpuTime_scanned undef hscan hprev hcur hle, int_of_mem (by omega) hfits, Option.map_some]
  refine ⟨_, rfl, fun hpos => ?_⟩
  dsimp only at hpos ⊢
  have htotal := hprev.dTotal_le hcur
  have hquot : 0 ≤ 100 * (dTotal prev cur - dIdle prev cur) / dTotal prev cur :=
    Int.ediv_nonneg (by omega) hpos.le
  have hpercent : 100 * (dTotal prev cur - dIdle prev cur) / dTotal prev cur ≤ 100 := by
    refine Int.ediv_le_of_le_mul hpos ?_
    omega
  rw [toInt_div (by omega) hfits hpos htotal, mul_comm, if_neg (not_lt.mpr hquot),
    if_neg (not_lt.mpr hpercent)]
  exact ⟨rfl, hquot, hpercent⟩

/-- The others overflow. -/
theorem getCpuTime_of_gt (hover : INT_MAX < 100 * (dTotal prev cur - dIdle prev cur)) :
    getCpuTime undef ⟨prev.idle, prev.total⟩ text = none := by
  rw [mul_comm] at hover
  rw [getCpuTime_scanned undef hscan hprev hcur hle, int_of_gt hover, Option.map_none]

end Call

/-! ### All calls -/

theorem getCpuTimes_of_some {undef t : Int} {s s' : CpuTime} {tmp : Bytes} {tmps : List Bytes}
    (h : getCpuTime undef s tmp = some (t, s')) :
    getCpuTimes undef s (tmp :: tmps) = (getCpuTimes undef s' tmps).map (t :: ·) := by
  rw [getCpuTimes, h, Option.map_eq_bind]
  rfl

theorem getCpuTimes_of_none {undef : Int} {s : CpuTime} {tmp : Bytes} {tmps : List Bytes}
    (h : getCpuTime undef s tmp = none) : getCpuTimes undef s (tmp :: tmps) = none := by
  rw [getCpuTimes, h]
  rfl

/-- Before the first call the static variables are those of a reading of zeros. -/
theorem fresh_eq : ({} : CpuTime) = ⟨Stat.zero.idle, Stat.zero.total⟩ := by decide

/-- From any earlier reading on. -/
theorem getCpuTimes_iff {undef : Int} {texts : List Bytes} {stats : List Stat} {prev : Stat}
    (hscan : List.Forall₂ (fun text c => sscanf text = some c) texts stats)
    (hprev : prev.Valid) (hvalid : ∀ c ∈ stats, c.Valid) (hmono : (prev :: stats).IsChain (· ≤ ·)) :
    (∃ ts, getCpuTimes undef ⟨prev.idle, prev.total⟩ texts = some ts ∧
        List.Forall₂ IsBusyPercentage ((prev :: stats).zip stats) ts) ↔
      ∀ step ∈ (prev :: stats).zip stats,
        100 * (dTotal step.1 step.2 - dIdle step.1 step.2) ≤ INT_MAX := by
  induction hscan generalizing prev with
  | nil => exact ⟨fun _ _ hstep => absurd hstep List.not_mem_nil, fun _ => ⟨[], rfl, .nil⟩⟩
  | @cons text cur texts stats hcur hscan ih =>
      obtain ⟨hvcur, hvalid⟩ := List.forall_mem_cons.mp hvalid
      obtain ⟨hle, hmono⟩ := List.isChain_cons_cons.mp hmono
      rw [List.zip_cons_cons, List.forall_mem_cons, ← ih hvcur hvalid hmono]
      constructor
      · rintro ⟨ts, hts, hall⟩
        have hfits : 100 * (dTotal prev cur - dIdle prev cur) ≤ INT_MAX := by
          by_contra hover
          have hnone := getCpuTime_of_gt undef hcur hprev hvcur hle (not_le.mp hover)
          rw [getCpuTimes_of_none hnone] at hts
          exact absurd hts (by simp)
        obtain ⟨t, ht, -⟩ := getCpuTime_of_le undef hcur hprev hvcur hle hfits
        refine ⟨hfits, ?_⟩
        rw [getCpuTimes_of_some ht] at hts
        obtain ⟨ts', hts', rfl⟩ := Option.map_eq_some_iff.mp hts
        exact ⟨ts', hts', (List.forall₂_cons.mp hall).2⟩
      · rintro ⟨hfits, ts, hts, hall⟩
        obtain ⟨t, ht, hbusy⟩ := getCpuTime_of_le undef hcur hprev hvcur hle hfits
        exact ⟨t :: ts, by rw [getCpuTimes_of_some ht, hts, Option.map_some], .cons hbusy hall⟩

/-- Calls on valid readings that do not decrease all return the busy percentage iff
the busy time between two of them, times 100, fits in an `int` each time. -/
theorem getCpuTimes_measures_iff {undef : Int} {texts : List Bytes} {stats : List Stat}
    (hscan : List.Forall₂ (fun text c => sscanf text = some c) texts stats)
    (hvalid : ∀ c ∈ stats, c.Valid) (hmono : stats.IsChain (· ≤ ·)) :
    Measures undef texts stats ↔
      ∀ step ∈ steps stats, 100 * (dTotal step.1 step.2 - dIdle step.1 step.2) ≤ INT_MAX := by
  rw [Measures, fresh_eq]
  refine getCpuTimes_iff hscan Stat.Valid.zero hvalid ?_
  cases stats with
  | nil => exact List.isChain_singleton _
  | cons c stats =>
      exact List.isChain_cons_cons.mpr ⟨(hvalid c List.mem_cons_self).zero_le, hmono⟩

/-- A machine of two cores. -/
def idleStat : Stat := ⟨500, 0, 300, 90000, 20, 0, 5, 0, 0⟩

/-- The same after a second in which one of them was busy. -/
def laterStat : Stat := ⟨590, 0, 310, 90100, 20, 0, 5, 0, 0⟩

theorem getCpuTimes_measures_laterStat :
    Measures 0 [procStat idleStat [], procStat laterStat []] [idleStat, laterStat] := by
  have hidle : idleStat.Valid := ⟨by decide, by decide⟩
  have hlater : laterStat.Valid := ⟨by decide, by decide⟩
  have hle : idleStat ≤ laterStat := Stat.le_def.mpr (by decide)
  have hscan : List.Forall₂ (fun text c => sscanf text = some c)
      [procStat idleStat [], procStat laterStat []] [idleStat, laterStat] :=
    .cons (sscanf_procStat hidle []) (.cons (sscanf_procStat hlater []) .nil)
  have hvalid : ∀ c ∈ [idleStat, laterStat], c.Valid :=
    List.forall_mem_cons.mpr ⟨hidle, List.forall_mem_singleton.mpr hlater⟩
  have hmono : [idleStat, laterStat].IsChain (· ≤ ·) :=
    List.isChain_cons_cons.mpr ⟨hle, List.isChain_singleton _⟩
  exact (getCpuTimes_measures_iff hscan hvalid hmono).mpr (by decide)

/-- Almost sixty hours of user time since the machine was started. -/
def busyStat : Stat := ⟨21474837, 0, 0, 0, 0, 0, 0, 0, 0⟩

theorem getCpuTimes_not_always_measures :
    ¬ ∀ (undef : Int) (texts : List Bytes) (stats : List Stat),
      List.Forall₂ (fun text c => sscanf text = some c) texts stats →
        (∀ c ∈ stats, c.Valid) → stats.IsChain (· ≤ ·) → Measures undef texts stats := by
  intro h
  have hvalid : busyStat.Valid := ⟨by decide, by decide⟩
  have hscan := sscanf_procStat hvalid []
  obtain ⟨ts, hts, -⟩ := h 0 [procStat busyStat []] [busyStat] (.cons hscan .nil)
    (List.forall_mem_singleton.mpr hvalid) (List.isChain_singleton _)
  have hover := getCpuTime_of_gt 0 hscan Stat.Valid.zero hvalid hvalid.zero_le (by decide)
  rw [fresh_eq, getCpuTimes_of_none hover] at hts
  exact absurd hts (by simp)

end Dummyload.Load
