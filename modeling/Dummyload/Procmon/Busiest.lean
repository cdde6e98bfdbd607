import Dummyload.Lib.Machine
import Dummyload.Load.Percent
import Dummyload.Procmon.ProcessTable
import Dummyload.Procmon.Replies

/-!
# Dummyload.Procmon.Busiest

What a client gets on `/proc`. After any scans every process in the table has a finite CPU rate and
numbers that are `int`s, so the reply is JSON; it is read as the busiest processes that
match the query, at most twenty of them and the busiest first, however `std::sort`
arranges those that are equally busy (`proc_shows_busiest`).
-/

namespace Dummyload.Procmon

open Load (Double)
open Json (Value Proper Writable parseDocument)
open Lib.Sorting (Sorter Sorts)
open Lib.Machine (run)

/-! ### What a scan enters -/

/-- The values of an `int`. -/
def IsInt (n : Int) : Prop := -2 ^ 31 ≤ n ∧ n < 2 ^ 31

theorem IsInt.abs_cast_le {n : Int} (h : IsInt n) : |(n : ℚ)| ≤ 2 ^ 31 := by
  have habs : |n| ≤ 2 ^ 31 := abs_le.mpr ⟨h.1, h.2.le⟩
  exact_mod_cast habs

/-- A row of the table as the scans leave it. -/
structure MinProcessData.Valid (m : MinProcessData) : Prop where
  pid : IsInt m.pid
  threads : IsInt m.threads
  mem : IsInt m.mem
  cpu : ∃ q : ℚ, m.cpu = some q ∧ |q| ≤ 2 ^ 64

/-- What the undefined results are is unknown, but they are `int`s. -/
structure Undefined.Ints (u : Undefined) : Prop where
  cpuTime : IsInt u.cpuTime
  busy : IsInt u.busy

theorem sscanfNumber_isInt {p : Option Bytes} {n k : Int} (hn : IsInt n)
    (h : sscanfNumber p n = some k) : IsInt k := by
  obtain ⟨s, -, h⟩ := Option.bind_eq_some_iff.mp h
  obtain ⟨rest, -, h⟩ := Option.bind_eq_some_iff.mp h
  obtain rfl := Option.some.inj h
  cases hscan : Load.scanInt rest with
  | none => exact hn
  | some out =>
      obtain ⟨-, hout⟩ := Option.ite_none_right_eq_some.mp hscan
      obtain rfl := Option.some.inj hout
      exact atoi_range _

theorem isInt_zero : IsInt 0 := by
  constructor <;> norm_num

theorem Status.parse_isInt {getpwuid : Getpwuid} {tmp : Bytes} {st : Status}
    (h : Status.parse getpwuid tmp = some st) :
    IsInt st.pid ∧ IsInt st.threads ∧ IsInt st.vmRSS := by
  obtain ⟨pid, hpid, h⟩ := Option.bind_eq_some_iff.mp h
  obtain ⟨uid, huid, h⟩ := Option.bind_eq_some_iff.mp h
  obtain ⟨user, -, h⟩ := Option.bind_eq_some_iff.mp h
  obtain ⟨command, -, h⟩ := Option.bind_eq_some_iff.mp h
  obtain ⟨threads, hthreads, h⟩ := Option.bind_eq_some_iff.mp h
  have hpid' := sscanfNumber_isInt isInt_zero hpid
  have hthreads' := sscanfNumber_isInt (sscanfNumber_isInt hpid' huid) hthreads
  dsimp only at h
  split at h
  · obtain rfl := Option.some.inj h
    exact ⟨hpid', hthreads', isInt_zero⟩
  · obtain ⟨vmRSS, hvmRSS, h⟩ := Option.bind_eq_some_iff.mp h
    obtain rfl := Option.some.inj h
    exact ⟨hpid', hthreads', sscanfNumber_isInt hthreads' hvmRSS⟩

theorem getD_int_isInt {x undef : Int} (h : IsInt undef) : IsInt ((Load.int x).getD undef) := by
  rw [Load.int]
  split
  · rename_i hx
    refine ⟨hx.1, ?_⟩
    have hhi := hx.2
    rw [Load.INT_MAX] at hhi
    rw [Option.getD_some]
    omega
  · exact h

/-- The rate is finite, since the time is at least 1. -/
theorem exists_cpuRate {busy cpuTime : Int} (hbusy : IsInt busy) (hcpuTime : IsInt cpuTime) :
    ∃ q : ℚ, (Double.ofInt busy).div (Double.ofInt (max 1 cpuTime)) = some q ∧ |q| ≤ 2 ^ 64 := by
  have hround : ∀ {n : Int}, IsInt n → Lib.Rounding.round 53 n = n := fun {n} hn =>
    Lib.Rounding.round_intCast (abs_lt.mpr ⟨by have := hn.1; omega, by have := hn.2; omega⟩)
  have htime : IsInt (max 1 cpuTime) := ⟨by have := hcpuTime.1; omega, by have := hcpuTime.2; omega⟩
  have hone : (1 : ℚ) ≤ (max 1 cpuTime : Int) := by exact_mod_cast le_max_left 1 cpuTime
  generalize max 1 cpuTime = time at htime hone ⊢
  have hne : (time : ℚ) ≠ 0 := (lt_of_lt_of_le one_pos hone).ne'
  refine ⟨Lib.Rounding.round 53 (busy / time), ?_, ?_⟩
  · rw [Double.ofInt, Double.ofInt, hround hbusy, hround htime, Double.div, if_neg hne]
  · have hquot : |(busy : ℚ) / time| ≤ 2 ^ 31 := by
      rw [abs_div, abs_of_pos (lt_of_lt_of_le one_pos hone)]
      exact (div_le_self (abs_nonneg _) hone).trans hbusy.abs_cast_le
    have herr := Lib.Rounding.abs_round_sub_le 53 ((busy : ℚ) / time)
    have hsmall : |(busy : ℚ) / time| / 2 ^ 53 ≤ |(busy : ℚ) / time| :=
      div_le_self (abs_nonneg _) (one_le_pow₀ (by norm_num))
    have htri := abs_sub_abs_le_abs_sub (Lib.Rounding.round 53 ((busy : ℚ) / time)) (busy / time)
    norm_num at hquot ⊢
    linarith

namespace SystemInfo

/-- All rows are valid. -/
def ValidTable (s : SystemInfo) : Prop :=
  ∀ (pid : Int) (m : MinProcessData), s.minProcessData_[pid]? = some m → m.Valid

theorem validTable_record {s : SystemInfo} {dp : Dirent} {st : Status} (h : s.ValidTable)
    (hst : IsInt st.pid ∧ IsInt st.threads ∧ IsInt st.vmRSS) (hu : dp.undefined.Ints) :
    (s.record dp st).ValidTable := by
  intro pid m hm
  obtain ⟨hpid, hthreads, hvmRSS⟩ := hst
  have hzero : ∃ q : ℚ, (some 0 : Double) = some q ∧ |q| ≤ 2 ^ 64 := ⟨0, rfl, by norm_num⟩
  cases hps : s.process_[st.pid]? with
  | none =>
      simp only [record, hps, Std.ExtTreeMap.getElem?_insertIfNew] at hm
      split at hm
      · obtain rfl := Option.some.inj hm
        exact ⟨hpid, hthreads, isInt_zero, hzero⟩
      · exact h pid m hm
  | some ps =>
      simp only [record, hps, Std.ExtTreeMap.getElem?_insert] at hm
      split at hm
      · obtain rfl := Option.some.inj hm
        -- the row that was there, or a fresh one
        have hrow : (s.minProcessData_[st.pid]?.getD {}).Valid := by
          cases hmin : s.minProcessData_[st.pid]? with
          | none => exact ⟨isInt_zero, isInt_zero, isInt_zero, hzero⟩
          | some row => exact h st.pid row hmin
        exact ⟨hrow.pid, hrow.threads, hvmRSS,
          exists_cpuRate (getD_int_isInt hu.busy) (getD_int_isInt hu.cpuTime)⟩
      · exact h pid m hm

theorem validTable_loop {getpwuid : Getpwuid} {pn tn : Int} {s s' : SystemInfo} {dps : List Dirent}
    (h : s.ValidTable) (hu : ∀ dp ∈ dps, dp.undefined.Ints)
    (hloop : loop getpwuid pn tn s dps = some s') : s'.ValidTable := by
  induction dps generalizing s pn tn with
  | nil =>
      obtain rfl := Option.some.inj hloop
      exact h
  | cons dp dps ih =>
      obtain ⟨hdp, hdps⟩ := List.forall_mem_cons.mp hu
      rw [loop] at hloop
      split at hloop
      · split at hloop
        · obtain rfl := Option.some.inj hloop
          exact h
        · obtain ⟨st, hst, hloop⟩ := Option.bind_eq_some_iff.mp hloop
          dsimp only at hloop
          split at hloop
          · obtain rfl := Option.some.inj hloop
            exact h
          · exact ih (validTable_record h (Status.parse_isInt hst) hdp) hdps hloop
      · exact ih h hdps hloop

/-- After any scans the rows are valid. -/
theorem validTable_run {getpwuid : Getpwuid} {scans : List (List Dirent)} {s : SystemInfo}
    (hu : ∀ dirp ∈ scans, ∀ dp ∈ dirp, dp.undefined.Ints)
    (hrun : run (updateProcess getpwuid) {} scans = some s) : s.ValidTable := by
  have hempty : ({} : SystemInfo).ValidTable := by
    intro pid m hm
    simp at hm
  refine Lib.Machine.invariant_of_meets (fun s dirp t h hdirp hscan => ?_) hempty
    (Lib.Machine.meets_of_forall (P := fun dirp : List Dirent =>
      ∀ dp ∈ dirp, dp.undefined.Ints) hu) hrun
  exact validTable_loop h (fun dp hdp => hdirp dp (List.mem_of_mem_drop hdp)) hscan

end SystemInfo

/-! ### The objects of the reply -/

namespace MinProcessData

variable {m : MinProcessData}

/-- The members of a process, in the order of their keys, with this rate. -/
def members (m : MinProcessData) (cpu : LongDouble) : Json.Object :=
  [(ascii "command", .string m.command), (ascii "cpu", .number cpu),
    (ascii "mem", .number (.rat m.mem)), (ascii "pid", .number (.rat m.pid)),
    (ascii "threads", .number (.rat m.threads)), (ascii "user", .string m.user)]

/-- What the server writes. -/
def row (m : MinProcessData) : Value := .object (m.members (.rat (m.cpu.getD 0)))

/-- What the client reads: the rate to 19 digits. -/
def shown (m : MinProcessData) : Value :=
  .object (m.members ((LongDouble.rat (m.cpu.getD 0)).rounded 19))

theorem toObject_eq (h : m.Valid) : m.toObject = some m.row := by
  obtain ⟨q, hq, -⟩ := h.cpu
  rw [toObject, row, hq]
  rfl

theorem keys_members (m : MinProcessData) (cpu : LongDouble) : (m.members cpu).map Prod.fst =
    [ascii "command", ascii "cpu", ascii "mem", ascii "pid", ascii "threads", ascii "user"] := rfl

theorem proper_row (m : MinProcessData) : Proper m.row := by
  refine .object ?_ fun kv hkv => ?_
  · rw [Json.Object.Sorted, keys_members]
    decide +kernel
  · simp only [members, List.mem_cons, List.not_mem_nil, or_false] at hkv
    rcases hkv with rfl | rfl | rfl | rfl | rfl | rfl
    · exact .string _
    · exact .number _
    · exact .number _
    · exact .number _
    · exact .number _
    · exact .string _

theorem inRange_int {n : Int} (h : IsInt n) : InRange 19 (.rat n) :=
  inRange_of_abs_le (n := .rat n) (h.abs_cast_le.trans (by norm_num))

theorem writable_row (h : m.Valid) : Writable m.row := by
  obtain ⟨q, hq, hle⟩ := h.cpu
  rw [row, hq, Option.getD_some]
  have hkeys : ∀ key ∈ (m.members (.rat q)).map Prod.fst, key ≠ [] := by
    rw [keys_members]
    decide +kernel
  refine .object (fun kv hkv => hkeys kv.1 (List.mem_map_of_mem hkv)) fun kv hkv => ?_
  simp only [members, List.mem_cons, List.not_mem_nil, or_false] at hkv
  rcases hkv with rfl | rfl | rfl | rfl | rfl | rfl
  · exact .string trivial
  · exact .number (inRange_of_abs_le hle)
  · exact .number (inRange_int h.mem)
  · exact .number (inRange_int h.pid)
  · exact .number (inRange_int h.threads)
  · exact .string trivial

theorem rounded_int {n : Int} (h : IsInt n) : (LongDouble.rat n).rounded 19 = .rat n := by
  refine Json.rounded_of_intCast (n := .rat n) rfl (abs_lt.mpr ⟨?_, ?_⟩)
  · have := h.1
    omega
  · have := h.2
    omega

theorem rounded_row (h : m.Valid) : m.row.rounded 19 = m.shown := by
  have hmem := rounded_int h.mem
  have hpid := rounded_int h.pid
  have hthreads := rounded_int h.threads
  simp only [row, members, shown, Value.rounded, Json.roundedMembers, hmem, hpid, hthreads]

end MinProcessData

/-! ### The reply -/

section Reply

variable {s : SystemInfo} {query : Bytes} {ms : List MinProcessData}

theorem valid_of_mem_matching (h : s.ValidTable) {m : MinProcessData}
    (hm : m ∈ matching s query) : m.Valid := by
  obtain ⟨⟨pid, m'⟩, hmem, rfl⟩ := List.mem_map.mp hm
  exact h pid m' (Std.ExtTreeMap.mem_toList_iff_getElem?_eq_some.mp (List.mem_filter.mp hmem).1)

theorem mapM_toObject (h : ∀ m ∈ ms, m.Valid) :
    ms.mapM MinProcessData.toObject = some (ms.map MinProcessData.row) := by
  induction ms with
  | nil => rfl
  | cons m ms ih =>
      obtain ⟨hm, hms⟩ := List.forall_mem_cons.mp h
      rw [List.mapM_cons, MinProcessData.toObject_eq hm, ih hms]
      rfl

theorem roundedElements_rows (h : ∀ m ∈ ms, m.Valid) :
    Json.roundedElements 19 (ms.map MinProcessData.row) = ms.map MinProcessData.shown := by
  induction ms with
  | nil => rfl
  | cons m ms ih =>
      obtain ⟨hm, hms⟩ := List.forall_mem_cons.mp h
      rw [List.map_cons, List.map_cons, Json.roundedElements, MinProcessData.rounded_row hm, ih hms]

/-- The body is read as the rows that were written. -/
theorem parseDocument_rows (h : ∀ m ∈ ms, m.Valid) :
    parseDocument (Json.Array.json (ms.map MinProcessData.row)) =
      some (some (.array (ms.map MinProcessData.shown))) := by
  have hproper : Proper (.array (ms.map MinProcessData.row)) := by
    refine .array fun v hv => ?_
    obtain ⟨m, -, rfl⟩ := List.mem_map.mp hv
    exact m.proper_row
  have hwritable : Writable (.array (ms.map MinProcessData.row)) := by
    refine .array fun v hv => ?_
    obtain ⟨m, hm, rfl⟩ := List.mem_map.mp hv
    exact MinProcessData.writable_row (h m hm)
  have hread := Json.parseDocument_json_append hproper hwritable trivial []
  rw [List.append_nil, Value.rounded, roundedElements_rows h] at hread
  exact hread

end Reply

/-- **The busiest processes.** On `/proc`, after any scans, the client reads at most twenty rows,
all of them if there are no more: these are rows that match the query, the busiest first, and
none that is left out is busier than one that is shown. -/
theorem proc_shows_busiest (sorter : Sorter MinProcessData) (undef : Int) (html : Bytes)
    (getpwuid : Getpwuid) (scans : List (List Dirent)) (s : SystemInfo) (host : HostInfo)
    (req : HttpRequest) (resp : HttpResponse)
    (hints : ∀ dirp ∈ scans, ∀ dp ∈ dirp, dp.undefined.Ints)
    (hrun : run (SystemInfo.updateProcess getpwuid) {} scans = some s)
    (hpath : req.path = ascii "/proc") :
    ∃ shown rest : List MinProcessData,
      (shown ++ rest).Perm (matching s req.query) ∧
      shown.length = min 20 (matching s req.query).length ∧
      (shown.Pairwise fun p1 p2 => before undef p2 p1 = false) ∧
      (∀ p1 ∈ shown, ∀ p2 ∈ rest, before undef p2 p1 = false) ∧
      ∃ body, onRequest sorter undef html s host req resp = some (ok resp body) ∧
        parseDocument body = some (some (.array (shown.map MinProcessData.shown))) := by
  have hsorts := sorter.sorts (before undef) (matching s req.query) (isStrictWeakOrder_before undef)
  have hvalid := SystemInfo.validTable_run hints hrun
  generalize hsorted : sorter.sort (before undef) (matching s req.query) = sorted at hsorts
  have hrows : ∀ m ∈ sorted.take 20, m.Valid := fun m hm =>
    valid_of_mem_matching hvalid (hsorts.perm.subset (List.mem_of_mem_take hm))
  refine ⟨sorted.take 20, sorted.drop 20, hsorts.take_perm, ?_,
    hsorts.sorted.sublist (List.take_sublist 20 sorted),
    fun p1 hp1 p2 hp2 => hsorts.take_before hp1 hp2, _, ?_, parseDocument_rows hrows⟩
  · rw [List.length_take, hsorts.perm.length_eq]
  · have hslash : ¬ req.path = ascii "/" := by rw [hpath]; decide
    have hbody : procBody sorter undef s req.query = some (Json.Array.json
        ((sorted.take 20).map MinProcessData.row)) := by
      rw [procBody, hsorted, mapM_toObject hrows]
      rfl
    rw [onRequest, if_neg hslash, if_pos hpath, hbody]
    rfl

/-- The request for the processes of `root`. -/
def rootRequest : HttpRequest where
  method := .kGet
  path := ascii "/proc"
  query := ascii "?root"
  version := .kHttp11

theorem proc_shows_busiest_exampleScans :
    ∃ (s : SystemInfo) (shown : List MinProcessData) (body : Bytes),
      run (SystemInfo.updateProcess examplePasswd) {} exampleScans = some s ∧
      shown.length = min 20 (matching s (ascii "?root")).length ∧
      onRequest (.merge MinProcessData) 0 [] s {} rootRequest { closeConnection := false } =
        some (ok { closeConnection := false } body) ∧
      parseDocument body = some (some (.array (shown.map MinProcessData.shown))) := by
  have hsome : (run (SystemInfo.updateProcess examplePasswd) {} exampleScans).isSome = true := by
    decide +kernel
  obtain ⟨s, hs⟩ := Option.isSome_iff_exists.mp hsome
  have hzero : ({} : Undefined).Ints := { cpuTime := isInt_zero, busy := isInt_zero }
  have hints : ∀ dirp ∈ exampleScans, ∀ dp ∈ dirp, dp.undefined.Ints := by
    simp [exampleScans, exampleDot, exampleDirent, hzero]
  obtain ⟨shown, rest, -, hlen, -, -, body, hreply, hread⟩ := proc_shows_busiest
    (.merge MinProcessData) 0 [] examplePasswd exampleScans s {} rootRequest
    { closeConnection := false } hints hs rfl
  exact ⟨s, shown, body, hs, hlen, hreply, hread⟩

end Dummyload.Procmon
