import Dummyload.Json.Documents
import Dummyload.Lib.Sorting
import Dummyload.Http.HttpServer
import Dummyload.Procmon.SystemInfo

/-!
# Dummyload.Procmon.Replies

`Procmon::onRequest` (`examples/procmon/main.cpp`) and what it needs of `SystemInfo`: the memory and
CPU rates of the host, which `updateMem` and `updateCpu` take every two seconds.

`/proc` replies with at most twenty processes, those that match the query and use the CPU
most; `/pid` and `/host` with the newest rates. `std::sort` is any function that
sorts. A rate that is a NaN or an infinity is no JSON number: `none`, like the failed
assertions, and the read beyond an empty query on `/pid`. A rate that is zero is taken
without its sign; those of processes have none, their divisor being positive.
-/

namespace Dummyload.Procmon

open Load (Double INT_MAX INT_MIN)
open Json (Value)
open Lib.Sorting (Sorter Sorts)

/-! ### The host -/

/-- The newest rates, the newest first: `push_front`, then `pop_back` from 512 on. -/
structure Window where
  values : List Double
  length_le : values.length ≤ 511

namespace Window

def empty : Window := ⟨[], Nat.zero_le _⟩

def push (w : Window) (rate : Double) : Window where
  values :=
    if (rate :: w.values).length ≥ 512 then (rate :: w.values).dropLast else rate :: w.values
  length_le := by
    have hle := w.length_le
    split
    · rw [List.length_dropLast, List.length_cons]
      omega
    · omega

theorem values_push (w : Window) (rate : Double) :
    (w.push rate).values = (rate :: w.values).take 511 := by
  have hle := w.length_le
  simp only [push]
  split
  · rename_i hfull
    rw [List.length_cons] at hfull
    rw [List.dropLast_eq_take, List.length_cons]
    congr 1
    omega
  · rename_i hroom
    exact (List.take_of_length_le (by omega)).symm

end Window

/-- `x - y`. -/
def sub (x y : Double) : Double := x.bind fun x => y.map fun y => Lib.Rounding.round 53 (x - y)

/-- The fields of `SystemInfo` that are not of processes, and the static variables of
`updateCpu`. -/
structure HostInfo where
  memTotal_ : Int := 0
  memFree_ : Int := 0
  memCached_ : Int := 0
  memSwapCached_ : Int := 0
  memRate_ : Window := .empty
  systemRate_ : Double := some 0
  userRate_ : Double := some 0
  idleRate_ : Double := some 0
  cpuRate_ : Window := .empty
  lastSysTime : Int := 0
  lastUserTime : Int := 0
  lastIdleTime : Int := 0
  lastCpuTime : Int := 0

namespace HostInfo

/-- `updateMem()`, where `tmp` is what `readFile("/proc/meminfo")` returned. -/
def updateMem (s : HostInfo) (tmp : Bytes) : Option HostInfo :=
  if tmp = [] then some s
  else do
    let memTotal ← sscanfNumber (strstr tmp (ascii "MemTotal:")) s.memTotal_
    let memFree ← sscanfNumber (strstr tmp (ascii "MemFree:")) s.memFree_
    let buffers ← sscanfNumber (strstr tmp (ascii "Buffers:")) s.memSwapCached_
    let cached ← sscanfNumber (strstr tmp (ascii "Cached:")) s.memCached_
    let memCached ← Load.int (cached + buffers)
    let swapCached ← sscanfNumber (strstr tmp (ascii "SwapCached:")) buffers
    let used ← Load.int (memTotal - memFree)
    some { s with
      memTotal_ := memTotal
      memFree_ := memFree
      memCached_ := memCached
      memSwapCached_ := swapCached
      memRate_ := s.memRate_.push ((Double.ofInt used).div (Double.ofInt memTotal)) }

/-- `updateCpu()`, where `tmp` is what `readFile("/proc/stat")` returned. -/
def updateCpu (s : HostInfo) (tmp : Bytes) : Option HostInfo :=
  if tmp = [] then some s
  else do
    let c ← Load.sscanf tmp
    let currCpuTime ← c.sum
    let sys ← Load.int (c.system - s.lastSysTime)
    let user ← Load.int (c.user - s.lastUserTime)
    let idle ← Load.int (c.idle - s.lastIdleTime)
    let all ← Load.int (currCpuTime - s.lastCpuTime)
    let idleRate := (Double.ofInt idle).div (Double.ofInt all)
    some { s with
      systemRate_ := (Double.ofInt sys).div (Double.ofInt all)
      userRate_ := (Double.ofInt user).div (Double.ofInt all)
      idleRate_ := idleRate
      cpuRate_ := s.cpuRate_.push (sub (some 1) idleRate)
      lastSysTime := c.system
      lastUserTime := c.user
      lastIdleTime := c.idle
      lastCpuTime := currCpuTime }

variable {s t : HostInfo} {tmp : Bytes}

/-- The share of the memory that is in use. -/
def memUsage (s : HostInfo) : Double :=
  (Double.ofInt (s.memTotal_ - s.memFree_)).div (Double.ofInt s.memTotal_)

/-- Nothing else changes, and the new rate comes first among the newest. -/
theorem updateMem_keeps (h : s.updateMem tmp = some t) :
    { t with
      memTotal_ := s.memTotal_, memFree_ := s.memFree_, memCached_ := s.memCached_,
      memSwapCached_ := s.memSwapCached_, memRate_ := s.memRate_ } = s ∧
    t.memRate_.values =
      if tmp = [] then s.memRate_.values else (t.memUsage :: s.memRate_.values).take 511 := by
  rw [updateMem] at h
  split at h
  · rename_i htmp
    obtain rfl := Option.some.inj h
    exact ⟨rfl, (if_pos htmp).symm⟩
  · rename_i htmp
    simp only [Option.bind_eq_bind, Option.bind_eq_some_iff] at h
    obtain ⟨memTotal, -, memFree, -, buffers, -, cached, -, memCached, -, swapCached, -, used,
      hused, h⟩ := h
    obtain rfl := Option.some.inj h
    obtain ⟨-, hused⟩ := Option.ite_none_right_eq_some.mp hused
    obtain rfl := Option.some.inj hused
    rw [if_neg htmp]
    exact ⟨rfl, Window.values_push _ _⟩

/-- The same for the CPU; the times are kept for the next difference. -/
theorem updateCpu_keeps (h : s.updateCpu tmp = some t) :
    { t with
      systemRate_ := s.systemRate_, userRate_ := s.userRate_, idleRate_ := s.idleRate_,
      cpuRate_ := s.cpuRate_, lastSysTime := s.lastSysTime, lastUserTime := s.lastUserTime,
      lastIdleTime := s.lastIdleTime, lastCpuTime := s.lastCpuTime } = s ∧
    t.cpuRate_.values =
      if tmp = [] then s.cpuRate_.values
      else (sub (some 1) t.idleRate_ :: s.cpuRate_.values).take 511 := by
  rw [updateCpu] at h
  split at h
  · rename_i htmp
    obtain rfl := Option.some.inj h
    exact ⟨rfl, (if_pos htmp).symm⟩
  · rename_i htmp
    simp only [Option.bind_eq_bind, Option.bind_eq_some_iff] at h
    obtain ⟨c, -, currCpuTime, -, sys, -, user, -, idle, -, all, -, h⟩ := h
    obtain rfl := Option.some.inj h
    rw [if_neg htmp]
    exact ⟨rfl, Window.values_push _ _⟩

end HostInfo

/-! ### The replies -/

/-- `strstr(haystack.c_str(), needle.c_str()) != NULL`. -/
def occurs (haystack needle : Bytes) : Bool :=
  decide (needle.takeWhile (· ≠ 0) <:+: haystack.takeWhile (· ≠ 0))

/-- Is the process shown for this query? -/
def selects (query : Bytes) (pid : Int) (m : MinProcessData) : Bool :=
  if query = [] ∨ query = ascii "?all" then true
  else
    let pidUserCommand := query.drop 1
    pid = atoi pidUserCommand || occurs m.command pidUserCommand || occurs m.user pidUserCommand

/-- The order of `std::sort`; `undef` is what the conversion of a rate gives that does not fit. -/
def before (undef : Int) (p1 p2 : MinProcessData) : Bool :=
  let c1 := Double.toInt undef (p1.cpu.map fun cpu => Lib.Rounding.round 53 (cpu * 10000))
  let c2 := Double.toInt undef (p2.cpu.map fun cpu => Lib.Rounding.round 53 (cpu * 10000))
  let m1 := p1.mem
  let m2 := p2.mem
  c1 > c2 || c1 = c2 && m1 > m2

/-- A `double` as a value. -/
def number (x : Double) : Option Value := x.map fun x => .number (.rat x)

/-- The object of a process. -/
def MinProcessData.toObject (m : MinProcessData) : Option Value := do
  let cpu ← number m.cpu
  let o ← [.string (ascii "pid"), .number (.rat m.pid), .string (ascii "user"), .string m.user,
    .string (ascii "command"), .string m.command, .string (ascii "threads"),
    .number (.rat m.threads), .string (ascii "mem"), .number (.rat m.mem), .string (ascii "cpu"),
    cpu].foldlM Json.Object.shift ([], [])
  some (.object o.1)

/-- The processes that match the query, in the order of the map. -/
def matching (s : SystemInfo) (query : Bytes) : List MinProcessData :=
  (s.minProcessData_.toList.filter fun m => selects query m.1 m.2).map Prod.snd

/-- The body for `/proc`. -/
def procBody (sorter : Sorter MinProcessData) (undef : Int) (s : SystemInfo) (query : Bytes) :
    Option Bytes := do
  let process := sorter.sort (before undef) (matching s query)
  let a ← (process.take 20).mapM MinProcessData.toObject
  some (Json.Array.json a)

/-- The body for `/pid` and `/host`. -/
def usageBody (host : HostInfo) (cpu mem : List Double) : Option Bytes := do
  let a ← (sub (some 1) host.idleRate_ :: cpu).mapM number
  let b ← (some (host.memTotal_ : ℚ) :: mem).mapM number
  let o ← [.string (ascii "cpu"), .array a, .string (ascii "mem"), .array b].foldlM
    Json.Object.shift ([], [])
  some (Json.Object.json o.1)

/-- `k200Ok`, and this body. -/
def ok (resp : HttpResponse) (body : Bytes) : HttpResponse :=
  { resp with
    statusCode := .k200Ok
    statusMessage := ascii "OK"
    headers := resp.headers.insert (ascii "Content-Type") (ascii "text/html")
    body := body }

/-- `onRequest(req, resp)`, where `html` is what `readHtmlFile("phone.html")` returns. -/
def onRequest (sorter : Sorter MinProcessData) (undef : Int) (html : Bytes) (s : SystemInfo)
    (host : HostInfo) (req : HttpRequest) (resp : HttpResponse) : Option HttpResponse :=
  if req.path = ascii "/" then some (ok resp html)
  else if req.path = ascii "/proc" then (procBody sorter undef s req.query).map (ok resp)
  else if req.path = ascii "/pid" then
    -- `c_str() + 1`
    if req.query = [] then none
    else
      let pid := atoi (req.query.drop 1)
      let it := s.process_[pid]?
      let cpu := it.elim [] fun ps => ps.cpu_.values
      let mem := it.elim [] fun ps => ps.mem_.values.map fun m => some (m : ℚ)
      (usageBody host cpu mem).map (ok resp)
  else if req.path = ascii "/host" then
    (usageBody host host.cpuRate_.values host.memRate_.values).map (ok resp)
  else
    some { resp with
      statusCode := .k404NotFound
      statusMessage := ascii "Not Found"
      closeConnection := true }

/-! ### The order -/

section Order

variable {undef : Int} {p1 p2 : MinProcessData}

/-- Both parts of the order, the greater first. -/
def rank (undef : Int) (m : MinProcessData) : (ℤ ×ₗ ℤ)ᵒᵈ :=
  OrderDual.toDual (toLex
    (Double.toInt undef (m.cpu.map fun cpu => Lib.Rounding.round 53 (cpu * 10000)), m.mem))

theorem before_eq_rank (undef : Int) :
    before undef = fun p1 p2 => decide (rank undef p1 < rank undef p2) := by
  funext p1 p2
  rw [before, Bool.eq_iff_iff]
  simp only [gt_iff_lt, Bool.or_eq_true, decide_eq_true_eq, Bool.and_eq_true, rank,
    OrderDual.toDual_lt_toDual, Prod.Lex.toLex_lt_toLex]
  constructor
  · rintro (h | ⟨h, h'⟩)
    · exact Or.inl h
    · exact Or.inr ⟨h.symm, h'⟩
  · rintro (h | ⟨h, h'⟩)
    · exact Or.inl h
    · exact Or.inr ⟨h.symm, h'⟩

/-- The comparison is one that `std::sort` can sort by. -/
theorem isStrictWeakOrder_before (undef : Int) :
    IsStrictWeakOrder MinProcessData fun p1 p2 => before undef p1 p2 = true := by
  rw [before_eq_rank]
  exact Lib.Sorting.isStrictWeakOrder_of_key (rank undef)

end Order

end Dummyload.Procmon
