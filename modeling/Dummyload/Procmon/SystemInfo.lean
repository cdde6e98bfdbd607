import Dummyload.Lib.Lines
import Dummyload.Load.CpuTime

/-!
# Dummyload.Procmon.SystemInfo

`SystemInfo::updateProcess` (`examples/procmon/SystemInfo.cpp`): one scan of `/proc`, which
enters the processes it finds into two maps and counts them. `main` shows the smaller
one on `/proc` and calls the function every two seconds.

`none` is a crash: a field that the code reads is missing, does not fit into its buffer,
or names a user that the user database does not have. What the code makes of integers
that are undefined is part of the input, since it only goes into the CPU rates. The
counts of processes and threads fit in an `int`.
-/

namespace Dummyload.Procmon

open Load (Double int scanWord scanInt)

/-! ### Reading a status file -/

/-- `strstr(tmp.c_str(), needle)`: the text from there on, or `NULL`. -/
def strstr (tmp needle : Bytes) : Option Bytes :=
  let s := tmp.takeWhile (· ≠ 0)
  let i := Lib.Lines.search needle s
  if i = s.length then none else some (s.drop i)

/-- `sscanf(p, "%s%d", buf, &n)`. A number that is not there leaves `n` as it was. -/
def sscanfNumber (p : Option Bytes) (n : Int) : Option Int := do
  let rest ← scanWord (← p)
  some ((scanInt rest).elim n Prod.fst)

/-- `sscanf(p, "%s%s", buf, name)`. -/
def sscanfName (p : Option Bytes) : Option Bytes := do
  let rest ← scanWord (← p)
  let _ ← scanWord rest
  some ((rest.dropWhile isspace).takeWhile (!isspace ·))

/-- What the code takes from a status file. -/
structure Status where
  pid : Int
  user : Bytes
  command : Bytes
  threads : Int
  vmRSS : Int
  deriving DecidableEq

/-- The user database: `getpwuid(uid)->pw_name`. -/
abbrev Getpwuid := Int → Option Bytes

/-- The five fields. They share the variable `n`. -/
def Status.parse (getpwuid : Getpwuid) (tmp : Bytes) : Option Status := do
  let n ← sscanfNumber (strstr tmp (ascii "Pid:")) 0
  let pid := n
  let n ← sscanfNumber (strstr tmp (ascii "Uid:")) n
  let user ← getpwuid n
  let command ← sscanfName (strstr tmp (ascii "Name:"))
  let n ← sscanfNumber (strstr tmp (ascii "Threads:")) n
  let threads := n
  let p := strstr tmp (ascii "VmRSS:")
  let n ← if p = none then some 0 else sscanfNumber p n
  some ⟨pid, user, command, threads, n⟩

/-! ### Reading a stat file -/

/-- What an `istringstream` has left; `none` after an extraction that failed. -/
abbrev IStringStream := Option Bytes

namespace IStringStream

/-- `iss >> x` for an integer of a type with these bounds. At the end of the text, and
after a failure, `x` stays as it was. -/
def int (lo hi : Int) (x : Int) : IStringStream → Int × IStringStream
  | none => (x, none)
  | some s =>
    let s := s.dropWhile isspace
    if s = [] then (x, none)
    else
      let neg := s.head? = some (chr '-')
      let ds := if neg ∨ s.head? = some (chr '+') then s.tail else s
      let v : Int := decimal (ds.takeWhile isdigit)
      let v := if neg then -v else v
      if ds.takeWhile isdigit = [] then (0, none)
      else if v < lo then (lo, none)
      else if v > hi then (hi, none)
      else (v, some (ds.dropWhile isdigit))

/-- `iss >> cmd`. -/
def word : IStringStream → IStringStream
  | none => none
  | some s =>
    let s := s.dropWhile isspace
    if s = [] then none else some (s.dropWhile (!isspace ·))

/-- `iss >> state`. -/
def char : IStringStream → IStringStream
  | none => none
  | some s =>
    let s := s.dropWhile isspace
    if s = [] then none else some s.tail

/-- So many integers, which nobody reads. -/
def skip (lo hi : Int) : Nat → IStringStream → IStringStream
  | 0, iss => iss
  | n + 1, iss => skip lo hi n (iss.int lo hi 0).2

end IStringStream

/-- The two numbers that are used of it. -/
structure StatData where
  utime : Int
  stime : Int
  deriving DecidableEq

/-- `data.parse(procPidStat)`. -/
def StatData.parse (data : StatData) (procPidStat : Bytes) : StatData :=
  let iss : IStringStream := some procPidStat
  let iss := iss.skip Load.INT_MIN Load.INT_MAX 1
  let iss := iss.word.char
  -- `ppid`, `pgrp`, `session`, `tty_nr`, `tpgid`, `flags`
  let iss := iss.skip Load.INT_MIN Load.INT_MAX 6
  -- `minflt`, `cminflt`, `majflt`, `cmajflt`
  let iss := iss.skip LONG_MIN LONG_MAX 4
  let (utime, iss) := iss.int LONG_MIN LONG_MAX data.utime
  let (stime, _) := iss.int LONG_MIN LONG_MAX data.stime
  ⟨utime, stime⟩

/-- `getCpuTime()` of this program, where `tmp` is what `readFile("/proc/stat")` returned. -/
def getCpuTime (tmp : Bytes) : Option Int :=
  if tmp = [] then some 0 else (Load.sscanf tmp).bind Load.Stat.sum

/-! ### The maps -/

/-- The last 512 values, the newest first. -/
structure History (α : Type) where
  values : List α
  length_le : values.length ≤ 512

namespace History

variable {α : Type}

def empty : History α := ⟨[], Nat.zero_le _⟩

/-- `push_front`, then `pop_back` if there are more than 512. -/
def push (h : History α) (x : α) : History α where
  values := if (x :: h.values).length > 512 then (x :: h.values).dropLast else x :: h.values
  length_le := by
    have hle := h.length_le
    split
    · rw [List.length_dropLast, List.length_cons]
      omega
    · omega

end History

structure Process where
  pid : Int
  user : Bytes
  command : Bytes
  threads : Int
  mem_ : History Int := .empty
  cpu_ : History Double := .empty
  lastUtime_ : Int := 0
  lastStime_ : Int := 0
  lastCtime_ : Int := 0

def Process.pushMemory (ps : Process) (mem : Int) : Process := { ps with mem_ := ps.mem_.push mem }

def Process.pushCpuRate (ps : Process) (rate : Double) : Process :=
  { ps with cpu_ := ps.cpu_.push rate }

structure MinProcessData where
  pid : Int := 0
  user : Bytes := []
  command : Bytes := []
  threads : Int := 0
  mem : Int := 0
  cpu : Double := some 0

/-- The part of `SystemInfo` that `updateProcess` reads and writes. -/
structure SystemInfo where
  processNum_ : Int := 0
  threadsNum_ : Int := 0
  process_ : Std.ExtTreeMap Int Process := ∅
  minProcessData_ : Std.ExtTreeMap Int MinProcessData := ∅

/-! ### A scan -/

/-- What undefined integers happen to be in a round of the loop: `data` before it is
parsed, `getCpuTime()`, a difference and a sum that overflow. -/
structure Undefined where
  data : StatData := ⟨0, 0⟩
  ctime : Int := 0
  cpuTime : Int := 0
  busy : Int := 0

/-- An entry of `/proc`, and what `readFile` returns in its round of the loop. A file that
is gone reads empty. -/
structure Dirent where
  dName : Bytes
  status : Bytes := []
  stat : Bytes := []
  cpuStat : Bytes := []
  undefined : Undefined := {}

/-- `isdigit(dp->d_name[0])`. -/
def Dirent.isProcess (dp : Dirent) : Bool := dp.dName.head?.any isdigit

namespace SystemInfo

/-- What is done with a process both of whose files could be read. -/
def record (s : SystemInfo) (dp : Dirent) (st : Status) : SystemInfo :=
  let data := dp.undefined.data.parse dp.stat
  let ctime := (getCpuTime dp.cpuStat).getD dp.undefined.ctime
  match s.process_[st.pid]? with
  | none =>
    let ps : Process := {
      pid := st.pid
      user := st.user
      command := st.command
      threads := st.threads
      lastUtime_ := toInt data.utime
      lastStime_ := toInt data.stime
      lastCtime_ := ctime }
    let minps : MinProcessData := {
      pid := st.pid
      user := st.user
      command := st.command
      threads := st.threads
      mem := 0
      cpu := some 0 }
    { s with
      process_ := s.process_.insert st.pid ((ps.pushMemory 0).pushCpuRate (some 0))
      minProcessData_ := s.minProcessData_.insertIfNew st.pid minps }
  | some ps =>
    let userTime := max 0 (toInt (data.utime - ps.lastUtime_))
    let sysTime := max 0 (toInt (data.stime - ps.lastStime_))
    let cpuTime := max 1 ((int (ctime - ps.lastCtime_)).getD dp.undefined.cpuTime)
    let busy := (int (userTime + sysTime)).getD dp.undefined.busy
    let cpuRate := (Double.ofInt busy).div (Double.ofInt cpuTime)
    -- `user`, `command` and `threads` stay those of the first scan that saw the pid.
    { s with
      process_ := s.process_.insert st.pid
        { (ps.pushMemory st.vmRSS).pushCpuRate cpuRate with
          lastUtime_ := toInt data.utime
          lastStime_ := toInt data.stime
          lastCtime_ := ctime }
      minProcessData_ := s.minProcessData_.insert st.pid
        { s.minProcessData_[st.pid]?.getD {} with mem := st.vmRSS, cpu := cpuRate } }

/-- The loop over the directory, from the counts `processNum` and `threadsNum`. -/
def loop (getpwuid : Getpwuid) (processNum threadsNum : Int) :
    SystemInfo → List Dirent → Option SystemInfo
  | s, [] => some { s with processNum_ := processNum, threadsNum_ := threadsNum }
  | s, dp :: dps =>
    if dp.isProcess then
      -- `closedir(dirp); return;`
      if dp.status = [] then some s
      else do
        let st ← Status.parse getpwuid dp.status
        let processNum := processNum + 1
        let threadsNum := threadsNum + st.threads
        if dp.stat = [] then some s
        else loop getpwuid processNum threadsNum (s.record dp st) dps
    else loop getpwuid processNum threadsNum s dps

/-- `updateProcess()`. The entry that the `readdir` before the loop returns is not looked at. -/
def updateProcess (getpwuid : Getpwuid) (s : SystemInfo) (dirp : List Dirent) :
    Option SystemInfo :=
  loop getpwuid 0 0 s (dirp.drop 1)

end SystemInfo

end Dummyload.Procmon
