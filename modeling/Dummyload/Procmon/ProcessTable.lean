import Dummyload.Lib.FirstWins
import Dummyload.Lib.Machine
import Dummyload.Procmon.SystemInfo

/-!
# Dummyload.Procmon.ProcessTable

Which processes `SystemInfo` shows after a scan. Its maps are tables in which the first
entry of a pid stays (`loop_eq_some`): nothing erases a process that has exited, and the
user, the command and the thread count of a pid are not looked at again. A process that
vanishes while it is read ends the scan, so what is behind it is not entered, and the
totals are those of an earlier scan.

So the maps and totals are those of the current process table exactly in the runs whose
scans find all processes again as they were, and in which no process is new where one
vanishes (`shown_iff_steady`).
-/

namespace Dummyload.Procmon

open Lib.FirstWins (IsTable enter enterAll)
open Lib.Machine (Meets)
open SystemInfo (updateProcess)

/-! ### What should be shown -/

/-- What is shown of a process, apart from its measurements. -/
structure Identity where
  user : Bytes
  command : Bytes
  threads : Int
  deriving DecidableEq

def Status.identity (st : Status) : Identity := ⟨st.user, st.command, st.threads⟩
def Process.identity (ps : Process) : Identity := ⟨ps.user, ps.command, ps.threads⟩
def MinProcessData.identity (minps : MinProcessData) : Identity :=
  ⟨minps.user, minps.command, minps.threads⟩

/-- A pid and what is shown of it. -/
abbrev Row := Int × Identity

/-- The pid that a directory is named after. -/
def Dirent.pid (dp : Dirent) : Int := decimal dp.dName

/-- Both files could be read. -/
def Dirent.readable (dp : Dirent) : Bool := dp.status ≠ [] && dp.stat ≠ []

/-- The process was gone before both of its files were read. -/
def Dirent.vanished (dp : Dirent) : Bool := dp.isProcess && !dp.readable

def Dirent.row (getpwuid : Getpwuid) (dp : Dirent) : Option Row :=
  if dp.isProcess && dp.readable then
    (Status.parse getpwuid dp.status).map fun st => (dp.pid, st.identity)
  else none

/-- The process table as the scan reads it: the processes both of whose files are readable. -/
def rows (getpwuid : Getpwuid) (dirp : List Dirent) : List Row := dirp.filterMap (·.row getpwuid)

namespace SystemInfo

/-- The identities in `process_`. -/
def table (s : SystemInfo) (pid : Int) : Option Identity := s.process_[pid]?.map Process.identity

/-- The identities in `minProcessData_`. -/
def minTable (s : SystemInfo) (pid : Int) : Option Identity :=
  s.minProcessData_[pid]?.map MinProcessData.identity

/-- The keys of both maps are the pids of these rows, each entry has the user, the command
and the thread count of its row, and the totals count the rows and their threads. -/
structure Shows (rows : List Row) (s : SystemInfo) : Prop where
  process : IsTable s.table rows
  minProcessData : IsTable s.minTable rows
  processNum : s.processNum_ = rows.length
  threadsNum : s.threadsNum_ = (rows.map (·.2.threads)).sum

end SystemInfo

/-- Every status file that is not empty can be parsed, and has the pid of its directory. -/
def Parses (getpwuid : Getpwuid) (dps : List Dirent) : Prop :=
  ∀ dp ∈ dps, dp.isProcess = true → dp.status ≠ [] →
    ∃ st, Status.parse getpwuid dp.status = some st ∧ st.pid = dp.pid

/-- What `/proc` and the user database provide: no process comes first (`.` does), each
process has one directory, and a status file that is not empty has the fields, with the
pid of the directory and a user that exists. -/
structure WellFormed (getpwuid : Getpwuid) (dirp : List Dirent) : Prop where
  first : ∀ dp ∈ dirp.head?, dp.isProcess = false
  nodup : ((dirp.filter (·.isProcess)).map Dirent.pid).Nodup
  parses : Parses getpwuid dirp

/-- The scan leads to a state that shows the current process table. -/
def ShowsCurrent (getpwuid : Getpwuid) (s : SystemInfo) (dirp : List Dirent) : Prop :=
  ∃ s', updateProcess getpwuid s dirp = some s' ∧ s'.Shows (rows getpwuid dirp)

/-- So does every scan of the run. -/
def Shown (getpwuid : Getpwuid) (s : SystemInfo) (scans : List (List Dirent)) : Prop :=
  Meets (updateProcess getpwuid) (ShowsCurrent getpwuid) s scans

/-- The scan finds every process again as it is shown; and if one vanishes meanwhile, it
finds no other. -/
structure Steady (getpwuid : Getpwuid) (s : SystemInfo) (dirp : List Dirent) : Prop where
  again : ∀ pid id, s.table pid = some id → (pid, id) ∈ rows getpwuid dirp
  known : ∀ dp ∈ dirp, dp.vanished = true → ∀ r ∈ rows getpwuid dirp, (s.table r.1).isSome

instance (getpwuid : Getpwuid) (dirp : List Dirent) : Decidable (Parses getpwuid dirp) :=
  decidable_of_iff
    (∀ dp ∈ dirp, dp.isProcess = true → dp.status ≠ [] →
      (Status.parse getpwuid dp.status).any (·.pid = dp.pid) = true) <| by
    simp [Parses, Option.any_eq_true]

instance (getpwuid : Getpwuid) (dirp : List Dirent) : Decidable (WellFormed getpwuid dirp) :=
  decidable_of_iff
    ((∀ dp ∈ dirp.head?, dp.isProcess = false) ∧
      ((dirp.filter (·.isProcess)).map Dirent.pid).Nodup ∧ Parses getpwuid dirp)
    ⟨fun h => ⟨h.1, h.2.1, h.2.2⟩, fun h => ⟨h.first, h.nodup, h.parses⟩⟩

/-- Only the pids in the map have an identity. -/
theorem again_iff {s : SystemInfo} {rs : List Row} :
    (∀ p ∈ s.process_.toList, (p.1, p.2.identity) ∈ rs) ↔
      ∀ pid id, s.table pid = some id → (pid, id) ∈ rs := by
  constructor
  · intro h pid id hid
    obtain ⟨ps, hps, rfl⟩ := Option.map_eq_some_iff.mp hid
    exact h (pid, ps) (Std.ExtTreeMap.mem_toList_iff_getElem?_eq_some.mpr hps)
  · rintro h ⟨pid, ps⟩ hp
    have hps := Std.ExtTreeMap.mem_toList_iff_getElem?_eq_some.mp hp
    exact h pid ps.identity (by rw [SystemInfo.table, hps]; rfl)

instance (getpwuid : Getpwuid) (s : SystemInfo) (dirp : List Dirent) :
    Decidable (Steady getpwuid s dirp) :=
  decidable_of_iff
    ((∀ p ∈ s.process_.toList, (p.1, p.2.identity) ∈ rows getpwuid dirp) ∧
      ∀ dp ∈ dirp, dp.vanished = true → ∀ r ∈ rows getpwuid dirp, (s.table r.1).isSome)
    ⟨fun h => ⟨again_iff.mp h.1, h.2⟩, fun h => ⟨again_iff.mpr h.again, h.known⟩⟩

/-! ### Entering a process -/

namespace SystemInfo

variable {s : SystemInfo} {dp : Dirent} {st : Status}

/-- A process is entered under a new pid only. -/
theorem table_record (s : SystemInfo) (dp : Dirent) (st : Status) :
    (s.record dp st).table = enter s.table (st.pid, st.identity) := by
  cases h : s.process_[st.pid]? with
  | none =>
      have hnone : s.table st.pid = none := by rw [table, h]; rfl
      rw [Lib.FirstWins.enter_of_none hnone]
      funext pid
      by_cases hpid : pid = st.pid
      · subst hpid
        simp [record, h, table, Process.identity, Status.identity, Process.pushMemory,
          Process.pushCpuRate]
      · have hne : ¬ st.pid = pid := Ne.symm hpid
        simp [record, h, table, Std.ExtTreeMap.getElem?_insert, hne, Function.update_of_ne hpid]
  | some ps =>
      have hsome : s.table st.pid = some ps.identity := by rw [table, h]; rfl
      rw [Lib.FirstWins.enter_of_some hsome]
      funext pid
      by_cases hpid : pid = st.pid
      · subst hpid
        simp [record, h, table, Process.identity, Process.pushMemory, Process.pushCpuRate]
      · have hne : ¬ st.pid = pid := Ne.symm hpid
        simp [record, h, table, Std.ExtTreeMap.getElem?_insert, hne]

/-- So it is in the other map, as long as the two agree. -/
theorem minTable_record (hsame : s.minTable = s.table) (dp : Dirent) (st : Status) :
    (s.record dp st).minTable = (s.record dp st).table := by
  rw [table_record, ← hsame]
  have hpid := congrFun hsame st.pid
  cases h : s.process_[st.pid]? with
  | none =>
      have hnone : s.minTable st.pid = none := by rw [hpid, table, h]; rfl
      have hmin : s.minProcessData_[st.pid]? = none := Option.map_eq_none_iff.mp hnone
      rw [Lib.FirstWins.enter_of_none hnone]
      funext pid
      by_cases hpid : pid = st.pid
      · subst hpid
        have hnew : st.pid ∉ s.minProcessData_ := by
          rw [Std.ExtTreeMap.mem_iff_isSome_getElem?, hmin]
          exact Bool.false_ne_true
        have hget : ∀ minps : MinProcessData,
            (s.minProcessData_.insertIfNew st.pid minps)[st.pid]? = some minps := fun minps => by
          rw [Std.ExtTreeMap.getElem?_insertIfNew, if_pos ⟨Std.ReflCmp.compare_self, hnew⟩]
        rw [Function.update_self]
        simp only [record, h, minTable, hget]
        rfl
      · have hne : ¬ st.pid = pid := Ne.symm hpid
        simp [record, h, minTable, Std.ExtTreeMap.getElem?_insertIfNew, hne,
          Function.update_of_ne hpid]
  | some ps =>
      have hsome : s.minTable st.pid = some ps.identity := by rw [hpid, table, h]; rfl
      obtain ⟨minps, hmin, hidentity⟩ := Option.map_eq_some_iff.mp hsome
      rw [Lib.FirstWins.enter_of_some hsome]
      funext pid
      by_cases hpid : pid = st.pid
      · subst hpid
        simp [record, h, hmin, minTable, MinProcessData.identity]
      · have hne : ¬ st.pid = pid := Ne.symm hpid
        simp [record, h, minTable, Std.ExtTreeMap.getElem?_insert, hne]

/-- The totals are left for the end of the scan. -/
theorem totals_record (s : SystemInfo) (dp : Dirent) (st : Status) :
    (s.record dp st).processNum_ = s.processNum_ ∧
      (s.record dp st).threadsNum_ = s.threadsNum_ := by
  cases h : s.process_[st.pid]? with
  | none => simp [record, h]
  | some ps => simp [record, h]

end SystemInfo

/-! ### One scan -/

theorem row_of_not_isProcess {getpwuid : Getpwuid} {dp : Dirent} (h : dp.isProcess = false) :
    dp.row getpwuid = none := by
  rw [Dirent.row, h]
  rfl

theorem rows_cons_of_not_isProcess {getpwuid : Getpwuid} {dp : Dirent} {dps : List Dirent}
    (h : dp.isProcess = false) : rows getpwuid (dp :: dps) = rows getpwuid dps :=
  List.filterMap_cons_none (row_of_not_isProcess h)

/-- A process that is read gets a row. -/
theorem rows_cons_of_readable {getpwuid : Getpwuid} {dp : Dirent} {dps : List Dirent} {st : Status}
    (hprocess : dp.isProcess = true) (hreadable : dp.readable = true)
    (hparse : Status.parse getpwuid dp.status = some st) :
    rows getpwuid (dp :: dps) = (dp.pid, st.identity) :: rows getpwuid dps := by
  refine List.filterMap_cons_some ?_
  rw [Dirent.row, hprocess, hreadable, hparse]
  rfl

theorem status_ne_nil_of_readable {dp : Dirent} (h : dp.readable = true) : dp.status ≠ [] := by
  intro hnil
  simp [Dirent.readable, hnil] at h

/-- The part of the directory that is read: up to the first process that vanished. -/
def beforeVanished (dps : List Dirent) : List Dirent := dps.takeWhile (!·.vanished)

theorem beforeVanished_cons_of_vanished {dp : Dirent} {dps : List Dirent}
    (h : dp.vanished = true) : beforeVanished (dp :: dps) = [] :=
  List.takeWhile_cons_of_neg (by simp [h])

theorem beforeVanished_cons {dp : Dirent} {dps : List Dirent} (h : dp.vanished = false) :
    beforeVanished (dp :: dps) = dp :: beforeVanished dps :=
  List.takeWhile_cons_of_pos (by simp [h])

namespace SystemInfo

section Loop

variable {getpwuid : Getpwuid} {pn tn : Int} {s : SystemInfo} {dp : Dirent} {dps : List Dirent}

theorem loop_cons_of_not_isProcess (h : dp.isProcess = false) :
    loop getpwuid pn tn s (dp :: dps) = loop getpwuid pn tn s dps := by
  rw [loop, if_neg (by simp [h])]

/-- A process that vanished ends the scan, whichever file was gone. -/
theorem loop_cons_of_vanished (hprocess : dp.isProcess = true) (hgone : dp.readable = false)
    (hparse : dp.status ≠ [] → ∃ st, Status.parse getpwuid dp.status = some st) :
    loop getpwuid pn tn s (dp :: dps) = some s := by
  rw [loop, if_pos hprocess]
  by_cases hstatus : dp.status = []
  · rw [if_pos hstatus]
  · have hstat : dp.stat = [] := by
      by_contra hne
      simp [Dirent.readable, hstatus, hne] at hgone
    obtain ⟨st, hst⟩ := hparse hstatus
    rw [if_neg hstatus, hst]
    exact if_pos hstat

theorem loop_cons_of_readable {st : Status} (hprocess : dp.isProcess = true)
    (hreadable : dp.readable = true) (hst : Status.parse getpwuid dp.status = some st) :
    loop getpwuid pn tn s (dp :: dps) =
      loop getpwuid (pn + 1) (tn + st.threads) (s.record dp st) dps := by
  rw [Dirent.readable, Bool.and_eq_true, decide_eq_true_eq, decide_eq_true_eq] at hreadable
  rw [loop, if_pos hprocess, if_neg hreadable.1, hst]
  exact if_neg hreadable.2

end Loop

/-- **The loop.** The processes before the first vanished one are entered where their pid is
new; the totals are only set if none vanished. -/
theorem loop_eq_some {getpwuid : Getpwuid} {dps : List Dirent} (hparses : Parses getpwuid dps)
    (pn tn : Int) {s : SystemInfo} (hsame : s.minTable = s.table) :
    ∃ s', loop getpwuid pn tn s dps = some s' ∧ s'.minTable = s'.table ∧
      s'.table = enterAll s.table (rows getpwuid (beforeVanished dps)) ∧
      if dps.any (·.vanished) then
        s'.processNum_ = s.processNum_ ∧ s'.threadsNum_ = s.threadsNum_
      else
        s'.processNum_ = pn + (rows getpwuid dps).length ∧
          s'.threadsNum_ = tn + ((rows getpwuid dps).map (·.2.threads)).sum := by
  induction dps generalizing s pn tn with
  | nil => exact ⟨{ s with processNum_ := pn, threadsNum_ := tn }, rfl, hsame, rfl, by simp [rows]⟩
  | cons dp dps ih =>
      obtain ⟨hdp, hdps⟩ := List.forall_mem_cons.mp hparses
      cases hprocess : dp.isProcess with
      | false =>
          have hpresent : dp.vanished = false := by rw [Dirent.vanished, hprocess]; rfl
          rw [loop_cons_of_not_isProcess hprocess, beforeVanished_cons hpresent,
            rows_cons_of_not_isProcess hprocess, rows_cons_of_not_isProcess hprocess,
            List.any_cons, hpresent, Bool.false_or]
          exact ih hdps pn tn hsame
      | true =>
          cases hreadable : dp.readable with
          | false =>
              have hvanished : dp.vanished = true := by
                rw [Dirent.vanished, hprocess, hreadable]
                rfl
              have hparse := fun hne => (hdp hprocess hne).imp fun _ h => h.1
              rw [loop_cons_of_vanished hprocess hreadable hparse,
                beforeVanished_cons_of_vanished hvanished, List.any_cons, hvanished, Bool.true_or]
              exact ⟨s, rfl, hsame, rfl, rfl, rfl⟩
          | true =>
              have hpresent : dp.vanished = false := by
                rw [Dirent.vanished, hprocess, hreadable]
                rfl
              have hstatus := status_ne_nil_of_readable hreadable
              obtain ⟨st, hst, hpid⟩ := hdp hprocess hstatus
              obtain ⟨hpn, htn⟩ := totals_record s dp st
              obtain ⟨s', hs', hmin, htable, htotals⟩ := ih hdps (pn + 1) (tn + st.threads)
                (minTable_record hsame dp st)
              refine ⟨s', ?_, hmin, ?_, ?_⟩
              · rw [loop_cons_of_readable hprocess hreadable hst, hs']
              · rw [htable, table_record, hpid, beforeVanished_cons hpresent,
                  rows_cons_of_readable hprocess hreadable hst, Lib.FirstWins.enterAll_cons]
              · rw [List.any_cons, hpresent, Bool.false_or,
                  rows_cons_of_readable hprocess hreadable hst]
                rw [hpn, htn] at htotals
                split
                · rename_i hany
                  rwa [if_pos hany] at htotals
                · rename_i hany
                  rw [if_neg hany] at htotals
                  rw [List.length_cons, List.map_cons, List.sum_cons, htotals.1, htotals.2]
                  exact ⟨by push_cast; ring, by rw [add_assoc]; rfl⟩

end SystemInfo

/-! ### Entries stay -/

theorem SystemInfo.loop_table_stays {getpwuid : Getpwuid} {pn tn : Int} {s s' : SystemInfo}
    {dps : List Dirent} {pid : Int} {id : Identity} (h : loop getpwuid pn tn s dps = some s')
    (hid : s.table pid = some id) : s'.table pid = some id := by
  induction dps generalizing s pn tn with
  | nil =>
      obtain rfl := Option.some.inj h
      exact hid
  | cons dp dps ih =>
      rw [loop] at h
      split at h
      · split at h
        · obtain rfl := Option.some.inj h
          exact hid
        · obtain ⟨st, -, hst⟩ := Option.bind_eq_some_iff.mp h
          split at hst
          · obtain rfl := Option.some.inj hst
            exact hid
          · exact ih hst (by rw [table_record, enter, hid, Option.some_or])
      · exact ih h hid

/-- What is once shown of a pid is shown of it for good, whoever has the pid then. -/
theorem table_stays {getpwuid : Getpwuid} {scans : List (List Dirent)} {s s' : SystemInfo}
    {pid : Int} {id : Identity}
    (hrun : Lib.Machine.run (updateProcess getpwuid) s scans = some s')
    (hid : s.table pid = some id) : s'.table pid = some id := by
  have hstep : ∀ (s : SystemInfo) (dirp : List Dirent) (t : SystemInfo), s.table pid = some id →
      updateProcess getpwuid s dirp = some t → t.table pid = some id :=
    fun _ _ _ hid h => SystemInfo.loop_table_stays h hid
  exact Lib.Machine.invariant hstep hid hrun

/-! ### When the current table is shown -/

section Scan

variable {getpwuid : Getpwuid} {dirp : List Dirent} {s : SystemInfo}

theorem rows_sublist (getpwuid : Getpwuid) (dirp : List Dirent) :
    ((rows getpwuid dirp).map Prod.fst).Sublist ((dirp.filter (·.isProcess)).map Dirent.pid) := by
  induction dirp with
  | nil => exact .slnil
  | cons dp dirp ih =>
      cases hprocess : dp.isProcess with
      | false =>
          rw [rows_cons_of_not_isProcess hprocess, List.filter_cons_of_neg (by simp [hprocess])]
          exact ih
      | true =>
          rw [List.filter_cons_of_pos hprocess, List.map_cons]
          cases hrow : dp.row getpwuid with
          | none =>
              rw [rows, List.filterMap_cons_none hrow]
              exact ih.cons _
          | some r =>
              have hpid : r.1 = dp.pid := by
                rw [Dirent.row] at hrow
                split at hrow
                · obtain ⟨st, -, rfl⟩ := Option.map_eq_some_iff.mp hrow
                  rfl
                · cases hrow
              rw [rows, List.filterMap_cons_some hrow, List.map_cons, hpid]
              exact ih.cons_cons _

theorem WellFormed.rows_nodup (h : WellFormed getpwuid dirp) :
    ((rows getpwuid dirp).map Prod.fst).Nodup :=
  h.nodup.sublist (rows_sublist getpwuid dirp)

/-- The pids of the rows are those of the processes both of whose files are readable. -/
theorem WellFormed.mem_rows_iff (h : WellFormed getpwuid dirp) {pid : Int} :
    (∃ id, (pid, id) ∈ rows getpwuid dirp) ↔
      ∃ dp ∈ dirp, dp.isProcess = true ∧ dp.readable = true ∧ dp.pid = pid := by
  constructor
  · rintro ⟨id, hid⟩
    obtain ⟨dp, hdp, hrow⟩ := List.mem_filterMap.mp hid
    rw [Dirent.row] at hrow
    split at hrow
    · rename_i hboth
      obtain ⟨hprocess, hreadable⟩ := Bool.and_eq_true_iff.mp hboth
      obtain ⟨st, -, hst⟩ := Option.map_eq_some_iff.mp hrow
      exact ⟨dp, hdp, hprocess, hreadable, (Prod.mk.inj hst).1⟩
    · cases hrow
  · rintro ⟨dp, hdp, hprocess, hreadable, rfl⟩
    have hstatus : dp.status ≠ [] := status_ne_nil_of_readable hreadable
    obtain ⟨st, hst, -⟩ := h.parses dp hdp hprocess hstatus
    refine ⟨st.identity, List.mem_filterMap.mpr ⟨dp, hdp, ?_⟩⟩
    rw [Dirent.row, hprocess, hreadable, hst]
    rfl

/-- So the keys of both maps are, where the current table is shown. -/
theorem SystemInfo.Shows.mem_iff (hwell : WellFormed getpwuid dirp)
    (h : s.Shows (rows getpwuid dirp)) {pid : Int} :
    (pid ∈ s.process_ ↔
      ∃ dp ∈ dirp, dp.isProcess = true ∧ dp.readable = true ∧ dp.pid = pid) ∧
    (pid ∈ s.minProcessData_ ↔
      ∃ dp ∈ dirp, dp.isProcess = true ∧ dp.readable = true ∧ dp.pid = pid) := by
  have hprocess : pid ∈ s.process_ ↔ ∃ id, s.table pid = some id := by
    rw [Std.ExtTreeMap.mem_iff_isSome_getElem?, ← Option.isSome_iff_exists, table,
      Option.isSome_map]
  have hmin : pid ∈ s.minProcessData_ ↔ ∃ id, s.minTable pid = some id := by
    rw [Std.ExtTreeMap.mem_iff_isSome_getElem?, ← Option.isSome_iff_exists, minTable,
      Option.isSome_map]
  rw [hprocess, hmin, ← hwell.mem_rows_iff]
  exact ⟨exists_congr fun id => h.process pid id, exists_congr fun id => h.minProcessData pid id⟩

/-- Nothing is lost with the entry that is not looked at. -/
theorem WellFormed.drop_one (h : WellFormed getpwuid dirp) :
    rows getpwuid (dirp.drop 1) = rows getpwuid dirp ∧
      rows getpwuid (beforeVanished (dirp.drop 1)) = rows getpwuid (beforeVanished dirp) ∧
      (dirp.drop 1).any (·.vanished) = dirp.any (·.vanished) := by
  cases dirp with
  | nil => exact ⟨rfl, rfl, rfl⟩
  | cons dp dirp =>
      have hprocess : dp.isProcess = false := h.first dp rfl
      have hpresent : dp.vanished = false := by rw [Dirent.vanished, hprocess]; rfl
      rw [beforeVanished_cons hpresent, rows_cons_of_not_isProcess hprocess,
        rows_cons_of_not_isProcess hprocess, List.any_cons, hpresent, Bool.false_or]
      exact ⟨rfl, rfl, rfl⟩

theorem WellFormed.parses_drop (h : WellFormed getpwuid dirp) : Parses getpwuid (dirp.drop 1) :=
  fun dp hdp => h.parses dp (List.mem_of_mem_drop hdp)

theorem rows_beforeVanished (getpwuid : Getpwuid) (dps : List Dirent) :
    rows getpwuid (beforeVanished dps) <+: rows getpwuid dps :=
  (List.takeWhile_prefix _).filterMap _

/-- Without a vanished process all of the directory is read. -/
theorem beforeVanished_eq_self {dps : List Dirent} (h : dps.any (·.vanished) = false) :
    beforeVanished dps = dps :=
  List.takeWhile_eq_self_iff.mpr fun dp hdp => by simp [List.any_eq_false.mp h dp hdp]

/-- The state shows some process table. -/
def Consistent (s : SystemInfo) : Prop := ∃ rs : List Row, (rs.map Prod.fst).Nodup ∧ s.Shows rs

theorem consistent_init : Consistent {} := by
  refine ⟨[], List.nodup_nil, ?_⟩
  have hprocess : SystemInfo.table {} = fun _ => none := by
    funext pid
    simp [SystemInfo.table]
  have hmin : SystemInfo.minTable {} = fun _ => none := by
    funext pid
    simp [SystemInfo.minTable]
  refine ⟨?_, ?_, rfl, rfl⟩
  · rw [hprocess]
    exact Lib.FirstWins.isTable_empty
  · rw [hmin]
    exact Lib.FirstWins.isTable_empty

/-- What a scan does to the table and the totals. -/
theorem updateProcess_eq_some (hwell : WellFormed getpwuid dirp) (hsame : s.minTable = s.table) :
    ∃ s', updateProcess getpwuid s dirp = some s' ∧ s'.minTable = s'.table ∧
      s'.table = enterAll s.table (rows getpwuid (beforeVanished dirp)) ∧
      if dirp.any (·.vanished) then
        s'.processNum_ = s.processNum_ ∧ s'.threadsNum_ = s.threadsNum_
      else
        s'.processNum_ = (rows getpwuid dirp).length ∧
          s'.threadsNum_ = ((rows getpwuid dirp).map (·.2.threads)).sum := by
  have hloop := SystemInfo.loop_eq_some hwell.parses_drop 0 0 hsame
  obtain ⟨hrows, hbefore, hany⟩ := hwell.drop_one
  rw [hrows, hbefore, hany, zero_add, zero_add] at hloop
  exact hloop

/-- **One scan.** From a state that shows some process table, it leads to one that shows the
current table exactly if it is steady. -/
theorem updateProcess_shows_iff (hwell : WellFormed getpwuid dirp) (hs : Consistent s) :
    ∃ s', updateProcess getpwuid s dirp = some s' ∧
      (s'.Shows (rows getpwuid dirp) ↔ Steady getpwuid s dirp) := by
  obtain ⟨rs, hrs, hshows⟩ := hs
  have hsame : s.minTable = s.table := hshows.minProcessData.unique hshows.process
  obtain ⟨s', hs', hmin, htable, htotals⟩ := updateProcess_eq_some hwell hsame
  have hnodup := hwell.rows_nodup
  have hpart : rows getpwuid (beforeVanished dirp) ⊆ rows getpwuid dirp :=
    List.IsPrefix.subset (rows_beforeVanished getpwuid dirp)
  have hiff := Lib.FirstWins.isTable_enterAll_iff (f := s.table) hnodup hpart
  rw [← htable] at hiff
  refine ⟨s', hs', ?_⟩
  cases hvanished : dirp.any (·.vanished) with
  | false =>
      rw [hvanished, if_neg Bool.false_ne_true] at htotals
      rw [beforeVanished_eq_self hvanished] at hiff
      constructor
      · intro h
        refine ⟨(hiff.mp h.process).1, fun dp hdp hgone => ?_⟩
        exact absurd hgone (List.any_eq_false.mp hvanished dp hdp)
      · intro h
        have hrows := hiff.mpr ⟨h.again, fun r hr hout => absurd hr hout⟩
        exact ⟨hrows, by rw [hmin]; exact hrows, htotals.1, htotals.2⟩
  | true =>
      rw [hvanished, if_pos rfl] at htotals
      -- The totals are those of the table shown before.
      constructor
      · intro h
        have hagain := (hiff.mp h.process).1
        have hlength : rs.length = (rows getpwuid dirp).length := by
          have hnum := hshows.processNum.symm.trans (htotals.1.symm.trans h.processNum)
          exact_mod_cast hnum
        have hrows := hshows.process.of_length_eq hrs.of_map hlength hagain
        refine ⟨hagain, fun _ _ _ r hr => ?_⟩
        rw [(hrows r.1 r.2).mpr hr]
        rfl
      · intro h
        obtain ⟨dp, hdp, hgone⟩ := List.any_eq_true.mp hvanished
        have hknown := h.known dp hdp hgone
        have hrows := hiff.mpr ⟨h.again, fun r hr _ => hknown r hr⟩
        have hbefore : IsTable s.table (rows getpwuid dirp) :=
          (Lib.FirstWins.isTable_enterAll_iff hnodup (List.nil_subset _)).mpr
            ⟨h.again, fun r hr _ => hknown r hr⟩
        have hperm := hshows.process.perm hbefore hrs.of_map hnodup.of_map
        refine ⟨hrows, by rw [hmin]; exact hrows, ?_, ?_⟩
        · rw [htotals.1, hshows.processNum, hperm.length_eq]
        · rw [htotals.2, hshows.threadsNum, (hperm.map _).sum_eq]

theorem showsCurrent_iff (hwell : WellFormed getpwuid dirp) (hs : Consistent s) :
    ShowsCurrent getpwuid s dirp ↔ Steady getpwuid s dirp := by
  obtain ⟨s', hs', hiff⟩ := updateProcess_shows_iff hwell hs
  rw [← hiff]
  constructor
  · rintro ⟨t, ht, hshows⟩
    obtain rfl : t = s' := Option.some.inj (ht.symm.trans hs')
    exact hshows
  · exact fun hshows => ⟨s', hs', hshows⟩

/-- What shows the current table shows some table. -/
theorem consistent_of_showsCurrent (hwell : WellFormed getpwuid dirp) {t : SystemInfo}
    (h : ShowsCurrent getpwuid s dirp) (ht : updateProcess getpwuid s dirp = some t) :
    Consistent t := by
  obtain ⟨s', hs', hshows⟩ := h
  obtain rfl : s' = t := Option.some.inj (hs'.symm.trans ht)
  exact ⟨rows getpwuid dirp, hwell.rows_nodup, hshows⟩

end Scan

/-! ### Any number of scans -/

/-- From any state that shows some process table on. -/
theorem shown_iff_of_consistent {getpwuid : Getpwuid} {scans : List (List Dirent)}
    (hwell : ∀ dirp ∈ scans, WellFormed getpwuid dirp) {s : SystemInfo} (hs : Consistent s) :
    Shown getpwuid s scans ↔ Meets (updateProcess getpwuid) (Steady getpwuid) s scans := by
  have hall : Meets (updateProcess getpwuid) (fun _ dirp => WellFormed getpwuid dirp) s scans :=
    Lib.Machine.meets_of_forall hwell
  have hcongr : Meets (updateProcess getpwuid)
        (fun s dirp => WellFormed getpwuid dirp ∧ ShowsCurrent getpwuid s dirp) s scans ↔
      Meets (updateProcess getpwuid)
        (fun s dirp => WellFormed getpwuid dirp ∧ Steady getpwuid s dirp) s scans := by
    refine Lib.Machine.meets_congr_of_meets ?_ ?_ hs
    · exact fun _ _ _ _ h ht => consistent_of_showsCurrent h.1 h.2 ht
    · exact fun _ _ hs => and_congr_right fun hdirp => showsCurrent_iff hdirp hs
  rw [Lib.Machine.meets_and, Lib.Machine.meets_and] at hcongr
  constructor
  · exact fun h => (hcongr.mp ⟨hall, h⟩).2
  · exact fun h => (hcongr.mpr ⟨hall, h⟩).2

/-- The user database of the examples. -/
def examplePasswd : Getpwuid := fun uid => if uid = 0 then some (ascii "root") else none

/-- A process of `root`, both of whose files can be read. -/
def exampleDirent (pid name threads : String) : Dirent where
  dName := ascii pid
  status := ascii "Name:\t" ++ ascii name ++ ascii "\nPid:\t" ++ ascii pid ++
    ascii "\nUid:\t0\nThreads:\t" ++ ascii threads ++ ascii "\n"
  stat := ascii pid ++ ascii " (" ++ ascii name ++ ascii ") S 1"

/-- The directory itself, which comes first. -/
def exampleDot : Dirent where
  dName := ascii "."

/-- One process; then another; then a third that is gone before it can be read. -/
def exampleScans : List (List Dirent) :=
  [[exampleDot, exampleDirent "1" "init" "1"],
    [exampleDot, exampleDirent "1" "init" "1", exampleDirent "77" "bash" "3"],
    [exampleDot, exampleDirent "1" "init" "1", { dName := ascii "42" },
      exampleDirent "77" "bash" "3"]]

/-- A process that exits between two scans. -/
def exitScans : List (List Dirent) :=
  [[exampleDot, exampleDirent "77" "bash" "3"], [exampleDot]]

end Dummyload.Procmon
