import Dummyload.Lib.Simulation
import Dummyload.Timer.Consistent
import Dummyload.Timer.Table

/-!
# Dummyload.Timer.Refinement

The steps of the timer queue are steps of the table of timers. A timer of the table is live when
the code has it in `timers_`, or in the `expired` vector of the running
`handleRead` and would insert it again: it is not in `cancelingTimers_`, and it
repeats or has not run yet (`Live`). The table names a timer by the number of the
`addTimer` that made it, so an address that is used again has another name.
-/

namespace Dummyload

/-- The period of a timer that repeats. -/
def Interval.period (interval : Interval) : Option Int :=
  if interval.positive then some interval.micros else none

/-- The timer as an entry of the table. -/
def Timer.entry (timer : Timer) : Table.Entry Int := ⟨timer.expiration, timer.interval.period⟩

theorem Timer.repeats_entry (timer : Timer) : timer.entry.repeats = timer.repeats := by
  rw [Timer.entry, Table.Entry.repeats, Interval.period, Timer.repeats]
  cases timer.interval.positive <;> rfl

theorem Timer.next_entry {timer : Timer} (h : timer.repeats = true) (now : Int) :
    timer.entry.next now = some (timer.restart now).entry := by
  have hpositive : timer.interval.positive = true := h
  rw [Timer.restart, if_pos h, Timer.entry, Table.Entry.next, Interval.period, if_pos hpositive,
    Timer.entry, Interval.period, if_pos hpositive]
  rfl

@[simp] theorem Timer.restart_id (timer : Timer) (now : Int) :
    (timer.restart now).id = timer.id := by
  rw [Timer.restart]
  split <;> rfl

/-- The name of the timer at an address. -/
def TimerQueue.idAt (q : TimerQueue) (a : Nat) : Nat := (q.heap[a]?.map Timer.id).getD 0

theorem TimerQueue.idAt_eq {q : TimerQueue} {a : Nat} {t : Timer} (h : q.heap[a]? = some t) :
    q.idAt a = t.id := by
  rw [idAt, h]
  rfl

/-- The names of the timers of a vector. -/
def TimerQueue.ids (q : TimerQueue) (ks : List TimerKey) : List Nat := ks.map fun k => q.idAt k.2

namespace TimerLoop

open Lib.Machine (run)
open Lib.Simulation (Path trace)

/-- The expired timers that were not run yet. -/
def todo (s : TimerLoop) : List TimerKey :=
  match s.batch with
  | none => []
  | some b => b.todo

theorem todo_eq {s : TimerLoop} {b : Batch} (h : s.batch = some b) : s.todo = b.todo := by
  rw [todo, h]

/-- The timer at `a` was not cancelled, and it repeats or has not run yet. -/
def Live (s : TimerLoop) (a : Nat) (timer : Timer) : Prop :=
  a ∈ s.running.map Prod.snd →
    a ∉ s.queue.cancelingTimers ∧ (timer.repeats = true ∨ a ∈ s.todo.map Prod.snd)

/-- What a step does to the table. -/
def label (s : TimerLoop) : Input → Option (Table.Label Nat Int)
  | .addTimer _ when interval _ => some (.add s.queue.nextId ⟨when, interval.period⟩)
  | .cancel timer => some (.cancel (s.queue.idAt timer))
  | .expire => none
  | .wait => none
  | .handleRead now => some (.start now)
  | .runNext => s.todo.head?.map fun k => .run (s.queue.idAt k.2)
  | .finish _ => some .finish

/-- The table that the timer queue stands for. -/
structure Refines (s : TimerLoop) (t : Table Nat Int) : Prop where
  entries : ∀ id e, t.entries id = some e ↔
    ∃ a u, s.queue.heap[a]? = some u ∧ s.Live a u ∧ u.id = id ∧ u.entry = e
  used : ∀ id ∈ t.used, id < s.queue.nextId
  idle : s.batch = none → t.batch = none
  batch : ∀ b, s.batch = some b → ∃ b', t.batch = some b' ∧ b'.now = b.now ∧
    b'.due = s.queue.ids b.expired ∧ b'.ran ++ s.queue.ids b.todo = b'.due

theorem refines_start : Refines start Table.empty where
  entries id e := by
    constructor
    · intro h
      cases h
    · intro hex
      obtain ⟨a, u, hu, -⟩ := hex
      rw [start, Std.ExtTreeMap.getElem?_empty] at hu
      cases hu
  used id h := absurd h (Set.notMem_empty id)
  idle _ := rfl
  batch b h := by cases h

theorem Consistent.mem_ids {s : TimerLoop} (hs : Consistent s) {a : Nat} {u : Timer}
    (hu : s.queue.heap[a]? = some u) :
    u.id ∈ s.queue.ids s.running ↔ a ∈ s.running.map Prod.snd := by
  rw [TimerQueue.ids, List.mem_map, List.mem_map]
  constructor
  · intro hex
    obtain ⟨k, hk, hid⟩ := hex
    obtain ⟨v, hv, -⟩ := hs.runningKeyed k hk
    rw [TimerQueue.idAt_eq hv] at hid
    exact ⟨k, hk, hs.id_inj _ _ v u hv hu hid⟩
  · intro hex
    obtain ⟨k, hk, rfl⟩ := hex
    exact ⟨k, hk, TimerQueue.idAt_eq hu⟩

namespace Refines

variable {s : TimerLoop} {t : Table Nat Int}

theorem entries_eq (h : Refines s t) {a : Nat} {u : Timer} (hu : s.queue.heap[a]? = some u)
    (hlive : s.Live a u) : t.entries u.id = some u.entry :=
  (h.entries _ _).mpr ⟨a, u, hu, hlive, rfl, rfl⟩

theorem entries_eq_none (h : Refines s t) (hs : Consistent s) {a : Nat} {u : Timer}
    (hu : s.queue.heap[a]? = some u) (hdead : ¬ s.Live a u) : t.entries u.id = none := by
  refine Option.eq_none_iff_forall_ne_some.mpr fun e he => ?_
  obtain ⟨b, v, hv, hlive, hid, -⟩ := (h.entries _ _).mp he
  obtain rfl := hs.id_inj _ _ _ _ hv hu hid
  rw [hu] at hv
  obtain rfl := Option.some.inj hv
  exact hdead hlive

/-- One address goes, or its timer is no longer live. -/
theorem entries_remove (h : Refines s t) (hs : Consistent s) (s' : TimerLoop) {a₀ : Nat}
    {u₀ : Timer} (hu₀ : s.queue.heap[a₀]? = some u₀)
    (hrest : ∀ a u, (s'.queue.heap[a]? = some u ∧ s'.Live a u) ↔
      (a ≠ a₀ ∧ s.queue.heap[a]? = some u ∧ s.Live a u)) (id : Nat) (e : Table.Entry Int) :
    Function.update t.entries u₀.id none id = some e ↔
      ∃ a u, s'.queue.heap[a]? = some u ∧ s'.Live a u ∧ u.id = id ∧ u.entry = e := by
  constructor
  · intro he
    by_cases hid : id = u₀.id
    · rw [hid, Function.update_self] at he
      cases he
    · rw [Function.update_of_ne hid] at he
      obtain ⟨a, u, hu, hlive, rfl, rfl⟩ := (h.entries _ _).mp he
      have hne : a ≠ a₀ := by
        intro heq
        obtain rfl := heq
        rw [hu₀] at hu
        exact hid (by rw [Option.some.inj hu])
      obtain ⟨hu', hlive'⟩ := (hrest a u).mpr ⟨hne, hu, hlive⟩
      exact ⟨a, u, hu', hlive', rfl, rfl⟩
  · intro hex
    obtain ⟨a, u, hu', hlive', rfl, rfl⟩ := hex
    obtain ⟨hne, hu, hlive⟩ := (hrest a u).mp ⟨hu', hlive'⟩
    have hid : u.id ≠ u₀.id := fun hid => hne (hs.id_inj _ _ _ _ hu hu₀ hid)
    rw [Function.update_of_ne hid]
    exact h.entries_eq hu hlive

/-- The names of timers that are still there. -/
theorem ids_congr {q q' : TimerQueue} {ks : List TimerKey}
    (h : ∀ k ∈ ks, q'.heap[k.2]? = q.heap[k.2]?) : q'.ids ks = q.ids ks :=
  List.map_congr_left fun k hk => by rw [TimerQueue.idAt, TimerQueue.idAt, h k hk]

/-- The batch is as before, and so are the timers that are running. -/
theorem batch_frame (h : Refines s t) (hs : Consistent s) {q : TimerQueue}
    (hheap : ∀ k ∈ s.running, q.heap[k.2]? = s.queue.heap[k.2]?) (b : Batch)
    (hb : s.batch = some b) :
    ∃ b', t.batch = some b' ∧ b'.now = b.now ∧ b'.due = q.ids b.expired ∧
      b'.ran ++ q.ids b.todo = b'.due := by
  obtain ⟨b', hb', hnow, hdue, hran⟩ := h.batch b hb
  rw [running_eq hb] at hheap
  have htodo : ∀ k ∈ b.todo, q.heap[k.2]? = s.queue.heap[k.2]? := fun k hk =>
    hheap k ((hs.todo b hb).subset hk)
  refine ⟨b', hb', hnow, ?_, ?_⟩
  · rw [ids_congr hheap]
    exact hdue
  · rw [ids_congr htodo]
    exact hran

theorem addTimer (h : Refines s t) (hs : Consistent s) {timer : Nat} {when now : Int}
    {interval : Interval} {q : TimerQueue} {rearmed : Bool}
    (hq : s.queue.addTimer timer when interval now = some q) :
    ∃ t', Table.Step t (.add s.queue.nextId ⟨when, interval.period⟩) t' ∧
      Refines { s with queue := q, rearmed := rearmed } t' := by
  obtain ⟨hfree, -, -, rfl⟩ := TimerQueue.addTimer_eq_some hq
  have hnone : s.queue.heap[timer]? = none := Std.ExtTreeMap.getElem?_eq_none hfree
  have hne : ∀ {a : Nat} {u : Timer}, s.queue.heap[a]? = some u → timer ≠ a := by
    intro a u hu heq
    obtain rfl := heq
    rw [hnone] at hu
    cases hu
  have hold : ∀ {a : Nat}, timer ≠ a →
      (s.queue.heap.insert timer ⟨s.queue.nextId, when, interval⟩)[a]? = s.queue.heap[a]? := by
    intro a ha
    rw [Std.ExtTreeMap.getElem?_insert, if_neg (by simpa using ha)]
  refine ⟨_, .add ⟨when, interval.period⟩ fun hused => absurd (h.used _ hused) (lt_irrefl _), ?_⟩
  refine ⟨fun id e => ?_, ?_, h.idle, ?_⟩
  · dsimp only
    constructor
    · intro he
      by_cases hid : id = s.queue.nextId
      · rw [hid, Function.update_self] at he
        obtain rfl := Option.some.inj he
        refine ⟨timer, _, Std.ExtTreeMap.getElem?_insert_self, fun hmem => ?_, hid.symm, rfl⟩
        -- the address was free, so it is not that of a running timer
        obtain ⟨k, hk, hka⟩ := List.mem_map.mp hmem
        obtain ⟨u, hu, -⟩ := hs.runningKeyed k hk
        exact absurd hka.symm (hne hu)
      · rw [Function.update_of_ne hid] at he
        obtain ⟨a, u, hu, hlive, hid', hentry⟩ := (h.entries _ _).mp he
        exact ⟨a, u, (hold (hne hu)).trans hu, hlive, hid', hentry⟩
    · intro hex
      obtain ⟨a, u, hu, hlive, rfl, rfl⟩ := hex
      by_cases ha : timer = a
      · obtain rfl := ha
        rw [Std.ExtTreeMap.getElem?_insert_self] at hu
        obtain rfl := Option.some.inj hu
        rw [Function.update_self]
        rfl
      · rw [hold ha] at hu
        rw [Function.update_of_ne (hs.id_lt _ _ hu).ne]
        exact h.entries_eq hu hlive
  · intro id hid
    rcases Set.mem_insert_iff.mp hid with rfl | hid
    · exact Nat.lt_succ_self _
    · exact Nat.lt_succ_of_lt (h.used id hid)
  · refine h.batch_frame hs fun k hk => ?_
    obtain ⟨u, hu, -⟩ := hs.runningKeyed k hk
    exact hold (hne hu)

theorem cancel (h : Refines s t) (hs : Consistent s) {timer : Nat} {q : TimerQueue}
    (hq : s.queue.cancel timer = some q) :
    ∃ t', Table.Step t (.cancel (s.queue.idAt timer)) t' ∧ Refines { s with queue := q } t' := by
  obtain ⟨u, hu, hcase⟩ := TimerQueue.cancel_eq_some hq
  rw [TimerQueue.idAt_eq hu]
  refine ⟨_, .cancel t u.id, ?_⟩
  -- in the table, the batch takes note of the cancelled timer
  have hbatch : ∀ {q : TimerQueue}, (∀ k ∈ s.running, q.heap[k.2]? = s.queue.heap[k.2]?) →
      ∀ b, s.batch = some b → ∃ b',
        (t.batch.map fun b => { b with cancelled := u.id :: b.cancelled }) = some b' ∧
        b'.now = b.now ∧ b'.due = q.ids b.expired ∧ b'.ran ++ q.ids b.todo = b'.due := by
    intro q hheap b hb
    obtain ⟨b', hb', hnow, hdue, hran⟩ := h.batch_frame hs hheap b hb
    rw [hb']
    exact ⟨_, rfl, hnow, hdue, hran⟩
  have hidle : s.batch = none →
      (t.batch.map fun b => { b with cancelled := u.id :: b.cancelled }) = none := by
    intro hnone
    rw [h.idle hnone]
    rfl
  obtain ⟨hin, rfl⟩ | ⟨hnot, -, rfl⟩ | ⟨hnot, hcalling, rfl⟩ := hcase
  · have hfree : ∀ k ∈ s.running, timer ≠ k.2 := by
      intro k hk heq
      obtain rfl := heq
      exact hs.disjoint k hk _ hin
    refine ⟨h.entries_remove hs _ hu fun a v => ?_, h.used, hidle, hbatch fun k hk => ?_⟩
    · dsimp only
      rw [Std.ExtTreeMap.getElem?_erase]
      by_cases ha : a = timer
      · rw [if_pos (by simp [ha])]
        exact iff_of_false (fun hv => by cases hv.1) fun hv => hv.1 ha
      · rw [if_neg (by simpa using Ne.symm ha)]
        exact (and_iff_right ha).symm
    · dsimp only
      rw [Std.ExtTreeMap.getElem?_erase, if_neg (by simpa using hfree k hk)]
  · have hrunning : timer ∈ s.running.map Prod.snd := (hs.listed timer u hu).resolve_left hnot
    refine ⟨h.entries_remove hs _ hu fun a v => ?_, h.used, hidle, hbatch fun k _ => rfl⟩
    rw [and_left_comm]
    refine and_congr_right fun hv => ?_
    constructor
    · intro hlive
      refine ⟨?_, fun hmem => ?_⟩
      · intro heq
        obtain rfl := heq
        exact (hlive hrunning).1 (Finset.mem_insert_self _ _)
      · obtain ⟨hcancel, hkeeps⟩ := hlive hmem
        exact ⟨fun hin => hcancel (Finset.mem_insert_of_mem hin), hkeeps⟩
    · intro hand hmem
      obtain ⟨hne, hlive⟩ := hand
      obtain ⟨hcancel, hkeeps⟩ := hlive hmem
      refine ⟨fun hin => ?_, hkeeps⟩
      exact hcancel ((Finset.mem_insert.mp hin).resolve_left hne)
  · -- no such timer: it would be running
    exfalso
    have hrunning : timer ∈ s.running.map Prod.snd := (hs.listed timer u hu).resolve_left hnot
    rw [hs.calling, Option.isSome_eq_false_iff, Option.isNone_iff_eq_none] at hcalling
    rw [running_eq_nil hcalling] at hrunning
    cases hrunning

/-- Outside of `handleRead`, the timers that exist are live. -/
theorem live_of_idle (hidle : s.batch = none) (a : Nat) (u : Timer) : s.Live a u := by
  intro hmem
  rw [running_eq_nil hidle] at hmem
  cases hmem

/-- An entry of `timers_` is the key of an entry of the table. -/
theorem entries_of_key (h : Refines s t) (hs : Consistent s) (hidle : s.batch = none) {k : TimerKey}
    (hk : k ∈ s.queue.timers) :
    ∃ e, t.entries (s.queue.idAt k.2) = some e ∧ e.expiration = k.1 := by
  obtain ⟨u, hu, hexp⟩ := hs.keyed k hk
  rw [TimerQueue.idAt_eq hu]
  exact ⟨u.entry, h.entries_eq hu (live_of_idle hidle k.2 u), hexp⟩

/-- The expired timers have different names. -/
theorem nodup_ids (hs : Consistent s) (now : Int) :
    (s.queue.ids (s.queue.timers.toList.filter (TimerQueue.beforeSentry now))).Nodup := by
  have hnames : s.queue.ids (s.queue.timers.toList.filter (TimerQueue.beforeSentry now)) =
      ((s.queue.timers.toList.filter (TimerQueue.beforeSentry now)).map Prod.snd).map
        s.queue.idAt := by
    rw [TimerQueue.ids, List.map_map]
    rfl
  rw [hnames]
  refine List.Nodup.map_on (fun a ha b hb hid => ?_) (hs.nodup_expired now)
  obtain ⟨k, hk, rfl⟩ := List.mem_map.mp ha
  obtain ⟨k', hk', rfl⟩ := List.mem_map.mp hb
  obtain ⟨u, hu, -⟩ := hs.keyed k (TimerQueue.mem_expired.mp hk).1
  obtain ⟨v, hv, -⟩ := hs.keyed k' (TimerQueue.mem_expired.mp hk').1
  rw [TimerQueue.idAt_eq hu, TimerQueue.idAt_eq hv] at hid
  exact hs.id_inj _ _ u v hu hv hid

/-- What `getExpired` takes out of `timers_` is due. -/
theorem isDue (h : Refines s t) (hs : Consistent s) (hidle : s.batch = none) (now : Int) :
    t.IsDue now (s.queue.ids (s.queue.timers.toList.filter (TimerQueue.beforeSentry now))) := by
  refine ⟨fun id => ?_, nodup_ids hs now, ?_⟩
  · rw [TimerQueue.ids, List.mem_map]
    constructor
    · intro hex
      obtain ⟨k, hk, rfl⟩ := hex
      obtain ⟨hin, hbefore⟩ := TimerQueue.mem_expired.mp hk
      obtain ⟨u, hu, -⟩ := hs.keyed k hin
      obtain ⟨e, he, hexp⟩ := h.entries_of_key hs hidle hin
      refine ⟨e, he, ?_⟩
      rw [hexp]
      exact (beforeSentry_iff (hs.address_lt _ u hu)).mp hbefore
    · intro hex
      obtain ⟨e, he, hle⟩ := hex
      obtain ⟨a, u, hu, -, rfl, rfl⟩ := (h.entries _ _).mp he
      have hin := hs.mem_timers hidle hu
      have hbefore : TimerQueue.beforeSentry now (u.expiration, a) = true :=
        (beforeSentry_iff (hs.address_lt a u hu)).mpr hle
      exact ⟨(u.expiration, a), TimerQueue.mem_expired.mpr ⟨hin, hbefore⟩, TimerQueue.idAt_eq hu⟩
  · -- `timers_` is in the order of the keys
    have hordered : (s.queue.timers.toList.filter (TimerQueue.beforeSentry now)).Pairwise
        fun k k' => keyCmp k k' = .lt := Std.ExtTreeSet.ordered_toList.filter _
    rw [TimerQueue.ids, List.pairwise_map]
    refine List.Pairwise.imp_of_mem (fun {k k'} hk hk' hlt e e' he he' => ?_) hordered
    obtain ⟨e₁, he₁, hexp⟩ := h.entries_of_key hs hidle (TimerQueue.mem_expired.mp hk).1
    obtain ⟨e₂, he₂, hexp'⟩ := h.entries_of_key hs hidle (TimerQueue.mem_expired.mp hk').1
    rw [he₁] at he
    rw [he₂] at he'
    obtain rfl := Option.some.inj he
    obtain rfl := Option.some.inj he'
    rw [hexp, hexp']
    rcases keyCmp_eq_lt.mp hlt with hlt | ⟨heq, -⟩
    · exact hlt.le
    · exact heq.le

theorem handleRead (h : Refines s t) (hs : Consistent s) (hidle : s.batch = none) {now : Int}
    {expired : List TimerKey} {q : TimerQueue} {waiting : Bool}
    (hq : s.queue.handleRead now = some (expired, q)) :
    ∃ t', Table.Step t (.start now) t' ∧
      Refines { s with
        queue := q, batch := some ⟨now, expired, expired⟩, waiting := waiting } t' := by
  obtain ⟨-, rfl, rfl⟩ := TimerQueue.handleRead_eq_some hq
  refine ⟨_, .start (h.idle hidle) (h.isDue hs hidle now), fun id e => ?_, h.used, fun hb => ?_,
    fun b hb => ?_⟩
  · rw [h.entries]
    refine exists_congr fun a => exists_congr fun u => and_congr_right fun _ => and_congr_left' ?_
    -- nothing is cancelled, and everything is still to be run
    exact iff_of_true (live_of_idle hidle a u)
      fun hmem => ⟨Finset.notMem_empty a, Or.inr hmem⟩
  · cases hb
  · obtain rfl := Option.some.inj hb
    exact ⟨_, rfl, rfl, rfl, rfl⟩

/-- What the table keeps of a timer that has run. -/
theorem filter_entries (h : Refines s t) (hs : Consistent s) {a : Nat} {u : Timer}
    (hu : s.queue.heap[a]? = some u) :
    (t.entries u.id).filter Table.Entry.repeats = if u.repeats then t.entries u.id else none := by
  by_cases hlive : s.Live a u
  · rw [h.entries_eq hu hlive, Option.filter_some, u.repeats_entry]
  · rw [h.entries_eq_none hs hu hlive, Option.filter_none, ite_self]

/-- A timer has run. It is no longer live, unless it repeats; other timers are as before. -/
theorem live_runNext (hs : Consistent s) {b : Batch} {k : TimerKey} {todo : List TimerKey}
    (hb : s.batch = some b) (htodo : b.todo = k :: todo) (a : Nat) (u : Timer) :
    Live { s with batch := some { b with todo := todo } } a u ↔
      (a ≠ k.2 ∨ u.repeats = true) ∧ s.Live a u := by
  have hsuffix := hs.todo b hb
  have hnodup := hs.nodup
  rw [running_eq hb] at hnodup
  rw [htodo] at hsuffix
  have hk : k.2 ∈ b.expired.map Prod.snd :=
    List.mem_map_of_mem (hsuffix.subset List.mem_cons_self)
  have hnot : k.2 ∉ todo.map Prod.snd :=
    (List.nodup_cons.mp (hnodup.sublist (hsuffix.sublist.map Prod.snd))).1
  rw [Live, Live, running_eq hb, todo_eq hb, htodo, List.map_cons, List.mem_cons]
  show (a ∈ b.expired.map Prod.snd →
    a ∉ s.queue.cancelingTimers ∧ (u.repeats = true ∨ a ∈ todo.map Prod.snd)) ↔ _
  by_cases ha : a = k.2
  · obtain rfl := ha
    simp only [hk, hnot, ne_eq, not_true_eq_false, false_or, forall_const, or_false, or_true,
      and_true]
    exact and_comm
  · simp only [ha, ne_eq, not_false_eq_true, true_or, true_and, false_or]

theorem runNext (h : Refines s t) (hs : Consistent s) {b : Batch} {k : TimerKey}
    {todo : List TimerKey} (hb : s.batch = some b) (htodo : b.todo = k :: todo) :
    ∃ t', Table.Step t (.run (s.queue.idAt k.2)) t' ∧
      Refines { s with batch := some { b with todo := todo } } t' := by
  obtain ⟨b', hb', hnow, hdue, hran⟩ := h.batch b hb
  rw [htodo] at hran
  have hk : k ∈ s.running := by
    have hsuffix := hs.todo b hb
    rw [htodo] at hsuffix
    rw [running_eq hb]
    exact hsuffix.subset List.mem_cons_self
  obtain ⟨u, hu, -⟩ := hs.runningKeyed k hk
  have hnext : b'.ran ++ [s.queue.idAt k.2] ++ s.queue.ids todo = b'.due := by
    rw [List.append_assoc]
    exact hran
  have hsublist : (b'.ran ++ [s.queue.idAt k.2]).Sublist b'.due := by
    rw [← hnext]
    exact List.sublist_append_left _ _
  rw [TimerQueue.idAt_eq hu] at hnext hsublist ⊢
  refine ⟨_, .run hb' hsublist, fun id e => ?_, h.used, fun hnone => ?_, fun c hc => ?_⟩
  · dsimp only
    rw [h.filter_entries hs hu]
    by_cases hrepeats : u.repeats = true
    · rw [if_pos hrepeats, Function.update_eq_self, h.entries]
      refine exists_congr fun a => exists_congr fun v => and_congr_right fun hv =>
        and_congr_left' ?_
      rw [live_runNext hs hb htodo]
      refine (and_iff_right ?_).symm
      by_cases ha : a = k.2
      · rw [ha, hu] at hv
        obtain rfl := Option.some.inj hv
        exact Or.inr hrepeats
      · exact Or.inl ha
    · rw [if_neg hrepeats]
      refine h.entries_remove hs { s with batch := some { b with todo := todo } } hu
        (fun a v => ?_) id e
      rw [live_runNext hs hb htodo, and_left_comm]
      refine and_congr_left fun hand => or_iff_left_of_imp fun hv ha => ?_
      have hv' : s.queue.heap[a]? = some v := hand.1
      rw [ha, hu] at hv'
      obtain rfl := Option.some.inj hv'
      exact hrepeats hv
  · cases hnone
  · obtain rfl := Option.some.inj hc
    exact ⟨_, rfl, hnow, hdue, hnext⟩

theorem finish (h : Refines s t) (hs : Consistent s) {b : Batch} (hb : s.batch = some b)
    (htodo : b.todo = []) {q : TimerQueue}
    (hq : Restarted b.now (s.running.map Prod.snd) { s.queue with callingExpiredTimers := false } q)
    (timerfd : Timerfd) :
    ∃ t', Table.Step t .finish t' ∧
      Refines { s with queue := { q with timerfd := timerfd }, batch := none } t' := by
  obtain ⟨b', hb', hnow, hdue, hran⟩ := h.batch b hb
  rw [htodo, TimerQueue.ids, List.map_nil, List.append_nil] at hran
  rw [← running_eq hb] at hdue
  refine ⟨_, .finish hb' fun id hid => Or.inl (hran ▸ hid), fun id e => ?_, fun id hid => ?_,
    fun _ => rfl, fun c hc => ?_⟩
  · dsimp only
    rw [hdue, hnow]
    constructor
    · intro he
      split at he
      · rename_i hid
        obtain ⟨e₀, he₀, hnext⟩ := Option.bind_eq_some_iff.mp he
        obtain ⟨a, u, hu, hlive, rfl, rfl⟩ := (h.entries _ _).mp he₀
        have ha := (hs.mem_ids hu).mp hid
        obtain ⟨hcancel, hkeeps⟩ := hlive ha
        -- all were run, so it repeats
        have hrepeats : u.repeats = true := by
          rw [todo_eq hb, htodo] at hkeeps
          exact hkeeps.resolve_right List.not_mem_nil
        rw [Timer.next_entry hrepeats] at hnext
        refine ⟨a, u.restart b.now, ?_, live_of_idle rfl _ _, u.restart_id b.now,
          Option.some.inj hnext⟩
        rw [hq.heap, if_pos ha, TimerQueue.restarted]
        dsimp only
        rw [hu, Option.bind_some, if_pos ⟨hrepeats, hcancel⟩]
      · rename_i hid
        obtain ⟨a, u, hu, hlive, rfl, rfl⟩ := (h.entries _ _).mp he
        have ha : a ∉ s.running.map Prod.snd := fun ha => hid ((hs.mem_ids hu).mpr ha)
        refine ⟨a, u, ?_, live_of_idle rfl _ _, rfl, rfl⟩
        rw [hq.heap, if_neg ha]
        exact hu
    · intro hex
      obtain ⟨a, u, hu, -, rfl, rfl⟩ := hex
      rw [hq.heap] at hu
      by_cases ha : a ∈ s.running.map Prod.snd
      · rw [if_pos ha] at hu
        obtain ⟨v, hv, hu⟩ := Option.bind_eq_some_iff.mp hu
        split at hu
        · rename_i hkeeps
          obtain rfl := Option.some.inj hu
          have hlive : s.Live a v := fun _ => ⟨hkeeps.2, Or.inl hkeeps.1⟩
          rw [v.restart_id, if_pos ((hs.mem_ids hv).mpr ha), h.entries_eq hv hlive,
            Option.bind_some, Timer.next_entry hkeeps.1]
        · cases hu
      · rw [if_neg ha] at hu
        rw [if_neg fun hid => ha ((hs.mem_ids hu).mp hid)]
        exact h.entries_eq hu fun hmem => absurd hmem ha
  · rw [hq.nextId]
    exact h.used id hid
  · cases hc

end Refines

/-- One step of the code is the step of the table that `label` says. -/
theorem refines_label {s s' : TimerLoop} {t : Table Nat Int} {i : Input} {l : Table.Label Nat Int}
    (hs : Consistent s) (h : Refines s t) (hstep : step s i = some s') (hl : label s i = some l) :
    ∃ t', Table.Step t l t' ∧ Refines s' t' := by
  cases i with
  | addTimer timer when interval now =>
      obtain ⟨q, hq, rfl⟩ := step_addTimer hstep
      obtain rfl := Option.some.inj hl
      exact h.addTimer hs hq
  | cancel timer =>
      obtain ⟨q, hq, rfl⟩ := step_cancel hstep
      obtain rfl := Option.some.inj hl
      exact h.cancel hs hq
  | expire => cases hl
  | wait => cases hl
  | handleRead now =>
      obtain ⟨hidle, -, expired, q, hq, rfl⟩ := step_handleRead hstep
      obtain rfl := Option.some.inj hl
      exact h.handleRead hs hidle hq
  | runNext =>
      obtain ⟨b, k, todo, hbatch, htodo, -, rfl⟩ := step_runNext hstep
      rw [label, todo_eq hbatch, htodo] at hl
      obtain rfl := Option.some.inj hl
      exact h.runNext hs hbatch htodo
  | finish clock =>
      obtain ⟨b, q, hbatch, htodo, hq, rfl⟩ := step_finish hstep
      obtain rfl := Option.some.inj hl
      rw [← running_eq hbatch] at hq
      obtain ⟨q₁, e, hq₁, -, rfl⟩ := handleReadRest_eq_some hs.nodup hq
      exact h.finish hs hbatch htodo hq₁ _

/-- A step that the table does not see. -/
theorem refines_silent {s s' : TimerLoop} {t : Table Nat Int} {i : Input} (h : Refines s t)
    (hstep : step s i = some s') (hl : label s i = none) : Refines s' t := by
  cases i with
  | expire =>
      obtain ⟨since, target, -, rfl⟩ := step_expire hstep
      exact ⟨h.entries, h.used, h.idle, h.batch⟩
  | wait =>
      obtain ⟨-, -, -, rfl⟩ := step_wait hstep
      exact ⟨h.entries, h.used, h.idle, h.batch⟩
  | runNext =>
      obtain ⟨b, k, todo, hbatch, htodo, -, -⟩ := step_runNext hstep
      rw [label, todo_eq hbatch, htodo] at hl
      cases hl
  | addTimer timer when interval now => cases hl
  | cancel timer => cases hl
  | handleRead now => cases hl
  | finish clock => cases hl

/-- What `timers_` holds when it stands for the table: one entry for each live timer,
keyed by the timer's expiration and its address, and no others; and no other timers exist. -/
structure Implements (q : TimerQueue) (t : Table Nat Int) : Prop where
  mem_timers : ∀ k, k ∈ q.timers ↔ ∃ id e u, t.entries id = some e ∧ e.expiration = k.1 ∧
    q.heap[k.2]? = some u ∧ u.id = id ∧ u.entry = e
  unique : ∀ id e, t.entries id = some e →
    ∃! k, k ∈ q.timers ∧ ∃ u, q.heap[k.2]? = some u ∧ u.id = id
  exist : ∀ (a : Nat) u, q.heap[a]? = some u → t.entries u.id = some u.entry

theorem Refines.implements {s : TimerLoop} {t : Table Nat Int} (h : Refines s t)
    (hs : Consistent s) (hidle : s.batch = none) : Implements s.queue t := by
  have hexist : ∀ (a : Nat) u, s.queue.heap[a]? = some u → t.entries u.id = some u.entry :=
    fun a u hu => h.entries_eq hu (Refines.live_of_idle hidle a u)
  refine ⟨fun k => ?_, fun id e he => ?_, hexist⟩
  · constructor
    · intro hk
      obtain ⟨u, hu, hexp⟩ := hs.keyed k hk
      exact ⟨u.id, u.entry, u, hexist _ u hu, hexp, hu, rfl, rfl⟩
    · intro hex
      obtain ⟨id, e, u, -, hexp, hu, -, rfl⟩ := hex
      have hk := hs.mem_timers hidle hu
      rwa [show (u.expiration, k.2) = k from Prod.ext hexp rfl] at hk
  · obtain ⟨a, u, hu, -, rfl, rfl⟩ := (h.entries _ _).mp he
    refine ⟨(u.expiration, a), ⟨hs.mem_timers hidle hu, u, hu, rfl⟩, ?_⟩
    intro k hand
    obtain ⟨hk, v, hv, hid⟩ := hand
    obtain rfl := hs.id_inj _ _ v u hv hu hid
    exact Prod.ext (hs.key_unique hk hu) rfl

end TimerLoop

end Dummyload
