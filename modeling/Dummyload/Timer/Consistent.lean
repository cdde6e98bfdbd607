import Dummyload.Timer.TimerQueue

/-!
# Dummyload.Timer.Consistent

What holds of the timer queue between any two steps, callbacks included: the
timers that exist are those in `timers_`, each under the key that its
`expiration()` makes, and those in the `expired` vector of a running `handleRead`;
none is in both. So the lookup in `cancel` finds a timer exactly when it is in
`timers_`, and no assertion of `insert`, `getExpired` or `reset` fails.
-/

namespace Dummyload

/-! ### The first entry -/

theorem TimerSet.first_eq_none_iff {timers : TimerSet} :
    TimerSet.first timers = none ↔ ∀ k, k ∉ timers := by
  rw [TimerSet.first, ← Std.ExtTreeSet.min?_eq_head?_toList, Std.ExtTreeSet.min?_eq_none_iff]
  constructor
  · intro heq k
    obtain rfl := heq
    exact Std.ExtTreeSet.not_mem_empty
  · intro h
    exact Std.ExtTreeSet.ext_mem fun k => iff_of_false (h k) Std.ExtTreeSet.not_mem_empty

theorem TimerSet.mem_of_first {timers : TimerSet} {k : TimerKey}
    (h : TimerSet.first timers = some k) : k ∈ timers := by
  rw [TimerSet.first, ← Std.ExtTreeSet.min?_eq_head?_toList] at h
  exact Std.ExtTreeSet.min?_mem h

/-- No entry is before the first. -/
theorem TimerSet.first_le {timers : TimerSet} {k k' : TimerKey}
    (h : TimerSet.first timers = some k) (hk' : k' ∈ timers) : k.1 ≤ k'.1 := by
  rw [TimerSet.first, ← Std.ExtTreeSet.min?_eq_head?_toList,
    Std.ExtTreeSet.min?_eq_some_iff_mem_and_forall] at h
  have hle := h.2 k' hk'
  by_contra hlt
  have hgt : keyCmp k' k = .lt := keyCmp_eq_lt.mpr (Or.inl (Int.not_le.mp hlt))
  have hswap : keyCmp k k' = (keyCmp k' k).swap := Std.OrientedCmp.eq_swap
  rw [hswap, hgt] at hle
  exact absurd hle (by decide)

theorem TimerSet.exists_first {timers : TimerSet} {k : TimerKey} (hk : k ∈ timers) :
    ∃ first, TimerSet.first timers = some first ∧ first.1 ≤ k.1 := by
  cases hfirst : TimerSet.first timers with
  | none => exact absurd hk (TimerSet.first_eq_none_iff.mp hfirst k)
  | some first => exact ⟨first, rfl, TimerSet.first_le hfirst hk⟩

theorem TimerSet.mem_insert {timers : TimerSet} {k k' : TimerKey} :
    k ∈ timers.insert k' ↔ k' = k ∨ k ∈ timers := by
  rw [Std.ExtTreeSet.mem_insert, Std.LawfulEqCmp.compare_eq_iff_eq]

theorem TimerSet.mem_erase {timers : TimerSet} {k k' : TimerKey} :
    k ∈ timers.erase k' ↔ k' ≠ k ∧ k ∈ timers := by
  rw [Std.ExtTreeSet.mem_erase, Ne, Std.LawfulEqCmp.compare_eq_iff_eq]

theorem TimerSet.mem_filter {timers : TimerSet} {f : TimerKey → Bool} {k : TimerKey} :
    k ∈ timers.filter f ↔ k ∈ timers ∧ f k = true := by
  rw [← Std.ExtTreeSet.mem_toList, Std.ExtTreeSet.toList_filter, List.mem_filter,
    Std.ExtTreeSet.mem_toList]

/-- The entries before `lower_bound(sentry)` are those that have expired. -/
theorem beforeSentry_iff {now : Int} {k : TimerKey} (h : k.2 < UINTPTR_MAX) :
    TimerQueue.beforeSentry now k = true ↔ k.1 ≤ now := by
  rw [TimerQueue.beforeSentry, decide_eq_true_eq, keyCmp_eq_lt]
  dsimp only
  omega

theorem TimerQueue.mem_expired {q : TimerQueue} {now : Int} {k : TimerKey} :
    k ∈ q.timers.toList.filter (beforeSentry now) ↔ k ∈ q.timers ∧ beforeSentry now k = true := by
  rw [List.mem_filter, Std.ExtTreeSet.mem_toList]

/-! ### The loop of `reset` -/

/-- The timer that `reset` leaves at the address of an expired one: the same,
restarted, if it repeats and was not cancelled. -/
def TimerQueue.restarted (q : TimerQueue) (now : Int) (a : Nat) : Option Timer :=
  q.heap[a]?.bind fun t =>
    if t.repeats ∧ a ∉ q.cancelingTimers then some (t.restart now) else none

/-- What `restartExpired` makes of `q` when the expired timers are at `as`. -/
structure Restarted (now : Int) (as : List Nat) (q q' : TimerQueue) : Prop where
  heap : ∀ a, q'.heap[a]? = if a ∈ as then q.restarted now a else q.heap[a]?
  timers : ∀ k, k ∈ q'.timers ↔
    k ∈ q.timers ∨ (k.2 ∈ as ∧ ∃ t, q.restarted now k.2 = some t ∧ t.expiration = k.1)
  cancelingTimers : q'.cancelingTimers = q.cancelingTimers
  callingExpiredTimers : q'.callingExpiredTimers = q.callingExpiredTimers
  timerfd : q'.timerfd = q.timerfd
  nextId : q'.nextId = q.nextId

theorem Restarted.refl (now : Int) (q : TimerQueue) : Restarted now [] q q :=
  ⟨by simp, by simp, rfl, rfl, rfl, rfl⟩

/-- One expired timer, then the others. -/
theorem Restarted.trans {now : Int} {a : Nat} {as : List Nat} {q q₁ q' : TimerQueue}
    (ha : a ∉ as) (h₁ : Restarted now [a] q q₁) (h : Restarted now as q₁ q') :
    Restarted now (a :: as) q q' := by
  have hsame : ∀ b, b ≠ a → q₁.restarted now b = q.restarted now b := fun b hb => by
    rw [TimerQueue.restarted, TimerQueue.restarted, h₁.heap, if_neg (by simpa using hb),
      h₁.cancelingTimers]
  have hmem : ∀ b ∈ as, b ≠ a := fun b hb hba => ha (hba ▸ hb)
  refine ⟨fun b => ?_, fun k => ?_, h.cancelingTimers.trans h₁.cancelingTimers,
    h.callingExpiredTimers.trans h₁.callingExpiredTimers, h.timerfd.trans h₁.timerfd,
    h.nextId.trans h₁.nextId⟩
  · rw [h.heap]
    by_cases hb : b ∈ as
    · rw [if_pos hb, if_pos (List.mem_cons_of_mem _ hb), hsame b (hmem b hb)]
    · rw [if_neg hb, h₁.heap]
      by_cases hba : b = a
      · rw [if_pos (by simp [hba]), if_pos (by simp [hba])]
      · rw [if_neg (by simp [hba]), if_neg (by simp [hba, hb])]
  · rw [h.timers, h₁.timers, List.mem_singleton, List.mem_cons, or_assoc]
    refine or_congr_right ?_
    constructor
    · intro hor
      rcases hor with ⟨hk, t, ht⟩ | ⟨hk, t, ht⟩
      · exact ⟨Or.inl hk, t, ht⟩
      · rw [hsame k.2 (hmem k.2 hk)] at ht
        exact ⟨Or.inr hk, t, ht⟩
    · intro hcase
      rcases hcase with ⟨hk | hk, t, ht⟩
      · exact Or.inl ⟨hk, t, ht⟩
      · rw [← hsame k.2 (hmem k.2 hk)] at ht
        exact Or.inr ⟨hk, t, ht⟩

/-- An expired timer that is kept. -/
theorem restarted_insert {now : Int} {a : Nat} {t : Timer} {q q₁ : TimerQueue}
    {earliestChanged : Bool} (ht : q.heap[a]? = some t)
    (hkeeps : t.repeats ∧ a ∉ q.cancelingTimers)
    (h : { q with heap := q.heap.insert a (t.restart now) }.insert a = some (earliestChanged, q₁)) :
    Restarted now [a] q q₁ := by
  obtain ⟨u, hu, -, -, rfl⟩ := TimerQueue.insert_eq_some h
  rw [Std.ExtTreeMap.getElem?_insert_self] at hu
  obtain rfl := Option.some.inj hu
  have hrestarted : q.restarted now a = some (t.restart now) := by
    rw [TimerQueue.restarted, ht, Option.bind_some, if_pos hkeeps]
  refine ⟨fun b => ?_, fun k => ?_, rfl, rfl, rfl, rfl⟩
  · dsimp only
    rw [Std.ExtTreeMap.getElem?_insert]
    by_cases hb : b = a
    · rw [if_pos (by simp [hb]), if_pos (by simp [hb]), hb, hrestarted]
    · rw [if_neg (by simpa using Ne.symm hb), if_neg (by simpa using hb)]
  · dsimp only
    rw [TimerSet.mem_insert, or_comm, List.mem_singleton]
    refine or_congr_right ?_
    constructor
    · intro heq
      obtain rfl := heq
      exact ⟨rfl, _, hrestarted, rfl⟩
    · intro hand
      obtain ⟨hk, u, hu, hexp⟩ := hand
      rw [hk, hrestarted] at hu
      obtain rfl := Option.some.inj hu
      exact Prod.ext hexp hk.symm

/-- An expired timer that is not kept. -/
theorem restarted_erase {now : Int} {a : Nat} {t : Timer} {q : TimerQueue}
    (ht : q.heap[a]? = some t) (hkeeps : ¬ (t.repeats ∧ a ∉ q.cancelingTimers)) :
    Restarted now [a] q { q with heap := q.heap.erase a } := by
  have hrestarted : q.restarted now a = none := by
    rw [TimerQueue.restarted, ht, Option.bind_some, if_neg hkeeps]
  refine ⟨fun b => ?_, fun k => ?_, rfl, rfl, rfl, rfl⟩
  · dsimp only
    rw [Std.ExtTreeMap.getElem?_erase]
    by_cases hb : b = a
    · rw [if_pos (by simp [hb]), if_pos (by simp [hb]), hb, hrestarted]
    · rw [if_neg (by simpa using Ne.symm hb), if_neg (by simpa using hb)]
  · rw [List.mem_singleton]
    constructor
    · exact Or.inl
    · intro hor
      rcases hor with hk | ⟨hk, u, hu, -⟩
      · exact hk
      · rw [hk, hrestarted] at hu
        cases hu

theorem restartExpired_eq_some {now : Int} {expired : List TimerKey} {q q' : TimerQueue}
    (hnodup : (expired.map Prod.snd).Nodup)
    (h : TimerQueue.restartExpired now expired q = some q') :
    Restarted now (expired.map Prod.snd) q q' := by
  induction expired generalizing q with
  | nil =>
      obtain rfl := Option.some.inj h
      exact .refl now q
  | cons k expired ih =>
      obtain ⟨e, a⟩ := k
      obtain ⟨hnot, hnodup⟩ := List.nodup_cons.mp hnodup
      rw [TimerQueue.restartExpired] at h
      obtain ⟨t, ht, h⟩ := Option.bind_eq_some_iff.mp h
      split at h
      · rename_i hkeeps
        obtain ⟨⟨earliestChanged, q₁⟩, hinsert, h⟩ := Option.bind_eq_some_iff.mp h
        exact .trans hnot (restarted_insert ht hkeeps hinsert) (ih hnodup h)
      · rename_i hkeeps
        exact .trans hnot (restarted_erase ht hkeeps) (ih hnodup h)

/-- The loop does not fail on timers that exist and are not in `timers_`. -/
theorem restartExpired_isSome {now : Int} {expired : List TimerKey} {q : TimerQueue}
    (hnodup : (expired.map Prod.snd).Nodup)
    (hheap : ∀ k ∈ expired, ∃ t, q.heap[k.2]? = some t)
    (hfree : ∀ k ∈ expired, ∀ e, (e, k.2) ∉ q.timers) :
    ∃ q', TimerQueue.restartExpired now expired q = some q' := by
  induction expired generalizing q with
  | nil => exact ⟨q, rfl⟩
  | cons k expired ih =>
      obtain ⟨e, a⟩ := k
      obtain ⟨hnot, hnodup⟩ := List.nodup_cons.mp hnodup
      obtain ⟨⟨t, ht⟩, hheap⟩ := List.forall_mem_cons.mp hheap
      obtain ⟨hfreea, hfree⟩ := List.forall_mem_cons.mp hfree
      have hne : ∀ k ∈ expired, k.2 ≠ a := fun k hk hka =>
        hnot (List.mem_map.mpr ⟨k, hk, hka⟩)
      have hother : ∀ {q₁ : TimerQueue}, Restarted now [a] q q₁ →
          ∃ q', TimerQueue.restartExpired now expired q₁ = some q' := by
        intro q₁ h₁
        refine ih hnodup (fun k hk => ?_) fun k hk e hin => ?_
        · rw [h₁.heap, if_neg (by simpa using hne k hk)]
          exact hheap k hk
        · rcases (h₁.timers _).mp hin with hin | ⟨hmem, -⟩
          · exact hfree k hk e hin
          · exact hne k hk (by simpa using hmem)
      rw [TimerQueue.restartExpired, ht, Option.bind_some]
      split
      · rename_i hkeeps
        have hinsert : { q with heap := q.heap.insert a (t.restart now) }.insert a =
            some (({ q with heap := q.heap.insert a (t.restart now) } : TimerQueue).isEarliest
              (t.restart now).expiration,
              { q with
                heap := q.heap.insert a (t.restart now)
                timers := q.timers.insert ((t.restart now).expiration, a) }) := by
          rw [TimerQueue.insert]
          dsimp only
          rw [Std.ExtTreeMap.getElem?_insert_self, Option.bind_some, if_neg (hfreea _)]
        rw [hinsert, Option.bind_some]
        exact hother (restarted_insert ht hkeeps hinsert)
      · rename_i hkeeps
        exact hother (restarted_erase ht hkeeps)

/-- The end of `handleRead`: the loop of `reset`, and the timerfd set for the first
entry if that is valid. -/
theorem handleReadRest_eq_some {now clock : Int} {expired : List TimerKey} {q q' : TimerQueue}
    (hnodup : (expired.map Prod.snd).Nodup)
    (h : q.handleReadRest expired now clock = some q') :
    ∃ q₁ e, Restarted now (expired.map Prod.snd) { q with callingExpiredTimers := false } q₁ ∧
      q₁.nextExpire = some e ∧
      q' = { q₁ with
        timerfd := if Timestamp.valid e then resetTimerfd e clock else q.timerfd } := by
  obtain ⟨q₁, hloop, h⟩ := Option.bind_eq_some_iff.mp h
  obtain ⟨e, he, rfl⟩ := Option.map_eq_some_iff.mp h
  have hq₁ := restartExpired_eq_some hnodup hloop
  refine ⟨q₁, e, hq₁, he, ?_⟩
  by_cases hvalid : Timestamp.valid e = true
  · rw [if_pos hvalid, if_pos hvalid]
  · rw [if_neg hvalid, if_neg hvalid, ← show q₁.timerfd = q.timerfd from hq₁.timerfd]

/-! ### The invariant -/

namespace TimerLoop

/-- The `expired` vector of the running `handleRead`. -/
def running (s : TimerLoop) : List TimerKey :=
  match s.batch with
  | none => []
  | some b => b.expired

theorem running_eq {s : TimerLoop} {b : Batch} (h : s.batch = some b) : s.running = b.expired := by
  rw [running, h]

theorem running_eq_nil {s : TimerLoop} (h : s.batch = none) : s.running = [] := by
  rw [running, h]

/-- The timers, those in `timers_` and those that are running, between two steps. -/
structure Consistent (s : TimerLoop) : Prop where
  /-- Every entry holds a timer, under the key of its expiration. -/
  keyed : ∀ k ∈ s.queue.timers, ∃ t, s.queue.heap[k.2]? = some t ∧ t.expiration = k.1
  runningKeyed : ∀ k ∈ s.running, ∃ t, s.queue.heap[k.2]? = some t ∧ t.expiration = k.1
  disjoint : ∀ k ∈ s.running, ∀ e, (e, k.2) ∉ s.queue.timers
  nodup : (s.running.map Prod.snd).Nodup
  /-- Every timer that exists is in `timers_` or running. -/
  listed : ∀ (a : Nat) t, s.queue.heap[a]? = some t →
    (t.expiration, a) ∈ s.queue.timers ∨ a ∈ s.running.map Prod.snd
  address_lt : ∀ (a : Nat) t, s.queue.heap[a]? = some t → a < UINTPTR_MAX
  id_lt : ∀ (a : Nat) t, s.queue.heap[a]? = some t → t.id < s.queue.nextId
  id_inj : ∀ (a b : Nat) t u, s.queue.heap[a]? = some t → s.queue.heap[b]? = some u →
    t.id = u.id → a = b
  calling : s.queue.callingExpiredTimers = s.batch.isSome
  todo : ∀ b, s.batch = some b → b.todo <:+ b.expired

theorem consistent_start : Consistent start where
  keyed k hk := absurd hk Std.ExtTreeSet.not_mem_empty
  runningKeyed _ hk := absurd hk List.not_mem_nil
  disjoint _ hk := absurd hk List.not_mem_nil
  nodup := List.nodup_nil
  listed a t h := by rw [start, Std.ExtTreeMap.getElem?_empty] at h; cases h
  address_lt a t h := by rw [start, Std.ExtTreeMap.getElem?_empty] at h; cases h
  id_lt a t h := by rw [start, Std.ExtTreeMap.getElem?_empty] at h; cases h
  id_inj a b t u h := by rw [start, Std.ExtTreeMap.getElem?_empty] at h; cases h
  calling := rfl
  todo b h := by cases h

namespace Consistent

variable {s : TimerLoop} (h : Consistent s)

include h

/-- A timer at an address of `timers_` is there under its key only. -/
theorem key_unique {e : Int} {a : Nat} {t : Timer} (hk : (e, a) ∈ s.queue.timers)
    (ht : s.queue.heap[a]? = some t) : e = t.expiration := by
  obtain ⟨u, hu, hexp⟩ := h.keyed _ hk
  rw [ht] at hu
  obtain rfl := Option.some.inj hu
  exact hexp.symm

/-- Outside of `handleRead`, every timer is in `timers_`. -/
theorem mem_timers (hidle : s.batch = none) {a : Nat} {t : Timer}
    (ht : s.queue.heap[a]? = some t) : (t.expiration, a) ∈ s.queue.timers := by
  rcases h.listed a t ht with hin | hin
  · exact hin
  · rw [running_eq_nil hidle] at hin
    cases hin

theorem addTimer {timer : Nat} {when now : Int} {interval : Interval} {q : TimerQueue}
    {rearmed : Bool} (hq : s.queue.addTimer timer when interval now = some q) :
    Consistent { s with queue := q, rearmed := rearmed } := by
  obtain ⟨hfree, hlt, -, rfl⟩ := TimerQueue.addTimer_eq_some hq
  have hnone : s.queue.heap[timer]? = none := Std.ExtTreeMap.getElem?_eq_none hfree
  have hold : ∀ {a : Nat} {t : Timer}, s.queue.heap[a]? = some t →
      (s.queue.heap.insert timer ⟨s.queue.nextId, when, interval⟩)[a]? = some t := by
    intro a t ht
    rw [Std.ExtTreeMap.getElem?_insert, if_neg, ht]
    rw [Nat.compare_eq_eq]
    intro heq
    obtain rfl := heq
    rw [hnone] at ht
    cases ht
  -- a timer of the new heap is the new one, or an old one at another address
  have hcases : ∀ {a : Nat} {t : Timer},
      (s.queue.heap.insert timer ⟨s.queue.nextId, when, interval⟩)[a]? = some t →
      (a = timer ∧ t = ⟨s.queue.nextId, when, interval⟩) ∨ s.queue.heap[a]? = some t := by
    intro a t ht
    rw [Std.ExtTreeMap.getElem?_insert] at ht
    split at ht
    · rename_i ha
      exact Or.inl ⟨(Nat.compare_eq_eq.mp ha).symm, (Option.some.inj ht).symm⟩
    · exact Or.inr ht
  exact {
    keyed := fun k hk => by
      rcases TimerSet.mem_insert.mp hk with rfl | hk
      · exact ⟨_, Std.ExtTreeMap.getElem?_insert_self, rfl⟩
      · obtain ⟨t, ht, hexp⟩ := h.keyed k hk
        exact ⟨t, hold ht, hexp⟩
    runningKeyed := fun k hk => by
      obtain ⟨t, ht, hexp⟩ := h.runningKeyed k hk
      exact ⟨t, hold ht, hexp⟩
    disjoint := fun k hk e hin => by
      rcases TimerSet.mem_insert.mp hin with heq | hin
      · obtain ⟨t, ht, -⟩ := h.runningKeyed k hk
        rw [← (Prod.mk.inj heq).2, hnone] at ht
        cases ht
      · exact h.disjoint k hk e hin
    nodup := h.nodup
    listed := fun a t ht => by
      rcases hcases ht with ⟨rfl, rfl⟩ | ht
      · exact Or.inl (TimerSet.mem_insert.mpr (Or.inl rfl))
      · exact (h.listed a t ht).imp_left fun hin => TimerSet.mem_insert.mpr (Or.inr hin)
    address_lt := fun a t ht => by
      rcases hcases ht with ⟨rfl, -⟩ | ht
      · exact hlt
      · exact h.address_lt a t ht
    id_lt := fun a t ht => by
      rcases hcases ht with ⟨-, rfl⟩ | ht
      · exact Nat.lt_succ_self _
      · exact Nat.lt_succ_of_lt (h.id_lt a t ht)
    id_inj := fun a b t u ht hu hid => by
      rcases hcases ht with ⟨rfl, rfl⟩ | ht'
      · rcases hcases hu with ⟨rfl, -⟩ | hu'
        · rfl
        · exact absurd hid (Nat.ne_of_gt (h.id_lt b u hu'))
      · rcases hcases hu with ⟨rfl, rfl⟩ | hu'
        · exact absurd hid (Nat.ne_of_lt (h.id_lt a t ht'))
        · exact h.id_inj a b t u ht' hu' hid
    calling := h.calling
    todo := h.todo }

theorem cancel {timer : Nat} {q : TimerQueue} (hq : s.queue.cancel timer = some q) :
    Consistent { s with queue := q } := by
  obtain ⟨t, ht, ⟨hin, rfl⟩ | ⟨-, -, rfl⟩ | ⟨-, -, rfl⟩⟩ := TimerQueue.cancel_eq_some hq
  · have herase : ∀ {a : Nat} {u : Timer}, a ≠ timer → s.queue.heap[a]? = some u →
        (s.queue.heap.erase timer)[a]? = some u := by
      intro a u ha hu
      rw [Std.ExtTreeMap.getElem?_erase, if_neg (by rw [Nat.compare_eq_eq]; exact ha.symm), hu]
    have hcases : ∀ {a : Nat} {u : Timer}, (s.queue.heap.erase timer)[a]? = some u →
        a ≠ timer ∧ s.queue.heap[a]? = some u := by
      intro a u hu
      rw [Std.ExtTreeMap.getElem?_erase] at hu
      split at hu
      · cases hu
      · rename_i ha
        exact ⟨fun hat => ha (Nat.compare_eq_eq.mpr hat.symm), hu⟩
    exact {
      keyed := fun k hk => by
        obtain ⟨hne, hk⟩ := TimerSet.mem_erase.mp hk
        obtain ⟨u, hu, hexp⟩ := h.keyed k hk
        refine ⟨u, herase (fun hkt => hne ?_) hu, hexp⟩
        rw [hkt, ht] at hu
        obtain rfl := Option.some.inj hu
        exact Prod.ext hexp hkt.symm
      runningKeyed := fun k hk => by
        obtain ⟨u, hu, hexp⟩ := h.runningKeyed k hk
        refine ⟨u, herase (fun hkt => ?_) hu, hexp⟩
        exact h.disjoint k hk t.expiration (by rw [hkt]; exact hin)
      disjoint := fun k hk e hin' => h.disjoint k hk e (TimerSet.mem_erase.mp hin').2
      nodup := h.nodup
      listed := fun a u hu => by
        obtain ⟨ha, hu⟩ := hcases hu
        refine (h.listed a u hu).imp_left fun hin' =>
          TimerSet.mem_erase.mpr ⟨fun heq => ha ?_, hin'⟩
        exact (Prod.mk.inj heq).2.symm
      address_lt := fun a u hu => h.address_lt a u (hcases hu).2
      id_lt := fun a u hu => h.id_lt a u (hcases hu).2
      id_inj := fun a b u v hu hv => h.id_inj a b u v (hcases hu).2 (hcases hv).2
      calling := h.calling
      todo := h.todo }
  · exact { h with calling := h.calling }
  · exact h

/-- An entry that `getExpired` leaves has not expired. -/
theorem lt_of_later {now : Int} {k : TimerKey}
    (hk : k ∈ s.queue.timers.filter fun k => !TimerQueue.beforeSentry now k) : now < k.1 := by
  obtain ⟨hin, hlater⟩ := TimerSet.mem_filter.mp hk
  obtain ⟨t, ht, -⟩ := h.keyed k hin
  have hnot : ¬ TimerQueue.beforeSentry now k = true := by simpa using hlater
  rwa [beforeSentry_iff (h.address_lt _ t ht), Int.not_le] at hnot

/-- Expired entries have different timers. -/
theorem nodup_expired (now : Int) :
    ((s.queue.timers.toList.filter (TimerQueue.beforeSentry now)).map Prod.snd).Nodup := by
  refine List.Nodup.map_on ?_ (List.Nodup.filter _ ?_)
  · intro k hk k' hk' hsnd
    obtain ⟨t, ht, hexp⟩ := h.keyed k (TimerQueue.mem_expired.mp hk).1
    obtain ⟨t', ht', hexp'⟩ := h.keyed k' (TimerQueue.mem_expired.mp hk').1
    rw [hsnd, ht'] at ht
    obtain rfl := Option.some.inj ht
    exact Prod.ext (hexp.symm.trans hexp') hsnd
  · refine List.Pairwise.imp (fun hne => ?_) Std.ExtTreeSet.distinct_toList
    rwa [Std.LawfulEqCmp.compare_eq_iff_eq] at hne

theorem handleRead (hidle : s.batch = none) {now : Int} {expired : List TimerKey} {q : TimerQueue}
    {waiting : Bool} (hq : s.queue.handleRead now = some (expired, q)) :
    Consistent { s with
      queue := q, batch := some ⟨now, expired, expired⟩, waiting := waiting } := by
  obtain ⟨-, rfl, rfl⟩ := TimerQueue.handleRead_eq_some hq
  exact {
    keyed := fun k hk => h.keyed k (TimerSet.mem_filter.mp hk).1
    runningKeyed := fun k hk => h.keyed k (TimerQueue.mem_expired.mp hk).1
    disjoint := fun k hk e hin => by
      -- the same timer has one key, which is before the sentry or is not
      obtain ⟨hin, hlater⟩ := TimerSet.mem_filter.mp hin
      obtain ⟨hk, hbefore⟩ := TimerQueue.mem_expired.mp hk
      obtain ⟨t, ht, hexp⟩ := h.keyed k hk
      have heq : (e, k.2) = k := Prod.ext ((h.key_unique hin ht).trans hexp) rfl
      rw [heq, hbefore] at hlater
      cases hlater
    nodup := h.nodup_expired now
    listed := fun a t ht => by
      have hin := h.mem_timers hidle ht
      cases hbefore : TimerQueue.beforeSentry now (t.expiration, a) with
      | false => exact Or.inl (TimerSet.mem_filter.mpr ⟨hin, by rw [hbefore]; rfl⟩)
      | true =>
          exact Or.inr (List.mem_map.mpr ⟨_, TimerQueue.mem_expired.mpr ⟨hin, hbefore⟩, rfl⟩)
    address_lt := h.address_lt
    id_lt := h.id_lt
    id_inj := h.id_inj
    calling := rfl
    todo := fun b hb => by
      obtain rfl := Option.some.inj hb
      exact List.suffix_rfl }

theorem reset {q : TimerQueue} {now : Int}
    (hq : Restarted now (s.running.map Prod.snd) { s.queue with callingExpiredTimers := false } q)
    (timerfd : Timerfd) :
    Consistent { s with queue := { q with timerfd := timerfd }, batch := none } := by
  -- a timer that exists afterwards was restarted, or is as before and in `timers_`
  have hcases : ∀ {a : Nat} {t : Timer}, q.heap[a]? = some t →
      (a ∈ s.running.map Prod.snd ∧ s.queue.restarted now a = some t) ∨
        (a ∉ s.running.map Prod.snd ∧ s.queue.heap[a]? = some t) := by
    intro a t ht
    rw [hq.heap] at ht
    by_cases ha : a ∈ s.running.map Prod.snd
    · rw [if_pos ha] at ht
      exact Or.inl ⟨ha, ht⟩
    · rw [if_neg ha] at ht
      exact Or.inr ⟨ha, ht⟩
  have horigin : ∀ {a : Nat} {t : Timer}, q.heap[a]? = some t →
      ∃ u, s.queue.heap[a]? = some u ∧ u.id = t.id := by
    intro a t ht
    rcases hcases ht with ⟨-, ht⟩ | ⟨-, ht⟩
    · obtain ⟨u, hu, ht⟩ := Option.bind_eq_some_iff.mp ht
      split at ht
      · obtain rfl := Option.some.inj ht
        exact ⟨u, hu, by rw [Timer.restart]; split <;> rfl⟩
      · cases ht
    · exact ⟨t, ht, rfl⟩
  exact {
    keyed := fun k hk => by
      rcases (hq.timers k).mp hk with hk | ⟨ha, t, ht, hexp⟩
      · obtain ⟨t, ht, hexp⟩ := h.keyed k hk
        refine ⟨t, ?_, hexp⟩
        have ha : k.2 ∉ s.running.map Prod.snd := fun ha => by
          obtain ⟨k', hk', hsnd⟩ := List.mem_map.mp ha
          exact h.disjoint k' hk' k.1 (by rw [hsnd]; exact hk)
        exact (hq.heap k.2).trans ((if_neg ha).trans ht)
      · exact ⟨t, (hq.heap k.2).trans ((if_pos ha).trans ht), hexp⟩
    runningKeyed := fun k hk => absurd hk List.not_mem_nil
    disjoint := fun k hk => absurd hk List.not_mem_nil
    nodup := List.nodup_nil
    listed := fun a t ht => by
      refine Or.inl ((hq.timers _).mpr ?_)
      rcases hcases ht with ⟨ha, ht⟩ | ⟨ha, ht⟩
      · exact Or.inr ⟨ha, t, ht, rfl⟩
      · exact Or.inl ((h.listed a t ht).resolve_right ha)
    address_lt := fun a t ht => by
      obtain ⟨u, hu, -⟩ := horigin ht
      exact h.address_lt a u hu
    id_lt := fun a t ht => by
      obtain ⟨u, hu, hid⟩ := horigin ht
      have hlt := h.id_lt a u hu
      rw [hid] at hlt
      rw [hq.nextId]
      exact hlt
    id_inj := fun a b t t' ht ht' hid => by
      obtain ⟨u, hu, hu'⟩ := horigin ht
      obtain ⟨v, hv, hv'⟩ := horigin ht'
      exact h.id_inj a b u v hu hv (hu'.trans (hid.trans hv'.symm))
    calling := hq.callingExpiredTimers
    todo := fun b hb => by cases hb }

end Consistent

theorem consistent_step {s t : TimerLoop} {i : Input} (h : Consistent s)
    (hstep : step s i = some t) : Consistent t := by
  cases i with
  | addTimer timer when interval now =>
      obtain ⟨q, hq, rfl⟩ := step_addTimer hstep
      exact h.addTimer hq
  | cancel timer =>
      obtain ⟨q, hq, rfl⟩ := step_cancel hstep
      exact h.cancel hq
  | expire =>
      obtain ⟨since, target, -, rfl⟩ := step_expire hstep
      exact { h with calling := h.calling }
  | wait =>
      obtain ⟨-, -, -, rfl⟩ := step_wait hstep
      exact { h with calling := h.calling }
  | handleRead now =>
      obtain ⟨hidle, -, expired, q, hq, rfl⟩ := step_handleRead hstep
      exact h.handleRead hidle hq
  | runNext =>
      obtain ⟨b, k, todo, hbatch, htodo, -, rfl⟩ := step_runNext hstep
      have hrunning : s.running = b.expired := running_eq hbatch
      have hsuffix : todo <:+ b.expired := by
        have hall := h.todo _ hbatch
        rw [htodo] at hall
        exact (List.suffix_cons k todo).trans hall
      exact {
        keyed := h.keyed
        runningKeyed := hrunning ▸ h.runningKeyed
        disjoint := hrunning ▸ h.disjoint
        nodup := hrunning ▸ h.nodup
        listed := hrunning ▸ h.listed
        address_lt := h.address_lt
        id_lt := h.id_lt
        id_inj := h.id_inj
        calling := by rw [h.calling, hbatch]; rfl
        todo := fun b' hb' => by
          obtain rfl := Option.some.inj hb'
          exact hsuffix }
  | finish clock =>
      obtain ⟨b, q, hbatch, -, hq, rfl⟩ := step_finish hstep
      rw [← running_eq hbatch] at hq
      obtain ⟨q₁, e, hq₁, -, rfl⟩ := handleReadRest_eq_some h.nodup hq
      exact h.reset hq₁ _

/-! ### Progress -/

/-- What the callers and the loop may do: a new timer is at a free address, a cancelled
one exists, and `handleRead` is dispatched to read an expiration. -/
def Allowed (s : TimerLoop) : Input → Prop
  | .addTimer timer _ _ _ => timer ∉ s.queue.heap ∧ timer < UINTPTR_MAX
  | .cancel timer => timer ∈ s.queue.heap
  | .expire => ∃ since target, s.queue.timerfd = .armed since target
  | .wait =>
    s.batch = none ∧ s.waiting = false ∧ ∃ since target, s.queue.timerfd = .expired since target
  | .handleRead _ =>
    s.batch = none ∧ s.waiting = true ∧ ∃ since target, s.queue.timerfd = .expired since target
  | .runNext => ∃ b k todo, s.batch = some b ∧ b.todo = k :: todo
  | .finish _ => ∃ b, s.batch = some b ∧ b.todo = []

namespace Consistent

variable {s : TimerLoop} (h : Consistent s)

include h

/-- The assertion of `insert` does not fail on a new timer. -/
theorem addTimer_isSome {timer : Nat} (hfree : timer ∉ s.queue.heap) (hlt : timer < UINTPTR_MAX)
    (when : Int) (interval : Interval) (now : Int) :
    (s.queue.addTimer timer when interval now).isSome = true := by
  have hnot : (when, timer) ∉ s.queue.timers := by
    intro hin
    obtain ⟨t, ht, -⟩ := h.keyed _ hin
    rw [Std.ExtTreeMap.getElem?_eq_none hfree] at ht
    cases ht
  rw [TimerQueue.addTimer, if_neg (not_or.mpr ⟨hfree, Nat.not_le.mpr hlt⟩), Option.isSome_map,
    TimerQueue.insert, Std.ExtTreeMap.getElem?_insert_self, Option.bind_some,
    if_neg hnot]
  rfl

/-- The assertion of `getExpired` does not fail. -/
theorem getExpired_isSome {q : TimerQueue} (hq : q.timers = s.queue.timers) (now : Int) :
    (q.getExpired now).isSome = true := by
  have hall : (TimerSet.first (s.queue.timers.filter fun k =>
      !TimerQueue.beforeSentry now k)).all (fun k => decide (now < k.1)) = true := by
    cases hfirst : TimerSet.first (s.queue.timers.filter fun k =>
        !TimerQueue.beforeSentry now k) with
    | none => rfl
    | some k => exact decide_eq_true (h.lt_of_later (TimerSet.mem_of_first hfirst))
  rw [TimerQueue.getExpired, hq, if_pos hall]
  rfl

/-- The assertion of `insert` does not fail on the timers that `reset` restarts, and the
first entry has a timer. -/
theorem handleReadRest_isSome (now clock : Int) :
    (s.queue.handleReadRest s.running now clock).isSome = true := by
  obtain ⟨q, hq⟩ : ∃ q, TimerQueue.restartExpired now s.running
      { s.queue with callingExpiredTimers := false } = some q := by
    refine restartExpired_isSome h.nodup (fun k hk => ?_) h.disjoint
    obtain ⟨t, ht, -⟩ := h.runningKeyed k hk
    exact ⟨t, ht⟩
  have hkeyed := (h.reset (restartExpired_eq_some h.nodup hq) .disarmed).keyed
  have hnext : q.nextExpire.isSome = true := by
    rw [TimerQueue.nextExpire]
    split
    · rfl
    · rename_i first hfirst
      obtain ⟨t, ht, -⟩ := hkeyed first (TimerSet.mem_of_first hfirst)
      have ht' : q.heap[first.2]? = some t := ht
      rw [ht']
      rfl
  rw [TimerQueue.handleReadRest, TimerQueue.reset, hq, Option.bind_some, Option.isSome_map]
  exact hnext

end Consistent

/-- No assertion fails, and no timer is used that does not exist; the entry that `cancel` has
erased is another matter. -/
theorem step_isSome {s : TimerLoop} {i : Input} (h : Consistent s) (hi : Allowed s i) :
    (step s i).isSome = true := by
  cases i with
  | addTimer timer when interval now =>
      rw [step, Option.isSome_map]
      exact h.addTimer_isSome hi.1 hi.2 when interval now
  | cancel timer =>
      rw [step, Option.isSome_map, TimerQueue.cancel, Option.isSome_map]
      exact Std.ExtTreeMap.isSome_getElem?_iff_mem.mpr hi
  | expire =>
      obtain ⟨since, target, hfd⟩ := hi
      rw [step, hfd]
      rfl
  | wait =>
      obtain ⟨hidle, hwait, since, target, hfd⟩ := hi
      rw [step, hidle, hwait, hfd]
      rfl
  | handleRead now =>
      obtain ⟨hidle, hwait, since, target, hfd⟩ := hi
      rw [step, hidle, hwait]
      dsimp only
      rw [Option.isSome_map, TimerQueue.handleRead, hfd, readTimerfd, Option.bind_some,
        Option.isSome_map]
      refine h.getExpired_isSome ?_ now
      rfl
  | runNext =>
      obtain ⟨⟨now, expired, _⟩, k, todo, hb, rfl⟩ := hi
      have hk : k ∈ s.running := by
        rw [running_eq hb]
        exact (h.todo _ hb).subset List.mem_cons_self
      obtain ⟨t, ht, -⟩ := h.runningKeyed k hk
      rw [step, hb]
      dsimp only
      rw [ht]
      rfl
  | finish clock =>
      obtain ⟨⟨now, expired, _⟩, hb, rfl⟩ := hi
      have hrest := h.handleReadRest_isSome now clock
      rw [running_eq hb] at hrest
      rw [step, hb]
      dsimp only
      rw [Option.isSome_map]
      exact hrest

end TimerLoop

end Dummyload
