import Dummyload.Timer.Refinement

/-!
# Dummyload.Timer.Cancellation

Whether a cancelled timer can still run. `cancel` looks in `timers_`, and for a
timer that is not there it notes `cancelingTimers_`, which only `reset` reads:
the loop of `handleRead` invokes every callback of the `expired` vector. So what
decides is whether the cancelled timer is one that this loop has yet to reach
(`cancelFinal_iff`).
-/

namespace Dummyload

namespace TimerLoop

open Lib.Machine (run Meets run_cons_eq_some meets_cons)
open Lib.Simulation (trace trace_cons)

/-- The second label does not run the timer that the first cancels. -/
def NotRun : Table.Label Nat Int → Table.Label Nat Int → Prop
  | .cancel id, .run id' => id' ≠ id
  | _, _ => True

instance (l l' : Table.Label Nat Int) : Decidable (NotRun l l') := by
  cases l <;> cases l' <;> unfold NotRun <;> infer_instance

/-- No callback is invoked after its timer was cancelled. -/
def CancelFinal (labels : List (Table.Label Nat Int)) : Prop := labels.Pairwise NotRun

instance (labels : List (Table.Label Nat Int)) : Decidable (CancelFinal labels) :=
  inferInstanceAs (Decidable (labels.Pairwise NotRun))

/-- A cancelled timer is not one that the running `handleRead` has yet to run. -/
def NotPending (s : TimerLoop) : Input → Prop
  | .cancel timer => timer ∉ s.todo.map Prod.snd
  | _ => True

instance (s : TimerLoop) : (i : Input) → Decidable (NotPending s i)
  | .cancel timer => inferInstanceAs (Decidable (timer ∉ s.todo.map Prod.snd))
  | .addTimer _ _ _ _ => .isTrue trivial
  | .expire => .isTrue trivial
  | .wait => .isTrue trivial
  | .handleRead _ => .isTrue trivial
  | .runNext => .isTrue trivial
  | .finish _ => .isTrue trivial

/-! ### A cancelled timer that is not pending -/

/-- The timer with this name does not run any more: it is gone, or `reset` will delete it
and it is not pending. -/
structure Gone (s : TimerLoop) (id : Nat) : Prop where
  used : id < s.queue.nextId
  dead : ∀ (a : Nat) u, s.queue.heap[a]? = some u → u.id = id → ¬ s.Live a u
  ran : ∀ (a : Nat) u, s.queue.heap[a]? = some u → u.id = id → a ∉ s.todo.map Prod.snd

/-- A step after which the timers of the heap that `id` may name are no more alive and no
more pending than before. -/
theorem Gone.of_subset {s t : TimerLoop} {id : Nat} (h : Gone s id)
    (hnext : s.queue.nextId ≤ t.queue.nextId)
    (hheap : ∀ (a : Nat) u, t.queue.heap[a]? = some u → u.id = id → s.queue.heap[a]? = some u)
    (hlive : ∀ (a : Nat) u, t.Live a u → s.Live a u)
    (htodo : ∀ a ∈ t.todo.map Prod.snd, a ∈ s.todo.map Prod.snd) : Gone t id where
  used := h.used.trans_le hnext
  dead a u hu hid hl := h.dead a u (hheap a u hu hid) hid (hlive a u hl)
  ran a u hu hid ha := h.ran a u (hheap a u hu hid) hid (htodo a ha)

theorem gone_step {s t : TimerLoop} {i : Input} {id : Nat} (hs : Consistent s)
    (hstep : step s i = some t) (h : Gone s id) : Gone t id := by
  cases i with
  | addTimer timer when interval now =>
      obtain ⟨q, hq, rfl⟩ := step_addTimer hstep
      obtain ⟨-, -, -, rfl⟩ := TimerQueue.addTimer_eq_some hq
      refine h.of_subset (Nat.le_succ _) (fun a u hu hid => ?_) (fun a u hl => hl) fun a ha => ha
      dsimp only at hu
      rw [Std.ExtTreeMap.getElem?_insert] at hu
      split at hu
      · -- the new timer has a name of its own
        obtain rfl := Option.some.inj hu
        exact absurd hid (Nat.ne_of_gt h.used)
      · exact hu
  | cancel timer =>
      obtain ⟨q, hq, rfl⟩ := step_cancel hstep
      obtain ⟨u₀, -, ⟨-, rfl⟩ | ⟨-, -, rfl⟩ | ⟨-, -, rfl⟩⟩ := TimerQueue.cancel_eq_some hq
      · refine h.of_subset le_rfl (fun a u hu _ => ?_) (fun a u hl => hl) fun a ha => ha
        dsimp only at hu
        rw [Std.ExtTreeMap.getElem?_erase] at hu
        split at hu
        · cases hu
        · exact hu
      · refine h.of_subset le_rfl (fun a u hu _ => hu) (fun a u hl ha => ?_) fun a ha => ha
        obtain ⟨hnot, hor⟩ := hl ha
        exact ⟨fun hin => hnot (Finset.mem_insert_of_mem hin), hor⟩
      · exact h
  | expire =>
      obtain ⟨since, target, -, rfl⟩ := step_expire hstep
      exact h.of_subset le_rfl (fun a u hu _ => hu) (fun a u hl => hl) fun a ha => ha
  | wait =>
      obtain ⟨-, -, -, rfl⟩ := step_wait hstep
      exact h.of_subset le_rfl (fun a u hu _ => hu) (fun a u hl => hl) fun a ha => ha
  | handleRead now =>
      -- outside of a batch every timer that exists is alive
      obtain ⟨hidle, -, expired, q, hq, rfl⟩ := step_handleRead hstep
      obtain ⟨-, -, rfl⟩ := TimerQueue.handleRead_eq_some hq
      have hgone : ∀ (a : Nat) u, s.queue.heap[a]? = some u → u.id ≠ id := fun a u hu hid =>
        h.dead a u hu hid (Refines.live_of_idle hidle a u)
      exact ⟨h.used, fun a u hu hid => absurd hid (hgone a u hu),
        fun a u hu hid => absurd hid (hgone a u hu)⟩
  | runNext =>
      obtain ⟨b, k, todo, hbatch, htodo, -, rfl⟩ := step_runNext hstep
      have hsub : ∀ a ∈ todo.map Prod.snd, a ∈ s.todo.map Prod.snd := fun a ha => by
        rw [todo_eq hbatch, htodo]
        exact List.mem_cons_of_mem _ ha
      refine h.of_subset le_rfl (fun a u hu _ => hu) (fun a u hl ha => ?_) hsub
      rw [running_eq hbatch] at ha
      obtain ⟨hnot, hor⟩ := hl ha
      exact ⟨hnot, hor.imp_right (hsub a)⟩
  | finish clock =>
      obtain ⟨b, q, hbatch, -, hq, rfl⟩ := step_finish hstep
      rw [← running_eq hbatch] at hq
      obtain ⟨q₁, e, hq₁, -, rfl⟩ := handleReadRest_eq_some hs.nodup hq
      refine ⟨by rw [hq₁.nextId]; exact h.used, fun a u hu hid => ?_, fun a u hu hid ha => ?_⟩
      · dsimp only at hu
        rw [hq₁.heap] at hu
        split at hu
        · -- `reset` keeps only timers that are alive
          obtain ⟨v, hv, hu⟩ := Option.bind_eq_some_iff.mp hu
          split at hu
          · rename_i hkeeps
            obtain rfl := Option.some.inj hu
            rw [Timer.restart_id] at hid
            exact absurd (fun _ => ⟨hkeeps.2, Or.inl hkeeps.1⟩) (h.dead a v hv hid)
          · cases hu
        · rename_i hnot
          exact absurd (fun ha => absurd ha hnot) (h.dead a u hu hid)
      · cases ha

/-- A timer that was cancelled when it was not pending is gone. -/
theorem gone_cancel {s t : TimerLoop} {timer : Nat} (hs : Consistent s)
    (hpending : NotPending s (.cancel timer)) (hstep : step s (.cancel timer) = some t) :
    Gone t (s.queue.idAt timer) := by
  obtain ⟨q, hq, rfl⟩ := step_cancel hstep
  obtain ⟨u₀, hu₀, hcases⟩ := TimerQueue.cancel_eq_some hq
  rw [TimerQueue.idAt_eq hu₀]
  -- the name belongs to the timer at this address only
  have hat : ∀ (a : Nat) u, s.queue.heap[a]? = some u → u.id = u₀.id → a = timer :=
    fun a u hu hid => hs.id_inj a timer u u₀ hu hu₀ hid
  rcases hcases with ⟨-, rfl⟩ | ⟨hnot, -, rfl⟩ | ⟨hnot, hcalling, rfl⟩
  · -- it was in `timers_`, and is deleted
    have herased : ∀ (a : Nat) u, (s.queue.heap.erase timer)[a]? = some u → u.id ≠ u₀.id := by
      intro a u hu hid
      rw [Std.ExtTreeMap.getElem?_erase] at hu
      split at hu
      · cases hu
      · rename_i hne
        exact hne (Nat.compare_eq_eq.mpr (hat a u hu hid).symm)
    exact ⟨hs.id_lt timer u₀ hu₀, fun a u hu hid => absurd hid (herased a u hu),
      fun a u hu hid => absurd hid (herased a u hu)⟩
  · -- it has run in this batch, and `reset` finds it in `cancelingTimers_`
    have hrunning := (hs.listed timer u₀ hu₀).resolve_left hnot
    refine ⟨hs.id_lt timer u₀ hu₀, fun a u hu hid hlive => ?_, fun a u hu hid => ?_⟩
    · obtain rfl := hat a u hu hid
      exact (hlive hrunning).1 (Finset.mem_insert_self _ _)
    · obtain rfl := hat a u hu hid
      exact hpending
  · -- outside of a batch it is in `timers_`
    have hidle : s.batch = none := by
      rw [hs.calling] at hcalling
      exact Option.isSome_eq_false_iff.mp hcalling |> Option.isNone_iff_eq_none.mp
    exact absurd (hs.mem_timers hidle hu₀) hnot

/-! ### A cancelled timer that is pending -/

/-- Only a running batch has pending timers. -/
theorem exists_batch {s : TimerLoop} {a : Nat} (ha : a ∈ s.todo.map Prod.snd) :
    ∃ b, s.batch = some b := by
  cases hbatch : s.batch with
  | none =>
      rw [todo, hbatch] at ha
      cases ha
  | some b => exact ⟨b, rfl⟩

theorem Consistent.mem_running {s : TimerLoop} (hs : Consistent s) {k : TimerKey}
    (hk : k ∈ s.todo) : k ∈ s.running := by
  obtain ⟨b, hb⟩ := exists_batch (List.mem_map_of_mem hk)
  rw [todo_eq hb] at hk
  rw [running_eq hb]
  exact (hs.todo b hb).subset hk

/-- In a step, a pending timer runs, or it is pending under the same name afterwards. -/
theorem run_or_pending_step {s u : TimerLoop} {i : Input} {a : Nat} (hs : Consistent s)
    (ha : a ∈ s.todo.map Prod.snd) (hu : step s i = some u) :
    label s i = some (.run (s.queue.idAt a)) ∨
      (a ∈ u.todo.map Prod.snd ∧ u.queue.idAt a = s.queue.idAt a) := by
  obtain ⟨b, hb⟩ := exists_batch ha
  obtain ⟨k, hk, rfl⟩ := List.mem_map.mp ha
  have hkrunning := hs.mem_running hk
  rw [todo_eq hb] at hk
  obtain ⟨v, hv, -⟩ := hs.runningKeyed k hkrunning
  cases i with
  | addTimer timer when interval now =>
      obtain ⟨q, hq, rfl⟩ := step_addTimer hu
      obtain ⟨hfree, -, -, rfl⟩ := TimerQueue.addTimer_eq_some hq
      refine Or.inr ⟨ha, ?_⟩
      have hne : compare timer k.2 ≠ .eq := by
        rw [Ne, Nat.compare_eq_eq]
        intro heq
        rw [heq, Std.ExtTreeMap.mem_iff_isSome_getElem?, hv] at hfree
        exact hfree rfl
      have hv' :
          (s.queue.heap.insert timer ⟨s.queue.nextId, when, interval⟩)[k.2]? = some v := by
        rw [Std.ExtTreeMap.getElem?_insert, if_neg hne, hv]
      rw [TimerQueue.idAt_eq hv]
      exact TimerQueue.idAt_eq hv'
  | cancel timer =>
      obtain ⟨q, hq, rfl⟩ := step_cancel hu
      obtain ⟨u₀, hu₀, ⟨hin, rfl⟩ | ⟨-, -, rfl⟩ | ⟨-, -, rfl⟩⟩ := TimerQueue.cancel_eq_some hq
      · refine Or.inr ⟨ha, ?_⟩
        have hne : compare timer k.2 ≠ .eq := by
          rw [Ne, Nat.compare_eq_eq]
          intro heq
          exact hs.disjoint k hkrunning u₀.expiration (heq ▸ hin)
        have hv' : (s.queue.heap.erase timer)[k.2]? = some v := by
          rw [Std.ExtTreeMap.getElem?_erase, if_neg hne, hv]
        rw [TimerQueue.idAt_eq hv]
        exact TimerQueue.idAt_eq hv'
      · exact Or.inr ⟨ha, rfl⟩
      · exact Or.inr ⟨ha, rfl⟩
  | expire =>
      obtain ⟨since, target, -, rfl⟩ := step_expire hu
      exact Or.inr ⟨ha, rfl⟩
  | wait =>
      obtain ⟨-, -, -, rfl⟩ := step_wait hu
      exact Or.inr ⟨ha, rfl⟩
  | handleRead now =>
      obtain ⟨hnone, -⟩ := step_handleRead hu
      rw [hb] at hnone
      cases hnone
  | runNext =>
      obtain ⟨b', k', todo, hb', htodo, -, rfl⟩ := step_runNext hu
      obtain rfl := Option.some.inj (hb.symm.trans hb')
      rw [htodo] at hk
      rcases List.mem_cons.mp hk with rfl | hk
      · refine Or.inl ?_
        rw [label, todo_eq hb, htodo]
        rfl
      · exact Or.inr ⟨List.mem_map.mpr ⟨k, hk, rfl⟩, rfl⟩
  | finish clock =>
      obtain ⟨b', q, hb', htodo, -, rfl⟩ := step_finish hu
      obtain rfl := Option.some.inj (hb.symm.trans hb')
      rw [htodo] at hk
      cases hk

/-- Before the batch ends, every pending timer runs. -/
theorem run_mem_trace {s t : TimerLoop} {is : List Input} {a : Nat} (hs : Consistent s)
    (ha : a ∈ s.todo.map Prod.snd) (hrun : run step s is = some t) (hidle : t.batch = none) :
    .run (s.queue.idAt a) ∈ trace step label s is := by
  induction is generalizing s with
  | nil =>
      obtain rfl : s = t := by simpa using hrun
      obtain ⟨b, hb⟩ := exists_batch ha
      rw [hidle] at hb
      cases hb
  | cons i is ih =>
      obtain ⟨u, hu, hrun⟩ := run_cons_eq_some.mp hrun
      rw [trace_cons hu]
      rcases run_or_pending_step hs ha hu with hl | ⟨hua, hid⟩
      · exact List.mem_append_left _ (Option.mem_toList.mpr hl)
      · rw [← hid]
        exact List.mem_append_right _ (ih (consistent_step hs hu) hua hrun)

/-! ### The labels -/

theorem notRun_iff {l l' : Table.Label Nat Int} :
    NotRun l l' ↔ ∀ id, l = .cancel id → l' ≠ .run id := by
  cases l <;> cases l' <;> simp [NotRun]

theorem label_cancel {s : TimerLoop} {i : Input} {id : Nat}
    (h : label s i = some (.cancel id)) : ∃ timer, i = .cancel timer ∧ s.queue.idAt timer = id := by
  cases i with
  | cancel timer => exact ⟨timer, rfl, Table.Label.cancel.inj (Option.some.inj h)⟩
  | addTimer timer when interval now => cases h
  | expire => cases h
  | wait => cases h
  | handleRead now => cases h
  | runNext =>
      obtain ⟨k, -, hk⟩ := Option.map_eq_some_iff.mp h
      cases hk
  | finish clock => cases h

theorem label_run {s : TimerLoop} {i : Input} {id : Nat} (h : label s i = some (.run id)) :
    ∃ k, k ∈ s.todo ∧ s.queue.idAt k.2 = id := by
  cases i with
  | runNext =>
      obtain ⟨k, hk, hid⟩ := Option.map_eq_some_iff.mp h
      exact ⟨k, List.mem_of_mem_head? hk, Table.Label.run.inj hid⟩
  | addTimer timer when interval now => cases h
  | cancel timer => cases h
  | expire => cases h
  | wait => cases h
  | handleRead now => cases h
  | finish clock => cases h

/-- A timer that is gone does not run. -/
theorem Gone.not_run {s : TimerLoop} {i : Input} {id : Nat} (hs : Consistent s) (h : Gone s id) :
    label s i ≠ some (.run id) := by
  intro hl
  obtain ⟨k, hk, hid⟩ := label_run hl
  obtain ⟨u, hu, -⟩ := hs.runningKeyed k (hs.mem_running hk)
  rw [TimerQueue.idAt_eq hu] at hid
  exact h.ran k.2 u hu hid (List.mem_map_of_mem hk)

theorem cancelFinal_of_notPending {s t : TimerLoop} {is : List Input} (hs : Consistent s)
    (h : Meets step NotPending s is) (hrun : run step s is = some t) :
    CancelFinal (trace step label s is) := by
  refine Lib.Simulation.pairwise_trace (fun l s => ∀ id, l = .cancel id → Gone s id)
    (fun _ _ _ hs hstep => consistent_step hs hstep) ?_ ?_ ?_ hs h hrun
  · intro s i s' l hs hP hstep hl id hcancel
    rw [hcancel] at hl
    obtain ⟨timer, rfl, rfl⟩ := label_cancel hl
    exact gone_cancel hs hP hstep
  · exact fun s i s' l hs hstep h id hcancel => gone_step hs hstep (h id hcancel)
  · intro s i s' l l' hs hstep h hl
    refine notRun_iff.mpr fun id hcancel hrun => ?_
    rw [hrun] at hl
    exact (h id hcancel).not_run hs hl

theorem notPending_of_cancelFinal {s t : TimerLoop} {is : List Input} (hs : Consistent s)
    (hrun : run step s is = some t) (hidle : t.batch = none)
    (h : CancelFinal (trace step label s is)) : Meets step NotPending s is := by
  induction is generalizing s with
  | nil => trivial
  | cons i is ih =>
      have hall := hrun
      obtain ⟨u, hu, hrun⟩ := run_cons_eq_some.mp hrun
      rw [CancelFinal, trace_cons hu] at h
      obtain ⟨-, hrest, hcross⟩ := List.pairwise_append.mp h
      refine ⟨?_, fun v hv => ?_⟩
      · cases i with
        | cancel timer =>
            intro hpending
            -- the pending timer runs, and not in this step
            have hmem := run_mem_trace hs hpending hall hidle
            rw [trace_cons hu] at hmem
            rcases List.mem_append.mp hmem with hmem | hmem
            · cases Option.mem_toList.mp hmem
            · exact notRun_iff.mp (hcross _ List.mem_cons_self _ hmem) _ rfl rfl
        | addTimer timer when interval now => trivial
        | expire => trivial
        | wait => trivial
        | handleRead now => trivial
        | runNext => trivial
        | finish clock => trivial
      · obtain rfl := Option.some.inj (hu.symm.trans hv)
        exact ih (consistent_step hs hu) hrun hrest

/-- **When a cancellation is final.** If no cancelled timer is pending in the batch that is
running, then no callback is invoked after its timer was cancelled; and a cancellation of
a pending timer has its callback invoked before the batch ends. -/
theorem cancelFinal_iff (is : List Input) (s : TimerLoop) (hrun : run step start is = some s) :
    (Meets step NotPending start is → CancelFinal (trace step label start is)) ∧
      (s.batch = none →
        CancelFinal (trace step label start is) → Meets step NotPending start is) :=
  ⟨fun h => cancelFinal_of_notPending consistent_start h hrun,
    fun hidle h => notPending_of_cancelFinal consistent_start hrun hidle h⟩

/-- Two timers come due together, and the callback of the first cancels the second. -/
def cancelPending : List Input :=
  [.addTimer 1 1000 .zero 1, .addTimer 2 1000 .zero 2, .expire, .wait, .handleRead 1005, .runNext,
    .cancel 2, .runNext]

/-- In `cancelPending` the second callback is invoked all the same. -/
theorem cancel_not_always_final :
    ¬ ∀ (is : List Input) (s : TimerLoop), run step start is = some s →
      CancelFinal (trace step label start is) := by
  intro h
  have hsome : (run step start cancelPending).isSome = true := by decide +kernel
  obtain ⟨s, hs⟩ := Option.isSome_iff_exists.mp hsome
  exact absurd (h cancelPending s hs) (by decide +kernel)

/-- The callback of a repeating timer cancels it, while another timer is pending. -/
def cancelSelf : List Input :=
  [.addTimer 1 1000 ⟨true, 70, fun _ => by decide⟩ 1, .addTimer 2 1000 .zero 2, .expire, .wait,
    .handleRead 1005, .runNext, .cancel 1, .runNext, .finish 1010]

theorem cancelFinal_iff_cancelSelf :
    CancelFinal (trace step label start cancelSelf) ∧ Meets step NotPending start cancelSelf := by
  have hsome : (run step start cancelSelf).isSome = true := by decide +kernel
  have hmeets : Meets step NotPending start cancelSelf := by decide +kernel
  obtain ⟨s, hs⟩ := Option.isSome_iff_exists.mp hsome
  exact ⟨(cancelFinal_iff cancelSelf s hs).1 hmeets, hmeets⟩

end TimerLoop

end Dummyload
