import Dummyload.Net.Channel

/-!
# Dummyload.Net.EPoller

`EPoller` (`src/EPoller.cpp`) with any number of channels, and the interest list that
the kernel keeps: for a descriptor, the mask and the data pointer that were registered.

`EPoller` never looks at what `epoll_ctl` answers. That the list mirrors the channels
(`Mirrors`) is why it need not: every call it makes is one that `epoll_ctl` accepts.
Then the list, seen from one channel, is the `registered` of `Channel` (`view_step`).
-/

namespace Dummyload

/-- A call of `epoll_ctl`. -/
structure CtlCall where
  operation : EpollCtl
  /-- Was the descriptor in the interest list? -/
  present : Bool

/-- `epoll_ctl` fails when ADD finds the descriptor in the list, or MOD or DEL do not find
it. -/
def CtlCall.legal (call : CtlCall) : Bool :=
  match call.operation with
  | .EPOLL_CTL_ADD => !call.present
  | .EPOLL_CTL_MOD | .EPOLL_CTL_DEL => call.present

/-- The channels, by name, and what the kernel knows of them. -/
structure EPoller (ι : Type*) where
  /-- Here the kernel's list stands for what a `Channel` has in `registered`. -/
  channels : ι → Channel := fun _ => {}
  /-- The interest list: of a descriptor, the mask and the data pointer. -/
  interest : Int → Option (Events × ι) := fun _ => none
  /-- The calls of `epoll_ctl` so far. -/
  calls : List CtlCall := []

/-- The functions of `Channel` that change its interest. -/
inductive Change
  | enableReading | disableReading | enableWriting | disableWriting | disableAll
  deriving DecidableEq

/-- `events_` after the change. -/
def Change.newEvents : Change → Events → Events
  | .enableReading, events => events ∪ kReadEvent
  | .disableReading, events => events \ kReadEvent
  | .enableWriting, events => events ∪ kWriteEvent
  | .disableWriting, events => events \ kWriteEvent
  | .disableAll, _ => kNoneEvent

/-- The change, on a channel by itself. -/
def Change.apply : Change → Channel → Channel
  | .enableReading => Channel.enableReading
  | .disableReading => Channel.disableReading
  | .enableWriting => Channel.enableWriting
  | .disableWriting => Channel.disableWriting
  | .disableAll => Channel.disableAll

theorem Change.apply_eq (change : Change) (channel : Channel) :
    change.apply channel =
      Channel.update { channel with events := change.newEvents channel.events } := by
  cases change <;> rfl

namespace EPoller

variable {ι : Type*} [DecidableEq ι]

/-- What `epoll_ctl` makes of the entry of a descriptor; when it fails, the entry stays as it
is. -/
def ctlEntry (operation : EpollCtl) (ev : Events × ι) : Option (Events × ι) → Option (Events × ι)
  | none =>
    match operation with
    | .EPOLL_CTL_ADD => some ev
    | .EPOLL_CTL_MOD | .EPOLL_CTL_DEL => none
  | some old =>
    match operation with
    | .EPOLL_CTL_ADD => some old
    | .EPOLL_CTL_MOD => some ev
    | .EPOLL_CTL_DEL => none

/-- `epoll_ctl(epfd, operation, fd, &ev)`. -/
def epollCtl (s : EPoller ι) (operation : EpollCtl) (fd : Int) (ev : Events × ι) : EPoller ι :=
  { s with
    interest := Function.update s.interest fd (ctlEntry operation ev (s.interest fd))
    calls := s.calls ++ [⟨operation, (s.interest fd).isSome⟩] }

/-- One channel is assigned to. -/
def setChannel (s : EPoller ι) (c : ι) (channel : Channel) : EPoller ι :=
  { s with channels := Function.update s.channels c channel }

section

variable (fd : ι → Int)

/-- `EPoller::update`. -/
def update (s : EPoller ι) (operation : EpollCtl) (c : ι) : EPoller ι :=
  s.epollCtl operation (fd c) ((s.channels c).events, c)

/-- `EPoller::updateChannel`. -/
def updateChannel (s : EPoller ι) (c : ι) : EPoller ι :=
  let channel := s.channels c
  if channel.state = .kNew ∨ channel.state = .kDeleted then
    update fd (s.setChannel c { channel with state := .kAdded }) .EPOLL_CTL_ADD c
  else if channel.state = .kAdded ∧ channel.isNoneEvent then
    update fd (s.setChannel c { channel with state := .kDeleted }) .EPOLL_CTL_DEL c
  else if channel.state = .kAdded then update fd s .EPOLL_CTL_MOD c
  else s

/-- A function of channel `c` is called: it changes `events_` and calls `update()`. -/
def step (s : EPoller ι) (call : ι × Change) : EPoller ι :=
  let (c, change) := call
  let channel := s.channels c
  updateChannel fd (s.setChannel c { channel with events := change.newEvents channel.events }) c

/-- After any number of such calls, from channels that are new. -/
def run (calls : List (ι × Change)) : EPoller ι := calls.foldl (step fd) {}

end

/-! ### The interest list mirrors the channels -/

/-- The interest list has the channels in state `kAdded`, each with its events, and nothing
else; and every call so far was legal. -/
structure Mirrors (fd : ι → Int) (s : EPoller ι) : Prop where
  added : ∀ c, (s.channels c).state = .kAdded →
    s.interest (fd c) = some ((s.channels c).events, c)
  absent : ∀ c, (s.channels c).state ≠ .kAdded → s.interest (fd c) = none
  others : ∀ f, (∀ c, fd c ≠ f) → s.interest f = none
  legal : ∀ call ∈ s.calls, call.legal = true

/-- What a call on channel `c` does: it changes that channel, the entry of its descriptor, and
makes one call of `epoll_ctl`. -/
structure Touches (fd : ι → Int) (s t : EPoller ι) (c : ι) (call : CtlCall) : Prop where
  channels : ∀ c', c' ≠ c → t.channels c' = s.channels c'
  interest : ∀ f, f ≠ fd c → t.interest f = s.interest f
  calls : t.calls = s.calls ++ [call]

variable {fd : ι → Int} {s t : EPoller ι} {c : ι}

theorem Mirrors.touches (hfd : Function.Injective fd) (h : Mirrors fd s) {call : CtlCall}
    (ht : Touches fd s t c call)
    (hadded : (t.channels c).state = .kAdded →
      t.interest (fd c) = some ((t.channels c).events, c))
    (habsent : (t.channels c).state ≠ .kAdded → t.interest (fd c) = none)
    (hlegal : call.legal = true) : Mirrors fd t := by
  refine ⟨fun c' hstate => ?_, fun c' hstate => ?_, fun f hf => ?_, fun call' hmem => ?_⟩
  · by_cases hc : c' = c
    · rw [hc] at hstate ⊢
      exact hadded hstate
    · rw [ht.channels c' hc] at hstate ⊢
      rw [ht.interest (fd c') (fun heq => hc (hfd heq))]
      exact h.added c' hstate
  · by_cases hc : c' = c
    · rw [hc] at hstate ⊢
      exact habsent hstate
    · rw [ht.channels c' hc] at hstate
      rw [ht.interest (fd c') (fun heq => hc (hfd heq))]
      exact h.absent c' hstate
  · rw [ht.interest f fun heq => hf c heq.symm]
    exact h.others f hf
  · rw [ht.calls, List.mem_append, List.mem_singleton] at hmem
    rcases hmem with hmem | rfl
    · exact h.legal call' hmem
    · exact hlegal

@[simp] theorem setChannel_setChannel (channel channel' : Channel) :
    (s.setChannel c channel).setChannel c channel' = s.setChannel c channel' := by
  simp [setChannel]

@[simp] theorem channels_setChannel (channel : Channel) :
    (s.setChannel c channel).channels c = channel :=
  Function.update_self _ _ _

theorem touches_update (operation : EpollCtl) (channel : Channel) :
    Touches fd s (update fd (s.setChannel c channel) operation c) c
      ⟨operation, (s.interest (fd c)).isSome⟩ where
  channels _ hc := Function.update_of_ne hc _ _
  interest _ hf := Function.update_of_ne hf _ _
  calls := rfl

theorem channels_update (operation : EpollCtl) (channel : Channel) :
    (update fd (s.setChannel c channel) operation c).channels c = channel :=
  channels_setChannel channel

theorem interest_update (operation : EpollCtl) (channel : Channel) :
    (update fd (s.setChannel c channel) operation c).interest (fd c) =
      ctlEntry operation (channel.events, c) (s.interest (fd c)) := by
  show Function.update _ _ _ _ = _
  rw [Function.update_self, channels_setChannel]
  rfl

/-- The three calls that `updateChannel` makes of `epoll_ctl`. -/
theorem step_cases (s : EPoller ι) (c : ι) (change : Change) :
    let channel := { s.channels c with events := change.newEvents (s.channels c).events }
    (channel.state ≠ .kAdded ∧ step fd s (c, change) =
      update fd (s.setChannel c { channel with state := .kAdded }) .EPOLL_CTL_ADD c) ∨
    (channel.state = .kAdded ∧ channel.isNoneEvent = true ∧ step fd s (c, change) =
      update fd (s.setChannel c { channel with state := .kDeleted }) .EPOLL_CTL_DEL c) ∨
    (channel.state = .kAdded ∧ channel.isNoneEvent = false ∧ step fd s (c, change) =
      update fd (s.setChannel c channel) .EPOLL_CTL_MOD c) := by
  dsimp only
  rw [step, updateChannel, channels_setChannel, setChannel_setChannel, setChannel_setChannel]
  cases hstate : (s.channels c).state with
  | kNew => exact Or.inl ⟨by decide, if_pos (Or.inl rfl)⟩
  | kDeleted => exact Or.inl ⟨by decide, if_pos (Or.inr rfl)⟩
  | kAdded =>
      rw [if_neg (by decide)]
      split
      · rename_i hnone
        exact Or.inr (Or.inl ⟨rfl, hnone.2, rfl⟩)
      · rename_i hsome
        refine Or.inr (Or.inr ⟨rfl, ?_, if_pos rfl⟩)
        simpa using hsome

omit [DecidableEq ι] in
theorem mirrors_start : Mirrors fd {} where
  added c hstate := by cases hstate
  absent c _ := rfl
  others f _ := rfl
  legal call hmem := by cases hmem

theorem mirrors_step (hfd : Function.Injective fd) (h : Mirrors fd s) (call : ι × Change) :
    Mirrors fd (step fd s call) := by
  obtain ⟨c, change⟩ := call
  rcases step_cases s c change with ⟨hstate, heq⟩ | ⟨hstate, -, heq⟩ | ⟨hstate, -, heq⟩
  · have hentry := h.absent c hstate
    rw [heq]
    refine h.touches hfd (touches_update _ _) (fun _ => ?_) (fun hnot => ?_)
      (by simp [hentry, CtlCall.legal])
    · rw [interest_update, hentry, channels_update]
      rfl
    · rw [channels_update] at hnot
      exact absurd rfl hnot
  · have hentry := h.added c hstate
    rw [heq]
    refine h.touches hfd (touches_update _ _) (fun hadded => ?_) (fun _ => ?_)
      (by simp [hentry, CtlCall.legal])
    · rw [channels_update] at hadded
      cases hadded
    · rw [interest_update, hentry]
      rfl
  · have hentry := h.added c hstate
    rw [heq]
    refine h.touches hfd (touches_update _ _) (fun _ => ?_) (fun hnot => ?_)
      (by simp [hentry, CtlCall.legal])
    · rw [interest_update, hentry, channels_update]
      rfl
    · rw [channels_update] at hnot
      exact absurd hstate hnot

theorem mirrors_run (hfd : Function.Injective fd) (calls : List (ι × Change)) :
    Mirrors fd (run fd calls) := by
  rw [run]
  refine List.foldlRecOn calls (step fd) mirrors_start fun s hs call _ => mirrors_step hfd hs call

/-- After any calls on channels whose descriptors are distinct, the descriptors in the interest
list are those of the channels in state `kAdded`, with their events and a pointer to them; and
`epoll_ctl` accepted every call. -/
theorem interest_mirrors {fd : ι → Int} (hfd : Function.Injective fd)
    (calls : List (ι × Change)) :
    (∀ f, (∃ entry, (run fd calls).interest f = some entry) ↔
      ∃ c, fd c = f ∧ ((run fd calls).channels c).state = .kAdded) ∧
    (∀ c, ((run fd calls).channels c).state = .kAdded →
      (run fd calls).interest (fd c) = some (((run fd calls).channels c).events, c)) ∧
    ∀ call ∈ (run fd calls).calls, call.legal = true := by
  have h := mirrors_run hfd calls
  refine ⟨fun f => ⟨fun hentry => ?_, fun hadded => ?_⟩, h.added, h.legal⟩
  · obtain ⟨entry, hentry⟩ := hentry
    by_cases hf : ∃ c, fd c = f
    · obtain ⟨c, rfl⟩ := hf
      refine ⟨c, rfl, ?_⟩
      by_contra hstate
      rw [h.absent c hstate] at hentry
      cases hentry
    · rw [h.others f fun c hc => hf ⟨c, hc⟩] at hentry
      cases hentry
  · obtain ⟨c, rfl, hstate⟩ := hadded
    exact ⟨_, h.added c hstate⟩

/-- Descriptors in the order in which channels are named. -/
def exampleFd (c : Nat) : Int := c + 3

/-- A channel is removed and added again, another one is added with nothing to wait for. -/
def exampleCalls : List (Nat × Change) :=
  [(0, .enableReading), (1, .disableWriting), (0, .disableAll), (0, .enableWriting)]

theorem interest_mirrors_exampleCalls :
    (∀ f, (∃ entry, (run exampleFd exampleCalls).interest f = some entry) ↔
      ∃ c, exampleFd c = f ∧ ((run exampleFd exampleCalls).channels c).state = .kAdded) ∧
    (∀ c, ((run exampleFd exampleCalls).channels c).state = .kAdded →
      (run exampleFd exampleCalls).interest (exampleFd c) =
        some (((run exampleFd exampleCalls).channels c).events, c)) ∧
    ∀ call ∈ (run exampleFd exampleCalls).calls, call.legal = true :=
  interest_mirrors (fun m n h => by unfold exampleFd at h; omega) exampleCalls

/-! ### One channel by itself -/

/-- Channel `c` with what the kernel has registered for its descriptor. -/
def view (fd : ι → Int) (s : EPoller ι) (c : ι) : Channel :=
  { s.channels c with registered := (s.interest (fd c)).map Prod.fst }

omit [DecidableEq ι] in
theorem map_ctlEntry (operation : EpollCtl) (ev : Events × ι) (entry : Option (Events × ι)) :
    (ctlEntry operation ev entry).map Prod.fst =
      Dummyload.epollCtl operation ev.1 (entry.map Prod.fst) := by
  cases operation <;> cases entry <;> rfl

theorem view_update (operation : EpollCtl) (channel : Channel) :
    view fd (update fd (s.setChannel c channel) operation c) c =
      Channel.pollerUpdate operation
        { channel with registered := (s.interest (fd c)).map Prod.fst } := by
  rw [view, interest_update, channels_update, map_ctlEntry]
  rfl

/-- What a `Channel` does by itself is what it does among the others. -/
theorem view_step (s : EPoller ι) (c : ι) (change : Change) :
    view fd (step fd s (c, change)) c = change.apply (view fd s c) := by
  rw [Change.apply_eq, Channel.update]
  rcases step_cases s c change with ⟨hstate, heq⟩ | ⟨hstate, hnone, heq⟩ | ⟨hstate, hsome, heq⟩
  · have hor : (view fd s c).state = .kNew ∨ (view fd s c).state = .kDeleted := by
      show (s.channels c).state = .kNew ∨ (s.channels c).state = .kDeleted
      cases hcase : (s.channels c).state with
      | kNew => exact Or.inl rfl
      | kDeleted => exact Or.inr rfl
      | kAdded => exact absurd hcase hstate
    rw [heq, view_update, if_pos hor]
    rfl
  · have hadded : (view fd s c).state = .kAdded := hstate
    rw [heq, view_update, if_neg (by simp [hadded]), if_pos ⟨hadded, hnone⟩]
    rfl
  · have hadded : (view fd s c).state = .kAdded := hstate
    have hnot : ¬ ({ view fd s c with
        events := change.newEvents (view fd s c).events } : Channel).isNoneEvent = true := by
      rw [Bool.not_eq_true]
      exact hsome
    rw [heq, view_update, if_neg (by simp [hadded]), if_neg fun hand => hnot hand.2, if_pos hadded]
    rfl

/-- The other channels do not see it. -/
theorem view_step_of_ne (hfd : Function.Injective fd) {c' : ι} (hc : c' ≠ c) (change : Change) :
    view fd (step fd s (c, change)) c' = view fd s c' := by
  have hne : fd c' ≠ fd c := fun heq => hc (hfd heq)
  have htouches : ∀ operation channel,
      view fd (update fd (s.setChannel c channel) operation c) c' = view fd s c' := by
    intro operation channel
    have ht : Touches fd s _ c _ := touches_update operation channel
    rw [view, ht.channels c' hc, ht.interest _ hne]
    rfl
  rcases step_cases s c change with ⟨-, heq⟩ | ⟨-, -, heq⟩ | ⟨-, -, heq⟩
  all_goals rw [heq, htouches]

/-- After any calls, a channel is what its own calls make of a new one. -/
theorem view_run (hfd : Function.Injective fd) (calls : List (ι × Change)) (c : ι) :
    view fd (run fd calls) c =
      (calls.filter (·.1 = c)).foldl (fun channel call => call.2.apply channel) {} := by
  have hfrom : ∀ s : EPoller ι, view fd (calls.foldl (step fd) s) c =
      (calls.filter (·.1 = c)).foldl (fun channel call => call.2.apply channel) (view fd s c) := by
    induction calls with
    | nil => exact fun s => rfl
    | cons call calls ih =>
        intro s
        obtain ⟨c', change⟩ := call
        rw [List.foldl_cons, ih]
        by_cases hc : c' = c
        · obtain rfl := hc
          rw [List.filter_cons_of_pos (by simp), List.foldl_cons, view_step]
        · rw [List.filter_cons_of_neg (by simp [hc]), view_step_of_ne hfd fun heq => hc heq.symm]
  exact hfrom {}

end EPoller

end Dummyload
