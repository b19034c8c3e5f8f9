import MuduoLite.Loop.Quit

/-!
# A thread with an event loop

`EventLoopThread` starts a thread that constructs an `EventLoop`, stores its address in
`loop_` and calls `loop`.  `startLoop` waits for `loop_` and returns the address; the
destructor quits the loop and joins the thread.  A step is one access to `loop_`, or one
step of the loop; `exiting_` is only written and is left out.

Between the store to `loop_` and the store to `quit_` at the start of `loop`, the address
is out and the flag is not clear yet: a `quit` in between is overwritten.

`asked` is a history variable: `quit` was called on the loop after `startLoop` returned it.
The loop outlives its thread in this model; nobody needs its fields afterwards.
-/

namespace MuduoLite

open Transition

/-- Where the new thread is in `threadFunc`. -/
inductive ThreadPhase
  | unstarted
  /-- before the store to `loop_`; `callback_` runs here -/
  | initializing
  /-- after it, before the stores at the start of `loop` -/
  | published
  /-- in `loop` -/
  | looping
  /-- `loop` has returned -/
  | looped
  /-- `loop_` is null again -/
  | finished
  deriving DecidableEq, Repr

/-- The new thread has stored `loop_`. -/
def ThreadPhase.Out (thread : ThreadPhase) : Prop :=
  thread ≠ .unstarted ∧ thread ≠ .initializing

theorem ThreadPhase.out_finished : ThreadPhase.Out .finished := ⟨by decide, by decide⟩

/-- Where the thread that owns the `EventLoopThread` is. -/
inductive OwnerPhase
  | idle
  /-- in `startLoop` -/
  | starting
  /-- `startLoop` has returned -/
  | returned
  /-- in the destructor, which has found `loop_` set -/
  | destroying
  /-- in the destructor, after its store to `quit_` -/
  | joining
  | joined
  /-- the destructor has found `loop_` null -/
  | detached
  deriving DecidableEq, Repr

/-- Does the owner know the loop? -/
def OwnerPhase.hasLoop : OwnerPhase → Bool
  | .idle => false
  | .starting => false
  | _ => true

structure EventLoopThread (F T : Type*) where
  eventLoop : EventLoop F T := {}
  /-- is `loop_` set? -/
  loopSet : Bool := false
  thread : ThreadPhase := .unstarted
  owner : OwnerPhase := .idle
  asked : Bool := false

namespace EventLoopThread

variable {F T : Type*}

/-! ## Steps -/

inductive Label (F T : Type*)
  | start
  | publish
  | returnLoop
  | eventLoop (label : EventLoop.Label F T)
  | clear
  | destroy
  | join

/-- Who may take a step of the loop: its own thread where `threadFunc` is there, other
threads as soon as there is a loop. -/
def Turn (s : EventLoopThread F T) : EventLoop.Label F T → Prop
  | .loop => s.thread = .published
  | .queueInLoop _ => s.thread = .initializing ∨ s.thread = .looping
  | .quit => s.thread = .initializing ∨ s.thread = .looping
  | .queueInLoopFrom _ _ => s.thread ≠ .unstarted
  | .quitFrom _ => s.thread ≠ .unstarted
  | .wakeupFrom _ => s.thread ≠ .unstarted
  | _ => s.thread = .looping

/-- Where the new thread is after a step of the loop that led to `l`. -/
def threadAfter (s : EventLoopThread F T) (l : EventLoop F T) : EventLoop.Label F T → ThreadPhase
  | .loop => .looping
  | .testQuit => if l.phase = .stopped then .looped else .looping
  | _ => s.thread

variable [DecidableEq T]

/-- The `quit` of the destructor. -/
def ownerAfter (s : EventLoopThread F T) (owner : T) : EventLoop.Label F T → OwnerPhase
  | .quitFrom thread => if thread = owner ∧ s.owner = .destroying then .joining else s.owner
  | _ => s.owner

/-- The state after a step of the loop that led to `l`. -/
def afterEventLoop (s : EventLoopThread F T) (owner : T) (label : EventLoop.Label F T)
    (l : EventLoop F T) : EventLoopThread F T :=
  { s with
    eventLoop := l
    thread := s.threadAfter l label
    owner := s.ownerAfter owner label
    asked := s.asked || (label.isQuit && s.owner.hasLoop) }

@[simp] theorem afterEventLoop_eventLoop (s : EventLoopThread F T) (owner : T)
    (label : EventLoop.Label F T) (l : EventLoop F T) :
    (s.afterEventLoop owner label l).eventLoop = l := rfl

@[simp] theorem afterEventLoop_asked (s : EventLoopThread F T) (owner : T)
    (label : EventLoop.Label F T) (l : EventLoop F T) :
    (s.afterEventLoop owner label l).asked = (s.asked || (label.isQuit && s.owner.hasLoop)) := rfl

/-- The steps where the `EventLoopThread` is owned by the thread `owner`. -/
inductive Step (owner : T) (s : EventLoopThread F T) : Label F T → EventLoopThread F T → Prop
  | start (howner : s.owner = .idle) :
      Step owner s .start { s with owner := .starting, thread := .initializing }
  | publish (hthread : s.thread = .initializing) :
      Step owner s .publish { s with loopSet := true, thread := .published }
  | returnLoop (howner : s.owner = .starting) (hset : s.loopSet = true) :
      Step owner s .returnLoop { s with owner := .returned }
  | eventLoop (label : EventLoop.Label F T) {l : EventLoop F T} (hturn : s.Turn label)
      (hstep : EventLoop.Step s.eventLoop label l) :
      Step owner s (.eventLoop label) (s.afterEventLoop owner label l)
  | clear (hthread : s.thread = .looped) :
      Step owner s .clear { s with loopSet := false, thread := .finished }
  | destroy (howner : s.owner = .returned)
      (hidle : owner ∉ s.eventLoop.wakingThreads ∪ s.eventLoop.quittingThreads) :
      Step owner s .destroy { s with owner := if s.loopSet then .destroying else .detached }
  | join (howner : s.owner = .joining) (hidle : owner ∉ s.eventLoop.quittingThreads)
      (hthread : s.thread = .finished) : Step owner s .join { s with owner := .joined }

/-- A `quit` on the loop that `startLoop` has returned is stored after the loop thread has
cleared the flag at the start of `loop`. -/
def StoredAfterLoop (s : EventLoopThread F T) : Label F T → Prop
  | .eventLoop label =>
      label.isQuit = true → s.owner.hasLoop = true → s.thread ≠ .published
  | _ => True

/-! ## The invariant -/

/-- Where the two threads are, in any run. -/
structure Synced (s : EventLoopThread F T) : Prop where
  loopSet_out : s.loopSet = true → s.thread.Out
  idle : s.owner = .idle → s.thread = .unstarted ∧ s.loopSet = false
  hasLoop_set : s.owner.hasLoop = true → s.loopSet = true ∨ s.thread = .finished
  gone : s.owner = .joined ∨ s.owner = .detached → s.thread = .finished
  stopped_iff : s.eventLoop.phase = .stopped ↔ s.thread ≠ .looping

/-- What was asked of the loop is kept. -/
structure Kept (s : EventLoopThread F T) : Prop extends Synced s where
  asked_out : s.asked = true → s.thread.Out ∧ s.thread ≠ .published
  quitting : s.asked = true → s.eventLoop.Quitting
  joining : s.owner = .joining → s.asked = true

omit [DecidableEq T] in
theorem Synced.hasLoop_out {s : EventLoopThread F T} (h : Synced s)
    (hloop : s.owner.hasLoop = true) : s.thread.Out := by
  rcases h.hasLoop_set hloop with hset | hfinished
  · exact h.loopSet_out hset
  · rw [hfinished]
    exact ThreadPhase.out_finished

omit [DecidableEq T] in
theorem start_synced : Synced ({} : EventLoopThread F T) where
  loopSet_out := fun hset => Bool.noConfusion hset
  idle := fun _ => ⟨rfl, rfl⟩
  hasLoop_set := fun hloop => Bool.noConfusion hloop
  gone := fun howner => by simp at howner
  stopped_iff := iff_of_true rfl fun heq => ThreadPhase.noConfusion heq

omit [DecidableEq T] in
theorem start_kept : Kept ({} : EventLoopThread F T) where
  toSynced := start_synced
  asked_out := fun hasked => Bool.noConfusion hasked
  quitting := fun hasked => Bool.noConfusion hasked
  joining := fun howner => OwnerPhase.noConfusion howner

section EventLoopSteps

variable {s : EventLoopThread F T} {owner : T} {label : EventLoop.Label F T} {l : EventLoop F T}

omit [DecidableEq T] in
/-- A step of the loop leaves the new thread where it is, or in or past `loop`. -/
theorem threadAfter_cases (s : EventLoopThread F T) (l : EventLoop F T)
    (label : EventLoop.Label F T) : s.threadAfter l label = s.thread ∨
    s.threadAfter l label = .looping ∨ s.threadAfter l label = .looped := by
  cases label with
  | loop => exact .inr (.inl rfl)
  | testQuit =>
      rw [threadAfter]
      split_ifs
      · exact .inr (.inr rfl)
      · exact .inr (.inl rfl)
  | _ => exact .inl rfl

omit [DecidableEq T] in
theorem threadAfter_out (h : s.thread.Out) :
    (s.threadAfter l label).Out := by
  rcases s.threadAfter_cases l label with heq | heq | heq
  · rwa [heq]
  · exact ⟨by rw [heq]; decide, by rw [heq]; decide⟩
  · exact ⟨by rw [heq]; decide, by rw [heq]; decide⟩

theorem ownerAfter_cases (s : EventLoopThread F T) (owner : T) (label : EventLoop.Label F T) :
    s.ownerAfter owner label = s.owner ∨
    s.ownerAfter owner label = .joining ∧ s.owner = .destroying ∧ label.isQuit = true := by
  cases label with
  | quitFrom thread =>
      rw [ownerAfter]
      split_ifs with hquit
      · exact .inr ⟨rfl, hquit.2, rfl⟩
      · exact .inl rfl
  | _ => exact .inl rfl

omit [DecidableEq T] in
theorem Turn.not_unstarted (hturn : s.Turn label) : s.thread ≠ .unstarted := by
  intro hunstarted
  cases label <;> simp [Turn, hunstarted] at hturn

omit [DecidableEq T] in
/-- The new thread has finished for good. -/
theorem threadAfter_finished (hturn : s.Turn label) (h : s.thread = .finished) :
    s.threadAfter l label = .finished := by
  cases label <;> simp [Turn, h] at hturn <;> exact h

omit [DecidableEq T] in
/-- The new thread is in `loop` as long as the loop has a phase. -/
theorem Synced.stopped_iff_eventLoop [DecidableEq T] (h : Synced s) (hturn : s.Turn label)
    (hstep : s.eventLoop.Step label l) :
    l.phase = .stopped ↔ s.threadAfter l label ≠ .looping := by
  by_cases hcall : label.isCall = true
  · -- a call leaves the loop where it is
    have hthread : s.threadAfter l label = s.thread := by
      cases label with
      | loop => cases hcall
      | testQuit => cases hcall
      | _ => rfl
    rw [hthread, EventLoop.phase_of_isCall hstep hcall, h.stopped_iff]
  · have hrunning (hthread : s.thread = .looping) (hlabel : label ≠ .testQuit) :
        l.phase ≠ .stopped := by
      intro hstopped
      have hphase : s.eventLoop.phase ≠ .stopped := fun hphase =>
        h.stopped_iff.1 hphase hthread
      exact hlabel (EventLoop.stopped_of_step hstep hphase hstopped).1
    cases label with
    | loop =>
        cases hstep
        exact iff_of_false (fun hphase => LoopPhase.noConfusion hphase) (fun hne => hne rfl)
    | testQuit =>
        rw [threadAfter]
        split_ifs with hphase
        · exact iff_of_true hphase (by decide)
        · exact iff_of_false hphase (fun hne => hne rfl)
    | poll active => exact iff_of_false (hrunning hturn (by simp)) (fun hne => hne hturn)
    | handleEvent => exact iff_of_false (hrunning hturn (by simp)) (fun hne => hne hturn)
    | doPendingFunctors => exact iff_of_false (hrunning hturn (by simp)) (fun hne => hne hturn)
    | swap => exact iff_of_false (hrunning hturn (by simp)) (fun hne => hne hturn)
    | run => exact iff_of_false (hrunning hturn (by simp)) (fun hne => hne hturn)
    | finish => exact iff_of_false (hrunning hturn (by simp)) (fun hne => hne hturn)
    | _ => exact absurd rfl hcall

theorem Synced.eventLoop (h : Synced s) (hturn : s.Turn label) (hstep : s.eventLoop.Step label l) :
    Synced (s.afterEventLoop owner label l) where
  loopSet_out := fun hset => threadAfter_out (h.loopSet_out hset)
  idle := by
    intro howner
    rcases s.ownerAfter_cases owner label with heq | ⟨heq, _⟩
    · exact absurd (h.idle (heq.symm.trans howner)).1 hturn.not_unstarted
    · exact OwnerPhase.noConfusion (heq.symm.trans howner)
  hasLoop_set := by
    intro hloop
    have hbefore : s.owner.hasLoop = true := by
      rcases s.ownerAfter_cases owner label with heq | ⟨_, howner, _⟩
      · rw [← heq]
        exact hloop
      · rw [howner]
        rfl
    exact (h.hasLoop_set hbefore).imp_right fun hfinished => threadAfter_finished hturn hfinished
  gone := by
    intro howner
    rcases s.ownerAfter_cases owner label with heq | ⟨heq, _⟩
    · exact threadAfter_finished hturn (h.gone (heq ▸ howner))
    · have howner : OwnerPhase.joining = .joined ∨ OwnerPhase.joining = .detached := heq ▸ howner
      simp at howner
  stopped_iff := h.stopped_iff_eventLoop hturn hstep

theorem Kept.eventLoop (h : Kept s) (hturn : s.Turn label) (hstep : s.eventLoop.Step label l)
    (hstored : label.isQuit = true → s.owner.hasLoop = true → s.thread ≠ .published) :
    Kept (s.afterEventLoop owner label l) where
  toSynced := h.toSynced.eventLoop hturn hstep
  asked_out := by
    intro hasked
    have hbefore : s.thread.Out ∧ s.thread ≠ .published := by
      rcases Bool.or_eq_true_iff.1 hasked with hold | hnew
      · exact h.asked_out hold
      · obtain ⟨hquit, hloop⟩ := Bool.and_eq_true_iff.1 hnew
        exact ⟨h.hasLoop_out hloop, hstored hquit hloop⟩
    refine ⟨threadAfter_out hbefore.1, ?_⟩
    rcases s.threadAfter_cases l label with heq | heq | heq
    · rw [afterEventLoop, heq]
      exact hbefore.2
    · exact fun hpublished => ThreadPhase.noConfusion (heq.symm.trans hpublished)
    · exact fun hpublished => ThreadPhase.noConfusion (heq.symm.trans hpublished)
  quitting := by
    intro hasked
    by_cases hquit : label.isQuit = true
    · exact .of_quit hstep hquit
    · have hold : s.asked = true := by simpa [afterEventLoop, hquit] using hasked
      refine (h.quitting hold).step hstep ?_
      rintro rfl
      exact (h.asked_out hold).2 hturn
  joining := by
    intro howner
    rcases s.ownerAfter_cases owner label with heq | ⟨_, hbefore, hquit⟩
    · exact Bool.or_eq_true_iff.2 (.inl (h.joining (heq.symm.trans howner)))
    · exact Bool.or_eq_true_iff.2 (.inr (Bool.and_eq_true_iff.2 ⟨hquit, by rw [hbefore]; rfl⟩))

end EventLoopSteps

theorem Synced.step {s t : EventLoopThread F T} {owner : T} {label : Label F T} (h : Synced s)
    (hstep : Step owner s label t) : Synced t := by
  have hstopped {thread : ThreadPhase} (hbefore : s.thread = thread) (hthread : thread ≠ .looping) :
      s.eventLoop.phase = .stopped := h.stopped_iff.2 (hbefore ▸ hthread)
  cases hstep with
  | start howner =>
      obtain ⟨hthread, hset⟩ := h.idle howner
      refine ⟨fun hset' => absurd (hset.symm.trans hset') Bool.false_ne_true,
        fun hidle => OwnerPhase.noConfusion hidle, fun hloop => Bool.noConfusion hloop,
        fun hgone => by simp at hgone, ?_⟩
      exact iff_of_true (hstopped hthread (by decide)) fun heq => ThreadPhase.noConfusion heq
  | publish hthread =>
      refine ⟨fun _ => ⟨fun heq => ThreadPhase.noConfusion heq,
        fun heq => ThreadPhase.noConfusion heq⟩, fun hidle => ?_, fun _ => .inl rfl,
        fun hgone => ?_, ?_⟩
      · exact ThreadPhase.noConfusion (hthread.symm.trans (h.idle hidle).1)
      · exact ThreadPhase.noConfusion (hthread.symm.trans (h.gone hgone))
      · exact iff_of_true (hstopped hthread (by decide)) fun heq => ThreadPhase.noConfusion heq
  | returnLoop howner hset =>
      exact ⟨h.loopSet_out, fun hidle => OwnerPhase.noConfusion hidle, fun _ => .inl hset,
        fun hgone => by simp at hgone, h.stopped_iff⟩
  | eventLoop label hturn hstep => exact h.eventLoop hturn hstep
  | clear hthread =>
      refine ⟨fun hset => Bool.noConfusion hset, fun hidle => ?_, fun _ => .inr rfl,
        fun _ => rfl, ?_⟩
      · exact ThreadPhase.noConfusion (hthread.symm.trans (h.idle hidle).1)
      · exact iff_of_true (hstopped hthread (by decide)) fun heq => ThreadPhase.noConfusion heq
  | destroy howner hidle =>
      have hset := h.hasLoop_set (by rw [howner]; rfl)
      refine ⟨h.loopSet_out, fun hidle' => ?_, fun _ => hset, fun hgone => ?_, h.stopped_iff⟩
      · split_ifs at hidle'
      · by_cases hloop : s.loopSet = true
        · simp [hloop] at hgone
        · exact hset.resolve_left hloop
  | join howner hidle hthread =>
      exact ⟨h.loopSet_out, fun hidle' => OwnerPhase.noConfusion hidle', fun _ => .inr hthread,
        fun _ => hthread, h.stopped_iff⟩

theorem Kept.step {s t : EventLoopThread F T} {owner : T} {label : Label F T} (h : Kept s)
    (hstep : restrict (Step owner) StoredAfterLoop s label t) : Kept t := by
  obtain ⟨hstep, hstored⟩ := hstep
  have hsynced : Synced t := h.toSynced.step hstep
  cases hstep with
  | start howner =>
      have hasked : s.asked ≠ true := fun hasked =>
        (h.asked_out hasked).1.1 (h.idle howner).1
      exact ⟨hsynced, fun hasked' => absurd hasked' hasked, h.quitting,
        fun hjoining => OwnerPhase.noConfusion hjoining⟩
  | publish hthread =>
      have hasked : s.asked ≠ true := fun hasked => (h.asked_out hasked).1.2 hthread
      exact ⟨hsynced, fun hasked' => absurd hasked' hasked, h.quitting, h.joining⟩
  | returnLoop howner hset =>
      exact ⟨hsynced, h.asked_out, h.quitting, fun hjoining => OwnerPhase.noConfusion hjoining⟩
  | eventLoop label hturn hstep => exact h.eventLoop hturn hstep hstored
  | clear hthread =>
      exact ⟨hsynced, fun _ => ⟨ThreadPhase.out_finished, fun heq => ThreadPhase.noConfusion heq⟩,
        h.quitting, h.joining⟩
  | destroy howner hidle =>
      refine ⟨hsynced, h.asked_out, h.quitting, fun hjoining => ?_⟩
      split_ifs at hjoining
  | join howner hidle hthread =>
      exact ⟨hsynced, h.asked_out, h.quitting, fun hjoining => OwnerPhase.noConfusion hjoining⟩

/-! ## What a step does to the loop and to the owner -/

section

variable {s t : EventLoopThread F T} {owner : T} {label : Label F T}

theorem eventLoop_step (hstep : Step owner s label t) :
    (∃ inner, label = .eventLoop inner ∧ s.Turn inner ∧ s.eventLoop.Step inner t.eventLoop) ∨
      (∀ inner, label ≠ .eventLoop inner) ∧ t.eventLoop = s.eventLoop := by
  cases hstep with
  | eventLoop inner hturn hstep => exact .inl ⟨inner, rfl, hturn, hstep⟩
  | _ => exact .inr ⟨by simp, rfl⟩

/-- The owner moves at its own steps only, and at the `quit` of its destructor. -/
theorem owner_step (hstep : Step owner s label t) : t.owner = s.owner ∨
    label = .start ∧ s.owner = .idle ∧ t.owner = .starting ∨
    label = .returnLoop ∧ s.owner = .starting ∧ t.owner = .returned ∨
    label = .destroy ∧ s.owner = .returned ∧
      t.owner = (if s.loopSet then .destroying else .detached) ∨
    s.owner = .destroying ∧ label = .eventLoop (.quitFrom owner) ∧ t.owner = .joining ∨
    label = .join ∧ s.owner = .joining ∧ s.thread = .finished ∧ t.owner = .joined := by
  cases hstep with
  | start howner => exact .inr (.inl ⟨rfl, howner, rfl⟩)
  | publish => exact .inl rfl
  | returnLoop howner hset => exact .inr (.inr (.inl ⟨rfl, howner, rfl⟩))
  | eventLoop inner hturn hstep =>
      cases inner with
      | quitFrom thread =>
          by_cases hquit : thread = owner ∧ s.owner = .destroying
          · obtain ⟨rfl, hdestroying⟩ := hquit
            exact .inr (.inr (.inr (.inr (.inl ⟨hdestroying, rfl, if_pos ⟨rfl, hdestroying⟩⟩))))
          · exact .inl (if_neg hquit)
      | _ => exact .inl rfl
  | clear => exact .inl rfl
  | destroy howner hidle => exact .inr (.inr (.inr (.inl ⟨rfl, howner, rfl⟩)))
  | join howner hidle hthread =>
      exact .inr (.inr (.inr (.inr (.inr ⟨rfl, howner, hthread, rfl⟩))))

theorem owner_of_quit (hstep : Step owner s (.eventLoop (.quitFrom owner)) t)
    (hdestroying : s.owner = .destroying) : t.owner = .joining := by
  cases hstep with
  | eventLoop => exact if_pos ⟨rfl, hdestroying⟩

/-- A loop that nobody has asked to quit goes on. -/
theorem Synced.looping_step (h : Synced s) (hstep : Step owner s label t)
    (hlooping : s.thread = .looping) (hquit : s.eventLoop.quit = false) : t.thread = .looping := by
  have hrunning : s.eventLoop.phase ≠ .stopped := fun hphase => h.stopped_iff.1 hphase hlooping
  by_contra hleft
  have hstopped : t.eventLoop.phase = .stopped := (h.step hstep).stopped_iff.2 hleft
  rcases eventLoop_step hstep with ⟨inner, _, _, hinner⟩ | ⟨_, heq⟩
  · have hset := (EventLoop.stopped_of_step hinner hrunning hstopped).2
    exact Bool.false_ne_true (hquit.symm.trans hset)
  · exact hrunning (heq ▸ hstopped)

end

/-! ## Quitting -/

/-- A `quit` that comes too early is overwritten, and the loop goes on to its poll. -/
theorem Kept.forgets {s t : EventLoopThread F T} {owner : T} {label : Label F T} (h : Kept s)
    (hstep : Step owner s label t) (hearly : ¬ StoredAfterLoop s label) :
    ∃ u v, Step owner t (.eventLoop .loop) u ∧ Step owner u (.eventLoop .testQuit) v ∧
      v.asked = true ∧ v.eventLoop.phase = .polling := by
  cases hstep with
  | @eventLoop label l hturn hstep =>
      simp only [StoredAfterLoop, not_forall, not_not] at hearly
      obtain ⟨hquit, hloop, hthread⟩ := hearly
      have hasked : (s.asked || (label.isQuit && s.owner.hasLoop)) = true := by simp [hquit, hloop]
      have hafter : s.threadAfter l label = .published ∧ label.isCall = true := by
        cases label with
        | quit => simp [Turn, hthread] at hturn
        | quitFrom thread => exact ⟨hthread, rfl⟩
        | _ => cases hquit
      have hphase : l.phase = .stopped := by
        rw [EventLoop.phase_of_isCall hstep hafter.2, h.stopped_iff, hthread]
        decide
      exact ⟨_, _, .eventLoop .loop hafter.1 (.loop hphase),
        .eventLoop .testQuit rfl (.testQuit rfl), by simp [hasked], rfl⟩
  | _ => exact absurd trivial hearly

/-- If every `quit` on the returned loop comes after the flag was cleared, then a loop that
has been asked to quit keeps the flag, leaves at its next test of it, and is woken from
the poll that it is in, for the destructor to join.  A `quit` that comes before can be
followed by a poll with the flag clear. -/
theorem quit_not_lost (owner : T) (labels : List (Label F T)) (s : EventLoopThread F T)
    (hrun : Run (restrict (Step owner) StoredAfterLoop) {} labels s) :
    (s.asked = true → s.eventLoop.quit = true ∧
      (∀ t, Step owner s (.eventLoop .testQuit) t → t.eventLoop.phase = .stopped) ∧
      (s.eventLoop.phase = .polling →
        0 < s.eventLoop.wakeupFd ∨ s.eventLoop.quittingThreads.Nonempty)) ∧
    (s.owner = .joining → s.asked = true) ∧
    ∀ label t, Step owner s label t → ¬ StoredAfterLoop s label →
      ∃ u v, Step owner t (.eventLoop .loop) u ∧ Step owner u (.eventLoop .testQuit) v ∧
        v.asked = true ∧ v.eventLoop.phase = .polling := by
  have h : Kept s := hrun.invariant start_kept fun _ _ _ => Kept.step
  refine ⟨fun hasked => ?_, h.joining, fun label t hstep => h.forgets hstep⟩
  have hquitting := h.quitting hasked
  refine ⟨hquitting.quit_eq, fun t hstep => ?_, hquitting.awake⟩
  cases hstep with
  | eventLoop label hturn hstep => exact hquitting.testQuit hstep

/-- The thread enters `loop` before `startLoop` returns, and the destructor quits it. -/
theorem quit_not_lost_joined : ∃ s : EventLoopThread ℕ ℕ,
    s.asked = true ∧ s.eventLoop.phase = .testing ∧ s.eventLoop.quit = true := by
  have hrun : Run (restrict (Step (F := ℕ) (T := ℕ) 0) StoredAfterLoop) {} _ _ :=
    (((((Run.single ⟨.start rfl, trivial⟩).snoc ⟨.publish rfl, trivial⟩).snoc
      ⟨.eventLoop .loop rfl (.loop rfl), fun hquit => Bool.noConfusion hquit⟩).snoc
      ⟨.returnLoop rfl rfl, trivial⟩).snoc ⟨.destroy rfl (by simp), trivial⟩).snoc
      ⟨.eventLoop (.quitFrom 0) (fun hthread => ThreadPhase.noConfusion hthread)
        (.quitFrom 0 (by simp)),
        fun _ _ hthread => ThreadPhase.noConfusion hthread⟩
  exact ⟨_, rfl, rfl, ((quit_not_lost 0 _ _ hrun).1 rfl).1⟩

/-- The destructor runs before the thread has entered `loop`: its request is overwritten,
and the loop polls. -/
theorem quit_overwritten :
    ¬ ∀ (labels : List (Label ℕ ℕ)) (s t : EventLoopThread ℕ ℕ), Run (Step 0) {} labels s →
      s.asked = true → Step 0 s (.eventLoop .testQuit) t →
        ¬ (t.eventLoop.phase = .polling ∧ t.eventLoop.quit = false) := by
  intro hclaim
  have hquit : Run (Step (F := ℕ) (T := ℕ) 0) {} _ _ :=
    ((((Run.single (.start rfl)).snoc (.publish rfl)).snoc (.returnLoop rfl rfl)).snoc
      (.destroy rfl (by simp))).snoc
      (.eventLoop (.quitFrom 0) (fun hthread => ThreadPhase.noConfusion hthread)
        (.quitFrom 0 (by simp)))
  have hrun : Run (Step (F := ℕ) (T := ℕ) 0) {} _ _ :=
    hquit.snoc (.eventLoop .loop rfl (.loop rfl))
  exact hclaim _ _ _ hrun rfl (.eventLoop .testQuit rfl (.testQuit rfl)) ⟨rfl, rfl⟩

end EventLoopThread

end MuduoLite
