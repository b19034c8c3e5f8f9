import MuduoLite.Loop.ChannelTable
import MuduoLite.Loop.EventList
import MuduoLite.Loop.EventLoop

/-!
# One poll in its three models

`ChannelTable` has the table of the poller and the interest list, `EventList` the ready list
of the kernel and the places of `events_`, and `EventLoop` what the loop does with the
channels that it is given.  Here the three take their steps together: an `epoll_ctl` that adds
an fd or deletes it changes both lists of the kernel, and what `epoll_wait` has written to
`events_` becomes the `activeChannels_` of the poller and of the loop.

Every run of the whole is a run of each of the three (`polling_projects`).  So what is proved
about the ready list holds of channels: a channel whose socket stays ready is handed to the
loop (`channel_polled`).
-/

namespace MuduoLite

open Transition RoundRobin

/-- What an `epoll_ctl` does to an fd that had the entry `before` and has the entry `after`. -/
def EventList.follow (e : EventList) (fd : ℕ) (before after : Option (ℕ × EventMask)) :
    EventList :=
  match before, after with
  | none, some _ => { e with registered := insert fd e.registered }
  | some _, none => { e with registered := e.registered.erase fd, ready := e.ready.erase fd }
  | _, _ => e

/-- A loop with its poller and the kernel. -/
structure PollingLoop (F T : Type*) where
  loop : EventLoop F T := {}
  table : ChannelTable
  list : EventList := {}

namespace PollingLoop

variable {F T : Type*}

/-! ## Steps -/

inductive Label (F T : Type*)
  /-- any step of the loop but `poll` -/
  | loop (label : EventLoop.Label F T)
  | call (ptr : ℕ) (operation : Channel.Operation)
  /-- the kernel learns that the socket is ready -/
  | wake (fd : ℕ)
  /-- `isReady` says which sockets are, and `revents` for what -/
  | poll (isReady : ℕ → Bool) (revents : ℕ → EventMask)

def Label.isPoll : Label F T → Bool
  | poll _ _ => true
  | _ => false

/-- What `epoll_wait` writes to `events_`. -/
def events (p : PollingLoop F T) (isReady : ℕ → Bool) (revents : ℕ → EventMask) :
    List (ℕ × EventMask) :=
  (serve isReady p.list.ready p.list.size).1.map fun fd => (fd, revents fd)

/-- The channel of the fd, as the loop sees it. -/
def activeChannel (wakeup fd : ℕ) : ActiveChannel :=
  if fd = wakeup then .wakeupChannel else .channel fd

section Step

variable [DecidableEq T]

/-- `wakeup` is the fd of `wakeupChannel_`. -/
inductive Step (wakeup : ℕ) (p : PollingLoop F T) : Label F T → PollingLoop F T → Prop
  | loop {label : EventLoop.Label F T} {l : EventLoop F T}
      (hpoll : ∀ active, label ≠ .poll active) (hstep : EventLoop.Step p.loop label l) :
      Step wakeup p (.loop label) { p with loop := l }
  | call {ptr : ℕ} {c : Channel} (operation : Channel.Operation)
      (hc : p.table.channel ptr = some c) :
      Step wakeup p (.call ptr operation)
        { p with
          table := p.table.perform ptr c operation
          list := p.list.follow c.fd (p.table.poller.interest c.fd)
            ((p.table.perform ptr c operation).poller.interest c.fd) }
  | wake {fd : ℕ} (hfd : fd ∈ p.list.registered) (hready : fd ∉ p.list.ready) :
      Step wakeup p (.wake fd) { p with list := { p.list with ready := p.list.ready ++ [fd] } }
  | poll {l : EventLoop F T} (isReady : ℕ → Bool) (revents : ℕ → EventMask)
      (hready : ∀ event ∈ p.events isReady revents, p.table.Ready event)
      (hloop : EventLoop.Step p.loop
        (.poll ((p.events isReady revents).map fun event => activeChannel wakeup event.1)) l) :
      Step wakeup p (.poll isReady revents)
        { loop := l
          table := { p.table with
            activeChannels := p.table.fillActiveChannels (p.events isReady revents) }
          list := p.list.poll isReady }

end Step

/-! ## The lists of the kernel agree -/

/-- The fds of the ready list's side are those with an entry, and there are only `fds`. -/
structure Agrees (fds : Finset ℕ) (p : PollingLoop F T) : Prop where
  mirrored : p.table.Mirrored
  channel_fd : ∀ ptr c, p.table.channel ptr = some c → c.fd ∈ fds
  registered_iff : ∀ fd, fd ∈ p.list.registered ↔ p.table.poller.interest fd ≠ none
  wellFormed : p.list.WellFormed

/-- The step of the ready list in an `epoll_ctl`. -/
def ctlLabel (fd : ℕ) (before after : Option (ℕ × EventMask)) : Option EventList.Label :=
  match before, after with
  | none, some _ => some (.add fd)
  | some _, none => some (.delete fd)
  | _, _ => none

section Follow

variable {e : EventList} {fd limit : ℕ} {before after : Option (ℕ × EventMask)}

theorem stutters_follow (hbefore : fd ∈ e.registered ↔ before ≠ none)
    (hlimit : fd ∉ e.registered → e.registered.card < limit) :
    Stutters (restrict EventList.Step (EventList.Within limit)) e (ctlLabel fd before after)
      (e.follow fd before after) := by
  cases before with
  | none =>
      cases after with
      | none => rfl
      | some entry =>
          have hfd : fd ∉ e.registered := fun hmem => hbefore.1 hmem rfl
          exact ⟨.add fd hfd, hlimit hfd⟩
  | some entry =>
      cases after with
      | none => exact ⟨.delete fd, trivial⟩
      | some entry' => rfl

theorem mem_registered_follow_self (hbefore : fd ∈ e.registered ↔ before ≠ none) :
    fd ∈ (e.follow fd before after).registered ↔ after ≠ none := by
  cases before with
  | none => cases after <;> simp_all [EventList.follow]
  | some entry => cases after <;> simp_all [EventList.follow]

theorem mem_registered_follow_of_ne {other : ℕ} (hne : other ≠ fd) :
    other ∈ (e.follow fd before after).registered ↔ other ∈ e.registered := by
  cases before with
  | none => cases after <;> simp [EventList.follow, hne]
  | some entry => cases after <;> simp [EventList.follow, hne]

end Follow

section Agrees

variable {fds : Finset ℕ} {p : PollingLoop F T}

theorem Agrees.registered_subset (h : Agrees fds p) : p.list.registered ⊆ fds := by
  intro fd hfd
  obtain ⟨ptr, c, hc, rfl⟩ := h.mirrored.exists_channel (.inr ((h.registered_iff fd).1 hfd))
  exact h.channel_fd ptr c hc

/-- A channel can be added. -/
theorem Agrees.card_lt (h : Agrees fds p) {ptr : ℕ} {c : Channel}
    (hc : p.table.channel ptr = some c) (hfd : c.fd ∉ p.list.registered) :
    p.list.registered.card < fds.card :=
  Finset.card_lt_card ((Finset.ssubset_iff_of_subset h.registered_subset).2
    ⟨c.fd, h.channel_fd ptr c hc, hfd⟩)

/-- Every reported fd is that of a channel, which the poller hands to the loop. -/
theorem Agrees.mem_fillActiveChannels (h : Agrees fds p) {ptr : ℕ} {c : Channel}
    (hc : p.table.channel ptr = some c) {isReady : ℕ → Bool}
    (hfd : c.fd ∈ (serve isReady p.list.ready p.list.size).1) (revents : ℕ → EventMask) :
    (ptr, revents c.fd) ∈ p.table.fillActiveChannels (p.events isReady revents) := by
  have hready : c.fd ∈ p.list.ready :=
    (served_append_left_sublist _ _ _).subset (List.mem_append_left _ hfd)
  have hentry := (h.registered_iff c.fd).1 (h.wellFormed.registered c.fd hready)
  obtain ⟨⟨other, mask⟩, hinterest⟩ := Option.ne_none_iff_exists'.1 hentry
  obtain ⟨d, hd, hsame, -⟩ := (h.mirrored.interest_iff c.fd other mask).1 hinterest
  obtain rfl := h.mirrored.distinct other ptr d c hd hc hsame
  exact List.mem_filterMap.2 ⟨_, List.mem_map_of_mem hfd, by rw [hinterest]; rfl⟩

end Agrees

/-! ## The three projections -/

/-- The step of the table. -/
def Label.onTable (p : PollingLoop F T) : Label F T → Option ChannelTable.Label
  | .call ptr operation => some (.call ptr operation)
  | .poll isReady revents => some (.poll (p.events isReady revents))
  | _ => none

/-- The step of the ready list. -/
def Label.onList (p : PollingLoop F T) : Label F T → Option EventList.Label
  | .call ptr operation => (p.table.channel ptr).bind fun c =>
      ctlLabel c.fd (p.table.poller.interest c.fd)
        ((p.table.perform ptr c operation).poller.interest c.fd)
  | .wake fd => some (.wake fd)
  | .poll isReady _ => some (.poll isReady)
  | .loop _ => none

/-- The step of the loop. -/
def Label.onLoop (wakeup : ℕ) (p : PollingLoop F T) : Label F T → Option (EventLoop.Label F T)
  | .loop label => some label
  | .poll isReady revents =>
      some (.poll ((p.events isReady revents).map fun event => activeChannel wakeup event.1))
  | _ => none

section Labels

variable {fds : Finset ℕ} {p : PollingLoop F T} {label : Label F T}

/-- The owner of the channel leaves it alone, and its socket is ready at every poll. -/
def StaysReady (ptr fd : ℕ) : Label F T → Prop
  | .call other _ => other ≠ ptr
  | .poll isReady _ => isReady fd = true
  | _ => True

theorem StaysReady.onList (h : Agrees fds p) {ptr : ℕ} {c : Channel}
    (hc : p.table.channel ptr = some c) (hstays : StaysReady ptr c.fd label) :
    ∀ seen ∈ label.onList p, EventList.StaysReady c.fd seen := by
  intro seen hseen
  cases label with
  | loop label => nomatch hseen
  | call other operation =>
      obtain ⟨d, hd, hctl⟩ := Option.bind_eq_some_iff.1 hseen
      have hne : d.fd ≠ c.fd := fun hfd => hstays (h.mirrored.distinct other ptr d c hd hc hfd)
      unfold ctlLabel at hctl
      split at hctl
      · exact Option.some.inj hctl ▸ trivial
      · exact Option.some.inj hctl ▸ hne
      · nomatch hctl
  | wake fd => exact Option.some.inj hseen ▸ trivial
  | poll isReady revents => exact Option.some.inj hseen ▸ hstays

theorem countP_onList (p : PollingLoop F T) (label : Label F T) :
    (label.onList p).toList.countP EventList.Label.isPoll = [label].countP Label.isPoll := by
  cases label with
  | loop label => rfl
  | call ptr operation =>
      have hctl (fd : ℕ) (before after : Option (ℕ × EventMask)) :
          (ctlLabel fd before after).toList.countP EventList.Label.isPoll = 0 := by
        cases before <;> cases after <;> rfl
      rw [Label.onList]
      cases p.table.channel ptr with
      | none => rfl
      | some c => exact hctl _ _ _
  | wake fd => rfl
  | poll isReady revents => rfl

end Labels

section Step

variable [DecidableEq T] {wakeup : ℕ} {fds : Finset ℕ} {p q : PollingLoop F T} {label : Label F T}

theorem table_step (hstep : Step wakeup p label q) :
    Stutters ChannelTable.Step p.table (label.onTable p) q.table := by
  cases hstep with
  | loop hpoll hstep => rfl
  | call operation hc => exact ⟨_, hc, rfl⟩
  | wake hfd hready => rfl
  | poll isReady revents hready hloop => exact ⟨hready, rfl⟩

theorem list_step (h : Agrees fds p) (hstep : Step wakeup p label q) :
    Stutters (restrict EventList.Step (EventList.Within fds.card)) p.list (label.onList p)
      q.list := by
  cases hstep with
  | loop hpoll hstep => rfl
  | call operation hc =>
      rw [Label.onList, hc]
      exact stutters_follow (h.registered_iff _) (h.card_lt hc)
  | wake hfd hready => exact ⟨.wake _ hfd hready, trivial⟩
  | poll isReady revents hready hloop => exact ⟨.poll isReady, trivial⟩

theorem loop_step (hstep : Step wakeup p label q) :
    Stutters EventLoop.Step p.loop (label.onLoop wakeup p) q.loop := by
  cases hstep with
  | loop hpoll hstep => exact hstep
  | call operation hc => rfl
  | wake hfd hready => rfl
  | poll isReady revents hready hloop => exact hloop

theorem wellFormed_stutters {limit : ℕ} {e e' : EventList} {seen : Option EventList.Label}
    (h : e.WellFormed)
    (hstep : Stutters (restrict EventList.Step (EventList.Within limit)) e seen e') :
    e'.WellFormed := by
  cases seen with
  | none =>
      obtain rfl : e' = e := hstep
      exact h
  | some seen => exact h.step hstep.1

theorem Agrees.step (h : Agrees fds p) (hstep : Step wakeup p label q) : Agrees fds q := by
  have hwf := wellFormed_stutters h.wellFormed (list_step h hstep)
  cases hstep with
  | loop hpoll hstep => exact ⟨h.mirrored, h.channel_fd, h.registered_iff, hwf⟩
  | @call ptr c operation hc =>
      refine ⟨h.mirrored.perform hc operation, fun other c' hc' => ?_, fun fd => ?_, hwf⟩
      · obtain ⟨d, hd, hfd⟩ := ChannelTable.exists_of_perform hc hc'
        exact hfd ▸ h.channel_fd other d hd
      · by_cases hfd : fd = c.fd
        · subst hfd
          exact mem_registered_follow_self (h.registered_iff c.fd)
        · obtain ⟨-, hagrees⟩ := Channel.perform_mirrors (h.mirrored.mirrors ptr c hc) operation
          rw [mem_registered_follow_of_ne hfd, h.registered_iff fd,
            ← hagrees.interest_eq fd hfd]
          rfl
  | wake hfd hready => exact ⟨h.mirrored, h.channel_fd, h.registered_iff, hwf⟩
  | poll isReady revents hready hloop =>
      have htable : ChannelTable.Step p.table (.poll (p.events isReady revents)) _ := ⟨hready, rfl⟩
      exact ⟨h.mirrored.step htable, h.channel_fd, h.registered_iff, hwf⟩

theorem agrees_of_run {s₀ : ChannelTable} (hstart : s₀.Start)
    (hfds : ∀ ptr c, s₀.channel ptr = some c → c.fd ∈ fds) {labels : List (Label F T)}
    (hrun : Run (Step wakeup) { table := s₀ } labels p) : Agrees fds p := by
  refine hrun.invariant ⟨hstart.mirrored, hfds, fun fd => ?_, .initial⟩ fun _ _ _ => Agrees.step
  simp [hstart.poller_eq]

/-- Every run is a run of the table, one of the ready list and one of the loop, and the kernel
has the fds of the added channels in both of its lists. -/
theorem polling_projects {s₀ : ChannelTable} (hstart : s₀.Start)
    (hfds : ∀ ptr c, s₀.channel ptr = some c → c.fd ∈ fds) {labels : List (Label F T)}
    (hrun : Run (Step wakeup) { table := s₀ } labels p) :
    (∃ onTable, Run ChannelTable.Step s₀ onTable p.table) ∧
    (∃ onList, Run (restrict EventList.Step (EventList.Within fds.card)) {} onList p.list) ∧
    (∃ onLoop, Run EventLoop.Step {} onLoop p.loop) ∧
    ∀ fd, fd ∈ p.list.registered ↔
      ∃ ptr c, p.table.channel ptr = some c ∧ c.fd = fd ∧ c.index = .kAdded := by
  have hagrees := agrees_of_run hstart hfds hrun
  have hruns : (∃ onTable, Run ChannelTable.Step s₀ onTable p.table) ∧
      (∃ onList, Run (restrict EventList.Step (EventList.Within fds.card)) {} onList p.list) ∧
      ∃ onLoop, Run EventLoop.Step {} onLoop p.loop := by
    clear hagrees
    induction hrun with
    | nil => exact ⟨⟨[], .nil⟩, ⟨[], .nil⟩, [], .nil⟩
    | snoc hpast hlast ih =>
        have hagrees := agrees_of_run hstart hfds hpast
        obtain ⟨⟨onTable, htable⟩, ⟨onList, hlist⟩, onLoop, hloop⟩ := ih
        exact ⟨⟨_, htable.snoc_toList (table_step hlast)⟩,
          ⟨_, hlist.snoc_toList (list_step hagrees hlast)⟩, _, hloop.snoc_toList (loop_step hlast)⟩
  refine ⟨hruns.1, hruns.2.1, hruns.2.2, fun fd => ?_⟩
  rw [hagrees.registered_iff, Option.ne_none_iff_exists']
  constructor
  · rintro ⟨⟨ptr, mask⟩, hentry⟩
    obtain ⟨c, hc, hfd, hindex, -⟩ := (hagrees.mirrored.interest_iff fd ptr mask).1 hentry
    exact ⟨ptr, c, hc, hfd, hindex⟩
  · rintro ⟨ptr, c, hc, hfd, hindex⟩
    exact ⟨_, (hagrees.mirrored.interest_iff fd ptr c.events).2 ⟨c, hc, hfd, hindex, rfl⟩⟩

/-! ## A channel that stays ready -/

/-- One of the polls hands the channel to the loop. -/
def Polled (wakeup ptr fd : ℕ) (p : PollingLoop F T) (labels : List (Label F T))
    (q : PollingLoop F T) : Prop :=
  ∃ past isReady revents future a b, labels = past ++ .poll isReady revents :: future ∧
    Run (Step wakeup) p past a ∧ Step wakeup a (.poll isReady revents) b ∧
    Run (Step wakeup) b future q ∧ (ptr, revents fd) ∈ b.table.activeChannels ∧
    activeChannel wakeup fd ∈ b.loop.activeChannels

theorem Polled.snoc {ptr fd : ℕ} {labels : List (Label F T)} {r : PollingLoop F T}
    (h : Polled wakeup ptr fd p labels q) (hstep : Step wakeup q label r) :
    Polled wakeup ptr fd p (labels ++ [label]) r := by
  obtain ⟨past, isReady, revents, future, a, b, rfl, hpast, hpoll, hfuture, hactive⟩ := h
  exact ⟨past, isReady, revents, future ++ [label], a, b, by simp, hpast, hpoll,
    hfuture.snoc hstep, hactive⟩

theorem Polled.of_append {ptr fd : ℕ} {before labels : List (Label F T)} {o : PollingLoop F T}
    (h : Polled wakeup ptr fd p labels q) (hbefore : Run (Step wakeup) o before p) :
    Polled wakeup ptr fd o (before ++ labels) q := by
  obtain ⟨past, isReady, revents, future, a, b, rfl, hpast, hrest⟩ := h
  exact ⟨before ++ past, isReady, revents, future, a, b, by simp, hbefore.append hpast, hrest⟩

theorem reported_step (hstep : Step wakeup p label q) :
    ∃ more, q.list.reported = p.list.reported ++ more := by
  cases hstep with
  | loop hpoll hstep => exact ⟨[], (List.append_nil _).symm⟩
  | @call ptr c operation hother =>
      refine ⟨[], ?_⟩
      dsimp only [EventList.follow]
      split <;> exact (List.append_nil _).symm
  | wake hfd hready => exact ⟨[], (List.append_nil _).symm⟩
  | poll isReady revents hready hloop => exact ⟨_, rfl⟩

theorem StaysReady.channel_eq {ptr fd : ℕ} (h : StaysReady ptr fd label)
    (hstep : Step wakeup p label q) : q.table.channel ptr = p.table.channel ptr := by
  cases hstep with
  | loop hpoll hstep => rfl
  | call operation hc => exact ChannelTable.perform_channel_of_ne _ (Ne.symm h) _ _
  | wake hfd hready => rfl
  | poll isReady revents hready hloop => rfl

/-- A step that reports the fd is a poll that hands the channel on. -/
theorem polled_of_step (h : Agrees fds p) {ptr : ℕ} {c : Channel}
    (hc : p.table.channel ptr = some c) {more : List ℕ} (hstep : Step wakeup p label q)
    (hmore : q.list.reported = p.list.reported ++ more) (hmem : c.fd ∈ more) :
    Polled wakeup ptr c.fd p [label] q := by
  have hquiet (hsame : q.list.reported = p.list.reported) : False := by
    rw [hsame, List.self_eq_append_right] at hmore
    exact List.not_mem_nil (hmore ▸ hmem)
  have hkept := hstep
  cases hstep with
  | loop hpoll hstep => exact (hquiet rfl).elim
  | call operation hother =>
      refine (hquiet ?_).elim
      dsimp only [EventList.follow]
      split <;> rfl
  | wake hfd hready => exact (hquiet rfl).elim
  | poll isReady revents hready hloop =>
      obtain rfl : (serve isReady p.list.ready p.list.size).1 = more :=
        List.append_cancel_left hmore
      refine ⟨[], isReady, revents, [], p, _, rfl, .nil, hkept, .nil,
        h.mem_fillActiveChannels hc hmem revents, ?_⟩
      cases hloop with
      | poll active hphase =>
          exact List.mem_map.2 ⟨_, List.mem_map_of_mem hmem, rfl⟩

/-- A channel that the kernel takes for ready and whose socket stays so is handed to the loop
by one of the next `k` polls, if there are no more than `16 * (2 ^ k - 1)` channels. -/
theorem channel_polled {s₀ : ChannelTable} (hstart : s₀.Start)
    (hfds : ∀ ptr c, s₀.channel ptr = some c → c.fd ∈ fds) {labels : List (Label F T)}
    (hrun : Run (Step wakeup) { table := s₀ } labels p) {ptr : ℕ} {c : Channel}
    (hc : p.table.channel ptr = some c) (hready : c.fd ∈ p.list.ready) {next : List (Label F T)}
    (hnext : Run (restrict (Step wakeup) fun _ => StaysReady ptr c.fd) p next q)
    (hpolls : fds.card ≤ 16 * (2 ^ next.countP Label.isPoll - 1)) :
    Polled wakeup ptr c.fd p next q := by
  have hprojected : Agrees fds q ∧ q.table.channel ptr = some c ∧
      (∃ onList, Run (restrict (restrict EventList.Step (EventList.Within fds.card))
          fun _ => EventList.StaysReady c.fd) p.list onList q.list ∧
        onList.countP EventList.Label.isPoll = next.countP Label.isPoll) ∧
      ∃ since, q.list.reported = p.list.reported ++ since ∧
        (c.fd ∈ since → Polled wakeup ptr c.fd p next q) := by
    clear hpolls
    induction hnext with
    | nil =>
        exact ⟨agrees_of_run hstart hfds hrun, hc, ⟨[], .nil, rfl⟩, [], (List.append_nil _).symm,
          fun hmem => absurd hmem List.not_mem_nil⟩
    | @snoc past label a b hpast hlast ih =>
        obtain ⟨hagrees, hchannel, ⟨onList, hlist, hcount⟩, since, hsince, hpolled⟩ := ih
        obtain ⟨hstep, hstays⟩ := hlast
        have hlist_step : Stutters (restrict (restrict EventList.Step (EventList.Within fds.card))
            fun _ => EventList.StaysReady c.fd) a.list (label.onList a) b.list :=
          (list_step hagrees hstep).restrict (hstays.onList hagrees hchannel)
        obtain ⟨more, hmore⟩ := reported_step hstep
        refine ⟨hagrees.step hstep, hstays.channel_eq hstep ▸ hchannel,
          ⟨_, hlist.snoc_toList hlist_step, ?_⟩, since ++ more, ?_, fun hmem => ?_⟩
        · rw [List.countP_append, List.countP_append, hcount, countP_onList]
        · rw [hmore, hsince, List.append_assoc]
        · rcases List.mem_append.1 hmem with hold | hnew
          · exact (hpolled hold).snoc hstep
          · have hpast' := hpast.mono fun _ _ _ hstep => hstep.1
            exact (polled_of_step hagrees hchannel hstep hmore hnew).of_append hpast'
  obtain ⟨-, -, ⟨onList, hlist, hcount⟩, since, hsince, hpolled⟩ := hprojected
  obtain ⟨-, ⟨before, hbefore⟩, -⟩ := polling_projects hstart hfds hrun
  obtain ⟨-, -, hreported⟩ := EventList.ready_reported fds.card _ _ hbefore
  obtain ⟨since', hsince', hmem⟩ := hreported c.fd hready _ _ hlist (hcount ▸ hpolls)
  obtain rfl : since' = since := List.append_cancel_left (hsince'.symm.trans hsince)
  exact hpolled hmem

end Step

/-- The first of two channels reads, its socket has data, and the loop is about to poll. -/
def twoPolling : PollingLoop Unit Unit where
  loop := { looping := true, phase := .polling }
  table := ChannelTable.twoChannels.perform 0 { fd := 5 } .enableReading
  list := { registered := {5}, ready := [5] }

theorem run_twoPolling : Run (Step 7) { table := ChannelTable.twoChannels }
    [.call 0 .enableReading, .wake 5, .loop .loop, .loop .testQuit] twoPolling := by
  refine (((Run.single (.call .enableReading rfl)).snoc (.wake ?_ ?_)).snoc
    (.loop (by simp) (.loop rfl))).snoc (.loop (by simp) (.testQuit rfl))
  · exact Finset.mem_singleton_self 5
  · exact List.not_mem_nil

theorem channel_polled_two : ∃ next q, Polled 7 0 5 twoPolling next q := by
  have hfds : ∀ ptr c, ChannelTable.twoChannels.channel ptr = some c → c.fd ∈ Finset.range 7 := by
    intro ptr c hc
    simp only [ChannelTable.twoChannels, Option.ite_none_right_eq_some, Option.some.injEq] at hc
    obtain ⟨hlt, rfl⟩ := hc
    have hlt' : 5 + ptr < 7 := by omega
    exact Finset.mem_range.2 hlt'
  have hready : ∀ event ∈ twoPolling.events (fun _ => true) fun _ => EPOLLIN,
      twoPolling.table.Ready event := by
    intro event hmem
    rw [List.mem_singleton.1 hmem]
    exact ⟨0, Channel.kReadEvent, rfl, by decide⟩
  have hpoll : restrict (Step 7) (fun _ => StaysReady 0 5) twoPolling (.poll _ _) _ :=
    ⟨.poll _ _ hready (.poll _ rfl), rfl⟩
  have hchannel : twoPolling.table.channel 0 =
      some { fd := 5, events := Channel.kReadEvent, index := .kAdded } := rfl
  exact ⟨_, _, channel_polled ChannelTable.twoChannels_start hfds run_twoPolling hchannel
    (List.mem_singleton_self 5) (Run.single hpoll) (by decide)⟩

end PollingLoop

end MuduoLite
