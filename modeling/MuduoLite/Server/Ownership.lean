import MuduoLite.Library.Decimal
import MuduoLite.Server.Model

/-!
# What an owner guarantees

`WellFormed` says that the books agree: connections carry the names and the loops
they were made with, the map is keyed by names, a functor about a connection is
in the queue of that connection's loop, and whatever has an owner has not been
destroyed.  No label breaks it, whatever the threads do: a pointer is only ever
copied from one that exists, and a connection is destroyed only when none is left.

The names matter because `removeConnectionInLoop` erases by name.  As long as
`nextConnId_` does not overflow they are distinct (`connName_injective`), so that
one connection never takes another one out of the map.
-/

namespace MuduoLite

open Function (update)

/-! ## Names -/

/-- The buffer of `snprintf` is long enough for every `int`. -/
theorem TcpServer.take_ipPort (server : TcpServer) {digits : List Char}
    (hdigits : digits.length ≤ 11) : ('-' :: server.ipPort ++ '#' :: digits).take 63 =
      '-' :: (server.ipPort ++ '#' :: digits) := by
  have hipPort := server.ipPort_length
  rw [List.take_of_length_le]
  · rfl
  · simp only [List.cons_append, List.length_cons, List.length_append]
    omega

theorem TcpServer.connName_eq (server : TcpServer) {c : ℕ} (hc : c < 2 ^ 31) :
    server.connName c = server.name ++ '-' :: (server.ipPort ++ '#' :: Nat.toDigits 10 c) := by
  have hdigits : (Nat.toDigits 10 c).length ≤ 10 :=
    (Nat.length_toDigits_le_iff (by decide) (by decide)).2 (by omega)
  rw [connName, server.take_ipPort (hdigits.trans (by decide))]

theorem TcpServer.connName_injective (server : TcpServer) {c d : ℕ} (hc : c < 2 ^ 31)
    (hd : d < 2 ^ 31) (h : server.connName c = server.connName d) : c = d := by
  rw [connName_eq server hc, connName_eq server hd] at h
  have hdigits : Nat.toDigits 10 c = Nat.toDigits 10 d := by simpa using h
  exact Decimal.toDigits_injective hdigits

namespace Server

namespace IoFunctor

variable (functor : IoFunctor) (k : Conn)

@[simp] theorem mark_tcp : (functor.mark k).tcp = k.tcp := by cases functor <;> rfl
@[simp] theorem mark_loop : (functor.mark k).loop = k.loop := by cases functor <;> rfl
@[simp] theorem mark_name : (functor.mark k).name = k.name := by cases functor <;> rfl
@[simp] theorem mark_alive : (functor.mark k).alive = k.alive := by cases functor <;> rfl

theorem mark_established (h : k.established = true) : (functor.mark k).established = true := by
  cases functor with
  | connectEstablished c => rfl
  | connectDestroyed c => exact h
  | method c functor => exact h

end IoFunctor

namespace State

/-! ## Fields after an update -/

section Fields

variable (s : State) (c d loop other : ℕ) (k : Conn) (l : IoLoop)

@[simp] theorem setConn_conns_self : (s.setConn c k).conns c = some k := by
  simp [setConn]

theorem setConn_conns_of_ne (h : d ≠ c) : (s.setConn c k).conns d = s.conns d := by
  simp [setConn, h]

@[simp] theorem setConn_io : (s.setConn c k).io = s.io := rfl

@[simp] theorem setLoop_io_self : (s.setLoop loop l).io loop = l := by
  simp [setLoop]

theorem setLoop_io_of_ne (h : other ≠ loop) : (s.setLoop loop l).io other = s.io other := by
  simp [setLoop, h]

end Fields

section OnConn

variable (s : State) (c d loop : ℕ) (k : Conn) (method : ConnState → ConnState)

@[simp] theorem onConn_conns_self : (s.onConn c k method).conns c =
    some { k with tcp := (method (s.connState c k)).conn } := setConn_conns_self _ _ _

theorem onConn_conns_of_ne (h : d ≠ c) : (s.onConn c k method).conns d = s.conns d :=
  setConn_conns_of_ne _ _ _ _ h

theorem onConn_base : (s.onConn c k method).base.functors = s.base.functors.enqueue
    (List.replicate ((method (s.connState c k)).effects.count .closeCallback) c) := rfl

theorem onConn_io_self : (s.onConn c k method).io k.loop =
    { s.io k.loop with
      poller := (method (s.connState c k)).poller
      functors := (s.io k.loop).functors.enqueue
        ((method (s.connState c k)).pendingFunctors.map (.method c)) } := by
  simp [onConn, removeConnection, State.setBase, State.queueInLoop, setFunctors, setPoller]

theorem onConn_io_of_ne (h : loop ≠ k.loop) : (s.onConn c k method).io loop = s.io loop := by
  simp [onConn, removeConnection, State.setBase, State.queueInLoop, setFunctors, setPoller,
    setLoop_io_of_ne _ _ _ _ h]

end OnConn

section NewConnection

variable (s : State) (server : TcpServer) (c loop fd other : ℕ)

@[simp] theorem newConnection_conns_self : (s.newConnection server loop fd).conns s.nextConnId =
    some (.new server loop fd s.nextConnId) := setConn_conns_self _ _ _

theorem newConnection_conns_of_ne (h : c ≠ s.nextConnId) :
    (s.newConnection server loop fd).conns c = s.conns c := setConn_conns_of_ne _ _ _ _ h

theorem newConnection_conns_eq_some {k : Conn}
    (h : (s.newConnection server loop fd).conns c = some k) :
    (c = s.nextConnId ∧ k = .new server loop fd c) ∨ (c ≠ s.nextConnId ∧ s.conns c = some k) := by
  by_cases hc : c = s.nextConnId
  · subst hc
    rw [newConnection_conns_self, Option.some.injEq] at h
    exact .inl ⟨rfl, h.symm⟩
  · rw [newConnection_conns_of_ne _ _ _ _ _ hc] at h
    exact .inr ⟨hc, h⟩

theorem newConnection_io_self : (s.newConnection server loop fd).io loop =
    { s.io loop with
      functors := (s.io loop).functors.enqueue [.connectEstablished s.nextConnId] } := by
  simp [newConnection, State.queueInLoop, setFunctors]

theorem newConnection_io_of_ne (h : other ≠ loop) :
    (s.newConnection server loop fd).io other = s.io other := by
  simp [newConnection, State.queueInLoop, setFunctors, setLoop_io_of_ne _ _ _ _ h]

theorem newConnection_io_eq : ∃ functors, (s.newConnection server loop fd).io other =
    { s.io other with functors := functors } := by
  by_cases hother : other = loop
  · subst hother
    exact ⟨_, newConnection_io_self s server other fd⟩
  · exact ⟨_, newConnection_io_of_ne s server loop fd other hother⟩

end NewConnection

section Removal

variable (s : State) (c other : ℕ) (k : Conn)

@[simp] theorem popBase_io : s.popBase.io = s.io := rfl

theorem removeConnectionInLoop_io_self : (s.removeConnectionInLoop c k).io k.loop =
    { s.io k.loop with
      functors := (s.io k.loop).functors.enqueue [.connectDestroyed c] } := by
  simp [removeConnectionInLoop, State.queueInLoop, setFunctors]

theorem removeConnectionInLoop_io_of_ne (h : other ≠ k.loop) :
    (s.removeConnectionInLoop c k).io other = s.io other := by
  simp [removeConnectionInLoop, State.queueInLoop, setFunctors, setLoop_io_of_ne _ _ _ _ h]

theorem removeConnectionInLoop_io_eq : ∃ functors, (s.removeConnectionInLoop c k).io other =
    { s.io other with functors := functors } := by
  by_cases hother : other = k.loop
  · subst hother
    exact ⟨_, removeConnectionInLoop_io_self s c k⟩
  · exact ⟨_, removeConnectionInLoop_io_of_ne s c other k hother⟩

end Removal

/-! ## New owners -/

section Owners

variable {s : State} {c loop : ℕ}

/-- Where only the map or the base loop differ, they account for the owners. -/
theorem Owned.of_io_eq {t : State} (h : t.Owned c) (hio : t.io = s.io)
    (huser : t.userRefs = s.userRefs) (hcalls : t.calls = s.calls)
    (hconnections : ∀ name, t.connections name = some c → s.Owned c)
    (hbase : c ∈ t.base.functors.held → s.Owned c) : s.Owned c := by
  cases h with
  | connections h => exact hconnections _ h
  | base h => exact hbase h
  | functor loop h howns hconn => exact .functor loop (hio ▸ h) howns hconn
  | event loop h hguarded hconn => exact .event loop (hio ▸ h) hguarded hconn
  | user h => exact .user (huser ▸ h)
  | call h => exact .call (hcalls ▸ h)

theorem Owned.of_setConn {d : ℕ} {k : Conn} (h : (s.setConn d k).Owned c) : s.Owned c :=
  h.of_io_eq rfl rfl rfl (fun _ h => .connections h) fun h => .base h

theorem Owned.setConn {d : ℕ} {k : Conn} (h : s.Owned c) : (s.setConn d k).Owned c :=
  h.of_io_eq rfl rfl rfl (fun _ h => .connections h) fun h => .base h

theorem Owned.of_setLoop {l : IoLoop} (h : (s.setLoop loop l).Owned c)
    (hfunctor : ∀ functor ∈ l.functors.held, functor.owns = true → functor.conn = c → s.Owned c)
    (hevent : ∀ event, l.event = some event → event.guarded = true → event.conn = c →
      s.Owned c) : s.Owned c := by
  cases h with
  | connections h => exact .connections h
  | base h => exact .base h
  | functor other h howns hconn =>
      by_cases hloop : other = loop
      · subst hloop
        exact hfunctor _ (by simpa using h) howns hconn
      · rw [setLoop_io_of_ne _ _ _ _ hloop] at h
        exact .functor other h howns hconn
  | event other h hguarded hconn =>
      by_cases hloop : other = loop
      · subst hloop
        exact hevent _ (by simpa using h) hguarded hconn
      · rw [setLoop_io_of_ne _ _ _ _ hloop] at h
        exact .event other h hguarded hconn
  | user h => exact .user h
  | call h => exact .call h

/-- A loop that holds no more than before brings no owner. -/
theorem Owned.of_setLoop_held {l : IoLoop} (h : (s.setLoop loop l).Owned c)
    (hheld : ∀ functor ∈ l.functors.held, functor ∈ (s.io loop).functors.held)
    (hevent : ∀ event, l.event = some event → event.guarded = true → event.conn = c →
      s.Owned c) : s.Owned c :=
  h.of_setLoop (fun functor hmem howns hconn => .functor loop (hheld functor hmem) howns hconn)
    hevent

theorem Owned.of_queueInLoop {functors : List IoFunctor} (h : (s.queueInLoop loop functors).Owned c)
    (hnew : ∀ functor ∈ functors, functor.owns = true → functor.conn = c → s.Owned c) :
    s.Owned c := by
  refine h.of_setLoop ?_ fun event hevent => .event loop hevent
  intro functor hmem howns hconn
  rw [BatchQueue.held_enqueue] at hmem
  rcases List.mem_append.1 hmem with hold | hmem
  · exact .functor loop hold howns hconn
  · exact hnew functor hmem howns hconn

/-- A loop that holds no less than before keeps every owner. -/
theorem Owned.setLoop {l : IoLoop} (h : s.Owned c)
    (hheld : ∀ functor ∈ (s.io loop).functors.held, functor ∈ l.functors.held)
    (hevent : ∀ event, (s.io loop).event = some event → ∃ after, l.event = some after ∧
      after.guarded = event.guarded ∧ after.conn = event.conn) :
    (s.setLoop loop l).Owned c := by
  cases h with
  | connections h => exact .connections h
  | base h => exact .base h
  | functor other h howns hconn =>
      by_cases hloop : other = loop
      · subst hloop
        exact .functor other (by simpa using hheld _ h) howns hconn
      · exact .functor other (by rwa [setLoop_io_of_ne _ _ _ _ hloop]) howns hconn
  | event other h hguarded hconn =>
      by_cases hloop : other = loop
      · subst hloop
        obtain ⟨after, hafter, hguarded', hconn'⟩ := hevent _ h
        exact .event other (by rwa [setLoop_io_self]) (hguarded'.trans hguarded)
          (hconn'.trans hconn)
      · exact .event other (by rwa [setLoop_io_of_ne _ _ _ _ hloop]) hguarded hconn
  | user h => exact .user h
  | call h => exact .call h

theorem Owned.setPoller (h : s.Owned c) (poller : EPollPoller) :
    (s.setPoller loop poller).Owned c :=
  h.setLoop (fun _ hmem => hmem) fun event hevent => ⟨event, hevent, rfl, rfl⟩

theorem Owned.queueInLoop (h : s.Owned c) (functors : List IoFunctor) :
    (s.queueInLoop loop functors).Owned c :=
  h.setLoop (fun functor hmem => by
    rw [BatchQueue.held_enqueue]
    exact List.mem_append_left _ hmem) fun event hevent => ⟨event, hevent, rfl, rfl⟩

theorem Owned.popFunctor (h : s.Owned c) : (s.popFunctor loop).Owned c :=
  h.setLoop (by simp) fun event hevent => ⟨event, hevent, rfl, rfl⟩

theorem insert_eq_some {name other : List Char} {d : ℕ}
    (h : update s.connections name (some d) other = some c) :
    (other = name ∧ c = d) ∨ s.connections other = some c := by
  by_cases hname : other = name
  · rw [hname, Function.update_self, Option.some.injEq] at h
    exact .inl ⟨hname, h.symm⟩
  · exact .inr (by rwa [Function.update_of_ne hname] at h)

theorem erase_eq_some {name other : List Char}
    (h : update s.connections name none other = some c) : s.connections other = some c := by
  by_cases hname : other = name
  · simp [hname] at h
  · rwa [Function.update_of_ne hname] at h

theorem Owned.of_erase {name : List Char}
    (h : Owned { s with connections := update s.connections name none } c) : s.Owned c :=
  h.of_io_eq rfl rfl rfl (fun _ hentry => .connections (erase_eq_some hentry)) fun h => .base h

/-- A new entry of the map owns its own connection only. -/
theorem Owned.of_insert {name : List Char} {d nextConnId : ℕ}
    (h : Owned { s with nextConnId := nextConnId
                        connections := update s.connections name (some d) } c)
    (hne : c ≠ d) : s.Owned c := by
  refine h.of_io_eq rfl rfl rfl (fun other hentry => ?_) fun h => .base h
  rcases insert_eq_some hentry with ⟨-, hnew⟩ | hold
  · exact absurd hnew hne
  · exact .connections hold

theorem owned_of_update {n : ℕ} (howned : s.Owned c) (d : ℕ) (h : 0 < update s.userRefs c n d) :
    s.Owned d := by
  by_cases hd : d = c
  · exact hd ▸ howned
  · exact .user (by rwa [Function.update_of_ne hd] at h)

theorem Owned.of_setBase {base : BaseLoop} (h : (s.setBase base).Owned c)
    (hheld : c ∈ base.functors.held → s.Owned c) : s.Owned c :=
  h.of_io_eq rfl rfl rfl (fun _ h => .connections h) hheld

end Owners

end State

open State

/-! ## The invariant -/

/-- A loop holds a batch only while it runs it. -/
def IoLoop.Idle (l : IoLoop) : Prop :=
  l.phase ≠ .calling → l.functors.ran = [] ∧ l.functors.todo = []

def BaseLoop.Idle (b : BaseLoop) : Prop :=
  b.calling = false → b.functors.ran = [] ∧ b.functors.todo = []

structure WellFormed (server : TcpServer) (s : State) : Prop where
  bound : s.nextConnId < 2 ^ 31
  conns : ∀ c k, s.conns c = some k → c < s.nextConnId ∧ k.name = server.connName c
  names : ∀ name c, s.connections name = some c → name = server.connName c
  functors : ∀ loop, ∀ functor ∈ (s.io loop).functors.held,
    ∃ k, s.conns functor.conn = some k ∧ k.loop = loop
  owned : ∀ c, s.Owned c → ∃ k, s.conns c = some k ∧ k.alive = true
  io : ∀ loop, (s.io loop).Idle
  base : s.base.Idle

theorem BaseLoop.Idle.enqueue {b : BaseLoop} (h : b.Idle) (conns : List ℕ) :
    BaseLoop.Idle { b with functors := b.functors.enqueue conns } := h

namespace WellFormed

variable {server : TcpServer} {s : State}

theorem initial : WellFormed server {} where
  bound := by decide
  conns := fun _ _ h => nomatch h
  names := fun _ _ h => nomatch h
  functors := fun _ _ h => nomatch h
  owned := by
    intro c h
    cases h with
    | connections h => nomatch h
    | base h => nomatch h
    | functor _ h => nomatch h
    | event _ h => nomatch h
    | user h => exact absurd h (lt_irrefl 0)
    | call h => nomatch h
  io := fun _ _ => ⟨rfl, rfl⟩
  base := fun _ => ⟨rfl, rfl⟩

/-- A connection is overwritten: its name and loop stay, and it stays alive if it
has an owner. -/
theorem setConn (h : WellFormed server s) {c : ℕ} {k k' : Conn} (hconn : s.conns c = some k)
    (hname : k'.name = k.name) (hloop : k'.loop = k.loop)
    (halive : s.Owned c → k'.alive = true) : WellFormed server (s.setConn c k') where
  bound := h.bound
  conns := by
    intro d e he
    by_cases hd : d = c
    · subst hd
      simp only [setConn_conns_self, Option.some.injEq] at he
      subst he
      exact hname ▸ h.conns d k hconn
    · rw [setConn_conns_of_ne _ _ _ _ hd] at he
      exact h.conns d e he
  names := h.names
  functors := by
    intro loop functor hmem
    obtain ⟨e, he, heloop⟩ := h.functors loop functor hmem
    by_cases hd : functor.conn = c
    · rw [hd, hconn, Option.some.injEq] at he
      exact ⟨k', by rw [hd, setConn_conns_self], by rw [hloop, he, heloop]⟩
    · exact ⟨e, by rw [setConn_conns_of_ne _ _ _ _ hd, he], heloop⟩
  owned := by
    intro d hd
    have howned := hd.of_setConn
    obtain ⟨e, he, healive⟩ := h.owned d howned
    by_cases hdc : d = c
    · subst hdc
      exact ⟨k', setConn_conns_self _ _ _, halive howned⟩
    · exact ⟨e, by rw [setConn_conns_of_ne _ _ _ _ hdc, he], healive⟩
  io := h.io
  base := h.base

/-- A loop changes and holds no new functor. -/
theorem setLoop (h : WellFormed server s) {loop : ℕ} {l : IoLoop}
    (hheld : ∀ functor ∈ l.functors.held, functor ∈ (s.io loop).functors.held)
    (hevent : ∀ event, l.event = some event → event.guarded = true → s.Owned event.conn)
    (hidle : l.Idle) : WellFormed server (s.setLoop loop l) where
  bound := h.bound
  conns := h.conns
  names := h.names
  functors := by
    intro other functor hmem
    by_cases hother : other = loop
    · subst hother
      exact h.functors other functor (hheld functor (by simpa using hmem))
    · rw [setLoop_io_of_ne _ _ _ _ hother] at hmem
      exact h.functors other functor hmem
  owned := by
    intro c hc
    exact h.owned c (hc.of_setLoop_held hheld
      fun event he hguarded hconn => hconn ▸ hevent event he hguarded)
  io := by
    intro other
    by_cases hother : other = loop
    · subst hother
      simpa using hidle
    · rw [setLoop_io_of_ne _ _ _ _ hother]
      exact h.io other
  base := h.base

theorem queueInLoop (h : WellFormed server s) {loop : ℕ} {functors : List IoFunctor}
    (hconn : ∀ functor ∈ functors, ∃ k, s.conns functor.conn = some k ∧ k.loop = loop)
    (howned : ∀ functor ∈ functors, functor.owns = true → s.Owned functor.conn) :
    WellFormed server (s.queueInLoop loop functors) where
  bound := h.bound
  conns := h.conns
  names := h.names
  functors := by
    intro other functor hmem
    by_cases hother : other = loop
    · subst hother
      simp only [State.queueInLoop, setFunctors, setLoop_io_self, BatchQueue.held_enqueue,
        List.mem_append] at hmem
      rcases hmem with hold | hnew
      · exact h.functors other functor hold
      · exact hconn functor hnew
    · rw [State.queueInLoop, setFunctors, setLoop_io_of_ne _ _ _ _ hother] at hmem
      exact h.functors other functor hmem
  owned := by
    intro c hc
    exact h.owned c (hc.of_queueInLoop
      fun functor hmem howns hfunctor => hfunctor ▸ howned functor hmem howns)
  io := by
    intro other
    by_cases hother : other = loop
    · subst hother
      simpa [State.queueInLoop, setFunctors, IoLoop.Idle, BatchQueue.enqueue] using h.io other
    · rw [State.queueInLoop, setFunctors, setLoop_io_of_ne _ _ _ _ hother]
      exact h.io other
  base := h.base

theorem setPoller (h : WellFormed server s) (loop : ℕ) (poller : EPollPoller) :
    WellFormed server (s.setPoller loop poller) :=
  h.setLoop (fun _ hmem => hmem) (fun _ hevent hguarded => .event loop hevent hguarded rfl)
    (h.io loop)

theorem popFunctor (h : WellFormed server s) {loop : ℕ}
    (hphase : (s.io loop).phase = .calling) : WellFormed server (s.popFunctor loop) :=
  h.setLoop (by simp) (fun _ hevent hguarded => .event loop hevent hguarded rfl)
    fun hcalling => absurd hphase hcalling

/-- The pointers of user code change; each is a copy of one that exists. -/
theorem setUsers (h : WellFormed server s) {userRefs : ℕ → ℕ} {calls : List (ℕ × Pending)}
    (huser : ∀ c, 0 < userRefs c → s.Owned c)
    (hcall : ∀ c pending, (c, pending) ∈ calls → s.Owned c) :
    WellFormed server { s with userRefs := userRefs, calls := calls } where
  bound := h.bound
  conns := h.conns
  names := h.names
  functors := h.functors
  owned := by
    intro c hc
    apply h.owned c
    cases hc with
    | connections h => exact .connections h
    | base h => exact .base h
    | functor loop h howns hconn => exact .functor loop h howns hconn
    | event loop h hguarded hconn => exact .event loop h hguarded hconn
    | user h => exact huser c h
    | call h => exact hcall c _ h
  io := h.io
  base := h.base

theorem setBase (h : WellFormed server s) {base : BaseLoop}
    (hheld : ∀ c ∈ base.functors.held, s.Owned c) (hidle : base.Idle) :
    WellFormed server (s.setBase base) where
  bound := h.bound
  conns := h.conns
  names := h.names
  functors := h.functors
  owned := fun c hc => h.owned c (hc.of_setBase (hheld c))
  io := h.io
  base := hidle

theorem onConn (h : WellFormed server s) {c : ℕ} {k k' : Conn} (hconn : s.conns c = some k)
    (hname : k'.name = k.name) (hloop : k'.loop = k.loop) (halive : k'.alive = k.alive)
    (howned : s.Owned c) (method : ConnState → ConnState) :
    WellFormed server (s.onConn c k' method) := by
  obtain ⟨e, he, healive⟩ := h.owned c howned
  rw [hconn, Option.some.injEq] at he
  subst he
  let t := method (s.connState c k')
  have hset : WellFormed server (s.setConn c { k' with tcp := t.conn }) :=
    h.setConn hconn hname hloop fun _ => halive.trans healive
  have hran := hset.setPoller k'.loop t.poller
  have howned' : ((s.setConn c { k' with tcp := t.conn }).setPoller k'.loop t.poller).Owned c :=
    howned.setConn.setPoller _
  have hqueued : WellFormed server
      (((s.setConn c { k' with tcp := t.conn }).setPoller k'.loop t.poller).queueInLoop k'.loop
        (t.pendingFunctors.map (.method c))) := by
    refine hran.queueInLoop ?_ ?_
    · intro functor hmem
      obtain ⟨queued, -, rfl⟩ := List.mem_map.1 hmem
      exact ⟨_, setConn_conns_self _ _ _, rfl⟩
    · intro functor hmem _
      obtain ⟨queued, -, rfl⟩ := List.mem_map.1 hmem
      exact howned'
  -- a reported close makes the base loop an owner of `c`
  refine hqueued.setBase ?_ (hqueued.base.enqueue _)
  intro d hd
  rw [BatchQueue.held_enqueue] at hd
  rcases List.mem_append.1 hd with hold | hnew
  · exact .base hold
  · rw [List.eq_of_mem_replicate hnew]
    exact howned'.queueInLoop _

/-- The functor that removes a connection owns it; what it takes out of the map is
the connection's own entry. -/
theorem removeConnectionInLoop (h : WellFormed server s) {c : ℕ} {k : Conn}
    (hconn : s.conns c = some k) (howned : c ∈ s.base.functors.held) :
    WellFormed server (s.removeConnectionInLoop c k) := by
  have hmap : WellFormed server { s with connections := update s.connections k.name none } := by
    refine ⟨h.bound, h.conns, ?_, h.functors, ?_, h.io, h.base⟩
    · intro name d hd
      exact h.names name d (erase_eq_some hd)
    · intro d hd
      exact h.owned d (hd.of_erase)
  refine hmap.queueInLoop ?_ ?_
  · intro functor hmem
    rw [List.mem_singleton.1 hmem]
    exact ⟨k, hconn, rfl⟩
  · intro functor hmem _
    rw [List.mem_singleton.1 hmem]
    exact .base howned

/-- The id of the next connection is not in use. -/
theorem ne_nextConnId (h : WellFormed server s) {c : ℕ} {k : Conn} (hconn : s.conns c = some k) :
    c ≠ s.nextConnId := (h.conns c k hconn).1.ne

theorem name_ne (h : WellFormed server s) {c d : ℕ} {k : Conn} (hconn : s.conns c = some k)
    (hd : d < 2 ^ 31) (hne : c ≠ d) : k.name ≠ server.connName d := by
  obtain ⟨hbound, hname⟩ := h.conns c k hconn
  rw [hname]
  exact fun heq => hne (server.connName_injective (hbound.trans h.bound) hd heq)

/-- The entry of a connection in the map is not under the name of another one. -/
theorem connections_ne (h : WellFormed server s) {name : List Char} {c d : ℕ}
    (hc : s.connections name = some c) (hd : d < 2 ^ 31) (hne : c ≠ d) :
    name ≠ server.connName d := by
  obtain ⟨k, hk, -⟩ := h.owned c (.connections hc)
  rw [h.names name c hc, ← (h.conns c k hk).2]
  exact h.name_ne hk hd hne

theorem conns_nextConnId (h : WellFormed server s) : s.conns s.nextConnId = none := by
  by_contra hsome
  obtain ⟨k, hk⟩ := Option.ne_none_iff_exists'.1 hsome
  exact h.ne_nextConnId hk rfl

theorem newConnection (h : WellFormed server s) (hid : s.nextConnId < 2 ^ 31 - 1) (loop fd : ℕ) :
    WellFormed server (s.newConnection server loop fd) := by
  unfold State.newConnection
  dsimp only
  refine WellFormed.queueInLoop ⟨?_, ?_, ?_, ?_, ?_, ?_, ?_⟩ ?_ ?_
  · show s.nextConnId + 1 < 2 ^ 31
    omega
  · intro c k hk
    by_cases hc : c = s.nextConnId
    · subst hc
      simp only [setConn_conns_self, Option.some.injEq] at hk
      subst hk
      exact ⟨Nat.lt_succ_self _, rfl⟩
    · rw [setConn_conns_of_ne _ _ _ _ hc] at hk
      exact ⟨(h.conns c k hk).1.trans (Nat.lt_succ_self _), (h.conns c k hk).2⟩
  · intro name c hc
    rcases insert_eq_some hc with ⟨rfl, rfl⟩ | hold
    · rfl
    · exact h.names name c hold
  · intro other functor hmem
    obtain ⟨k, hk, hloop⟩ := h.functors other functor hmem
    exact ⟨k, by rw [setConn_conns_of_ne _ _ _ _ (h.ne_nextConnId hk), hk], hloop⟩
  · intro c hc
    by_cases hnew : c = s.nextConnId
    · subst hnew
      exact ⟨_, setConn_conns_self _ _ _, rfl⟩
    · obtain ⟨k, hk, halive⟩ := h.owned c (hc.of_setConn.of_insert hnew)
      exact ⟨k, by rw [setConn_conns_of_ne _ _ _ _ hnew, hk], halive⟩
  · exact h.io
  · exact h.base
  · intro functor hmem
    rw [List.mem_singleton.1 hmem]
    exact ⟨_, setConn_conns_self _ _ _, rfl⟩
  · intro functor hmem _
    rw [List.mem_singleton.1 hmem]
    exact .connections (Function.update_self _ _ _)

/-- No label breaks the invariant. -/
theorem step {label : Label} {t : State} (h : WellFormed server s) (hstep : Step server s label t) :
    WellFormed server t := by
  cases hstep with
  | newConnection loop fd hbase hid hfd => exact h.newConnection hid loop fd
  | baseSwap hbase =>
      refine h.setBase ?_ (by simp [BaseLoop.Idle])
      intro c hc
      rw [BatchQueue.held_swap _ (h.base hbase)] at hc
      exact .base hc
  | baseRun hbase htodo hconn =>
      have hpopped : WellFormed server s.popBase :=
        h.setBase (fun c hc => .base (by simpa using hc)) fun hidle => by simp [hbase] at hidle
      refine hpopped.removeConnectionInLoop hconn ?_
      rw [popBase, State.setBase, BatchQueue.held_advance]
      exact BatchQueue.mem_held_of_mem_waiting (by simp [BatchQueue.waiting, htodo])
  | baseFinish hbase htodo =>
      refine h.setBase ?_ fun _ => ⟨rfl, htodo⟩
      intro c hc
      rw [BatchQueue.held_finish] at hc
      exact .base (BatchQueue.mem_held_of_mem_waiting hc)
  | poll loop events hphase =>
      refine h.setLoop (fun _ hmem => hmem)
        (fun event hevent hguarded => .event loop hevent hguarded rfl) ?_
      exact fun _ => h.io loop (by simp [hphase])
  | handleEvent loop hphase hevent hactive hconn hguard =>
      refine h.setLoop (fun _ hmem => hmem) ?_ fun _ => h.io loop (by simp [hphase])
      intro event hnew hguarded
      simp only [Option.some.injEq] at hnew
      subst hnew
      exact hguard hguarded
  | handleEventExpired loop hphase hevent hactive hconn htied hexpired =>
      exact h.setLoop (fun _ hmem => hmem)
        (fun event hevent hguarded => .event loop hevent hguarded rfl)
        fun _ => h.io loop (by simp [hphase])
  | @callback loop read result event callback rest k hphase hevent hcallbacks hconn howned =>
      have hpopped : WellFormed server (s.popCallback loop event rest) := by
        refine h.setLoop (fun _ hmem => hmem) ?_ fun _ => h.io loop (by simp [hphase])
        intro after hafter _
        rw [Option.some.injEq] at hafter
        exact hafter ▸ howned
      -- the event still holds the connection when its callback runs
      refine hpopped.onConn hconn rfl rfl rfl (howned.setLoop (fun _ hmem => hmem) ?_) _
      intro before hbefore
      rw [hevent, Option.some.injEq] at hbefore
      exact ⟨_, rfl, by rw [hbefore], by rw [hbefore]⟩
  | endEvent loop hphase hevent hcallbacks =>
      exact h.setLoop (fun _ hmem => hmem) (fun event hnew => absurd hnew (by simp))
        fun _ => h.io loop (by simp [hphase])
  | swap loop hphase hevent hactive =>
      refine h.setLoop ?_ (fun event hnew => absurd hnew (by simp [hevent])) (by simp [IoLoop.Idle])
      intro functor hmem
      rwa [BatchQueue.held_swap _ (h.io loop (by simp [hphase]))] at hmem
  | startRun loop hphase hrunning htodo =>
      exact h.setLoop (fun _ hmem => hmem)
        (fun event hevent hguarded => .event loop hevent hguarded rfl) (h.io loop)
  | @run loop result functor rest k hphase hrunning htodo hconn howned =>
      exact (h.popFunctor hphase).onConn hconn (functor.mark_name k) (functor.mark_loop k)
        (functor.mark_alive k) howned.popFunctor _
  | runExpired loop result hphase hrunning htodo hexpired =>
      exact h.popFunctor hphase
  | finish loop hphase htodo =>
      refine h.setLoop ?_ (fun event hevent hguarded => .event loop hevent hguarded rfl)
        fun _ => ⟨rfl, htodo⟩
      intro functor hmem
      rw [BatchQueue.held_finish] at hmem
      exact BatchQueue.mem_held_of_mem_waiting hmem
  | call c call hconn howned hphase => exact h.onConn hconn rfl rfl rfl howned _
  | acquire c howned =>
      exact h.setUsers (owned_of_update howned) fun d pending => .call
  | release c huser =>
      exact h.setUsers (owned_of_update (.user huser)) fun d pending => .call
  | request c request huser hconn hstate =>
      refine h.setUsers (owned_of_update (.user huser)) fun d pending hmem => ?_
      rcases List.mem_cons.1 hmem with hnew | hold
      · exact (Prod.mk.inj hnew).1 ▸ .user huser
      · exact .call hold
  | @storeDisconnecting c k hcall hconn =>
      have hset : WellFormed server
          (s.setConn c { k with tcp := { k.tcp with state := .kDisconnecting } }) := by
        refine h.setConn hconn rfl rfl fun howned => ?_
        obtain ⟨e, he, halive⟩ := h.owned c howned
        rw [hconn, Option.some.injEq] at he
        exact he ▸ halive
      refine hset.setUsers (fun d => .user) fun d pending hmem => ?_
      rcases List.mem_cons.1 hmem with hnew | hold
      · rw [(Prod.mk.inj hnew).1]
        exact .call hcall
      · exact .call (List.mem_of_mem_erase hold)
  | queueCall c functor hcall hconn =>
      have husers : WellFormed server { s with
          userRefs := update s.userRefs c (s.userRefs c + 1)
          calls := s.calls.erase (c, .queueInLoop functor) } :=
        h.setUsers (owned_of_update (.call hcall)) fun d pending hmem =>
          .call (List.mem_of_mem_erase hmem)
      refine husers.queueInLoop ?_ ?_
      · intro new hmem
        rw [List.mem_singleton.1 hmem]
        exact ⟨_, hconn, rfl⟩
      · intro new hmem _
        rw [List.mem_singleton.1 hmem]
        exact .user (by simp [IoFunctor.conn])
  | @destroy c k hconn halive hexpired =>
      have hset : WellFormed server (s.setConn c { k with alive := false }) :=
        h.setConn hconn rfl rfl fun howned => absurd howned hexpired
      exact hset.setPoller _ _

end WellFormed

end Server

end MuduoLite
