import MuduoLite.Connection.Frame
import MuduoLite.Server.Ownership

/-!
# Each connection for itself

Between two steps of a connection the server takes any number of steps for others, on the
same loop and on other ones.  None of them matters to the connection: it is always where it
would be alone on a loop of its own, if the same was executed there (`alone`).

All that one connection could do to another goes through a shared fd, and living connections
have distinct ones (`Apart`).  This holds whatever the threads do.
-/

namespace MuduoLite

namespace Server

open ConnState State Transition
open Function (update)

/-! ## What is executed on a connection -/

/-- Something that is executed on one connection: a callback of its channel, a functor, a
call of the user, or the store of a `shutdown` on another thread. -/
inductive Act
  | callback (callback : Channel.Callback) (read : Buffer.ReadResult) (result : IoResult)
  | functor (functor : IoFunctor) (result : IoResult)
  | call (call : UserCall)
  | storeDisconnecting

def Act.run : Act → ConnState → ConnState
  | .callback handler read result, s => s.runCallback handler read result
  | .functor queued result, s => queued.run result s
  | .call userCall, s => userCall.run s
  | .storeDisconnecting, s => s.setState .kDisconnecting

/-- With `label` the server executes `act` on connection `c`. -/
inductive Executes (s : State) : Label → ℕ → Act → Prop
  | callback (loop : ℕ) (read : Buffer.ReadResult) (result : IoResult) {event : Event}
      {callback : Channel.Callback} {rest : List Channel.Callback}
      (hevent : (s.io loop).event = some event) (hcallbacks : event.callbacks = callback :: rest) :
      Executes s (.callback loop read result) event.conn (.callback callback read result)
  | run (loop : ℕ) (result : IoResult) {functor : IoFunctor} {rest : List IoFunctor}
      (htodo : (s.io loop).functors.todo = functor :: rest) (howned : s.Owned functor.conn) :
      Executes s (.run loop result) functor.conn (.functor functor result)
  | call (c : ℕ) (call : UserCall) : Executes s (.call c call) c (.call call)
  | storeDisconnecting (c : ℕ) : Executes s (.storeDisconnecting c) c .storeDisconnecting

/-- The connection when nothing but `acts` is executed, on a loop that has no other. -/
def alone (server : TcpServer) (fd c : ℕ) (acts : List Act) : ConnState :=
  acts.foldl (fun s act => act.run s)
    { conn := (Conn.new server 0 fd c).tcp, self := c }

theorem alone_snoc (server : TcpServer) (fd c : ℕ) (acts : List Act) (act : Act) :
    alone server fd c (acts ++ [act]) = act.run (alone server fd c acts) := by
  simp [alone]

theorem Executes.unique {s : State} {label : Label} {c d : ℕ} {act act' : Act}
    (h : Executes s label c act) (h' : Executes s label d act') : c = d ∧ act = act' := by
  cases h with
  | callback loop read result hevent hcallbacks =>
      cases h' with
      | callback _ _ _ hevent' hcallbacks' =>
          rw [hevent, Option.some.injEq] at hevent'
          subst hevent'
          rw [hcallbacks, List.cons.injEq] at hcallbacks'
          exact ⟨rfl, by rw [hcallbacks'.1]⟩
  | run loop result htodo howned =>
      cases h' with
      | run _ _ htodo' _ =>
          rw [htodo, List.cons.injEq] at htodo'
          exact ⟨by rw [htodo'.1], by rw [htodo'.1]⟩
  | call c call =>
      cases h'
      exact ⟨rfl, rfl⟩
  | storeDisconnecting c =>
      cases h'
      exact ⟨rfl, rfl⟩

namespace Act

theorem beside (act : Act) {past : List Effect} {s a : ConnState} (h : Beside past s a) :
    Beside past (act.run s) (act.run a) := by
  cases act with
  | callback callback read result => exact h.runCallback callback read result
  | functor functor result =>
      cases functor with
      | connectEstablished c => exact h.connectEstablished
      | connectDestroyed c => exact h.connectDestroyed
      | method c functor => exact h.runFunctor functor result
  | call call =>
      cases call with
      | send data result =>
          simp only [Act.run, UserCall.run, ConnState.send, h.conn_eq]
          split_ifs
          · exact h.sendInLoop data result
          · exact h
      | sendFile fileDescriptor offset count result =>
          simp only [Act.run, UserCall.run, ConnState.sendFile, h.conn_eq]
          split_ifs
          · exact h.sendFileInLoop _ _ _ result
          · exact h
      | shutdown =>
          simp only [Act.run, UserCall.run, ConnState.shutdown, h.conn_eq]
          split_ifs
          · exact (h.setState _).shutdownInLoop
          · exact h
      | setHighWaterMarkCallback highWaterMark => exact h.setHighWaterMarkCallback highWaterMark
  | storeDisconnecting => exact h.setState _

theorem confined (act : Act) (s : ConnState) : Confined s (act.run s) := by
  cases act with
  | callback callback read result => exact .runCallback s callback read result
  | functor functor result =>
      cases functor with
      | connectEstablished c => exact .connectEstablished s
      | connectDestroyed c => exact .connectDestroyed s
      | method c functor => exact .of_traffic (traffic_runFunctor s functor result)
  | call call =>
      cases call with
      | send data result => exact .of_traffic (traffic_send s data result)
      | sendFile fileDescriptor offset count result =>
          exact .of_traffic (traffic_sendFile s _ _ _ _)
      | shutdown =>
          simp only [Act.run, UserCall.run, ConnState.shutdown]
          split_ifs
          · exact Confined.trans (t := s.setState .kDisconnecting) (.of_eq rfl rfl rfl)
              (.of_traffic (traffic_shutdownInLoop _))
          · exact .refl s
      | setHighWaterMarkCallback highWaterMark => exact .of_eq rfl rfl rfl
  | storeDisconnecting => exact .of_eq rfl rfl rfl

end Act

/-! ## What a step does to the connections and the pollers -/

/-- One step of the server, as the connections and the pollers see it. -/
inductive Outcome (server : TcpServer) (s : State) (label : Label) (t : State) : Prop
  | quiet (hconns : t.conns = s.conns) (hpollers : ∀ loop, (t.io loop).poller = (s.io loop).poller)
      (hnone : ∀ c act, ¬ Executes s label c act)
  | execute {c : ℕ} {act : Act} {k k' : Conn} (hexecutes : Executes s label c act)
      (hconn : s.conns c = some k) (halive : k.alive = true)
      (hconns : t.conns = update s.conns c (some k')) (hloop : k'.loop = k.loop)
      (halive' : k'.alive = k.alive) (htcp : k'.tcp = (act.run (s.connState c k)).conn)
      (hpoller : (t.io k.loop).poller = (act.run (s.connState c k)).poller)
      (hpollers : ∀ loop, loop ≠ k.loop → (t.io loop).poller = (s.io loop).poller)
  | accept {loop fd : ℕ}
      (hfd : ∀ c k, s.conns c = some k → k.alive = true → k.tcp.channel.fd ≠ fd)
      (hnew : s.conns s.nextConnId = none)
      (hconns : t.conns = update s.conns s.nextConnId (some (.new server loop fd s.nextConnId)))
      (hpollers : ∀ loop, (t.io loop).poller = (s.io loop).poller)
      (hnone : ∀ c act, ¬ Executes s label c act)
  | close {c : ℕ} {k : Conn} (hconn : s.conns c = some k) (halive : k.alive = true)
      (hconns : t.conns = update s.conns c (some { k with alive := false }))
      (hpoller : (t.io k.loop).poller = closeFd (s.io k.loop).poller k.tcp.channel.fd)
      (hpollers : ∀ loop, loop ≠ k.loop → (t.io loop).poller = (s.io loop).poller)
      (hnone : ∀ c act, ¬ Executes s label c act)

section Outcome

variable {server : TcpServer} {s t : State} {label : Label}

theorem setLoop_poller {loop : ℕ} {l : IoLoop} (hpoller : l.poller = (s.io loop).poller)
    (other : ℕ) : ((s.setLoop loop l).io other).poller = (s.io other).poller := by
  by_cases hother : other = loop
  · subst hother
    simpa using hpoller
  · rw [setLoop_io_of_ne _ _ _ _ hother]

/-- A method runs on its connection, in a state where the loop has just taken it from its
lists. -/
theorem Outcome.onConn {s' : State} {c : ℕ} {act : Act} {k k' : Conn}
    (hexecutes : Executes s label c act) (hconn : s.conns c = some k) (halive : k.alive = true)
    (hconns : s'.conns = s.conns) (hpollers : ∀ loop, (s'.io loop).poller = (s.io loop).poller)
    (htcp : k'.tcp = k.tcp) (hloop : k'.loop = k.loop) (halive' : k'.alive = k.alive) :
    Outcome server s label (s'.onConn c k' act.run) := by
  have hstart : s'.connState c k' = s.connState c k := by
    simp [connState, htcp, hloop, hpollers]
  let after : Conn := { k' with tcp := (act.run (s'.connState c k')).conn }
  have hafter : (s'.onConn c k' act.run).conns = update s.conns c (some after) := by
    rw [← hconns]
    rfl
  have htcp' : after.tcp = (act.run (s.connState c k)).conn := by rw [← hstart]
  refine .execute hexecutes hconn halive hafter hloop halive' htcp' ?_ ?_
  · rw [← hloop, onConn_io_self, hstart]
  · intro loop hne
    rw [onConn_io_of_ne _ _ _ _ _ (hloop ▸ hne), hpollers]

theorem outcome_of_step (hwf : WellFormed server s) (hstep : Step server s label t) :
    Outcome server s label t := by
  have halive {c : ℕ} {k : Conn} (howned : s.Owned c) (hconn : s.conns c = some k) :
      k.alive = true := by
    obtain ⟨e, he, hlive⟩ := hwf.owned c howned
    rw [hconn, Option.some.injEq] at he
    exact he ▸ hlive
  cases hstep with
  | newConnection loop fd hbase hid hfd =>
      refine .accept hfd hwf.conns_nextConnId rfl (fun other => ?_) (by rintro _ _ ⟨⟩)
      obtain ⟨functors, hio⟩ := newConnection_io_eq s server loop fd other
      rw [hio]
  | baseSwap hbase => exact .quiet rfl (fun _ => rfl) (by rintro _ _ ⟨⟩)
  | baseRun hbase htodo hconn =>
      refine .quiet rfl (fun other => ?_) (by rintro _ _ ⟨⟩)
      obtain ⟨functors, hio⟩ := removeConnectionInLoop_io_eq s.popBase _ other _
      rw [hio, popBase_io]
  | baseFinish hbase htodo => exact .quiet rfl (fun _ => rfl) (by rintro _ _ ⟨⟩)
  | poll loop events hphase => exact .quiet rfl (setLoop_poller rfl) (by rintro _ _ ⟨⟩)
  | handleEvent loop hphase hevent hactive hconn hguard =>
      exact .quiet rfl (setLoop_poller rfl) (by rintro _ _ ⟨⟩)
  | handleEventExpired loop hphase hevent hactive hconn htied hexpired =>
      exact .quiet rfl (setLoop_poller rfl) (by rintro _ _ ⟨⟩)
  | callback loop read result hphase hevent hcallbacks hconn howned =>
      exact .onConn (.callback loop read result hevent hcallbacks) hconn (halive howned hconn) rfl
        (setLoop_poller rfl) rfl rfl rfl
  | endEvent loop hphase hevent hcallbacks =>
      exact .quiet rfl (setLoop_poller rfl) (by rintro _ _ ⟨⟩)
  | swap loop hphase hevent hactive => exact .quiet rfl (setLoop_poller rfl) (by rintro _ _ ⟨⟩)
  | startRun loop hphase hrunning htodo =>
      exact .quiet rfl (setLoop_poller rfl) (by rintro _ _ ⟨⟩)
  | @run loop result functor rest k hphase hrunning htodo hconn howned =>
      exact .onConn (.run loop result htodo howned) hconn (halive howned hconn) rfl
        (setLoop_poller rfl) (functor.mark_tcp k) (functor.mark_loop k) (functor.mark_alive k)
  -- nothing is executed on the connection
  | @runExpired loop result functor rest hphase hrunning htodo hexpired =>
      refine .quiet rfl (setLoop_poller rfl) ?_
      intro c act hexecutes
      cases hexecutes with
      | run _ _ htodo' howned =>
          rw [htodo, List.cons.injEq] at htodo'
          exact hexpired (htodo'.1 ▸ howned)
  | finish loop hphase htodo => exact .quiet rfl (setLoop_poller rfl) (by rintro _ _ ⟨⟩)
  | call c call hconn howned hphase =>
      exact .onConn (.call c call) hconn (halive howned hconn) rfl (fun _ => rfl) rfl rfl rfl
  | acquire c howned => exact .quiet rfl (fun _ => rfl) (by rintro _ _ ⟨⟩)
  | release c huser => exact .quiet rfl (fun _ => rfl) (by rintro _ _ ⟨⟩)
  | request c request huser hconn hstate => exact .quiet rfl (fun _ => rfl) (by rintro _ _ ⟨⟩)
  | storeDisconnecting c hcall hconn =>
      exact .execute (.storeDisconnecting c) hconn (halive (.call hcall) hconn) rfl rfl rfl rfl rfl
        fun _ _ => rfl
  | queueCall c functor hcall hconn =>
      exact .quiet rfl (setLoop_poller rfl) (by rintro _ _ ⟨⟩)
  | @destroy c k hconn hlive hexpired =>
      refine .close hconn hlive rfl ?_ ?_ (by rintro _ _ ⟨⟩)
      · rw [setPoller, setLoop_io_self]
      · intro loop hne
        rw [setPoller, setLoop_io_of_ne _ _ _ _ hne]
        rfl

end Outcome

/-- Living connections have distinct fds, and the kernel watches fds of such connections
only, each for the loop of its connection. -/
structure Apart (s : State) : Prop where
  distinct : ∀ c d k e, s.conns c = some k → s.conns d = some e → k.alive = true →
    e.alive = true → k.tcp.channel.fd = e.tcp.channel.fd → c = d
  known : ∀ loop fd, (s.io loop).poller.interest fd ≠ none →
    ∃ c k, s.conns c = some k ∧ k.alive = true ∧ k.loop = loop ∧ k.tcp.channel.fd = fd

namespace Apart

variable {server : TcpServer} {s t : State} {label : Label}

theorem initial : Apart {} where
  distinct := fun _ _ _ _ h => nomatch h
  known := fun _ _ h => absurd rfl h

/-- Connection `c` changes, and the kernel's list of its loop at its fd. -/
theorem of_update (h : Apart s) {c : ℕ} {k k' : Conn} (hconn : s.conns c = some k)
    (halive : k.alive = true) (hconns : t.conns = update s.conns c (some k'))
    (hloop : k'.loop = k.loop) (hfd : k'.tcp.channel.fd = k.tcp.channel.fd)
    (hinterest : ∀ fd, fd ≠ k.tcp.channel.fd →
      (t.io k.loop).poller.interest fd = (s.io k.loop).poller.interest fd)
    (hpollers : ∀ loop, loop ≠ k.loop → (t.io loop).poller = (s.io loop).poller)
    (hself : (t.io k.loop).poller.interest k.tcp.channel.fd ≠ none → k'.alive = true) :
    Apart t where
  distinct := by
    -- every connection was there before, with its fd
    have hback : ∀ d e, t.conns d = some e → e.alive = true →
        ∃ e', s.conns d = some e' ∧ e'.alive = true ∧ e'.tcp.channel.fd = e.tcp.channel.fd := by
      intro d e he healive
      rw [hconns] at he
      by_cases hd : d = c
      · subst hd
        rw [Function.update_self, Option.some.injEq] at he
        exact ⟨k, hconn, halive, by rw [← he, hfd]⟩
      · rw [Function.update_of_ne hd] at he
        exact ⟨e, he, healive, rfl⟩
    intro c₁ c₂ e₁ e₂ he₁ he₂ halive₁ halive₂ heq
    obtain ⟨f₁, hf₁, hfalive₁, hfd₁⟩ := hback c₁ e₁ he₁ halive₁
    obtain ⟨f₂, hf₂, hfalive₂, hfd₂⟩ := hback c₂ e₂ he₂ halive₂
    exact h.distinct c₁ c₂ f₁ f₂ hf₁ hf₂ hfalive₁ hfalive₂ (by rw [hfd₁, hfd₂, heq])
  known := by
    intro loop fd hknown
    -- the one entry that may change is that of `c`
    by_cases hat : loop = k.loop ∧ fd = k.tcp.channel.fd
    · obtain ⟨rfl, rfl⟩ := hat
      exact ⟨c, k', by rw [hconns, Function.update_self], hself hknown, hloop, hfd⟩
    · have hold : (s.io loop).poller.interest fd ≠ none := by
        by_cases hl : loop = k.loop
        · subst hl
          rwa [hinterest fd fun heq => hat ⟨rfl, heq⟩] at hknown
        · rwa [hpollers loop hl] at hknown
      obtain ⟨d, e, he, healive, heloop, hefd⟩ := h.known loop fd hold
      have hd : d ≠ c := by
        rintro rfl
        rw [hconn, Option.some.injEq] at he
        exact hat ⟨he ▸ heloop.symm, he ▸ hefd.symm⟩
      exact ⟨d, e, by rw [hconns, Function.update_of_ne hd, he], healive, heloop, hefd⟩

/-- A connection is made with an fd that no living one has. -/
theorem accept (h : Apart s) {loop fd : ℕ}
    (hfd : ∀ c k, s.conns c = some k → k.alive = true → k.tcp.channel.fd ≠ fd)
    (hnew : s.conns s.nextConnId = none)
    (hconns : t.conns = update s.conns s.nextConnId (some (.new server loop fd s.nextConnId)))
    (hpollers : ∀ loop, (t.io loop).poller = (s.io loop).poller) : Apart t := by
  have hcases {d : ℕ} {e : Conn} (he : t.conns d = some e) :
      (d = s.nextConnId ∧ e.tcp.channel.fd = fd) ∨ s.conns d = some e := by
    rw [hconns] at he
    by_cases hd : d = s.nextConnId
    · subst hd
      rw [Function.update_self, Option.some.injEq] at he
      exact .inl ⟨rfl, he ▸ rfl⟩
    · exact .inr (by rwa [Function.update_of_ne hd] at he)
  refine ⟨?_, ?_⟩
  · intro c d k e hk he hkalive healive heq
    rcases hcases hk with ⟨rfl, hkfd⟩ | hkold <;> rcases hcases he with ⟨rfl, hefd⟩ | heold
    · rfl
    · exact absurd (heq.symm.trans hkfd) (hfd d e heold healive)
    · exact absurd (heq.trans hefd) (hfd c k hkold hkalive)
    · exact h.distinct c d k e hkold heold hkalive healive heq
  · intro other otherFd hknown
    rw [hpollers] at hknown
    obtain ⟨c, k, hk, hrest⟩ := h.known other otherFd hknown
    have hne : c ≠ s.nextConnId := by
      rintro rfl
      rw [hnew] at hk
      nomatch hk
    exact ⟨c, k, by rw [hconns, Function.update_of_ne hne, hk], hrest⟩

/-- What one connection does at its own fd in its own loop leaves the entries of the others. -/
theorem interest_other (h : Apart s) {c d : ℕ} {k e : Conn} (hne : c ≠ d)
    (hk : s.conns c = some k) (he : s.conns d = some e) (hkalive : k.alive = true)
    (healive : e.alive = true)
    (hinterest : ∀ fd, fd ≠ e.tcp.channel.fd →
      (t.io e.loop).poller.interest fd = (s.io e.loop).poller.interest fd)
    (hpollers : ∀ loop, loop ≠ e.loop → (t.io loop).poller = (s.io loop).poller) :
    (t.io k.loop).poller.interest k.tcp.channel.fd =
      (s.io k.loop).poller.interest k.tcp.channel.fd := by
  by_cases hloop : k.loop = e.loop
  · have hfd : k.tcp.channel.fd ≠ e.tcp.channel.fd := fun heq =>
      hne (h.distinct c d k e hk he hkalive healive heq)
    rw [hloop]
    exact hinterest _ hfd
  · rw [hpollers _ hloop]

theorem step (h : Apart s) (houtcome : Outcome server s label t) : Apart t := by
  cases houtcome with
  | quiet hconns hpollers hnone =>
      refine ⟨fun c d k e hk he => h.distinct c d k e (hconns ▸ hk) (hconns ▸ he), ?_⟩
      intro loop fd hknown
      rw [hpollers] at hknown
      rw [hconns]
      exact h.known loop fd hknown
  | @execute c act k k' hexecutes hconn halive hconns hloop halive' htcp hpoller hpollers =>
      have hconfined := act.confined (s.connState c k)
      refine h.of_update hconn halive hconns hloop (by rw [htcp, hconfined.fd_eq]; rfl) ?_ hpollers
        fun _ => halive'.trans halive
      intro fd hne
      rw [hpoller]
      exact hconfined.interest_eq fd hne
  | accept hfd hnew hconns hpollers hnone => exact h.accept hfd hnew hconns hpollers
  | close hconn halive hconns hpoller hpollers hnone =>
      refine h.of_update hconn halive hconns rfl rfl ?_ hpollers ?_
      · intro fd hne
        rw [hpoller]
        exact Function.update_of_ne hne _ _
      · intro hknown
        rw [hpoller] at hknown
        exact absurd (Function.update_self _ _ _) hknown

end Apart

/-! ## Traces -/

/-- The server with what has been executed on each connection so far, and with what effects. -/
structure Traced where
  state : State := {}
  log : ℕ → List Act := fun _ => []
  effects : ℕ → List Effect := fun _ => []

structure Traced.Step (server : TcpServer) (p : Traced) (label : Label) (q : Traced) : Prop where
  step : Server.Step server p.state label q.state
  executed : ∀ c act k, Executes p.state label c act → p.state.conns c = some k →
    q.log c = p.log c ++ [act] ∧
      q.effects c = p.effects c ++ (act.run (p.state.connState c k)).effects
  other : ∀ c, (∀ act, ¬ Executes p.state label c act) →
    q.log c = p.log c ∧ q.effects c = p.effects c

/-- Connection `c` is where it would be alone. -/
structure Projects (server : TcpServer) (p : Traced) (c : ℕ) (k : Conn) : Prop where
  conn_eq : k.tcp = (alone server k.tcp.channel.fd c (p.log c)).conn
  effects_eq : p.effects c = (alone server k.tcp.channel.fd c (p.log c)).effects
  interest_eq : k.alive = true → (p.state.io k.loop).poller.interest k.tcp.channel.fd =
    (alone server k.tcp.channel.fd c (p.log c)).poller.interest k.tcp.channel.fd

structure Isolated (server : TcpServer) (p : Traced) : Prop where
  wellFormed : WellFormed server p.state
  apart : Apart p.state
  unborn : ∀ c, p.state.conns c = none → p.log c = [] ∧ p.effects c = []
  projects : ∀ c k, p.state.conns c = some k → Projects server p c k

section Isolated

variable {server : TcpServer} {p q : Traced} {label : Label}

theorem alone_self (server : TcpServer) (fd c : ℕ) (acts : List Act) :
    (alone server fd c acts).self = c := by
  induction acts using List.reverseRecOn with
  | nil => rfl
  | append_singleton acts act ih => rw [alone_snoc, (act.confined _).self_eq, ih]

theorem Projects.beside {c : ℕ} {k : Conn} (h : Projects server p c k) (halive : k.alive = true) :
    Beside (p.effects c) (p.state.connState c k)
      (alone server k.tcp.channel.fd c (p.log c)) where
  conn_eq := h.conn_eq.symm
  self_eq := alone_self _ _ _ _
  effects_eq := h.effects_eq.symm.trans (List.append_nil _).symm
  interest_eq := (h.interest_eq halive).symm

/-- A connection on which nothing is executed stays where it is. -/
theorem Projects.of_eq {c : ℕ} {k k' : Conn} (h : Projects server p c k)
    (hlog : q.log c = p.log c ∧ q.effects c = p.effects c) (htcp : k'.tcp = k.tcp)
    (hinterest : k'.alive = true → k.alive = true ∧
      (q.state.io k'.loop).poller.interest k.tcp.channel.fd =
        (p.state.io k.loop).poller.interest k.tcp.channel.fd) : Projects server q c k' where
  conn_eq := by
    rw [htcp, hlog.1]
    exact h.conn_eq
  effects_eq := by
    rw [htcp, hlog.1, hlog.2]
    exact h.effects_eq
  interest_eq := by
    intro halive
    obtain ⟨halive', hsame⟩ := hinterest halive
    rw [htcp, hlog.1, hsame]
    exact h.interest_eq halive'

theorem Isolated.projects_step (h : Isolated server p) (hstep : Traced.Step server p label q)
    (c : ℕ) (k' : Conn) (hk' : q.state.conns c = some k') : Projects server q c k' := by
  cases outcome_of_step h.wellFormed hstep.step with
  | quiet hconns hpollers hnone =>
      rw [hconns] at hk'
      refine (h.projects c k' hk').of_eq (hstep.other c (hnone c)) rfl fun halive => ⟨halive, ?_⟩
      rw [hpollers]
  | @execute d act k e hexecutes hconn halive hconns hloop halive' htcp hpoller hpollers =>
      have hconfined := act.confined (p.state.connState d k)
      rw [hconns] at hk'
      by_cases hc : c = d
      · subst hc
        rw [Function.update_self, Option.some.injEq] at hk'
        subst hk'
        obtain ⟨hlog, heffects⟩ := hstep.executed c act k hexecutes hconn
        -- `act` does on the server what it does alone
        have hbeside := act.beside ((h.projects c k hconn).beside halive)
        have hfd : e.tcp.channel.fd = k.tcp.channel.fd := by
          rw [htcp, hconfined.fd_eq]
          rfl
        rw [← alone_snoc, ← hlog, ← hfd] at hbeside
        refine ⟨htcp.trans hbeside.conn_eq.symm, heffects.trans hbeside.effects_eq.symm, ?_⟩
        intro _
        have hinterest := hbeside.interest_eq
        rw [← htcp] at hinterest
        rw [hloop, hpoller, hinterest]
      · rw [Function.update_of_ne hc] at hk'
        have hnone : ∀ other, ¬ Executes p.state label c other := fun other hother =>
          hc (hother.unique hexecutes).1
        refine (h.projects c k' hk').of_eq (hstep.other c hnone) rfl fun hlive => ⟨hlive, ?_⟩
        refine h.apart.interest_other hc hk' hconn hlive halive (fun fd hne => ?_) hpollers
        rw [hpoller]
        exact hconfined.interest_eq fd hne
  | @accept loop fd hfd hnew hconns hpollers hnone =>
      rw [hconns] at hk'
      have hsame := hstep.other c (hnone c)
      by_cases hc : c = p.state.nextConnId
      · subst hc
        rw [Function.update_self, Option.some.injEq] at hk'
        subst hk'
        obtain ⟨hlog, heffects⟩ := h.unborn _ hnew
        refine ⟨by rw [hsame.1, hlog]; rfl, by rw [hsame.1, hsame.2, hlog, heffects]; rfl, ?_⟩
        intro _
        rw [hpollers, hsame.1, hlog]
        -- the fd was not open, so the kernel does not watch it
        by_contra hwatched
        obtain ⟨d, e, he, healive, -, hefd⟩ := h.apart.known _ _ hwatched
        exact hfd d e he healive hefd
      · rw [Function.update_of_ne hc] at hk'
        refine (h.projects c k' hk').of_eq hsame rfl fun halive => ⟨halive, ?_⟩
        rw [hpollers]
  | @close d k hconn halive hconns hpoller hpollers hnone =>
      rw [hconns] at hk'
      have hsame := hstep.other c (hnone c)
      by_cases hc : c = d
      · subst hc
        rw [Function.update_self, Option.some.injEq] at hk'
        subst hk'
        exact (h.projects c k hconn).of_eq hsame rfl fun hlive => absurd hlive (by simp)
      · rw [Function.update_of_ne hc] at hk'
        refine (h.projects c k' hk').of_eq hsame rfl fun hlive => ⟨hlive, ?_⟩
        refine h.apart.interest_other hc hk' hconn hlive halive (fun fd hne => ?_) hpollers
        rw [hpoller]
        exact Function.update_of_ne hne _ _

theorem Outcome.conns_ne_none {s t : State} (houtcome : Outcome server s label t) {c : ℕ}
    (hsome : s.conns c ≠ none) : t.conns c ≠ none := by
  have hupdate (d : ℕ) (e : Conn) : update s.conns d (some e) c ≠ none := by
    by_cases hc : c = d
    · simp [hc]
    · rwa [Function.update_of_ne hc]
  cases houtcome with
  | quiet hconns => rwa [hconns]
  | execute _ _ _ hconns => exact hconns ▸ hupdate _ _
  | accept _ _ hconns => exact hconns ▸ hupdate _ _
  | close _ _ hconns => exact hconns ▸ hupdate _ _

theorem Isolated.step (h : Isolated server p) (hstep : Traced.Step server p label q) :
    Isolated server q where
  wellFormed := h.wellFormed.step hstep.step
  apart := h.apart.step (outcome_of_step h.wellFormed hstep.step)
  unborn := by
    intro c hnone
    have houtcome := outcome_of_step h.wellFormed hstep.step
    have hold : p.state.conns c = none := by
      by_contra hsome
      exact houtcome.conns_ne_none hsome hnone
    obtain ⟨hlog, heffects⟩ := h.unborn c hold
    have hnot : ∀ act, ¬ Executes p.state label c act := by
      intro act hexecutes
      cases houtcome with
      | quiet _ _ hnot => exact hnot c act hexecutes
      | execute hother hconn =>
          rw [← (hexecutes.unique hother).1, hold] at hconn
          nomatch hconn
      | accept _ _ _ _ hnot => exact hnot c act hexecutes
      | close _ _ _ _ _ hnot => exact hnot c act hexecutes
    obtain ⟨hlog', heffects'⟩ := hstep.other c hnot
    exact ⟨hlog'.trans hlog, heffects'.trans heffects⟩
  projects := h.projects_step hstep

theorem Isolated.initial : Isolated server {} where
  wellFormed := .initial
  apart := .initial
  unborn := fun _ _ => ⟨rfl, rfl⟩
  projects := fun _ _ h => nomatch h

end Isolated

end Server

end MuduoLite
