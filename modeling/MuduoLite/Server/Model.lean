import MuduoLite.Connection.Model
import MuduoLite.Library.BatchQueue
import MuduoLite.Library.Transition

/-!
# The server, its loops and the owners of its connections

The base loop accepts connections and removes them; every connection lives on one
of the I/O loops.  A `State` holds the connections by the value that
`nextConnId_` had when they were made, so that a connection is never mistaken for
a later one at the same address, and everything that owns or mentions them: the
`connections_` map, the functors of both kinds of loops, the event being handled,
and the pointers of user code.

`Step` performs one label at a time, in any order: an iteration of a loop is cut
into its poll, its events, their callbacks, and the start and the end of each
functor of its batch, so that two threads interleave between any two of these.
What a method does to its connection happens within one label, for a functor at its
end.  Another thread sees of it the state that it stores and the functors that it
queues, and these the one label has.  But a functor uses its connection from its
start to its end, and one of `send` or `shutdown` binds the bare `this`: in between
another thread may drop the last pointer, and the connection is destroyed under it.

Of a loop's channels the model has those of connections.  Code of the user runs in
callbacks, in functors and in timers, all on a loop thread that is not polling;
on a thread of its own it is a chain of `request`, `storeDisconnecting` and
`queueCall`, one for each access to shared data.

A connection is destroyed once it has no owner (`Owned`).  What a functor does whose
connection has none is undefined in the code; the model then leaves the state alone,
and says nothing about the runs in which this happens beyond that step.
-/

namespace MuduoLite

/-- What a `TcpServer` is made with. -/
structure TcpServer where
  name : List Char
  /-- `ip:port` of the listening address, at most `255.255.255.255:65535` -/
  ipPort : List Char
  ipPort_length : ipPort.length ≤ 21
  /-- is `writeCompleteCallback_` set? -/
  writeCompleteCallback : Bool := false

/-- The name of a connection.  `snprintf` cuts its part off at `sizeof buf - 1`. -/
def TcpServer.connName (server : TcpServer) (connId : ℕ) : List Char :=
  server.name ++ ('-' :: server.ipPort ++ '#' :: Nat.toDigits 10 connId).take 63

namespace Server

open Function (update)

structure Conn where
  tcp : TcpConnection
  loop : ℕ
  name : List Char
  /-- has the destructor not run? -/
  alive : Bool := true
  /-- has `connectEstablished` run? -/
  established : Bool := false
  /-- has `connectDestroyed` run? -/
  destroyed : Bool := false

/-- A connection as its constructor and the server's setters leave it. -/
def Conn.new (server : TcpServer) (loop fd connId : ℕ) : Conn where
  tcp := { channel := { fd := fd }, writeCompleteCallback := server.writeCompleteCallback }
  loop := loop
  name := server.connName connId

/-! ## Functors -/

/-- The functors of an I/O loop. -/
inductive IoFunctor
  | connectEstablished (c : ℕ)
  | connectDestroyed (c : ℕ)
  | method (c : ℕ) (functor : Functor)
  deriving DecidableEq, Repr

namespace IoFunctor

def conn : IoFunctor → ℕ
  | connectEstablished c => c
  | connectDestroyed c => c
  | method c _ => c

/-- Is a `TcpConnectionPtr` bound into the functor? -/
def owns : IoFunctor → Bool
  | connectEstablished _ => true
  | connectDestroyed _ => true
  | method _ functor => functor.owns

def run (result : IoResult) : IoFunctor → ConnState → ConnState
  | connectEstablished _, s => s.connectEstablished
  | connectDestroyed _, s => s.connectDestroyed
  | method _ functor, s => s.runFunctor functor result

def mark : IoFunctor → Conn → Conn
  | connectEstablished _, k => { k with established := true }
  | connectDestroyed _, k => { k with destroyed := true }
  | method _ _, k => k

end IoFunctor

/-! ## Loops -/

/-- Where `EventLoop::loop` is. -/
inductive Phase
  | polling
  | handling
  | calling
  deriving DecidableEq, Repr

/-- A `Channel::handleEvent` under way. -/
structure Event where
  conn : ℕ
  callbacks : List Channel.Callback
  /-- does `guard` hold the connection? -/
  guarded : Bool

structure IoLoop where
  poller : EPollPoller := {}
  phase : Phase := .polling
  /-- the channels not handled yet, with their `revents_` -/
  activeChannels : List (ℕ × EventMask) := []
  event : Option Event := none
  functors : BatchQueue IoFunctor := {}
  /-- has the functor at the head of the batch started? -/
  running : Bool := false

/-- The base loop; its functors are calls of `removeConnectionInLoop`. -/
structure BaseLoop where
  calling : Bool := false
  functors : BatchQueue ℕ := {}

/-- `fillActiveChannels` for the fds and events that the kernel returned. -/
def IoLoop.fillActiveChannels (l : IoLoop) (events : List (ℕ × EventMask)) :
    List (ℕ × EventMask) :=
  events.filterMap fun event => (l.poller.interest event.1).map fun entry => (entry.1, event.2)

/-- The kernel drops a closed fd from the interest list. -/
def closeFd (p : EPollPoller) (fd : ℕ) : EPollPoller :=
  { p with interest := update p.interest fd none }

/-! ## Calls of the user -/

/-- A call on the loop thread of the connection. -/
inductive UserCall
  | send (data : List Byte) (result : IoResult)
  | sendFile (fileDescriptor offset count : ℕ) (result : IoResult)
  | shutdown
  | setHighWaterMarkCallback (highWaterMark : ℕ)

def UserCall.run : UserCall → ConnState → ConnState
  | send data result, s => s.send data result
  | sendFile fileDescriptor offset count result, s => s.sendFile fileDescriptor offset count result
  | shutdown, s => s.shutdown
  | setHighWaterMarkCallback highWaterMark, s => s.setHighWaterMarkCallback highWaterMark

/-- A call on another thread. -/
inductive Request
  /-- `data` is what the functor finds at `buf.c_str()` where it reads it -/
  | send (data : List Byte)
  | sendFile (fileDescriptor offset count : ℕ)
  | shutdown

/-- What a call on another thread does next, its test of the state passed. -/
inductive Pending
  | storeDisconnecting
  | queueInLoop (functor : Functor)
  deriving DecidableEq

def Request.start : Request → Pending
  | send data => .queueInLoop (.sendInLoop data)
  | sendFile fileDescriptor offset count =>
      .queueInLoop (.sendFileInLoop fileDescriptor offset count)
  | shutdown => .storeDisconnecting

/-! ## States -/

structure State where
  /-- `connections_` -/
  connections : List Char → Option ℕ := fun _ => none
  nextConnId : ℕ := 1
  conns : ℕ → Option Conn := fun _ => none
  base : BaseLoop := {}
  io : ℕ → IoLoop := fun _ => {}
  /-- how many pointers user code holds, those in use by `calls` apart -/
  userRefs : ℕ → ℕ := fun _ => 0
  /-- the calls on other threads that are under way -/
  calls : List (ℕ × Pending) := []

namespace State

/-- Something holds a `TcpConnectionPtr` to `c`. -/
inductive Owned (s : State) (c : ℕ) : Prop
  | connections {name : List Char} (h : s.connections name = some c)
  | base (h : c ∈ s.base.functors.held)
  | functor (loop : ℕ) {functor : IoFunctor} (h : functor ∈ (s.io loop).functors.held)
      (howns : functor.owns = true) (hconn : functor.conn = c)
  | event (loop : ℕ) {event : Event} (h : (s.io loop).event = some event)
      (hguarded : event.guarded = true) (hconn : event.conn = c)
  | user (h : 0 < s.userRefs c)
  | call {pending : Pending} (h : (c, pending) ∈ s.calls)

def setConn (s : State) (c : ℕ) (k : Conn) : State :=
  { s with conns := update s.conns c (some k) }

def setLoop (s : State) (loop : ℕ) (l : IoLoop) : State := { s with io := update s.io loop l }

def setPoller (s : State) (loop : ℕ) (poller : EPollPoller) : State :=
  s.setLoop loop { s.io loop with poller := poller }

def setFunctors (s : State) (loop : ℕ) (functors : BatchQueue IoFunctor) : State :=
  s.setLoop loop { s.io loop with functors := functors }

def queueInLoop (s : State) (loop : ℕ) (functors : List IoFunctor) : State :=
  s.setFunctors loop ((s.io loop).functors.enqueue functors)

def setBase (s : State) (base : BaseLoop) : State := { s with base := base }

/-- The functor at the head of the batch of a loop has run. -/
def popFunctor (s : State) (loop : ℕ) : State :=
  s.setLoop loop { s.io loop with functors := (s.io loop).functors.advance, running := false }

def popBase (s : State) : State :=
  s.setBase { s.base with functors := s.base.functors.advance }

/-- A callback of the event starts; those of `rest` are left. -/
def popCallback (s : State) (loop : ℕ) (event : Event) (rest : List Channel.Callback) : State :=
  s.setLoop loop { s.io loop with event := some { event with callbacks := rest } }

/-- `removeConnection`, once for each connection of the list. -/
def removeConnection (s : State) (conns : List ℕ) : State :=
  s.setBase { s.base with functors := s.base.functors.enqueue conns }

/-- What a method of connection `c` starts with. -/
def connState (s : State) (c : ℕ) (k : Conn) : ConnState :=
  { conn := k.tcp, poller := (s.io k.loop).poller, self := c }

/-- Run a method of connection `c` on its loop thread. -/
def onConn (s : State) (c : ℕ) (k : Conn) (method : ConnState → ConnState) : State :=
  let t := method (s.connState c k)
  (((s.setConn c { k with tcp := t.conn }).setPoller k.loop t.poller).queueInLoop k.loop
    (t.pendingFunctors.map (.method c))).removeConnection
      (List.replicate (t.effects.count .closeCallback) c)

/-- `newConnection`: the connection enters the map and a functor that establishes
it the queue of its loop. -/
def newConnection (s : State) (server : TcpServer) (loop fd : ℕ) : State :=
  let c := s.nextConnId
  ({ s with
    nextConnId := c + 1
    connections := update s.connections (server.connName c) (some c) }.setConn c
      (.new server loop fd c)).queueInLoop loop [.connectEstablished c]

/-- `removeConnectionInLoop`. -/
def removeConnectionInLoop (s : State) (c : ℕ) (k : Conn) : State :=
  { s with connections := update s.connections k.name none }.queueInLoop k.loop
    [.connectDestroyed c]

end State

/-! ## Steps -/

inductive Label
  | newConnection (loop fd : ℕ)
  | baseSwap
  | baseRun
  | baseFinish
  | poll (loop : ℕ) (events : List (ℕ × EventMask))
  | handleEvent (loop : ℕ)
  | callback (loop : ℕ) (read : Buffer.ReadResult) (result : IoResult)
  | endEvent (loop : ℕ)
  | swap (loop : ℕ)
  | startRun (loop : ℕ)
  | run (loop : ℕ) (result : IoResult)
  | finish (loop : ℕ)
  | call (c : ℕ) (call : UserCall)
  | acquire (c : ℕ)
  | release (c : ℕ)
  | request (c : ℕ) (request : Request)
  | storeDisconnecting (c : ℕ)
  | queueCall (c : ℕ) (functor : Functor)
  | destroy (c : ℕ)

open State

inductive Step (server : TcpServer) (s : State) : Label → State → Prop
  /-- The base loop handles a new socket and gives it to some loop of the pool.  The
  fd is not open otherwise, and `++nextConnId_` does not overflow. -/
  | newConnection (loop fd : ℕ) (hbase : s.base.calling = false)
      (hid : s.nextConnId < 2 ^ 31 - 1)
      (hfd : ∀ c k, s.conns c = some k → k.alive = true → k.tcp.channel.fd ≠ fd) :
      Step server s (.newConnection loop fd) (s.newConnection server loop fd)
  | baseSwap (hbase : s.base.calling = false) :
      Step server s .baseSwap
        (s.setBase { s.base with calling := true, functors := s.base.functors.swap })
  | baseRun {c : ℕ} {rest : List ℕ} {k : Conn} (hbase : s.base.calling = true)
      (htodo : s.base.functors.todo = c :: rest) (hconn : s.conns c = some k) :
      Step server s .baseRun
        (s.popBase.removeConnectionInLoop c k)
  | baseFinish (hbase : s.base.calling = true) (htodo : s.base.functors.todo = []) :
      Step server s .baseFinish
        (s.setBase { s.base with calling := false, functors := s.base.functors.finish })
  | poll (loop : ℕ) (events : List (ℕ × EventMask)) (hphase : (s.io loop).phase = .polling) :
      Step server s (.poll loop events) (s.setLoop loop
        { s.io loop with
          phase := .handling, activeChannels := (s.io loop).fillActiveChannels events })
  /-- A tied channel locks its `tie_`, which succeeds while the connection has an owner. -/
  | handleEvent (loop : ℕ) {c : ℕ} {revents : EventMask} {rest : List (ℕ × EventMask)} {k : Conn}
      (hphase : (s.io loop).phase = .handling) (hevent : (s.io loop).event = none)
      (hactive : (s.io loop).activeChannels = (c, revents) :: rest) (hconn : s.conns c = some k)
      (hguard : k.tcp.channel.tied = true → s.Owned c) :
      Step server s (.handleEvent loop) (s.setLoop loop
        { s.io loop with
          activeChannels := rest
          event := some ⟨c, Channel.handleEventWithGuard revents, k.tcp.channel.tied⟩ })
  | handleEventExpired (loop : ℕ) {c : ℕ} {revents : EventMask} {rest : List (ℕ × EventMask)}
      {k : Conn} (hphase : (s.io loop).phase = .handling) (hevent : (s.io loop).event = none)
      (hactive : (s.io loop).activeChannels = (c, revents) :: rest) (hconn : s.conns c = some k)
      (htied : k.tcp.channel.tied = true) (hexpired : ¬ s.Owned c) :
      Step server s (.handleEvent loop)
        (s.setLoop loop { s.io loop with activeChannels := rest })
  | callback (loop : ℕ) (read : Buffer.ReadResult) (result : IoResult) {event : Event}
      {callback : Channel.Callback} {rest : List Channel.Callback} {k : Conn}
      (hphase : (s.io loop).phase = .handling) (hevent : (s.io loop).event = some event)
      (hcallbacks : event.callbacks = callback :: rest) (hconn : s.conns event.conn = some k)
      (howned : s.Owned event.conn) :
      Step server s (.callback loop read result)
        ((s.popCallback loop event rest).onConn event.conn k
          fun t => t.runCallback callback read result)
  | endEvent (loop : ℕ) {event : Event} (hphase : (s.io loop).phase = .handling)
      (hevent : (s.io loop).event = some event) (hcallbacks : event.callbacks = []) :
      Step server s (.endEvent loop) (s.setLoop loop { s.io loop with event := none })
  | swap (loop : ℕ) (hphase : (s.io loop).phase = .handling) (hevent : (s.io loop).event = none)
      (hactive : (s.io loop).activeChannels = []) :
      Step server s (.swap loop) (s.setLoop loop
        { s.io loop with phase := .calling, functors := (s.io loop).functors.swap })
  /-- The functor at the head of the batch starts. -/
  | startRun (loop : ℕ) {functor : IoFunctor} {rest : List IoFunctor}
      (hphase : (s.io loop).phase = .calling) (hrunning : (s.io loop).running = false)
      (htodo : (s.io loop).functors.todo = functor :: rest) :
      Step server s (.startRun loop) (s.setLoop loop { s.io loop with running := true })
  /-- It comes to its end. -/
  | run (loop : ℕ) (result : IoResult) {functor : IoFunctor} {rest : List IoFunctor} {k : Conn}
      (hphase : (s.io loop).phase = .calling) (hrunning : (s.io loop).running = true)
      (htodo : (s.io loop).functors.todo = functor :: rest)
      (hconn : s.conns functor.conn = some k) (howned : s.Owned functor.conn) :
      Step server s (.run loop result)
        ((s.popFunctor loop).onConn functor.conn (functor.mark k) (functor.run result))
  /-- The connection of the functor has been, or may be, destroyed. -/
  | runExpired (loop : ℕ) (result : IoResult) {functor : IoFunctor} {rest : List IoFunctor}
      (hphase : (s.io loop).phase = .calling) (hrunning : (s.io loop).running = true)
      (htodo : (s.io loop).functors.todo = functor :: rest) (hexpired : ¬ s.Owned functor.conn) :
      Step server s (.run loop result) (s.popFunctor loop)
  | finish (loop : ℕ) (hphase : (s.io loop).phase = .calling)
      (htodo : (s.io loop).functors.todo = []) :
      Step server s (.finish loop) (s.setLoop loop
        { s.io loop with phase := .polling, functors := (s.io loop).functors.finish })
  | call (c : ℕ) (call : UserCall) {k : Conn} (hconn : s.conns c = some k) (howned : s.Owned c)
      (hphase : (s.io k.loop).phase ≠ .polling) :
      Step server s (.call c call) (s.onConn c k call.run)
  /-- User code copies a pointer. -/
  | acquire (c : ℕ) (howned : s.Owned c) :
      Step server s (.acquire c) { s with userRefs := update s.userRefs c (s.userRefs c + 1) }
  | release (c : ℕ) (huser : 0 < s.userRefs c) :
      Step server s (.release c) { s with userRefs := update s.userRefs c (s.userRefs c - 1) }
  /-- A thread calls a method with the pointer it holds; the test of the state succeeds. -/
  | request (c : ℕ) (request : Request) {k : Conn} (huser : 0 < s.userRefs c)
      (hconn : s.conns c = some k) (hstate : k.tcp.state = .kConnected) :
      Step server s (.request c request)
        { s with
          userRefs := update s.userRefs c (s.userRefs c - 1)
          calls := (c, request.start) :: s.calls }
  /-- `setState(kDisconnecting)` of `shutdown`. -/
  | storeDisconnecting (c : ℕ) {k : Conn} (hcall : (c, .storeDisconnecting) ∈ s.calls)
      (hconn : s.conns c = some k) :
      Step server s (.storeDisconnecting c)
        { s.setConn c { k with tcp := { k.tcp with state := .kDisconnecting } } with
          calls := (c, .queueInLoop .shutdownInLoop) :: s.calls.erase (c, .storeDisconnecting) }
  /-- The thread queues its functor and has its pointer back. -/
  | queueCall (c : ℕ) (functor : Functor) {k : Conn} (hcall : (c, .queueInLoop functor) ∈ s.calls)
      (hconn : s.conns c = some k) :
      Step server s (.queueCall c functor)
        ({ s with
          userRefs := update s.userRefs c (s.userRefs c + 1)
          calls := s.calls.erase (c, .queueInLoop functor) }.queueInLoop k.loop
            [.method c functor])
  /-- The destructor of `TcpConnection` closes the socket. -/
  | destroy (c : ℕ) {k : Conn} (hconn : s.conns c = some k) (halive : k.alive = true)
      (hexpired : ¬ s.Owned c) :
      Step server s (.destroy c)
        ((s.setConn c { k with alive := false }).setPoller k.loop
          (closeFd (s.io k.loop).poller k.tcp.channel.fd))

end Server

end MuduoLite
