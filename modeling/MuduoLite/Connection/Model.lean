import MuduoLite.Buffer.Refinement
import MuduoLite.Loop.Poller

/-!
# One TCP connection on its loop

The methods of `TcpConnection` that run on the connection's loop thread.  A
method sees a `ConnState`: the connection, the poller of its loop, the functors
it has put into the loop's queue, and the list of its `effects` outside the
object (system calls on the socket and user callbacks), oldest first.

What the kernel answers to a system call is an argument of the method, so a
theorem about every argument is about every kernel.  Logging has no effect here;
in particular it does not change `errno`.
-/

namespace MuduoLite

/-- The state of a connection. -/
inductive StateE
  | kDisconnected
  | kConnecting
  | kConnected
  | kDisconnecting
  deriving DecidableEq, Repr

/-- What the kernel answers to `::write` or `sendfile`: a byte count or an error. -/
inductive IoResult
  | bytes (n : ℕ)
  | error (errno : Errno)
  deriving DecidableEq, Repr

namespace IoResult

/-- The kernel takes at most `limit` bytes. -/
def Fits (limit : ℕ) : IoResult → Prop
  | bytes n => n ≤ limit
  | error _ => True

/-- The errors after which the code drops what it was sending. -/
def isFault : IoResult → Bool
  | error .EPIPE => true
  | error .ECONNRESET => true
  | _ => false

end IoResult

structure TcpConnection where
  state : StateE := .kConnecting
  channel : Channel
  inputBuffer : ValidBuffer := .new Buffer.kInitialSize
  outputBuffer : ValidBuffer := .new Buffer.kInitialSize
  /-- is `writeCompleteCallback_` set? -/
  writeCompleteCallback : Bool := false
  /-- is `highWaterMarkCallback_` set? -/
  highWaterMarkCallback : Bool := false
  highWaterMark : ℕ := 64 * 1024 * 1024

/-- The functors that methods of a connection put into the queue of its loop. -/
inductive Functor
  | writeComplete
  | highWaterMark (size : ℕ)
  | sendInLoop (data : List Byte)
  | sendFileInLoop (fileDescriptor offset count : ℕ)
  | shutdownInLoop
  deriving DecidableEq, Repr

/-- Is a `TcpConnectionPtr` bound into the functor?  `send` and `shutdown` bind `this`. -/
def Functor.owns : Functor → Bool
  | writeComplete => true
  | highWaterMark _ => true
  | sendInLoop _ => false
  | sendFileInLoop _ _ _ => true
  | shutdownInLoop => false

/-- What a method does outside the object, apart from the loop's queue and poller. -/
inductive Effect
  | write (data : List Byte) (result : IoResult)
  | sendfile (fileDescriptor offset count : ℕ) (result : IoResult)
  | shutdownWrite
  | queued (functor : Functor)
  | connectionCallback
  | messageCallback
  | closeCallback
  deriving DecidableEq, Repr

namespace Effect

/-- The bytes the kernel accepts by this effect, `files` being the contents of the open files. -/
def accepted (files : ℕ → List Byte) : Effect → List Byte
  | write data (.bytes n) => data.take n
  | sendfile fileDescriptor offset _ (.bytes n) => ((files fileDescriptor).drop offset).take n
  | _ => []

end Effect

/-- The bytes the kernel has accepted, in order. -/
def acceptedBytes (files : ℕ → List Byte) (effects : List Effect) : List Byte :=
  effects.flatMap (Effect.accepted files)

structure ConnState where
  conn : TcpConnection
  poller : EPollPoller := {}
  /-- the connection's channel as a pointer -/
  self : ℕ := 0
  /-- what was put into the loop's queue -/
  pendingFunctors : List Functor := []
  effects : List Effect := []

namespace ConnState

/-! ## Primitive steps -/

def emit (s : ConnState) (effect : Effect) : ConnState :=
  { s with effects := s.effects ++ [effect] }

/-- `loop_->queueInLoop`. -/
def queueInLoop (s : ConnState) (functor : Functor) : ConnState :=
  { s with
    pendingFunctors := s.pendingFunctors ++ [functor]
    effects := s.effects ++ [.queued functor] }

def setState (s : ConnState) (state : StateE) : ConnState :=
  { s with conn := { s.conn with state := state } }

def setInput (s : ConnState) (buffer : ValidBuffer) : ConnState :=
  { s with conn := { s.conn with inputBuffer := buffer } }

def setOutput (s : ConnState) (buffer : ValidBuffer) : ConnState :=
  { s with conn := { s.conn with outputBuffer := buffer } }

/-- Store `events_` and tell the poller, as the interest setters of `Channel` do. -/
def setEvents (s : ConnState) (events : EventMask) : ConnState :=
  let updated := s.poller.updateChannel s.self { s.conn.channel with events := events }
  { s with poller := updated.1, conn := { s.conn with channel := updated.2 } }

def enableReading (s : ConnState) : ConnState :=
  s.setEvents (s.conn.channel.events ||| Channel.kReadEvent)

def enableWriting (s : ConnState) : ConnState :=
  s.setEvents (s.conn.channel.events ||| Channel.kWriteEvent)

def disableWriting (s : ConnState) : ConnState :=
  s.setEvents (s.conn.channel.events &&& ~~~Channel.kWriteEvent)

def disableAll (s : ConnState) : ConnState := s.setEvents Channel.kNoneEvent

/-- `channel_->remove()`. -/
def remove (s : ConnState) : ConnState :=
  let removed := s.poller.removeChannel s.self s.conn.channel
  { s with poller := removed.1, conn := { s.conn with channel := removed.2 } }

/-! ## Sending -/

/-- Nothing waits to be written: the condition for a direct system call. -/
def isIdle (s : ConnState) : Bool :=
  !s.conn.channel.isWriting && s.conn.outputBuffer.readableBytes = 0

/-- `loop_->queueInLoop(writeCompleteCallback_)` where the callback is set. -/
def notifyWriteComplete (s : ConnState) : ConnState :=
  if s.conn.writeCompleteCallback then s.queueInLoop .writeComplete else s

def notifyHighWaterMark (s : ConnState) (oldLen newLen : ℕ) : ConnState :=
  if newLen ≥ s.conn.highWaterMark ∧ oldLen < s.conn.highWaterMark ∧
      s.conn.highWaterMarkCallback then
    s.queueInLoop (.highWaterMark newLen)
  else s

/-- The end of `sendInLoop`: keep what was not written for `handleWrite`. -/
def appendRemaining (s : ConnState) (remaining : List Byte) : ConnState :=
  if remaining = [] then s
  else
    let oldLen := s.conn.outputBuffer.readableBytes
    let notified := s.notifyHighWaterMark oldLen (oldLen + remaining.length)
    let appended := notified.setOutput (notified.conn.outputBuffer.append remaining)
    if appended.conn.channel.isWriting then appended else appended.enableWriting

/-- `sendInLoop(data, len)`; `result` is the answer to the direct `::write`.
In state `kDisconnected` the code logs and goes on. -/
def sendInLoop (s : ConnState) (data : List Byte) (result : IoResult) : ConnState :=
  if s.isIdle then
    let wrote := s.emit (.write data result)
    match result with
    | .bytes n =>
        let remaining := data.drop n
        if remaining = [] then wrote.notifyWriteComplete else wrote.appendRemaining remaining
    | .error _ => if result.isFault then wrote else wrote.appendRemaining data
  else s.appendRemaining data

/-- The end of `sendFileInLoop`: go on with the rest of the range later. -/
def requeueFile (s : ConnState) (fileDescriptor offset remaining : ℕ) : ConnState :=
  if remaining = 0 then s else s.queueInLoop (.sendFileInLoop fileDescriptor offset remaining)

/-- `sendFileInLoop`; `result` is the answer to `sendfile`, which advances
`offset` by the bytes it has sent. -/
def sendFileInLoop (s : ConnState) (fileDescriptor offset count : ℕ) (result : IoResult) :
    ConnState :=
  if s.conn.state = .kDisconnecting then s
  else if s.isIdle then
    let sent := s.emit (.sendfile fileDescriptor offset count result)
    match result with
    | .bytes n =>
        if count - n = 0 then sent.notifyWriteComplete
        else sent.requeueFile fileDescriptor (offset + n) (count - n)
    | .error _ => if result.isFault then sent else sent.requeueFile fileDescriptor offset count
  else s.requeueFile fileDescriptor offset count

def shutdownInLoop (s : ConnState) : ConnState :=
  if s.conn.channel.isWriting then s else s.emit .shutdownWrite

/-! ## Calls of the user on the loop thread -/

/-- `send(buf)`; `result` answers the direct `::write`. -/
def send (s : ConnState) (data : List Byte) (result : IoResult) : ConnState :=
  if s.conn.state = .kConnected then s.sendInLoop data result else s

def sendFile (s : ConnState) (fileDescriptor offset count : ℕ) (result : IoResult) : ConnState :=
  if s.conn.state = .kConnected then s.sendFileInLoop fileDescriptor offset count result else s

def shutdown (s : ConnState) : ConnState :=
  if s.conn.state = .kConnected then (s.setState .kDisconnecting).shutdownInLoop else s

/-- `setHighWaterMarkCallback(cb, highWaterMark)`. -/
def setHighWaterMarkCallback (s : ConnState) (highWaterMark : ℕ) : ConnState :=
  { s with conn := { s.conn with highWaterMarkCallback := true, highWaterMark := highWaterMark } }

/-! ## Establishing and destroying -/

def tie (s : ConnState) : ConnState :=
  { s with conn := { s.conn with channel := { s.conn.channel with tied := true } } }

def connectEstablished (s : ConnState) : ConnState :=
  ((s.setState .kConnected).tie.enableReading).emit .connectionCallback

def connectDestroyed (s : ConnState) : ConnState :=
  (if s.conn.state = .kConnected then
    ((s.setState .kDisconnected).disableAll).emit .connectionCallback
  else s).remove

/-! ## Event handlers -/

def handleClose (s : ConnState) : ConnState :=
  (((s.setState .kDisconnected).disableAll).emit .connectionCallback).emit .closeCallback

/-- `handleError` reads `SO_ERROR` and logs it. -/
def handleError (s : ConnState) : ConnState := s

def handleRead (s : ConnState) (result : Buffer.ReadResult) : ConnState :=
  let read := s.setInput (s.conn.inputBuffer.readFd result)
  match result with
  | .data [] => read.handleClose
  | .data _ => read.emit .messageCallback
  | .error _ => read.handleError

/-- The buffer was written out to the last byte. -/
def finishWriting (s : ConnState) : ConnState :=
  let notified := s.disableWriting.notifyWriteComplete
  if notified.conn.state = .kDisconnecting then notified.shutdownInLoop else notified

def handleWrite (s : ConnState) (result : IoResult) : ConnState :=
  if s.conn.channel.isWriting then
    let wrote := s.emit (.write s.conn.outputBuffer.readable result)
    match result with
    | .bytes n =>
        if n = 0 then wrote
        else
          let retrieved := wrote.setOutput (wrote.conn.outputBuffer.retrieve n)
          if retrieved.conn.outputBuffer.readableBytes = 0 then retrieved.finishWriting
          else retrieved
    | .error _ => wrote
  else s

/-- Run a callback of the channel; `read` and `result` answer its system call. -/
def runCallback (s : ConnState) (callback : Channel.Callback) (read : Buffer.ReadResult)
    (result : IoResult) : ConnState :=
  match callback with
  | .closeCallback => s.handleClose
  | .errorCallback => s.handleError
  | .readCallback => s.handleRead read
  | .writeCallback => s.handleWrite result

/-- Run a functor of this connection; `result` answers the system call it may make.
The callbacks of the user are calls of their own. -/
def runFunctor (s : ConnState) (functor : Functor) (result : IoResult) : ConnState :=
  match functor with
  | .writeComplete => s
  | .highWaterMark _ => s
  | .sendInLoop data => s.sendInLoop data result
  | .sendFileInLoop fileDescriptor offset count =>
      s.sendFileInLoop fileDescriptor offset count result
  | .shutdownInLoop => s.shutdownInLoop

/-- The calls the loop thread makes on an established connection: the event
handlers, the functors of its queue, and the user's calls from a callback. -/
inductive LoopCall
  | handleRead (result : Buffer.ReadResult)
  | handleWrite (result : IoResult)
  | handleClose
  | handleError
  | connectDestroyed
  | runFunctor (functor : Functor) (result : IoResult)
  | send (data : List Byte) (result : IoResult)
  | sendFile (fileDescriptor offset count : ℕ) (result : IoResult)
  | shutdown
  deriving DecidableEq, Repr

def call (s : ConnState) : LoopCall → ConnState
  | .handleRead result => s.handleRead result
  | .handleWrite result => s.handleWrite result
  | .handleClose => s.handleClose
  | .handleError => s.handleError
  | .connectDestroyed => s.connectDestroyed
  | .runFunctor functor result => s.runFunctor functor result
  | .send data result => s.send data result
  | .sendFile fileDescriptor offset count result => s.sendFile fileDescriptor offset count result
  | .shutdown => s.shutdown

end ConnState

end MuduoLite
