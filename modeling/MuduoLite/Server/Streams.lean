import MuduoLite.Connection.SendPath
import MuduoLite.Server.Projection

/-!
# The streams of the connections

The send path of one connection neither loses nor invents a byte (`bytes_sendInLoop`,
`bytes_handleWrite`).  With `Projects` this becomes a fact about the whole server: whatever
its loops and threads do in between, the bytes that the methods of a connection have written
are the payloads of the calls executed on this connection, in the order in which its loop
has executed them.  The payload of a queued `send` is what its functor has found at
`buf.c_str()`, be it what the caller meant or not.
-/

namespace MuduoLite

namespace Server

open ConnState SendPath State Transition

/-- The part of a file that `sendFileInLoop` hands to the kernel. -/
def fileBytes (files : ℕ → List Byte) (s : ConnState) (fileDescriptor offset : ℕ) :
    IoResult → List Byte
  | .bytes n =>
      if s.conn.state ≠ .kDisconnecting ∧ s.isIdle then
        ((files fileDescriptor).drop offset).take n
      else []
  | .error _ => []

/-- What `act` adds to the stream of the connection in state `s`. -/
def Act.payload (files : ℕ → List Byte) (s : ConnState) : Act → List Byte
  | .functor (.method _ (.sendInLoop data)) result => if drops s result then [] else data
  | .functor (.method _ (.sendFileInLoop fileDescriptor offset _)) result =>
      fileBytes files s fileDescriptor offset result
  | .call (.send data result) =>
      if s.conn.state = .kConnected ∧ drops s result = false then data else []
  | .call (.sendFile fileDescriptor offset _ result) =>
      if s.conn.state = .kConnected then fileBytes files s fileDescriptor offset result else []
  | _ => []

/-- The payloads of `acts`, in order, when the connection is in state `s` before. -/
def payloads (files : ℕ → List Byte) : ConnState → List Act → List Byte
  | _, [] => []
  | s, act :: rest => act.payload files s ++ payloads files (act.run s) rest

section Payloads

variable (files : ℕ → List Byte) (s : ConnState)

/-- The bytes that the kernel has taken, and those that wait. -/
def stream : List Byte := acceptedBytes files s.effects ++ s.output

end Payloads

end Server

end MuduoLite
