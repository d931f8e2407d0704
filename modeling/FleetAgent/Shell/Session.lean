/-
# A shell session

A session joins a process to a web socket by three flows.  The listener writes the binary
frames that arrive to the input of the process; the pump sends the output of the process as
binary frames; the waiter waits for the process to exit.  Every flow closes the session when it
ends, and the first that does so ends the others.  Whoever runs the session waits for the three
at a gate, and the session is over when that wait is.

A flow ends in steps: it closes the session, it takes a permit of the gate, and if that was the
last permit it gives notice.  Anything else may happen between these steps.
-/
import FleetAgent.Channel.Frame
import FleetAgent.Shell.Closer
import FleetAgent.Shell.Gate

namespace FleetAgent.Shell

/-- The flows of a session. -/
inductive Flow where
  | listener
  | pump
  | waiter
deriving DecidableEq, Repr, Inhabited

/-- A session that has been started. -/
structure Session where
  running : List Flow
  /-- The flows that have closed the session, and have not taken their permit yet. -/
  leaving : List Flow
  ended : List Flow
  closer : Closer
  /-- The results of the calls that close the session. -/
  closings : List Bool
  /-- The gate, where the end of the session is waited for. -/
  gate : Gate
  /-- Whether the last permit has been taken and notice of it is still to be given. -/
  noticing : Bool
  /-- What the process has been given. -/
  input : List UInt8
  /-- What is still to be written of the frame in progress. -/
  writing : List UInt8
  /-- What the process has written and the pump has read. -/
  output : List UInt8
  sent : List Channel.Frame
deriving DecidableEq, Repr, Inhabited

namespace Session

/-- A new session, whose end is about to be waited for. -/
def initial : Session :=
  ⟨[.listener, .pump, .waiter], [], [], .initial, [], (Gate.ofPermits 3).wait, false, [], [], [],
    []⟩

/-- The greatest number of bytes in one frame of output. -/
def chunkSize : Nat := 4096

/-- What can happen. -/
inductive Event where
  /-- Something arrives on the web socket. -/
  | received (i : Channel.Inbound)
  /-- Bytes of the frame in progress are taken by the process. -/
  | wrote (n : Nat)
  /-- The process does not take input any more. -/
  | writeFailed
  /-- The listener notices that the session is cancelled. -/
  | listenerCancelled
  /-- The pump reads output of the process; no bytes are its end. -/
  | read (bytes : List UInt8)
  /-- The pump reads output that cannot be sent. -/
  | sendFailed (bytes : List UInt8)
  /-- The pump cannot read any more. -/
  | readFailed
  /-- The pump gives up waiting for output after the session is cancelled. -/
  | drained
  /-- The waiter sees the process exit. -/
  | exited
  /-- A flow crashes. -/
  | crashed (f : Flow)
  /-- A flow that has closed the session takes its permit of the gate. -/
  | left (f : Flow)
  /-- Notice is given that the gate is open. -/
  | noticed
  /-- The session is closed by somebody else. -/
  | close
  | cancel
  | cancelParent
  /-- Who waits for the end looks whether all flows have ended. -/
  | looked
  /-- Who waits for the end listens for the notice that they have. -/
  | listened
deriving DecidableEq, Repr, Inhabited

/-- The session after a call that closes it. -/
def close (s : Session) : Session :=
  { s with closer := s.closer.close.2, closings := s.closings ++ [s.closer.close.1] }

/-- The session after a flow has stopped and closed it. -/
def finish (s : Session) (f : Flow) : Session :=
  if s.running.contains f then
    { s.close with running := s.running.erase f, leaving := s.leaving ++ [f] }
  else s

/-- The session after a flow that has stopped has taken its permit. -/
def leave (s : Session) (f : Flow) : Session :=
  if s.leaving.contains f then
    { s with
      leaving := s.leaving.erase f
      ended := s.ended ++ [f]
      gate := s.gate.decrement.2
      noticing := s.noticing || s.gate.decrement.1 }
  else s

/-- What the listener does with what arrives. -/
def listen (s : Session) : Channel.Inbound → Session
  | .frame (.binary bytes) => { s with writing := bytes }
  | .frame (.close _) | .failed | .ended | .silence => s.finish .listener
  | .frame _ => s

/-- The end of the pump, which sends a close frame. -/
def stopPump (s : Session) : Session :=
  { s with sent := s.sent ++ [Channel.Frame.close (some Channel.CloseFrame.normal)] }.finish .pump

/-- Whether the listener is ready for what arrives next. -/
def isListening (s : Session) : Bool :=
  s.running.contains .listener && s.writing.isEmpty

/-- The step of an event.  An event of a flow that is not running changes nothing, and
cancellation is noticed only where there is one. -/
def step (s : Session) : Event → Session
  -- the listener takes no frame while it writes another
  | .received i => if s.isListening then s.listen i else s
  | .wrote n =>
    if s.running.contains .listener then
      { s with input := s.input ++ s.writing.take n, writing := s.writing.drop n }
    else s
  | .writeFailed => if s.running.contains .listener then s.finish .listener else s
  | .listenerCancelled => if s.closer.cancelled then s.finish .listener else s
  | .read bytes =>
    if s.running.contains .pump then
      if bytes.isEmpty then s.stopPump
      -- no single reading gives more than a chunk
      else if chunkSize < bytes.length then s
      else { s with output := s.output ++ bytes, sent := s.sent ++ [.binary bytes] }
    else s
  | .sendFailed bytes =>
    if s.running.contains .pump then { s with output := s.output ++ bytes }.stopPump else s
  | .readFailed => if s.running.contains .pump then s.stopPump else s
  | .drained => if s.running.contains .pump && s.closer.cancelled then s.stopPump else s
  | .exited => s.finish .waiter
  | .crashed f => s.finish f
  | .left f => s.leave f
  | .noticed => if s.noticing then { s with gate := s.gate.notify, noticing := false } else s
  | .close => s.close
  | .cancel => { s with closer := s.closer.cancel }
  | .cancelParent => { s with closer := s.closer.cancelParent }
  | .looked => { s with gate := s.gate.lookAll }
  | .listened => { s with gate := s.gate.listenAll }

/-- The steps of a row of events. -/
def run (s : Session) (events : List Event) : Session :=
  events.foldl step s

/-- Whether the waiting for the end is over. -/
def isOver (s : Session) : Bool :=
  s.gate.waiters.all (· == .finished)

end Session

end FleetAgent.Shell
