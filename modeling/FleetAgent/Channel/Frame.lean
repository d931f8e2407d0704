/-
# Frames of a web socket

What arrives on a web socket and what the agent sends on it.
-/
namespace FleetAgent.Channel

/-- The code and the reason in a close frame. -/
structure CloseFrame where
  code : Nat
  reason : String
deriving DecidableEq, Repr, Inhabited

/-- A frame. -/
inductive Frame where
  | text (s : String)
  | binary (bytes : List UInt8)
  | ping
  | pong
  | close (f : Option CloseFrame)
deriving DecidableEq, Repr, Inhabited

/-- What the reader of a web socket meets next. -/
inductive Inbound where
  | frame (f : Frame)
  /-- The transport fails. -/
  | failed
  /-- The stream ends without a close frame. -/
  | ended
  /-- Nothing arrives for as long as the reader waits. -/
  | silence
deriving DecidableEq, Repr, Inhabited

/-- The close frame of a normal end. -/
def CloseFrame.normal : CloseFrame := ⟨1000, "shell connection closed"⟩

/-- The close frame after a frame that is no text. -/
def CloseFrame.notText : CloseFrame := ⟨1003, "protocol expects text-mode messages"⟩

/-- The close frame after a text that is no message. -/
def CloseFrame.malformed : CloseFrame := ⟨1007, "malformed message"⟩

/-- The number of missed pings after which a peer counts as gone. -/
def missedPings : Nat := 3

end FleetAgent.Channel
