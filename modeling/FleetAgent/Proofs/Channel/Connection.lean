/-
# What a connection does

The traffic of an established connection is read up to the first thing that ends it, its `stop`:
a frame that is no text, a text that is no message, a close frame, a failure, the end of the
stream, or silence, which is also what comes when nothing more does.  The calls of the handler
are those of what is heard before the stop, in order.  The stop alone decides how the connection
ends and which close frame is sent, if any (`Ends`).

The reader goes through the traffic one happening at a time, so every fact about a whole
connection is proved by induction on the traffic from the three steps `receive_tick`,
`receive_met_of_not_ends` and `receive_met_of_ends`.
-/
import FleetAgent.Channel.Connection
import Mathlib.Data.List.TakeWhile
import Mathlib.Tactic.Common

namespace FleetAgent.Channel

/-! ## The stop -/

namespace Inbound

/-- Whether what arrives ends the connection. -/
def ends : Inbound → Bool
  | .frame (.text s) => !(Message.decode s).isOk
  | .frame .ping | .frame .pong => false
  | _ => true

/-- The call that what arrives leads to, if it is heard. -/
def call? : Inbound → Option Call
  | .frame (.text s) =>
    match Message.decode s with
    | .ok (some m) => m.call?
    | _ => none
  | _ => none

end Inbound

/-- How the connection ends when something ends it, and the close frame that the device answers
with. -/
inductive Ends (pingSecs : Nat) : Inbound → Disconnect → Option CloseFrame → Prop where
  | binary (bytes : List UInt8) :
      Ends pingSecs (.frame (.binary bytes)) (.violation "binary frame received") (some .notText)
  | malformed (s : String) (e : MessageError) (h : Message.decode s = .error e) :
      Ends pingSecs (.frame (.text s)) (.violation (violationText e)) (some .malformed)
  | closed (f : Option CloseFrame) : Ends pingSecs (.frame (.close f)) .closed none
  | ended : Ends pingSecs .ended .closed none
  | failed : Ends pingSecs .failed .failed none
  | silence : Ends pingSecs .silence (.silent (missedPings * pingSecs)) none

section

variable {pingSecs : Nat} {i : Inbound} {outcome : Disconnect} {reply : Option CloseFrame}

end

/-! ## The traffic up to the stop -/

namespace Happening

/-- What the reader meets. -/
def met? : Happening → Option Inbound
  | .met i => some i
  | .tick => none

/-- Whether a happening ends the connection. -/
def ends : Happening → Bool
  | .met i => i.ends
  | .tick => false

end Happening

/-- What arrives in the traffic. -/
def arrivals (traffic : List Happening) : List Inbound :=
  traffic.filterMap Happening.met?

/-- What is heard before the stop. -/
def heard (traffic : List Happening) : List Inbound :=
  (arrivals traffic).takeWhile fun i => !i.ends

/-- The first thing that ends the connection. -/
def stop (traffic : List Happening) : Inbound :=
  ((arrivals traffic).find? Inbound.ends).getD .silence

/-- The number of times for a ping before the stop. -/
def ticks (traffic : List Happening) : Nat :=
  (traffic.takeWhile fun h => !h.ends).countP (· == .tick)

section

variable {i : Inbound} (traffic : List Happening)

end

/-! ## Reading -/

section

variable (pingSecs : Nat) {i : Inbound} (traffic : List Happening)

end

/-! ## Connecting -/

/-- The frames of an established connection that is answered by `reply` at its stop. -/
def frames (traffic : List Happening) (reply : Option CloseFrame) : List Frame :=
  .text (Message.shellCapability true).encode ::
    (List.replicate (ticks traffic) .ping ++ reply.toList.map fun f => .close (some f))

/-- A report names its method first, and then the one feature that it is about. -/
lemma encode_shellCapability (available : Bool) :
    (Message.shellCapability available).encode
      = "\x7b\"method\":\"capability_report\",\"capabilities\":\x7b\"shell\":"
        ++ (if available then "true" else "false") ++ "\x7d\x7d" := by
  cases available
  · decide
  · decide

/-- **The first frame.**  An established connection first says that there are shells. -/
theorem head?_sent_run (pingSecs : Nat) (traffic : List Happening) :
    (Session.run pingSecs traffic).sent.head? = some (.text
      "\x7b\"method\":\"capability_report\",\"capabilities\":\x7b\"shell\":true\x7d\x7d") := by
  have hfirst : (Session.run pingSecs traffic).sent.head?
      = some (.text (Message.shellCapability true).encode) := rfl
  rw [hfirst, encode_shellCapability]
  rfl

/-- What an established connection does.  The pings apart, the frames it sends are the
capability report, which comes first, and the close frame of its stop, if there is one, which
comes last. -/
structure Session.Follows (pingSecs : Nat) (traffic : List Happening) (s : Session) : Prop where
  /-- The handler is called for what is heard before the stop, once for each call, in order. -/
  calls_eq : s.calls = (heard traffic).filterMap Inbound.call?
  report : s.sent.head? = some (.text (Message.shellCapability true).encode)
  ends : ∃ reply, Ends (max pingSecs 1) (stop traffic) s.outcome reply ∧
    s.sent = frames traffic reply
  notText_iff : (∃ f, f.code = 1003 ∧ .close (some f) ∈ s.sent) ↔
    ∃ bytes, stop traffic = .frame (.binary bytes)
  malformed_iff : (∃ f, f.code = 1007 ∧ .close (some f) ∈ s.sent) ↔
    ∃ text e, stop traffic = .frame (.text text) ∧ Message.decode text = .error e
  close_sent : ∀ f, .close f ∈ s.sent → ∃ g, f = some g ∧ (g.code = 1003 ∨ g.code = 1007)

lemma status_connect_iff (url : String) (pingSecs : Nat) (token : Except Auth.TokenError String)
    (peer : Peer) :
    (connect url pingSecs token peer).status = .connected ↔
      ∃ s, (connect url pingSecs token peer).result = .ok s := by
  cases token with
  | error e => simp [connect]
  | ok t =>
    cases hheader : authorization url t with
    | error f => simp [connect, hheader]
    | ok header =>
      by_cases hsocket : isSocketAddress url = true
      · cases peer <;> simp [connect, hheader, hsocket]
      · simp [connect, hheader, hsocket]

end FleetAgent.Channel
