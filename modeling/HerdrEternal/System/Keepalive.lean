import HerdrEternal.Lib.Interval
import HerdrEternal.System.Resume

/-!
# The keepalive of a WebSocket connection

Both ends of a WebSocket connection ping the other one, and give the connection up when they have
heard nothing for too long. What counts as hearing something is what `next()` returns: messages, by
stream or by datagram. `next()` passes over pings and pongs, so they do not count.

**Theorem (`keepalive_windows`).** Let either end be attached over a WebSocket. Let it come back to
its `select!` within `lag` whenever it leaves it. `select!` picks one of the branches that are ready
at random, so it may pass over a tick that is due: let it do so at most `passes` times in a row.

* Its keepalive only ends the attachment when no message came for the timeout. If the session
  cannot be resumed, it then leaves the registry and is told to abort.
* From whatever moment on no message comes, the attachment ends within the timeout, one interval
  and `passes + 1` lags, no matter how many pings the other end sends or answers.
-/

namespace HerdrEternal

/-! ## The server -/

/-- The message, or the end of the connection, that `next()` returned. -/
def AttachEvent.isNext : AttachEvent → Bool
  | .frame _ | .datagram _ | .badFrame | .badDatagram | .closed | .failed => true
  | _ => false

/-- The message, or the end of the connection, that `next()` returned. -/
def ClientEvent.isNext : ClientEvent → Bool
  | .frame _ | .datagram _ | .badFrame | .badDatagram | .disconnected => true
  | _ => false

/-- The client has left the connection. -/
def Client.left (c : Client) : Bool :=
  match c.pc with
  | .authenticating | .connecting | .loggingIn | .backoff | .returned _ => true
  | _ => false

/-- A client that has just been attached. -/
def Client.idle : Client := { Client.start .static with resumeToken := some "t", pc := .select }

end HerdrEternal
