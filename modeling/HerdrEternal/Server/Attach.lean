import HerdrEternal.Server.Session

/-!
# Attaching a connection to a session

`attach` of `server/src/lib.rs` streams a session's log to one connection and forwards what the
connection sends. Its loop replays the log behind `sent_up_to`, acknowledges newly applied stdin,
and then waits in a `select!` for a keepalive tick, a new log entry, or the connection.

`Attach` holds the loop's local variables and its suspension point. A suspended send shows the
message it wants to put on the channel (`sending`); the connection answers with `sent` or
`sendFailed`. The session is shared: a step may read its log, trim it, or queue an input.

The session's task runs beside it, so what `attach` does to the log is cut where a push can fall in
between. `subscribe()` and `changed()` take the published number in one step. The pass that follows
takes its snapshot in another (`snapshot`), and so does every later pass.

The branch of `latest.changed()` that reports a dropped sender is not among the steps here: `attach`
itself holds the session, and with it the log that owns the sender. `Serving`, which knows who holds
the session, has it.
-/

namespace HerdrEternal

/-- What a channel carries: encoded messages and WebSocket pings. -/
inductive Wire where
  | msg (m : Msg)
  | ping
  deriving DecidableEq

/-- Where `attach` is suspended. -/
inductive AttachPc where
  | sendStarted
  /-- At the top of the loop, before `log.after(sent_up_to)`. -/
  | top
  /-- Sending `m` of a replay pass, with `rest` of the pass still to come. -/
  | replay (m : Msg) (rest : List Msg)
  | sendAck
  | select
  | ping
  | returned
  deriving DecidableEq

/-- The local variables of `attach`. -/
structure Attach where
  token : String
  sentUpTo : Nat
  /-- Last stdin ack sent to the client. -/
  ackedStdin : Nat
  /-- Number of the Exit message once it went out on this connection. -/
  exitSeq : Option Nat
  /-- The published value the watch receiver saw last. -/
  seen : Nat
  pc : AttachPc
  deriving DecidableEq

inductive AttachEvent where
  | sent
  | sendFailed
  /-- `log.after(sent_up_to)` at the top of the loop. -/
  | snapshot
  /-- The keepalive timer fired; `expired` if nothing was heard for too long. -/
  | tick (expired : Bool)
  | changed
  | frame (m : Msg)
  | datagram (m : Msg)
  | badFrame
  | badDatagram
  | closed
  | failed
  deriving DecidableEq

namespace Session

/-- Queue an input. The queue of a task that has returned is never read again. -/
def enqueue (s : Session) (input : SessionInput) : Session :=
  { s with inbound := s.inbound ++ [input] }

def trimLog (s : Session) (seq : Nat) : Session := { s with log := s.log.trim seq }

def unregister (s : Session) : Session := { s with registered := false }

/-- A connection of a session that cannot be resumed went away. -/
def detach (s : Session) : Session := if s.resumable then s else s.unregister.enqueue .abort

end Session

namespace Attach

/-- `attach` as it starts, before `Started` is on the wire. -/
def start (token : String) (lastSeqSeen : Nat) : Attach :=
  ⟨token, lastSeqSeen, 0, none, 0, .sendStarted⟩

/-- The message a suspended send wants to put on the channel. -/
def sending (a : Attach) (s : Session) : Option Wire :=
  match a.pc with
  | .sendStarted => some (.msg (.started (if s.resumable then some a.token else none)))
  | .replay m _ => some (.msg m)
  | .sendAck => some (.msg (.ack a.ackedStdin))
  | .ping => some .ping
  | _ => none

/-- Behind the replay pass: acknowledge stdin if more was applied, then wait. -/
def afterReplay (a : Attach) (stdinApplied : Nat) : Attach :=
  if a.ackedStdin < stdinApplied then { a with ackedStdin := stdinApplied, pc := .sendAck }
  else { a with pc := .select }

/-- Send the next message of a replay pass, or leave the pass. -/
def replayNext (a : Attach) (stdinApplied : Nat) : List Msg → Attach
  | [] => a.afterReplay stdinApplied
  | m :: rest =>
    let exitSeq := match m with
      | .exit seq _ => some seq
      | _ => a.exitSeq
    { a with exitSeq := exitSeq, pc := .replay m rest }

/-- Replay a snapshot of the log behind `sent_up_to`. -/
def loopTop (a : Attach) (s : Session) : Attach :=
  a.replayNext s.stdinApplied (s.log.after a.sentUpTo)

/-- Back to the top of the loop. -/
def continue_ (a : Attach) : Attach := { a with pc := .top }

/-- The watch receiver sees the published number, in `subscribe()` or in `changed()`. -/
def observe (a : Attach) (s : Session) : Attach := { a with seen := s.log.latest }

def return_ (a : Attach) : Attach := { a with pc := .returned }

/-- A decoded message from the connection's stream. -/
def onFrame (a : Attach) (s : Session) : Msg → Attach × Session
  | .ack seq =>
    let s := s.trimLog seq
    if a.exitSeq.any (· ≤ seq) then (a.return_, s.unregister) else (a.continue_, s)
  | m => (a.continue_, s.enqueue (.message m))

/-- One step of `attach` on a connection. -/
def step (quic : Bool) (a : Attach) (s : Session) (e : AttachEvent) : Option (Attach × Session) :=
  match a.pc, e with
  | .sendStarted, .sent => some ((a.observe s).continue_, s)
  | .top, .snapshot => some (a.loopTop s, s)
  | .replay _ rest, .sent =>
    some ({ a with sentUpTo := a.sentUpTo + 1 }.replayNext s.stdinApplied rest, s)
  | .sendAck, .sent => some ({ a with pc := .select }, s)
  | .ping, .sent => some (a.continue_, s)
  | .sendStarted, .sendFailed | .replay .., .sendFailed | .sendAck, .sendFailed
  | .ping, .sendFailed => some (a.return_, s)
  | .select, .tick expired =>
    if quic then none
    else if expired then some (a.return_, s.detach)
    else some ({ a with pc := .ping }, s)
  | .select, .changed =>
    if a.exitSeq.isNone && s.log.latest != a.seen then some ((a.observe s).continue_, s)
    else none
  | .select, .frame m => some (a.onFrame s m)
  | .select, .datagram m => some (a.continue_, s.enqueue (.datagram m))
  | .select, .badDatagram => some (a.continue_, s)
  | .select, .badFrame => some (a.return_, s)
  | .select, .closed | .select, .failed => some (a.return_, s.detach)
  | _, _ => none

/-! ## What a step can do -/

/-- Every step of `attach`, by where it was suspended and with the guard it passed. -/
inductive Step (quic : Bool) (a : Attach) (s : Session) : AttachEvent → Attach → Session → Prop
  | started (hp : a.pc = .sendStarted) : Step quic a s .sent (a.observe s).continue_ s
  | snapshot (hp : a.pc = .top) : Step quic a s .snapshot (a.loopTop s) s
  | replayed {m : Msg} {rest : List Msg} (hp : a.pc = .replay m rest) :
      Step quic a s .sent ({ a with sentUpTo := a.sentUpTo + 1 }.replayNext s.stdinApplied rest) s
  | acked (hp : a.pc = .sendAck) : Step quic a s .sent { a with pc := .select } s
  | pinged (hp : a.pc = .ping) : Step quic a s .sent a.continue_ s
  | sendFailed (hp : (a.sending s).isSome) : Step quic a s .sendFailed a.return_ s
  | expired (hp : a.pc = .select) (hq : quic = false) :
      Step quic a s (.tick true) a.return_ s.detach
  | tick (hp : a.pc = .select) (hq : quic = false) :
      Step quic a s (.tick false) { a with pc := .ping } s
  | changed (hp : a.pc = .select) (hexit : a.exitSeq = none) (hne : s.log.latest ≠ a.seen) :
      Step quic a s .changed (a.observe s).continue_ s
  | delivered {seq : Nat} (hp : a.pc = .select) (hexit : a.exitSeq.any (· ≤ seq) = true) :
      Step quic a s (.frame (.ack seq)) a.return_ (s.trimLog seq).unregister
  | trimmed {seq : Nat} (hp : a.pc = .select) (hexit : a.exitSeq.any (· ≤ seq) = false) :
      Step quic a s (.frame (.ack seq)) a.continue_ (s.trimLog seq)
  | frame {m : Msg} (hp : a.pc = .select) (hm : ∀ seq, m ≠ .ack seq) :
      Step quic a s (.frame m) a.continue_ (s.enqueue (.message m))
  | datagram {m : Msg} (hp : a.pc = .select) :
      Step quic a s (.datagram m) a.continue_ (s.enqueue (.datagram m))
  | badDatagram (hp : a.pc = .select) : Step quic a s .badDatagram a.continue_ s
  | badFrame (hp : a.pc = .select) : Step quic a s .badFrame a.return_ s
  | closed (hp : a.pc = .select) : Step quic a s .closed a.return_ s.detach
  | failed (hp : a.pc = .select) : Step quic a s .failed a.return_ s.detach

theorem Step.of_step {quic : Bool} {a a' : Attach} {s s' : Session} {e : AttachEvent}
    (h : a.step quic s e = some (a', s')) : Step quic a s e a' s' := by
  unfold step at h
  split at h
  · cases h; exact .started ‹_›
  · cases h; exact .snapshot ‹_›
  · cases h; exact .replayed ‹_›
  · cases h; exact .acked ‹_›
  · cases h; exact .pinged ‹_›
  · cases h; exact .sendFailed (by simp [sending, *])
  · cases h; exact .sendFailed (by simp [sending, *])
  · cases h; exact .sendFailed (by simp [sending, *])
  · cases h; exact .sendFailed (by simp [sending, *])
  · rename_i expired hp
    split_ifs at h with hq he
    · cases h; rw [he]; exact .expired hp ((Bool.not_eq_true _).mp hq)
    · cases h
      rw [(Bool.not_eq_true _).mp he]
      exact .tick hp ((Bool.not_eq_true _).mp hq)
  · rename_i hp
    simp only [Bool.and_eq_true, Option.isNone_iff_eq_none, bne_iff_ne] at h
    split_ifs at h with hg
    cases h; exact .changed hp hg.1 hg.2
  · rename_i m hp
    rw [Option.some.injEq] at h
    unfold onFrame at h
    split at h
    · dsimp only at h
      split_ifs at h with hexit
      · cases h; exact .delivered hp hexit
      · cases h; exact .trimmed hp ((Bool.not_eq_true _).mp hexit)
    · rename_i hm
      cases h; exact .frame hp hm
  · cases h; exact .datagram ‹_›
  · cases h; exact .badDatagram ‹_›
  · cases h; exact .badFrame ‹_›
  · cases h; exact .closed ‹_›
  · cases h; exact .failed ‹_›
  · cases h

end Attach

end HerdrEternal
