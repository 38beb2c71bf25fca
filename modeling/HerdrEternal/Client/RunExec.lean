import HerdrEternal.Server.Attach

/-!
# The client's exec loop

`run_exec` of `client/src/lib.rs` runs one command: it connects, resends the stdin the server has
not acknowledged, and then relays stdin, stdout and stderr until the connection breaks, in which
case it resumes the session, or the command exits.

`Client` holds the function's local variables and its suspension point. As in `attach`, a
suspended send shows its message, and the connection answers with `sent` or `sendFailed`.
-/

namespace HerdrEternal

/-- The errors `run_exec` can return. -/
inductive ClientError where
  | io
  | webSocket
  | protocol
  | connectionClosed
  | denied (reason : String)
  | connectTimeout
  | http
  | oidc
  | rateLimited
  | notLoggedIn
  | noAuthConfigured
  deriving DecidableEq

/-- Where the `Hello` token comes from. -/
inductive TokenSource where
  | static
  | oidc
  deriving DecidableEq

/-- Where `run_exec` is suspended. -/
inductive ClientPc where
  /-- In `target.access_token()`. -/
  | authenticating
  /-- In the rest of `connect_and_start`, on the newest connection. -/
  | connecting
  /-- In `oidc::login_on_tty`. -/
  | loggingIn
  /-- Sleeping before the next attempt. -/
  | backoff
  /-- Resending `m`, with `rest` still to be resent. -/
  | resend (m : Msg) (rest : List Msg)
  | select
  | ping
  /-- Sending a message that was just read from stdin. -/
  | sendFresh (m : Msg)
  | writing (stream : Stream) (rest : Data)
  | flushing
  | sendAck (seq : Nat)
  | sendExitAck (seq : Nat) (code : Int32)
  | returned (result : Except ClientError Int32)
  deriving DecidableEq

/-- What the client read and wrote so far. -/
structure ClientTrace where
  /-- Every byte read from stdin. -/
  stdinRead : Data
  /-- Every message numbered by `client_seq`. -/
  numbered : List Msg
  /-- The highest of them that the server acknowledged. -/
  acked : Nat
  /-- Every byte written to stdout and stderr. -/
  output : List (Stream × UInt8)
  /-- The bytes written before the last flush. -/
  flushed : List (Stream × UInt8)
  /-- The last log entry that was written and flushed, or the Exit entry once received. -/
  persisted : Nat
  /-- The code of the Exit message, once received. -/
  exit : Option Int32
  deriving DecidableEq

/-- The local variables of `run_exec`. -/
structure Client where
  tokenSource : TokenSource
  stdinOpen : Bool
  /-- Stdin the server has not acknowledged yet. -/
  sentStdin : List Msg
  clientSeq : Nat
  lastServerSeq : Nat
  resumeToken : Option String
  pc : ClientPc
  trace : ClientTrace
  deriving DecidableEq

inductive ClientEvent where
  | authenticated
  | connectFailed (e : ClientError)
  | loggedIn
  | loginFailed (e : ClientError)
  | wake
  | sent
  | sendFailed
  | frame (m : Msg)
  | datagram (m : Msg)
  | badFrame
  | badDatagram
  | disconnected
  | stdinData (bytes : Data)
  | stdinEof
  | stdinError
  | wrote (n : Nat)
  | writeFailed
  | flushed
  /-- The keepalive timer fired; `expired` if nothing was heard for too long. -/
  | tick (expired : Bool)
  deriving DecidableEq

/-- Datagram duplicates may overtake earlier stream messages, so they are only applied when they
are exactly the next message. -/
def isNext {ν : Type} [DecidableEq ν] [Add ν] [OfNat ν 1] [LT ν] [DecidableLT ν]
    (seq lastSeen : ν) (reliable : Bool) : Bool :=
  decide (seq = lastSeen + 1) || (reliable && decide (lastSeen < seq))

namespace Client

def fail (c : Client) (e : ClientError) : Client := { c with pc := .returned (.error e) }

/-- What becomes of a failed `connect_and_start`. -/
def connectError (c : Client) (e : ClientError) : Client :=
  match e with
  | .notLoggedIn =>
    match c.tokenSource with
    | .static => c.fail .notLoggedIn
    | .oidc => { c with pc := .loggingIn }
  | .denied reason => c.fail (.denied reason)
  | e => if c.resumeToken.isSome then { c with pc := .backoff } else c.fail e

/-- The attached phase ended without an exit code. -/
def disconnect (c : Client) : Client :=
  if c.resumeToken.isSome then { c with pc := .backoff } else c.fail .connectionClosed

/-- Resend what is left, or start relaying. -/
def resendNext (c : Client) : List Msg → Client
  | [] => { c with pc := .select }
  | m :: rest => { c with pc := .resend m rest }

/-- Drop acknowledged messages from the resend buffer. -/
def onAck (c : Client) (acked : Nat) : Client :=
  { c with
    sentStdin := c.sentStdin.filter fun m => match m with
      | .stdin seq _ | .stdinEof seq => decide (acked < seq)
      | _ => true
    trace := { c.trace with acked := max c.trace.acked acked } }

/-- Write a chunk of output, if it is the next one. -/
def onOutput (c : Client) (stream : Stream) (seq : Nat) (data : Data) (reliable : Bool) : Client :=
  if isNext seq c.lastServerSeq reliable then
    { c with lastServerSeq := seq, pc := if data.isEmpty then .flushing else .writing stream data }
  else c

/-- A message from the connection, by stream (`reliable`) or as a datagram. -/
def onMessage (c : Client) (reliable : Bool) : Msg → Client
  | .stdout seq data => c.onOutput .out seq data reliable
  | .stderr seq data => c.onOutput .err seq data reliable
  | .exit seq code =>
    { c with
      pc := .sendExitAck seq code
      trace := { c.trace with persisted := seq, exit := some code } }
  | .ack seq => c.onAck seq
  | _ => c

/-- Number a message read from stdin and start sending it. -/
def sendStdin (c : Client) (m : Nat → Msg) : Client :=
  let seq := c.clientSeq + 1
  { c with
    clientSeq := seq
    pc := .sendFresh (m seq)
    trace := { c.trace with numbered := c.trace.numbered ++ [m seq] } }

/-- The message a suspended send wants to put on the connection. -/
def sending (c : Client) : Option Wire :=
  match c.pc with
  | .resend m _ | .sendFresh m => some (.msg m)
  | .ping => some .ping
  | .sendAck seq | .sendExitAck seq _ => some (.msg (.ack seq))
  | _ => none

/-- The reply to the request on a fresh connection. -/
def onReply (c : Client) : Msg → Client
  | .started token =>
    let c := { c with resumeToken := c.resumeToken <|> token }
    c.resendNext c.sentStdin
  | .denied reason => c.connectError (.denied reason)
  | _ => c.connectError .connectionClosed

/-- One step of `run_exec`. -/
def step (quic : Bool) (c : Client) (e : ClientEvent) : Option Client :=
  match c.pc, e with
  | .authenticating, .authenticated => some { c with pc := .connecting }
  | .authenticating, .connectFailed e => some (c.connectError e)
  | .connecting, .frame m => some (c.onReply m)
  | .connecting, .datagram _ => some c
  -- The login is checked before the connection is opened.
  | .connecting, .connectFailed e => if e = .notLoggedIn then none else some (c.connectError e)
  | .loggingIn, .loggedIn => some { c with pc := .authenticating }
  | .loggingIn, .loginFailed e => some (c.fail e)
  | .backoff, .wake => some { c with pc := .authenticating }
  | .resend _ rest, .sent => some (c.resendNext rest)
  | .resend .., .sendFailed => some c.disconnect
  | .select, .tick expired =>
    if quic then none else if expired then some c.disconnect else some { c with pc := .ping }
  | .ping, .sent => some { c with pc := .select }
  | .ping, .sendFailed => some c.disconnect
  | .select, .stdinData bytes =>
    if c.stdinOpen && 0 < bytes.length && bytes.length ≤ STDIO_BUF then
      some ({ c with trace := { c.trace with stdinRead := c.trace.stdinRead ++ bytes } }.sendStdin
        fun seq => .stdin seq bytes)
    else none
  | .select, .stdinEof =>
    if c.stdinOpen then some ({ c with stdinOpen := false }.sendStdin .stdinEof) else none
  | .select, .stdinError => if c.stdinOpen then some (c.fail .io) else none
  | .sendFresh m, .sent => some { c with sentStdin := c.sentStdin ++ [m], pc := .select }
  | .sendFresh _, .sendFailed => some c.disconnect
  | .select, .frame m => some (c.onMessage true m)
  | .select, .datagram m => some (c.onMessage false m)
  | .select, .badFrame => some (c.fail .protocol)
  | .select, .badDatagram => some c
  | .select, .disconnected => some c.disconnect
  | .writing stream rest, .wrote n =>
    if 0 < n && n ≤ rest.length then
      let pc : ClientPc := if n = rest.length then .flushing else .writing stream (rest.drop n)
      some { c with
        pc := pc
        trace := { c.trace with output := c.trace.output ++ (rest.take n).map (stream, ·) } }
    else none
  | .writing .., .writeFailed | .flushing, .writeFailed => some (c.fail .io)
  | .flushing, .flushed =>
    some { c with
      pc := .sendAck c.lastServerSeq
      trace := { c.trace with persisted := c.lastServerSeq, flushed := c.trace.output } }
  | .sendAck _, .sent | .sendAck _, .sendFailed => some { c with pc := .select }
  | .sendExitAck _ code, .sent | .sendExitAck _ code, .sendFailed =>
    some { c with pc := .returned (.ok code) }
  | _, _ => none

/-- The step at a known place, where it evaluates. -/
theorem step_of_pc {c : Client} {p : ClientPc} (hp : c.pc = p) (quic : Bool) (e : ClientEvent) :
    c.step quic e = ({ c with pc := p } : Client).step quic e := by
  subst hp
  rfl

/-! ## What a step can do -/

/-- Every step of `run_exec`, by where it was suspended and with the guard it passed. -/
inductive Step (quic : Bool) (c : Client) : ClientEvent → Client → Prop
  | authenticated (hp : c.pc = .authenticating) :
      Step quic c .authenticated { c with pc := .connecting }
  | authFailed {e : ClientError} (hp : c.pc = .authenticating) :
      Step quic c (.connectFailed e) (c.connectError e)
  | reply {m : Msg} (hp : c.pc = .connecting) : Step quic c (.frame m) (c.onReply m)
  | early {m : Msg} (hp : c.pc = .connecting) : Step quic c (.datagram m) c
  | connectFailed {e : ClientError} (hp : c.pc = .connecting) (he : e ≠ .notLoggedIn) :
      Step quic c (.connectFailed e) (c.connectError e)
  | loggedIn (hp : c.pc = .loggingIn) : Step quic c .loggedIn { c with pc := .authenticating }
  | loginFailed {e : ClientError} (hp : c.pc = .loggingIn) :
      Step quic c (.loginFailed e) (c.fail e)
  | wake (hp : c.pc = .backoff) : Step quic c .wake { c with pc := .authenticating }
  | resent {m : Msg} {rest : List Msg} (hp : c.pc = .resend m rest) :
      Step quic c .sent (c.resendNext rest)
  | resendFailed {m : Msg} {rest : List Msg} (hp : c.pc = .resend m rest) :
      Step quic c .sendFailed c.disconnect
  | expired (hp : c.pc = .select) (hq : quic = false) : Step quic c (.tick true) c.disconnect
  | tick (hp : c.pc = .select) (hq : quic = false) :
      Step quic c (.tick false) { c with pc := .ping }
  | pinged (hp : c.pc = .ping) : Step quic c .sent { c with pc := .select }
  | pingFailed (hp : c.pc = .ping) : Step quic c .sendFailed c.disconnect
  | stdinData {bytes : Data} (hp : c.pc = .select) (hopen : c.stdinOpen = true)
      (hpos : 0 < bytes.length) (hle : bytes.length ≤ STDIO_BUF) :
      Step quic c (.stdinData bytes)
        ({ c with trace := { c.trace with stdinRead := c.trace.stdinRead ++ bytes } }.sendStdin
          fun seq => .stdin seq bytes)
  | stdinEof (hp : c.pc = .select) (hopen : c.stdinOpen = true) :
      Step quic c .stdinEof ({ c with stdinOpen := false }.sendStdin .stdinEof)
  | stdinError (hp : c.pc = .select) (hopen : c.stdinOpen = true) :
      Step quic c .stdinError (c.fail .io)
  | freshSent {m : Msg} (hp : c.pc = .sendFresh m) :
      Step quic c .sent { c with sentStdin := c.sentStdin ++ [m], pc := .select }
  | freshFailed {m : Msg} (hp : c.pc = .sendFresh m) : Step quic c .sendFailed c.disconnect
  | frame {m : Msg} (hp : c.pc = .select) : Step quic c (.frame m) (c.onMessage true m)
  | datagram {m : Msg} (hp : c.pc = .select) : Step quic c (.datagram m) (c.onMessage false m)
  | badFrame (hp : c.pc = .select) : Step quic c .badFrame (c.fail .protocol)
  | badDatagram (hp : c.pc = .select) : Step quic c .badDatagram c
  | disconnected (hp : c.pc = .select) : Step quic c .disconnected c.disconnect
  | wrotePart {stream : Stream} {rest : Data} {n : Nat} (hp : c.pc = .writing stream rest)
      (hpos : 0 < n) (hn : n < rest.length) :
      Step quic c (.wrote n) { c with
        pc := .writing stream (rest.drop n)
        trace := { c.trace with output := c.trace.output ++ (rest.take n).map (stream, ·) } }
  | wroteAll {stream : Stream} {rest : Data} (hp : c.pc = .writing stream rest)
      (hpos : 0 < rest.length) :
      Step quic c (.wrote rest.length) { c with
        pc := .flushing
        trace := { c.trace with output := c.trace.output ++ rest.map (stream, ·) } }
  | writeFailed {stream : Stream} {rest : Data} (hp : c.pc = .writing stream rest) :
      Step quic c .writeFailed (c.fail .io)
  | flushFailed (hp : c.pc = .flushing) : Step quic c .writeFailed (c.fail .io)
  | flushed (hp : c.pc = .flushing) :
      Step quic c .flushed { c with
        pc := .sendAck c.lastServerSeq
        trace := { c.trace with persisted := c.lastServerSeq, flushed := c.trace.output } }
  | acked {seq : Nat} (hp : c.pc = .sendAck seq) : Step quic c .sent { c with pc := .select }
  | ackFailed {seq : Nat} (hp : c.pc = .sendAck seq) :
      Step quic c .sendFailed { c with pc := .select }
  | exitAcked {seq : Nat} {code : Int32} (hp : c.pc = .sendExitAck seq code) :
      Step quic c .sent { c with pc := .returned (.ok code) }
  | exitAckFailed {seq : Nat} {code : Int32} (hp : c.pc = .sendExitAck seq code) :
      Step quic c .sendFailed { c with pc := .returned (.ok code) }

theorem Step.of_step {quic : Bool} {c c' : Client} {e : ClientEvent}
    (h : c.step quic e = some c') : Step quic c e c' := by
  unfold step at h
  split at h
  · cases h; exact .authenticated ‹_›
  · cases h; exact .authFailed ‹_›
  · cases h; exact .reply ‹_›
  · cases h; exact .early ‹_›
  · split_ifs at h with he
    cases h; exact .connectFailed ‹_› he
  · cases h; exact .loggedIn ‹_›
  · cases h; exact .loginFailed ‹_›
  · cases h; exact .wake ‹_›
  · cases h; exact .resent ‹_›
  · cases h; exact .resendFailed ‹_›
  · rename_i expired hp
    split_ifs at h with hq he
    · cases h; rw [he]; exact .expired hp ((Bool.not_eq_true _).mp hq)
    · cases h
      rw [(Bool.not_eq_true _).mp he]
      exact .tick hp ((Bool.not_eq_true _).mp hq)
  · cases h; exact .pinged ‹_›
  · cases h; exact .pingFailed ‹_›
  · rename_i bytes hp
    simp only [Bool.and_eq_true, decide_eq_true_eq] at h
    split_ifs at h with hg
    cases h; exact .stdinData hp hg.1.1 hg.1.2 hg.2
  · split_ifs at h with hg
    cases h; exact .stdinEof ‹_› hg
  · split_ifs at h with hg
    cases h; exact .stdinError ‹_› hg
  · cases h; exact .freshSent ‹_›
  · cases h; exact .freshFailed ‹_›
  · cases h; exact .frame ‹_›
  · cases h; exact .datagram ‹_›
  · cases h; exact .badFrame ‹_›
  · cases h; exact .badDatagram ‹_›
  · cases h; exact .disconnected ‹_›
  · rename_i stream rest n hp
    simp only [Bool.and_eq_true, decide_eq_true_eq] at h
    split_ifs at h with hg hn
    · cases h
      subst hn
      rw [List.take_length]
      exact .wroteAll hp hg.1
    · cases h; exact .wrotePart hp hg.1 (by omega)
  · cases h; exact .writeFailed ‹_›
  · cases h; exact .flushFailed ‹_›
  · cases h; exact .flushed ‹_›
  · cases h; exact .acked ‹_›
  · cases h; exact .ackFailed ‹_›
  · cases h; exact .exitAcked ‹_›
  · cases h; exact .exitAckFailed ‹_›
  · cases h

end Client

end HerdrEternal
