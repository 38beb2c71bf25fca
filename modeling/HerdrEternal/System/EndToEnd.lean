import HerdrEternal.System.Delivery
import HerdrEternal.System.RestartGap

/-!
# From the command to the client's exit status

A resumable exec as a whole: the command and its pipes, the session that reads them, the daemon
that may be restarted, the connections, and the client that writes what it gets. The network side
is `Sys` and the host side is `Host`; the two share the session.

* A label of `Sys` runs the client, the connections, or a request from outside; of the session's
  task it only has the end of the queue, since everything else the task does is done to pipes.
* A label of `Host` runs the task on its pipes, the processes, the store, or restarts the daemon.
* When the daemon stops, its `attach` loops are gone. What they sent may still arrive. The
  listening sockets stay open, so the client may connect; its requests are read by the next daemon.

**Theorem (`end_to_end`).** In every reachable state, what the client wrote to a stream is what the
command wrote to it, up to some point. If `run_exec` returned a code, in a run in which the store
discarded no pipe end that had something left to say, then it wrote everything the command wrote,
the command's processes have left both streams, and the client exits with the command's status.

The invariant is that of `Delivered`, that of `Accounted`, and what a handover needs of both
(`Carried`).
-/

namespace HerdrEternal

open History Session

/-! ## The machine -/

/-- The server's end of a connection, when the daemon stops. -/
def Conn.cut (k : Conn) : Conn := { k with attach := k.attach.map Attach.return_ }

structure Deployed where
  token : String
  client : Client
  host : Host
  live : Conn
  stale : List Conn

/-- The client and its end of the live connection. -/
def Label.ofClient : Label → Bool
  | .client _ | .connect _ | .clientSent | .clientSendFailed _ | .clientRecv | .clientDatagram _ =>
    true
  | _ => false

/-- The task's steps that touch its pipes. -/
def Label.onHost : Label → Bool
  | .task e => e ≠ .recvNone
  | _ => false

/-- What reaches the session over connections. -/
def HostLabel.onNet : HostLabel → Bool
  | .input _ | .acked _ => true
  | _ => false

inductive WorldLabel where
  | net (l : Label)
  | host (l : HostLabel)
  deriving DecidableEq

namespace Deployed

/-- The network side. -/
def sys (w : Deployed) : Sys := ⟨w.token, w.client, w.host.session, w.live, w.stale⟩

def withSys (w : Deployed) (s : Sys) : Deployed :=
  { w with client := s.client, host := w.host.setSession s.session, live := s.live, stale := s.stale }

/-- No connection has a server any more. -/
def cut (w : Deployed) : Deployed := { w with live := w.live.cut, stale := w.stale.map Conn.cut }

def step (cap : Capacity) (w : Deployed) : WorldLabel → Option Deployed
  | .net l =>
    if l.onHost || (w.host.stopped && !l.ofClient) then none
    else (w.sys.step cap l).map w.withSys
  | .host l =>
    if l.onNet then none
    else (w.host.step w.token l).map fun x =>
      if l = .shutDown then { w with host := x }.cut else { w with host := x }

/-- The Exec request was accepted on a first connection. -/
def start (token : String) (tokenSource : TokenSource) (agent quic : Bool) (pgid : Int32)
    (cap : Role → Nat) : Deployed where
  token := token
  client := .start tokenSource
  host := .start agent pgid cap
  live := { Conn.open_ quic 0 with attach := some (.start token 0) }
  stale := []

/-- The runs of a resumable exec, through reconnects and restarts of the daemon. -/
def machine (cap : Capacity) : Machine Deployed WorldLabel where
  init w := ∃ token tokenSource agent quic pgid pipes,
    w = start token tokenSource agent quic pgid pipes
  step := step cap

/-! ## What a step can do -/

/-- Every step, by the side that took it. -/
inductive Step (cap : Capacity) (w : Deployed) : WorldLabel → Deployed → Prop
  | net {l : Label} {s : Sys} (hl : l.onHost = false)
      (hup : w.host.stopped = true → l.ofClient = true) (h : w.sys.step cap l = some s) :
      Step cap w (.net l) (w.withSys s)
  | host {l : HostLabel} {x : Host} (hl : l.onNet = false) (hne : l ≠ .shutDown)
      (h : Host.Step w.token w.host l x) : Step cap w (.host l) { w with host := x }
  | shutDown {x : Host} (h : Host.Step w.token w.host .shutDown x) :
      Step cap w (.host .shutDown) { w with host := x }.cut

theorem Step.of_step {cap : Capacity} {w w' : Deployed} {l : WorldLabel}
    (h : w.step cap l = some w') : Step cap w l w' := by
  cases l with
  | net l =>
    simp only [step, Bool.or_eq_true, Bool.and_eq_true, Bool.not_eq_true'] at h
    split_ifs at h with hg
    rw [not_or, not_and, Bool.not_eq_true, Bool.not_eq_false] at hg
    obtain ⟨s, hs, rfl⟩ := Option.map_eq_some_iff.mp h
    exact .net hg.1 hg.2 hs
  | host l =>
    simp only [step] at h
    split_ifs at h with hl hd
    · obtain ⟨x, hx, rfl⟩ := Option.map_eq_some_iff.mp h
      subst hd
      exact .shutDown (.of_step hx)
    · obtain ⟨x, hx, rfl⟩ := Option.map_eq_some_iff.mp h
      exact .host ((Bool.not_eq_true _).mp hl) hd (.of_step hx)

end Deployed

/-! ## What a step does to the session -/

/-- The session is touched from outside its task: inputs are queued, the log is trimmed, the token
is unregistered. -/
structure Session.Touched (s s' : Session) : Prop where
  task : s'.task = s.task
  trace : s'.trace = s.trace
  trimmed : s.Wf → s.log.trimmed ≤ s'.log.trimmed
  wf : s.Wf → s'.Wf

theorem Session.Touched.refl (s : Session) : s.Touched s := ⟨rfl, rfl, fun _ => le_rfl, id⟩

theorem Attach.Step.touched {q : Bool} {a a' : Attach} {s s' : Session} {e : AttachEvent}
    (h : a.Step q s e a' s') : s.Touched s' := by
  obtain ⟨htrace, htask, hlog⟩ := h.session
  refine ⟨htask, htrace, fun hwf => ?_, h.wf⟩
  rcases hlog with hlog | ⟨seq, -, hlog⟩
  · rw [hlog]
  · rw [hlog, hwf.logged.refines.trimmed_trim]
    exact le_max_left _ _

/-- A step of the network side touches the session, or ends the task's queue. -/
theorem Sys.step_session {cap : Capacity} {s s' : Sys} {l : Label} (hl : l.onHost = false)
    (h : s.step cap l = some s') :
    s.session.Touched s'.session ∨ s.session.taskStep .recvNone = some s'.session := by
  cases Sys.Step.of_step h with
  | @task e session hg ht =>
    have he : e = .recvNone := by simpa [Label.onHost] using hl
    exact .inr (he ▸ ht)
  | accept => exact .inl (by rw [setConn_session]; exact .refl _)
  | attachPong => exact .inl (by rw [setConn_session]; exact .refl _)
  | attach _ _ _ hs => exact .inl (by rw [withAttach_session]; exact hs.touched)
  | attachSent _ _ _ _ hs => exact .inl (by rw [withAttach_session]; exact hs.touched)
  | attachSendLate _ _ _ _ hs => exact .inl (by rw [withAttach_session]; exact hs.touched)
  | attachSendLost _ _ _ hs => exact .inl (by rw [withAttach_session]; exact hs.touched)
  | attachRecv _ _ _ hs => exact .inl (by rw [withAttach_session]; exact hs.touched)
  | attachDatagram _ _ _ hs => exact .inl (by rw [withAttach_session]; exact hs.touched)
  | unregister => exact .inl ⟨rfl, rfl, fun _ => le_rfl, (·.unregister)⟩
  | abort => exact .inl ⟨rfl, rfl, fun _ => le_rfl, (·.enqueue _)⟩
  | handover => exact .inl ⟨rfl, rfl, fun _ => le_rfl, (·.enqueue _)⟩
  | _ => exact .inl (.refl _)

namespace Host

variable {token : String} {x y : Host} {l : HostLabel}

/-- A step of the host side leaves the session alone, is a step of its task, or restores it. -/
theorem Step.session (h : Step token x l y) (hl : l.onNet = false) :
    y.session = x.session ∨ (∃ e, x.session.taskStep e = some y.session) ∨
      ∃ r, x.session.replied = some r ∧ y.session = restoreSession x.session.trace
        (fdFor x.store token) { r.state with forwardAgent := x.session.agent } := by
  cases h with
  | readData _ _ hs => exact .inr (.inl ⟨_, hs⟩)
  | readEof _ hs => exact .inr (.inl ⟨_, hs⟩)
  | exitData _ _ hs => exact .inr (.inl ⟨_, hs⟩)
  | exitEof _ hs => exact .inr (.inl ⟨_, hs⟩)
  | recv hs => exact .inr (.inl ⟨_, hs⟩)
  | write _ _ _ hs => exact .inr (.inl ⟨_, hs⟩)
  | writeFail _ hs => exact .inr (.inl ⟨_, hs⟩)
  | reaped _ hs => exact .inr (.inl ⟨_, hs⟩)
  | input => cases hl
  | acked => cases hl
  | @childClose role => cases role <;> exact .inl rfl
  | restart hr => exact .inr (.inr ⟨_, hr, rfl⟩)
  | _ => exact .inl rfl

/-- What the command wrote was read by the task or is still in the pipe, whatever the store does. -/
def Conserved (x : Host) : Prop :=
  ∀ stream, bytesOf stream x.written =
    bytesOf stream x.session.io.read ++ (x.pipes stream.role).bytes

/-- Nothing is written or read, and no output pipe changes its content. -/
theorem Conserved.frame (h : Conserved x) (hread : y.session.io.read = x.session.io.read)
    (hpipes : ∀ stream : Stream, (y.pipes stream.role).bytes = (x.pipes stream.role).bytes)
    (hwritten : y.written = x.written) : Conserved y := by
  intro stream
  rw [hwritten, hread, hpipes, h]

theorem Conserved.step (h : Conserved x) (hs : Step token x l y) : Conserved y := by
  -- Pipes of other roles do not count.
  have hother : ∀ {role : Role} {p : Pipe}, role = .stdin ∨ role = .exit →
      ∀ stream : Stream, ((x.setPipe role p).pipes stream.role).bytes =
        (x.pipes stream.role).bytes := by
    rintro role p (rfl | rfl) stream
    · rw [pipes_setPipe_of_ne stream.role_ne_stdin]
    · rw [pipes_setPipe_of_ne stream.exit_ne_role.symm]
  cases hs with
  | @readData stream s _ _ hs =>
    intro stream'
    have hread : s.io.read = x.session.io.read ++
        ((x.pipes stream.role).bytes.take STDIO_BUF).map (stream, ·) := by
      rw [io_taskStep hs]
      rfl
    show bytesOf stream' x.written = bytesOf stream' s.io.read ++ _
    rw [h, hread, bytesOf_append, bytesOf_tagged, pipes_setSession]
    by_cases heq : stream = stream'
    · subst heq
      rw [if_pos rfl, pipes_setPipe_self, List.append_assoc, List.take_append_drop]
    · rw [if_neg heq, List.append_nil,
        pipes_setPipe_of_ne (Stream.role_injective.ne (Ne.symm heq))]
  | readEof _ hs => exact h.frame ((congrArg Io.read (io_taskStep hs)).trans rfl) (fun _ => rfl) rfl
  | exitData _ _ hs =>
    exact h.frame ((congrArg Io.read (io_taskStep hs)).trans rfl) (hother (.inr rfl)) rfl
  | exitEof _ hs => exact h.frame ((congrArg Io.read (io_taskStep hs)).trans rfl) (fun _ => rfl) rfl
  | recv hs => exact h.frame (congrArg Io.read (io_taskStep hs)) (fun _ => rfl) rfl
  | write _ _ _ hs =>
    exact h.frame (congrArg Io.read (io_taskStep hs)) (hother (.inl rfl)) rfl
  | writeFail _ hs => exact h.frame (congrArg Io.read (io_taskStep hs)) (fun _ => rfl) rfl
  | reaped _ hs => exact h.frame (congrArg Io.read (io_taskStep hs)) (fun _ => rfl) rfl
  | childRead => exact h.frame rfl (hother (.inl rfl)) rfl
  | @childWrote stream n =>
    intro stream'
    show bytesOf stream' (x.written ++ _) = bytesOf stream' x.session.io.read ++
      (Pipe.bytes ((x.setPipe _ _).pipes stream'.role))
    rw [bytesOf_append, bytesOf_tagged, h]
    by_cases heq : stream = stream'
    · subst heq
      rw [if_pos rfl, pipes_setPipe_self, List.append_assoc]
      rfl
    · rw [if_neg heq, List.append_nil,
        pipes_setPipe_of_ne (Stream.role_injective.ne (Ne.symm heq))]
  | @childClose role hrole =>
    refine h.frame ?_ (fun stream => ?_) ?_
    · cases role <;> rfl
    · have hpipes : ((x.setPipe role (x.pipes role).hangUp).childLeaves role).pipes =
          (x.setPipe role (x.pipes role).hangUp).pipes := by cases role <;> rfl
      rw [hpipes]
      by_cases heq : stream.role = role
      · subst heq
        rw [pipes_setPipe_self]
        rfl
      · rw [pipes_setPipe_of_ne heq]
    · cases role <;> rfl
  | finish => exact h.frame rfl (hother (.inr rfl)) rfl
  | kill => exact h.frame rfl (hother (.inr rfl)) rfl
  | _ => exact h.frame rfl (fun _ => rfl) rfl

end Host

/-! ## The invariant -/

theorem Session.Touched.replied {s s' : Session} (h : s.Touched s') : s'.replied = s.replied := by
  unfold Session.replied
  rw [h.task]

theorem Session.Touched.io {s s' : Session} (h : s.Touched s') : s'.io = s.io := by
  unfold Session.io Session.streamOpen
  rw [h.task, h.trace]

/-- The invariant of `Sys` when the connections lose their server. -/
theorem Sys.Delivered.cut {w : Deployed} (h : w.sys.Delivered) : w.cut.sys.Delivered := by
  refine ⟨h.wf, h.received, h.buffers, ?_, h.trimmed_le, ?_⟩
  · intro k hk
    rcases List.mem_cons.mp hk with rfl | hk
    · exact h.acks w.live (List.mem_cons_self ..)
    · obtain ⟨k', hk', rfl⟩ := List.mem_map.mp hk
      exact h.acks k' (List.mem_cons_of_mem _ hk')
  · intro hatt
    have hlive : Relays w.host.session.trace.pushed w.client.lastServerSeq w.live := h.live hatt
    show Relays w.host.session.trace.pushed w.client.lastServerSeq w.live.cut
    cases ha : w.live.attach with
    | none =>
      simp only [Relays, Conn.cut, ha] at hlive ⊢
      exact hlive
    | some a =>
      simp only [Relays, Conn.cut, ha] at hlive ⊢
      exact hlive.return_

/-- The invariant of `Sys` when its session is replaced by one with the same history. -/
theorem Sys.Delivered.replace {s : Sys} {session : Session} (h : s.Delivered) (hwf : session.Wf)
    (htrace : session.trace = s.session.trace) (htrim : session.log.trimmed ≤ s.session.log.trimmed) :
    Sys.Delivered { s with session := session } :=
  ⟨hwf, by rw [htrace]; exact h.received, h.buffers, h.acks, htrim.trans h.trimmed_le,
    by rw [htrace]; exact h.live⟩

namespace Deployed

variable {cap : Capacity} {w w' : Deployed} {l : WorldLabel}

/-- The invariant of every run. A reply holds a log that was not trimmed further than the one that
is left behind. -/
structure Carried (w : Deployed) : Prop where
  delivered : w.sys.Delivered
  ok : w.host.Ok w.token
  reply : ∀ r, w.host.session.replied = some r → r.state.trimmed ≤ w.host.session.log.trimmed
  conserved : w.host.Conserved

theorem carried_start (token : String) (tokenSource : TokenSource) (agent quic : Bool)
    (pgid : Int32) (pipes : Role → Nat) :
    Carried (start token tokenSource agent quic pgid pipes) where
  delivered := Sys.delivered_start token tokenSource agent quic ..
  ok := Host.ok_start _ _ _
  reply := fun _ h => by cases h
  conserved := fun _ => rfl

/-- A step of the task. The reply of a task that gives one is its log as it is. -/
theorem replied_le {s s' : Session} {e : TaskEvent} (hs : s.taskStep e = some s')
    {r : SessionHandover} (hr : s'.replied = some r) : r.state.trimmed ≤ s'.log.trimmed := by
  obtain ⟨-, -, -, rfl⟩ := taskStep_replied hs hr
  exact le_rfl

theorem Carried.net (h : Carried w) {l : Label} {s : Sys} (hl : l.onHost = false)
    (hs : w.sys.step cap l = some s) : Carried (w.withSys s) := by
  have hdel : (w.withSys s).sys.Delivered :=
    have hs := h.delivered.step hs
    ⟨hs.wf, hs.received, hs.buffers, hs.acks, hs.trimmed_le, hs.live⟩
  rcases Sys.step_session hl hs with ht | ht
  · refine ⟨hdel, ?_, ?_, ?_⟩
    · exact h.ok.frame hdel.wf ht.task ht.trace rfl h.ok.named
    · intro r hr
      exact (h.reply r (ht.replied ▸ hr)).trans (ht.trimmed h.delivered.wf)
    · exact h.conserved.frame (congrArg Io.read ht.io) (fun _ => rfl) rfl
  · refine ⟨hdel, h.ok.task ht rfl rfl rfl, fun r hr => replied_le ht hr, ?_⟩
    exact h.conserved.frame (congrArg Io.read (io_taskStep ht)) (fun _ => rfl) rfl

theorem Carried.host (h : Carried w) {l : HostLabel} {x : Host} (hl : l.onNet = false)
    (hs : Host.Step w.token w.host l x) : Carried { w with host := x } := by
  have hok := h.ok.step hs
  have hcons := h.conserved.step hs
  rcases hs.session hl with heq | ⟨e, ht⟩ | ⟨r, hr, heq⟩
  · refine ⟨?_, hok, heq ▸ h.reply, hcons⟩
    have hsys : ({ w with host := x } : Deployed).sys = w.sys := by
      unfold sys
      rw [heq]
    exact hsys ▸ h.delivered
  · exact ⟨h.delivered.session hok.wf (.taskStep ht), hok, fun r hr => replied_le ht hr, hcons⟩
  · refine ⟨h.delivered.replace hok.wf (by rw [heq]; rfl) ?_, hok, ?_, hcons⟩
    · rw [heq]
      exact h.reply r hr
    · intro r' hr'
      rw [heq] at hr'
      cases hr'

theorem Carried.step (h : Carried w) (hs : Step cap w l w') : Carried w' := by
  cases hs with
  | net hl _ hs => exact h.net hl hs
  | host hl _ hs => exact h.host hl hs
  | shutDown hs =>
    have h' := h.host rfl hs
    exact ⟨h'.delivered.cut, h'.ok, h'.reply, h'.conserved⟩

theorem carried_under {C : Deployed → WorldLabel → Prop} (h : (machine cap).Under C w) : Carried w := by
  refine h.invariant ?_ fun _ _ _ hc _ hs => hc.step (Step.of_step hs)
  rintro w ⟨token, tokenSource, agent, quic, pgid, pipes, rfl⟩
  exact carried_start ..

/-! ## The store loses nothing -/

/-- While the daemon is down, the store discards a pipe end only if nothing is lost with it. -/
def DiscardsSpent (w : Deployed) (l : WorldLabel) : Prop :=
  ∀ role, l = .host (.discard role) → w.host.stopped = true → w.host.Spent role

theorem accounted_step (hc : Carried w) (h : w.host.Accounted w.token) (hd : DiscardsSpent w l)
    (hs : Step cap w l w') : w'.host.Accounted w'.token := by
  cases hs with
  | @net l s hl _ hs =>
    have hok : (w.host.setSession s.session).Ok w.token := (hc.net hl hs).ok
    have hio : s.session.io = w.host.session.io := by
      rcases Sys.step_session hl hs with ht | ht
      · exact ht.io
      · exact io_taskStep ht
    exact h.frame hok hio (fun _ _ => rfl) rfl rfl rfl rfl
  | host _ _ hs => exact h.step (fun role he => hd role (congrArg _ he)) hs
  | shutDown hs => exact h.step (fun _ he => by cases he) hs

theorem accounted_under (h : (machine cap).Under DiscardsSpent w) :
    w.host.Accounted w.token := by
  have hinv : Carried w ∧ w.host.Accounted w.token := by
    refine h.invariant (P := fun w => Carried w ∧ w.host.Accounted w.token) ?_ ?_
    · rintro w ⟨token, tokenSource, agent, quic, pgid, pipes, rfl⟩
      exact ⟨carried_start .., Host.accounted_start _ _ _⟩
    · rintro w l w' ⟨hc, ha⟩ hd hs
      exact ⟨hc.step (Step.of_step hs), accounted_step hc ha hd (Step.of_step hs)⟩
  exact hinv.2

end Deployed

/-! ## The exit status -/

/-- The status `main` of the client ends with, given what `run` returned. -/
def exitStatus : Except ClientError Int32 → UInt8
  | .ok code => UInt8.ofNat (max 0 (min 255 code.toInt)).toNat
  | .error _ => 1

/-- The status of the command, as a shell reports it; 255 if its wrapper was killed. -/
def Wrapper.status : Wrapper → Option UInt8
  | .running => none
  | .finished code => some code
  | .killed => some 255

theorem exitStatus_ofNat (code : UInt8) : exitStatus (.ok (Int32.ofNat code.toNat)) = code := by
  have hlt := code.toNat_lt
  have hint : (Int32.ofNat code.toNat).toInt = code.toNat := by
    rw [Int32.toInt_ofNat_of_lt (by omega)]
  have hclamp : (max 0 (min 255 (code.toNat : Int))).toNat = code.toNat := by omega
  rw [exitStatus, hint, hclamp, UInt8.ofNat_toNat]

/-- The client reports the status of the command. -/
theorem Wrapper.status_of_code {w : Wrapper} {code : Int32} (h : w.code = some code) :
    w.status = some (exitStatus (.ok code)) := by
  cases w with
  | running => cases h
  | finished code' =>
    cases h
    exact congrArg some (exitStatus_ofNat code').symm
  | killed =>
    cases h
    exact congrArg some (by decide)

/-! ## End to end -/

namespace Deployed

variable {cap : Capacity} {w : Deployed}

/-- The client wrote all the command's output, nobody is left to write more, and the client's
status is the command's. -/
structure Complete (w : Deployed) (code : Int32) : Prop where
  output : ∀ stream, bytesOf stream w.client.trace.output = bytesOf stream w.host.written
  flushed : ∀ stream, bytesOf stream w.client.trace.flushed = bytesOf stream w.host.written
  left : ∀ stream : Stream, (w.host.pipes stream.role).held = false
  status : w.host.wrapper.status = some (exitStatus (.ok code))

/-- **End to end**, over connections of any capacity, pipes of any capacity, any number of
reconnects and any number of restarts of the daemon:

* in every reachable state the client wrote a prefix of what the command wrote, on each stream,
* when it returns a code, and the store discarded no pipe end that had something left to say, it
  wrote and flushed everything the command wrote or will write, and ends with its status. -/
theorem end_to_end {cap : Capacity} :
    (∀ w, (machine cap).Reachable w → ∀ stream,
      bytesOf stream w.client.trace.output <+: bytesOf stream w.host.written) ∧
    ∀ w code, (machine cap).Under DiscardsSpent w → w.client.pc = .returned (.ok code) →
      Complete w code := by
  refine ⟨fun w h stream => ?_, fun w code h hp => ?_⟩
  · have hinv := carried_under h
    have hread : outputs w.host.session.trace.pushed = w.host.session.io.read :=
      hinv.delivered.wf.logged.read_eq
    rw [hinv.conserved, ← hread]
    exact (bytesOf_mono hinv.delivered.received.output_le).trans (List.prefix_append _ _)
  · have hinv := (carried_under h).delivered
    have hacc := accounted_under h
    have hexited : Client.Exited w.host.session.trace.pushed w.client.lastServerSeq w.client.trace
        code := hinv.received.of_pc hp
    obtain ⟨hcode, hlast, -, hstdout, hstderr⟩ := hinv.wf.exit_last hexited.exit_entry
    have hspent : ∀ stream : Stream, w.host.Spent stream.role := by
      intro stream
      refine hacc.closed stream ?_
      cases stream
      · exact hstdout
      · exact hstderr
    have hall : w.client.trace.output = w.host.session.trace.read := by
      have hread : outputs w.host.session.trace.pushed = w.host.session.trace.read :=
        hinv.wf.logged.read_eq
      rw [hexited.output_eq, ← hread]
      conv_rhs => rw [show w.host.session.trace.pushed = _ from hlast, outputs_append]
      simp [outputs, ChannelMessage.output, sys]
    have hout : ∀ stream, bytesOf stream w.client.trace.output = bytesOf stream w.host.written := by
      intro stream
      rw [hacc.bytes, (Host.spent_output.mp (hspent stream)).1, List.append_nil, hall]
      rfl
    refine ⟨hout, fun stream => ?_, fun stream => (Host.spent_output.mp (hspent stream)).2, ?_⟩
    · rw [hexited.flushed_eq]
      exact hout stream
    · exact Wrapper.status_of_code (hacc.exit.code code hcode)

/-- A fresh exec over a WebSocket connection. -/
def fresh : Deployed := start "t" .static false false 7 fun _ => 4

/-- A byte goes all the way to the client; then the daemon is asked for the session, and stops. -/
def firstDaemon : List WorldLabel :=
  [.net (.attachSent .live), .net .clientRecv, .host (.childWrite .out [104]),
   .host (.childWrote .out 1), .host (.read .out), .net (.attach .live .snapshot),
   .net (.attachSent .live), .net .clientRecv, .net (.client (.wrote 1)), .net (.client .flushed),
   .net .clientSent, .net (.attachRecv .live), .net .handover, .host .recv, .net .unregister,
   .host .shutDown]

/-- The command writes another byte and fails with code 42 while the client reconnects. -/
def noDaemon : List WorldLabel :=
  [.host (.childWrite .err [33]), .host (.childWrote .err 1), .host (.finish 42),
   .host (.childClose .stdin), .host (.childClose .stdout), .host (.childClose .stderr),
   .net (.client .disconnected), .net (.client .wake), .net (.connect true)]

/-- The next daemon takes the session up, and the client sees it to its end. -/
def nextDaemon : List WorldLabel :=
  [.host .restart, .net (.accept .live), .net (.attachSent .live), .net (.attach .live .snapshot),
   .net .clientRecv, .host (.read .err), .net (.attach .live .changed),
   .net (.attach .live .snapshot), .net (.attachSent .live), .net .clientRecv,
   .net (.client (.wrote 1)), .net (.client .flushed), .net .clientSent, .host (.read .out),
   .host (.read .err), .host .readExit, .net (.attachRecv .live), .net (.attach .live .snapshot),
   .net (.attachSent .live), .net .clientRecv, .net .clientSent]

def afterRestart : Deployed :=
  ((machine ⟨4, 4⟩).run fresh (firstDaemon ++ noDaemon ++ nextDaemon)).get (by decide)

theorem under_afterRestart : (machine ⟨4, 4⟩).Under DiscardsSpent afterRestart := by
  refine Machine.under_of_run (s := fresh) (ℓ := WorldLabel) (.init ?_) ?_ (Option.some_get _).symm
  · exact ⟨"t", .static, false, false, 7, fun _ => 4, rfl⟩
  · intro s l hl role heq
    exact absurd (heq ▸ hl) (by cases role <;> decide)

theorem afterRestart_complete :
    (machine ⟨4, 4⟩).Under DiscardsSpent afterRestart ∧
    afterRestart.client.pc = .returned (.ok 42) ∧ Complete afterRestart 42 ∧
    bytesOf .err afterRestart.client.trace.output = [33] ∧
    bytesOf .out afterRestart.client.trace.output <+: bytesOf .out afterRestart.host.written := by
  have hunder := under_afterRestart
  have hok : afterRestart.client.pc = .returned (.ok 42) := by decide
  exact ⟨hunder, hok, end_to_end.2 _ 42 hunder hok, by decide,
    end_to_end.1 _ hunder.reachable .out⟩

end Deployed

end HerdrEternal
