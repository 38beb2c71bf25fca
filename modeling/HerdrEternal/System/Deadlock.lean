import HerdrEternal.Server.TaskIo
import HerdrEternal.System.Duplex

/-!
# Two ends that both send

Both loops of a connection stop reading while they send, and neither looks at its keepalive timer
then. With both channels full, two sends wait for each other.

* `load_le_traffic`: whatever is in the channels or in the hands of one of the two ends goes back
  to a message of its own that has started on the connection.
* `not_deadlocked_of_load`: so a deadlock takes a load that does not fit, also after a long life.
* `Deadlocked.forever`: a deadlock stays.
* `deadlock_free_iff`: a connection of given capacities cannot deadlock as long as no more messages
  have started on it than fit the two channels, and one more. With any more it can.
-/

namespace HerdrEternal

/-- A step of one of the two ends. -/
def DuplexLabel.isEnd : DuplexLabel → Bool
  | .task _ => false
  | _ => true

namespace Duplex

/-- Both ends are in a send, and neither channel has room. -/
def Deadlocked (cap : Capacity) (x : Duplex) : Prop :=
  x.client.sending.isSome = true ∧ (x.attach.sending x.session).isSome = true ∧
    cap.c2s ≤ x.c2s.length ∧ cap.s2c ≤ x.s2c.length

end Duplex

/-! ## The load of a connection -/

/-- A message in the client's hands: to be sent, or being written out. -/
def Client.load (c : Client) : Nat :=
  match c.pc with
  | .resend .. | .sendFresh _ | .ping | .sendAck _ | .sendExitAck .. | .writing .. | .flushing => 1
  | _ => 0

/-- Before the client has read `Started` that message is extra, and after the client is gone
nothing matters any more. -/
def Client.slack (c : Client) : Nat :=
  match c.pc with
  | .authenticating | .connecting | .loggingIn | .backoff | .returned _ => 1
  | _ => 0

def Attach.load (a : Attach) : Nat :=
  match a.pc with
  | .sendStarted | .replay .. | .sendAck | .ping => 1
  | _ => 0

namespace Client

variable {q : Bool} {c c' : Client} {e : ClientEvent}

theorem load_le_one (c : Client) : c.load ≤ 1 := by
  unfold load
  split <;> omega

theorem slack_le_one (c : Client) : c.slack ≤ 1 := by
  unfold slack
  split <;> omega

/-- A client that leaves has nothing in its hands. -/
theorem load_gone (h : c'.pc = .backoff ∨ c'.pc = .loggingIn ∨ ∃ r, c'.pc = .returned r) :
    c'.load = 0 ∧ c'.slack = 1 := by
  unfold load slack
  rcases h with hp | hp | ⟨r, hp⟩ <;> rw [hp] <;> exact ⟨rfl, rfl⟩

theorem gone_fail (c : Client) (e : ClientError) : (c.fail e).load = 0 ∧ (c.fail e).slack = 1 :=
  load_gone (.inr (.inr ⟨_, rfl⟩))

theorem gone_connectError (c : Client) (e : ClientError) :
    (c.connectError e).load = 0 ∧ (c.connectError e).slack = 1 := by
  unfold connectError
  split
  · split
    · exact gone_fail _ _
    · exact load_gone (.inr (.inl rfl))
  · exact gone_fail _ _
  · split_ifs
    · exact load_gone (.inl rfl)
    · exact gone_fail _ _

theorem gone_disconnect (c : Client) : c.disconnect.load = 0 ∧ c.disconnect.slack = 1 := by
  unfold disconnect
  split_ifs
  · exact load_gone (.inl rfl)
  · exact gone_fail _ _

/-- A client without a connection has nothing to send. -/
theorem sending_of_slack (h : c.slack = 1) : c.sending = none := by
  unfold slack at h
  unfold sending
  split at h <;> simp_all

theorem load_resendNext (c : Client) (l : List Msg) :
    (c.resendNext l).load = (c.resendNext l).originates ∧ (c.resendNext l).slack = 0 := by
  cases l <;> exact ⟨rfl, rfl⟩

/-- A send that is suspended only waits for the connection. -/
theorem Step.of_sending (h : c.Step q e c') (hs : c.sending.isSome = true) :
    e = .sent ∨ e = .sendFailed := by
  unfold sending at hs
  cases h with
  | resent hp => exact .inl rfl
  | pinged hp => exact .inl rfl
  | freshSent hp => exact .inl rfl
  | acked hp => exact .inl rfl
  | exitAcked hp => exact .inl rfl
  | resendFailed hp => exact .inr rfl
  | pingFailed hp => exact .inr rfl
  | freshFailed hp => exact .inr rfl
  | ackFailed hp => exact .inr rfl
  | exitAckFailed hp => exact .inr rfl
  | _ => simp [*] at hs

/-- What the client does by itself adds to its load only what starts there. -/
theorem Step.load_own (h : c.Step q e c') (he : e.isOwn = true) :
    c.slack + c'.load ≤ c.load + c'.originates + c'.slack := by
  have hgone : c'.load = 0 ∧ c'.slack = 1 →
      c.slack + c'.load ≤ c.load + c'.originates + c'.slack := by
    rintro ⟨hl, hs⟩
    have := c.slack_le_one
    omega
  have hfrom : ∀ {p : ClientPc}, c.pc = p → { c with pc := p }.slack + c'.load ≤
      { c with pc := p }.load + c'.originates + c'.slack →
        c.slack + c'.load ≤ c.load + c'.originates + c'.slack := by
    rintro p rfl h
    exact h
  cases h with
  | authFailed => exact hgone (gone_connectError _ _)
  | connectFailed => exact hgone (gone_connectError _ _)
  | expired => exact hgone (gone_disconnect _)
  | stdinError => exact hgone (gone_fail _ _)
  | writeFailed => exact hgone (gone_fail _ _)
  | flushFailed => exact hgone (gone_fail _ _)
  | tick hp => exact hfrom hp le_rfl
  | stdinData hp => exact hfrom hp le_rfl
  | stdinEof hp => exact hfrom hp le_rfl
  | wrotePart hp => exact hfrom hp le_rfl
  | wroteAll hp => exact hfrom hp le_rfl
  | flushed hp => exact hfrom hp le_rfl
  | _ => cases he

/-- Without the reply the client gets no further by itself. -/
theorem Step.slack_own (h : c.Step q e c') (he : e.isOwn = true) (hs : c.slack = 1) :
    c'.slack = 1 := by
  unfold slack at hs
  cases h with
  | authFailed => exact (gone_connectError _ _).2
  | connectFailed => exact (gone_connectError _ _).2
  | authenticated => cases he
  | reply => cases he
  | early => cases he
  | loggedIn => cases he
  | loginFailed => cases he
  | wake => cases he
  | _ => simp [*] at hs

theorem Step.slack_datagram {m : Msg} (h : c.Step q (.datagram m) c') (hs : c.slack = 1) :
    c'.slack = 1 := by
  cases h with
  | early hp => exact hs
  | datagram hp =>
    unfold slack at hs
    simp [hp] at hs

/-- A message that is sent leaves the client's hands. -/
theorem Step.load_sent (h : c.Step q .sent c') :
    c.slack + c'.load + 1 ≤ c.load + c'.originates + c'.slack := by
  have hfrom : ∀ {p : ClientPc}, c.pc = p → { c with pc := p }.slack + c'.load + 1 ≤
      { c with pc := p }.load + c'.originates + c'.slack →
        c.slack + c'.load + 1 ≤ c.load + c'.originates + c'.slack := by
    rintro p rfl h
    exact h
  cases h with
  | resent hp =>
    refine hfrom hp ?_
    obtain ⟨hl, hs⟩ := c.load_resendNext _
    rw [hl, hs]
    show 0 + _ + 1 ≤ 1 + _ + 0
    omega
  | pinged hp => exact hfrom hp le_rfl
  | freshSent hp => exact hfrom hp le_rfl
  | acked hp => exact hfrom hp le_rfl
  | exitAcked hp => exact hfrom hp (Nat.le_succ _)

theorem load_onMessage (hp : c.pc = .select) (reliable : Bool) (m : Msg) :
    c.slack + (c.onMessage reliable m).load ≤ 1 := by
  have hload := load_le_one (c.onMessage reliable m)
  have hslack : c.slack = 0 := by
    unfold slack
    rw [hp]
  omega

/-- A message that is received is at most in the client's hands. -/
theorem Step.load_frame {m : Msg} (h : c.Step q (.frame m) c') :
    c.slack + c'.load ≤ c.load + c'.originates + c'.slack + 1 := by
  have hslack := c.slack_le_one
  cases h with
  | reply hp =>
    unfold onReply
    split
    · rename_i token
      dsimp only
      rw [(load_resendNext { c with resumeToken := c.resumeToken <|> token } _).1]
      omega
    · rename_i reason
      rw [(c.gone_connectError (.denied reason)).1]
      omega
    · rw [(c.gone_connectError .connectionClosed).1]
      omega
  | frame hp =>
    have := load_onMessage hp true m
    omega

theorem Step.load_datagram {m : Msg} (h : c.Step q (.datagram m) c') :
    c.slack + c'.load ≤ c.load + c'.originates + c'.slack + 1 := by
  cases h with
  | early hp => omega
  | datagram hp =>
    have := load_onMessage hp false m
    omega

end Client

/-! ### The session -/

namespace Session

variable {s s' : Session}

theorem load_enqueue (s : Session) (input : SessionInput) :
    (s.enqueue input).load = s.load + if input.carriesStdin then 1 else 0 := by
  unfold load enqueue
  simp only [List.countP_append, List.countP_singleton]
  omega

theorem load_detach (s : Session) : s.detach.load = s.load := by
  unfold detach
  split_ifs
  · rfl
  · exact load_enqueue _ _

theorem stdinApplied_detach (s : Session) : s.detach.stdinApplied = s.stdinApplied := by
  unfold detach
  split_ifs <;> rfl

theorem owes_le_one (s : Session) (n : Nat) : s.owes n ≤ 1 := by
  unfold owes
  split_ifs <;> omega

theorem owes_congr (h : s'.stdinApplied = s.stdinApplied) (n : Nat) : s'.owes n = s.owes n := by
  unfold owes
  rw [h]

theorem owes_trimLog (s : Session) (seq n : Nat) : (s.trimLog seq).owes n = s.owes n := rfl

theorem owes_enqueue (s : Session) (input : SessionInput) (n : Nat) :
    (s.enqueue input).owes n = s.owes n := rfl

theorem load_of_atRest (h : AtRest s) : s.load = s.inbound.countP (·.carriesStdin) := by
  unfold load
  split
  · exact absurd ‹_› (h.1 _)
  · rfl

/-- The end of the loop body leaves the queue and the published number alone. -/
theorem load_endOfLoop (s : Session) (n : Nat) :
    s.endOfLoop.load + s.endOfLoop.owes n = s.inbound.countP (·.carriesStdin) + s.owes n := by
  rw [load_of_atRest (atRest_endOfLoop s)]
  rcases s.endOfLoop_cases with heq | ⟨code, -, -, -, heq⟩
  · rw [heq]
    rfl
  · rw [heq]
    rfl

/-- Publishing a number may make an acknowledgement due. -/
theorem load_finishWrite (s : Session) (n : Nat) :
    s.finishWrite.load + s.finishWrite.owes n ≤ s.inbound.countP (·.carriesStdin) + 1 := by
  unfold finishWrite
  rw [load_endOfLoop]
  exact Nat.add_le_add_left (owes_le_one _ _) _

theorem load_applyStdin (s : Session) (seq : Nat) (data : Data) (n : Nat) :
    (s.applyStdin seq data).load + (s.applyStdin seq data).owes n ≤
      s.inbound.countP (·.carriesStdin) + s.owes n + 1 := by
  unfold applyStdin
  dsimp only
  split_ifs
  · have := load_finishWrite (s.setTask { s.task with lastClientSeq := seq }) n
    exact this.trans (by simp only [setTask]; omega)
  · show s.inbound.countP (·.carriesStdin) + 1 + s.owes n ≤ _
    omega

theorem load_applyEof (s : Session) (seq : Nat) (n : Nat) :
    (s.applyEof seq).load + (s.applyEof seq).owes n ≤ s.inbound.countP (·.carriesStdin) + 1 := by
  unfold applyEof
  dsimp only
  rw [load_endOfLoop]
  exact Nat.add_le_add_left (owes_le_one _ _) _

theorem load_onInput (s : Session) (input : SessionInput) (n : Nat) :
    (s.onInput input).load + (s.onInput input).owes n ≤
      s.inbound.countP (·.carriesStdin) + s.owes n + if input.carriesStdin then 1 else 0 := by
  have hend : ∀ k, s.endOfLoop.load + s.endOfLoop.owes n ≤
      s.inbound.countP (·.carriesStdin) + s.owes n + k := by
    intro k
    rw [load_endOfLoop]
    exact Nat.le_add_right _ _
  unfold onInput
  split
  · split
    · exact load_applyStdin _ _ _ _
    · exact hend _
  · split
    · exact load_applyStdin _ _ _ _
    · exact hend _
  · exact hend _
  · split
    · exact (load_applyEof _ _ _).trans (by simp only [SessionInput.carriesStdin, if_true]; omega)
    · exact hend _
  · exact hend _
  · exact le_rfl
  · show s.abort.load + s.owes n ≤ _
    rw [load_of_atRest (atRest_abort s)]
    exact le_rfl

theorem load_onOutput (s : Session) (stream : Stream) (r : ReadResult) (n : Nat) :
    (s.onOutput stream r).load + (s.onOutput stream r).owes n =
      s.inbound.countP (·.carriesStdin) + s.owes n := by
  cases r with
  | data bytes =>
    unfold onOutput
    exact load_endOfLoop _ _
  | eof =>
    unfold onOutput
    rw [load_endOfLoop]
    cases stream <;> rfl
  | error =>
    unfold onOutput
    rw [load_endOfLoop]
    cases stream <;> rfl

theorem load_onExit (s : Session) (r : ReadResult) (n : Nat) :
    (s.onExit r).load + (s.onExit r).owes n = s.inbound.countP (·.carriesStdin) + s.owes n := by
  unfold onExit
  dsimp only
  split_ifs
  · rfl
  · exact load_endOfLoop _ _

/-- What the task does to stdin never adds to the acknowledgements to come. -/
theorem load_taskStep {e : TaskEvent} (hs : s.taskStep e = some s') (n : Nat) :
    s'.load + s'.owes n ≤ s.load + s.owes n := by
  have hload : s.inbound.countP (·.carriesStdin) ≤ s.load := Nat.le_add_right _ _
  have hwriting : ∀ {rest}, s.task.phase = .writing rest →
      s.load = s.inbound.countP (·.carriesStdin) + 1 := by
    intro rest hp
    unfold load
    rw [hp]
  cases TaskStep.of_taskStep hs with
  | output hp =>
    rw [load_onOutput]
    omega
  | exit hp =>
    rw [load_onExit]
    omega
  | recv hp hq =>
    rename_i input rest
    have htaken := load_onInput { s with inbound := rest } input n
    rw [hq, List.countP_cons] at hload
    refine htaken.trans ?_
    show rest.countP _ + s.owes n + _ ≤ _
    omega
  | recvNone hp hq =>
    rw [load_of_atRest (atRest_abort s)]
    exact Nat.add_le_add_right hload _
  | wrotePart hp =>
    rw [hwriting hp]
    exact le_rfl
  | wroteAll hp =>
    rw [hwriting hp]
    exact (load_finishWrite _ n).trans (Nat.le_add_right _ _)
  | writeFailed hp =>
    rw [hwriting hp]
    exact (load_finishWrite _ n).trans (Nat.le_add_right _ _)
  | reaped hp =>
    rw [load_endOfLoop]
    omega
  | aborted hp =>
    show s.inbound.countP _ + 0 + s.owes n ≤ _
    omega

end Session

/-! ### The attach loop -/

namespace Attach

variable {q : Bool} {a a' : Attach} {s s' : Session} {e : AttachEvent}

/-- Whether the loop is in a send does not depend on the session. -/
theorem isSome_sending (s s' : Session) : (a.sending s).isSome = (a.sending s').isSome := by
  unfold sending
  split <;> rfl

/-- A send that is suspended only waits for the connection. -/
theorem Step.of_sending (h : a.Step q s e a' s') (hs : (a.sending s).isSome = true) :
    e = .sent ∨ e = .sendFailed := by
  unfold sending at hs
  cases h with
  | started hp => exact .inl rfl
  | replayed hp => exact .inl rfl
  | acked hp => exact .inl rfl
  | pinged hp => exact .inl rfl
  | sendFailed hp => exact .inr rfl
  | _ => simp [*] at hs

/-- An acknowledgement that goes out is one that was owed. -/
theorem load_afterReplay (a : Attach) (s : Session) :
    (a.afterReplay s.stdinApplied).load + s.owes (a.afterReplay s.stdinApplied).ackedStdin ≤
      s.owes a.ackedStdin := by
  unfold afterReplay
  split_ifs with hlt
  · unfold Session.owes
    rw [if_pos hlt]
    show 1 + (if s.stdinApplied < s.stdinApplied then 1 else 0) ≤ 1
    rw [if_neg (lt_irrefl _)]
  · show 0 + s.owes a.ackedStdin ≤ _
    omega

theorem load_replayNext (a : Attach) (s : Session) (l : List Msg) :
    (a.replayNext s.stdinApplied l).load + s.owes (a.replayNext s.stdinApplied l).ackedStdin ≤
      s.owes a.ackedStdin + (a.replayNext s.stdinApplied l).originates := by
  cases l with
  | nil => exact (load_afterReplay a s).trans (Nat.le_add_right _ _)
  | cons m rest =>
    show 1 + s.owes a.ackedStdin ≤ s.owes a.ackedStdin + 1
    omega

theorem load_loopTop (a : Attach) (s : Session) :
    (a.loopTop s).load + s.owes (a.loopTop s).ackedStdin ≤
      s.owes a.ackedStdin + (a.loopTop s).originates :=
  load_replayNext _ _ _

/-- What the loop does by itself adds to its load only what starts there. -/
theorem Step.load_own (h : a.Step q s e a' s') (he : e.isOwn = true) :
    a'.load + s'.owes a'.ackedStdin + s'.load ≤
      a.load + s.owes a.ackedStdin + s.load + a'.originates := by
  cases h with
  | expired hp =>
    rw [Session.load_detach, Session.owes_congr (Session.stdinApplied_detach s)]
    show 0 + s.owes a.ackedStdin + s.load ≤ _
    omega
  | tick hp =>
    show 1 + s.owes a.ackedStdin + s.load ≤ a.load + s.owes a.ackedStdin + s.load + 1
    omega
  | snapshot hp =>
    have := load_loopTop a s
    omega
  | changed hp =>
    show 0 + s.owes a.ackedStdin + s.load ≤ _
    omega
  | _ => cases he

/-- A message that is sent leaves the loop's hands. -/
theorem Step.load_sent (h : a.Step q s .sent a' s') :
    a'.load + s'.owes a'.ackedStdin + s'.load + 1 ≤
      a.load + s.owes a.ackedStdin + s.load + a'.originates := by
  have hfrom : ∀ {p : AttachPc}, a.pc = p → a.load = { a with pc := p }.load := by
    rintro p rfl
    rfl
  cases h with
  | started hp =>
    have hload : a.load = 1 := hfrom hp
    show 0 + s.owes a.ackedStdin + s.load + 1 ≤ _
    omega
  | replayed hp =>
    rename_i m rest
    have hload : a.load = 1 := hfrom hp
    have := load_replayNext { a with sentUpTo := a.sentUpTo + 1 } s rest
    dsimp only at this
    omega
  | acked hp =>
    have hload : a.load = 1 := hfrom hp
    show 0 + s.owes a.ackedStdin + s.load + 1 ≤ _
    omega
  | pinged hp =>
    have hload : a.load = 1 := hfrom hp
    show 0 + s.owes a.ackedStdin + s.load + 1 ≤ _
    omega

theorem load_enqueued (a : Attach) (s : Session) (input : SessionInput) :
    a.continue_.load + (s.enqueue input).owes a.continue_.ackedStdin + (s.enqueue input).load ≤
      a.load + s.owes a.ackedStdin + s.load + a.continue_.originates + 1 := by
  rw [Session.owes_enqueue, Session.load_enqueue]
  show 0 + s.owes a.ackedStdin + _ ≤ _
  split_ifs <;> omega

/-- A message that is received is at most queued. -/
theorem Step.load_frame {m : Msg} (h : a.Step q s (.frame m) a' s') :
    a'.load + s'.owes a'.ackedStdin + s'.load ≤
      a.load + s.owes a.ackedStdin + s.load + a'.originates + 1 := by
  cases h with
  | delivered hp =>
    show 0 + s.owes a.ackedStdin + s.load ≤ _
    omega
  | trimmed hp =>
    rw [Session.owes_trimLog]
    show 0 + s.owes a.ackedStdin + s.load ≤ _
    omega
  | frame hp => exact load_enqueued a s (.message m)

theorem Step.load_datagram {m : Msg} (h : a.Step q s (.datagram m) a' s') :
    a'.load + s'.owes a'.ackedStdin + s'.load ≤
      a.load + s.owes a.ackedStdin + s.load + a'.originates + 1 := by
  cases h with
  | datagram hp => exact load_enqueued a s (.datagram m)

end Attach

/-! ### The connection -/

namespace Duplex

variable {cap : Capacity} {x y : Duplex} {l : DuplexLabel}

/-- Every message in a channel, in the hands of an end, or still to be acknowledged. -/
def load (x : Duplex) : Nat :=
  x.c2s.length + x.s2c.length + x.client.load +
    (x.attach.load + x.session.owes x.attach.ackedStdin + x.session.load)

/-- A step never makes the load outgrow the traffic. -/
theorem Step.load_le (h : Step cap x l y) (hx : x.load ≤ x.traffic + x.client.slack) :
    y.load ≤ y.traffic + y.client.slack := by
  unfold load at hx ⊢
  cases h with
  | client he h =>
    have := h.load_own he
    simp only [setClient]
    omega
  | clientSent hw hroom h =>
    have := h.load_sent
    simp only [setClient, clientPut, List.length_append, List.length_singleton]
    omega
  | clientPong hp hq =>
    rw [hq, List.length_cons] at hx
    dsimp only
    omega
  | clientRecv hq h =>
    have := h.load_frame
    rw [hq, List.length_cons] at hx
    simp only [setClient]
    omega
  | clientDatagram hm h =>
    have := h.load_datagram
    simp only [setClient]
    omega
  | attach he h =>
    have := h.load_own he
    simp only [setAttach]
    omega
  | attachSent hw hroom h =>
    have := h.load_sent
    simp only [setAttach, attachPut, List.length_append, List.length_singleton]
    omega
  | attachPong hp hq =>
    rw [hq, List.length_cons] at hx
    dsimp only
    omega
  | attachRecv hq h =>
    have := h.load_frame
    rw [hq, List.length_cons] at hx
    simp only [setAttach]
    omega
  | attachDatagram hm h =>
    have := h.load_datagram
    simp only [setAttach]
    omega
  | task hs =>
    have := Session.load_taskStep hs x.attach.ackedStdin
    dsimp only
    omega

/-- The load is at most the traffic, as soon as the client has read `Started`. -/
theorem load_le_traffic (h : (machine cap).Reachable x) : x.load ≤ x.traffic + x.client.slack := by
  refine h.invariant ?_ fun x l y hx _ hstep => (Step.of_step hstep).load_le hx
  rintro x ⟨quic, c, token, s, rfl⟩
  show 0 + 0 + 0 + (1 + s.owes 0 + s.load) ≤ s.load + s.owes 0 + 1
  omega

/-- An end that is in a send has the message in its hands. -/
theorem Deadlocked.load_ge (h : x.Deadlocked cap) :
    cap.c2s + cap.s2c + 2 ≤ x.load ∧ x.client.slack = 0 := by
  obtain ⟨hclient, hattach, hc2s, hs2c⟩ := h
  have hc : x.client.load = 1 ∧ x.client.slack = 0 := by
    unfold Client.sending at hclient
    unfold Client.load Client.slack
    split at hclient <;> simp_all
  have ha : x.attach.load = 1 := by
    unfold Attach.sending at hattach
    unfold Attach.load
    split at hattach <;> simp_all
  unfold load
  omega

/-- **No deadlock while the load fits**, with one message to spare, however many messages have come
and gone before. -/
theorem not_deadlocked_of_load (hle : x.load ≤ cap.c2s + cap.s2c + 1) : ¬ x.Deadlocked cap :=
  fun hdead => absurd hdead.load_ge.1 (by omega)

theorem not_deadlocked_of_traffic (h : (machine cap).Reachable x)
    (hle : x.traffic ≤ cap.c2s + cap.s2c + 1) : ¬ x.Deadlocked cap := by
  intro hdead
  have hslack := hdead.load_ge.2
  have hload := load_le_traffic h
  exact not_deadlocked_of_load (by omega) hdead

/-! ## Deadlocks last -/

theorem Deadlocked.step_eq_none (h : x.Deadlocked cap) (hl : l.isEnd = true) :
    x.step cap l = none := by
  obtain ⟨hclient, hattach, hc2s, hs2c⟩ := h
  by_contra hne
  obtain ⟨y, hy⟩ := Option.ne_none_iff_exists'.mp hne
  cases Step.of_step hy with
  | client he h =>
    rcases h.of_sending hclient with rfl | rfl <;> cases he
  | clientSent hw hroom h => omega
  | clientPong hp hq =>
    unfold Client.sending at hclient
    rcases hp with hp | hp <;> simp [hp] at hclient
  | clientRecv hq h =>
    rcases h.of_sending hclient with he | he <;> cases he
  | clientDatagram hm h =>
    rcases h.of_sending hclient with he | he <;> cases he
  | attach he h =>
    rcases h.of_sending hattach with rfl | rfl <;> cases he
  | attachSent hw hroom h => omega
  | attachPong hp hq =>
    unfold Attach.sending at hattach
    simp [hp] at hattach
  | attachRecv hq h =>
    rcases h.of_sending hattach with he | he <;> cases he
  | attachDatagram hm h =>
    rcases h.of_sending hattach with he | he <;> cases he
  | task hs => cases hl

/-- The keepalive timers do not end a deadlock, nor does anything the session task does. -/
theorem Deadlocked.forever (h : x.Deadlocked cap) {ls : List DuplexLabel}
    (hr : (machine cap).run x ls = some y) : y.Deadlocked cap := by
  induction ls generalizing x with
  | nil =>
    cases hr
    exact h
  | cons l ls ih =>
    obtain ⟨z, hz, hr⟩ := Option.bind_eq_some_iff.mp hr
    refine ih ?_ hr
    by_cases hl : l.isEnd = true
    · rw [show (machine cap).step x l = none from h.step_eq_none hl] at hz
      cases hz
    · cases Step.of_step hz with
      | task hs =>
        obtain ⟨hclient, hattach, hfull⟩ := h
        refine ⟨hclient, ?_, hfull⟩
        rw [Attach.isSome_sending _ x.session]
        exact hattach
      | _ => exact absurd rfl hl

/-! ## How a connection deadlocks -/

/-- A session whose child has written `n` chunks, none of which was acknowledged. -/
structure Written (s : Session) (n : Nat) : Prop where
  phase : s.task.phase = .select
  stdoutOpen : s.task.stdoutOpen = true
  exitCode : s.task.exitCode = none
  trimmed : s.log.trimmed = 0
  latest : s.log.latest = n
  length : s.log.buffer.length = n

theorem Written.next {s : Session} {n : Nat} (h : Written s n) :
    ∃ s', s.taskStep (.outputRead .out (.data [0])) = some s' ∧ Written s' (n + 1) := by
  refine ⟨s.onOutput .out (.data [0]), ?_, ?_⟩
  · unfold Session.taskStep
    simp [h.phase, h.stdoutOpen, Session.streamOpen, Session.readFits, STDIO_BUF]
  · unfold Session.onOutput Session.endOfLoop
    simp only [Session.push, Session.setTask, h.exitCode]
    refine ⟨rfl, h.stdoutOpen, rfl, h.trimmed, ?_, ?_⟩
    · simp [OutboundLog.push, h.trimmed, h.length]
    · simp [OutboundLog.push, h.length]

def freshSession : Session := .start true false (.start (.pipe 0) (.pipe 1) (.pipe 2) (.pipe 3) 7)

/-- An attach loop that has sent nothing but `Started`. -/
def waiting : Attach := { Attach.start "t" 0 with pc := .select }

section Reach

variable {c : Client} {a : Attach} {s : Session} {l l' : List Wire} {k : Nat}

theorem reach_stdin (h : (machine cap).Reachable ⟨false, c, a, s, l, l', [], [], k⟩)
    (hp : c.pc = .select) (hopen : c.stdinOpen = true) :
    ∃ c' m, c'.pc = .sendFresh m ∧ c'.stdinOpen = true ∧
      (machine cap).Reachable ⟨false, c', a, s, l, l', [], [], k + 1⟩ := by
  let trace : ClientTrace := { c.trace with stdinRead := c.trace.stdinRead ++ [0] }
  let c' : Client := { c with trace := trace }.sendStdin fun seq => .stdin seq [0]
  have hstep : c.step false (.stdinData [0]) = some c' := by
    unfold Client.step
    simp [hp, hopen, STDIO_BUF, c', trace]
  refine ⟨c', _, rfl, hopen, h.step (l := .client (.stdinData [0])) trivial ?_⟩
  show (c.step false (.stdinData [0])).map _ = _
  rw [hstep]
  rfl

theorem reach_sent (h : (machine cap).Reachable ⟨false, c, a, s, l, l', [], [], k⟩) {m : Msg}
    (hp : c.pc = .sendFresh m) (hroom : l.length < cap.c2s) :
    ∃ c', c'.pc = .select ∧ c'.stdinOpen = c.stdinOpen ∧
      (machine cap).Reachable ⟨false, c', a, s, l ++ [.msg m], l', [], [], k⟩ := by
  let c' : Client := { c with sentStdin := c.sentStdin ++ [m], pc := .select }
  refine ⟨c', rfl, rfl, h.step (l := .clientSent) trivial ?_⟩
  have hsending : c.sending = some (.msg m) := by
    unfold Client.sending
    rw [hp]
  have hstep : c.step false .sent = some c' := by
    unfold Client.step
    rw [hp]
  show c.sending.bind _ = _
  rw [hsending, Option.bind_some, if_pos hroom]
  show (c.step false .sent).map _ = _
  rw [hstep]
  simp [clientPut, setClient, Sys.duplicate, Client.originates, hp, c']

/-- The attach loop gets a log entry into the channel, with another one behind it. -/
theorem reach_replayed (h : (machine cap).Reachable ⟨false, c, a, s, l, l', [], [], k⟩) {m m' : Msg}
    {rest : List Msg} (hp : a.pc = .replay m (m' :: rest)) (hroom : l'.length < cap.s2c) :
    ∃ a', a'.pc = .replay m' rest ∧
      (machine cap).Reachable ⟨false, c, a', s, l, l' ++ [.msg m], [], [], k + 1⟩ := by
  let a' : Attach := { a with sentUpTo := a.sentUpTo + 1 }.replayNext s.stdinApplied (m' :: rest)
  refine ⟨a', rfl, h.step (l := .attachSent) trivial ?_⟩
  have hsending : a.sending s = some (.msg m) := by
    unfold Attach.sending
    rw [hp]
  have hstep : a.step false s .sent = some (a', s) := by
    unfold Attach.step
    rw [hp]
    rfl
  show (a.sending s).bind _ = _
  rw [hsending, Option.bind_some, if_pos hroom]
  show (a.step false s .sent).map _ = _
  rw [hstep]
  simp [attachPut, setAttach, Sys.duplicate, Attach.originates, Attach.replayNext, hp, a']

/-- Chunks that nobody reads fill the channel to the server. -/
theorem reach_queued (hcap : 0 < cap.s2c) (hk : k ≤ cap.c2s) :
    ∃ c l, c.pc = .select ∧ c.stdinOpen = true ∧ l.length = k ∧
      (machine cap).Reachable ⟨false, c, waiting, freshSession, l, [], [], [], k⟩ := by
  induction k with
  | zero =>
    have hstart : (machine cap).Reachable (start false (.start .static) "t" freshSession) :=
      .init ⟨_, _, _, _, rfl⟩
    have hsent : (machine cap).step (start false (.start .static) "t" freshSession) .attachSent =
        some ⟨false, .start .static, (Attach.start "t" 0).continue_, freshSession, [],
          [.msg (.started (some "t"))], [], [], 0⟩ := by
      show (if 0 < cap.s2c then _ else none) = _
      rw [if_pos hcap]
      rfl
    have hwaits := (hstart.step trivial hsent).step (l := .attach .snapshot) trivial rfl
    exact ⟨_, [], rfl, rfl, rfl, hwaits.step (l := .clientRecv) trivial rfl⟩
  | succ k ih =>
    obtain ⟨c, l, hp, hopen, hl, h⟩ := ih (by omega)
    obtain ⟨c', m, hp', hopen', h'⟩ := reach_stdin h hp hopen
    obtain ⟨c'', hp'', hopen'', h''⟩ := reach_sent h' hp' (by omega)
    exact ⟨c'', _, hp'', hopen''.trans hopen', by simp [hl], h''⟩

/-- The child writes while the client waits for room. -/
theorem reach_written (hcap : 0 < cap.s2c) (n : Nat) :
    ∃ c l s, c.sending.isSome = true ∧ l.length = cap.c2s ∧ Written s n ∧
      (machine cap).Reachable ⟨false, c, waiting, s, l, [], [], [], cap.c2s + 1⟩ := by
  induction n with
  | zero =>
    obtain ⟨c, l, hp, hopen, hl, h⟩ := reach_queued hcap le_rfl
    obtain ⟨c', m, hp', -, h'⟩ := reach_stdin h hp hopen
    refine ⟨c', l, freshSession, ?_, hl, ⟨rfl, rfl, rfl, rfl, rfl, rfl⟩, h'⟩
    unfold Client.sending
    rw [hp']
    rfl
  | succ n ih =>
    obtain ⟨c, l, s, hs, hl, hw, h⟩ := ih
    obtain ⟨s', hstep, hw'⟩ := hw.next
    refine ⟨c, l, s', hs, hl, hw', h.step (l := .task (.outputRead .out (.data [0]))) trivial ?_⟩
    show (s.taskStep _).map _ = _
    rw [hstep]
    rfl

/-- The attach loop fills the channel to the client, and is left with more. -/
theorem reach_replaying (hcap : 0 < cap.s2c) (hk : k ≤ cap.s2c) :
    ∃ c a s l l' m rest, c.sending.isSome = true ∧ a.pc = .replay m rest ∧ l.length = cap.c2s ∧
      l'.length = k ∧ rest.length = cap.s2c - k ∧
      (machine cap).Reachable ⟨false, c, a, s, l, l', [], [], cap.c2s + 2 + k⟩ := by
  induction k with
  | zero =>
    obtain ⟨c, l, s, hs, hl, hw, h⟩ := reach_written hcap (cap.s2c + 1)
    obtain ⟨m, rest, hbuf⟩ : ∃ m rest, s.log.buffer = m :: rest :=
      List.exists_cons_of_length_eq_add_one hw.length
    have hrest : rest.length = cap.s2c := by simpa [hbuf] using hw.length
    let b : Attach := (waiting.observe s).continue_
    let a : Attach := b.loopTop s
    have ha : a.pc = .replay m rest := by
      simp [a, b, waiting, Attach.start, Attach.continue_, Attach.observe, Attach.loopTop,
        OutboundLog.after, hbuf, Attach.replayNext]
    have hchanged : waiting.step false s .changed = some (b, s) := by
      unfold Attach.step
      simp [waiting, Attach.start, hw.latest, b]
    have hwoken : (machine cap).Reachable ⟨false, c, b, s, l, [], [], [], cap.c2s + 1⟩ := by
      refine h.step (l := .attach .changed) trivial ?_
      show (waiting.step false s .changed).map _ = _
      rw [hchanged]
      rfl
    refine ⟨c, a, s, l, [], m, rest, hs, ha, hl, rfl, hrest,
      hwoken.step (l := .attach .snapshot) trivial ?_⟩
    show (b.step false s .snapshot).map _ = _
    rw [show b.step false s .snapshot = some (a, s) from rfl]
    simp [setAttach, Attach.originates, ha]
  | succ k ih =>
    obtain ⟨c, a, s, l, l', m, rest, hs, hp, hl, hl', hrest, h⟩ := ih (by omega)
    obtain ⟨m', rest', rfl⟩ : ∃ m' rest', rest = m' :: rest' :=
      List.exists_cons_of_length_pos (by omega)
    obtain ⟨a', hp', h'⟩ := reach_replayed h hp (by omega)
    rw [List.length_cons] at hrest
    exact ⟨c, a', s, l, _, m', rest', hs, hp', hl, by simp [hl'], by omega, h'⟩

end Reach

/-- Whatever the capacities, one message too many is enough. -/
theorem exists_deadlocked (hcap : 0 < cap.s2c) :
    ∃ x, (machine cap).Reachable x ∧ x.traffic = cap.c2s + cap.s2c + 2 ∧ x.Deadlocked cap := by
  obtain ⟨c, a, s, l, l', m, rest, hs, hp, hl, hl', -, h⟩ := reach_replaying hcap le_rfl
  refine ⟨_, h, ?_, hs, ?_, hl.ge, hl'.ge⟩
  · show cap.c2s + 2 + cap.s2c = _
    omega
  · unfold Attach.sending
    rw [hp]
    rfl

/-! ## When a connection can deadlock -/

/-- A connection that carries nothing to the client never gets past its start. -/
theorem slack_of_no_room (h : (machine cap).Reachable x) (hcap : cap.s2c = 0) :
    x.s2c = [] ∧ x.client.slack = 1 := by
  refine h.invariant (P := fun x => x.s2c = [] ∧ x.client.slack = 1) ?_ ?_
  · rintro x ⟨quic, c, token, s, rfl⟩
    exact ⟨rfl, rfl⟩
  · rintro x l y ⟨hs2c, hslack⟩ - hstep
    cases Step.of_step hstep with
    | client he h => exact ⟨hs2c, h.slack_own he hslack⟩
    | clientSent hw hroom h => exact absurd hw (by simp [Client.sending_of_slack hslack])
    | clientPong hp hq => exact absurd hq (by simp [hs2c])
    | clientRecv hq h => exact absurd hq (by simp [hs2c])
    | clientDatagram hm h => exact ⟨hs2c, h.slack_datagram hslack⟩
    | attach he h => exact ⟨hs2c, hslack⟩
    | attachSent hw hroom h => omega
    | attachPong hp hq => exact ⟨hs2c, hslack⟩
    | attachRecv hq h => exact ⟨hs2c, hslack⟩
    | attachDatagram hm h => exact ⟨hs2c, hslack⟩
    | task hs => exact ⟨hs2c, hslack⟩

/-- With at most `n` messages started, a connection is free of deadlocks just if these fit its two
channels, with one to spare. -/
theorem deadlock_free_iff (cap : Capacity) (n : Nat) :
    (∀ x, (machine cap).Reachable x → x.traffic ≤ n → ¬ x.Deadlocked cap) ↔
      cap.s2c = 0 ∨ n ≤ cap.c2s + cap.s2c + 1 := by
  constructor
  · intro hfree
    by_contra hn
    rw [not_or, not_le] at hn
    obtain ⟨x, hx, htraffic, hdead⟩ := exists_deadlocked (Nat.pos_of_ne_zero hn.1)
    exact hfree x hx (by omega) hdead
  · rintro (hcap | hn) x hx hle hdead
    · obtain ⟨-, hslack⟩ := slack_of_no_room hx hcap
      exact absurd hdead.load_ge.2 (by omega)
    · exact not_deadlocked_of_traffic hx (hle.trans hn) hdead

/-- The client has two chunks to send while the child writes two. -/
def crossRun : List DuplexLabel :=
  [.attachSent, .attach .snapshot, .clientRecv, .client (.stdinData [1]), .clientSent,
    .client (.stdinData [2]), .task (.outputRead .out (.data [3])),
    .task (.outputRead .out (.data [4])), .attach .changed, .attach .snapshot, .attachSent]

def crossed : Duplex :=
  ((machine ⟨1, 1⟩).run (start false (.start .static) "t" freshSession) crossRun).get (by decide)

/-- Two chunks each way over channels that hold one: both ends send, and neither ever does
anything again. -/
theorem crossed_deadlocked :
    (machine ⟨1, 1⟩).Reachable crossed ∧
    (Sys.machine ⟨1, 1⟩).Reachable (crossed.system "t" 0 []) ∧
    crossed.client.pc = .sendFresh (.stdin 2 [2]) ∧
    crossed.attach.pc = .replay (.stdout 2 [4]) [] ∧ crossed.Deadlocked ⟨1, 1⟩ ∧
    ∀ ls y, (machine ⟨1, 1⟩).run crossed ls = some y →
      ∀ l : DuplexLabel, l.isEnd = true → y.step ⟨1, 1⟩ l = none := by
  have hrun : (machine ⟨1, 1⟩).run (start false (.start .static) "t" freshSession) crossRun =
      some crossed := (Option.some_get _).symm
  have hreach : (machine ⟨1, 1⟩).Reachable crossed :=
    Machine.reachable_of_run ⟨_, _, _, _, rfl⟩ hrun
  have hdead : crossed.Deadlocked ⟨1, 1⟩ := by
    unfold Deadlocked
    decide
  have hsystem : (Sys.machine ⟨1, 1⟩).Reachable (crossed.system "t" 0 []) :=
    system_run (.init ⟨"t", .static, false, false, .pipe 0, .pipe 1, .pipe 2, .pipe 3, 7, rfl⟩) hrun
  refine ⟨hreach, hsystem, by decide, by decide, hdead, ?_⟩
  intro ls y hr l hl
  exact (hdead.forever hr).step_eq_none hl

end Duplex

end HerdrEternal
