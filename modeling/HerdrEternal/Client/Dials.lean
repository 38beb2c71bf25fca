import HerdrEternal.Client.RunExec

/-!
# The client on its way to a connection

`Client.Unanswered` says what any step of `run_exec` does other than taking the answer to its
request: the resume token stays as it is, the client does not start to relay, and one without a
token dials only if it did so before it had a connection.
-/

namespace HerdrEternal

/-- The client relays, or ended with the command's exit code. -/
def ClientPc.served : ClientPc → Bool
  | .resend .. | .select | .ping | .sendFresh _ | .writing .. | .flushing | .sendAck _
  | .sendExitAck .. | .returned (.ok _) => true
  | _ => false

/-- The client is on its way to a connection. -/
def ClientPc.dials : ClientPc → Bool
  | .authenticating | .connecting | .loggingIn | .backoff => true
  | _ => false

namespace Client

variable {quic : Bool} {c c' : Client} {e : ClientEvent}

theorem step_answer {m : Msg} (hp : c.pc = .connecting) :
    c.step quic (.frame m) = some (c.onReply m) := by
  cases c
  cases hp
  rfl

/-- What a step without an answer to the request does to the token and to the way on. -/
structure Unanswered (c c' : Client) : Prop where
  token : c'.resumeToken = c.resumeToken
  served : c'.pc.served = true → c.pc.served = true
  dials : c.resumeToken = none → c'.pc.dials = true → c.pc.dials = true ∧ c.pc ≠ .connecting

theorem unanswered_of_ended (hr : c'.resumeToken = c.resumeToken) {err : ClientError}
    (hp : c'.pc = .returned (.error err)) : Unanswered c c' :=
  ⟨hr, fun h => (by rw [hp] at h; cases h), fun _ h => (by rw [hp] at h; cases h)⟩

theorem unanswered_of_served (hr : c'.resumeToken = c.resumeToken) (hp : c.pc.served = true)
    (hp' : c'.pc.dials = false) : Unanswered c c' :=
  ⟨hr, fun _ => hp, fun _ h => (by rw [hp'] at h; cases h)⟩

theorem unanswered_disconnect (c : Client) : Unanswered c c.disconnect := by
  unfold disconnect
  split_ifs with hr
  · exact ⟨rfl, fun h => (by cases h), fun hnone => (by rw [hnone] at hr; cases hr)⟩
  · exact unanswered_of_ended rfl rfl

theorem unanswered_connectError {err : ClientError}
    (he : err = .notLoggedIn → c.pc = .authenticating) : Unanswered c (c.connectError err) := by
  have hother : Unanswered c
      (if c.resumeToken.isSome then { c with pc := .backoff } else c.fail err) := by
    split_ifs with hr
    · exact ⟨rfl, fun h => (by cases h), fun hnone => (by rw [hnone] at hr; cases hr)⟩
    · exact unanswered_of_ended rfl rfl
  cases err with
  | notLoggedIn =>
    have hp := he rfl
    unfold connectError
    cases hs : c.tokenSource with
    | static => exact unanswered_of_ended rfl rfl
    | oidc =>
      exact ⟨rfl, fun h => (by cases h), fun _ _ => (by rw [hp]; exact ⟨rfl, by simp⟩)⟩
  | denied reason => exact unanswered_of_ended rfl rfl
  | _ => exact hother

theorem dials_onMessage (hp : c.pc = .select) (reliable : Bool) (m : Msg) :
    (c.onMessage reliable m).resumeToken = c.resumeToken ∧
      (c.onMessage reliable m).pc.dials = false := by
  have houtput : ∀ stream seq data, (c.onOutput stream seq data reliable).resumeToken =
      c.resumeToken ∧ (c.onOutput stream seq data reliable).pc.dials = false := by
    intro stream seq data
    unfold onOutput
    split_ifs <;> simp [ClientPc.dials, hp]
  cases m with
  | stdout seq data => exact houtput _ _ _
  | stderr seq data => exact houtput _ _ _
  | exit seq code => exact ⟨rfl, rfl⟩
  | _ => exact ⟨rfl, (congrArg ClientPc.dials hp).trans rfl⟩

theorem unanswered_resendNext (hp : c.pc.served = true) (rest : List Msg) :
    Unanswered c (c.resendNext rest) := by
  cases rest <;> exact unanswered_of_served rfl hp rfl

theorem dials_resendNext (c : Client) (rest : List Msg) : (c.resendNext rest).pc.dials = false := by
  cases rest <;> rfl

theorem token_onReply {token : Option String} {t : String}
    (ht : (c.onReply (.started token)).resumeToken = some t) :
    c.resumeToken = some t ∨ token = some t := by
  have heq : (c.onReply (.started token)).resumeToken = (c.resumeToken <|> token) := by
    unfold onReply resendNext
    cases c.sentStdin <;> rfl
  rw [heq] at ht
  cases hc : c.resumeToken with
  | none =>
    rw [hc] at ht
    exact .inr ht
  | some u =>
    rw [hc] at ht
    exact .inl ht

theorem Step.unanswered (h : Step quic c e c')
    (hno : c.pc = .connecting → ∃ err, e = .connectFailed err) : Unanswered c c' := by
  have hdials : ∀ {pc pc' : ClientPc}, c.pc = pc → pc.dials = true → pc ≠ .connecting →
      pc'.served = false → Unanswered c { c with pc := pc' } := by
    intro pc pc' hp hd hne hs
    exact ⟨rfl, fun h => (by rw [hs] at h; cases h), fun _ _ => (by rw [hp]; exact ⟨hd, hne⟩)⟩
  cases h with
  | authenticated hp => exact hdials hp rfl (by simp) rfl
  | loggedIn hp => exact hdials hp rfl (by simp) rfl
  | wake hp => exact hdials hp rfl (by simp) rfl
  | authFailed hp => exact unanswered_connectError fun _ => hp
  | connectFailed hp he => exact unanswered_connectError fun h => absurd h he
  | reply hp =>
    obtain ⟨err, herr⟩ := hno hp
    cases herr
  | early hp =>
    obtain ⟨err, herr⟩ := hno hp
    cases herr
  | resent hp => exact unanswered_resendNext (by rw [hp]; rfl) _
  | resendFailed => exact unanswered_disconnect c
  | expired => exact unanswered_disconnect c
  | pingFailed => exact unanswered_disconnect c
  | freshFailed => exact unanswered_disconnect c
  | disconnected => exact unanswered_disconnect c
  | loginFailed => exact unanswered_of_ended rfl rfl
  | stdinError => exact unanswered_of_ended rfl rfl
  | badFrame => exact unanswered_of_ended rfl rfl
  | writeFailed => exact unanswered_of_ended rfl rfl
  | flushFailed => exact unanswered_of_ended rfl rfl
  | frame hp =>
    obtain ⟨hr, hd⟩ := dials_onMessage hp true _
    exact unanswered_of_served hr (by rw [hp]; rfl) hd
  | datagram hp =>
    obtain ⟨hr, hd⟩ := dials_onMessage hp false _
    exact unanswered_of_served hr (by rw [hp]; rfl) hd
  | badDatagram hp => exact unanswered_of_served rfl (by rw [hp]; rfl) (by rw [hp]; rfl)
  | tick hp | pinged hp | stdinData hp | stdinEof hp | freshSent hp | wrotePart hp | wroteAll hp
  | flushed hp | acked hp | ackFailed hp | exitAcked hp | exitAckFailed hp =>
    exact unanswered_of_served rfl (by rw [hp]; rfl) rfl

end Client

end HerdrEternal
