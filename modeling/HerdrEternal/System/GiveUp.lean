import HerdrEternal.Client.Login
import HerdrEternal.System.Resume

/-!
# When a resumable exec ends

"The server alone decides how long a session stays resumable, so the client retries until it gets
an answer." A client that holds a resume token should therefore return only when it was told to:
by an Exit or a Denied message, by an error of its own stdio, by a malformed frame, or because the
user has to log in again and cannot or does not (`Told`).

`Exec` is `run_exec` together with the login it may have to run. A login fails on the first request
that the provider does not answer, and `run_exec` returns that error
(`unreachable_provider_gives_up`).

**Theorem (`gives_up_iff`).** A step of a resumable exec ends it only when told, if and only if it
is not one of the login's steps that fail for want of a network, or of the terminal or the token
cache (`unbroken`).
-/

namespace HerdrEternal

/-! ## An exec and its login -/

/-- The errors of `Target::access_token`, within the connect timeout. -/
def TokenSource.fails (source : TokenSource) (e : ClientError) : Bool :=
  match source, e with
  | _, .connectTimeout => true
  | .oidc, .io | .oidc, .http | .oidc, .oidc | .oidc, .rateLimited => true
  | .oidc, .notLoggedIn | .oidc, .noAuthConfigured => true
  | _, _ => false

/-- The errors of the rest of `connect_and_start`, a Denied message apart. -/
def ClientError.ofConn : ClientError → Bool
  | .io | .webSocket | .protocol | .connectionClosed | .connectTimeout => true
  | _ => false

/-- What can happen to a client, its login apart. -/
def Client.occurs (c : Client) : ClientEvent → Bool
  | .connectFailed e =>
    match c.pc with
    | .authenticating => c.tokenSource.fails e
    | .connecting => e.ofConn
    | _ => false
  | .loggedIn | .loginFailed _ => false
  | _ => true

/-- What the login waits for did not fail: neither the network, nor the terminal once it is open,
nor the token cache. A poll that the provider only rate limits must leave time for another one. -/
def Login.unbroken (l : Login) : LoginEvent → Bool
  | .opened _ | .woke => true
  | .built ok | .prompted ok _ | .stored ok | .confirmed ok => ok
  | .discovered reply => (discover reply).isSome
  | .authorized reply =>
    match tokenRequest reply with
    | .ok _ => true
    | .error _ => false
  | .polled reply now =>
    match tokenRequest reply with
    | .ok _ => true
    | .error (.rateLimited delay) => decide (now + max delay l.interval ≤ l.deadline)
    | .error .http => false

/-- `run_exec`, and the login it is suspended in. -/
structure Exec where
  client : Client
  login : Option Login
  deriving DecidableEq

inductive ExecEvent where
  /-- `quic` is the transport of the current connection. -/
  | client (quic : Bool) (e : ClientEvent)
  | login (e : LoginEvent)
  deriving DecidableEq

namespace Exec

variable {name : String} {oidc : OidcTarget} {s s' : Exec} {e : ExecEvent}

def start (tokenSource : TokenSource) : Exec :=
  ⟨{ Client.start tokenSource with pc := .authenticating }, none⟩

/-- What the end of a login is to `run_exec`. -/
def ended : Except LoginError Unit → ClientEvent
  | .ok _ => .loggedIn
  | .error e => .loginFailed e.toClient

def step (name : String) (oidc : OidcTarget) (s : Exec) : ExecEvent → Option Exec
  | .client quic e =>
    if s.client.occurs e then
      (s.client.step quic e).map fun c =>
        ⟨c, if c.pc = .loggingIn then some (.start name oidc) else none⟩
    else none
  | .login e =>
    s.login.bind fun l => (l.step e).bind fun l' =>
      match l'.pc with
      | .finished result => (s.client.step false (ended result)).map (⟨·, none⟩)
      | _ => some { s with login := some l' }

/-- The runs of an exec whose target has the given name and OIDC settings. -/
def machine (name : String) (oidc : OidcTarget) : Machine Exec ExecEvent where
  init s := ∃ tokenSource, s = .start tokenSource
  step := step name oidc

/-! ## Being told to end -/

/-- The reasons for which a resumable exec may return, by the event it returns upon. -/
inductive Told (s : Exec) : ExecEvent → Except ClientError Int32 → Prop
  /-- An Exit message was received; its acknowledgement was just sent, or failed. -/
  | exit {quic : Bool} {e : ClientEvent} {code : Int32} (h : s.client.trace.exit = some code) :
      Told s (.client quic e) (.ok code)
  | denied {quic : Bool} {reason : String} :
      Told s (.client quic (.frame (.denied reason))) (.error (.denied reason))
  | stdin {quic : Bool} : Told s (.client quic .stdinError) (.error .io)
  | output {quic : Bool} : Told s (.client quic .writeFailed) (.error .io)
  | malformed {quic : Bool} : Told s (.client quic .badFrame) (.error .protocol)
  | noTerminal : Told s (.login (.opened false)) (.error .notLoggedIn)
  /-- The provider refused to start an authorization. -/
  | refused {reply : Option (HttpResponse DeviceAuthorization)} {error : String}
      (h : tokenRequest reply = .ok (.error error)) :
      Told s (.login (.authorized reply)) (.error .oidc)
  /-- The provider answered a poll with a final error. -/
  | rejected {l : Login} {reply : Option (HttpResponse TokenResponse)} {now : Nat}
      {error : String} (hl : s.login = some l) (h : tokenRequest reply = .ok (.error error))
      (herror : l.nextInterval error = none) :
      Told s (.login (.polled reply now)) (.error .oidc)
  /-- The user did not confirm in time: the provider still waits, and the device code expires
  before the next poll. -/
  | expired {l : Login} {reply : Option (HttpResponse TokenResponse)} {now interval : Nat}
      {error : String} (hl : s.login = some l) (h : tokenRequest reply = .ok (.error error))
      (herror : l.nextInterval error = some interval) (hnow : l.deadline < now + interval) :
      Told s (.login (.polled reply now)) (.error .oidc)

/-- The step does not fail a login for want of a network, nor of the terminal or the token cache. -/
def unbroken (s : Exec) : ExecEvent → Bool
  | .client .. => true
  | .login e => s.login.all (·.unbroken e)

/-- If the step ends a resumable exec, the exec was told to end. -/
def EndsOnlyWhenTold (name : String) (oidc : OidcTarget) (s : Exec) (e : ExecEvent) : Prop :=
  ∀ s' r, s.client.resumeToken.isSome = true → s.step name oidc e = some s' →
    s'.client.pc = .returned r → Told s e r

/-! ## Ends of the client -/

section Client

variable {c c' : Client} {quic : Bool} {ev : ClientEvent} {r : Except ClientError Int32}

/-- The client only sends the acknowledgement of an Exit message that it received. -/
def ExitKnown (c : Client) : Prop :=
  ∀ seq code, c.pc = .sendExitAck seq code → c.trace.exit = some code

theorem exitKnown_of_pc (h : ∀ seq code, c.pc ≠ .sendExitAck seq code) : ExitKnown c :=
  fun seq code hp => absurd hp (h seq code)

theorem exitKnown_disconnect (c : Client) : ExitKnown c.disconnect := by
  refine exitKnown_of_pc fun seq code => ?_
  by_cases h : c.resumeToken.isSome <;> simp [Client.disconnect, Client.fail, h]

theorem exitKnown_connectError (c : Client) (e : ClientError) : ExitKnown (c.connectError e) := by
  refine exitKnown_of_pc fun seq code => ?_
  cases e with
  | notLoggedIn => cases h : c.tokenSource <;> simp [Client.connectError, Client.fail, h]
  | denied => simp [Client.connectError, Client.fail]
  | _ => by_cases h : c.resumeToken.isSome <;> simp [Client.connectError, Client.fail, h]

theorem exitKnown_resendNext (c : Client) (rest : List Msg) : ExitKnown (c.resendNext rest) := by
  refine exitKnown_of_pc fun seq code => ?_
  cases rest <;> simp [Client.resendNext]

theorem pc_onOutput (hp : c.pc = .select) (stream : Stream) (seq : Nat) (data : Data)
    (reliable : Bool) : (c.onOutput stream seq data reliable).pc = .select ∨
      (c.onOutput stream seq data reliable).pc = .flushing ∨
      (c.onOutput stream seq data reliable).pc = .writing stream data := by
  unfold Client.onOutput
  split_ifs
  · exact .inr (.inl rfl)
  · exact .inr (.inr rfl)
  · exact .inl hp

theorem exitKnown_onMessage (hp : c.pc = .select) (reliable : Bool) (m : Msg) :
    ExitKnown (c.onMessage reliable m) := by
  have houtput : ∀ stream seq data, ExitKnown (c.onOutput stream seq data reliable) := by
    intro stream seq data
    refine exitKnown_of_pc fun seq' code => ?_
    rcases pc_onOutput hp stream seq data reliable with h | h | h <;> rw [h] <;> simp
  cases m with
  | stdout => exact houtput _ _ _
  | stderr => exact houtput _ _ _
  | exit seq code =>
    intro seq' code' h
    simp only [Client.onMessage, ClientPc.sendExitAck.injEq] at h
    exact congrArg some h.2
  | _ => exact exitKnown_of_pc (by simp [Client.onMessage, Client.onAck, hp])

theorem exitKnown_onReply (c : Client) (m : Msg) : ExitKnown (c.onReply m) := by
  cases m with
  | started => exact exitKnown_resendNext _ _
  | _ => exact exitKnown_connectError _ _

theorem exitKnown_step (h : ExitKnown c) (hs : Client.Step quic c ev c') : ExitKnown c' := by
  cases hs with
  | early => exact h
  | badDatagram => exact h
  | authFailed => exact exitKnown_connectError _ _
  | connectFailed => exact exitKnown_connectError _ _
  | reply => exact exitKnown_onReply _ _
  | resent => exact exitKnown_resendNext _ _
  | frame hp => exact exitKnown_onMessage hp _ _
  | datagram hp => exact exitKnown_onMessage hp _ _
  | resendFailed => exact exitKnown_disconnect c
  | expired => exact exitKnown_disconnect c
  | pingFailed => exact exitKnown_disconnect c
  | freshFailed => exact exitKnown_disconnect c
  | disconnected => exact exitKnown_disconnect c
  | _ => exact exitKnown_of_pc (by simp [Client.fail, Client.sendStdin])

/-- A failed connection attempt ends a resumable exec only if the server denied it. -/
theorem connectError_returned {e : ClientError} (hres : c.resumeToken.isSome = true)
    (hstatic : e = .notLoggedIn → c.tokenSource = .oidc)
    (hr : (c.connectError e).pc = .returned r) :
    ∃ reason, e = .denied reason ∧ r = .error (.denied reason) := by
  cases e with
  | denied reason =>
    simp only [Client.connectError, Client.fail, ClientPc.returned.injEq] at hr
    exact ⟨reason, rfl, hr.symm⟩
  | notLoggedIn => simp [Client.connectError, hstatic rfl] at hr
  | _ => simp [Client.connectError, hres] at hr

theorem disconnect_not_returned (hres : c.resumeToken.isSome = true) :
    c.disconnect.pc ≠ .returned r := by
  simp [Client.disconnect, hres]

theorem resendNext_not_returned (c : Client) (rest : List Msg) :
    (c.resendNext rest).pc ≠ .returned r := by
  cases rest <;> simp [Client.resendNext]

theorem onMessage_not_returned (hp : c.pc = .select) (reliable : Bool) (m : Msg) :
    (c.onMessage reliable m).pc ≠ .returned r := by
  have houtput : ∀ stream seq data, (c.onOutput stream seq data reliable).pc ≠ .returned r := by
    intro stream seq data
    rcases pc_onOutput hp stream seq data reliable with h | h | h <;> rw [h] <;> simp
  cases m with
  | stdout => exact houtput _ _ _
  | stderr => exact houtput _ _ _
  | _ => simp [Client.onMessage, Client.onAck, hp]

/-- A reply ends a resumable exec only if it is a Denied message. -/
theorem onReply_returned {m : Msg} (hres : c.resumeToken.isSome = true)
    (hr : (c.onReply m).pc = .returned r) :
    ∃ reason, m = .denied reason ∧ r = .error (.denied reason) := by
  cases m with
  | started token => exact absurd hr (resendNext_not_returned _ _)
  | denied reason =>
    simp only [Client.onReply, Client.connectError, Client.fail, ClientPc.returned.injEq] at hr
    exact ⟨reason, rfl, hr.symm⟩
  | _ => simp [Client.onReply, Client.connectError, hres] at hr

/-- No event of a connection ends a resumable exec untold. -/
theorem told_of_client_step (hs : Client.Step quic s.client ev c')
    (hoccurs : s.client.occurs ev = true) (hres : s.client.resumeToken.isSome = true)
    (hexit : ExitKnown s.client) (hr : c'.pc = .returned r) : Told s (.client quic ev) r := by
  cases hs with
  | authFailed hp =>
    simp only [Client.occurs, hp] at hoccurs
    obtain ⟨reason, rfl, -⟩ := connectError_returned hres (by
      rintro rfl
      cases h : s.client.tokenSource <;> simp_all [TokenSource.fails]) hr
    cases s.client.tokenSource <;> simp [TokenSource.fails] at hoccurs
  | connectFailed hp he =>
    simp only [Client.occurs, hp] at hoccurs
    obtain ⟨reason, rfl, -⟩ := connectError_returned hres (fun h => absurd h he) hr
    simp [ClientError.ofConn] at hoccurs
  | reply hp =>
    obtain ⟨reason, rfl, rfl⟩ := onReply_returned hres hr
    exact .denied
  | early hp => rw [hp] at hr; cases hr
  | badDatagram hp => rw [hp] at hr; cases hr
  | resent => exact absurd hr (resendNext_not_returned _ _)
  | frame hp => exact absurd hr (onMessage_not_returned hp _ _)
  | datagram hp => exact absurd hr (onMessage_not_returned hp _ _)
  | resendFailed => exact absurd hr (disconnect_not_returned hres)
  | expired => exact absurd hr (disconnect_not_returned hres)
  | pingFailed => exact absurd hr (disconnect_not_returned hres)
  | freshFailed => exact absurd hr (disconnect_not_returned hres)
  | disconnected => exact absurd hr (disconnect_not_returned hres)
  | loginFailed => simp [Client.occurs] at hoccurs
  | stdinError => cases hr; exact .stdin
  | badFrame => cases hr; exact .malformed
  | writeFailed => cases hr; exact .output
  | flushFailed => cases hr; exact .output
  | exitAcked hp => cases hr; exact .exit (hexit _ _ hp)
  | exitAckFailed hp => cases hr; exact .exit (hexit _ _ hp)
  | _ => cases hr

end Client

/-! ## Ends of the login -/

section Login

variable {l l' : Login} {ev : LoginEvent} {err : LoginError}

theorem wait_finished {endpoints : Discovery} {device : DeviceAuthorization} {now delay : Nat}
    (hf : (l.wait endpoints device now delay).pc = .finished (.error err)) :
    l.deadline < now + delay ∧ err = .expired := by
  by_cases h : l.deadline < now + delay
  · simp only [Login.wait, h, if_true, Login.fail, LoginPc.finished.injEq, Except.error.injEq] at hf
    exact ⟨h, hf.symm⟩
  · simp [Login.wait, h] at hf

/-- The poll of a login whose network works fails only on the provider's word. -/
theorem told_of_poll {endpoints : Discovery} {device : DeviceAuthorization}
    {reply : Option (HttpResponse TokenResponse)} {now : Nat} (hl : s.login = some l)
    (hu : l.unbroken (.polled reply now) = true)
    (hf : (l.onPoll endpoints device now (tokenRequest reply)).pc = .finished (.error err)) :
    Told s (.login (.polled reply now)) (.error err.toClient) := by
  simp only [Login.unbroken] at hu
  rcases hreply : tokenRequest reply with (_ | delay) | (error | tokens)
  · simp [hreply] at hu
  · simp only [hreply, decide_eq_true_eq] at hu
    simp only [hreply, Login.onPoll] at hf
    have hlt := (wait_finished hf).1
    omega
  · simp only [hreply, Login.onPoll] at hf
    cases hnext : l.nextInterval error with
    | none =>
      rw [hnext] at hf
      cases hf
      exact .rejected hl hreply hnext
    | some interval =>
      rw [hnext] at hf
      obtain ⟨hnow, rfl⟩ := wait_finished hf
      exact .expired hl hreply hnext hnow
  · simp [hreply, Login.onPoll] at hf

theorem told_of_login_step (hl : s.login = some l) (hs : Login.Step l ev l')
    (hu : l.unbroken ev = true) (hf : l'.pc = .finished (.error err)) :
    Told s (.login ev) (.error err.toClient) := by
  cases hs with
  | noTerminal => cases hf; exact .noTerminal
  | refused _ hr => cases hf; exact .refused hr
  | polled => exact told_of_poll hl hu hf
  | notDiscovered _ hr => simp [Login.unbroken, hr] at hu
  | notAuthorized _ hr => simp [Login.unbroken, hr] at hu
  | notBuilt => cases hu
  | notPrompted => cases hu
  | notStored => cases hu
  | notConfirmed => cases hu
  | _ => cases hf

/-- A broken step ends the login, and nobody asked for it. -/
theorem untold_of_broken (hs : Login.Step l ev l') (hu : l.unbroken ev = false) :
    ∃ err : LoginError, l'.pc = .finished (.error err) ∧
      ¬ Told s (.login ev) (.error err.toClient) := by
  cases hs with
  | opened => cases hu
  | noTerminal => cases hu
  | built => cases hu
  | notBuilt => exact ⟨_, rfl, fun h => by cases h⟩
  | discovered _ hr => simp [Login.unbroken, hr] at hu
  | notDiscovered => exact ⟨_, rfl, fun h => by cases h⟩
  | authorized _ hr => simp [Login.unbroken, hr] at hu
  | refused _ hr => simp [Login.unbroken, hr] at hu
  | notAuthorized _ hr =>
    refine ⟨_, rfl, fun h => ?_⟩
    generalize LoginError.toClient _ = e at h
    cases h with
    | refused hr' => rw [hr] at hr'; cases hr'
  | prompted => cases hu
  | notPrompted => exact ⟨_, rfl, fun h => by cases h⟩
  | @polled endpoints device reply now =>
    simp only [Login.unbroken] at hu
    rcases hreply : tokenRequest reply with (_ | delay) | answer
    · refine ⟨.poll, by simp [Login.onPoll, Login.fail], fun h => ?_⟩
      cases h
    · simp only [hreply, decide_eq_false_iff_not, not_le] at hu
      refine ⟨.expired, by simp [Login.onPoll, Login.wait, hu, Login.fail], fun h => ?_⟩
      cases h with
      | rejected _ hr => rw [hreply] at hr; cases hr
      | expired _ hr => rw [hreply] at hr; cases hr
    · simp [hreply] at hu
  | woke => cases hu
  | stored => cases hu
  | notStored => exact ⟨_, rfl, fun h => by cases h⟩
  | confirmed => cases hu
  | notConfirmed => exact ⟨_, rfl, fun h => by cases h⟩

end Login

/-! ## Whole runs -/

/-- Every step of an exec: one of its client, or one of the login it waits for. -/
inductive Step (name : String) (oidc : OidcTarget) (s : Exec) : ExecEvent → Exec → Prop
  | client {quic : Bool} {e : ClientEvent} {c' : Client} (hoccurs : s.client.occurs e = true)
      (hs : Client.Step quic s.client e c') :
      Step name oidc s (.client quic e)
        ⟨c', if c'.pc = .loggingIn then some (.start name oidc) else none⟩
  | login {e : LoginEvent} {l l' : Login} (hl : s.login = some l) (hs : Login.Step l e l')
      (hf : ∀ result, l'.pc ≠ .finished result) :
      Step name oidc s (.login e) { s with login := some l' }
  | ended {e : LoginEvent} {l l' : Login} {result : Except LoginError Unit} {c' : Client}
      (hl : s.login = some l) (hs : Login.Step l e l') (hf : l'.pc = .finished result)
      (hc : Client.Step false s.client (ended result) c') :
      Step name oidc s (.login e) ⟨c', none⟩

theorem Step.of_step (h : s.step name oidc e = some s') : Step name oidc s e s' := by
  cases e with
  | client quic e =>
    simp only [step] at h
    split_ifs at h with hoccurs
    obtain ⟨c', hc, rfl⟩ := Option.map_eq_some_iff.mp h
    exact .client hoccurs (.of_step hc)
  | login e =>
    obtain ⟨l, hl, h⟩ := Option.bind_eq_some_iff.mp h
    obtain ⟨l', hs, h⟩ := Option.bind_eq_some_iff.mp h
    split at h
    · rename_i result hf
      obtain ⟨c', hc, rfl⟩ := Option.map_eq_some_iff.mp h
      exact .ended hl (.of_step hs) hf (.of_step hc)
    · rename_i hf
      cases h
      exact .login hl (.of_step hs) hf

/-- Exit codes are the server's, and `run_exec` waits while a login runs. -/
structure Waits (s : Exec) : Prop where
  exit : ExitKnown s.client
  login : s.login.isSome = true → s.client.pc = .loggingIn

theorem Waits.step (h : Waits s) (hs : Step name oidc s e s') : Waits s' := by
  cases hs with
  | client _ hs =>
    refine ⟨exitKnown_step h.exit hs, fun hl => ?_⟩
    by_contra hp
    simp [hp] at hl
  | login hl => exact ⟨h.exit, fun _ => h.login (by simp [hl])⟩
  | ended _ _ _ hc => exact ⟨exitKnown_step h.exit hc, fun hl => by cases hl⟩

theorem waits_reachable (h : (machine name oidc).Reachable s) : Waits s := by
  refine h.invariant ?_ fun s e s' hw _ hs => hw.step (.of_step hs)
  rintro s ⟨tokenSource, rfl⟩
  exact ⟨exitKnown_of_pc (by simp [start]), fun hl => by cases hl⟩

theorem endsOnlyWhenTold_of_unbroken (h : Waits s) (hu : s.unbroken e = true) :
    EndsOnlyWhenTold name oidc s e := by
  intro s' r hres hstep hr
  cases Step.of_step hstep with
  | client hoccurs hs => exact told_of_client_step hs hoccurs hres h.exit hr
  | login hl =>
    rw [h.login (by simp [hl])] at hr
    cases hr
  | @ended _ _ _ result _ hl hs hf hc =>
    simp only [unbroken, hl, Option.all_some] at hu
    cases result with
    | ok => cases hc; cases hr
    | error err =>
      cases hc
      cases hr
      exact told_of_login_step hl hs hu hf

/-- **A resumable exec ends only when told**: in every state of every run, at each step that does
not break a login, and at no step that does. -/
theorem gives_up_iff (h : (machine name oidc).Reachable s)
    (hres : s.client.resumeToken.isSome = true) (hstep : s.step name oidc e = some s') :
    EndsOnlyWhenTold name oidc s e ↔ s.unbroken e = true := by
  refine ⟨fun htold => ?_, endsOnlyWhenTold_of_unbroken (waits_reachable h)⟩
  by_contra hu
  cases Step.of_step hstep with
  | client => exact hu rfl
  | login hl hs hf =>
    simp only [unbroken, hl, Option.all_some, Bool.not_eq_true] at hu
    obtain ⟨err, herr, -⟩ := untold_of_broken (s := s) hs hu
    exact hf _ herr
  | ended hl hs hf hc =>
    simp only [unbroken, hl, Option.all_some, Bool.not_eq_true] at hu
    obtain ⟨err, herr, huntold⟩ := untold_of_broken (s := s) hs hu
    cases hf.symm.trans herr
    cases hc
    exact huntold (htold _ _ hres hstep rfl)

/-! ## A provider that answers, and one that does not -/

/-- The provider the examples log in at. -/
def provider : OidcTarget := ⟨"https://sso.example/", "herdr"⟩

def endpoints : Discovery := ⟨"https://sso.example/device", "https://sso.example/token"⟩

def device : DeviceAuthorization := ⟨"d", "WDJB-MJHT", "https://sso.example/go", none, none, 600⟩

/-- A response of the provider. -/
def answer {α : Type} (status : Nat) (json : Option α) (error : Option String) :
    Option (HttpResponse α) :=
  some ⟨status, none, json, error⟩

/-- The exec starts, loses its connection, and finds that its refresh token has expired. -/
def logsInAgain : List ExecEvent :=
  [.client true .authenticated, .client true (.frame (.started (some "7-1-0"))),
    .client true .disconnected, .client false .wake, .client false (.connectFailed .http),
    .client false .wake, .client false (.connectFailed .notLoggedIn), .login (.opened true),
    .login (.built true)]

/-- The user has not confirmed yet, and the provider is rate limiting the polls. -/
def confirms : List ExecEvent :=
  [.login (.discovered (answer 200 (some endpoints) none)),
    .login (.authorized (answer 200 (some device) none)), .login (.prompted true 0),
    .login (.polled (answer 400 none (some "authorization_pending")) 0), .login .woke,
    .login (.polled (answer 429 none none) (fromSecs 5)), .login .woke]

def confirming : Exec :=
  ((machine "mine" provider).run (start .oidc) (logsInAgain ++ confirms)).get (by decide)

/-- The user declines, and the exec was told to end. -/
theorem declined_was_told :
    (machine "mine" provider).Reachable confirming ∧
    (confirming.step "mine" provider
      (.login (.polled (answer 400 none (some "access_denied")) (fromSecs 35)))).map
        (fun s => s.client.pc) = some (.returned (.error .oidc)) ∧
    EndsOnlyWhenTold "mine" provider confirming
      (.login (.polled (answer 400 none (some "access_denied")) (fromSecs 35))) := by
  have hreach : (machine "mine" provider).Reachable confirming :=
    Machine.reachable_of_run ⟨.oidc, rfl⟩ (Option.some_get _).symm
  have hstep : (confirming.step "mine" provider
      (.login (.polled (answer 400 none (some "access_denied")) (fromSecs 35)))).map
        (fun s => s.client.pc) = some (.returned (.error .oidc)) := by decide
  obtain ⟨s', hs', -⟩ := Option.map_eq_some_iff.mp hstep
  exact ⟨hreach, hstep, (gives_up_iff hreach (by decide) hs').mpr (by decide)⟩

def unreachable : Exec :=
  ((machine "mine" provider).run (start .oidc) logsInAgain).get (by decide)

/-- The provider cannot be reached for the discovery document, and the exec is over. -/
theorem unreachable_provider_gives_up :
    (machine "mine" provider).Reachable unreachable ∧
    unreachable.client.resumeToken = some "7-1-0" ∧
    (unreachable.step "mine" provider (.login (.discovered none))).map (fun s => s.client.pc) =
      some (.returned (.error .http)) ∧
    ¬ EndsOnlyWhenTold "mine" provider unreachable (.login (.discovered none)) := by
  have hstep : (unreachable.step "mine" provider (.login (.discovered none))).map
      (fun s => s.client.pc) = some (.returned (.error .http)) := by decide
  refine ⟨Machine.reachable_of_run ⟨.oidc, rfl⟩ (Option.some_get _).symm, by decide, hstep, ?_⟩
  intro htold
  obtain ⟨s', hs', hpc⟩ := Option.map_eq_some_iff.mp hstep
  cases htold s' _ (by decide) hs' hpc

end Exec

end HerdrEternal
