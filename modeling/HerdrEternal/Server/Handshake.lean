import HerdrEternal.Lib.Machine
import HerdrEternal.Lib.Table
import HerdrEternal.Proto.Codec
import HerdrEternal.Server.Auth

/-!
# The handshake

`handle_connection` of `server/src/lib.rs`, from a new connection to the point where it has acted
on the client's request, over the frames and datagrams that arrive. `Channel::recv` skips
datagrams; a frame that does not decode, a rejected token, or a connection that closes or fails
ends the handler.

`Listener` is a daemon with all its connections. They share the key set that `Oidc` caches: a call
of `verify` finds what the calls before it have fetched. It holds the set's lock from its first
fetch to its last, so it is one step.

**Theorem (`authenticated_first`).** Whatever arrives, and in whatever order: the daemon sends
`Welcome`, starts a command, or looks up or attaches a session only on a connection whose first
frame is a `Hello` with a token that `verify` was called with in this run, and that the policy
accepts under what that call saw. This is the issuer's answers to it, and a cached key set that the
issuer gave to a call before. And every token the policy accepts is accepted by `verify`.
-/

namespace HerdrEternal

/-! ## The machine -/

/-- What a connection can make the daemon do. -/
inductive Effect where
  | welcome (w : Welcome)
  | start (command : String) (resumable forwardAgent : Bool)
  | lookup (token : String)
  | attach
  deriving DecidableEq

/-- Where the handler is suspended. -/
inductive HandshakePc where
  | hello
  | verifying (token : String)
  | welcome
  | request
  | starting
  | lookingUp
  | serving
  | closed
  deriving DecidableEq

structure Handshake where
  pc : HandshakePc
  /-- The frames taken from the channel so far. -/
  frames : List Data
  effects : List Effect
  deriving DecidableEq

inductive HandshakeEvent where
  | frame (bytes : Data)
  | datagram (bytes : Data)
  | closed
  | failed
  /-- `auth.verify(&hello.token)` returns. -/
  | verified (r : Except AuthError Unit)
  | sent
  | sendFailed
  | started (ok : Bool)
  | found (ok : Bool)

def HandshakeEvent.isVerified : HandshakeEvent → Bool
  | .verified _ => true
  | _ => false

/-- What the handler depends on. -/
structure HandshakeEnv (κ : Type) where
  zstd : Zstd
  jwt : Jwt κ
  auth : AuthConfig
  /-- The user and the version in `Welcome`. -/
  identity : Welcome

namespace Handshake

variable {κ : Type} (env : HandshakeEnv κ)

def goTo (h : Handshake) (pc : HandshakePc) : Handshake := { h with pc := pc }

def act (h : Handshake) (effect : Effect) (pc : HandshakePc) : Handshake :=
  { h with effects := h.effects ++ [effect], pc := pc }

def onHello (h : Handshake) (bytes : Data) : Handshake :=
  let h := { h with frames := h.frames ++ [bytes] }
  match (decode env.zstd bytes : Except ProtocolError Hello) with
  | .ok hello => h.goTo (.verifying hello.token)
  | .error _ => h.goTo .closed

def onVerified (h : Handshake) : Except AuthError Unit → Handshake
  | .ok () => h.act (.welcome env.identity) .welcome
  | .error _ => h.goTo .closed

def onRequest (h : Handshake) (bytes : Data) : Handshake :=
  let h := { h with frames := h.frames ++ [bytes] }
  match (decode env.zstd bytes : Except ProtocolError (ExecRequest UInt64)) with
  | .ok (.exec command resumable forwardAgent) =>
    h.act (.start command resumable forwardAgent) .starting
  | .ok (.resume token _) | .ok (.agentChannel token) => h.act (.lookup token) .lookingUp
  | .error _ => h.goTo .closed

def step (h : Handshake) (e : HandshakeEvent) : Option Handshake :=
  match h.pc, e with
  | .hello, .frame bytes => some (h.onHello env bytes)
  | .hello, .datagram _ | .request, .datagram _ => some h
  | .hello, .closed | .request, .closed | .hello, .failed | .request, .failed =>
    some (h.goTo .closed)
  | .verifying _, .verified r => some (h.onVerified env r)
  | .welcome, .sent => some (h.goTo .request)
  | .welcome, .sendFailed => some (h.goTo .closed)
  | .request, .frame bytes => some (h.onRequest env bytes)
  | .starting, .started ok | .lookingUp, .found ok =>
    some (if ok then h.act .attach .serving else h.goTo .closed)
  | _, _ => none

def start : Handshake := ⟨.hello, [], []⟩

/-- The token that `verify` has been called with. -/
def presented (h : Handshake) : Option String :=
  match h.pc with
  | .verifying token => some token
  | _ => none

end Handshake

/-- All connections of a daemon, and the key set in its `Oidc`. -/
structure Listener where
  jwks : Option JwkSet
  conns : List Handshake

inductive ListenerLabel where
  | accept
  | conn (i : Nat) (e : HandshakeEvent)
  /-- The call of `verify` for a connection, with the answers that its two fetches get if they are
  made. -/
  | verify (i : Nat) (w₁ w₂ : World)

namespace Listener

variable {κ : Type} (env : HandshakeEnv κ)

def start : Listener := ⟨none, []⟩

def step (x : Listener) : ListenerLabel → Option Listener
  | .accept => some { x with conns := x.conns ++ [.start] }
  | .conn i e =>
    if e.isVerified then none
    else x.conns[i]?.bind fun h =>
      (h.step env e).map fun h => { x with conns := x.conns.set i h }
  | .verify i w₁ w₂ =>
    x.conns[i]?.bind fun h => h.presented.bind fun token =>
      let (r, jwks) := env.auth.verify env.jwt w₁ w₂ x.jwks token
      (h.step env (.verified r)).map fun h => ⟨jwks, x.conns.set i h⟩

end Listener

def listenerMachine {κ : Type} (env : HandshakeEnv κ) : Machine Listener ListenerLabel where
  init x := x = .start
  step := Listener.step env

/-! ## The property -/

/-- The issuer gave this key set to a call of `verify` in the run, or would have on a fetch. -/
def Answered (c : OidcConfig) (ls : List ListenerLabel) (set : JwkSet) : Prop :=
  ∃ i w₁ w₂, .verify i w₁ w₂ ∈ ls ∧ (c.fetchJwks w₁ = .ok set ∨ c.fetchJwks w₂ = .ok set)

section

variable {κ : Type} (env : HandshakeEnv κ)

/-- After the run `ls` the policy accepts the token that `verify` is called with for connection `i`,
under the issuer's answers to this call and under the cached key set, which comes from the issuer
too. -/
structure Grants (ls : List ListenerLabel) (i : Nat) (w₁ w₂ : World) (token : String)
    (x : Listener) : Prop where
  reached : (listenerMachine env).traced.Reachable (ls, x)
  presented : x.conns[i]?.bind (·.presented) = some token
  accepted : env.auth.Accepted env.jwt w₁ w₂ x.jwks token
  cached : ∀ c set, env.auth.oidc = some c → x.jwks = some set → Answered c ls set

/-- The run has a call of `verify` for connection `i` that grants the token. -/
def Verified (ls : List ListenerLabel) (i : Nat) (token : String) : Prop :=
  ∃ before w₁ w₂ after x,
    ls = before ++ .verify i w₁ w₂ :: after ∧ Grants env before i w₁ w₂ token x

/-- The first frame is a `Hello` with a token that `P` holds of. -/
def Authenticated (P : String → Prop) (h : Handshake) : Prop :=
  ∃ (bytes : Data) (hello : Hello),
    h.frames.head? = some bytes ∧ decode env.zstd bytes = .ok hello ∧ P hello.token

variable {env} {ls : List ListenerLabel} {P Q : String → Prop} {h h' : Handshake}

theorem Answered.concat {c : OidcConfig} {set : JwkSet} (h : Answered c ls set)
    (l : ListenerLabel) : Answered c (ls ++ [l]) set := by
  obtain ⟨i, w₁, w₂, hmem, hset⟩ := h
  exact ⟨i, w₁, w₂, List.mem_append_left _ hmem, hset⟩

theorem Verified.concat {i : Nat} {token : String} (h : Verified env ls i token)
    (l : ListenerLabel) : Verified env (ls ++ [l]) i token := by
  obtain ⟨before, w₁, w₂, after, x, rfl, hg⟩ := h
  exact ⟨before, w₁, w₂, after ++ [l], x, by simp, hg⟩

theorem Authenticated.mono (ha : Authenticated env P h) (hpq : ∀ t, P t → Q t) :
    Authenticated env Q h := by
  obtain ⟨bytes, hello, hhead, hd, hp⟩ := ha
  exact ⟨bytes, hello, hhead, hd, hpq _ hp⟩

theorem Authenticated.frames (ha : Authenticated env P h) (hf : h.frames <+: h'.frames) :
    Authenticated env P h' := by
  obtain ⟨bytes, hello, hhead, hrest⟩ := ha
  obtain ⟨later, hlater⟩ := hf
  exact ⟨bytes, hello, by rw [← hlater, List.head?_append, hhead]; rfl, hrest⟩

end

/-! ## One connection -/

namespace Handshake

variable {κ : Type} {env : HandshakeEnv κ} {P Q : String → Prop} {h h' : Handshake}

/-- **The invariant.** Before the token is verified nothing is done, and at most one frame is
taken. -/
inductive Guarded (env : HandshakeEnv κ) (P : String → Prop) : Handshake → Prop
  | hello : Guarded env P start
  | verifying {bytes : Data} {hello : Hello} (hd : decode env.zstd bytes = .ok hello) :
      Guarded env P ⟨.verifying hello.token, [bytes], []⟩
  | refused {frames : List Data} : Guarded env P ⟨.closed, frames, []⟩
  | authenticated {h : Handshake} (ha : Authenticated env P h) (hne : h.pc ≠ .hello)
      (hv : ∀ t, h.pc ≠ .verifying t) : Guarded env P h

theorem Guarded.mono (hg : Guarded env P h) (hpq : ∀ t, P t → Q t) : Guarded env Q h := by
  cases hg with
  | hello => exact .hello
  | verifying hd => exact .verifying hd
  | refused => exact .refused
  | authenticated ha hne hv => exact .authenticated (ha.mono hpq) hne hv

theorem Guarded.goTo (ha : Authenticated env P h) {pc : HandshakePc} (hne : pc ≠ .hello)
    (hv : ∀ t, pc ≠ .verifying t) : Guarded env P (h.goTo pc) :=
  .authenticated (ha.frames List.prefix_rfl) hne hv

theorem Guarded.act (ha : Authenticated env P h) {effect : Effect} {pc : HandshakePc}
    (hne : pc ≠ .hello) (hv : ∀ t, pc ≠ .verifying t) : Guarded env P (h.act effect pc) :=
  .authenticated (ha.frames List.prefix_rfl) hne hv

theorem Guarded.onRequest (ha : Authenticated env P h) (bytes : Data) :
    Guarded env P (h.onRequest env bytes) := by
  have ha' : Authenticated env P { h with frames := h.frames ++ [bytes] } :=
    ha.frames (List.prefix_append _ _)
  unfold Handshake.onRequest
  dsimp only
  split
  · exact .act ha' (by simp) (by simp)
  · exact .act ha' (by simp) (by simp)
  · exact .act ha' (by simp) (by simp)
  · exact .goTo ha' (by simp) (by simp)

theorem Guarded.onVerified {bytes : Data} {hello : Hello}
    (hd : decode env.zstd bytes = .ok hello) {r : Except AuthError Unit}
    (hr : r = .ok () → P hello.token) :
    Guarded env P (onVerified env ⟨.verifying hello.token, [bytes], []⟩ r) := by
  cases r with
  | error e => exact .refused
  | ok u => exact .act ⟨bytes, hello, rfl, hd, hr rfl⟩ (by simp) (by simp)

/-- A step of the handler keeps what is done behind the verified token. -/
theorem Guarded.step {e : HandshakeEvent} (hg : Guarded env P h) (hs : h.step env e = some h')
    (hverified : ∀ token, h.presented = some token → e = .verified (.ok ()) → P token) :
    Guarded env P h' := by
  cases hg with
  | hello =>
    cases e with
    | frame bytes =>
      cases hs
      unfold Handshake.onHello
      dsimp only
      split
      · exact .verifying ‹_›
      · exact .refused
    | datagram bytes => cases hs; exact .hello
    | closed => cases hs; exact .refused
    | failed => cases hs; exact .refused
    | _ => cases hs
  | @verifying bytes hello hd =>
    cases e with
    | verified r =>
      cases hs
      exact .onVerified hd fun hr => hverified hello.token rfl (by rw [hr])
    | _ => cases hs
  | refused => cases e <;> cases hs
  | authenticated ha hne hv =>
    unfold Handshake.step at hs
    split at hs
    · exact absurd ‹_› hne
    · exact absurd ‹_› hne
    · cases hs; exact .authenticated ha hne hv
    · exact absurd ‹_› hne
    · cases hs; exact .goTo ha (by simp) (by simp)
    · exact absurd ‹_› hne
    · cases hs; exact .goTo ha (by simp) (by simp)
    · exact absurd ‹_› (hv _)
    · cases hs; exact .goTo ha (by simp) (by simp)
    · cases hs; exact .goTo ha (by simp) (by simp)
    · cases hs; exact .onRequest ha _
    · cases hs
      split_ifs
      · exact .act ha (by simp) (by simp)
      · exact .goTo ha (by simp) (by simp)
    · cases hs
      split_ifs
      · exact .act ha (by simp) (by simp)
      · exact .goTo ha (by simp) (by simp)
    · cases hs

end Handshake

/-! ## Authentication comes first -/

namespace Listener

variable {κ : Type} {env : HandshakeEnv κ} {ls : List ListenerLabel} {x x' : Listener}

/-- Every step, with the guard it passed. -/
inductive Step (env : HandshakeEnv κ) (x : Listener) : ListenerLabel → Listener → Prop
  | accept : Step env x .accept { x with conns := x.conns ++ [.start] }
  | conn {i : Nat} {e : HandshakeEvent} {h h' : Handshake} (he : e.isVerified = false)
      (hget : x.conns[i]? = some h) (hs : h.step env e = some h') :
      Step env x (.conn i e) { x with conns := x.conns.set i h' }
  | verify {i : Nat} {w₁ w₂ : World} {h h' : Handshake} {token : String}
      (hget : x.conns[i]? = some h) (ht : h.presented = some token)
      (hs : h.step env (.verified (env.auth.verify env.jwt w₁ w₂ x.jwks token).1) = some h') :
      Step env x (.verify i w₁ w₂)
        ⟨(env.auth.verify env.jwt w₁ w₂ x.jwks token).2, x.conns.set i h'⟩

theorem Step.of_step {l : ListenerLabel} (hs : x.step env l = some x') : Step env x l x' := by
  cases l with
  | accept =>
    cases hs
    exact .accept
  | conn i e =>
    simp only [step] at hs
    split_ifs at hs with he
    obtain ⟨h, hget, hs⟩ := Option.bind_eq_some_iff.mp hs
    obtain ⟨h', hst, rfl⟩ := Option.map_eq_some_iff.mp hs
    exact .conn ((Bool.not_eq_true _).mp he) hget hst
  | verify i w₁ w₂ =>
    obtain ⟨h, hget, hs⟩ := Option.bind_eq_some_iff.mp hs
    obtain ⟨token, ht, hs⟩ := Option.bind_eq_some_iff.mp hs
    obtain ⟨h', hst, rfl⟩ := Option.map_eq_some_iff.mp hs
    exact .verify hget ht hst

theorem step_conn {i : Nat} {e : HandshakeEvent} {h h' : Handshake} (he : e.isVerified = false)
    (hget : x.conns[i]? = some h) (hs : h.step env e = some h') :
    (listenerMachine env).step x (.conn i e) = some { x with conns := x.conns.set i h' } := by
  simp [listenerMachine, step, he, hget, hs]

theorem step_verify {i : Nat} {w₁ w₂ : World} {h h' : Handshake} {token : String}
    {r : Except AuthError Unit} {jwks : Option JwkSet} (hget : x.conns[i]? = some h)
    (ht : h.presented = some token)
    (hv : env.auth.verify env.jwt w₁ w₂ x.jwks token = (r, jwks))
    (hs : h.step env (.verified r) = some h') :
    (listenerMachine env).step x (.verify i w₁ w₂) = some ⟨jwks, x.conns.set i h'⟩ := by
  simp [listenerMachine, step, hget, ht, hv, hs]

/-- What holds of the connections after a run, and of the cached key set. -/
structure Ok (env : HandshakeEnv κ) (ls : List ListenerLabel) (x : Listener) : Prop where
  guarded : ∀ i h, x.conns[i]? = some h → Handshake.Guarded env (Verified env ls i) h
  cached : ∀ c set, env.auth.oidc = some c → x.jwks = some set → Answered c ls set

/-- The connections stay guarded, whichever of them takes a step. -/
theorem Ok.step {l : ListenerLabel} (hreach : (listenerMachine env).traced.Reachable (ls, x))
    (hok : Ok env ls x) (hs : x.step env l = some x') : Ok env (ls ++ [l]) x' := by
  have hkept : ∀ i h, x.conns[i]? = some h → Handshake.Guarded env (Verified env (ls ++ [l]) i) h :=
    fun i h hget => (hok.guarded i h hget).mono fun t ht => ht.concat l
  have hcached : ∀ c set, env.auth.oidc = some c → x.jwks = some set → Answered c (ls ++ [l]) set :=
    fun c set hc hset => (hok.cached c set hc hset).concat l
  cases Step.of_step hs with
  | accept =>
    exact ⟨Table.forall_concat (P := fun i => Handshake.Guarded env (Verified env _ i)) hkept .hello,
      hcached⟩
  | @conn i e h h' he hget hst =>
    have hmoved := (hkept i h hget).step hst fun token _ heq => by
      rw [heq] at he
      cases he
    exact ⟨Table.forall_set (P := fun i => Handshake.Guarded env (Verified env _ i)) hkept hmoved,
      hcached⟩
  | @verify i w₁ w₂ h h' token hget ht hst =>
    -- this is the call that grants the token, if it returns `Ok`
    have hgranted : (env.auth.verify env.jwt w₁ w₂ x.jwks token).1 = .ok () →
        Verified env (ls ++ [.verify i w₁ w₂]) i token := by
      intro hr
      refine ⟨ls, w₁, w₂, [], x, rfl, hreach, ?_, AuthConfig.verify_eq_ok_iff.mp hr, hok.cached⟩
      rw [hget, Option.bind_some, ht]
    have hmoved : Handshake.Guarded env (Verified env (ls ++ [.verify i w₁ w₂]) i) h' := by
      refine (hkept i h hget).step hst fun token' ht' heq => ?_
      rw [ht, Option.some.injEq] at ht'
      subst ht'
      exact hgranted (HandshakeEvent.verified.inj heq)
    refine ⟨Table.forall_set (P := fun i => Handshake.Guarded env (Verified env _ i)) hkept hmoved,
      fun c set hc hset => ?_⟩
    rcases AuthConfig.verify_cached hset with heq | ⟨c', hc', hfetch⟩
    · exact hcached c set hc heq
    · cases hc.symm.trans hc'
      exact ⟨i, w₁, w₂, by simp, hfetch⟩

theorem ok_of_reachable {y : List ListenerLabel × Listener}
    (h₀ : (listenerMachine env).traced.Reachable y) : Ok env y.1 y.2 := by
  unfold Machine.Reachable at h₀
  induction h₀ with
  | @init y hinit =>
    obtain ⟨ls, x⟩ := y
    obtain ⟨rfl, rfl⟩ := hinit
    exact ⟨fun i h hget => (by cases hget), fun c set _ hset => (by cases hset)⟩
  | step hreach _ hs ih =>
    obtain ⟨x', hx', rfl⟩ := Option.map_eq_some_iff.mp hs
    exact ih.step hreach hx'

/-- **Nothing happens before authentication, and the policy is the documented one.** -/
theorem authenticated_first (env : HandshakeEnv κ) :
    (∀ ls x, (listenerMachine env).traced.Reachable (ls, x) → ∀ i h, x.conns[i]? = some h →
      h.effects ≠ [] → Authenticated env (Verified env ls i) h) ∧
    (∀ w₁ w₂ jwks token, env.auth.Accepted env.jwt w₁ w₂ jwks token →
      (env.auth.verify env.jwt w₁ w₂ jwks token).1 = .ok ()) := by
  refine ⟨fun ls x h₀ i h hget hne => ?_, fun w₁ w₂ jwks token => AuthConfig.verify_eq_ok_iff.mpr⟩
  cases (ok_of_reachable h₀).guarded i h hget with
  | hello => exact absurd rfl hne
  | verifying => exact absurd rfl hne
  | refused => exact absurd rfl hne
  | authenticated ha => exact ha

end Listener

namespace Handshake

/-- A daemon that knows its issuer, and how jsonwebtoken sees one token of it. -/
def sampleEnv : HandshakeEnv Unit where
  zstd := .stored
  jwt :=
    { decodeHeader := fun _ => .ok ⟨some "k1", "RS256"⟩
      fromJwk := fun _ => .ok ()
      check := fun token _ _ _ =>
        if token = "e30.e30.c2ln" then
          .ok ⟨some (.string "joerg"), none, some (.array [some "herdr-eternal"])⟩
        else .error "InvalidSignature" }
  auth := ⟨some "static-secret", some ⟨"https://auth.example.com/", "herdr-eternal", "joerg"⟩⟩
  identity := ⟨"joerg", "0.1.0"⟩

/-- What its issuer answers. -/
def sampleWorld : World where
  discovery url :=
    if url = "https://auth.example.com/.well-known/openid-configuration" then
      some "https://auth.example.com/jwks.json"
    else none
  jwks _ := some [⟨some "k1", "n"⟩]

def sampleHello : Hello := ⟨"e30.e30.c2ln", "herdr", "0.1.0"⟩

def sampleRequest : ExecRequest UInt64 := .resume "7-1-0" 3

/-- A provider that cannot be reached. -/
def unreachable : World := ⟨fun _ => none, fun _ => none⟩

/-- A connection that brings the key set in, and one that finds it cached: it sends a stray datagram,
a bearer token, and the request along with it. -/
def sampleRun : List ListenerLabel :=
  [.accept, .conn 0 (.frame (encode Zstd.stored sampleHello)), .verify 0 sampleWorld sampleWorld,
   .accept, .conn 1 (.datagram [1, 2]), .conn 1 (.frame (encode Zstd.stored sampleHello)),
   .verify 1 unreachable unreachable, .conn 1 .sent,
   .conn 1 (.frame (encode Zstd.stored sampleRequest)), .conn 1 (.found true)]

def greeting : Handshake := ⟨.verifying sampleHello.token, [encode Zstd.stored sampleHello], []⟩

def greeted : Handshake :=
  ⟨.welcome, [encode Zstd.stored sampleHello], [.welcome ⟨"joerg", "0.1.0"⟩]⟩

def served : Handshake :=
  ⟨.serving, [encode Zstd.stored sampleHello, encode Zstd.stored sampleRequest],
    [.welcome ⟨"joerg", "0.1.0"⟩, .lookup "7-1-0", .attach]⟩

def sampleListener : Listener := ⟨some [⟨some "k1", "n"⟩], [greeted, served]⟩

theorem decode_stored {α : Type} [Postcard α] {msg : α} (h : Postcard.Fits msg) :
    decode Zstd.stored (encode Zstd.stored msg) = .ok msg := by
  rw [decode_encode Zstd.stored h, encode_stored]
  exact if_pos (.inl rfl)

theorem decode_sampleHello :
    decode sampleEnv.zstd (encode Zstd.stored sampleHello) = .ok sampleHello := by
  refine decode_stored ⟨?_, ?_, ?_⟩
  · show (asBytes "e30.e30.c2ln").length < 2 ^ 64
    decide
  · show (asBytes "herdr").length < 2 ^ 64
    decide
  · show (asBytes "0.1.0").length < 2 ^ 64
    decide

theorem decode_sampleRequest :
    decode sampleEnv.zstd (encode Zstd.stored sampleRequest) = .ok sampleRequest := by
  refine decode_stored ?_
  show (asBytes "7-1-0").length < 2 ^ 64
  decide

/-- The frames and the calls of `verify` are looked into here; the other steps are evaluation. -/
theorem run_sampleRun :
    (listenerMachine sampleEnv).run .start sampleRun = some sampleListener := by
  have hhello : start.step sampleEnv (.frame (encode Zstd.stored sampleHello)) = some greeting := by
    show some (onHello sampleEnv start _) = _
    rw [onHello, decode_sampleHello]
    rfl
  have hrequest : (greeted.goTo .request).step sampleEnv
      (.frame (encode Zstd.stored sampleRequest)) =
      some ⟨.lookingUp, [encode Zstd.stored sampleHello, encode Zstd.stored sampleRequest],
        [.welcome ⟨"joerg", "0.1.0"⟩, .lookup "7-1-0"]⟩ := by
    show some (onRequest sampleEnv _ _) = _
    rw [onRequest, decode_sampleRequest]
    rfl
  have hfetched : sampleEnv.auth.verify sampleEnv.jwt sampleWorld sampleWorld none
      sampleHello.token = (.ok (), some [⟨some "k1", "n"⟩]) := by decide
  have hcached : sampleEnv.auth.verify sampleEnv.jwt unreachable unreachable
      (some [⟨some "k1", "n"⟩]) sampleHello.token = (.ok (), some [⟨some "k1", "n"⟩]) := by decide
  refine Machine.run_cons rfl (Machine.run_cons (Listener.step_conn rfl rfl hhello) ?_)
  refine Machine.run_cons (Listener.step_verify rfl rfl hfetched rfl) (Machine.run_cons rfl ?_)
  refine Machine.run_cons rfl (Machine.run_cons (Listener.step_conn rfl rfl hhello) ?_)
  refine Machine.run_cons (Listener.step_verify rfl rfl hcached rfl) (Machine.run_cons rfl ?_)
  refine Machine.run_cons (Listener.step_conn rfl rfl hrequest) (Machine.run_cons ?_ rfl)
  exact Listener.step_conn rfl rfl rfl

theorem served_authenticated :
    (listenerMachine sampleEnv).traced.Reachable (sampleRun, sampleListener) ∧
    served.effects ≠ [] ∧ Authenticated sampleEnv (Verified sampleEnv sampleRun 1) served ∧
    sampleEnv.auth.Accepted sampleEnv.jwt sampleWorld sampleWorld none sampleHello.token ∧
    (sampleEnv.auth.verify sampleEnv.jwt sampleWorld sampleWorld none sampleHello.token).1 =
      .ok () := by
  have hne : served.effects ≠ [] := by decide
  have haccepted :
      sampleEnv.auth.Accepted sampleEnv.jwt sampleWorld sampleWorld none sampleHello.token := by
    refine .inr ⟨⟨"https://auth.example.com/", "herdr-eternal", "joerg"⟩, ⟨some "k1", "RS256"⟩, (),
      ⟨some (.string "joerg"), none, some (.array [some "herdr-eternal"])⟩, rfl, rfl, ?_, rfl, ?_, ?_⟩
    · exact ⟨[⟨some "k1", "n"⟩], .inr ⟨rfl, by decide⟩, .inl ⟨⟨some "k1", "n"⟩, by decide, rfl⟩⟩
    · exact ⟨.inr ⟨_, rfl⟩, .inl (.inl rfl), .inr (.inr ⟨["herdr-eternal"], rfl⟩)⟩
    · exact ⟨.inr (.inr (.inr ⟨_, rfl, by decide⟩)), .inl (.inl rfl), .inl rfl⟩
  have hrun : (listenerMachine sampleEnv).traced.run ([], .start) sampleRun =
      some (sampleRun, sampleListener) := Machine.traced_run run_sampleRun
  have hreach : (listenerMachine sampleEnv).traced.Reachable (sampleRun, sampleListener) := by
    refine Machine.reachable_of_run ?_ hrun
    exact ⟨rfl, rfl⟩
  exact ⟨hreach, hne,
    (Listener.authenticated_first sampleEnv).1 _ _ hreach 1 served rfl hne, haccepted,
    (Listener.authenticated_first sampleEnv).2 _ _ _ _ haccepted⟩

end Handshake

end HerdrEternal
