import HerdrEternal.Client.Login
import HerdrEternal.Server.Auth
import HerdrEternal.Server.Session
import Mathlib.Data.List.TakeWhile

/-!
# The server's options

`main` of `server/src/main.rs` reads the server's options and the file with the static token, and
makes the authentication policy of them. It only starts with a way to authenticate clients.

**The static token** is the content of the file without the white space around it. A file that holds
nothing else makes it the empty string, which is a token like any other.

**Theorem (`static_token_closed_iff`).** With options that `main` accepts, the static token lets in
exactly the clients that present it, and these present something, unless there is a token file
with nothing but white space in it.
-/

namespace HerdrEternal

/-! ## Options -/

structure Options where
  listen : Option String
  quicListen : Option String
  quicCert : Option String
  quicKey : Option String
  tokenFile : Option String
  oidcIssuer : Option String
  oidcClientId : Option String
  oidcAllowedSub : Option String
  sessionTimeoutSecs : Option String
  deriving DecidableEq

namespace Options

def unset : Options := ⟨none, none, none, none, none, none, none, none, none⟩

def set (o : Options) (flag : String) (value : Option String) : Option Options :=
  match flag with
  | "--listen" => some { o with listen := value }
  | "--quic-listen" => some { o with quicListen := value }
  | "--quic-cert" => some { o with quicCert := value }
  | "--quic-key" => some { o with quicKey := value }
  | "--token-file" => some { o with tokenFile := value }
  | "--oidc-issuer" => some { o with oidcIssuer := value }
  | "--oidc-client-id" => some { o with oidcClientId := value }
  | "--oidc-allowed-sub" => some { o with oidcAllowedSub := value }
  | "--session-timeout-secs" => some { o with sessionTimeoutSecs := value }
  | _ => none

/-- The loop over the arguments. A flag that nothing follows unsets its option. -/
def parse (o : Options) : List String → Option Options
  | [] => some o
  | [flag] => o.set flag none
  | flag :: value :: args => (o.set flag (some value)).bind fun o => o.parse args

end Options

/-- Why the server does not start. -/
inductive StartError where
  | usage
  | tokenFile (file : String)
  deriving DecidableEq

def USAGE : List String :=
  ["usage: herdr-eternal-server [--listen <addr:port>] [--token-file <path>]",
    "                           [--oidc-issuer <url> --oidc-client-id <id> " ++
      "--oidc-allowed-sub <sub>]",
    "                           [--session-timeout-secs <secs>]",
    "                           [--quic-listen <addr:port> --quic-cert <pem> --quic-key <pem>]",
    "The token file contains the pre-shared token clients may present.",
    "With --oidc-* set, OIDC bearer tokens from that issuer are also accepted.",
    "Without --listen, a listener from systemd socket activation is expected.",
    "With --quic-cert/--quic-key set, direct QUIC connections are also accepted,",
    "on --quic-listen or on a datagram socket from socket activation.",
    "Disconnected sessions are killed after the session timeout (default 7 days)."]

/-- What the server prints then. -/
def StartError.lines (err : String) : StartError → List String
  | .usage => USAGE
  | .tokenFile file => ["herdr-eternal-server: cannot read token file " ++ file ++ ": " ++ err]

/-- What `main` is given besides its arguments. -/
structure StartEnv where
  /-- A listening stream socket was passed in. -/
  listener : Bool
  /-- A datagram socket was passed in. -/
  quicSocket : Bool
  /-- The files it can read. -/
  readToString : String → Option String

structure ServerConfig where
  auth : AuthConfig
  listen : Option String
  quicListen : Option String
  quic : Option (String × String)
  sessionTimeout : Option Nat
  deriving DecidableEq

/-- `str::trim`. -/
def trimString (s : String) : String := String.ofList (trimChars s.toList)

def usageUnless (ok : Bool) : Except StartError Unit := if ok then .ok () else .error .usage

namespace Options

/-- The certificate and its key. -/
def quic (o : Options) : Except StartError (Option (String × String)) :=
  match o.quicListen, o.quicCert, o.quicKey with
  | _, some cert, some key => .ok (some (cert, key))
  | none, none, none => .ok none
  | _, _, _ => .error .usage

def staticToken (o : Options) (env : StartEnv) : Except StartError (Option String) :=
  match o.tokenFile with
  | none => .ok none
  | some file =>
    match env.readToString file with
    | some token => .ok (some (trimString token))
    | none => .error (.tokenFile file)

def oidc (o : Options) : Except StartError (Option OidcConfig) :=
  match o.oidcIssuer, o.oidcClientId, o.oidcAllowedSub with
  | some issuer, some clientId, some allowedSub => .ok (some ⟨issuer, clientId, allowedSub⟩)
  | none, none, none => .ok none
  | _, _, _ => .error .usage

def sessionTimeout (o : Options) : Except StartError (Option Nat) :=
  match o.sessionTimeoutSecs with
  | none => .ok none
  | some secs =>
    match parseU64 (asBytes secs) with
    | some secs => .ok (some (fromSecs secs))
    | none => .error .usage

/-- What `main` makes of its options. -/
def config (o : Options) (env : StartEnv) : Except StartError ServerConfig := do
  let quic ← o.quic
  usageUnless (o.listen.isSome || env.listener)
  usageUnless (quic.isNone || o.quicListen.isSome || env.quicSocket)
  let staticToken ← o.staticToken env
  let oidc ← o.oidc
  usageUnless (staticToken.isSome || oidc.isSome)
  let sessionTimeout ← o.sessionTimeout
  return ⟨⟨staticToken, oidc⟩, o.listen, o.quicListen, quic, sessionTimeout⟩

end Options

/-- `main`, up to the runtime. -/
def startServer (env : StartEnv) (args : List String) : Except StartError ServerConfig :=
  match Options.unset.parse args with
  | some o => o.config env
  | none => .error .usage

/-! ## The property -/

/-- The content of the token file that the arguments name. -/
def tokenFileContent (env : StartEnv) (args : List String) : Option String :=
  ((Options.unset.parse args).bind Options.tokenFile).bind env.readToString

/-- A policy without its OIDC part. -/
def AuthConfig.staticOnly (auth : AuthConfig) : AuthConfig := { auth with oidc := none }

/-- The static token lets nobody in but those who present it, and these present something. -/
structure FailsClosed {κ : Type} (j : Jwt κ) (auth : AuthConfig) (content : Option String) :
    Prop where
  static : ∀ w₁ w₂ jwks presented, (auth.staticOnly.verify j w₁ w₂ jwks presented).1 = .ok () →
    presented ≠ "" ∧ content.map trimString = some presented
  unauthenticated : ∀ w₁ w₂ jwks, (auth.verify j w₁ w₂ jwks "").1 = .ok () →
    ∃ c, auth.oidc = some c ∧ (c.verify j w₁ w₂ jwks "").1 = .ok ()

/-- Something in the text is not white space. -/
def NotBlank (text : String) : Prop := ∃ c ∈ text.toList, isWhiteSpace c = false

/-! ## What the options lead to -/

theorem bind_eq_ok {ε α β : Type} {x : Except ε α} {f : α → Except ε β} {b : β} :
    (x >>= f) = .ok b ↔ ∃ a, x = .ok a ∧ f a = .ok b := by
  cases x <;> simp [bind, Except.bind]

theorem usageUnless_eq_ok {ok : Bool} {u : Unit} : usageUnless ok = .ok u ↔ ok = true := by
  cases ok <;> simp [usageUnless]

section

variable {env : StartEnv} {args : List String} {o : Options} {cfg : ServerConfig}

/-- The policy is the one that the options ask for, and it has a method. -/
theorem Options.auth_of_config (h : o.config env = .ok cfg) :
    o.staticToken env = .ok cfg.auth.staticToken ∧ o.oidc = .ok cfg.auth.oidc ∧
      (cfg.auth.staticToken.isSome || cfg.auth.oidc.isSome) = true := by
  simp only [config, bind_eq_ok, usageUnless_eq_ok] at h
  obtain ⟨quic, -, -, -, -, -, token, htoken, oidc, hoidc, -, hmethod, timeout, -, hcfg⟩ := h
  cases hcfg
  exact ⟨htoken, hoidc, hmethod⟩

theorem Options.staticToken_eq_ok {token : Option String} (h : o.staticToken env = .ok token) :
    token = (o.tokenFile.bind env.readToString).map trimString := by
  unfold staticToken at h
  cases hfile : o.tokenFile with
  | none =>
    rw [hfile] at h
    cases h
    rfl
  | some file =>
    rw [hfile] at h
    dsimp only at h
    rw [Option.bind_some]
    cases hread : env.readToString file with
    | none =>
      rw [hread] at h
      cases h
    | some content =>
      rw [hread] at h
      cases h
      rfl

theorem options_of_startServer (h : startServer env args = .ok cfg) :
    ∃ o, Options.unset.parse args = some o ∧ o.config env = .ok cfg := by
  unfold startServer at h
  cases hparse : Options.unset.parse args with
  | none =>
    rw [hparse] at h
    cases h
  | some o =>
    rw [hparse] at h
    exact ⟨o, rfl, h⟩

/-- The server never starts without a way to authenticate clients. -/
theorem method_of_startServer (h : startServer env args = .ok cfg) :
    cfg.auth.staticToken.isSome = true ∨ cfg.auth.oidc.isSome = true := by
  obtain ⟨o, -, hconfig⟩ := options_of_startServer h
  simpa using (Options.auth_of_config hconfig).2.2

theorem staticToken_of_startServer (h : startServer env args = .ok cfg) :
    cfg.auth.staticToken = (tokenFileContent env args).map trimString := by
  obtain ⟨o, hparse, hconfig⟩ := options_of_startServer h
  rw [tokenFileContent, hparse, Option.bind_some]
  exact Options.staticToken_eq_ok (Options.auth_of_config hconfig).1

end

/-! ## Blank files -/

theorem trimChars_eq_nil {cs : List Char} :
    trimChars cs = [] ↔ ∀ c ∈ cs, isWhiteSpace c = true := by
  have hall : cs.dropWhile isWhiteSpace = [] ↔ ∀ c ∈ cs, isWhiteSpace c = true :=
    List.dropWhile_eq_nil_iff
  rw [trimChars, List.reverse_eq_nil_iff, List.dropWhile_eq_nil_iff, ← hall]
  simp only [List.mem_reverse]
  constructor
  · intro h
    cases hdrop : cs.dropWhile isWhiteSpace with
    | nil => rfl
    | cons c rest =>
      -- What is left begins with a character that stays.
      have hstays := List.head?_dropWhile_not isWhiteSpace cs
      rw [hdrop] at h hstays
      simp [h c] at hstays
  · intro h
    simp [h]

theorem trimString_eq_empty {s : String} :
    trimString s = "" ↔ ∀ c ∈ s.toList, isWhiteSpace c = true := by
  rw [← trimChars_eq_nil, trimString]
  simp

theorem trimString_ne_empty {s : String} : trimString s ≠ "" ↔ NotBlank s := by
  rw [ne_eq, trimString_eq_empty]
  simp [NotBlank]

/-! ## The static token -/

section

variable {κ : Type} {j : Jwt κ} {w₁ w₂ : World} {jwks : Option JwkSet} {auth : AuthConfig}
  {presented : String}

theorem AuthConfig.verify_staticOnly :
    (auth.staticOnly.verify j w₁ w₂ jwks presented).1 = .ok () ↔
      auth.staticToken = some presented := by
  rw [AuthConfig.verify]
  by_cases hs : auth.staticToken = some presented
  · have hs' : auth.staticOnly.staticToken = some presented := hs
    rw [if_pos (any_constantTimeEq.mpr hs')]
    exact iff_of_true rfl hs
  · have hs' : auth.staticOnly.staticToken ≠ some presented := hs
    rw [if_neg (mt any_constantTimeEq.mp hs')]
    simp [staticOnly, hs]

/-- Whoever does not present the static token is let in as a bearer of an OIDC token. -/
theorem AuthConfig.verify_of_ne (hne : auth.staticToken ≠ some presented)
    (hok : (auth.verify j w₁ w₂ jwks presented).1 = .ok ()) :
    ∃ c, auth.oidc = some c ∧ (c.verify j w₁ w₂ jwks presented).1 = .ok () := by
  rw [AuthConfig.verify, if_neg (mt any_constantTimeEq.mp hne)] at hok
  cases hoidc : auth.oidc with
  | none => simp [hoidc] at hok
  | some c =>
    rw [hoidc] at hok
    exact ⟨c, rfl, hok⟩

/-- **The static token fails closed** exactly where the token file is not blank. -/
theorem static_token_closed_iff {env : StartEnv} {args : List String} {cfg : ServerConfig}
    (h : startServer env args = .ok cfg) :
    FailsClosed j cfg.auth (tokenFileContent env args) ↔
      ∀ content, tokenFileContent env args = some content → NotBlank content := by
  have htoken := staticToken_of_startServer h
  constructor
  · intro hclosed content hcontent
    rw [hcontent, Option.map_some] at htoken
    let w : World := ⟨fun _ => none, fun _ => none⟩
    obtain ⟨hne, -⟩ := hclosed.static w w none _ (AuthConfig.verify_staticOnly.mpr htoken)
    exact trimString_ne_empty.mp hne
  · intro hnotBlank
    have hne : ∀ token, cfg.auth.staticToken = some token → token ≠ "" := by
      intro token hstatic
      obtain ⟨content, hcontent, rfl⟩ := Option.map_eq_some_iff.mp (htoken.symm.trans hstatic)
      exact trimString_ne_empty.mpr (hnotBlank content hcontent)
    constructor
    · intro w₁ w₂ jwks presented hok
      have hstatic := AuthConfig.verify_staticOnly.mp hok
      exact ⟨hne presented hstatic, htoken.symm.trans hstatic⟩
    · intro w₁ w₂ jwks hok
      exact AuthConfig.verify_of_ne (fun hempty => hne "" hempty rfl) hok

end

/-! ## Two token files -/

/-- A library to which nothing is a JWT. -/
def noTokens : Jwt Unit where
  decodeHeader _ := .error "InvalidToken"
  fromJwk _ := .error "InvalidKeyFormat"
  check _ _ _ _ := .error "InvalidToken"

def startArgs : List String := ["--listen", "127.0.0.1:7100", "--token-file", "/run/token"]

/-- The token file has this content. -/
def tokenFile (content : String) : StartEnv :=
  ⟨false, false, fun file => if file = "/run/token" then some content else none⟩

def startConfig (token : String) : ServerConfig :=
  ⟨⟨some token, none⟩, some "127.0.0.1:7100", none, none, none⟩

theorem secret_closed :
    FailsClosed noTokens (startConfig "s3cret").auth (tokenFileContent (tokenFile "s3cret\n")
      startArgs) := by
  have hstart : startServer (tokenFile "s3cret\n") startArgs = .ok (startConfig "s3cret") := by
    decide
  refine (static_token_closed_iff hstart).mpr fun content hcontent => ?_
  have hcontent : some "s3cret\n" = some content := hcontent
  cases hcontent
  exact ⟨'s', by decide, by decide⟩

/-- The token file has an empty line: the server starts, and lets in whoever presents nothing. -/
theorem blank_open :
    startServer (tokenFile "\n") startArgs = .ok (startConfig "") ∧
      (∀ w₁ w₂ jwks,
        ((startConfig "").auth.verify noTokens w₁ w₂ jwks "").1 = .ok ()) ∧
      ¬ FailsClosed noTokens (startConfig "").auth
        (tokenFileContent (tokenFile "\n") startArgs) := by
  have hopen : ∀ w₁ w₂ jwks, ((startConfig "").auth.verify noTokens w₁ w₂ jwks "").1 = .ok () :=
    fun _ _ _ => rfl
  refine ⟨by decide, hopen, fun hclosed => ?_⟩
  let w : World := ⟨fun _ => none, fun _ => none⟩
  obtain ⟨c, hoidc, -⟩ := hclosed.unauthenticated w w none (hopen w w none)
  cases hoidc

end HerdrEternal
