import HerdrEternal.Client.RunExec
import HerdrEternal.Server.Auth
import Mathlib.Algebra.Group.Nat.Defs

/-!
# The device-code login

`login_on_tty` of `client/src/oidc.rs` asks the user to log in again while an exec is running: it
opens the terminal, starts a device authorization at the identity provider, shows the user where
to confirm it, polls the token endpoint until the user has done so, and caches the tokens.

`Login` is one call of it. Its events are the answers it waits for: of the terminal, the provider,
the clock and the token cache. Times are in nanoseconds.
-/

namespace HerdrEternal

/-! ## Requests to the identity provider -/

/-- A request as the login sends it. -/
inductive HttpRequest where
  | get (url : String)
  | post (url : String) (form : List (String × String))
  deriving DecidableEq

/-- A response, with what its body deserializes to. -/
structure HttpResponse (α : Type) where
  status : Nat
  /-- The `Retry-After` header. -/
  retryAfter : Option Data
  json : Option α
  /-- The `error` field of the body, if it has one. -/
  error : Option String
  deriving DecidableEq

def HttpResponse.isClientError {α : Type} (r : HttpResponse α) : Bool :=
  decide (400 ≤ r.status) && decide (r.status < 500)

def HttpResponse.isServerError {α : Type} (r : HttpResponse α) : Bool :=
  decide (500 ≤ r.status) && decide (r.status < 600)

/-- Why a request has no answer. -/
inductive RequestError where
  | http
  | rateLimited (retryAfter : Nat)
  deriving DecidableEq

/-- `Duration::from_secs`. -/
def fromSecs (secs : Nat) : Nat := secs * 1000000000

/-- `HeaderValue::to_str`: visible ASCII only. -/
def toStr (value : Data) : Option Data :=
  if value.all fun b => (32 ≤ b && b < 127) || b == 9 then some value else none

/-- `str::trim`, on visible ASCII. -/
def trim (s : Data) : Data :=
  let blank : UInt8 → Bool := fun b => b == 32 || b == 9
  ((s.dropWhile blank).reverse.dropWhile blank).reverse

/-- `str::parse::<u64>`. -/
def parseU64 (s : Data) : Option Nat :=
  let digits := match s with
    | 43 :: rest => rest
    | s => s
  let value := digits.foldl (fun n b => 10 * n + (b.toNat - 48)) 0
  if !digits.isEmpty && digits.all (fun b => 48 ≤ b && b ≤ 57) && value < 2 ^ 64 then some value
  else none

/-- The delay-seconds form of `Retry-After`, or a conservative delay. -/
def retryAfter (header : Option Data) : Nat :=
  fromSecs (((header.bind toStr).bind fun value => parseU64 (trim value)).getD 30)

/-- `token_request`: `none` is a request that could not be sent. A 4xx response with an `error`
field is an answer, not a failure. -/
def tokenRequest {α : Type} :
    Option (HttpResponse α) → Except RequestError (Except String α)
  | none => .error .http
  | some response =>
    if response.status = 429 then .error (.rateLimited (retryAfter response.retryAfter))
    else if response.isClientError then
      match response.error with
      | some error => .ok (.error error)
      | none => .error .http
    else if response.isServerError then .error .http
    else
      match response.json with
      | some answer => .ok (.ok answer)
      | none => .error .http

structure Discovery where
  deviceAuthorizationEndpoint : String
  tokenEndpoint : String
  deriving DecidableEq

structure DeviceAuthorization where
  deviceCode : String
  userCode : String
  verificationUri : String
  verificationUriComplete : Option String
  interval : Option Nat
  expiresIn : Nat
  deriving DecidableEq

structure TokenResponse where
  accessToken : String
  refreshToken : Option String
  expiresIn : Nat
  deriving DecidableEq

/-- The OIDC settings of a target. -/
structure OidcTarget where
  issuer : String
  clientId : String
  deriving DecidableEq

/-- Where `discover` finds the provider's endpoints. -/
def OidcTarget.discoveryUrl (oidc : OidcTarget) : String :=
  trimEndSlashes oidc.issuer ++ "/.well-known/openid-configuration"

/-- What `discover` makes of the provider's answer. -/
def discover : Option (HttpResponse Discovery) → Option Discovery
  | none => none
  | some response =>
    if response.isClientError || response.isServerError then none else response.json

/-! ## The login -/

/-- Where a login failed. -/
inductive LoginError where
  /-- `/dev/tty` cannot be opened. -/
  | noTerminal
  /-- The HTTP client could not be set up. -/
  | client
  | discovery
  | authorization (e : RequestError)
  | authorizationRejected (error : String)
  | prompt
  | poll
  | rejected (error : String)
  /-- The device code does not live until the next poll. -/
  | expired
  | store
  | confirm
  deriving DecidableEq

/-- The error that `login_on_tty` returns. -/
def LoginError.toClient : LoginError → ClientError
  | .noTerminal => .notLoggedIn
  | .discovery | .authorization .http | .poll => .http
  | .authorization (.rateLimited _) => .rateLimited
  | .authorizationRejected _ | .rejected _ | .expired => .oidc
  | .client | .prompt | .store | .confirm => .io

/-- The text of an OIDC error. -/
def LoginError.text : LoginError → Option String
  | .authorizationRejected error => some ("device authorization failed: " ++ error)
  | .rejected error => some ("login failed: " ++ error)
  | .expired => some "device code expired"
  | _ => none

inductive LoginPc where
  /-- Opening `/dev/tty`. -/
  | opening
  /-- Setting up the HTTP client. -/
  | building
  | discovering
  | authorizing (endpoints : Discovery)
  | prompting (endpoints : Discovery) (device : DeviceAuthorization)
  | polling (endpoints : Discovery) (device : DeviceAuthorization)
  | sleeping (endpoints : Discovery) (device : DeviceAuthorization)
  | storing (tokens : TokenResponse)
  | confirming
  | finished (result : Except LoginError Unit)
  deriving DecidableEq

/-- One call of `login_on_tty`. -/
structure Login where
  name : String
  oidc : OidcTarget
  interval : Nat
  deadline : Nat
  pc : LoginPc
  deriving DecidableEq

/-- What a login waits for. -/
inductive LoginEvent where
  | opened (ok : Bool)
  | built (ok : Bool)
  | discovered (reply : Option (HttpResponse Discovery))
  | authorized (reply : Option (HttpResponse DeviceAuthorization))
  | prompted (ok : Bool) (now : Nat)
  | polled (reply : Option (HttpResponse TokenResponse)) (now : Nat)
  | woke
  | stored (ok : Bool)
  | confirmed (ok : Bool)
  deriving DecidableEq

namespace Login

def start (name : String) (oidc : OidcTarget) : Login := ⟨name, oidc, 0, 0, .opening⟩

def fail (l : Login) (e : LoginError) : Login := { l with pc := .finished (.error e) }

/-- Sleep until the next poll, if the device code is valid that long. -/
def wait (l : Login) (endpoints : Discovery) (device : DeviceAuthorization) (now delay : Nat) :
    Login :=
  if l.deadline < now + delay then l.fail .expired
  else { l with pc := .sleeping endpoints device }

/-- The polling interval after the provider answered with an OAuth error that is not final. -/
def nextInterval (l : Login) (error : String) : Option Nat :=
  if error = "authorization_pending" then some l.interval
  -- The provider wants every later poll to be slower as well.
  else if error = "slow_down" then some (l.interval + fromSecs 5)
  else none

/-- The answer to one poll of the token endpoint. -/
def onPoll (l : Login) (endpoints : Discovery) (device : DeviceAuthorization) (now : Nat) :
    Except RequestError (Except String TokenResponse) → Login
  | .ok (.ok tokens) => { l with pc := .storing tokens }
  | .ok (.error error) =>
    match l.nextInterval error with
    | some interval => { l with interval := interval }.wait endpoints device now interval
    | none => l.fail (.rejected error)
  | .error (.rateLimited delay) => l.wait endpoints device now (max delay l.interval)
  | .error .http => l.fail .poll

/-- One step of `login_on_tty`. -/
def step (l : Login) (e : LoginEvent) : Option Login :=
  match l.pc, e with
  | .opening, .opened ok => some (if ok then { l with pc := .building } else l.fail .noTerminal)
  | .building, .built ok => some (if ok then { l with pc := .discovering } else l.fail .client)
  | .discovering, .discovered reply =>
    match discover reply with
    | some endpoints => some { l with pc := .authorizing endpoints }
    | none => some (l.fail .discovery)
  | .authorizing endpoints, .authorized reply =>
    match tokenRequest reply with
    | .ok (.ok device) => some { l with pc := .prompting endpoints device }
    | .ok (.error error) => some (l.fail (.authorizationRejected error))
    | .error e => some (l.fail (.authorization e))
  | .prompting endpoints device, .prompted ok now =>
    if ok then
      some { l with
        interval := fromSecs (device.interval.getD 5)
        deadline := now + fromSecs device.expiresIn
        pc := .polling endpoints device }
    else some (l.fail .prompt)
  | .polling endpoints device, .polled reply now =>
    some (l.onPoll endpoints device now (tokenRequest reply))
  | .sleeping endpoints device, .woke => some { l with pc := .polling endpoints device }
  | .storing _, .stored ok => some (if ok then { l with pc := .confirming } else l.fail .store)
  | .confirming, .confirmed ok =>
    some (if ok then { l with pc := .finished (.ok ()) } else l.fail .confirm)
  | _, _ => none

/-- The request a suspended login has sent. -/
def request (l : Login) : Option HttpRequest :=
  match l.pc with
  | .discovering => some (.get l.oidc.discoveryUrl)
  | .authorizing endpoints =>
    some (.post endpoints.deviceAuthorizationEndpoint
      [("client_id", l.oidc.clientId), ("scope", "openid offline_access")])
  | .polling endpoints device =>
    some (.post endpoints.tokenEndpoint
      [("grant_type", "urn:ietf:params:oauth:grant-type:device_code"),
        ("device_code", device.deviceCode), ("client_id", l.oidc.clientId)])
  | _ => none

/-- The line a suspended login writes to the terminal. -/
def line (l : Login) : Option String :=
  match l.pc with
  | .prompting _ device =>
    match device.verificationUriComplete with
    | some url => some ("To authorize " ++ l.name ++ ", open: " ++ url)
    | none =>
      some ("To authorize " ++ l.name ++ ", open " ++ device.verificationUri ++
        " and enter code " ++ device.userCode)
  | .confirming => some ("Logged in to " ++ l.name ++ ".")
  | _ => none

/-! ## What a step can do -/

/-- Every step of a login, by where it was suspended. -/
inductive Step (l : Login) : LoginEvent → Login → Prop
  | opened (hp : l.pc = .opening) : Step l (.opened true) { l with pc := .building }
  | noTerminal (hp : l.pc = .opening) : Step l (.opened false) (l.fail .noTerminal)
  | built (hp : l.pc = .building) : Step l (.built true) { l with pc := .discovering }
  | notBuilt (hp : l.pc = .building) : Step l (.built false) (l.fail .client)
  | discovered {reply : Option (HttpResponse Discovery)} {endpoints : Discovery}
      (hp : l.pc = .discovering) (hr : discover reply = some endpoints) :
      Step l (.discovered reply) { l with pc := .authorizing endpoints }
  | notDiscovered {reply : Option (HttpResponse Discovery)} (hp : l.pc = .discovering)
      (hr : discover reply = none) : Step l (.discovered reply) (l.fail .discovery)
  | authorized {endpoints : Discovery} {reply : Option (HttpResponse DeviceAuthorization)}
      {device : DeviceAuthorization} (hp : l.pc = .authorizing endpoints)
      (hr : tokenRequest reply = .ok (.ok device)) :
      Step l (.authorized reply) { l with pc := .prompting endpoints device }
  | refused {endpoints : Discovery} {reply : Option (HttpResponse DeviceAuthorization)}
      {error : String} (hp : l.pc = .authorizing endpoints)
      (hr : tokenRequest reply = .ok (.error error)) :
      Step l (.authorized reply) (l.fail (.authorizationRejected error))
  | notAuthorized {endpoints : Discovery} {reply : Option (HttpResponse DeviceAuthorization)}
      {e : RequestError} (hp : l.pc = .authorizing endpoints)
      (hr : tokenRequest reply = .error e) :
      Step l (.authorized reply) (l.fail (.authorization e))
  | prompted {endpoints : Discovery} {device : DeviceAuthorization} {now : Nat}
      (hp : l.pc = .prompting endpoints device) :
      Step l (.prompted true now) { l with
        interval := fromSecs (device.interval.getD 5)
        deadline := now + fromSecs device.expiresIn
        pc := .polling endpoints device }
  | notPrompted {endpoints : Discovery} {device : DeviceAuthorization} {now : Nat}
      (hp : l.pc = .prompting endpoints device) : Step l (.prompted false now) (l.fail .prompt)
  | polled {endpoints : Discovery} {device : DeviceAuthorization}
      {reply : Option (HttpResponse TokenResponse)} {now : Nat}
      (hp : l.pc = .polling endpoints device) :
      Step l (.polled reply now) (l.onPoll endpoints device now (tokenRequest reply))
  | woke {endpoints : Discovery} {device : DeviceAuthorization}
      (hp : l.pc = .sleeping endpoints device) :
      Step l .woke { l with pc := .polling endpoints device }
  | stored {tokens : TokenResponse} (hp : l.pc = .storing tokens) :
      Step l (.stored true) { l with pc := .confirming }
  | notStored {tokens : TokenResponse} (hp : l.pc = .storing tokens) :
      Step l (.stored false) (l.fail .store)
  | confirmed (hp : l.pc = .confirming) :
      Step l (.confirmed true) { l with pc := .finished (.ok ()) }
  | notConfirmed (hp : l.pc = .confirming) : Step l (.confirmed false) (l.fail .confirm)

theorem Step.of_step {l l' : Login} {e : LoginEvent} (h : l.step e = some l') : Step l e l' := by
  unfold step at h
  split at h
  · rename_i ok hp
    cases ok <;> cases h
    · exact .noTerminal hp
    · exact .opened hp
  · rename_i ok hp
    cases ok <;> cases h
    · exact .notBuilt hp
    · exact .built hp
  · split at h
    · cases h; exact .discovered ‹_› ‹_›
    · cases h; exact .notDiscovered ‹_› ‹_›
  · split at h
    · cases h; exact .authorized ‹_› ‹_›
    · cases h; exact .refused ‹_› ‹_›
    · cases h; exact .notAuthorized ‹_› ‹_›
  · rename_i ok now hp
    cases ok <;> cases h
    · exact .notPrompted hp
    · exact .prompted hp
  · cases h; exact .polled ‹_›
  · cases h; exact .woke ‹_›
  · rename_i ok hp
    cases ok <;> cases h
    · exact .notStored hp
    · exact .stored hp
  · rename_i ok hp
    cases ok <;> cases h
    · exact .notConfirmed hp
    · exact .confirmed hp
  · cases h

end Login

end HerdrEternal
