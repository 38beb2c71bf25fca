import HerdrEternal.Client.Login
import HerdrEternal.Lib.Json
import HerdrEternal.Lib.Machine
import HerdrEternal.Lib.Replace
import HerdrEternal.Lib.Table

/-!
# The token cache

The tokens of a target are cached in a file that all processes of a user share. `access_token` of
`client/src/oidc.rs` reads it, and refreshes the tokens if they are about to expire; a login stores
new ones. Both store through `store_tokens`, which writes `<target>.json.tmp` and renames it to
`<target>.json`.

`TokenCache` is the file system's part of one target, with any number of calls of `access_token`
and of logins in progress. Every access to a file is a step of its own, and so is the grant of the
identity provider. A call that has returned, for whatever reason, has dropped its lock.
-/

namespace HerdrEternal

/-! ## Cached tokens -/

structure CachedTokens where
  accessToken : String
  refreshToken : Option String
  /-- Unix timestamp after which the access token is considered expired. -/
  expiresAt : UInt64
  deriving DecidableEq

/-- Access tokens are refreshed this long before their actual expiry. -/
def expiryMarginSecs : UInt64 := 60

/-- The access token can be used without a refresh. The addition wraps. -/
def CachedTokens.valid (t : CachedTokens) (now : UInt64) : Bool :=
  now + expiryMarginSecs < t.expiresAt

/-- What `store_tokens` caches of the provider's answer. -/
def TokenResponse.cachedAt (tokens : TokenResponse) (now : UInt64) : CachedTokens :=
  ⟨tokens.accessToken, tokens.refreshToken, now + UInt64.ofNat tokens.expiresIn⟩

/-- Providers that do not rotate refresh tokens omit the field in the refresh response. -/
def TokenResponse.keeping (tokens : TokenResponse) (refreshToken : String) : TokenResponse :=
  { tokens with refreshToken := tokens.refreshToken.or (some refreshToken) }

/-- `serde_json` on cached tokens. -/
structure TokenJson where
  toVecPretty : CachedTokens → Data
  fromSlice : Data → Option CachedTokens
  fromSlice_toVecPretty : ∀ t, fromSlice (toVecPretty t) = some t

/-- `load_tokens`: a file that does not parse is as good as none. -/
def TokenJson.loadTokens (J : TokenJson) (files : Files) : Option CachedTokens :=
  files.read.bind J.fromSlice

/-! ## Calls -/

/-- Where a call is suspended. -/
inductive TokenPc where
  /-- Before reading the cache. -/
  | reading
  /-- Waiting for the lock. -/
  | locking
  /-- Before reading the cache again, with the lock. -/
  | rereading
  /-- Presenting its refresh token to the provider. -/
  | granting (refreshToken : String)
  /-- Waiting for the user to confirm a login. -/
  | authorizing
  /-- The provider has answered with tokens. -/
  | opening (tokens : TokenResponse)
  | writing (file : Nat) (cached : CachedTokens)
  | renaming (cached : CachedTokens)
  | returned (result : Except ClientError (Option String))
  deriving DecidableEq

/-- A call of `access_token`, or of `login` or `login_on_tty`. -/
structure TokenCall where
  login : Bool
  /-- How often the cache had been stored when the call read it again. -/
  base : Nat
  pc : TokenPc
  deriving DecidableEq

/-- What a call waits for. -/
inductive TokenEvent where
  /-- The cache was read, and then the clock. -/
  | loaded (now : UInt64)
  | locked
  /-- The provider dealt with the grant. A reply that gets lost is a failure of the call
  afterwards. -/
  | answered (reply : Option (HttpResponse TokenResponse))
  /-- The user confirmed a login. -/
  | authorized (tokens : TokenResponse)
  /-- The clock was read, and the temporary file opened. -/
  | opened (now : UInt64)
  | wrote
  | renamed
  /-- Anything else failed, or the process was killed. -/
  | failed (e : ClientError)
  deriving DecidableEq

/-- A completed `store_tokens`. -/
structure TokenStore where
  login : Bool
  base : Nat
  deriving DecidableEq

structure TokenCache where
  files : Files
  /-- The call that holds the file lock. -/
  lock : Option Nat
  calls : List TokenCall
  /-- Every rename so far. -/
  stores : List TokenStore

inductive TokenLabel where
  | access
  | login
  | call (i : Nat) (e : TokenEvent)
  deriving DecidableEq

/-- The error of `access_token` upon a grant without an answer. -/
def RequestError.toClient : RequestError → ClientError
  | .http => .http
  | .rateLimited _ => .rateLimited

theorem RequestError.toClient_ne (e : RequestError) : e.toClient ≠ .notLoggedIn := by
  cases e <;> simp [RequestError.toClient]

namespace TokenPc

def isReturned : TokenPc → Bool
  | .returned _ => true
  | _ => false

/-- Between opening the temporary file and renaming it. -/
def storing : TokenPc → Bool
  | .writing .. | .renaming _ => true
  | _ => false

/-- Between taking the lock and returning, in `access_token`. -/
def locked : TokenPc → Bool
  | .rereading | .granting _ | .opening _ | .writing .. | .renaming _ => true
  | _ => false

/-- The provider has given tokens that are not in the cache yet. -/
def answered : TokenPc → Bool
  | .opening _ | .writing .. | .renaming _ => true
  | _ => false

/-- Between reading a refresh token and storing the tokens it was good for. -/
def refreshing : TokenPc → Bool
  | .granting _ | .opening _ | .writing .. | .renaming _ => true
  | _ => false

theorem locked_of_storing {p : TokenPc} (h : p.storing = true) : p.locked = true := by
  cases p <;> first | rfl | cases h

theorem locked_of_answered {p : TokenPc} (h : p.answered = true) : p.locked = true := by
  cases p <;> first | rfl | cases h

end TokenPc

namespace TokenCache

variable (J : TokenJson) {s s' : TokenCache} {i j : Nat} {c c' d : TokenCall} {p q : TokenPc}

/-- No call has been made yet. -/
def start (files : Files) : TokenCache := ⟨files, none, [], []⟩

/-- Call `i` is suspended elsewhere. -/
def put (s : TokenCache) (i : Nat) (c : TokenCall) : TokenCache :=
  { s with calls := s.calls.set i c }

/-- Call `i` goes on at `p`. -/
def go (s : TokenCache) (i : Nat) (c : TokenCall) (p : TokenPc) : TokenCache :=
  s.put i { c with pc := p }

/-- Call `i` returns, and drops the lock if it has it. -/
def finish (s : TokenCache) (i : Nat) (c : TokenCall)
    (result : Except ClientError (Option String)) : TokenCache :=
  { s.go i c (.returned result) with lock := if s.lock = some i then none else s.lock }

/-- The rename of a `store_tokens` succeeded. -/
def stored (s : TokenCache) (files : Files) (c : TokenCall) : TokenCache :=
  { s with files := files, stores := s.stores ++ [⟨c.login, c.base⟩] }

/-- The tokens that the cache file holds. -/
def tokens (s : TokenCache) : Option CachedTokens := J.loadTokens s.files

/-- The first read of the cache, without the lock. -/
def onRead (s : TokenCache) (i : Nat) (c : TokenCall) (now : UInt64) : TokenCache :=
  match s.tokens J with
  | none => s.finish i c (.error .notLoggedIn)
  | some t => if t.valid now then s.finish i c (.ok (some t.accessToken)) else s.go i c .locking

/-- The second one, with the lock. -/
def onReread (s : TokenCache) (i : Nat) (c : TokenCall) (now : UInt64) : TokenCache :=
  match s.tokens J with
  | none => s.finish i c (.error .notLoggedIn)
  | some t =>
    if t.valid now then s.finish i c (.ok (some t.accessToken))
    else
      match t.refreshToken with
      | none => s.finish i c (.error .notLoggedIn)
      | some refreshToken =>
        s.put i { c with base := s.stores.length, pc := .granting refreshToken }

/-- What a call makes of the answer to its grant. -/
def onAnswer (s : TokenCache) (i : Nat) (c : TokenCall) (refreshToken : String) :
    Except RequestError (Except String TokenResponse) → TokenCache
  | .error e => s.finish i c (.error e.toClient)
  | .ok (.error _) => s.finish i c (.error .notLoggedIn)
  | .ok (.ok tokens) => s.go i c (.opening (tokens.keeping refreshToken))

/-- The rename at the end of `store_tokens`. -/
def onRename (s : TokenCache) (i : Nat) (c : TokenCall) (cached : CachedTokens) : TokenCache :=
  match s.files.rename with
  | none => s.finish i c (.error .io)
  | some files =>
    (s.stored files c).finish i c (.ok (if c.login then none else some cached.accessToken))

/-- What one event does to call `i`. -/
def onEvent (s : TokenCache) (i : Nat) (c : TokenCall) : TokenEvent → Option TokenCache
  | .loaded now =>
    match c.pc with
    | .reading => some (s.onRead J i c now)
    | .rereading => some (s.onReread J i c now)
    | _ => none
  | .locked =>
    match c.pc with
    | .locking =>
      if s.lock = none then some { s.go i c .rereading with lock := some i } else none
    | _ => none
  | .answered reply =>
    match c.pc with
    | .granting refreshToken => some (s.onAnswer i c refreshToken (tokenRequest reply))
    | _ => none
  | .authorized tokens =>
    match c.pc with
    | .authorizing => some (s.go i c (.opening tokens))
    | _ => none
  | .opened now =>
    match c.pc with
    | .opening tokens =>
      some { s.go i c (.writing s.files.tmpFile (tokens.cachedAt now)) with
        files := s.files.openTmp }
    | _ => none
  | .wrote =>
    match c.pc with
    | .writing file cached =>
      some { s.go i c (.renaming cached) with
        files := s.files.write file (J.toVecPretty cached) }
    | _ => none
  | .renamed =>
    match c.pc with
    | .renaming cached => some (s.onRename i c cached)
    | _ => none
  | .failed e =>
    -- Only `login_on_tty` has another reason to be `notLoggedIn`.
    if c.pc.isReturned || decide (e = .notLoggedIn ∧ c.login = false) then none
    else some (s.finish i c (.error e))

def step (s : TokenCache) : TokenLabel → Option TokenCache
  | .access => some { s with calls := s.calls ++ [⟨false, 0, .reading⟩] }
  | .login => some { s with calls := s.calls ++ [⟨true, 0, .authorizing⟩] }
  | .call i e => s.calls[i]?.bind fun c => s.onEvent J i c e

/-- The runs over a token directory with the given files. -/
def machine (files : Files) : Machine TokenCache TokenLabel where
  init s := s = .start files
  step := step J

/-! ## What a step can do -/

/-- Every step, by what the call found. -/
inductive Step (s : TokenCache) : TokenLabel → TokenCache → Prop
  | access : Step s .access { s with calls := s.calls ++ [⟨false, 0, .reading⟩] }
  | login : Step s .login { s with calls := s.calls ++ [⟨true, 0, .authorizing⟩] }
  | missing {i : Nat} {c : TokenCall} {now : UInt64} (hc : s.calls[i]? = some c)
      (hp : c.pc = .reading ∨ c.pc = .rereading) (ht : s.tokens J = none) :
      Step s (.call i (.loaded now)) (s.finish i c (.error .notLoggedIn))
  | valid {i : Nat} {c : TokenCall} {now : UInt64} {t : CachedTokens}
      (hc : s.calls[i]? = some c) (hp : c.pc = .reading ∨ c.pc = .rereading)
      (ht : s.tokens J = some t) (hv : t.valid now = true) :
      Step s (.call i (.loaded now)) (s.finish i c (.ok (some t.accessToken)))
  | stale {i : Nat} {c : TokenCall} {now : UInt64} {t : CachedTokens}
      (hc : s.calls[i]? = some c) (hp : c.pc = .reading) (ht : s.tokens J = some t)
      (hv : t.valid now = false) : Step s (.call i (.loaded now)) (s.go i c .locking)
  | locked {i : Nat} {c : TokenCall} (hc : s.calls[i]? = some c) (hp : c.pc = .locking)
      (hl : s.lock = none) :
      Step s (.call i .locked) { s.go i c .rereading with lock := some i }
  | noRefresh {i : Nat} {c : TokenCall} {now : UInt64} {t : CachedTokens}
      (hc : s.calls[i]? = some c) (hp : c.pc = .rereading) (ht : s.tokens J = some t)
      (hv : t.valid now = false) (hr : t.refreshToken = none) :
      Step s (.call i (.loaded now)) (s.finish i c (.error .notLoggedIn))
  | reread {i : Nat} {c : TokenCall} {now : UInt64} {t : CachedTokens} {refreshToken : String}
      (hc : s.calls[i]? = some c) (hp : c.pc = .rereading) (ht : s.tokens J = some t)
      (hv : t.valid now = false) (hr : t.refreshToken = some refreshToken) :
      Step s (.call i (.loaded now))
        (s.put i { c with base := s.stores.length, pc := .granting refreshToken })
  | unanswered {i : Nat} {c : TokenCall} {reply : Option (HttpResponse TokenResponse)}
      {refreshToken : String} {e : RequestError} (hc : s.calls[i]? = some c)
      (hp : c.pc = .granting refreshToken) (ha : tokenRequest reply = .error e) :
      Step s (.call i (.answered reply)) (s.finish i c (.error e.toClient))
  | refused {i : Nat} {c : TokenCall} {reply : Option (HttpResponse TokenResponse)}
      {refreshToken error : String} (hc : s.calls[i]? = some c)
      (hp : c.pc = .granting refreshToken) (ha : tokenRequest reply = .ok (.error error)) :
      Step s (.call i (.answered reply)) (s.finish i c (.error .notLoggedIn))
  | granted {i : Nat} {c : TokenCall} {reply : Option (HttpResponse TokenResponse)}
      {refreshToken : String} {tokens : TokenResponse} (hc : s.calls[i]? = some c)
      (hp : c.pc = .granting refreshToken) (ha : tokenRequest reply = .ok (.ok tokens)) :
      Step s (.call i (.answered reply)) (s.go i c (.opening (tokens.keeping refreshToken)))
  | authorized {i : Nat} {c : TokenCall} {tokens : TokenResponse} (hc : s.calls[i]? = some c)
      (hp : c.pc = .authorizing) :
      Step s (.call i (.authorized tokens)) (s.go i c (.opening tokens))
  | opened {i : Nat} {c : TokenCall} {tokens : TokenResponse} {now : UInt64}
      (hc : s.calls[i]? = some c) (hp : c.pc = .opening tokens) :
      Step s (.call i (.opened now))
        { s.go i c (.writing s.files.tmpFile (tokens.cachedAt now)) with
          files := s.files.openTmp }
  | wrote {i : Nat} {c : TokenCall} {file : Nat} {cached : CachedTokens}
      (hc : s.calls[i]? = some c) (hp : c.pc = .writing file cached) :
      Step s (.call i .wrote)
        { s.go i c (.renaming cached) with files := s.files.write file (J.toVecPretty cached) }
  | notRenamed {i : Nat} {c : TokenCall} {cached : CachedTokens} (hc : s.calls[i]? = some c)
      (hp : c.pc = .renaming cached) (hr : s.files.rename = none) :
      Step s (.call i .renamed) (s.finish i c (.error .io))
  | renamed {i : Nat} {c : TokenCall} {cached : CachedTokens} {files : Files}
      (hc : s.calls[i]? = some c) (hp : c.pc = .renaming cached)
      (hr : s.files.rename = some files) :
      Step s (.call i .renamed)
        ((s.stored files c).finish i c
          (.ok (if c.login then none else some cached.accessToken)))
  | failed {i : Nat} {c : TokenCall} {e : ClientError} (hc : s.calls[i]? = some c)
      (hp : c.pc.isReturned = false) (he : ¬ (e = .notLoggedIn ∧ c.login = false)) :
      Step s (.call i (.failed e)) (s.finish i c (.error e))

variable {J}

theorem Step.of_onRead {now : UInt64} (hc : s.calls[i]? = some c) (hp : c.pc = .reading) :
    Step J s (.call i (.loaded now)) (s.onRead J i c now) := by
  unfold onRead
  split
  · exact .missing hc (.inl hp) ‹_›
  · split_ifs with hv
    · exact .valid hc (.inl hp) ‹_› hv
    · exact .stale hc hp ‹_› (Bool.eq_false_iff.mpr hv)

theorem Step.of_onReread {now : UInt64} (hc : s.calls[i]? = some c) (hp : c.pc = .rereading) :
    Step J s (.call i (.loaded now)) (s.onReread J i c now) := by
  unfold onReread
  split
  · exact .missing hc (.inr hp) ‹_›
  · split_ifs with hv
    · exact .valid hc (.inr hp) ‹_› hv
    · split
      · exact .noRefresh hc hp ‹_› (Bool.eq_false_iff.mpr hv) ‹_›
      · exact .reread hc hp ‹_› (Bool.eq_false_iff.mpr hv) ‹_›

theorem Step.of_onAnswer {reply : Option (HttpResponse TokenResponse)} {refreshToken : String}
    (hc : s.calls[i]? = some c) (hp : c.pc = .granting refreshToken) :
    Step J s (.call i (.answered reply)) (s.onAnswer i c refreshToken (tokenRequest reply)) := by
  cases ha : tokenRequest reply with
  | error e => exact .unanswered hc hp ha
  | ok answer =>
    cases answer with
    | error error => exact .refused hc hp ha
    | ok tokens => exact .granted hc hp ha

theorem Step.of_onRename {cached : CachedTokens} (hc : s.calls[i]? = some c)
    (hp : c.pc = .renaming cached) : Step J s (.call i .renamed) (s.onRename i c cached) := by
  unfold onRename
  split
  · exact .notRenamed hc hp ‹_›
  · exact .renamed hc hp ‹_›

theorem Step.of_onEvent {e : TokenEvent} (hc : s.calls[i]? = some c)
    (h : s.onEvent J i c e = some s') : Step J s (.call i e) s' := by
  cases e with
  | loaded now =>
    simp only [onEvent] at h
    split at h
    · cases h; exact .of_onRead hc ‹_›
    · cases h; exact .of_onReread hc ‹_›
    · cases h
  | locked =>
    simp only [onEvent] at h
    split at h
    · split_ifs at h with hl
      cases h; exact .locked hc ‹_› hl
    · cases h
  | answered reply =>
    simp only [onEvent] at h
    split at h
    · cases h; exact .of_onAnswer hc ‹_›
    · cases h
  | authorized tokens =>
    simp only [onEvent] at h
    split at h
    · cases h; exact .authorized hc ‹_›
    · cases h
  | opened now =>
    simp only [onEvent] at h
    split at h
    · cases h; exact .opened hc ‹_›
    · cases h
  | wrote =>
    simp only [onEvent] at h
    split at h
    · cases h; exact .wrote hc ‹_›
    · cases h
  | renamed =>
    simp only [onEvent] at h
    split at h
    · cases h; exact .of_onRename hc ‹_›
    · cases h
  | failed e =>
    simp only [onEvent] at h
    split_ifs at h with hf
    cases h
    simp only [Bool.or_eq_true, not_or, Bool.not_eq_true, decide_eq_true_eq] at hf
    exact .failed hc hf.1 hf.2

theorem Step.of_step {l : TokenLabel} (h : s.step J l = some s') : Step J s l s' := by
  cases l with
  | access => cases h; exact .access
  | login => cases h; exact .login
  | call i e =>
    obtain ⟨c, hc, h⟩ := Option.bind_eq_some_iff.mp h
    exact .of_onEvent hc h

end TokenCache

/-! ## The JSON of the cache file -/

/-- What `serde_json` writes. -/
def CachedTokens.toVecPretty (t : CachedTokens) : Data :=
  JsonText.utf8 "\x7b\n  \"access_token\": " ++ (JsonText.string t.accessToken ++
    (JsonText.utf8 ",\n  \"refresh_token\": " ++ (JsonText.nullable t.refreshToken ++
      (JsonText.utf8 ",\n  \"expires_at\": " ++ (JsonText.number t.expiresAt.toNat ++
        JsonText.utf8 "\n\x7d")))))

/-- Reads a text that is laid out in the same way. -/
def CachedTokens.fromSlice (text : Data) : Option CachedTokens :=
  (JsonText.takeToken (JsonText.utf8 "\x7b\n  \"access_token\": ") text).bind fun text =>
  (JsonText.takeString text).bind fun (accessToken, text) =>
  (JsonText.takeToken (JsonText.utf8 ",\n  \"refresh_token\": ") text).bind fun text =>
  (JsonText.takeNullable text).bind fun (refreshToken, text) =>
  (JsonText.takeToken (JsonText.utf8 ",\n  \"expires_at\": ") text).bind fun text =>
  (JsonText.takeNumber text).bind fun (expiresAt, text) =>
    if text = JsonText.utf8 "\n\x7d" ∧ expiresAt < 2 ^ 64 then
      some ⟨accessToken, refreshToken, UInt64.ofNat expiresAt⟩
    else none

/-- The JSON as `serde_json` writes it, and a reader of nothing else. -/
def prettyJson : TokenJson where
  toVecPretty := CachedTokens.toVecPretty
  fromSlice := CachedTokens.fromSlice
  fromSlice_toVecPretty t := by
    have hnumber : JsonText.takeNumber (JsonText.number t.expiresAt.toNat ++
        JsonText.utf8 "\n\x7d") = some (t.expiresAt.toNat, JsonText.utf8 "\n\x7d") :=
      JsonText.takeNumber_number _ rfl
    simp only [CachedTokens.toVecPretty, CachedTokens.fromSlice, JsonText.takeToken_append,
      JsonText.takeString_string, JsonText.takeNullable_nullable, hnumber, Option.bind_some]
    rw [if_pos ⟨trivial, t.expiresAt.toNat_lt⟩, UInt64.ofNat_toNat]

end HerdrEternal
