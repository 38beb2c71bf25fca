import Mathlib.Data.List.Basic
import Mathlib.Order.Basic

/-!
# Authentication policy

`Auth::verify` of `server/src/auth.rs` accepts the pre-shared static token, or else an OIDC bearer
token: a JWT that is valid under a key of the issuer's JWKS and whose claims name this service and
its one user.

**Parameters.** `Jwt` is what the code uses of jsonwebtoken: reading a token's header, making a key
from a JWK, and checking a token's signature, expiry and issuer under a key. `World` is what the
identity provider answers to one fetch; the two fetches of one call may be answered differently.

**Theorem (`verify_eq_ok_iff`).** `verify` accepts a token exactly when the documented policy
(`Accepted`) does.
-/

namespace HerdrEternal

/-! ## Tokens and keys -/

/-- A JSON value, as far as the claims tell values apart. An array item is `none` if it is not a
string. -/
inductive Json where
  | null
  | string (s : String)
  | array (items : List (Option String))
  | other
  deriving DecidableEq

/-- The claims of a token that `verify` reads, `none` where the token has no such claim. -/
structure Payload where
  sub : Option Json
  clientId : Option Json
  aud : Option Json
  deriving DecidableEq

structure JwtHeader where
  kid : Option String
  alg : String
  deriving DecidableEq

structure Jwk where
  keyId : Option String
  material : String
  deriving DecidableEq

abbrev JwkSet := List Jwk

/-- What `verify` uses of jsonwebtoken. `check` is `decode` with `Validation::new(alg)`, the issuer
set and `validate_aud` off: it gives the payload of a token whose signature is valid for the key
and whose `exp` and `iss` pass. -/
structure Jwt (κ : Type) where
  decodeHeader : String → Except String JwtHeader
  fromJwk : Jwk → Except String κ
  check : String → κ → String → String → Except String Payload

/-- The answers of the identity provider to one fetch: the `jwks_uri` of the discovery document,
and the key set. `none` is a failed request. -/
structure World where
  discovery : String → Option String
  jwks : String → Option JwkSet

inductive AuthError where
  | rejected
  | fetch (url : String)
  | jwt (e : String)
  | unknownKey
  | subNotAllowed (sub : String)
  | missingSub
  | wrongAudience
  | wrongClient (clientId : String)
  deriving DecidableEq

structure OidcConfig where
  issuer : String
  clientId : String
  allowedSub : String
  deriving DecidableEq

/-- The configuration of `Auth`. -/
structure AuthConfig where
  staticToken : Option String
  oidc : Option OidcConfig
  deriving DecidableEq

/-! ## The static token -/

/-- The bytes of a string. -/
def asBytes (s : String) : List UInt8 := s.toByteArray.data.toList

def constantTimeEq (a b : List UInt8) : Bool :=
  a.length = b.length && (a.zip b).foldl (fun acc (x, y) => acc ||| (x ^^^ y)) 0 = 0

/-! ## Claims -/

/-- The `aud` claim in its two JSON shapes, or absent. -/
inductive Audience where
  | missing
  | one (aud : String)
  | many (auds : List String)
  deriving DecidableEq

structure Claims where
  sub : Option String
  clientId : Option String
  aud : Audience
  deriving DecidableEq

/-- How serde reads an `Option<String>` field. -/
def deserializeOption : Option Json → Option (Option String)
  | none | some .null => some none
  | some (.string s) => some (some s)
  | _ => none

/-- The untagged variants in turn; the field has a default. -/
def Audience.deserialize : Option Json → Option Audience
  | none | some .null => some .missing
  | some (.string s) => some (.one s)
  | some (.array items) => (items.mapM id).map .many
  | some .other => none

def Claims.deserialize (p : Payload) : Option Claims := do
  let sub ← deserializeOption p.sub
  let clientId ← deserializeOption p.clientId
  let aud ← Audience.deserialize p.aud
  return ⟨sub, clientId, aud⟩

/-- An audience is only rejected when the token is addressed to somebody else. -/
def Audience.accepts (expected : String) : Audience → Bool
  | .missing => true
  | .one aud => aud == expected
  | .many auds => auds.isEmpty || auds.any (· == expected)

/-! ## Verification -/

section

variable {κ : Type} (j : Jwt κ)

/-- `str::trim_end_matches('/')`. -/
def trimEndSlashes (s : String) : String :=
  String.ofList (s.toList.reverse.dropWhile (· = '/')).reverse

def OidcConfig.discoveryUrl (c : OidcConfig) : String :=
  trimEndSlashes c.issuer ++ "/.well-known/openid-configuration"

def OidcConfig.fetchJwks (c : OidcConfig) (w : World) : Except AuthError JwkSet :=
  match w.discovery c.discoveryUrl with
  | none => .error (.fetch c.discoveryUrl)
  | some uri =>
    match w.jwks uri with
    | none => .error (.fetch uri)
    | some set => .ok set

/-- `JwkSet::find`, or the first key for a token without a key id. -/
def selectKey (set : JwkSet) : Option String → Option Jwk
  | some kid => set.find? (·.keyId = some kid)
  | none => set.head?

/-- The loop of `decoding_key`, with the answers each pass would get. Also gives the cached set. -/
def OidcConfig.keyLoop (c : OidcConfig) (kid : Option String) :
    List (Bool × World) → Option JwkSet → Except AuthError κ × Option JwkSet
  | [], jwks => (.error .unknownKey, jwks)
  | (fetch, w) :: rest, jwks =>
    match if fetch || jwks.isNone then c.fetchJwks w else .ok (jwks.getD []) with
    | .error e => (.error e, jwks)
    | .ok set =>
      match selectKey set kid with
      | some jwk => ((j.fromJwk jwk).mapError .jwt, some set)
      | none => c.keyLoop kid rest (some set)

def OidcConfig.decodingKey (c : OidcConfig) (w₁ w₂ : World) (jwks : Option JwkSet)
    (kid : Option String) : Except AuthError κ × Option JwkSet :=
  c.keyLoop j kid [(false, w₁), (true, w₂)] jwks

/-- The subject identifies the user; a token without one may name its client instead. -/
def OidcConfig.checkSubject (c : OidcConfig) : Option String → Except AuthError Unit
  | none => .error .missingSub
  | some subject => if subject = c.allowedSub then .ok () else .error (.subNotAllowed subject)

/-- The checks on the claims. -/
def OidcConfig.checkClaims (c : OidcConfig) (claims : Claims) : Except AuthError Unit :=
  if claims.aud.accepts c.clientId then
    match claims.clientId.filter (· ≠ c.clientId) with
    | some clientId => .error (.wrongClient clientId)
    | none => c.checkSubject (claims.sub <|> claims.clientId)
  else .error .wrongAudience

/-- `Oidc::verify`. -/
def OidcConfig.verify (c : OidcConfig) (w₁ w₂ : World) (jwks : Option JwkSet) (token : String) :
    Except AuthError Unit × Option JwkSet :=
  match j.decodeHeader token with
  | .error e => (.error (.jwt e), jwks)
  | .ok header =>
    match c.decodingKey j w₁ w₂ jwks header.kid with
    | (.error e, jwks) => (.error e, jwks)
    | (.ok key, jwks) =>
      match j.check token key header.alg c.issuer with
      | .error e => (.error (.jwt e), jwks)
      | .ok payload =>
        match Claims.deserialize payload with
        | none => (.error (.jwt "JSON"), jwks)
        | some claims => (c.checkClaims claims, jwks)

/-- `Auth::verify`. The key set cached by earlier calls comes in and goes out. -/
def AuthConfig.verify (auth : AuthConfig) (w₁ w₂ : World) (jwks : Option JwkSet)
    (presented : String) : Except AuthError Unit × Option JwkSet :=
  if auth.staticToken.any fun token => constantTimeEq (asBytes token) (asBytes presented) then
    (.ok (), jwks)
  else
    match auth.oidc with
    | none => (.error .rejected, jwks)
    | some c => c.verify j w₁ w₂ jwks presented

end

/-! ## The policy -/

/-- A claim the token does not have, or has as `null`. -/
def Absent (claim : Option Json) : Prop := claim = none ∨ claim = some .null

/-- The claims have types that `Claims` can hold; otherwise decoding the token fails. -/
structure Payload.WellTyped (p : Payload) : Prop where
  sub : Absent p.sub ∨ ∃ s, p.sub = some (.string s)
  clientId : Absent p.clientId ∨ ∃ s, p.clientId = some (.string s)
  aud : Absent p.aud ∨ (∃ s, p.aud = some (.string s)) ∨
    ∃ auds : List String, p.aud = some (.array (auds.map some))

/-- The documented policy on the claims of a valid token. -/
structure OidcConfig.Allows (c : OidcConfig) (p : Payload) : Prop where
  aud : Absent p.aud ∨ p.aud = some (.array []) ∨ p.aud = some (.string c.clientId) ∨
    ∃ items, p.aud = some (.array items) ∧ some c.clientId ∈ items
  client : Absent p.clientId ∨ p.clientId = some (.string c.clientId)
  subject : p.sub = some (.string c.allowedSub) ∨
    Absent p.sub ∧ p.clientId = some (.string c.clientId) ∧ c.clientId = c.allowedSub

section

variable {κ : Type} (j : Jwt κ)

/-- A key for the token's key id can be had: from the cached set or, without one, a fetched set;
or, where that set has no such key, from a set that is fetched then. -/
def OidcConfig.Obtains (c : OidcConfig) (w₁ w₂ : World) (jwks : Option JwkSet)
    (kid : Option String) (key : κ) : Prop :=
  ∃ set, (jwks = some set ∨ jwks = none ∧ c.fetchJwks w₁ = .ok set) ∧
    ((∃ jwk, selectKey set kid = some jwk ∧ j.fromJwk jwk = .ok key) ∨
      selectKey set kid = none ∧ ∃ set', c.fetchJwks w₂ = .ok set' ∧
        ∃ jwk, selectKey set' kid = some jwk ∧ j.fromJwk jwk = .ok key)

/-- The token is the static one, or a JWT that is valid under an obtainable key of the issuer and
whose claims the policy allows. -/
def AuthConfig.Accepted (auth : AuthConfig) (w₁ w₂ : World) (jwks : Option JwkSet)
    (token : String) : Prop :=
  auth.staticToken = some token ∨
    ∃ c header key payload, auth.oidc = some c ∧ j.decodeHeader token = .ok header ∧
      c.Obtains j w₁ w₂ jwks header.kid key ∧
      j.check token key header.alg c.issuer = .ok payload ∧
      payload.WellTyped ∧ c.Allows payload

end

/-! ## The comparison of bytes -/

theorem foldl_or_xor_eq_zero {ps : List (UInt8 × UInt8)} {acc : UInt8} :
    ps.foldl (fun acc (x, y) => acc ||| (x ^^^ y)) acc = 0 ↔
      acc = 0 ∧ ∀ p ∈ ps, p.1 = p.2 := by
  induction ps generalizing acc with
  | nil => simp
  | cons p ps ih =>
    rw [List.foldl_cons, ih, UInt8.or_eq_zero_iff, UInt8.xor_eq_zero_iff]
    simp [and_assoc]

theorem constantTimeEq_iff {a b : List UInt8} : constantTimeEq a b = true ↔ a = b := by
  rw [constantTimeEq, Bool.and_eq_true, decide_eq_true_eq, decide_eq_true_eq, foldl_or_xor_eq_zero]
  constructor
  · rintro ⟨hlen, -, hall⟩
    induction a generalizing b with
    | nil => exact (List.length_eq_zero_iff.mp hlen.symm).symm
    | cons x a ih =>
      obtain ⟨y, b, rfl⟩ := List.exists_cons_of_length_eq_add_one hlen.symm
      rw [List.zip_cons_cons, List.forall_mem_cons] at hall
      have hxy : x = y := hall.1
      rw [hxy, ih (Nat.succ.inj hlen) hall.2]
  · rintro rfl
    refine ⟨rfl, rfl, fun p hp => ?_⟩
    rw [List.zip_eq_zipWith, List.zipWith_self] at hp
    obtain ⟨x, -, rfl⟩ := List.mem_map.mp hp
    rfl

theorem asBytes_inj {s t : String} : asBytes s = asBytes t ↔ s = t := by
  constructor
  · intro h
    have hdata : s.toByteArray.data = t.toByteArray.data := Array.toList_inj.mp h
    exact String.toByteArray_inj.mp (ByteArray.ext hdata)
  · rintro rfl
    rfl

/-! ## The claims -/

theorem deserializeOption_eq_some {claim : Option Json} {o : Option String} :
    deserializeOption claim = some o ↔
      Absent claim ∧ o = none ∨ ∃ s, claim = some (.string s) ∧ o = some s := by
  unfold deserializeOption Absent
  split <;> simp_all [eq_comm]

theorem mapM_id_eq_some {items : List (Option String)} {auds : List String} :
    items.mapM id = some auds ↔ items = auds.map some := by
  induction items generalizing auds with
  | nil => cases auds <;> simp
  | cons item items ih =>
    rw [List.mapM_cons]
    cases item with
    | none => cases auds <;> simp
    | some s =>
      cases auds with
      | nil => simp [Option.bind_eq_some_iff]
      | cons aud auds => simp [Option.bind_eq_some_iff, ih, and_comm]

theorem Audience.deserialize_eq_some {claim : Option Json} {aud : Audience} :
    Audience.deserialize claim = some aud ↔
      Absent claim ∧ aud = .missing ∨ (∃ s, claim = some (.string s) ∧ aud = .one s) ∨
        ∃ auds : List String, claim = some (.array (auds.map some)) ∧ aud = .many auds := by
  unfold Audience.deserialize Absent
  split <;> simp_all [eq_comm, mapM_id_eq_some]

theorem Claims.deserialize_eq_some {p : Payload} {claims : Claims} :
    Claims.deserialize p = some claims ↔ deserializeOption p.sub = some claims.sub ∧
      deserializeOption p.clientId = some claims.clientId ∧
      Audience.deserialize p.aud = some claims.aud := by
  obtain ⟨sub, clientId, aud⟩ := claims
  simp [Claims.deserialize, Option.bind_eq_some_iff]

theorem Audience.accepts_many {expected : String} {auds : List String} :
    (Audience.many auds).accepts expected = true ↔ auds = [] ∨ expected ∈ auds := by
  simp [Audience.accepts]

theorem OidcConfig.checkSubject_eq_ok {c : OidcConfig} {subject : Option String} :
    c.checkSubject subject = .ok () ↔ subject = some c.allowedSub := by
  cases subject with
  | none => simp [checkSubject]
  | some s => by_cases hs : s = c.allowedSub <;> simp [checkSubject, hs]

theorem OidcConfig.checkClaims_eq_ok {c : OidcConfig} {claims : Claims} :
    c.checkClaims claims = .ok () ↔ claims.aud.accepts c.clientId = true ∧
      (claims.clientId = none ∨ claims.clientId = some c.clientId) ∧
      (claims.sub <|> claims.clientId) = some c.allowedSub := by
  rw [checkClaims]
  by_cases haud : claims.aud.accepts c.clientId = true
  · rw [if_pos haud]
    cases hid : claims.clientId with
    | none => simp [haud, checkSubject_eq_ok]
    | some id =>
      by_cases heq : id = c.clientId <;> simp [haud, heq, checkSubject_eq_ok, Option.filter]
  · simp [haud]

/-- What a decoded optional claim says of the token. -/
theorem deserializeOption_spec {claim : Option Json} {o : Option String}
    (h : deserializeOption claim = some o) :
    (o = none ↔ Absent claim) ∧ ∀ s, o = some s ↔ claim = some (.string s) := by
  rcases deserializeOption_eq_some.mp h with ⟨habsent, rfl⟩ | ⟨s, rfl, rfl⟩
  · refine ⟨by simp [habsent], fun s => ?_⟩
    rcases habsent with rfl | rfl <;> simp
  · simp [Absent]

theorem Audience.accepts_iff {claim : Option Json} {aud : Audience} {expected : String}
    (h : Audience.deserialize claim = some aud) :
    aud.accepts expected = true ↔ Absent claim ∨ claim = some (.array []) ∨
      claim = some (.string expected) ∨
      ∃ items, claim = some (.array items) ∧ some expected ∈ items := by
  rcases Audience.deserialize_eq_some.mp h with ⟨habsent, rfl⟩ | ⟨s, rfl, rfl⟩ | ⟨auds, rfl, rfl⟩
  · simp [Audience.accepts, habsent]
  · simp [Audience.accepts, Absent]
  · simp [Audience.accepts_many, Absent]

theorem Payload.wellTyped_iff {p : Payload} :
    p.WellTyped ↔ ∃ claims, Claims.deserialize p = some claims := by
  constructor
  · rintro ⟨hsub, hclient, haud⟩
    have hoption : ∀ claim : Option Json, (Absent claim ∨ ∃ s, claim = some (.string s)) →
        ∃ o, deserializeOption claim = some o := by
      rintro claim (habsent | ⟨s, rfl⟩)
      · exact ⟨none, deserializeOption_eq_some.mpr (.inl ⟨habsent, rfl⟩)⟩
      · exact ⟨some s, rfl⟩
    obtain ⟨sub, hsub⟩ := hoption _ hsub
    obtain ⟨clientId, hclient⟩ := hoption _ hclient
    have haud : ∃ aud, Audience.deserialize p.aud = some aud := by
      rcases haud with habsent | ⟨s, hs⟩ | ⟨auds, hauds⟩
      · exact ⟨.missing, Audience.deserialize_eq_some.mpr (.inl ⟨habsent, rfl⟩)⟩
      · exact ⟨.one s, by rw [hs]; rfl⟩
      · exact ⟨.many auds, Audience.deserialize_eq_some.mpr (.inr (.inr ⟨auds, hauds, rfl⟩))⟩
    obtain ⟨aud, haud⟩ := haud
    exact ⟨⟨sub, clientId, aud⟩, Claims.deserialize_eq_some.mpr ⟨hsub, hclient, haud⟩⟩
  · rintro ⟨claims, hde⟩
    obtain ⟨hsub, hclient, haud⟩ := Claims.deserialize_eq_some.mp hde
    refine ⟨?_, ?_, ?_⟩
    · rcases deserializeOption_eq_some.mp hsub with ⟨h, -⟩ | ⟨s, h, -⟩
      · exact .inl h
      · exact .inr ⟨s, h⟩
    · rcases deserializeOption_eq_some.mp hclient with ⟨h, -⟩ | ⟨s, h, -⟩
      · exact .inl h
      · exact .inr ⟨s, h⟩
    · rcases Audience.deserialize_eq_some.mp haud with ⟨h, -⟩ | ⟨s, h, -⟩ | ⟨auds, h, -⟩
      · exact .inl h
      · exact .inr (.inl ⟨s, h⟩)
      · exact .inr (.inr ⟨auds, h⟩)

/-- **The claims** pass the checks exactly when the policy allows them. -/
theorem OidcConfig.allows_iff {c : OidcConfig} {p : Payload} {claims : Claims}
    (h : Claims.deserialize p = some claims) : c.checkClaims claims = .ok () ↔ c.Allows p := by
  obtain ⟨hsub, hclient, haud⟩ := Claims.deserialize_eq_some.mp h
  obtain ⟨hsubNone, hsubSome⟩ := deserializeOption_spec hsub
  obtain ⟨hclientNone, hclientSome⟩ := deserializeOption_spec hclient
  rw [checkClaims_eq_ok, Audience.accepts_iff haud, hclientNone, hclientSome]
  have hsubject : (claims.sub <|> claims.clientId) = some c.allowedSub ↔
      claims.sub = some c.allowedSub ∨ claims.sub = none ∧ claims.clientId = some c.allowedSub := by
    cases claims.sub <;> simp
  constructor
  · rintro ⟨hauds, hid, hs⟩
    refine ⟨hauds, hid, ?_⟩
    rcases hsubject.mp hs with hs | ⟨hnone, hs⟩
    · exact .inl ((hsubSome _).mp hs)
    · have hjson := (hclientSome _).mp hs
      -- A token that names its client can only name ours.
      have hid := hid.resolve_left fun habsent => by
        rw [hclientNone.mpr habsent] at hs
        cases hs
      rw [hid, Option.some.injEq, Json.string.injEq] at hjson
      exact .inr ⟨hsubNone.mp hnone, hid, hjson⟩
  · rintro ⟨hauds, hid, hs⟩
    refine ⟨hauds, hid, hsubject.mpr ?_⟩
    rcases hs with hs | ⟨habsent, hs, heq⟩
    · exact .inl ((hsubSome _).mpr hs)
    · exact .inr ⟨hsubNone.mpr habsent, by rw [← heq]; exact (hclientSome _).mpr hs⟩

/-! ## Verification -/

section

variable {κ : Type} {j : Jwt κ} {w₁ w₂ : World} {jwks : Option JwkSet}

/-- One pass of the loop: fetch if asked to or nothing is cached, then look. -/
theorem OidcConfig.keyLoop_cons {c : OidcConfig} {kid : Option String} {key : κ} {fetch : Bool}
    {w : World} {rest : List (Bool × World)} :
    (c.keyLoop j kid ((fetch, w) :: rest) jwks).1 = .ok key ↔
      ∃ set, (if fetch || jwks.isNone then c.fetchJwks w else .ok (jwks.getD [])) = .ok set ∧
        ((∃ jwk, selectKey set kid = some jwk ∧ j.fromJwk jwk = .ok key) ∨
          selectKey set kid = none ∧ (c.keyLoop j kid rest (some set)).1 = .ok key) := by
  rw [keyLoop]
  generalize (if fetch || jwks.isNone then c.fetchJwks w else .ok (jwks.getD [])) = got
  cases got with
  | error e => simp
  | ok set =>
    cases hsel : selectKey set kid with
    | none => simp [hsel]
    | some jwk => cases hkey : j.fromJwk jwk <;> simp [hsel, hkey, Except.mapError]

/-- The loop leaves in the cache what was there, or what one of its fetches brought. -/
theorem OidcConfig.keyLoop_cached {c : OidcConfig} {kid : Option String}
    {passes : List (Bool × World)} {set : JwkSet} (h : (c.keyLoop j kid passes jwks).2 = some set) :
    jwks = some set ∨ ∃ p ∈ passes, c.fetchJwks p.2 = .ok set := by
  induction passes generalizing jwks with
  | nil => exact .inl h
  | cons p rest ih =>
    obtain ⟨fetch, w⟩ := p
    rw [keyLoop] at h
    -- the set that this pass looks into
    have hgot : ∀ got, (if fetch || jwks.isNone then c.fetchJwks w else .ok (jwks.getD [])) =
        .ok got → jwks = some got ∨ c.fetchJwks w = .ok got := by
      intro got hget
      split_ifs at hget with hfetch
      · exact .inr hget
      · cases jwks with
        | none => simp at hfetch
        | some cached =>
          cases hget
          exact .inl rfl
    split at h
    · exact .inl h
    · rename_i got hget
      have hpass : jwks = some got ∨ ∃ p ∈ (fetch, w) :: rest, c.fetchJwks p.2 = .ok got :=
        (hgot got hget).imp_right fun hw => ⟨(fetch, w), List.mem_cons_self, hw⟩
      split at h
      · cases h
        exact hpass
      · rcases ih h with heq | ⟨p, hp, hset⟩
        · cases heq
          exact hpass
        · exact .inr ⟨p, List.mem_cons_of_mem _ hp, hset⟩

/-- **The key** is found exactly where one can be had. -/
theorem OidcConfig.decodingKey_eq_ok {c : OidcConfig} {kid : Option String} {key : κ} :
    (c.decodingKey j w₁ w₂ jwks kid).1 = .ok key ↔ c.Obtains j w₁ w₂ jwks kid key := by
  have hlast : ∀ set : JwkSet, (c.keyLoop j kid [(true, w₂)] (some set)).1 = .ok key ↔
      ∃ set', c.fetchJwks w₂ = .ok set' ∧
        ∃ jwk, selectKey set' kid = some jwk ∧ j.fromJwk jwk = .ok key := by
    intro set
    rw [keyLoop_cons]
    simp [keyLoop]
  rw [decodingKey, keyLoop_cons]
  cases jwks with
  | none => simp only [hlast]; simp [Obtains]
  | some cached => simp only [hlast]; simp [Obtains]

/-- A call of `Oidc::verify` leaves the cache to its look for the key. -/
theorem OidcConfig.verify_cached {c : OidcConfig} {token : String} {set : JwkSet}
    (h : (c.verify j w₁ w₂ jwks token).2 = some set) :
    jwks = some set ∨ c.fetchJwks w₁ = .ok set ∨ c.fetchJwks w₂ = .ok set := by
  have hkey : ∀ kid, (c.decodingKey j w₁ w₂ jwks kid).2 = some set →
      jwks = some set ∨ c.fetchJwks w₁ = .ok set ∨ c.fetchJwks w₂ = .ok set := by
    intro kid hkid
    rcases keyLoop_cached hkid with heq | ⟨p, hp, hset⟩
    · exact .inl heq
    · simp only [List.mem_cons, List.not_mem_nil, or_false] at hp
      rcases hp with rfl | rfl
      · exact .inr (.inl hset)
      · exact .inr (.inr hset)
  unfold OidcConfig.verify at h
  split at h
  · exact .inl h
  · rename_i header _
    refine hkey header.kid ?_
    split at h
    all_goals rename_i heq
    · rw [heq]
      exact h
    · rw [heq]
      split at h
      · exact h
      · split at h
        all_goals exact h

theorem OidcConfig.verify_eq_ok {c : OidcConfig} {token : String} :
    (c.verify j w₁ w₂ jwks token).1 = .ok () ↔ ∃ header key payload,
      j.decodeHeader token = .ok header ∧ c.Obtains j w₁ w₂ jwks header.kid key ∧
      j.check token key header.alg c.issuer = .ok payload ∧ payload.WellTyped ∧
      c.Allows payload := by
  rw [OidcConfig.verify]
  cases hheader : j.decodeHeader token with
  | error e => simp
  | ok header =>
    simp only [Except.ok.injEq, ← decodingKey_eq_ok, exists_eq_left', exists_and_left]
    rcases c.decodingKey j w₁ w₂ jwks header.kid with ⟨key | key, jwks'⟩
    · simp
    · cases hcheck : j.check token key header.alg c.issuer with
      | error e => simp [hcheck]
      | ok payload =>
        cases hde : Claims.deserialize payload with
        | none => simp [hcheck, Payload.wellTyped_iff, hde]
        | some claims => simp [hcheck, Payload.wellTyped_iff, hde, allows_iff hde]

theorem AuthConfig.any_constantTimeEq {auth : AuthConfig} {token : String} :
    (auth.staticToken.any fun t => constantTimeEq (asBytes t) (asBytes token)) = true ↔
      auth.staticToken = some token := by
  cases auth.staticToken <;> simp [constantTimeEq_iff, asBytes_inj]

/-- **The policy is exactly the documented one.** -/
theorem AuthConfig.verify_eq_ok_iff {auth : AuthConfig} {token : String} :
    (auth.verify j w₁ w₂ jwks token).1 = .ok () ↔ auth.Accepted j w₁ w₂ jwks token := by
  rw [AuthConfig.verify, Accepted]
  by_cases hs : auth.staticToken = some token
  · rw [if_pos (AuthConfig.any_constantTimeEq.mpr hs)]
    simp [hs]
  · rw [if_neg (mt AuthConfig.any_constantTimeEq.mp hs)]
    cases auth.oidc with
    | none => simp [hs]
    | some c => simp [hs, OidcConfig.verify_eq_ok]

/-- **The cache** after a call is as it was before, or what the issuer answered to a fetch of the
call. -/
theorem AuthConfig.verify_cached {auth : AuthConfig} {token : String} {set : JwkSet}
    (h : (auth.verify j w₁ w₂ jwks token).2 = some set) : jwks = some set ∨
      ∃ c, auth.oidc = some c ∧ (c.fetchJwks w₁ = .ok set ∨ c.fetchJwks w₂ = .ok set) := by
  unfold AuthConfig.verify at h
  split_ifs at h
  · exact .inl h
  · cases hoidc : auth.oidc with
    | none =>
      rw [hoidc] at h
      exact .inl h
    | some c =>
      rw [hoidc] at h
      rcases c.verify_cached h with heq | hfetch
      · exact .inl heq
      · exact .inr ⟨c, rfl, hfetch⟩

end

end HerdrEternal
