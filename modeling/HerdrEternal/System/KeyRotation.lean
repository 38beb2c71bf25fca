import HerdrEternal.Lib.Machine
import HerdrEternal.Server.Auth

/-!
# The server's key set against the issuer's rotations

The issuer publishes one key set after another, in which a key id always stands for the same key.
The server caches the set it fetched last. `decoding_key` looks a token's key up in the cached set,
and if it is not there, once more in a set fetched then.

A key id that the cached set does not know is therefore looked up in the current set, and one that
it knows stands for the current key. A token without a key id is taken to be signed with the first
key of the set. There the first pass finds something in every cached set that has a key, also in one
that the issuer has replaced since, and the current set is never fetched.

**Theorem (`decoding_key_current_iff`).** In every reachable state, the signing key of a token that
is signed now is found exactly where the token names it, or nothing with a key in it is cached, or
the cached set begins with that key (`UpToDate`).
-/

namespace HerdrEternal

/-! ## The fetches of one call -/

/-- The fetches that `decoding_key` makes, with their answers. -/
def OidcConfig.keyFetches (c : OidcConfig) (kid : Option String) :
    List (Bool × World) → Option JwkSet → List (Except AuthError JwkSet)
  | [], _ => []
  | (fetch, w) :: rest, jwks =>
    if fetch || jwks.isNone then
      match c.fetchJwks w with
      | .error e => [.error e]
      | .ok set =>
        .ok set :: if (selectKey set kid).isSome then [] else c.keyFetches kid rest (some set)
    else if (selectKey (jwks.getD []) kid).isSome then [] else c.keyFetches kid rest jwks

/-- The set of the last fetch that succeeded. -/
def lastFetched (fetches : List (Except AuthError JwkSet)) : Option JwkSet :=
  (fetches.filterMap Except.toOption).getLast?

section

variable {κ : Type} {j : Jwt κ} {c : OidcConfig} {kid : Option String}
  {passes : List (Bool × World)} {jwks : Option JwkSet}

/-- One pass: it fetches if asked to or nothing is cached, and is the last one if it fails or finds
the key. -/
theorem OidcConfig.keyFetches_cons {fetch : Bool} {w : World} {rest : List (Bool × World)} :
    c.keyFetches kid ((fetch, w) :: rest) jwks =
      if fetch || jwks.isNone then
        match c.fetchJwks w with
        | .error e => [.error e]
        | .ok set =>
          .ok set :: if (selectKey set kid).isSome then [] else c.keyFetches kid rest (some set)
      else if (selectKey (jwks.getD []) kid).isSome then [] else c.keyFetches kid rest jwks := rfl

theorem OidcConfig.length_keyFetches_le :
    (c.keyFetches kid passes jwks).length ≤ passes.length := by
  induction passes generalizing jwks with
  | nil => exact Nat.le_refl 0
  | cons p rest ih =>
    obtain ⟨fetch, w⟩ := p
    rw [keyFetches_cons, List.length_cons]
    by_cases hfetch : (fetch || jwks.isNone) = true
    · rw [if_pos hfetch]
      cases c.fetchJwks w with
      | error e => simp
      | ok set =>
        refine Nat.succ_le_succ ?_
        split_ifs
        · exact Nat.zero_le _
        · exact ih
    · rw [if_neg hfetch]
      split_ifs
      · exact Nat.zero_le _
      · exact Nat.le_succ_of_le ih

theorem lastFetched_cons_ok (set : JwkSet) (fetches : List (Except AuthError JwkSet)) :
    lastFetched (.ok set :: fetches) = some ((lastFetched fetches).getD set) := by
  simp [lastFetched, Except.toOption, List.getLast?_cons]

/-- **The cache** holds what the last successful fetch brought; a failed fetch leaves it alone. -/
theorem OidcConfig.keyLoop_cache :
    (c.keyLoop j kid passes jwks).2 = (lastFetched (c.keyFetches kid passes jwks) <|> jwks) := by
  induction passes generalizing jwks with
  | nil => rfl
  | cons p rest ih =>
    obtain ⟨fetch, w⟩ := p
    rw [keyLoop, keyFetches_cons]
    by_cases hfetch : (fetch || jwks.isNone) = true
    · rw [if_pos hfetch, if_pos hfetch]
      cases hw : c.fetchJwks w with
      | error e => rfl
      | ok set =>
        dsimp only
        rw [lastFetched_cons_ok]
        cases hsel : selectKey set kid with
        | some jwk => rfl
        | none =>
          dsimp only
          rw [ih]
          cases hlast : lastFetched (c.keyFetches kid rest (some set)) <;> simp [hlast]
    · rw [if_neg hfetch, if_neg hfetch]
      obtain ⟨set, rfl⟩ : ∃ set, jwks = some set := by
        cases jwks with
        | none => simp at hfetch
        | some set => exact ⟨set, rfl⟩
      rw [Option.getD_some]
      dsimp only
      cases hsel : selectKey set kid with
      | some jwk => rfl
      | none => exact ih

end

/-! ## The issuer and the server -/

/-- A key id stands for one key. -/
def StableIds (published : List JwkSet) : Prop :=
  ∀ set ∈ published, ∀ set' ∈ published, ∀ jwk ∈ set, ∀ jwk' ∈ set',
    jwk.keyId.isSome = true → jwk.keyId = jwk'.keyId → jwk = jwk'

instance (published : List JwkSet) : Decidable (StableIds published) :=
  inferInstanceAs (Decidable (∀ set ∈ published, ∀ set' ∈ published, ∀ jwk ∈ set, ∀ jwk' ∈ set',
    jwk.keyId.isSome = true → jwk.keyId = jwk'.keyId → jwk = jwk'))

structure KeyServer where
  /-- The sets the issuer has published, the current one last. -/
  published : List JwkSet
  cache : Option JwkSet
  deriving DecidableEq

inductive KeyLabel where
  | publish (set : JwkSet)
  /-- A call of `Oidc::verify` with the answers its fetches would get, and the sets published
  between the two. -/
  | verify (token : String) (w₁ : World) (between : List JwkSet) (w₂ : World)

namespace KeyServer

section

variable {κ : Type} (j : Jwt κ) (c : OidcConfig)

/-- A fetch fails, or brings the current set. -/
def honest (published : List JwkSet) (w : World) : Bool :=
  match c.fetchJwks w with
  | .error _ => true
  | .ok set => published.getLast? = some set

def step (x : KeyServer) : KeyLabel → Option KeyServer
  | .publish set =>
    if StableIds (x.published ++ [set]) then some { x with published := x.published ++ [set] }
    else none
  | .verify token w₁ between w₂ =>
    if StableIds (x.published ++ between) ∧ honest c x.published w₁ = true ∧
        honest c (x.published ++ between) w₂ = true then
      some ⟨x.published ++ between, (c.verify j w₁ w₂ x.cache token).2⟩
    else none

def machine : Machine KeyServer KeyLabel where
  init x := x = ⟨[], none⟩
  step := step j c

end

/-! ## The property -/

/-- A token with key id `kid`, or without one, is signed with `jwk` of the set. -/
structure Signs (set : JwkSet) (kid : Option String) (jwk : Jwk) : Prop where
  mem : jwk ∈ set
  named : ∀ k, kid = some k → jwk.keyId = some k
  first : kid = none → set.head? = some jwk

variable {κ : Type} {j : Jwt κ} {c : OidcConfig} {x x' : KeyServer}

/-- A call for the key of such a token gives the signing key, where fetching succeeds; it makes at
most two fetches, and what it leaves in the cache is what the last successful one brought. -/
structure Serves (j : Jwt κ) (c : OidcConfig) (x : KeyServer) (current : JwkSet)
    (kid : Option String) (key : κ) : Prop where
  key_eq : ∀ w₁ w₂, c.fetchJwks w₁ = .ok current → c.fetchJwks w₂ = .ok current →
    (c.decodingKey j w₁ w₂ x.cache kid).1 = .ok key
  fetches_le : ∀ w₁ w₂, (c.keyFetches kid [(false, w₁), (true, w₂)] x.cache).length ≤ 2
  cache_eq : ∀ w₁ w₂, (c.decodingKey j w₁ w₂ x.cache kid).2 =
    (lastFetched (c.keyFetches kid [(false, w₁), (true, w₂)] x.cache) <|> x.cache)

/-- The token names its key, or nothing with a key in it is cached, or the cached set begins with
the signing key. -/
def UpToDate (j : Jwt κ) (x : KeyServer) (kid : Option String) (key : κ) : Prop :=
  kid.isSome = true ∨
    ∀ set jwk, x.cache = some set → set.head? = some jwk → j.fromJwk jwk = .ok key

/-! ## The cache holds published sets -/

/-- What every run keeps. -/
structure Tracks (x : KeyServer) : Prop where
  stable : StableIds x.published
  cached : ∀ set, x.cache = some set → set ∈ x.published

theorem fetched_of_mem {kid : Option String} {passes : List (Bool × World)} {jwks : Option JwkSet}
    {set : JwkSet} (h : .ok set ∈ c.keyFetches kid passes jwks) :
    ∃ p ∈ passes, c.fetchJwks p.2 = .ok set := by
  induction passes generalizing jwks with
  | nil => cases h
  | cons p rest ih =>
    obtain ⟨fetch, w⟩ := p
    have hrest : ∀ {jwks : Option JwkSet}, .ok set ∈ c.keyFetches kid rest jwks →
        ∃ p ∈ (fetch, w) :: rest, c.fetchJwks p.2 = .ok set := by
      intro jwks hmem
      obtain ⟨p, hp, hset⟩ := ih hmem
      exact ⟨p, List.mem_cons_of_mem _ hp, hset⟩
    rw [OidcConfig.keyFetches_cons] at h
    by_cases hfetch : (fetch || jwks.isNone) = true
    · rw [if_pos hfetch] at h
      cases hw : c.fetchJwks w with
      | error e => simp [hw] at h
      | ok set' =>
        rw [hw] at h
        rcases List.mem_cons.mp h with heq | hmem
        · cases heq
          exact ⟨_, List.mem_cons_self, hw⟩
        · split_ifs at hmem
          · cases hmem
          · exact hrest hmem
    · rw [if_neg hfetch] at h
      split_ifs at h
      · cases h
      · exact hrest h

theorem mem_of_lastFetched {fetches : List (Except AuthError JwkSet)} {set : JwkSet}
    (h : lastFetched fetches = some set) : .ok set ∈ fetches := by
  obtain ⟨answer, hmem, hset⟩ := List.mem_filterMap.mp (List.mem_of_getLast? h)
  cases answer with
  | error e => cases hset
  | ok set' =>
    cases hset
    exact hmem

/-- After a call the cache is as it was, or holds a set that one of the fetches brought. -/
theorem cache_decodingKey (w₁ w₂ : World) (jwks : Option JwkSet) (kid : Option String) :
    (c.decodingKey j w₁ w₂ jwks kid).2 = jwks ∨
      ∃ set, (c.decodingKey j w₁ w₂ jwks kid).2 = some set ∧
        (c.fetchJwks w₁ = .ok set ∨ c.fetchJwks w₂ = .ok set) := by
  have hcache : (c.decodingKey j w₁ w₂ jwks kid).2 = _ := OidcConfig.keyLoop_cache
  rw [hcache]
  cases hlast : lastFetched (c.keyFetches kid [(false, w₁), (true, w₂)] jwks) with
  | none => exact .inl (by simp)
  | some set =>
    obtain ⟨p, hp, hset⟩ := fetched_of_mem (mem_of_lastFetched hlast)
    refine .inr ⟨set, by simp, ?_⟩
    simp only [List.mem_cons, List.not_mem_nil, or_false] at hp
    rcases hp with rfl | rfl
    · exact .inl hset
    · exact .inr hset

theorem cache_verify (w₁ w₂ : World) (jwks : Option JwkSet) (token : String) :
    (c.verify j w₁ w₂ jwks token).2 = jwks ∨
      ∃ kid, (c.verify j w₁ w₂ jwks token).2 = (c.decodingKey j w₁ w₂ jwks kid).2 := by
  unfold OidcConfig.verify
  cases j.decodeHeader token with
  | error e => exact .inl rfl
  | ok header =>
    refine .inr ⟨header.kid, ?_⟩
    dsimp only
    rcases c.decodingKey j w₁ w₂ jwks header.kid with ⟨key | key, jwks'⟩
    · rfl
    · dsimp only
      cases j.check token key header.alg c.issuer with
      | error e => rfl
      | ok payload =>
        dsimp only
        cases Claims.deserialize payload <;> rfl

theorem published_of_honest {published : List JwkSet} {w : World} {set : JwkSet}
    (h : honest c published w = true) (hset : c.fetchJwks w = .ok set) : set ∈ published := by
  rw [honest, hset, decide_eq_true_eq] at h
  exact List.mem_of_getLast? h

theorem tracks_step {l : KeyLabel} (h : x.Tracks) (hs : x.step j c l = some x') : x'.Tracks := by
  cases l with
  | publish set =>
    simp only [step] at hs
    split_ifs at hs with hstable
    cases hs
    exact ⟨hstable, fun set' hset' => List.mem_append_left _ (h.cached set' hset')⟩
  | verify token w₁ between w₂ =>
    simp only [step] at hs
    split_ifs at hs with hok
    cases hs
    obtain ⟨hstable, h₁, h₂⟩ := hok
    refine ⟨hstable, fun set hset => ?_⟩
    have hold : ∀ set, x.cache = some set → set ∈ x.published ++ between :=
      fun set hset => List.mem_append_left _ (h.cached set hset)
    rcases cache_verify (j := j) (c := c) w₁ w₂ x.cache token with heq | ⟨kid, heq⟩
    · exact hold set (heq.symm.trans hset)
    · rcases cache_decodingKey (j := j) (c := c) w₁ w₂ x.cache kid with hsame | ⟨set', hnew, hw⟩
      · exact hold set ((heq.trans hsame).symm.trans hset)
      · cases ((heq.trans hnew).symm.trans hset)
        rcases hw with hw | hw
        · exact List.mem_append_left _ (published_of_honest h₁ hw)
        · exact published_of_honest h₂ hw

theorem tracks_of_reachable (h : (machine j c).Reachable x) : x.Tracks := by
  refine h.invariant (P := fun x => x.Tracks) ?_ ?_
  · rintro _ rfl
    exact ⟨by simp [StableIds], fun set hset => by cases hset⟩
  · exact fun _ _ _ h _ hs => tracks_step h hs

/-! ## Looking the signing key up -/

/-- In a published set a known key id is the signing key's. -/
theorem Tracks.selectKey_eq (h : x.Tracks) {current set : JwkSet} (hcur : current ∈ x.published)
    (hset : set ∈ x.published) {k : String} {jwk jwk' : Jwk} (hs : Signs current (some k) jwk)
    (hsel : selectKey set (some k) = some jwk') : jwk' = jwk := by
  have hk : jwk'.keyId = some k := by simpa using List.find?_some hsel
  have hmem := List.mem_of_find?_eq_some hsel
  exact h.stable set hset current hcur jwk' hmem jwk hs.mem (by simp [hk])
    (hk.trans (hs.named k rfl).symm)

/-- In the current set the signing key is found. -/
theorem Tracks.selectKey_current (h : x.Tracks) {current : JwkSet} (hcur : current ∈ x.published)
    {kid : Option String} {jwk : Jwk} (hs : Signs current kid jwk) :
    selectKey current kid = some jwk := by
  cases kid with
  | none => exact hs.first rfl
  | some k =>
    cases hsel : selectKey current (some k) with
    | none =>
      have hno := List.find?_eq_none.mp hsel jwk hs.mem
      exact absurd (hs.named k rfl) (by simpa using hno)
    | some jwk' => rw [h.selectKey_eq hcur hcur hs hsel]

/-- **Rotation does not lock users out** exactly where the token names its key or the cached set
does not begin with another one. -/
theorem decoding_key_current_iff (h : (machine j c).Reachable x) {current : JwkSet}
    (hcur : x.published.getLast? = some current) {kid : Option String} {jwk : Jwk}
    (hs : Signs current kid jwk) {key : κ} (hkey : j.fromJwk jwk = .ok key) :
    Serves j c x current kid key ↔ UpToDate j x kid key := by
  have htracks := tracks_of_reachable h
  have hmem := List.mem_of_getLast? hcur
  have hfound := htracks.selectKey_current hmem hs
  constructor
  · intro hserves
    cases kid with
    | some k => exact .inl rfl
    | none =>
      refine .inr fun set jwk' hset hhead => ?_
      let w : World := ⟨fun _ => some "", fun _ => some current⟩
      obtain ⟨set', hset', hsel⟩ := OidcConfig.decodingKey_eq_ok.mp (hserves.key_eq w w rfl rfl)
      -- what is cached has a first key, so the first pass ends with it
      have hsame : set' = set := by
        rcases hset' with hset' | ⟨hnone, -⟩
        · exact Option.some.inj (hset'.symm.trans hset)
        · cases hnone.symm.trans hset
      subst hsame
      have hhead : selectKey set' none = some jwk' := hhead
      rcases hsel with ⟨jwk'', hsel, hkey'⟩ | ⟨hsel, -⟩
      · cases hhead.symm.trans hsel
        exact hkey'
      · cases hhead.symm.trans hsel
  · intro hup
    refine ⟨fun w₁ w₂ h₁ h₂ => ?_, fun w₁ w₂ => OidcConfig.length_keyFetches_le,
      fun w₁ w₂ => OidcConfig.keyLoop_cache⟩
    rw [OidcConfig.decodingKey_eq_ok]
    cases hcache : x.cache with
    | none => exact ⟨current, .inr ⟨rfl, h₁⟩, .inl ⟨jwk, hfound, hkey⟩⟩
    | some set =>
      refine ⟨set, .inl rfl, ?_⟩
      cases hsel : selectKey set kid with
      | none => exact .inr ⟨rfl, current, h₂, jwk, hfound, hkey⟩
      | some jwk' =>
        refine .inl ⟨jwk', rfl, ?_⟩
        cases kid with
        | some k => rw [htracks.selectKey_eq hmem (htracks.cached set hcache) hs hsel, hkey]
        | none => exact hup.resolve_left (by simp) set jwk' hcache hsel

/-! ## A rotation -/

/-- A library that takes every token to have no key id, and every key as it is. -/
def bareTokens : Jwt Jwk where
  decodeHeader _ := .ok ⟨none, "RS256"⟩
  fromJwk := .ok
  check _ _ _ _ := .error "ExpiredSignature"

def provider : OidcConfig := ⟨"https://auth.example.com", "herdr", "alice"⟩

def oldKey : Jwk := ⟨some "2025", "n1"⟩

def newKey : Jwk := ⟨some "2026", "n2"⟩

/-- The provider answers with this set. -/
def serving (set : JwkSet) : World :=
  ⟨fun _ => some "https://auth.example.com/jwks", fun _ => some set⟩

/-- A token is verified, and then the issuer puts a new key in front of the old one. -/
def rotationRun : List KeyLabel :=
  [.publish [oldKey], .verify "t" (serving [oldKey]) [] (serving [oldKey]),
    .publish [newKey, oldKey]]

def rotated : KeyServer := ⟨[[oldKey], [newKey, oldKey]], some [oldKey]⟩

theorem reachable_rotated : (machine bareTokens provider).Reachable rotated := by
  have hrun : (machine bareTokens provider).run ⟨[], none⟩ rotationRun = some rotated := rfl
  exact Machine.reachable_of_run rfl hrun

/-- A token that names the new key is served after the rotation. -/
theorem rotated_named_current :
    Serves bareTokens provider rotated [newKey, oldKey] (some "2026") newKey :=
  (decoding_key_current_iff reachable_rotated rfl
    ⟨List.mem_cons_self, fun _ hk => hk, fun hk => by cases hk⟩ rfl).mpr (.inl rfl)

/-- A token without a key id, signed with the new key, is checked against the old one. -/
theorem unnamed_locked_out :
    ∃ x : KeyServer, (machine bareTokens provider).Reachable x ∧
      x.published.getLast? = some [newKey, oldKey] ∧ Signs [newKey, oldKey] none newKey ∧
      (provider.decodingKey bareTokens (serving [newKey, oldKey]) (serving [newKey, oldKey])
        x.cache none).1 = .ok oldKey ∧
      ¬ Serves bareTokens provider x [newKey, oldKey] none newKey := by
  have hold : (provider.decodingKey bareTokens (serving [newKey, oldKey])
      (serving [newKey, oldKey]) rotated.cache none).1 = .ok oldKey := rfl
  refine ⟨rotated, reachable_rotated, rfl,
    ⟨List.mem_cons_self, fun k hk => (by cases hk), fun _ => rfl⟩, hold, fun hserves => ?_⟩
  have hnew := hserves.key_eq (serving [newKey, oldKey]) (serving [newKey, oldKey]) rfl rfl
  exact absurd (hold.symm.trans hnew) (by decide)

end KeyServer

end HerdrEternal
