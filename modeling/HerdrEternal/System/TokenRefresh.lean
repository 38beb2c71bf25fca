import HerdrEternal.System.TokenStore

/-!
# Concurrent refreshes

"Rotated refresh tokens make concurrent refreshes fail, so serialize them." `access_token` reads
the cache without the lock, takes the lock, and reads the cache again before it asks the provider.

`Refreshers` is any number of calls of `access_token` and a provider that accepts exactly one
refresh token, its current one, and may give out a new one with every grant. No login is running,
and no call fails between the provider's answer and the end of its store (`serialized`).

**Theorem (`spends_once`).** No call presents a refresh token that was invalidated, and what the
calls return was issued by the provider. If the cache starts with the current refresh token, no
call returns an error of its own making, and the cache has the current refresh token whenever the
lock is free.
-/

namespace HerdrEternal

/-! ## The provider -/

structure Provider where
  /-- The one refresh token that it accepts. -/
  live : String
  /-- The refresh tokens that rotation has invalidated. -/
  retired : List String
  /-- The access tokens it gave out. -/
  issued : List String
  deriving DecidableEq

namespace Provider

/-- Nothing has been rotated yet. -/
def start (live : String) (issued : List String) : Provider := ⟨live, [], issued⟩

/-- A grant, with a new refresh token or without. -/
def grant (p : Provider) (tokens : TokenResponse) : Provider :=
  let live := tokens.refreshToken.getD p.live
  ⟨live, (p.live :: p.retired).filter (· ≠ live), tokens.accessToken :: p.issued⟩

/-- The provider gives this answer to a refresh token. -/
def answers (p : Provider) (refreshToken : String) :
    Except RequestError (Except String TokenResponse) → Option Provider
  | .ok (.ok tokens) => if refreshToken = p.live then some (p.grant tokens) else none
  | .ok (.error _) => if refreshToken = p.live then none else some p
  -- The request did not reach it, or was not processed.
  | .error _ => some p

/-- The provider, while a call that presents a refresh token takes a step. -/
def during (p : Provider) (presented : Option String) : TokenLabel → Option Provider
  | .call _ (.answered reply) => presented.bind fun r => p.answers r (tokenRequest reply)
  | _ => some p

end Provider

/-! ## The system -/

structure Refreshers where
  cache : TokenCache
  provider : Provider
  /-- The calls that failed for want of an answer or of a file. -/
  faults : List Nat

/-- The call that the step fails. -/
def TokenLabel.fault : TokenLabel → Option Nat
  | .call i (.failed _) => some i
  | .call i (.answered reply) =>
    match tokenRequest reply with
    | .error _ => some i
    | .ok _ => none
  | _ => none

/-- The refresh token that a suspended call is presenting. -/
def TokenPc.presented : TokenPc → Option String
  | .granting refreshToken => some refreshToken
  | _ => none

namespace Refreshers

variable {J : TokenJson} {files : Files} {live : String} {issued : List String}
  {s s' : Refreshers} {l : TokenLabel} {i j : Nat} {c d : TokenCall}

def presented (s : Refreshers) : TokenLabel → Option String
  | .call i _ => s.cache.calls[i]?.bind fun c => c.pc.presented
  | _ => none

def step (J : TokenJson) (s : Refreshers) (l : TokenLabel) : Option Refreshers :=
  (s.cache.step J l).bind fun cache =>
    (s.provider.during (s.presented l) l).map fun provider =>
      ⟨cache, provider, l.fault.toList ++ s.faults⟩

def start (files : Files) (live : String) (issued : List String) : Refreshers :=
  ⟨.start files, .start live issued, []⟩

/-- The runs of a token directory with the given files, and a provider with the given tokens. -/
def machine (J : TokenJson) (files : Files) (live : String) (issued : List String) :
    Machine Refreshers TokenLabel where
  init s := s = .start files live issued
  step := step J

/-- Nobody logs in, and no call fails between the provider's answer and the end of its store. -/
def serialized (s : Refreshers) : TokenLabel → Bool
  | .login => false
  | .call i (.failed _) => s.cache.calls[i]?.all fun c => !c.pc.answered
  | _ => true

/-- The cache holds the refresh token that the provider accepts. -/
def Cached (J : TokenJson) (s : Refreshers) : Prop :=
  ∃ t, s.cache.tokens J = some t ∧ t.refreshToken = some s.provider.live

/-- What the lock is for. The runs with `hopeful` are those in which the cache starts with a
refresh token that the provider accepts. -/
structure SpendsOnce (J : TokenJson) (hopeful : Prop) (s : Refreshers) : Prop where
  /-- A refresh token that was invalidated is not presented again. -/
  presented : ∀ (i : Nat) (c : TokenCall) (r : String), s.cache.calls[i]? = some c →
    c.pc = .granting r → r ∉ s.provider.retired
  /-- The one that is presented is the one that the provider accepts. -/
  accepted : hopeful → ∀ (i : Nat) (c : TokenCall) (r : String), s.cache.calls[i]? = some c →
    c.pc = .granting r → r = s.provider.live
  /-- A call that succeeds returns an access token of the provider. -/
  returned : ∀ (i : Nat) (c : TokenCall) (a : Option String), s.cache.calls[i]? = some c →
    c.pc = .returned (.ok a) → ∃ token ∈ s.provider.issued, a = some token
  /-- All others failed for want of an answer or of a file. -/
  failed : hopeful → ∀ (i : Nat) (c : TokenCall) (e : ClientError), s.cache.calls[i]? = some c →
    c.pc = .returned (.error e) → e ≠ .notLoggedIn ∧ i ∈ s.faults
  cached : hopeful → s.cache.lock = none → Cached J s

theorem of_step (h : s.step J l = some s') :
    TokenCache.Step J s.cache l s'.cache ∧
      s.provider.during (s.presented l) l = some s'.provider ∧
      s'.faults = l.fault.toList ++ s.faults := by
  obtain ⟨cache, hcache, h⟩ := Option.bind_eq_some_iff.mp h
  obtain ⟨provider, hprovider, rfl⟩ := Option.map_eq_some_iff.mp h
  exact ⟨.of_step hcache, hprovider, rfl⟩

end Refreshers

/-! ## The lock -/

namespace TokenCache

variable {J : TokenJson} {s s' : TokenCache} {i j : Nat} {c d : TokenCall} {l : TokenLabel}

/-- All calls are refreshes, and one that has taken the lock holds it. -/
def Held (s : TokenCache) : Prop :=
  ∀ (i : Nat) (c : TokenCall), s.calls[i]? = some c →
    c.login = false ∧ c.pc ≠ .authorizing ∧ (c.pc.locked = true → s.lock = some i)

theorem Held.eq (h : Held s) (hc : s.calls[i]? = some c) (hd : s.calls[j]? = some d)
    (hp : c.pc.locked = true) (hq : d.pc.locked = true) : j = i :=
  Option.some.inj (((h j d hd).2.2 hq).symm.trans ((h i c hc).2.2 hp))

theorem Held.unlocked (h : Held s) (hc : s.calls[i]? = some c) (hd : s.calls[j]? = some d)
    (hp : c.pc.locked = true) (hne : j ≠ i) : d.pc.locked = false := by
  by_contra hq
  rw [Bool.not_eq_false] at hq
  exact hne (h.eq hc hd hp hq)

theorem Held.put (h : Held s) (hc : s.calls[i]? = some c) (hlogin : d.login = c.login)
    (ha : d.pc ≠ .authorizing) (hp : d.pc.locked = true → c.pc.locked = true) :
    Held (s.put i d) := by
  obtain ⟨hl, -, hlock⟩ := h i c hc
  exact Table.forall_set h ⟨hlogin.trans hl, ha, fun hd => hlock (hp hd)⟩

theorem Held.finish (h : Held s) (hc : s.calls[i]? = some c)
    (result : Except ClientError (Option String)) : Held (s.finish i c result) := by
  intro j e he
  obtain ⟨rfl, rfl⟩ | ⟨hne, he⟩ := Table.of_set he
  · exact ⟨(h j c hc).1, by simp, fun hp => by cases hp⟩
  · obtain ⟨hl, ha, hlock⟩ := h j e he
    refine ⟨hl, ha, fun hp => ?_⟩
    have hother : s.lock ≠ some i := by
      rw [hlock hp]
      exact fun heq => hne (Option.some.inj heq)
    exact (if_neg hother).trans (hlock hp)

theorem loadTokens_of_rename {cached : CachedTokens} {files : Files}
    (hdraft : s.files.draft = some (J.toVecPretty cached)) (hr : s.files.rename = some files) :
    J.loadTokens files = some cached := by
  rw [TokenJson.loadTokens, (Files.of_rename hr).1, hdraft]
  exact J.fromSlice_toVecPretty cached

theorem Held.step (h : Held s) (hl : l ≠ .login) (hs : Step J s l s') : Held s' := by
  cases hs with
  | access => exact Table.forall_concat h ⟨rfl, by simp, fun hp => by cases hp⟩
  | login => exact absurd rfl hl
  | stale hc => exact h.put hc rfl (by simp) fun hp => by cases hp
  | @locked i c hc hp hfree =>
    intro j d hd
    obtain ⟨rfl, rfl⟩ | ⟨-, hd⟩ := Table.of_set hd
    · exact ⟨(h j c hc).1, by simp, fun _ => rfl⟩
    · obtain ⟨hlogin, ha, hlock⟩ := h j d hd
      refine ⟨hlogin, ha, fun hq => ?_⟩
      rw [hfree] at hlock
      cases hlock hq
  | reread hc hp => exact h.put hc rfl (by simp) fun _ => by rw [hp]; rfl
  | granted hc hp => exact h.put hc rfl (by simp) fun _ => by rw [hp]; rfl
  | authorized hc hp => exact absurd hp (h _ _ hc).2.1
  | opened hc hp =>
    exact h.put (d := ⟨_, _, .writing _ _⟩) hc rfl (by simp) fun _ => by rw [hp]; rfl
  | wrote hc hp => exact h.put (d := ⟨_, _, .renaming _⟩) hc rfl (by simp) fun _ => by rw [hp]; rfl
  | @renamed i c cached files hc =>
    have hstored : Held (s.stored files c) := h
    exact hstored.finish hc _
  | missing hc => exact h.finish hc _
  | valid hc => exact h.finish hc _
  | noRefresh hc => exact h.finish hc _
  | unanswered hc => exact h.finish hc _
  | refused hc => exact h.finish hc _
  | notRenamed hc => exact h.finish hc _
  | failed hc => exact h.finish hc _

/-- Refreshes that hold the lock do not overlap with anything. -/
theorem exclusive_of_held (h : Held s) (hs : Step J s l s') : s.exclusive l = true := by
  cases hs with
  | @opened i c tokens now hc hp =>
    simp only [exclusive, List.all_eq_true, Bool.not_eq_true']
    intro d hmem
    obtain ⟨j, hd⟩ := List.mem_iff_getElem?.mp hmem
    by_contra hq
    rw [Bool.not_eq_false] at hq
    obtain rfl := h.eq hc hd (by rw [hp]; rfl) (TokenPc.locked_of_storing hq)
    cases hc.symm.trans hd
    rw [hp] at hq
    cases hq
  | notRenamed hc => simp [exclusive, hc, (h _ _ hc).1]
  | renamed hc => simp [exclusive, hc, (h _ _ hc).1]
  | _ => rfl

end TokenCache

namespace Refreshers

variable {J : TokenJson} {files : Files} {live : String} {issued : List String}
  {s s' : Refreshers} {l : TokenLabel} {i j : Nat} {c d : TokenCall} {hopeful : Prop}

theorem held_under (h : (machine J files live issued).Under (fun s l => s.serialized l = true) s) :
    s.cache.Held := by
  refine h.invariant (P := fun s => s.cache.Held) ?_ fun s l s' hh hx hs =>
    hh.step ?_ (of_step hs).1
  · rintro s rfl i c hc
    cases hc
  · rintro rfl
    cases hx

/-- **Refinement.** The cache takes part in a run in which stores do not overlap. -/
theorem cache_under (h : (machine J files live issued).Under (fun s l => s.serialized l = true) s) :
    (TokenCache.machine J files).Under (fun s l => s.exclusive l = true) s.cache := by
  induction h with
  | init hi =>
    rw [hi]
    exact .init rfl
  | @step s s' l h _ hs ih =>
    obtain ⟨cache, hcache, hmap⟩ := Option.bind_eq_some_iff.mp hs
    obtain ⟨provider, -, rfl⟩ := Option.map_eq_some_iff.mp hmap
    exact .step ih (TokenCache.exclusive_of_held (held_under h) (.of_step hcache)) hcache

/-! ## The provider's part of a step -/

section

variable {reply : Option (HttpResponse TokenResponse)} {refreshToken : String} {p : Provider}

theorem during_answered (hc : s.cache.calls[i]? = some c) (hp : c.pc = .granting refreshToken) :
    s.provider.during (s.presented (.call i (.answered reply))) (.call i (.answered reply)) =
      s.provider.answers refreshToken (tokenRequest reply) := by
  simp [Provider.during, presented, hc, hp, TokenPc.presented]

theorem of_granted {tokens : TokenResponse} (hc : s.cache.calls[i]? = some c)
    (hp : c.pc = .granting refreshToken) (ha : tokenRequest reply = .ok (.ok tokens))
    (h : s.provider.during (s.presented (.call i (.answered reply))) (.call i (.answered reply)) =
      some p) : refreshToken = s.provider.live ∧ p = s.provider.grant tokens := by
  rw [during_answered hc hp, ha, Provider.answers] at h
  split_ifs at h with hlive
  exact ⟨hlive, (Option.some.inj h).symm⟩

theorem of_refused {error : String} (hc : s.cache.calls[i]? = some c)
    (hp : c.pc = .granting refreshToken) (ha : tokenRequest reply = .ok (.error error))
    (h : s.provider.during (s.presented (.call i (.answered reply))) (.call i (.answered reply)) =
      some p) : refreshToken ≠ s.provider.live ∧ p = s.provider := by
  rw [during_answered hc hp, ha, Provider.answers] at h
  split_ifs at h with hlive
  exact ⟨hlive, (Option.some.inj h).symm⟩

theorem of_unanswered {e : RequestError} (hc : s.cache.calls[i]? = some c)
    (hp : c.pc = .granting refreshToken) (ha : tokenRequest reply = .error e)
    (h : s.provider.during (s.presented (.call i (.answered reply))) (.call i (.answered reply)) =
      some p) : p = s.provider := by
  rw [during_answered hc hp, ha, Provider.answers] at h
  exact (Option.some.inj h).symm

/-- The provider changes only when it grants its current refresh token. -/
theorem provider_of_step (hstep : s.step J l = some s') :
    s'.provider = s.provider ∨
    ∃ (i : Nat) (c : TokenCall) (tokens : TokenResponse), s.cache.calls[i]? = some c ∧
      c.pc = .granting s.provider.live ∧
      s'.cache = s.cache.go i c (.opening (tokens.keeping s.provider.live)) ∧
      s'.provider = s.provider.grant tokens := by
  obtain ⟨hs, hprov, -⟩ := of_step hstep
  obtain ⟨cache', p', faults'⟩ := s'
  cases hs with
  | unanswered hc hp ha => exact .inl (of_unanswered hc hp ha hprov)
  | refused hc hp ha => exact .inl (of_refused hc hp ha hprov).2
  | granted hc hp ha =>
    obtain ⟨rfl, hgrant⟩ := of_granted hc hp ha hprov
    exact .inr ⟨_, _, _, hc, hp, rfl, hgrant⟩
  | _ => exact .inl (Option.some.inj hprov).symm

end

/-! ## What the calls carry -/

/-- What a suspended call relies on. -/
def Carries (tokens : Option CachedTokens) (p : Provider) : TokenPc → Prop
  | .granting r => ∃ t, tokens = some t ∧ t.refreshToken = some r
  | .opening new => tokens.isSome = true ∧ new.accessToken ∈ p.issued ∧
    new.refreshToken = some p.live
  | .writing _ t | .renaming t => t.accessToken ∈ p.issued ∧ t.refreshToken = some p.live
  | .returned (.ok a) => ∃ token ∈ p.issued, a = some token
  | _ => True

/-- The tokens in the cache and those of the calls are the provider's. -/
structure Genuine (J : TokenJson) (s : Refreshers) : Prop where
  cached : ∀ t, s.cache.tokens J = some t → t.accessToken ∈ s.provider.issued
  carried : ∀ (i : Nat) (c : TokenCall), s.cache.calls[i]? = some c →
    Carries (s.cache.tokens J) s.provider c.pc
  live : s.provider.live ∉ s.provider.retired

theorem Genuine.granting {r : String} (h : Genuine J s) (hc : s.cache.calls[i]? = some c)
    (hp : c.pc = .granting r) : ∃ t, s.cache.tokens J = some t ∧ t.refreshToken = some r := by
  have hcarried := h.carried i c hc
  rwa [hp] at hcarried

/-- A call without the lock does not mind what the others do. -/
theorem Carries.of_unlocked {tokens tokens' : Option CachedTokens} {p p' : Provider} {pc : TokenPc}
    (h : Carries tokens p pc) (hpc : pc.locked = false) (hissued : ∀ a ∈ p.issued, a ∈ p'.issued) :
    Carries tokens' p' pc := by
  cases pc with
  | returned result =>
    cases result with
    | error => trivial
    | ok =>
      obtain ⟨token, hmem, rfl⟩ := h
      exact ⟨token, hissued token hmem, rfl⟩
  | reading => trivial
  | locking => trivial
  | rereading => trivial
  | authorizing => trivial
  | _ => cases hpc

/-- A call goes on, and neither the cache nor the provider changes. -/
theorem Genuine.of_set (h : Genuine J s) (htokens : s'.cache.tokens J = s.cache.tokens J)
    (hprovider : s'.provider = s.provider) (hcalls : s'.cache.calls = s.cache.calls.set i d)
    (hd : Carries (s.cache.tokens J) s.provider d.pc) : Genuine J s' where
  cached := by
    rw [htokens, hprovider]
    exact h.cached
  carried := by
    rw [htokens, hprovider, hcalls]
    exact Table.forall_set h.carried hd
  live := by
    rw [hprovider]
    exact h.live

theorem mem_issued_grant {p : Provider} {tokens : TokenResponse} {a : String}
    (h : a ∈ p.issued) : a ∈ (p.grant tokens).issued := List.mem_cons_of_mem _ h

theorem live_grant (p : Provider) (tokens : TokenResponse) :
    (p.grant tokens).live ∉ (p.grant tokens).retired := by
  simp [Provider.grant]

theorem Genuine.step (h : Genuine J s) (hheld : s.cache.Held) (ho : s.cache.Orderly J)
    (hstep : s.step J l = some s') : Genuine J s' := by
  obtain ⟨hs, hprov, -⟩ := of_step hstep
  obtain ⟨cache', p', faults'⟩ := s'
  cases hs with
  | access =>
    obtain rfl := Option.some.inj hprov
    exact ⟨h.cached, Table.forall_concat h.carried trivial, h.live⟩
  | login =>
    obtain rfl := Option.some.inj hprov
    exact ⟨h.cached, Table.forall_concat h.carried trivial, h.live⟩
  | missing => exact h.of_set rfl (Option.some.inj hprov).symm rfl trivial
  | valid hc hp ht =>
    exact h.of_set rfl (Option.some.inj hprov).symm rfl ⟨_, h.cached _ ht, rfl⟩
  | stale => exact h.of_set rfl (Option.some.inj hprov).symm rfl trivial
  | locked => exact h.of_set rfl (Option.some.inj hprov).symm rfl trivial
  | noRefresh => exact h.of_set rfl (Option.some.inj hprov).symm rfl trivial
  | reread hc hp ht hv hr =>
    exact h.of_set rfl (Option.some.inj hprov).symm rfl ⟨_, ht, hr⟩
  | unanswered hc hp ha => exact h.of_set rfl (of_unanswered hc hp ha hprov) rfl trivial
  | refused hc hp ha => exact h.of_set rfl (of_refused hc hp ha hprov).2 rfl trivial
  | @granted i c reply r tokens hc hp ha =>
    obtain ⟨rfl, rfl⟩ := of_granted hc hp ha hprov
    refine ⟨fun t ht => mem_issued_grant (h.cached t ht), fun j d hd => ?_, live_grant _ _⟩
    obtain ⟨-, rfl⟩ | ⟨hne, hd⟩ := Table.of_set hd
    · obtain ⟨t, ht, -⟩ := h.granting hc hp
      refine ⟨Option.isSome_iff_exists.mpr ⟨t, ht⟩, List.mem_cons_self, ?_⟩
      cases hr : tokens.refreshToken <;> simp [TokenResponse.keeping, Provider.grant, hr]
    · exact (h.carried j d hd).of_unlocked (hheld.unlocked hc hd (by rw [hp]; rfl) hne)
        fun a => mem_issued_grant
  | authorized hc hp => exact absurd hp (hheld _ _ hc).2.1
  | @opened i c tokens now hc hp =>
    have hcarried := h.carried i c hc
    rw [hp] at hcarried
    refine h.of_set ?_ (Option.some.inj hprov).symm rfl ⟨hcarried.2.1, hcarried.2.2⟩
    exact congrArg (·.bind J.fromSlice) (Files.read_openTmp _)
  | @wrote i c file cached hc hp =>
    have hcarried := h.carried i c hc
    have hdraft := (ho i c hc (by rw [hp]; rfl)).1
    rw [hp] at hcarried hdraft
    refine h.of_set ?_ (Option.some.inj hprov).symm rfl hcarried
    exact congrArg (·.bind J.fromSlice) (Files.read_write hdraft.1)
  | notRenamed => exact h.of_set rfl (Option.some.inj hprov).symm rfl trivial
  | @renamed i c cached files hc hp hr =>
    obtain rfl := Option.some.inj hprov
    have hcarried := h.carried i c hc
    rw [hp] at hcarried
    have htokens : J.loadTokens files = some cached :=
      TokenCache.loadTokens_of_rename (ho.draft hc hp) hr
    refine ⟨fun t ht => ?_, fun j d hd => ?_, h.live⟩
    · cases htokens.symm.trans ht
      exact hcarried.1
    · obtain ⟨-, rfl⟩ | ⟨hne, hd⟩ := Table.of_set hd
      · exact ⟨cached.accessToken, hcarried.1, by simp [(hheld i c hc).1]⟩
      · exact (h.carried j d hd).of_unlocked (hheld.unlocked hc hd (by rw [hp]; rfl) hne)
          fun a ha => ha
  | failed => exact h.of_set rfl (Option.some.inj hprov).symm rfl trivial

theorem genuine_under (hissued : ∀ t, J.loadTokens files = some t → t.accessToken ∈ issued)
    (h : (machine J files live issued).Under (fun s l => s.serialized l = true) s) :
    Genuine J s := by
  induction h with
  | init hi =>
    rw [hi]
    refine ⟨hissued, fun i c hc => ?_, by simp [start, Provider.start]⟩
    cases hc
  | step h _ hs ih => exact ih.step (held_under h) (TokenCache.orderly_under (cache_under h)) hs

/-! ## The refresh token in the cache -/

/-- The cache has tokens, with the current refresh token unless a call has just been given another
one. -/
def Synced (J : TokenJson) (s : Refreshers) : Prop :=
  ∃ t, s.cache.tokens J = some t ∧
    ((∀ c ∈ s.cache.calls, c.pc.answered = false) → t.refreshToken = some s.provider.live)

theorem none_answered {cache : TokenCache} (h : cache.Held) (hc : cache.calls[i]? = some c)
    (hp : c.pc.locked = true) (ha : c.pc.answered = false) :
    ∀ d ∈ cache.calls, d.pc.answered = false := by
  intro d hmem
  obtain ⟨j, hd⟩ := List.mem_iff_getElem?.mp hmem
  by_contra hq
  rw [Bool.not_eq_false] at hq
  obtain rfl := h.eq hc hd hp (TokenPc.locked_of_answered hq)
  cases hc.symm.trans hd
  rw [ha] at hq
  cases hq

/-- A call with the lock that has not been answered finds the current refresh token. -/
theorem Synced.refreshToken (h : Synced J s) (hheld : s.cache.Held)
    (hc : s.cache.calls[i]? = some c) (hp : c.pc.locked = true) (ha : c.pc.answered = false)
    {t : CachedTokens} (ht : s.cache.tokens J = some t) :
    t.refreshToken = some s.provider.live := by
  obtain ⟨t', ht', hlive⟩ := h
  cases ht.symm.trans ht'
  exact hlive (none_answered hheld hc hp ha)

theorem Synced.granting {r : String} (h : Synced J s) (hg : Genuine J s) (hheld : s.cache.Held)
    (hc : s.cache.calls[i]? = some c) (hp : c.pc = .granting r) : r = s.provider.live := by
  obtain ⟨t, ht, hr⟩ := hg.granting hc hp
  have hlive := h.refreshToken hheld hc (by rw [hp]; rfl) (by rw [hp]; rfl) ht
  exact Option.some.inj (hr.symm.trans hlive)

theorem Synced.of_set (h : Synced J s) (htokens : s'.cache.tokens J = s.cache.tokens J)
    (hprovider : s'.provider = s.provider) (hc : s.cache.calls[i]? = some c)
    (hcalls : s'.cache.calls = s.cache.calls.set i d)
    (hans : c.pc.answered = true → d.pc.answered = true) : Synced J s' := by
  obtain ⟨t, ht, hlive⟩ := h
  refine ⟨t, htokens.trans ht, fun hnone => ?_⟩
  rw [hcalls] at hnone
  rw [hprovider]
  refine hlive fun e he => ?_
  by_cases hec : e = c
  · subst hec
    by_contra hq
    have hd := hnone d (List.mem_of_getElem? (Table.set_self hc))
    rw [hans (Bool.not_eq_false _ ▸ hq)] at hd
    cases hd
  · exact hnone e (Table.mem_set_of_ne hc he hec)

theorem Synced.step (h : Synced J s) (hg : Genuine J s) (ho : s.cache.Orderly J)
    (hx : s.serialized l = true) (hprovider : s'.provider = s.provider)
    (hs : TokenCache.Step J s.cache l s'.cache) : Synced J s' := by
  obtain ⟨cache', p', faults'⟩ := s'
  have quiet : ∀ {c d : TokenCall} {q : TokenPc}, c.pc = q → q.answered = false →
      c.pc.answered = true → d.pc.answered = true := by
    intro c d q hp hq ha
    rw [hp, hq] at ha
    cases ha
  cases hs with
  | access =>
    obtain ⟨t, ht, hlive⟩ := h
    refine ⟨t, ht, fun hnone => ?_⟩
    rw [hprovider]
    exact hlive fun d hd => hnone d (List.mem_append_left _ hd)
  | login => cases hx
  | missing hc hp ht =>
    obtain ⟨t, ht', -⟩ := h
    cases ht.symm.trans ht'
  | valid hc hp =>
    obtain hp | hp := hp
    · exact h.of_set rfl hprovider hc rfl (quiet hp rfl)
    · exact h.of_set rfl hprovider hc rfl (quiet hp rfl)
  | stale hc hp => exact h.of_set rfl hprovider hc rfl (quiet hp rfl)
  | locked hc hp => exact h.of_set rfl hprovider hc rfl (quiet hp rfl)
  | noRefresh hc hp => exact h.of_set rfl hprovider hc rfl (quiet hp rfl)
  | reread hc hp => exact h.of_set rfl hprovider hc rfl (quiet hp rfl)
  | unanswered hc hp => exact h.of_set rfl hprovider hc rfl (quiet hp rfl)
  | refused hc hp => exact h.of_set rfl hprovider hc rfl (quiet hp rfl)
  | granted hc => exact h.of_set rfl hprovider hc rfl fun _ => rfl
  | authorized hc => exact h.of_set rfl hprovider hc rfl fun _ => rfl
  | opened hc =>
    refine h.of_set ?_ hprovider (d := ⟨_, _, .writing _ _⟩) hc rfl fun _ => rfl
    exact congrArg (·.bind J.fromSlice) (Files.read_openTmp _)
  | @wrote i c file cached hc hp =>
    have hdraft := (ho i c hc (by rw [hp]; rfl)).1
    rw [hp] at hdraft
    refine h.of_set ?_ hprovider (d := ⟨_, _, .renaming _⟩) hc rfl fun _ => rfl
    exact congrArg (·.bind J.fromSlice) (Files.read_write hdraft.1)
  | notRenamed hc hp hr =>
    have hsome := ho.rename_isSome hc hp
    rw [hr] at hsome
    cases hsome
  | renamed hc hp hr =>
    have hcarried := hg.carried _ _ hc
    rw [hp] at hcarried
    refine ⟨_, TokenCache.loadTokens_of_rename (ho.draft hc hp) hr, fun _ => ?_⟩
    rw [hprovider]
    exact hcarried.2
  | @failed i c e hc hp =>
    simp only [serialized, hc, Option.all_some, Bool.not_eq_true'] at hx
    exact h.of_set rfl hprovider hc rfl (quiet rfl hx)

/-- A grant that was accepted is on its way to the cache. -/
theorem synced_of_grant {tokens : TokenResponse} (hg : Genuine J s)
    (hc : s.cache.calls[i]? = some c) (hp : c.pc = .granting s.provider.live)
    (hcache : s'.cache = s.cache.go i c (.opening tokens)) : Synced J s' := by
  obtain ⟨t, ht, -⟩ := hg.granting hc hp
  refine ⟨t, ?_, fun hnone => ?_⟩
  · rw [hcache]
    exact ht
  · have hopening := hnone { c with pc := .opening tokens } (by
      rw [hcache]
      exact List.mem_of_getElem? (Table.set_self hc))
    cases hopening

/-- The cache is in step with the provider if it was at first, or from the first
rotation on. -/
theorem synced_under (hissued : ∀ t, J.loadTokens files = some t → t.accessToken ∈ issued)
    (h : (machine J files live issued).Under (fun s l => s.serialized l = true) s)
    (hlive : Cached J (start files live issued) ∨ s.provider.retired ≠ []) : Synced J s := by
  induction h with
  | init hi =>
    rw [hi] at hlive ⊢
    obtain ⟨t, ht, hr⟩ | hne := hlive
    · exact ⟨t, ht, fun _ => hr⟩
    · exact absurd rfl hne
  | step h hx hs ih =>
    have hg := genuine_under hissued h
    have ho := TokenCache.orderly_under (cache_under h)
    obtain hprovider | ⟨i, c, tokens, hc, hp, hcache, -⟩ := provider_of_step hs
    · rw [hprovider] at hlive
      exact (ih hlive).step hg ho hx hprovider (of_step hs).1
    · exact synced_of_grant hg hc hp hcache

/-! ## Errors -/

/-- A call that did not succeed failed for want of an answer or of a file. -/
def Honest (s : Refreshers) : Prop :=
  ∀ (i : Nat) (c : TokenCall) (e : ClientError), s.cache.calls[i]? = some c →
    c.pc = .returned (.error e) → e ≠ .notLoggedIn ∧ i ∈ s.faults

theorem Honest.mono (h : Honest s) (hfaults : ∀ j ∈ s.faults, j ∈ s'.faults) :
    ∀ (i : Nat) (c : TokenCall), s.cache.calls[i]? = some c → ∀ e, c.pc = .returned (.error e) →
      e ≠ .notLoggedIn ∧ i ∈ s'.faults := by
  intro i c hc e hr
  obtain ⟨hne, hmem⟩ := h i c e hc hr
  exact ⟨hne, hfaults i hmem⟩

theorem Honest.of_set (h : Honest s) (hfaults : ∀ j ∈ s.faults, j ∈ s'.faults)
    (hcalls : s'.cache.calls = s.cache.calls.set i d)
    (hd : ∀ e, d.pc = .returned (.error e) → e ≠ .notLoggedIn ∧ i ∈ s'.faults) : Honest s' := by
  intro j c e hc
  rw [hcalls] at hc
  exact Table.forall_set (h.mono hfaults) hd j c hc e

theorem Honest.of_concat (h : Honest s) (hfaults : ∀ j ∈ s.faults, j ∈ s'.faults)
    (hcalls : s'.cache.calls = s.cache.calls ++ [d]) (hd : d.pc.isReturned = false) :
    Honest s' := by
  intro j c e hc
  rw [hcalls] at hc
  refine Table.forall_concat (h.mono hfaults) (fun e he => ?_) j c hc e
  rw [he] at hd
  cases hd

theorem Honest.step (h : Honest s) (hsync : Synced J s) (hg : Genuine J s)
    (hheld : s.cache.Held) (ho : s.cache.Orderly J) (hstep : s.step J l = some s') :
    Honest s' := by
  obtain ⟨hs, hprov, hfaults⟩ := of_step hstep
  have hmono : ∀ j ∈ s.faults, j ∈ s'.faults := by
    intro j hj
    rw [hfaults]
    exact List.mem_append_right _ hj
  obtain ⟨cache', p', faults'⟩ := s'
  cases hs with
  | access => exact h.of_concat hmono rfl rfl
  | login => exact h.of_concat hmono rfl rfl
  | missing hc hp ht =>
    obtain ⟨t, ht', -⟩ := hsync
    cases ht.symm.trans ht'
  | noRefresh hc hp ht hv hr =>
    have hlive := hsync.refreshToken hheld hc (by rw [hp]; rfl) (by rw [hp]; rfl) ht
    cases hr.symm.trans hlive
  | refused hc hp ha =>
    exact absurd (hsync.granting hg hheld hc hp) (of_refused hc hp ha hprov).1
  | @unanswered i c reply r e hc hp ha =>
    refine h.of_set hmono rfl fun err herr => ?_
    cases herr
    refine ⟨RequestError.toClient_ne e, ?_⟩
    rw [hfaults]
    simp [TokenLabel.fault, ha]
  | notRenamed hc hp hr =>
    have hsome := ho.rename_isSome hc hp
    rw [hr] at hsome
    cases hsome
  | @failed i c e hc hp he =>
    refine h.of_set hmono rfl fun err herr => ?_
    cases herr
    refine ⟨fun hne => he ⟨hne, (hheld i c hc).1⟩, ?_⟩
    rw [hfaults]
    exact List.mem_cons_self
  | _ => exact h.of_set hmono rfl fun e he => by cases he

theorem honest_under (hissued : ∀ t, J.loadTokens files = some t → t.accessToken ∈ issued)
    (h : (machine J files live issued).Under (fun s l => s.serialized l = true) s)
    (hlive : Cached J (start files live issued)) : Honest s := by
  induction h with
  | init hi =>
    rw [hi]
    intro i c e hc
    cases hc
  | step h _ hs ih =>
    exact ih.step (synced_under hissued h (.inl hlive)) (genuine_under hissued h) (held_under h)
      (TokenCache.orderly_under (cache_under h)) hs

/-- **Concurrent refreshes never spend a refresh token twice**, however their reads, grants and
stores interleave. -/
theorem spends_once (hissued : ∀ t, J.loadTokens files = some t → t.accessToken ∈ issued)
    (h : (machine J files live issued).Under (fun s l => s.serialized l = true) s) :
    SpendsOnce J (Cached J (start files live issued)) s := by
  have hg := genuine_under hissued h
  have hheld := held_under h
  constructor
  · intro i c r hc hp hmem
    have hsync := synced_under hissued h (.inr (List.ne_nil_of_mem hmem))
    rw [hsync.granting hg hheld hc hp] at hmem
    exact hg.live hmem
  · intro hopeful i c r hc hp
    exact (synced_under hissued h (.inl hopeful)).granting hg hheld hc hp
  · intro i c a hc hp
    have hcarried := hg.carried i c hc
    rwa [hp] at hcarried
  · intro hopeful i c e hc hp
    exact honest_under hissued h hopeful i c e hc hp
  · intro hopeful hfree
    obtain ⟨t, ht, hlive⟩ := synced_under hissued h (.inl hopeful)
    refine ⟨t, ht, hlive fun d hmem => ?_⟩
    obtain ⟨j, hd⟩ := List.mem_iff_getElem?.mp hmem
    by_contra hq
    rw [Bool.not_eq_false] at hq
    cases hfree.symm.trans ((hheld j d hd).2.2 (TokenPc.locked_of_answered hq))

/-! ## Two refreshes -/

/-- The cache of the first tokens, which have expired. -/
def expiredFiles : Files :=
  (Files.empty.openTmp.write 0 (prettyJson.toVecPretty ⟨"a1", some "r1", 0⟩)).rename.get (by decide)

/-- Both calls find that the tokens have expired. The first one gets a new refresh token, the
second one does not, as its tokens expire at once too. -/
def bothRefresh : List TokenLabel :=
  [.access, .access, .call 0 (.loaded 0), .call 1 (.loaded 0), .call 0 .locked,
    .call 0 (.loaded 0)] ++ TokenCache.refreshes 0 ⟨"a2", some "r2", 0⟩ ++
  [.call 1 .locked, .call 1 (.loaded 0)] ++ TokenCache.refreshes 1 ⟨"a3", none, 3600⟩

def refreshed : Refreshers :=
  ((machine prettyJson expiredFiles "r1" ["a1"]).runIf serialized
    (start expiredFiles "r1" ["a1"]) bothRefresh).get (by decide)

theorem both_refreshed :
    refreshed.cache.calls.map (·.pc) =
      [.returned (.ok (some "a2")), .returned (.ok (some "a3"))] ∧
    refreshed.provider = ⟨"r2", ["r1"], ["a3", "a2", "a1"]⟩ ∧
    Cached prettyJson (start expiredFiles "r1" ["a1"]) ∧
    SpendsOnce prettyJson (Cached prettyJson (start expiredFiles "r1" ["a1"])) refreshed := by
  refine ⟨by decide, by decide, ⟨⟨"a1", some "r1", 0⟩, by decide, rfl⟩, ?_⟩
  refine spends_once (fun t ht => ?_) (Machine.under_of_runIf (.init rfl) (Option.some_get _).symm)
  have hfirst : prettyJson.loadTokens expiredFiles = some ⟨"a1", some "r1", 0⟩ := by decide
  cases hfirst.symm.trans ht
  exact List.mem_singleton.mpr rfl

end Refreshers

end HerdrEternal
