import HerdrEternal.Lib.Counter
import HerdrEternal.System.Pacing

/-!
# The provider's times

The intervals of the polls, the deadline and the expiry of tokens are sums of a clock and of numbers
that the identity provider answers with. Each sum has a type: an `Instant` holds `i64` seconds, a
`Duration` `u64` seconds, and both panic when they overflow; the expiry of tokens is a `u64`, and
wraps.

**The checked login.** `Login.stepChecked` is a step of `login_with_prompt` with these types.
`CheckedLogin` runs it against a clock within the platform's range and any answers of the provider,
and records the additions that were evaluated. As long as nothing overflows it is the login that
`TimedLogin` runs (`Login.stepChecked_result`).

**Theorem (`times_fit_iff`).** No addition of a login overflows, and the tokens it stores outlive
any that were given for a shorter time, exactly if the device code expires within the range of the
clock, every wait that the provider asked for ends there, and the tokens expire before 2^64 seconds.
A provider can break each of these (`provider_overflows`).
-/

namespace HerdrEternal

/-- The end of the clock of `Instant`, in nanoseconds. -/
def instantLimit : Nat := 2 ^ 63 * 1000000000

/-- What no `Duration` reaches, in nanoseconds. -/
def durationLimit : Nat := 2 ^ 64 * 1000000000

namespace Login

/-! ## The checked login -/

/-- Sleep until the next poll, if the device code is valid that long. -/
def waitChecked (l : Login) (endpoints : Discovery) (device : DeviceAuthorization)
    (now delay : Nat) : Checked Login := do
  let wake ← Checked.add ⟨now, delay, instantLimit⟩
  return if l.deadline < wake then l.fail .expired
    else { l with pc := .sleeping endpoints device }

/-- The answer to one poll of the token endpoint. -/
def onPollChecked (l : Login) (endpoints : Discovery) (device : DeviceAuthorization) (now : Nat) :
    Except RequestError (Except String TokenResponse) → Checked Login
  | .ok (.ok tokens) => return { l with pc := .storing tokens }
  | .ok (.error error) =>
    if error = "authorization_pending" then l.waitChecked endpoints device now l.interval
    else if error = "slow_down" then do
      let interval ← Checked.add ⟨l.interval, fromSecs 5, durationLimit⟩
      { l with interval := interval }.waitChecked endpoints device now interval
    else return l.fail (.rejected error)
  | .error (.rateLimited delay) => l.waitChecked endpoints device now (max delay l.interval)
  | .error .http => return l.fail .poll

/-- One step of `login_with_prompt`. -/
def stepChecked (l : Login) (e : LoginEvent) : Option (Checked Login) :=
  match l.pc, e with
  | .prompting endpoints device, .prompted true now => some do
    let deadline ← Checked.add ⟨now, fromSecs device.expiresIn, instantLimit⟩
    return { l with
      interval := fromSecs (device.interval.getD 5)
      deadline := deadline
      pc := .polling endpoints device }
  | .polling endpoints device, .polled reply now =>
    some (l.onPollChecked endpoints device now (tokenRequest reply))
  | _, _ => (l.step e).map fun l => pure l

/-- The sums of a step are within the range of the clock. -/
def TimesFit (l : Login) (e : LoginEvent) : Prop :=
  match l.pc, e with
  | .prompting _ device, .prompted true now => now + fromSecs device.expiresIn < instantLimit
  | .polling _ _, .polled reply now =>
    ∀ delay, l.delay (tokenRequest reply) = some delay → now + delay < instantLimit
  | _, _ => True

end Login

/-! ## The clock and the provider -/

/-- The clock is within its range, and the numbers of an answer are `u64`. -/
def LoginEvent.is64 : LoginEvent → Bool
  | .authorized reply => (reply.bind (·.json)).all fun device =>
    device.interval.all (decide <| · < 2 ^ 64) && decide (device.expiresIn < 2 ^ 64)
  | .prompted _ now => decide (now < instantLimit)
  | .polled reply now =>
    decide (now < instantLimit) &&
      (reply.bind (·.json)).all fun tokens => decide (tokens.expiresIn < 2 ^ 64)
  | _ => true

/-- The addition of `store_tokens`. -/
def TokenResponse.expiry (tokens : TokenResponse) (now : UInt64) : Addition :=
  ⟨now.toNat, tokens.expiresIn, 2 ^ 64⟩

structure CheckedLogin where
  timed : TimedLogin
  /-- The event at which the login panicked. -/
  panic : Option LoginEvent
  /-- The additions of instants and durations. -/
  additions : List Addition

namespace CheckedLogin

variable (J : TokenJson)

/-- The login goes on, or panics. -/
def after (y : CheckedLogin) (e : LoginEvent) (c : Checked Login) : CheckedLogin :=
  match c.result with
  | some l => { y with timed := y.timed.after l e, additions := y.additions ++ c.additions }
  | none => { y with panic := some e, additions := y.additions ++ c.additions }

def step (y : CheckedLogin) (l : TimedLabel) : Option CheckedLogin :=
  if y.panic.isSome then none
  else
    match l with
    | .login e =>
      if e.is64 && y.timed.allowed e then (y.timed.login.stepChecked e).map (y.after e) else none
    -- The Unix time is the `i64` of the system's clock.
    | .store now e =>
      if now.toNat < 2 ^ 63 then
        (y.timed.step J (.store now e)).map fun x => { y with timed := x }
      else none

def machine (files : Files) : Machine CheckedLogin TimedLabel where
  init y := (TimedLogin.machine J files).init y.timed ∧ y.panic = none ∧ y.additions = []
  step := step J

/-- The provider's answers, with the one at which the login panicked. -/
def polling (y : CheckedLogin) : Option Polling :=
  match y.panic, y.timed.login.pc with
  | some (.prompted _ now), .prompting _ device => some ⟨device, now, [], []⟩
  | some (.polled reply now), _ => y.timed.polling.map (·.answer now reply)
  | _, _ => y.timed.polling

end CheckedLogin

/-! ## The property -/

/-- Stored at `now`, the tokens are valid whenever tokens would be that were given for a shorter
time. -/
def TokenResponse.Outlives (tokens : TokenResponse) (now : UInt64) : Prop :=
  ∀ (shorter : TokenResponse) (later : UInt64), shorter.expiresIn ≤ tokens.expiresIn →
    later.toNat < 2 ^ 63 → (shorter.cachedAt now).valid later = true →
      (tokens.cachedAt now).valid later = true

/-- The provider asked for nothing beyond the range of the clock. -/
structure Polling.TimesFit (p : Polling) : Prop where
  deadline : p.began + fromSecs p.device.expiresIn < instantLimit
  wait : ∀ i now reply wait, p.answers[i]? = some (now, reply) →
    p.waitAfter (i + 1) (tokenRequest reply) = some wait → now + wait < instantLimit

namespace CheckedLogin

/-- Nothing has overflowed, and the stored tokens outlive shorter ones. -/
structure Sound (y : CheckedLogin) : Prop where
  fits : ∀ a ∈ y.additions, a.Fits
  stored : ∀ tokens now ok, (tokens, now, ok) ∈ y.timed.stores →
    (tokens.expiry now).Fits ∧ tokens.Outlives now

/-- The times that the provider named are within range. -/
structure TimesFit (y : CheckedLogin) : Prop where
  polling : ∀ p, y.polling = some p → p.TimesFit
  stored : ∀ tokens now ok, (tokens, now, ok) ∈ y.timed.stores →
    now.toNat + tokens.expiresIn < 2 ^ 64

end CheckedLogin

/-! ## What the checks find -/

namespace Login

variable {l l' : Login} {endpoints : Discovery} {device : DeviceAuthorization} {now delay : Nat}
  {e : LoginEvent} {c : Checked Login}

theorem waitChecked_result : (l.waitChecked endpoints device now delay).result =
    if now + delay < instantLimit then some (l.wait endpoints device now delay) else none := by
  rw [waitChecked, Checked.result_add_bind]
  rfl

/-- A longer interval overflows only if the wait for it does. -/
theorem slowDown_result : (Checked.add ⟨l.interval, fromSecs 5, durationLimit⟩ >>= fun interval =>
      { l with interval := interval }.waitChecked endpoints device now interval).result =
    if now + (l.interval + fromSecs 5) < instantLimit then
      some ({ l with interval := l.interval + fromSecs 5 }.wait endpoints device now
        (l.interval + fromSecs 5))
    else none := by
  rw [Checked.result_add_bind, waitChecked_result]
  by_cases hfits : (⟨l.interval, fromSecs 5, durationLimit⟩ : Addition).Fits
  · rw [if_pos hfits]
    rfl
  · have hlate : ¬ now + (l.interval + fromSecs 5) < instantLimit := by
      unfold Addition.Fits Addition.exact durationLimit at hfits
      unfold instantLimit
      dsimp only at hfits
      omega
    rw [if_neg hfits, if_neg hlate]

/-- A poll goes on as in unbounded time, or the wait does not fit. -/
theorem onPollChecked_result (answer : Except RequestError (Except String TokenResponse)) :
    (∀ delay, l.delay answer = some delay → now + delay < instantLimit) ∧
        (l.onPollChecked endpoints device now answer).result =
          some (l.onPoll endpoints device now answer) ∨
      ∃ delay, l.delay answer = some delay ∧ ¬ now + delay < instantLimit ∧
        (l.onPollChecked endpoints device now answer).result = none := by
  -- A wait of this length; `ends` is what it gives.
  have hwait : ∀ {delay : Nat} {ends : Login} {c : Checked Login}, l.delay answer = some delay →
      c.result = (if now + delay < instantLimit then some ends else none) →
      (∀ delay, l.delay answer = some delay → now + delay < instantLimit) ∧
          c.result = some ends ∨
        ∃ delay, l.delay answer = some delay ∧ ¬ now + delay < instantLimit ∧ c.result = none := by
    intro delay ends c hdelay hc
    by_cases hfits : now + delay < instantLimit
    · rw [if_pos hfits] at hc
      refine .inl ⟨fun delay' hdelay' => ?_, hc⟩
      cases hdelay.symm.trans hdelay'
      exact hfits
    · rw [if_neg hfits] at hc
      exact .inr ⟨delay, hdelay, hfits, hc⟩
  rcases answer with (_ | after) | (error | tokens)
  · exact .inl ⟨fun delay hdelay => (by cases hdelay), rfl⟩
  · exact hwait rfl waitChecked_result
  · simp only [onPollChecked, onPoll, nextInterval]
    by_cases hpending : error = "authorization_pending"
    · rw [if_pos hpending, if_pos hpending]
      exact hwait (if_pos hpending) waitChecked_result
    · rw [if_neg hpending, if_neg hpending]
      by_cases hslow : error = "slow_down"
      · rw [if_pos hslow, if_pos hslow]
        exact hwait ((if_neg hpending).trans (if_pos hslow)) slowDown_result
      · rw [if_neg hslow, if_neg hslow]
        have hnone : l.delay (.ok (.error error)) = none :=
          (if_neg hpending).trans (if_neg hslow)
        exact .inl ⟨fun delay hdelay => (by cases hnone.symm.trans hdelay), rfl⟩
  · exact .inl ⟨fun delay hdelay => (by cases hdelay), rfl⟩

/-- **Refinement.** The checked login goes on as in unbounded time if the times fit, and panics if
they do not. -/
theorem stepChecked_result (hs : l.stepChecked e = some c) :
    ∃ l', l.step e = some l' ∧
      (l.TimesFit e ∧ c.result = some l' ∨ ¬ l.TimesFit e ∧ c.result = none) := by
  unfold stepChecked at hs
  split at hs
  · rename_i endpoints device now hpc
    cases hs
    refine ⟨_, by simp only [step, hpc]; rfl, ?_⟩
    simp only [TimesFit, hpc, Checked.result_add_bind]
    by_cases hfits : (⟨now, fromSecs device.expiresIn, instantLimit⟩ : Addition).Fits
    · exact .inl ⟨hfits, if_pos hfits⟩
    · exact .inr ⟨hfits, if_neg hfits⟩
  · rename_i endpoints device reply now hpc
    cases hs
    refine ⟨_, by simp only [step, hpc]; rfl, ?_⟩
    simp only [TimesFit, hpc]
    rcases onPollChecked_result (tokenRequest reply) with hfits | ⟨delay, hdelay, hlate, hnone⟩
    · exact .inl hfits
    · exact .inr ⟨fun hfits => hlate (hfits delay hdelay), hnone⟩
  · rename_i hprompt hpoll
    obtain ⟨l', hl, rfl⟩ := Option.map_eq_some_iff.mp hs
    refine ⟨l', hl, .inl ⟨?_, rfl⟩⟩
    unfold TimesFit
    split
    · exact absurd rfl (hprompt _ _ _ ‹_›)
    · exact absurd rfl (hpoll _ _ _ _ ‹_›)
    · trivial

end Login

/-! ## Where the provider's numbers go -/

theorem json_of_tokenRequest {α : Type} {reply : Option (HttpResponse α)} {answer : α}
    (h : tokenRequest reply = .ok (.ok answer)) : reply.bind (·.json) = some answer := by
  cases reply with
  | none => cases h
  | some response =>
    rw [Option.bind_some]
    unfold tokenRequest at h
    dsimp only at h
    split_ifs at h
    · split at h <;> cases h
    · split at h
      · rename_i json hjson
        cases h
        exact hjson
      · cases h

/-- The tokens that are about to be stored come from a decoded answer. -/
theorem Login.Step.storing {l l' : Login} {e : LoginEvent} {tokens : TokenResponse}
    (h : l.Step e l') (he : e.is64 = true) (hpc : l'.pc = .storing tokens) :
    tokens.expiresIn < 2 ^ 64 := by
  cases h with
  | @polled endpoints device reply now hp =>
    by_cases htokens : ∃ t, tokenRequest reply = .ok (.ok t)
    · obtain ⟨t, ht⟩ := htokens
      rw [ht] at hpc
      cases hpc
      have hall := ((Bool.and_eq_true _ _).mp he).2
      rw [json_of_tokenRequest ht] at hall
      exact decide_eq_true_eq.mp hall
    · rcases onPoll_cases (l := l) endpoints device now (fun t ht => htokens ⟨t, ht⟩) with
        ⟨delay, -, -, heq⟩ | ⟨-, error, hfin⟩
      · rw [heq] at hpc
        cases hpc
      · cases hpc.symm.trans hfin
  | _ => cases hpc

/-- While a poll is answered, the login knows the loop's history. -/
theorem TimedLogin.Timely.of_polling {J : TokenJson} {files : Files} {x : TimedLogin}
    {endpoints : Discovery} {device : DeviceAuthorization} (h : Timely J files x)
    (hpc : x.login.pc = .polling endpoints device) :
    ∃ p, x.polling = some p ∧ Follows x.login p := by
  cases h.phase with
  | polling hpolling _ hfollows => exact ⟨_, hpolling, hfollows⟩
  | preparing _ hpc' => rw [hpc] at hpc'; cases hpc'
  | sleeping _ hpc' => cases hpc.symm.trans hpc'
  | storing _ hpc' => cases hpc.symm.trans hpc'
  | stored _ hpc' => rw [hpc] at hpc'; cases hpc'
  | failed _ hpc' => cases hpc.symm.trans hpc'

namespace Polling

variable {p : Polling} {now : Nat} {reply : Option (HttpResponse TokenResponse)} {l : Login}

theorem TimesFit.answer (h : p.TimesFit) (hl : l.interval = p.pace p.answers.length)
    (hwait : ∀ delay, l.delay (tokenRequest reply) = some delay → now + delay < instantLimit) :
    (p.answer now reply).TimesFit where
  deadline := h.deadline
  wait i now' reply' wait hanswer hafter := by
    rcases getElem?_answer_cases hanswer with ⟨hlt, hanswer⟩ | ⟨rfl, rfl, rfl⟩
    · rw [waitAfter_answer_of_le hlt] at hafter
      exact h.wait i now' reply' wait hanswer hafter
    · rw [waitAfter_answer hl] at hafter
      exact hwait wait hafter

/-- A wait that does not fit is one that the provider asked for. -/
theorem not_timesFit_answer (hl : l.interval = p.pace p.answers.length)
    (hwait : ¬ ∀ delay, l.delay (tokenRequest reply) = some delay → now + delay < instantLimit) :
    ¬ (p.answer now reply).TimesFit := by
  intro h
  refine hwait fun delay hdelay => ?_
  refine h.wait p.answers.length now reply delay List.getElem?_concat_length ?_
  rw [waitAfter_answer hl]
  exact hdelay

end Polling

/-! ## The order of expiry -/

section

variable {tokens : TokenResponse} {now : UInt64}

theorem expiresAt_toNat (h : tokens.expiresIn < 2 ^ 64) :
    (tokens.cachedAt now).expiresAt.toNat = (tokens.expiry now).wrapped := by
  show (now + UInt64.ofNat tokens.expiresIn).toNat = _
  rw [Addition.toNat_add, UInt64.toNat_ofNat_of_lt' h]
  rfl

theorem valid_iff {t : CachedTokens} {later : UInt64} (h : later.toNat < 2 ^ 63) :
    t.valid later = true ↔ later.toNat + 60 < t.expiresAt.toNat := by
  have hmargin : (later + expiryMarginSecs).toNat = later.toNat + 60 := by
    have hfits : (⟨later.toNat, 60, 2 ^ 64⟩ : Addition).Fits := by
      show later.toNat + 60 < 2 ^ 64
      omega
    rw [Addition.toNat_add]
    exact Addition.wrapped_of_fits hfits
  rw [CachedTokens.valid, decide_eq_true_eq, UInt64.lt_iff_toNat_lt, hmargin]

/-- **The tokens outlive shorter ones exactly if their expiry does not wrap.** A wrapped expiry is
over before it is stored. -/
theorem outlives_iff (h : tokens.expiresIn < 2 ^ 64) (hnow : now.toNat < 2 ^ 63) :
    tokens.Outlives now ↔ (tokens.expiry now).Fits := by
  have hexpires : (tokens.cachedAt now).expiresAt.toNat = (tokens.expiry now).wrapped :=
    expiresAt_toNat h
  constructor
  · intro hout
    by_contra hover
    -- The longest time that does not wrap is shorter.
    let longest : TokenResponse := { tokens with expiresIn := 2 ^ 64 - 1 - now.toNat }
    have hover' : ¬ now.toNat + tokens.expiresIn < 2 ^ 64 := hover
    have hlongest : longest.expiresIn < 2 ^ 64 := by
      show 2 ^ 64 - 1 - now.toNat < 2 ^ 64
      omega
    have hfits : (longest.expiry now).Fits := by
      show now.toNat + (2 ^ 64 - 1 - now.toNat) < 2 ^ 64
      omega
    have hexact : (longest.cachedAt now).expiresAt.toNat = 2 ^ 64 - 1 := by
      rw [expiresAt_toNat hlongest, Addition.wrapped_of_fits hfits]
      show now.toNat + (2 ^ 64 - 1 - now.toNat) = 2 ^ 64 - 1
      omega
    have hlive : (longest.cachedAt now).valid now = true := by
      rw [valid_iff hnow, hexact]
      omega
    have hle : longest.expiresIn ≤ tokens.expiresIn := by
      show 2 ^ 64 - 1 - now.toNat ≤ tokens.expiresIn
      omega
    have hvalid := (valid_iff hnow).mp (hout longest now hle hnow hlive)
    have hback : (tokens.expiry now).wrapped < now.toNat :=
      Addition.wrapped_lt_left hover now.toNat_lt h
    omega
  · intro hfits shorter later hle hlater hvalid
    have hfits' : (shorter.expiry now).Fits := by
      have : now.toNat + tokens.expiresIn < 2 ^ 64 := hfits
      show now.toNat + shorter.expiresIn < 2 ^ 64
      omega
    rw [valid_iff hlater] at hvalid ⊢
    rw [expiresAt_toNat (hle.trans_lt h), Addition.wrapped_of_fits hfits'] at hvalid
    rw [hexpires, Addition.wrapped_of_fits hfits]
    calc later.toNat + 60 < now.toNat + shorter.expiresIn := hvalid
      _ ≤ now.toNat + tokens.expiresIn := Nat.add_le_add_left hle _

end

/-! ## Runs -/

namespace CheckedLogin

variable {J : TokenJson} {files : Files} {y y' : CheckedLogin} {l : TimedLabel}

/-- The decoded tokens that are, or were, to be stored. -/
structure Decoded (x : TimedLogin) : Prop where
  storing : ∀ tokens, x.login.pc = .storing tokens → tokens.expiresIn < 2 ^ 64
  stored : ∀ tokens now ok, (tokens, now, ok) ∈ x.stores →
    tokens.expiresIn < 2 ^ 64 ∧ now.toNat < 2 ^ 63

theorem Decoded.after {x : TimedLogin} {l : Login} {e : LoginEvent} (h : Decoded x)
    (hs : Login.Step x.login e l) (he : e.is64 = true) : Decoded (x.after l e) := by
  have hlogin : (x.after l e).login = l := by
    cases e with
    | prompted ok now =>
      simp only [TimedLogin.after]
      split <;> rfl
    | _ => rfl
  have hstores : (x.after l e).stores = x.stores := by
    cases e with
    | prompted ok now =>
      simp only [TimedLogin.after]
      split <;> rfl
    | _ => rfl
  refine ⟨fun tokens hpc => ?_, hstores ▸ h.stored⟩
  rw [hlogin] at hpc
  exact hs.storing he hpc

theorem step_store {x x' : TimedLogin} {now : UInt64} {e : StoreEnd}
    (hs : x.step J (.store now e) = some x') :
    ∃ tokens ok, x.login.pc = .storing tokens ∧ (∀ t, x'.login.pc ≠ .storing t) ∧
      x'.polling = x.polling ∧ x'.stores = x.stores ++ [(tokens, now, ok)] := by
  obtain ⟨tokens, hpc⟩ := TimedLogin.pc_of_store hs
  simp only [TimedLogin.step, hpc] at hs
  obtain ⟨l, hl, rfl⟩ := Option.map_eq_some_iff.mp hs
  obtain ⟨ok, -, hclosing⟩ := Login.step_storing hpc hl
  refine ⟨tokens, _, hpc, fun t ht => ?_, rfl, rfl⟩
  rcases hclosing with hl' | hl' <;> cases hl'.symm.trans ht

theorem Decoded.store {x x' : TimedLogin} {now : UInt64} {e : StoreEnd} (h : Decoded x)
    (hnow : now.toNat < 2 ^ 63) (hs : x.step J (.store now e) = some x') : Decoded x' := by
  obtain ⟨tokens, ok, hpc, hdone, -, hstores⟩ := step_store hs
  refine ⟨fun t ht => absurd ht (hdone t), fun t now' ok' hmem => ?_⟩
  rw [hstores] at hmem
  rcases List.mem_append.mp hmem with hmem | hmem
  · exact h.stored t now' ok' hmem
  · cases List.mem_singleton.mp hmem
    exact ⟨h.storing tokens hpc, hnow⟩

/-- How the additions and the provider's times went so far. -/
inductive Fate (y : CheckedLogin) : Prop
  | fits (hpanic : y.panic = none) (hfits : ∀ a ∈ y.additions, a.Fits)
      (htimes : ∀ p, y.timed.polling = some p → p.TimesFit)
  | panicked (hpanic : y.panic.isSome = true) (hover : ¬ ∀ a ∈ y.additions, a.Fits) {p : Polling}
      (hpolling : y.polling = some p) (htimes : ¬ p.TimesFit)

/-- What every run keeps. -/
structure Ok (J : TokenJson) (files : Files) (y : CheckedLogin) : Prop where
  timely : TimedLogin.Timely J files y.timed
  decoded : Decoded y.timed
  fate : Fate y

theorem polling_of_running (h : y.panic = none) : y.polling = y.timed.polling := by
  unfold polling
  rw [h]

theorem timesFit_after {x : TimedLogin} {l : Login} {e : LoginEvent}
    (htimely : TimedLogin.Timely J files x) (hs : Login.Step x.login e l)
    (hfits : x.login.TimesFit e) (h : ∀ p, x.polling = some p → p.TimesFit) :
    ∀ p, (x.after l e).polling = some p → p.TimesFit := by
  cases hs with
  | @prompted endpoints device now hp =>
    rintro p ⟨⟩
    refine ⟨?_, fun i now reply wait hanswer => by cases hanswer⟩
    show now + fromSecs device.expiresIn < instantLimit
    simpa [Login.TimesFit, hp] using hfits
  | @polled endpoints device reply now hp =>
    obtain ⟨q, hq, hfollows⟩ := htimely.of_polling hp
    intro p hpolling
    have hanswer : some (q.answer now reply) = some p := by
      rw [← hpolling]
      show _ = x.polling.map _
      rw [hq]
      rfl
    cases hanswer
    refine (h q hq).answer hfollows.interval ?_
    simpa [Login.TimesFit, hp] using hfits
  | woke =>
    intro p hpolling
    obtain ⟨q, hq, rfl⟩ := Option.map_eq_some_iff.mp hpolling
    exact ⟨(h q hq).deadline, (h q hq).wait⟩
  | _ => exact h

/-- At a panic the provider had asked for too much. -/
theorem exists_not_timesFit {e : LoginEvent} (htimely : TimedLogin.Timely J files y.timed)
    (hlate : ¬ y.timed.login.TimesFit e) (hpanic : y.panic = some e) :
    ∃ p, y.polling = some p ∧ ¬ p.TimesFit := by
  unfold Login.TimesFit at hlate
  split at hlate
  · rename_i endpoints device now hpc
    refine ⟨⟨device, now, [], []⟩, ?_, fun h => hlate h.deadline⟩
    simp [polling, hpanic, hpc]
  · rename_i endpoints device reply now hpc
    obtain ⟨p, hp, hfollows⟩ := htimely.of_polling hpc
    refine ⟨p.answer now reply, ?_, Polling.not_timesFit_answer hfollows.interval hlate⟩
    simp [polling, hpanic, hp]
  · exact absurd trivial hlate

theorem fate_after {e : LoginEvent} {c : Checked Login} {l' : Login}
    (htimely : TimedLogin.Timely J files y.timed) (hs : y.timed.login.step e = some l')
    (hc : y.timed.login.TimesFit e ∧ c.result = some l' ∨
      ¬ y.timed.login.TimesFit e ∧ c.result = none)
    (hpanic : y.panic = none) (hfits : ∀ a ∈ y.additions, a.Fits)
    (htimes : ∀ p, y.timed.polling = some p → p.TimesFit) : Fate (y.after e c) := by
  rcases hc with ⟨hfit, hresult⟩ | ⟨hlate, hresult⟩
  · have hall : ∀ a ∈ c.additions, a.Fits := c.isSome_iff.mp (by rw [hresult]; rfl)
    simp only [after, hresult]
    exact .fits hpanic (List.forall_mem_append.mpr ⟨hfits, hall⟩)
      (timesFit_after htimely (.of_step hs) hfit htimes)
  · have hover : ¬ ∀ a ∈ c.additions, a.Fits := by
      rw [← c.isSome_iff, hresult]
      simp
    simp only [after, hresult]
    obtain ⟨p, hp, hno⟩ := exists_not_timesFit (y := { y with panic := some e }) htimely hlate rfl
    exact .panicked rfl (fun h => hover (List.forall_mem_append.mp h).2) hp hno

theorem Ok.step (h : y.Ok J files) (hs : y.step J l = some y') : y'.Ok J files := by
  unfold CheckedLogin.step at hs
  split_ifs at hs with hpanicked
  have hpanic : y.panic = none := Option.not_isSome_iff_eq_none.mp hpanicked
  obtain ⟨hfits, htimes⟩ :
      (∀ a ∈ y.additions, a.Fits) ∧ ∀ p, y.timed.polling = some p → p.TimesFit := by
    cases h.fate with
    | fits _ hfits htimes => exact ⟨hfits, htimes⟩
    | panicked hsome => exact absurd hsome hpanicked
  cases l with
  | login e =>
    dsimp only at hs
    split_ifs at hs with hallowed
    simp only [Bool.and_eq_true] at hallowed
    obtain ⟨c, hc, rfl⟩ := Option.map_eq_some_iff.mp hs
    obtain ⟨l', hl, hresult⟩ := Login.stepChecked_result hc
    have hstep : y.timed.step J (.login e) = some (y.timed.after l' e) := by
      simp only [TimedLogin.step, hallowed.2, hl]
      rfl
    refine ⟨?_, ?_, fate_after h.timely hl hresult hpanic hfits htimes⟩
    · rcases hresult with ⟨-, hresult⟩ | ⟨-, hresult⟩ <;> simp only [after, hresult]
      · exact TimedLogin.timely_step h.timely hstep
      · exact h.timely
    · rcases hresult with ⟨-, hresult⟩ | ⟨-, hresult⟩ <;> simp only [after, hresult]
      · exact h.decoded.after (.of_step hl) hallowed.1
      · exact h.decoded
  | store now e =>
    dsimp only at hs
    split_ifs at hs with hnow
    obtain ⟨x, hx, rfl⟩ := Option.map_eq_some_iff.mp hs
    refine ⟨TimedLogin.timely_step h.timely hx, h.decoded.store hnow hx, ?_⟩
    obtain ⟨-, -, -, -, hpolling, -⟩ := step_store hx
    exact .fits hpanic hfits (hpolling ▸ htimes)

theorem ok_of_reachable (h : (machine J files).Reachable y) : y.Ok J files := by
  refine h.invariant (P := fun y => y.Ok J files) ?_ fun _ _ _ h _ hs => h.step hs
  rintro y ⟨hinit, hpanic, hadditions⟩
  have htimely := TimedLogin.timely_of_reachable (.init hinit)
  obtain ⟨name, oidc, hlogin, hpolling, -, hstores⟩ := hinit
  refine ⟨htimely, ⟨fun tokens hpc => ?_, fun tokens now ok hmem => ?_⟩, .fits hpanic ?_ ?_⟩
  · rcases hlogin with hl | hl <;> rw [hl] at hpc <;> cases hpc
  · rw [hstores] at hmem
    cases hmem
  · rw [hadditions]
    intro a ha
    cases ha
  · intro p hp
    cases hpolling.symm.trans hp

/-- **Nothing overflows exactly if the provider's times are in range.** What holds of the tokens
that a login stores holds of the refreshed ones of `access_token` as well. -/
theorem times_fit_iff (h : (machine J files).Reachable y) :
    (y.Sound ↔ y.TimesFit) ∧
      ∀ (tokens : TokenResponse) (now : UInt64), tokens.expiresIn < 2 ^ 64 → now.toNat < 2 ^ 63 →
        ((tokens.expiry now).Fits ∧ tokens.Outlives now ↔
          now.toNat + tokens.expiresIn < 2 ^ 64) := by
  have hexpiry : ∀ (tokens : TokenResponse) (now : UInt64), tokens.expiresIn < 2 ^ 64 →
      now.toNat < 2 ^ 63 → ((tokens.expiry now).Fits ∧ tokens.Outlives now ↔
        now.toNat + tokens.expiresIn < 2 ^ 64) := by
    intro tokens now hexpires hnow
    rw [outlives_iff hexpires hnow, and_self]
    rfl
  refine ⟨?_, hexpiry⟩
  obtain ⟨htimely, hdecoded, hfate⟩ := ok_of_reachable h
  cases hfate with
  | fits hpanic hfits htimes =>
    constructor
    · intro hsound
      refine ⟨fun p hp => htimes p (polling_of_running hpanic ▸ hp), fun tokens now ok hmem => ?_⟩
      obtain ⟨hexpires, hnow⟩ := hdecoded.stored tokens now ok hmem
      exact (hexpiry tokens now hexpires hnow).mp (hsound.stored tokens now ok hmem)
    · intro htimesFit
      refine ⟨hfits, fun tokens now ok hmem => ?_⟩
      obtain ⟨hexpires, hnow⟩ := hdecoded.stored tokens now ok hmem
      exact (hexpiry tokens now hexpires hnow).mpr (htimesFit.stored tokens now ok hmem)
  | panicked hpanic hover hpolling htimes =>
    exact iff_of_false (fun hsound => hover hsound.fits)
      fun htimesFit => htimes (htimesFit.polling _ hpolling)

/-! ## A login whose times fit -/

def unstarted : CheckedLogin :=
  ⟨⟨{ Login.start "dev" ⟨"https://auth.example.com", "herdr"⟩ with pc := .building }, 0, 0, none,
    .empty, []⟩, none, []⟩

theorem init_unstarted : (machine prettyJson .empty).init unstarted :=
  ⟨⟨_, _, .inr rfl, rfl, rfl, rfl⟩, rfl, rfl⟩

def slowed : CheckedLogin :=
  ((machine prettyJson .empty).run unstarted TimedLogin.slowedDown).get (by decide)

/-- The deadline, the longer interval and the two waits. -/
theorem slowed_sound :
    slowed.additions.map Addition.exact = [60, 10, 11, 32].map fromSecs ∧
      slowed.Sound ∧ slowed.TimesFit := by
  have hreachable : (machine prettyJson .empty).Reachable slowed :=
    Machine.reachable_of_run init_unstarted (Option.some_get _).symm
  have hstores : slowed.timed.stores = [(⟨"a1", some "r1", 3600⟩, 0, true)] := by decide
  have hsound : slowed.Sound := by
    refine ⟨by decide, fun tokens now ok hmem => ?_⟩
    rw [hstores] at hmem
    cases List.mem_singleton.mp hmem
    exact ((times_fit_iff hreachable).2 _ _ (by decide) (by decide)).mpr (by decide)
  exact ⟨by decide, hsound, (times_fit_iff hreachable).1.mp hsound⟩

/-! ## A provider with numbers that do not fit -/

/-- The login polls once, after an answer with these numbers. -/
def polls (interval : Option Nat) (expiresIn : Nat) : List TimedLabel :=
  [.login (.built true),
    .login (.discovered (some ⟨200, none, some ⟨"/device", "/token"⟩, none⟩)),
    .login (.authorized
      (some ⟨200, none, some ⟨"d", "u", "/verify", none, interval, expiresIn⟩, none⟩)),
    .login (.prompted true 0)]

/-- `expires_in` is the largest `u64`. -/
def endless : CheckedLogin :=
  ((machine prettyJson .empty).run unstarted (polls none (2 ^ 64 - 1))).get (by decide)

/-- `interval` is the largest `u64`, and the provider asks for slower polls. -/
def slowest : CheckedLogin :=
  ((machine prettyJson .empty).run unstarted (polls (some (2 ^ 64 - 1)) 60 ++
    [.login (.polled (some ⟨400, none, none, some "slow_down"⟩) (fromSecs 1))])).get (by decide)

/-- `Retry-After` is `18446744073709551615`. -/
def limited : CheckedLogin :=
  ((machine prettyJson .empty).run unstarted (polls none 60 ++
    [.login (.polled (some ⟨429, some [49, 56, 52, 52, 54, 55, 52, 52, 48, 55, 51, 55, 48, 57, 53,
      53, 49, 54, 49, 53], none, none⟩) (fromSecs 1))])).get (by decide)

def lasting (expiresIn : Nat) : TokenResponse := ⟨"a1", some "r1", expiresIn⟩

/-- The tokens are good for the largest `u64` of seconds. -/
def outlived : CheckedLogin :=
  ((machine prettyJson .empty).run unstarted (polls none 60 ++
    [.login (.polled (some ⟨200, none, some (lasting (2 ^ 64 - 1)), none⟩) (fromSecs 1)),
      .store 1760000000 .renamed])).get (by decide)

/-- **Each of the provider's numbers can overflow.** Three of them end the process; with the fourth,
the tokens are over before those that last an hour. -/
theorem provider_overflows :
    (∀ y ∈ [endless, slowest, limited, outlived], (machine prettyJson .empty).Reachable y) ∧
      endless.panic = some (.prompted true 0) ∧
      endless.additions = [⟨0, fromSecs (2 ^ 64 - 1), instantLimit⟩] ∧
      slowest.panic.isSome = true ∧
      slowest.additions =
        [⟨0, fromSecs 60, instantLimit⟩, ⟨fromSecs (2 ^ 64 - 1), fromSecs 5, durationLimit⟩] ∧
      limited.panic.isSome = true ∧
      limited.additions =
        [⟨0, fromSecs 60, instantLimit⟩, ⟨fromSecs 1, fromSecs (2 ^ 64 - 1), instantLimit⟩] ∧
      outlived.timed.stores = [(lasting (2 ^ 64 - 1), 1760000000, true)] ∧
      ((lasting (2 ^ 64 - 1)).cachedAt 1760000000).expiresAt = 1759999999 ∧
      ((lasting (2 ^ 64 - 1)).cachedAt 1760000000).valid 1760000000 = false ∧
      ((lasting 3600).cachedAt 1760000000).valid 1760000000 = true ∧
      ∀ y ∈ [endless, slowest, limited, outlived], ¬ y.Sound := by
  refine ⟨?_, by decide, by decide, by decide, by decide, by decide, by decide +kernel, by decide,
    by decide, by decide, by decide, ?_⟩
  · have hrun : ∀ {ls : List TimedLabel}
        (h : ((machine prettyJson .empty).run unstarted ls).isSome = true),
        (machine prettyJson .empty).Reachable
          (((machine prettyJson .empty).run unstarted ls).get h) :=
      fun h => Machine.reachable_of_run init_unstarted (Option.some_get h).symm
    simp only [List.forall_mem_cons]
    exact ⟨hrun _, hrun _, hrun _, hrun _, fun y hy => by cases hy⟩
  · simp only [List.forall_mem_cons]
    refine ⟨fun h => ?_, fun h => ?_, fun h => ?_, fun h => ?_, fun y hy => by cases hy⟩
    · exact absurd h.fits (by decide)
    · exact absurd h.fits (by decide)
    · exact absurd h.fits (by decide)
    · exact absurd (h.stored (lasting (2 ^ 64 - 1)) 1760000000 true (by decide)).1 (by decide)

end CheckedLogin

end HerdrEternal
