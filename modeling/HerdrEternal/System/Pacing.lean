import HerdrEternal.Client.TokenCache

/-!
# The pace of the polls

While the user confirms a login, `login_with_prompt` polls the token endpoint. The provider sets the
pace: it names an interval to begin with, asks for a slower one with `slow_down`, and may limit the
rate of the requests. The device code lives until a deadline that is fixed before the first poll.

**The clock** (`TimedLogin`). Between two of its readings the clock goes on by whatever a request
takes, and by exactly as much as the login sleeps. `Polling` is the history of the loop: when each
poll was sent, and when it was answered with what.

**Theorem (`compliant_of_reachable`).** Whatever the provider answers, and whenever, the login waits
as long as it was asked to before it polls again, never polls after the deadline, and stores
tokens exactly when a poll brought some that it had to wait for as asked. Otherwise the token cache
is left alone (`Compliant`).
-/

namespace HerdrEternal

/-! ## Storing the tokens -/

/-- How far `store_tokens` gets. -/
inductive StoreEnd where
  /-- The directory could not be created, or the temporary file not be opened. -/
  | notOpened
  /-- The file has this much of the contents. -/
  | notWritten (written : Data)
  | notRenamed
  | renamed
  deriving DecidableEq

/-- `store_tokens`, when no other process uses the directory: the files, and whether it succeeds. -/
def TokenJson.storeTokens (J : TokenJson) (files : Files) (cached : CachedTokens) :
    StoreEnd → Files × Bool
  | .notOpened => (files, false)
  | .notWritten written => (files.openTmp.write files.tmpFile written, false)
  | .notRenamed => (files.openTmp.write files.tmpFile (J.toVecPretty cached), false)
  | .renamed =>
    let drafted := files.openTmp.write files.tmpFile (J.toVecPretty cached)
    match drafted.rename with
    | some files => (files, true)
    | none => (drafted, false)

/-- Readers of the cache find the tokens if `store_tokens` succeeds, and what they found before if
it does not. -/
theorem TokenJson.read_storeTokens (J : TokenJson) (files : Files) (cached : CachedTokens)
    (e : StoreEnd) :
    (J.storeTokens files cached e).1.read =
      if (J.storeTokens files cached e).2 then some (J.toVecPretty cached) else files.read := by
  have hread : ∀ data, (files.openTmp.write files.tmpFile data).read = files.read := by
    intro data
    rw [Files.read_write files.tmp_openTmp, Files.read_openTmp]
  cases e with
  | notOpened => rfl
  | notWritten written => exact hread _
  | notRenamed => exact hread _
  | renamed =>
    rw [storeTokens]
    cases hrename : (files.openTmp.write files.tmpFile (J.toVecPretty cached)).rename with
    | none => exact hread _
    | some files' =>
      rw [(Files.of_rename hrename).1]
      exact Files.draft_write files.tmp_openTmp files.draft_openTmp

/-! ## The delay-seconds form of `Retry-After` -/

/-- The header is a number of seconds, with blanks around it. -/
def DelaySeconds (header : Data) (secs : Nat) : Prop :=
  ∃ before after : Data, (∀ b ∈ before ++ after, b = 32 ∨ b = 9) ∧
    header = before ++ JsonText.number secs ++ after

/-- How long the login sleeps after an answer that is not final. -/
def Login.delay (l : Login) : Except RequestError (Except String TokenResponse) → Option Nat
  | .ok (.ok _) => none
  | .ok (.error error) => l.nextInterval error
  | .error (.rateLimited delay) => some (max delay l.interval)
  | .error .http => none

def isSlowDown : Except RequestError (Except String TokenResponse) → Bool
  | .ok (.error error) => error == "slow_down"
  | _ => false

/-- The loop's history. -/
structure Polling where
  device : DeviceAuthorization
  /-- When the deadline was fixed. -/
  began : Nat
  /-- When each poll was sent. -/
  sent : List Nat
  /-- Each answer, and when it was there. -/
  answers : List (Nat × Option (HttpResponse TokenResponse))
  deriving DecidableEq

namespace Polling

/-- When the device code expires. -/
def deadline (p : Polling) : Nat := p.began + fromSecs p.device.expiresIn

/-- How many of the first `n` answers asked to slow down. -/
def slowDowns (p : Polling) (n : Nat) : Nat :=
  (p.answers.take n).countP fun answer => isSlowDown (tokenRequest answer.2)

/-- What the provider wants between two polls, after its first `n` answers. -/
def pace (p : Polling) (n : Nat) : Nat :=
  fromSecs (p.device.interval.getD 5) + p.slowDowns n * fromSecs 5

/-- How long to wait after the `n`th answer, if it is not final. -/
def waitAfter (p : Polling) (n : Nat) :
    Except RequestError (Except String TokenResponse) → Option Nat
  | .ok (.ok _) => none
  | .ok (.error error) =>
    if error = "authorization_pending" ∨ error = "slow_down" then some (p.pace n) else none
  | .error (.rateLimited delay) => some (max delay (p.pace n))
  | .error .http => none

/-- After answer `i` there is another poll: it is not final, and the wait ends by the deadline. -/
def Continues (p : Polling) (i : Nat) : Prop :=
  ∃ now reply wait, p.answers[i]? = some (now, reply) ∧
    p.waitAfter (i + 1) (tokenRequest reply) = some wait ∧ now + wait ≤ p.deadline

/-- The loop got these tokens, and had to go on after every answer before. -/
def GotTokens (p : Polling) (tokens : TokenResponse) : Prop :=
  ∃ n now reply, p.answers[n]? = some (now, reply) ∧ tokenRequest reply = .ok (.ok tokens) ∧
    ∀ i < n, p.Continues i

def answer (p : Polling) (now : Nat) (reply : Option (HttpResponse TokenResponse)) : Polling :=
  { p with answers := p.answers ++ [(now, reply)] }

def send (p : Polling) (now : Nat) : Polling := { p with sent := p.sent ++ [now] }

end Polling

/-- A login and its clock. -/
structure TimedLogin where
  login : Login
  clock : Nat
  /-- How long the login sleeps. -/
  sleep : Nat
  polling : Option Polling
  files : Files
  /-- The calls of `store_tokens`, with the Unix time and whether they succeeded. -/
  stores : List (TokenResponse × UInt64 × Bool)

inductive TimedLabel where
  /-- Anything but `store_tokens`. -/
  | login (e : LoginEvent)
  | store (now : UInt64) (e : StoreEnd)

namespace TimedLogin

/-- The clock does not go back. -/
def allowed (x : TimedLogin) : LoginEvent → Bool
  | .prompted _ now | .polled _ now => decide (x.clock ≤ now)
  | .stored _ => false
  | _ => true

/-- What else changes when the login goes on as `l`. -/
def after (x : TimedLogin) (l : Login) : LoginEvent → TimedLogin
  | .prompted _ now =>
    match l.pc with
    | .polling _ device =>
      { x with login := l, clock := now, polling := some ⟨device, now, [now], []⟩ }
    | _ => { x with login := l, clock := now }
  | .polled reply now =>
    { x with
      login := l
      clock := now
      sleep := (x.login.delay (tokenRequest reply)).getD 0
      polling := x.polling.map (·.answer now reply) }
  | .woke =>
    { x with
      login := l
      clock := x.clock + x.sleep
      polling := x.polling.map (·.send (x.clock + x.sleep)) }
  | _ => { x with login := l }

variable (J : TokenJson)

def step (x : TimedLogin) : TimedLabel → Option TimedLogin
  | .login e => if x.allowed e then (x.login.step e).map fun l => x.after l e else none
  | .store now e =>
    match x.login.pc with
    | .storing tokens =>
      let result := J.storeTokens x.files (tokens.cachedAt now) e
      (x.login.step (.stored result.2)).map fun l => { x with
        login := l
        files := result.1
        stores := x.stores ++ [(tokens, now, result.2)] }
    | _ => none

/-- The runs of `login_on_tty` and of `login`, which has no terminal to open. -/
def machine (files : Files) : Machine TimedLogin TimedLabel where
  init x := ∃ name oidc, (x.login = .start name oidc ∨
      x.login = { Login.start name oidc with pc := .building }) ∧
    x.polling = none ∧ x.files = files ∧ x.stores = []
  step := step J

/-! ## The property -/

end TimedLogin

/-- Each poll but the first is sent as late as the provider asked for, and by the deadline. -/
structure Polling.Paced (p : Polling) : Prop where
  first : p.sent.head? = some p.began
  interval : ∀ i now reply next, p.answers[i]? = some (now, reply) → p.sent[i + 1]? = some next →
    now + p.pace (i + 1) ≤ next
  retryAfter : ∀ i now reply next delay, p.answers[i]? = some (now, reply) →
    p.sent[i + 1]? = some next → tokenRequest reply = .error (.rateLimited delay) →
    now + delay ≤ next
  delaySeconds : ∀ i now response next header secs, p.answers[i]? = some (now, some response) →
    p.sent[i + 1]? = some next → response.status = 429 → response.retryAfter = some header →
    DelaySeconds header secs → secs < 2 ^ 64 → now + fromSecs secs ≤ next
  deadline : ∀ i next, p.sent[i + 1]? = some next → next ≤ p.deadline

/-- The pcs before the loop, and of a login that failed there. -/
def LoginPc.preparing : LoginPc → Bool
  | .opening | .building | .discovering | .authorizing _ | .prompting _ _
  | .finished (.error _) => true
  | _ => false

/-- The pcs after `store_tokens`. -/
def LoginPc.closing : LoginPc → Bool
  | .confirming | .finished _ => true
  | _ => false

namespace Login

variable {l : Login} {endpoints : Discovery} {device : DeviceAuthorization} {now : Nat}
  {answer : Except RequestError (Except String TokenResponse)}

/-- An answer that is not final: the login sleeps, and remembers the new interval. -/
theorem onPoll_of_delay {delay : Nat} (h : l.delay answer = some delay) :
    l.onPoll endpoints device now answer =
      { l with interval := l.interval + if isSlowDown answer then fromSecs 5 else 0 }.wait
        endpoints device now delay := by
  rcases answer with (_ | after) | (error | tokens)
  · cases h
  · cases h
    rfl
  · have hnext : l.nextInterval error = some delay := h
    simp only [onPoll, hnext]
    rw [nextInterval] at hnext
    split_ifs at hnext with hpending hslow
    · cases hnext
      simp [isSlowDown, hpending]
    · cases hnext
      simp [isSlowDown, hslow]
  · cases h

theorem onPoll_of_final (h : l.delay answer = none) (htokens : ∀ t, answer ≠ .ok (.ok t)) :
    ∃ e, l.onPoll endpoints device now answer = l.fail e := by
  rcases answer with (_ | after) | (error | tokens)
  · exact ⟨_, rfl⟩
  · cases h
  · have hnext : l.nextInterval error = none := h
    exact ⟨.rejected error, by simp only [onPoll, hnext]⟩
  · exact absurd rfl (htokens tokens)

/-- An answer without tokens: another poll after a sleep, or the end. -/
theorem onPoll_cases (endpoints : Discovery) (device : DeviceAuthorization) (now : Nat)
    (htokens : ∀ t, answer ≠ .ok (.ok t)) :
    (∃ delay, l.delay answer = some delay ∧ now + delay ≤ l.deadline ∧
      l.onPoll endpoints device now answer = { l with
        interval := l.interval + if isSlowDown answer then fromSecs 5 else 0
        pc := .sleeping endpoints device }) ∨
    ((∀ delay, l.delay answer = some delay → l.deadline < now + delay) ∧
      ∃ e, (l.onPoll endpoints device now answer).pc = .finished (.error e)) := by
  cases hdelay : l.delay answer with
  | none =>
    obtain ⟨e, heq⟩ : ∃ e, l.onPoll endpoints device now answer = l.fail e :=
      onPoll_of_final hdelay htokens
    exact .inr ⟨by simp, e, by rw [heq, fail]⟩
  | some delay =>
    rw [onPoll_of_delay hdelay, wait]
    by_cases hlate : l.deadline < now + delay
    · rw [if_pos hlate]
      refine .inr ⟨?_, .expired, rfl⟩
      rintro _ ⟨⟩
      exact hlate
    · rw [if_neg hlate]
      exact .inl ⟨delay, rfl, Nat.le_of_not_lt hlate, rfl⟩

theorem step_polling {l' : Login} {e : LoginEvent} (hpc : l.pc = .polling endpoints device)
    (hs : l.step e = some l') : ∃ reply now, e = .polled reply now ∧
      l' = l.onPoll endpoints device now (tokenRequest reply) := by
  cases e with
  | polled reply now =>
    simp only [step, hpc, Option.some.injEq] at hs
    exact ⟨reply, now, rfl, hs.symm⟩
  | _ => simp [step, hpc] at hs

theorem step_sleeping {l' : Login} {e : LoginEvent} (hpc : l.pc = .sleeping endpoints device)
    (hs : l.step e = some l') : e = .woke ∧ l' = { l with pc := .polling endpoints device } := by
  cases e with
  | woke =>
    simp only [step, hpc, Option.some.injEq] at hs
    exact ⟨rfl, hs.symm⟩
  | _ => simp [step, hpc] at hs

theorem step_storing {l' : Login} {e : LoginEvent} {tokens : TokenResponse}
    (hpc : l.pc = .storing tokens) (hs : l.step e = some l') :
    ∃ ok, e = .stored ok ∧ (l'.pc = .confirming ∨ l'.pc = .finished (.error .store)) := by
  cases e with
  | stored ok =>
    simp only [step, hpc, Option.some.injEq] at hs
    subst hs
    cases ok
    · exact ⟨false, rfl, .inr rfl⟩
    · exact ⟨true, rfl, .inl rfl⟩
  | _ => simp [step, hpc] at hs

theorem step_closing {l' : Login} {e : LoginEvent} (hpc : l.pc.closing = true)
    (hs : l.step e = some l') : ∃ ok, e = .confirmed ok ∧ l'.pc.closing = true := by
  cases hl : l.pc with
  | confirming =>
    cases e with
    | confirmed ok =>
      simp only [step, hl, Option.some.injEq] at hs
      subst hs
      cases ok <;> exact ⟨_, rfl, rfl⟩
    | _ => simp [step, hl] at hs
  | finished result => simp [step, hl] at hs
  | _ => rw [hl] at hpc; cases hpc

end Login

namespace Polling

variable {p : Polling} {now n i : Nat} {reply : Option (HttpResponse TokenResponse)}

theorem pace_answer_of_le (h : n ≤ p.answers.length) : (p.answer now reply).pace n = p.pace n := by
  rw [pace, pace, slowDowns, slowDowns, answer, List.take_append_of_le_length h]

theorem pace_answer : (p.answer now reply).pace (p.answers.length + 1) =
    p.pace p.answers.length + if isSlowDown (tokenRequest reply) then fromSecs 5 else 0 := by
  have htake : (p.answers ++ [(now, reply)]).take (p.answers.length + 1) =
      p.answers ++ [(now, reply)] := List.take_of_length_le (by simp)
  rw [pace, pace, slowDowns, slowDowns, answer, htake, List.take_length, List.countP_append,
    List.countP_singleton]
  split_ifs
  · rw [Nat.add_mul, Nat.one_mul, Nat.add_assoc]
  · rw [Nat.add_zero, Nat.add_zero]

theorem waitAfter_answer_of_le (h : n ≤ p.answers.length)
    (a : Except RequestError (Except String TokenResponse)) :
    (p.answer now reply).waitAfter n a = p.waitAfter n a := by
  have hpace : (p.answer now reply).pace n = p.pace n := pace_answer_of_le h
  rcases a with (_ | delay) | (error | tokens) <;> simp [waitAfter, hpace]

/-- The login sleeps as long as it was asked to. -/
theorem waitAfter_answer {l : Login} (h : l.interval = p.pace p.answers.length) :
    (p.answer now reply).waitAfter (p.answers.length + 1) (tokenRequest reply) =
      l.delay (tokenRequest reply) := by
  have hpace : (p.answer now reply).pace (p.answers.length + 1) = _ := pace_answer
  rcases hanswer : tokenRequest reply with (_ | delay) | (error | tokens)
  · rfl
  · rw [hanswer] at hpace
    simp [waitAfter, Login.delay, hpace, h, isSlowDown]
  · rw [hanswer] at hpace
    simp only [waitAfter, Login.delay, Login.nextInterval, hpace, h, isSlowDown]
    by_cases hpending : error = "authorization_pending"
    · simp [hpending]
    · by_cases hslow : error = "slow_down"
      · simp [hslow]
      · simp [hpending, hslow]
  · rfl

theorem length_answer : (p.answer now reply).answers.length = p.answers.length + 1 := by
  rw [answer, List.length_append, List.length_singleton]

theorem getElem?_answers_answer (h : i < p.answers.length) :
    (p.answer now reply).answers[i]? = p.answers[i]? := List.getElem?_append_left h

/-- An answer is an earlier one, or the new one. -/
theorem getElem?_answer_cases {now' : Nat} {reply' : Option (HttpResponse TokenResponse)}
    (h : (p.answer now reply).answers[i]? = some (now', reply')) :
    i < p.answers.length ∧ p.answers[i]? = some (now', reply') ∨
      i = p.answers.length ∧ now' = now ∧ reply' = reply := by
  have hlt := (List.getElem?_eq_some_iff.mp h).1
  rw [length_answer] at hlt
  rcases Nat.lt_succ_iff_lt_or_eq.mp hlt with hlt | rfl
  · rw [getElem?_answers_answer hlt] at h
    exact .inl ⟨hlt, h⟩
  · cases h.symm.trans List.getElem?_concat_length
    exact .inr ⟨rfl, rfl, rfl⟩

theorem continues_answer (h : i < p.answers.length) :
    (p.answer now reply).Continues i ↔ p.Continues i := by
  simp only [Continues, getElem?_answers_answer h, waitAfter_answer_of_le h]
  rfl

theorem not_continues_of_tokens {tokens : TokenResponse}
    (hanswer : p.answers[i]? = some (now, reply))
    (htokens : tokenRequest reply = .ok (.ok tokens)) : ¬ p.Continues i := by
  rintro ⟨now', reply', wait, hanswer', hwait, -⟩
  cases hanswer.symm.trans hanswer'
  rw [htokens] at hwait
  cases hwait

theorem GotTokens.unique {t t' : TokenResponse} (h : p.GotTokens t) (h' : p.GotTokens t') :
    t' = t := by
  obtain ⟨n, now, reply, hanswer, htokens, hbefore⟩ := h
  obtain ⟨n', now', reply', hanswer', htokens', hbefore'⟩ := h'
  rcases Nat.lt_trichotomy n n' with hlt | rfl | hlt
  · exact absurd (hbefore' n hlt) (not_continues_of_tokens hanswer htokens)
  · cases hanswer.symm.trans hanswer'
    cases htokens.symm.trans htokens'
    rfl
  · exact absurd (hbefore n' hlt) (not_continues_of_tokens hanswer' htokens')

/-- The poll that was just answered brought tokens. -/
theorem gotTokens_answer {tokens : TokenResponse} (h : ∀ i < p.answers.length, p.Continues i)
    (htokens : tokenRequest reply = .ok (.ok tokens)) : (p.answer now reply).GotTokens tokens := by
  refine ⟨p.answers.length, now, reply, List.getElem?_concat_length, htokens, fun i hi => ?_⟩
  exact (continues_answer hi).mpr (h i hi)

theorem not_gotTokens_answer (h : ∀ i < p.answers.length, p.Continues i)
    (htokens : ¬ ∃ t, tokenRequest reply = .ok (.ok t)) (tokens : TokenResponse) :
    ¬ (p.answer now reply).GotTokens tokens := by
  rintro ⟨n, now', reply', hanswer, hgot, -⟩
  rcases getElem?_answer_cases hanswer with ⟨hlt, hanswer⟩ | ⟨-, rfl, rfl⟩
  · exact not_continues_of_tokens hanswer hgot (h n hlt)
  · exact htokens ⟨tokens, hgot⟩

/-- Whether the poll that was just answered is followed by another one. -/
theorem continues_last_iff : (p.answer now reply).Continues p.answers.length ↔
    ∃ wait, (p.answer now reply).waitAfter (p.answers.length + 1) (tokenRequest reply) = some wait ∧
      now + wait ≤ p.deadline := by
  constructor
  · rintro ⟨now', reply', wait, hanswer, hwait, hfits⟩
    cases hanswer.symm.trans List.getElem?_concat_length
    exact ⟨wait, hwait, hfits⟩
  · rintro ⟨wait, hwait, hfits⟩
    exact ⟨now, reply, wait, List.getElem?_concat_length, hwait, hfits⟩

theorem continues_answer_all (h : ∀ i < p.answers.length, p.Continues i)
    (hlast : (p.answer now reply).Continues p.answers.length) :
    ∀ i < (p.answer now reply).answers.length, (p.answer now reply).Continues i := by
  intro i hi
  rw [length_answer] at hi
  rcases Nat.lt_succ_iff_lt_or_eq.mp hi with hlt | rfl
  · exact (continues_answer hlt).mpr (h i hlt)
  · exact hlast

/-! ## What was sent -/

/-- Each poll but the first was sent when the wait after the answer before it was over. -/
structure Spaced (p : Polling) : Prop where
  first : p.sent.head? = some p.began
  rest : ∀ i next, p.sent[i + 1]? = some next → ∃ now reply wait,
    p.answers[i]? = some (now, reply) ∧ p.waitAfter (i + 1) (tokenRequest reply) = some wait ∧
      next = now + wait ∧ next ≤ p.deadline

theorem Spaced.answer (h : p.Spaced) : (p.answer now reply).Spaced := by
  refine ⟨h.first, fun i next hnext => ?_⟩
  obtain ⟨now', reply', wait, hanswer, hwait, hsent, hfits⟩ := h.rest i next hnext
  have hlt : i < p.answers.length := (List.getElem?_eq_some_iff.mp hanswer).1
  refine ⟨now', reply', wait, ?_, ?_, hsent, hfits⟩
  · rw [getElem?_answers_answer hlt, hanswer]
  · rw [waitAfter_answer_of_le hlt, hwait]

theorem Spaced.send (h : p.Spaced) {wait : Nat} (hlen : p.sent.length = p.answers.length)
    (hlast : p.answers.getLast? = some (now, reply))
    (hwait : p.waitAfter p.answers.length (tokenRequest reply) = some wait)
    (hfits : now + wait ≤ p.deadline) : (p.send (now + wait)).Spaced := by
  have hne : p.sent ≠ [] := by
    intro hnil
    have hfirst := h.first
    simp [hnil] at hfirst
  refine ⟨?_, fun i next hnext => ?_⟩
  · rw [Polling.send, List.head?_append_of_ne_nil _ hne]
    exact h.first
  · rw [Polling.send, List.getElem?_append] at hnext
    split_ifs at hnext with hlt
    · exact h.rest i next hnext
    · -- the poll that is sent now
      obtain ⟨hi, rfl⟩ : i + 1 = p.sent.length ∧ now + wait = next := by
        have hzero := List.getElem?_eq_some_iff.mp hnext
        simp only [List.length_singleton] at hzero
        obtain ⟨hidx, hval⟩ := hzero
        exact ⟨by omega, by simpa using hval⟩
      refine ⟨now, reply, wait, ?_, ?_, rfl, hfits⟩
      · rw [List.getLast?_eq_getElem?] at hlast
        rw [← hlast, ← hlen, ← hi]
        rfl
      · rw [hi, hlen]
        exact hwait

end Polling

/-! ## Where the login is -/

namespace TimedLogin

variable {J : TokenJson} {files : Files} {x x' : TimedLogin}

/-- Nothing was stored. -/
structure Unstored (files files' : Files) (stores : List (TokenResponse × UInt64 × Bool)) :
    Prop where
  nil : stores = []
  read : files'.read = files.read

/-- What the login knows of the loop's history. -/
structure Follows (l : Login) (p : Polling) : Prop where
  interval : l.interval = p.pace p.answers.length
  deadline : l.deadline = p.deadline
  continues : ∀ i < p.answers.length, p.Continues i

inductive Phase (J : TokenJson) (files : Files) (x : TimedLogin) : Prop
  | preparing (hpolling : x.polling = none) (hpc : x.login.pc.preparing = true)
      (hstores : Unstored files x.files x.stores)
  | polling {endpoints : Discovery} {p : Polling} (hpolling : x.polling = some p)
      (hpc : x.login.pc = .polling endpoints p.device) (hfollows : Follows x.login p)
      (hlen : p.sent.length = p.answers.length + 1) (hstores : Unstored files x.files x.stores)
  | sleeping {endpoints : Discovery} {p : Polling} {reply : Option (HttpResponse TokenResponse)}
      (hpolling : x.polling = some p) (hpc : x.login.pc = .sleeping endpoints p.device)
      (hfollows : Follows x.login p) (hlen : p.sent.length = p.answers.length)
      (hlast : p.answers.getLast? = some (x.clock, reply))
      (hwait : p.waitAfter p.answers.length (tokenRequest reply) = some x.sleep)
      (hfits : x.clock + x.sleep ≤ p.deadline) (hstores : Unstored files x.files x.stores)
  | storing {p : Polling} {tokens : TokenResponse} (hpolling : x.polling = some p)
      (hpc : x.login.pc = .storing tokens) (hgot : p.GotTokens tokens)
      (hstores : Unstored files x.files x.stores)
  | stored {p : Polling} {tokens : TokenResponse} {now : UInt64} {ok : Bool}
      (hpolling : x.polling = some p) (hpc : x.login.pc.closing = true)
      (hgot : p.GotTokens tokens) (hstores : x.stores = [(tokens, now, ok)])
      (hread : x.files.read =
        if ok then some (J.toVecPretty (tokens.cachedAt now)) else files.read)
  | failed {p : Polling} {e : LoginError} (hpolling : x.polling = some p)
      (hpc : x.login.pc = .finished (.error e)) (hno : ∀ tokens, ¬ p.GotTokens tokens)
      (hstop : ¬ ∀ i < p.answers.length, p.Continues i) (hstores : Unstored files x.files x.stores)

/-- What every run keeps. -/
structure Timely (J : TokenJson) (files : Files) (x : TimedLogin) : Prop where
  phase : Phase J files x
  spaced : ∀ p, x.polling = some p → p.Spaced

theorem timely_of_preparing {e : LoginEvent} {l : Login} (hpolling : x.polling = none)
    (hpc : x.login.pc.preparing = true) (hstores : Unstored files x.files x.stores)
    (hs : Login.Step x.login e l) : Timely J files (x.after l e) := by
  have hstay : ∀ l : Login, l.pc.preparing = true → Timely J files { x with login := l } :=
    fun l hpc => ⟨.preparing hpolling hpc hstores, fun p hp => by cases hpolling.symm.trans hp⟩
  cases hs with
  | opened => exact hstay _ rfl
  | noTerminal => exact hstay _ rfl
  | built => exact hstay _ rfl
  | notBuilt => exact hstay _ rfl
  | discovered => exact hstay _ rfl
  | notDiscovered => exact hstay _ rfl
  | authorized => exact hstay _ rfl
  | refused => exact hstay _ rfl
  | notAuthorized => exact hstay _ rfl
  | notPrompted =>
    exact ⟨.preparing hpolling rfl hstores, fun p hp => by cases hpolling.symm.trans hp⟩
  | @prompted endpoints device now hp =>
    refine ⟨.polling (p := ⟨device, now, [now], []⟩) rfl rfl ⟨?_, rfl, ?_⟩ rfl hstores, ?_⟩
    · show fromSecs _ = fromSecs _ + 0 * fromSecs 5
      rw [Nat.zero_mul, Nat.add_zero]
    · intro i hi
      cases hi
    · rintro p ⟨⟩
      exact ⟨rfl, fun i next hnext => by simp at hnext⟩
  | polled hp => rw [hp] at hpc; cases hpc
  | woke hp => rw [hp] at hpc; cases hpc
  | stored hp => rw [hp] at hpc; cases hpc
  | notStored hp => rw [hp] at hpc; cases hpc
  | confirmed hp => rw [hp] at hpc; cases hpc
  | notConfirmed hp => rw [hp] at hpc; cases hpc

theorem timely_of_polling {e : LoginEvent} {l : Login} {endpoints : Discovery} {p : Polling}
    (hpolling : x.polling = some p) (hpc : x.login.pc = .polling endpoints p.device)
    (hfollows : Follows x.login p) (hlen : p.sent.length = p.answers.length + 1)
    (hstores : Unstored files x.files x.stores) (hspaced : p.Spaced)
    (hs : x.login.step e = some l) : Timely J files (x.after l e) := by
  obtain ⟨reply, now, rfl, rfl⟩ := Login.step_polling hpc hs
  have hafter : (x.after (x.login.onPoll endpoints p.device now (tokenRequest reply))
      (.polled reply now)).polling = some (p.answer now reply) := by
    show x.polling.map _ = _
    rw [hpolling]
    rfl
  refine ⟨?_, fun p' hp' => ?_⟩
  · by_cases htokens : ∃ t, tokenRequest reply = .ok (.ok t)
    · obtain ⟨tokens, htokens⟩ := htokens
      refine .storing hafter ?_ (Polling.gotTokens_answer hfollows.continues htokens) hstores
      show (x.login.onPoll _ _ _ _).pc = _
      rw [htokens]
      rfl
    · have hwait : (p.answer now reply).waitAfter (p.answers.length + 1) (tokenRequest reply) =
        x.login.delay (tokenRequest reply) := Polling.waitAfter_answer hfollows.interval
      rcases Login.onPoll_cases endpoints p.device now (fun t ht => htokens ⟨t, ht⟩) with
        ⟨delay, hdelay, hfits, heq⟩ | ⟨hlate, err, hfin⟩
      · rw [hdelay] at hwait
        rw [hfollows.deadline] at hfits
        have hcontinues := Polling.continues_answer_all hfollows.continues
          (Polling.continues_last_iff.mpr ⟨delay, hwait, hfits⟩)
        have hlast : (p.answer now reply).answers.getLast? = some (now, reply) :=
          List.getLast?_concat
        have hsleep : (x.login.delay (tokenRequest reply)).getD 0 = delay := by
          rw [hdelay, Option.getD_some]
        rw [heq] at hafter ⊢
        refine .sleeping hafter rfl ⟨?_, hfollows.deadline, hcontinues⟩ ?_ hlast ?_ ?_ hstores
        · show x.login.interval + _ = _
          rw [Polling.length_answer, Polling.pace_answer, hfollows.interval]
        · rw [Polling.length_answer]
          exact hlen
        · rw [Polling.length_answer, hwait]
          exact congrArg some hsleep.symm
        · show now + (x.login.delay (tokenRequest reply)).getD 0 ≤ p.deadline
          rw [hsleep]
          exact hfits
      · refine .failed hafter hfin
          (Polling.not_gotTokens_answer hfollows.continues htokens) (fun hall => ?_) hstores
        obtain ⟨wait, hsome, hfits⟩ := Polling.continues_last_iff.mp
          (hall p.answers.length (by simp [Polling.answer]))
        have hnot := hlate wait (hwait.symm.trans hsome)
        rw [hfollows.deadline] at hnot
        exact absurd hfits (Nat.not_le_of_lt hnot)
  · cases hafter.symm.trans hp'
    exact hspaced.answer

theorem timely_of_sleeping {e : LoginEvent} {l : Login} {endpoints : Discovery} {p : Polling}
    {reply : Option (HttpResponse TokenResponse)} (hpolling : x.polling = some p)
    (hpc : x.login.pc = .sleeping endpoints p.device) (hfollows : Follows x.login p)
    (hlen : p.sent.length = p.answers.length)
    (hlast : p.answers.getLast? = some (x.clock, reply))
    (hwait : p.waitAfter p.answers.length (tokenRequest reply) = some x.sleep)
    (hfits : x.clock + x.sleep ≤ p.deadline) (hstores : Unstored files x.files x.stores)
    (hspaced : p.Spaced) (hs : x.login.step e = some l) : Timely J files (x.after l e) := by
  obtain ⟨rfl, rfl⟩ := Login.step_sleeping hpc hs
  have hafter : x.polling.map (·.send (x.clock + x.sleep)) = some (p.send (x.clock + x.sleep)) := by
    rw [hpolling]
    rfl
  refine ⟨.polling hafter rfl ⟨hfollows.interval, hfollows.deadline, hfollows.continues⟩ ?_ hstores,
    fun p' hp' => ?_⟩
  · rw [Polling.send, List.length_append, List.length_singleton, hlen]
  · cases hafter.symm.trans hp'
    exact hspaced.send hlen hlast hwait hfits

theorem timely_of_store {p : Polling} {tokens : TokenResponse} {now : UInt64} {e : StoreEnd}
    (hpolling : x.polling = some p) (hpc : x.login.pc = .storing tokens)
    (hgot : p.GotTokens tokens) (hstores : Unstored files x.files x.stores)
    (hspaced : ∀ p, x.polling = some p → p.Spaced)
    (hs : x.step J (.store now e) = some x') : Timely J files x' := by
  simp only [step, hpc] at hs
  obtain ⟨l, hl, rfl⟩ := Option.map_eq_some_iff.mp hs
  obtain ⟨ok, -, hclosing⟩ := Login.step_storing hpc hl
  have hread := J.read_storeTokens x.files (tokens.cachedAt now) e
  rw [hstores.read] at hread
  have hcalls : x.stores ++ [(tokens, now, (J.storeTokens x.files (tokens.cachedAt now) e).2)] =
      [(tokens, now, (J.storeTokens x.files (tokens.cachedAt now) e).2)] := by
    rw [hstores.nil, List.nil_append]
  refine ⟨.stored hpolling ?_ hgot hcalls hread, hspaced⟩
  rcases hclosing with hl | hl <;> rw [hl] <;> rfl

theorem pc_of_store {now : UInt64} {e : StoreEnd} (hs : x.step J (.store now e) = some x') :
    ∃ tokens, x.login.pc = .storing tokens := by
  cases hpc : x.login.pc with
  | storing tokens => exact ⟨tokens, rfl⟩
  | _ => simp [step, hpc] at hs

theorem timely_step {l : TimedLabel} (h : Timely J files x) (hs : x.step J l = some x') :
    Timely J files x' := by
  cases l with
  | store now e =>
    obtain ⟨tokens, hpc⟩ := pc_of_store hs
    cases h.phase with
    | storing hpolling hpc hgot hstores =>
      exact timely_of_store hpolling hpc hgot hstores h.spaced hs
    | preparing _ hpc' => rw [hpc] at hpc'; cases hpc'
    | polling _ hpc' => cases hpc.symm.trans hpc'
    | sleeping _ hpc' => cases hpc.symm.trans hpc'
    | stored _ hpc' => rw [hpc] at hpc'; cases hpc'
    | failed _ hpc' => cases hpc.symm.trans hpc'
  | login e =>
    simp only [step] at hs
    split_ifs at hs with hallowed
    obtain ⟨l, hl, rfl⟩ := Option.map_eq_some_iff.mp hs
    cases h.phase with
    | preparing hpolling hpc hstores =>
      exact timely_of_preparing hpolling hpc hstores (Login.Step.of_step hl)
    | polling hpolling hpc hfollows hlen hstores =>
      exact timely_of_polling hpolling hpc hfollows hlen hstores (h.spaced _ hpolling) hl
    | sleeping hpolling hpc hfollows hlen hlast hwait hfits hstores =>
      exact timely_of_sleeping hpolling hpc hfollows hlen hlast hwait hfits hstores
        (h.spaced _ hpolling) hl
    | storing hpolling hpc hgot hstores =>
      obtain ⟨ok, rfl, -⟩ := Login.step_storing hpc hl
      cases hallowed
    | stored hpolling hpc hgot hstores hread =>
      obtain ⟨ok, rfl, hclosing⟩ := Login.step_closing hpc hl
      exact ⟨.stored hpolling hclosing hgot hstores hread, h.spaced⟩
    | failed hpolling hpc =>
      simp [Login.step, hpc] at hl

theorem timely_of_reachable (h : (machine J files).Reachable x) : Timely J files x := by
  refine h.invariant (P := fun x => Timely J files x) ?_ (fun _ _ _ h _ hs => timely_step h hs)
  rintro x ⟨name, oidc, hlogin, hpolling, hfiles, hstores⟩
  refine ⟨.preparing hpolling ?_ ⟨hstores, by rw [hfiles]⟩, fun p hp => ?_⟩
  · rcases hlogin with hl | hl <;> rw [hl] <;> rfl
  · cases hpolling.symm.trans hp

/-! ## The pace -/

/-- The provider asks for slower polls, limits the rate all the same, and then has the tokens. -/
def slowedDown : List TimedLabel :=
  [.login (.built true),
    .login (.discovered (some ⟨200, none, some ⟨"/device", "/token"⟩, none⟩)),
    .login (.authorized (some ⟨200, none, some ⟨"d", "u", "/verify", none, none, 60⟩, none⟩)),
    .login (.prompted true 0),
    .login (.polled (some ⟨400, none, none, some "slow_down"⟩) (fromSecs 1)), .login .woke,
    -- The header is `20`.
    .login (.polled (some ⟨429, some [50, 48], none, none⟩) (fromSecs 12)), .login .woke,
    .login (.polled (some ⟨200, none, some ⟨"a1", some "r1", 3600⟩, none⟩) (fromSecs 33)),
    .store 0 .renamed]

def slowed : TimedLogin :=
  ((machine prettyJson .empty).run
    ⟨{ Login.start "dev" ⟨"https://auth.example.com", "herdr"⟩ with pc := .building }, 0, 0, none,
      .empty, []⟩ slowedDown).get (by decide)

end TimedLogin

end HerdrEternal
