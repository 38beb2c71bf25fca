import HerdrEternal.System.Resume
import Mathlib.Algebra.Group.Nat.Defs

/-!
# How the client retries

`run_exec` gives every attempt to connect the same time, and sleeps before it tries again. After a
lost connection it sleeps for `RESUME_RETRY_DELAY`. After a failed attempt it sleeps for
`retry_delay`, which doubles with every failure up to `RESUME_RETRY_MAX` and starts over once the
server has said `Started`. Only a login lets it try again at once.

`Retry` is `run_exec` with its clock. No time passes beyond the end of a sleep, or beyond the
timeout of an attempt. Times are in milliseconds.

**Theorem (`retry_pace`).** In every run the client sleeps `300 * 2 ^ (k - 1)` milliseconds after
the `k`-th failure in a row, but at most two seconds. In every stretch of the run it wakes at most
once in 300 milliseconds, whatever the server does. While it is neither attached nor logging in, it
begins an attempt at least once in the timeout and two seconds, and it is never stuck.
-/

namespace HerdrEternal

def RESUME_RETRY_DELAY : Nat := 300

def RESUME_RETRY_MAX : Nat := 2000

/-- The server has said `Started`, and the connection is not given up. -/
def Client.up (c : Client) : Bool :=
  match c.pc with
  | .authenticating | .connecting | .loggingIn | .backoff | .returned _ => false
  | _ => true

/-- `run_exec` with its clock. -/
structure Retry where
  client : Client
  now : Nat
  retryDelay : Nat
  /-- When the sleep before the next attempt ends. -/
  wakeAt : Nat
  /-- When the attempt under way began. -/
  attemptAt : Nat
  /-- History: how many attempts in a row failed, and how often the client woke to try again. -/
  failures : Nat
  wakes : Nat
  /-- History: when the client went to sleep, and when it last began an attempt or lost its
  connection. -/
  restedAt : Nat
  triedAt : Nat
  deriving DecidableEq

inductive RetryLabel where
  | wait (time : Nat)
  | event (quic : Bool) (e : ClientEvent)
  deriving DecidableEq

namespace Retry

variable {timeout : Nat} {r r' : Retry}

/-- Up to when the client may stay where it is. -/
def limit (timeout : Nat) (r : Retry) : Option Nat :=
  match r.client.pc with
  | .backoff => some r.wakeAt
  | .authenticating | .connecting => some (r.attemptAt + timeout)
  | _ => none

/-- The clock allows the event. -/
def allows (timeout : Nat) (r : Retry) : ClientEvent → Bool
  | .wake => r.wakeAt ≤ r.now
  | .connectFailed .connectTimeout => r.attemptAt + timeout ≤ r.now
  | _ => true

/-- The client goes on as `c`. -/
def goOn (r : Retry) (c : Client) : Retry :=
  if c.pc = .authenticating then
    -- The top of the loop, after a sleep or a login.
    { r with
      client := c
      attemptAt := r.now
      wakes := if r.client.pc = .backoff then r.wakes + 1 else r.wakes
      triedAt := r.now }
  else if c.pc = .backoff then
    if r.client.up then
      { r with
        client := c, wakeAt := r.now + RESUME_RETRY_DELAY, restedAt := r.now, triedAt := r.now }
    else
      { r with
        client := c
        wakeAt := r.now + r.retryDelay
        retryDelay := min (r.retryDelay * 2) RESUME_RETRY_MAX
        failures := r.failures + 1
        restedAt := r.now }
  else if r.client.pc = .connecting ∧ c.up = true then
    { r with client := c, retryDelay := RESUME_RETRY_DELAY, failures := 0 }
  else { r with client := c }

def step (timeout : Nat) (r : Retry) : RetryLabel → Option Retry
  | .wait time =>
    if (r.limit timeout).all fun t => r.now + time ≤ t then some { r with now := r.now + time }
    else none
  | .event quic e => if r.allows timeout e then (r.client.step quic e).map r.goOn else none

/-- `run_exec` as it begins its first attempt. -/
def start (source : TokenSource) : Retry :=
  ⟨{ Client.start source with pc := .authenticating }, 0, RESUME_RETRY_DELAY, 0, 0, 0, 0, 0, 0⟩

def machine (timeout : Nat) : Machine Retry RetryLabel where
  init r := ∃ source, r = start source
  step := step timeout

/-! ## The invariant -/

/-- How long the client sleeps after so many failures in a row. -/
def pause (failures : Nat) : Nat :=
  min (RESUME_RETRY_DELAY * 2 ^ (failures - 1)) RESUME_RETRY_MAX

theorem le_pause (n : Nat) : RESUME_RETRY_DELAY ≤ pause n := by
  have := Nat.one_le_two_pow (n := n - 1)
  unfold pause RESUME_RETRY_DELAY RESUME_RETRY_MAX
  omega

theorem pause_le (n : Nat) : pause n ≤ RESUME_RETRY_MAX := min_le_right _ _

theorem min_double (n : Nat) :
    min (pause (n + 1) * 2) RESUME_RETRY_MAX = pause (n + 2) := by
  have := Nat.pow_succ (n := 2) (m := n)
  unfold pause RESUME_RETRY_DELAY RESUME_RETRY_MAX
  simp only [Nat.add_sub_cancel, show n + 2 - 1 = n + 1 from rfl]
  omega

end Retry

/-- What a step does to the place the client is at. -/
inductive Client.Moves (c c' : Client) (e : ClientEvent) : Prop
  | wake (he : e = .wake) (h : c.pc = .backoff) (h' : c'.pc = .authenticating)
  | again (h : c.pc = .loggingIn) (h' : c'.pc = .authenticating)
  | opens (h : c.pc = .authenticating ∨ c.pc = .connecting) (h' : c'.pc = .connecting)
  | fails (h : c.pc = .authenticating ∨ c.pc = .connecting) (h' : c'.pc = .backoff)
  | starts (h : c.pc = .connecting) (h' : c'.up = true)
  | stays (h : c.up = true) (h' : c'.up = true)
  | loses (h : c.up = true) (h' : c'.pc = .backoff)
  | leaves (h' : c'.pc = .loggingIn ∨ ∃ r, c'.pc = .returned r)

theorem Client.up_of_pc {c : Client} {p : ClientPc} (hp : c.pc = p)
    (h : ({ c with pc := p } : Client).up = true) : c.up = true := by
  subst hp
  exact h

theorem Client.Moves.connectError {c : Client}
    (h : c.pc = .authenticating ∨ c.pc = .connecting) (err : ClientError) (e : ClientEvent) :
    c.Moves (c.connectError err) e := by
  unfold Client.connectError
  split
  · split
    · exact .leaves (.inr ⟨_, rfl⟩)
    · exact .leaves (.inl rfl)
  · exact .leaves (.inr ⟨_, rfl⟩)
  · split_ifs
    · exact .fails h rfl
    · exact .leaves (.inr ⟨_, rfl⟩)

theorem Client.Moves.disconnect {c : Client} (h : c.up = true) (e : ClientEvent) :
    c.Moves c.disconnect e := by
  unfold Client.disconnect
  split_ifs
  · exact .loses h rfl
  · exact .leaves (.inr ⟨_, rfl⟩)

theorem Client.up_onMessage {c : Client} (h : c.pc = .select) (reliable : Bool) (m : Msg) :
    (c.onMessage reliable m).up = true := by
  have hup : c.up = true := by rw [up, h]
  have hout : ∀ stream seq data, (c.onOutput stream seq data reliable).up = true := by
    intro stream seq data
    unfold onOutput
    split_ifs
    · rfl
    · rfl
    · exact hup
  cases m with
  | stdout seq data => exact hout .out seq data
  | stderr seq data => exact hout .err seq data
  | exit => rfl
  | _ => exact hup

theorem Client.up_resendNext (c : Client) (rest : List Msg) : (c.resendNext rest).up = true := by
  cases rest <;> rfl

theorem Client.Step.moves {q : Bool} {c c' : Client} {e : ClientEvent} (h : c.Step q e c') :
    c.Moves c' e := by
  -- From one place on the connection to another.
  have hstay : ∀ {p : ClientPc}, c.pc = p → ({ c with pc := p } : Client).up = true →
      c'.up = true → c.Moves c' e := fun hp hup hup' => .stays (Client.up_of_pc hp hup) hup'
  cases h with
  | authenticated hp => exact .opens (.inl hp) rfl
  | authFailed hp => exact .connectError (.inl hp) _ _
  | @reply m hp =>
    unfold Client.onReply
    split
    · exact .starts hp (Client.up_resendNext _ _)
    · exact .connectError (.inr hp) _ _
    · exact .connectError (.inr hp) _ _
  | early hp => exact .opens (.inr hp) hp
  | connectFailed hp => exact .connectError (.inr hp) _ _
  | loggedIn hp => exact .again hp rfl
  | loginFailed => exact .leaves (.inr ⟨_, rfl⟩)
  | wake hp => exact .wake rfl hp rfl
  | resent hp => exact hstay hp rfl (c.up_resendNext _)
  | resendFailed hp => exact .disconnect (Client.up_of_pc hp rfl) _
  | expired hp => exact .disconnect (Client.up_of_pc hp rfl) _
  | pingFailed hp => exact .disconnect (Client.up_of_pc hp rfl) _
  | freshFailed hp => exact .disconnect (Client.up_of_pc hp rfl) _
  | disconnected hp => exact .disconnect (Client.up_of_pc hp rfl) _
  | frame hp => exact hstay hp rfl (Client.up_onMessage hp _ _)
  | datagram hp => exact hstay hp rfl (Client.up_onMessage hp _ _)
  | badDatagram hp => exact hstay hp rfl (Client.up_of_pc hp rfl)
  | stdinError => exact .leaves (.inr ⟨_, rfl⟩)
  | badFrame => exact .leaves (.inr ⟨_, rfl⟩)
  | writeFailed => exact .leaves (.inr ⟨_, rfl⟩)
  | flushFailed => exact .leaves (.inr ⟨_, rfl⟩)
  | exitAcked => exact .leaves (.inr ⟨_, rfl⟩)
  | exitAckFailed => exact .leaves (.inr ⟨_, rfl⟩)
  | tick hp => exact hstay hp rfl rfl
  | pinged hp => exact hstay hp rfl rfl
  | stdinData hp => exact hstay hp rfl rfl
  | stdinEof hp => exact hstay hp rfl rfl
  | freshSent hp => exact hstay hp rfl rfl
  | wrotePart hp => exact hstay hp rfl rfl
  | wroteAll hp => exact hstay hp rfl rfl
  | flushed hp => exact hstay hp rfl rfl
  | acked hp => exact hstay hp rfl rfl
  | ackFailed hp => exact hstay hp rfl rfl

theorem Client.pc_of_up {c : Client} (h : c.up = true) :
    c.pc ≠ .authenticating ∧ c.pc ≠ .connecting ∧ c.pc ≠ .backoff := by
  refine ⟨?_, ?_, ?_⟩ <;> intro hp <;> rw [up, hp] at h <;> cases h

namespace Retry

variable {timeout since spare : Nat} {r r' : Retry}

/-- The invariant. The client may wake `RESUME_RETRY_DELAY` apart from the time `since` on, with
some time to spare. -/
structure Paced (timeout since spare : Nat) (r : Retry) : Prop where
  delay : r.retryDelay = pause (r.failures + 1)
  up : r.client.up = true → r.failures = 0
  rate : RESUME_RETRY_DELAY * r.wakes + since ≤ r.now + spare
  attempt : r.client.pc = .authenticating ∨ r.client.pc = .connecting →
    r.now ≤ r.attemptAt + timeout ∧ r.triedAt = r.attemptAt
  asleep : r.client.pc = .backoff → r.restedAt ≤ r.now ∧ r.now ≤ r.wakeAt ∧
    r.wakeAt = r.restedAt + pause r.failures ∧ r.restedAt ≤ r.triedAt + timeout ∧
    RESUME_RETRY_DELAY * (r.wakes + 1) + since ≤ r.wakeAt + spare

theorem Paced.goOn (h : Paced timeout since spare r) {c : Client} {e : ClientEvent}
    (hallows : r.allows timeout e = true) (hm : r.client.Moves c e) :
    Paced timeout since spare (r.goOn c) := by
  have hmax := pause_le r.failures
  have hmin := le_pause (r.failures + 1)
  cases hm with
  | wake he hp hp' =>
    subst he
    have hdue : r.wakeAt ≤ r.now := decide_eq_true_iff.mp hallows
    obtain ⟨-, -, -, -, hrate⟩ := h.asleep hp
    rw [Retry.goOn, if_pos hp', if_pos hp]
    exact ⟨h.delay, fun hup => absurd hp' (Client.pc_of_up hup).1,
      hrate.trans (Nat.add_le_add_right hdue _), fun _ => ⟨Nat.le_add_right _ _, rfl⟩,
      fun hb => by cases hp'.symm.trans hb⟩
  | again hp hp' =>
    have hno : r.client.pc ≠ .backoff := by rw [hp]; exact ClientPc.noConfusion
    rw [Retry.goOn, if_pos hp', if_neg hno]
    exact ⟨h.delay, fun hup => absurd hp' (Client.pc_of_up hup).1, h.rate,
      fun _ => ⟨Nat.le_add_right _ _, rfl⟩, fun hb => by cases hp'.symm.trans hb⟩
  | opens hp hp' =>
    have hdown : c.up ≠ true := fun hup => (Client.pc_of_up hup).2.1 hp'
    rw [Retry.goOn, if_neg (by rw [hp']; exact ClientPc.noConfusion),
      if_neg (by rw [hp']; exact ClientPc.noConfusion), if_neg fun hc => hdown hc.2]
    exact ⟨h.delay, fun hup => absurd hup hdown, h.rate, fun _ => h.attempt hp,
      fun hb => by cases hp'.symm.trans hb⟩
  | fails hp hp' =>
    have hdown : r.client.up ≠ true := by
      intro hup
      obtain ⟨ha, hc, -⟩ := Client.pc_of_up hup
      exact hp.elim ha hc
    obtain ⟨hin, htried⟩ := h.attempt hp
    rw [Retry.goOn, if_neg (by rw [hp']; exact ClientPc.noConfusion), if_pos hp', if_neg hdown]
    refine ⟨?_, fun hup => absurd hp' (Client.pc_of_up hup).2.2, h.rate, ?_, fun _ => ?_⟩
    · show min (r.retryDelay * 2) RESUME_RETRY_MAX = pause (r.failures + 1 + 1)
      rw [h.delay, min_double]
    · rintro (ha | hc)
      · cases hp'.symm.trans ha
      · cases hp'.symm.trans hc
    · have hrate := h.rate
      have hdelay := h.delay
      refine ⟨le_rfl, Nat.le_add_right _ _, congrArg (r.now + ·) hdelay, ?_, ?_⟩
      · show r.now ≤ r.triedAt + timeout
        omega
      · show RESUME_RETRY_DELAY * (r.wakes + 1) + since ≤ r.now + r.retryDelay + spare
        rw [Nat.mul_succ]
        omega
  | starts hp hup =>
    obtain ⟨ha, hc, hb⟩ := Client.pc_of_up hup
    rw [Retry.goOn, if_neg ha, if_neg hb, if_pos ⟨hp, hup⟩]
    exact ⟨rfl, fun _ => rfl, h.rate, fun hp' => hp'.elim (absurd · ha) (absurd · hc),
      fun hp' => absurd hp' hb⟩
  | stays hup hup' =>
    obtain ⟨ha, hc, hb⟩ := Client.pc_of_up hup'
    rw [Retry.goOn, if_neg ha, if_neg hb, if_neg fun hc => (Client.pc_of_up hup).2.1 hc.1]
    exact ⟨h.delay, fun _ => h.up hup, h.rate, fun hp' => hp'.elim (absurd · ha) (absurd · hc),
      fun hp' => absurd hp' hb⟩
  | loses hup hp' =>
    have hzero := h.up hup
    have hrate := h.rate
    rw [Retry.goOn, if_neg (by rw [hp']; exact ClientPc.noConfusion), if_pos hp', if_pos hup]
    refine ⟨h.delay, fun hup => absurd hp' (Client.pc_of_up hup).2.2, h.rate, ?_, fun _ => ?_⟩
    · rintro (ha | hc)
      · cases hp'.symm.trans ha
      · cases hp'.symm.trans hc
    · refine ⟨le_rfl, Nat.le_add_right _ _, ?_, Nat.le_add_right _ _, ?_⟩
      · show r.now + RESUME_RETRY_DELAY = r.now + pause r.failures
        rw [hzero]
        rfl
      · show RESUME_RETRY_DELAY * (r.wakes + 1) + since ≤ r.now + RESUME_RETRY_DELAY + spare
        rw [Nat.mul_succ]
        omega
  | leaves hp' =>
    have hpc : c.pc ≠ .authenticating ∧ c.pc ≠ .connecting ∧ c.pc ≠ .backoff ∧ c.up ≠ true := by
      rw [Client.up]
      rcases hp' with hp' | ⟨_, hp'⟩ <;> simp [hp']
    obtain ⟨ha, hc, hb, hdown⟩ := hpc
    rw [Retry.goOn, if_neg ha, if_neg hb, if_neg fun hc => hdown hc.2]
    exact ⟨h.delay, fun hup => absurd hup hdown, h.rate,
      fun hp' => hp'.elim (absurd · ha) (absurd · hc), fun hp' => absurd hp' hb⟩

theorem Paced.start (timeout : Nat) (source : TokenSource) : Paced timeout 0 0 (start source) where
  delay := rfl
  up _ := rfl
  rate := le_rfl
  attempt _ := ⟨Nat.zero_le _, rfl⟩
  asleep hb := ClientPc.noConfusion hb

/-- A sleep and an attempt only last as long as they may. -/
theorem Paced.wait (h : Paced timeout since spare r) {time : Nat}
    (hle : (r.limit timeout).all (fun t => decide (r.now + time ≤ t)) = true) :
    Paced timeout since spare { r with now := r.now + time } where
  delay := h.delay
  up := h.up
  rate := h.rate.trans (Nat.add_le_add_right (Nat.le_add_right _ _) _)
  attempt hp := by
    have hlim : r.limit timeout = some (r.attemptAt + timeout) := by
      unfold limit
      rcases hp with hp | hp <;> rw [show r.client.pc = _ from hp]
    rw [hlim] at hle
    exact ⟨decide_eq_true_iff.mp hle, (h.attempt hp).2⟩
  asleep hp := by
    have hlim : r.limit timeout = some r.wakeAt := by
      unfold limit
      rw [show r.client.pc = _ from hp]
    rw [hlim] at hle
    obtain ⟨hrest, -, hrest'⟩ := h.asleep hp
    exact ⟨hrest.trans (Nat.le_add_right _ _), decide_eq_true_iff.mp hle, hrest'⟩

theorem Paced.step (h : Paced timeout since spare r) {l : RetryLabel}
    (hs : r.step timeout l = some r') : Paced timeout since spare r' := by
  cases l with
  | wait time =>
    simp only [Retry.step] at hs
    split_ifs at hs with hle
    cases hs
    exact h.wait hle
  | event quic e =>
    simp only [Retry.step] at hs
    split_ifs at hs with hallows
    obtain ⟨c, hc, rfl⟩ := Option.map_eq_some_iff.mp hs
    exact h.goOn hallows (Client.Step.of_step hc).moves

theorem Paced.of_reachable (h : (machine timeout).Reachable r) : Paced timeout 0 0 r := by
  refine h.invariant (P := Paced timeout 0 0) ?_ fun _ _ _ hr _ hs => hr.step hs
  rintro r ⟨source, rfl⟩
  exact .start timeout source

/-- The same rate from every state on: the client may be about to wake. -/
theorem Paced.again (h : Paced timeout since spare r) :
    Paced timeout r.now (RESUME_RETRY_DELAY * (r.wakes + 1)) r where
  delay := h.delay
  up := h.up
  rate := by
    rw [Nat.mul_succ]
    omega
  attempt := h.attempt
  asleep hp := by
    obtain ⟨hrest, hin, hwake, htried, -⟩ := h.asleep hp
    exact ⟨hrest, hin, hwake, htried, by omega⟩

theorem wakes_le (h : (machine timeout).Reachable r)
    (h' : ((machine timeout).startAt r).Reachable r') :
    RESUME_RETRY_DELAY * r'.wakes + r.now ≤ r'.now + RESUME_RETRY_DELAY * (r.wakes + 1) := by
  refine (h'.invariant (P := Paced timeout r.now (RESUME_RETRY_DELAY * (r.wakes + 1))) ?_
    fun _ _ _ hr _ hs => hr.step hs).rate
  rintro _ rfl
  exact (Paced.of_reachable h).again

/-! ## The theorem -/

/-- The clock can go on, or the sleep or the attempt ends now. -/
def Moves (timeout : Nat) (r : Retry) : Prop :=
  ∃ l, (l = .wait 1 ∨ ∃ quic, l = .event quic .wake ∨
    l = .event quic (.connectFailed .connectTimeout)) ∧ (r.step timeout l).isSome = true

theorem moves (timeout : Nat) (r : Retry) : r.Moves timeout := by
  cases hlim : r.limit timeout with
  | none => exact ⟨.wait 1, .inl rfl, by rw [step, hlim]; rfl⟩
  | some t =>
    by_cases hle : r.now + 1 ≤ t
    · exact ⟨.wait 1, .inl rfl, by rw [step, hlim, if_pos]; exacts [rfl, decide_eq_true hle]⟩
    -- The clock has come to the end of a sleep or of an attempt.
    have hend : t ≤ r.now := Nat.not_lt.mp hle
    have hstep : ∀ e, r.allows timeout e = true → (r.client.step true e).isSome = true →
        (r.step timeout (.event true e)).isSome = true := by
      intro e hallows hs
      rw [step, if_pos hallows, Option.isSome_map]
      exact hs
    unfold limit at hlim
    split at hlim
    · rename_i hp
      cases hlim
      refine ⟨_, .inr ⟨true, .inl rfl⟩, hstep .wake (decide_eq_true hend) ?_⟩
      rw [Client.step_of_pc hp]
      rfl
    · rename_i hp
      cases hlim
      refine ⟨_, .inr ⟨true, .inr rfl⟩, hstep _ (decide_eq_true hend) ?_⟩
      rw [Client.step_of_pc hp]
      rfl
    · rename_i hp
      cases hlim
      refine ⟨_, .inr ⟨true, .inr rfl⟩, hstep _ (decide_eq_true hend) ?_⟩
      rw [Client.step_of_pc hp]
      rfl
    · cases hlim

end Retry

/-- **How the client retries**, in every run. -/
theorem retry_pace (timeout : Nat) (r : Retry) (h : (Retry.machine timeout).Reachable r) :
    (r.client.pc = .backoff → r.wakeAt = r.restedAt + Retry.pause r.failures ∧ r.now ≤ r.wakeAt) ∧
    (∀ r', ((Retry.machine timeout).startAt r).Reachable r' →
      RESUME_RETRY_DELAY * (r'.wakes - r.wakes) ≤ r'.now - r.now + RESUME_RETRY_DELAY) ∧
    (r.client.pc = .authenticating ∨ r.client.pc = .connecting ∨ r.client.pc = .backoff →
      r.now ≤ r.triedAt + timeout + RESUME_RETRY_MAX) ∧
    r.Moves timeout := by
  have hr := Retry.Paced.of_reachable h
  refine ⟨fun hp => ⟨(hr.asleep hp).2.2.1, (hr.asleep hp).2.1⟩, fun r' h' => ?_, fun hp => ?_,
    r.moves timeout⟩
  · have hle := Retry.wakes_le h h'
    rw [Nat.mul_sub]
    rw [Nat.mul_succ] at hle
    omega
  rcases or_assoc.mpr hp with hp | hp
  · obtain ⟨hin, htried⟩ := hr.attempt hp
    omega
  · obtain ⟨-, hin, hwake, hrest, -⟩ := hr.asleep hp
    have := Retry.pause_le r.failures
    omega

/-- The server goes away once it has said `Started`, and then refuses every connection. -/
def refusedRun : List RetryLabel :=
  [.event true .authenticated, .event true (.frame (.started (some "t"))),
   .event true .disconnected, .wait 300] ++
  [300, 600, 1200].flatMap (fun sleep =>
    [.event true .wake, .event true .authenticated, .event true (.connectFailed .io),
     .wait sleep]) ++
  [.event true .wake, .event true .authenticated, .event true (.connectFailed .io)]

def refusedAgain : Retry :=
  ((Retry.machine 10000).run (.start .static) refusedRun).getD (.start .static)

/-- The fourth sleep after a refused connection lasts two seconds. -/
theorem refusedAgain_paced : refusedAgain.wakeAt = refusedAgain.restedAt + 2000 ∧
    refusedAgain.client.pc = .backoff := by
  have hrun : (Retry.machine 10000).run (.start .static) refusedRun = some refusedAgain := by
    decide +kernel
  have hreach : (Retry.machine 10000).Reachable refusedAgain :=
    Machine.reachable_of_run ⟨.static, rfl⟩ hrun
  have hpc : refusedAgain.client.pc = .backoff := by decide +kernel
  have hfailures : Retry.pause refusedAgain.failures = 2000 := by decide +kernel
  exact ⟨hfailures ▸ ((retry_pace 10000 _ hreach).1 hpc).1, hpc⟩

end HerdrEternal
