import HerdrEternal.System.Release64

/-!
# Sequence numbers of any peer

Both ends keep the number of the last message they took, and ask of a datagram whether it is exactly
the next one by adding one to that number. The stream rule lets a peer raise it to the maximum
first.

`Ends` is a session with all that is attached to it, and a client, in the release build. Neither
hears the other; what arrives are decoded messages, whatever the peer makes up. `applied` and
`written` record the numbers that the ends took, `additions` the additions that were evaluated.

**Theorem (`numbers_sound`).** Let no Stdin datagram be taken by the session, and no output by the
client, once the last number is the maximum, and let the numbers of the log be `u64`. Then no
addition overflows, the last numbers never decrease, and no number is taken twice.

Without the condition all three fail (`number_reused`): behind the maximum the next number is zero,
and with it everything before can be taken once more.
-/

namespace HerdrEternal

/-! ## Both ends, with any peer -/

structure Ends where
  serving : Serving
  client : Client
  /-- The numbers that the session applied. -/
  applied : List Nat
  /-- The numbers whose output the client wrote. -/
  written : List Nat
  /-- Every addition that was evaluated. -/
  additions : List Addition

inductive EndsLabel where
  | server (l : ServingLabel)
  | client (quic : Bool) (e : ClientEvent)
  deriving DecidableEq

def EndsLabel.is64 : EndsLabel → Bool
  | .server l => l.is64
  | .client _ e => e.is64

namespace Ends

def session (x : Ends) : Session := x.serving.session

def step (x : Ends) (l : EndsLabel) : Option Ends :=
  if l.is64 then
    match l with
    | .server l => (x.serving.step64 l).map fun v => { x with
        serving := v
        applied := x.applied ++ (x.serving.applied l).toList
        additions := x.additions ++ x.serving.additions l }
    | .client quic e => (x.client.step64 quic e).map fun c => { x with
        client := c
        written := x.written ++ (x.client.written e).toList
        additions := x.additions ++ x.client.additions e }
  else none

/-- A session that was started or restored, and a client, before anything arrived. -/
def start (s : Session) (c : Client) : Ends := ⟨.start s, c, [], [], []⟩

def machine : Machine Ends EndsLabel where
  init x := ∃ s c, s.Wf ∧ s.ended = false ∧ s.inbound = [] ∧
    s.stdinApplied = s.task.lastClientSeq ∧ x = start s c
  step := step

def below (x : Ends) : EndsLabel → Bool
  | .server l => x.serving.below l
  | .client _ e => x.client.below e

/-- Nothing went wrong between `x` and `y`. -/
structure Sound (x y : Ends) : Prop where
  lastClientSeq_le : x.session.task.lastClientSeq ≤ y.session.task.lastClientSeq
  stdinApplied_le : x.session.stdinApplied ≤ y.session.stdinApplied
  lastServerSeq_le : x.client.lastServerSeq ≤ y.client.lastServerSeq
  applied_once : y.applied.Nodup
  written_once : y.written.Nodup
  fits : ∀ a ∈ y.additions, a.Fits

/-! ## Below the maximum -/

variable {x x' y : Ends} {l : EndsLabel}

/-- Every step, with what arrived in the range of `u64`. -/
inductive Step (x : Ends) : EndsLabel → Ends → Prop
  | server {l : ServingLabel} {v : Serving} (hl : l.is64 = true)
      (hs : x.serving.step64 l = some v) :
      Step x (.server l) { x with
        serving := v
        applied := x.applied ++ (x.serving.applied l).toList
        additions := x.additions ++ x.serving.additions l }
  | client {quic : Bool} {e : ClientEvent} {c : Client} (he : e.is64 = true)
      (hs : x.client.step64 quic e = some c) :
      Step x (.client quic e) { x with
        client := c
        written := x.written ++ (x.client.written e).toList
        additions := x.additions ++ x.client.additions e }

theorem Step.of_step (hs : x.step l = some x') : Step x l x' := by
  unfold step at hs
  split_ifs at hs with hl
  cases l with
  | server l =>
    obtain ⟨v, hv, rfl⟩ := Option.map_eq_some_iff.mp hs
    exact .server hl hv
  | client quic e =>
    obtain ⟨c, hc, rfl⟩ := Option.map_eq_some_iff.mp hs
    exact .client hl hc

/-- What every run keeps that stays below the maximum. -/
structure Ok (x : Ends) : Prop where
  running : x.serving.running.Ok
  room : x.serving.Each fun c => c.attach.Room x.serving.history
  queue : ∀ input ∈ x.session.inbound, input.is64 = true
  published_le : x.session.stdinApplied ≤ x.session.task.lastClientSeq
  applied : Ascends x.applied x.session.task.lastClientSeq
  written : Ascends x.written x.client.lastServerSeq
  fits : ∀ a ∈ x.additions, a.Fits

/-- The numbers that must not decrease. -/
def marks (x : Ends) : Nat × Nat × Nat :=
  (x.session.task.lastClientSeq, x.session.stdinApplied, x.client.lastServerSeq)

theorem ok_step (h : x.Ok) (hb : x.below l = true) (hs : x.step l = some x') :
    x'.Ok ∧ x.marks ≤ x'.marks := by
  cases Step.of_step hs with
  | @server l v hl hv =>
    rw [Serving.step64_eq h.running h.queue h.room hl hb] at hv
    have hmoves := Serving.moves_step h.queue hb hv
    have hlt := Serving.lt_applied h.queue hb
    have hlast : x.session.task.lastClientSeq ≤ v.session.task.lastClientSeq := by
      rw [hmoves.last]
      exact Ascends.le_getD hlt
    have hpublished : x.session.stdinApplied ≤ v.session.stdinApplied ∧
        v.session.stdinApplied ≤ v.session.task.lastClientSeq := by
      rcases hmoves.applied with heq | heq
      · rw [heq]
        exact ⟨le_rfl, h.published_le.trans hlast⟩
      · rw [heq]
        exact ⟨h.published_le.trans hlast, le_rfl⟩
    refine ⟨⟨Serving.ok_step h.running hv, Serving.room_step h.running h.room hv,
      Serving.is64_step h.queue hl hv, hpublished.2, ?_, h.written, ?_⟩,
      hlast, hpublished.1, le_rfl⟩
    · show Ascends _ v.session.task.lastClientSeq
      rw [hmoves.last]
      exact h.applied.take hlt
    · exact List.forall_mem_append.mpr ⟨h.fits, Serving.fits_additions h.room hl hb⟩
  | @client quic e c he hc =>
    rw [Client.step64_eq quic he hb] at hc
    have hlast := Client.last_step he hb hc
    have hlt := Client.lt_written he hb
    refine ⟨⟨h.running, h.room, h.queue, h.published_le, h.applied, ?_, ?_⟩,
      le_rfl, le_rfl, ?_⟩
    · show Ascends _ c.lastServerSeq
      rw [hlast]
      exact h.written.take hlt
    · exact List.forall_mem_append.mpr ⟨h.fits, Client.fits_iff_below.mpr hb⟩
    · show x.client.lastServerSeq ≤ c.lastServerSeq
      rw [hlast]
      exact Ascends.le_getD hlt

theorem ok_under (h : machine.Under (fun x l => x.below l = true) x) : x.Ok := by
  refine h.invariant (P := fun x => x.Ok) ?_ fun _ _ _ h hb hs => (ok_step h hb hs).1
  rintro x ⟨s, c, hwf, -, hin, happlied, rfl⟩
  exact {
    running := .of_wf hwf
    room := fun i c hget => by cases hget
    queue := fun input hinput => by
      rw [show (start s c).session.inbound = [] from hin] at hinput
      cases hinput
    published_le := happlied.le
    applied := .nil _
    written := .nil _
    fits := fun a ha => by cases ha }

/-- **Below the maximum the sequence numbers are sound**: no addition overflows, the last numbers
never decrease, and no number is taken twice. -/
theorem numbers_sound (hx : machine.Under (fun x l => x.below l = true) x)
    (hy : (machine.startAt x).Under (fun x l => x.below l = true) y) : Sound x y := by
  have hok := ok_under (hx.trans hy)
  have hmarks : x.marks ≤ y.marks :=
    hx.le_of_step hy fun _ _ _ hunder hb hs => (ok_step (ok_under hunder) hb hs).2
  exact {
    lastClientSeq_le := hmarks.1
    stdinApplied_le := hmarks.2.1
    lastServerSeq_le := hmarks.2.2
    applied_once := hok.applied.nodup
    written_once := hok.written.nodup
    fits := hok.fits }

/-! ## Behind the maximum -/

/-- The largest `u64`. -/
def maxSeq : Nat := 2 ^ 64 - 1

def fresh : Ends :=
  start (.start true false (.start (.pipe 0) (.pipe 1) (.pipe 2) (.pipe 3) 1))
    { tokenSource := .static, stdinOpen := true, sentStdin := [], clientSeq := 0
      lastServerSeq := 0, resumeToken := none, pc := .connecting
      trace := ⟨[], [], 0, [], [], 0, none⟩ }

/-- A connection attaches, and the client is told that its command was started. -/
def openingRun : List EndsLabel :=
  [.server (.attach true "7-1-0" 0), .server (.conn 0 .sent), .server (.conn 0 .snapshot),
    .client true (.frame (.started none))]

/-- The peers send the largest number on the stream. -/
def raisingRun : List EndsLabel :=
  [.server (.conn 0 (.frame (.stdin maxSeq [120]))), .server (.conn 0 .snapshot),
    .server (.task .recv), .server (.task (.stdinWritten 1)),
    .client true (.frame (.stdout maxSeq [120])),
    .client true (.wrote 1), .client true .flushed, .client true .sent]

/-- And then zero, as a datagram. -/
def fallingRun : List EndsLabel :=
  [.server (.conn 0 (.datagram (.stdin 0 [121]))), .server (.conn 0 .snapshot),
    .server (.task .recv), .server (.task (.stdinWritten 1)),
    .client true (.datagram (.stdout 0 [121])),
    .client true (.wrote 1), .client true .flushed, .client true .sent]

/-- The largest number comes again. -/
def repeatingRun : List EndsLabel :=
  [.server (.conn 0 .sent), .server (.conn 0 (.frame (.stdin maxSeq [120]))),
    .server (.task .recv), .client true (.frame (.stdout maxSeq [120]))]

def opened : Ends := (machine.runIf below fresh openingRun).get (by decide)

def raised : Ends := (machine.runIf below opened raisingRun).get (by decide)

def fallen : Ends := (machine.run raised fallingRun).get (by decide)

def repeated : Ends := (machine.run fallen repeatingRun).get (by decide)

theorem init_fresh : machine.init fresh :=
  ⟨_, _, Session.wf_start true false _ _ _ _ 1, rfl, rfl, rfl, rfl⟩

theorem under_opened : machine.Under (fun x l => x.below l = true) opened :=
  Machine.under_of_runIf (.init init_fresh) (Option.some_get _).symm

/-- The largest number may be taken, once. -/
theorem raised_sound : raised.applied = [maxSeq] ∧ raised.written = [maxSeq] ∧
    Sound opened raised :=
  ⟨by decide, by decide, numbers_sound under_opened
    (Machine.under_startAt (Option.some_get _).symm)⟩

/-- **Zero is the next number behind the maximum.** Then the last numbers fall, and the maximum is
taken a second time. -/
theorem number_reused :
    machine.Reachable opened ∧ (machine.startAt opened).Reachable raised ∧
      (machine.startAt raised).Reachable fallen ∧ (machine.startAt fallen).Reachable repeated ∧
      fallen.session.task.lastClientSeq < raised.session.task.lastClientSeq ∧
      fallen.session.stdinApplied < raised.session.stdinApplied ∧
      fallen.client.lastServerSeq < raised.client.lastServerSeq ∧
      repeated.applied = [maxSeq, 0, maxSeq] ∧ repeated.written = [maxSeq, 0, maxSeq] ∧
      ¬ ∀ a ∈ repeated.additions, a.Fits :=
  ⟨under_opened.reachable, (Machine.under_startAt (Option.some_get _).symm).reachable,
    Machine.reachable_startAt (Option.some_get _).symm,
    Machine.reachable_startAt (Option.some_get _).symm, by decide, by decide, by decide, by decide,
    by decide, by decide⟩

end Ends

end HerdrEternal
