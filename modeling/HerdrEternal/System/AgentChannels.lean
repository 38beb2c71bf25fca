import HerdrEternal.Server.AgentHub
import Mathlib.Data.List.TakeWhile

/-!
# Agent channels and the hub's slot

"Requests always go to the most recently attached client." The hub has one slot for the channel
that requests go to, while any number of channels and streams can be there at once.

A channel that attaches takes the slot, and one that detaches clears it if the slot is still its
own. An older channel that is still attached does not get it back (`older_channel_is_forgotten`).
**Theorem (`points_at_latest`):** if the channel in the slot only detaches when no other one is
attached, the slot always has the latest attached channel.

A stream is announced to the channel in the slot, and its later messages also go to the channel in
the slot, which may be another one by then. Nothing is told to the streams of a channel that
detaches (`streams_outlive_channel`). **Theorem (`streams_stay_on_channel`):** suppose that channels
attach only while no stream is open, and that before a channel detaches every program it was told of
has hung up, or its stream was closed by a client. Then every message of a stream follows its
announcement, and no stream outlives its channel.
-/

namespace HerdrEternal

/-- The stream is not announced to any channel yet. -/
def AgentRelay.unannounced (r : AgentRelay) : Bool :=
  match r.pc with
  | .waiting | .numbering | .registering _ | .opening _ => true
  | _ => false

/-- The stream was announced, and has not sent its last message. -/
def AgentRelay.isOpen (r : AgentRelay) : Bool :=
  match r.pc with
  | .relaying _ | .closing _ => true
  | _ => false

/-- Out of the loop, with the stream still to be removed. -/
def AgentRelay.leaving (r : AgentRelay) : Bool :=
  match r.pc with
  | .relaying _ => !r.pump.running
  | _ => false

/-- The relay is behind the removal of its stream. -/
def AgentRelay.removed (r : AgentRelay) : Bool :=
  match r.pc with
  | .closing _ | .ended _ => true
  | _ => false

namespace AgentHub

variable {s s' : AgentHub} {e : HubEvent}

/-! ## The slot -/

/-- The slot has the latest attached channel, unless some channel is just detaching. -/
def PointsAtLatest (s : AgentHub) : Prop :=
  (∀ c ∈ s.channels, c.pc ≠ .ended) →
    match s.channel with
    | some k => (∃ c, s.channels[k]? = some c ∧ c.attached = true) ∧
        ∀ j c, k < j → s.channels[j]? = some c → c.attached = false
    | none => ∀ c ∈ s.channels, c.attached = false

/-- The channel in the slot detaches only when no channel is attached. -/
def detachesLast (s : AgentHub) : HubEvent → Bool
  | .channel k .detach => s.channel ≠ some k || s.channels.all (!·.attached)
  | _ => true

/-- The channel in the slot is the newest of all, and has not detached. -/
def Newest (s : AgentHub) : Prop :=
  ∀ k, s.channel = some k → k + 1 = s.channels.length ∧
    ∃ c, s.channels[k]? = some c ∧ c.pc ≠ .detached

theorem Newest.step (h : Newest s) (hs : Step s e s') : Newest s' := by
  intro k hk
  cases hs with
  | accept => exact h k hk
  | @relay i r r' _ f =>
    simp only [apply_channel, apply_channels_length] at hk ⊢
    obtain ⟨hlast, -⟩ := h k hk
    have hlt : k < (s.apply i f).channels.length := by
      rw [apply_channels_length]
      omega
    obtain ⟨c, hc, hpc⟩ := channel_of_apply (List.getElem?_eq_getElem hlt)
    obtain ⟨-, c', hc', hne⟩ := h k hk
    cases hc.symm.trans hc'
    exact ⟨hlast, _, List.getElem?_eq_getElem hlt, by rwa [hpc]⟩
  | attach =>
    cases hk
    exact ⟨by simp, .start, by simp, by simp [HubChannel.start]⟩
  | frame =>
    rw [onFrame_channel] at hk
    rw [onFrame_channels]
    exact h k hk
  | @channel j c c' _ hj hs =>
    obtain ⟨hlast, d, hd, hne⟩ := h k hk
    refine ⟨by simpa using hlast, ?_⟩
    by_cases hjk : k = j
    · subst hjk
      exact ⟨c', Table.set_self hj, (HubChannel.of_step hs).2.2.1⟩
    · exact ⟨d, by simpa [List.getElem?_set_ne (Ne.symm hjk)] using hd, hne⟩
  | @detach j c hj =>
    by_cases hslot : s.channel = some j
    · simp [hslot] at hk
    · simp only [hslot, if_false] at hk
      obtain ⟨hlast, d, hd, hne⟩ := h k hk
      have hjk : j ≠ k := by
        rintro rfl
        exact hslot hk
      exact ⟨by simpa using hlast, d, by simpa [List.getElem?_set_ne hjk] using hd, hne⟩

theorem newest_under {C : AgentHub → HubEvent → Prop} (h : machine.Under C s) : Newest s := by
  refine h.invariant ?_ fun s e s' hn _ hs => hn.step (.of_step hs)
  intro s hs k hk
  rw [hs] at hk
  cases hk

/-- With an empty slot no channel is attached. -/
def Alone (s : AgentHub) : Prop := s.channel = none → ∀ c ∈ s.channels, c.attached = false

theorem Alone.step (h : Alone s) (hc : s.detachesLast e = true) (hs : Step s e s') : Alone s' := by
  intro hslot c hmem
  obtain ⟨k, hk⟩ := List.mem_iff_getElem?.mp hmem
  cases hs with
  | accept => exact h hslot c hmem
  | relay =>
    rw [apply_channel] at hslot
    obtain ⟨d, hd, hpc⟩ := channel_of_apply hk
    have hd' := h hslot d (List.mem_of_getElem? hd)
    simpa [HubChannel.attached, hpc] using hd'
  | attach => cases hslot
  | frame =>
    rw [onFrame_channel] at hslot
    rw [onFrame_channels] at hmem
    exact h hslot c hmem
  | channel hj hs =>
    -- Only an attached channel takes such a step, and there is none.
    have hd := h hslot _ (List.mem_of_getElem? hj)
    rw [(HubChannel.of_step hs).1] at hd
    cases hd
  | @detach j d hj =>
    obtain ⟨-, rfl⟩ | ⟨-, hk⟩ := Table.of_set hk
    · rfl
    have hmem := List.mem_of_getElem? hk
    by_cases hmine : s.channel = some j
    · simp only [detachesLast, hmine, ne_eq, not_true_eq_false, decide_false, Bool.false_or,
        List.all_eq_true, Bool.not_eq_true'] at hc
      exact hc c hmem
    · simp only [hmine, if_false] at hslot
      exact h hslot c hmem

theorem pointsAtLatest_of (hn : Newest s) (ha : Alone s) : PointsAtLatest s := by
  intro hdone
  cases hslot : s.channel with
  | none => exact ha hslot
  | some k =>
    obtain ⟨hlast, c, hc, hne⟩ := hn k hslot
    refine ⟨⟨c, hc, ?_⟩, fun j d hj hd => ?_⟩
    · have hended := hdone c (List.mem_of_getElem? hc)
      cases hp : c.pc <;> simp_all [HubChannel.attached]
    · have := Table.lt_of_getElem? hd
      omega

/-- **The hub points at the latest attached channel**, if the one in the slot only detaches as the
last of them. -/
theorem points_at_latest (h : machine.Under (fun s e => s.detachesLast e = true) s) :
    PointsAtLatest s := by
  refine pointsAtLatest_of (newest_under h) ?_
  refine h.invariant ?_ fun s e s' ha hc hs => ha.step hc (.of_step hs)
  intro s hs _ c hc
  rw [hs] at hc
  cases hc

/-- And not otherwise: an older channel that is still attached is forgotten. -/
theorem not_pointsAtLatest_of_detach (hc : s.detachesLast e = false) (hs : Step s e s')
    (hdone : ∀ c ∈ s'.channels, c.pc ≠ .ended) : ¬ PointsAtLatest s' := by
  cases hs with
  | @detach k c hk hp =>
    simp only [detachesLast, Bool.or_eq_false_iff, decide_eq_false_iff_not, ne_eq, not_not,
      List.all_eq_false, Bool.not_eq_true, Bool.not_eq_false'] at hc
    obtain ⟨hslot, d, hd, hattached⟩ := hc
    intro hlatest
    have hnone := hlatest hdone
    simp only [hslot, if_true] at hnone
    obtain ⟨j, hj⟩ := List.mem_iff_getElem?.mp hd
    have hjk : k ≠ j := by
      rintro rfl
      cases hk.symm.trans hj
      simp [HubChannel.attached, hp] at hattached
    have hmem : d ∈ s.channels.set k { c with pc := .detached } :=
      List.mem_of_getElem? (by rw [List.getElem?_set_ne hjk]; exact hj)
    rw [hnone d hmem] at hattached
    cases hattached
  | @channel _ _ _ e _ hs =>
    have hne := (HubChannel.of_step hs).2.1
    cases e with
    | detach => exact absurd rfl hne
    | _ => simp [detachesLast] at hc
  | _ => simp [detachesLast] at hc

/-- A client attaches, another one replaces it, and the first one leaves. -/
def replacedRun : List HubEvent := [.attach, .attach, .channel 0 .closed, .channel 0 .detach]

def replaced : AgentHub := (machine.runIf detachesLast start replacedRun).get (by decide)

theorem replaced_points_at_latest :
    machine.Under (fun s e => s.detachesLast e = true) replaced ∧ replaced.channel = some 1 ∧
    replaced.channels.map (·.pc) = [.detached, .select] ∧ PointsAtLatest replaced := by
  have hunder : machine.Under (fun s e => s.detachesLast e = true) replaced :=
    Machine.under_of_runIf (.init rfl) (Option.some_get _).symm
  exact ⟨hunder, by decide, by decide, points_at_latest hunder⟩

/-- Two clients attach, and the second one leaves first. -/
def forgottenRun : List HubEvent := [.attach, .attach, .channel 1 .closed, .channel 1 .detach]

def forgotten : AgentHub := (machine.run start forgottenRun).get (by decide)

/-- The first one is still attached, and no request finds it. -/
theorem older_channel_is_forgotten :
    machine.Reachable forgotten ∧ forgotten.channel = none ∧
    forgotten.channels.map (·.pc) = [.select, .detached] ∧ ¬ PointsAtLatest forgotten := by
  refine ⟨Machine.reachable_of_run rfl (Option.some_get _).symm, by decide, by decide, ?_⟩
  intro hlatest
  have hattached : ∀ c ∈ forgotten.channels, c.attached = false := hlatest (by decide)
  exact absurd hattached (by decide)

/-! ## Streams and their channels -/

/-- The stream that a message belongs to, if it has to be announced before. -/
def follows : Msg → Option Nat
  | .agentData id _ | .agentClose id => some id
  | _ => none

/-- Every message of a stream comes after the stream's `AgentOpen`. -/
def Announced (log : List Msg) : Prop :=
  ∀ n m id, log[n]? = some m → follows m = some id → .agentOpen id ∈ log.take n

/-- Streams belong to the channel that they were opened on. -/
structure StreamsStay (s : AgentHub) : Prop where
  announced : ∀ k, Announced (s.log k)
  gone : ∀ k c i r, s.channels[k]? = some c → c.pc = .detached → s.relays[i]? = some r →
    r.channel = some k → s.registered i r = false

/-- The program has hung up, or its connection has failed. -/
def hungUp (es : List HubEvent) (i : Nat) : Bool :=
  es.any fun e => e = .relay i (.io .readEnd) || e = .relay i (.io .writeFailed)

/-- A client closes the stream. -/
def closes (id : Nat) : HubEvent → Bool
  | .channel _ (.frame m) => m = .agentClose id
  | _ => false

/-- A client has closed the stream since it was announced. -/
def closedByClient (es : List HubEvent) (i id : Nat) : Bool :=
  (es.dropWhile (· ≠ .relay i .sendOpen)).any (closes id)

/-- What has happened to the stream ends it: a client has closed it, or its program has hung up, and
the relay is not just on its way out. -/
def hasEnded (es : List HubEvent) (i : Nat) (r : AgentRelay) : Bool :=
  r.pc.id?.any (closedByClient es i) || hungUp es i && !r.leaving

/-- A channel attaches only while no stream is open, and detaches only after every stream that was
opened on it has ended. -/
def undisturbed (x : List HubEvent × AgentHub) : HubEvent → Bool
  | .attach => x.2.relays.all (!·.isOpen)
  | .channel k .detach =>
    x.2.relays.zipIdx.all fun ri => ri.1.channel ≠ some k || hasEnded x.1 ri.2 ri.1
  | _ => true

variable {es : List HubEvent}

theorem announced_concat {log : List Msg} {m : Msg} (h : Announced log)
    (hm : ∀ id, follows m = some id → .agentOpen id ∈ log) : Announced (log ++ [m]) := by
  intro n m' id hn hid
  rcases Table.of_concat hn with hn | ⟨rfl, rfl⟩
  · rw [List.take_append_of_le_length (Nat.le_of_lt (Table.lt_of_getElem? hn))]
    exact h n m' id hn hid
  · rw [List.take_left]
    exact hm id hid

/-- Streams that are open were announced on the channel in the slot, if there is one. -/
structure OnSlot (s : AgentHub) : Prop extends StreamsStay s where
  opened : ∀ (i : Nat) (r : AgentRelay), s.relays[i]? = some r → r.isOpen = true →
    ∃ k id, r.pc.id? = some id ∧ r.channel = some k ∧ .agentOpen id ∈ s.log k ∧
      (s.channel = some k ∨ s.channel = none)
  unopened : ∀ (i : Nat) (r : AgentRelay), s.relays[i]? = some r → r.unannounced = true →
    r.channel = none

section

variable {i : Nat} {r r' : AgentRelay} {ev : RelayEvent} {f : HubEffect} {m : Msg} {id : Nat}

/-- Only an open stream sends messages that have to be announced. -/
theorem isOpen_of_send
    (hs : AgentRelay.Step s.channel s.nextId (s.registered i r) r ev r' (.send m))
    (hm : follows m = some id) : r.isOpen = true ∧ r.pc.id? = some id := by
  cases hs with
  | sendOpen => cases hm
  | sendData hp =>
    cases hm
    simp [AgentRelay.isOpen, hp, RelayPc.id?]
  | sendClose hp =>
    cases hm
    simp [AgentRelay.isOpen, hp, RelayPc.id?]

/-- A stream gets its channel when it is announced, and keeps its id from then on. -/
theorem channel_of_step
    (hs : AgentRelay.Step s.channel s.nextId (s.registered i r) r ev r' f) :
    r.unannounced = true ∧ r'.channel = r.channel ∧ r'.isOpen = false ∨
    (∃ k id, s.channel = some k ∧ r'.channel = some k ∧ r'.pc = .relaying id ∧
      f = .send (.agentOpen id)) ∨
    r'.channel = r.channel ∧ r'.pc.id? = r.pc.id? ∧ (r'.isOpen = true → r.isOpen = true) ∧
      r'.unannounced = false ∧ ∀ id, f ≠ .insert id := by
  cases hs with
  | sendOpen hp hc => exact .inr (.inl ⟨_, _, hc, rfl, rfl, rfl⟩)
  | attached hp => exact .inl ⟨by simp [AgentRelay.unannounced, hp], rfl, rfl⟩
  | timedOut hp => exact .inl ⟨by simp [AgentRelay.unannounced, hp], rfl, rfl⟩
  | number hp => exact .inl ⟨by simp [AgentRelay.unannounced, hp], rfl, rfl⟩
  | register hp => exact .inl ⟨by simp [AgentRelay.unannounced, hp], rfl, rfl⟩
  | notOpened hp => exact .inl ⟨by simp [AgentRelay.unannounced, hp], rfl, rfl⟩
  | _ hp =>
    right; right
    simp [AgentRelay.unannounced, AgentRelay.isOpen, RelayPc.id?, hp]

/-- Where a relay's step puts a message, if it sends one. -/
theorem log_of_apply (hn : Newest s) (k : Nat) :
    (s.apply i f).log k = s.log k ∨
      ∃ m, f = .send m ∧ s.channel = some k ∧ (s.apply i f).log k = s.log k ++ [m] := by
  by_cases hslot : s.channel = some k
  · cases f with
    | send m =>
      obtain ⟨hlast, -⟩ := hn k hslot
      exact .inr ⟨m, rfl, hslot, log_send hslot (by omega)⟩
    | _ => exact .inl rfl
  · exact .inl (log_apply_of_ne hslot)

theorem mem_log_apply (hn : Newest s) {k : Nat} (h : m ∈ s.log k) : m ∈ (s.apply i f).log k := by
  rcases log_of_apply (i := i) (f := f) hn k with heq | ⟨m', -, -, heq⟩
  · rwa [heq]
  · rw [heq]
    exact List.mem_append_left _ h

end

theorem OnSlot.announced_relay (h : OnSlot s) (hn : Newest s) {i : Nat} {r r' : AgentRelay}
    {ev : RelayEvent} {f : HubEffect} (hr : s.relays[i]? = some r)
    (hs : AgentRelay.Step s.channel s.nextId (s.registered i r) r ev r' f) (k : Nat) :
    Announced ((s.apply i f).log k) := by
  rcases log_of_apply (i := i) (f := f) hn k with heq | ⟨m, rfl, hslot, heq⟩
  · rw [heq]
    exact h.announced k
  · rw [heq]
    refine announced_concat (h.announced k) fun id hid => ?_
    obtain ⟨hopen, hid⟩ := isOpen_of_send hs hid
    obtain ⟨j, id', hid', -, hmem, hj⟩ := h.opened i r hr hopen
    cases hid.symm.trans hid'
    rw [hslot] at hj
    cases hj with
    | inl hj => cases hj; exact hmem
    | inr hj => cases hj

theorem OnSlot.relay (h : OnSlot s) (hn : Newest s) {i : Nat} {r r' : AgentRelay}
    {ev : RelayEvent} {f : HubEffect} (hr : s.relays[i]? = some r)
    (hs : AgentRelay.Step s.channel s.nextId (s.registered i r) r ev r' f) :
    OnSlot { s.apply i f with relays := s.relays.set i r' } where
  announced := h.announced_relay hn hr hs
  gone := by
    intro k c' j q hc' hdet hq hchan
    by_contra hreg
    rw [Bool.not_eq_false] at hreg
    obtain ⟨id, hid, hstream⟩ := registered_iff.mp hreg
    obtain ⟨c, hc, hpc⟩ := channel_of_apply hc'
    rw [hpc] at hdet
    rcases Table.of_set hq with ⟨rfl, rfl⟩ | ⟨hne, hq⟩
    · rcases channel_of_step hs with ⟨hun, hsame, -⟩ | ⟨k', -, hslot, hk', -⟩ |
        ⟨hsame, hid', -, -, hf⟩
      · rw [hsame, h.unopened j r hr hun] at hchan
        cases hchan
      · -- It was announced to the channel in the slot, which has not detached.
        cases hchan.symm.trans hk'
        obtain ⟨-, d, hd, hne⟩ := hn k hslot
        cases hc.symm.trans hd
        exact hne hdet
      · rcases streams_of_apply hstream with hold | ⟨-, hins⟩
        · have hreg := registered_iff.mpr ⟨id, hid' ▸ hid, hold⟩
          rw [h.gone k c j r hc hdet hr (hsame ▸ hchan)] at hreg
          cases hreg
        · exact hf id hins
    · rcases streams_of_apply hstream with hold | ⟨hji, -⟩
      · have hreg := registered_iff.mpr ⟨id, hid, hold⟩
        rw [h.gone k c j q hc hdet hq hchan] at hreg
        cases hreg
      · exact hne hji
  opened := by
    intro j q hq hopen
    simp only [apply_channel]
    rcases Table.of_set hq with ⟨rfl, rfl⟩ | ⟨-, hq⟩
    · rcases channel_of_step hs with ⟨-, -, hclosed⟩ | ⟨k, id, hslot, hk, hpc, rfl⟩ |
        ⟨hsame, hid, hwas, -, -⟩
      · rw [hclosed] at hopen
        cases hopen
      · refine ⟨k, id, by rw [hpc]; rfl, hk, ?_, .inl hslot⟩
        obtain ⟨hlast, -⟩ := hn k hslot
        have hmem : .agentOpen id ∈ (s.apply j (.send (.agentOpen id))).log k := by
          rw [log_send hslot (by omega)]
          exact List.mem_append_right _ (List.mem_singleton_self _)
        exact hmem
      · obtain ⟨k, id, hid', hk, hmem, hslot⟩ := h.opened j r hr (hwas hopen)
        exact ⟨k, id, by rw [hid, hid'], by rw [hsame, hk], mem_log_apply hn hmem, hslot⟩
    · obtain ⟨k, id, hid, hk, hmem, hslot⟩ := h.opened j q hq hopen
      exact ⟨k, id, hid, hk, mem_log_apply hn hmem, hslot⟩
  unopened := by
    intro j q hq hun
    rcases Table.of_set hq with ⟨rfl, rfl⟩ | ⟨-, hq⟩
    · rcases channel_of_step hs with ⟨hun', hsame, -⟩ | ⟨k, id, -, -, hpc, -⟩ | ⟨-, -, -, hnot, -⟩
      · rw [hsame, h.unopened j r hr hun']
      · simp [AgentRelay.unannounced, hpc] at hun
      · rw [hnot] at hun
        cases hun
    · exact h.unopened j q hq hun

theorem OnSlot.accept (h : OnSlot s) : OnSlot { s with relays := s.relays ++ [.start] } where
  announced := h.announced
  gone := by
    intro k c i r hc hdet hr hchan
    rcases Table.of_concat hr with hr | ⟨-, rfl⟩
    · exact h.gone k c i r hc hdet hr hchan
    · cases hchan
  opened := by
    intro i r hr hopen
    rcases Table.of_concat hr with hr | ⟨-, rfl⟩
    · exact h.opened i r hr hopen
    · cases hopen
  unopened := by
    intro i r hr hun
    rcases Table.of_concat hr with hr | ⟨-, rfl⟩
    · exact h.unopened i r hr hun
    · rfl

theorem OnSlot.attach (h : OnSlot s) (hc : undisturbed (es, s) .attach = true) :
    OnSlot { s with channel := some s.channels.length, channels := s.channels ++ [.start] } where
  announced k := by
    rw [log_attach]
    exact h.announced k
  gone := by
    intro k c i r hc hdet hr hchan
    rcases Table.of_concat hc with hc | ⟨-, rfl⟩
    · exact h.gone k c i r hc hdet hr hchan
    · cases hdet
  opened := by
    intro i r hr hopen
    simp only [undisturbed, List.all_eq_true, Bool.not_eq_true'] at hc
    rw [hc r (List.mem_of_getElem? hr)] at hopen
    cases hopen
  unopened := h.unopened

theorem OnSlot.frame (h : OnSlot s) (m : Msg) : OnSlot (s.onFrame m) := by
  -- A message may push into an inbox, and leaves everything else of a relay alone.
  have hback : ∀ {i : Nat} {r : AgentRelay}, (s.onFrame m).relays[i]? = some r →
      ∃ q, s.relays[i]? = some q ∧ r.pc = q.pc ∧ r.channel = q.channel := by
    intro i r hr
    obtain ⟨q, hq, ⟨rfl, -⟩ | ⟨id, data, -, -, rfl⟩⟩ := relay_of_onFrame hr
    · exact ⟨r, hq, rfl, rfl⟩
    · exact ⟨q, hq, rfl, rfl⟩
  refine { announced := fun k => ?_, gone := ?_, opened := ?_, unopened := ?_ }
  · rw [log_onFrame]
    exact h.announced k
  · intro k c i r hc hdet hr hchan
    obtain ⟨q, hq, hpc, hch⟩ := hback hr
    rw [onFrame_channels] at hc
    by_contra hreg
    rw [Bool.not_eq_false] at hreg
    obtain ⟨id, hid, hstream⟩ := registered_iff.mp hreg
    have hreg := registered_iff.mpr ⟨id, hpc ▸ hid, streams_of_onFrame hstream⟩
    rw [h.gone k c i q hc hdet hq (hch ▸ hchan)] at hreg
    cases hreg
  · intro i r hr hopen
    obtain ⟨q, hq, hpc, hch⟩ := hback hr
    obtain ⟨k, id, hid, hk, hmem, hslot⟩ :=
      h.opened i q hq (by simpa [AgentRelay.isOpen, hpc] using hopen)
    exact ⟨k, id, hpc ▸ hid, hch ▸ hk, by rwa [log_onFrame], by rwa [onFrame_channel]⟩
  · intro i r hr hun
    obtain ⟨q, hq, hpc, hch⟩ := hback hr
    rw [hch]
    exact h.unopened i q hq (by simpa [AgentRelay.unannounced, hpc] using hun)

theorem OnSlot.channel (h : OnSlot s) {k : Nat} {c c' : HubChannel} {ev : ChannelEvent}
    (hk : s.channels[k]? = some c) (hs : c.step ev = some c') :
    OnSlot { s with channels := s.channels.set k c' } := by
  obtain ⟨-, -, hdet, hqueued⟩ := HubChannel.of_step hs
  have hlog := log_set s.channel hk hqueued
  refine { announced := fun j => ?_, gone := ?_, opened := ?_, unopened := h.unopened }
  · exact hlog j ▸ h.announced j
  · intro j d i r hd hdet' hr hchan
    rcases Table.of_set hd with ⟨-, rfl⟩ | ⟨-, hd⟩
    · exact absurd hdet' hdet
    · exact h.gone j d i r hd hdet' hr hchan
  · intro i r hr hopen
    obtain ⟨j, id, hid, hj, hmem, hslot⟩ := h.opened i r hr hopen
    exact ⟨j, id, hid, hj, hlog j ▸ hmem, hslot⟩

theorem OnSlot.detach (h : OnSlot s) {k : Nat} {c : HubChannel} (hk : s.channels[k]? = some c)
    (hgone : ∀ (i : Nat) (r : AgentRelay), s.relays[i]? = some r → r.channel = some k →
      s.registered i r = false) :
    OnSlot { s with
      channel := if s.channel = some k then none else s.channel
      channels := s.channels.set k { c with pc := .detached } } := by
  have hlog := log_set (if s.channel = some k then none else s.channel) hk
    (rfl : ({ c with pc := .detached } : HubChannel).queued = c.queued)
  refine { announced := fun j => ?_, gone := ?_, opened := ?_, unopened := h.unopened }
  · exact hlog j ▸ h.announced j
  · intro j d i r hd hdet hr hchan
    rcases Table.of_set hd with ⟨rfl, rfl⟩ | ⟨-, hd⟩
    · exact hgone i r hr hchan
    · exact h.gone j d i r hd hdet hr hchan
  · intro i r hr hopen
    obtain ⟨j, id, hid, hj, hmem, hslot⟩ := h.opened i r hr hopen
    refine ⟨j, id, hid, hj, hlog j ▸ hmem, ?_⟩
    by_cases hmine : s.channel = some k
    · exact .inr (if_pos hmine)
    · simp only [hmine, if_false]
      exact hslot

/-! ## What the events say of the streams -/

theorem hungUp_concat (i : Nat) : hungUp (es ++ [e]) i = true ↔
    hungUp es i = true ∨ e = .relay i (.io .readEnd) ∨ e = .relay i (.io .writeFailed) := by
  simp [hungUp]

theorem sendOpen_of_closed {i id : Nat} (h : closedByClient es i id = true) :
    .relay i .sendOpen ∈ es := by
  by_contra hno
  have hall : ∀ e ∈ es, decide (e ≠ .relay i .sendOpen) = true := by
    intro e he
    exact decide_eq_true fun heq => hno (heq ▸ he)
  rw [closedByClient, List.dropWhile_eq_nil_iff.mpr hall] at h
  cases h

theorem closed_concat {i id : Nat} (h : closedByClient (es ++ [e]) i id = true) :
    closedByClient es i id = true ∨ closes id e = true := by
  unfold closedByClient at h ⊢
  rw [List.dropWhile_append] at h
  split_ifs at h
  · obtain ⟨e', he', hcloses⟩ := List.any_eq_true.mp h
    have hmem := List.mem_singleton.mp ((List.dropWhile_sublist _).subset he')
    exact .inr (hmem ▸ hcloses)
  · rw [List.any_append, Bool.or_eq_true, List.any_cons, List.any_nil, Bool.or_false] at h
    exact h

/-- Only an event of its own runs a relay's loop into its end, and it never runs again. -/
theorem stopped_of_step {channel : Option Nat} {nextId : Nat} {registered : Bool}
    {r r' : AgentRelay} {ev : RelayEvent} {f : HubEffect}
    (hs : AgentRelay.Step channel nextId registered r ev r' f)
    (h : r.pump.running = false ∨ ev = .io .readEnd ∨ ev = .io .writeFailed) :
    r'.pump.running = false := by
  cases hs with
  | io hp hio =>
    rcases h with h | h | h
    · rw [hio.running] at h
      cases h
    · cases h
      cases hio
      rfl
    · cases h
      cases hio
      rfl
  | sendData hp hh =>
    rcases h with h | h | h
    · rw [Pump.running_of_handing hh] at h
      cases h
    · cases h
    · cases h
  | inboxClosed => rfl
  | _ =>
    rcases h with h | h | h
    · exact h
    · cases h
    · cases h

/-- An announced stream is never registered again. -/
theorem announced_of_step {channel : Option Nat} {nextId : Nat} {registered : Bool}
    {r r' : AgentRelay} {ev : RelayEvent} {f : HubEffect}
    (hs : AgentRelay.Step channel nextId registered r ev r' f)
    (h : r.unannounced = false ∨ ev = .sendOpen) : r'.unannounced = false ∧
      (r.unannounced = false → r'.pc.id? = r.pc.id? ∧ ∀ id, f ≠ .insert id) := by
  cases hs with
  | sendOpen hp => simp [AgentRelay.unannounced, hp]
  | notOpened hp => simp [AgentRelay.unannounced, hp]
  | attached hp => simp [AgentRelay.unannounced, hp] at h
  | timedOut hp => simp [AgentRelay.unannounced, hp] at h
  | number hp => simp [AgentRelay.unannounced, hp] at h
  | register hp => simp [AgentRelay.unannounced, hp] at h
  | _ hp => simp [AgentRelay.unannounced, RelayPc.id?, hp]

/-- What stays registered across a step of relay `i`. -/
theorem registered_of_apply {i j : Nat} {f : HubEffect} {relays : List AgentRelay}
    {r q : AgentRelay} (hid : r.pc.id? = q.pc.id?) (hf : j = i → ∀ id, f ≠ .insert id)
    (h : ({ s.apply i f with relays := relays } : AgentHub).registered j r = true) :
    s.registered j q = true := by
  obtain ⟨id, hrid, hstream⟩ := registered_iff.mp h
  refine registered_iff.mpr ⟨id, hid ▸ hrid, ?_⟩
  rcases streams_of_apply hstream with hold | ⟨hji, hins⟩
  · exact hold
  · exact absurd hins (hf hji id)

/-- What has happened so far, as one relay shows it. -/
structure Past (es : List HubEvent) (s : AgentHub) (i : Nat) (r : AgentRelay) : Prop where
  hungUp : hungUp es i = true → r.pump.running = false
  announced : .relay i .sendOpen ∈ es → r.unannounced = false
  opened : r.channel ≠ none → r.isOpen = true ∨ r.removed = true
  removed : r.removed = true → s.registered i r = false
  closed : ∀ id, r.pc.id? = some id → closedByClient es i id = true → s.registered i r = false

theorem Past.unregistered {i : Nat} {r : AgentRelay} (h : Past es s i r) (hchan : r.channel ≠ none)
    (hc : hasEnded es i r = true) : s.registered i r = false := by
  rw [hasEnded, Bool.or_eq_true, Bool.and_eq_true, Bool.not_eq_true', Option.any_eq_true] at hc
  rcases hc with ⟨id, hid, hclosed⟩ | ⟨hhung, hleaving⟩
  · exact h.closed id hid hclosed
  · -- Its loop has ended, so it is behind the removal unless it is just on the way there.
    have hstopped := h.hungUp hhung
    refine h.removed ((h.opened hchan).elim (fun hopen => ?_) id)
    cases hp : r.pc with
    | relaying id => simp [AgentRelay.leaving, hp, hstopped] at hleaving
    | closing id => simp [AgentRelay.removed, hp]
    | _ => simp [AgentRelay.isOpen, hp] at hopen

theorem Past.keep {i : Nat} {r r' : AgentRelay} (h : Past es s i r)
    (he : ∀ ev, e ≠ .relay i ev) (hpc : r'.pc = r.pc) (hchan : r'.channel = r.channel)
    (hrun : r'.pump.running = r.pump.running)
    (hreg : s'.registered i r' = true → s.registered i r = true)
    (hcloses : ∀ id, closes id e = true → s'.streams id = none) : Past (es ++ [e]) s' i r' where
  hungUp hh := by
    rw [hrun]
    rcases (hungUp_concat i).mp hh with hh | hh | hh
    · exact h.hungUp hh
    · exact absurd hh (he _)
    · exact absurd hh (he _)
  announced hm := by
    rcases List.mem_append.mp hm with hm | hm
    · simpa [AgentRelay.unannounced, hpc] using h.announced hm
    · exact absurd (List.mem_singleton.mp hm).symm (he _)
  opened hc := by
    rw [hchan] at hc
    simpa [AgentRelay.isOpen, AgentRelay.removed, hpc] using h.opened hc
  removed hr := by
    have hno := h.removed (by simpa [AgentRelay.removed, hpc] using hr)
    exact Bool.eq_false_iff.mpr (mt hreg (Bool.eq_false_iff.mp hno))
  closed id hid hcl := by
    rcases closed_concat hcl with hcl | hcl
    · have hno := h.closed id (hpc ▸ hid) hcl
      exact Bool.eq_false_iff.mpr (mt hreg (Bool.eq_false_iff.mp hno))
    · refine Bool.eq_false_iff.mpr fun hreg' => ?_
      obtain ⟨id', hid', hstream⟩ := registered_iff.mp hreg'
      cases hid.symm.trans hid'
      rw [hcloses id hcl] at hstream
      cases hstream

theorem Past.move {i : Nat} {r r' : AgentRelay} {ev : RelayEvent} {f : HubEffect}
    (relays : List AgentRelay) (h : Past es s i r)
    (hs : AgentRelay.Step s.channel s.nextId (s.registered i r) r ev r' f) :
    Past (es ++ [.relay i ev]) { s.apply i f with relays := relays } i r' where
  hungUp hh := by
    refine stopped_of_step hs ?_
    rcases (hungUp_concat i).mp hh with hh | hh | hh
    · exact .inl (h.hungUp hh)
    · cases hh
      exact .inr (.inl rfl)
    · cases hh
      exact .inr (.inr rfl)
  announced hm := by
    refine (announced_of_step hs ?_).1
    rcases List.mem_append.mp hm with hm | hm
    · exact .inl (h.announced hm)
    · cases List.mem_singleton.mp hm
      exact .inr rfl
  opened hc := by
    cases hs with
    | sendOpen => exact .inl rfl
    | remove => exact .inl rfl
    | sendClose => exact .inr rfl
    | unregister => exact .inr rfl
    | timedOut => exact .inr rfl
    | io hp => exact .inl (by simp [AgentRelay.isOpen, hp])
    | sendData hp => exact .inl (by simp [AgentRelay.isOpen, hp])
    | inboxClosed hp => exact .inl (by simp [AgentRelay.isOpen, hp])
    | _ hp =>
      -- It has no channel yet.
      have hopened := h.opened hc
      simp [AgentRelay.isOpen, AgentRelay.removed, hp] at hopened
  removed hr := by
    cases hs with
    | timedOut => rfl
    | unregister => simp [registered, RelayPc.id?, apply]
    | remove => simp [registered, RelayPc.id?, apply]
    | sendClose hp =>
      have hno := h.removed (by simp [AgentRelay.removed, hp])
      exact Bool.eq_false_iff.mpr (mt
        (registered_of_apply (by simp [RelayPc.id?, hp]) fun _ _ hf => by cases hf)
        (Bool.eq_false_iff.mp hno))
    | io hp => simp [AgentRelay.removed, hp] at hr
    | sendData hp => simp [AgentRelay.removed, hp] at hr
    | inboxClosed hp => simp [AgentRelay.removed, hp] at hr
    | _ => cases hr
  closed id hid hcl := by
    rcases closed_concat hcl with hcl | hcl
    · -- A client closed it, so it was announced, and is not registered once more.
      have hun := h.announced (sendOpen_of_closed hcl)
      obtain ⟨hsame, hf⟩ := (announced_of_step hs (.inl hun)).2 hun
      have hno := h.closed id (hsame ▸ hid) hcl
      exact Bool.eq_false_iff.mpr (mt (registered_of_apply hsame fun _ => hf)
        (Bool.eq_false_iff.mp hno))
    · cases hcl

/-- What has happened so far shows in every relay, and only relays that are there have moved. -/
structure Known (es : List HubEvent) (s : AgentHub) : Prop where
  past : ∀ i r, s.relays[i]? = some r → Past es s i r
  lt : ∀ i ev, .relay i ev ∈ es → i < s.relays.length

theorem Known.lt_of_hungUp (h : Known es s) {i : Nat} (hh : hungUp es i = true) :
    i < s.relays.length := by
  obtain ⟨e, he, heq⟩ := List.any_eq_true.mp hh
  rw [Bool.or_eq_true, decide_eq_true_eq, decide_eq_true_eq] at heq
  rcases heq with rfl | rfl
  · exact h.lt i _ he
  · exact h.lt i _ he

/-- A connection that was just accepted has no past. -/
theorem Known.start (h : Known es s) (relays : List AgentRelay) :
    Past (es ++ [.accept]) { s with relays := relays } s.relays.length .start where
  hungUp hh := by
    rcases (hungUp_concat _).mp hh with hh | hh | hh
    · exact absurd (h.lt_of_hungUp hh) (Nat.lt_irrefl _)
    · cases hh
    · cases hh
  announced hm := by
    rcases List.mem_append.mp hm with hm | hm
    · exact absurd (h.lt _ _ hm) (Nat.lt_irrefl _)
    · cases List.mem_singleton.mp hm
  opened hc := absurd rfl hc
  removed hr := by cases hr
  closed id hid := by cases hid

theorem Known.step (h : Known es s) (hs : Step s e s') : Known (es ++ [e]) s' where
  past := by
    cases hs with
    | accept =>
      refine Table.forall_concat (fun i r hr => ?_) (h.start _)
      exact (h.past i r hr).keep (fun _ => nofun) rfl rfl rfl id (fun _ => nofun)
    | @relay i r r' ev f hr hs =>
      intro j q hq
      rcases Table.of_set hq with ⟨rfl, rfl⟩ | ⟨hne, hq⟩
      · exact (h.past j r hr).move _ hs
      · refine (h.past j q hq).keep (fun ev' heq => ?_) rfl rfl rfl ?_ (fun _ => nofun)
        · cases heq
          exact hne rfl
        · exact registered_of_apply rfl fun hji => absurd hji hne
    | attach =>
      intro i r hr
      exact (h.past i r hr).keep (fun _ => nofun) rfl rfl rfl id (fun _ => nofun)
    | @frame k c m hk =>
      intro i r' hr'
      have hreg : ∀ r : AgentRelay, r'.pc = r.pc →
          (s.onFrame m).registered i r' = true → s.registered i r = true := by
        intro r hpc hreg
        obtain ⟨id, hid, hstream⟩ := registered_iff.mp hreg
        exact registered_iff.mpr ⟨id, hpc ▸ hid, streams_of_onFrame hstream⟩
      have hcloses : ∀ id, closes id (.channel k (.frame m)) = true →
          (s.onFrame m).streams id = none := by
        intro id hm
        cases of_decide_eq_true hm
        exact Function.update_self ..
      obtain ⟨r, hr, ⟨rfl, -⟩ | ⟨id, data, -, -, rfl⟩⟩ := relay_of_onFrame hr'
      · exact (h.past i r' hr).keep (fun _ => nofun) rfl rfl rfl (hreg r' rfl) hcloses
      · exact (h.past i r hr).keep (fun _ => nofun) rfl rfl rfl (hreg r rfl) hcloses
    | @channel k c c' ev hk hs =>
      intro i r hr
      refine (h.past i r hr).keep (fun _ => nofun) rfl rfl rfl id fun id hcl => ?_
      cases ev with
      | frame =>
        rw [HubChannel.step_frame] at hs
        cases hs
      | _ => cases hcl
    | detach =>
      intro i r hr
      exact (h.past i r hr).keep (fun _ => nofun) rfl rfl rfl id (fun _ => nofun)
  lt i ev hm := by
    rcases List.mem_append.mp hm with hm | hm
    · exact Nat.lt_of_lt_of_le (h.lt i ev hm) (relays_length_le hs)
    · cases List.mem_singleton.mp hm
      cases hs with
      | relay hr => simpa using Table.lt_of_getElem? hr

theorem Known.unregistered (h : Known es s) {k : Nat}
    (hc : undisturbed (es, s) (.channel k .detach) = true) (i : Nat) (r : AgentRelay)
    (hr : s.relays[i]? = some r) (hchan : r.channel = some k) : s.registered i r = false := by
  simp only [undisturbed, List.all_eq_true, Bool.or_eq_true, decide_eq_true_eq, ne_eq] at hc
  rcases hc (r, i) (List.mem_zipIdx_iff_getElem?.mpr hr) with hne | hended
  · exact absurd hchan hne
  · exact (h.past i r hr).unregistered (by simp [hchan]) hended

theorem OnSlot.step (h : OnSlot s) (hn : Newest s) (hk : Known es s)
    (hc : undisturbed (es, s) e = true) (hs : Step s e s') : OnSlot s' := by
  cases hs with
  | accept => exact h.accept
  | relay hr hs => exact h.relay hn hr hs
  | attach => exact h.attach hc
  | frame => exact h.frame _
  | channel hk hs => exact h.channel hk hs
  | detach hc' => exact h.detach hc' (hk.unregistered hc)

theorem onSlot_under {x : List HubEvent × AgentHub}
    (h : machine.traced.Under (fun x e => undisturbed x e = true) x) :
    Newest x.2 ∧ Known x.1 x.2 ∧ OnSlot x.2 := by
  refine h.invariant (P := fun x => Newest x.2 ∧ Known x.1 x.2 ∧ OnSlot x.2) ?_ ?_
  · rintro ⟨es, s⟩ ⟨rfl, rfl⟩
    refine ⟨fun k hk => (by cases hk), ⟨fun i r hr => (by cases hr), fun i ev he => (by cases he)⟩,
      ?_⟩
    exact {
      announced := fun k n m id hn => by cases hn
      gone := fun k c i r hc => by cases hc
      opened := fun i r hr => by cases hr
      unopened := fun i r hr => by cases hr }
  · rintro ⟨es, s⟩ e x' ⟨hn, hk, hon⟩ hc hs
    obtain ⟨s', hstep, rfl⟩ := Option.map_eq_some_iff.mp hs
    have hstep := Step.of_step hstep
    exact ⟨hn.step hstep, hk.step hstep, hon.step hn hk hc hstep⟩

/-- **Streams stay on the channel that they were opened on**, if channels attach only while no
stream is open, and go only after the streams that were opened on them have ended. -/
theorem streams_stay_on_channel {x : List HubEvent × AgentHub}
    (h : machine.traced.Under (fun x e => undisturbed x e = true) x) : StreamsStay x.2 :=
  (onSlot_under h).2.2.toStreamsStay

/-- A program connects while a client is attached. -/
def connects (i : Nat) : List HubEvent :=
  [.accept, .relay i .attached, .relay i .number, .relay i .register, .relay i .sendOpen]

/-- It sends a request and hangs up. -/
def asks (i : Nat) : List HubEvent :=
  [.relay i (.io (.read [11])), .relay i .sendData, .relay i (.io .readEnd), .relay i .remove,
    .relay i .sendClose]

/-- The client closes the stream and drops before the program's connection is closed. Then another
client takes its place. -/
def reattachRun : List HubEvent :=
  .attach :: connects 0 ++ asks 0 ++ connects 1 ++
    [.relay 1 (.io (.read [12])), .relay 1 .sendData, .channel 0 (.frame (.agentData 2 [13])),
      .channel 0 (.frame (.agentClose 2)), .channel 0 .closed, .channel 0 .detach,
      .relay 1 (.io .take), .relay 1 (.io (.wrote 1)), .relay 1 .inboxClosed, .relay 1 .remove,
      .relay 1 .sendClose, .attach] ++ connects 2 ++ asks 2

def reattached : List HubEvent × AgentHub :=
  (machine.traced.runIf undisturbed ([], start) reattachRun).get (by decide)

theorem reattached_streams_stay :
    machine.traced.Under (fun x e => undisturbed x e = true) reattached ∧
    reattached.2.log 0 = [.agentOpen 1, .agentData 1 [11], .agentClose 1, .agentOpen 2,
      .agentData 2 [12]] ∧
    reattached.2.log 1 = [.agentOpen 3, .agentData 3 [11], .agentClose 3] ∧
    StreamsStay reattached.2 := by
  have hinit : machine.traced.init ([], start) := ⟨rfl, rfl⟩
  have hunder : machine.traced.Under (fun x e => undisturbed x e = true) reattached :=
    Machine.under_of_runIf (.init hinit) (Option.some_get _).symm
  exact ⟨hunder, by decide, by decide, streams_stay_on_channel hunder⟩

/-- A second client attaches while a program is connected. -/
def strayRun : List HubEvent := .attach :: connects 0 ++ [.attach] ++ asks 0

def stray : AgentHub := (machine.run start strayRun).get (by decide)

/-- The only client drops while a program waits for its answer. -/
def outlivedRun : List HubEvent :=
  .attach :: connects 0 ++ [.channel 0 .closed, .channel 0 .detach]

def outlived : AgentHub := (machine.run start outlivedRun).get (by decide)

/-- The request goes to a client that was never told of the stream, and the stream of a client
that is gone stays registered. -/
theorem streams_outlive_channel :
    (machine.Reachable stray ∧ stray.log 1 = [.agentData 1 [11], .agentClose 1] ∧
      ¬ StreamsStay stray) ∧
    (machine.Reachable outlived ∧ outlived.streams 1 = some 0 ∧ outlived.channel = none ∧
      ¬ StreamsStay outlived) := by
  refine ⟨⟨Machine.reachable_of_run rfl (Option.some_get _).symm, by decide, fun h => ?_⟩,
    ⟨Machine.reachable_of_run rfl (Option.some_get _).symm, by decide, by decide, fun h => ?_⟩⟩
  · have hmem := h.announced 1 0 (.agentData 1 [11]) 1 (by decide) rfl
    exact absurd hmem (by decide)
  · have hreg := h.gone 0 ⟨.detached, [.agentOpen 1], 0⟩ 0 ⟨.relaying 1, .start, some 0⟩
      (by decide) rfl (by decide) rfl
    exact absurd hreg (by decide)

end AgentHub

end HerdrEternal
