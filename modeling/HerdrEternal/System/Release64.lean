import HerdrEternal.Lib.Counter
import HerdrEternal.System.Replay
import HerdrEternal.System.StdinDelivery

/-!
# The release build's sequence numbers

The runs modelled so far count in `Nat`. In the code the numbers are `u64`, a peer may send any of
them, and a release build adds modulo 2^64. Here are the steps of the code that add to a sequence
number, on `u64`: `Session.taskStep64`, `Attach.step64` and `Client.step64`. Beside each of them,
`additions` lists the additions it evaluates, and `applied` and `written` name the number it takes.

**Refinement.** `below` says of a state that the last number taken is not the maximum when a
message comes that is compared to its successor. Below the maximum a step of the release build is a
step in `Nat` (`taskStep64_eq`, `Serving.step64_eq`, `Client.step64_eq`), and otherwise it overflows
(`fits_iff_below`). The positions in a log of `u64` numbers never overflow: trimming stops at the
number acknowledged, and a replay pass ends within the history (`Attach.Room`).
-/

namespace HerdrEternal

/-! ## Decoded messages -/

/-- The numbers of a message are `u64`. -/
def ChannelMessage.is64 : Msg → Bool
  | .stdin seq _ | .stdinEof seq | .stdout seq _ | .stderr seq _ | .exit seq _ | .ack seq
  | .agentOpen seq | .agentData seq _ | .agentClose seq => decide (seq < 2 ^ 64)
  | .started _ | .denied _ => true

def AttachEvent.is64 : AttachEvent → Bool
  | .frame m | .datagram m => m.is64
  | _ => true

def ClientEvent.is64 : ClientEvent → Bool
  | .frame m | .datagram m => m.is64
  | _ => true

def ServingLabel.is64 : ServingLabel → Bool
  | .attach _ _ lastSeqSeen => decide (lastSeqSeen < 2 ^ 64)
  | .conn _ e => e.is64
  | _ => true

def SessionInput.is64 : SessionInput → Bool
  | .message m | .datagram m => m.is64
  | .abort | .handover => true

/-- The addition `n + 1`. -/
def next64 (n : Nat) : Addition := ⟨n, 1, 2 ^ 64⟩

/-! ## The release build -/

namespace SessionInput

/-- The number of an input that the task applies. -/
def applied (last : Nat) : SessionInput → Option Nat
  | .message (.stdin seq _) | .message (.stdinEof seq) =>
    if acceptStream seq last then some seq else none
  | .datagram (.stdin seq _) =>
    if acceptDatagram (UInt64.ofNat seq) (UInt64.ofNat last) then some seq else none
  | _ => none

def additions (last : Nat) : SessionInput → List Addition
  | .datagram (.stdin _ _) => [next64 last]
  | _ => []

/-- No Stdin datagram once the last number is the maximum. -/
def below (last : Nat) : SessionInput → Bool
  | .datagram (.stdin _ _) => decide (last < 2 ^ 64 - 1)
  | _ => true

end SessionInput

namespace Session

/-- The input branch. -/
def onInput64 (s : Session) : SessionInput → Session
  | .datagram (.stdin seq data) =>
    if acceptDatagram (UInt64.ofNat seq) (UInt64.ofNat s.task.lastClientSeq) then
      s.applyStdin seq data
    else s.endOfLoop
  | input => s.onInput input

/-- One step of `session_task`. -/
def taskStep64 (s : Session) (e : TaskEvent) : Option Session :=
  match s.task.phase, e, s.inbound with
  | .select, .recv, input :: rest => some ({ s with inbound := rest }.onInput64 input)
  | _, _, _ => s.taskStep e

/-- The input that a step of the task takes. -/
def taking (s : Session) (e : TaskEvent) : Option SessionInput :=
  match s.task.phase, e with
  | .select, .recv => s.inbound.head?
  | _, _ => none

def applied (s : Session) (e : TaskEvent) : Option Nat :=
  (s.taking e).bind (·.applied s.task.lastClientSeq)

def additions (s : Session) (e : TaskEvent) : List Addition :=
  (s.taking e).toList.flatMap (·.additions s.task.lastClientSeq)

def below (s : Session) (e : TaskEvent) : Bool := (s.taking e).all (·.below s.task.lastClientSeq)

end Session

namespace OutboundLog

/-- The loop of `trim`. -/
def trimLoop64 (seq : UInt64) : List Msg → UInt64 → List Msg × UInt64
  | [], trimmed => ([], trimmed)
  | m :: buffer, trimmed =>
    if trimmed < seq then trimLoop64 seq buffer (trimmed + 1) else (m :: buffer, trimmed)

def trim64 (l : OutboundLog) (seq : Nat) : OutboundLog :=
  let (buffer, trimmed) := trimLoop64 (UInt64.ofNat seq) l.buffer (UInt64.ofNat l.trimmed)
  { l with buffer := buffer, trimmed := trimmed.toNat }

/-- The additions of the loop. -/
def trimAdditions (seq : Nat) : List Msg → Nat → List Addition
  | [], _ => []
  | _ :: buffer, trimmed =>
    if trimmed < seq then next64 trimmed :: trimAdditions seq buffer (next64 trimmed).wrapped
    else []

end OutboundLog

namespace Attach

/-- One step of `attach`. -/
def step64 (quic : Bool) (a : Attach) (s : Session) (e : AttachEvent) : Option (Attach × Session) :=
  match a.pc, e with
  | .replay _ rest, .sent =>
    some ({ a with
      sentUpTo := (UInt64.ofNat a.sentUpTo + 1).toNat }.replayNext s.stdinApplied rest, s)
  | .select, .frame (.ack seq) =>
    let s := { s with log := s.log.trim64 seq }
    some (if a.exitSeq.any (· ≤ seq) then (a.return_, s.unregister) else (a.continue_, s))
  | _, _ => a.step quic s e

def additions (a : Attach) (s : Session) (e : AttachEvent) : List Addition :=
  match a.pc, e with
  | .replay _ _, .sent => [next64 a.sentUpTo]
  | .select, .frame (.ack seq) => OutboundLog.trimAdditions seq s.log.buffer s.log.trimmed
  | _, _ => []

end Attach

/-- A step of the task, short of publishing what it logged. -/
def Running.task64 (r : Running) (e : TaskEvent) : Option Running :=
  if r.publishing.isSome then none
  else (r.session.taskStep64 e).map fun s =>
    if s.log.latest = r.session.log.latest then ⟨s, none⟩
    else ⟨{ s with log := s.log.publish r.session.log.latest }, some s.log.latest⟩

namespace Serving

def step64 (x : Serving) : ServingLabel → Option Serving
  | .task e =>
    if e = .recvNone ∧ x.held then none
    else (x.running.task64 e).map fun r => { x with running := r }
  | .conn i e =>
    x.conns[i]?.bind fun c => (c.attach.step64 c.quic x.session e).map fun (a, s) =>
      (x.setSession s).setConn i (c.moved x.session e a)
  | l => x.step l

/-- The number that a step applies. -/
def applied (x : Serving) : ServingLabel → Option Nat
  | .task e => x.session.applied e
  | _ => none

def additions (x : Serving) : ServingLabel → List Addition
  | .task e => x.session.additions e
  | .conn i e => x.conns[i]?.toList.flatMap fun c => c.attach.additions x.session e
  | _ => []

/-- The numbers of the log are `u64`, and no Stdin datagram is taken at the maximum. -/
def below (x : Serving) (l : ServingLabel) : Bool :=
  decide (x.history.length < 2 ^ 64) &&
    match l with
    | .task e => x.session.below e
    | _ => true

end Serving

/-- The number of a chunk of output. -/
def ChannelMessage.outputSeq? : Msg → Option Nat
  | .stdout seq _ | .stderr seq _ => some seq
  | _ => none

namespace Client

/-- Write a chunk of output, if it is the next one. -/
def onOutput64 (c : Client) (stream : Stream) (seq : Nat) (data : Data) (reliable : Bool) :
    Client :=
  if isNext (UInt64.ofNat seq) (UInt64.ofNat c.lastServerSeq) reliable then
    { c with lastServerSeq := seq, pc := if data.isEmpty then .flushing else .writing stream data }
  else c

/-- A message from the connection. -/
def onMessage64 (c : Client) (reliable : Bool) : Msg → Client
  | .stdout seq data => c.onOutput64 .out seq data reliable
  | .stderr seq data => c.onOutput64 .err seq data reliable
  | m => c.onMessage reliable m

/-- One step of `run_exec`. -/
def step64 (quic : Bool) (c : Client) (e : ClientEvent) : Option Client :=
  match c.pc, e with
  | .select, .frame m => some (c.onMessage64 true m)
  | .select, .datagram m => some (c.onMessage64 false m)
  | _, _ => c.step quic e

/-- The message that a step takes from the connection, and whether it came on the stream. -/
def taking (c : Client) (e : ClientEvent) : Option (Msg × Bool) :=
  match c.pc, e with
  | .select, .frame m => some (m, true)
  | .select, .datagram m => some (m, false)
  | _, _ => none

/-- The number of the output that a step takes, and whether it came on the stream. -/
def output (c : Client) (e : ClientEvent) : Option (Nat × Bool) :=
  (c.taking e).bind fun taken => taken.1.outputSeq?.map (·, taken.2)

/-- The number of the output that a step begins to write. -/
def written (c : Client) (e : ClientEvent) : Option Nat :=
  (c.output e).bind fun out =>
    if isNext (UInt64.ofNat out.1) (UInt64.ofNat c.lastServerSeq) out.2 then some out.1 else none

def additions (c : Client) (e : ClientEvent) : List Addition :=
  (c.output e).toList.map fun _ => next64 c.lastServerSeq

/-- No output is taken once the last number is the maximum. -/
def below (c : Client) (e : ClientEvent) : Bool :=
  (c.output e).all fun _ => decide (c.lastServerSeq < 2 ^ 64 - 1)

end Client

/-! ## Below the maximum nothing wraps -/

section

variable {seq last : Nat}

/-- Only behind the maximum there is no next number. -/
theorem fits_next64 : (next64 last).Fits ↔ last < 2 ^ 64 - 1 := by
  show last + 1 < 2 ^ 64 ↔ _
  omega

theorem toNat_next64 (h : last < 2 ^ 64 - 1) : (UInt64.ofNat last + 1).toNat = last + 1 := by
  have hlast : last < 2 ^ 64 := by omega
  rw [Addition.toNat_add, UInt64.toNat_ofNat_of_lt' hlast]
  exact Addition.wrapped_of_fits (fits_next64.mpr h)

theorem ofNat_eq_next_iff (hseq : seq < 2 ^ 64) (hlast : last < 2 ^ 64 - 1) :
    UInt64.ofNat seq = UInt64.ofNat last + 1 ↔ seq = last + 1 := by
  rw [← UInt64.toNat_inj, toNat_next64 hlast, UInt64.toNat_ofNat_of_lt' hseq]

theorem ofNat_lt_iff (hseq : seq < 2 ^ 64) (hlast : last < 2 ^ 64 - 1) :
    UInt64.ofNat last < UInt64.ofNat seq ↔ last < seq := by
  have hlast' : last < 2 ^ 64 := by omega
  rw [UInt64.lt_iff_toNat_lt, UInt64.toNat_ofNat_of_lt' hseq, UInt64.toNat_ofNat_of_lt' hlast']

theorem acceptDatagram_ofNat (hseq : seq < 2 ^ 64) (hlast : last < 2 ^ 64 - 1) :
    acceptDatagram (UInt64.ofNat seq) (UInt64.ofNat last) = acceptDatagram seq last :=
  decide_eq_decide.mpr (ofNat_eq_next_iff hseq hlast)

theorem isNext_ofNat (hseq : seq < 2 ^ 64) (hlast : last < 2 ^ 64 - 1) (reliable : Bool) :
    isNext (UInt64.ofNat seq) (UInt64.ofNat last) reliable = isNext seq last reliable := by
  rw [isNext, isNext, decide_eq_decide.mpr (ofNat_eq_next_iff hseq hlast),
    decide_eq_decide.mpr (ofNat_lt_iff hseq hlast)]

/-- Only a number above the last one is the next. -/
theorem lt_of_isNext {reliable : Bool} (h : isNext seq last reliable = true) : last < seq := by
  simp only [isNext, Bool.or_eq_true, Bool.and_eq_true, decide_eq_true_eq] at h
  omega

end

namespace OutboundLog

/-- The loop stops before its counter could wrap. -/
theorem trimLoop64_eq (seq : UInt64) (buffer : List Msg) (trimmed : UInt64) :
    (trimLoop64 seq buffer trimmed).1 = (trimLoop seq.toNat buffer trimmed.toNat).1 ∧
      (trimLoop64 seq buffer trimmed).2.toNat = (trimLoop seq.toNat buffer trimmed.toNat).2 := by
  induction buffer generalizing trimmed with
  | nil => exact ⟨rfl, rfl⟩
  | cons m buffer ih =>
    rw [trimLoop64, trimLoop]
    by_cases hlt : trimmed < seq
    · have hlt' : trimmed.toNat < seq.toNat := hlt
      have hnext : (trimmed + 1).toNat = trimmed.toNat + 1 := by
        have := seq.toNat_lt
        have hbelow : trimmed.toNat < 2 ^ 64 - 1 := by omega
        simpa using toNat_next64 hbelow
      rw [if_pos hlt, if_pos hlt', ← hnext]
      exact ih (trimmed + 1)
    · have hlt' : ¬ trimmed.toNat < seq.toNat := hlt
      rw [if_neg hlt, if_neg hlt']
      exact ⟨rfl, rfl⟩

theorem trim64_eq {l : OutboundLog} {seq : Nat} (hseq : seq < 2 ^ 64) (hl : l.trimmed < 2 ^ 64) :
    l.trim64 seq = l.trim seq := by
  obtain ⟨hbuffer, htrimmed⟩ := trimLoop64_eq (UInt64.ofNat seq) l.buffer (UInt64.ofNat l.trimmed)
  rw [UInt64.toNat_ofNat_of_lt' hseq, UInt64.toNat_ofNat_of_lt' hl] at hbuffer htrimmed
  simp only [trim64, trim, hbuffer, htrimmed]

/-- Whatever is acknowledged, `trimmed + 1` does not overflow. -/
theorem fits_trimAdditions {seq : Nat} (hseq : seq < 2 ^ 64) (buffer : List Msg) (trimmed : Nat) :
    ∀ a ∈ trimAdditions seq buffer trimmed, a.Fits := by
  induction buffer generalizing trimmed with
  | nil => simp [trimAdditions]
  | cons m buffer ih =>
    rw [trimAdditions]
    split_ifs with hlt
    · have hbelow : trimmed < 2 ^ 64 - 1 := by omega
      exact List.forall_mem_cons.mpr ⟨fits_next64.mpr hbelow, ih _⟩
    · simp

end OutboundLog

/-! ## The session task -/

namespace SessionInput

variable {input : SessionInput} {last : Nat}

/-- Only a number above the last one is applied. -/
theorem lt_applied (hi : input.is64 = true) (hb : input.below last = true) :
    ∀ n ∈ input.applied last, last < n := by
  intro n hn
  unfold applied at hn
  split at hn
  · split_ifs at hn with hacc
    · cases hn
      exact decide_eq_true_eq.mp hacc
    · cases hn
  · split_ifs at hn with hacc
    · cases hn
      exact decide_eq_true_eq.mp hacc
    · cases hn
  · rename_i seq data
    rw [acceptDatagram_ofNat (decide_eq_true_eq.mp hi) (decide_eq_true_eq.mp hb)] at hn
    split_ifs at hn with hacc
    · cases hn
      have heq : n = last + 1 := decide_eq_true_eq.mp hacc
      omega
    · cases hn
  · cases hn

theorem fits_iff_below : (∀ a ∈ input.additions last, a.Fits) ↔ input.below last = true := by
  unfold additions below
  split
  · rw [List.forall_mem_singleton, decide_eq_true_eq]
    exact fits_next64
  · simp

end SessionInput

namespace Session

variable {s s' t : Session} {e : TaskEvent} {input : SessionInput} {o : Option Nat}

theorem onInput64_eq (hi : input.is64 = true) (hb : input.below s.task.lastClientSeq = true) :
    s.onInput64 input = s.onInput input := by
  unfold onInput64
  split
  · rw [acceptDatagram_ofNat (decide_eq_true_eq.mp hi) (decide_eq_true_eq.mp hb)]
    rfl
  · rfl

theorem applied_of_ne_recv (he : e ≠ .recv) : s.applied e = none := by
  have hno : s.taking e = none := by
    unfold taking
    split
    · exact absurd rfl he
    · rfl
  rw [applied, hno, Option.bind_none]

theorem taking_recv {rest : List SessionInput} (hp : s.task.phase = .select)
    (hq : s.inbound = input :: rest) : s.taking .recv = some input := by
  simp [taking, hp, hq]

/-- **Refinement.** Below the maximum a step of the release build is a step in `Nat`. -/
theorem taskStep64_eq (hq : ∀ input ∈ s.inbound, input.is64 = true) (hb : s.below e = true) :
    s.taskStep64 e = s.taskStep e := by
  unfold taskStep64
  split
  · rename_i input rest hp hin
    have hbelow : input.below s.task.lastClientSeq = true := by
      simpa [below, taking_recv hp hin] using hb
    have hinput : input.is64 = true := hq input (by simp [hin])
    simp only [taskStep, hp, hin]
    exact congrArg some (onInput64_eq hinput hbelow)
  · rfl

/-- A step that applies the number `o`, if it is one. -/
structure Moves (o : Option Nat) (s s' : Session) : Prop where
  last : s'.task.lastClientSeq = o.getD s.task.lastClientSeq
  applied : s'.stdinApplied = s.stdinApplied ∨ s'.stdinApplied = s'.task.lastClientSeq

theorem Moves.endOfLoop (h : Moves o s t) : Moves o s t.endOfLoop := by
  rcases t.endOfLoop_cases with heq | ⟨code, -, -, -, heq⟩
  · rw [heq]
    exact ⟨h.last, h.applied⟩
  · rw [heq]
    exact ⟨h.last, h.applied⟩

theorem Moves.finishWrite (h : t.task.lastClientSeq = o.getD s.task.lastClientSeq) :
    Moves o s t.finishWrite :=
  Moves.endOfLoop ⟨h, .inr rfl⟩

theorem Moves.applyStdin (ht : t.stdinApplied = s.stdinApplied) (seq : Nat) (data : Data) :
    Moves (some seq) s (t.applyStdin seq data) := by
  unfold Session.applyStdin
  dsimp only
  split_ifs
  · exact Moves.finishWrite rfl
  · exact ⟨rfl, .inl ht⟩

theorem Moves.onInput (hlast : t.task.lastClientSeq = s.task.lastClientSeq)
    (happlied : t.stdinApplied = s.stdinApplied) (hi : input.is64 = true)
    (hb : input.below s.task.lastClientSeq = true) :
    Moves (input.applied s.task.lastClientSeq) s (t.onInput input) := by
  have hstay : Moves none s t := ⟨hlast, .inl happlied⟩
  unfold Session.onInput
  split
  · rw [SessionInput.applied, hlast]
    split_ifs
    · exact .applyStdin happlied _ _
    · exact hstay.endOfLoop
  · rw [SessionInput.applied, hlast,
      acceptDatagram_ofNat (decide_eq_true_eq.mp hi) (decide_eq_true_eq.mp hb)]
    split_ifs
    · exact .applyStdin happlied _ _
    · exact hstay.endOfLoop
  · rename_i m hno
    have hnone : (SessionInput.datagram m).applied s.task.lastClientSeq = none := by
      cases m with
      | stdin seq data => exact absurd rfl (hno seq data)
      | _ => rfl
    rw [hnone]
    exact hstay.endOfLoop
  · rw [SessionInput.applied, hlast]
    split_ifs
    · exact Moves.endOfLoop ⟨rfl, .inr rfl⟩
    · exact hstay.endOfLoop
  · rename_i m hno hno'
    have hnone : (SessionInput.message m).applied s.task.lastClientSeq = none := by
      cases m with
      | stdin seq data => exact absurd rfl (hno seq data)
      | stdinEof seq => exact absurd rfl (hno' seq)
      | _ => rfl
    rw [hnone]
    exact hstay.endOfLoop
  · exact ⟨hlast, .inl happlied⟩
  · exact ⟨hlast, .inl happlied⟩

/-- The last number moves to the one that is applied, and the published one stays or
becomes the last. -/
theorem Moves.taskStep (hq : ∀ input ∈ s.inbound, input.is64 = true) (hb : s.below e = true)
    (hs : s.taskStep e = some s') : Moves (s.applied e) s s' := by
  by_cases he : e = .recv
  · subst he
    cases TaskStep.of_taskStep hs with
    | @recv input rest hp hin =>
      have htaking := taking_recv hp hin
      rw [Session.applied, htaking, Option.bind_some]
      refine Moves.onInput rfl rfl (hq input (by simp [hin])) ?_
      simpa [Session.below, htaking] using hb
  · rw [applied_of_ne_recv he]
    cases TaskStep.of_taskStep hs with
    | @output stream r =>
      cases r with
      | data bytes => exact Moves.endOfLoop ⟨rfl, .inl rfl⟩
      | eof => cases stream <;> exact Moves.endOfLoop ⟨rfl, .inl rfl⟩
      | error => cases stream <;> exact Moves.endOfLoop ⟨rfl, .inl rfl⟩
    | @exit r =>
      obtain ⟨code, line, ht⟩ := s.task.readExit_eq r
      unfold Session.onExit
      rw [ht]
      dsimp only
      split_ifs
      · exact ⟨rfl, .inl rfl⟩
      · exact Moves.endOfLoop ⟨rfl, .inl rfl⟩
    | recv => exact absurd rfl he
    | recvNone => exact ⟨rfl, .inl rfl⟩
    | wrotePart => exact ⟨rfl, .inl rfl⟩
    | wroteAll => exact .finishWrite rfl
    | writeFailed => exact .finishWrite rfl
    | reaped => exact Moves.endOfLoop ⟨rfl, .inl rfl⟩
    | aborted => exact ⟨rfl, .inl rfl⟩

theorem lt_applied (hq : ∀ input ∈ s.inbound, input.is64 = true) (hb : s.below e = true) :
    ∀ n ∈ s.applied e, s.task.lastClientSeq < n := by
  intro n hn
  obtain ⟨input, hinput, hn⟩ := Option.bind_eq_some_iff.mp hn
  have hmem : input ∈ s.inbound := by
    unfold taking at hinput
    split at hinput
    · exact List.mem_of_mem_head? hinput
    · cases hinput
  refine SessionInput.lt_applied (hq input hmem) ?_ n hn
  simpa [below, hinput] using hb

/-- The datagram branch is the only one that can overflow, and does so exactly at the maximum. -/
theorem fits_iff_below : (∀ a ∈ s.additions e, a.Fits) ↔ s.below e = true := by
  unfold additions below
  cases s.taking e with
  | none => simp
  | some input => simpa using SessionInput.fits_iff_below

end Session

theorem is64_concat {inputs : List SessionInput} {input : SessionInput}
    (hq : ∀ i ∈ inputs, i.is64 = true) (hi : input.is64 = true) :
    ∀ i ∈ inputs ++ [input], i.is64 = true :=
  List.forall_mem_append.mpr ⟨hq, List.forall_mem_singleton.mpr hi⟩

/-! ## The connections of a session -/

namespace Attach

variable {H H' : List Msg} {a b : Attach} {s s' : Session} {e : AttachEvent}

/-- The replay pass under way ends within the history. -/
def Room (H : List Msg) (a : Attach) : Prop :=
  ∀ m rest, a.pc = .replay m rest → a.sentUpTo + 1 + rest.length ≤ H.length

theorem Room.mono (h : Room H a) (hH : H <+: H') : Room H' a :=
  fun m rest hp => (h m rest hp).trans hH.length_le

theorem Room.of_pc {pc : AttachPc} (hp : a.pc = pc) (hne : ∀ m rest, pc ≠ .replay m rest) :
    Room H a :=
  fun m rest h => absurd (hp.symm.trans h) (hne m rest)

/-- Behind `Goes` the pass is what was left of it. -/
theorem Room.goes {l : List Msg} (hgoes : b.Goes l a)
    (hl : l ≠ [] → b.sentUpTo + l.length ≤ H.length) : Room H a := by
  cases hgoes with
  | waits hpc =>
    refine .of_pc rfl fun m rest heq => ?_
    rcases hpc with rfl | rfl <;> cases heq
  | @sends m rest =>
    rintro m' rest' ⟨⟩
    have := hl (by simp)
    rw [List.length_cons] at this
    show b.sentUpTo + 1 + rest.length ≤ H.length
    omega

/-- A pass is read from the history, and counts at most to its end. -/
theorem Room.effect {c c' : Attached} (h : Room H c.attach)
    (hafter : ∀ n, s'.log.after n = H.drop (max n s'.log.trimmed))
    (heff : c.Effect s e s' c') : Room H c'.attach := by
  cases heff with
  | @turned b => exact .of_pc (show b.continue_.pc = .top from rfl) (by simp)
  | pass _ _ hs =>
    subst hs
    refine .goes (c.attach.goes_loopTop s') fun hne => ?_
    rw [hafter] at hne ⊢
    have hlt : max c.attach.sentUpTo s'.log.trimmed < H.length := by
      by_contra hno
      exact hne (List.drop_eq_nil_of_le (Nat.le_of_not_lt hno))
    rw [List.length_drop]
    omega
  | @replayed m rest hp =>
    refine .goes (goes_replayNext _ _ _) fun _ => ?_
    exact h m rest hp
  | acked => exact .of_pc rfl (by simp)
  | pinged => exact .of_pc rfl (by simp)
  | left => exact .of_pc (show c.attach.return_.pc = .returned from rfl) (by simp)

/-- **Refinement.** With a log of `u64` numbers, a step of the release build is a step in `Nat`. -/
theorem step64_eq (quic : Bool) (he : e.is64 = true) (hroom : Room H a)
    (hH : H.length < 2 ^ 64) (htrimmed : s.log.trimmed < 2 ^ 64) :
    a.step64 quic s e = a.step quic s e := by
  unfold step64
  split
  · rename_i m rest hp
    have := hroom m rest hp
    simp only [step, hp]
    rw [toNat_next64 (by omega)]
  · rename_i seq hp
    have hseq : seq < 2 ^ 64 := decide_eq_true_eq.mp he
    simp only [step, hp, onFrame]
    rw [OutboundLog.trim64_eq hseq htrimmed]
    rfl
  · rfl

theorem fits_additions (he : e.is64 = true) (hroom : Room H a) (hH : H.length < 2 ^ 64) :
    ∀ n ∈ a.additions s e, n.Fits := by
  unfold additions
  split
  · rename_i m rest hp
    have hend := hroom m rest hp
    have hbelow : a.sentUpTo < 2 ^ 64 - 1 := by omega
    exact List.forall_mem_singleton.mpr (fits_next64.mpr hbelow)
  · exact OutboundLog.fits_trimAdditions (decide_eq_true_eq.mp he) _ _
  · simp

/-- What a step queues is what it received, or an Abort. -/
theorem is64_inbound {quic : Bool} (hs : a.step quic s e = some (b, s')) (he : e.is64 = true)
    (hq : ∀ input ∈ s.inbound, input.is64 = true) : ∀ input ∈ s'.inbound, input.is64 = true := by
  rcases (Step.inbound (.of_step hs)).2 with ⟨hin, -⟩ | ⟨m, rfl, hin⟩ | ⟨m, rfl, hin⟩ | ⟨hin, -⟩
  · rwa [hin]
  · rw [hin]
    exact is64_concat hq he
  · rw [hin]
    exact is64_concat hq he
  · rw [hin]
    exact is64_concat hq rfl

end Attach

/-! ## A session with all that is attached to it -/

namespace Running

variable {r r' : Running} {e : TaskEvent}

theorem task64_eq (hq : ∀ input ∈ r.session.inbound, input.is64 = true)
    (hb : r.session.below e = true) : r.task64 e = r.task e := by
  rw [task64, task, Session.taskStep64_eq hq hb]

theorem inbound_task (hs : r.task e = some r') : r'.session.inbound <:+ r.session.inbound :=
  (Session.Steady.taskStep (task_settled hs).2).inbound

end Running

namespace Serving

variable {x x' : Serving} {l : ServingLabel}

theorem length_of_below (h : x.below l = true) : x.history.length < 2 ^ 64 := by
  unfold below at h
  exact decide_eq_true_eq.mp ((Bool.and_eq_true _ _).mp h).1

theorem below_of_task {e : TaskEvent} (h : x.below (.task e) = true) : x.session.below e = true :=
  ((Bool.and_eq_true _ _).mp h).2

/-- **Refinement.** Below the maximum, with a log of `u64` numbers, a step of the release build is a
step in `Nat`. -/
theorem step64_eq (hok : x.running.Ok) (hq : ∀ input ∈ x.session.inbound, input.is64 = true)
    (hroom : x.Each fun c => c.attach.Room x.history) (hl : l.is64 = true)
    (hb : x.below l = true) : x.step64 l = x.step l := by
  have hH := length_of_below hb
  cases l with
  | task e =>
    simp only [step64, step]
    rw [Running.task64_eq hq (below_of_task hb)]
  | conn i e =>
    have htrimmed : x.session.log.trimmed ≤ x.history.length := hok.wf.logged.refines.trimmed_le
    simp only [step64, step]
    refine Option.bind_congr fun c hc => ?_
    rw [Attach.step64_eq c.quic hl (hroom i c hc) hH (htrimmed.trans_lt hH)]
  | _ => rfl

theorem room_step (hok : x.running.Ok) (hroom : x.Each fun c => c.attach.Room x.history)
    (hs : x.step l = some x') : x'.Each fun c => c.attach.Room x'.history :=
  each_step (P := fun H c => c.attach.Room H) hok (fun h hH => h.mono hH)
    (fun _ _ _ m rest hp => by cases hp)
    (fun _ _ _ _ _ _ _ h hafter heff => h.effect hafter heff) hroom hs

theorem is64_step (hq : ∀ input ∈ x.session.inbound, input.is64 = true) (hl : l.is64 = true)
    (hs : x.step l = some x') : ∀ input ∈ x'.session.inbound, input.is64 = true := by
  cases Step.of_step hs with
  | task hr => exact fun input hinput => hq input ((Running.inbound_task hr).subset hinput)
  | publish hr =>
    obtain ⟨seq, -, rfl⟩ := Option.map_eq_some_iff.mp hr
    exact hq
  | lose => exact hq
  | handover => exact is64_concat hq rfl
  | attach => exact hq
  | conn _ ha => exact Attach.is64_inbound ha hl hq
  | agentAttach => exact hq
  | agentDetach => exact hq
  | collect => exact hq
  | expire => exact is64_concat hq rfl

theorem moves_step (hq : ∀ input ∈ x.session.inbound, input.is64 = true)
    (hb : x.below l = true) (hs : x.step l = some x') :
    Session.Moves (x.applied l) x.session x'.session := by
  have hstay : Session.Moves none x.session x.session := ⟨rfl, .inl rfl⟩
  cases Step.of_step hs with
  | task hr =>
    have hmoves := Session.Moves.taskStep hq (below_of_task hb) (Running.task_settled hr).2
    exact ⟨hmoves.last, hmoves.applied⟩
  | publish hr =>
    obtain ⟨seq, -, rfl⟩ := Option.map_eq_some_iff.mp hr
    exact ⟨rfl, .inl rfl⟩
  | lose => exact ⟨rfl, .inl rfl⟩
  | handover => exact ⟨rfl, .inl rfl⟩
  | attach => exact hstay
  | conn _ ha =>
    exact ⟨congrArg Task.lastClientSeq (Attach.Attends.of_step ha).task,
      .inl (Attach.Step.inbound (.of_step ha)).1⟩
  | agentAttach => exact hstay
  | agentDetach => exact hstay
  | collect => exact hstay
  | expire => exact ⟨rfl, .inl rfl⟩

theorem lt_applied (hq : ∀ input ∈ x.session.inbound, input.is64 = true)
    (hb : x.below l = true) : ∀ n ∈ x.applied l, x.session.task.lastClientSeq < n := by
  intro n hn
  cases l with
  | task e => exact Session.lt_applied hq (below_of_task hb) n hn
  | _ => cases hn

theorem fits_additions (hroom : x.Each fun c => c.attach.Room x.history) (hl : l.is64 = true)
    (hb : x.below l = true) : ∀ a ∈ x.additions l, a.Fits := by
  have hH := length_of_below hb
  cases l with
  | task e => exact Session.fits_iff_below.mpr (below_of_task hb)
  | conn i e =>
    intro n hn
    obtain ⟨c, hc, hn⟩ := List.mem_flatMap.mp hn
    exact Attach.fits_additions hl (hroom i c (Option.mem_toList.mp hc)) hH n hn
  | _ => exact fun n hn => by cases hn

end Serving

/-! ## The client -/

namespace Client

variable {quic : Bool} {c c' : Client} {e : ClientEvent}

theorem outputSeq?_lt {m : Msg} {seq : Nat} (hm : m.is64 = true) (hseq : m.outputSeq? = some seq) :
    seq < 2 ^ 64 := by
  unfold ChannelMessage.outputSeq? at hseq
  split at hseq
  · cases hseq
    exact decide_eq_true_eq.mp hm
  · cases hseq
    exact decide_eq_true_eq.mp hm
  · cases hseq

theorem output_lt {seq : Nat} {reliable : Bool} (he : e.is64 = true)
    (h : c.output e = some (seq, reliable)) : seq < 2 ^ 64 := by
  obtain ⟨taken, htaking, hout⟩ := Option.bind_eq_some_iff.mp h
  obtain ⟨_, hseq, ⟨⟩⟩ := Option.map_eq_some_iff.mp hout
  unfold taking at htaking
  split at htaking
  · cases htaking
    exact outputSeq?_lt he hseq
  · cases htaking
    exact outputSeq?_lt he hseq
  · cases htaking

theorem lt_of_output {seq : Nat} {reliable : Bool} (hb : c.below e = true)
    (h : c.output e = some (seq, reliable)) : c.lastServerSeq < 2 ^ 64 - 1 := by
  unfold below at hb
  rw [h] at hb
  exact decide_eq_true_eq.mp hb

/-- Only a number above the last one is written. -/
theorem lt_written (he : e.is64 = true) (hb : c.below e = true) :
    ∀ n ∈ c.written e, c.lastServerSeq < n := by
  intro n hn
  obtain ⟨⟨seq, reliable⟩, hout, hn⟩ := Option.bind_eq_some_iff.mp hn
  dsimp only at hn
  rw [isNext_ofNat (output_lt he hout) (lt_of_output hb hout)] at hn
  split_ifs at hn with hnext
  cases hn
  exact lt_of_isNext hnext

/-- Output is the only thing that can overflow, and does so exactly at the maximum. -/
theorem fits_iff_below : (∀ a ∈ c.additions e, a.Fits) ↔ c.below e = true := by
  unfold additions below
  cases c.output e with
  | none => simp
  | some out =>
    rw [Option.toList_some, List.map_singleton, List.forall_mem_singleton, Option.all_some,
      decide_eq_true_eq]
    exact fits_next64

theorem onMessage64_eq {m : Msg} {reliable : Bool} (hm : m.is64 = true)
    (hb : m.outputSeq?.isSome = true → c.lastServerSeq < 2 ^ 64 - 1) :
    c.onMessage64 reliable m = c.onMessage reliable m := by
  cases m with
  | stdout seq data =>
    rw [onMessage64, onMessage, onOutput64, onOutput,
      isNext_ofNat (decide_eq_true_eq.mp hm) (hb rfl)]
  | stderr seq data =>
    rw [onMessage64, onMessage, onOutput64, onOutput,
      isNext_ofNat (decide_eq_true_eq.mp hm) (hb rfl)]
  | _ => rfl

/-- **Refinement.** Below the maximum a step of the release build is a step in `Nat`. -/
theorem step64_eq (quic : Bool) (he : e.is64 = true) (hb : c.below e = true) :
    c.step64 quic e = c.step quic e := by
  have hlast : ∀ m reliable, c.taking e = some (m, reliable) →
      m.outputSeq?.isSome = true → c.lastServerSeq < 2 ^ 64 - 1 := by
    intro m reliable htaking hsome
    obtain ⟨seq, hseq⟩ := Option.isSome_iff_exists.mp hsome
    have hout : c.output e = some (seq, reliable) := by
      rw [output, htaking, Option.bind_some, hseq]
      rfl
    exact lt_of_output hb hout
  unfold step64
  split
  · rename_i m hp
    simp only [step, hp]
    rw [onMessage64_eq he (hlast m true (by simp [taking, hp]))]
  · rename_i m hp
    simp only [step, hp]
    rw [onMessage64_eq he (hlast m false (by simp [taking, hp]))]
  · rfl

theorem last_onMessage (c : Client) (reliable : Bool) (m : Msg) :
    (c.onMessage reliable m).lastServerSeq =
      (m.outputSeq?.bind fun seq =>
        if isNext seq c.lastServerSeq reliable then some seq else none).getD c.lastServerSeq := by
  have hout : ∀ stream seq data, (c.onOutput stream seq data reliable).lastServerSeq =
      (if isNext seq c.lastServerSeq reliable then some seq else none).getD c.lastServerSeq := by
    intro stream seq data
    unfold onOutput
    split_ifs <;> rfl
  cases m with
  | stdout seq data => exact hout .out seq data
  | stderr seq data => exact hout .err seq data
  | _ => rfl

theorem last_of_taking_none (htaking : c.taking e = none) (hs : c.Step quic e c') :
    c'.lastServerSeq = c.lastServerSeq := by
  cases hs with
  | authFailed => exact (Stays.connectError c _).last_eq
  | @reply m hp =>
    unfold onReply
    split
    · unfold resendNext
      dsimp only
      split <;> rfl
    · exact (Stays.connectError c _).last_eq
    · exact (Stays.connectError c _).last_eq
  | connectFailed => exact (Stays.connectError c _).last_eq
  | @resent m rest => cases rest <;> rfl
  | resendFailed => exact (Stays.disconnect c).last_eq
  | expired => exact (Stays.disconnect c).last_eq
  | pingFailed => exact (Stays.disconnect c).last_eq
  | freshFailed => exact (Stays.disconnect c).last_eq
  | disconnected => exact (Stays.disconnect c).last_eq
  | frame hp => simp [taking, hp] at htaking
  | datagram hp => simp [taking, hp] at htaking
  | _ => rfl

/-- The last number moves to the one that is written. -/
theorem last_step (he : e.is64 = true) (hb : c.below e = true) (hs : c.step quic e = some c') :
    c'.lastServerSeq = (c.written e).getD c.lastServerSeq := by
  have hwritten : c.written e = (c.output e).bind fun out =>
      if isNext out.1 c.lastServerSeq out.2 then some out.1 else none := by
    refine Option.bind_congr fun out hout => ?_
    rw [isNext_ofNat (output_lt he hout) (lt_of_output hb hout)]
  have htaken : ∀ m reliable, c.taking e = some (m, reliable) →
      (c.onMessage reliable m).lastServerSeq = (c.written e).getD c.lastServerSeq := by
    intro m reliable htaking
    rw [hwritten, last_onMessage, output, htaking, Option.bind_some, Option.bind_map]
    rfl
  by_cases hnone : c.taking e = none
  · rw [last_of_taking_none hnone (.of_step hs), written, output, hnone]
    rfl
  · unfold taking at hnone
    split at hnone
    · rename_i m hp
      simp only [step, hp, Option.some.injEq] at hs
      subst hs
      exact htaken m true (by simp [taking, hp])
    · rename_i m hp
      simp only [step, hp, Option.some.injEq] at hs
      subst hs
      exact htaken m false (by simp [taking, hp])
    · exact absurd rfl hnone

end Client

end HerdrEternal
