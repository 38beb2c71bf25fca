import HerdrEternal.System.Replay

/-!
# No wakeup is lost

An attach loop that waits in its `select!` learns of new entries through its watch receiver alone.
The entry is appended before its number is published, and the receiver sees the number before the
log is read: `subscribe()` and `changed()` come first, the snapshot later, and pushes may fall in
between. So a snapshot covers every number that the receiver has seen before it (`Watching`), and
whatever it does not cover is still to be published, or has been published since. A parked loop that
is not due to wake has read the whole history.

With the position counting right (`inRange`) it has therefore sent the whole history. Once Exit is
on the wire the loop stops watching, and it misses nothing, because Exit ends the history.
-/

namespace HerdrEternal

open History

namespace Attached

/-- Behind a snapshot, in the pass or past it. -/
def watching (c : Attached) : Bool :=
  match c.attach.pc with
  | .sendStarted | .top | .returned => false
  | _ => true

/-- `latest.changed()` is ready: a value was published since the receiver last saw one. -/
def changedReady (c : Attached) (l : OutboundLog) : Bool := l.latest != c.attach.seen

/-- The receiver has seen nothing newer than the history, nor than the snapshot behind which the
call is. At the top of the loop it may be ahead of the last snapshot. -/
structure Watching (H : List Msg) (c : Attached) : Prop where
  seen_le : c.attach.seen ≤ H.length
  seen_le_upTo : c.watching = true → c.attach.seen ≤ c.upTo
  upTo_le : c.upTo ≤ H.length

variable {H H' : List Msg} {c c' : Attached} {s s' : Session} {e : AttachEvent}

theorem Watching.start (H : List Msg) (quic : Bool) (token : String) (n : Nat) :
    Watching H (.start quic token n) where
  seen_le := Nat.zero_le _
  seen_le_upTo := fun h => by cases h
  upTo_le := Nat.zero_le _

theorem Watching.mono (h : Watching H c) (hH : H <+: H') : Watching H' c :=
  ⟨h.seen_le.trans hH.length_le, h.seen_le_upTo, h.upTo_le.trans hH.length_le⟩

theorem seen_goes {a b : Attach} {l : List Msg} (h : b.Goes l a) : a.seen = b.seen := by
  cases h <;> rfl

theorem Watching.effect (h : Watching s.trace.pushed c)
    (hlatest : s.log.latest ≤ s.trace.pushed.length) (heff : c.Effect s e s' c') :
    Watching s.trace.pushed c' := by
  cases heff with
  | turned _ _ ha =>
    refine ⟨?_, fun hw => (by cases hw), h.upTo_le⟩
    rcases ha with rfl | rfl
    · exact hlatest
    · exact h.seen_le
  | pass =>
    -- the snapshot covers the history, and with it what the receiver has seen
    have hseen := seen_goes (c.attach.goes_loopTop s)
    exact ⟨hseen ▸ h.seen_le, fun _ => hseen ▸ h.seen_le, le_rfl⟩
  | @replayed m rest hp =>
    have hseen := seen_goes (Attach.goes_replayNext { c.attach with
      sentUpTo := c.attach.sentUpTo + 1 } s.stdinApplied rest)
    exact ⟨hseen ▸ h.seen_le, fun _ => hseen ▸ h.seen_le_upTo (by simp [watching, hp]), h.upTo_le⟩
  | acked hp => exact ⟨h.seen_le, fun _ => h.seen_le_upTo (by simp [watching, hp]), h.upTo_le⟩
  | pinged hp => exact ⟨h.seen_le, fun _ => h.seen_le_upTo (by simp [watching, hp]), h.upTo_le⟩
  | left => exact ⟨h.seen_le, fun hw => (by cases hw), h.upTo_le⟩

/-! ## The position, where it starts in range -/

/-- The position is within the log, and the pass under way ends where the history ended when its
snapshot was taken. -/
structure Placed (l : OutboundLog) (H : List Msg) (c : Attached) : Prop where
  trimmed_le : c.running = true → l.trimmed ≤ c.attach.sentUpTo
  sentUpTo_le : c.attach.sentUpTo ≤ H.length
  pass : ∀ m rest, c.attach.pc = .replay m rest → c.attach.sentUpTo + 1 + rest.length = c.upTo
  parked : c.watching = true → (∀ m rest, c.attach.pc ≠ .replay m rest) →
    c.attach.sentUpTo = c.upTo

variable {l l' : OutboundLog}

theorem Placed.mono (h : Placed l H c) (hH : H <+: H')
    (hl : c.running = true → l'.trimmed ≤ c.attach.sentUpTo) : Placed l' H' c :=
  ⟨hl, h.sentUpTo_le.trans hH.length_le, h.pass, h.parked⟩

theorem Placed.move (h : Placed l H c) {a : Attach} (hsent : a.sentUpTo = c.attach.sentUpTo)
    (hw : c.watching = true) (hp : ∀ m rest, c.attach.pc ≠ .replay m rest)
    (ha : ∀ m rest, a.pc ≠ .replay m rest) : Placed l H { c with attach := a } where
  trimmed_le := by
    intro _
    rw [hsent]
    refine h.trimmed_le (decide_eq_true fun hret => ?_)
    rw [watching, hret] at hw
    cases hw
  sentUpTo_le := hsent ▸ h.sentUpTo_le
  pass := fun m rest heq => absurd heq (ha m rest)
  parked := fun _ _ => hsent.trans (h.parked hw hp)

/-- Behind `Goes` the position is where the pass began, and the pass has as many entries to go as
there were. -/
theorem placed_goes {a b : Attach} {ms : List Msg} (hgoes : b.Goes ms a) {sent : List Msg}
    {upTo : Nat} (htrimmed : l.trimmed ≤ b.sentUpTo) (hle : b.sentUpTo ≤ H.length)
    (hlen : b.sentUpTo + ms.length = upTo) :
    Placed l H { c with attach := a, sent := sent, upTo := upTo } := by
  cases hgoes with
  | waits hpc =>
    refine ⟨fun _ => htrimmed, hle, fun m rest hp => ?_, fun _ _ => ?_⟩
    · rcases hpc with rfl | rfl <;> cases hp
    · simpa using hlen
  | @sends m rest =>
    refine ⟨fun _ => htrimmed, hle, fun m' rest' hp => ?_, fun _ hno => absurd rfl (hno m rest)⟩
    cases hp
    rw [List.length_cons] at hlen
    show b.sentUpTo + 1 + rest.length = upTo
    omega

/-- A connection moves and acknowledges nothing that it was not sent. -/
theorem Placed.effect (h : Placed s.log s.trace.pushed c) (hw : Watching s.trace.pushed c)
    (hafter : ∀ n, s'.log.after n = s.trace.pushed.drop (max n s'.log.trimmed))
    (htrimmed : c.running = true → s'.log.trimmed ≤ c.attach.sentUpTo)
    (heff : c.Effect s e s' c') : Placed s'.log s.trace.pushed c' := by
  cases heff with
  | @turned a _ hpc ha =>
    have hsent : a.continue_.sentUpTo = c.attach.sentUpTo := by
      rcases ha with rfl | rfl
      · rfl
      · rfl
    have hrun : c.running = true := by
      rcases hpc with hp | hp | hp
      all_goals exact running_of_pc hp (by simp)
    exact ⟨fun _ => hsent ▸ htrimmed hrun, hsent ▸ h.sentUpTo_le, fun m rest hp => (by cases hp),
      fun hw => (by cases hw)⟩
  | pass hp he hs =>
    subst hs
    have hle := htrimmed (running_of_pc hp (by simp))
    have hbound := h.sentUpTo_le
    refine placed_goes (c.attach.goes_loopTop s') hle hbound ?_
    rw [hafter, max_eq_left hle, List.length_drop]
    omega
  | @replayed m rest hp he hs =>
    subst hs
    have hlen := h.pass m rest hp
    have hbound := hw.upTo_le
    refine placed_goes (Attach.goes_replayNext { c.attach with
      sentUpTo := c.attach.sentUpTo + 1 } s'.stdinApplied rest) ?_ ?_ hlen
    · exact Nat.le_succ_of_le (h.trimmed_le (running_of_pc hp (by simp)))
    · show c.attach.sentUpTo + 1 ≤ _
      omega
  | acked hp he hs =>
    subst hs
    exact h.move rfl (by simp [watching, hp]) (by simp [hp]) (by simp)
  | pinged hp he hs =>
    subst hs
    exact h.move rfl (by simp [watching, hp]) (by simp [hp]) (by simp)
  | left =>
    exact ⟨fun hr => (by cases hr), h.sentUpTo_le, fun m rest hp => (by cases hp),
      fun hw => (by cases hw)⟩

/-! ## The Exit entry -/

/-- What the call sends is from the history, and so is the Exit it knows of. -/
structure Entries (H : List Msg) (c : Attached) : Prop where
  pass : ∀ m rest, c.attach.pc = .replay m rest → ∀ m' ∈ m :: rest, m' ∈ H
  exit : ∀ n, c.attach.exitSeq = some n → ∃ code, ChannelMessage.exit n code ∈ H

theorem Entries.start (H : List Msg) (quic : Bool) (token : String) (n : Nat) :
    Entries H (.start quic token n) :=
  ⟨fun m rest hp => (by cases hp), fun n h => (by cases h)⟩

theorem Entries.mono (h : Entries H c) (hH : H <+: H') : Entries H' c :=
  ⟨fun m rest hp m' hm => hH.subset (h.pass m rest hp m' hm), fun n hn =>
    (h.exit n hn).imp fun _ hm => hH.subset hm⟩

theorem entries_goes {a b : Attach} {ms : List Msg} (hgoes : b.Goes ms a) {sent : List Msg}
    {upTo : Nat} (hms : ∀ m ∈ ms, m ∈ H)
    (hexit : ∀ n, b.exitSeq = some n → ∃ code, ChannelMessage.exit n code ∈ H) :
    Entries H { c with attach := a, sent := sent, upTo := upTo } := by
  cases hgoes with
  | waits hpc =>
    refine ⟨fun m rest hp => ?_, hexit⟩
    rcases hpc with rfl | rfl <;> cases hp
  | @sends m rest =>
    refine ⟨fun m' rest' hp => ?_, fun n hn => ?_⟩
    · cases hp
      exact hms
    · cases m with
      | exit seq code =>
        cases hn
        exact ⟨code, hms _ List.mem_cons_self⟩
      | _ => exact hexit n hn

theorem Entries.effect (h : Entries s.trace.pushed c)
    (hafter : ∀ n, s'.log.after n = s.trace.pushed.drop (max n s'.log.trimmed))
    (heff : c.Effect s e s' c') : Entries s.trace.pushed c' := by
  cases heff with
  | turned _ _ ha =>
    refine ⟨fun m rest hp => (by cases hp), fun n hn => ?_⟩
    rcases ha with rfl | rfl
    · exact h.exit n hn
    · exact h.exit n hn
  | pass _ _ hs =>
    subst hs
    refine entries_goes (c.attach.goes_loopTop s') (fun m hm => ?_) h.exit
    rw [hafter] at hm
    exact List.mem_of_mem_drop hm
  | replayed hp =>
    exact entries_goes (Attach.goes_replayNext _ _ _)
      (fun m hm => h.pass _ _ hp m (List.mem_cons_of_mem _ hm)) h.exit
  | acked => exact ⟨fun m rest hp => (by cases hp), h.exit⟩
  | pinged => exact ⟨fun m rest hp => (by cases hp), h.exit⟩
  | left => exact ⟨fun m rest hp => (by cases hp), h.exit⟩

/-- What is kept for a connection in every run. -/
structure Watchful (H : List Msg) (c : Attached) : Prop where
  watching : c.Watching H
  entries : c.Entries H

theorem Watchful.start (H : List Msg) (quic : Bool) (token : String) (n : Nat) :
    Watchful H (.start quic token n) :=
  ⟨.start H quic token n, .start H quic token n⟩

theorem Watchful.mono (h : Watchful H c) (hH : H <+: H') : Watchful H' c :=
  ⟨h.watching.mono hH, h.entries.mono hH⟩

theorem Watchful.effect (h : Watchful s.trace.pushed c)
    (hlatest : s.log.latest ≤ s.trace.pushed.length)
    (hafter : ∀ n, s'.log.after n = s.trace.pushed.drop (max n s'.log.trimmed))
    (heff : c.Effect s e s' c') : Watchful s.trace.pushed c' :=
  ⟨h.watching.effect hlatest heff, h.entries.effect hafter heff⟩

end Attached

namespace Serving

/-- Connections start within the log. An `Ack` of any of them is for entries that every running one
was sent: it is bounded by the others' positions too, and not by its own alone. -/
def inRange (x : Serving) : ServingLabel → Bool
  | .attach _ _ n =>
    x.session.log.trimmed ≤ n && n ≤ x.session.log.trimmed + x.session.log.buffer.length
  | .conn _ e => x.conns.all fun c => !c.running || Attach.acked e ≤ c.attach.sentUpTo
  | _ => true

/-- What a parked loop can rely on. -/
structure NoLostWakeup (x : Serving) (c : Attached) : Prop where
  wakes : c.attach.pc = .select → c.attach.exitSeq = none →
    (∃ m ∈ x.session.log.buffer, ∃ n, m.seq? = some n ∧ c.attach.sentUpTo < n) →
    c.changedReady x.session.log = true ∨ x.running.publishing.isSome = true
  last : ∀ n, c.attach.exitSeq = some n →
    x.session.ended = true ∧ ∀ m ∈ x.history, ∀ k, m.seq? = some k → k ≤ n

variable {x x' : Serving}

theorem watchful_step {l : ServingLabel} (hok : x.running.Ok)
    (h : x.Each (Attached.Watchful x.history)) (hs : x.step l = some x') :
    x'.Each (Attached.Watchful x'.history) := by
  refine each_step hok (fun h hH => h.mono hH) (fun _ _ _ => .start _ _ _ _) ?_ h hs
  rintro i e c c' s - hget hwatchful hafter heff
  exact hwatchful.effect hok.latest_le hafter heff

theorem watchful_under {C : Serving → ServingLabel → Prop} (h : machine.Under C x) :
    x.Each (Attached.Watchful x.history) :=
  each_under (P := fun x => Attached.Watchful x.history) h
    fun _ _ _ hunder h _ hs => watchful_step (ok_under hunder) h hs

/-- A step in range keeps every connection placed. -/
theorem placed_step {l : ServingLabel} (hok : x.running.Ok)
    (hw : x.Each (Attached.Watchful x.history))
    (h : x.Each (Attached.Placed x.session.log x.history)) (hc : x.inRange l = true)
    (hs : x.step l = some x') : x'.Each (Attached.Placed x'.session.log x'.history) := by
  have hmono := history_mono hs
  have hkeep : x'.session.log.trimmed = x.session.log.trimmed →
      x.Each (Attached.Placed x'.session.log x'.history) := by
    intro htrimmed i c hget
    exact (h i c hget).mono hmono (fun hr => htrimmed ▸ (h i c hget).trimmed_le hr)
  cases Step.of_step hs with
  | task hr => exact hkeep (Session.Grows.taskStep (Running.task_settled hr).2).trimmed
  | publish hr =>
    obtain ⟨seq, -, rfl⟩ := Option.map_eq_some_iff.mp hr
    exact hkeep rfl
  | lose => exact hkeep rfl
  | handover => exact hkeep rfl
  | @attach quic token n =>
    simp only [inRange, Bool.and_eq_true, decide_eq_true_eq] at hc
    have hlen : x.session.log.trimmed + x.session.log.buffer.length = x.history.length :=
      hok.wf.logged.refines.length_eq
    exact Table.forall_concat (P := fun _ => Attached.Placed x.session.log x.history) (hkeep rfl)
      ⟨fun _ => hc.1, hlen ▸ hc.2, fun m rest hp => (by cases hp), fun hw => (by cases hw)⟩
  | @conn i e c a s hget ha =>
    have hend := Attach.Attends.of_step ha
    -- no running connection is behind what this step acknowledges
    have hacked : ∀ (j : Nat) (d : Attached), x.conns[j]? = some d → d.running = true →
        s.log.trimmed ≤ d.attach.sentUpTo := by
      intro j d hd hrun
      have hle := List.all_eq_true.mp hc d (List.mem_of_getElem? hd)
      rw [hrun, Bool.not_true, Bool.false_or, decide_eq_true_eq] at hle
      rw [hend.log, OutboundLog.trimmed_trim_eq]
      exact max_le ((h j d hd).trimmed_le hrun) ((min_le_left _ _).trans hle)
    have hmoved : Attached.Placed s.log x.session.trace.pushed (c.moved x.session e a) :=
      (h i c hget).effect (hw i c hget).watching (hok.after_attends ha) (hacked i c hget)
        (.of_step ha)
    show Each (Attached.Placed s.log s.trace.pushed) _
    rw [hend.trace]
    refine Table.forall_set (P := fun _ => Attached.Placed s.log x.session.trace.pushed)
      (fun j d hd => ?_) hmoved
    exact (h j d hd).mono List.prefix_rfl (hacked j d hd)
  | agentAttach => exact hkeep rfl
  | agentDetach => exact hkeep rfl
  | collect => exact hkeep rfl
  | expire => exact hkeep rfl

theorem placed_under (h : machine.Under (fun x l => x.inRange l = true) x) :
    x.Each (Attached.Placed x.session.log x.history) :=
  each_under (P := fun x => Attached.Placed x.session.log x.history) h
    fun _ _ _ hunder h hc hs => placed_step (ok_under hunder) (watchful_under hunder) h hc hs

/-- A loop that is parked and not due to wake has read the whole history. -/
theorem upTo_of_not_ready {c : Attached} (hok : x.running.Ok) (hw : c.Watching x.history)
    (hwatch : c.watching = true) (hpub : x.running.publishing = none)
    (hready : c.changedReady x.session.log = false) : c.upTo = x.history.length := by
  have hlatest : x.session.log.latest = x.history.length := hok.latest_eq hpub
  have hseen : x.session.log.latest = c.attach.seen := by
    simpa [Attached.changedReady] using hready
  have := hw.seen_le_upTo hwatch
  have := hw.upTo_le
  omega

/-- A known Exit is the end of the history, and of the task. -/
theorem exit_ends {c : Attached} (hok : x.running.Ok) (he : c.Entries x.history) {n : Nat}
    (hn : c.attach.exitSeq = some n) : x.session.ended = true ∧ x.history.length = n := by
  obtain ⟨code, hmem⟩ := he.exit n hn
  exact hok.wf.exit_ends hmem

/-- **No wakeup is lost.** -/
theorem no_lost_wakeup (h : machine.Under (fun x l => x.inRange l = true) x) :
    x.Each (NoLostWakeup x) := by
  intro i c hget
  have hok := ok_under h
  have hawake := watchful_under h i c hget
  refine ⟨fun hp hexit hentry => ?_, fun n hn => ?_⟩
  · by_contra hno
    simp only [not_or, Bool.not_eq_true, Option.isSome_eq_false_iff,
      Option.isNone_iff_eq_none] at hno
    have hwatch : c.watching = true := by simp [Attached.watching, hp]
    have hupTo := upTo_of_not_ready hok hawake.watching hwatch hno.2 hno.1
    have hsent := (placed_under h i c hget).parked hwatch (by simp [hp])
    obtain ⟨m, hm, n, hn, hlt⟩ := hentry
    rw [show x.session.log.buffer = x.history.drop x.session.log.trimmed from
      hok.wf.logged.refines.buffer_eq] at hm
    have := (hok.numbered.getElem? (List.mem_of_mem_drop hm) hn).2.1
    have : n ≤ x.history.length := this
    omega
  · obtain ⟨hended, hlen⟩ := exit_ends hok hawake.entries hn
    refine ⟨hended, fun m hm k hk => ?_⟩
    rw [← hlen]
    exact (hok.numbered.getElem? hm hk).2.1

/-- A chunk is appended between `subscribe()` and the snapshot, so that its number wakes the loop for
nothing. A second one is appended while the loop is parked, and does not wake it yet. -/
def parkedRun : List ServingLabel :=
  [.attach true "t" 0, .conn 0 .sent, .task (.outputRead .out (.data [104])), .conn 0 .snapshot,
    .conn 0 .sent, .publish, .conn 0 .changed, .conn 0 .snapshot,
    .task (.outputRead .out (.data [105]))]

def parked : Serving :=
  (machine.runIf (fun x l => x.inRange l) (start fresh) parkedRun).get (by decide)

theorem parked_no_lost_wakeup :
    parked.conns.map (fun c => (c.attach.pc, c.attach.sentUpTo)) = [(.select, 1)] ∧
    parked.session.log.buffer = [.stdout 1 [104], .stdout 2 [105]] ∧
    parked.running.publishing = some 2 ∧ parked.Each (NoLostWakeup parked) := by
  have hunder : machine.Under (fun x l => x.inRange l = true) parked :=
    Machine.under_of_runIf (.init ⟨_, wf_fresh, rfl, rfl⟩) (Option.some_get _).symm
  exact ⟨by decide, by decide, by decide, no_lost_wakeup hunder⟩

end Serving

end HerdrEternal
