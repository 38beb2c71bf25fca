import HerdrEternal.Server.Serving

/-!
# What one connection is sent

`attach` tracks its position in the log by counting: `sent_up_to` starts at the `last_seq_seen` of
the request and grows by one with every entry sent. The log tells positions by what it has trimmed.
The two agree as long as each replay pass begins at or behind the log's start, or finds nothing to
send (`passesAligned`). Then what a call has sent is exactly the history between its two positions
(`Faithful`), so no entry is sent twice and `sent_up_to` is the number of the last one.

The code does not check this. A connection that resumes from a position that another one has already
acknowledged, or that acknowledges entries it never got, is sent the rest of the log under numbers
that run behind, and gets entries again in the next pass (`resent_entry`).
-/

namespace HerdrEternal

open History

namespace Attached

/-- The number of the last entry sent, or `last_seq_seen`. -/
def lastSeq (c : Attached) : Nat := (c.sent.getLast?.bind (·.seq?)).getD c.base

/-- The entries sent, with the one that is being sent. -/
def stream (c : Attached) : List Msg :=
  c.sent ++ match c.attach.pc with
    | .replay m _ => [m]
    | _ => []

/-- The entries on the stream carry strictly increasing numbers, and outside a replay pass the
position is the number of the last one. -/
structure OnceEach (c : Attached) : Prop where
  increasing : (c.stream.filterMap ChannelMessage.seq?).Pairwise (· < ·)
  numbered : ∀ m ∈ c.stream, m.seq?.isSome = true
  sentUpTo_eq : (∀ m rest, c.attach.pc ≠ .replay m rest) → c.attach.sentUpTo = c.lastSeq

/-! ## Counting is right between aligned passes -/

/-- What the call has sent is the history between `last_seq_seen` and `sent_up_to`, and the pass
under way goes on there. -/
structure Faithful (H : List Msg) (c : Attached) : Prop where
  base_le : c.base ≤ c.attach.sentUpTo
  within : c.attach.sentUpTo ≤ H.length ∨ c.attach.sentUpTo = c.base
  sent_eq : c.sent = (H.take c.attach.sentUpTo).drop c.base
  pass : ∀ m rest, c.attach.pc = .replay m rest → SegmentAt H c.attach.sentUpTo (m :: rest)

variable {H H' : List Msg} {c : Attached}

theorem Faithful.start (H : List Msg) (quic : Bool) (token : String) (n : Nat) :
    Faithful H (.start quic token n) where
  base_le := le_rfl
  within := .inr rfl
  sent_eq := (List.drop_eq_nil_of_le (List.length_take_le n H)).symm
  pass := fun m rest hp => by cases hp

theorem Faithful.mono (h : Faithful H c) (hH : H <+: H') : Faithful H' c where
  base_le := h.base_le
  within := h.within.imp_left (·.trans hH.length_le)
  sent_eq := by
    rcases h.within with hle | heq
    · rw [take_mono hH hle]
      exact h.sent_eq
    · rw [h.sent_eq, heq, List.drop_eq_nil_of_le (List.length_take_le _ _),
        List.drop_eq_nil_of_le (List.length_take_le _ _)]
  pass := fun m rest hp => (h.pass m rest hp).mono hH

/-- A step that neither sends an entry nor begins a pass. -/
theorem Faithful.move (h : Faithful H c) {a : Attach} {upTo : Nat}
    (hsent : a.sentUpTo = c.attach.sentUpTo) (hpc : ∀ m rest, a.pc ≠ .replay m rest) :
    Faithful H { c with attach := a, upTo := upTo } where
  base_le := by rw [hsent]; exact h.base_le
  within := by rw [hsent]; exact h.within
  sent_eq := by rw [hsent]; exact h.sent_eq
  pass := fun m rest hp => absurd hp (hpc m rest)

/-- The position does not change when the next entry is taken up or the pass is left. -/
theorem Faithful.goes (h : Faithful H c) {b a : Attach} {l : List Msg} {upTo : Nat}
    (hb : b.sentUpTo = c.attach.sentUpTo) (hgoes : b.Goes l a)
    (hl : l = [] ∨ SegmentAt H c.attach.sentUpTo l) :
    Faithful H { c with attach := a, upTo := upTo } := by
  cases hgoes with
  | waits hpc =>
    refine h.move hb (fun m rest heq => ?_)
    rcases hpc with rfl | rfl <;> cases heq
  | @sends m rest =>
    refine ⟨hb ▸ h.base_le, hb ▸ h.within, hb ▸ h.sent_eq, fun m' rest' hp => ?_⟩
    cases hp
    exact hb ▸ hl.resolve_left (by simp)

/-- The entry under way is the one behind what was sent. -/
theorem Faithful.concat_eq (h : Faithful H c) {m : Msg} {rest : List Msg}
    (hp : c.attach.pc = .replay m rest) :
    c.sent ++ [m] = (H.take (c.attach.sentUpTo + 1)).drop c.base := by
  obtain ⟨hm, -⟩ := segmentAt_cons.mp (h.pass m rest hp)
  have hlt := (List.getElem?_eq_some_iff.mp hm).1
  have hbase : c.base ≤ (H.take c.attach.sentUpTo).length := by
    have := h.base_le
    rw [List.length_take]
    omega
  rw [List.take_add_one, hm, h.sent_eq, List.drop_append_of_le_length hbase]
  rfl

theorem Faithful.sent (h : Faithful H c) {m : Msg} {rest : List Msg} {a : Attach}
    (hp : c.attach.pc = .replay m rest)
    (hgoes : Attach.Goes { c.attach with sentUpTo := c.attach.sentUpTo + 1 } rest a) :
    Faithful H { c with attach := a, sent := c.sent ++ [m] } := by
  obtain ⟨hm, hrest⟩ := segmentAt_cons.mp (h.pass m rest hp)
  have hlt : c.attach.sentUpTo < H.length := (List.getElem?_eq_some_iff.mp hm).1
  have hnext : Faithful H { c with
      attach := { c.attach with sentUpTo := c.attach.sentUpTo + 1, pc := .select }
      sent := c.sent ++ [m] } :=
    ⟨Nat.le_succ_of_le h.base_le, .inl hlt, h.concat_eq hp, fun m' rest' hp' => by cases hp'⟩
  exact hnext.goes (b := { c.attach with sentUpTo := c.attach.sentUpTo + 1 }) rfl hgoes (.inr hrest)

/-! ## What that says about the stream -/

theorem Faithful.stream_sublist (h : Faithful H c) : c.stream.Sublist H := by
  have hsent : c.sent.Sublist H := by
    rw [h.sent_eq]
    exact (List.drop_sublist _ _).trans (List.take_sublist _ _)
  unfold stream
  split
  · rename_i m rest hp
    rw [h.concat_eq hp]
    exact (List.drop_sublist _ _).trans (List.take_sublist _ _)
  · rwa [List.append_nil]

theorem Faithful.lastSeq_eq (h : Faithful H c) (hnum : Numbered ChannelMessage.seq? H) :
    c.lastSeq = c.attach.sentUpTo := by
  unfold lastSeq
  by_cases heq : c.attach.sentUpTo = c.base
  · rw [h.sent_eq, heq, List.drop_eq_nil_of_le (List.length_take_le _ _)]
    rfl
  · obtain ⟨k, hk⟩ : ∃ k, c.attach.sentUpTo = k + 1 := ⟨c.attach.sentUpTo - 1, by
      have := h.base_le
      omega⟩
    have hlt : k < H.length := by
      have := h.within.resolve_right heq
      omega
    have hbase : c.base ≤ (H.take k).length := by
      have := h.base_le
      rw [List.length_take]
      omega
    have hget := List.getElem?_eq_getElem hlt
    have hlast : c.sent.getLast? = some H[k] := by
      rw [h.sent_eq, hk, List.take_add_one, hget, List.drop_append_of_le_length hbase]
      exact List.getLast?_concat
    rw [hlast, Option.bind_some, hnum k _ hget, hk]
    rfl

end Attached

theorem Numbered.increasing {H : List Msg} (h : Numbered ChannelMessage.seq? H) :
    (H.filterMap ChannelMessage.seq?).Pairwise (· < ·) := by
  rw [List.pairwise_filterMap, List.pairwise_iff_getElem]
  intro i j hi hj hij n hn n' hn'
  rw [h i _ (List.getElem?_eq_getElem hi)] at hn
  rw [h j _ (List.getElem?_eq_getElem hj)] at hn'
  cases hn
  cases hn'
  omega

theorem Attached.Faithful.onceEach {H : List Msg} {c : Attached} (h : c.Faithful H)
    (hnum : Numbered ChannelMessage.seq? H) : c.OnceEach where
  increasing := (Numbered.increasing hnum).sublist (h.stream_sublist.filterMap _)
  numbered := by
    intro m hm
    obtain ⟨i, hi⟩ := List.mem_iff_getElem?.mp (h.stream_sublist.subset hm)
    rw [hnum i m hi]
    rfl
  sentUpTo_eq := fun _ => (h.lastSeq_eq hnum).symm

/-- The position is at or behind the start of the log, or nothing is left to send. -/
def Attached.aligned (c : Attached) (l : OutboundLog) : Bool :=
  decide (l.trimmed ≤ c.attach.sentUpTo) || (l.after c.attach.sentUpTo).isEmpty

namespace Serving

/-! ## Runs whose passes are aligned -/

/-- A replay pass that the step begins, if any, begins at or behind the start of the log, or finds
nothing to send. -/
def passesAligned (x : Serving) : ServingLabel → Bool
  | .conn i .snapshot => x.conns[i]?.all fun c => c.aligned x.session.log
  | _ => true

variable {x x' : Serving}

theorem faithful_effect {c c' : Attached} {s s' : Session} {e : AttachEvent}
    (h : c.Faithful s.trace.pushed)
    (hafter : ∀ n, s'.log.after n = s.trace.pushed.drop (max n s'.log.trimmed))
    (hc : e = .snapshot → c.aligned s.log = true)
    (heff : c.Effect s e s' c') : c'.Faithful s.trace.pushed := by
  cases heff with
  | @turned a _ _ ha =>
    refine h.move ?_ (fun m rest hp' => by cases hp')
    rcases ha with rfl | rfl
    · rfl
    · rfl
  | pass hp he hs =>
    subst hs
    have hc := hc he
    rw [Attached.aligned, Bool.or_eq_true, decide_eq_true_eq, List.isEmpty_iff] at hc
    refine h.goes rfl (c.attach.goes_loopTop s') (hc.symm.imp_right fun hle => ?_)
    rw [hafter, max_eq_left hle]
    exact segmentAt_drop _ _
  | replayed hp he hs =>
    exact h.sent hp (Attach.goes_replayNext _ _ _)
  | acked hp he hs => exact h.move rfl (fun m rest hp' => by cases hp')
  | pinged hp hs => exact h.move rfl (fun m rest hp' => by cases hp')
  | left => exact h.move rfl (fun m rest hp' => by cases hp')

/-- What holds of every connection of a state. -/
def Each (P : Attached → Prop) (x : Serving) : Prop :=
  ∀ (i : Nat) (c : Attached), x.conns[i]? = some c → P c

/-- What a growing history and a call's own steps keep is kept for every connection,
whatever the others do. -/
theorem each_step {P : List Msg → Attached → Prop} {l : ServingLabel} (hok : x.running.Ok)
    (hmono : ∀ {H H' : List Msg} {c : Attached}, P H c → H <+: H' → P H' c)
    (hstart : ∀ quic token n, P x.history (.start quic token n))
    (hmoved : ∀ (i : Nat) (e : AttachEvent) (c c' : Attached) (s : Session), l = .conn i e →
      x.conns[i]? = some c → P x.history c →
      (∀ n, s.log.after n = x.history.drop (max n s.log.trimmed)) →
      c.Effect x.session e s c' → P x.history c')
    (h : x.Each (P x.history)) (hs : x.step l = some x') : x'.Each (P x'.history) := by
  have hkept : x.Each (P x'.history) := fun i c hget => hmono (h i c hget) (history_mono hs)
  cases Step.of_step hs with
  | task => exact hkept
  | publish => exact hkept
  | lose => exact hkept
  | handover => exact hkept
  | @attach quic token n =>
    exact Table.forall_concat (P := fun _ => P x.history) hkept (hstart quic token n)
  | @conn i e c a s hget ha =>
    have hnew : P x.session.trace.pushed (c.moved x.session e a) :=
      hmoved i e c _ s rfl hget (h i c hget) (hok.after_attends ha) (.of_step ha)
    show Each (P s.trace.pushed) _
    rw [(Attach.Attends.of_step ha).trace]
    exact Table.forall_set (P := fun _ => P x.session.trace.pushed) h hnew
  | agentAttach => exact hkept
  | agentDetach => exact hkept
  | collect => exact hkept
  | expire => exact hkept

theorem each_under {P : Serving → Attached → Prop} {C : Serving → ServingLabel → Prop}
    (h : machine.Under C x)
    (hstep : ∀ (x : Serving) (l : ServingLabel) (x' : Serving), machine.Under C x →
      x.Each (P x) → C x l → x.step l = some x' → x'.Each (P x')) : x.Each (P x) := by
  induction h with
  | init hinit =>
    obtain ⟨s, -, -, rfl⟩ := hinit
    exact fun i c hget => by cases hget
  | step hunder hc hs ih => exact hstep _ _ _ hunder ih hc hs

/-- A step whose pass is aligned keeps every connection faithful. -/
theorem faithful_step {l : ServingLabel} (hok : x.running.Ok)
    (h : x.Each (Attached.Faithful x.history)) (hc : x.passesAligned l = true)
    (hs : x.step l = some x') : x'.Each (Attached.Faithful x'.history) := by
  refine each_step hok (fun h hH => h.mono hH) (fun _ _ _ => .start _ _ _ _) ?_ h hs
  rintro i e c c' s rfl hget hfaithful hafter heff
  refine faithful_effect hfaithful hafter (fun he => ?_) heff
  rw [he] at hc
  simpa only [passesAligned, hget, Option.all_some] using hc

theorem faithful_under (h : machine.Under (fun x l => x.passesAligned l = true) x) :
    x.Each (Attached.Faithful x.history) :=
  each_under (P := fun x => Attached.Faithful x.history) h
    fun _ _ _ hunder h hc hs => faithful_step (ok_under hunder) h hc hs

/-- **Each connection receives every entry at most once**, in runs whose replay passes are
aligned. -/
theorem received_once (h : machine.Under (fun x l => x.passesAligned l = true) x) :
    x.Each Attached.OnceEach :=
  fun i c hget => (faithful_under h i c hget).onceEach (ok_under h).numbered

/-! ## A pass that is not aligned -/

/-- The pass under way is ahead of the count. -/
def Ahead (H : List Msg) (c : Attached) : Prop :=
  ∃ m rest n, c.attach.pc = .replay m rest ∧ SegmentAt H n (m :: rest) ∧ c.attach.sentUpTo < n

/-- A pass that is not aligned is ahead of the count from its beginning. -/
theorem ahead_of_not_aligned {c c' : Attached} {s s' : Session}
    (hafter : ∀ n, s'.log.after n = s.trace.pushed.drop (max n s'.log.trimmed))
    (halign : c.aligned s.log = false) (heff : c.Effect s .snapshot s' c') :
    Ahead s.trace.pushed c' := by
  cases heff with
  | turned he => exact absurd rfl he
  | pass _ _ hs =>
    subst hs
    rw [Attached.aligned, Bool.or_eq_false_iff, decide_eq_false_iff_not, not_le,
      List.isEmpty_eq_false_iff] at halign
    obtain ⟨hbehind, hne⟩ := halign
    have hgoes := c.attach.goes_loopTop s'
    obtain ⟨m, rest, hlist⟩ := List.exists_cons_of_ne_nil hne
    rw [hlist] at hgoes
    generalize c.attach.loopTop s' = a' at hgoes
    cases hgoes
    refine ⟨m, rest, s'.log.trimmed, rfl, ?_, hbehind⟩
    rw [← hlist, hafter, max_eq_right hbehind.le]
    exact segmentAt_drop _ _
  | replayed _ he => cases he
  | acked _ he => cases he
  | pinged _ he => cases he
  | left _ he => exact absurd rfl he

/-- Each entry of such a pass leaves the count behind the number that was sent, up to the end of the
pass. -/
theorem Ahead.sent {c c' : Attached} {s s' : Session}
    (hnum : Numbered ChannelMessage.seq? s.trace.pushed) (h : Ahead s.trace.pushed c)
    (heff : c.Effect s .sent s' c') :
    c'.attach.sentUpTo < c'.lastSeq ∧ (Ahead s.trace.pushed c' ∨ ¬ c'.OnceEach) := by
  obtain ⟨m, rest, n, hp, hseg, hlt⟩ := h
  obtain ⟨hm, hrest⟩ := segmentAt_cons.mp hseg
  cases heff with
  | turned _ hpc =>
    rcases hpc with hp' | hp' | hp'
    all_goals cases hp.symm.trans hp'
  | pass hp' => cases hp.symm.trans hp'
  | @replayed m' rest' hp' =>
    obtain ⟨rfl, rfl⟩ : m' = m ∧ rest' = rest := by
      rw [hp] at hp'
      cases hp'
      exact ⟨rfl, rfl⟩
    have hgoes := Attach.goes_replayNext { c.attach with sentUpTo := c.attach.sentUpTo + 1 }
      s.stdinApplied rest'
    generalize Attach.replayNext _ _ _ = a at hgoes
    have hlast : ∀ b : Attach, ({ c with attach := b, sent := c.sent ++ [m'] } : Attached).lastSeq =
        n + 1 := by
      intro b
      show ((c.sent ++ [m']).getLast?.bind (·.seq?)).getD c.base = n + 1
      rw [List.getLast?_concat, Option.bind_some, hnum n m' hm]
      rfl
    cases hgoes with
    | waits hpc =>
      rw [hlast]
      refine ⟨Nat.succ_lt_succ hlt, .inr fun honce => ?_⟩
      have := honce.sentUpTo_eq (fun m rest heq => ?_)
      · rw [hlast] at this
        have : c.attach.sentUpTo + 1 = n + 1 := this
        omega
      · rcases hpc with rfl | rfl <;> cases heq
    | sends =>
      rw [hlast]
      exact ⟨Nat.succ_lt_succ hlt, .inl ⟨_, _, n + 1, rfl, hrest, Nat.succ_lt_succ hlt⟩⟩
  | acked hp' => cases hp.symm.trans hp'
  | pinged hp' => cases hp.symm.trans hp'
  | left he => exact absurd rfl he

/-- The session before its first connection. -/
def fresh : Session := .start true false (.start (.pipe 0) (.pipe 1) (.pipe 2) (.pipe 3) 42)

theorem wf_fresh : fresh.Wf := Session.wf_start _ _ _ _ _ _ _

/-- A chunk of output is logged and published. -/
def logs (data : Data) : List ServingLabel := [.task (.outputRead .out (.data data)), .publish]

/-- Two chunks are sent to a connection and acknowledged. -/
def acknowledgedRun : List ServingLabel :=
  logs [104] ++ logs [105] ++
    [.attach false "t" 0, .conn 0 .sent, .conn 0 .snapshot, .conn 0 .sent, .conn 0 .sent,
      .conn 0 (.frame (.ack 2))]

/-- The client comes back where it was, and gets what comes next. -/
def resumedRun : List ServingLabel :=
  acknowledgedRun ++ [.attach false "t" 2, .conn 1 .sent, .conn 1 .snapshot] ++ logs [106] ++
    [.conn 1 .changed, .conn 1 .snapshot, .conn 1 .sent]

def resumed : Serving :=
  (machine.runIf (fun x l => x.passesAligned l) (start fresh) resumedRun).get (by decide)

theorem resumed_received_once :
    machine.Under (fun x l => x.passesAligned l = true) resumed ∧
    resumed.conns.map (·.sent) = [[.stdout 1 [104], .stdout 2 [105]], [.stdout 3 [106]]] ∧
    resumed.Each Attached.OnceEach := by
  have hunder : machine.Under (fun x l => x.passesAligned l = true) resumed :=
    Machine.under_of_runIf (.init ⟨_, wf_fresh, rfl, rfl⟩) (Option.some_get _).symm
  exact ⟨hunder, by decide, received_once hunder⟩

/-- A connection resumes from the beginning, after another one has acknowledged two chunks. -/
def behindRun : List ServingLabel :=
  acknowledgedRun ++ [.attach false "t" 0, .conn 1 .sent, .conn 1 .snapshot] ++ logs [106] ++
    [.conn 1 .changed, .conn 1 .snapshot, .conn 1 .sent]

/-- A keepalive ping later. -/
def resent : Serving :=
  (machine.run (start fresh)
    (behindRun ++ [.conn 1 (.tick false), .conn 1 .sent, .conn 1 .snapshot, .conn 1 .sent])).get
    (by decide)

/-- The third chunk is sent twice, as the first and the second entry of the connection. -/
theorem resent_entry :
    machine.Reachable resent ∧
    resent.conns[1]?.map (fun c => (c.sent, c.attach.sentUpTo, c.attach.pc)) =
      some ([.stdout 3 [106], .stdout 3 [106]], 2, .select) ∧
    ¬ resent.Each Attached.OnceEach := by
  refine ⟨?_, by decide, fun h => ?_⟩
  · exact Machine.reachable_of_run ⟨_, wf_fresh, rfl, rfl⟩ (Option.some_get _).symm
  · have hget : resent.conns[1]? = some (resent.conns.get ⟨1, by decide⟩) := by decide
    exact absurd (h 1 _ hget).increasing (by decide)

end Serving

end HerdrEternal
