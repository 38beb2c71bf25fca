import HerdrEternal.Client.Received
import HerdrEternal.Client.Resend
import HerdrEternal.System.Resume

/-!
# Output is delivered exactly once

**Theorem (`output_exactly_once`).** In every reachable state of a resumable exec the client has
written a prefix of what the session task read from the child, chunk for chunk in log order; when
`run_exec` returns a code, it has written everything and the code is that of the log's Exit entry;
and nothing is ever trimmed from the log that the client has not written and flushed.

The proof is an induction over the run with the invariant `Delivered`. Let `H` be everything ever
pushed to the log.

* *Client*: it has written the output of the first `last_server_seq` entries of `H`
  (`Client.Received`).
* *Live connection*: what its stream carries is a contiguous piece of `H` that starts at or before
  the client's position and ends at the server's `sent_up_to` (`Streams`). So the next entry the
  client does not skip is exactly the next one.
* *Acks*: no connection, live or stale, carries an ack beyond what the client persisted, and the
  log was not trimmed beyond that either. Hence a replay from the client's position finds the
  entries it asks for, no matter which connection an ack arrived on.
-/

namespace HerdrEternal

open History

/-! ## What a stream carries -/

/-- The log entry on the wire, if it is one. -/
def Wire.entry? : Wire → Option Msg
  | .msg m => if m.isEntry then some m else none
  | .ping => none

def entries (ws : List Wire) : List Msg := ws.filterMap Wire.entry?

@[simp] theorem entries_nil : entries [] = [] := rfl

theorem entries_concat (ws : List Wire) (w : Wire) :
    entries (ws ++ [w]) = entries ws ++ w.entry?.toList := by
  rw [entries, List.filterMap_append]
  cases h : w.entry? <;> simp [entries, h]

theorem entries_cons_msg (ws : List Wire) {m : Msg} (h : m.isEntry = true) :
    entries (.msg m :: ws) = m :: entries ws := by
  simp [entries, Wire.entry?, h]

theorem entries_cons_none (ws : List Wire) {w : Wire} (h : w.entry? = none) :
    entries (w :: ws) = entries ws := by
  simp [entries, h]

/-! ## The server's side of a connection -/

/-- The stream of a connection is a piece of the history: from at or before the client's position
up to `sent_up_to`, as long as `attach` is still there to send. -/
structure Streams (H : List Msg) (last : Nat) (ws : List Wire) (dups : List Msg) (a : Attach) :
    Prop where
  segment : ∃ x ≤ last, SegmentAt H x (entries ws) ∧
    (a.pc ≠ .returned → x + (entries ws).length = a.sentUpTo)
  last_le : a.pc ≠ .returned → last ≤ a.sentUpTo
  sent_le : a.sentUpTo ≤ H.length
  replay : ∀ m rest, a.pc = .replay m rest → SegmentAt H a.sentUpTo (m :: rest)
  dups : ∀ m ∈ dups, m ∈ H.take a.sentUpTo ∧ m.isExit = false

/-- What a connection is to the client's position: not yet accepted, or streaming from there. -/
def Relays (H : List Msg) (last : Nat) (k : Conn) : Prop :=
  match k.attach with
  | none => k.s2c = [] ∧ k.s2cDup = [] ∧ k.lastSeqSeen = last
  | some a => Streams H last k.s2c k.s2cDup a

section

variable {H H' : List Msg} {last : Nat} {ws : List Wire} {dups : List Msg} {a a' : Attach}
  {s s' : Session}

theorem Streams.mono (h : Streams H last ws dups a) (hH : H <+: H') :
    Streams H' last ws dups a := by
  obtain ⟨x, hx, hseg, hlen⟩ := h.segment
  refine ⟨⟨x, hx, hseg.mono hH, hlen⟩, h.last_le, h.sent_le.trans hH.length_le, ?_, ?_⟩
  · intro m rest hp
    exact (h.replay m rest hp).mono hH
  · intro m hm
    rw [take_mono hH h.sent_le]
    exact h.dups m hm

theorem Relays.mono {k : Conn} (h : Relays H last k) (hH : H <+: H') : Relays H' last k := by
  unfold Relays at h ⊢
  split at h
  · exact h
  · exact h.mono hH

theorem Streams.move (h : Streams H last ws dups a) (hs : a'.sentUpTo = a.sentUpTo)
    (hr : a.pc = .returned → a'.pc = .returned)
    (hreplay : ∀ m rest, a'.pc = .replay m rest → SegmentAt H a'.sentUpTo (m :: rest)) :
    Streams H last ws dups a' := by
  obtain ⟨x, hx, hseg, hlen⟩ := h.segment
  refine ⟨⟨x, hx, hseg, ?_⟩, ?_, hs ▸ h.sent_le, hreplay, hs ▸ h.dups⟩
  · intro hne
    rw [hs]
    exact hlen fun h => hne (hr h)
  · intro hne
    rw [hs]
    exact h.last_le fun h => hne (hr h)

theorem Streams.return_ (h : Streams H last ws dups a) : Streams H last ws dups a.return_ :=
  h.move rfl (fun _ => rfl) (fun _ _ h => by cases h)

theorem Streams.continue_ (h : Streams H last ws dups a) (hne : a.pc ≠ .returned) :
    Streams H last ws dups a.continue_ :=
  h.move rfl (fun hr => absurd hr hne) (fun _ _ h => by cases h)

theorem Streams.observe (h : Streams H last ws dups a) : Streams H last ws dups (a.observe s) :=
  h.move rfl id h.replay

/-- `replayNext` keeps the position; what it starts to send is what it was given. -/
theorem Attach.replayNext_spec (a : Attach) (applied : Nat) (rest : List Msg) :
    (a.replayNext applied rest).sentUpTo = a.sentUpTo ∧
    (a.replayNext applied rest).pc ≠ .returned ∧
    ∀ m rest', (a.replayNext applied rest).pc = .replay m rest' → rest = m :: rest' := by
  cases rest with
  | nil =>
    unfold replayNext afterReplay
    split_ifs
    · exact ⟨rfl, by simp, by simp⟩
    · exact ⟨rfl, by simp, by simp⟩
  | cons m rest =>
    refine ⟨rfl, (fun h => by cases h), ?_⟩
    intro m' rest' hp
    cases hp
    rfl

theorem Streams.replayNext (h : Streams H last ws dups a) (hne : a.pc ≠ .returned)
    (applied : Nat) {rest : List Msg} (hrest : SegmentAt H a.sentUpTo rest) :
    Streams H last ws dups (a.replayNext applied rest) := by
  obtain ⟨hsent, -, hreplay⟩ := a.replayNext_spec applied rest
  refine h.move hsent (fun hr => absurd hr hne) ?_
  intro m rest' hp
  rw [hsent, ← hreplay m rest' hp]
  exact hrest

/-- A replay pass starts where the last one ended, because the log still holds that entry. -/
theorem Streams.loopTop (h : Streams H last ws dups a) (hne : a.pc ≠ .returned)
    (hlog : s.log.Refines H) (ht : s.log.trimmed ≤ last) :
    Streams H last ws dups (a.loopTop s) := by
  refine h.replayNext hne _ ?_
  rw [hlog.after_eq, max_eq_left (ht.trans (h.last_le hne))]
  exact segmentAt_drop H _

theorem Streams.put (h : Streams H last ws dups a) {w : Wire} (hw : w.entry? = none) :
    Streams H last (ws ++ [w]) dups a := by
  have hent : entries (ws ++ [w]) = entries ws := by rw [entries_concat, hw]; simp
  exact ⟨hent ▸ h.segment, h.last_le, h.sent_le, h.replay, h.dups⟩

/-- The entry under way extends the piece of history on the stream. -/
theorem Streams.segment_put (h : Streams H last ws dups a) {m : Msg} {rest : List Msg}
    (hp : a.pc = .replay m rest) (hm : m.isEntry = true) :
    ∃ x ≤ last, SegmentAt H x (entries (ws ++ [.msg m])) ∧
      x + (entries (ws ++ [.msg m])).length = a.sentUpTo + 1 := by
  obtain ⟨x, hx, hseg, hlen⟩ := h.segment
  have hlen := hlen (by rw [hp]; simp)
  have hent : entries (ws ++ [.msg m]) = entries ws ++ [m] := by
    rw [entries_concat, Wire.entry?, if_pos hm]
    rfl
  rw [hent]
  refine ⟨x, hx, hseg.concat ?_, by simp; omega⟩
  rw [hlen]
  exact (segmentAt_cons.mp (h.replay m rest hp)).1

/-- Sending the next log entry, with its duplicate. -/
theorem Streams.putEntry (h : Streams H last ws dups a) {m : Msg} {rest : List Msg}
    (hp : a.pc = .replay m rest) (hm : m.isEntry = true) {dup : List Msg}
    (hdup : ∀ m' ∈ dup, m' = m ∧ m.isExit = false) (applied : Nat) :
    Streams H last (ws ++ [.msg m]) (dups ++ dup)
      ({ a with sentUpTo := a.sentUpTo + 1 }.replayNext applied rest) := by
  obtain ⟨x, hx, hseg, hlen⟩ := h.segment_put hp hm
  obtain ⟨hget, hrest⟩ := segmentAt_cons.mp (h.replay m rest hp)
  have hne : a.pc ≠ .returned := by rw [hp]; simp
  -- First the entry goes out, then the pass moves on.
  have hsent : Streams H last (ws ++ [.msg m]) (dups ++ dup)
      { a with sentUpTo := a.sentUpTo + 1, pc := .select } := by
    refine ⟨⟨x, hx, hseg, fun _ => hlen⟩, fun _ => (h.last_le hne).trans (Nat.le_succ _),
      Nat.succ_le_of_lt (List.getElem?_eq_some_iff.mp hget).1, by simp, ?_⟩
    intro m' hm'
    have htake : H.take (a.sentUpTo + 1) = H.take a.sentUpTo ++ [m] := by
      rw [List.take_add_one, hget]
      rfl
    rw [htake]
    rcases List.mem_append.mp hm' with hm' | hm'
    · exact ⟨List.mem_append_left _ (h.dups m' hm').1, (h.dups m' hm').2⟩
    · obtain ⟨rfl, hexit⟩ := hdup m' hm'
      exact ⟨List.mem_append_right _ (List.mem_singleton_self _), hexit⟩
  have := hsent.replayNext (by simp) applied hrest
  cases rest <;> exact this

/-! ## One step of either end -/

/-- What a suspended send puts on the wire: the entry under way, or no entry at all. -/
theorem Attach.sending_cases {w : Wire} (h : a.sending s = some w) :
    (∃ m rest, a.pc = .replay m rest ∧ w = .msg m) ∨
      (w.entry? = none ∧ ∀ m rest, a.pc ≠ .replay m rest) := by
  unfold sending at h
  split at h
  · cases h
    exact .inr ⟨rfl, by simp [*]⟩
  · rename_i m rest hp
    cases h
    exact .inl ⟨m, rest, hp, rfl⟩
  · cases h
    exact .inr ⟨rfl, by simp [*]⟩
  · cases h
    exact .inr ⟨rfl, by simp [*]⟩
  · cases h

theorem Streams.entry_replay (h : Streams H last ws dups a) (hent : ∀ m ∈ H, m.isEntry = true)
    {m : Msg} {rest : List Msg} (hp : a.pc = .replay m rest) : m.isEntry = true :=
  hent m (List.mem_of_getElem? (segmentAt_cons.mp (h.replay m rest hp)).1)

theorem Streams.sent {k : Conn} {w : Wire} {q : Bool} (h : Streams H last k.s2c k.s2cDup a)
    (hent : ∀ m ∈ H, m.isEntry = true) (hw : a.sending s = some w) (hs : a.Step q s .sent a' s') :
    Streams H last (Sys.attachPut k a w).s2c (Sys.attachPut k a w).s2cDup a' := by
  rcases Attach.sending_cases hw with ⟨m, rest, hp, rfl⟩ | ⟨hnone, hne⟩
  · cases hs with
    | replayed hp' =>
      rw [hp] at hp'
      cases hp'
      have hdup : ∀ m' ∈ Sys.duplicate k.quic m, m' = m ∧ m.isExit = false := by
        intro m' hm'
        unfold Sys.duplicate at hm'
        split_ifs at hm' with hd
        · refine ⟨List.mem_singleton.mp hm', ?_⟩
          cases m <;> first | rfl | simp [ChannelMessage.worthDuplicating] at hd
        · cases hm'
      have := h.putEntry hp (h.entry_replay hent hp) hdup s.stdinApplied
      simpa only [Sys.attachPut, hp] using this
    | started hp' => rw [hp] at hp'; cases hp'
    | acked hp' => rw [hp] at hp'; cases hp'
    | pinged hp' => rw [hp] at hp'; cases hp'
  · have hput : Streams H last (Sys.attachPut k a w).s2c (Sys.attachPut k a w).s2cDup a := by
      have hdup : (Sys.attachPut k a w).s2cDup = k.s2cDup := by
        unfold Sys.attachPut
        dsimp only
        split
        · rename_i m rest hp
          exact absurd hp (hne m rest)
        · exact List.append_nil _
      rw [hdup]
      exact h.put hnone
    cases hs with
    | replayed hp' => exact absurd hp' (hne _ _)
    | started hp =>
      have hne' : (a.observe s).pc ≠ .returned := by simp [Attach.observe, hp]
      exact hput.observe.continue_ hne'
    | acked hp => exact hput.move rfl (by rw [hp]; simp) (by simp)
    | pinged hp => exact hput.continue_ (by rw [hp]; simp)

/-- A send fails although its message got through. -/
theorem Streams.late {w : Wire} (h : Streams H last ws dups a)
    (hent : ∀ m ∈ H, m.isEntry = true) (hw : a.sending s = some w) :
    Streams H last (ws ++ [w]) dups a.return_ := by
  rcases Attach.sending_cases hw with ⟨m, rest, hp, rfl⟩ | ⟨hnone, -⟩
  · obtain ⟨x, hx, hseg, -⟩ := h.segment_put hp (h.entry_replay hent hp)
    exact ⟨⟨x, hx, hseg, fun hne => absurd rfl hne⟩, fun hne => absurd rfl hne, h.sent_le,
      (fun _ _ h => by cases h),
      h.dups⟩
  · exact (h.put hnone).return_

/-- Everything else `attach` does puts nothing on the stream. -/
theorem Streams.other {q : Bool} {e : AttachEvent} (h : Streams H last ws dups a)
    (hs : a.Step q s e a' s') (he : e ≠ .sent) (hlog : s'.log.Refines H)
    (ht : s'.log.trimmed ≤ last) : Streams H last ws dups a' := by
  have hsel : a.pc = .select → a.pc ≠ .returned := by
    intro hp
    rw [hp]
    simp
  cases hs with
  | started => exact absurd rfl he
  | replayed => exact absurd rfl he
  | acked => exact absurd rfl he
  | pinged => exact absurd rfl he
  | snapshot hp => exact h.loopTop (by rw [hp]; simp) hlog ht
  | sendFailed => exact h.return_
  | expired => exact h.return_
  | tick hp => exact h.move rfl (fun hr => absurd hr (hsel hp)) (by simp)
  | changed hp =>
    have hne : (a.observe s).pc ≠ .returned := hsel hp
    exact h.observe.continue_ hne
  | delivered => exact h.return_
  | trimmed hp => exact h.continue_ (hsel hp)
  | frame hp => exact h.continue_ (hsel hp)
  | datagram hp => exact h.continue_ (hsel hp)
  | badDatagram hp => exact h.continue_ (hsel hp)
  | badFrame => exact h.return_
  | closed => exact h.return_
  | failed => exact h.return_

/-- The client reads an entry: it is at or before the client's position. -/
theorem Streams.take {m : Msg} (h : Streams H last (.msg m :: ws) dups a)
    (hm : m.isEntry = true) :
    ∃ x ≤ last, H[x]? = some m ∧
      ∀ last', x < last' → last' ≤ max last (x + 1) → Streams H last' ws dups a := by
  obtain ⟨x, hx, hseg, hlen⟩ := h.segment
  rw [entries_cons_msg ws hm] at hseg hlen
  obtain ⟨hget, hseg⟩ := segmentAt_cons.mp hseg
  refine ⟨x, hx, hget, fun last' hlt hle => ?_⟩
  refine ⟨⟨x + 1, hlt, hseg, ?_⟩, ?_, h.sent_le, h.replay, h.dups⟩
  · intro hne
    rw [← hlen hne, List.length_cons]
    omega
  · intro hne
    have := h.last_le hne
    have := hlen hne
    rw [List.length_cons] at this
    omega

theorem Streams.skip {w : Wire} (h : Streams H last (w :: ws) dups a) (hw : w.entry? = none) :
    Streams H last ws dups a :=
  ⟨entries_cons_none ws hw ▸ h.segment, h.last_le, h.sent_le, h.replay, h.dups⟩

/-- The client takes a datagram: the server sent its original before. -/
theorem Streams.advance (h : Streams H last ws dups a) (hn : Numbered ChannelMessage.seq? H)
    {m : Msg} (hm : m ∈ dups) {x last' : Nat} (hx : m.seq? = some (x + 1)) (hle : last ≤ last')
    (hle' : last' ≤ max last (x + 1)) : Streams H last' ws dups a := by
  obtain ⟨y, hy, hseg, hlen⟩ := h.segment
  refine ⟨⟨y, hy.trans hle, hseg, hlen⟩, ?_, h.sent_le, h.replay, h.dups⟩
  intro hne
  have hlast := h.last_le hne
  have hsent : x + 1 ≤ a.sentUpTo := by
    obtain ⟨i, hi⟩ := List.mem_iff_getElem?.mp (h.dups m hm).1
    have hlt : i < a.sentUpTo := by
      have := (List.getElem?_eq_some_iff.mp hi).1
      rw [List.length_take] at this
      omega
    rw [List.getElem?_take_of_lt hlt] at hi
    have := hn i m hi
    rw [hx, Option.some.injEq] at this
    omega
  omega

/-! ## What `attach` does to the session -/

theorem Attach.Step.session {q : Bool} {e : AttachEvent} (h : a.Step q s e a' s') :
    s'.trace = s.trace ∧ s'.task = s.task ∧
      (s'.log = s.log ∨ ∃ seq, e = .frame (.ack seq) ∧ s'.log = s.log.trim seq) := by
  have hdetach : s.detach.trace = s.trace ∧ s.detach.task = s.task ∧ s.detach.log = s.log := by
    unfold Session.detach
    split_ifs
    · exact ⟨rfl, rfl, rfl⟩
    · exact ⟨rfl, rfl, rfl⟩
  cases h with
  | expired => exact ⟨hdetach.1, hdetach.2.1, .inl hdetach.2.2⟩
  | closed => exact ⟨hdetach.1, hdetach.2.1, .inl hdetach.2.2⟩
  | failed => exact ⟨hdetach.1, hdetach.2.1, .inl hdetach.2.2⟩
  | delivered => exact ⟨rfl, rfl, .inr ⟨_, rfl, rfl⟩⟩
  | trimmed => exact ⟨rfl, rfl, .inr ⟨_, rfl, rfl⟩⟩
  | _ => exact ⟨rfl, rfl, .inl rfl⟩

theorem Attach.Step.wf {q : Bool} {e : AttachEvent} (h : a.Step q s e a' s') (hs : s.Wf) :
    s'.Wf := by
  obtain ⟨htrace, htask, hlog⟩ := h.session
  have hexit : s'.ExitOk := by
    unfold Session.ExitOk Session.NoExit
    rw [htrace, htask]
    exact hs.exitOk
  rcases hlog with hlog | ⟨seq, -, hlog⟩
  · exact ⟨hs.logged.congr hlog (by rw [htrace]) (by rw [htrace]) (by rw [htask]), hexit⟩
  · have := (hs.trimLog seq).logged
    exact ⟨this.congr hlog (by rw [htrace]; rfl) (by rw [htrace]; rfl) (by rw [htask]; rfl), hexit⟩

end

/-! ## Acks -/

/-- No ack among `ws` is beyond `p`. -/
def AcksBelow (p : Nat) (ws : List Wire) : Prop := ∀ seq, .msg (.ack seq) ∈ ws → seq ≤ p

theorem AcksBelow.mono {p p' : Nat} {ws ws' : List Wire} (h : AcksBelow p ws) (hp : p ≤ p')
    (hws : ∀ w ∈ ws', w ∈ ws) : AcksBelow p' ws' :=
  fun seq hmem => (h seq (hws _ hmem)).trans hp

theorem AcksBelow.concat {p : Nat} {ws : List Wire} {w : Wire} (h : AcksBelow p ws)
    (hw : ∀ seq, w = .msg (.ack seq) → seq ≤ p) : AcksBelow p (ws ++ [w]) := by
  intro seq hmem
  rcases List.mem_append.mp hmem with hmem | hmem
  · exact h seq hmem
  · exact hw seq (List.mem_singleton.mp hmem).symm

namespace Client

variable {H : List Msg} {c : Client}

theorem Received.ack_le (h : Received H c) (hb : Buffers c) {seq : Nat}
    (hw : c.sending = some (.msg (.ack seq))) : seq ≤ c.trace.persisted := by
  have hstdin : ∀ m ∈ c.pc.pending, m.isStdin = true := fun m hm => hb.stdin m (hb.pending m hm)
  unfold sending at hw
  split at hw
  · rename_i m rest hp
    cases hw
    cases hstdin (.ack seq) (by rw [hp]; exact List.mem_cons_self ..)
  · rename_i m hp
    cases hw
    cases hstdin (.ack seq) (by rw [hp]; exact List.mem_cons_self ..)
  · cases hw
  · rename_i seq' hp
    cases hw
    exact (h.of_pc hp).2
  · rename_i seq' code hp
    cases hw
    exact (h.of_pc hp).2
  · cases hw

theorem Received.persisted_le (h : Received H c) (ha : c.attached = true) :
    c.trace.persisted ≤ c.lastServerSeq := by
  cases hp : c.pc with
  | writing => exact Behind.persisted_le (h.of_pc hp)
  | flushing => exact Behind.persisted_le (h.of_pc hp)
  | sendAck => exact (h.of_pc hp).1.persisted_eq.le
  | sendExitAck => simp [attached, hp] at ha
  | returned => simp [attached, hp] at ha
  | _ => exact (Synced.persisted_eq (h.of_pc hp)).le

end Client

/-! ## The invariant -/

namespace Sys

/-- The invariant of a run, with the pushed messages as the history. -/
structure Delivered (s : Sys) : Prop where
  wf : s.session.Wf
  received : s.client.Received s.session.trace.pushed
  buffers : s.client.Buffers
  acks : ∀ k ∈ s.conns, AcksBelow s.client.trace.persisted k.c2s
  trimmed_le : s.session.log.trimmed ≤ s.client.trace.persisted
  live : s.client.attached = true →
    Relays s.session.trace.pushed s.client.lastServerSeq s.live

variable {s s' : Sys}

theorem delivered_start (token : String) (tokenSource : TokenSource) (agent quic : Bool)
    (stdin stdout stderr exit : Fd) (pgid : Int32) :
    Delivered (.start token tokenSource agent quic (.start stdin stdout stderr exit pgid)) where
  wf := Session.wf_start true agent stdin stdout stderr exit pgid
  received := ⟨le_rfl, (fun _ h => by cases h), rfl, rfl, rfl, rfl⟩
  buffers := ⟨(fun _ h => by cases h), (fun _ h => by cases h), fun _ h => by cases h⟩
  acks := by
    intro k hk
    rw [List.mem_singleton.mp hk]
    intro n hn
    cases hn
  trimmed_le := le_rfl
  live _ := ⟨⟨0, le_rfl, SegmentAt.nil _ _, fun _ => rfl⟩, fun _ => le_rfl, le_rfl,
    (fun _ _ h => by cases h), fun _ h => by cases h⟩

/-- A step of the client that brings no message. -/
theorem Delivered.quiet {q : Bool} {e : ClientEvent} {c : Client} (h : Delivered s)
    (hs : s.client.Step q e c) (he : Client.quiet e = true) :
    Delivered { s with client := c } := by
  obtain ⟨hrec, hstays⟩ := h.received.quiet hs he
  refine ⟨h.wf, hrec, h.buffers.step hs, ?_, h.trimmed_le.trans hstays.persisted_le, ?_⟩
  · intro k hk
    exact (h.acks k hk).mono hstays.persisted_le fun _ => id
  · intro ha
    show Relays _ c.lastServerSeq _
    rw [hstays.last_eq]
    exact h.live (hstays.attached ha)

/-- A message of the client goes onto the live stream. -/
theorem Delivered.put (h : Delivered s) {w : Wire} (dups : List Msg)
    (hw : ∀ seq, w = .msg (.ack seq) → seq ≤ s.client.trace.persisted) :
    Delivered { s with live := { s.live with c2s := s.live.c2s ++ [w], c2sDup := dups } } := by
  refine ⟨h.wf, h.received, h.buffers, ?_, h.trimmed_le, h.live⟩
  intro k hk
  rcases List.mem_cons.mp hk with rfl | hk
  · exact (h.acks s.live (List.mem_cons_self ..)).concat hw
  · exact h.acks k (List.mem_cons_of_mem _ hk)

/-- The client opens a new connection, and the old one becomes stale. -/
theorem Delivered.connect {quic : Bool} {c : Client} (h : Delivered s)
    (hs : s.client.Step quic .authenticated c) :
    Delivered { s with client := c, live := .open_ quic c.lastServerSeq,
                       stale := s.live :: s.stale } := by
  have hbuf := h.buffers.step hs
  cases hs with
  | authenticated hp =>
    refine ⟨h.wf, (h.received.of_pc hp :), hbuf, ?_, h.trimmed_le, fun _ => ⟨rfl, rfl, rfl⟩⟩
    intro k hk
    rcases List.mem_cons.mp hk with rfl | hk
    · intro n hn
      cases hn
    · exact h.acks k hk

/-- A message reaches the client on the live stream. -/
theorem Delivered.recv {q : Bool} {m : Msg} {rest : List Wire} {c : Client} (h : Delivered s)
    (hq : s.live.s2c = .msg m :: rest) (hs : s.client.Step q (.frame m) c) :
    Delivered { s with client := c, live := { s.live with s2c := rest } } := by
  -- The client reads only while it is attached, and there is only something to read once the
  -- connection was accepted.
  have hatt : s.client.attached = true := by
    cases hs with
    | reply hp => simp [Client.attached, hp]
    | frame hp => simp [Client.attached, hp]
  have hlive := h.live hatt
  have hacks : ∀ {p}, s.client.trace.persisted ≤ p →
      ∀ k ∈ conns { s with client := c, live := { s.live with s2c := rest } },
        AcksBelow p k.c2s := by
    intro p hp k hk
    rcases List.mem_cons.mp hk with rfl | hk
    · exact (h.acks s.live (List.mem_cons_self ..)).mono hp fun _ => id
    · exact (h.acks k (List.mem_cons_of_mem _ hk)).mono hp fun _ => id
  have hbuf := h.buffers.step hs
  cases ha : s.live.attach with
  | none =>
    rw [Relays, ha, hq] at hlive
    cases hlive.1
  | some a =>
    simp only [Relays, ha, hq] at hlive
    by_cases hm : m.isEntry
    · obtain ⟨x, hx, hget, hnext⟩ := hlive.take hm
      have hseq := h.wf.logged.numbered x m hget
      have htakes := h.received.frame hs hseq hm hx hget
      refine ⟨h.wf, htakes.received, hbuf, hacks htakes.persisted_le,
        h.trimmed_le.trans htakes.persisted_le, ?_⟩
      intro hatt'
      simp only [Relays, ha]
      exact hnext _ (htakes.lt_last hatt') htakes.last_le
    · have hm : m.isEntry = false := (Bool.not_eq_true _).mp hm
      obtain ⟨hrec, hstays⟩ := h.received.other hs hm
      refine ⟨h.wf, hrec, hbuf, hacks hstays.persisted_le,
        h.trimmed_le.trans hstays.persisted_le, ?_⟩
      intro _
      simp only [Relays, ha, hstays.last_eq]
      exact hlive.skip (by simp [Wire.entry?, hm])

theorem Delivered.datagram {q : Bool} {m : Msg} {c : Client} (h : Delivered s)
    (hm : m ∈ s.live.s2cDup) (hs : s.client.Step q (.datagram m) c) :
    Delivered { s with client := c } := by
  have hatt : s.client.attached = true := by
    cases hs with
    | early hp => simp [Client.attached, hp]
    | datagram hp => simp [Client.attached, hp]
  have hlive := h.live hatt
  cases ha : s.live.attach with
  | none =>
    simp only [Relays, ha] at hlive
    rw [hlive.2.1] at hm
    cases hm
  | some a =>
    simp only [Relays, ha] at hlive
    obtain ⟨hmem, hexit⟩ := hlive.dups m hm
    have hmem := List.mem_of_mem_take hmem
    obtain ⟨x, hget⟩ := List.mem_iff_getElem?.mp hmem
    have hseq := h.wf.logged.numbered x m hget
    obtain ⟨hrec, hpers, -, hle, hle'⟩ :=
      h.received.datagram hs hseq (h.wf.logged.entry m hmem) hexit hget
    refine ⟨h.wf, hrec, h.buffers.step hs, ?_, h.trimmed_le.trans hpers, ?_⟩
    · intro k hk
      exact (h.acks k hk).mono hpers fun _ => id
    · intro _
      simp only [Relays, ha]
      exact hlive.advance h.wf.logged.numbered hm hseq hle hle'

theorem Delivered.accept (h : Delivered s) {r : Ref} {k : Conn} (hk : s.conn? r = some k)
    (ha : k.attach = none) : Delivered (s.setConn r (s.answer k)) := by
  have hc2s : (s.answer k).c2s = k.c2s := by
    unfold answer
    split_ifs <;> rfl
  refine ⟨by simpa using h.wf, by simpa using h.received, by simpa using h.buffers, ?_,
    by simpa using h.trimmed_le, ?_⟩
  · intro k' hk'
    rw [setConn_client]
    rcases mem_conns_setConn hk' with rfl | hk'
    · rw [hc2s]
      exact h.acks k (mem_conns_of_conn? hk)
    · exact h.acks k' hk'
  · cases r with
    | stale i => exact h.live
    | live =>
      cases hk
      intro hatt
      have hlive := h.live hatt
      have hlast := h.received.persisted_le hatt
      simp only [Relays, ha] at hlive
      obtain ⟨hs2c, hdup, hseen⟩ := hlive
      have hle : s.client.lastServerSeq ≤ s.session.trace.pushed.length := by
        cases hp : s.client.pc with
        | writing => exact Client.Behind.last_le (h.received.of_pc hp)
        | flushing => exact Client.Behind.last_le (h.received.of_pc hp)
        | sendAck => exact (h.received.of_pc hp).1.last_le
        | sendExitAck => simp [Client.attached, hp] at hatt
        | returned => simp [Client.attached, hp] at hatt
        | _ => exact Client.Synced.last_le (h.received.of_pc hp)
      have hstart : Streams s.session.trace.pushed s.client.lastServerSeq [] []
          (.start s.token s.client.lastServerSeq) :=
        ⟨⟨_, le_rfl, SegmentAt.nil _ _, fun _ => rfl⟩, fun _ => le_rfl, hle,
          (fun _ _ h => by cases h), by simp⟩
      show Relays s.session.trace.pushed s.client.lastServerSeq (s.answer s.live)
      unfold answer
      split_ifs
      · simp only [Relays, hs2c, hdup, hseen]
        exact hstart
      · simp only [Relays, hs2c, hdup, hseen]
        exact (hstart.put rfl).return_

/-- A step of `attach` on connection `r`, which the channel left as `k'`. -/
theorem Delivered.attach (h : Delivered s) {r : Ref} {k k' : Conn} {a a' : Attach} {q : Bool}
    {e : AttachEvent} {session : Session} (hk : s.conn? r = some k) (ha : k.attach = some a)
    (hs : a.Step q s.session e a' session) (hsub : ∀ w ∈ k'.c2s, w ∈ k.c2s)
    (hack : ∀ seq, e = .frame (.ack seq) → .msg (.ack seq) ∈ k.c2s)
    (hstream : ∀ last, Streams s.session.trace.pushed last k.s2c k.s2cDup a →
      session.log.Refines s.session.trace.pushed → session.log.trimmed ≤ last →
      Streams s.session.trace.pushed last k'.s2c k'.s2cDup a') :
    Delivered (s.withAttach r k' a' session) := by
  obtain ⟨htrace, -, hlog⟩ := hs.session
  have hwf := hs.wf h.wf
  have htrim : session.log.trimmed ≤ s.client.trace.persisted := by
    rcases hlog with hlog | ⟨seq, he, hlog⟩
    · rw [hlog]
      exact h.trimmed_le
    · have := h.acks k (mem_conns_of_conn? hk) seq (hack seq he)
      have := h.trimmed_le
      rw [hlog, h.wf.logged.refines.trimmed_trim]
      omega
  refine ⟨by simpa using hwf, by simpa [htrace] using h.received, by simpa using h.buffers, ?_,
    by simpa using htrim, ?_⟩
  · intro k'' hk''
    rw [withAttach_client]
    rcases mem_conns_setConn hk'' with rfl | hk''
    · exact (h.acks k (mem_conns_of_conn? hk)).mono le_rfl hsub
    · exact h.acks k'' hk''
  · cases r with
    | stale i =>
      intro hatt
      show Relays session.trace.pushed s.client.lastServerSeq s.live
      rw [htrace]
      exact h.live hatt
    | live =>
      cases hk
      intro hatt
      have hlive := h.live hatt
      simp only [Relays, ha] at hlive
      show Streams session.trace.pushed s.client.lastServerSeq k'.s2c k'.s2cDup a'
      rw [htrace]
      refine hstream _ hlive ?_ (htrim.trans (h.received.persisted_le hatt))
      rw [← htrace]
      exact hwf.logged.refines

/-- The session moves on by itself: its history only grows. -/
theorem Delivered.session {session : Session} (h : Delivered s) (hwf : session.Wf)
    (hg : Session.Grows s.session session) : Delivered { s with session := session } :=
  ⟨hwf, h.received.mono hg.pushed, h.buffers, h.acks, hg.trimmed.le.trans h.trimmed_le,
    fun hatt => (h.live hatt).mono hg.pushed⟩

/-- Every step of the system keeps the invariant. -/
theorem Delivered.step {cap : Capacity} {l : Label} (h : Delivered s)
    (hs : s.step cap l = some s') : Delivered s' := by
  have hent := h.wf.logged.entry
  have hack : ∀ {w}, s.client.sending = some w →
      ∀ seq, w = .msg (.ack seq) → seq ≤ s.client.trace.persisted := by
    rintro w hw seq rfl
    exact h.received.ack_le h.buffers hw
  cases Step.of_step hs with
  | @client e c hl hc =>
    refine h.quiet hc ?_
    cases e <;> first | rfl | cases hl
  | connect hc => exact h.connect hc
  | @clientSent w c hw _ hc =>
    have hput : Delivered (s.clientPut w) := h.put _ (hack hw)
    exact hput.quiet hc rfl
  | clientSendLate hw _ hc => exact (h.put s.live.c2sDup (hack hw)).quiet hc rfl
  | clientSendLost _ hc => exact h.quiet hc rfl
  | clientPong hq =>
    refine ⟨h.wf, h.received, h.buffers, ?_, h.trimmed_le, ?_⟩
    · intro k hk
      rcases List.mem_cons.mp hk with rfl | hk
      · exact h.acks s.live (List.mem_cons_self ..)
      · exact h.acks k (List.mem_cons_of_mem _ hk)
    · intro hatt
      have hlive := h.live hatt
      cases ha : s.live.attach with
      | none =>
        rw [Relays, ha, hq] at hlive
        cases hlive.1
      | some a =>
        simp only [Relays, ha, hq] at hlive ⊢
        exact hlive.skip rfl
  | clientRecv hq hc => exact h.recv hq hc
  | clientDatagram hm hc => exact h.datagram hm hc
  | accept hk ha => exact h.accept hk ha
  | @attach r k a a' e session hk ha hl hstep =>
    refine h.attach hk ha hstep (fun _ => id) ?_ fun last hst hlog ht => hst.other hstep ?_ hlog ht
    · rintro seq rfl
      cases hl
    · rintro rfl
      cases hl
  | attachSent hk ha hw _ hstep =>
    exact h.attach hk ha hstep (fun _ => id) (by simp) fun last hst _ _ =>
      hst.sent hent hw hstep
  | attachSendLate hk ha hw _ hstep =>
    refine h.attach hk ha hstep (fun _ => id) (by simp) fun last hst _ _ => ?_
    cases hstep
    exact hst.late hent hw
  | attachSendLost hk ha hw hstep =>
    exact h.attach hk ha hstep (fun _ => id) (by simp) fun last hst hlog ht =>
      hst.other hstep (by simp) hlog ht
  | attachPong hk ha hq hp =>
    refine ⟨by simpa using h.wf, by simpa using h.received, by simpa using h.buffers, ?_,
      by simpa using h.trimmed_le, ?_⟩
    · intro k' hk'
      rw [setConn_client]
      rcases mem_conns_setConn hk' with rfl | hk'
      · refine (h.acks _ (mem_conns_of_conn? hk)).mono le_rfl ?_
        rw [hq]
        exact fun w hw => List.mem_cons_of_mem _ hw
      · exact h.acks k' hk'
    · rename_i r k a rest
      cases r with
      | stale i => exact h.live
      | live =>
        cases hk
        exact h.live
  | attachRecv hk ha hq hstep =>
    refine h.attach hk ha hstep ?_ ?_ fun last hst hlog ht => hst.other hstep (by simp) hlog ht
    · rw [hq]
      exact fun w hw => List.mem_cons_of_mem _ hw
    · rintro seq he
      cases he
      rw [hq]
      exact List.mem_cons_self ..
  | attachDatagram hk ha _ hstep =>
    exact h.attach hk ha hstep (fun _ => id) (by simp) fun last hst hlog ht =>
      hst.other hstep (by simp) hlog ht
  | task _ ht => exact h.session (h.wf.taskStep ht) (.taskStep ht)
  | unregister => exact h.session h.wf.unregister ⟨List.prefix_rfl, rfl⟩
  | abort => exact h.session (h.wf.enqueue _) ⟨List.prefix_rfl, rfl⟩
  | handover => exact h.session (h.wf.enqueue _) ⟨List.prefix_rfl, rfl⟩

/-- The invariant holds in every reachable state. -/
theorem delivered_reachable {cap : Capacity} (h : (machine cap).Reachable s) : Delivered s := by
  refine h.invariant ?_ fun s l s' hinv _ hs => hinv.step hs
  rintro s ⟨token, tokenSource, agent, quic, stdin, stdout, stderr, exit, pgid, rfl⟩
  exact delivered_start ..

end Sys

/-! ## Exactly once -/

namespace Client

variable {H : List Msg} {c : Client}

theorem Received.output_le (h : Received H c) : c.trace.output <+: outputs H := by
  have hbehind : ∀ {rest}, Behind H c.lastServerSeq c.trace rest → c.trace.output <+: outputs H := by
    intro rest hb
    refine (List.prefix_append _ rest).trans ?_
    rw [hb.output_eq]
    exact outputs_mono (List.take_prefix _ _)
  have hexited : ∀ {code}, Exited H c.lastServerSeq c.trace code → c.trace.output <+: outputs H := by
    intro code he
    rw [he.output_eq]
    exact outputs_mono (List.take_prefix _ _)
  cases hp : c.pc with
  | writing => exact hbehind (h.of_pc hp)
  | flushing => exact hbehind (h.of_pc hp)
  | sendAck => exact hbehind (h.of_pc hp).1.behind
  | sendExitAck => exact hexited (h.of_pc hp).1
  | returned result =>
    cases result with
    | ok code => exact hexited (h.of_pc hp)
    | error e =>
      obtain ⟨rest, hb⟩ := h.of_pc hp
      exact hbehind hb
  | _ => exact hbehind (Synced.behind (h.of_pc hp))

/-- What the client persisted is flushed, and an Exit among it was received. -/
def Kept (H : List Msg) (t : ClientTrace) : Prop :=
  outputs (H.take t.persisted) <+: t.flushed ∧
    ∀ seq code, .exit seq code ∈ H.take t.persisted → t.exit = some code

theorem Behind.kept {last : Nat} {t : ClientTrace} {rest : List (Stream × UInt8)}
    (h : Behind H last t rest) : Kept H t := by
  refine ⟨h.persisted_flushed, fun seq code hmem => ?_⟩
  cases h.noExit _ (List.mem_of_mem_take (i := t.persisted) (by
    rwa [List.take_take, min_eq_left h.persisted_le]))

theorem Exited.kept {last : Nat} {t : ClientTrace} {code : Int32}
    (h : Exited H last t code) (hno : ∀ m ∈ H.take last, m.isExit = false) : Kept H t := by
  have htake : H.take t.persisted = H.take last ++ [.exit (last + 1) code] := by
    rw [h.persisted_eq, List.take_add_one, h.exit_entry]
    rfl
  unfold Kept
  rw [htake, outputs_append, h.flushed_eq, h.output_eq]
  refine ⟨by simp [outputs, ChannelMessage.output], fun seq code' hmem => ?_⟩
  rcases List.mem_append.mp hmem with hmem | hmem
  · cases hno _ hmem
  · cases List.mem_singleton.mp hmem
    exact h.exit_eq

end Client

theorem Client.Received.kept {s : Session} {c : Client} (h : c.Received s.trace.pushed)
    (hwf : s.Wf) : Kept s.trace.pushed c.trace := by
  have hexited : ∀ {code}, Exited s.trace.pushed c.lastServerSeq c.trace code →
      Kept s.trace.pushed c.trace :=
    fun he => he.kept (hwf.exit_last he.exit_entry).2.2.1
  cases hp : c.pc with
  | writing => exact Behind.kept (h.of_pc hp)
  | flushing => exact Behind.kept (h.of_pc hp)
  | sendAck => exact (h.of_pc hp).1.behind.kept
  | sendExitAck => exact hexited (h.of_pc hp).1
  | returned result =>
    cases result with
    | ok code => exact hexited (h.of_pc hp)
    | error e =>
      obtain ⟨rest, hb⟩ := h.of_pc hp
      exact hb.kept
  | _ => exact (Synced.behind (h.of_pc hp)).kept

/-- **Exactly once, server to client.** In every reachable state, over connections of any
capacity:

* what the client wrote to stdout and to stderr is a prefix of what the task read from the child,
* across both streams the chunks were written in log order,
* if `run_exec` returned a code, both streams are complete and the code is that of the log's Exit
  entry,
* what is gone from the log was written and flushed by the client, or is an Exit it received. -/
theorem output_exactly_once {cap : Capacity} {s : Sys} (h : (Sys.machine cap).Reachable s) :
    (∀ stream, bytesOf stream s.client.trace.output <+: bytesOf stream s.session.trace.read) ∧
    s.client.trace.output <+: outputs s.session.trace.pushed ∧
    (∀ code, s.client.pc = .returned (.ok code) →
      (∀ stream, bytesOf stream s.client.trace.output = bytesOf stream s.session.trace.read ∧
        s.session.streamOpen stream = false) ∧
      ∃ before seq, s.session.trace.pushed = before ++ [.exit seq code]) ∧
    ∃ gone, s.session.trace.pushed = gone ++ s.session.log.buffer ∧
      outputs gone <+: s.client.trace.flushed ∧
      ∀ seq code, .exit seq code ∈ gone → s.client.trace.exit = some code := by
  have hinv := Sys.delivered_reachable h
  have hread := hinv.wf.logged.read_eq
  have hout := hinv.received.output_le
  refine ⟨fun stream => bytesOf_mono (hread ▸ hout), hout, ?_, ?_⟩
  · intro code hp
    have hexited : Client.Exited _ _ _ code := hinv.received.of_pc hp
    obtain ⟨-, hlast, -, hstdout, hstderr⟩ := hinv.wf.exit_last hexited.exit_entry
    have hall : s.client.trace.output = s.session.trace.read := by
      rw [hexited.output_eq, ← hread]
      conv_rhs => rw [hlast, outputs_append]
      simp [outputs, ChannelMessage.output]
    refine ⟨fun stream => ⟨by rw [hall], ?_⟩, _, _, hlast⟩
    cases stream
    · exact hstdout
    · exact hstderr
  · have hbuf := hinv.wf.logged.refines.buffer_eq
    refine ⟨s.session.trace.pushed.take s.session.log.trimmed, ?_, ?_⟩
    · rw [hbuf, List.take_append_drop]
    · have hsub : s.session.trace.pushed.take s.session.log.trimmed <+:
          s.session.trace.pushed.take s.client.trace.persisted :=
        List.take_prefix_take_left hinv.trimmed_le
      have hkept : Client.Kept s.session.trace.pushed s.client.trace := hinv.received.kept hinv.wf
      exact ⟨(outputs_mono hsub).trans hkept.1, fun seq code hmem => hkept.2 seq code (hsub.subset hmem)⟩

/-- A fresh exec over a WebSocket connection. -/
def Sys.fresh : Sys :=
  .start "t" .static false false (.start (.pipe 0) (.pipe 1) (.pipe 2) (.pipe 3) 7)

/-- The first connection breaks while an ack is under way; the exec is resumed over QUIC, takes a
chunk from its datagram, and runs to its end. -/
def resumedRun : List Label :=
  [.attachSent .live, .clientRecv, .task (.outputRead .out (.data [104])),
   .attach .live .snapshot, .attachSent .live, .clientRecv, .client (.wrote 1), .client .flushed,
   .clientSendFailed true, .client .disconnected, .client .wake, .connect true, .accept .live,
   .attachSent .live, .attach .live .snapshot, .clientRecv, .task (.outputRead .err (.data [33])),
   .attach .live .changed, .attach .live .snapshot, .attachSent .live,
   .clientDatagram (.stderr 2 [33]), .client (.wrote 1), .client .flushed, .clientSent,
   .clientRecv, .attachRecv (.stale 0), .task (.outputRead .out .eof),
   .task (.outputRead .err .eof), .task (.exitRead .eof), .task .reaped, .attach .live .changed,
   .attach .live .snapshot, .attachSent .live, .clientRecv, .clientSent]

def Sys.afterResume : Sys := ((Sys.machine ⟨4, 4⟩).run .fresh resumedRun).get (by decide)

theorem reachable_afterResume : (Sys.machine ⟨4, 4⟩).Reachable .afterResume :=
  Machine.reachable_of_run ⟨"t", .static, false, false, .pipe 0, .pipe 1, .pipe 2, .pipe 3, 7, rfl⟩
    (Option.some_get _).symm

theorem afterResume_complete :
    (Sys.machine ⟨4, 4⟩).Reachable .afterResume ∧
    Sys.afterResume.client.pc = .returned (.ok 255) ∧
    bytesOf .err Sys.afterResume.session.trace.read = [33] ∧
    bytesOf .err Sys.afterResume.client.trace.output =
      bytesOf .err Sys.afterResume.session.trace.read := by
  have hreach := reachable_afterResume
  have hok : Sys.afterResume.client.pc = .returned (.ok 255) := by decide
  exact ⟨hreach, hok, by decide, (((output_exactly_once hreach).2.2.1 255 hok).1 .err).1⟩

end HerdrEternal
