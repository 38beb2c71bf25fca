import HerdrEternal.Lib.Table
import HerdrEternal.System.EndToEnd
import HerdrEternal.System.StdinDelivery

/-!
# Stdin through restarts of the daemon

The way from the client's stdin to the child's, when the daemon may be restarted. What was on the
way to the old daemon is lost with it: what its `attach` loops had read is gone with the queue of
the session's task, and what the client still sends them is never read. The next daemon goes on at
the number the task had applied, and the client resends everything behind that.

**Theorem (`stdin_end_to_end`).** In every run in which no first send of a message fails, and in
which the store never gives a stdin back that the session had closed, what was written to the
child's stdin is a prefix of what the client read, and `StdinEof` closes it only after all of it.

`StdinOk`, the invariant of runs without restarts, asks every stream to start at or before what the
session's queue leads up to, which a restart sets back. But what is on a stream that nobody reads
does not matter. So the invariant is kept by the system in which such streams carry what suits it
(`Sys.fill`), and that system can take the same steps (`Echo.serve`, `Echo.ofClient`).
-/

namespace HerdrEternal

open History

/-! ## Streams that nobody reads -/

/-- The server's end of the connection is gone. -/
def Conn.dead (k : Conn) : Bool := k.attach.any fun a => decide (a.pc = .returned)

/-- Nothing is left on a stream that nobody reads. -/
def Conn.hollow (k : Conn) : Conn := if k.dead then { k with c2s := [], c2sDup := [] } else k

/-- All stdin up to where the client goes on sending. -/
def Client.sentUp (c : Client) : List Wire :=
  if c.pc = .connecting then []
  else (c.trace.numbered.take (c.trace.numbered.length - c.pc.pending.length)).map Wire.msg

namespace Sys

/-- The system with other messages on the streams that nobody reads. -/
def fill (s : Sys) : Sys :=
  { s with
    live := if s.live.dead then { s.live with c2s := s.client.sentUp, c2sDup := [] } else s.live
    stale := s.stale.map Conn.hollow }

end Sys

section

variable {c : Client} {k : Conn}

theorem Conn.hollow_of_dead (h : k.dead = true) : k.hollow = { k with c2s := [], c2sDup := [] } :=
  if_pos h

theorem Conn.hollow_of_alive (h : k.dead = false) : k.hollow = k := by
  unfold hollow
  rw [h]
  rfl

theorem Conn.alive_of_none (h : k.attach = none) : k.dead = false := by
  unfold dead
  rw [h]
  rfl

theorem stdins_map_msg {M : List Msg} (h : ∀ m ∈ M, m.isStdin = true) :
    stdins (M.map Wire.msg) = M := by
  induction M with
  | nil => rfl
  | cons m M ih =>
    rw [List.map_cons, stdins_cons, ih fun m hm => h m (List.mem_cons_of_mem _ hm), Wire.stdin?,
      if_pos (h m List.mem_cons_self)]
    rfl

theorem Client.stdins_sentUp (hb : c.Buffers) (hp : c.pc ≠ .connecting) :
    stdins c.sentUp =
      c.trace.numbered.take (c.trace.numbered.length - c.pc.pending.length) := by
  rw [sentUp, if_neg hp]
  exact stdins_map_msg fun m hm => hb.stdin m (List.mem_of_mem_take hm)

theorem Feeds.sentUp (hb : c.Buffers) (hres : c.Resends) (r : Nat) :
    Feeds c r { k with c2s := c.sentUp, c2sDup := [] } := by
  refine ⟨?_, (fun _ h => by cases h), fun hp => ?_⟩
  · by_cases hp : c.pc = .connecting
    · refine ⟨0, Nat.zero_le _, ?_, fun _ hne => absurd hp hne⟩
      rw [Client.sentUp, if_pos hp]
      exact SegmentAt.nil _ _
    · refine ⟨0, Nat.zero_le _, ?_, fun _ _ => ?_⟩
      · rw [c.stdins_sentUp hb hp]
        exact List.take_prefix _ _
      · have := hres.pending_eq.length_le
        rw [c.stdins_sentUp hb hp, List.length_take]
        omega
  · rw [Client.sentUp, if_pos hp]
    rfl

theorem Client.acksBelow_sentUp (c : Client) (hb : c.Buffers) (p : Nat) : AcksBelow p c.sentUp := by
  intro seq hmem
  unfold sentUp at hmem
  split_ifs at hmem
  · cases hmem
  · obtain ⟨m, hm, heq⟩ := List.mem_map.mp hmem
    cases heq
    have := hb.stdin _ (List.mem_of_mem_take hm)
    cases this

end

namespace Sys

variable {s t : Sys}

/-- Filling the streams keeps the other invariant. -/
theorem Delivered.fill (h : Delivered s) : Delivered s.fill := by
  refine ⟨h.wf, h.received, h.buffers, ?_, h.trimmed_le, fun hatt => ?_⟩
  · intro k hk
    rcases List.mem_cons.mp hk with rfl | hk
    · show AcksBelow _ (if s.live.dead then _ else s.live).c2s
      split_ifs
      · exact s.client.acksBelow_sentUp h.buffers _
      · exact h.acks s.live List.mem_cons_self
    · obtain ⟨k', hk', rfl⟩ := List.mem_map.mp hk
      unfold Conn.hollow
      split_ifs
      · exact fun _ hmem => by cases hmem
      · exact h.acks k' (List.mem_cons_of_mem _ hk')
  · have hlive := h.live hatt
    show Relays _ _ (if s.live.dead then _ else s.live)
    split_ifs
    · exact hlive
    · exact hlive

/-- Filling keeps the invariant: streams that somebody reads are as in `t`, and the others have no
say. -/
theorem StdinOk.refill (h : StdinOk t) (hb : s.client.Buffers) (hc : s.client = t.client)
    (hs : s.session = t.session) (hlive : s.live.dead = false → s.live = t.live)
    (hstale : ∀ k ∈ s.stale, k.dead = false → k ∈ t.stale) (hs2c : s.live.s2c = t.live.s2c)
    (hack : ∀ a, s.live.attach = some a →
      ∃ b, t.live.attach = some b ∧ a.ackedStdin = b.ackedStdin) : StdinOk s.fill := by
  obtain ⟨token, client, session, live, stale⟩ := s
  cases hc
  cases hs
  refine ⟨h.resends, h.applies, h.acked_le, ?_, ?_, fun hatt => ?_⟩
  · show Feeds _ _ (if live.dead then _ else live)
    split_ifs with hd
    · exact Feeds.sentUp hb h.resends _
    · rw [show live = t.live from hlive (by simpa using hd)]
      exact h.live
  · intro k hk
    obtain ⟨k', hk', rfl⟩ := List.mem_map.mp hk
    unfold Conn.hollow
    split_ifs with hd
    · exact ⟨⟨0, Nat.zero_le _, SegmentAt.nil _ _⟩, fun _ h => by cases h⟩
    · exact h.stale k' (hstale k' hk' (by simpa using hd))
  · obtain ⟨h1, h2⟩ := h.acks hatt
    have hacks : AcksBelow t.session.stdinApplied live.s2c ∧
        ∀ a, live.attach = some a → a.ackedStdin ≤ t.session.stdinApplied := by
      refine ⟨(show live.s2c = t.live.s2c from hs2c) ▸ h1, fun a ha => ?_⟩
      obtain ⟨b, hb, heq⟩ := hack a ha
      rw [heq]
      exact h2 b hb
    show AcksBelow _ (if live.dead then _ else live).s2c ∧
      ∀ a, (if live.dead then _ else live).attach = some a → _
    split_ifs
    · exact hacks
    · exact hacks

end Sys

/-! ## The same steps -/

/-- The same connection, up to what is on its stream if nobody reads it. -/
structure Conn.Echo (k' k : Conn) : Prop where
  quic : k'.quic = k.quic
  attach : k'.attach = k.attach
  s2c : k'.s2c = k.s2c
  s2cDup : k'.s2cDup = k.s2cDup
  alive : k.dead = false → k' = k

theorem Conn.Echo.refl (k : Conn) : k.Echo k := ⟨rfl, rfl, rfl, rfl, fun _ => rfl⟩

theorem Conn.Echo.put {k' k : Conn} (h : k'.Echo k) (ws : List Wire) (dups : List Msg) :
    Conn.Echo { k' with c2s := k'.c2s ++ ws, c2sDup := k'.c2sDup ++ dups }
      { k with c2s := k.c2s ++ ws, c2sDup := k.c2sDup ++ dups } := by
  refine ⟨h.quic, h.attach, h.s2c, h.s2cDup, fun hd => ?_⟩
  rw [h.alive hd]

theorem Conn.Echo.take {k' k : Conn} (h : k'.Echo k) (rest : List Wire) :
    Conn.Echo { k' with s2c := rest } { k with s2c := rest } := by
  refine ⟨h.quic, h.attach, rfl, h.s2cDup, fun hd => ?_⟩
  rw [h.alive hd]

theorem Attach.alive_of_step {q : Bool} {a a' : Attach} {s s' : Session} {e : AttachEvent}
    (h : a.step q s e = some (a', s')) : a.pc ≠ .returned := by
  intro hp
  have := Attach.Step.of_step h
  cases this <;> simp_all [Attach.sending]

theorem Conn.alive_of_pc {k : Conn} {a : Attach} (ha : k.attach = some a) (hp : a.pc ≠ .returned) :
    k.dead = false := by
  unfold dead
  rw [ha]
  simpa using hp

/-- Labels of the server's end of a connection. -/
def Label.ref? : Label → Option Ref
  | .accept r | .attach r _ | .attachSent r | .attachSendFailed r _ | .attachRecv r
  | .attachDatagram r _ => some r
  | _ => none

namespace Sys

variable {s s' t : Sys} {cap : Capacity} {l : Label}

/-- The same system, up to what is on streams that nobody reads. -/
structure Echo (t s : Sys) : Prop where
  token : t.token = s.token
  client : t.client = s.client
  session : t.session = s.session
  live : t.live.Echo s.live
  stale : ∀ (i : Nat) k, s.stale[i]? = some k → ∃ k', t.stale[i]? = some k' ∧ k'.Echo k

theorem Echo.fill (s : Sys) : Echo s.fill s := by
  refine ⟨rfl, rfl, rfl, ?_, fun i k hk => ⟨k.hollow, ?_, ?_⟩⟩
  · show Conn.Echo (if s.live.dead then _ else s.live) s.live
    split_ifs with hd
    · exact ⟨rfl, rfl, rfl, rfl, fun h => by rw [h] at hd; cases hd⟩
    · exact .refl _
  · show (s.stale.map Conn.hollow)[i]? = _
    rw [List.getElem?_map, hk]
    rfl
  · unfold Conn.hollow
    split_ifs with hd
    · exact ⟨rfl, rfl, rfl, rfl, fun h => by rw [h] at hd; cases hd⟩
    · exact .refl _

theorem Echo.conn? (h : Echo t s) {r : Ref} {k : Conn} (hk : s.conn? r = some k)
    (ha : k.dead = false) : t.conn? r = some k := by
  cases r with
  | live =>
    cases hk
    exact congrArg some (h.live.alive ha)
  | stale i =>
    obtain ⟨k', hk', he⟩ := h.stale i k hk
    exact hk'.trans (congrArg some (he.alive ha))

theorem Echo.setConn (h : Echo t s) (r : Ref) (k : Conn) (session : Session) :
    Echo ({ t with session := session }.setConn r k)
      ({ s with session := session }.setConn r k) := by
  cases r with
  | live => exact ⟨h.token, h.client, rfl, .refl _, h.stale⟩
  | stale i =>
    refine ⟨h.token, h.client, rfl, h.live, fun j k' hk' => ?_⟩
    rcases Table.of_set hk' with ⟨rfl, rfl⟩ | ⟨hne, hk'⟩
    · obtain ⟨k₀, hk₀⟩ : ∃ k₀, s.stale[j]? = some k₀ := by
        have hlt : j < (s.stale.set j k').length := Table.lt_of_getElem? hk'
        rw [List.length_set] at hlt
        exact ⟨_, List.getElem?_eq_getElem hlt⟩
      obtain ⟨k₁, hk₁, -⟩ := h.stale j k₀ hk₀
      exact ⟨k', Table.set_self hk₁, .refl _⟩
    · obtain ⟨k₁, hk₁, he⟩ := h.stale j k' hk'
      exact ⟨k₁, (List.getElem?_set_ne (Ne.symm hne)).trans hk₁, he⟩

theorem Echo.attachStep (h : Echo t s) {r : Ref} {k : Conn} {a : Attach} {e : AttachEvent}
    (hs : s.attachStep r k a e = some s') : ∃ t', t.attachStep r k a e = some t' ∧ Echo t' s' := by
  obtain ⟨⟨a', session⟩, hstep, rfl⟩ := Option.map_eq_some_iff.mp hs
  refine ⟨_, ?_, h.setConn r { k with attach := some a' } session⟩
  rw [Sys.attachStep, h.session, hstep]
  rfl

theorem alive_of_attachStep {r : Ref} {k k' : Conn} {a : Attach} {e : AttachEvent}
    (ha : k.attach = some a) (hs : s.attachStep r k' a e = some s') : k.dead = false := by
  obtain ⟨⟨a', session⟩, hstep, -⟩ := Option.map_eq_some_iff.mp hs
  exact Conn.alive_of_pc ha (Attach.alive_of_step hstep)

theorem Echo.serve (h : Echo t s) {r : Ref} (hl : l.ref? = some r) (hs : s.step cap l = some s') :
    ∃ t', t.step cap l = some t' ∧ Echo t' s' := by
  have hset : ∀ (r : Ref) (k : Conn), Echo (t.setConn r k) (s.setConn r k) := by
    intro r k
    have := h.setConn r k s.session
    rwa [show ({ t with session := s.session } : Sys) = t by rw [← h.session]] at this
  cases l with
  | accept r =>
    obtain ⟨k, hk, hs⟩ := Option.bind_eq_some_iff.mp hs
    split_ifs at hs with ha
    cases hs
    have hk' := h.conn? hk (Conn.alive_of_none (Option.isNone_iff_eq_none.mp ha))
    have hanswer : t.answer k = s.answer k := by
      unfold answer
      rw [h.session, h.token]
    refine ⟨_, ?_, hset r (s.answer k)⟩
    simp only [step, hk', Option.bind_some, if_pos ha, hanswer]
  | attach r e =>
    obtain ⟨k, hk, hs⟩ := Option.bind_eq_some_iff.mp hs
    obtain ⟨a, ha, hs⟩ := Option.bind_eq_some_iff.mp hs
    split_ifs at hs with hl
    obtain ⟨t', ht, he⟩ := h.attachStep hs
    refine ⟨t', ?_, he⟩
    simp only [step, h.conn? hk (alive_of_attachStep ha hs), Option.bind_some, ha, if_pos hl, ht]
  | attachSent r =>
    obtain ⟨k, hk, hs⟩ := Option.bind_eq_some_iff.mp hs
    obtain ⟨a, ha, hs⟩ := Option.bind_eq_some_iff.mp hs
    obtain ⟨w, hw, hs⟩ := Option.bind_eq_some_iff.mp hs
    split_ifs at hs with hroom
    obtain ⟨t', ht, he⟩ := h.attachStep hs
    refine ⟨t', ?_, he⟩
    simp only [step, h.conn? hk (alive_of_attachStep ha hs), Option.bind_some, ha, h.session, hw,
      if_pos hroom, ht]
  | attachSendFailed r delivered =>
    obtain ⟨k, hk, hs⟩ := Option.bind_eq_some_iff.mp hs
    obtain ⟨a, ha, hs⟩ := Option.bind_eq_some_iff.mp hs
    obtain ⟨w, hw, hs⟩ := Option.bind_eq_some_iff.mp hs
    obtain ⟨t', ht, he⟩ := h.attachStep hs
    refine ⟨t', ?_, he⟩
    have hk' := h.conn? hk (alive_of_attachStep ha hs)
    simp only [step, hk', Option.bind_some]
    rw [ha, Option.bind_some, h.session, hw, Option.bind_some]
    rwa [ha] at ht
  | attachRecv r =>
    obtain ⟨k, hk, hs⟩ := Option.bind_eq_some_iff.mp hs
    obtain ⟨a, ha, hs⟩ := Option.bind_eq_some_iff.mp hs
    split at hs
    · cases hs
    · rename_i rest hq
      split_ifs at hs with hp
      cases hs
      have hk' := h.conn? hk (Conn.alive_of_pc ha (by rw [hp]; simp))
      refine ⟨_, ?_, hset r { k with c2s := rest }⟩
      simp only [step, hk', Option.bind_some, ha, hq, if_pos hp]
    · rename_i m rest hq
      obtain ⟨t', ht, he⟩ := h.attachStep hs
      refine ⟨t', ?_, he⟩
      have hk' := h.conn? hk (alive_of_attachStep ha hs)
      simp only [step, hk', Option.bind_some]
      rw [ha, Option.bind_some, hq]
      rwa [ha] at ht
  | attachDatagram r m =>
    obtain ⟨k, hk, hs⟩ := Option.bind_eq_some_iff.mp hs
    obtain ⟨a, ha, hs⟩ := Option.bind_eq_some_iff.mp hs
    split_ifs at hs with hm
    obtain ⟨t', ht, he⟩ := h.attachStep hs
    refine ⟨t', ?_, he⟩
    simp only [step, h.conn? hk (alive_of_attachStep ha hs), Option.bind_some, ha, if_pos hm, ht]
  | _ => cases hl

/-- The client takes the same step, if its streams have room for more. -/
theorem Echo.ofClient (h : Echo t s) (hl : l.ofClient = true) (hs : s.step cap l = some s') :
    ∃ cap' t', t.step cap' l = some t' ∧ Echo t' s' := by
  obtain ⟨cap', hcap⟩ : ∃ cap' : Capacity,
      t.live.c2s.length < cap'.c2s ↔ s.live.c2s.length < cap.c2s := by
    by_cases hroom : s.live.c2s.length < cap.c2s
    · exact ⟨⟨t.live.c2s.length + 1, 0⟩, iff_of_true (Nat.lt_succ_self _) hroom⟩
    · exact ⟨⟨0, 0⟩, iff_of_false (Nat.not_lt_zero _) hroom⟩
  -- The client goes on with the live connection.
  have hgo : ∀ {k' k : Conn} (c : Client), k'.Echo k →
      Echo { t with client := c, live := k' } { s with client := c, live := k } :=
    fun c hk => ⟨h.token, rfl, h.session, hk, h.stale⟩
  cases l with
  | client e =>
    simp only [step] at hs
    split_ifs at hs with hloc
    obtain ⟨c, hc, rfl⟩ := Option.map_eq_some_iff.mp hs
    refine ⟨cap, _, ?_, hgo c h.live⟩
    simp only [step, if_pos hloc, h.client, h.live.quic, hc, Option.map_some]
  | connect quic =>
    obtain ⟨c, hc, rfl⟩ := Option.map_eq_some_iff.mp hs
    refine ⟨cap, { t with client := c, live := .open_ quic c.lastServerSeq,
                          stale := t.live :: t.stale }, ?_,
      ⟨h.token, rfl, h.session, .refl _, fun i k hk => ?_⟩⟩
    · simp only [step, h.client, hc, Option.map_some]
    · cases i with
      | zero =>
        cases hk
        exact ⟨t.live, rfl, h.live⟩
      | succ i => exact h.stale i k hk
  | clientSent =>
    obtain ⟨w, hw, hs⟩ := Option.bind_eq_some_iff.mp hs
    split_ifs at hs with hroom
    obtain ⟨c, hc, rfl⟩ := Option.map_eq_some_iff.mp hs
    refine ⟨cap', { t.clientPut w with client := c }, ?_, ?_⟩
    · simp only [step, h.client, hw, Option.bind_some, if_pos (hcap.mpr hroom),
        h.live.quic, hc, Option.map_some]
    · unfold clientPut
      rw [h.client, h.live.quic]
      exact hgo c (h.live.put [w] _)
  | clientSendFailed delivered =>
    obtain ⟨w, hw, hs⟩ := Option.bind_eq_some_iff.mp hs
    obtain ⟨c, hc, rfl⟩ := Option.map_eq_some_iff.mp hs
    have hflag : (delivered && decide (t.live.c2s.length < cap'.c2s)) =
        (delivered && decide (s.live.c2s.length < cap.c2s)) := by
      rw [decide_eq_decide.mpr hcap]
    refine ⟨cap', if delivered && s.live.c2s.length < cap.c2s then
      { t with client := c, live := { t.live with c2s := t.live.c2s ++ [w] } }
      else { t with client := c }, ?_, ?_⟩
    · simp only [step, h.client, hw, Option.bind_some, h.live.quic, hc, Option.map_some, hflag]
    · split_ifs
      · have hput := h.live.put [w] []
        rw [List.append_nil, List.append_nil] at hput
        exact hgo c hput
      · exact hgo c h.live
  | clientRecv =>
    simp only [step] at hs
    split at hs
    · cases hs
    · rename_i rest hq
      split_ifs at hs with hp
      cases hs
      refine ⟨cap, { t with live := { t.live with s2c := rest } }, ?_, ?_⟩
      · simp only [step, h.live.s2c, hq, h.client, if_pos hp]
      · exact ⟨h.token, h.client, h.session, h.live.take rest, h.stale⟩
    · rename_i m rest hq
      obtain ⟨c, hc, rfl⟩ := Option.map_eq_some_iff.mp hs
      refine ⟨cap, _, ?_, hgo c (h.live.take rest)⟩
      simp only [step, h.live.s2c, hq, h.client, h.live.quic, hc, Option.map_some]
  | clientDatagram m =>
    simp only [step] at hs
    split_ifs at hs with hm
    obtain ⟨c, hc, rfl⟩ := Option.map_eq_some_iff.mp hs
    refine ⟨cap, _, ?_, hgo c h.live⟩
    simp only [step, h.live.s2cDup, if_pos hm, h.client, h.live.quic, hc, Option.map_some]
  | _ => cases hl

end Sys

/-! ## What nobody has read yet -/

/-- A request that is on its way does not leave its state. -/
theorem Client.Step.connecting {q : Bool} {c c' : Client} {e : ClientEvent} (h : c.Step q e c')
    (hp : c.pc = .connecting) (he : e.isLocal = true) : c'.attached = false := by
  cases h with
  | authFailed => exact c.attached_connectError _
  | connectFailed => exact c.attached_connectError _
  | reply => cases he
  | early => cases he
  | _ => simp_all

namespace Sys

variable {s s' : Sys} {cap : Capacity} {l : Label}

/-- No stdin is sent before the request is accepted. -/
structure Unread (s : Sys) : Prop where
  empty : ∀ k ∈ s.conns, k.attach = none → stdins k.c2s = []
  waiting : s.live.attach = none → s.client.attached = true → s.client.pc = .connecting

theorem Unread.setConn (h : Unread s) {r : Ref} {k : Conn} (session : Session)
    (hk : k.attach ≠ none) : Unread ({ s with session := session }.setConn r k) := by
  cases r with
  | live =>
    refine ⟨fun k' hk' ha => ?_, fun ha => absurd ha hk⟩
    rcases List.mem_cons.mp hk' with rfl | hk'
    · exact absurd ha hk
    · exact h.empty k' (List.mem_cons_of_mem _ hk') ha
  | stale i =>
    refine ⟨fun k' hk' ha => ?_, h.waiting⟩
    rcases List.mem_cons.mp hk' with rfl | hk'
    · exact h.empty _ List.mem_cons_self ha
    · rcases List.mem_or_eq_of_mem_set hk' with hk' | rfl
      · exact h.empty k' (List.mem_cons_of_mem _ hk') ha
      · exact absurd ha hk

/-- The client goes on with the live connection. -/
theorem Unread.client (h : Unread s) {c : Client} {k : Conn}
    (hk : k.attach = none → s.live.attach = none ∧ stdins k.c2s = stdins s.live.c2s)
    (hc : s.live.attach = none → c.attached = true → c.pc = .connecting) :
    Unread { s with client := c, live := k } := by
  refine ⟨fun k' hk' ha => ?_, fun ha => hc (hk ha).1⟩
  rcases List.mem_cons.mp hk' with rfl | hk'
  · obtain ⟨hnone, heq⟩ := hk ha
    exact heq.trans (h.empty _ List.mem_cons_self hnone)
  · exact h.empty k' (List.mem_cons_of_mem _ hk') ha

theorem Unread.step (h : Unread s) (hd : Delivered s) (hs : s.step cap l = some s') :
    Unread s' := by
  -- While the request is on its way, the client has nothing to send and nothing to read.
  have hput : ∀ {w : Wire}, s.client.sending = some w → s.live.attach = none →
      stdins (s.live.c2s ++ [w]) = stdins s.live.c2s := by
    intro w hw hnone
    rcases s.client.sending_cases hw hd.buffers with ⟨m, rest, -, -, -, hatt, hpc⟩ | ⟨-, hw⟩
    · exact absurd (h.waiting hnone hatt) hpc
    · exact stdins_concat_of_none hw _
  have hsends : ∀ {q e c w}, s.client.sending = some w → s.client.Step q e c →
      e ≠ .authenticated → s.live.attach = none → c.attached = true → c.pc = .connecting := by
    intro q e c w hw hc he hnone hatt
    have hpc := h.waiting hnone (hc.attached he hatt)
    rw [Client.sending, hpc] at hw
    cases hw
  have hempty : s.live.attach = none → s.client.attached = true →
      s.live.s2c = [] ∧ s.live.s2cDup = [] := by
    intro hnone hatt
    have hlive := hd.live hatt
    unfold Relays at hlive
    rw [hnone] at hlive
    exact ⟨hlive.1, hlive.2.1⟩
  cases Step.of_step hs with
  | @client e c hl hc =>
    refine h.client (fun ha => ⟨ha, rfl⟩) fun hnone hatt => ?_
    have hne : e ≠ .authenticated := by
      rintro rfl
      cases hl
    rw [hc.connecting (h.waiting hnone (hc.attached hne hatt)) hl] at hatt
    cases hatt
  | connect hc =>
    refine ⟨fun k hk ha => ?_, fun _ _ => ?_⟩
    · rcases List.mem_cons.mp hk with rfl | hk
      · rfl
      · exact h.empty k hk ha
    · cases hc
      rfl
  | clientSent hw _ hc => exact h.client (fun ha => ⟨ha, hput hw ha⟩) (hsends hw hc (by simp))
  | clientSendLate hw _ hc =>
    exact h.client (fun ha => ⟨ha, hput hw ha⟩) (hsends hw hc (by simp))
  | clientSendLost hw hc => exact h.client (fun ha => ⟨ha, rfl⟩) (hsends hw hc (by simp))
  | clientPong => exact h.client (fun ha => ⟨ha, rfl⟩) h.waiting
  | clientRecv hq hc =>
    refine h.client (fun ha => ⟨ha, rfl⟩) fun hnone hatt => ?_
    rw [(hempty hnone (hc.attached (by simp) hatt)).1] at hq
    cases hq
  | clientDatagram hm hc =>
    refine h.client (fun ha => ⟨ha, rfl⟩) fun hnone hatt => ?_
    rw [(hempty hnone (hc.attached (by simp) hatt)).2] at hm
    cases hm
  | accept =>
    refine h.setConn s.session ?_
    unfold answer
    split_ifs <;> simp
  | attachPong _ ha => exact h.setConn s.session (by simp [ha])
  | attach => exact h.setConn _ (by simp)
  | attachSent => exact h.setConn _ (by simp)
  | attachSendLate => exact h.setConn _ (by simp)
  | attachSendLost => exact h.setConn _ (by simp)
  | attachRecv => exact h.setConn _ (by simp)
  | attachDatagram => exact h.setConn _ (by simp)
  | task => exact ⟨h.empty, h.waiting⟩
  | unregister => exact ⟨h.empty, h.waiting⟩
  | abort => exact ⟨h.empty, h.waiting⟩
  | handover => exact ⟨h.empty, h.waiting⟩

end Sys

/-! ## The invariant -/

/-- Filled streams stay filled, whoever takes the step. -/
theorem Sys.StdinOk.ofEcho {s t : Sys} (h : StdinOk t) (he : Echo t s) (hb : s.client.Buffers) :
    StdinOk s.fill := by
  refine h.refill hb he.client.symm he.session.symm (fun hd => (he.live.alive hd).symm) ?_
    he.live.s2c.symm fun a ha => ⟨a, he.live.attach.trans ha, rfl⟩
  intro k hk hd
  obtain ⟨i, hi⟩ := List.mem_iff_getElem?.mp hk
  obtain ⟨k', hk', hecho⟩ := he.stale i k hi
  exact hecho.alive hd ▸ List.mem_of_getElem? hk'

/-- Every step of the network side, but the failure of a first send. -/
theorem Sys.StdinOk.net {cap : Capacity} {s s' : Sys} {l : Label} (h : StdinOk s.fill)
    (hd : Delivered s) (hl : l.onHost = false) (hfresh : FreshSendsSucceed s l)
    (hs : s.step cap l = some s') : StdinOk s'.fill := by
  have hb := (hd.step hs).buffers
  have hok : ∀ {cap' t}, s.fill.step cap' l = some t → StdinOk t :=
    fun ht => h.step hd.fill (fun _ hl => hfresh.fresh hl) ht
  have hclient : l.ofClient = true → StdinOk s'.fill := by
    intro hl
    obtain ⟨cap', t, ht, he⟩ := (Echo.fill s).ofClient hl hs
    exact (hok ht).ofEcho he hb
  have hserver : ∀ r, l.ref? = some r → StdinOk s'.fill := by
    intro r hr
    obtain ⟨t, ht, he⟩ := (Echo.fill s).serve hr hs
    exact (hok ht).ofEcho he hb
  -- What is left are steps of the session alone.
  cases l with
  | client => exact hclient rfl
  | connect => exact hclient rfl
  | clientSent => exact hclient rfl
  | clientSendFailed => exact hclient rfl
  | clientRecv => exact hclient rfl
  | clientDatagram => exact hclient rfl
  | accept r => exact hserver r rfl
  | attach r => exact hserver r rfl
  | attachSent r => exact hserver r rfl
  | attachSendFailed r => exact hserver r rfl
  | attachRecv r => exact hserver r rfl
  | attachDatagram r => exact hserver r rfl
  | task e =>
    cases Step.of_step hs with
    | task _ ht =>
      exact h.session (h.applies.taskStep ht h.resends.numbered fun x m => h.resends.eof_at_end)
  | unregister =>
    cases hs
    exact h.session ⟨h.applies, rfl, le_rfl⟩
  | abort =>
    cases hs
    exact h.session ⟨h.applies.enqueue trivial, reach_concat _ _ _, le_rfl⟩
  | handover =>
    cases hs
    exact h.session ⟨h.applies.enqueue trivial, reach_concat _ _ _, le_rfl⟩

/-- The next daemon goes on with what the task had applied; what was in its queue is lost. -/
theorem Session.Applies.restore {M : List Msg} {s : Session} {r : SessionHandover}
    {fds : Role → Option Fd} {agent : Bool} (h : s.Applies M) (hr : s.replied = some r)
    (happlied : r.state.stdinApplied = s.task.lastClientSeq)
    (hclosed : s.task.stdin = none → fds .stdin = none) :
    (restoreSession s.trace fds { r.state with forwardAgent := agent }).Applies M := by
  have hnow : AppliesAt M s.inbound s.task.lastClientSeq s.stdinApplied s.task.stdin s.trace.wrote
      s.trace.eof [] := by
    unfold replied at hr
    split at hr
    · exact h.of_phase ‹_›
    · cases hr
  show AppliesAt M [] r.state.stdinApplied r.state.stdinApplied (fds .stdin) s.trace.wrote
    s.trace.eof []
  rw [happlied]
  refine ⟨trivial, hnow.last_le, le_rfl, fun hopen => ?_, hnow.wrote_le, fun _ => rfl,
    fun heof => ?_⟩
  · refine hnow.wrote_eq (Option.isSome_iff_ne_none.mpr fun hnone => ?_)
    rw [hclosed hnone] at hopen
    cases hopen
  · obtain ⟨hnone, hrest⟩ := hnow.eof_eq heof
    exact ⟨hclosed hnone, hrest⟩

/-- Another session takes over, and all that is on the streams that somebody will read comes from
before the client's first message. -/
theorem Sys.StdinOk.takeOver {s : Sys} {session : Session} (h : StdinOk s.fill) (hu : Unread s)
    (hb : s.client.Buffers) (hdown : ∀ k ∈ s.conns, k.attach = none ∨ k.dead = true)
    (happ : session.Applies s.client.trace.numbered)
    (hle : s.session.stdinApplied ≤ session.stdinApplied) :
    StdinOk (Sys.fill { s with session := session }) := by
  have hnone : ∀ k ∈ s.conns, k.dead = false → k.attach = none := by
    intro k hk ha
    rcases hdown k hk with hnone | hd
    · exact hnone
    · rw [ha] at hd
      cases hd
  refine ⟨h.resends, happ, h.acked_le.trans hle, ?_, ?_, fun hatt => ?_⟩
  · show Feeds _ _ (if s.live.dead then _ else s.live)
    have hlive : Feeds s.client _ (if s.live.dead then _ else s.live) := h.live
    split_ifs at hlive ⊢ with hd
    · exact Feeds.sentUp hb h.resends _
    · have ha := hnone s.live List.mem_cons_self ((Bool.not_eq_true _).mp hd)
      have hnil := hu.empty s.live List.mem_cons_self ha
      refine ⟨⟨0, Nat.zero_le _, hnil ▸ SegmentAt.nil _ _, fun hatt hpc => ?_⟩, hlive.dups,
        fun _ => hnil⟩
      exact absurd (hu.waiting ha hatt) hpc
  · intro k hk
    have hcar : ∃ r, Carries s.client.trace.numbered r k := ⟨_, h.stale k hk⟩
    obtain ⟨k', hk', rfl⟩ := List.mem_map.mp hk
    obtain ⟨_, -, hdups⟩ := hcar
    refine ⟨⟨0, Nat.zero_le _, ?_⟩, hdups⟩
    by_cases hd : k'.dead = true
    · rw [Conn.hollow_of_dead hd]
      exact SegmentAt.nil _ _
    · have ha := (Bool.not_eq_true _).mp hd
      have hk' := List.mem_cons_of_mem s.live hk'
      rw [Conn.hollow_of_alive ha, hu.empty k' hk' (hnone k' hk' ha)]
      exact SegmentAt.nil _ _
  · obtain ⟨h1, h2⟩ := h.acks hatt
    exact ⟨h1.mono hle fun _ => id, fun a ha => (h2 a ha).trans hle⟩

/-- The daemon stops: streams that somebody reads have not been accepted yet. -/
theorem Sys.StdinOk.cut {w : Deployed} (h : w.sys.fill.StdinOk) (hb : w.client.Buffers) :
    w.cut.sys.fill.StdinOk := by
  have hcut : ∀ k : Conn, k.cut.dead = false → k.cut = k ∧ k.dead = false := by
    intro k hd
    cases ha : k.attach with
    | none => exact ⟨by rw [Conn.cut, ha]; cases k; simp_all, Conn.alive_of_none ha⟩
    | some a => simp [Conn.dead, Conn.cut, ha, Attach.return_] at hd
  have hfill : ∀ k : Conn, k.cut.dead = false → w.live = k → w.sys.fill.live = k.cut := by
    rintro k hd rfl
    obtain ⟨heq, hd⟩ := hcut w.live hd
    show (if w.live.dead then _ else w.live) = _
    rw [hd, heq]
    rfl
  have hs2c : w.sys.fill.live.s2c = w.live.s2c ∧ w.sys.fill.live.attach = w.live.attach := by
    show (if w.live.dead then _ else w.live).s2c = _ ∧
      (if w.live.dead then _ else w.live).attach = _
    split_ifs <;> exact ⟨rfl, rfl⟩
  refine h.refill hb rfl rfl (fun hd => (hfill w.live hd rfl).symm) ?_ hs2c.1.symm ?_
  · intro k hk hd
    obtain ⟨k', hk', rfl⟩ := List.mem_map.mp hk
    obtain ⟨heq, hd⟩ := hcut k' hd
    exact List.mem_map.mpr ⟨k', hk', by rw [heq, Conn.hollow_of_alive hd]⟩
  · intro a ha
    obtain ⟨b, hb, rfl⟩ := Option.map_eq_some_iff.mp (show w.live.attach.map _ = some a from ha)
    exact ⟨b, hs2c.2.trans hb, rfl⟩

namespace Deployed

variable {cap : Capacity} {w w' : Deployed} {l : WorldLabel}

/-- The conditions on a run: the first send of a message does not fail, and the store has no stdin
to give back that the session had closed. -/
structure KeepsStdin (w : Deployed) (l : WorldLabel) : Prop where
  fresh : ∀ l', l = .net l' → Sys.FreshSendsSucceed w.sys l'
  closed : l = .host .restart → w.host.session.task.stdin = none →
    fdFor w.host.store w.token .stdin = none

/-- The invariant of such a run. -/
structure Fed (w : Deployed) : Prop where
  carried : Carried w
  stdin : w.sys.fill.StdinOk
  unread : w.sys.Unread
  down : w.host.stopped = true → ∀ k ∈ w.sys.conns, k.attach = none ∨ k.dead = true
  reply : ∀ r, w.host.session.replied = some r →
    r.state.stdinApplied = w.host.session.task.lastClientSeq

theorem fed_start (token : String) (tokenSource : TokenSource) (agent quic : Bool) (pgid : Int32)
    (pipes : Role → Nat) : Fed (start token tokenSource agent quic pgid pipes) where
  carried := carried_start ..
  stdin := Sys.stdinOk_start token tokenSource agent quic ..
  unread := by
    refine ⟨fun k hk ha => ?_, fun h => by cases h⟩
    rcases List.mem_cons.mp hk with rfl | hk
    · cases ha
    · cases hk
  down := fun h => by cases h
  reply := fun _ h => by cases h

theorem replied_applied {s s' : Session} {e : TaskEvent} (hs : s.taskStep e = some s')
    {r : SessionHandover} (hr : s'.replied = some r) :
    r.state.stdinApplied = s'.task.lastClientSeq := by
  obtain ⟨-, -, -, rfl⟩ := Session.taskStep_replied hs hr
  rfl

/-- The client opens connections that have no server yet. -/
theorem down_ofClient {s s' : Sys} {l : Label} (hl : l.ofClient = true)
    (h : ∀ k ∈ s.conns, k.attach = none ∨ k.dead = true) (hs : s.step cap l = some s') :
    ∀ k ∈ s'.conns, k.attach = none ∨ k.dead = true := by
  have hgo : ∀ {k' : Conn}, k'.attach = s.live.attach → ∀ k ∈ k' :: s.stale,
      k.attach = none ∨ k.dead = true := by
    intro k' ha k hk
    rcases List.mem_cons.mp hk with rfl | hk
    · rw [Conn.dead, ha]
      exact h s.live List.mem_cons_self
    · exact h k (List.mem_cons_of_mem _ hk)
  cases Sys.Step.of_step hs with
  | connect =>
    intro k hk
    rcases List.mem_cons.mp hk with rfl | hk
    · exact .inl rfl
    · exact h k hk
  | client => exact h
  | clientSent => exact hgo rfl
  | clientSendLate => exact hgo rfl
  | clientSendLost => exact h
  | clientPong => exact hgo rfl
  | clientRecv => exact hgo rfl
  | clientDatagram => exact h
  | _ => cases hl

theorem Fed.net (h : Fed w) {l : Label} {s : Sys} (hl : l.onHost = false)
    (hup : w.host.stopped = true → l.ofClient = true) (hfresh : Sys.FreshSendsSucceed w.sys l)
    (hs : w.sys.step cap l = some s) : Fed (w.withSys s) := by
  have hok := h.stdin.net h.carried.delivered hl hfresh hs
  have hunread := h.unread.step h.carried.delivered hs
  refine ⟨h.carried.net hl hs, ⟨hok.resends, hok.applies, hok.acked_le, hok.live, hok.stale,
    hok.acks⟩, ⟨hunread.empty, hunread.waiting⟩, fun hstop => ?_, fun r hr => ?_⟩
  · have hdown := down_ofClient (hup hstop) (h.down hstop) hs
    exact hdown
  · rcases Sys.step_session hl hs with ht | ht
    · rw [show (w.withSys s).host.session.task = w.host.session.task from ht.task]
      exact h.reply r (ht.replied ▸ hr)
    · exact replied_applied ht hr

theorem Fed.host (h : Fed w) {l : HostLabel} {x : Host} (hl : l.onNet = false)
    (hne : l ≠ .shutDown) (hclosed : l = .restart → w.host.session.task.stdin = none →
      fdFor w.host.store w.token .stdin = none) (hs : Host.Step w.token w.host l x) :
    Fed { w with host := x } := by
  have hcar := h.carried.host hl hs
  have hdown : x.stopped = true → ∀ k ∈ w.sys.conns, k.attach = none ∨ k.dead = true := by
    intro hstop
    refine h.down ?_
    cases hs with
    | shutDown => exact absurd rfl hne
    | restart => cases hstop
    | childClose => rename_i role _; cases role <;> exact hstop
    | _ => exact hstop
  have hunread : Sys.Unread ({ w with host := x } : Deployed).sys :=
    ⟨h.unread.empty, h.unread.waiting⟩
  have hsame : x.session = w.host.session → Fed { w with host := x } := by
    intro heq
    have hsys : ({ w with host := x } : Deployed).sys = w.sys := by
      unfold sys
      rw [heq]
    exact ⟨hcar, hsys ▸ h.stdin, hunread, hdown, heq ▸ h.reply⟩
  have htask : ∀ e, w.host.session.taskStep e = some x.session → Fed { w with host := x } :=
    fun e ht => ⟨hcar, h.stdin.session (h.stdin.applies.taskStep ht h.stdin.resends.numbered
      fun x m => h.stdin.resends.eof_at_end), hunread, hdown, fun r hr => replied_applied ht hr⟩
  cases hs with
  | shutDown => exact absurd rfl hne
  | restart hr hstop =>
    have happlied := h.reply _ hr
    refine ⟨hcar, ?_, hunread, hdown, fun r hr => by cases hr⟩
    refine h.stdin.takeOver h.unread h.carried.delivered.buffers (h.down hstop)
      (h.stdin.applies.restore hr happlied (hclosed rfl)) ?_
    exact h.stdin.applies.applied_le.trans happlied.ge
  | readData _ _ hs => exact htask _ hs
  | readEof _ hs => exact htask _ hs
  | exitData _ _ hs => exact htask _ hs
  | exitEof _ hs => exact htask _ hs
  | recv hs => exact htask _ hs
  | write _ _ _ hs => exact htask _ hs
  | writeFail _ hs => exact htask _ hs
  | reaped _ hs => exact htask _ hs
  | input => cases hl
  | acked => cases hl
  | @childClose role => exact hsame (by cases role <;> rfl)
  | _ => exact hsame rfl

theorem Fed.step (h : Fed w) (hk : KeepsStdin w l) (hs : Step cap w l w') : Fed w' := by
  cases hs with
  | net hl hup hs => exact h.net hl hup (hk.fresh _ rfl) hs
  | host hl hne hs => exact h.host hl hne (fun he => hk.closed (congrArg _ he)) hs
  | @shutDown x hs =>
    cases hs with
    | shutDown hr hup =>
      have hstep : Step cap w (.host .shutDown) _ := .shutDown (.shutDown hr hup)
      have hcar := h.carried.step hstep
      have hattach : ∀ k : Conn, k.cut.attach = none ↔ k.attach = none :=
        fun k => Option.map_eq_none_iff
      have hconns : ∀ k ∈ w.cut.sys.conns, ∃ k' ∈ w.sys.conns, k'.cut = k :=
        fun k hk => List.mem_map.mp (show k ∈ w.sys.conns.map Conn.cut from hk)
      refine ⟨hcar, h.stdin.cut h.carried.delivered.buffers, ?_, fun _ k hk => ?_, h.reply⟩
      · refine ⟨fun k hk ha => ?_, fun ha => h.unread.waiting ((hattach _).mp ha)⟩
        obtain ⟨k', hk', rfl⟩ := hconns k hk
        exact h.unread.empty k' hk' ((hattach k').mp ha)
      · obtain ⟨k', -, rfl⟩ := hconns k hk
        cases ha : k'.attach with
        | none => exact .inl ((hattach k').mpr ha)
        | some a => exact .inr (by rw [Conn.dead, Conn.cut, ha]; rfl)

theorem fed_under (h : (machine cap).Under KeepsStdin w) : Fed w := by
  refine h.invariant ?_ fun _ _ _ hf hk hs => hf.step hk (Step.of_step hs)
  rintro w ⟨token, tokenSource, agent, quic, pgid, pipes, rfl⟩
  exact fed_start ..

/-! ## Exactly once -/

/-- The stdin of an exec: in order, without gaps or repetitions, closed only when all of it was
written, and whatever the child still lacks is held by the client between connections. -/
structure StdinDelivered (w : Deployed) : Prop where
  wrote_le : w.host.session.trace.wrote <+: w.client.trace.stdinRead
  eof : w.host.session.trace.eof = true →
    w.host.session.trace.wrote = w.client.trace.stdinRead ∧ w.client.stdinOpen = false
  held : w.client.attached = false → w.host.session.task.stdin.isSome = true →
    ∃ rest, w.host.session.trace.wrote ++ w.host.session.task.phase.unwritten ++ rest =
      w.client.trace.stdinRead ∧ rest <:+ stdinData w.client.sentStdin

/-- **Stdin, end to end**, over any number of reconnects and any number of restarts of the
daemon. -/
theorem stdin_end_to_end (h : (machine cap).Under KeepsStdin w) : StdinDelivered w := by
  have hok := (fed_under h).stdin
  have hres : w.client.Resends := hok.resends
  have happ : w.host.session.Applies w.client.trace.numbered := hok.applies
  have hacked : w.client.trace.acked ≤ w.host.session.task.lastClientSeq :=
    hok.acked_le.trans happ.applied_le
  refine ⟨?_, fun heof => ?_, fun hatt hopen => ?_⟩
  · rw [← hres.read_eq]
    exact happ.wrote_le.trans (stdinData_take_le _ _)
  · obtain ⟨-, hall, m, hm, hend⟩ := happ.eof_eq heof
    refine ⟨hall.trans hres.read_eq, (Bool.not_eq_true _).mp fun hstdin => ?_⟩
    rw [hres.noEof hstdin m hm] at hend
    cases hend
  · have hfresh : w.client.pc.fresh = [] := by
      cases hp : w.client.pc with
      | sendFresh m => simp [Client.attached, hp] at hatt
      | _ => rfl
    have hheld : w.client.sentStdin = w.client.trace.numbered.drop w.client.trace.acked := by
      have := hres.held_eq
      rwa [hfresh, List.append_nil] at this
    refine ⟨stdinData (w.client.trace.numbered.drop w.host.session.task.lastClientSeq), ?_, ?_⟩
    · rw [happ.wrote_eq hopen, ← stdinData_append, List.take_append_drop, hres.read_eq]
    · -- The task applied at least what the client knows to be applied.
      obtain ⟨n, hn⟩ := Nat.exists_eq_add_of_le hacked
      rw [hheld, hn, ← List.drop_drop]
      conv_rhs => rw [← List.take_append_drop n (List.drop _ _), stdinData_append]
      exact List.suffix_append _ _

/-- A chunk is in the queue of the task when the daemon takes the session out of its hands, and the
client connects to the next one. -/
def stdinLost : List WorldLabel :=
  [.net (.attachSent .live), .net .clientRecv, .net (.client (.stdinData [97])), .net .clientSent,
   .net .handover, .net (.attach .live .snapshot), .net (.attachRecv .live), .host .recv,
   .net .unregister, .host .shutDown,
   .net (.client .disconnected), .net (.client .wake), .net (.connect false)]

/-- The chunk is sent again, and then stdin ends. -/
def stdinResent : List WorldLabel :=
  [.net (.accept .live), .net (.attachSent .live), .net (.attach .live .snapshot), .net .clientRecv,
   .net .clientSent, .net (.attachRecv .live), .net (.attach .live .snapshot), .host .recv,
   .host (.write 1), .net (.client .stdinEof), .net .clientSent, .net (.attachRecv .live),
   .host .recv]

def whileDown : Deployed := ((machine ⟨4, 4⟩).run fresh stdinLost).get (by decide)

def whenBack : Deployed := (whileDown.step ⟨4, 4⟩ (.host .restart)).get (by decide)

def afterStdin : Deployed := ((machine ⟨4, 4⟩).run whenBack stdinResent).get (by decide)

theorem under_afterStdin : (machine ⟨4, 4⟩).Under KeepsStdin afterStdin := by
  have hdown : (machine ⟨4, 4⟩).Under KeepsStdin whileDown := by
    refine Machine.under_of_run (s := fresh) (ℓ := WorldLabel) (.init ?_) ?_
      (Option.some_get _).symm
    · exact ⟨"t", .static, false, false, 7, fun _ => 4, rfl⟩
    · refine fun s l hl => ⟨fun l' he delivered m he' => ?_, fun he => ?_⟩
      · subst he he'
        simp [stdinLost] at hl
      · subst he
        simp [stdinLost] at hl
  have hback : (machine ⟨4, 4⟩).Under KeepsStdin whenBack := by
    refine hdown.step (l := .host .restart) ⟨fun l' he => (by cases he), fun _ hnone => ?_⟩
      (Option.some_get _).symm
    exact absurd hnone (by decide)
  refine Machine.under_of_run hback ?_ (Option.some_get _).symm
  refine fun s l hl => ⟨fun l' he delivered m he' => ?_, fun he => ?_⟩
  · subst he he'
    simp [stdinResent] at hl
  · subst he
    simp [stdinResent] at hl

theorem afterStdin_delivered :
    (machine ⟨4, 4⟩).Under KeepsStdin afterStdin ∧
    afterStdin.host.session.trace.eof = true ∧ afterStdin.client.trace.stdinRead = [97] ∧
    StdinDelivered afterStdin := by
  have hunder := under_afterStdin
  exact ⟨hunder, by decide, by decide, stdin_end_to_end hunder⟩

end Deployed

end HerdrEternal
