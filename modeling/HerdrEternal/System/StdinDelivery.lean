import HerdrEternal.Server.StdinInv
import HerdrEternal.System.Delivery

/-!
# Stdin is delivered exactly once, unless a first send fails

`run_exec` numbers a chunk, sends it, and only then puts it into `sent_stdin`. If that first send
fails, the number is spent and the chunk is in no buffer: the next connection goes on with the
next number, which the server accepts. `fresh_send_failure_loses_chunk` is such a run.

**Theorem (`stdin_exactly_once`).** In every run in which no send of a freshly read message fails,
what the task wrote to the child's stdin is a prefix of what the client read, `StdinEof` closes it
only after all of it was written, and between connections the client holds everything that is not
acknowledged.

The proof is an induction over such runs with the invariant `StdinOk`. Let `M` be everything the
client numbered.

* *Client*: it holds `M` behind what is acknowledged (`Client.Resends`).
* *Connections*: the stdin on every stream, live or stale, is a contiguous piece of `M` that starts
  at or before what the session's queue leads up to (`Carries`). On the live stream it ends where
  the client goes on sending.
* *Session*: it applied a prefix of `M`, and its queue offers every message in time
  (`Session.Applies`).
* *Acks* on the live connection are for messages that were applied.
-/

namespace HerdrEternal

open History

/-! ## Stdin on a stream -/

/-- The stdin message on the wire, if it is one. -/
def Wire.stdin? : Wire → Option Msg
  | .msg m => if m.isStdin then some m else none
  | .ping => none

def stdins (ws : List Wire) : List Msg := ws.filterMap Wire.stdin?

theorem stdins_concat (ws : List Wire) (w : Wire) :
    stdins (ws ++ [w]) = stdins ws ++ w.stdin?.toList := by
  rw [stdins, List.filterMap_append]
  cases h : w.stdin? <;> simp [stdins, h]

theorem stdins_concat_of_none {w : Wire} (h : w.stdin? = none) (ws : List Wire) :
    stdins (ws ++ [w]) = stdins ws := by
  rw [stdins_concat, h, Option.toList_none, List.append_nil]

theorem stdins_cons (ws : List Wire) (w : Wire) :
    stdins (w :: ws) = w.stdin?.toList ++ stdins ws := by
  cases h : w.stdin? <;> simp [stdins, h]

/-- The stream of a connection starts in time, and its duplicates are numbered. -/
structure Carries (M : List Msg) (r : Nat) (k : Conn) : Prop where
  segment : ∃ x ≤ r, SegmentAt M x (stdins k.c2s)
  dups : ∀ m ∈ k.c2sDup, m ∈ M

/-- The stream of the live connection ends where the client goes on sending. -/
structure Feeds (c : Client) (r : Nat) (k : Conn) : Prop where
  segment : ∃ x ≤ r, SegmentAt c.trace.numbered x (stdins k.c2s) ∧
    (c.attached = true → c.pc ≠ .connecting →
      x + (stdins k.c2s).length + c.pc.pending.length = c.trace.numbered.length)
  dups : ∀ m ∈ k.c2sDup, m ∈ c.trace.numbered
  connecting : c.pc = .connecting → stdins k.c2s = []

section

variable {M M' : List Msg} {r r' : Nat} {k : Conn} {c c' : Client}

theorem Carries.mono (h : Carries M r k) (hM : M <+: M') (hr : r ≤ r') : Carries M' r' k := by
  obtain ⟨x, hx, hseg⟩ := h.segment
  exact ⟨⟨x, hx.trans hr, hseg.mono hM⟩, fun m hm => hM.subset (h.dups m hm)⟩

theorem Feeds.carries (h : Feeds c r k) : Carries c.trace.numbered r k := by
  obtain ⟨x, hx, hseg, -⟩ := h.segment
  exact ⟨⟨x, hx, hseg⟩, h.dups⟩

theorem Feeds.mono (h : Feeds c r k) (hr : r ≤ r') : Feeds c r' k := by
  obtain ⟨x, hx, hseg, hlen⟩ := h.segment
  exact ⟨⟨x, hx.trans hr, hseg, hlen⟩, h.dups, h.connecting⟩

/-- The client leaves the connection, or is about to. -/
theorem Carries.leave (h : Carries c.trace.numbered r k)
    (hn : c'.trace.numbered = c.trace.numbered) (ha : c'.attached = false) : Feeds c' r k := by
  obtain ⟨x, hx, hseg⟩ := h.segment
  refine ⟨⟨x, hx, hn ▸ hseg, ?_⟩, hn ▸ h.dups, ?_⟩
  · intro ha'
    rw [ha] at ha'
    cases ha'
  · intro hp
    simp [Client.attached, hp] at ha

/-- The client stays on the connection and has nothing to send. -/
theorem Feeds.stay (h : Feeds c r k) (ha : c.attached = true) (hc : c.pc ≠ .connecting)
    (hp : c.pc.pending = []) (hn : c'.trace.numbered = c.trace.numbered)
    (hc' : c'.pc ≠ .connecting) (hp' : c'.pc.pending = []) : Feeds c' r k := by
  obtain ⟨x, hx, hseg, hlen⟩ := h.segment
  refine ⟨⟨x, hx, hn ▸ hseg, fun _ _ => ?_⟩, hn ▸ h.dups, fun hp => absurd hp hc'⟩
  have := hlen ha hc
  rw [hp'] at *
  rw [hn, ← this, hp]

theorem Client.attached_connectError (c : Client) (e : ClientError) :
    (c.connectError e).attached = false := by
  unfold connectError
  split
  · split <;> rfl
  · rfl
  · split_ifs <;> rfl

theorem Client.attached_disconnect (c : Client) : c.disconnect.attached = false := by
  unfold disconnect
  split_ifs <;> rfl

theorem Feeds.connectError (h : Feeds c r k) (e : ClientError) : Feeds (c.connectError e) r k :=
  h.carries.leave (by rw [c.trace_connectError]) (c.attached_connectError e)

theorem Carries.disconnect (h : Carries c.trace.numbered r k) : Feeds c.disconnect r k :=
  h.leave (by rw [c.trace_disconnect]) c.attached_disconnect

theorem Feeds.fail (h : Feeds c r k) (e : ClientError) : Feeds (c.fail e) r k :=
  h.carries.leave rfl rfl

/-- `Started` arrives: the client resends everything that is not acknowledged. -/
theorem Feeds.started (h : Feeds c r k) (hp : c.pc = .connecting) (hres : c.Resends)
    (hr : c.trace.acked ≤ r) (hM : c.trace.acked ≤ c.trace.numbered.length)
    (token : Option String) : Feeds (c.onReply (.started token)) r k := by
  have hnil := h.connecting hp
  have hheld : c.sentStdin = c.trace.numbered.drop c.trace.acked := by
    have := (hres.of_pc hp).held_eq
    rwa [ClientPc.fresh, List.append_nil] at this
    simp
  have hlen : c.trace.acked + c.sentStdin.length = c.trace.numbered.length := by
    rw [hheld, List.length_drop]
    omega
  -- Nothing was sent yet, and all of `sentStdin` is pending.
  have hfeeds : ∀ {c' : Client}, c'.trace.numbered = c.trace.numbered → c'.pc ≠ .connecting →
      c'.pc.pending = c.sentStdin → Feeds c' r k := by
    intro c' hn hpc hpending
    refine ⟨⟨c.trace.acked, hr, by rw [hnil]; exact SegmentAt.nil _ _, fun _ _ => ?_⟩, hn ▸ h.dups,
      fun h => absurd h hpc⟩
    rw [hnil, hpending, hn]
    exact hlen
  show Feeds ({ c with resumeToken := c.resumeToken <|> token }.resendNext c.sentStdin) r k
  cases hsent : c.sentStdin with
  | nil => exact hfeeds rfl (by simp [Client.resendNext]) hsent.symm
  | cons m rest => exact hfeeds rfl (by simp [Client.resendNext]) hsent.symm

/-- A message is read and numbered while everything before it was sent. -/
theorem Feeds.sendStdin (h : Feeds c r k) (ha : c.attached = true) (hc : c.pc ≠ .connecting)
    (hp : c.pc.pending = []) (m : Nat → Msg) : Feeds (c.sendStdin m) r k := by
  obtain ⟨x, hx, hseg, hlen⟩ := h.segment
  have hlen := hlen ha hc
  rw [hp] at hlen
  refine ⟨⟨x, hx, hseg.mono (List.prefix_append _ _), fun _ _ => ?_⟩, ?_, fun h => by cases h⟩
  · show x + (stdins k.c2s).length + 1 = (c.trace.numbered ++ [_]).length
    rw [List.length_append, ← hlen]
    rfl
  · intro m' hm'
    exact List.mem_append_left _ (h.dups m' hm')

/-- The message under way is the one that comes next on the stream. -/
theorem Feeds.put (h : Feeds c r k) (ha : c.attached = true) (hc : c.pc ≠ .connecting)
    (hsuf : c.pc.pending <:+ c.trace.numbered) {m : Msg} {rest : List Msg}
    (hp : c.pc.pending = m :: rest) (hm : m.isStdin = true) :
    ∃ x ≤ r, SegmentAt c.trace.numbered x (stdins (k.c2s ++ [.msg m])) ∧
      x + (stdins (k.c2s ++ [.msg m])).length + rest.length = c.trace.numbered.length := by
  obtain ⟨x, hx, hseg, hlen⟩ := h.segment
  have hlen := hlen ha hc
  have hcat : stdins (k.c2s ++ [.msg m]) = stdins k.c2s ++ [m] := by
    rw [stdins_concat, Wire.stdin?, if_pos hm]
    rfl
  rw [hp] at hlen hsuf
  obtain ⟨before, hbefore⟩ := hsuf
  have hpos : before.length = x + (stdins k.c2s).length := by
    rw [← hbefore, List.length_append] at hlen
    omega
  rw [hcat]
  refine ⟨x, hx, hseg.concat ?_, ?_⟩
  · rw [← hbefore, ← hpos, List.getElem?_append_right le_rfl, Nat.sub_self]
    rfl
  · simp only [List.length_append, List.length_cons, List.length_nil] at hlen ⊢
    omega

theorem Feeds.onMessage (h : Feeds c r k) (hp : c.pc = .select) (reliable : Bool) (m : Msg) :
    Feeds (c.onMessage reliable m) r k := by
  have hsel : ∀ {c' : Client}, c'.trace.numbered = c.trace.numbered → c'.pc ≠ .connecting →
      c'.pc.pending = [] → Feeds c' r k := by
    intro c' hn hc' hp'
    exact h.stay (by simp [Client.attached, hp]) (by rw [hp]; simp) (by rw [hp]; rfl) hn hc' hp'
  have hout : ∀ stream seq data, Feeds (c.onOutput stream seq data reliable) r k := by
    intro stream seq data
    unfold Client.onOutput
    split_ifs
    · exact hsel rfl (by simp) rfl
    · exact hsel rfl (by simp) rfl
    · exact h
  cases m with
  | stdout seq data => exact hout .out seq data
  | stderr seq data => exact hout .err seq data
  | exit seq code => exact h.carries.leave rfl rfl
  | ack seq =>
    have hpc : (c.onMessage reliable (.ack seq)).pc = .select := hp
    exact hsel rfl (by rw [hpc]; simp) (by rw [hpc]; rfl)
  | _ => exact h

/-- Only opening a connection attaches the client. -/
theorem Client.Step.attached {q : Bool} {e : ClientEvent} (h : c.Step q e c')
    (he : e ≠ .authenticated) (ha : c'.attached = true) : c.attached = true := by
  have herr : ∀ e, (c.connectError e).attached = true → c.attached = true := by
    intro e ha
    rw [c.attached_connectError] at ha
    cases ha
  have hdis : c.disconnect.attached = true → c.attached = true := by
    intro ha
    rw [c.attached_disconnect] at ha
    cases ha
  cases h with
  | authenticated => exact absurd rfl he
  | authFailed => exact herr _ ha
  | early => exact ha
  | connectFailed => exact herr _ ha
  | loggedIn => cases ha
  | loginFailed => cases ha
  | wake => cases ha
  | exitAcked => cases ha
  | exitAckFailed => cases ha
  | stdinError => cases ha
  | badFrame => cases ha
  | writeFailed => cases ha
  | flushFailed => cases ha
  | resendFailed => exact hdis ha
  | expired => exact hdis ha
  | pingFailed => exact hdis ha
  | freshFailed => exact hdis ha
  | disconnected => exact hdis ha
  | badDatagram => exact ha
  | _ => simp [Client.attached, *]

/-- The client's events that put nothing on the connection and do not open one. -/
def Client.receives : ClientEvent → Bool
  | .sent | .sendFailed | .authenticated => false
  | _ => true

theorem Feeds.receive {q : Bool} {e : ClientEvent} (h : Feeds c r k) (hres : c.Resends)
    (hr : c.trace.acked ≤ r) (hM : c.trace.acked ≤ c.trace.numbered.length)
    (hs : c.Step q e c') (he : Client.receives e = true) : Feeds c' r k := by
  have hatt : ∀ {p}, c.pc = p → Client.attached { c with pc := p } = true → c.attached = true := by
    rintro _ rfl ha
    exact ha
  -- Steps from `select`, where nothing is pending, to another place on the same connection.
  have hsel : ∀ {c' : Client}, c.pc = .select → c'.trace.numbered = c.trace.numbered →
      c'.pc ≠ .connecting → c'.pc.pending = [] → Feeds c' r k := by
    intro c' hp hn hc' hp'
    exact h.stay (hatt hp rfl) (by rw [hp]; simp) (by rw [hp]; rfl) hn hc' hp'
  have hsend : ∀ {c' : Client} (m : Nat → Msg), c.pc = .select → c'.pc = c.pc →
      c'.trace.numbered = c.trace.numbered → Feeds (c'.sendStdin m) r k := by
    intro c' m hp hpc hn
    have hp' : c'.pc = .select := hpc.trans hp
    have hc' : c'.pc ≠ .connecting := by rw [hp']; simp
    have hpend : c'.pc.pending = [] := by rw [hp']; rfl
    apply Feeds.sendStdin
    · exact hsel hp hn hc' hpend
    · rw [Client.attached, hp']
    · exact hc'
    · exact hpend
  cases hs with
  | authFailed => exact h.connectError _
  | @reply m hp =>
    by_cases hm : ∃ token, m = .started token
    · obtain ⟨token, rfl⟩ := hm
      exact h.started hp hres hr hM token
    · unfold Client.onReply
      split
      · exact absurd ⟨_, rfl⟩ hm
      · exact h.connectError _
      · exact h.connectError _
  | early => exact h
  | connectFailed => exact h.connectError _
  | loggedIn hp => exact h.carries.leave rfl rfl
  | loginFailed => exact h.fail _
  | wake hp => exact h.carries.leave rfl rfl
  | expired => exact h.carries.disconnect
  | tick hp => exact hsel hp rfl (by simp) rfl
  | stdinData hp => exact hsend _ hp rfl rfl
  | stdinEof hp => exact hsend _ hp rfl rfl
  | stdinError => exact h.fail _
  | frame hp => exact h.onMessage hp _ _
  | datagram hp => exact h.onMessage hp _ _
  | badFrame => exact h.fail _
  | badDatagram => exact h
  | disconnected => exact h.carries.disconnect
  | wrotePart hp =>
    exact h.stay (hatt hp rfl) (by rw [hp]; simp) (by rw [hp]; rfl) rfl (by simp) rfl
  | wroteAll hp =>
    exact h.stay (hatt hp rfl) (by rw [hp]; simp) (by rw [hp]; rfl) rfl (by simp) rfl
  | writeFailed => exact h.fail _
  | flushFailed => exact h.fail _
  | flushed hp =>
    exact h.stay (hatt hp rfl) (by rw [hp]; simp) (by rw [hp]; rfl) rfl (by simp) rfl
  | _ => cases he

/-- What a suspended send of the client puts on the wire. -/
theorem Client.sending_cases {w : Wire} (h : c.sending = some w) (hb : c.Buffers) :
    (∃ m rest, c.pc.pending = m :: rest ∧ w = .msg m ∧ m.isStdin = true ∧ c.attached = true ∧
      c.pc ≠ .connecting) ∨ (c.pc.pending = [] ∧ w.stdin? = none) := by
  have hstdin : ∀ m ∈ c.pc.pending, m.isStdin = true := fun m hm => hb.stdin m (hb.pending m hm)
  unfold sending at h
  split at h
  · rename_i m rest hp
    cases h
    rw [hp] at hstdin ⊢
    exact .inl ⟨m, rest, rfl, rfl, hstdin m (List.mem_cons_self ..), by simp [attached, hp],
      by simp⟩
  · rename_i m hp
    cases h
    rw [hp] at hstdin ⊢
    exact .inl ⟨m, [], rfl, rfl, hstdin m (List.mem_cons_self ..), by simp [attached, hp], by simp⟩
  · rename_i hp
    cases h
    exact .inr ⟨by rw [hp]; rfl, rfl⟩
  · rename_i seq hp
    cases h
    exact .inr ⟨by rw [hp]; rfl, rfl⟩
  · rename_i seq code hp
    cases h
    exact .inr ⟨by rw [hp]; rfl, rfl⟩
  · cases h

/-- Whatever the client sends, the stream stays a piece of what it numbered. -/
theorem Feeds.carries_put {w : Wire} (h : Feeds c r k) (hb : c.Buffers) (hres : c.Resends)
    (hw : c.sending = some w) :
    ∃ x ≤ r, SegmentAt c.trace.numbered x (stdins (k.c2s ++ [w])) := by
  rcases c.sending_cases hw hb with ⟨m, rest, hpend, rfl, hm, ha, hc⟩ | ⟨-, hnone⟩
  · obtain ⟨x, hx, hseg, -⟩ := h.put ha hc hres.pending_eq hpend hm
    exact ⟨x, hx, hseg⟩
  · obtain ⟨x, hx, hseg, -⟩ := h.segment
    refine ⟨x, hx, ?_⟩
    rw [stdins_concat_of_none hnone]
    exact hseg

theorem Feeds.sent {q : Bool} {w : Wire} {dups : List Msg} (h : Feeds c r k) (hb : c.Buffers)
    (hres : c.Resends) (hw : c.sending = some w) (hs : c.Step q .sent c')
    (hdups : ∀ m ∈ dups, m ∈ c.trace.numbered) :
    Feeds c' r { k with c2s := k.c2s ++ [w], c2sDup := k.c2sDup ++ dups } := by
  have hdup : ∀ m ∈ k.c2sDup ++ dups, m ∈ c.trace.numbered := by
    intro m hm
    rcases List.mem_append.mp hm with hm | hm
    · exact h.dups m hm
    · exact hdups m hm
  -- A stdin message goes out, and the rest of the pending ones is still to come.
  have hput : ∀ {m rest} {c' : Client}, c.pc.pending = m :: rest → w = .msg m →
      m.isStdin = true → c.attached = true → c.pc ≠ .connecting → c'.trace.numbered =
      c.trace.numbered → c'.pc ≠ .connecting → c'.pc.pending = rest →
      Feeds c' r { k with c2s := k.c2s ++ [w], c2sDup := k.c2sDup ++ dups } := by
    rintro m rest c' hpend rfl hm ha hc hn hc' hp'
    obtain ⟨x, hx, hseg, hlen⟩ := h.put ha hc hres.pending_eq hpend hm
    refine ⟨⟨x, hx, hn ▸ hseg, fun _ _ => ?_⟩, hn ▸ hdup, fun hp => absurd hp hc'⟩
    rw [hp', hn]
    exact hlen
  have hput' : c.pc.pending = [] → w.stdin? = none → c.attached = true → c.pc ≠ .connecting →
      ∀ {c' : Client}, c'.trace.numbered = c.trace.numbered → c'.pc ≠ .connecting →
      c'.pc.pending = [] →
      Feeds c' r { k with c2s := k.c2s ++ [w], c2sDup := k.c2sDup ++ dups } := by
    intro hpend hnone ha hc c' hn hc' hp'
    obtain ⟨x, hx, hseg, hlen⟩ := h.segment
    have hcat := stdins_concat_of_none hnone k.c2s
    refine ⟨⟨x, hx, ?_, fun _ _ => ?_⟩, hn ▸ hdup, fun hp => absurd hp hc'⟩
    · rw [hn, hcat]
      exact hseg
    · rw [hp', hn, hcat, ← hpend]
      exact hlen ha hc
  have hcases := c.sending_cases hw hb
  cases hs with
  | @resent m rest hp =>
    rcases hcases with ⟨m', rest', hpend, hw', hm, ha, hc⟩ | ⟨hpend, -⟩
    · rw [hp] at hpend
      cases hpend
      refine hput (by rw [hp]; rfl) hw' hm ha hc ?_ ?_ ?_ <;> cases rest <;>
        first | rfl | exact fun h => by cases h
    · rw [hp] at hpend
      cases hpend
  | pinged hp =>
    rcases hcases with ⟨m', rest', hpend, -⟩ | ⟨hpend, hnone⟩
    · rw [hp] at hpend
      cases hpend
    · exact hput' hpend hnone (by simp [Client.attached, hp]) (by rw [hp]; simp) rfl (by simp) rfl
  | @freshSent m hp =>
    rcases hcases with ⟨m', rest', hpend, hw', hm, ha, hc⟩ | ⟨hpend, -⟩
    · rw [hp] at hpend
      cases hpend
      exact hput (by rw [hp]; rfl) hw' hm ha hc rfl (by simp) rfl
    · rw [hp] at hpend
      cases hpend
  | acked hp =>
    rcases hcases with ⟨m', rest', hpend, -⟩ | ⟨hpend, hnone⟩
    · rw [hp] at hpend
      cases hpend
    · exact hput' hpend hnone (by simp [Client.attached, hp]) (by rw [hp]; simp) rfl (by simp) rfl
  | exitAcked hp =>
    obtain ⟨x, hx, hseg⟩ := h.carries_put hb hres hw
    exact Carries.leave (c := c) ⟨⟨x, hx, hseg⟩, hdup⟩ rfl rfl

/-- A send of the client fails, whatever became of its message. -/
theorem Feeds.sendFailed {q : Bool} {w : Wire} (h : Feeds c r k) (hb : c.Buffers)
    (hres : c.Resends) (hw : c.sending = some w) (hs : c.Step q .sendFailed c') :
    Feeds c' r k ∧ Feeds c' r { k with c2s := k.c2s ++ [w] } := by
  have hcar : Carries c.trace.numbered r { k with c2s := k.c2s ++ [w] } :=
    ⟨h.carries_put hb hres hw, h.dups⟩
  cases hs with
  | resendFailed => exact ⟨h.carries.disconnect, hcar.disconnect⟩
  | pingFailed => exact ⟨h.carries.disconnect, hcar.disconnect⟩
  | freshFailed => exact ⟨h.carries.disconnect, hcar.disconnect⟩
  | ackFailed hp =>
    have ha : c.attached = true := by simp [Client.attached, hp]
    have hc : c.pc ≠ .connecting := by rw [hp]; simp
    have hpend : c.pc.pending = [] := by rw [hp]; rfl
    have hnone : w.stdin? = none := by
      rcases c.sending_cases hw hb with ⟨m, rest, hpend', -⟩ | ⟨-, hnone⟩
      · rw [hpend] at hpend'
        cases hpend'
      · exact hnone
    have hput : Feeds c r { k with c2s := k.c2s ++ [w] } := by
      obtain ⟨x, hx, hseg, hlen⟩ := h.segment
      have hcat := stdins_concat_of_none hnone k.c2s
      refine ⟨⟨x, hx, ?_, ?_⟩, h.dups, fun hp => absurd hp hc⟩
      · rw [hcat]
        exact hseg
      · rw [hcat]
        exact hlen
    exact ⟨h.stay ha hc hpend rfl (by simp) rfl, hput.stay ha hc hpend rfl (by simp) rfl⟩
  | exitAckFailed => exact ⟨h.carries.leave rfl rfl, hcar.leave rfl rfl⟩

end

/-! ## The server's side -/

namespace Attach

variable {q : Bool} {a a' : Attach} {s s' : Session} {e : AttachEvent}

/-- What a step of `attach` queues: what it received, unless that was an ack. -/
theorem Step.inbound (h : a.Step q s e a' s') :
    s'.stdinApplied = s.stdinApplied ∧
      ((s'.inbound = s.inbound ∧ ∀ m, e = .frame m → m.isStdin = false) ∨
        (∃ m, e = .frame m ∧ s'.inbound = s.inbound ++ [.message m]) ∨
        (∃ m, e = .datagram m ∧ s'.inbound = s.inbound ++ [.datagram m]) ∨
        (s'.inbound = s.inbound ++ [.abort] ∧ ∀ m, e ≠ .frame m)) := by
  have hdetach : s.detach.stdinApplied = s.stdinApplied ∧
      (s.detach.inbound = s.inbound ∨ s.detach.inbound = s.inbound ++ [.abort]) := by
    unfold Session.detach
    split_ifs
    · exact ⟨rfl, .inl rfl⟩
    · exact ⟨rfl, .inr rfl⟩
  have hgone : (∀ m, e ≠ .frame m) → s.detach.stdinApplied = s.stdinApplied ∧
      ((s.detach.inbound = s.inbound ∧ ∀ m, e = .frame m → m.isStdin = false) ∨
        (∃ m, e = .frame m ∧ s.detach.inbound = s.inbound ++ [.message m]) ∨
        (∃ m, e = .datagram m ∧ s.detach.inbound = s.inbound ++ [.datagram m]) ∨
        (s.detach.inbound = s.inbound ++ [.abort] ∧ ∀ m, e ≠ .frame m)) := by
    intro he
    refine ⟨hdetach.1, ?_⟩
    rcases hdetach.2 with h | h
    · exact .inl ⟨h, fun m hm => absurd hm (he m)⟩
    · exact .inr (.inr (.inr ⟨h, he⟩))
  cases h with
  | expired => exact hgone (by simp)
  | closed => exact hgone (by simp)
  | failed => exact hgone (by simp)
  | delivered => exact ⟨rfl, .inl ⟨rfl, fun m hm => by cases hm; rfl⟩⟩
  | trimmed => exact ⟨rfl, .inl ⟨rfl, fun m hm => by cases hm; rfl⟩⟩
  | frame => exact ⟨rfl, .inr (.inl ⟨_, rfl, rfl⟩)⟩
  | datagram => exact ⟨rfl, .inr (.inr (.inl ⟨_, rfl, rfl⟩))⟩
  | _ => exact ⟨rfl, .inl ⟨rfl, by simp⟩⟩

theorem acked_replayNext (a : Attach) (applied : Nat) (rest : List Msg) :
    (a.replayNext applied rest).ackedStdin = a.ackedStdin ∨
      (a.replayNext applied rest).ackedStdin = applied := by
  cases rest with
  | nil =>
    unfold replayNext afterReplay
    split_ifs
    · exact .inr rfl
    · exact .inl rfl
  | cons m rest => exact .inl rfl

theorem Step.acked_le (h : a.Step q s e a' s') (ha : a.ackedStdin ≤ s.stdinApplied) :
    a'.ackedStdin ≤ s'.stdinApplied := by
  have hnext : ∀ (b : Attach) rest, b.ackedStdin = a.ackedStdin →
      (b.replayNext s.stdinApplied rest).ackedStdin ≤ s.stdinApplied := by
    intro b rest hb
    rcases b.acked_replayNext s.stdinApplied rest with h | h
    · rw [h, hb]
      exact ha
    · rw [h]
  have happlied := h.inbound.1
  cases h with
  | snapshot => exact hnext _ _ rfl
  | replayed => exact hnext _ _ rfl
  | _ => exact ha.trans happlied.ge

end Attach

/-! ## The invariant -/

namespace Sys

/-- The invariant of a run without failed first sends, with the numbered messages as the history. -/
structure StdinOk (s : Sys) : Prop where
  resends : s.client.Resends
  applies : s.session.Applies s.client.trace.numbered
  acked_le : s.client.trace.acked ≤ s.session.stdinApplied
  live : Feeds s.client s.session.reach s.live
  stale : ∀ k ∈ s.stale, Carries s.client.trace.numbered s.session.reach k
  acks : s.client.attached = true → AcksBelow s.session.stdinApplied s.live.s2c ∧
    ∀ a, s.live.attach = some a → a.ackedStdin ≤ s.session.stdinApplied

variable {s s' : Sys}

theorem stdinOk_start (token : String) (tokenSource : TokenSource) (agent quic : Bool)
    (stdin stdout stderr exit : Fd) (pgid : Int32) :
    StdinOk (.start token tokenSource agent quic (.start stdin stdout stderr exit pgid)) where
  resends := ⟨Numbered.nil, rfl, rfl, (fun _ _ h => by cases h), (fun h => by cases h), rfl,
    List.nil_suffix⟩
  applies := ⟨trivial, le_rfl, le_rfl, fun _ => rfl, List.prefix_rfl, fun _ => rfl,
    fun h => by cases h⟩
  acked_le := le_rfl
  live := ⟨⟨0, le_rfl, SegmentAt.nil _ _, fun _ hc => absurd rfl hc⟩, (fun _ h => by cases h),
    fun _ => rfl⟩
  stale := fun _ h => by cases h
  acks _ := by
    refine ⟨(fun _ h => by cases h), fun a ha => ?_⟩
    cases ha
    exact le_rfl

theorem StdinOk.acked_le_reach (h : StdinOk s) : s.client.trace.acked ≤ s.session.reach :=
  (h.acked_le.trans h.applies.applied_le).trans (le_reach _ _)

theorem StdinOk.acked_le_length (h : StdinOk s) :
    s.client.trace.acked ≤ s.client.trace.numbered.length :=
  (h.acked_le.trans h.applies.applied_le).trans h.applies.last_le

/-- A step of the client, which leaves the live connection as `k`. -/
theorem StdinOk.client {q : Bool} {e : ClientEvent} {c : Client} {k : Conn} (h : StdinOk s)
    (hb : s.client.Buffers) (hs : s.client.Step q e c)
    (hfresh : e = .sendFailed → s.client.pc.fresh = [])
    (hack : ∀ seq, e = .frame (.ack seq) ∨ e = .datagram (.ack seq) →
      seq ≤ s.session.stdinApplied)
    (hfeeds : Feeds c s.session.reach k) (hatt : c.attached = true → s.client.attached = true)
    (hs2c : ∀ w ∈ k.s2c, w ∈ s.live.s2c) (hattach : k.attach = s.live.attach) :
    StdinOk { s with client := c, live := k } := by
  have hpre : s.client.trace.numbered <+: c.trace.numbered := by
    rcases hs.numbered with hn | ⟨m, hn, -⟩
    · rw [hn]
    · rw [hn]
      exact List.prefix_append _ _
  refine ⟨h.resends.step hb h.acked_le_length hs hfresh, ?_, hs.acked_le h.acked_le hack, hfeeds,
    fun k hk => (h.stale k hk).mono hpre le_rfl, ?_⟩
  · rcases hs.numbered with hn | ⟨m, hn, hopen⟩
    · show s.session.Applies c.trace.numbered
      rw [hn]
      exact h.applies
    · show s.session.Applies c.trace.numbered
      rw [hn]
      exact h.applies.concat m (h.resends.noEof hopen)
  · intro ha
    obtain ⟨h1, h2⟩ := h.acks (hatt ha)
    refine ⟨h1.mono le_rfl hs2c, ?_⟩
    show ∀ a, k.attach = some a → _
    rw [hattach]
    exact h2

theorem StdinOk.connect {quic : Bool} {c : Client} (h : StdinOk s) (hb : s.client.Buffers)
    (hs : s.client.Step quic .authenticated c) :
    StdinOk { s with client := c, live := .open_ quic c.lastServerSeq,
                     stale := s.live :: s.stale } := by
  have hres := h.resends.step hb h.acked_le_length hs (by simp)
  cases hs with
  | authenticated hp =>
    refine ⟨hres, h.applies, h.acked_le, ?_, ?_,
      fun _ => ⟨(fun _ h => by cases h), fun _ h => by cases h⟩⟩
    · exact ⟨⟨0, Nat.zero_le _, SegmentAt.nil _ _, fun _ hc => absurd rfl hc⟩,
        (fun _ h => by cases h), fun _ => rfl⟩
    · intro k hk
      rcases List.mem_cons.mp hk with rfl | hk
      · exact h.live.carries
      · exact h.stale k hk

/-- A step that changes connection `r` and the session. The connection's stream may lose its
first message, if the queue takes it up. -/
theorem StdinOk.server (h : StdinOk s) {r : Ref} {k k' : Conn} {session : Session}
    (hk : s.conn? r = some k) (happ : session.Applies s.client.trace.numbered)
    (hreach : s.session.reach ≤ session.reach)
    (happlied : session.stdinApplied = s.session.stdinApplied)
    (hseg : ∀ x ≤ s.session.reach, SegmentAt s.client.trace.numbered x (stdins k.c2s) →
      ∃ y ≤ session.reach, SegmentAt s.client.trace.numbered y (stdins k'.c2s) ∧
        y + (stdins k'.c2s).length = x + (stdins k.c2s).length)
    (hnil : stdins k.c2s = [] → stdins k'.c2s = []) (hdup : k'.c2sDup = k.c2sDup)
    (hacks : r = .live → s.client.attached = true →
      AcksBelow s.session.stdinApplied k'.s2c ∧
        ∀ a, k'.attach = some a → a.ackedStdin ≤ s.session.stdinApplied) :
    StdinOk ({ s with session := session }.setConn r k') := by
  cases r with
  | live =>
    cases hk
    refine ⟨h.resends, happ, happlied ▸ h.acked_le, ?_, fun k hk => (h.stale k hk).mono
      List.prefix_rfl hreach, ?_⟩
    · show Feeds s.client session.reach k'
      obtain ⟨x, hx, hsegx, hlen⟩ := h.live.segment
      obtain ⟨y, hy, hsegy, hsum⟩ := hseg x hx hsegx
      refine ⟨⟨y, hy, hsegy, fun ha hc => ?_⟩, hdup ▸ h.live.dups, fun hc => hnil
        (h.live.connecting hc)⟩
      rw [hsum]
      exact hlen ha hc
    · intro ha
      rw [setConn_session, happlied]
      exact hacks rfl ha
  | stale i =>
    have hmem : k ∈ s.stale := List.mem_of_getElem? hk
    refine ⟨h.resends, happ, happlied ▸ h.acked_le, h.live.mono hreach, ?_, ?_⟩
    · intro k'' hk''
      rcases List.mem_or_eq_of_mem_set hk'' with hk'' | rfl
      · exact (h.stale k'' hk'').mono List.prefix_rfl hreach
      · obtain ⟨x, hx, hsegx⟩ := (h.stale k hmem).segment
        obtain ⟨y, hy, hsegy, -⟩ := hseg x hx hsegx
        exact ⟨⟨y, hy, hsegy⟩, hdup ▸ (h.stale k hmem).dups⟩
    · intro ha
      show AcksBelow session.stdinApplied _ ∧ ∀ a, _ → _ ≤ session.stdinApplied
      rw [happlied]
      exact h.acks ha

theorem StdinOk.session {session : Session} (h : StdinOk s)
    (hadv : Session.Advances s.client.trace.numbered s.session session) :
    StdinOk { s with session := session } := by
  refine ⟨h.resends, hadv.applies, h.acked_le.trans hadv.applied_le, ?_, ?_, ?_⟩
  · exact h.live.mono hadv.reach_eq.ge
  · exact fun k hk => (h.stale k hk).mono List.prefix_rfl hadv.reach_eq.ge
  · intro ha
    obtain ⟨h1, h2⟩ := h.acks ha
    exact ⟨h1.mono hadv.applied_le fun _ => id, fun a ha => (h2 a ha).trans hadv.applied_le⟩

/-- A message of connection `r`'s stream, or none, is taken up by an `attach` step. -/
theorem StdinOk.attach (h : StdinOk s) {r : Ref} {k k' : Conn} {a a' : Attach} {q : Bool}
    {e : AttachEvent} {session : Session} (hk : s.conn? r = some k) (ha : k.attach = some a)
    (hs : a.Step q s.session e a' session)
    (hframe : (∀ m, e ≠ .frame m) ∧ k'.c2s = k.c2s ∨ ∃ m, e = .frame m ∧ k.c2s = .msg m :: k'.c2s)
    (hdatagram : ∀ m, e = .datagram m → m ∈ k.c2sDup) (hdup : k'.c2sDup = k.c2sDup)
    (hs2c : s.client.attached = true → AcksBelow s.session.stdinApplied k.s2c →
      a.ackedStdin ≤ s.session.stdinApplied → r = .live →
      AcksBelow s.session.stdinApplied k'.s2c) :
    StdinOk (s.withAttach r k' a' session) := by
  have hn := h.resends.numbered
  have hcar : Carries s.client.trace.numbered s.session.reach k := by
    cases r with
    | live => cases hk; exact h.live.carries
    | stale i => exact h.stale k (List.mem_of_getElem? hk)
  obtain ⟨htrace, htask, -⟩ := hs.session
  obtain ⟨happlied, hin⟩ := hs.inbound
  have hacks : r = .live → s.client.attached = true →
      AcksBelow s.session.stdinApplied k'.s2c ∧
        ∀ b, some a' = some b → b.ackedStdin ≤ s.session.stdinApplied := by
    rintro rfl hatt
    cases hk
    obtain ⟨h1, h2⟩ := h.acks hatt
    refine ⟨hs2c hatt h1 (h2 a ha) rfl, ?_⟩
    intro b hb
    cases hb
    rw [← happlied]
    exact hs.acked_le (h2 a ha)
  have hsame : session.inbound = s.session.inbound → session.Applies s.client.trace.numbered ∧
      session.reach = s.session.reach := by
    intro hinb
    unfold Session.Applies Session.reach
    rw [hinb, htask, htrace, happlied]
    exact ⟨h.applies, rfl⟩
  have hqueue : ∀ input, session.inbound = s.session.inbound ++ [input] →
      Offers s.client.trace.numbered s.session.reach input →
      session.Applies s.client.trace.numbered ∧
        session.reach = input.advance s.session.reach := by
    intro input hinb hoffer
    have := h.applies.enqueue hoffer
    unfold Session.Applies Session.reach at *
    rw [hinb, htask, htrace, happlied]
    exact ⟨this, reach_concat _ _ _⟩
  have hnil : stdins k.c2s = [] → stdins k'.c2s = [] := by
    intro hnil
    rcases hframe with ⟨-, hc2s⟩ | ⟨m, -, hc2s⟩
    · rwa [hc2s]
    · rw [hc2s, stdins_cons] at hnil
      exact (List.append_eq_nil_iff.mp hnil).2
  -- Without a stdin message the stream stays as it is.
  have hkeep : (∀ m, e = .frame m → m.isStdin = false) → stdins k'.c2s = stdins k.c2s := by
    intro hm
    rcases hframe with ⟨-, hc2s⟩ | ⟨m, he, hc2s⟩
    · rw [hc2s]
    · rw [hc2s, stdins_cons, Wire.stdin?, hm m he]
      rfl
  rcases hin with ⟨hinb, hm⟩ | ⟨m, he, hinb⟩ | ⟨m, he, hinb⟩ | ⟨hinb, hm⟩
  · obtain ⟨happ, hreach⟩ := hsame hinb
    refine h.server hk happ hreach.ge happlied (fun x hx hseg => ⟨x, hreach ▸ hx, ?_⟩) hnil hdup
      hacks
    rw [hkeep hm]
    exact ⟨hseg, rfl⟩
  · rcases hframe with ⟨hne, -⟩ | ⟨m', he', hc2s⟩
    · exact absurd he (hne m)
    · rw [he] at he'
      cases he'
      by_cases hm : m.isStdin
      · have hcons : stdins k.c2s = m :: stdins k'.c2s := by
          rw [hc2s, stdins_cons, Wire.stdin?, if_pos hm]
          rfl
        obtain ⟨x, hx, hseg⟩ := hcar.segment
        rw [hcons] at hseg
        obtain ⟨happ, hreach⟩ := hqueue _ hinb fun _ => ⟨x, hx, (segmentAt_cons.mp hseg).1⟩
        have hle : s.session.reach ≤ session.reach := hreach ▸ SessionInput.le_advance _ _
        refine h.server hk happ hle happlied (fun y hy hsegy => ?_) hnil hdup hacks
        rw [hcons] at hsegy ⊢
        obtain ⟨hget, hrest⟩ := segmentAt_cons.mp hsegy
        refine ⟨y + 1, hreach ▸ Offers.lt_advance hn hget hm, hrest, ?_⟩
        show y + 1 + (stdins k'.c2s).length = y + ((stdins k'.c2s).length + 1)
        omega
      · obtain ⟨happ, hreach⟩ := hqueue _ hinb fun hm' => absurd hm' hm
        have hle : s.session.reach ≤ session.reach := hreach ▸ SessionInput.le_advance _ _
        refine h.server hk happ hle happlied (fun x hx hseg => ⟨x, hx.trans hle, ?_⟩) hnil hdup
          hacks
        rw [hkeep fun m' he' => by rw [he] at he'; cases he'; exact (Bool.not_eq_true _).mp hm]
        exact ⟨hseg, rfl⟩
  · obtain ⟨happ, hreach⟩ := hqueue _ hinb (hcar.dups m (hdatagram m he))
    have hle : s.session.reach ≤ session.reach := hreach ▸ SessionInput.le_advance _ _
    refine h.server hk happ hle happlied (fun x hx hseg => ⟨x, hx.trans hle, ?_⟩) hnil hdup hacks
    rw [hkeep (by rintro m' rfl; cases he)]
    exact ⟨hseg, rfl⟩
  · obtain ⟨happ, hreach⟩ := hqueue _ hinb trivial
    have hle : s.session.reach ≤ session.reach := hreach ▸ SessionInput.le_advance _ _
    refine h.server hk happ hle happlied (fun x hx hseg => ⟨x, hx.trans hle, ?_⟩) hnil hdup hacks
    rw [hkeep fun m' he => absurd he (hm m')]
    exact ⟨hseg, rfl⟩

/-- Duplicates on the live connection are log entries. -/
theorem Delivered.dup_entry (hd : Delivered s) (hatt : s.client.attached = true) {m : Msg}
    (hm : m ∈ s.live.s2cDup) : m.isEntry = true := by
  have hlive := hd.live hatt
  cases ha : s.live.attach with
  | none =>
    simp only [Relays, ha] at hlive
    rw [hlive.2.1] at hm
    cases hm
  | some a =>
    simp only [Relays, ha] at hlive
    exact hd.wf.logged.entry m (List.mem_of_mem_take (hlive.dups m hm).1)

/-- The acks `attach` sends on the live connection are its own. -/
theorem Delivered.ack_sending (hd : Delivered s) (hatt : s.client.attached = true) {a : Attach}
    (ha : s.live.attach = some a) {seq n : Nat}
    (hw : a.sending s.session = some (.msg (.ack seq))) (hn : a.ackedStdin ≤ n) : seq ≤ n := by
  have hlive := hd.live hatt
  simp only [Relays, ha] at hlive
  unfold Attach.sending at hw
  split at hw
  · cases hw
  · rename_i m rest hp
    cases hw
    cases hlive.entry_replay hd.wf.logged.entry hp
  · cases hw
    exact hn
  · cases hw
  · cases hw

/-- Every step but the failure of a first send keeps the invariant. -/
theorem StdinOk.step {cap : Capacity} {l : Label} (h : StdinOk s) (hd : Delivered s)
    (hfresh : ∀ delivered, l = .clientSendFailed delivered → s.client.pc.fresh = [])
    (hs : s.step cap l = some s') : StdinOk s' := by
  have hb := hd.buffers
  -- On the live stream acks are for applied messages, and duplicates are no acks.
  have hfeed : ∀ {q e c}, s.client.Step q e c → Client.receives e = true →
      Feeds c s.session.reach s.live :=
    fun hc he => h.live.receive h.resends h.acked_le_reach h.acked_le_length hc he
  cases Step.of_step hs with
  | @client e c hl hc =>
    have hrec : Client.receives e = true := by cases e <;> first | rfl | cases hl
    have hauth : e ≠ .authenticated := by rintro rfl; cases hrec
    refine h.client hb hc ?_ ?_ (hfeed hc hrec) (hc.attached hauth) (fun _ => id) rfl
    · rintro rfl
      cases hrec
    · rintro seq (rfl | rfl)
      · cases hl
      · cases hl
  | connect hc => exact h.connect hb hc
  | clientSent hw _ hc =>
    refine h.client hb hc (by simp) (by simp) (h.live.sent hb h.resends hw hc ?_)
      (hc.attached (by simp))
      (fun _ => id) rfl
    intro m hm
    split at hm
    · rename_i m' hp
      unfold duplicate at hm
      split_ifs at hm
      · refine hb.pending m ?_
        rw [hp]
        exact hm
      · cases hm
    · cases hm
  | clientSendLate hw _ hc =>
    exact h.client hb hc (fun _ => hfresh _ rfl) (by simp) (h.live.sendFailed hb h.resends hw hc).2
      (hc.attached (by simp)) (fun _ => id) rfl
  | clientSendLost hw hc =>
    exact h.client hb hc (fun _ => hfresh _ rfl) (by simp) (h.live.sendFailed hb h.resends hw hc).1
      (hc.attached (by simp)) (fun _ => id) rfl
  | clientPong hq =>
    refine ⟨h.resends, h.applies, h.acked_le, ⟨h.live.segment, h.live.dups, h.live.connecting⟩,
      h.stale, ?_⟩
    intro ha
    obtain ⟨h1, h2⟩ := h.acks ha
    refine ⟨h1.mono le_rfl fun w hw => ?_, h2⟩
    rw [hq]
    exact List.mem_cons_of_mem _ hw
  | @clientRecv m rest c hq hc =>
    have hatt : s.client.attached = true := by
      cases hc with
      | reply hp => simp [Client.attached, hp]
      | frame hp => simp [Client.attached, hp]
    have hlive := hfeed hc rfl
    refine h.client hb hc (by simp) ?_ ⟨hlive.segment, hlive.dups, hlive.connecting⟩
      (hc.attached (by simp)) ?_ rfl
    · rintro seq (he | he)
      · cases he
        exact (h.acks hatt).1 seq (by rw [hq]; exact List.mem_cons_self ..)
      · cases he
    · intro w hw
      rw [hq]
      exact List.mem_cons_of_mem _ hw
  | @clientDatagram m c hm hc =>
    refine h.client hb hc (by simp) ?_ (hfeed hc rfl) (hc.attached (by simp)) (fun _ => id) rfl
    rintro seq (he | he)
    · cases he
    · -- The duplicates on the live connection are log entries.
      cases he
      have hatt : s.client.attached = true := by
        cases hc with
        | early hp => simp [Client.attached, hp]
        | datagram hp => simp [Client.attached, hp]
      cases hd.dup_entry hatt hm
  | @accept r k hk ha =>
    have hc2s : (s.answer k).c2s = k.c2s ∧ (s.answer k).c2sDup = k.c2sDup := by
      unfold answer
      split_ifs
      · exact ⟨rfl, rfl⟩
      · exact ⟨rfl, rfl⟩
    refine h.server hk h.applies le_rfl rfl (fun x hx hseg => ⟨x, hx, ?_⟩) ?_ hc2s.2 ?_
    · rw [hc2s.1]
      exact ⟨hseg, rfl⟩
    · rw [hc2s.1]
      exact id
    · rintro rfl hatt
      cases hk
      have hacks := (h.acks hatt).1
      unfold answer
      split_ifs
      · refine ⟨hacks, fun a ha' => ?_⟩
        cases ha'
        exact Nat.zero_le _
      · refine ⟨hacks.concat (by simp), fun a ha' => ?_⟩
        cases ha'
        exact Nat.zero_le _
  | @attach r k a a' e session hk ha hl hstep =>
    refine h.attach hk ha hstep (.inl ⟨?_, rfl⟩) ?_ rfl fun _ hacks _ _ => hacks
    · rintro m rfl
      cases hl
    · rintro m rfl
      cases hl
  | attachSent hk ha hw _ hstep =>
    refine h.attach hk ha hstep (.inl ⟨by simp, rfl⟩) (by simp) rfl fun hatt hacks hacked hr => ?_
    subst hr
    cases hk
    exact hacks.concat fun seq hseq => hd.ack_sending hatt ha (hseq ▸ hw) hacked
  | attachSendLate hk ha hw _ hstep =>
    refine h.attach hk ha hstep (.inl ⟨by simp, rfl⟩) (by simp) rfl fun hatt hacks hacked hr => ?_
    subst hr
    cases hk
    exact hacks.concat fun seq hseq => hd.ack_sending hatt ha (hseq ▸ hw) hacked
  | attachSendLost hk ha hw hstep =>
    exact h.attach hk ha hstep (.inl ⟨by simp, rfl⟩) (by simp) rfl fun _ hacks _ _ => hacks
  | @attachPong r k a rest hk ha hq hp =>
    have hkeep : stdins rest = stdins k.c2s := by rw [hq]; rfl
    refine h.server hk h.applies le_rfl rfl (fun x hx hseg => ⟨x, hx, ?_⟩) ?_ rfl ?_
    · show SegmentAt _ _ (stdins rest) ∧ x + (stdins rest).length = _
      rw [hkeep]
      exact ⟨hseg, rfl⟩
    · show _ → stdins rest = []
      rw [hkeep]
      exact id
    · rintro rfl hatt
      cases hk
      exact h.acks hatt
  | attachRecv hk ha hq hstep =>
    exact h.attach hk ha hstep (.inr ⟨_, rfl, hq⟩) (by simp) rfl fun _ hacks _ _ => hacks
  | attachDatagram hk ha hm hstep =>
    refine h.attach hk ha hstep (.inl ⟨by simp, rfl⟩) ?_ rfl fun _ hacks _ _ => hacks
    intro m' he
    cases he
    exact hm
  | task _ ht =>
    exact h.session (h.applies.taskStep ht h.resends.numbered fun x m => h.resends.eof_at_end)
  | unregister => exact h.session ⟨h.applies, rfl, le_rfl⟩
  | abort =>
    exact h.session ⟨h.applies.enqueue trivial, reach_concat _ _ _, le_rfl⟩
  | handover =>
    exact h.session ⟨h.applies.enqueue trivial, reach_concat _ _ _, le_rfl⟩

/-- The steps that are not a failure of the first send of a stdin message. -/
def FreshSendsSucceed (s : Sys) (l : Label) : Prop :=
  ∀ delivered m, l = .clientSendFailed delivered → s.client.pc ≠ .sendFresh m

theorem FreshSendsSucceed.fresh {l : Label} (h : FreshSendsSucceed s l) {delivered : Bool}
    (hl : l = .clientSendFailed delivered) : s.client.pc.fresh = [] := by
  cases hp : s.client.pc with
  | sendFresh m => exact absurd hp (h delivered m hl)
  | _ => rfl

/-- The invariant holds in every run without a failed first send. -/
theorem stdinOk_under {cap : Capacity} (h : (machine cap).Under FreshSendsSucceed s) :
    Delivered s ∧ StdinOk s := by
  refine h.invariant (P := fun s => Delivered s ∧ StdinOk s) ?_ ?_
  · rintro s ⟨token, tokenSource, agent, quic, stdin, stdout, stderr, exit, pgid, rfl⟩
    exact ⟨delivered_start .., stdinOk_start ..⟩
  · rintro s l s' ⟨hd, hok⟩ hc hs
    exact ⟨hd.step hs, hok.step hd (fun _ hl => hc.fresh hl) hs⟩

end Sys

/-! ## Exactly once -/

/-- The stdin direction in one state: nothing lost, duplicated or reordered, the child's stdin
closed by `StdinEof` only after everything was written, and everything unacknowledged held while
the client is between connections. -/
def StdinExactlyOnce (s : Sys) : Prop :=
  s.session.trace.wrote <+: s.client.trace.stdinRead ∧
  (s.session.trace.eof = true → s.session.trace.wrote = s.client.trace.stdinRead ∧
    s.client.stdinOpen = false) ∧
  (s.client.attached = false → ∀ m ∈ s.client.trace.numbered, ∀ seq, m.seq? = some seq →
    s.client.trace.acked < seq → m ∈ s.client.sentStdin)

/-- **Exactly once, client to server.** In every run in which no send of a freshly read stdin
message fails, the child gets what the client read. -/
theorem stdin_exactly_once {cap : Capacity} {s : Sys}
    (h : (Sys.machine cap).Under Sys.FreshSendsSucceed s) : StdinExactlyOnce s := by
  obtain ⟨-, hok⟩ := Sys.stdinOk_under h
  have hread := hok.resends.read_eq
  refine ⟨?_, ?_, ?_⟩
  · rw [← hread]
    exact hok.applies.wrote_le.trans (stdinData_take_le _ _)
  · intro heof
    obtain ⟨-, hwrote, m, hm, heof'⟩ := hok.applies.eof_eq heof
    refine ⟨hwrote.trans hread, ?_⟩
    by_contra hopen
    rw [hok.resends.noEof (by simpa using hopen) m hm] at heof'
    cases heof'
  · intro hatt m hm seq hseq hlt
    have hfresh : s.client.pc.fresh = [] := by
      cases hp : s.client.pc with
      | sendFresh m => simp [Client.attached, hp] at hatt
      | _ => rfl
    have hheld := hok.resends.held_eq
    rw [hfresh, List.append_nil] at hheld
    rw [hheld]
    have hget := (hok.resends.numbered.getElem? hm hseq).2.2
    refine List.mem_iff_getElem?.mpr ⟨seq - 1 - s.client.trace.acked, ?_⟩
    rw [List.getElem?_drop, show s.client.trace.acked + (seq - 1 - s.client.trace.acked) = seq - 1
      by omega]
    exact hget

/-- A chunk is sent, the connection breaks, and the chunk is resent on the next connection while
the first one still delivers it; then stdin ends. -/
def resentRun : List Label :=
  [.attachSent .live, .attach .live .snapshot, .clientRecv, .client (.stdinData [97]), .clientSent,
   .client .disconnected, .client .wake, .connect false, .accept .live, .attachSent .live,
   .attach .live .snapshot, .clientRecv, .clientSent, .attachRecv .live, .task .recv,
   .task (.stdinWritten 1), .attachRecv (.stale 0), .attach .live .snapshot, .task .recv,
   .attachSent .live, .client .stdinEof, .clientSent, .attachRecv .live, .task .recv]

def Sys.afterResend : Sys := ((Sys.machine ⟨4, 4⟩).run .fresh resentRun).get (by decide)

theorem under_afterResend : (Sys.machine ⟨4, 4⟩).Under Sys.FreshSendsSucceed .afterResend := by
  refine Machine.under_of_run (s := Sys.fresh) (ℓ := Label) (.init ?_) ?_ (Option.some_get _).symm
  · exact ⟨"t", .static, false, false, .pipe 0, .pipe 1, .pipe 2, .pipe 3, 7, rfl⟩
  · intro s l hl delivered m heq
    subst heq
    simp [resentRun] at hl

theorem afterResend_exactly_once :
    (Sys.machine ⟨4, 4⟩).Under Sys.FreshSendsSucceed .afterResend ∧
    Sys.afterResend.session.trace.eof = true ∧
    Sys.afterResend.client.trace.stdinRead = [97] ∧
    Sys.afterResend.session.trace.wrote = Sys.afterResend.client.trace.stdinRead := by
  have hunder := under_afterResend
  have heof : Sys.afterResend.session.trace.eof = true := by decide
  exact ⟨hunder, heof, by decide, ((stdin_exactly_once hunder).2.1 heof).1⟩

/-- The first send of a chunk fails, and the exec is resumed. -/
def lossyRun : List Label :=
  [.attachSent .live, .clientRecv, .client (.stdinData [97]), .clientSendFailed false,
   .client .wake, .connect false, .accept .live, .attachSent .live, .attach .live .snapshot,
   .clientRecv, .client (.stdinData [98]), .clientSent, .attachRecv .live, .task .recv,
   .task (.stdinWritten 1)]

def Sys.afterLoss : Sys := ((Sys.machine ⟨4, 4⟩).run .fresh lossyRun).get (by decide)

/-- The chunk whose first send failed never reaches the child; the next one does. -/
theorem fresh_send_failure_loses_chunk :
    (Sys.machine ⟨4, 4⟩).Reachable .afterLoss ∧
    Sys.afterLoss.client.trace.stdinRead = [97, 98] ∧
    Sys.afterLoss.session.trace.wrote = [98] ∧
    ¬ StdinExactlyOnce .afterLoss := by
  have hread : Sys.afterLoss.client.trace.stdinRead = [97, 98] := by decide
  have hwrote : Sys.afterLoss.session.trace.wrote = [98] := by decide
  refine ⟨?_, hread, hwrote, ?_⟩
  · exact Machine.reachable_of_run
      ⟨"t", .static, false, false, .pipe 0, .pipe 1, .pipe 2, .pipe 3, 7, rfl⟩
      (Option.some_get _).symm
  · rintro ⟨hpre, -⟩
    rw [hread, hwrote] at hpre
    revert hpre
    decide

end HerdrEternal
