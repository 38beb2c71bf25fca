import HerdrEternal.System.Delivery

/-!
# Nothing is ever out of reach

That the client never writes anything wrong does not mean that it can get on: a connection may be
given up at any place, in the middle of a resend, a replay or a write, and the next one has to find
its way from what both sides still hold.

**Theorem (`always_catches_up`).** From every reachable state in which the client holds a resume
token and has not returned, and the session is registered, some way on leads to a state in which
the client has written and flushed everything the session's task ever read, and has returned the
exit code if there is one in the log. On that way the session takes no step.

The way on: leave the connection, wherever the client is (`leaves`); open a new one, on which the
server says `Started`; resend what is not acknowledged (`resends`); and take what the server
replays, one entry at a time (`drains`). The new stream has to have room for what is resent, since
the client does not read meanwhile.
-/

namespace HerdrEternal

open History

/-! ## A chunk under way is not empty -/

/-- A suspended write has something left to write. -/
def Client.Busy (c : Client) : Prop := ∀ stream rest, c.pc = .writing stream rest → rest ≠ []

theorem Client.busy_of_pc {c : Client} (h : ∀ stream rest, c.pc ≠ .writing stream rest) : c.Busy :=
  fun stream rest hp => absurd hp (h stream rest)

theorem Client.busy_connectError (c : Client) (e : ClientError) : (c.connectError e).Busy := by
  refine busy_of_pc fun stream rest => ?_
  unfold connectError
  split
  · split <;> simp [fail]
  · simp [fail]
  · split_ifs <;> simp [fail]

theorem Client.busy_disconnect (c : Client) : c.disconnect.Busy := by
  refine busy_of_pc fun stream rest => ?_
  unfold disconnect
  split_ifs <;> simp [fail]

theorem Client.busy_resendNext (c : Client) (rest : List Msg) : (c.resendNext rest).Busy := by
  cases rest <;> exact busy_of_pc fun _ _ => by simp [resendNext]

theorem Client.Busy.onMessage {c : Client} (h : c.Busy) (reliable : Bool) (m : Msg) :
    (c.onMessage reliable m).Busy := by
  have hout : ∀ stream seq data, (c.onOutput stream seq data reliable).Busy := by
    intro stream seq data
    unfold onOutput
    split_ifs with hnext hempty
    · exact busy_of_pc fun _ _ => by simp
    · intro stream' rest hp
      cases hp
      exact fun hnil => hempty (by rw [hnil]; rfl)
    · exact h
  cases m with
  | stdout seq data => exact hout .out seq data
  | stderr seq data => exact hout .err seq data
  | exit seq code => exact busy_of_pc fun _ _ => by simp [Client.onMessage]
  | _ => exact h

theorem Client.Busy.step {q : Bool} {c c' : Client} {e : ClientEvent} (h : c.Busy)
    (hs : c.Step q e c') : c'.Busy := by
  cases hs with
  | authFailed => exact c.busy_connectError _
  | connectFailed => exact c.busy_connectError _
  | @reply m hp =>
    unfold Client.onReply
    split
    · exact Client.busy_resendNext _ _
    · exact c.busy_connectError _
    · exact c.busy_connectError _
  | resent => exact c.busy_resendNext _
  | resendFailed => exact c.busy_disconnect
  | expired => exact c.busy_disconnect
  | pingFailed => exact c.busy_disconnect
  | freshFailed => exact c.busy_disconnect
  | disconnected => exact c.busy_disconnect
  | frame => exact h.onMessage _ _
  | datagram => exact h.onMessage _ _
  | early => exact h
  | badDatagram => exact h
  | @wrotePart stream rest n hp hpos hn =>
    intro stream' rest' hp'
    cases hp'
    exact List.ne_nil_of_length_pos (by rw [List.length_drop]; omega)
  | _ => exact Client.busy_of_pc fun _ _ => by simp [Client.fail, Client.sendStdin]

namespace Sys

variable {cap : Capacity} {s s' : Sys}

theorem busy_reachable (h : (machine cap).Reachable s) : s.client.Busy := by
  refine h.invariant (P := fun s => s.client.Busy) ?_ ?_
  · rintro s ⟨token, tokenSource, agent, quic, stdin, stdout, stderr, exit, pgid, rfl⟩
    exact Client.busy_of_pc fun _ _ => by simp [start, Client.start]
  · intro s l s' hb _ hs
    cases Step.of_step hs with
    | client _ hc => exact hb.step hc
    | connect hc => exact hb.step hc
    | clientSent _ _ hc => exact hb.step hc
    | clientSendLate _ _ hc => exact hb.step hc
    | clientSendLost _ hc => exact hb.step hc
    | clientRecv _ hc => exact hb.step hc
    | clientDatagram _ hc => exact hb.step hc
    | accept => rwa [setConn_client]
    | attachPong => rwa [setConn_client]
    | attach => rwa [withAttach_client]
    | attachSent => rwa [withAttach_client]
    | attachSendLate => rwa [withAttach_client]
    | attachSendLost => rwa [withAttach_client]
    | attachRecv => rwa [withAttach_client]
    | attachDatagram => rwa [withAttach_client]
    | _ => exact hb

theorem Delivered.onward (hd : Delivered s) (h : ((machine cap).startAt s).Reachable s') :
    Delivered s' :=
  h.invariant (fun _ heq => heq ▸ hd) fun _ _ _ hd _ hs => hd.step hs

theorem canReach_step {P : Sys → Prop} {l : Label} (hs : step cap s l = some s')
    (h : (machine cap).CanReach P s') : (machine cap).CanReach P s :=
  Machine.CanReach.of_step (M := machine cap) (l := l) hs h

/-! ## Leaving a connection -/

theorem step_client {e : ClientEvent} {c : Client} (hl : e.isLocal = true)
    (hc : s.client.step s.live.quic e = some c) :
    step cap s (.client e) = some { s with client := c } := by
  simp only [step, if_pos hl, hc, Option.map_some]

theorem step_clientSendFailed {w : Wire} {c : Client} (hw : s.client.sending = some w)
    (hc : s.client.step s.live.quic .sendFailed = some c) :
    step cap s (.clientSendFailed false) = some { s with client := c } := by
  simp only [step, hw, Option.bind_some, hc, Option.map_some, Bool.false_and]
  rfl

/-- The client writes all that is left of a chunk. -/
theorem step_wroteAll {c : Client} {stream : Stream} {rest : Data} {quic : Bool}
    (hp : c.pc = .writing stream rest) (hpos : 0 < rest.length) :
    c.step quic (.wrote rest.length) = some { c with
      pc := .flushing
      trace := { c.trace with
        output := c.trace.output ++ (rest.take rest.length).map (stream, ·) } } := by
  simp [Client.step, hp, hpos]

/-- The client has left its connection, with what it needs for the next one; or it had the exit
code. -/
def Left (s t : Sys) : Prop :=
  t.session = s.session ∧
    ((t.client.pc = .authenticating ∧ t.client.resumeToken = s.client.resumeToken ∧
      t.client.sentStdin = s.client.sentStdin) ∨ ∃ code, t.client.pc = .returned (.ok code))

theorem leaves_of_step {l : Label} {c : Client}
    (hs : step cap s l = some { s with client := c })
    (htoken : c.resumeToken = s.client.resumeToken) (hsent : c.sentStdin = s.client.sentStdin)
    (h : (machine cap).CanReach (Left { s with client := c }) { s with client := c }) :
    (machine cap).CanReach (Left s) s := by
  refine canReach_step hs (h.mono ?_)
  rintro t ⟨hsession, ⟨hp, htoken', hsent'⟩ | hret⟩
  · exact ⟨hsession, .inl ⟨hp, htoken'.trans htoken, hsent'.trans hsent⟩⟩
  · exact ⟨hsession, .inr hret⟩

theorem leaves_authenticating (hp : s.client.pc = .authenticating) :
    (machine cap).CanReach (Left s) s :=
  .now ⟨rfl, .inl ⟨hp, rfl, rfl⟩⟩

theorem leaves_backoff (hp : s.client.pc = .backoff) : (machine cap).CanReach (Left s) s := by
  have hc : s.client.step s.live.quic .wake = some { s.client with pc := .authenticating } :=
    (Client.step_of_pc hp _ _).trans rfl
  exact leaves_of_step (step_client rfl hc) rfl rfl (leaves_authenticating rfl)

theorem leaves_disconnect {l : Label} (htoken : s.client.resumeToken.isSome = true)
    (hs : step cap s l = some { s with client := s.client.disconnect }) :
    (machine cap).CanReach (Left s) s := by
  have hdis : s.client.disconnect = { s.client with pc := .backoff } := if_pos htoken
  rw [hdis] at hs
  exact leaves_of_step hs rfl rfl (leaves_backoff rfl)

theorem leaves_select (hp : s.client.pc = .select) (htoken : s.client.resumeToken.isSome = true) :
    (machine cap).CanReach (Left s) s := by
  refine leaves_disconnect htoken (step_client (e := .disconnected) rfl ?_)
  exact (Client.step_of_pc hp _ _).trans rfl

theorem leaves_sendAck {seq : Nat} (hp : s.client.pc = .sendAck seq)
    (htoken : s.client.resumeToken.isSome = true) : (machine cap).CanReach (Left s) s := by
  have hw : s.client.sending = some (.msg (.ack seq)) := by simp only [Client.sending, hp]
  have hc : s.client.step s.live.quic .sendFailed = some { s.client with pc := .select } :=
    (Client.step_of_pc hp _ _).trans rfl
  exact leaves_of_step (step_clientSendFailed hw hc) rfl rfl (leaves_select rfl htoken)

theorem leaves_flushing (hp : s.client.pc = .flushing)
    (htoken : s.client.resumeToken.isSome = true) : (machine cap).CanReach (Left s) s := by
  have hc : s.client.step s.live.quic .flushed = some { s.client with
      pc := .sendAck s.client.lastServerSeq
      trace := { s.client.trace with
        persisted := s.client.lastServerSeq, flushed := s.client.trace.output } } :=
    (Client.step_of_pc hp _ _).trans rfl
  exact leaves_of_step (step_client rfl hc) rfl rfl (leaves_sendAck rfl htoken)

/-- A client that can resume gets away from any connection. -/
theorem leaves (hb : s.client.Busy) (htoken : s.client.resumeToken.isSome = true)
    (hgo : ∀ r, s.client.pc ≠ .returned r) : (machine cap).CanReach (Left s) s := by
  -- A send fails, and the client goes to `backoff`.
  have hfails : ∀ {w}, s.client.sending = some w →
      s.client.step s.live.quic .sendFailed = some s.client.disconnect →
      (machine cap).CanReach (Left s) s :=
    fun hw hc => leaves_disconnect htoken (step_clientSendFailed hw hc)
  cases hp : s.client.pc with
  | authenticating => exact leaves_authenticating hp
  | connecting =>
    have herr : s.client.connectError .connectionClosed = { s.client with pc := .backoff } :=
      if_pos htoken
    have hc : s.client.step s.live.quic (.connectFailed .connectionClosed) =
        some { s.client with pc := .backoff } :=
      (Client.step_of_pc hp _ _).trans (congrArg some herr)
    exact leaves_of_step (step_client rfl hc) rfl rfl (leaves_backoff rfl)
  | loggingIn =>
    have hc : s.client.step s.live.quic .loggedIn =
        some { s.client with pc := .authenticating } := (Client.step_of_pc hp _ _).trans rfl
    exact leaves_of_step (step_client rfl hc) rfl rfl (leaves_authenticating rfl)
  | backoff => exact leaves_backoff hp
  | resend m rest =>
    exact hfails (w := .msg m) (by simp only [Client.sending, hp])
      ((Client.step_of_pc hp _ _).trans rfl)
  | select => exact leaves_select hp htoken
  | ping =>
    exact hfails (w := .ping) (by simp only [Client.sending, hp])
      ((Client.step_of_pc hp _ _).trans rfl)
  | sendFresh m =>
    exact hfails (w := .msg m) (by simp only [Client.sending, hp])
      ((Client.step_of_pc hp _ _).trans rfl)
  | writing stream rest =>
    have hpos : 0 < rest.length := List.length_pos_iff.mpr (hb stream rest hp)
    have hc : s.client.step s.live.quic (.wrote rest.length) = some { s.client with
        pc := .flushing
        trace := { s.client.trace with
          output := s.client.trace.output ++ (rest.take rest.length).map (stream, ·) } } :=
      step_wroteAll hp hpos
    exact leaves_of_step (step_client rfl hc) rfl rfl (leaves_flushing rfl htoken)
  | flushing => exact leaves_flushing hp htoken
  | sendAck seq => exact leaves_sendAck hp htoken
  | sendExitAck seq code =>
    have hw : s.client.sending = some (.msg (.ack seq)) := by simp only [Client.sending, hp]
    have hc : s.client.step s.live.quic .sendFailed =
        some { s.client with pc := .returned (.ok code) } := (Client.step_of_pc hp _ _).trans rfl
    exact canReach_step (step_clientSendFailed hw hc) (.now ⟨rfl, .inr ⟨code, rfl⟩⟩)
  | returned r => exact absurd hp (hgo r)

/-! ## The next connection -/

/-- The client resends what is left, on a stream that has room for it. -/
theorem resends {c : Client} {rest : List Msg} (hc : s.client = c.resendNext rest)
    (hroom : s.live.c2s.length + rest.length ≤ cap.c2s) :
    (machine cap).CanReach (fun t => t.session = s.session ∧ t.client.pc = .select ∧
      t.client.lastServerSeq = s.client.lastServerSeq ∧ t.live.attach = s.live.attach ∧
      t.live.s2c = s.live.s2c) s := by
  induction rest generalizing s c with
  | nil => exact .now ⟨rfl, by rw [hc]; rfl, rfl, rfl, rfl⟩
  | cons m rest ih =>
    have hp : s.client.pc = .resend m rest := by rw [hc]; rfl
    rw [List.length_cons] at hroom
    have hw : s.client.sending = some (.msg m) := by simp only [Client.sending, hp]
    have hstep : s.client.step s.live.quic .sent = some (s.client.resendNext rest) :=
      (Client.step_of_pc hp _ _).trans rfl
    have hsent : step cap s .clientSent =
        some { s.clientPut (.msg m) with client := s.client.resendNext rest } := by
      simp only [step, hw, Option.bind_some, if_pos (show s.live.c2s.length < cap.c2s by omega),
        hstep, Option.map_some]
    refine canReach_step hsent ((ih rfl ?_).mono ?_)
    · show (s.live.c2s ++ [_]).length + rest.length ≤ cap.c2s
      rw [List.length_append, List.length_singleton]
      omega
    · rintro t ⟨hsession, hpc, hlast, hattach, hs2c⟩
      refine ⟨hsession, hpc, ?_, hattach, hs2c⟩
      rw [hlast]
      cases rest <;> rfl

/-- The client is back in `select`, on the same connection. -/
def Settled (s t : Sys) : Prop :=
  t.session = s.session ∧ t.client.pc = .select ∧
    t.client.lastServerSeq = s.client.lastServerSeq ∧ t.live = s.live

/-- What was written is flushed; its ack does not get through. -/
theorem settles_flushing (hp : s.client.pc = .flushing) :
    (machine cap).CanReach (Settled s) s := by
  have hc : s.client.step s.live.quic .flushed = some { s.client with
      pc := .sendAck s.client.lastServerSeq
      trace := { s.client.trace with
        persisted := s.client.lastServerSeq, flushed := s.client.trace.output } } :=
    (Client.step_of_pc hp _ _).trans rfl
  refine canReach_step (step_client rfl hc) ?_
  exact canReach_step (step_clientSendFailed rfl rfl) (.now ⟨rfl, rfl, rfl, rfl⟩)

/-- A chunk that is the next one is written out. -/
theorem settles {stream : Stream} {seq : Nat} {data : Data} {c : Client}
    (hc : s.client = c.onOutput stream seq data true) (hseq : c.lastServerSeq < seq) :
    (machine cap).CanReach (Settled s) s := by
  have hnext : isNext seq c.lastServerSeq true = true := by
    rw [isNext, decide_eq_true hseq, Bool.and_self, Bool.or_true]
  rw [Client.onOutput, if_pos hnext] at hc
  by_cases hempty : data.isEmpty = true
  · rw [if_pos hempty] at hc
    exact settles_flushing (by rw [hc])
  · rw [if_neg hempty] at hc
    have hp : s.client.pc = .writing stream data := by rw [hc]
    have hpos : 0 < data.length := by
      cases data with
      | nil => exact absurd rfl hempty
      | cons => exact Nat.succ_pos _
    have hwrote : s.client.step s.live.quic (.wrote data.length) = some { s.client with
        pc := .flushing
        trace := { s.client.trace with
          output := s.client.trace.output ++ (data.take data.length).map (stream, ·) } } :=
      step_wroteAll hp hpos
    exact canReach_step (step_client rfl hwrote) ((settles_flushing rfl).mono fun t ht => ht)

/-- The client has everything, or has returned the code. -/
def CaughtUp (s : Sys) : Prop :=
  (s.client.pc = .select ∧ s.session.trace.pushed.length ≤ s.client.lastServerSeq) ∨
    ∃ code, s.client.pc = .returned (.ok code)

/-- The server replays what the client has not seen, and the client takes it entry by entry. -/
theorem drains (hcap : 0 < cap.s2c) {b : Attach} {L : List Msg} (hd : Delivered s)
    (hp : s.client.pc = .select)
    (ha : s.live.attach = some (b.replayNext s.session.stdinApplied L)) (hs2c : s.live.s2c = [])
    (hL : s.session.trace.pushed.drop s.client.lastServerSeq = L) :
    (machine cap).CanReach (fun t => t.session = s.session ∧ CaughtUp t) s := by
  induction L generalizing s b with
  | nil => exact .now ⟨rfl, .inl ⟨hp, List.drop_eq_nil_iff.mp hL⟩⟩
  | cons m L ih =>
    have hget : s.session.trace.pushed[s.client.lastServerSeq]? = some m := by
      rw [← List.head?_drop, hL]
      rfl
    have hrest : s.session.trace.pushed.drop (s.client.lastServerSeq + 1) = L := by
      rw [← List.drop_drop, hL]
      rfl
    have hseq := hd.wf.logged.numbered _ _ hget
    have hent := hd.wf.logged.entry m (List.mem_of_getElem? hget)
    -- The server sends the entry, and the client receives it.
    obtain ⟨k, b', hk, hka, hsent⟩ : ∃ (k : Conn) (b' : Attach), k.s2c = [.msg m] ∧
        k.attach = some (b'.replayNext s.session.stdinApplied L) ∧
        step cap s (.attachSent .live) = some { s with live := k } := by
      refine ⟨{ attachPut s.live (b.replayNext s.session.stdinApplied (m :: L)) (.msg m) with
          attach := some (Attach.replayNext
            { b.replayNext s.session.stdinApplied (m :: L) with sentUpTo := b.sentUpTo + 1 }
            s.session.stdinApplied L) }, _, ?_, rfl, ?_⟩
      · show s.live.s2c ++ [.msg m] = _
        rw [hs2c]
        rfl
      · simp only [step, conn?, Option.bind_some, ha]
        simp only [Attach.replayNext, Attach.sending, Option.bind_some, hs2c, List.length_nil,
          if_pos hcap]
        rfl
    have hframe : s.client.step k.quic (.frame m) = some (s.client.onMessage true m) := by
      rw [Client.step_of_pc hp]
      show some (Client.onMessage { s.client with pc := .select } true m) = _
      rw [← hp]
    have hrecv : step cap { s with live := k } .clientRecv = some { s with
        client := s.client.onMessage true m, live := { k with s2c := [] } } := by
      simp only [step, hk, hframe, Option.map_some]
    have hd' := (hd.step hsent).step hrecv
    refine canReach_step hsent (canReach_step hrecv ?_)
    -- Output is written out, and the rest goes the same way.
    have hout : ∀ stream seq data, m.seq? = some seq →
        s.client.onMessage true m = s.client.onOutput stream seq data true →
        (machine cap).CanReach (fun t => t.session = s.session ∧ CaughtUp t) { s with
          client := s.client.onMessage true m, live := { k with s2c := [] } } := by
      intro stream seq data hm heq
      rw [hm, Option.some.injEq] at hseq
      have hlt : s.client.lastServerSeq < seq := by omega
      refine (settles heq hlt).trans ?_
      rintro t hreach ⟨hsession, hpc, hlast, hlive⟩
      have hlast : t.client.lastServerSeq = s.client.lastServerSeq + 1 := by
        rw [hlast]
        show (s.client.onMessage true m).lastServerSeq = _
        have hnext : isNext seq s.client.lastServerSeq true = true := by
          rw [isNext, decide_eq_true hlt, Bool.and_self, Bool.or_true]
        rw [heq, Client.onOutput, if_pos hnext]
        exact hseq
      have hsession : t.session = s.session := hsession
      refine (ih (b := b') (hd'.onward hreach) hpc ?_ ?_ ?_).mono ?_
      · rw [hlive, hsession]
        exact hka
      · rw [hlive]
      · rw [hsession, hlast]
        exact hrest
      · rintro u ⟨hu, hcaught⟩
        exact ⟨hu.trans hsession, hcaught⟩
    cases m with
    | stdout seq data => exact hout .out seq data rfl rfl
    | stderr seq data => exact hout .err seq data rfl rfl
    | exit seq code =>
      have hw : (s.client.onMessage true (.exit seq code)).sending = some (.msg (.ack seq)) := rfl
      exact canReach_step (step_clientSendFailed hw rfl) (.now ⟨rfl, .inr ⟨code, rfl⟩⟩)
    | _ => cases hent

/-- A new connection, on which the server has said `Started` and the client goes on to resend. -/
structure Opened (s t : Sys) : Prop where
  session : t.session = s.session
  resend : ∃ c : Client, t.client = c.resendNext s.client.sentStdin
  last : t.client.lastServerSeq = s.client.lastServerSeq
  replay : ∃ b : Attach, t.live.attach = some (b.replayNext s.session.stdinApplied
    (s.session.trace.pushed.drop s.client.lastServerSeq))
  s2c : t.live.s2c = []
  c2s : t.live.c2s = []

theorem opens (hcap : 0 < cap.s2c) (hd : Delivered s) (hp : s.client.pc = .authenticating)
    (hreg : s.session.registered = true) : (machine cap).CanReach (Opened s) s := by
  have hsync : Client.Synced s.session.trace.pushed s.client.lastServerSeq s.client.trace :=
    hd.received.of_pc hp
  have hafter : s.session.log.after s.client.lastServerSeq =
      s.session.trace.pushed.drop s.client.lastServerSeq := by
    have hle := hd.trimmed_le
    rw [hsync.persisted_eq] at hle
    rw [hd.wf.logged.refines.after_eq, max_eq_left hle]
  let c : Client := { s.client with pc := .connecting }
  let a : Attach := .start s.token s.client.lastServerSeq
  let token : Option String := if s.session.resumable then some s.token else none
  let b : Attach := (a.observe s.session).continue_
  let a' : Attach := b.loopTop s.session
  let stale := s.live :: s.stale
  let opened : Conn := .open_ false s.client.lastServerSeq
  have hconnect : step cap s (.connect false) =
      some { s with client := c, live := opened, stale := stale } := by
    simp only [step, Client.step_of_pc hp]
    rfl
  have haccept : step cap { s with client := c, live := opened, stale := stale }
      (.accept .live) = some { s with
        client := c, live := { opened with attach := some a }, stale := stale } := by
    simp only [step, conn?, Option.bind_some, answer, hreg]
    rfl
  have hsent : step cap { s with
        client := c, live := { opened with attach := some a }, stale := stale }
      (.attachSent .live) = some { s with
        client := c
        live := { opened with attach := some b, s2c := [.msg (.started token)] }
        stale := stale } := by
    exact if_pos hcap
  have hsnapshot : step cap { s with
        client := c
        live := { opened with attach := some b, s2c := [.msg (.started token)] }
        stale := stale } (.attach .live .snapshot) = some { s with
        client := c
        live := { opened with attach := some a', s2c := [.msg (.started token)] }
        stale := stale } := rfl
  have hrecv : step cap { s with
        client := c
        live := { opened with attach := some a', s2c := [.msg (.started token)] }
        stale := stale } .clientRecv = some { s with
        client := c.onReply (.started token)
        live := { opened with attach := some a', s2c := [] }
        stale := stale } := rfl
  refine canReach_step hconnect (canReach_step haccept ?_)
  refine canReach_step hsent (canReach_step hsnapshot (canReach_step hrecv (.now ?_)))
  refine ⟨rfl, ⟨_, rfl⟩, ?_, ⟨b, ?_⟩, rfl, rfl⟩
  · show (Client.resendNext _ s.client.sentStdin).lastServerSeq = _
    cases s.client.sentStdin <;> rfl
  · rw [← hafter]
    rfl

/-! ## The way on -/

/-- The client wrote and flushed all that the task ever read, and returned the code if there is
one in the log. -/
structure Complete (s : Sys) : Prop where
  flushed : ∀ stream,
    bytesOf stream s.client.trace.flushed = bytesOf stream s.session.trace.read
  returned : ∀ seq code, .exit seq code ∈ s.session.trace.pushed →
    s.client.pc = .returned (.ok code)

theorem CaughtUp.complete (h : CaughtUp s) (hd : Delivered s) : Complete s := by
  have hread : outputs s.session.trace.pushed = s.session.trace.read := hd.wf.logged.read_eq
  rcases h with ⟨hp, hle⟩ | ⟨code, hp⟩
  · have hsync : Client.Synced s.session.trace.pushed s.client.lastServerSeq s.client.trace :=
      hd.received.of_pc hp
    have hno := hsync.noExit
    have hout := hsync.output_eq
    rw [List.take_of_length_le hle] at hno hout
    refine ⟨fun stream => by rw [hsync.flushed_eq, hout, hread], fun seq code hmem => ?_⟩
    cases hno _ hmem
  · have hexited : Client.Exited s.session.trace.pushed s.client.lastServerSeq s.client.trace
        code := hd.received.of_pc hp
    obtain ⟨hcode, hlast, -⟩ := hd.wf.exit_last hexited.exit_entry
    have hall : s.client.trace.flushed = s.session.trace.read := by
      rw [hexited.flushed_eq, hexited.output_eq, ← hread]
      conv_rhs => rw [hlast, outputs_append]
      simp [outputs, ChannelMessage.output]
    refine ⟨fun stream => by rw [hall], fun seq code' hmem => ?_⟩
    obtain ⟨x, hx⟩ := List.mem_iff_getElem?.mp hmem
    have hcode' := (hd.wf.exit_last hx).1
    rw [hcode, Option.some.injEq] at hcode'
    rw [hp, hcode']

/-- **Nothing is out of reach.** -/
theorem always_catches_up (h : (machine cap).Reachable s)
    (htoken : s.client.resumeToken.isSome = true) (hgo : ∀ r, s.client.pc ≠ .returned r)
    (hreg : s.session.registered = true) (hcap : 0 < cap.s2c)
    (hroom : s.client.sentStdin.length ≤ cap.c2s) :
    (machine cap).CanReach (fun t => t.session = s.session ∧ Complete t) s := by
  have hd := delivered_reachable h
  have hcaught : (machine cap).CanReach (fun t => t.session = s.session ∧ CaughtUp t) s := by
    refine (leaves (busy_reachable h) htoken hgo).trans ?_
    rintro t ht ⟨hsession, ⟨hp, -, hsent⟩ | hret⟩
    · have hdt := hd.onward ht
      refine (opens hcap hdt hp (hsession ▸ hreg)).trans fun u hu hopen => ?_
      have hdu := hdt.onward hu
      obtain ⟨c, hc⟩ := hopen.resend
      obtain ⟨b, hb⟩ := hopen.replay
      have hroom' : u.live.c2s.length + t.client.sentStdin.length ≤ cap.c2s := by
        rw [hopen.c2s, hsent]
        exact (Nat.zero_add _).trans_le hroom
      refine (resends hc hroom').trans fun v hv => ?_
      rintro ⟨hsession', hp', hlast, hattach, hs2c⟩
      have hattach' : v.live.attach = some (b.replayNext v.session.stdinApplied
          (v.session.trace.pushed.drop v.client.lastServerSeq)) := by
        rw [hattach, hb, hsession', hopen.session, hlast, hopen.last]
      refine (drains hcap (hdu.onward hv) hp' hattach' (hs2c.trans hopen.s2c) rfl).mono ?_
      rintro x ⟨hx, hcaught⟩
      exact ⟨by rw [hx, hsession', hopen.session, hsession], hcaught⟩
    · exact .now ⟨hsession, .inr hret⟩
  obtain ⟨t, ht, hsession, hcaught⟩ := hcaught
  exact ⟨t, ht, hsession, hcaught.complete (hd.onward ht)⟩

/-- The command has written a byte and failed with code 3; the client is in the middle of writing
the byte, and has sent stdin that was not acknowledged. -/
def midWriteRun : List Label :=
  [.attachSent .live, .clientRecv, .client (.stdinData [97]), .clientSent,
   .task (.outputRead .out (.data [104])), .attach .live .snapshot, .attachSent .live, .clientRecv,
   .task (.outputRead .out .eof), .task (.outputRead .err .eof), .task (.exitRead (.data [51, 10])),
   .task .reaped]

def midWrite : Sys := ((machine ⟨4, 4⟩).run .fresh midWriteRun).get (by decide)

theorem midWrite_catches_up :
    midWrite.client.pc = .writing .out [104] ∧ .exit 2 3 ∈ midWrite.session.trace.pushed ∧
    (machine ⟨4, 4⟩).CanReach (fun t => t.session = midWrite.session ∧ Complete t) midWrite := by
  have hreach : (machine ⟨4, 4⟩).Reachable midWrite := by
    refine Machine.reachable_of_run (s := .fresh) (ℓ := Label) ?_ (Option.some_get _).symm
    exact ⟨"t", .static, false, false, .pipe 0, .pipe 1, .pipe 2, .pipe 3, 7, rfl⟩
  have hp : midWrite.client.pc = .writing .out [104] := by decide
  refine ⟨hp, by decide, ?_⟩
  have hgo : ∀ r, midWrite.client.pc ≠ .returned r := by simp [hp]
  exact always_catches_up hreach (by decide) hgo (by decide) (by decide) (by decide)

end Sys

end HerdrEternal
