import HerdrEternal.Client.RunExec

/-!
# The client's resend buffer

`run_exec` numbers what it reads from stdin, sends it, and keeps it in `sent_stdin` until the
server acknowledges it. This file says what the buffer and the sends that are under way hold:

* `Buffers`: only messages numbered by `client_seq`, which are all `Stdin` or `StdinEof`. This
  holds in every run.
* `Resends`: all of them that are not yet acknowledged, in order. This holds as long as no send of
  a freshly read message fails: `run_exec` adds a message to the buffer only after its send
  succeeded, so a message whose first send fails is in the buffer of no later connection.
-/

namespace HerdrEternal

open History

/-- The messages `client_seq` numbers. -/
def ChannelMessage.isStdin : Msg → Bool
  | .stdin .. | .stdinEof _ => true
  | _ => false

def ChannelMessage.isEof : Msg → Bool
  | .stdinEof _ => true
  | _ => false

def ChannelMessage.stdinBytes : Msg → Data
  | .stdin _ data => data
  | _ => []

/-- The bytes a list of messages carries to the child's stdin. -/
def stdinData (M : List Msg) : Data := M.flatMap (·.stdinBytes)

theorem stdinData_append (M M' : List Msg) : stdinData (M ++ M') = stdinData M ++ stdinData M' :=
  List.flatMap_append

/-- The message whose first send is under way. -/
def ClientPc.fresh : ClientPc → List Msg
  | .sendFresh m => [m]
  | _ => []

/-- The stdin messages a suspended client still has to send on this connection. -/
def ClientPc.pending : ClientPc → List Msg
  | .resend m rest => m :: rest
  | .sendFresh m => [m]
  | _ => []

namespace Client

variable {c c' : Client}

/-- What is buffered or being sent was numbered, and is stdin. -/
structure Buffers (c : Client) : Prop where
  stdin : ∀ m ∈ c.trace.numbered, m.isStdin = true
  sent : ∀ m ∈ c.sentStdin, m ∈ c.trace.numbered
  pending : ∀ m ∈ c.pc.pending, m ∈ c.trace.numbered

/-- Steps that leave the buffer alone and send no stdin. -/
theorem Buffers.idle (h : Buffers c) (hn : c'.trace.numbered = c.trace.numbered)
    (hs : c'.sentStdin = c.sentStdin) (hp : c'.pc.pending = []) : Buffers c' :=
  ⟨hn ▸ h.stdin, by rw [hn, hs]; exact h.sent, by rw [hp]; simp⟩

theorem Buffers.fail (h : Buffers c) (e : ClientError) : Buffers (c.fail e) := h.idle rfl rfl rfl

theorem Buffers.connectError (h : Buffers c) (e : ClientError) : Buffers (c.connectError e) := by
  unfold Client.connectError
  split
  · split
    · exact h.fail _
    · exact h.idle rfl rfl rfl
  · exact h.fail _
  · split_ifs
    · exact h.idle rfl rfl rfl
    · exact h.fail _

theorem Buffers.disconnect (h : Buffers c) : Buffers c.disconnect := by
  unfold Client.disconnect
  split_ifs
  · exact h.idle rfl rfl rfl
  · exact h.fail _

theorem Buffers.resendNext (h : Buffers c) {rest : List Msg}
    (hrest : ∀ m ∈ rest, m ∈ c.trace.numbered) : Buffers (c.resendNext rest) := by
  cases rest with
  | nil => exact h.idle rfl rfl rfl
  | cons m rest => exact ⟨h.stdin, h.sent, hrest⟩

theorem Buffers.onReply (h : Buffers c) (m : Msg) : Buffers (c.onReply m) := by
  unfold Client.onReply
  split
  · apply Buffers.resendNext
    · exact ⟨h.stdin, h.sent, h.pending⟩
    · exact h.sent
  · exact h.connectError _
  · exact h.connectError _

theorem Buffers.sendStdin (h : Buffers c) {m : Nat → Msg}
    (hm : (m (c.clientSeq + 1)).isStdin = true) : Buffers (c.sendStdin m) where
  stdin := by
    intro m' hm'
    rcases List.mem_append.mp hm' with hm' | hm'
    · exact h.stdin m' hm'
    · rw [List.mem_singleton.mp hm']
      exact hm
  sent m' hm' := List.mem_append_left _ (h.sent m' hm')
  pending m' hm' := List.mem_append_right _ hm'

theorem Buffers.onMessage (h : Buffers c) (reliable : Bool) (m : Msg) :
    Buffers (c.onMessage reliable m) := by
  have hout : ∀ stream seq data, Buffers (c.onOutput stream seq data reliable) := by
    intro stream seq data
    unfold onOutput
    split_ifs
    · exact h.idle rfl rfl rfl
    · exact h.idle rfl rfl rfl
    · exact h
  cases m with
  | stdout seq data => exact hout .out seq data
  | stderr seq data => exact hout .err seq data
  | exit seq code => exact h.idle rfl rfl rfl
  | ack seq =>
    refine ⟨h.stdin, ?_, h.pending⟩
    intro m hm
    exact h.sent m (List.mem_of_mem_filter hm)
  | _ => exact h

/-- The buffer and the sends under way hold numbered stdin only. -/
theorem Buffers.step {q : Bool} {e : ClientEvent} (h : Buffers c) (hs : c.Step q e c') :
    Buffers c' := by
  cases hs with
  | authFailed => exact h.connectError _
  | reply => exact h.onReply _
  | early => exact h
  | connectFailed => exact h.connectError _
  | loginFailed => exact h.fail _
  | resent hp =>
    refine h.resendNext fun m hm => h.pending m ?_
    rw [hp]
    exact List.mem_cons_of_mem _ hm
  | resendFailed => exact h.disconnect
  | expired => exact h.disconnect
  | pingFailed => exact h.disconnect
  | stdinData =>
    apply Buffers.sendStdin
    · exact ⟨h.stdin, h.sent, h.pending⟩
    · rfl
  | stdinEof =>
    apply Buffers.sendStdin
    · exact ⟨h.stdin, h.sent, h.pending⟩
    · rfl
  | stdinError => exact h.fail _
  | @freshSent m hp =>
    refine ⟨h.stdin, ?_, fun _ h => by cases h⟩
    intro m' hm'
    rcases List.mem_append.mp hm' with hm' | hm'
    · exact h.sent m' hm'
    · refine h.pending m' ?_
      rw [hp]
      exact hm'
  | freshFailed => exact h.disconnect
  | frame => exact h.onMessage _ _
  | datagram => exact h.onMessage _ _
  | badFrame => exact h.fail _
  | badDatagram => exact h
  | disconnected => exact h.disconnect
  | writeFailed => exact h.fail _
  | flushFailed => exact h.fail _
  | _ => exact h.idle rfl rfl rfl

/-! ## Everything unacknowledged is kept -/

/-- `held` is what of the numbered messages `M` is not acknowledged, `pending` is what is still to
be sent on this connection, and `M` carries what was read. -/
structure ResendsAt (M : List Msg) (acked : Nat) (read : Data) (seq : Nat) (isOpen : Bool)
    (held pending : List Msg) : Prop where
  numbered : Numbered ChannelMessage.seq? M
  seq_eq : seq = M.length
  read_eq : stdinData M = read
  noEof : isOpen = true → ∀ m ∈ M, m.isEof = false
  eof_last : isOpen = false → ∃ before, M = before ++ [.stdinEof (before.length + 1)] ∧
    ∀ m ∈ before, m.isEof = false
  held_eq : held = M.drop acked
  pending_eq : pending <:+ M

/-- The client holds everything it numbered and the server did not acknowledge. -/
def Resends (c : Client) : Prop :=
  ResendsAt c.trace.numbered c.trace.acked c.trace.stdinRead c.clientSeq c.stdinOpen
    (c.sentStdin ++ c.pc.fresh) c.pc.pending

theorem Resends.of_pc {p : ClientPc} (h : Resends c) (hp : c.pc = p) :
    ResendsAt c.trace.numbered c.trace.acked c.trace.stdinRead c.clientSeq c.stdinOpen
      (c.sentStdin ++ p.fresh) p.pending :=
  hp ▸ h

theorem ResendsAt.idle {M held pending : List Msg} {acked seq : Nat} {read : Data} {isOpen : Bool}
    (h : ResendsAt M acked read seq isOpen held pending) :
    ResendsAt M acked read seq isOpen held [] :=
  { h with pending_eq := List.nil_suffix }

section

variable (h : ResendsAt c.trace.numbered c.trace.acked c.trace.stdinRead c.clientSeq c.stdinOpen
  (c.sentStdin ++ []) [])
include h

theorem ResendsAt.connectError (e : ClientError) : Resends (c.connectError e) := by
  unfold Client.connectError
  split
  · split
    · exact h
    · exact h
  · exact h
  · split_ifs
    · exact h
    · exact h

theorem ResendsAt.disconnect : Resends c.disconnect := by
  unfold Client.disconnect
  split_ifs
  · exact h
  · exact h

theorem ResendsAt.resendNext {rest : List Msg} (hrest : rest <:+ c.trace.numbered) :
    Resends (c.resendNext rest) := by
  cases rest with
  | nil => exact h
  | cons m rest => exact { h with pending_eq := hrest }

theorem ResendsAt.onReply (m : Msg) : Resends (c.onReply m) := by
  unfold Client.onReply
  split
  · refine ResendsAt.resendNext (by exact h) ?_
    show c.sentStdin <:+ c.trace.numbered
    rw [← List.append_nil c.sentStdin, h.held_eq]
    exact List.drop_suffix _ _
  · exact h.connectError _
  · exact h.connectError _

theorem ResendsAt.onOutput (hp : c.pc = .select) (stream : Stream) (seq : Nat) (data : Data)
    (reliable : Bool) : Resends (c.onOutput stream seq data reliable) := by
  unfold Client.onOutput
  split_ifs
  · exact h
  · exact h
  · unfold Resends
    rw [hp]
    exact h

/-- An ack drops exactly the messages it covers. -/
theorem ResendsAt.onAck (hb : Buffers c) (hp : c.pc = .select) (seq : Nat) :
    Resends (c.onAck seq) := by
  refine ⟨h.numbered, h.seq_eq, h.read_eq, h.noEof, h.eof_last, ?_, ?_⟩
  · have hheld : c.sentStdin = c.trace.numbered.drop c.trace.acked := by
      rw [← h.held_eq, List.append_nil]
    have hfresh : c.pc.fresh = [] := by rw [hp]; rfl
    show List.filter _ c.sentStdin ++ c.pc.fresh = c.trace.numbered.drop (max c.trace.acked seq)
    rw [hfresh, List.append_nil, hheld]
    refine h.numbered.filter_drop _ _ ?_
    intro m hm k hk
    have hstdin := hb.stdin m hm
    cases m with
    | stdin seq' data => cases hk; rfl
    | stdinEof seq' => cases hk; rfl
    | _ => cases hstdin
  · show c.pc.pending <:+ _
    rw [hp]
    exact List.nil_suffix

theorem ResendsAt.onMessage (hb : Buffers c) (hp : c.pc = .select) (reliable : Bool) (m : Msg) :
    Resends (c.onMessage reliable m) := by
  have hsame : Resends c := by
    unfold Resends
    rw [hp]
    exact h
  cases m with
  | stdout seq data => exact h.onOutput hp .out seq data reliable
  | stderr seq data => exact h.onOutput hp .err seq data reliable
  | exit seq code => exact h
  | ack seq => exact h.onAck hb hp seq
  | _ => exact hsame

theorem ResendsAt.stdinData (hopen : c.stdinOpen = true)
    (hack : c.trace.acked ≤ c.trace.numbered.length) (bytes : Data) :
    Resends ({ c with trace := { c.trace with stdinRead := c.trace.stdinRead ++ bytes } }.sendStdin
      fun seq => .stdin seq bytes) where
  numbered := h.numbered.concat (by rw [ChannelMessage.seq?, h.seq_eq])
  seq_eq := by simp [Client.sendStdin, h.seq_eq]
  read_eq := by
    show HerdrEternal.stdinData (c.trace.numbered ++ [_]) = c.trace.stdinRead ++ bytes
    rw [stdinData_append, h.read_eq]
    simp [HerdrEternal.stdinData, ChannelMessage.stdinBytes]
  noEof := by
    intro _ m hm
    rcases List.mem_append.mp hm with hm | hm
    · exact h.noEof hopen m hm
    · rw [List.mem_singleton.mp hm]
      rfl
  eof_last hclosed := by
    cases hopen.symm.trans hclosed
  held_eq := by
    show c.sentStdin ++ [_] = (c.trace.numbered ++ [_]).drop c.trace.acked
    rw [List.drop_append_of_le_length hack, ← h.held_eq, List.append_nil]
  pending_eq := List.suffix_append _ _

/-- The end of stdin is numbered as well, and nothing after it. -/
theorem ResendsAt.stdinEof (hopen : c.stdinOpen = true)
    (hack : c.trace.acked ≤ c.trace.numbered.length) :
    Resends ({ c with stdinOpen := false }.sendStdin .stdinEof) where
  numbered := h.numbered.concat (by rw [ChannelMessage.seq?, h.seq_eq])
  seq_eq := by simp [Client.sendStdin, h.seq_eq]
  read_eq := by
    show HerdrEternal.stdinData (c.trace.numbered ++ [_]) = c.trace.stdinRead
    rw [stdinData_append, h.read_eq]
    simp [HerdrEternal.stdinData, ChannelMessage.stdinBytes]
  noEof := fun h => by cases h
  eof_last _ := ⟨c.trace.numbered, by rw [← h.seq_eq]; rfl, h.noEof hopen⟩
  held_eq := by
    show c.sentStdin ++ [_] = (c.trace.numbered ++ [_]).drop c.trace.acked
    rw [List.drop_append_of_le_length hack, ← h.held_eq, List.append_nil]
  pending_eq := List.suffix_append _ _

end

/-- As long as no send of a fresh message fails, whatever is not acknowledged is
held for a resend. -/
theorem Resends.step {q : Bool} {e : ClientEvent} (h : Resends c) (hb : Buffers c)
    (hack : c.trace.acked ≤ c.trace.numbered.length) (hs : c.Step q e c')
    (hfresh : e = .sendFailed → c.pc.fresh = []) : Resends c' := by
  cases hs with
  | authenticated hp => exact (h.of_pc hp :)
  | authFailed hp => exact ResendsAt.connectError (h.of_pc hp) _
  | reply hp => exact ResendsAt.onReply (h.of_pc hp) _
  | early => exact h
  | connectFailed hp => exact ResendsAt.connectError (h.of_pc hp) _
  | loggedIn hp => exact (h.of_pc hp :)
  | loginFailed hp => exact (h.of_pc hp :)
  | wake hp => exact (h.of_pc hp :)
  | @resent m rest hp =>
    have hpend := h.of_pc hp
    exact ResendsAt.resendNext hpend.idle ((List.suffix_cons m rest).trans hpend.pending_eq)
  | resendFailed hp => exact ResendsAt.disconnect (h.of_pc hp).idle
  | expired hp => exact ResendsAt.disconnect (h.of_pc hp)
  | tick hp => exact (h.of_pc hp :)
  | pinged hp => exact (h.of_pc hp :)
  | pingFailed hp => exact ResendsAt.disconnect (h.of_pc hp)
  | stdinData hp hopen => exact ResendsAt.stdinData (h.of_pc hp) hopen hack _
  | stdinEof hp hopen => exact ResendsAt.stdinEof (h.of_pc hp) hopen hack
  | stdinError hp => exact (h.of_pc hp :)
  | @freshSent m hp =>
    have := h.of_pc hp
    exact { this.idle with held_eq := (List.append_nil _).trans this.held_eq }
  | freshFailed hp => cases hp ▸ hfresh rfl
  | frame hp => exact ResendsAt.onMessage (h.of_pc hp) hb hp _ _
  | datagram hp => exact ResendsAt.onMessage (h.of_pc hp) hb hp _ _
  | badFrame hp => exact (h.of_pc hp :)
  | badDatagram => exact h
  | disconnected hp => exact ResendsAt.disconnect (h.of_pc hp)
  | wrotePart hp => exact (h.of_pc hp :)
  | wroteAll hp => exact (h.of_pc hp :)
  | writeFailed hp => exact (h.of_pc hp :)
  | flushFailed hp => exact (h.of_pc hp :)
  | flushed hp => exact (h.of_pc hp :)
  | acked hp => exact (h.of_pc hp :)
  | ackFailed hp => exact (h.of_pc hp :)
  | exitAcked hp => exact (h.of_pc hp :)
  | exitAckFailed hp => exact (h.of_pc hp :)

theorem ResendsAt.eof_at_end {M held pending : List Msg} {acked seq : Nat} {read : Data}
    {isOpen : Bool} (h : ResendsAt M acked read seq isOpen held pending) {x : Nat} {m : Msg}
    (hget : M[x]? = some m) (hm : m.isEof = true) : x + 1 = M.length := by
  cases isOpen with
  | true =>
    rw [h.noEof rfl m (List.mem_of_getElem? hget)] at hm
    cases hm
  | false =>
    obtain ⟨before, rfl, hbefore⟩ := h.eof_last rfl
    rcases Nat.lt_or_ge x before.length with hlt | hge
    · rw [List.getElem?_append_left hlt] at hget
      rw [hbefore m (List.mem_of_getElem? hget)] at hm
      cases hm
    · have := (List.getElem?_eq_some_iff.mp hget).1
      simp only [List.length_append, List.length_singleton] at this ⊢
      omega

/-! ## What a step does to the record -/

theorem trace_connectError (c : Client) (e : ClientError) : (c.connectError e).trace = c.trace := by
  unfold connectError
  split
  · split <;> rfl
  · rfl
  · split_ifs <;> rfl

theorem trace_disconnect (c : Client) : c.disconnect.trace = c.trace := by
  unfold disconnect
  split_ifs <;> rfl

theorem trace_onReply (c : Client) (m : Msg) : (c.onReply m).trace = c.trace := by
  unfold onReply
  split
  · unfold resendNext
    dsimp only
    split <;> rfl
  · exact trace_connectError c _
  · exact trace_connectError c _

theorem trace_onOutput (c : Client) (stream : Stream) (seq : Nat) (data : Data) (reliable : Bool) :
    (c.onOutput stream seq data reliable).trace = c.trace := by
  unfold onOutput
  split_ifs <;> rfl

theorem numbered_onMessage (c : Client) (reliable : Bool) (m : Msg) :
    (c.onMessage reliable m).trace.numbered = c.trace.numbered := by
  cases m with
  | stdout seq data => exact congrArg _ (trace_onOutput c .out seq data reliable)
  | stderr seq data => exact congrArg _ (trace_onOutput c .err seq data reliable)
  | _ => rfl

theorem Step.numbered {q : Bool} {e : ClientEvent} (h : c.Step q e c') :
    c'.trace.numbered = c.trace.numbered ∨
      ∃ m, c'.trace.numbered = c.trace.numbered ++ [m] ∧ c.stdinOpen = true := by
  cases h with
  | authFailed => exact .inl (by rw [trace_connectError])
  | reply => exact .inl (by rw [trace_onReply])
  | connectFailed => exact .inl (by rw [trace_connectError])
  | @resent m rest => exact .inl (by cases rest <;> rfl)
  | resendFailed => exact .inl (by rw [trace_disconnect])
  | expired => exact .inl (by rw [trace_disconnect])
  | pingFailed => exact .inl (by rw [trace_disconnect])
  | stdinData _ hopen => exact .inr ⟨_, rfl, hopen⟩
  | stdinEof _ hopen => exact .inr ⟨_, rfl, hopen⟩
  | freshFailed => exact .inl (by rw [trace_disconnect])
  | frame => exact .inl (numbered_onMessage c _ _)
  | datagram => exact .inl (numbered_onMessage c _ _)
  | disconnected => exact .inl (by rw [trace_disconnect])
  | _ => exact .inl rfl

theorem Step.acked_le {q : Bool} {e : ClientEvent} {n : Nat} (h : c.Step q e c')
    (hn : c.trace.acked ≤ n)
    (hack : ∀ seq, e = .frame (.ack seq) ∨ e = .datagram (.ack seq) → seq ≤ n) :
    c'.trace.acked ≤ n := by
  have hmsg : ∀ (reliable : Bool) (m : Msg), (∀ seq, m = .ack seq → seq ≤ n) →
      (c.onMessage reliable m).trace.acked ≤ n := by
    intro reliable m hm
    cases m with
    | stdout seq data => exact (trace_onOutput c .out seq data reliable) ▸ hn
    | stderr seq data => exact (trace_onOutput c .err seq data reliable) ▸ hn
    | ack seq => exact max_le hn (hm seq rfl)
    | _ => exact hn
  cases h with
  | authFailed => rw [trace_connectError]; exact hn
  | reply => rw [trace_onReply]; exact hn
  | connectFailed => rw [trace_connectError]; exact hn
  | @resent m rest => cases rest <;> exact hn
  | resendFailed => rw [trace_disconnect]; exact hn
  | expired => rw [trace_disconnect]; exact hn
  | pingFailed => rw [trace_disconnect]; exact hn
  | freshFailed => rw [trace_disconnect]; exact hn
  | frame => exact hmsg true _ fun seq hm => hack seq (.inl (by rw [hm]))
  | datagram => exact hmsg false _ fun seq hm => hack seq (.inr (by rw [hm]))
  | disconnected => rw [trace_disconnect]; exact hn
  | _ => exact hn

end Client

end HerdrEternal
