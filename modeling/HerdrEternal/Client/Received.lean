import HerdrEternal.Client.RunExec
import HerdrEternal.Server.SessionInv

/-!
# What the client has received

`run_exec` keeps one number, `last_server_seq`, and takes a message for the next one when its
number is larger. This file relates that number to the history `H` of the session's log: as long
as every message that arrives is an entry of `H` at or before the next one, the client has
written exactly the output of the first `last_server_seq` entries.

`Received H c` says how far the client is, for each place it can be suspended at: in step with
the history (`Synced`), behind it by the chunk that is being written (`Behind`), or done with it
(`Exited`). `Received.quiet`, `Received.frame` and `Received.datagram` are the step lemmas.
-/

namespace HerdrEternal

open History

namespace Client

variable {H H' : List Msg} {last : Nat} {t t' : ClientTrace} {c c' : Client}

/-! ## How far the client is -/

/-- The client wrote and flushed the output of the first `last` entries. -/
structure Synced (H : List Msg) (last : Nat) (t : ClientTrace) : Prop where
  last_le : last ≤ H.length
  noExit : ∀ m ∈ H.take last, m.isExit = false
  output_eq : t.output = outputs (H.take last)
  flushed_eq : t.flushed = t.output
  persisted_eq : t.persisted = last
  exit_eq : t.exit = none

/-- All but `rest` of the output of the first `last` entries is written, and what counts as
persisted is flushed. -/
structure Behind (H : List Msg) (last : Nat) (t : ClientTrace) (rest : List (Stream × UInt8)) :
    Prop where
  last_le : last ≤ H.length
  noExit : ∀ m ∈ H.take last, m.isExit = false
  output_eq : t.output ++ rest = outputs (H.take last)
  flushed_le : t.flushed <+: t.output
  persisted_flushed : outputs (H.take t.persisted) <+: t.flushed
  persisted_le : t.persisted ≤ last
  exit_eq : t.exit = none

/-- The client wrote and flushed everything, and the next entry, which it received, is Exit. -/
structure Exited (H : List Msg) (last : Nat) (t : ClientTrace) (code : Int32) : Prop where
  exit_entry : H[last]? = some (.exit (last + 1) code)
  output_eq : t.output = outputs (H.take last)
  flushed_eq : t.flushed = t.output
  persisted_eq : t.persisted = last + 1
  exit_eq : t.exit = some code

/-- The client's record of the history when it is suspended at a given place. -/
def ReceivedAt (H : List Msg) (last : Nat) (t : ClientTrace) : ClientPc → Prop
  | .writing stream rest => Behind H last t (rest.map (stream, ·))
  | .flushing => Behind H last t []
  | .sendAck seq => Synced H last t ∧ seq ≤ t.persisted
  | .sendExitAck seq code => Exited H last t code ∧ seq ≤ t.persisted
  | .returned (.ok code) => Exited H last t code
  | .returned (.error _) => ∃ rest, Behind H last t rest
  | _ => Synced H last t

def Received (H : List Msg) (c : Client) : Prop := ReceivedAt H c.lastServerSeq c.trace c.pc

theorem Received.of_pc {p : ClientPc} (h : Received H c) (hp : c.pc = p) :
    ReceivedAt H c.lastServerSeq c.trace p :=
  hp ▸ h

/-- The client is on the newest connection. -/
def attached (c : Client) : Bool :=
  match c.pc with
  | .connecting | .resend .. | .select | .ping | .sendFresh _ | .writing .. | .flushing
  | .sendAck _ => true
  | _ => false

theorem Synced.behind (h : Synced H last t) : Behind H last t [] where
  last_le := h.last_le
  noExit := h.noExit
  output_eq := by rw [List.append_nil, h.output_eq]
  flushed_le := by rw [h.flushed_eq]
  persisted_flushed := by rw [h.persisted_eq, h.flushed_eq, h.output_eq]
  persisted_le := h.persisted_eq.le
  exit_eq := h.exit_eq

/-! ## The history grows -/

theorem Synced.mono (h : Synced H last t) (hH : H <+: H') : Synced H' last t := by
  have htake := take_mono hH h.last_le
  exact ⟨h.last_le.trans hH.length_le, htake ▸ h.noExit, htake ▸ h.output_eq, h.flushed_eq,
    h.persisted_eq, h.exit_eq⟩

theorem Behind.mono {rest : List (Stream × UInt8)} (h : Behind H last t rest) (hH : H <+: H') :
    Behind H' last t rest := by
  have htake := take_mono hH h.last_le
  have hpers := take_mono hH (h.persisted_le.trans h.last_le)
  exact ⟨h.last_le.trans hH.length_le, htake ▸ h.noExit, htake ▸ h.output_eq, h.flushed_le,
    hpers ▸ h.persisted_flushed, h.persisted_le, h.exit_eq⟩

theorem Exited.lt {code : Int32} (h : Exited H last t code) : last < H.length := by
  by_contra hc
  have := h.exit_entry
  rw [List.getElem?_eq_none (by omega)] at this
  cases this

theorem Exited.mono {code : Int32} (h : Exited H last t code) (hH : H <+: H') :
    Exited H' last t code :=
  ⟨getElem?_mono hH h.exit_entry, take_mono hH h.lt.le ▸ h.output_eq, h.flushed_eq,
    h.persisted_eq, h.exit_eq⟩

theorem Received.mono (h : Received H c) (hH : H <+: H') : Received H' c := by
  unfold Received at h ⊢
  revert h
  cases c.pc with
  | writing => exact fun h => Behind.mono h hH
  | flushing => exact fun h => Behind.mono h hH
  | sendAck => exact fun h => ⟨h.1.mono hH, h.2⟩
  | sendExitAck => exact fun h => ⟨h.1.mono hH, h.2⟩
  | returned result =>
    cases result with
    | ok code => exact fun h => Exited.mono h hH
    | error e => exact fun ⟨rest, h⟩ => ⟨rest, h.mono hH⟩
  | _ => exact fun h => Synced.mono h hH

/-! ## Steps that bring no message -/

theorem Behind.fail {rest : List (Stream × UInt8)}
    (h : Behind H c.lastServerSeq c.trace rest) (e : ClientError) : Received H (c.fail e) :=
  ⟨rest, h⟩

theorem Synced.connectError (h : Synced H c.lastServerSeq c.trace) (e : ClientError) :
    Received H (c.connectError e) := by
  unfold Client.connectError
  split
  · split
    · exact h.behind.fail _
    · exact h
  · exact h.behind.fail _
  · split_ifs
    · exact h
    · exact h.behind.fail _

theorem Synced.disconnect (h : Synced H c.lastServerSeq c.trace) : Received H c.disconnect := by
  unfold Client.disconnect
  split_ifs
  · exact h
  · exact h.behind.fail _

theorem Synced.resendNext (h : Synced H c.lastServerSeq c.trace) (rest : List Msg) :
    Received H (c.resendNext rest) := by
  cases rest <;> exact h

/-- Reading stdin does not touch the record of the output. -/
theorem Synced.congr (h : Synced H last t) (ho : t'.output = t.output)
    (hf : t'.flushed = t.flushed) (hp : t'.persisted = t.persisted) (he : t'.exit = t.exit) :
    Synced H last t' :=
  ⟨h.last_le, h.noExit, ho ▸ h.output_eq, by rw [hf, ho, h.flushed_eq], hp ▸ h.persisted_eq,
    he ▸ h.exit_eq⟩

theorem Behind.wrote {done rest : List (Stream × UInt8)} (h : Behind H last t (done ++ rest)) :
    Behind H last { t with output := t.output ++ done } rest :=
  ⟨h.last_le, h.noExit, by rw [← h.output_eq, List.append_assoc],
    h.flushed_le.trans (List.prefix_append _ _), h.persisted_flushed, h.persisted_le, h.exit_eq⟩

theorem Behind.flush (h : Behind H last t []) :
    Synced H last { t with persisted := last, flushed := t.output } :=
  ⟨h.last_le, h.noExit, by rw [← h.output_eq, List.append_nil], rfl, rfl, h.exit_eq⟩

/-- What a step without a message leaves as it was. -/
structure Stays (c c' : Client) : Prop where
  last_eq : c'.lastServerSeq = c.lastServerSeq
  persisted_le : c.trace.persisted ≤ c'.trace.persisted
  attached : c'.attached = true → c.attached = true

theorem Stays.fail (c : Client) (e : ClientError) : Stays c (c.fail e) :=
  ⟨rfl, le_rfl, fun h => by cases h⟩

theorem Stays.connectError (c : Client) (e : ClientError) : Stays c (c.connectError e) := by
  unfold Client.connectError
  split
  · split
    · exact .fail c _
    · exact ⟨rfl, le_rfl, fun h => by cases h⟩
  · exact .fail c _
  · split_ifs
    · exact ⟨rfl, le_rfl, fun h => by cases h⟩
    · exact .fail c _

theorem Stays.disconnect (c : Client) : Stays c c.disconnect := by
  unfold Client.disconnect
  split_ifs
  · exact ⟨rfl, le_rfl, fun h => by cases h⟩
  · exact .fail c _

/-- The events that neither bring a message nor open a connection. -/
def quiet : ClientEvent → Bool
  | .frame _ | .datagram _ | .authenticated => false
  | _ => true

/-- Without a message the client stays where it is in the history. -/
theorem Received.quiet {q : Bool} {e : ClientEvent} (h : Received H c) (hs : c.Step q e c')
    (he : quiet e = true) : Received H c' ∧ Stays c c' := by
  have hatt : ∀ {p}, c.pc = p → attached { c with pc := p } = true → c.attached = true := by
    rintro _ rfl ha
    exact ha
  cases hs with
  | authFailed hp => exact ⟨Synced.connectError (h.of_pc hp) _, .connectError c _⟩
  | connectFailed hp => exact ⟨Synced.connectError (h.of_pc hp) _, .connectError c _⟩
  | loggedIn hp => exact ⟨(h.of_pc hp :), rfl, le_rfl, fun h => by cases h⟩
  | loginFailed hp => exact ⟨Behind.fail (Synced.behind (h.of_pc hp)) _, .fail c _⟩
  | wake hp => exact ⟨(h.of_pc hp :), rfl, le_rfl, fun h => by cases h⟩
  | @resent m rest hp =>
    refine ⟨Synced.resendNext (h.of_pc hp) rest, ?_⟩
    cases rest <;> exact ⟨rfl, le_rfl, fun _ => hatt hp rfl⟩
  | resendFailed hp => exact ⟨Synced.disconnect (h.of_pc hp), .disconnect c⟩
  | expired hp => exact ⟨Synced.disconnect (h.of_pc hp), .disconnect c⟩
  | tick hp => exact ⟨(h.of_pc hp :), rfl, le_rfl, fun _ => hatt hp rfl⟩
  | pinged hp => exact ⟨(h.of_pc hp :), rfl, le_rfl, fun _ => hatt hp rfl⟩
  | pingFailed hp => exact ⟨Synced.disconnect (h.of_pc hp), .disconnect c⟩
  | stdinData hp =>
    exact ⟨Synced.congr (h.of_pc hp) rfl rfl rfl rfl, rfl, le_rfl, fun _ => hatt hp rfl⟩
  | stdinEof hp =>
    exact ⟨Synced.congr (h.of_pc hp) rfl rfl rfl rfl, rfl, le_rfl, fun _ => hatt hp rfl⟩
  | stdinError hp => exact ⟨Behind.fail (Synced.behind (h.of_pc hp)) _, .fail c _⟩
  | freshSent hp => exact ⟨(h.of_pc hp :), rfl, le_rfl, fun _ => hatt hp rfl⟩
  | freshFailed hp => exact ⟨Synced.disconnect (h.of_pc hp), .disconnect c⟩
  | badFrame hp => exact ⟨Behind.fail (Synced.behind (h.of_pc hp)) _, .fail c _⟩
  | badDatagram hp => exact ⟨h, rfl, le_rfl, id⟩
  | disconnected hp => exact ⟨Synced.disconnect (h.of_pc hp), .disconnect c⟩
  | @wrotePart stream rest n hp =>
    have hb : Behind H c.lastServerSeq c.trace (rest.map (stream, ·)) := h.of_pc hp
    rw [← List.take_append_drop n rest, List.map_append] at hb
    exact ⟨hb.wrote, rfl, le_rfl, fun _ => hatt hp rfl⟩
  | @wroteAll stream rest hp =>
    have hb : Behind H c.lastServerSeq c.trace (rest.map (stream, ·)) := h.of_pc hp
    rw [← List.append_nil (rest.map _)] at hb
    exact ⟨hb.wrote, rfl, le_rfl, fun _ => hatt hp rfl⟩
  | writeFailed hp => exact ⟨Behind.fail (h.of_pc hp) _, .fail c _⟩
  | flushFailed hp => exact ⟨Behind.fail (h.of_pc hp) _, .fail c _⟩
  | flushed hp =>
    have hb : Behind H c.lastServerSeq c.trace [] := h.of_pc hp
    exact ⟨⟨hb.flush, le_rfl⟩, rfl, hb.persisted_le, fun _ => hatt hp rfl⟩
  | acked hp => exact ⟨(h.of_pc hp).1, rfl, le_rfl, fun _ => hatt hp rfl⟩
  | ackFailed hp => exact ⟨(h.of_pc hp).1, rfl, le_rfl, fun _ => hatt hp rfl⟩
  | exitAcked hp => exact ⟨(h.of_pc hp).1, rfl, le_rfl, fun h => by cases h⟩
  | exitAckFailed hp => exact ⟨(h.of_pc hp).1, rfl, le_rfl, fun h => by cases h⟩
  | authenticated => cases he
  | reply => cases he
  | early => cases he
  | frame => cases he
  | datagram => cases he

/-! ## Messages -/

/-- The next output entry moves the client one entry ahead. -/
theorem Synced.next (h : Synced H c.lastServerSeq c.trace) {stream : Stream} {data : Data}
    (hm : H[c.lastServerSeq]? = some (stream.message (c.lastServerSeq + 1) data)) :
    Behind H (c.lastServerSeq + 1) c.trace (data.map (stream, ·)) := by
  have htake : H.take (c.lastServerSeq + 1) =
      H.take c.lastServerSeq ++ [stream.message (c.lastServerSeq + 1) data] := by
    rw [List.take_add_one, hm]
    rfl
  refine ⟨?_, ?_, ?_, ?_, ?_, ?_, h.exit_eq⟩
  · exact Nat.succ_le_of_lt (List.getElem?_eq_some_iff.mp hm).1
  · rw [htake]
    intro m hmem
    rcases List.mem_append.mp hmem with hmem | hmem
    · exact h.noExit m hmem
    · rw [List.mem_singleton.mp hmem]
      exact stream.isExit_message _ _
  · rw [htake, outputs_append, ← h.output_eq]
    simp [outputs]
  · rw [h.flushed_eq]
  · rw [h.persisted_eq, h.flushed_eq, h.output_eq]
  · rw [h.persisted_eq]
    exact Nat.le_succ _

/-- Taking an output entry: it is written if it is the next one, and skipped if it is old. -/
theorem Synced.onOutput (h : Synced H c.lastServerSeq c.trace) (hp : c.pc = .select)
    {x : Nat} (hx : x ≤ c.lastServerSeq) {stream : Stream} {data : Data}
    (hm : H[x]? = some (stream.message (x + 1) data)) (reliable : Bool) :
    Received H (c.onOutput stream (x + 1) data reliable) ∧
      (c.onOutput stream (x + 1) data reliable).trace = c.trace ∧
      (c.onOutput stream (x + 1) data reliable).lastServerSeq = max c.lastServerSeq (x + 1) := by
  unfold Client.onOutput
  rcases hx.lt_or_eq with hlt | rfl
  · have hold : isNext (x + 1) c.lastServerSeq reliable = false := by
      simp only [isNext, Bool.or_eq_false_iff, decide_eq_false_iff_not, Bool.and_eq_false_iff]
      omega
    rw [hold, if_neg Bool.false_ne_true]
    refine ⟨?_, rfl, (max_eq_left hlt).symm⟩
    unfold Received
    rw [hp]
    exact h
  · have hnext : isNext (c.lastServerSeq + 1) c.lastServerSeq reliable = true := by simp [isNext]
    rw [hnext, if_pos rfl]
    refine ⟨?_, rfl, (max_eq_right (Nat.le_succ _)).symm⟩
    have hb := h.next hm
    by_cases hd : data.isEmpty
    · rw [List.isEmpty_iff.mp hd] at hb ⊢
      exact hb
    · rw [if_neg hd]
      exact hb

/-- What taking the entry at `x` does to the client. -/
structure Takes (H : List Msg) (x : Nat) (c c' : Client) : Prop where
  received : Received H c'
  persisted_le : c.trace.persisted ≤ c'.trace.persisted
  /-- A client that stays attached has the entry behind it. -/
  lt_last : c'.attached = true → x < c'.lastServerSeq
  last_le : c'.lastServerSeq ≤ max c.lastServerSeq (x + 1)

theorem Takes.onOutput (h : Synced H c.lastServerSeq c.trace) (hp : c.pc = .select)
    {x : Nat} (hx : x ≤ c.lastServerSeq) (stream : Stream) {data : Data}
    (hm : H[x]? = some (stream.message (x + 1) data)) (reliable : Bool) :
    Takes H x c (c.onOutput stream (x + 1) data reliable) := by
  obtain ⟨hr, ht, hl⟩ := h.onOutput hp hx hm reliable
  exact ⟨hr, by rw [ht], fun _ => by omega, hl.le⟩

/-- Exit can only be the next entry, since none is behind the client. -/
theorem Takes.onExit (h : Synced H c.lastServerSeq c.trace) {x : Nat} (hx : x ≤ c.lastServerSeq)
    {code : Int32} (hm : H[x]? = some (.exit (x + 1) code)) (reliable : Bool) :
    Takes H x c (c.onMessage reliable (.exit (x + 1) code)) := by
  have hxl : x = c.lastServerSeq := by
    refine hx.eq_of_not_lt fun hlt => ?_
    have hmem : (.exit (x + 1) code : Msg) ∈ H.take c.lastServerSeq :=
      List.mem_of_getElem? (i := x) (by rw [List.getElem?_take_of_lt hlt, hm])
    cases h.noExit _ hmem
  subst hxl
  refine ⟨⟨⟨hm, h.output_eq, h.flushed_eq, rfl, rfl⟩, le_rfl⟩, ?_, (fun h => by cases h),
    le_max_left _ _⟩
  show c.trace.persisted ≤ c.lastServerSeq + 1
  rw [h.persisted_eq]
  exact Nat.le_succ _

/-- An entry at or before the next one arrives on the stream. -/
theorem Received.frame {q : Bool} {m : Msg} {x : Nat} (h : Received H c)
    (hs : c.Step q (.frame m) c') (hn : m.seq? = some (x + 1)) (hentry : m.isEntry = true)
    (hx : x ≤ c.lastServerSeq) (hm : H[x]? = some m) : Takes H x c c' := by
  cases hs with
  | reply hp =>
    -- Before `Started` an entry ends the connection attempt.
    have hreply : c.onReply m = c.connectError .connectionClosed := by
      cases m <;> first | rfl | cases hentry
    rw [hreply]
    have hstays := Stays.connectError c .connectionClosed
    refine ⟨Synced.connectError (h.of_pc hp) _, hstays.persisted_le, ?_, ?_⟩
    · intro ha
      unfold connectError fail at ha
      dsimp only at ha
      split_ifs at ha <;> cases ha
    · rw [hstays.last_eq]
      exact le_max_left _ _
  | frame hp =>
    have hsync : Synced H c.lastServerSeq c.trace := h.of_pc hp
    cases m with
    | stdout seq data =>
      cases hn
      exact Takes.onOutput hsync hp hx .out hm true
    | stderr seq data =>
      cases hn
      exact Takes.onOutput hsync hp hx .err hm true
    | exit seq code =>
      cases hn
      exact Takes.onExit hsync hx hm true
    | _ => cases hentry

/-- Any other message leaves the client where it is. -/
theorem Received.other {q : Bool} {m : Msg} (h : Received H c) (hs : c.Step q (.frame m) c')
    (hentry : m.isEntry = false) : Received H c' ∧ Stays c c' := by
  cases hs with
  | reply hp =>
    have hsync : Synced H c.lastServerSeq c.trace := h.of_pc hp
    have herr : ∀ e, Received H (c.connectError e) ∧ Stays c (c.connectError e) :=
      fun e => ⟨hsync.connectError e, .connectError c e⟩
    cases m with
    | started token =>
      have hatt : c.attached = true := by simp [attached, hp]
      have hreply : c.onReply (.started token) =
          { c with resumeToken := c.resumeToken <|> token }.resendNext c.sentStdin := rfl
      rw [hreply]
      refine ⟨Synced.resendNext (by exact hsync) _, ?_⟩
      cases c.sentStdin <;> exact ⟨rfl, le_rfl, fun _ => hatt⟩
    | _ => exact herr _
  | frame hp =>
    cases m with
    | ack seq =>
      refine ⟨?_, rfl, le_rfl, id⟩
      unfold Received
      rw [show (c.onMessage true (.ack seq)).pc = c.pc from rfl, hp]
      exact Synced.congr (h.of_pc hp) rfl rfl rfl rfl
    | stdout => cases hentry
    | stderr => cases hentry
    | exit => cases hentry
    | _ => exact ⟨h, rfl, le_rfl, id⟩

/-- A datagram of an output entry is taken only if it is the next one. -/
theorem Received.datagram {q : Bool} {m : Msg} {x : Nat} (h : Received H c)
    (hs : c.Step q (.datagram m) c') (hn : m.seq? = some (x + 1)) (hentry : m.isEntry = true)
    (hexit : m.isExit = false) (hm : H[x]? = some m) :
    Received H c' ∧ c.trace.persisted ≤ c'.trace.persisted ∧
      (c'.attached = true → c.attached = true) ∧ c.lastServerSeq ≤ c'.lastServerSeq ∧
      c'.lastServerSeq ≤ max c.lastServerSeq (x + 1) := by
  cases hs with
  | early hp => exact ⟨h, le_rfl, id, le_rfl, le_max_left _ _⟩
  | datagram hp =>
    have hsync : Synced H c.lastServerSeq c.trace := h.of_pc hp
    have hatt : c.attached = true := by simp [attached, hp]
    suffices ∀ stream data, m = stream.message (x + 1) data →
        Received H (c.onOutput stream (x + 1) data false) ∧
          c.trace.persisted ≤ (c.onOutput stream (x + 1) data false).trace.persisted ∧
          c.lastServerSeq ≤ (c.onOutput stream (x + 1) data false).lastServerSeq ∧
          (c.onOutput stream (x + 1) data false).lastServerSeq ≤ max c.lastServerSeq (x + 1) by
      cases m with
      | stdout seq data =>
        cases hn
        obtain ⟨h1, h2, h3, h4⟩ := this .out data rfl
        exact ⟨h1, h2, fun _ => hatt, h3, h4⟩
      | stderr seq data =>
        cases hn
        obtain ⟨h1, h2, h3, h4⟩ := this .err data rfl
        exact ⟨h1, h2, fun _ => hatt, h3, h4⟩
      | exit => cases hexit
      | _ => cases hentry
    rintro stream data rfl
    by_cases hx : x ≤ c.lastServerSeq
    · obtain ⟨hr, ht, hl⟩ := hsync.onOutput hp hx hm false
      exact ⟨hr, by rw [ht], by omega, hl.le⟩
    · -- Overtaking datagrams are dropped.
      have hfar : isNext (x + 1) c.lastServerSeq false = false := by
        simp only [isNext, Bool.false_and, Bool.or_false, decide_eq_false_iff_not]
        omega
      unfold onOutput
      rw [hfar, if_neg Bool.false_ne_true]
      exact ⟨h, le_rfl, le_rfl, le_max_left _ _⟩

end Client

end HerdrEternal
