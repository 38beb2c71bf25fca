import HerdrEternal.Server.Holding
import HerdrEternal.System.Expiry
import HerdrEternal.System.HandoverRace

/-!
# Whose session a connection serves

A connection gets at a session through its one request: it starts the session, or it names the
session's token. `Audit` is the daemon with the requests of its handlers, and with every message
that was in the log of a session.

**Theorem (`session_isolation`).** In every run, with any number of clients, sessions and
connections, and with expiry and handover going on:

* Every handler reads at most one request, and no session is started by two of them.
* A handler only holds a session that its own request started or named.
* What `attach` sends on a connection is the token of that session, a message from that session's
  log, an ack, or a ping.
* A step of a handler leaves every other session exactly as it is.

The agent hub is not among it: there is one for all sessions of the daemon.
-/

namespace HerdrEternal

/-! ## What was asked and what was logged -/

/-- The token a request names. -/
def ExecRequest.named? : ExecRequest Nat → Option String
  | .exec .. => none
  | .resume token _ | .agentChannel token => some token

/-- The request a handler read, and the session that was started for it. -/
structure Request where
  handler : Nat
  request : ExecRequest Nat
  started : Option Nat
  deriving DecidableEq

structure Audit where
  daemon : Daemon
  /-- History: the requests that were read. -/
  asked : List Request
  /-- History: what was in the log of a session. -/
  logged : List (Nat × Msg)
  deriving DecidableEq

namespace Daemon

/-- The request a step reads. -/
def asks (d : Daemon) : DaemonLabel → List Request
  | .handler i (.request (.exec command resumable forwardAgent) spawned) =>
    [⟨i, .exec command resumable forwardAgent, spawned.map fun _ => d.sessions.length⟩]
  | .handler i (.request r _) => [⟨i, r, none⟩]
  | _ => []

/-- What is in the logs. -/
def logs (d : Daemon) : List (Nat × Msg) :=
  d.sessions.zipIdx.flatMap fun (e, id) => e.session.log.buffer.map (id, ·)

theorem mem_logs {d : Daemon} {id : Nat} {e : Entry} {m : Msg} (hget : d.sessions[id]? = some e)
    (hm : m ∈ e.session.log.buffer) : (id, m) ∈ d.logs :=
  List.mem_flatMap.mpr ⟨(e, id), List.mk_mem_zipIdx_iff_getElem?.mpr hget,
    List.mem_map.mpr ⟨m, hm, rfl⟩⟩

end Daemon

namespace Audit

variable {timeout : Nat} {x x' : Audit}

def step (timeout : Nat) (x : Audit) (l : DaemonLabel) : Option Audit :=
  (x.daemon.step timeout l).map fun d => ⟨d, x.asked ++ x.daemon.asks l, x.logged ++ d.logs⟩

def start (restored : List Entry) : Audit := ⟨.start restored, [], (Daemon.start restored).logs⟩

def machine (timeout : Nat) : Machine Audit DaemonLabel where
  init x := ∃ restored : List Entry, (restored.map (·.token)).Nodup ∧
    (∀ e ∈ restored, e.Restored) ∧ x = start restored
  step := step timeout

/-- The handler's request started the session or named it. -/
def Entitled (x : Audit) (i id : Nat) : Prop :=
  ∃ q ∈ x.asked, q.handler = i ∧
    (q.started = some id ∨ ∃ token, q.request.named? = some token ∧
      x.daemon.tokens[id]? = some token)

/-- What a connection may be sent of the session it is attached to. -/
inductive Own (x : Audit) (id : Nat) : Wire → Prop
  | started {token : Option String} (h : token = none ∨ token = x.daemon.tokens[id]?) :
      Own x id (.msg (.started token))
  | logged {m : Msg} (h : (id, m) ∈ x.logged) : Own x id (.msg m)
  | ack {seq : Nat} : Own x id (.msg (.ack seq))
  | ping : Own x id .ping

end Audit

/-! ## What `attach` sends -/

namespace Attach

/-- What is left of a replay pass. -/
def replaying (a : Attach) : List Msg :=
  match a.pc with
  | .replay m rest => m :: rest
  | _ => []

theorem replaying_replayNext (a : Attach) (n : Nat) (ms : List Msg) :
    (a.replayNext n ms).replaying = ms := by
  cases ms with
  | nil =>
    unfold replayNext afterReplay
    split_ifs <;> rfl
  | cons m ms => rfl

theorem replaying_loopTop {a : Attach} {s : Session} {m : Msg} (h : m ∈ (a.loopTop s).replaying) :
    m ∈ s.log.buffer := by
  rw [loopTop, replaying_replayNext] at h
  exact List.mem_of_mem_drop h

theorem Step.replaying {quic : Bool} {a a' : Attach} {s s' : Session} {e : AttachEvent}
    (h : a.Step quic s e a' s') {m : Msg} (hm : m ∈ a'.replaying) :
    m ∈ a.replaying ∨ m ∈ s.log.buffer := by
  cases h with
  | snapshot => exact .inr (replaying_loopTop hm)
  | @replayed m' rest hp =>
    rw [replaying_replayNext] at hm
    rw [Attach.replaying, hp]
    exact .inl (List.mem_cons_of_mem _ hm)
  | _ => cases hm

end Attach

/-! ## What a step does to a handler -/

/-- The request is not read yet. -/
def HandlerPc.unread : HandlerPc → Bool
  | .hello | .verifying _ | .welcome | .request => true
  | _ => false

namespace Daemon

variable {timeout : Nat} {d d' : Daemon}

theorem reads_of_onRequest {i : Nat} {h : Handler} {spawned : Option Spawned}
    {r : ExecRequest Nat} (hs : d.onRequest i h spawned r = some d') :
    ∃ pc, d'.handlers = d.handlers.set i { h with pc := pc } ∧ pc.unread = false := by
  unfold onRequest at hs
  split at hs
  · split at hs
    · cases hs
      exact ⟨_, rfl, rfl⟩
    · split_ifs at hs
      cases hs
      exact ⟨_, rfl, rfl⟩
  · split at hs
    · cases hs
      exact ⟨_, rfl, rfl⟩
    · cases hs
      exact ⟨_, rfl, rfl⟩
  · split at hs
    · split_ifs at hs
      · cases hs
        exact ⟨_, rfl, rfl⟩
      · cases hs
        exact ⟨_, rfl, rfl⟩
    · cases hs
      exact ⟨_, rfl, rfl⟩

theorem reads_of_read {e : HandlerEvent} {pc pc' : HandlerPc} (hread : pc'.unread = false)
    (he : ∀ r spawned, e ≠ .request r spawned) : (pc'.unread = true → pc.unread = true) ∧
      ∀ r spawned, e = .request r spawned → pc.unread = true ∧ pc'.unread = false := by
  refine ⟨fun hu => ?_, fun r spawned hr => absurd hr (he r spawned)⟩
  rw [hread] at hu
  cases hu

/-- Only a handler that has not read its request reads one, and then it has. -/
theorem reads_of_handlerStep {i : Nat} {h : Handler} {e : HandlerEvent}
    (hs : d.handlerStep i h e = some d') :
    ∃ pc, d'.handlers = d.handlers.set i { h with pc := pc } ∧
      (pc.unread = true → h.pc.unread = true) ∧
      ∀ r spawned, e = .request r spawned → h.pc.unread = true ∧ pc.unread = false := by
  obtain ⟨quic, pc⟩ := h
  unfold handlerStep at hs
  dsimp only at hs
  split at hs
  · cases hs
    exact ⟨_, rfl, fun _ => rfl, fun _ _ he => HandlerEvent.noConfusion he⟩
  · cases hs
    exact ⟨_, rfl, fun _ => rfl, fun _ _ he => HandlerEvent.noConfusion he⟩
  · cases hs
    exact ⟨_, rfl, fun _ => rfl, fun _ _ he => HandlerEvent.noConfusion he⟩
  · cases hs
    exact ⟨_, rfl, fun _ => rfl, fun _ _ he => HandlerEvent.noConfusion he⟩
  · cases hs
    exact ⟨_, rfl, fun _ => rfl, fun _ _ he => HandlerEvent.noConfusion he⟩
  · cases hs
    exact ⟨_, rfl, fun _ => rfl, fun _ _ he => HandlerEvent.noConfusion he⟩
  · obtain ⟨pc, hget, hread⟩ := reads_of_onRequest hs
    exact ⟨pc, hget, fun _ => rfl, fun _ _ _ => ⟨rfl, hread⟩⟩
  · obtain ⟨entry, -, rfl⟩ := Option.map_eq_some_iff.mp hs
    exact ⟨_, rfl, reads_of_read rfl fun _ _ he => HandlerEvent.noConfusion he⟩
  · cases hs
    exact ⟨_, rfl, reads_of_read rfl fun _ _ he => HandlerEvent.noConfusion he⟩
  · obtain ⟨entry, -, hs⟩ := Option.bind_eq_some_iff.mp hs
    obtain ⟨⟨a', s⟩, -, rfl⟩ := Option.map_eq_some_iff.mp hs
    exact ⟨_, rfl, reads_of_read rfl fun _ _ he => HandlerEvent.noConfusion he⟩
  · split_ifs at hs
    cases hs
    exact ⟨_, rfl, reads_of_read rfl fun _ _ he => HandlerEvent.noConfusion he⟩
  · cases hs
    exact ⟨_, rfl, reads_of_read rfl fun _ _ he => HandlerEvent.noConfusion he⟩
  · rename_i ok
    cases hs
    cases ok <;> exact ⟨_, rfl, reads_of_read rfl fun _ _ he => HandlerEvent.noConfusion he⟩
  · cases hs

theorem length_of_exec {i : Nat} {h : Handler} {command : String} {resumable forwardAgent : Bool}
    {sp : Spawned}
    (hs : d.handlerStep i h (.request (.exec command resumable forwardAgent) (some sp)) = some d') :
    d'.sessions.length = d.sessions.length + 1 := by
  obtain ⟨quic, pc⟩ := h
  cases pc with
  | request =>
    have hs : d.onRequest i ⟨quic, .request⟩ (some sp) (.exec command resumable forwardAgent) =
      some d' := hs
    simp only [onRequest] at hs
    split_ifs at hs
    cases hs
    exact List.length_append
  | _ => cases hs

theorem Step.handlers_le {l : DaemonLabel} (hs : Step timeout d l d') :
    d.handlers.length ≤ d'.handlers.length := by
  cases hs with
  | accept => simp
  | handler hget hs => cases hs <;> simp [goTo, modify]
  | _ => simp [modify]

theorem asks_cases (d : Daemon) (l : DaemonLabel) : d.asks l = [] ∨ ∃ q, d.asks l = [q] := by
  unfold asks
  split
  · exact .inr ⟨_, rfl⟩
  · exact .inr ⟨_, rfl⟩
  · exact .inl rfl

/-- What a step reads is read by its handler, and a session started for it is the next one. -/
theorem of_mem_asks {l : DaemonLabel} {q : Request} (hq : q ∈ d.asks l) :
    ∃ r spawned, l = .handler q.handler (.request r spawned) ∧
      ∀ id, q.started = some id → id = d.sessions.length ∧ ∃ command resumable forwardAgent sp,
        r = .exec command resumable forwardAgent ∧ spawned = some sp := by
  unfold asks at hq
  split at hq
  · rename_i i command resumable forwardAgent spawned
    cases List.mem_singleton.mp hq
    refine ⟨_, _, rfl, fun id hid => ?_⟩
    obtain ⟨sp, rfl, rfl⟩ := Option.map_eq_some_iff.mp hid
    exact ⟨rfl, _, _, _, sp, rfl, rfl⟩
  · cases List.mem_singleton.mp hq
    exact ⟨_, _, rfl, fun id hid => by cases hid⟩
  · cases hq

/-- Every handler after a step is new, or moved, or as it was. -/
inductive HandlerCases (d : Daemon) (l : DaemonLabel) (i : Nat) (h' : Handler) : Prop
  | same (hget : d.handlers[i]? = some h') (hne : ∀ e, l ≠ .handler i e)
  | accepted (hi : i = d.handlers.length) (hp : h'.pc = .hello) (hl : ∃ quic, l = .accept quic)
  | moved {e : HandlerEvent} {h : Handler} (hl : l = .handler i e)
      (hget : d.handlers[i]? = some h) (hh : d.Holding h e h'.pc)
      (hunread : h'.pc.unread = true → h.pc.unread = true)
      (hreads : ∀ r spawned, e = .request r spawned →
        h.pc.unread = true ∧ h'.pc.unread = false)

theorem handlerCases {l : DaemonLabel} (hs : d.step timeout l = some d') {i : Nat} {h' : Handler}
    (hget : d'.handlers[i]? = some h') : d.HandlerCases l i h' := by
  obtain ⟨-, hst⟩ := Step.of_step hs
  by_cases hl : ∃ e, l = .handler i e
  · obtain ⟨e, rfl⟩ := hl
    cases hst with
    | @handler _ h _ _ hh _ =>
      have hhs := handlerStep_of_step hs hh
      obtain ⟨pc, hset, hholding⟩ := Holding.of_handlerStep hhs
      obtain ⟨pc', hset', hunread, hreads⟩ := reads_of_handlerStep hhs
      have hpc : h' = { h with pc := pc } := by
        rw [hset, Table.set_self hh] at hget
        exact (Option.some.inj hget).symm
      have hpc' : h' = { h with pc := pc' } := by
        rw [hset', Table.set_self hh] at hget
        exact (Option.some.inj hget).symm
      have heq : h'.pc = pc := by rw [hpc]
      have heq' : h'.pc = pc' := by rw [hpc']
      exact .moved rfl hh (heq ▸ hholding) (heq' ▸ hunread) (heq' ▸ hreads)
  · have hne : ∀ e, l ≠ .handler i e := fun e he => hl ⟨e, he⟩
    by_cases hlt : i < d.handlers.length
    · have hold := hst.handler_kept (List.getElem?_eq_getElem hlt) hne
      rw [hget, Option.some.injEq] at hold
      exact .same (hold ▸ List.getElem?_eq_getElem hlt) hne
    · cases hst with
      | @accept quic =>
        rcases Table.of_concat hget with hget | ⟨hi, rfl⟩
        · exact absurd (Table.lt_of_getElem? hget) hlt
        · exact .accepted hi rfl ⟨quic, rfl⟩
      | handler _ hs =>
        cases hs <;>
          exact absurd ((Table.lt_of_getElem? hget).trans_eq List.length_set) hlt
      | _ => exact absurd (Table.lt_of_getElem? hget) hlt

end Daemon

namespace Audit

variable {timeout : Nat} {x x' : Audit}

/-! ## The invariant -/

theorem Entitled.mono {i id : Nat} (h : x.Entitled i id) (hasked : ∀ q ∈ x.asked, q ∈ x'.asked)
    (htokens : ∀ (id : Nat) (token : String), x.daemon.tokens[id]? = some token →
      x'.daemon.tokens[id]? = some token) : x'.Entitled i id := by
  obtain ⟨q, hq, hi, hstarted | ⟨token, hnamed, htoken⟩⟩ := h
  · exact ⟨q, hasked q hq, hi, .inl hstarted⟩
  · exact ⟨q, hasked q hq, hi, .inr ⟨token, hnamed, htokens _ _ htoken⟩⟩

/-- What a handler may hold. -/
structure Confined (x : Audit) (i : Nat) (h : Handler) : Prop where
  entitled : ∀ id, h.pc.session? = some id → x.Entitled i id
  token : ∀ id a, h.pc = .attached id a → x.daemon.tokens[id]? = some a.token
  replay : ∀ id a, h.pc = .attached id a → ∀ m ∈ a.replaying, (id, m) ∈ x.logged

/-- The invariant. -/
structure Ok (x : Audit) : Prop where
  confined : ∀ i h, x.daemon.handlers[i]? = some h → x.Confined i h
  unread : ∀ q ∈ x.asked, ∃ h, x.daemon.handlers[q.handler]? = some h ∧ h.pc.unread = false
  once : (x.asked.map (·.handler)).Nodup
  started_lt : ∀ q ∈ x.asked, ∀ id, q.started = some id → id < x.daemon.sessions.length
  startedOnce : (x.asked.filterMap (·.started)).Nodup
  logs : ∀ p ∈ x.daemon.logs, p ∈ x.logged

/-- What a step leaves of the history. -/
structure Goes (x x' : Audit) : Prop where
  asked : ∀ q ∈ x.asked, q ∈ x'.asked
  logged : ∀ p ∈ x.logged, p ∈ x'.logged
  tokens : ∀ (id : Nat) (token : String), x.daemon.tokens[id]? = some token →
    x'.daemon.tokens[id]? = some token

theorem Confined.mono {i : Nat} {h : Handler} (hc : x.Confined i h) (hg : Goes x x') :
    x'.Confined i h where
  entitled id hid := (hc.entitled id hid).mono hg.asked hg.tokens
  token id a ha := hg.tokens _ _ (hc.token id a ha)
  replay id a ha m hm := hg.logged _ (hc.replay id a ha m hm)

theorem confined_of_unattached {i : Nat} {h : Handler} (hno : ∀ id a, h.pc ≠ .attached id a)
    (hid : ∀ id, h.pc.session? = some id → x.Entitled i id) : x.Confined i h where
  entitled := hid
  token id a ha := absurd ha (hno id a)
  replay id a ha := absurd ha (hno id a)

theorem confined_of_no_session {i : Nat} {h : Handler} (hno : h.pc.session? = none) :
    x.Confined i h := by
  refine confined_of_unattached (fun id a ha => ?_) fun id hid => ?_
  · rw [ha] at hno
    cases hno
  · rw [hno] at hid
    cases hid

/-- **A handler's own step.** It gets a session from its request, or goes on with the one it has. -/
theorem Confined.moved {i : Nat} {h h' : Handler} {e : HandlerEvent} (hc : x.Confined i h)
    (hh : x.daemon.Holding h e h'.pc) (hg : Goes x x')
    (hasks : ∀ q ∈ x.daemon.asks (.handler i e), q ∈ x'.asked)
    (hlogs : ∀ p ∈ x.daemon.logs, p ∈ x.logged) : x'.Confined i h' := by
  have hold : ∀ {id : Nat}, h.pc.session? = some id → x'.Entitled i id :=
    fun hid => (hc.entitled _ hid).mono hg.asked hg.tokens
  have hnamed : ∀ {r : ExecRequest Nat} {token : String} {id : Nat},
      ⟨i, r, none⟩ ∈ x'.asked → r.named? = some token → x.daemon.lookup token = some id →
      x'.Entitled i id := fun hq hr hfind =>
    ⟨_, hq, rfl, .inr ⟨_, hr, hg.tokens _ _ (Daemon.lookup_token hfind)⟩⟩
  generalize hpc : h'.pc = pc at hh
  cases hh with
  | nothing hno => exact confined_of_no_session (hpc ▸ hno)
  | started =>
    refine confined_of_unattached (by rw [hpc]; exact nofun) fun id hid => ?_
    rw [hpc] at hid
    exact ⟨_, hasks _ List.mem_cons_self, rfl, .inl hid⟩
  | resumed hfind =>
    refine confined_of_unattached (by rw [hpc]; exact nofun) fun id hid => ?_
    rw [hpc] at hid
    cases hid
    exact hnamed (hasks _ List.mem_cons_self) rfl hfind
  | agent hfind =>
    refine confined_of_unattached (by rw [hpc]; exact nofun) fun id hid => ?_
    rw [hpc] at hid
    cases hid
    exact hnamed (hasks _ List.mem_cons_self) rfl hfind
  | agentAttached hp =>
    refine confined_of_unattached (by rw [hpc]; exact nofun) fun id hid => ?_
    rw [hpc] at hid
    cases hid
    exact hold (by rw [hp]; rfl)
  | @attached id n entry hp hget =>
    refine ⟨fun id' hid => ?_, fun id' a ha => ?_, fun id' a ha m hm => ?_⟩
    · rw [hpc] at hid
      cases hid
      exact hold (by rw [hp]; rfl)
    · cases hpc.symm.trans ha
      refine hg.tokens _ _ ?_
      rw [Daemon.tokens, List.getElem?_map, hget]
      rfl
    · cases hpc.symm.trans ha
      cases hm
  | @served id a a' event entry s hp hget hstep =>
    refine ⟨fun id' hid => ?_, fun id' a'' ha => ?_, fun id' a'' ha m hm => ?_⟩
    · rw [hpc] at hid
      cases hid
      exact hold (by rw [hp]; rfl)
    · cases hpc.symm.trans ha
      rw [hstep.token]
      exact hg.tokens _ _ (hc.token id a hp)
    · cases hpc.symm.trans ha
      rcases hstep.replaying hm with hm | hm
      · exact hg.logged _ (hc.replay id a hp m hm)
      · exact hg.logged _ (hlogs _ (Daemon.mem_logs hget hm))

theorem goes {l : DaemonLabel} {d : Daemon} (hs : x.daemon.step timeout l = some d) :
    Goes x ⟨d, x.asked ++ x.daemon.asks l, x.logged ++ d.logs⟩ where
  asked _ := List.mem_append_left _
  logged _ := List.mem_append_left _
  tokens _ _ := (Daemon.Step.of_step hs).2.token_kept

/-- A request that is read leaves its handler with no other to read. -/
theorem Ok.unread_step (h : Ok x) {l : DaemonLabel} {d : Daemon}
    (hs : x.daemon.step timeout l = some d) :
    ∀ q ∈ x.asked ++ x.daemon.asks l,
      ∃ h, d.handlers[q.handler]? = some h ∧ h.pc.unread = false := by
  have hle := (Daemon.Step.of_step hs).2.handlers_le
  have hold : ∀ {i : Nat} {h₀ : Handler}, x.daemon.handlers[i]? = some h₀ →
      (∃ h', d.handlers[i]? = some h' ∧ x.daemon.HandlerCases l i h') := by
    intro i h₀ hget
    have hget' := List.getElem?_eq_getElem ((Table.lt_of_getElem? hget).trans_le hle)
    exact ⟨_, hget', Daemon.handlerCases hs hget'⟩
  intro q hq
  rcases List.mem_append.mp hq with hq | hq
  · obtain ⟨h₀, hget, hread⟩ := h.unread q hq
    obtain ⟨h', hget', hcases⟩ := hold hget
    refine ⟨h', hget', ?_⟩
    cases hcases with
    | same hsame =>
      rw [hget, Option.some.injEq] at hsame
      exact hsame ▸ hread
    | accepted hi => exact absurd (Table.lt_of_getElem? hget) (hi ▸ lt_irrefl _)
    | moved _ hget₁ _ hunread =>
      rw [hget, Option.some.injEq] at hget₁
      refine (Bool.not_eq_true _).mp fun hu => ?_
      rw [← hget₁, hread] at hunread
      exact Bool.false_ne_true (hunread hu)
  · obtain ⟨r, spawned, rfl, -⟩ := Daemon.of_mem_asks hq
    obtain ⟨-, hst⟩ := Daemon.Step.of_step hs
    cases hst with
    | handler hget =>
      obtain ⟨h', hget', hcases⟩ := hold hget
      refine ⟨h', hget', ?_⟩
      cases hcases with
      | same _ hne => exact absurd rfl (hne _)
      | accepted hi => exact absurd (Table.lt_of_getElem? hget) (hi ▸ lt_irrefl _)
      | moved hl _ _ _ hreads =>
        cases hl
        exact (hreads _ _ rfl).2

/-- A handler that reads its request had none before. -/
theorem Ok.fresh (h : Ok x) {l : DaemonLabel} {d : Daemon}
    (hs : x.daemon.step timeout l = some d) {q : Request} (hq : q ∈ x.daemon.asks l) :
    ∀ q' ∈ x.asked, q'.handler ≠ q.handler := by
  intro q' hq' heq
  obtain ⟨r, spawned, rfl, -⟩ := Daemon.of_mem_asks hq
  obtain ⟨h₀, hget, hread⟩ := h.unread q' hq'
  rw [heq] at hget
  obtain ⟨pc, -, -, hreads⟩ := Daemon.reads_of_handlerStep (Daemon.handlerStep_of_step hs hget)
  rw [(hreads _ _ rfl).1] at hread
  cases hread

theorem Ok.started_lt_step (h : Ok x) {l : DaemonLabel} {d : Daemon}
    (hs : x.daemon.step timeout l = some d) :
    ∀ q ∈ x.asked ++ x.daemon.asks l, ∀ id, q.started = some id → id < d.sessions.length := by
  intro q hq id hid
  obtain ⟨-, hst⟩ := Daemon.Step.of_step hs
  rcases List.mem_append.mp hq with hq | hq
  · exact (h.started_lt q hq id hid).trans_le hst.length_le
  · obtain ⟨r, spawned, rfl, hstarted⟩ := Daemon.of_mem_asks hq
    obtain ⟨rfl, _, _, _, _, rfl, rfl⟩ := hstarted id hid
    cases hst with
    | handler hget =>
      rw [Daemon.length_of_exec (Daemon.handlerStep_of_step hs hget)]
      exact Nat.lt_succ_self _

theorem Ok.step (h : Ok x) {l : DaemonLabel} (hs : x.step timeout l = some x') : Ok x' := by
  obtain ⟨d, hd, rfl⟩ := Option.map_eq_some_iff.mp hs
  have hg := goes hd
  refine ⟨fun i h' hget => ?_, h.unread_step hd, ?_, h.started_lt_step hd, ?_,
    fun p hp => List.mem_append_right _ hp⟩
  · cases Daemon.handlerCases hd hget with
    | same hget => exact (h.confined i h' hget).mono hg
    | accepted _ hp => exact confined_of_no_session (by rw [hp]; rfl)
    | moved hl hget₀ hh =>
      subst hl
      exact (h.confined i _ hget₀).moved hh hg (fun _ => List.mem_append_right _) h.logs
  · rw [List.map_append]
    refine List.nodup_append.mpr ⟨h.once, ?_, ?_⟩
    · rcases x.daemon.asks_cases l with hasks | ⟨q, hasks⟩
      · rw [hasks]
        exact List.nodup_nil
      · rw [hasks]
        exact List.nodup_singleton _
    · rintro _ hi _ hj rfl
      obtain ⟨q', hq', rfl⟩ := List.mem_map.mp hi
      obtain ⟨q, hq, heq⟩ := List.mem_map.mp hj
      exact h.fresh hd hq q' hq' heq.symm
  · rw [List.filterMap_append]
    refine List.nodup_append.mpr ⟨h.startedOnce, ?_, ?_⟩
    · rcases x.daemon.asks_cases l with hasks | ⟨q, hasks⟩
      · rw [hasks]
        exact List.nodup_nil
      · rw [hasks, List.filterMap_cons]
        split
        · exact List.nodup_nil
        · exact List.nodup_singleton _
    · rintro id hi _ hj rfl
      obtain ⟨q', hq', hid'⟩ := List.mem_filterMap.mp hi
      obtain ⟨q, hq, hid⟩ := List.mem_filterMap.mp hj
      obtain ⟨r, spawned, -, hnew⟩ := Daemon.of_mem_asks hq
      exact absurd (h.started_lt q' hq' id hid') ((hnew id hid).1 ▸ lt_irrefl _)

theorem Ok.of_reachable (h : (machine timeout).Reachable x) : Ok x := by
  refine h.invariant (P := Ok) ?_ fun _ _ _ hx _ hs => hx.step hs
  rintro x ⟨restored, -, -, rfl⟩
  exact ⟨nofun, nofun, List.nodup_nil, nofun, List.nodup_nil, fun _ hp => hp⟩

end Audit

/-- What the connections of a daemon have to do with its sessions. -/
structure Isolated (timeout : Nat) (x : Audit) : Prop where
  once : (x.asked.map (·.handler)).Nodup
  startedOnce : (x.asked.filterMap (·.started)).Nodup
  entitled : ∀ (i : Nat) (h : Handler) (id : Nat), x.daemon.handlers[i]? = some h →
    h.pc.session? = some id → x.Entitled i id
  own : ∀ (i : Nat) (h : Handler) (id : Nat) (a : Attach) (e : Entry) (w : Wire),
    x.daemon.handlers[i]? = some h → h.pc = .attached id a → x.daemon.sessions[id]? = some e →
    a.sending e.session = some w → x.Own id w
  frame : ∀ (i : Nat) (e : HandlerEvent) (x' : Audit), x.step timeout (.handler i e) = some x' →
    ∀ id < x.daemon.sessions.length, ¬ x'.Entitled i id →
      x'.daemon.sessions[id]? = x.daemon.sessions[id]?

namespace Audit

variable {timeout : Nat} {x x' : Audit}

theorem Ok.own (h : Ok x) {i id : Nat} {hd : Handler} {a : Attach} {e : Entry} {w : Wire}
    (hget : x.daemon.handlers[i]? = some hd) (hp : hd.pc = .attached id a)
    (hw : a.sending e.session = some w) : x.Own id w := by
  have hc := h.confined i hd hget
  unfold Attach.sending at hw
  split at hw
  · cases hw
    have htoken := hc.token id a hp
    refine .started ?_
    split_ifs
    · exact .inr htoken.symm
    · exact .inl rfl
  · rename_i m rest hpc
    cases hw
    refine .logged (hc.replay id a hp m ?_)
    rw [Attach.replaying, hpc]
    exact List.mem_cons_self
  · cases hw
    exact .ack
  · cases hw
    exact .ping
  · cases hw

/-- A handler's step only touches the session it holds. -/
theorem Ok.frame (h : Ok x) {i : Nat} {e : HandlerEvent}
    (hs : x.step timeout (.handler i e) = some x') {id : Nat}
    (hlt : id < x.daemon.sessions.length) (hno : ¬ x'.Entitled i id) :
    x'.daemon.sessions[id]? = x.daemon.sessions[id]? := by
  obtain ⟨d, hd, rfl⟩ := Option.map_eq_some_iff.mp hs
  have hg := goes hd
  obtain ⟨-, hst⟩ := Daemon.Step.of_step hd
  cases hst with
  | @handler _ hdl _ _ hget hhs =>
    -- What it holds, it may touch.
    have hother : ∀ {held : Nat} {f : Entry → Entry}, hdl.pc.session? = some held →
        (x.daemon.sessions.modify held f)[id]? = x.daemon.sessions[id]? := by
      intro held f hheld
      have hne : held ≠ id := by
        rintro rfl
        exact hno (((h.confined i hdl hget).entitled held hheld).mono hg.asked hg.tokens)
      exact List.getElem?_modify_ne _ _ hne
    cases hhs with
    | exec => exact List.getElem?_append_left hlt
    | attach hfound => exact hother hfound
    | serve hp => exact hother (by rw [hp]; rfl)
    | drop hguard => exact hother (Daemon.session_of_guard hguard)
    | _ => rfl

end Audit

/-- **Isolation of sessions**, in every run. -/
theorem session_isolation (timeout : Nat) (x : Audit) (h : (Audit.machine timeout).Reachable x) :
    Isolated timeout x := by
  have hok := Audit.Ok.of_reachable h
  exact ⟨hok.once, hok.startedOnce,
    fun i hd id hget hid => (hok.confined i hd hget).entitled id hid,
    fun i hd id a e w hget hp _ hw => hok.own hget hp hw,
    fun i e x' hs id hlt hno => hok.frame hs hlt hno⟩

/-- One client comes back to its session, and another one starts a command. -/
def twoClientsRun : List DaemonLabel :=
  Daemon.resumes 0 "7-1-1" ++ [.handler 0 .attach] ++ Daemon.greets 1 ++
    [.handler 1 (.request (.exec "make" true false)
      (some ⟨"8-2-0", .pipe 4, .pipe 5, .pipe 6, .pipe 7, 9⟩)),
     .handler 1 .attach, .handler 0 (.serve .sent), .handler 1 (.serve .sent)]

def twoClients : Audit :=
  ((Audit.machine 100).run (.start [.away "7-1-0" false, .away "7-1-1" false])
    twoClientsRun).get (by decide +kernel)

theorem twoClients_isolated : Isolated 100 twoClients ∧ twoClients.Entitled 0 1 ∧
    twoClients.Entitled 1 2 := by
  have hreach : (Audit.machine 100).Reachable twoClients := by
    refine Machine.reachable_of_run ⟨_, ?_, ?_, rfl⟩ (Option.some_get _).symm
    · decide
    · simp [Entry.restored_away]
  have hiso := session_isolation 100 twoClients hreach
  have hheld : ∀ i id, (twoClients.daemon.handlers[i]?.bind (·.pc.session?)) = some id →
      twoClients.Entitled i id := by
    intro i id hid
    obtain ⟨h, hget, hid⟩ := Option.bind_eq_some_iff.mp hid
    exact hiso.entitled i h id hget hid
  exact ⟨hiso, hheld 0 1 (by decide +kernel), hheld 1 2 (by decide +kernel)⟩

end HerdrEternal
