import HerdrEternal.System.Dialing

/-!
# A command is started at most once

A client does not know whether a request that got no answer was carried out. `run_exec` asks for its
command on its first connection only: until it has a resume token every failure ends it, and with
one it asks for that session.

**Theorem (`exec_once`).** In every reachable state the daemon started at most one session for the
client, with the client's command. The client's resume token is that session's, its connections hold
no other session, and if it relays or returned an exit code then there is one.

The invariant counts the requests that are on the way together with the sessions started
(`OnceOk.asked`).
-/

namespace HerdrEternal

namespace Dialing

variable {timeout : Nat} {x x' : Dialing}

/-! ## The invariant -/

/-- The client may still ask for its command. -/
def mayAsk (x : Dialing) : Bool :=
  x.client.resumeToken.isNone && x.client.pc.dials &&
    match x.client.pc, x.dial with
    | .connecting, .welcome _ | .connecting, .reply _ => false
    | _, _ => true

/-- The Exec requests on the way. -/
def execs (x : Dialing) : Nat := (x.links.map Link.execs).sum

/-- The token of a session that was started for the client. -/
def Ours (x : Dialing) (token : String) : Prop :=
  ∃ s ∈ x.started, x.daemon.tokens[s.1]? = some token

/-- What a handler of the client holds. -/
def Holds (x : Dialing) (pc : HandlerPc) : Prop :=
  ∀ id, pc.session? = some id → ∃ s ∈ x.started, s.1 = id ∧
    ∀ a, pc = .attached id a → x.daemon.tokens[id]? = some a.token

/-- What is on a connection, and what its handler holds. -/
structure LinkOk (x : Dialing) (l : Link) : Prop where
  asks : ∀ r, .request r ∈ l.toServer →
    r = .exec x.command true x.forwardAgent ∨ ∃ token n, r = .resume token n ∧ x.Ours token
  told : ∀ token, .started token ∈ l.toClient →
    x.started ≠ [] ∧ ∀ t, token = some t → x.Ours t
  handler : ∀ i, l.handler = some i → ∃ h, x.daemon.handlers[i]? = some h ∧ x.Holds h.pc

structure OnceOk (x : Dialing) : Prop where
  nodup : x.daemon.tokens.Nodup
  asked : x.execs + x.started.length ≤ 1
  unasked : x.mayAsk = true → x.execs + x.started.length = 0
  command : ∀ s ∈ x.started, s.2 = x.command
  links : ∀ l ∈ x.links, x.LinkOk l
  token : ∀ token, x.client.resumeToken = some token → x.Ours token
  served : x.client.pc.served = true → x.started ≠ []

/-- What is known once stays so. -/
structure Goes (x x' : Dialing) : Prop where
  command : x'.command = x.command
  forwardAgent : x'.forwardAgent = x.forwardAgent
  started : ∀ s ∈ x.started, s ∈ x'.started
  tokens : ∀ (id : Nat) token, x.daemon.tokens[id]? = some token →
    x'.daemon.tokens[id]? = some token

theorem Goes.of_eq (hc : x'.command = x.command) (hf : x'.forwardAgent = x.forwardAgent)
    (hs : x'.started = x.started) (hd : x'.daemon = x.daemon) : Goes x x' :=
  ⟨hc, hf, fun _ h => hs ▸ h, fun _ _ h => hd ▸ h⟩

theorem Ours.mono {token : String} (h : x.Ours token) (hg : Goes x x') : x'.Ours token := by
  obtain ⟨s, hs, ht⟩ := h
  exact ⟨s, hg.started s hs, hg.tokens _ _ ht⟩

theorem Holds.mono {pc : HandlerPc} (h : x.Holds pc) (hg : Goes x x') : x'.Holds pc := by
  intro id hid
  obtain ⟨s, hs, heq, ha⟩ := h id hid
  exact ⟨s, hg.started s hs, heq, fun a hpc => hg.tokens _ _ (ha a hpc)⟩

theorem started_ne_nil (h : x.started ≠ []) (hg : Goes x x') : x'.started ≠ [] := by
  obtain ⟨s, hs⟩ := List.exists_mem_of_ne_nil _ h
  exact List.ne_nil_of_mem (hg.started s hs)

/-- A connection on which nothing new is said, while the handlers go on. -/
theorem LinkOk.mono {l l' : Link} (h : x.LinkOk l) (hg : Goes x x')
    (hserver : ∀ r, .request r ∈ l'.toServer → .request r ∈ l.toServer)
    (hclient : ∀ t, .started t ∈ l'.toClient → .started t ∈ l.toClient)
    (hh : ∀ i, l'.handler = some i → ∃ h, x'.daemon.handlers[i]? = some h ∧ x'.Holds h.pc) :
    x'.LinkOk l' where
  asks r hr := by
    obtain rfl | ⟨token, n, rfl, ht⟩ := h.asks r (hserver r hr)
    · exact .inl (by rw [hg.command, hg.forwardAgent])
    · exact .inr ⟨token, n, rfl, ht.mono hg⟩
  told token ht := by
    obtain ⟨hne, hours⟩ := h.told token (hclient token ht)
    exact ⟨started_ne_nil hne hg, fun t heq => (hours t heq).mono hg⟩
  handler := hh

theorem Step.goes {label : DialLabel} (hs : Step timeout x label x') : Goes x x' := by
  cases hs with
  | accepted hl hs => exact ⟨rfl, rfl, fun _ h => h, fun _ _ h => hs.token_kept h⟩
  | handler hl hi hh hx hs =>
    exact ⟨rfl, rfl, fun _ h => List.mem_append_left _ h,
      fun _ _ h => (Daemon.Step.of_step hs).2.token_kept h⟩
  | server hs => exact ⟨rfl, rfl, fun _ h => h, fun _ _ h => hs.token_kept h⟩
  | _ => exact .of_eq rfl rfl rfl rfl

/-- A handler that takes its requests from the client's connections holds no other session. -/
theorem Holds.step {h : Handler} {e : HandlerEvent} {pc : HandlerPc} (hx : x.Holds h.pc)
    (hh : x.daemon.Holding h e pc) (hnd : x.daemon.tokens.Nodup) (hg : Goes x x')
    (hasks : ∀ r spawned, e = .request r spawned →
      r = .exec x.command true x.forwardAgent ∨ ∃ token n, r = .resume token n ∧ x.Ours token)
    (hstarts : ∀ s ∈ e.starts x.daemon, s ∈ x'.started) : x'.Holds pc := by
  intro id hid
  cases hh with
  | nothing hno =>
    rw [hno] at hid
    cases hid
  | started =>
    cases hid
    exact ⟨_, hstarts _ List.mem_cons_self, rfl, fun a ha => by cases ha⟩
  | resumed hfind =>
    cases hid
    obtain hr | ⟨token, n, hr, s, hs, ht⟩ := hasks _ _ rfl
    · cases hr
    cases hr
    have hlookup := Daemon.lookup_token hfind
    have heq : s.1 = id :=
      (List.getElem?_inj (Table.lt_of_getElem? ht) hnd).mp (ht.trans hlookup.symm)
    exact ⟨s, hg.started s hs, heq, fun a ha => by cases ha⟩
  | agent =>
    obtain hr | ⟨token, n, hr, -⟩ := hasks _ _ rfl <;> cases hr
  | attached hp hget =>
    cases hid
    obtain ⟨s, hs, heq, -⟩ := hx id (by rw [hp]; rfl)
    refine ⟨s, hg.started s hs, heq, fun a ha => hg.tokens _ _ ?_⟩
    cases ha
    rw [Daemon.tokens, List.getElem?_map, hget]
    rfl
  | agentAttached hp =>
    cases hid
    obtain ⟨s, hs, heq, -⟩ := hx id (by rw [hp]; rfl)
    exact ⟨s, hg.started s hs, heq, fun a ha => by cases ha⟩
  | served hp hget hstep =>
    cases hid
    obtain ⟨s, hs, heq, htoken⟩ := hx id (by rw [hp]; rfl)
    refine ⟨s, hg.started s hs, heq, fun a ha => hg.tokens _ _ ?_⟩
    cases ha
    rw [hstep.token]
    exact htoken _ hp

/-- A step of the daemon keeps what the other handlers of the client hold. -/
theorem LinkOk.others {label : DaemonLabel} {l : Link} (h : x.LinkOk l)
    (hs : Daemon.Step timeout x.daemon label x'.daemon) (hg : Goes x x')
    (hother : ∀ i e, label = .handler i e → l.handler ≠ some i) : x'.LinkOk l := by
  refine h.mono hg (fun _ hr => hr) (fun _ ht => ht) fun i hi => ?_
  obtain ⟨h', hget, hholds⟩ := h.handler i hi
  exact ⟨h', hs.handler_kept hget fun e he => hother i e he hi, hholds.mono hg⟩

/-- The client or its end of a connection goes on. -/
theorem LinkOk.mono_client {l : Link} (h : x.LinkOk l) (hg : Goes x x')
    (hd : x'.daemon = x.daemon) : x'.LinkOk l := by
  refine h.mono hg (fun _ hr => hr) (fun _ ht => ht) fun i hi => ?_
  obtain ⟨h', hget, hholds⟩ := h.handler i hi
  exact ⟨h', hd ▸ hget, hholds.mono hg⟩

theorem execs_setLink {k : Nat} {l : Link} (l' : Link) (hl : x.links[k]? = some l) :
    (x.setLink k l').execs + l.execs = x.execs + l'.execs :=
  Table.sum_map_set_add hl

theorem OnceOk.count (h : OnceOk x) (hn : x'.execs + x'.started.length ≤ x.execs + x.started.length)
    (hask : x'.mayAsk = true → x.mayAsk = true) :
    x'.execs + x'.started.length ≤ 1 ∧
      (x'.mayAsk = true → x'.execs + x'.started.length = 0) := by
  have := h.asked
  exact ⟨by omega, fun hm => by have := h.unasked (hask hm); omega⟩

theorem OnceOk.onward (h : OnceOk x) (hg : Goes x x') (hc : x'.client = x.client)
    (hnd : x'.daemon.tokens.Nodup) (hcommand : ∀ s ∈ x'.started, s.2 = x'.command)
    (hcount : x'.execs + x'.started.length ≤ 1 ∧
      (x'.mayAsk = true → x'.execs + x'.started.length = 0))
    (hlinks : ∀ l ∈ x'.links, x'.LinkOk l) : OnceOk x' where
  nodup := hnd
  asked := hcount.1
  unasked := hcount.2
  command := hcommand
  links := hlinks
  token t ht := (h.token t (hc ▸ ht)).mono hg
  served hp := started_ne_nil (h.served (hc ▸ hp)) hg

/-- One connection is changed, and the others are as before. -/
theorem links_set {k : Nat} {l' : Link} (hl' : x'.LinkOk l')
    (hothers : ∀ l ∈ x.links, x'.LinkOk l) : ∀ l ∈ (x.setLink k l').links, x'.LinkOk l := by
  intro l hl
  obtain hl | rfl := List.mem_or_eq_of_mem_set hl
  · exact hothers l hl
  · exact hl'

theorem mayAsk_of_ne (ht : x.client.resumeToken = none) (hd : x.client.pc.dials = true)
    (hne : x.client.pc ≠ .connecting) : x.mayAsk = true := by
  unfold mayAsk
  rw [ht, hd]
  split
  · exact absurd ‹_› hne
  · exact absurd ‹_› hne
  · rfl

theorem OnceOk.client (h : OnceOk x) {quic : Bool} {e : ClientEvent} {c : Client}
    (hs : Client.Step quic x.client e c)
    (hno : x.client.pc = .connecting → ∃ err, e = .connectFailed err) :
    OnceOk { x with client := c, dial := .connect } := by
  obtain ⟨htoken, hserved, hdials⟩ := hs.unanswered hno
  have hg : Goes x { x with client := c, dial := .connect } := .of_eq rfl rfl rfl rfl
  have hask : mayAsk { x with client := c, dial := .connect } = true → x.mayAsk = true := by
    intro hm
    simp only [mayAsk, Bool.and_eq_true, Option.isNone_iff_eq_none] at hm
    obtain ⟨hd, hne⟩ := hdials (htoken ▸ hm.1.1) hm.1.2
    exact mayAsk_of_ne (htoken ▸ hm.1.1) hd hne
  have hn : execs { x with client := c, dial := .connect } + x.started.length ≤
      x.execs + x.started.length := le_rfl
  obtain ⟨hasked, hunasked⟩ := h.count hn hask
  exact {
    nodup := h.nodup
    asked := hasked
    unasked := hunasked
    command := h.command
    links := fun l hl => (h.links l hl).mono_client hg rfl
    token := fun t ht => (h.token t (htoken ▸ ht)).mono hg
    served := fun hp => h.served (hserved hp) }

theorem OnceOk.replied (h : OnceOk x) {k : Nat} {l : Link} {r : Reply} {rest : List Reply}
    {m : Msg} (hl : x.links[k]? = some l) (hto : l.toClient = r :: rest)
    (hr : r.answer? = some m) :
    OnceOk { x.setLink k { l with toClient := rest } with
      client := x.client.onReply m, dial := .connect } := by
  have hlink := h.links l (List.mem_of_getElem? hl)
  have hdials : (x.client.onReply m).pc.dials = false := by
    cases r with
    | welcome => cases hr
    | started token =>
      cases hr
      exact Client.dials_resendNext _ _
    | denied reason =>
      cases hr
      rfl
  have hexecs := execs_setLink { l with toClient := rest } hl
  have hcount := h.asked
  refine ⟨h.nodup, ?_, fun hm => ?_, h.command, ?_, fun t ht => ?_, fun hp => ?_⟩
  · show (x.setLink k { l with toClient := rest }).execs + x.started.length ≤ 1
    have : Link.execs { l with toClient := rest } = l.execs := rfl
    omega
  · simp [mayAsk, hdials] at hm
  · refine links_set ?_ fun l hl => (h.links l hl).mono_client (.of_eq rfl rfl rfl rfl) rfl
    refine hlink.mono (.of_eq rfl rfl rfl rfl) (fun _ hr => hr) (fun t ht => ?_) hlink.handler
    rw [hto]
    exact List.mem_cons_of_mem _ ht
  · cases r with
    | welcome => cases hr
    | started token =>
      cases hr
      rcases Client.token_onReply ht with ht | rfl
      · exact h.token t ht
      · exact (hlink.told _ (by rw [hto]; exact List.mem_cons_self)).2 t rfl
    | denied reason =>
      cases hr
      exact h.token t ht
  · cases r with
    | welcome => cases hr
    | started token => exact (hlink.told token (by rw [hto]; exact List.mem_cons_self)).1
    | denied reason =>
      cases hr
      cases hp

theorem OnceOk.asks_request (h : OnceOk x) : x.request = .exec x.command true x.forwardAgent ∨
    ∃ token n, x.request = .resume token n ∧ x.Ours token := by
  unfold request
  split
  · rename_i token ht
    exact .inr ⟨token, _, rfl, h.token token ht⟩
  · exact .inl rfl

/-- The request goes out. It is an Exec request only if none went out before. -/
theorem OnceOk.requestSent (h : OnceOk x) {k : Nat} {l : Link}
    (hp : x.client.pc = .connecting) (hd : x.dial = .request k) (hl : x.links[k]? = some l) :
    OnceOk { x.setLink k (l.ask (.request x.request)) with dial := .welcome k } := by
  have hlink := h.links l (List.mem_of_getElem? hl)
  have hg : Goes x { x.setLink k (l.ask (.request x.request)) with dial := .welcome k } :=
    .of_eq rfl rfl rfl rfl
  have hexecs := execs_setLink (l.ask (.request x.request)) hl
  refine h.onward hg rfl h.nodup h.command ⟨?_, fun hm => ?_⟩
    (links_set ?_ fun l hl => (h.links l hl).mono_client hg rfl)
  · show (x.setLink k (l.ask (.request x.request))).execs + x.started.length ≤ 1
    cases ht : x.client.resumeToken with
    | some token =>
      have : (l.ask (.request x.request)).execs = l.execs := by
        simp [Link.execs, Link.ask, request, ht, Asked.isExec]
      have := h.asked
      omega
    | none =>
      have : (l.ask (.request x.request)).execs = l.execs + 1 := by
        simp [Link.execs, Link.ask, request, ht, Asked.isExec]
      have := h.unasked (by simp [mayAsk, ht, hp, hd, ClientPc.dials])
      omega
  · simp [mayAsk, setLink, hp] at hm
  · refine ⟨fun r hr => ?_, (hlink.mono_client hg rfl).told, (hlink.mono_client hg rfl).handler⟩
    rcases List.mem_append.mp hr with hr | hr
    · exact (hlink.mono_client hg rfl).asks r hr
    · cases List.mem_singleton.mp hr
      obtain hr | ⟨token, n, hr, ht⟩ := h.asks_request
      · exact .inl hr
      · exact .inr ⟨token, n, hr, ht.mono hg⟩

theorem OnceOk.accepted (h : OnceOk x) {k : Nat} {quic : Bool} {l : Link} {d : Daemon}
    (hl : x.links[k]? = some l) (hs : Daemon.Step timeout x.daemon (.accept quic) d) :
    OnceOk
      { x.setLink k { l with handler := some x.daemon.handlers.length } with daemon := d } := by
  have hlink := h.links l (List.mem_of_getElem? hl)
  have hg : Goes x { x.setLink k { l with handler := some x.daemon.handlers.length } with
      daemon := d } := ⟨rfl, rfl, fun _ h => h, fun _ _ h => hs.token_kept h⟩
  have hexecs := execs_setLink { l with handler := some x.daemon.handlers.length } hl
  refine h.onward hg rfl (hs.nodup_tokens h.nodup) h.command (h.count ?_ id)
    (links_set ?_ fun l hl => (h.links l hl).others hs hg (by simp))
  · show (x.setLink k { l with handler := some x.daemon.handlers.length }).execs +
      x.started.length ≤ _
    have : Link.execs { l with handler := some x.daemon.handlers.length } = l.execs := rfl
    omega
  · refine hlink.mono hg (fun _ hr => hr) (fun _ ht => ht) fun i hi => ?_
    cases hi
    cases hs
    exact ⟨⟨quic, .hello⟩, by simp, fun id hid => by cases hid⟩

theorem OnceOk.handler (h : OnceOk x) {i k : Nat} {e : HandlerEvent} {l l' : Link} {hd : Handler}
    {d : Daemon} (hl : x.links[k]? = some l) (hi : l.handler = some i)
    (hh : x.daemon.handlers[i]? = some hd) (hx : l.Exchanged x.daemon hd e l')
    (hs : x.daemon.step timeout (.handler i e) = some d) :
    OnceOk { x.setLink k l' with daemon := d, started := x.started ++ e.starts x.daemon } := by
  have hlink := h.links l (List.mem_of_getElem? hl)
  have hstep := (Daemon.Step.of_step hs).2
  obtain ⟨pc, hhandlers, hholding⟩ : ∃ pc,
      d.handlers = x.daemon.handlers.set i { hd with pc := pc } ∧ x.daemon.Holding hd e pc :=
    Daemon.Holding.of_handlerStep (Daemon.handlerStep_of_step hs hh)
  have hholds : x.Holds hd.pc := by
    obtain ⟨h', hh', hholds⟩ := hlink.handler i hi
    rw [hh] at hh'
    cases hh'
    exact hholds
  have hexecs := execs_setLink l' hl
  generalize hx' : ({ x.setLink k l' with
    daemon := d, started := x.started ++ e.starts x.daemon } : Dialing) = x'
  have hg : Goes x x' := by
    subst hx'
    exact ⟨rfl, rfl, fun _ h => List.mem_append_left _ h, fun _ _ h => hstep.token_kept h⟩
  have hpc : x'.Holds pc := by
    refine hholds.step hholding h.nodup hg (fun r sp he => hlink.asks r (hx.asked r sp he)) ?_
    subst hx'
    exact fun s hs => List.mem_append_right _ hs
  have hhandler : ∀ l ∈ x.links, ∀ j, l.handler = some j →
      ∃ h', d.handlers[j]? = some h' ∧ x'.Holds h'.pc := by
    intro l₀ hl₀ j hj
    by_cases hij : j = i
    · subst hij
      exact ⟨_, by rw [hhandlers]; exact Table.set_self hh, hpc⟩
    · obtain ⟨h', hh', hholds'⟩ := (h.links l₀ hl₀).handler j hj
      refine ⟨h', hstep.handler_kept hh' fun e' he => ?_, hholds'.mono hg⟩
      cases he
      exact hij rfl
  have hstarts : ∀ s ∈ e.starts x.daemon, s.2 = x.command := by
    intro s hs
    unfold HandlerEvent.starts at hs
    split at hs
    · cases List.mem_singleton.mp hs
      obtain hr | ⟨_, _, hr, -⟩ := hlink.asks _ (hx.asked _ _ rfl) <;> cases hr
      rfl
    · cases hs
  subst hx'
  refine h.onward hg rfl (hstep.nodup_tokens h.nodup) (fun s hs => ?_) (h.count ?_ id)
    (links_set ?_ fun l₀ hl₀ => ?_)
  · rcases List.mem_append.mp hs with hs | hs
    · exact h.command s hs
    · exact hstarts s hs
  · show (x.setLink k l').execs + (x.started ++ e.starts x.daemon).length ≤ _
    have := hx.execs
    rw [List.length_append]
    omega
  · refine ⟨fun r hr => ?_, fun t ht => ?_, fun j hj => ?_⟩
    · obtain hr | ⟨token, n, hr, ht⟩ := hlink.asks r (hx.toServer _ hr)
      · exact .inl hr
      · exact .inr ⟨token, n, hr, ht.mono hg⟩
    · rcases hx.told t ht with ht | ⟨id, a, hp, -, ht⟩
      · exact ⟨started_ne_nil (hlink.told t ht).1 hg,
          fun u hu => ((hlink.told t ht).2 u hu).mono hg⟩
      · obtain ⟨s, hs, rfl, htoken⟩ := hholds id (by rw [hp]; rfl)
        refine ⟨started_ne_nil (List.ne_nil_of_mem hs) hg, fun u hu => ?_⟩
        obtain rfl | rfl := ht <;> cases hu
        exact Ours.mono ⟨s, hs, htoken a hp⟩ hg
    · exact hhandler l (List.mem_of_getElem? hl) j (hx.handler ▸ hj)
  · exact (h.links l₀ hl₀).mono hg (fun _ hr => hr) (fun _ ht => ht) (hhandler l₀ hl₀)

theorem OnceOk.step {label : DialLabel} (h : OnceOk x) (hs : Step timeout x label x') :
    OnceOk x' := by
  have hg := hs.goes
  cases hs with
  | client hs hno => exact h.client hs hno
  | dialed hp hd =>
    refine h.onward hg rfl h.nodup h.command (h.count ?_ ?_) fun l hl => ?_
    · simp [execs, Link.opened, Link.execs]
    · simp [mayAsk, hp, hd]
    · rcases List.mem_append.mp hl with hl | hl
      · exact (h.links l hl).mono_client hg rfl
      · cases List.mem_singleton.mp hl
        exact ⟨fun r hr => (by cases hr), fun t ht => (by cases ht), fun i hi => (by cases hi)⟩
  | @helloSent token k l hp hd hl =>
    have hlink := (h.links l (List.mem_of_getElem? hl)).mono_client hg rfl
    have hexecs := execs_setLink (l.ask (.hello token)) hl
    refine h.onward hg rfl h.nodup h.command (h.count ?_ ?_)
      (links_set ?_ fun l hl => (h.links l hl).mono_client hg rfl)
    · show (x.setLink k (l.ask (.hello token))).execs + x.started.length ≤ _
      have : (l.ask (.hello token)).execs = l.execs := by
        simp [Link.execs, Link.ask, Asked.isExec]
      omega
    · simp [mayAsk, setLink, hp, hd]
    · exact hlink.mono (.of_eq rfl rfl rfl rfl) (by simp [Link.ask]) (fun _ ht => ht) hlink.handler
  | requestSent hp hd hl => exact h.requestSent hp hd hl
  | @welcomed k l rest hp hl hto =>
    have hlink := (h.links l (List.mem_of_getElem? hl)).mono_client hg rfl
    have hexecs := execs_setLink { l with toClient := rest } hl
    refine h.onward hg rfl h.nodup h.command (h.count ?_ ?_)
      (links_set ?_ fun l hl => (h.links l hl).mono_client hg rfl)
    · show (x.setLink k { l with toClient := rest }).execs + x.started.length ≤ _
      have : Link.execs { l with toClient := rest } = l.execs := rfl
      omega
    · simp [mayAsk, setLink, hp]
    · exact hlink.mono (.of_eq rfl rfl rfl rfl) (fun _ hr => hr)
        (fun t ht => by rw [hto]; exact List.mem_cons_of_mem _ ht) hlink.handler
  | replied hl hto hr => exact h.replied hl hto hr
  | accepted hl hs => exact h.accepted hl hs
  | handler hl hi hh hx hs => exact h.handler hl hi hh hx hs
  | server hs hother =>
    exact h.onward hg rfl (hs.nodup_tokens h.nodup) h.command (h.count le_rfl id)
      fun l hl => (h.links l hl).others hs hg fun i e he => hother i e he l hl

theorem onceOk_start {d : Daemon} (hd : (daemonMachine timeout).Reachable d)
    (tokenSource : TokenSource) (command : String) (forwardAgent : Bool) :
    OnceOk (.start d tokenSource command forwardAgent) where
  nodup := Daemon.nodup_tokens hd
  asked := Nat.zero_le 1
  unasked _ := rfl
  command s hs := by cases hs
  links l hl := by cases hl
  token t ht := by cases ht
  served hp := by cases hp

theorem onceOk_reachable (h : (machine timeout).Reachable x) : OnceOk x := by
  refine h.invariant ?_ fun _ _ _ h _ hs => h.step (.of_step hs)
  rintro _ ⟨d, tokenSource, command, forwardAgent, hd, rfl⟩
  exact onceOk_start hd tokenSource command forwardAgent

theorem OnceOk.started_eq (h : OnceOk x) {s : Nat × String} (hs : s ∈ x.started) :
    x.started = [s] := by
  have := h.asked
  match hx : x.started with
  | [] => rw [hx] at hs; cases hs
  | [t] =>
    rw [hx] at hs
    rw [List.mem_singleton.mp hs]
  | _ :: _ :: _ =>
    rw [hx] at this
    simp only [List.length_cons] at this
    omega

/-- **A command is started at most once**, whatever is lost on the way, and nobody but its client
decides what it is. The client's token and its connections are its session's, and a client that
relays, or returned an exit code, has one. -/
theorem exec_once (h : (machine timeout).Reachable x) :
    x.started.length ≤ 1 ∧ (∀ s ∈ x.started, s.2 = x.command) ∧
    (∀ token, x.client.resumeToken = some token →
      ∃ s e, x.started = [s] ∧ x.daemon.sessions[s.1]? = some e ∧ e.token = token) ∧
    (∀ l ∈ x.links, ∀ i h id, l.handler = some i → x.daemon.handlers[i]? = some h →
      h.pc.session? = some id → ∃ s, x.started = [s] ∧ s.1 = id) ∧
    (x.client.pc.served = true → ∃ s, x.started = [s]) := by
  have hok := onceOk_reachable h
  refine ⟨?_, hok.command, fun token ht => ?_, fun l hl i hd id hi hh hid => ?_, fun hp => ?_⟩
  · have := hok.asked
    omega
  · obtain ⟨s, hs, htoken⟩ := hok.token token ht
    rw [Daemon.tokens, List.getElem?_map] at htoken
    obtain ⟨e, he, rfl⟩ := Option.map_eq_some_iff.mp htoken
    exact ⟨s, e, hok.started_eq hs, he, rfl⟩
  · obtain ⟨h', hh', hholds⟩ := (hok.links l hl).handler i hi
    rw [hh] at hh'
    cases hh'
    obtain ⟨s, hs, heq, -⟩ := hholds id hid
    exact ⟨s, hok.started_eq hs, heq⟩
  · obtain ⟨s, hs⟩ := List.exists_mem_of_ne_nil _ (hok.served hp)
    exact ⟨s, hok.started_eq hs⟩

/-- A client that starts a command, loses its connection, and resumes on another one. -/
def redials : List DialLabel :=
  [.client false .authenticated, .dialed, .accepted 0 false, .helloSent "secret", .requestSent,
   .server (.handler 0 (.hello "secret")), .server (.handler 0 (.verified true)),
   .server (.handler 0 .welcomeSent),
   .server (.handler 0 (.request (.exec "make" true false)
     (some ⟨"ours", .pipe 0, .pipe 1, .pipe 2, .pipe 3, 7⟩))),
   .server (.handler 0 .attach), .server (.handler 0 (.serve .sent)), .welcomed, .replied,
   .client false .disconnected, .client false .wake, .client false .authenticated, .dialed,
   .helloSent "secret", .requestSent, .accepted 1 false, .server (.handler 1 (.hello "secret")),
   .server (.handler 1 (.verified true)), .server (.handler 1 .welcomeSent),
   .server (.handler 1 (.request (.resume "ours" 0) none)), .server (.handler 1 .attach),
   .server (.handler 1 (.serve .sent)), .welcomed, .replied]

def dialing : Dialing := .start (.start []) .static "make" false

def redialed : Dialing := ((machine 60).run dialing redials).getD dialing

theorem reachable_redialed : (machine 60).Reachable redialed := by
  have hrun : (machine 60).run dialing redials = some redialed := by decide +kernel
  refine Machine.reachable_of_run ⟨_, _, _, _, .init ⟨[], by simp, by simp, rfl⟩, rfl⟩ hrun

theorem redialed_once :
    (machine 60).Reachable redialed ∧ redialed.client.pc = .select ∧
    redialed.links.map (·.handler) = [some 0, some 1] ∧ redialed.started.length ≤ 1 :=
  ⟨reachable_redialed, by decide +kernel, by decide +kernel, (exec_once reachable_redialed).1⟩

end Dialing

end HerdrEternal
