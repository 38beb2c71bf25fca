import Mathlib.Data.List.Nodup
import HerdrEternal.Lib.Table
import HerdrEternal.Server.Daemon

/-!
# Tokens, and what a handler holds

The sessions of a daemon have different tokens, in the registry or not: `start_session` is only run
with a new one, and no step changes or drops one (`nodup_tokens`, `Step.token_kept`). `Holding` says
which session a handler holds after a step, by where it got it from: it started the session, looked
it up with the token of its request, or held it before.
-/

namespace HerdrEternal

namespace Attach

theorem token_replayNext (a : Attach) (n : Nat) (ms : List Msg) :
    (a.replayNext n ms).token = a.token := by
  cases ms with
  | nil =>
    unfold replayNext afterReplay
    split_ifs <;> rfl
  | cons m ms => rfl

theorem Step.token {quic : Bool} {a a' : Attach} {s s' : Session} {e : AttachEvent}
    (h : a.Step quic s e a' s') : a'.token = a.token := by
  cases h <;> first | rfl | exact token_replayNext _ _ _

theorem token_of_started {a : Attach} {s : Session} {token : Option String}
    (hp : a.pc = .sendStarted) (h : a.sending s = some (.msg (.started token))) :
    token = none ∨ token = some a.token := by
  simp only [sending, hp] at h
  cases h
  split_ifs
  · exact .inr rfl
  · exact .inl rfl

end Attach

namespace Daemon

variable {timeout : Nat} {d d' : Daemon}

/-- The tokens of the sessions, in the registry or not. -/
def tokens (d : Daemon) : List String := d.sessions.map (·.token)

/-- A step gives at most one new token, and changes none. -/
theorem Step.tokens {l : DaemonLabel} (hs : Step timeout d l d') :
    d'.tokens = d.tokens ∨ ∃ token, d.owner token = none ∧ d'.tokens = d.tokens ++ [token] := by
  have hmodify : ∀ {id : Nat} {f : Entry → Entry}, d'.sessions = d.sessions.modify id f →
      (∀ e, (f e).token = e.token) → d'.tokens = d.tokens := by
    intro id f hd hf
    rw [Daemon.tokens, hd]
    exact Table.map_modify_of_eq hf
  cases hs with
  | handler hget hs =>
    cases hs with
    | exec hp hfresh => exact .inr ⟨_, hfresh, List.map_append⟩
    | attach => exact .inl (hmodify rfl fun _ => rfl)
    | serve => exact .inl (hmodify rfl fun _ => rfl)
    | drop => exact .inl (hmodify rfl fun _ => rfl)
    | _ => exact .inl rfl
  | task => exact .inl (hmodify rfl fun _ => rfl)
  | sweepRemove => exact .inl (hmodify rfl fun _ => rfl)
  | sweepAbort => exact .inl (hmodify rfl fun _ => rfl)
  | ask => exact .inl (hmodify rfl fun _ => rfl)
  | reply => exact .inl (hmodify rfl fun _ => rfl)
  | _ => exact .inl rfl

theorem Step.nodup_tokens {l : DaemonLabel} (hs : Step timeout d l d') (h : d.tokens.Nodup) :
    d'.tokens.Nodup := by
  obtain heq | ⟨token, hfresh, heq⟩ := hs.tokens
  · rw [heq]
    exact h
  · rw [heq]
    refine List.nodup_append.mpr ⟨h, List.nodup_singleton _, ?_⟩
    intro t ht t' ht' heq
    obtain ⟨e, he, rfl⟩ := List.mem_map.mp ht
    rw [List.mem_singleton.mp ht'] at heq
    simpa [heq] using List.findIdx?_eq_none_iff.mp hfresh e he

theorem nodup_tokens (h : (daemonMachine timeout).Reachable d) : d.tokens.Nodup := by
  refine h.invariant ?_ fun _ _ _ h _ hs => (Step.of_step hs).2.nodup_tokens h
  rintro _ ⟨restored, hnd, -, rfl⟩
  exact hnd

theorem lookup_token {token : String} {id : Nat} (h : d.lookup token = some id) :
    d.tokens[id]? = some token := by
  obtain ⟨hid, hp, -⟩ := List.findIdx?_eq_some_iff_getElem.mp h
  simp only [Bool.and_eq_true, beq_iff_eq] at hp
  rw [tokens, List.getElem?_map, List.getElem?_eq_getElem hid, Option.map_some, hp.2]

theorem Step.token_kept {l : DaemonLabel} (hs : Step timeout d l d') {id : Nat} {token : String}
    (h : d.tokens[id]? = some token) : d'.tokens[id]? = some token := by
  obtain heq | ⟨new, -, heq⟩ := hs.tokens
  · rw [heq, h]
  · rw [heq, List.getElem?_append_left (Table.lt_of_getElem? h), h]

theorem Step.handler_kept {l : DaemonLabel} (hs : Step timeout d l d') {j : Nat} {h : Handler}
    (hget : d.handlers[j]? = some h) (hne : ∀ e, l ≠ .handler j e) :
    d'.handlers[j]? = some h := by
  cases hs with
  | @handler i h' e _ hget' hs =>
    have hij : i ≠ j := by
      rintro rfl
      exact hne e rfl
    cases hs <;> exact (List.getElem?_set_ne hij).trans hget
  | accept => exact (List.getElem?_append_left (Table.lt_of_getElem? hget)).trans hget
  | _ => exact hget

/-- What a handler holds after a step. -/
inductive Holding (d : Daemon) (h : Handler) : HandlerEvent → HandlerPc → Prop
  | nothing {e : HandlerEvent} {pc : HandlerPc} (hno : pc.session? = none) : Holding d h e pc
  | started {command : String} {resumable forwardAgent : Bool} {sp : Spawned} :
      Holding d h (.request (.exec command resumable forwardAgent) (some sp))
        (.found d.sessions.length 0)
  | resumed {token : String} {n id : Nat} {spawned : Option Spawned}
      (hfind : d.lookup token = some id) :
      Holding d h (.request (.resume token n) spawned) (.found id n)
  | agent {token : String} {id : Nat} {spawned : Option Spawned}
      (hfind : d.lookup token = some id) :
      Holding d h (.request (.agentChannel token) spawned) (.foundAgent id)
  | attached {id n : Nat} {entry : Entry} (hp : h.pc = .found id n)
      (hget : d.sessions[id]? = some entry) :
      Holding d h .attach (.attached id (.start entry.token n))
  | agentAttached {id : Nat} (hp : h.pc = .foundAgent id) : Holding d h .attach (.agent id)
  | served {id : Nat} {a a' : Attach} {event : AttachEvent} {entry : Entry} {s : Session}
      (hp : h.pc = .attached id a) (hget : d.sessions[id]? = some entry)
      (hs : a.Step h.quic entry.session event a' s) : Holding d h (.serve event) (.attached id a')

theorem handlerStep_of_step {i : Nat} {h : Handler} {e : HandlerEvent}
    (hs : d.step timeout (.handler i e) = some d') (hh : d.handlers[i]? = some h) :
    d.handlerStep i h e = some d' := by
  unfold step at hs
  by_cases hex : d.exited = true
  · rw [if_pos hex] at hs
    cases hs
  · rw [if_neg hex] at hs
    simpa only [hh, Option.bind_some] using hs

theorem Holding.of_onRequest {i : Nat} {h : Handler} {spawned : Option Spawned}
    {r : ExecRequest Nat} (hs : d.onRequest i h spawned r = some d') :
    ∃ pc, d'.handlers = d.handlers.set i { h with pc := pc } ∧
      Holding d h (.request r spawned) pc := by
  cases r with
  | exec command resumable forwardAgent =>
    cases spawned with
    | none =>
      cases hs
      exact ⟨_, rfl, .nothing rfl⟩
    | some sp =>
      simp only [onRequest] at hs
      split_ifs at hs
      cases hs
      exact ⟨_, rfl, .started⟩
  | resume token lastSeqSeen =>
    simp only [onRequest] at hs
    split at hs
    · cases hs
      exact ⟨_, rfl, .resumed ‹_›⟩
    · cases hs
      exact ⟨_, rfl, .nothing rfl⟩
  | agentChannel token =>
    simp only [onRequest] at hs
    split at hs
    · rename_i id hfind
      split_ifs at hs
      · cases hs
        exact ⟨_, rfl, .agent hfind⟩
      · cases hs
        exact ⟨_, rfl, .nothing rfl⟩
    · cases hs
      exact ⟨_, rfl, .nothing rfl⟩

theorem Holding.of_handlerStep {i : Nat} {h : Handler} {e : HandlerEvent}
    (hs : d.handlerStep i h e = some d') :
    ∃ pc, d'.handlers = d.handlers.set i { h with pc := pc } ∧ Holding d h e pc := by
  obtain ⟨quic, pc⟩ := h
  unfold handlerStep at hs
  dsimp only at hs
  split at hs
  · cases hs
    exact ⟨_, rfl, .nothing rfl⟩
  · cases hs
    exact ⟨_, rfl, .nothing (by split_ifs <;> rfl)⟩
  · cases hs
    exact ⟨_, rfl, .nothing rfl⟩
  · cases hs
    exact ⟨_, rfl, .nothing rfl⟩
  · cases hs
    exact ⟨_, rfl, .nothing rfl⟩
  · cases hs
    exact ⟨_, rfl, .nothing rfl⟩
  · exact of_onRequest hs
  · obtain ⟨entry, hget, rfl⟩ := Option.map_eq_some_iff.mp hs
    exact ⟨_, rfl, .attached rfl hget⟩
  · cases hs
    exact ⟨_, rfl, .agentAttached rfl⟩
  · obtain ⟨entry, hget, hs⟩ := Option.bind_eq_some_iff.mp hs
    obtain ⟨⟨a', s⟩, hstep, rfl⟩ := Option.map_eq_some_iff.mp hs
    exact ⟨_, rfl, .served rfl hget (.of_step hstep)⟩
  · split_ifs at hs
    cases hs
    exact ⟨_, rfl, .nothing rfl⟩
  · cases hs
    exact ⟨_, rfl, .nothing rfl⟩
  · cases hs
    exact ⟨_, rfl, .nothing (by split_ifs <;> rfl)⟩
  · cases hs

end Daemon

end HerdrEternal
