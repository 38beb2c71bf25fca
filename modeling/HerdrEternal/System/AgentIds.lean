import HerdrEternal.Client.AgentChannel
import HerdrEternal.System.AgentChannels

/-!
# Stream ids

The ids that a hub gives its streams are different, as long as there are fewer than 2⁶⁴ of them. So
an id names one program's connection, and `AgentOpen` of that id is put on at most one channel, in
front of all data of the stream on that channel (`Named`).

What a stream put on the channel it was opened on is what its relay read from the program, as long
as that channel is in the slot, and a prefix of it for ever after (`RelayOk`): a channel that has
left the slot never gets back into it.
-/

namespace HerdrEternal

namespace AgentHub

variable {s s' : AgentHub} {e : HubEvent}

/-! ## Ids and announcements -/

/-- The id of each relay and the channel it was announced on. -/
def owners (s : AgentHub) : List (Option Nat × Option Nat) :=
  s.relays.map fun r => (r.pc.id?, r.channel)

/-- Ids are given out once, and announced once, before anything is said about them. -/
structure Named (owners : List (Option Nat × Option Nat)) (nextId : Nat)
    (streams : Nat → Option Nat) (log : Nat → List Msg) : Prop where
  next : nextId = (owners.countP (·.1.isSome) + 1) % 2 ^ 64
  bound : ∀ id ch, (some id, ch) ∈ owners → id ≤ owners.countP (·.1.isSome)
  unique : ∀ (i j id : Nat) (ch ch' : Option Nat), owners[i]? = some (some id, ch) →
    owners[j]? = some (some id, ch') → i = j
  refers : ∀ id i, streams id = some i → ∃ ch, owners[i]? = some (some id, ch)
  opens : ∀ id k, .agentOpen id ∈ log k → (some id, some k) ∈ owners
  carries : ∀ id k data, .agentData id data ∈ log k → ∃ ch, (some id, ch) ∈ owners
  first : ∀ (k n id : Nat), (log k)[n]? = some (.agentOpen id) →
    .agentOpen id ∉ (log k).take n ∧ dataOf id ((log k).take n) = []

variable {owners : List (Option Nat × Option Nat)} {nextId : Nat} {streams : Nat → Option Nat}
  {log : Nat → List Msg} {i id : Nat}

theorem named_start : Named [] 1 (fun _ => none) (fun _ => []) where
  next := rfl
  bound := fun id ch hmem => by cases hmem
  unique := fun i j id ch ch' hi => by cases hi
  refers := fun id i hi => by cases hi
  opens := fun id k hmem => by cases hmem
  carries := fun id k data hmem => by cases hmem
  first := fun k n id hn => by cases hn

theorem Named.owner_unique (h : Named owners nextId streams log) {ch ch' : Option Nat}
    (hi : owners[i]? = some (some id, ch)) (hmem : (some id, ch') ∈ owners) : ch' = ch := by
  obtain ⟨j, hj⟩ := List.mem_iff_getElem?.mp hmem
  cases h.unique i j id ch ch' hi hj
  cases hi.symm.trans hj
  rfl

theorem Named.accept (h : Named owners nextId streams log) :
    Named (owners ++ [(none, none)]) nextId streams log where
  next := by simpa using h.next
  bound := fun id ch hmem => by
    simpa using h.bound id ch (by simpa using hmem)
  unique := by
    intro i j id ch ch' hi hj
    rcases Table.of_concat hi with hi | ⟨-, hi⟩
    · rcases Table.of_concat hj with hj | ⟨-, hj⟩
      · exact h.unique i j id ch ch' hi hj
      · cases hj
    · cases hi
  refers := by
    intro id i hi
    obtain ⟨ch, hch⟩ := h.refers id i hi
    exact ⟨ch, by rw [List.getElem?_append_left (Table.lt_of_getElem? hch), hch]⟩
  opens := fun id k hmem => List.mem_append_left _ (h.opens id k hmem)
  carries := by
    intro id k data hmem
    obtain ⟨ch, hch⟩ := h.carries id k data hmem
    exact ⟨ch, List.mem_append_left _ hch⟩
  first := h.first

/-- The next id is larger than all that were given out. -/
theorem Named.nextId_eq (h : Named owners nextId streams log)
    (hi : owners[i]? = some (none, none)) (hlt : owners.length < 2 ^ 64) :
    nextId = owners.countP (·.1.isSome) + 1 := by
  have hcount := Table.countP_set_add (a := (some 0, none)) (p := (·.1.isSome)) hi
  have hle := List.countP_le_length (p := (·.1.isSome)) (l := owners.set i (some 0, none))
  rw [List.length_set] at hle
  simp only [Option.isSome_none, Option.isSome_some, Bool.toNat_false, Bool.toNat_true] at hcount
  rw [h.next, Nat.mod_eq_of_lt (by omega)]

/-- A relay takes the next id, which nobody has. -/
theorem Named.number (h : Named owners nextId streams log) (hi : owners[i]? = some (none, none))
    (hlt : owners.length < 2 ^ 64) :
    Named (owners.set i (some nextId, none)) ((nextId + 1) % 2 ^ 64) streams log := by
  have hnext := h.nextId_eq hi hlt
  have hcount : (owners.set i (some nextId, none)).countP (·.1.isSome) =
      owners.countP (·.1.isSome) + 1 := by
    simpa using Table.countP_set_add (a := (some nextId, none)) (p := (·.1.isSome)) hi
  have hold : ∀ {j id ch}, owners[j]? = some (some id, ch) → i ≠ j ∧ id < nextId := by
    intro j id ch hj
    have hle := h.bound id ch (List.mem_of_getElem? hj)
    refine ⟨?_, by omega⟩
    rintro rfl
    cases hi.symm.trans hj
  refine { next := ?_, bound := ?_, unique := ?_, refers := ?_, opens := ?_, carries := ?_,
           first := h.first }
  · rw [hcount, hnext]
  · intro id ch hmem
    rw [hcount]
    rcases List.mem_or_eq_of_mem_set hmem with hmem | heq
    · exact Nat.le_succ_of_le (h.bound id ch hmem)
    · cases heq
      exact Nat.le_of_eq hnext
  · intro j j' id ch ch' hj hj'
    rcases Table.of_set hj with ⟨hji, heq⟩ | ⟨-, hj⟩
    · rcases Table.of_set hj' with ⟨hji', -⟩ | ⟨-, hj'⟩
      · rw [hji, hji']
      · cases heq
        exact absurd (hold hj').2 (Nat.lt_irrefl _)
    · rcases Table.of_set hj' with ⟨-, heq⟩ | ⟨-, hj'⟩
      · cases heq
        exact absurd (hold hj).2 (Nat.lt_irrefl _)
      · exact h.unique j j' id ch ch' hj hj'
  · intro id j hj
    obtain ⟨ch, hch⟩ := h.refers id j hj
    exact ⟨ch, by rw [List.getElem?_set_ne (hold hch).1, hch]⟩
  · intro id k hmem
    exact Table.mem_set_of_ne hi (h.opens id k hmem) (by simp)
  · intro id k data hmem
    obtain ⟨ch, hch⟩ := h.carries id k data hmem
    exact ⟨ch, Table.mem_set_of_ne hi hch (by simp)⟩

theorem Named.insert (h : Named owners nextId streams log) {ch : Option Nat}
    (hi : owners[i]? = some (some id, ch)) :
    Named owners nextId (Function.update streams id (some i)) log := by
  refine { h with refers := fun id' j hj => ?_ }
  by_cases hid : id' = id
  · subst hid
    rw [Function.update_self] at hj
    cases hj
    exact ⟨ch, hi⟩
  · rw [Function.update_of_ne hid] at hj
    exact h.refers id' j hj

theorem Named.remove (h : Named owners nextId streams log) (id : Nat) :
    Named owners nextId (Function.update streams id none) log :=
  { h with refers := fun id' j hj => h.refers id' j (of_update_none hj) }

/-- A log with one more message. -/
def extend (log : Nat → List Msg) (k : Nat) (m : Msg) : Nat → List Msg :=
  Function.update log k (log k ++ [m])

theorem extend_of_ne {k j : Nat} {m : Msg} (h : j ≠ k) : extend log k m j = log j :=
  Function.update_of_ne h _ _

@[simp] theorem extend_self (log : Nat → List Msg) (k : Nat) (m : Msg) :
    extend log k m k = log k ++ [m] := Function.update_self _ _ _

theorem mem_extend {k j : Nat} {m m' : Msg} (h : m' ∈ extend log k m j) :
    m' ∈ log j ∨ j = k ∧ m' = m := by
  by_cases hj : j = k
  · subst hj
    rw [extend_self, List.mem_append, List.mem_singleton] at h
    exact h.imp_right fun hm => ⟨rfl, hm⟩
  · rw [extend_of_ne hj] at h
    exact .inl h

/-- What precedes an `AgentOpen` in an extended log. -/
theorem first_extend {k : Nat} {m : Msg}
    (h : ∀ (k n id : Nat), (log k)[n]? = some (.agentOpen id) →
      .agentOpen id ∉ (log k).take n ∧ dataOf id ((log k).take n) = [])
    (hm : ∀ id, m = .agentOpen id → .agentOpen id ∉ log k ∧ dataOf id (log k) = []) :
    ∀ (j n id : Nat), (extend log k m j)[n]? = some (.agentOpen id) →
      .agentOpen id ∉ (extend log k m j).take n ∧ dataOf id ((extend log k m j).take n) = [] := by
  intro j n id hn
  by_cases hj : j = k
  · subst hj
    rw [extend_self] at hn ⊢
    rcases Table.of_concat hn with hn | ⟨rfl, hnew⟩
    · rw [List.take_append_of_le_length (Nat.le_of_lt (Table.lt_of_getElem? hn))]
      exact h j n id hn
    · rw [List.take_left]
      exact hm id hnew.symm
  · rw [extend_of_ne hj] at hn ⊢
    exact h j n id hn

theorem Named.announce (h : Named owners nextId streams log) {k : Nat}
    (hi : owners[i]? = some (some id, none)) (hdata : dataOf id (log k) = []) :
    Named (owners.set i (some id, some k)) nextId streams (extend log k (.agentOpen id)) := by
  have hcount : (owners.set i (some id, some k)).countP (·.1.isSome) =
      owners.countP (·.1.isSome) := Table.countP_set_of_eq hi rfl
  refine { next := ?_, bound := ?_, unique := ?_, refers := ?_, opens := ?_, carries := ?_,
           first := ?_ }
  · rw [hcount, h.next]
  · intro id' ch hmem
    rw [hcount]
    rcases List.mem_or_eq_of_mem_set hmem with hmem | heq
    · exact h.bound id' ch hmem
    · cases heq
      exact h.bound id none (List.mem_of_getElem? hi)
  · intro j j' id' ch ch' hj hj'
    have hback : ∀ {j : Nat} {ch : Option Nat},
        (owners.set i (some id, some k))[j]? = some (some id', ch) →
        ∃ ch : Option Nat, owners[j]? = some (some id', ch) := by
      intro j ch hj
      rcases Table.of_set hj with ⟨hji, heq⟩ | ⟨-, hj⟩
      · cases heq
        exact ⟨none, hji ▸ hi⟩
      · exact ⟨ch, hj⟩
    obtain ⟨ch, hj⟩ := hback hj
    obtain ⟨ch', hj'⟩ := hback hj'
    exact h.unique j j' id' ch ch' hj hj'
  · intro id' j hj
    obtain ⟨ch, hch⟩ := h.refers id' j hj
    by_cases hji : i = j
    · subst hji
      cases hi.symm.trans hch
      exact ⟨some k, Table.set_self hi⟩
    · exact ⟨ch, by rw [List.getElem?_set_ne hji, hch]⟩
  · intro id' j hmem
    rcases mem_extend hmem with hmem | ⟨rfl, heq⟩
    · exact Table.mem_set_of_ne hi (h.opens id' j hmem) (by simp)
    · cases heq
      exact List.mem_of_getElem? (Table.set_self hi)
  · intro id' j data hmem
    rcases mem_extend hmem with hmem | ⟨-, heq⟩
    · obtain ⟨ch, hch⟩ := h.carries id' j data hmem
      by_cases hid : id' = id
      · subst hid
        exact ⟨some k, List.mem_of_getElem? (Table.set_self hi)⟩
      · exact ⟨ch, Table.mem_set_of_ne hi hch (by simp [hid])⟩
    · cases heq
  · refine first_extend h.first fun id' heq => ?_
    cases heq
    refine ⟨fun hmem => ?_, hdata⟩
    cases h.owner_unique hi (h.opens id k hmem)

theorem Named.send (h : Named owners nextId streams log) (k : Nat) {m : Msg}
    (hopen : ∀ id, m ≠ .agentOpen id)
    (hm : ∀ id data, m = .agentData id data → ∃ ch, (some id, ch) ∈ owners) :
    Named owners nextId streams (extend log k m) where
  next := h.next
  bound := h.bound
  unique := h.unique
  refers := h.refers
  opens := by
    intro id j hmem
    rcases mem_extend hmem with hmem | ⟨-, heq⟩
    · exact h.opens id j hmem
    · exact absurd heq.symm (hopen id)
  carries := by
    intro id j data hmem
    rcases mem_extend hmem with hmem | ⟨-, heq⟩
    · exact h.carries id j data hmem
    · exact hm id data heq.symm
  first := first_extend h.first fun id heq => absurd heq (hopen id)

/-! ## What a relay has sent -/

/-- A relay, with what is in the slot, the number of channels, and what is on their queues. -/
structure RelayOk (slot : Option Nat) (n : Nat) (log : Nat → List Msg) (r : AgentRelay) :
    Prop where
  unopened : r.unannounced = true → r.channel = none
  opened : r.isOpen = true → ∃ k, r.channel = some k
  fresh : r.channel = none → r.pump.pc = .idle ∧ r.pump.read = []
  placed : ∀ k, r.channel = some k → k < n
  unsaid : ∀ id, r.pc.id? = some id → r.channel = none → ∀ k data, .agentData id data ∉ log k
  said : ∀ id k, r.pc.id? = some id → r.channel = some k → dataOf id (log k) <+: r.pump.read
  current : ∀ id k, r.pc.id? = some id → r.channel = some k → slot = some k →
    r.pump.running = true → dataOf id (log k) ++ r.pump.unhanded = r.pump.read

variable {slot slot' : Option Nat} {n n' : Nat} {r r' : AgentRelay}

theorem relayOk_start (slot : Option Nat) (n : Nat) (log : Nat → List Msg) :
    RelayOk slot n log .start where
  unopened := fun _ => rfl
  opened := fun h => by cases h
  fresh := fun _ => ⟨rfl, rfl⟩
  placed := fun k hk => by cases hk
  unsaid := fun id hid => by cases hid
  said := fun id k hid => by cases hid
  current := fun id k hid => by cases hid

/-- A channel that left the slot does not come back. -/
theorem RelayOk.move (h : RelayOk slot n log r) (hn : n ≤ n')
    (hslot : ∀ k, k < n → slot' = some k → slot = some k) : RelayOk slot' n' log r :=
  { h with
    placed := fun k hk => Nat.lt_of_lt_of_le (h.placed k hk) hn
    current := fun id k hid hk hs => h.current id k hid hk (hslot k (h.placed k hk) hs) }

theorem RelayOk.other (h : RelayOk slot n log r) {j : Nat} {m : Msg}
    (hm : ∀ id data, m = .agentData id data → r.pc.id? ≠ some id) :
    RelayOk slot n (extend log j m) r := by
  have hdata : ∀ {id : Nat} (k : Nat), r.pc.id? = some id →
      dataOf id (extend log j m k) = dataOf id (log k) := by
    intro id k hid
    by_cases hk : k = j
    · subst hk
      rw [extend_self, dataOf_append, dataOf_singleton, List.append_nil]
      exact fun data heq => hm id data heq hid
    · rw [extend_of_ne hk]
  refine { h with unsaid := ?_, said := ?_, current := ?_ }
  · intro id hid hnone k data hmem
    rcases mem_extend hmem with hmem | ⟨-, heq⟩
    · exact h.unsaid id hid hnone k data hmem
    · exact hm id data heq.symm hid
  · intro id k hid hk
    rw [hdata k hid]
    exact h.said id k hid hk
  · intro id k hid hk
    rw [hdata k hid]
    exact h.current id k hid hk

theorem RelayOk.push (h : RelayOk slot n log r) (data : Data) :
    RelayOk slot n log { r with pump := r.pump.push data } :=
  ⟨h.unopened, h.opened, h.fresh, h.placed, h.unsaid, h.said, h.current⟩

/-- A message goes to the log of the channel in the slot. -/
theorem log_apply_send (hn : Newest s) {k : Nat} (hslot : s.channel = some k) (i : Nat) (m : Msg) :
    (s.apply i (.send m)).log = extend s.log k m := by
  funext j
  by_cases hj : j = k
  · subst hj
    obtain ⟨hlast, -⟩ := hn j hslot
    rw [log_send hslot (by omega), extend_self]
  · rw [extend_of_ne hj, log_apply_of_ne]
    rintro heq
    cases hslot.symm.trans heq
    exact hj rfl

theorem log_apply_none (hslot : s.channel = none) (i : Nat) (f : HubEffect) :
    (s.apply i f).log = s.log := by
  funext j
  exact log_apply_of_ne (by simp [hslot])

/-- A relay that keeps its pump and its channel, and its id if it had one. -/
theorem RelayOk.goTo (h : RelayOk slot n log r) {pc : RelayPc} (hid : pc.id? = r.pc.id?)
    (hun : AgentRelay.unannounced { r with pc := pc } = true → r.channel = none)
    (hopen : AgentRelay.isOpen { r with pc := pc } = true → ∃ k, r.channel = some k) :
    RelayOk slot n log { r with pc := pc } where
  unopened := hun
  opened := hopen
  fresh := h.fresh
  placed := h.placed
  unsaid := fun id hid' => h.unsaid id (hid ▸ hid')
  said := fun id k hid' => h.said id k (hid ▸ hid')
  current := fun id k hid' => h.current id k (hid ▸ hid')

/-- What a hub's relays have read and sent. -/
structure HubOk (s : AgentHub) : Prop where
  newest : Newest s
  named : Named s.owners s.nextId s.streams s.log
  relay : ∀ (i : Nat) (r : AgentRelay), s.relays[i]? = some r →
    RelayOk s.channel s.channels.length s.log r

theorem owners_getElem? {i : Nat} {r : AgentRelay} (h : s.relays[i]? = some r) :
    s.owners[i]? = some (r.pc.id?, r.channel) := by
  rw [AgentHub.owners, List.getElem?_map, h]
  rfl

section Relay

variable {ev : RelayEvent} {f : HubEffect}

/-- Nothing was said about an id before it is given out. -/
theorem HubOk.fresh_id (h : HubOk s) (hlt : s.relays.length < 2 ^ 64)
    (hi : s.owners[i]? = some (none, none)) (k : Nat) (data : Data) :
    .agentData s.nextId data ∉ s.log k := by
  intro hmem
  have hnext := h.named.nextId_eq hi (by simpa [AgentHub.owners] using hlt)
  obtain ⟨ch, hch⟩ := h.named.carries s.nextId k data hmem
  have hle := h.named.bound s.nextId ch hch
  omega

/-- A stream sends data to the channel in the slot, or finds that there is none. -/
theorem RelayOk.sendData (h : RelayOk s.channel n s.log r) (hn : Newest s) {data : Data} (i : Nat)
    (hp : r.pc = .relaying id) (hh : r.pump.pc = .handing data) :
    RelayOk s.channel n (s.apply i (.send (.agentData id data))).log
      { r with pump := r.pump.handed s.channel.isSome } := by
  obtain ⟨j, hj⟩ := h.opened (by simp [AgentRelay.isOpen, hp])
  have hid : r.pc.id? = some id := by rw [hp]; rfl
  -- On its own channel, the data completes what was read.
  have hread : s.channel = some j →
      dataOf id ((s.apply i (.send (.agentData id data))).log j) = r.pump.read := by
    intro hslot
    rw [log_apply_send hn hslot, extend_self, dataOf_append, dataOf_data_self,
      ← h.current id j hid hj hslot (Pump.running_of_handing hh)]
    simp [Pump.unhanded, hh]
  refine { h with fresh := ?_, unsaid := ?_, said := ?_, current := ?_ }
  · intro hnone
    cases hj.symm.trans hnone
  · intro id' _ hnone
    cases hj.symm.trans hnone
  · intro id' k hid' hk
    cases hid.symm.trans hid'
    cases hj.symm.trans hk
    by_cases hslot : s.channel = some j
    · rw [hread hslot]
      exact List.prefix_refl _
    · rw [log_apply_of_ne hslot]
      exact h.said id j hid hj
  · intro id' k hid' hk hslot _
    cases hid.symm.trans hid'
    cases hj.symm.trans hk
    rw [hread hslot, Pump.handed_unhanded, List.append_nil]
    rfl

theorem HubOk.relay_self (h : HubOk s) (hlt : s.relays.length < 2 ^ 64)
    (hr : s.relays[i]? = some r)
    (hs : AgentRelay.Step s.channel s.nextId (s.registered i r) r ev r' f) :
    RelayOk s.channel s.channels.length (s.apply i f).log r' := by
  have hok := h.relay i r hr
  cases hs with
  | attached hp =>
    have hnone := hok.unopened (by simp [AgentRelay.unannounced, hp])
    exact hok.goTo (by simp [hp, RelayPc.id?]) (fun _ => hnone) fun ho => by cases ho
  | timedOut hp =>
    have hnone := hok.unopened (by simp [AgentRelay.unannounced, hp])
    exact hok.goTo (by simp [hp, RelayPc.id?]) (fun _ => hnone) fun ho => by cases ho
  | number hp =>
    have hnone := hok.unopened (by simp [AgentRelay.unannounced, hp])
    have hi : s.owners[i]? = some (none, none) := by
      rw [owners_getElem? hr, hnone, hp]
      rfl
    refine { hok with
      unopened := fun _ => hnone
      opened := fun ho => by cases ho
      unsaid := ?_
      said := ?_
      current := ?_ }
    · intro id hid _ k data
      cases hid
      exact h.fresh_id hlt hi k data
    · intro id k _ hk
      cases hnone.symm.trans hk
    · intro id k _ hk
      cases hnone.symm.trans hk
  | register hp =>
    have hnone := hok.unopened (by simp [AgentRelay.unannounced, hp])
    exact hok.goTo (by simp [hp, RelayPc.id?]) (fun _ => hnone) fun ho => by cases ho
  | @sendOpen id k hp hc =>
    have hnone := hok.unopened (by simp [AgentRelay.unannounced, hp])
    obtain ⟨hidle, hread⟩ := hok.fresh hnone
    have hdata : dataOf id ((s.apply i (.send (.agentOpen id))).log k) = [] := by
      rw [log_apply_send h.newest hc, extend_self]
      refine dataOf_eq_nil fun data hmem => ?_
      rw [List.mem_append, List.mem_singleton] at hmem
      rcases hmem with hmem | heq
      · exact hok.unsaid id (by rw [hp]; rfl) hnone k data hmem
      · cases heq
    refine ⟨fun hu => (by cases hu), fun _ => ⟨k, rfl⟩, fun hn => (by cases hn), ?_,
      fun _ _ hn => (by cases hn), ?_, ?_⟩
    · intro k' hk'
      cases hk'
      obtain ⟨hlast, -⟩ := h.newest k hc
      omega
    · intro id' k' hid' hk'
      cases hid'
      cases hk'
      rw [hdata]
      exact List.nil_prefix
    · intro id' k' hid' hk' _ _
      cases hid'
      cases hk'
      rw [hdata]
      simp [Pump.unhanded, hidle, hread]
  | notOpened hp hc =>
    have hnone := hok.unopened (by simp [AgentRelay.unannounced, hp])
    exact hok.goTo (by simp [hp, RelayPc.id?]) (fun _ => hnone) fun ho => by cases ho
  | unregister hp =>
    exact hok.goTo (by simp [hp, RelayPc.id?]) (fun hu => by cases hu) fun ho => by cases ho
  | @io id _ pump hp hio =>
    obtain ⟨j, hj⟩ := hok.opened (by simp [AgentRelay.isOpen, hp])
    refine { hok with
      fresh := fun hnone => ?_, said := fun id k hid hk => ?_,
      current := fun id k hid hk hslot => ?_ }
    · cases hj.symm.trans hnone
    · exact (hok.said id k hid hk).trans hio.read_le
    · exact hio.handed (hok.current id k hid hk hslot hio.running)
  | sendData hp hh => exact hok.sendData h.newest i hp hh
  | inboxClosed hp =>
    obtain ⟨j, hj⟩ := hok.opened (by simp [AgentRelay.isOpen, hp])
    refine { hok with fresh := fun hnone => ?_, current := fun _ _ _ _ _ hrun => ?_ }
    · cases hj.symm.trans hnone
    · cases hrun
  | remove hp =>
    have hopen := hok.opened (by simp [AgentRelay.isOpen, hp])
    exact hok.goTo (by simp [hp, RelayPc.id?]) (fun hu => by cases hu) fun _ => hopen
  | @sendClose id hp =>
    have hlog : RelayOk s.channel s.channels.length (s.apply i (.send (.agentClose id))).log r := by
      cases hslot : s.channel with
      | none =>
        rw [log_apply_none hslot, ← hslot]
        exact hok
      | some k =>
        rw [log_apply_send h.newest hslot, ← hslot]
        exact hok.other fun _ _ heq => by cases heq
    exact hlog.goTo (by simp [hp, RelayPc.id?]) (fun hu => by cases hu) fun ho => by cases ho

theorem Named.apply_send (h : Named s.owners s.nextId s.streams s.log) (hn : Newest s) (i : Nat)
    {m : Msg} (hopen : ∀ id, m ≠ .agentOpen id)
    (hm : ∀ id data, m = .agentData id data → ∃ ch, (some id, ch) ∈ s.owners) :
    Named s.owners s.nextId s.streams (s.apply i (.send m)).log := by
  cases hslot : s.channel with
  | none =>
    rw [log_apply_none hslot]
    exact h
  | some k =>
    rw [log_apply_send hn hslot]
    exact h.send k hopen hm

@[simp] theorem apply_send_streams (s : AgentHub) (i : Nat) (m : Msg) :
    (s.apply i (.send m)).streams = s.streams := by
  cases h : s.channel <;> simp [apply, sendToChannel, h]

@[simp] theorem apply_send_nextId (s : AgentHub) (i : Nat) (m : Msg) :
    (s.apply i (.send m)).nextId = s.nextId := by
  cases h : s.channel <;> simp [apply, sendToChannel, h]

theorem HubOk.named_relay (h : HubOk s) (hlt : s.relays.length < 2 ^ 64)
    (hr : s.relays[i]? = some r)
    (hs : AgentRelay.Step s.channel s.nextId (s.registered i r) r ev r' f) :
    Named (s.owners.set i (r'.pc.id?, r'.channel)) (s.apply i f).nextId (s.apply i f).streams
      (s.apply i f).log := by
  have hok := h.relay i r hr
  have hi := owners_getElem? hr
  have hkeep : ∀ {q : AgentRelay} {nextId : Nat} {streams : Nat → Option Nat}
      {log : Nat → List Msg}, q.pc.id? = r.pc.id? → q.channel = r.channel →
      Named s.owners nextId streams log →
      Named (s.owners.set i (q.pc.id?, q.channel)) nextId streams log := by
    intro q nextId streams log hid hch hnamed
    rw [hid, hch, Table.set_same hi]
    exact hnamed
  cases hs with
  | number hp =>
    have hnone := hok.unopened (by simp [AgentRelay.unannounced, hp])
    simp only [hp, hnone, RelayPc.id?] at hi ⊢
    exact h.named.number hi (by simpa [AgentHub.owners] using hlt)
  | @sendOpen id k hp hc =>
    have hnone := hok.unopened (by simp [AgentRelay.unannounced, hp])
    have hid : r.pc.id? = some id := by rw [hp]; rfl
    rw [hid, hnone] at hi
    rw [log_apply_send h.newest hc, apply_send_streams, apply_send_nextId]
    exact h.named.announce hi (dataOf_eq_nil fun data => hok.unsaid id hid hnone k data)
  | @register id hp =>
    have hid : r.pc.id? = some id := by rw [hp]; rfl
    exact hkeep (by rw [hp]; rfl) rfl (h.named.insert (hid ▸ hi))
  | @unregister id hp => exact hkeep (by rw [hp]; rfl) rfl (h.named.remove id)
  | @remove id hp => exact hkeep (by rw [hp]; rfl) rfl (h.named.remove id)
  | @sendData id data hp =>
    have hid : r.pc.id? = some id := by rw [hp]; rfl
    rw [apply_send_streams, apply_send_nextId]
    refine hkeep rfl rfl (h.named.apply_send h.newest i (fun _ heq => by cases heq) ?_)
    intro id' data' heq
    cases heq
    exact ⟨r.channel, hid ▸ List.mem_of_getElem? hi⟩
  | sendClose hp =>
    rw [apply_send_streams, apply_send_nextId]
    refine hkeep (by rw [hp]; rfl) rfl
      (h.named.apply_send h.newest i (fun _ heq => by cases heq) fun _ _ heq => by cases heq)
  | attached hp => exact hkeep (by rw [hp]; rfl) rfl h.named
  | timedOut hp => exact hkeep (by rw [hp]; rfl) rfl h.named
  | notOpened hp => exact hkeep (by rw [hp]; rfl) rfl h.named
  | io hp => exact hkeep rfl rfl h.named
  | inboxClosed hp => exact hkeep rfl rfl h.named

theorem HubOk.relay_other (h : HubOk s) {j : Nat} {q : AgentRelay} (hne : j ≠ i)
    (hq : s.relays[j]? = some q) (hr : s.relays[i]? = some r)
    (hs : AgentRelay.Step s.channel s.nextId (s.registered i r) r ev r' f) :
    RelayOk s.channel s.channels.length (s.apply i f).log q := by
  have hok := h.relay j q hq
  cases f with
  | send m =>
    cases hslot : s.channel with
    | none =>
      rw [log_apply_none hslot, ← hslot]
      exact hok
    | some k =>
      rw [log_apply_send h.newest hslot, ← hslot]
      refine hok.other fun id data heq hid => hne ?_
      subst heq
      obtain ⟨-, hid'⟩ := isOpen_of_send hs rfl
      have hi := owners_getElem? hr
      have hj := owners_getElem? hq
      rw [hid'] at hi
      rw [hid] at hj
      exact h.named.unique j i id q.channel r.channel hj hi
  | _ => exact hok

end Relay

theorem owners_onFrame (s : AgentHub) (m : Msg) : (s.onFrame m).owners = s.owners := by
  cases m with
  | agentData id data =>
    cases hid : s.streams id with
    | none => simp [onFrame, hid]
    | some j =>
      simp only [AgentHub.owners, onFrame, hid]
      exact Table.map_modify_of_eq fun _ => rfl
  | _ => rfl

theorem Named.onFrame (h : Named s.owners s.nextId s.streams s.log) (m : Msg) :
    Named (s.onFrame m).owners (s.onFrame m).nextId (s.onFrame m).streams (s.onFrame m).log := by
  have hlog : (s.onFrame m).log = s.log := by
    funext k
    exact log_onFrame m k
  rw [owners_onFrame, hlog]
  cases m with
  | agentData id data => cases hid : s.streams id <;> simpa [AgentHub.onFrame, hid] using h
  | agentClose id => exact h.remove id
  | _ => exact h

theorem HubOk.step (h : HubOk s) (hlt : s'.relays.length < 2 ^ 64) (hs : Step s e s') :
    HubOk s' := by
  have hnewest := h.newest.step hs
  cases hs with
  | accept =>
    refine ⟨hnewest, ?_, fun i r hr => ?_⟩
    · have howners : ({ s with relays := s.relays ++ [.start] } : AgentHub).owners =
          s.owners ++ [(none, none)] := by
        simp [AgentHub.owners, AgentRelay.start, RelayPc.id?]
      rw [howners]
      exact h.named.accept
    · rcases Table.of_concat hr with hr | ⟨-, rfl⟩
      · exact h.relay i r hr
      · exact relayOk_start _ _ _
  | @relay i r r' _ f hr hs =>
    have hsize : s.relays.length < 2 ^ 64 := by simpa using hlt
    refine ⟨hnewest, ?_, fun j q hq => ?_⟩
    · have hnamed := h.named_relay hsize hr hs
      rw [AgentHub.owners, ← List.map_set] at hnamed
      exact hnamed
    · have hok : RelayOk s.channel s.channels.length (s.apply i f).log q := by
        rcases Table.of_set hq with ⟨-, rfl⟩ | ⟨hne, hq⟩
        · exact h.relay_self hsize hr hs
        · exact h.relay_other hne hq hr hs
      exact hok.move (by simp) fun k _ hk => by simpa using hk
  | attach =>
    have hlog : ({ s with channel := some s.channels.length
                          channels := s.channels ++ [.start] } : AgentHub).log = s.log := by
      funext k
      exact log_attach s _ k
    refine ⟨hnewest, hlog ▸ h.named, fun i r hr => ?_⟩
    rw [hlog]
    refine (h.relay i r hr).move (by simp) fun k hk hslot => ?_
    cases hslot
    exact absurd hk (Nat.lt_irrefl _)
  | @frame k c m =>
    refine ⟨hnewest, h.named.onFrame m, fun i r hr => ?_⟩
    have hlog : (s.onFrame m).log = s.log := by
      funext k
      exact log_onFrame m k
    rw [hlog, onFrame_channel, onFrame_channels]
    obtain ⟨q, hq, ⟨rfl, -⟩ | ⟨id, data, -, -, rfl⟩⟩ := relay_of_onFrame hr
    · exact h.relay i r hq
    · exact (h.relay i q hq).push data
  | @channel k c c' _ hk hs =>
    have hlog : ({ s with channels := s.channels.set k c' } : AgentHub).log = s.log := by
      funext j
      exact log_set s.channel hk (HubChannel.of_step hs).2.2.2 j
    refine ⟨hnewest, hlog ▸ h.named, fun i r hr => ?_⟩
    rw [hlog]
    exact (h.relay i r hr).move (by simp) fun _ _ hslot => hslot
  | @detach k c hk =>
    have hlog : ({ s with
        channel := if s.channel = some k then none else s.channel
        channels := s.channels.set k { c with pc := .detached } } : AgentHub).log = s.log := by
      funext j
      have hqueued : ({ c with pc := .detached } : HubChannel).queued = c.queued := rfl
      exact log_set _ hk hqueued j
    refine ⟨hnewest, hlog ▸ h.named, fun i r hr => ?_⟩
    rw [hlog]
    refine (h.relay i r hr).move (by simp) fun j _ hslot => ?_
    by_cases hmine : s.channel = some k
    · simp [hmine] at hslot
    · simpa [hmine] using hslot

theorem log_le (hn : Newest s) (hs : Step s e s') (k : Nat) : s.log k <+: s'.log k := by
  cases hs with
  | accept => exact List.prefix_refl _
  | @relay i _ _ _ f =>
    show s.log k <+: (s.apply i f).log k
    rcases log_of_apply (i := i) (f := f) hn k with heq | ⟨m, -, -, heq⟩
    · rw [heq]
    · rw [heq]
      exact List.prefix_append _ _
  | attach => rw [log_attach]
  | frame => rw [log_onFrame]
  | @channel j c c' _ hj hs => rw [log_set s.channel hj (HubChannel.of_step hs).2.2.2]
  | @detach j c hj =>
    have hqueued : ({ c with pc := .detached } : HubChannel).queued = c.queued := rfl
    rw [log_set _ hj hqueued]

theorem hubOk_start : HubOk start :=
  ⟨fun k hk => (by cases hk), named_start, fun i r hr => (by cases hr)⟩

end AgentHub

end HerdrEternal
