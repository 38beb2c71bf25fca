import HerdrEternal.Client.TokenCache

/-!
# Stores of the token cache

The cache file should be complete whenever it is read, no `store_tokens` should fail because of
another one, and a refresh should not overwrite the tokens of a login that it has not seen
(`Intact`). `access_token` has a lock for that: "Rotated refresh tokens make concurrent refreshes
fail, so serialize them." A login stores its tokens without the lock, through the same temporary
file. The two writers can truncate each other's file, and the one that renames last finds none
(`logins_tear_cache`); and a refresh that was already asking the provider puts its tokens over those
of the login (`refresh_undoes_login`).

**Theorem (`intact_of_exclusive`).** In every run in which no call opens the temporary file while
another one is writing or renaming it, and no login stores its tokens while a refresh is under way,
the cache is intact.
-/

namespace HerdrEternal

namespace TokenCache

variable {J : TokenJson} {s s' : TokenCache} {i j : Nat} {c d : TokenCall} {l : TokenLabel}

/-! ## The property -/

/-- No refresh was stored after a login that stored its tokens when the refresh token had already
been read. -/
def NoRollback (stores : List TokenStore) : Prop :=
  ∀ (n : Nat) (store : TokenStore), stores[n]? = some store → store.login = false →
    ∀ (m : Nat) (other : TokenStore), store.base ≤ m → m < n → stores[m]? = some other →
      other.login = false

/-- The cache file is absent, or the complete serialization of some tokens. -/
def Complete (J : TokenJson) (files : Files) : Prop :=
  ∀ data, files.read = some data → ∃ t, data = J.toVecPretty t

structure Intact (J : TokenJson) (s : TokenCache) : Prop where
  complete : Complete J s.files
  /-- The rename at the end of `store_tokens` does not fail. -/
  unbroken : ∀ (i : Nat) (c : TokenCall) (cached : CachedTokens), s.calls[i]? = some c →
    c.pc = .renaming cached → s.files.rename.isSome = true
  kept : NoRollback s.stores

/-- Calls that store their tokens do not overlap, and a login does not store its tokens while a
refresh is between reading its refresh token and storing the result. -/
def exclusive (s : TokenCache) : TokenLabel → Bool
  | .call _ (.opened _) => s.calls.all (!·.pc.storing)
  | .call i .renamed =>
    s.calls[i]?.all fun c => !c.login || s.calls.all fun d => d.login || !d.pc.refreshing
  | _ => true

/-! ## The temporary file -/

/-- What a call that is storing relies on. -/
def Drafted (J : TokenJson) (files : Files) : TokenPc → Prop
  | .writing file _ => files.tmp = some file ∧ files.draft = some []
  | .renaming cached => files.draft = some (J.toVecPretty cached)
  | _ => True

/-- A call that is storing is the only one, and the temporary file is its own. -/
def Orderly (J : TokenJson) (s : TokenCache) : Prop :=
  ∀ (i : Nat) (c : TokenCall), s.calls[i]? = some c → c.pc.storing = true →
    Drafted J s.files c.pc ∧
      ∀ (j : Nat) (d : TokenCall), s.calls[j]? = some d → d.pc.storing = true → j = i

theorem Orderly.of_quiet (h : Orderly J s) (hfiles : s'.files = s.files)
    (hcalls : ∀ (j : Nat) (d : TokenCall), s'.calls[j]? = some d → d.pc.storing = true →
      s.calls[j]? = some d) : Orderly J s' := by
  intro i c hc hp
  obtain ⟨hdraft, halone⟩ := h i c (hcalls i c hc hp) hp
  rw [hfiles]
  exact ⟨hdraft, fun j d hd hq => halone j d (hcalls j d hd hq) hq⟩

theorem Orderly.of_only (hc : s'.calls[i]? = some c) (hdraft : Drafted J s'.files c.pc)
    (halone : ∀ (j : Nat) (d : TokenCall), s'.calls[j]? = some d → d.pc.storing = true →
      j = i) : Orderly J s' := by
  intro j d hd hq
  obtain rfl := halone j d hd hq
  cases hc.symm.trans hd
  exact ⟨hdraft, halone⟩

/-- A call that is suspended elsewhere, where it is not storing. -/
theorem storing_of_set (hp : c.pc.storing = false) (hd : (s.calls.set i c)[j]? = some d)
    (hq : d.pc.storing = true) : j ≠ i ∧ s.calls[j]? = some d := by
  obtain ⟨-, rfl⟩ | h := Table.of_set hd
  · rw [hp] at hq
    cases hq
  · exact h

theorem Orderly.step (h : Orderly J s) (hx : s.exclusive l = true) (hs : Step J s l s') :
    Orderly J s' := by
  have quiet : ∀ {i : Nat} {c : TokenCall}, c.pc.storing = false →
      ∀ (j : Nat) (d : TokenCall), (s.calls.set i c)[j]? = some d → d.pc.storing = true →
        s.calls[j]? = some d :=
    fun hp j d hd hq => (storing_of_set hp hd hq).2
  cases hs with
  | access =>
    exact h.of_quiet rfl (Table.forall_concat (fun j d hd _ => hd) fun hq => by cases hq)
  | login =>
    exact h.of_quiet rfl (Table.forall_concat (fun j d hd _ => hd) fun hq => by cases hq)
  | @opened i c tokens now hc hp =>
    simp only [exclusive, List.all_eq_true, Bool.not_eq_true'] at hx
    refine Orderly.of_only (Table.set_self hc)
      ⟨Files.tmp_openTmp _, Files.draft_openTmp _⟩ fun j d hd hq => ?_
    obtain ⟨rfl, -⟩ | ⟨-, hd⟩ := Table.of_set hd
    · rfl
    · rw [hx d (List.mem_of_getElem? hd)] at hq
      cases hq
  | @wrote i c file cached hc hp =>
    obtain ⟨hdraft, halone⟩ := h i c hc (by rw [hp]; rfl)
    rw [hp] at hdraft
    refine Orderly.of_only (Table.set_self hc)
      (Files.draft_write hdraft.1 hdraft.2) fun j d hd hq => ?_
    obtain ⟨rfl, -⟩ | ⟨-, hd⟩ := Table.of_set hd
    · rfl
    · exact halone j d hd hq
  | @renamed i c cached files hc hp hr =>
    -- The call was the only one that was storing.
    intro j d hd hq
    obtain ⟨hne, hd⟩ := storing_of_set (s := s) rfl hd hq
    exact absurd ((h i c hc (by rw [hp]; rfl)).2 j d hd hq) hne
  | _ => exact h.of_quiet rfl (quiet rfl)

/-- The rename at the end of a store finds the call's own tokens. -/
theorem Orderly.draft {cached : CachedTokens} (h : Orderly J s) (hc : s.calls[i]? = some c)
    (hp : c.pc = .renaming cached) : s.files.draft = some (J.toVecPretty cached) := by
  have hdraft := (h i c hc (by rw [hp]; rfl)).1
  rwa [hp] at hdraft

theorem Orderly.rename_isSome {cached : CachedTokens} (h : Orderly J s)
    (hc : s.calls[i]? = some c) (hp : c.pc = .renaming cached) :
    s.files.rename.isSome = true := by
  obtain ⟨ino, htmp, -⟩ := Option.bind_eq_some_iff.mp (h.draft hc hp)
  rw [Files.rename_isSome, htmp]
  rfl

/-- Only a rename changes what readers see, and the temporary file is complete by
then. -/
theorem complete_step (h : Complete J s.files) (ho : Orderly J s) (hs : Step J s l s') :
    Complete J s'.files := by
  cases hs with
  | opened =>
    intro data hdata
    exact h data ((Files.read_openTmp _).symm.trans hdata)
  | @wrote i c file cached hc hp =>
    have hdraft := (ho i c hc (by rw [hp]; rfl)).1
    rw [hp] at hdraft
    intro data hdata
    exact h data ((Files.read_write hdraft.1).symm.trans hdata)
  | @renamed i c cached files hc hp hr =>
    intro data hdata
    have hread : some data = some (J.toVecPretty cached) :=
      hdata.symm.trans ((Files.of_rename hr).1.trans (ho.draft hc hp))
    exact ⟨cached, Option.some.inj hread⟩
  | _ => exact h

/-! ## Refreshes and logins -/

/-- A refresh has seen every login that stored its tokens. -/
def Current (stores : List TokenStore) (c : TokenCall) : Prop :=
  c.pc ≠ .authorizing ∧ (c.pc.refreshing = true → ∀ (m : Nat) (other : TokenStore),
    c.base ≤ m → stores[m]? = some other → other.login = false)

def UpToDate (s : TokenCache) : Prop :=
  ∀ (i : Nat) (c : TokenCall), s.calls[i]? = some c → c.login = false → Current s.stores c

theorem current_of_quiet {stores : List TokenStore} (ha : c.pc ≠ .authorizing)
    (hr : c.pc.refreshing = false) : Current stores c :=
  ⟨ha, fun h => by rw [hr] at h; cases h⟩

theorem Current.go {stores : List TokenStore} {p : TokenPc} (h : Current stores c)
    (hr : c.pc.refreshing = true) (ha : p ≠ .authorizing) : Current stores { c with pc := p } :=
  ⟨ha, fun _ => h.2 hr⟩

theorem UpToDate.of_set (h : UpToDate s) (hc : s.calls[i]? = some c)
    (hstores : s'.stores = s.stores) (hcalls : s'.calls = s.calls.set i d)
    (hlogin : d.login = c.login)
    (hcur : c.login = false → Current s.stores c → Current s.stores d) : UpToDate s' := by
  rw [UpToDate, hstores, hcalls]
  refine Table.forall_set h fun hl => ?_
  rw [hlogin] at hl
  exact hcur hl (h i c hc hl)

theorem UpToDate.step (h : UpToDate s) (hx : s.exclusive l = true) (hs : Step J s l s') :
    UpToDate s' := by
  have quiet : ∀ {c : TokenCall} {p : TokenPc}, p ≠ .authorizing → p.refreshing = false →
      c.login = false → Current s.stores c → Current s.stores { c with pc := p } :=
    fun ha hr _ _ => current_of_quiet ha hr
  cases hs with
  | access => exact Table.forall_concat h fun _ => current_of_quiet (by simp) rfl
  | login => exact Table.forall_concat h fun hl => by cases hl
  | reread hc =>
    refine h.of_set hc rfl rfl rfl fun _ _ => ⟨by simp, fun _ m other hm hother => ?_⟩
    -- Nothing has been stored since the read.
    exact absurd (Table.lt_of_getElem? hother) (Nat.not_lt.mpr hm)
  | granted hc hp => exact h.of_set hc rfl rfl rfl fun _ hcur => hcur.go (by rw [hp]; rfl) (by simp)
  | authorized hc hp => exact h.of_set hc rfl rfl rfl fun _ hcur => absurd hp hcur.1
  | opened hc hp => exact h.of_set hc rfl rfl rfl fun _ hcur => hcur.go (by rw [hp]; rfl) (by simp)
  | wrote hc hp => exact h.of_set hc rfl rfl rfl fun _ hcur => hcur.go (by rw [hp]; rfl) (by simp)
  | @renamed i c cached files hc hp hr =>
    simp only [exclusive, hc, Option.all_some, Bool.or_eq_true, Bool.not_eq_true',
      List.all_eq_true] at hx
    intro j d hd hl
    obtain ⟨-, rfl⟩ | ⟨-, hd⟩ := Table.of_set hd
    · exact current_of_quiet (by simp) rfl
    refine ⟨(h j d hd hl).1, fun hq m other hm hother => ?_⟩
    obtain hother | ⟨-, rfl⟩ := Table.of_concat hother
    · exact (h j d hd hl).2 hq m other hm hother
    -- A login would not have stored its tokens now.
    · refine hx.resolve_right fun hall => ?_
      have := hall d (List.mem_of_getElem? hd)
      rw [hl, hq] at this
      simp at this
  | _ hc => exact h.of_set hc rfl rfl rfl (quiet (by simp) rfl)

theorem noRollback_step (h : NoRollback s.stores) (hu : UpToDate s) (hs : Step J s l s') :
    NoRollback s'.stores := by
  cases hs with
  | @renamed i c cached files hc hp hr =>
    intro n store hstore hl m other hm hmn hother
    have hlast : n < (s.stores ++ [(⟨c.login, c.base⟩ : TokenStore)]).length :=
      Table.lt_of_getElem? hstore
    rw [List.length_append, List.length_singleton] at hlast
    have hother' : s.stores[m]? = some other := by
      obtain hother | ⟨rfl, -⟩ := Table.of_concat hother
      · exact hother
      · omega
    obtain hstore | ⟨rfl, rfl⟩ := Table.of_concat hstore
    · exact h n store hstore hl m other hm hmn hother'
    · exact (hu i c hc hl).2 (by rw [hp]; rfl) m other hm hother'
  | _ => exact h

/-! ## Whole runs -/

section

variable {files : Files}

theorem orderly_under (h : (machine J files).Under (fun s l => s.exclusive l = true) s) :
    Orderly J s := by
  refine h.invariant ?_ fun s l s' ho hx hs => ho.step hx (.of_step hs)
  rintro s rfl i c hc
  cases hc

theorem upToDate_under (h : (machine J files).Under (fun s l => s.exclusive l = true) s) :
    UpToDate s := by
  refine h.invariant ?_ fun s l s' hu hx hs => hu.step hx (.of_step hs)
  rintro s rfl i c hc
  cases hc

theorem complete_under (hfiles : Complete J files)
    (h : (machine J files).Under (fun s l => s.exclusive l = true) s) : Complete J s.files := by
  induction h with
  | init hi =>
    rw [hi]
    exact hfiles
  | step h _ hs ih => exact complete_step ih (orderly_under h) (.of_step hs)

theorem noRollback_under (h : (machine J files).Under (fun s l => s.exclusive l = true) s) :
    NoRollback s.stores := by
  induction h with
  | init hi =>
    rw [hi]
    intro n store hstore
    cases hstore
  | step h _ hs ih => exact noRollback_step ih (upToDate_under h) (.of_step hs)

/-- **The cache is neither torn nor rolled back** in any run in which stores do not overlap, and
logins do not store their tokens during a refresh. -/
theorem intact_of_exclusive (hfiles : Complete J files)
    (h : (machine J files).Under (fun s l => s.exclusive l = true) s) : Intact J s where
  complete := complete_under hfiles h
  unbroken _ _ _ hc hp := (orderly_under h).rename_isSome hc hp
  kept := noRollback_under h

end

/-! ## Logins beside refreshes -/

/-- Tokens that have to be refreshed at once. -/
def loginTokens : TokenResponse := ⟨"a1", some "r1", 0⟩

def refreshedTokens : TokenResponse := ⟨"a2", some "r2", 3600⟩

/-- The provider answers a grant. -/
def tokensReply (tokens : TokenResponse) : TokenEvent :=
  .answered (some ⟨200, none, some tokens, none⟩)

/-- A login, from its confirmation on. -/
def logsIn (i : Nat) (tokens : TokenResponse) : List TokenLabel :=
  [.call i (.authorized tokens), .call i (.opened 0), .call i .wrote, .call i .renamed]

/-- A call finds that the tokens have expired, and reads the refresh token. -/
def readsRefreshToken (i : Nat) : List TokenLabel :=
  [.call i (.loaded 0), .call i .locked, .call i (.loaded 0)]

/-- A refresh, once the provider has answered. -/
def refreshes (i : Nat) (tokens : TokenResponse) : List TokenLabel :=
  [.call i (tokensReply tokens), .call i (.opened 0), .call i .wrote, .call i .renamed]

/-- A login while a refresh waits for the lock, and another one that is confirmed when the refresh
is over. -/
def takesTurns : List TokenLabel :=
  [.login, .access, .login] ++ logsIn 0 loginTokens ++ readsRefreshToken 1 ++
    refreshes 1 refreshedTokens ++ logsIn 2 loginTokens

def tookTurns : TokenCache :=
  ((machine prettyJson .empty).runIf exclusive (.start .empty) takesTurns).get (by decide)

theorem took_turns_intact : tookTurns.stores.length = 3 ∧ Intact prettyJson tookTurns := by
  have hempty : Complete prettyJson .empty := by
    intro data h
    cases h
  exact ⟨by decide, intact_of_exclusive hempty
    (Machine.under_of_runIf (.init rfl) (Option.some_get _).symm)⟩

/-- Two logins: the second one opens the temporary file that the first one is about to rename. -/
def overlaps : List TokenLabel :=
  [.login, .login, .call 0 (.authorized loginTokens), .call 1 (.authorized refreshedTokens),
    .call 0 (.opened 0), .call 0 .wrote, .call 1 (.opened 0), .call 0 .renamed]

def torn : TokenCache :=
  ((machine prettyJson .empty).run (.start .empty) overlaps).get (by decide)

/-- The second login has written to the file, which has the cache's name by now. -/
def nameless : TokenCache :=
  ((machine prettyJson .empty).run torn [.call 1 .wrote]).get (by decide)

/-- The cache is empty when the first login returns, and the second one fails. -/
theorem logins_tear_cache :
    (machine prettyJson .empty).Reachable torn ∧ torn.files.read = some [] ∧
      ¬ Complete prettyJson torn.files ∧
    (machine prettyJson .empty).Reachable nameless ∧
      (nameless.step prettyJson (.call 1 .renamed)).map (fun s => s.calls.map (·.pc)) =
        some [.returned (.ok none), .returned (.error .io)] ∧
      ¬ Intact prettyJson nameless := by
  have htorn : (machine prettyJson .empty).Reachable torn :=
    Machine.reachable_of_run rfl (Option.some_get _).symm
  refine ⟨htorn, by decide, fun h => ?_, ?_, by decide, fun h => ?_⟩
  · obtain ⟨t, ht⟩ := h [] (by decide)
    have hparse := prettyJson.fromSlice_toVecPretty t
    rw [← ht] at hparse
    cases hparse
  · exact Machine.under_of_run htorn (fun _ _ _ => trivial) (Option.some_get _).symm
  · have hnamed := h.unbroken 1 _ (refreshedTokens.cachedAt 0) rfl (by decide)
    revert hnamed
    decide

/-- A login is confirmed while a refresh waits for the provider. -/
def crosses : List TokenLabel :=
  [.login, .access, .login] ++ logsIn 0 loginTokens ++ readsRefreshToken 1 ++
    logsIn 2 loginTokens ++ refreshes 1 refreshedTokens

def undone : TokenCache :=
  ((machine prettyJson .empty).run (.start .empty) crosses).get (by decide)

theorem refresh_undoes_login :
    (machine prettyJson .empty).Reachable undone ∧
    undone.tokens prettyJson = some (refreshedTokens.cachedAt 0) ∧
    ¬ NoRollback undone.stores := by
  refine ⟨Machine.reachable_of_run rfl (Option.some_get _).symm, by decide, fun h => ?_⟩
  have hseen := h 2 ⟨false, 1⟩ (by decide) rfl 1 ⟨true, 0⟩ (by decide) (by decide) (by decide)
  cases hseen

end TokenCache

end HerdrEternal
