import HerdrEternal.System.FdStore

/-!
# What happens while the daemon is down

The command may write, close its streams and end between two daemons. The pipes keep what it said
until the next daemon reads it, as long as the store keeps the pipe ends.

* `Accounted`: every byte the command wrote was read by the task or is still in its pipe, and the
  exit code is the wrapper's or still to be read. A pipe end that is missing or drained has nothing
  left to say (`Spent`).
* `restart_tells_truth`: a session reports all the output and the real exit code, in every run in
  which the store discards no pipe end that still has something to say. It may, and then output is
  lost and the exit code becomes 255 (`discarded_ends_lose_output`).
-/

namespace HerdrEternal

open History Session

/-! ## Lines of the wrapper -/

/-- What the wrapper has written to the exit pipe. -/
def Wrapper.line : Wrapper → Data
  | .finished code => exitLine code
  | _ => []

/-- The line of a wrapper is read back as the code it reports. -/
theorem parseExitLine_exitLine (code : UInt8) :
    parseExitLine (exitLine code) = Int32.ofNat code.toNat := by
  have hall : ∀ n < 256, parseExitLine (exitLine (UInt8.ofNat n)) = Int32.ofNat n := by
    decide +kernel
  have h := hall code.toNat code.toNat_lt
  rwa [UInt8.ofNat_toNat] at h

theorem length_exitLine_le (code : UInt8) : (exitLine code).length ≤ EXIT_BUF := by
  have hall : ∀ n < 256, (exitLine (UInt8.ofNat n)).length ≤ EXIT_BUF := by decide +kernel
  have h := hall code.toNat code.toNat_lt
  rwa [UInt8.ofNat_toNat] at h

theorem contains_exitLine (code : UInt8) : (exitLine code).contains 10 = true := by
  simp [exitLine]

namespace Host

variable {token : String} {x y : Host}

/-! ## Accounts -/

/-- Somebody who reads end of file instead of what this pipe end has to say misses nothing. -/
def Spent (x : Host) : Role → Prop
  | .stdin => True
  | .stdout => (x.pipes .stdout).bytes = [] ∧ (x.pipes .stdout).held = false
  | .stderr => (x.pipes .stderr).bytes = [] ∧ (x.pipes .stderr).held = false
  | .exit => x.session.io.exitCode = none → x.wrapper.code = some 255

theorem spent_output {stream : Stream} : x.Spent stream.role ↔
    (x.pipes stream.role).bytes = [] ∧ (x.pipes stream.role).held = false := by
  cases stream <;> rfl

/-- While the daemon is down, the store discards a pipe end only if nothing is lost with it. -/
def DiscardsSpent (x : Host) (l : HostLabel) : Prop :=
  ∀ role, l = .discard role → x.stopped = true → x.Spent role

/-- The exit code is the wrapper's, or still to be read. -/
structure ExitAccounted (x : Host) : Prop where
  line : x.session.io.exitCode = none →
    x.session.io.exitLine = [] ∧ (x.pipes .exit).bytes = x.wrapper.line
  held : (x.pipes .exit).held = decide (x.wrapper = .running)
  code : ∀ code, x.session.io.exitCode = some code → x.wrapper.code = some code

/-- Every byte is accounted for, and so is the exit code. -/
structure Accounted (token : String) (x : Host) : Prop where
  ok : Ok token x
  bytes : ∀ stream, bytesOf stream x.written =
    bytesOf stream x.session.io.read ++ (x.pipes stream.role).bytes
  exit : ExitAccounted x
  closed : ∀ stream, x.session.io.isOpen stream = false → x.Spent stream.role
  drained : ∀ stream, x.session.io.fd stream = .drained → x.Spent stream.role
  drainedExit : x.session.io.exit = .drained → x.Spent .exit
  stored : ∀ role, (fdName token role, .drained) ∈ x.store → x.Spent role
  kept : x.stopped = true → ∀ role, (∃ fd, (fdName token role, fd) ∈ x.store) ∨ x.Spent role

theorem accounted_start (agent : Bool) (pgid : Int32) (cap : Role → Nat) :
    Accounted token (start agent pgid cap) where
  ok := ok_start _ _ _
  bytes := fun _ => rfl
  exit := ⟨fun _ => ⟨rfl, rfl⟩, rfl, fun _ h => by cases h⟩
  closed := by
    intro stream h
    cases stream <;> cases h
  drained := by
    intro stream h
    cases stream <;> cases h
  drainedExit := fun h => by cases h
  stored := fun _ h => absurd h List.not_mem_nil
  kept := fun h => by cases h

/-! ### What stays spent -/

/-- Steps in which nothing comes back to life. -/
structure Settles (x y : Host) : Prop where
  pipe : ∀ stream : Stream, (x.pipes stream.role).held = false →
    (y.pipes stream.role).held = false ∧
      ((x.pipes stream.role).bytes = [] → (y.pipes stream.role).bytes = [])
  exitCode : y.session.io.exitCode = none → x.session.io.exitCode = none
  wrapper : x.wrapper ≠ .running → y.wrapper = x.wrapper

theorem Spent.settles {role : Role} (h : x.Spent role) (hxy : Settles x y) : y.Spent role := by
  have houtput : ∀ stream : Stream, x.Spent stream.role → y.Spent stream.role := by
    intro stream h
    obtain ⟨hb, hh⟩ := spent_output.mp h
    obtain ⟨hh', hb'⟩ := hxy.pipe stream hh
    exact spent_output.mpr ⟨hb' hb, hh'⟩
  cases role with
  | stdin => trivial
  | stdout => exact houtput .out h
  | stderr => exact houtput .err h
  | exit =>
    intro hcode
    have hw := h (hxy.exitCode hcode)
    have hrun : x.wrapper ≠ .running := by
      intro hrun
      rw [hrun] at hw
      cases hw
    rw [hxy.wrapper hrun, hw]

theorem ExitAccounted.congr (h : ExitAccounted x)
    (hcode : y.session.io.exitCode = x.session.io.exitCode)
    (hline : y.session.io.exitLine = x.session.io.exitLine)
    (hpipe : y.pipes .exit = x.pipes .exit) (hwrap : y.wrapper = x.wrapper) :
    ExitAccounted y where
  line := by
    rw [hcode, hline, hpipe, hwrap]
    exact h.line
  held := by
    rw [hpipe, hwrap]
    exact h.held
  code := by
    rw [hcode, hwrap]
    exact h.code

theorem Accounted.settles (h : Accounted token x) (hxy : Settles x y) (hok : Ok token y)
    (hbytes : ∀ stream, bytesOf stream y.written =
      bytesOf stream y.session.io.read ++ (y.pipes stream.role).bytes)
    (hexit : ExitAccounted y)
    (hclosed : ∀ stream, y.session.io.isOpen stream = false →
      x.session.io.isOpen stream = false ∨ x.Spent stream.role)
    (hfd : y.session.io.fd = x.session.io.fd) (hfd' : y.session.io.exit = x.session.io.exit)
    (hstore : y.store = x.store) (hstop : y.stopped = x.stopped) : Accounted token y where
  ok := hok
  bytes := hbytes
  exit := hexit
  closed := by
    intro stream hc
    rcases hclosed stream hc with hc | hspent
    · exact (h.closed stream hc).settles hxy
    · exact hspent.settles hxy
  drained := by
    intro stream hd
    exact (h.drained stream (hfd ▸ hd)).settles hxy
  drainedExit := by
    intro hd
    exact (h.drainedExit (hfd' ▸ hd)).settles hxy
  stored := by
    intro role hmem
    exact (h.stored role (hstore ▸ hmem)).settles hxy
  kept := by
    intro hs role
    rw [hstore]
    exact (h.kept (hstop ▸ hs) role).imp_right (·.settles hxy)

/-- What touches neither the reading side nor its pipes. -/
theorem Accounted.frame (h : Accounted token x) (hok : Ok token y)
    (hio : y.session.io = x.session.io)
    (hpipes : ∀ role, role ≠ .stdin → y.pipes role = x.pipes role)
    (hwrap : y.wrapper = x.wrapper) (hstore : y.store = x.store) (hstop : y.stopped = x.stopped)
    (hwritten : y.written = x.written) : Accounted token y := by
  have hout : ∀ stream : Stream, y.pipes stream.role = x.pipes stream.role := by
    intro stream
    cases stream
    · exact hpipes .stdout (by simp)
    · exact hpipes .stderr (by simp)
  have hxy : Settles x y := by
    refine ⟨fun stream hheld => ?_, fun hc => hio ▸ hc, fun _ => hwrap⟩
    rw [hout]
    exact ⟨hheld, id⟩
  refine h.settles hxy hok ?_ ?_ ?_ ?_ ?_ hstore hstop
  · intro stream
    rw [hwritten, hio, hout, h.bytes]
  · exact h.exit.congr (by rw [hio]) (by rw [hio]) (hpipes .exit (by simp)) hwrap
  · intro stream hc
    exact .inl (hio ▸ hc)
  · rw [hio]
  · rw [hio]

end Host

/-! ### Reading -/

namespace Host

variable {token : String} {x y : Host}

theorem Settles.setPipe {stream : Stream} {p : Pipe}
    (hpipes : y.pipes = (x.setPipe stream.role p).pipes)
    (hp : (x.pipes stream.role).held = false →
      p.held = false ∧ ((x.pipes stream.role).bytes = [] → p.bytes = []))
    (hcode : y.session.io.exitCode = none → x.session.io.exitCode = none)
    (hwrap : y.wrapper = x.wrapper) : Settles x y where
  pipe := by
    intro stream' hheld
    rw [hpipes]
    by_cases heq : stream' = stream
    · subst heq
      rw [pipes_setPipe_self]
      exact hp hheld
    · rw [pipes_setPipe_of_ne (Stream.role_injective.ne heq)]
      exact ⟨hheld, id⟩
  exitCode := hcode
  wrapper := fun _ => hwrap

theorem Accounted.readData (h : Accounted token x) {stream : Stream} {n : Nat} (hok : Ok token y)
    (hio : y.session.io =
      x.session.io.step (.outputRead stream (.data ((x.pipes stream.role).bytes.take n))))
    (hpipes : y.pipes = (x.setPipe stream.role { x.pipes stream.role with
      bytes := (x.pipes stream.role).bytes.drop n }).pipes)
    (hwrap : y.wrapper = x.wrapper) (hstore : y.store = x.store) (hstop : y.stopped = x.stopped)
    (hwritten : y.written = x.written) : Accounted token y := by
  have hxy : Settles x y := by
    refine Settles.setPipe hpipes (fun hheld => ⟨hheld, fun hb => ?_⟩) (fun hc => ?_) hwrap
    · simp [hb]
    · rw [hio] at hc
      exact hc
  refine h.settles hxy hok ?_ ?_ ?_ ?_ ?_ hstore hstop
  · intro stream'
    have hread : y.session.io.read = x.session.io.read ++
        ((x.pipes stream.role).bytes.take n).map (stream, ·) := by
      rw [hio]
      rfl
    rw [hwritten, h.bytes, hread, bytesOf_append, bytesOf_tagged, hpipes]
    by_cases heq : stream = stream'
    · subst heq
      rw [if_pos rfl, pipes_setPipe_self, List.append_assoc, List.take_append_drop]
    · rw [if_neg heq, List.append_nil,
        pipes_setPipe_of_ne (Stream.role_injective.ne (Ne.symm heq))]
  · refine h.exit.congr ?_ ?_ ?_ hwrap
    · rw [hio]
      rfl
    · rw [hio]
      rfl
    · rw [hpipes, pipes_setPipe_of_ne stream.exit_ne_role]
  · intro stream' hc
    rw [hio] at hc
    exact .inl hc
  · rw [hio]
    rfl
  · rw [hio]
    rfl

/-- End of file on an output stream comes after its last byte. -/
theorem Accounted.readEof (h : Accounted token x) {stream : Stream} (hok : Ok token y)
    (hend : x.AtEnd stream.role (x.session.task.output stream))
    (hio : y.session.io = x.session.io.step (.outputRead stream .eof))
    (hpipes : y.pipes = x.pipes) (hwrap : y.wrapper = x.wrapper) (hstore : y.store = x.store)
    (hstop : y.stopped = x.stopped) (hwritten : y.written = x.written) : Accounted token y := by
  have hspent : x.Spent stream.role := by
    rcases hend with hd | hend
    · exact h.drained stream hd
    · exact spent_output.mpr hend
  have hxy : Settles x y := by
    refine ⟨fun stream hheld => ?_, fun hc => ?_, fun _ => hwrap⟩
    · rw [hpipes]
      exact ⟨hheld, id⟩
    · rw [hio] at hc
      exact hc
  refine h.settles hxy hok ?_ ?_ ?_ ?_ ?_ hstore hstop
  · intro stream'
    rw [hwritten, hpipes, h.bytes, hio]
    rfl
  · refine h.exit.congr ?_ ?_ (by rw [hpipes]) hwrap
    · rw [hio]
      rfl
    · rw [hio]
      rfl
  · intro stream' hc
    by_cases heq : stream' = stream
    · exact .inr (heq ▸ hspent)
    · rw [hio] at hc
      exact .inl ((Function.update_of_ne heq ..).symm.trans hc)
  · rw [hio]
    rfl
  · rw [hio]
    rfl

/-- A read of the exit pipe gives the wrapper's code. -/
theorem Accounted.readExit (h : Accounted token x) {r : ReadResult} {code : Int32}
    (hok : Ok token y) (hio : y.session.io = x.session.io.step (.exitRead r))
    (hcode : (x.session.io.step (.exitRead r)).exitCode = some code)
    (hreal : x.wrapper.code = some code)
    (hout : ∀ stream : Stream, y.pipes stream.role = x.pipes stream.role)
    (hheld : (y.pipes .exit).held = (x.pipes .exit).held)
    (hwrap : y.wrapper = x.wrapper) (hstore : y.store = x.store) (hstop : y.stopped = x.stopped)
    (hwritten : y.written = x.written) : Accounted token y := by
  have hsome : y.session.io.exitCode = some code := by rw [hio, hcode]
  have hread : (x.session.io.step (.exitRead r)).read = x.session.io.read := by cases r <;> rfl
  have hopen : (x.session.io.step (.exitRead r)).isOpen = x.session.io.isOpen := by
    cases r <;> rfl
  have hxy : Settles x y := by
    refine ⟨fun stream hheld => ?_, fun hc => ?_, fun _ => hwrap⟩
    · rw [hout]
      exact ⟨hheld, id⟩
    · rw [hsome] at hc
      cases hc
  refine h.settles hxy hok ?_ ?_ ?_ ?_ ?_ hstore hstop
  · intro stream
    rw [hwritten, hout, h.bytes, hio, hread]
  · refine ⟨fun hnone => ?_, ?_, fun code' hc => ?_⟩
    · rw [hsome] at hnone
      cases hnone
    · rw [hheld, hwrap, h.exit.held]
    · rw [hsome] at hc
      cases hc
      rw [hwrap, hreal]
  · intro stream hc
    rw [hio, hopen] at hc
    exact .inl hc
  · rw [hio]
    cases r <;> rfl
  · rw [hio]
    cases r <;> rfl

/-- The line in the exit pipe is the wrapper's, and carries its code. -/
theorem Accounted.exit_line (h : Accounted token x) (hnone : x.session.io.exitCode = none)
    (hne : (x.pipes .exit).bytes ≠ []) :
    ∃ code, x.wrapper.code = some code ∧
      (x.session.io.step (.exitRead (.data ((x.pipes .exit).bytes.take EXIT_BUF)))).exitCode =
        some code := by
  obtain ⟨hline, hbytes⟩ := h.exit.line hnone
  cases hw : x.wrapper with
  | running => exact absurd (hbytes.trans (by rw [hw]; rfl)) hne
  | killed => exact absurd (hbytes.trans (by rw [hw]; rfl)) hne
  | finished code =>
    have hb : (x.pipes .exit).bytes = exitLine code := hbytes.trans (by rw [hw]; rfl)
    refine ⟨Int32.ofNat code.toNat, rfl, ?_⟩
    rw [hb, List.take_of_length_le (length_exitLine_le code)]
    simp only [Io.step, hline, List.nil_append, if_pos (contains_exitLine code),
      parseExitLine_exitLine]

/-- At the end of the exit pipe the wrapper was killed, or its line said 255. -/
theorem Accounted.exit_eof (h : Accounted token x) (hnone : x.session.io.exitCode = none)
    (hend : x.AtEnd .exit x.session.task.exit) : x.wrapper.code = some 255 := by
  rcases hend with hd | ⟨hb, hheld⟩
  · exact h.drainedExit hd hnone
  · have hline := hb.symm.trans (h.exit.line hnone).2
    cases hw : x.wrapper with
    | running =>
      rw [h.exit.held, hw] at hheld
      cases hheld
    | killed => rfl
    | finished code =>
      rw [hw] at hline
      exact absurd hline.symm (by simp [Wrapper.line, exitLine])

end Host

/-! ### The processes -/

namespace Host

variable {token : String} {x y : Host}

theorem Accounted.childWrote (h : Accounted token x) {stream : Stream} {data : Data}
    (hok : Ok token y) (hheld : (x.pipes stream.role).held = true)
    (hsess : y.session = x.session)
    (hpipes : y.pipes = (x.setPipe stream.role ((x.pipes stream.role).write data)).pipes)
    (hwrap : y.wrapper = x.wrapper) (hstore : y.store = x.store) (hstop : y.stopped = x.stopped)
    (hwritten : y.written = x.written ++ data.map (stream, ·)) : Accounted token y := by
  have hxy : Settles x y := by
    refine Settles.setPipe hpipes (fun hfalse => ?_) (fun hc => hsess ▸ hc) hwrap
    rw [hheld] at hfalse
    cases hfalse
  refine h.settles hxy hok ?_ ?_ ?_ ?_ ?_ hstore hstop
  · intro stream'
    rw [hwritten, bytesOf_append, bytesOf_tagged, h.bytes, hsess, hpipes]
    by_cases heq : stream = stream'
    · subst heq
      rw [if_pos rfl, pipes_setPipe_self, List.append_assoc]
      rfl
    · rw [if_neg heq, List.append_nil,
        pipes_setPipe_of_ne (Stream.role_injective.ne (Ne.symm heq))]
  · refine h.exit.congr (by rw [hsess]) (by rw [hsess]) ?_ hwrap
    rw [hpipes, pipes_setPipe_of_ne stream.exit_ne_role]
  · intro stream' hc
    exact .inl (hsess ▸ hc)
  · rw [hsess]
  · rw [hsess]

/-- Processes close an end of a pipe; what they wrote stays in it. -/
theorem Accounted.childClose (h : Accounted token x) {role : Role} (hok : Ok token y)
    (hrole : role ≠ .exit) (hsess : y.session = x.session)
    (hpipes : y.pipes = (x.setPipe role (x.pipes role).hangUp).pipes)
    (hwrap : y.wrapper = x.wrapper) (hstore : y.store = x.store) (hstop : y.stopped = x.stopped)
    (hwritten : y.written = x.written) : Accounted token y := by
  have hbytes : ∀ role', (y.pipes role').bytes = (x.pipes role').bytes ∧
      ((x.pipes role').held = false → (y.pipes role').held = false) := by
    intro role'
    rw [hpipes]
    by_cases heq : role' = role
    · subst heq
      rw [pipes_setPipe_self]
      exact ⟨rfl, fun _ => rfl⟩
    · rw [pipes_setPipe_of_ne heq]
      exact ⟨rfl, id⟩
  have hxy : Settles x y := by
    refine ⟨fun stream hheld => ⟨(hbytes _).2 hheld, fun hb => ?_⟩, fun hc => hsess ▸ hc,
      fun _ => hwrap⟩
    rw [(hbytes _).1, hb]
  refine h.settles hxy hok ?_ ?_ ?_ ?_ ?_ hstore hstop
  · intro stream
    rw [hwritten, hsess, (hbytes _).1, h.bytes]
  · refine h.exit.congr (by rw [hsess]) (by rw [hsess]) ?_ hwrap
    rw [hpipes, pipes_setPipe_of_ne hrole.symm]
  · intro stream hc
    exact .inl (hsess ▸ hc)
  · rw [hsess]
  · rw [hsess]

theorem Accounted.wrapperEnds (h : Accounted token x) {w : Wrapper} (hok : Ok token y)
    (hrun : x.wrapper = .running) (hend : w ≠ .running) (hsess : y.session = x.session)
    (hpipes : y.pipes = (x.setPipe .exit ((x.pipes .exit).write w.line).hangUp).pipes)
    (hwrap : y.wrapper = w) (hstore : y.store = x.store) (hstop : y.stopped = x.stopped)
    (hwritten : y.written = x.written) : Accounted token y := by
  have hout : ∀ stream : Stream, y.pipes stream.role = x.pipes stream.role := by
    intro stream
    rw [hpipes, pipes_setPipe_of_ne stream.exit_ne_role.symm]
  have hexit : y.pipes .exit = ((x.pipes .exit).write w.line).hangUp := by
    rw [hpipes, pipes_setPipe_self]
  have hxy : Settles x y := by
    refine ⟨fun stream hheld => ?_, fun hc => hsess ▸ hc, fun hne => absurd hrun hne⟩
    rw [hout]
    exact ⟨hheld, id⟩
  refine h.settles hxy hok ?_ ⟨fun hnone => ?_, ?_, fun code hc => ?_⟩ ?_ ?_ ?_ hstore hstop
  · intro stream
    rw [hwritten, hsess, hout, h.bytes]
  · rw [hsess] at hnone ⊢
    obtain ⟨hline, hb⟩ := h.exit.line hnone
    refine ⟨hline, ?_⟩
    rw [hexit, hwrap]
    show (x.pipes .exit).bytes ++ w.line = w.line
    rw [hb, hrun]
    rfl
  · rw [hexit, hwrap, decide_eq_false hend]
    rfl
  · rw [hsess] at hc
    have hcode := h.exit.code code hc
    rw [hrun] at hcode
    cases hcode
  · intro stream hc
    exact .inl (hsess ▸ hc)
  · rw [hsess]
  · rw [hsess]

/-! ### The store -/

theorem Accounted.shutDown (h : Accounted token x) {r : SessionHandover}
    (hr : x.session.replied = some r)
    (hok : Ok token { x with
      store := x.store ++ r.fds.map fun (role, fd) => (fdName token role, fd)
      stopped := true }) :
    Accounted token { x with
      store := x.store ++ r.fds.map fun (role, fd) => (fdName token role, fd)
      stopped := true } := by
  have hfds := (h.ok.answered r hr).fds
  refine ⟨hok, h.bytes, h.exit.congr rfl rfl rfl rfl, h.closed, h.drained, h.drainedExit, ?_, ?_⟩
  · intro role hmem
    rcases List.mem_append.mp hmem with hmem | hmem
    · exact h.stored role hmem
    · obtain ⟨⟨role', fd⟩, hmem, heq⟩ := List.mem_map.mp hmem
      obtain ⟨hname, rfl⟩ := Prod.mk.inj heq
      cases fdName_inj hname
      have hend := mem_openFds.mp (hfds ▸ hmem)
      cases role with
      | stdin => trivial
      | stdout => exact h.drained .out (Option.some.inj (Option.ite_none_right_eq_some.mp hend).2)
      | stderr => exact h.drained .err (Option.some.inj (Option.ite_none_right_eq_some.mp hend).2)
      | exit => exact h.drainedExit (Option.some.inj (Option.ite_none_right_eq_some.mp hend).2)
  · intro _ role
    cases hend : x.session.task.openEnd role with
    | some fd =>
      have hmem : (role, fd) ∈ r.fds := hfds ▸ mem_openFds.mpr hend
      exact .inl ⟨fd, List.mem_append_right _ (List.mem_map.mpr ⟨(role, fd), hmem, rfl⟩)⟩
    | none =>
      refine .inr ?_
      cases role with
      | stdin => trivial
      | stdout =>
        have hclosed : x.session.task.stdoutOpen = false := by simpa [Task.openEnd] using hend
        exact h.closed .out hclosed
      | stderr =>
        have hclosed : x.session.task.stderrOpen = false := by simpa [Task.openEnd] using hend
        exact h.closed .err hclosed
      | exit =>
        intro hnone
        rw [Task.openEnd, show x.session.task.exitCode = none from hnone] at hend
        cases hend

theorem Accounted.discard (h : Accounted token x) {role : Role}
    (hspent : x.stopped = true → x.Spent role)
    (hok : Ok token { x with store := x.store.filter fun nf => nf.1 ≠ fdName token role }) :
    Accounted token { x with store := x.store.filter fun nf => nf.1 ≠ fdName token role } := by
  refine ⟨hok, h.bytes, h.exit.congr rfl rfl rfl rfl, h.closed, h.drained, h.drainedExit, ?_, ?_⟩
  · intro role' hmem
    exact h.stored role' (List.mem_filter.mp hmem).1
  · intro hstop role'
    by_cases heq : role' = role
    · exact .inr (heq ▸ hspent hstop)
    · refine (h.kept hstop role').imp_left ?_
      rintro ⟨fd, hmem⟩
      refine ⟨fd, List.mem_filter.mpr ⟨hmem, ?_⟩⟩
      exact decide_eq_true fun hname => heq (fdName_inj hname)

/-- A pipe end that is missing, or has been drained, has nothing more to say. -/
theorem Accounted.spent_of_receiver (h : Accounted token x) (hstop : x.stopped = true)
    {role : Role} (hd : receiver (fdFor x.store token role) = .drained) : x.Spent role := by
  cases hfd : fdFor x.store token role with
  | none =>
    rcases h.kept hstop role with ⟨fd, hmem⟩ | hspent
    · exact absurd hmem (notMem_of_fdFor_none hfd fd)
    · exact hspent
  | some fd =>
    rw [hfd] at hd
    have hfd' : fd = .drained := hd
    subst hfd'
    exact h.stored role (mem_of_fdFor h.ok.named hfd)

theorem Accounted.restart (h : Accounted token x) {r : SessionHandover}
    (hr : x.session.replied = some r) (hstop : x.stopped = true) (hok : Ok token y)
    (hsess : y.session = restoreSession x.session.trace (fdFor x.store token)
      { r.state with forwardAgent := x.session.agent })
    (hpipes : y.pipes = x.pipes) (hwrap : y.wrapper = x.wrapper) (hstore : y.store = x.store)
    (hup : y.stopped = false) (hwritten : y.written = x.written) : Accounted token y := by
  have hcode : y.session.io.exitCode = x.session.io.exitCode := by
    rw [hsess]
    exact (h.ok.answered r hr).exitCode
  have hxy : Settles x y := by
    refine ⟨fun stream hheld => ?_, fun hc => hcode ▸ hc, fun _ => hwrap⟩
    rw [hpipes]
    exact ⟨hheld, id⟩
  refine ⟨hok, ?_, ⟨?_, ?_, ?_⟩, ?_, ?_, ?_, ?_, ?_⟩
  · intro stream
    rw [hwritten, hpipes, hsess, h.bytes]
    rfl
  · rw [hcode, hpipes, hwrap, hsess]
    exact fun hnone => ⟨rfl, (h.exit.line hnone).2⟩
  · rw [hpipes, hwrap, h.exit.held]
  · rw [hcode, hwrap]
    exact h.exit.code
  · intro stream hc
    rw [hsess] at hc
    cases stream <;> cases hc
  · intro stream hd
    rw [hsess] at hd
    refine Spent.settles ?_ hxy
    cases stream
    · exact h.spent_of_receiver hstop hd
    · exact h.spent_of_receiver hstop hd
  · intro hd
    rw [hsess] at hd
    exact (h.spent_of_receiver hstop hd).settles hxy
  · intro role hmem
    exact (h.stored role (hstore ▸ hmem)).settles hxy
  · rw [hup]
    simp

end Host

/-! ### Runs -/

namespace Host

variable {token : String} {x y : Host}

theorem exitCode_of_exitRead {s s' : Session} {r : ReadResult}
    (hs : s.taskStep (.exitRead r) = some s') : s.io.exitCode = none := by
  cases TaskStep.of_taskStep hs with
  | exit _ hcode => exact hcode

theorem Accounted.step {l : HostLabel} (h : Accounted token x) (hc : DiscardsSpent x l)
    (hs : Step token x l y) : Accounted token y := by
  have hok := h.ok.step hs
  cases hs with
  | readData _ _ hs => exact h.readData hok (io_taskStep hs) rfl rfl rfl rfl rfl
  | readEof hend hs => exact h.readEof hok hend (io_taskStep hs) rfl rfl rfl rfl rfl
  | exitData _ hne hs =>
    obtain ⟨code, hreal, hcode⟩ := h.exit_line (exitCode_of_exitRead hs) hne
    refine h.readExit hok (io_taskStep hs) hcode hreal ?_ ?_ rfl rfl rfl rfl
    · exact fun stream => pipes_setPipe_of_ne stream.exit_ne_role.symm _ _
    · refine (congrArg Pipe.held (pipes_setPipe_self x .exit _)).trans ?_
      rfl
  | exitEof hend hs =>
    have hreal := h.exit_eof (exitCode_of_exitRead hs) hend
    exact h.readExit hok (io_taskStep hs) rfl hreal (fun _ => rfl) rfl rfl rfl rfl rfl
  | recv hs => exact h.frame hok (io_taskStep hs) (fun _ _ => rfl) rfl rfl rfl rfl
  | write _ _ _ hs =>
    exact h.frame hok (io_taskStep hs) (fun _ hne => pipes_setPipe_of_ne hne _ _) rfl rfl rfl rfl
  | writeFail _ hs => exact h.frame hok (io_taskStep hs) (fun _ _ => rfl) rfl rfl rfl rfl
  | reaped _ hs => exact h.frame hok (io_taskStep hs) (fun _ _ => rfl) rfl rfl rfl rfl
  | input => exact h.frame hok rfl (fun _ _ => rfl) rfl rfl rfl rfl
  | acked => exact h.frame hok rfl (fun _ _ => rfl) rfl rfl rfl rfl
  | childRead =>
    exact h.frame hok rfl (fun _ hne => pipes_setPipe_of_ne hne _ _) rfl rfl rfl rfl
  | childWrite => exact h.frame hok rfl (fun _ _ => rfl) rfl rfl rfl rfl
  | childWrote hheld => exact h.childWrote hok hheld rfl rfl rfl rfl rfl rfl
  | @childClose role hrole =>
    cases role <;> exact h.childClose hok hrole rfl rfl rfl rfl rfl rfl
  | @finish code hw =>
    exact h.wrapperEnds (w := .finished code) hok hw (by simp) rfl rfl rfl rfl rfl rfl
  | kill hw =>
    refine h.wrapperEnds (w := .killed) hok hw (by simp) rfl ?_ rfl rfl rfl rfl
    show (x.setPipe .exit (x.pipes .exit).hangUp).pipes = _
    rw [show (x.pipes .exit).write Wrapper.killed.line = x.pipes .exit by
      simp [Pipe.write, Wrapper.line]]
  | shutDown hr => exact h.shutDown hr hok
  | @discard role => exact h.discard (hc role rfl) hok
  | restart hr hdown => exact h.restart hr hdown hok rfl rfl rfl rfl rfl rfl

/-- The log tells the truth: an Exit entry says that the wrapper has ended, and how; and the log
of a task that has ended with it has all the output. -/
structure TellsTruth (x : Host) : Prop where
  exit : ∀ seq code, .exit seq code ∈ x.session.trace.pushed → x.wrapper.code = some code
  output : x.session.task.phase = .returned .exited →
    ∀ stream, bytesOf stream (outputs x.session.trace.pushed) = bytesOf stream x.written

/-- **The log tells the truth**, in every run in which the store discards no pipe end that has
something left to say. -/
theorem restart_tells_truth (h : (machine token).Under DiscardsSpent x) : TellsTruth x := by
  have hinv : Accounted token x := by
    refine h.invariant ?_ ?_
    · rintro x ⟨agent, pgid, cap, rfl⟩
      exact accounted_start _ _ _
    · intro x l y hx hc hs
      exact hx.step hc (Step.of_step hs)
  refine ⟨fun seq code hmem => ?_, fun hp stream => ?_⟩
  · obtain ⟨n, hn⟩ := List.getElem?_of_mem hmem
    exact hinv.exit.code code (hinv.ok.wf.exit_last hn).1
  · have hexit := hinv.ok.wf.exitOk
    unfold ExitOk at hexit
    rw [hp] at hexit
    have hclosed : x.session.io.isOpen stream = false := by
      cases stream
      · exact hexit.1
      · exact hexit.2.1
    rw [hinv.ok.wf.logged.read_eq, hinv.bytes, (spent_output.mp (hinv.closed stream hclosed)).1,
      List.append_nil]
    rfl

/-- The command writes a byte and fails with code 42 while the daemon is down. -/
def gapRun : List HostLabel :=
  [.input .handover, .recv, .shutDown, .childWrite .out [104], .childWrote .out 1, .finish 42,
   .childClose .stdin, .childClose .stdout, .childClose .stderr]

/-- The next daemon reads what there is, and ends the session. -/
def readRun : List HostLabel :=
  [.restart, .read .out, .read .out, .read .err, .readExit]

/-- The store keeps what it has. -/
def keptAll : Host := ((machine "t").run fresh (gapRun ++ readRun)).get (by decide)

theorem keptAll_tells_truth :
    keptAll.session.task.phase = .returned .exited ∧ TellsTruth keptAll ∧
    keptAll.session.trace.pushed = [.stdout 1 [104], .exit 2 42] := by
  have hunder : (machine "t").Under DiscardsSpent keptAll :=
    Machine.under_of_run (.init init_fresh)
      (fun _ l hl role heq => absurd (heq ▸ hl) (by cases role <;> decide))
      (Option.some_get _).symm
  exact ⟨by decide, restart_tells_truth hunder, by decide⟩

/-- The store discards the pipe ends that have hung up. -/
def discardedAll : Host :=
  ((machine "t").run fresh (gapRun ++ [.discard .stdout, .discard .exit] ++
    [.restart, .read .out, .read .err, .readExit])).get (by decide)

/-- The byte is gone, and the exit code is a made up one. -/
theorem discarded_ends_lose_output :
    (machine "t").Reachable discardedAll ∧
    discardedAll.session.task.phase = .returned .exited ∧
    discardedAll.session.trace.pushed = [.exit 1 255] ∧
    discardedAll.wrapper.code = some 42 ∧ bytesOf .out discardedAll.written = [104] ∧
    ¬ TellsTruth discardedAll := by
  have hreach : (machine "t").Reachable discardedAll :=
    Machine.reachable_of_run init_fresh (Option.some_get _).symm
  have hpushed : discardedAll.session.trace.pushed = [.exit 1 255] := by decide
  refine ⟨hreach, by decide, hpushed, by decide, by decide, fun h => ?_⟩
  have hcode := h.exit 1 255 (by rw [hpushed]; exact List.mem_singleton.mpr rfl)
  exact absurd hcode (by decide)

end Host

end HerdrEternal
