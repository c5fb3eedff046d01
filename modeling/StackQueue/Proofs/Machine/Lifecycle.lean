import StackQueue.Machine.Session

/-! The lifecycle of a machine over a session. A halted machine answers every later call with
success and stays as it is. A running machine fails exactly when a call fails, finishes exactly
when a run succeeds, and stays running after a step that succeeds; so a session has at most one
failing call, and a machine still running has made only steps, each of which succeeded, has
counted them and holds the line of the last.

A run is the steps of its program made one after another, whatever they answer, and then the
finishing of the machine: `run_append_steps` says that a run of `p ++ q` leaves the machine that
the steps of `p` and then a run of `q` leave, and answers the first failure among them. -/

namespace StackQueue.Machine

variable {m : Machine}

/-! ### Halted machines -/

theorem finish_of_halted (h : m.status ≠ .running) : m.finish = m := by
  unfold finish
  split
  · next hs => exact absurd hs h
  · rfl

theorem run_of_halted (h : m.status ≠ .running) (p : Program) : m.run p = (m, .ok ()) := by
  induction p with
  | nil => rw [run, finish_of_halted h]
  | cons ins rest ih =>
    rw [run, step_of_halted h]
    exact ih

theorem perform_of_halted (h : m.status ≠ .running) (r : Request) :
    m.perform r = (m, .ok ()) := by
  cases r with
  | step ins => exact step_of_halted h ins
  | run p => exact run_of_halted h p

/-- A halted machine answers every call of a session with success and stays as it is. -/
theorem session_of_halted (h : m.status ≠ .running) (rs : List Request) :
    m.session rs = (m, List.replicate rs.length (.ok ())) := by
  induction rs with
  | nil => rfl
  | cons r rs ih => simp [perform_of_halted h, ih, List.replicate_succ]

theorem running_of_session_running {rs : List Request}
    (h : (m.session rs).1.status = .running) : m.status = .running :=
  Decidable.byContradiction fun hne => by
    rw [session_of_halted hne] at h
    exact hne h

theorem running_of_step_error {ins : Instruction} {f : Fault} (h : (m.step ins).2 = .error f) :
    m.status = .running :=
  Decidable.byContradiction fun hne => by
    rw [step_of_halted hne] at h
    cases h

/-! ### The status after a call -/

/-- The status of a running machine after a call with the given answer: failed after a failure,
still running after a step that succeeded, and finished after a run that succeeded. -/
def Request.statusAfter : Request → Except Fault Unit → Status
  | _, .error _ => .failed
  | .step _, .ok () => .running
  | .run _, .ok () => .finished

@[simp] theorem Request.statusAfter_error (r : Request) (f : Fault) :
    r.statusAfter (.error f) = .failed := by
  cases r <;> rfl

theorem Request.statusAfter_run (p p' : Program) (a : Except Fault Unit) :
    (Request.run p).statusAfter a = (Request.run p').statusAfter a := by
  rcases a with f | ⟨⟩ <;> rfl

theorem status_step (h : m.status = .running) (ins : Instruction) :
    (m.step ins).1.status = (Request.step ins).statusAfter (m.step ins).2 := by
  rcases hx : ins.exec m.deque with ⟨d, f | text⟩
  · rw [step_of_error h hx]
    rfl
  · rw [step_of_ok h hx]
    exact h

theorem status_run (h : m.status = .running) (p : Program) :
    (m.run p).1.status = (Request.run p).statusAfter (m.run p).2 := by
  induction p generalizing m with
  | nil => simp [run, finish, h, Request.statusAfter]
  | cons ins rest ih =>
    have hs := status_step h ins
    rw [run]
    rcases hstep : m.step ins with ⟨m', f | ⟨⟩⟩
    · -- the run stops at the failing step, which failed the machine
      rw [hstep] at hs
      simpa using hs
    · -- the step left the machine running, and the run goes on with the rest
      rw [hstep] at hs
      rw [ih hs, Request.statusAfter_run rest (ins :: rest)]

/-- A call on a running machine leaves it with the status its answer says. -/
theorem status_perform (h : m.status = .running) (r : Request) :
    (m.perform r).1.status = r.statusAfter (m.perform r).2 := by
  cases r with
  | step ins => exact status_step h ins
  | run p => exact status_run h p

/-- A failing call halts the machine. -/
theorem halted_of_perform_error {r : Request} {m' : Machine} {f : Fault}
    (hp : m.perform r = (m', .error f)) : m'.status ≠ .running := by
  by_cases h : m.status = .running
  · have hs := status_perform h r
    rw [hp, Request.statusAfter_error] at hs
    rw [hs]
    exact nofun
  · rw [perform_of_halted h] at hp
    cases hp

/-- A step that succeeds on a running machine is counted, and its line recorded. -/
theorem step_counts (h : m.status = .running) {ins : Instruction} {m' : Machine}
    (hs : m.step ins = (m', .ok ())) : m'.executed = m.executed + 1 ∧ m'.line = ins.line := by
  rcases hx : ins.exec m.deque with ⟨d, f | text⟩
  · rw [step_of_error h hx] at hs
    cases hs
  · rw [step_of_ok h hx] at hs
    cases hs
    exact ⟨rfl, rfl⟩

/-! ### Failures and counts over a session -/

/-- At most one call of a session fails: the first failure halts the machine for good. -/
theorem countP_session_failed_le_one (m : Machine) (rs : List Request) :
    (m.session rs).2.countP (fun a => !a.isOk) ≤ 1 := by
  induction rs generalizing m with
  | nil => simp
  | cons r rs ih =>
    rcases hp : m.perform r with ⟨m', f | ⟨⟩⟩
    · simp [hp, session_of_halted (halted_of_perform_error hp), List.countP_replicate,
        Except.isOk, Except.toBool]
    · simpa [hp, Except.isOk, Except.toBool] using ih m'

/-- A session that leaves a running machine running made only steps, and each succeeded; the
machine counted each of them and holds the line of the last. -/
theorem session_running (h : m.status = .running) {rs : List Request}
    (h' : (m.session rs).1.status = .running) :
    ∃ prog : List Instruction, rs = prog.map .step ∧
      (m.session rs).2 = List.replicate rs.length (.ok ()) ∧
      (m.session rs).1.executed = m.executed + prog.length ∧
      (m.session rs).1.line = (prog.getLast?.map (·.line)).getD m.line := by
  induction rs generalizing m with
  | nil => exact ⟨[], rfl, rfl, rfl, rfl⟩
  | cons r rs ih =>
    rw [session_cons] at h' ⊢
    rcases hp : m.perform r with ⟨m', a⟩
    rw [hp] at h'
    -- the first call kept the machine running, since a halted machine stays halted
    have hm' : m'.status = .running := running_of_session_running h'
    -- so it was a step, and it succeeded
    have hr := status_perform h r
    rw [hp, hm'] at hr
    rcases r with ins | p <;> rcases a with f | ⟨⟩ <;> cases hr
    obtain ⟨prog, rfl, hans, hexec, hline⟩ := ih hm' h'
    obtain ⟨hcount, hlast⟩ := step_counts h hp
    refine ⟨ins :: prog, rfl, by rw [hans]; rfl, ?_, ?_⟩
    · rw [hexec, hcount, List.length_cons]
      omega
    · rw [hline, hlast, List.getLast?_cons]
      cases prog.getLast? <;> rfl

/-- The lifecycle of a machine over any session. A call on a running machine leaves it failed
exactly when the call fails, finished exactly when a run succeeds, and running otherwise; a halted
machine answers every later call with success and changes in nothing; at most one call of a
session fails; and a new machine that a session leaves running has received only steps, each of
which succeeded, has counted them all and holds the line of the last, or 0 if there was none. -/
theorem lifecycle :
    (∀ (m : Machine) (r : Request), m.status = .running →
      (m.perform r).1.status = r.statusAfter (m.perform r).2) ∧
    (∀ (m : Machine) (rs : List Request), m.status ≠ .running →
      m.session rs = (m, List.replicate rs.length (.ok ()))) ∧
    (∀ (m : Machine) (rs : List Request), (m.session rs).2.countP (fun a => !a.isOk) ≤ 1) ∧
    (∀ (mode : Mode) (rs : List Request), ((init mode).session rs).1.status = .running →
      ∃ prog : List Instruction, rs = prog.map .step ∧
        ((init mode).session rs).2 = List.replicate rs.length (.ok ()) ∧
        ((init mode).session rs).1.executed = prog.length ∧
        ((init mode).session rs).1.line = (prog.getLast?.map (·.line)).getD 0) := by
  refine ⟨fun m r h => status_perform h r, fun m rs h => session_of_halted h rs,
    countP_session_failed_le_one, fun mode rs h => ?_⟩
  obtain ⟨prog, hrs, hans, hexec, hline⟩ := session_running (m := init mode) rfl h
  exact ⟨prog, hrs, hans, by rw [hexec]; exact Nat.zero_add _, hline⟩

/-- On a new queue, a run of two pushes finishes the machine. Two pushes and an addition on
line 4, made as steps, leave a new queue running: they were three successful steps, all counted,
and the machine holds line 4. A `pop` on a new stack fails the machine, which then answers those
three steps with successes and stays as it is. -/
theorem lifecycle_on_small_sessions :
    let pushes : Program := [⟨"push", some "5", 1⟩, ⟨"push", some "7", 2⟩]
    let rs : List Request := (pushes ++ [Instruction.mk "add" none 4]).map .step
    let failed := ((init .stack).step ⟨"pop", none, 1⟩).1
    ((init .queue).perform (.run pushes)).1.status =
        (Request.run pushes).statusAfter ((init .queue).perform (.run pushes)).2 ∧
      (((init .queue).session rs).1.status = .running ∧
        ∃ prog : List Instruction, rs = prog.map .step ∧
          ((init .queue).session rs).2 = List.replicate rs.length (.ok ()) ∧
          ((init .queue).session rs).1.executed = prog.length ∧
          ((init .queue).session rs).1.line = (prog.getLast?.map (·.line)).getD 0) ∧
      failed.status ≠ .running ∧ failed.session rs = (failed, List.replicate rs.length (.ok ())) := by
  intro pushes rs failed
  have hrun : (init .queue).status = .running := rfl
  have hkept : ((init .queue).session rs).1.status = .running := rfl
  have hfailed : failed.status ≠ .running := by decide
  exact ⟨lifecycle.1 _ _ hrun, ⟨hkept, lifecycle.2.2.2 .queue rs hkept⟩, hfailed,
    lifecycle.2.1 failed rs hfailed⟩

/-! ### A run is the steps of its program -/

/-- A run of `p ++ q` leaves the machine that the steps of `p`, made one after another whatever
they answer, and then a run of `q` leave; it answers the first failure of those steps, or else
what the run of `q` answers. -/
theorem run_append_steps (m : Machine) (p q : Program) :
    m.run (p ++ q) =
      (((m.session (p.map .step)).1.run q).1,
        ((m.session (p.map .step)).2.find? (fun a => !a.isOk)).getD
          ((m.session (p.map .step)).1.run q).2) := by
  induction p generalizing m with
  | nil => rfl
  | cons ins p ih =>
    rcases hstep : m.step ins with ⟨m', f | ⟨⟩⟩
    · -- the run stops at the failing step, and the failed machine ignores everything after it
      have hf : m'.status ≠ .running := halted_of_perform_error (r := .step ins) hstep
      simp [run, hstep, perform, session_of_halted hf, run_of_halted hf, Except.isOk,
        Except.toBool]
    · simp [run, hstep, perform, ih, Except.isOk, Except.toBool]

/-- Once a step fails nothing after it has any effect: a run through that step ends with the
machine the step left, and with its failure. -/
theorem run_append_cons_of_step_error {p : Program} {ins : Instruction} {f : Fault}
    (hf : ((m.session (p.map .step)).1.step ins).2 = .error f) (rest : Program) :
    m.run (p ++ ins :: rest) = (((m.session (p.map .step)).1.step ins).1, .error f) := by
  -- the failing step ran, so the machine before it was running and every step of `p` succeeded
  have hr := running_of_step_error hf
  obtain ⟨-, -, hans, -⟩ := session_running (running_of_session_running hr) hr
  rw [run_append_steps m p (ins :: rest), hans, run]
  rcases hstep : (m.session (p.map .step)).1.step ins with ⟨m', a⟩
  rw [hstep] at hf
  subst hf
  simp [Except.isOk, Except.toBool]

/-- Run and steps agree: a run of `p ++ q` is the steps of `p` and then a run of `q`, and once a
step fails nothing after it has any effect, so the run ends with the machine that step left. -/
theorem run_append_eq_steps (m : Machine) (p q : Program) :
    m.run (p ++ q) =
      (((m.session (p.map .step)).1.run q).1,
        ((m.session (p.map .step)).2.find? (fun a => !a.isOk)).getD
          ((m.session (p.map .step)).1.run q).2) ∧
    ∀ (ins : Instruction) (rest : Program) (f : Fault),
      ((m.session (p.map .step)).1.step ins).2 = .error f →
      m.run (p ++ ins :: rest) = (((m.session (p.map .step)).1.step ins).1, .error f) :=
  ⟨run_append_steps m p q, fun _ rest _ hf => run_append_cons_of_step_error hf rest⟩

/-- Two pushes, then a division by zero on line 3 with a `pall` after it: the division's step
fails, and a run of the whole program ends with the machine that step left and its failure. -/
theorem run_stops_at_division_by_zero :
    let p : Program := [⟨"push", some "1", 1⟩, ⟨"push", some "0", 2⟩]
    let ins : Instruction := ⟨"div", none, 3⟩
    (((init .stack).session (p.map .step)).1.step ins).2 = .error (.trap 3 .divisionByZero) ∧
      (init .stack).run (p ++ ins :: [⟨"pall", none, 4⟩]) =
        ((((init .stack).session (p.map .step)).1.step ins).1,
          .error (.trap 3 .divisionByZero)) := by
  intro p ins
  have hfail : (((init .stack).session (p.map .step)).1.step ins).2 =
      .error (.trap 3 .divisionByZero) := rfl
  exact ⟨hfail, (run_append_eq_steps (init .stack) p []).2 ins _ _ hfail⟩

end StackQueue.Machine
