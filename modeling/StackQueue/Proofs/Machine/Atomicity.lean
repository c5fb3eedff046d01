import StackQueue.Proofs.Machine.Refinement

/-! A failing step changes nothing but the machine's line and status. Every check an instruction
makes reads the container before anything changes it, and the one check an arithmetic opcode
makes after removing its front value cannot fail on a container with a chain; so a failing
instruction hands the container back as it was. The machine then keeps its output and its count,
records the instruction's line and fails, and the fault names that line. -/

namespace StackQueue.Machine

variable {m m' : Machine} {ins : Instruction} {f : Fault}

theorem step_error_of_chain {l : List Nat} (h : m.deque.Chain l) (hr : m.status = .running)
    (hs : m.step ins = (m', .error f)) :
    m' = { m with line := ins.line, status := .failed } ∧ f.line? = some ins.line := by
  rcases hx : ins.exec m.deque with ⟨d, g | text⟩
  · obtain ⟨rfl, -⟩ := h.exec_error hx
    rw [step_of_error hr hx] at hs
    cases hs
    exact ⟨rfl, Instruction.line_of_exec hx⟩
  · rw [step_of_ok hr hx] at hs
    cases hs

/-- A failing step of a running machine that steps and runs have built keeps its container, its
output and its count, records the instruction's line and fails, and the fault names that line. -/
theorem step_error_atomic (hm : m.Reachable) (hr : m.status = .running)
    (hs : m.step ins = (m', .error f)) :
    m' = { m with line := ins.line, status := .failed } ∧ f.line? = some ins.line := by
  obtain ⟨l, h⟩ := hm.chain
  exact step_error_of_chain h hr hs

/-- Division by zero on a machine holding 0 in front of 5 fails at its line and keeps both
values. -/
theorem div_by_zero_atomic :
    let m := (((init .stack).step ⟨"push", some "5", 1⟩).1.step ⟨"push", some "0", 2⟩).1
    let ins : Instruction := ⟨"div", none, 3⟩
    m.Reachable ∧ m.status = .running ∧
      m.step ins = ((m.step ins).1, .error (.trap 3 .divisionByZero)) ∧
      (m.step ins).1 = { m with line := ins.line, status := .failed } ∧
      (Fault.trap 3 .divisionByZero).line? = some ins.line :=
  have hm : Machine.Reachable _ := .step _ (.step _ (.init .stack))
  ⟨hm, rfl, rfl, step_error_atomic hm rfl rfl⟩

end StackQueue.Machine
