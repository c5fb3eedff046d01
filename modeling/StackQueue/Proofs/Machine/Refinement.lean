import StackQueue.Machine.List
import StackQueue.Proofs.Machine.Exec

/-! The machine refines the machine on contents. Every machine that steps and runs build from a
new one has a container with a sound chain, since each step keeps one; on such a container each
instruction acts as it does on the contents. So, seen through the contents of its container,
each step of the machine is the step of `ListMachine` with the same answer, and by induction on
the program each run is its run. -/

namespace StackQueue.Machine

open Deque

variable {m : Machine} {l : List Nat}

theorem deque_finish (m : Machine) : m.finish.deque = m.deque := by
  unfold finish
  split <;> rfl

theorem view_finish (m : Machine) : m.finish.view = m.view.finish := by
  obtain ⟨d, output, line, executed, status⟩ := m
  cases status <;> rfl

/-! ### The chain along steps and runs -/

theorem step_chain (h : m.deque.Chain l) (ins : Instruction) :
    ∃ l', (m.step ins).1.deque.Chain l' := by
  by_cases hr : m.status = .running
  · obtain ⟨l', hl'⟩ := h.exec_chain ins
    rcases hx : ins.exec m.deque with ⟨d, _ | text⟩
    · rw [step_of_error hr hx]
      exact ⟨l', by rw [hx] at hl'; exact hl'⟩
    · rw [step_of_ok hr hx]
      exact ⟨l', by rw [hx] at hl'; exact hl'⟩
  · exact ⟨l, by rw [step_of_halted hr]; exact h⟩

theorem run_chain (h : m.deque.Chain l) (p : Program) : ∃ l', (m.run p).1.deque.Chain l' := by
  induction p generalizing m l with
  | nil => exact ⟨l, by rw [run, deque_finish]; exact h⟩
  | cons ins rest ih =>
    obtain ⟨l', hl'⟩ := step_chain h ins
    rw [run]
    split
    · next m' hs =>
      rw [hs] at hl'
      exact ih hl'
    · next m' f hs =>
      rw [hs] at hl'
      exact ⟨l', hl'⟩

/-- The container of every machine that steps and runs build has a chain. -/
theorem Reachable.chain (hm : m.Reachable) : ∃ l, m.deque.Chain l := by
  induction hm with
  | init mode => exact ⟨[], Chain.empty mode⟩
  | step ins _ ih =>
    obtain ⟨l, h⟩ := ih
    exact step_chain h ins
  | run p _ ih =>
    obtain ⟨l, h⟩ := ih
    exact run_chain h p

/-! ### Steps and runs through contents -/

/-- On a container with a chain, a step seen through contents is the step on contents. -/
theorem step_view (h : m.deque.Chain l) (ins : Instruction) :
    ((m.step ins).1.view, (m.step ins).2) = m.view.step ins := by
  by_cases hr : m.status = .running
  · have hspec := h.exec_instruction ins
    split at hspec
    · next c text hx =>
      obtain ⟨d, -, hexec, -, hc⟩ := hspec
      rw [step_of_ok hr hexec]
      simp only [ListMachine.step, view, hr, hx, hc]
    · next f hx =>
      rw [step_of_error hr hspec]
      simp only [ListMachine.step, view, hr, hx]
  · have hview : m.view.status ≠ .running := hr
    rw [step_of_halted hr]
    unfold ListMachine.step
    split
    · next hs => exact absurd hs hview
    · rfl

/-- On a container with a chain, a run seen through contents is the run on contents. -/
theorem run_view (h : m.deque.Chain l) (p : Program) :
    ((m.run p).1.view, (m.run p).2) = m.view.run p := by
  induction p generalizing m l with
  | nil => simp only [run, ListMachine.run, view_finish]
  | cons ins rest ih =>
    obtain ⟨l', hl'⟩ := step_chain h ins
    rw [run, ListMachine.run, ← step_view h ins]
    rcases hs : m.step ins with ⟨m', _ | u⟩
    · rfl
    · rw [hs] at hl'
      exact ih hl'

/-- Each machine that steps and runs build from a new one steps, seen through the contents of
its container, as the machine on contents does: the same answer, and the same contents, output,
line, count and status afterwards. -/
theorem step_refines (hm : m.Reachable) (ins : Instruction) :
    ((m.step ins).1.view, (m.step ins).2) = m.view.step ins := by
  obtain ⟨l, h⟩ := hm.chain
  exact step_view h ins

/-- A queue holding 1 and then 2 subtracts as the list `[1, 2]` does. -/
theorem sub_refines_on_queue :
    let m := (((init .queue).step ⟨"push", some "1", 1⟩).1.step ⟨"push", some "2", 2⟩).1
    let ins : Instruction := ⟨"sub", none, 3⟩
    m.Reachable ∧ ((m.step ins).1.view, (m.step ins).2) = m.view.step ins :=
  have hm : Machine.Reachable _ := .step _ (.step _ (.init .queue))
  ⟨hm, step_refines hm _⟩

end StackQueue.Machine
