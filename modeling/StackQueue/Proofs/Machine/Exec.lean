import StackQueue.Machine.Exec
import StackQueue.Proofs.Deque.Refinement

/-! An instruction on a container with a sound chain, read through its contents. Either it fails
as `Contents.exec` fails, and hands the container back as it was, or it succeeds as
`Contents.exec` succeeds, and leaves a container with a sound chain and the contents that rule
gives. The failure an arithmetic opcode can meet after it has removed its front value never
happens: a container with two values in front still has a front once one of them is gone. -/

namespace StackQueue

/-- Only `push` reads its argument, so withholding the argument from the other opcodes changes
nothing. -/
theorem Contents.execOp_gated (op : Opcode) (argument : Option String) (c : Contents) :
    execOp op (if op.takesArgument then argument else none) c = execOp op argument c := by
  obtain ⟨values, mode⟩ := c
  -- each opcode other than push reduces once the shape of the values is known
  cases op <;> rcases values with _ | ⟨a, _ | ⟨b, rest⟩⟩ <;> rfl

namespace Deque

variable {d : Deque} {l : List Nat}

namespace Chain

/-- Each opcode on a container with a chain fails, or succeeds, as it does on the contents, and
a failure leaves the container as it was. -/
theorem exec_opcode (h : d.Chain l) (op : Opcode) (argument : Option String) :
    match Contents.execOp op argument d.contents with
    | .ok (c, text) =>
      ∃ d' l', op.exec argument d = (d', .ok text) ∧ d'.Chain l' ∧ d'.contents = c
    | .error t => op.exec argument d = (d, .error t) := by
  have hfront := h.front?_eq_head?
  cases op with
  | push =>
    simp only [Contents.execOp, Opcode.exec, pushValue?]
    cases argument.bind fun a => Numeral.parse? a.toList with
    | none => rfl
    | some v =>
      obtain ⟨l', hl'⟩ := h.call (.push v)
      exact ⟨d.push v, l', rfl, hl', h.contents_push v⟩
  | pall => exact ⟨d, l, rfl, h, rfl⟩
  | pint =>
    cases hv : d.toList with
    | nil => simp [Contents.execOp, Opcode.exec, values_contents, hv, hfront]
    | cons v rest =>
      simp [Contents.execOp, Opcode.exec, values_contents, hv, hfront]
      exact ⟨l, h⟩
  | pop =>
    cases hv : d.toList with
    | nil => simp [Contents.execOp, Opcode.exec, values_contents, hv, hfront]
    | cons v rest =>
      simp only [Contents.execOp, Opcode.exec, values_contents, hv, hfront, List.head?_cons]
      refine ⟨d.dropFront, l.tail, rfl, h.dropFront, ?_⟩
      rw [h.contents_dropFront]
      simp [Contents.dropFront, values_contents, hv]
  | swap =>
    rcases hv : d.toList with _ | ⟨a, _ | ⟨b, rest⟩⟩
    · simp [Contents.execOp, Opcode.exec, values_contents, hv, h.frontPair?_eq]
    · simp [Contents.execOp, Opcode.exec, values_contents, hv, h.frontPair?_eq]
    · simp only [Contents.execOp, Opcode.exec, values_contents, hv, h.frontPair?_eq]
      refine ⟨d.swapFront, l, rfl, h.swapFront, ?_⟩
      rw [h.contents_swapFront]
      simp [Contents.swapFront, values_contents, hv]
  | arith op =>
    rcases hv : d.toList with _ | ⟨a, _ | ⟨b, rest⟩⟩
    · simp [Contents.execOp, Opcode.exec, values_contents, hv, h.frontPair?_eq]
    · simp [Contents.execOp, Opcode.exec, values_contents, hv, h.frontPair?_eq]
    · simp only [Contents.execOp, Opcode.exec, values_contents, hv, h.frontPair?_eq]
      cases hr : op.apply b a with
      | none => rfl
      | some r =>
        -- the front value is gone, and the second is the new front
        have hrest : d.dropFront.toList = b :: rest := by rw [h.toList_dropFront, hv]; rfl
        have hnext : d.dropFront.front? = some b := by
          rw [h.dropFront.front?_eq_head?, hrest]; rfl
        simp only [hnext]
        refine ⟨_, l.tail, rfl, h.dropFront.setFront r, ?_⟩
        rw [h.dropFront.contents_setFront, h.contents_dropFront]
        simp [Contents.dropFront, Contents.setFront, values_contents, hv]
  | pchar =>
    cases hv : d.toList with
    | nil => simp [Contents.execOp, Opcode.exec, values_contents, hv, hfront]
    | cons v rest =>
      cases hc : v.toAscii? with
      | none => simp [Contents.execOp, Opcode.exec, values_contents, hv, hfront, hc]
      | some ch =>
        simp [Contents.execOp, Opcode.exec, values_contents, hv, hfront, hc]
        exact ⟨l, h⟩
  | pstr => exact ⟨d, l, rfl, h, rfl⟩
  | rotl =>
    obtain ⟨l', hl'⟩ := h.rotateLeft_exists
    exact ⟨d.rotateLeft, l', rfl, hl', h.contents_rotateLeft⟩
  | rotr =>
    obtain ⟨l', hl'⟩ := h.rotateRight_exists
    exact ⟨d.rotateRight, l', rfl, hl', h.contents_rotateRight⟩
  | stack => exact ⟨_, l, rfl, h.setMode .stack, rfl⟩
  | queue => exact ⟨_, l, rfl, h.setMode .queue, rfl⟩

/-- Each instruction on a container with a chain fails, or succeeds, as it does on the contents,
and a failure leaves the container as it was. -/
theorem exec_instruction (h : d.Chain l) (ins : Instruction) :
    match Contents.exec ins d.contents with
    | .ok (c, text) => ∃ d' l', ins.exec d = (d', .ok text) ∧ d'.Chain l' ∧ d'.contents = c
    | .error f => ins.exec d = (d, .error f) := by
  cases hop : Opcode.ofName? ins.opcode with
  | none => simp only [Contents.exec, Instruction.exec, hop]
  | some op =>
    have hspec := h.exec_opcode op (if op.takesArgument then ins.argument else none)
    rw [Contents.execOp_gated] at hspec
    split at hspec
    · next c text hx =>
      obtain ⟨d', l', hexec, hl', hc⟩ := hspec
      simp only [Contents.exec, Instruction.exec, hop, hx, Except.mapError, hexec]
      exact ⟨d', l', rfl, hl', hc⟩
    · next t hx =>
      simp only [Contents.exec, Instruction.exec, hop, hx, Except.mapError, hspec]

/-- A failing instruction hands back the container it was given. -/
theorem exec_error (h : d.Chain l) {ins : Instruction} {d' : Deque} {f : Fault}
    (hx : ins.exec d = (d', .error f)) : d' = d ∧ Contents.exec ins d.contents = .error f := by
  have hspec := h.exec_instruction ins
  split at hspec
  · next c text hc =>
    obtain ⟨d'', l', hexec, -⟩ := hspec
    rw [hexec] at hx
    cases hx
  · next g hg =>
    rw [hspec] at hx
    cases hx
    exact ⟨rfl, hg⟩

/-- After an instruction the container still has a chain. -/
theorem exec_chain (h : d.Chain l) (ins : Instruction) : ∃ l', (ins.exec d).1.Chain l' := by
  have hspec := h.exec_instruction ins
  split at hspec
  · obtain ⟨d', l', hexec, hl', -⟩ := hspec
    exact ⟨l', by rw [hexec]; exact hl'⟩
  · exact ⟨l, by rw [hspec]; exact h⟩

end Chain

end Deque

end StackQueue
