import StackQueue.Machine.Basic

/-! Sessions: calls made one after another on one machine. A call runs one instruction or a
whole program, and a session answers its calls in order, each on the machine the calls before it
left. Steps and runs may be mixed in any order; what a machine does over a session, and how a run
compares with the steps of its program, is stated in `StackQueue.Proofs.Machine.Lifecycle`. -/

namespace StackQueue.Machine

/-- One call on a machine. -/
inductive Request where
  /-- Runs one instruction. -/
  | step (ins : Instruction)
  /-- Runs a program. -/
  | run (p : Program)
  deriving DecidableEq, Repr

/-- Answers one call: the machine afterwards and the call's answer. -/
def perform (m : Machine) : Request → Machine × Except Fault Unit
  | .step ins => m.step ins
  | .run p => m.run p

/-- Answers the calls in order: the machine after the last of them, and each call's answer. -/
def session (m : Machine) : List Request → Machine × List (Except Fault Unit)
  | [] => (m, [])
  | r :: rs =>
    let next := m.perform r
    let rest := next.1.session rs
    (rest.1, next.2 :: rest.2)

@[simp] theorem session_nil (m : Machine) : m.session [] = (m, []) := rfl

@[simp] theorem session_cons (m : Machine) (r : Request) (rs : List Request) :
    m.session (r :: rs) =
      (((m.perform r).1.session rs).1, (m.perform r).2 :: ((m.perform r).1.session rs).2) := rfl

/-- A session of two parts is the first part, then the second on the machine it leaves. -/
theorem session_append (m : Machine) (rs rs' : List Request) :
    m.session (rs ++ rs') =
      (((m.session rs).1.session rs').1, (m.session rs).2 ++ ((m.session rs).1.session rs').2) := by
  induction rs generalizing m with
  | nil => rfl
  | cons r rs ih => simp [ih]

example :
    ((init .queue).session
        [.step ⟨"push", some "1", 1⟩, .run [⟨"sub", none, 2⟩], .step ⟨"push", some "2", 3⟩]).2 =
      [.ok (), .error (.trap 2 (.tooShort (.arith .sub))), .ok ()] := by
  rfl

end StackQueue.Machine
