import StackQueue.Word
import StackQueue.Text.Numeral
import StackQueue.Text.Blank
import StackQueue.Text.Utf8
import StackQueue.Opcode
import StackQueue.Fault
import StackQueue.Deque.Basic
import StackQueue.Deque.Call
import StackQueue.Program
import StackQueue.Machine.Exec
import StackQueue.Machine.Basic
import StackQueue.Machine.Session
import StackQueue.Command
import StackQueue.Contents
import StackQueue.Machine.List
import StackQueue.Main
import StackQueue.Proofs.Deque.Segment
import StackQueue.Proofs.Deque.Invariant
import StackQueue.Proofs.Deque.WellFormed
import StackQueue.Proofs.Deque.Refinement
import StackQueue.Proofs.Deque.Linking
import StackQueue.Proofs.Machine.Exec
import StackQueue.Proofs.Machine.Refinement
import StackQueue.Proofs.Machine.Atomicity
import StackQueue.Proofs.Machine.Lifecycle
import StackQueue.Proofs.Word.Arith
import StackQueue.Proofs.Text.Numeral
import StackQueue.Proofs.Program.Lines
