import RaceConditionZ.Lib.Transition
import Mathlib.Data.List.Basic

/-!
# First-in-first-out queues

The queue a concurrent one should look like from outside: the values waiting, the oldest first. A
push is refused where `room` says that no more fit.
-/

namespace Fifo

open Transition

variable {T : Type*}

inductive Op (T : Type*)
  | push (value : T)
  | pop

def queue (room : ℕ → Bool) : System (List T) (Op T) where
  init := []
  step
    | waiting, .push value => if room waiting.length then some (waiting ++ [value]) else none
    | [], .pop => none
    | _ :: waiting, .pop => some waiting

/-- A log that grows by a value at its end takes the value in behind those waiting. -/
theorem step_push_drop {room : ℕ → Bool} {pushed : List T} {popped : ℕ} {value : T}
    (hle : popped ≤ pushed.length) (hroom : room (pushed.length - popped)) :
    (queue room).step (pushed.drop popped) (.push value)
      = some ((pushed ++ [value]).drop popped) := by
  simp only [queue, List.length_drop, hroom, if_true, List.drop_append_of_le_length hle]

/-- One more value taken from a log is the oldest waiting. -/
theorem step_pop_drop {room : ℕ → Bool} {pushed : List T} {popped : ℕ}
    (hlt : popped < pushed.length) :
    (queue room).step (pushed.drop popped) .pop = some (pushed.drop (popped + 1)) := by
  rw [List.drop_eq_getElem_cons hlt]
  rfl

end Fifo
