import Evemon.Lib.Transducer
import Evemon.EventRing

-- The text that on_fd_write_event of the write log and WriteView::append show for a write.
namespace Evemon.WriteText

open Transducer

inductive Escape where
  | ground
  | introduced
  | sequence
deriving DecidableEq

def printable (ch : UInt8) : Bool := ch = 10 || ch = 9 || (32 ≤ ch && ch < 127)

def escapeStep : Escape → UInt8 → Escape × List UInt8
  | .introduced, ch => (if ch = 0x5B then .sequence else .ground, [])
  | .sequence, ch => (if 0x40 ≤ ch ∧ ch ≤ 0x7E then .ground else .sequence, [])
  | .ground, ch => if ch = 0x1B then (.introduced, []) else (.ground, if printable ch then [ch] else [])

-- in_escape is local to the handler of one event.
def sanitise (bytes : Ipc.Bytes) : Ipc.Bytes := emit escapeStep .ground bytes

def shown (events : List Ipc.Bytes) : Ipc.Bytes := emitEach escapeStep .ground events

theorem hidden_outside_ground {state : Escape} (outside : state ≠ .ground) : emit escapeStep state [0x41] = [] := by
  cases state with
  | ground => exact absurd rfl outside
  | introduced => rfl
  | sequence => rfl

theorem shown_as_one_write_iff (events : List Ipc.Bytes) :
    (∀ earlier next, earlier <+: events → shown (earlier ++ [next]) = sanitise (earlier ++ [next]).flatten) ↔
    ∀ earlier, earlier <+: events → final escapeStep .ground earlier.flatten = .ground := by
  refine emit_each_iff escapeStep .ground events fun state outside => ⟨[0x41], ?_⟩
  rw [hidden_outside_ground outside]
  decide

theorem split_escape_is_shown : shown [[0x1B], [0x5B, 0x33, 0x31, 0x6D, 0x58]] = [0x5B, 0x33, 0x31, 0x6D, 0x58] ∧
    sanitise [[0x1B], [0x5B, 0x33, 0x31, 0x6D, 0x58]].flatten = [0x58] := by
  decide

end Evemon.WriteText
