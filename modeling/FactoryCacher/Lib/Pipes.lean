/-
Byte streams that arrive in pieces.

A stream is reliable and in order, and nothing says how it is cut: what
was written is partly there and partly still on its way. `arrive` moves
any number of bytes, at any time. A reader sees `arrived` only; what a
proof needs to know is that the pieces put together are what was
written (`contents`), however they were cut.
-/
import FactoryCacher.Lib.Bytes

namespace FactoryCacher

structure Pipe where
  onTheWay : Bytes
  arrived : Bytes

namespace Pipe

def empty : Pipe := ⟨[], []⟩

def write (p : Pipe) (bytes : Bytes) : Pipe :=
  { p with onTheWay := p.onTheWay ++ bytes }

/-- The next `n` bytes arrive. -/
def arrive (p : Pipe) (n : Nat) : Pipe where
  onTheWay := p.onTheWay.drop n
  arrived := p.arrived ++ p.onTheWay.take n

/-- A reader took what is before `rest`. -/
def readTo (p : Pipe) (rest : Bytes) : Pipe := { p with arrived := rest }

/-- What was written and not read. -/
def contents (p : Pipe) : Bytes := p.arrived ++ p.onTheWay

@[simp] theorem contents_empty : empty.contents = [] := rfl

/-- Bytes that are written come behind those that are there. -/
@[simp] theorem contents_write (p : Pipe) (bytes : Bytes) :
    (p.write bytes).contents = p.contents ++ bytes :=
  (List.append_assoc ..).symm

/-- Where the stream is cut makes no difference. -/
@[simp] theorem contents_arrive (p : Pipe) (n : Nat) :
    (p.arrive n).contents = p.contents := by
  rw [contents, arrive, List.append_assoc, List.take_append_drop]
  rfl

/-- A stream with nothing in it is as it was at first. -/
theorem eq_empty {p : Pipe} (h : p.contents = []) : p = empty := by
  obtain ⟨harrived, honTheWay⟩ := List.append_eq_nil_iff.1 h
  cases p
  cases harrived
  cases honTheWay
  rfl

/-- Nothing arrives where nothing is on its way. -/
theorem arrive_eq_self {p : Pipe} {n : Nat} (h : n = 0 ∨ p.onTheWay = []) :
    p.arrive n = p := by
  cases p with
  | mk onTheWay arrived =>
      rcases h with rfl | rfl
      · simp [arrive]
      · simp [arrive]

/-- Everything has arrived when nothing is on its way. -/
theorem arrived_eq {p : Pipe} (h : p.onTheWay = []) :
    p.arrived = p.contents := by
  rw [contents, h, List.append_nil]

end Pipe

end FactoryCacher
