/-
What a reader looks at.

A reader of `Lib/Bytes.lean` that succeeds has taken some bytes off the
front of its input. It is `Local` when those bytes alone decide what it
returns: followed by anything else they are read the same way. The
elementary readers are local and sequencing keeps it, so a decoder put
together from them can be run again on a text of which only the front is
known.

`Get.stopsAt` is the position behind what a reader took.
-/
import FactoryCacher.Lib.Bytes

namespace FactoryCacher

namespace Get

variable {α β : Type}

/-- What the reader took decides what it returns. -/
def Local (x : Get α) : Prop :=
  ∀ buf a rest, x buf = .ok (a, rest) →
    ∃ taken, buf = taken ++ rest
      ∧ ∀ rest', x (taken ++ rest') = .ok (a, rest')

/-- A reader that takes nothing. -/
theorem Local.pure (a : α) : Local (pure a : Get α) := by
  intro buf b rest h
  cases h
  exact ⟨[], rfl, fun _ => rfl⟩

/-- One reader after the other: what both took, in a row. -/
theorem Local.bind {x : Get α} {f : α → Get β} (hx : Local x)
    (hf : ∀ a, Local (f a)) : Local (x >>= f) := by
  intro buf b rest h
  obtain ⟨a, mid, hfirst, hsecond⟩ := bind_eq_ok h
  obtain ⟨front, hbuf, hfront⟩ := hx _ _ _ hfirst
  obtain ⟨back, hmid, hback⟩ := hf a _ _ _ hsecond
  refine ⟨front ++ back, by rw [hbuf, hmid, List.append_assoc], ?_⟩
  intro rest'
  rw [List.append_assoc, run_bind_ok (hfront _)]
  exact hback rest'

/-- A reader chosen by a condition that is no part of the input. -/
theorem Local.ite {c : Prop} [Decidable c] {x y : Get α} (hx : Local x)
    (hy : Local y) : Local (if c then x else y) := by
  split
  · exact hx
  · exact hy

/-- The position behind what a reader took, 0 if it failed. -/
def stopsAt (x : Get α) (buf : Bytes) : Nat :=
  match x buf with
  | .ok (_, rest) => buf.length - rest.length
  | .error _ => 0

/-- Behind the bytes taken is where they end. -/
theorem stopsAt_eq {x : Get α} {taken rest : Bytes} {a : α}
    (h : x (taken ++ rest) = .ok (a, rest)) :
    x.stopsAt (taken ++ rest) = taken.length := by
  rw [stopsAt, h]
  show (taken ++ rest).length - rest.length = taken.length
  rw [List.length_append, Nat.add_sub_cancel]

end Get

/-- Taking bytes; the other readers are this and a conversion. -/
theorem tryTake_local (n : Nat) : (tryTake n).Local := by
  intro buf taken rest h
  obtain ⟨hlen, hbuf⟩ := tryTake_eq_ok h
  exact ⟨taken, hbuf, run_tryTake_append' hlen⟩

/-- A single byte. -/
theorem tryGetU8_local : tryGetU8.Local := by
  intro buf a rest h
  cases buf with
  | nil => cases h
  | cons b buf =>
      cases h
      exact ⟨[a], rfl, fun _ => rfl⟩

/-- Two bytes. -/
theorem tryGetU16Le_local : tryGetU16Le.Local :=
  (tryTake_local 2).bind fun _ => Get.Local.pure _

/-- Four bytes. -/
theorem tryGetU32Le_local : tryGetU32Le.Local :=
  (tryTake_local 4).bind fun _ => Get.Local.pure _

end FactoryCacher
