import Mathlib.Tactic

/-!
# Flat memories, `memcpy` and `memcmp`

A memory is the value at every address, `Nat → α`.  `memcpy m dst src n` writes the first `n`
values of `src` at `dst, …, dst + n - 1` and leaves every other address alone; `memcmp p q n` is
the C test `memcmp(p, q, n) != 0`, true when the first `n` values of `p` and `q` differ somewhere.

The source of a `memcpy` is read before the write, which is the C semantics whenever source and
destination do not overlap (the only case C defines).
-/

namespace CMem

variable {α : Type}

/-- `memcpy(dst, src, n)` in the memory `m`. -/
def memcpy (m : Nat → α) (dst : Nat) (src : Nat → α) (n : Nat) : Nat → α :=
  fun a => if dst ≤ a ∧ a < dst + n then src (a - dst) else m a

/-- `memcmp(p, q, n) != 0`: the first `n` values of `p` and `q` differ somewhere. -/
def memcmp [DecidableEq α] (p q : Nat → α) (n : Nat) : Bool :=
  (List.range n).any fun i => decide (p i ≠ q i)

/-- The memory seen from address `a` on: `shift m a i` is `m (a + i)`. -/
def shift (m : Nat → α) (a : Nat) : Nat → α := fun i => m (a + i)

@[simp] theorem shift_apply (m : Nat → α) (a i : Nat) : shift m a i = m (a + i) := rfl

theorem memcmp_eq_false_iff [DecidableEq α] {p q : Nat → α} {n : Nat} :
    memcmp p q n = false ↔ ∀ i < n, p i = q i := by
  simp [memcmp]

@[simp] theorem memcmp_zero [DecidableEq α] (p q : Nat → α) : memcmp p q 0 = false := by
  simp [memcmp]

theorem memcpy_inside {m : Nat → α} {dst : Nat} {src : Nat → α} {n a : Nat}
    (h₁ : dst ≤ a) (h₂ : a < dst + n) : memcpy m dst src n a = src (a - dst) := by
  simp [memcpy, h₁, h₂]

theorem memcpy_outside {m : Nat → α} {dst : Nat} {src : Nat → α} {n a : Nat}
    (h : a < dst ∨ dst + n ≤ a) : memcpy m dst src n a = m a := by
  unfold memcpy
  rw [if_neg]
  omega

@[simp] theorem memcpy_add (m : Nat → α) (dst : Nat) (src : Nat → α) {n i : Nat} (h : i < n) :
    memcpy m dst src n (dst + i) = src i := by
  rw [memcpy_inside (by omega) (by omega), Nat.add_sub_cancel_left]

end CMem
