import Mathlib.Tactic

/-!
# Bytes, words and bit-fields

Little-endian words of bytes, the bit-fields inside a word, and a write over a byte list at a
position.  The round trips: the `n` bytes of `v` read back `v % 256 ^ n` (`leValueAt_leBytes`), and
a field packed below or above another reads back alone (`bitsAt_add_mul_low`,
`bitsAt_add_mul_high`).
-/

namespace Bytes

/-- A byte list seen as memory from address `0`, zero past its end. -/
def listMem (l : List UInt8) : Nat → UInt8 :=
  fun i => l.getD i 0

/-- The `n` little-endian bytes of `v`. -/
def leBytes : Nat → Nat → List UInt8
  | 0, _ => []
  | n + 1, v => UInt8.ofNat (v % 256) :: leBytes n (v / 256)

/-- The number that the `n` little-endian bytes of memory `m` from address `a` stand for. -/
def leValueAt (m : Nat → UInt8) (a : Nat) : Nat → Nat
  | 0 => 0
  | n + 1 => (m a).toNat + 256 * leValueAt m (a + 1) n

/-- The `len` bits of `w` from bit `off` on. -/
def bitsAt (w off len : Nat) : Nat :=
  w / 2 ^ off % 2 ^ len

/-- The bit-field of `len` bits of `w` from bit `off` on. -/
def bitField (w off len : Nat) : Fin (2 ^ len) :=
  ⟨bitsAt w off len, Nat.mod_lt _ (Nat.two_pow_pos len)⟩

/-- `s` written over `l` from position `pos` on, as `write` after `lseek(fd, pos, SEEK_SET)` does
inside the file. -/
def writeAt {α : Type} (l : List α) (pos : Nat) (s : List α) : List α :=
  l.take pos ++ s ++ l.drop (pos + s.length)

@[simp] theorem length_leBytes (n v : Nat) : (leBytes n v).length = n := by
  induction n generalizing v with
  | zero => rfl
  | succ n ih => simp [leBytes, ih]

theorem listMem_append_left {l r : List UInt8} {i : Nat} (hi : i < l.length) :
    listMem (l ++ r) i = listMem l i := by
  simp [listMem, List.getD_eq_getElem?_getD, List.getElem?_append_left hi]

theorem listMem_append_right {l r : List UInt8} {n : Nat} (i : Nat) (h : l.length = n) :
    listMem (l ++ r) (n + i) = listMem r i := by
  subst h
  simp [listMem, List.getD_eq_getElem?_getD, List.getElem?_append_right]

theorem listMem_take {l : List UInt8} {n i : Nat} (h : i < n) :
    listMem (l.take n) i = listMem l i := by
  simp [listMem, List.getD_eq_getElem?_getD, h]

theorem listMem_drop (l : List UInt8) (k i : Nat) : listMem (l.drop k) i = listMem l (k + i) := by
  simp [listMem, List.getD_eq_getElem?_getD]

theorem listMem_of_prefix {l l' : List UInt8} (h : l <+: l') {i : Nat} (hi : i < l.length) :
    listMem l i = listMem l' i := by
  obtain ⟨t, rfl⟩ := h
  exact (listMem_append_left hi).symm

/-- The memory only matters on the bytes a word is read from. -/
theorem leValueAt_congr {m m' : Nat → UInt8} {a n : Nat} (h : ∀ i < n, m (a + i) = m' (a + i)) :
    leValueAt m a n = leValueAt m' a n := by
  induction n generalizing a with
  | zero => rfl
  | succ n ih =>
    have h0 : m a = m' a := h 0 (by omega)
    have hrest : leValueAt m (a + 1) n = leValueAt m' (a + 1) n := ih fun i hi => by
      have := h (i + 1) (by omega)
      rwa [show a + (i + 1) = a + 1 + i by omega] at this
    simp only [leValueAt, h0, hrest]

theorem leValueAt_leBytes (pre rest : List UInt8) (n v : Nat) :
    leValueAt (listMem (pre ++ leBytes n v ++ rest)) pre.length n = v % 256 ^ n := by
  induction n generalizing pre v with
  | zero => simp [leValueAt, Nat.mod_one]
  | succ n ih =>
    -- the first byte, then the other `n` read as the bytes of `v / 256` after one more byte
    have hrest := ih (pre ++ [UInt8.ofNat (v % 256)]) (v / 256)
    simp only [List.append_assoc, List.cons_append, List.nil_append, List.length_append,
      List.length_singleton] at hrest
    have hbyte : listMem (pre ++ UInt8.ofNat (v % 256) :: (leBytes n (v / 256) ++ rest))
        pre.length = UInt8.ofNat (v % 256) := by
      simp [listMem, List.getD_eq_getElem?_getD]
    have hval : (UInt8.ofNat (v % 256)).toNat = v % 256 := by simp
    simp only [leValueAt, leBytes, List.append_assoc, List.cons_append, hbyte]
    rw [hrest, hval, pow_succ', Nat.mod_mul]

/-- Word `k` of a list of `n`-byte words reads back that word. -/
theorem leValueAt_flatMap_leBytes (n : Nat) (pre rest : List UInt8) (ws : List Nat) {k : Nat}
    (hk : k < ws.length) :
    leValueAt (listMem (pre ++ ws.flatMap (leBytes n) ++ rest)) (pre.length + n * k) n =
      ws[k] % 256 ^ n := by
  induction ws generalizing pre k with
  | nil => simp at hk
  | cons w ws ih =>
    cases k with
    | zero =>
      have h0 := leValueAt_leBytes pre (ws.flatMap (leBytes n) ++ rest) n w
      simpa [List.append_assoc] using h0
    | succ k =>
      -- the word after the first, with the first word moved into the prefix
      have hk' := ih (pre ++ leBytes n w) (k := k) (by simpa using hk)
      simp only [List.append_assoc, List.length_append, length_leBytes] at hk'
      simpa [List.append_assoc, Nat.mul_succ, Nat.add_assoc, Nat.add_comm n] using hk'

theorem bitsAt_of_lt {a len : Nat} (ha : a < 2 ^ len) : bitsAt a 0 len = a := by
  simp [bitsAt, Nat.mod_eq_of_lt ha]

theorem bitsAt_add_mul_low {a k : Nat} (b : Nat) (ha : a < 2 ^ k) :
    bitsAt (a + 2 ^ k * b) 0 k = a := by
  simp [bitsAt, Nat.add_mul_mod_self_left, Nat.mod_eq_of_lt ha]

theorem bitsAt_add_mul_high {a k : Nat} (b off len : Nat) (ha : a < 2 ^ k) :
    bitsAt (a + 2 ^ k * b) (k + off) len = bitsAt b off len := by
  have hdiv : (a + 2 ^ k * b) / 2 ^ k = b := by
    rw [Nat.add_mul_div_left _ _ (by positivity), Nat.div_eq_of_lt ha, Nat.zero_add]
  simp only [bitsAt, Nat.pow_add, ← Nat.div_div_eq_div_mul, hdiv]

@[simp] theorem length_writeAt {α : Type} {l s : List α} {pos : Nat}
    (h : pos + s.length ≤ l.length) : (writeAt l pos s).length = l.length := by
  simp [writeAt]
  omega

/-- Writing over a piece of the same length replaces just that piece. -/
theorem writeAt_mid {α : Type} {pre mid post s : List α} (h : mid.length = s.length) :
    writeAt (pre ++ (mid ++ post)) pre.length s = pre ++ (s ++ post) := by
  simp [writeAt, ← h, List.drop_append]

end Bytes
