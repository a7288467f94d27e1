import Mathlib.Tactic

/-!
# One's complement sums of 16-bit words

The Internet checksum adds 16-bit words with end-around carry (`onesAdd`, `onesSum`) and
complements the result (`inetChecksum`).  Arithmetic with end-around carry is arithmetic modulo
`65535` in which `0xffff` stands for the nonzero multiples, so a value is fixed by its residue and
by whether the words were all zero (`eq_of_mod_eq`).  Two consequences:

* a 32-bit accumulator of plain sums, folded twice (`fold16`), gives the one's complement sum
  (`fold16_fold16_eq_onesSum`);
* exchanging the two bytes of each word exchanges the bytes of the sum, since a byte swap is
  multiplication by `256` modulo `65535` (`onesSum_map_swap16`); so the sum may be taken in either
  byte order.
-/

namespace OnesComplement

/-- Addition with end-around carry. -/
def onesAdd (a b : Nat) : Nat :=
  if a + b < 65536 then a + b else a + b - 65535

/-- The one's complement sum of a list of words. -/
def onesSum (ws : List Nat) : Nat :=
  ws.foldl onesAdd 0

/-- `(s & 0xffff) + (s >> 16)`: one carry folded back. -/
def fold16 (s : Nat) : Nat :=
  (s &&& 0xffff) + (s >>> 16)

/-- The bytes of a word exchanged. -/
def swap16 (w : Nat) : Nat :=
  w % 256 * 256 + w / 256

/-- Big-endian 16-bit words of a byte string, an odd last byte padded with a zero byte. -/
def beWords : List UInt8 → List Nat
  | [] => []
  | [a] => [256 * a.toNat]
  | a :: b :: rest => (256 * a.toNat + b.toNat) :: beWords rest

/-- The Internet checksum: the complement of the one's complement sum of the big-endian words. -/
def inetChecksum (bs : List UInt8) : Nat :=
  65535 - onesSum (beWords bs)

/-! ## Values modulo `65535` -/

/-- Two values of at most `0xffff` with the same residue, zero together, are equal. -/
theorem eq_of_mod_eq {a b : Nat} (ha : a ≤ 65535) (hb : b ≤ 65535) (h : a % 65535 = b % 65535)
    (hz : a = 0 ↔ b = 0) : a = b := by
  by_cases h0 : a % 65535 = 0
  · -- each is `0` or `0xffff`, and being zero together decides which
    have ha' : a = 0 ∨ a = 65535 := by omega
    have hb' : b = 0 ∨ b = 65535 := by omega
    rcases ha' with rfl | rfl <;> rcases hb' with rfl | rfl <;> simp_all
  · -- a nonzero residue: both lie below `0xffff`, where a value is its residue
    have ha' : a < 65535 := lt_of_le_of_ne ha (by rintro rfl; simp at h0)
    have hb' : b < 65535 := lt_of_le_of_ne hb (by rintro rfl; simp [h] at h0)
    rwa [Nat.mod_eq_of_lt ha', Nat.mod_eq_of_lt hb'] at h

theorem onesAdd_le {a b : Nat} (ha : a ≤ 65535) (hb : b ≤ 65535) : onesAdd a b ≤ 65535 := by
  unfold onesAdd
  split_ifs <;> omega

theorem onesAdd_mod (a b : Nat) : onesAdd a b % 65535 = (a + b) % 65535 := by
  unfold onesAdd
  split_ifs <;> omega

/-- The fold of `onesAdd` from an accumulator: at most `0xffff`, the residue of the plain sum,
and zero only when everything was. -/
theorem foldl_onesAdd (ws : List Nat) (hws : ∀ w ∈ ws, w ≤ 65535) (acc : Nat) (hacc : acc ≤ 65535) :
    ws.foldl onesAdd acc ≤ 65535 ∧ ws.foldl onesAdd acc % 65535 = (acc + ws.sum) % 65535 ∧
      (ws.foldl onesAdd acc = 0 ↔ acc + ws.sum = 0) := by
  induction ws generalizing acc with
  | nil => simp [hacc]
  | cons w ws ih =>
    have hw := hws w (by simp)
    obtain ⟨h1, h2, h3⟩ := ih (fun v hv => hws v (by simp [hv])) (onesAdd acc w) (onesAdd_le hacc hw)
    rw [List.foldl_cons, List.sum_cons]
    have hmod := onesAdd_mod acc w
    refine ⟨h1, ?_, ?_⟩
    · rw [h2]
      omega
    · rw [h3]
      unfold onesAdd
      split_ifs <;> omega

theorem onesSum_spec (ws : List Nat) (hws : ∀ w ∈ ws, w ≤ 65535) :
    onesSum ws ≤ 65535 ∧ onesSum ws % 65535 = ws.sum % 65535 ∧ (onesSum ws = 0 ↔ ws.sum = 0) := by
  unfold onesSum
  simpa using foldl_onesAdd ws hws 0 (by norm_num)

theorem fold16_eq (s : Nat) : fold16 s = s % 65536 + s / 65536 := by
  unfold fold16
  rw [show (0xffff : Nat) = 2 ^ 16 - 1 by norm_num, Nat.and_two_pow_sub_one_eq_mod,
    Nat.shiftRight_eq_div_pow]

/-- Two folds of a 32-bit sum: at most `0xffff`, its residue, and zero only for zero. -/
theorem fold16_fold16_spec {s : Nat} (hs : s < 2 ^ 32) :
    fold16 (fold16 s) ≤ 65535 ∧ fold16 (fold16 s) % 65535 = s % 65535 ∧
      (fold16 (fold16 s) = 0 ↔ s = 0) := by
  rw [fold16_eq, fold16_eq]
  refine ⟨?_, ?_, ?_⟩ <;> omega

/-- Folding the plain sum twice is the one's complement sum. -/
theorem fold16_fold16_eq_onesSum (ws : List Nat) (hws : ∀ w ∈ ws, w ≤ 65535)
    (hs : ws.sum < 2 ^ 32) : fold16 (fold16 ws.sum) = onesSum ws := by
  obtain ⟨f1, f2, f3⟩ := fold16_fold16_spec hs
  obtain ⟨o1, o2, o3⟩ := onesSum_spec ws hws
  exact eq_of_mod_eq f1 o1 (by rw [f2, o2]) (by rw [f3, o3])

/-- The receiver's check: with the checksum of the words around a zero word put in its place, the
one's complement sum is `0xffff`. -/
theorem onesSum_insert_checksum (ws1 ws2 : List Nat) (h1 : ∀ w ∈ ws1, w ≤ 65535)
    (h2 : ∀ w ∈ ws2, w ≤ 65535) :
    onesSum (ws1 ++ (65535 - onesSum (ws1 ++ 0 :: ws2)) :: ws2) = 65535 := by
  have hz : ∀ w ∈ ws1 ++ 0 :: ws2, w ≤ 65535 := by
    intro w hw
    simp only [List.mem_append, List.mem_cons] at hw
    rcases hw with hw | rfl | hw
    · exact h1 w hw
    · norm_num
    · exact h2 w hw
  obtain ⟨z1, z2, z3⟩ := onesSum_spec _ hz
  have hc : ∀ w ∈ ws1 ++ (65535 - onesSum (ws1 ++ 0 :: ws2)) :: ws2, w ≤ 65535 := by
    intro w hw
    simp only [List.mem_append, List.mem_cons] at hw
    rcases hw with hw | rfl | hw
    · exact h1 w hw
    · omega
    · exact h2 w hw
  obtain ⟨c1, c2, c3⟩ := onesSum_spec _ hc
  simp only [List.sum_append, List.sum_cons, zero_add] at z2 z3 c2 c3
  -- the new sum is a nonzero multiple of `65535`
  omega

/-! ## Byte order -/

theorem swap16_le {w : Nat} (hw : w ≤ 65535) : swap16 w ≤ 65535 := by
  have hhi : w / 256 < 256 := Nat.div_lt_of_lt_mul (show w < 256 * 256 from Nat.lt_succ_of_le hw)
  have hlo := Nat.mod_lt w (show 256 > 0 by norm_num)
  unfold swap16
  omega

/-- A byte swap is multiplication by `256` modulo `65535`. -/
theorem swap16_mod (w : Nat) : swap16 w % 65535 = 256 * w % 65535 := by
  unfold swap16
  omega

theorem swap16_eq_zero_iff {w : Nat} (hw : w ≤ 65535) : swap16 w = 0 ↔ w = 0 := by
  unfold swap16
  omega

theorem swap16_complement {w : Nat} (hw : w ≤ 65535) : swap16 (65535 - w) = 65535 - swap16 w := by
  unfold swap16
  omega

theorem sum_map_swap16_mod (ws : List Nat) :
    (ws.map swap16).sum % 65535 = 256 * ws.sum % 65535 := by
  induction ws with
  | nil => simp
  | cons w ws ih =>
    rw [List.map_cons, List.sum_cons, List.sum_cons, Nat.add_mod, swap16_mod, ih]
    omega

theorem sum_map_swap16_eq_zero_iff (ws : List Nat) (hws : ∀ w ∈ ws, w ≤ 65535) :
    (ws.map swap16).sum = 0 ↔ ws.sum = 0 := by
  induction ws with
  | nil => simp
  | cons w ws ih =>
    have hw := swap16_eq_zero_iff (hws w (by simp))
    rw [List.map_cons, List.sum_cons, List.sum_cons, Nat.add_eq_zero_iff, Nat.add_eq_zero_iff, hw,
      ih (fun v hv => hws v (by simp [hv]))]

/-- The one's complement sum of the byte-swapped words is the byte-swapped sum. -/
theorem onesSum_map_swap16 (ws : List Nat) (hws : ∀ w ∈ ws, w ≤ 65535) :
    onesSum (ws.map swap16) = swap16 (onesSum ws) := by
  have hws' : ∀ v ∈ ws.map swap16, v ≤ 65535 := by
    intro v hv
    obtain ⟨w, hw, rfl⟩ := List.mem_map.1 hv
    exact swap16_le (hws w hw)
  obtain ⟨s1, s2, s3⟩ := onesSum_spec _ hws'
  obtain ⟨o1, o2, o3⟩ := onesSum_spec ws hws
  apply eq_of_mod_eq s1 (swap16_le o1)
  · rw [s2, swap16_mod, sum_map_swap16_mod ws, Nat.mul_mod, ← o2, ← Nat.mul_mod]
  · rw [s3, swap16_eq_zero_iff o1, o3, sum_map_swap16_eq_zero_iff ws hws]

/-- `x & 0xff00` of a 16-bit value keeps its high byte. -/
theorem land_ff00 {x : Nat} (hx : x < 65536) : x &&& 0xff00 = x / 256 * 256 := by
  apply Nat.eq_of_testBit_eq
  intro i
  have h1 : x / 256 * 256 = (x >>> 8) <<< 8 := by
    rw [Nat.shiftLeft_eq, Nat.shiftRight_eq_div_pow]
  rw [Nat.testBit_and, h1, Nat.testBit_shiftLeft, Nat.testBit_shiftRight]
  by_cases hi : i < 16
  · -- the bits of the mask itself
    by_cases hi8 : 8 ≤ i
    · have : (0xff00 : Nat).testBit i = true := by interval_cases i <;> decide
      simp [this, hi8, Nat.add_sub_cancel' hi8]
    · have : (0xff00 : Nat).testBit i = false := by interval_cases i <;> decide
      simp [this, hi8]
  · -- past bit 15 both sides are clear
    have h2 : 65536 ≤ 2 ^ i :=
      calc (65536 : Nat) = 2 ^ 16 := by norm_num
        _ ≤ 2 ^ i := Nat.pow_le_pow_right (by norm_num) (by omega)
    have hxi : x.testBit i = false := Nat.testBit_lt_two_pow (lt_of_lt_of_le hx h2)
    have : 8 + (i - 8) = i := by omega
    simp [hxi, this, show 8 ≤ i by omega]

theorem beWords_le (bs : List UInt8) : ∀ w ∈ beWords bs, w ≤ 65535 := by
  induction bs using beWords.induct with
  | case1 => simp [beWords]
  | case2 a =>
    have := a.toNat_lt
    simp [beWords]
    omega
  | case3 a b rest ih =>
    have := a.toNat_lt
    have := b.toNat_lt
    intro w hw
    simp only [beWords, List.mem_cons] at hw
    rcases hw with rfl | hw
    · omega
    · exact ih w hw

end OnesComplement
