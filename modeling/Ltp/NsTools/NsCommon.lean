import Ltp.Library.OnesComplement

/-!
# The Internet checksum of the ns-tools (`calc_checksum` in `ns-common.c`)

`calc_checksum(data, size)` adds the buffer as host-order 16-bit words into a 32-bit sum, adds
`(*pos) & 0xff00` for an odd last byte, folds the carries twice and returns the complement as
`u_int16_t`.  The buffer is read through `load`, the byte at each offset from `data` or `none`
past the end of the C object; the host's byte order is a parameter.

* `calcChecksum_even`: on either host, for an even size up to 65536, the result stored in memory
  is the big-endian Internet checksum (RFC 1071) of the buffer, and `calcChecksum_verifies`: stored
  into a zeroed field, it makes the one's complement sum of the packet `0xffff`.
* `calcChecksum_odd_past_end`: for an odd size the last load reads `data[size]`, past the buffer.
* `calcChecksum_big_odd`: on a big-endian host the mask keeps the last byte, and the result is
  the checksum of the buffer padded with a zero byte.
* `calc_checksum_little_odd`: on a little-endian host the mask keeps the byte after the buffer and
  drops the last one: the result is the checksum of the buffer with its last byte replaced by `0`
  and the next byte of memory appended.
-/

namespace Ltp

open OnesComplement

/-- The byte order of the host. -/
inductive Endian
  | little
  | big
  deriving DecidableEq, Repr

/-- A 16-bit load of the bytes `b0` (lower address) and `b1`. -/
def load16 : Endian → UInt8 → UInt8 → Nat
  | .little, b0, b1 => b0.toNat + 256 * b1.toNat
  | .big, b0, b1 => 256 * b0.toNat + b1.toNat

/-- The two bytes a 16-bit store of `v` writes, lower address first. -/
def store16 : Endian → Nat → List UInt8
  | .little, v => [UInt8.ofNat (v % 256), UInt8.ofNat (v / 256)]
  | .big, v => [UInt8.ofNat (v / 256), UInt8.ofNat (v % 256)]

/-- The bytes of a C object: a load past its end is `none`. -/
def objectLoad (bs : List UInt8) (i : Nat) : Option UInt8 := bs[i]?

/-- `for (rest = size; rest > 1; rest -= 2) sum += *(pos++);`, over `k` words from offset `pos`. -/
def checksumLoop (e : Endian) (load : Nat → Option UInt8) : Nat → Nat → Nat → Option Nat
  | 0, _, sum => some sum
  | k + 1, pos, sum => do
    let b0 ← load pos
    let b1 ← load (pos + 1)
    checksumLoop e load k (pos + 2) ((sum + load16 e b0 b1) % 2 ^ 32)

/-- `calc_checksum(data, size)`. -/
def calcChecksum (e : Endian) (load : Nat → Option UInt8) (size : Nat) : Option Nat := do
  let sum ← checksumLoop e load (size / 2) 0 0
  -- `if (rest > 0) sum += (*pos) & 0xff00;`: a 16-bit load at the last byte
  let sum ← if size % 2 = 1 then do
      let b0 ← load (size - 1)
      let b1 ← load size
      pure ((sum + (load16 e b0 b1 &&& 0xff00)) % 2 ^ 32)
    else pure sum
  let sum := fold16 (fold16 sum)
  -- `sum = ~sum;` on `u_int32_t`, returned as `u_int16_t`
  return (2 ^ 32 - 1 - sum) % 2 ^ 16

/-! ## The loop -/

/-- The host-order words of a byte string; an odd last byte is left out. -/
def hostWords (e : Endian) : List UInt8 → List Nat
  | [] => []
  | [_] => []
  | a :: b :: rest => load16 e a b :: hostWords e rest

theorem load16_lt (e : Endian) (a b : UInt8) : load16 e a b < 65536 := by
  have := a.toNat_lt
  have := b.toNat_lt
  cases e <;> simp only [load16] <;> omega

theorem length_hostWords (e : Endian) (bs : List UInt8) : (hostWords e bs).length = bs.length / 2 := by
  induction bs using hostWords.induct with
  | case1 => rfl
  | case2 => simp [hostWords]
  | case3 a b rest ih =>
    simp only [hostWords, List.length_cons, ih]
    omega

/-- `k` rounds of the loop from `pos` add the next `k` words, modulo `2^32`. -/
theorem checksumLoop_eq (e : Endian) (bs : List UInt8) (k pos sum : Nat)
    (hk : pos + 2 * k ≤ bs.length) (hsum : sum < 2 ^ 32) :
    checksumLoop e (objectLoad bs) k pos sum =
      some ((sum + ((hostWords e (bs.drop pos)).take k).sum) % 2 ^ 32) := by
  induction k generalizing pos sum with
  | zero =>
    simp only [checksumLoop, List.take_zero, List.sum_nil, Nat.add_zero]
    rw [Nat.mod_eq_of_lt hsum]
  | succ k ih =>
    -- the two bytes at `pos` head what is left of the buffer
    have hdrop : bs.drop pos = bs[pos] :: bs[pos + 1] :: bs.drop (pos + 2) := by
      rw [List.drop_eq_getElem_cons (by omega), List.drop_eq_getElem_cons (by omega)]
    have h0 : objectLoad bs pos = some bs[pos] := List.getElem?_eq_getElem (by omega)
    have h1 : objectLoad bs (pos + 1) = some bs[pos + 1] := List.getElem?_eq_getElem (by omega)
    rw [checksumLoop, h0, Option.bind_eq_bind, Option.bind_some, h1, Option.bind_some,
      ih (pos + 2) _ (by omega) (Nat.mod_lt _ (by norm_num)), hdrop, hostWords, List.take_succ_cons, List.sum_cons]
    rw [Nat.add_mod, Nat.mod_mod, ← Nat.add_mod, Nat.add_assoc]

/-! ## Byte order -/

theorem hostWords_big (bs : List UInt8) (h : bs.length % 2 = 0) :
    hostWords .big bs = beWords bs := by
  induction bs using hostWords.induct with
  | case1 => rfl
  | case2 => simp at h
  | case3 a b rest ih =>
    simp only [List.length_cons] at h
    rw [hostWords, beWords, ih (by omega), load16]

theorem hostWords_little (bs : List UInt8) (h : bs.length % 2 = 0) :
    hostWords .little bs = (beWords bs).map swap16 := by
  induction bs using hostWords.induct with
  | case1 => rfl
  | case2 => simp at h
  | case3 a b rest ih =>
    simp only [List.length_cons] at h
    have ha := a.toNat_lt
    have hb := b.toNat_lt
    have hswap : swap16 (256 * a.toNat + b.toNat) = a.toNat + 256 * b.toNat := by
      unfold swap16
      omega
    rw [hostWords, beWords, ih (by omega), List.map_cons, load16, hswap]

/-- The two bytes a store writes, from the value that reads back as `v` in the other order. -/
theorem store16_little_swap16 {v : Nat} (hv : v ≤ 65535) : store16 .little (swap16 v) = store16 .big v := by
  simp only [store16, swap16, List.cons.injEq, and_true]
  constructor <;> congr 1 <;> omega

theorem hostWords_append (e : Endian) (ys zs : List UInt8) (h : ys.length % 2 = 0) :
    hostWords e (ys ++ zs) = hostWords e ys ++ hostWords e zs := by
  induction ys using hostWords.induct with
  | case1 => rfl
  | case2 => simp at h
  | case3 a b rest ih =>
    simp only [List.length_cons] at h
    rw [List.cons_append, List.cons_append, hostWords, hostWords, ih (by omega), List.cons_append]

theorem beWords_append (ys zs : List UInt8) (h : ys.length % 2 = 0) :
    beWords (ys ++ zs) = beWords ys ++ beWords zs := by
  induction ys using beWords.induct with
  | case1 => rfl
  | case2 => simp at h
  | case3 a b rest ih =>
    simp only [List.length_cons] at h
    rw [List.cons_append, List.cons_append, beWords, beWords, ih (by omega), List.cons_append]

/-! ## The checksum -/

/-- The sum of at most `2^15` words of 16 bits fits in 32 bits. -/
theorem sum_hostWords_le (e : Endian) (bs : List UInt8) (hlen : bs.length ≤ 65536) :
    (hostWords e bs).sum ≤ 32768 * 65535 := by
  have hw : ∀ w ∈ hostWords e bs, w ≤ 65535 := by
    intro w hw
    induction bs using hostWords.induct with
    | case1 => simp [hostWords] at hw
    | case2 => simp [hostWords] at hw
    | case3 a b rest ih =>
      simp only [hostWords, List.mem_cons] at hw
      rcases hw with rfl | hw
      · exact Nat.le_of_lt_succ (load16_lt e a b)
      · exact ih (by simp at hlen; omega) hw
  have hsum := List.sum_le_card_nsmul _ _ hw
  rw [length_hostWords, smul_eq_mul] at hsum
  calc (hostWords e bs).sum ≤ bs.length / 2 * 65535 := hsum
    _ ≤ 32768 * 65535 := Nat.mul_le_mul_right _ (by omega)

/-- What the function returns once the 32-bit sum `s` is known. -/
theorem calcChecksum_finish {s : Nat} (hs : s < 2 ^ 32) :
    (2 ^ 32 - 1 - fold16 (fold16 s)) % 2 ^ 16 = 65535 - fold16 (fold16 s) := by
  have := (fold16_fold16_spec hs).1
  omega

theorem calcChecksum_of_even (e : Endian) (bs : List UInt8) (heven : bs.length % 2 = 0)
    (hlen : bs.length ≤ 65536) :
    calcChecksum e (objectLoad bs) bs.length =
      some (65535 - fold16 (fold16 (hostWords e bs).sum)) := by
  have hs := sum_hostWords_le e bs hlen
  have hloop := checksumLoop_eq e bs (bs.length / 2) 0 0 (by omega) (by norm_num)
  rw [List.drop_zero, List.take_of_length_le (by rw [length_hostWords]), Nat.zero_add,
    Nat.mod_eq_of_lt (by omega)] at hloop
  simp only [calcChecksum, hloop, heven, Option.bind_eq_bind, Option.pure_def, Option.bind_some,
    Nat.zero_ne_one, if_false]
  rw [calcChecksum_finish (show (hostWords e bs).sum < 2 ^ 32 by omega)]

/-- On either host, the checksum of an even-sized buffer is stored as the big-endian Internet
checksum of it. -/
theorem calcChecksum_even (e : Endian) (bs : List UInt8) (heven : bs.length % 2 = 0)
    (hlen : bs.length ≤ 65536) :
    ∃ c, calcChecksum e (objectLoad bs) bs.length = some c ∧
      store16 e c = store16 .big (inetChecksum bs) := by
  have hs := sum_hostWords_le e bs hlen
  have hle := beWords_le bs
  rw [calcChecksum_of_even e bs heven hlen]
  cases e with
  | big =>
    rw [hostWords_big bs heven] at hs ⊢
    refine ⟨_, rfl, ?_⟩
    rw [fold16_fold16_eq_onesSum _ hle (by omega), inetChecksum]
  | little =>
    -- the little-endian words are the byte-swapped big-endian ones
    rw [hostWords_little bs heven] at hs ⊢
    have hsw : ∀ w ∈ (beWords bs).map swap16, w ≤ 65535 := by
      intro w hw
      obtain ⟨v, hv, rfl⟩ := List.mem_map.1 hw
      exact swap16_le (hle v hv)
    have hones := (onesSum_spec _ hle).1
    refine ⟨_, rfl, ?_⟩
    rw [fold16_fold16_eq_onesSum _ hsw (by omega), onesSum_map_swap16 _ hle,
      ← swap16_complement hones, store16_little_swap16 (by omega), inetChecksum]

theorem beWords_store16_big {v : Nat} (hv : v ≤ 65535) : beWords (store16 .big v) = [v] := by
  simp only [store16, beWords, UInt8.toNat_ofNat', List.cons.injEq, and_true]
  omega

/-- The receiver's check for an even-sized packet: with the checksum stored in place of a zeroed,
2-byte-aligned field, the one's complement sum of the big-endian words is `0xffff`. -/
theorem calcChecksum_verifies (e : Endian) (pre post : List UInt8) (hpre : pre.length % 2 = 0)
    (heven : post.length % 2 = 0) (hlen : pre.length + 2 + post.length ≤ 65536) :
    ∃ c, calcChecksum e (objectLoad (pre ++ [0, 0] ++ post)) (pre ++ [0, 0] ++ post).length =
        some c ∧ onesSum (beWords (pre ++ store16 e c ++ post)) = 65535 := by
  obtain ⟨c, hc, hstore⟩ := calcChecksum_even e (pre ++ [0, 0] ++ post) (by simp; omega)
    (by simp; omega)
  refine ⟨c, hc, ?_⟩
  have hwords : beWords (pre ++ [0, 0] ++ post) = beWords pre ++ 0 :: beWords post := by
    rw [List.append_assoc, beWords_append pre _ hpre, List.cons_append, List.cons_append,
      List.nil_append, beWords]
    simp
  have hchk : inetChecksum (pre ++ [0, 0] ++ post) ≤ 65535 := by
    unfold inetChecksum
    omega
  rw [hstore, List.append_assoc, beWords_append pre _ hpre,
    beWords_append _ post (by simp [store16]), beWords_store16_big hchk, inetChecksum, hwords,
    List.singleton_append]
  exact onesSum_insert_checksum _ _ (fun w hw => beWords_le pre w hw)
    (fun w hw => beWords_le post w hw)

/-- The ICMP echo header with id `0xCAFE` and sequence 1, checksummed on x86. -/
theorem calcChecksum_verifies_echo :
    ∃ c, calcChecksum .little (objectLoad ([8, 0] ++ [0, 0] ++ [0xCA, 0xFE, 0, 1]))
        ([8, 0] ++ [0, 0] ++ [0xCA, 0xFE, 0, 1]).length = some c ∧
      onesSum (beWords ([8, 0] ++ store16 .little c ++ [0xCA, 0xFE, 0, 1])) = 65535 :=
  calcChecksum_verifies .little [8, 0] [0xCA, 0xFE, 0, 1] (by decide) (by decide) (by decide)

/-- For an odd size the last 16-bit load reads the byte past the buffer. -/
theorem calcChecksum_odd_past_end (e : Endian) (bs : List UInt8) (hodd : bs.length % 2 = 1) :
    calcChecksum e (objectLoad bs) bs.length = none := by
  have hloop := checksumLoop_eq e bs (bs.length / 2) 0 0 (by omega) (by norm_num)
  have hlast : objectLoad bs (bs.length - 1) = some bs[bs.length - 1] :=
    List.getElem?_eq_getElem (by omega)
  have hpast : objectLoad bs bs.length = none := List.getElem?_eq_none (le_refl _)
  simp only [calcChecksum, hloop, hodd, if_true, hlast, hpast, Option.bind_eq_bind,
    Option.bind_some, Option.bind_none]

/-- An odd size `n + 1` inside a larger object: the loop adds the words before the last byte `y`,
and the last load reads `y` and the byte `x` after the buffer. -/
theorem calcChecksum_of_odd (e : Endian) (ys : List UInt8) (y x : UInt8) (rest : List UInt8)
    (heven : ys.length % 2 = 0) (hlen : ys.length + 1 ≤ 65535) :
    calcChecksum e (objectLoad (ys ++ y :: x :: rest)) (ys.length + 1) =
      some (65535 - fold16 (fold16 ((hostWords e ys).sum + load16 e y x / 256 * 256))) := by
  have hs := sum_hostWords_le e ys (by omega)
  have htail : load16 e y x / 256 * 256 ≤ 65535 := by
    have := load16_lt e y x
    omega
  have hwords : (hostWords e (ys ++ y :: x :: rest)).take (ys.length / 2) = hostWords e ys := by
    rw [hostWords_append e ys _ heven, List.take_left' (length_hostWords e ys)]
  have hloop := checksumLoop_eq e (ys ++ y :: x :: rest) ((ys.length + 1) / 2) 0 0
    (by simp; omega) (by norm_num)
  rw [show (ys.length + 1) / 2 = ys.length / 2 by omega, List.drop_zero, hwords, Nat.zero_add,
    Nat.mod_eq_of_lt (by omega)] at hloop
  have hy : objectLoad (ys ++ y :: x :: rest) (ys.length + 1 - 1) = some y := by
    simp [objectLoad]
  have hx : objectLoad (ys ++ y :: x :: rest) (ys.length + 1) = some x := by
    simp [objectLoad]
  simp only [calcChecksum, show (ys.length + 1) / 2 = ys.length / 2 by omega, hloop,
    show (ys.length + 1) % 2 = 1 by omega, if_true, hy, hx, Option.bind_eq_bind, Option.pure_def,
    Option.bind_some, land_ff00 (load16_lt e y x)]
  have hlt : (hostWords e ys).sum + load16 e y x / 256 * 256 < 2 ^ 32 := by omega
  rw [Nat.mod_eq_of_lt hlt, calcChecksum_finish hlt]

/-- On a big-endian host the mask keeps the last byte: the checksum is that of the buffer, padded
with a zero byte, although the byte after it is read. -/
theorem calcChecksum_big_odd (ys : List UInt8) (y x : UInt8) (rest : List UInt8)
    (heven : ys.length % 2 = 0) (hlen : ys.length + 1 ≤ 65535) :
    calcChecksum .big (objectLoad (ys ++ y :: x :: rest)) (ys.length + 1) =
      some (inetChecksum (ys ++ [y])) := by
  have hy := y.toNat_lt
  have hx := x.toNat_lt
  have hsum : (hostWords .big ys).sum + load16 .big y x / 256 * 256 = (beWords (ys ++ [y])).sum := by
    rw [hostWords_big ys heven, beWords_append ys [y] heven, List.sum_append, load16]
    simp only [beWords, List.sum_cons, List.sum_nil, Nat.add_zero]
    congr 1
    omega
  have hle := beWords_le (ys ++ [y])
  have hlt : (beWords (ys ++ [y])).sum < 2 ^ 32 := by
    have hs := sum_hostWords_le .big ys (by omega)
    have htail := load16_lt .big y x
    rw [← hsum]
    omega
  rw [calcChecksum_of_odd .big ys y x rest heven hlen, hsum,
    fold16_fold16_eq_onesSum _ hle hlt, inetChecksum]

/-- On a little-endian host the mask keeps the byte after the buffer and drops the last one: the
result is what the function gives for the buffer with its last byte replaced by `0` and the next
byte of memory appended. -/
theorem calcChecksum_little_odd_eq (ys : List UInt8) (y x : UInt8) (rest : List UInt8)
    (heven : ys.length % 2 = 0) (hlen : ys.length + 1 ≤ 65535) :
    calcChecksum .little (objectLoad (ys ++ y :: x :: rest)) (ys.length + 1) =
      calcChecksum .little (objectLoad (ys ++ [0, x])) (ys ++ [0, x]).length := by
  have hx := x.toNat_lt
  have hy := y.toNat_lt
  rw [calcChecksum_of_odd .little ys y x rest heven hlen,
    calcChecksum_of_even .little (ys ++ [0, x]) (by simp; omega) (by simp; omega),
    hostWords_append .little ys [0, x] heven, List.sum_append]
  simp only [hostWords, load16, List.sum_cons, List.sum_nil, Nat.add_zero, UInt8.toNat_zero]
  congr 4
  omega

/-- On a little-endian host an odd-sized buffer is checksummed as if its last byte were `0` and the
byte after it were part of it. -/
theorem calc_checksum_little_odd (ys : List UInt8) (y x : UInt8) (rest : List UInt8)
    (heven : ys.length % 2 = 0) (hlen : ys.length + 1 ≤ 65535) :
    ∃ c, calcChecksum .little (objectLoad (ys ++ y :: x :: rest)) (ys.length + 1) = some c ∧
      store16 .little c = store16 .big (inetChecksum (ys ++ [0, x])) := by
  rw [calcChecksum_little_odd_eq ys y x rest heven hlen]
  exact calcChecksum_even .little (ys ++ [0, x]) (by simp; omega) (by simp; omega)

/-- ns-icmpv4_sender with `-s 3` on x86: the ICMP echo request (type 8, code 0, zero checksum,
id `0xCAFE`, sequence 1, payload `0 1 2`) is followed by a zero byte of the cleared packet.  The
checksum stored is that of the segment with its last payload byte taken as `0`. -/
theorem calc_checksum_little_odd_icmp :
    (∃ c, calcChecksum .little (objectLoad ([8, 0, 0, 0, 0xCA, 0xFE, 0, 1, 0, 1] ++ 2 :: 0 :: []))
        ([8, 0, 0, 0, 0xCA, 0xFE, 0, 1, 0, 1] : List UInt8).length.succ = some c ∧
      store16 .little c = store16 .big (inetChecksum ([8, 0, 0, 0, 0xCA, 0xFE, 0, 1, 0, 1] ++ [0, 0]))) ∧
    store16 .big (inetChecksum ([8, 0, 0, 0, 0xCA, 0xFE, 0, 1, 0, 1] ++ [0, 0])) ≠
      store16 .big (inetChecksum [8, 0, 0, 0, 0xCA, 0xFE, 0, 1, 0, 1, 2]) :=
  ⟨calc_checksum_little_odd [8, 0, 0, 0, 0xCA, 0xFE, 0, 1, 0, 1] 2 0 [] (by decide) (by decide),
    by decide⟩

end Ltp
