import Ltp.Library.CInt

/-!
# The fake gateways of `ns-icmp_redirector` (`rand_within` in `ns-common.c`)

`ns-icmp_redirector` answers an ARP request or an IPv6 neighbour solicitation for the gateway with
a made-up gateway: a MAC address `00:00:00:xx:yy:zz` and a next hop whose last byte is random, both
drawn again until they differ from the previous ones.  The random bytes come from
`rand_within(first, last)`, which scales one `rand()` value as `rand() / ((RAND_MAX + 1U) / num) +
first` in `unsigned int`, `num = last - first + 1`.

The model takes the values `rand()` returns as a list; a loop that uses them all up is `none`, and
so is a division by zero.

* `randWithin_eq`: on `0 ≤ first ≤ last ≤ RAND_MAX` and a value of `rand()`, the result is
  `first + r / (2^31 / num)` read back as an `int`.
* `randWithin_mem_iff`: it lies in `[first, last]` exactly when `r < num * (2^31 / num)`, which
  holds for every value of `rand()` only when `num` divides `2^31`.  For `(0, 254)` and `(1, 254)`
  the top values of `rand()` give `255`.
* `returnArpReplyGateway_spec`, `returnNeighAdvGateway_spec`: the new MAC address and next hop
  differ from the previous ones, with bytes in `0 .. 255`, `1 .. 255` where the code asks for
  `0 .. 254` and `1 .. 254`.
* `return_arp_reply_broadcast`: on `rand() = RAND_MAX` both paths install the MAC address
  `00:00:00:ff:ff:ff` and a next hop ending in `255`, the broadcast address of the target's `/24`.
-/

namespace Ltp

open CInt

/-- `RAND_MAX` of glibc. -/
def randMax : Int := 2 ^ 31 - 1

/-- `rand_within(first, last)` on the value `r` of `rand()`; `none` is a division by zero. -/
def randWithin (r first last : Int) : Option Int :=
  let first := if first < 0 then 0 else first
  -- a negative `last` is above `RAND_MAX` as an `unsigned int`, so `last - first` cannot overflow
  let last := if randMax < toUnsigned 32 last then randMax else last
  let num := (toUnsigned 32 (last - first) + 1) % 2 ^ 32
  if num = 0 then none else
  let width := (toUnsigned 32 randMax + 1) % 2 ^ 32 / num
  if width = 0 then none else
  some (ofUnsigned 32 ((toUnsigned 32 r / width + toUnsigned 32 first) % 2 ^ 32))

/-- An `int` stored into an `unsigned char`. -/
def uchar (v : Int) : UInt8 :=
  UInt8.ofNat (toUnsigned 8 v)

/-- The loop of both replies that draws a fake MAC address: three zero bytes, then
`rand_within(0, 254)`, `rand_within(0, 254)` and `rand_within(1, 254)`, drawn again while
`memcmp` finds it equal to the gateway's.  Returns the address and the `rand()` values left. -/
def newHdAddrLoop (hdAddr : List UInt8) : List Int → Option (List UInt8 × List Int)
  | r3 :: r4 :: r5 :: rs => do
    let b3 ← randWithin r3 0 254
    let b4 ← randWithin r4 0 254
    let b5 ← randWithin r5 1 254
    let newHdAddr := [0, 0, 0, uchar b3, uchar b4, uchar b5]
    if newHdAddr ≠ hdAddr then some (newHdAddr, rs) else newHdAddrLoop hdAddr rs
  | _ => none

/-- The loop that draws a next hop: `base` with byte `i` set to `rand_within(1, 254)`, drawn again
while it equals the gateway's `nexthop`. -/
def newNexthopLoop (base : List UInt8) (i : Nat) (nexthop : List UInt8) :
    List Int → Option (List UInt8 × List Int)
  | r :: rs => do
    let b ← randWithin r 1 254
    let newNexthop := base.set i (uchar b)
    if newNexthop ≠ nexthop then some (newNexthop, rs) else newNexthopLoop base i nexthop rs
  | [] => none

/-- `struct ip4_gateway_info`. -/
structure Ip4GatewayInfo where
  hdAddr : List UInt8
  ipAddr : List UInt8
  nexthop : List UInt8
  deriving DecidableEq, Repr

/-- `struct ip6_gateway_info`, its addresses as the 16 bytes of `s6_addr`. -/
structure Ip6GatewayInfo where
  hdAddr : List UInt8
  ipAddr : List UInt8
  nexthop : List UInt8
  deriving DecidableEq, Repr

/-- The update of the gateway in `return_arp_reply`: a new MAC address, the target address of the
request `ar_tip`, and a new next hop in the `/24` of the target. -/
def returnArpReplyGateway (gw : Ip4GatewayInfo) (arTip : List UInt8) (rands : List Int) :
    Option (Ip4GatewayInfo × List Int) := do
  let (hdAddr, rands) ← newHdAddrLoop gw.hdAddr rands
  let (nexthop, rands) ← newNexthopLoop arTip 3 gw.nexthop rands
  some (⟨hdAddr, arTip, nexthop⟩, rands)

/-- `fe80::`, the next hop of `return_neigh_adv` before its last byte is drawn. -/
def linkLocalBase : List UInt8 :=
  0xfe :: 0x80 :: List.replicate 14 0

/-- The update of the gateway in `return_neigh_adv`: a new MAC address, the target of the
solicitation `nd_ns_target`, and a new next hop `fe80::xx`. -/
def returnNeighAdvGateway (gw : Ip6GatewayInfo) (target : List UInt8) (rands : List Int) :
    Option (Ip6GatewayInfo × List Int) := do
  let (hdAddr, rands) ← newHdAddrLoop gw.hdAddr rands
  let (nexthop, rands) ← newNexthopLoop linkLocalBase 15 gw.nexthop rands
  some (⟨hdAddr, target, nexthop⟩, rands)

/-! ### `rand_within` -/

section RandWithin

variable {first last r : Nat}

/-- On a range inside `[0, RAND_MAX]` and a value of `rand()`, `rand_within` computes
`first + r / (2^31 / num)` and reads it back as an `int`. -/
theorem randWithin_eq (hfl : first ≤ last) (hl : last < 2 ^ 31) (hr : r < 2 ^ 31) :
    randWithin r first last =
      some (ofUnsigned 32 (r / (2 ^ 31 / (last - first + 1)) + first)) := by
  have hrm : ¬ randMax < (toUnsigned 32 last : Int) := by
    rw [toUnsigned_of_lt (by omega) (by omega), randMax]
    omega
  have hsub : toUnsigned 32 ((last : Int) - first) = last - first := by
    have := toUnsigned_of_lt (w := 32) (x := (last : Int) - first) (by omega) (by omega)
    omega
  have hnum : (last - first + 1) % 2 ^ 32 = last - first + 1 := Nat.mod_eq_of_lt (by omega)
  have htop : (toUnsigned 32 randMax + 1) % 2 ^ 32 = 2 ^ 31 := by decide
  have hwidth : 0 < 2 ^ 31 / (last - first + 1) := Nat.div_pos (by omega) (by omega)
  have hq : r / (2 ^ 31 / (last - first + 1)) ≤ r := Nat.div_le_self _ _
  have hsum : (r / (2 ^ 31 / (last - first + 1)) + first) % 2 ^ 32 =
      r / (2 ^ 31 / (last - first + 1)) + first := Nat.mod_eq_of_lt (by omega)
  have hr' : toUnsigned 32 (r : Int) = r := by
    have := toUnsigned_of_lt (w := 32) (x := (r : Int)) (by omega) (by omega)
    omega
  have hf' : toUnsigned 32 (first : Int) = first := by
    have := toUnsigned_of_lt (w := 32) (x := (first : Int)) (by omega) (by omega)
    omega
  have hf0 : ¬ (first : Int) < 0 := by omega
  simp only [randWithin, if_neg hf0, if_neg hrm, hsub, hnum, htop, hr', hf', hsum,
    Nat.add_one_ne_zero, if_false, hwidth.ne', if_false]

/-- `rand_within` returns a value of the range exactly when `rand()` falls below the last whole
bucket of width `2^31 / num`. -/
theorem randWithin_mem_iff (hfl : first ≤ last) (hl : last < 2 ^ 31) (hr : r < 2 ^ 31) :
    (∃ v, randWithin r first last = some v ∧ first ≤ v ∧ v ≤ last) ↔
      r < (last - first + 1) * (2 ^ 31 / (last - first + 1)) := by
  have hwidth : 0 < 2 ^ 31 / (last - first + 1) := Nat.div_pos (by omega) (by omega)
  have hq : r / (2 ^ 31 / (last - first + 1)) ≤ r := Nat.div_le_self _ _
  rw [randWithin_eq hfl hl hr, ← Nat.div_lt_iff_lt_mul hwidth]
  generalize r / (2 ^ 31 / (last - first + 1)) = q at hq ⊢
  constructor
  · rintro ⟨v, hv, hlo, hhi⟩
    cases hv
    by_cases hsmall : q + first < 2 ^ (32 - 1)
    · rw [ofUnsigned_of_lt hsmall] at hhi
      omega
    · -- past `INT_MAX` the value reads back negative, below `first`
      rw [ofUnsigned_of_ge (Nat.le_of_not_lt hsmall)] at hlo
      omega
  · intro hlt
    have hsmall : q + first < 2 ^ (32 - 1) := by omega
    refine ⟨_, rfl, ?_, ?_⟩ <;> rw [ofUnsigned_of_lt hsmall] <;> omega

end RandWithin

/-- The bytes `rand_within(0, 254)` and `rand_within(1, 254)` give: never past `255`. -/
theorem randWithin_byte {r : Int} {first : Nat} {v : Int} (hf : first ≤ 1) (hr0 : 0 ≤ r)
    (hr : r ≤ randMax) (h : randWithin r first 254 = some v) : first ≤ v ∧ v ≤ 255 := by
  obtain ⟨n, rfl⟩ := Int.eq_ofNat_of_zero_le hr0
  have hn : n < 2 ^ 31 := by rw [randMax] at hr; omega
  have heq := @randWithin_eq first 254 n (by omega) (by omega) hn
  rw [Nat.cast_ofNat, h] at heq
  cases heq
  have hq : n / (2 ^ 31 / (254 - first + 1)) < 255 - first + 1 := by
    rw [Nat.div_lt_iff_lt_mul (Nat.div_pos (by omega) (by omega))]
    interval_cases first <;> omega
  generalize n / (2 ^ 31 / (254 - first + 1)) = q at hq ⊢
  rw [ofUnsigned_of_lt (by omega)]
  omega

/-- The top value of `rand()` gives `255` on both ranges the redirector asks for. -/
theorem randWithin_randMax : randWithin randMax 0 254 = some 255 ∧ randWithin randMax 1 254 = some 255 := by
  have hmax : randMax = 2147483647 := by rw [randMax]; norm_num
  have h0 := @randWithin_eq 0 254 2147483647 (by omega) (by omega) (by omega)
  have h1 := @randWithin_eq 1 254 2147483647 (by omega) (by omega) (by omega)
  simp only [Nat.cast_zero, Nat.cast_one, Nat.cast_ofNat] at h0 h1
  rw [hmax, h0, h1]
  constructor <;> decide

/-! ### The two loops -/

theorem uchar_toNat {v : Int} (h0 : 0 ≤ v) (h : v ≤ 255) : ((uchar v).toNat : Int) = v := by
  have hv : toUnsigned 8 v < 256 := toUnsigned_lt 8 v
  rw [uchar, UInt8.toNat_ofNat', Nat.mod_eq_of_lt hv, toUnsigned_of_lt h0 (by omega)]

/-- A byte from `rand_within(1, 254)` is never `0`. -/
theorem uchar_ne_zero {v : Int} (h1 : 1 ≤ v) (h : v ≤ 255) : uchar v ≠ 0 := by
  intro h0
  have := uchar_toNat (by omega) h
  rw [h0] at this
  simp at this
  omega

section Loops

variable {rands rest : List Int}

/-- The values of `rand()` are in `[0, RAND_MAX]`. -/
def RandValues (rands : List Int) : Prop :=
  ∀ r ∈ rands, 0 ≤ r ∧ r ≤ randMax

theorem RandValues.of_suffix {rands rest : List Int} (h : RandValues rands) (hs : rest <:+ rands) :
    RandValues rest :=
  fun r hr => h r (hs.subset hr)

/-- One round of the MAC loop whose address differs from the gateway's ends the loop. -/
theorem newHdAddrLoop_of_ne {old : List UInt8} {r3 r4 r5 b3 b4 b5 : Int} {rs : List Int}
    (h3 : randWithin r3 0 254 = some b3) (h4 : randWithin r4 0 254 = some b4)
    (h5 : randWithin r5 1 254 = some b5) (hne : [0, 0, 0, uchar b3, uchar b4, uchar b5] ≠ old) :
    newHdAddrLoop old (r3 :: r4 :: r5 :: rs) = some ([0, 0, 0, uchar b3, uchar b4, uchar b5], rs) := by
  simp only [newHdAddrLoop, h3, h4, h5, Option.bind_eq_bind, Option.bind_some]
  rw [if_pos hne]

/-- One round of the next-hop loop whose address differs from the gateway's ends the loop. -/
theorem newNexthopLoop_of_ne {base old : List UInt8} {i : Nat} {r b : Int} {rs : List Int}
    (hb : randWithin r 1 254 = some b) (hne : base.set i (uchar b) ≠ old) :
    newNexthopLoop base i old (r :: rs) = some (base.set i (uchar b), rs) := by
  simp only [newNexthopLoop, hb, Option.bind_eq_bind, Option.bind_some]
  rw [if_pos hne]

/-- The new MAC address: three zero bytes and three drawn ones, the last not `0`, different from
the gateway's; the `rand()` values left are a suffix of those given. -/
theorem newHdAddrLoop_spec {old a : List UInt8} (hr : RandValues rands)
    (h : newHdAddrLoop old rands = some (a, rest)) :
    (∃ b3 b4 b5 : UInt8, a = [0, 0, 0, b3, b4, b5] ∧ b5 ≠ 0) ∧ a ≠ old ∧ rest <:+ rands := by
  fun_induction newHdAddrLoop old rands with
  | case1 r3 r4 r5 rs ih =>
    simp only [Option.bind_eq_bind, Option.bind_eq_some_iff] at h
    obtain ⟨b3, hb3, b4, hb4, b5, hb5, h⟩ := h
    have hr5 := hr r5 (by simp)
    have hb5' := @randWithin_byte _ 1 _ (by omega) hr5.1 hr5.2 hb5
    have hrs : RandValues rs := hr.of_suffix (List.suffix_cons_iff.2 (.inr
      (List.suffix_cons_iff.2 (.inr (List.suffix_cons_iff.2 (.inr (List.suffix_refl rs)))))))
    split_ifs at h with hne
    · -- the drawn address differs: it is stored and the loop ends
      cases h
      refine ⟨⟨_, _, _, rfl, uchar_ne_zero (by exact_mod_cast hb5'.1) hb5'.2⟩, hne, ?_⟩
      exact (List.suffix_cons _ _).trans ((List.suffix_cons _ _).trans (List.suffix_cons _ _))
    · -- equal to the gateway's: the loop draws again
      obtain ⟨hbytes, hold, hsuf⟩ := ih hrs h
      exact ⟨hbytes, hold,
        hsuf.trans ((List.suffix_cons _ _).trans ((List.suffix_cons _ _).trans (List.suffix_cons _ _)))⟩
  | case2 => cases h

/-- The new next hop: `base` with byte `i` drawn and not `0`, different from the gateway's. -/
theorem newNexthopLoop_spec {base old a : List UInt8} {i : Nat} (hr : RandValues rands)
    (h : newNexthopLoop base i old rands = some (a, rest)) :
    (∃ b : UInt8, a = base.set i b ∧ b ≠ 0) ∧ a ≠ old ∧ rest <:+ rands := by
  fun_induction newNexthopLoop base i old rands with
  | case1 r rs ih =>
    simp only [Option.bind_eq_bind, Option.bind_eq_some_iff] at h
    obtain ⟨b, hb, h⟩ := h
    have hr1 := hr r (by simp)
    have hb' := @randWithin_byte _ 1 _ (by omega) hr1.1 hr1.2 hb
    split_ifs at h with hne
    · cases h
      exact ⟨⟨_, rfl, uchar_ne_zero (by exact_mod_cast hb'.1) hb'.2⟩, hne, List.suffix_cons _ _⟩
    · obtain ⟨hbyte, hold, hsuf⟩ := ih (hr.of_suffix (List.suffix_cons _ _)) h
      exact ⟨hbyte, hold, hsuf.trans (List.suffix_cons _ _)⟩
  | case2 => cases h

/-- What `return_arp_reply` stores in the gateway, whenever its loops end on the values of
`rand()`: a MAC address `00:00:00:xx:yy:zz` with `zz ≠ 0`, the target address, and a next hop in
its `/24` whose last byte is not `0`; both different from the previous ones. -/
theorem returnArpReplyGateway_spec {gw gw' : Ip4GatewayInfo} {arTip : List UInt8}
    (hr : RandValues rands) (h : returnArpReplyGateway gw arTip rands = some (gw', rest)) :
    (∃ b3 b4 b5 : UInt8, gw'.hdAddr = [0, 0, 0, b3, b4, b5] ∧ b5 ≠ 0) ∧ gw'.hdAddr ≠ gw.hdAddr ∧
      gw'.ipAddr = arTip ∧ (∃ b : UInt8, gw'.nexthop = arTip.set 3 b ∧ b ≠ 0) ∧
      gw'.nexthop ≠ gw.nexthop := by
  simp only [returnArpReplyGateway, Option.bind_eq_bind, Option.bind_eq_some_iff] at h
  obtain ⟨⟨hdAddr, rands'⟩, hmac, ⟨nexthop, rands''⟩, hnh, h⟩ := h
  cases h
  obtain ⟨hbytes, hne, hsuf⟩ := newHdAddrLoop_spec hr hmac
  obtain ⟨hbyte, hne', -⟩ := newNexthopLoop_spec (hr.of_suffix hsuf) hnh
  exact ⟨hbytes, hne, rfl, hbyte, hne'⟩

/-- The same for `return_neigh_adv`, whose next hop is `fe80::xx` with `xx ≠ 0`. -/
theorem returnNeighAdvGateway_spec {gw gw' : Ip6GatewayInfo} {target : List UInt8}
    (hr : RandValues rands) (h : returnNeighAdvGateway gw target rands = some (gw', rest)) :
    (∃ b3 b4 b5 : UInt8, gw'.hdAddr = [0, 0, 0, b3, b4, b5] ∧ b5 ≠ 0) ∧ gw'.hdAddr ≠ gw.hdAddr ∧
      gw'.ipAddr = target ∧ (∃ b : UInt8, gw'.nexthop = linkLocalBase.set 15 b ∧ b ≠ 0) ∧
      gw'.nexthop ≠ gw.nexthop := by
  simp only [returnNeighAdvGateway, Option.bind_eq_bind, Option.bind_eq_some_iff] at h
  obtain ⟨⟨hdAddr, rands'⟩, hmac, ⟨nexthop, rands''⟩, hnh, h⟩ := h
  cases h
  obtain ⟨hbytes, hne, hsuf⟩ := newHdAddrLoop_spec hr hmac
  obtain ⟨hbyte, hne', -⟩ := newNexthopLoop_spec (hr.of_suffix hsuf) hnh
  exact ⟨hbytes, hne, rfl, hbyte, hne'⟩

end Loops

/-- The MAC address both replies install when `rand()` returns `RAND_MAX` three times. -/
def broadcastHdAddr : List UInt8 := [0, 0, 0, 255, 255, 255]

/-- On `rand() = RAND_MAX`, unless the gateway already had them, both replies install the MAC
address `00:00:00:ff:ff:ff` and a next hop whose last byte is `255`: for IPv4 the broadcast
address of the target's `/24`. -/
theorem return_arp_reply_broadcast (gw4 : Ip4GatewayInfo) (gw6 : Ip6GatewayInfo)
    (arTip target : List UInt8) (rs : List Int) (h4 : gw4.hdAddr ≠ broadcastHdAddr)
    (h4' : gw4.nexthop ≠ arTip.set 3 255) (h6 : gw6.hdAddr ≠ broadcastHdAddr)
    (h6' : gw6.nexthop ≠ linkLocalBase.set 15 255) :
    returnArpReplyGateway gw4 arTip (randMax :: randMax :: randMax :: randMax :: rs) =
        some (⟨broadcastHdAddr, arTip, arTip.set 3 255⟩, rs) ∧
      returnNeighAdvGateway gw6 target (randMax :: randMax :: randMax :: randMax :: rs) =
        some (⟨broadcastHdAddr, target, linkLocalBase.set 15 255⟩, rs) := by
  obtain ⟨h0, h1⟩ := randWithin_randMax
  have hmac : [0, 0, 0, uchar 255, uchar 255, uchar 255] = broadcastHdAddr := by decide
  have h255 : uchar 255 = 255 := by decide
  constructor
  · rw [returnArpReplyGateway, newHdAddrLoop_of_ne h0 h0 h1 (hmac ▸ Ne.symm h4), hmac]
    dsimp only [Option.bind_eq_bind, Option.bind_some]
    rw [newNexthopLoop_of_ne h1 (h255 ▸ Ne.symm h4'), h255]
    rfl
  · rw [returnNeighAdvGateway, newHdAddrLoop_of_ne h0 h0 h1 (hmac ▸ Ne.symm h6), hmac]
    dsimp only [Option.bind_eq_bind, Option.bind_some]
    rw [newNexthopLoop_of_ne h1 (h255 ▸ Ne.symm h6'), h255]
    rfl

/-- The gateway `10.0.0.1`, `00:00:00:01:02:03`, next hop `10.0.0.2`: one ARP request on
`rand() = RAND_MAX` moves the next hop to `10.0.0.255`. -/
theorem return_arp_reply_broadcast_ten :
    returnArpReplyGateway ⟨[0, 0, 0, 1, 2, 3], [10, 0, 0, 1], [10, 0, 0, 2]⟩ [10, 0, 0, 1]
        [randMax, randMax, randMax, randMax] =
        some (⟨broadcastHdAddr, [10, 0, 0, 1], [10, 0, 0, 255]⟩, []) ∧
      returnNeighAdvGateway ⟨[0, 0, 0, 1, 2, 3], linkLocalBase, linkLocalBase.set 15 1⟩
        linkLocalBase [randMax, randMax, randMax, randMax] =
        some (⟨broadcastHdAddr, linkLocalBase, linkLocalBase.set 15 255⟩, []) :=
  return_arp_reply_broadcast ⟨[0, 0, 0, 1, 2, 3], [10, 0, 0, 1], [10, 0, 0, 2]⟩
    ⟨[0, 0, 0, 1, 2, 3], linkLocalBase, linkLocalBase.set 15 1⟩ [10, 0, 0, 1] linkLocalBase []
    (by decide) (by decide) (by decide) (by decide)

end Ltp
