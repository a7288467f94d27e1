import Ltp.Lib.TstNet
import Ltp.Library.Bytes

/-!
# Test network variables (`tst_net_vars.c`)

`tst_net_vars IP_LHOST[/PREFIX] IP_RHOST[/PREFIX]` prints the shell variables of the network
tests: netmasks, the network and host parts of the two addresses, and a `/16` (IPv4) or `/32`
(IPv6) network for the tests to use that the local address is not in.

An IPv4 address is held as `ntohl(s_addr)` (`Inet`).  Where the code reads `s_addr` as a number
(`ip->s_addr & 0xff`, `(ip >> i) & 0xff`) the host is little-endian, so byte `k` of `s_addr` is octet
`k` of the text.  `rand()` is given by the values of its calls.

`get_ipv4_net16_unused` tries `10.23`, then two random `/16` networks, and takes the first whose
base address `x.y.0.0` is not in the local network `ip/p` (`is_in_subnet_ipv4`).  For `p ≤ 16` that
test is the right one: the network taken and `ip/p` do not meet (`getIpv4Net16Unused_disjoint`).
For a longer prefix the test looks at one address of the `/16` only, so it can take the `/16` of
`ip` itself (`get_ipv4_net16_unused_overlap`).
-/

namespace Ltp

open CText Inet

/-- `DEFAULT_IPV4_UNUSED_PART1` and `DEFAULT_IPV4_UNUSED_PART2`. -/
def defaultIpv4UnusedPart1 : Int := 10
def defaultIpv4UnusedPart2 : Int := 23

/-! ### Masks and subnets -/

/-- `prefix2mask(prefix)`, as `ntohl(mask.s_addr)`: `~((1 << (32 - prefix)) - 1)` in 32 bits for a
nonzero prefix.  The shift takes its count modulo 32, as `UInt32` and x86 do. -/
def prefix2mask (pfx : UInt32) : UInt32 :=
  if pfx ≠ 0 then ~~~((1 <<< (32 - pfx)) - 1) else 0

/-- `is_in_subnet_ipv4(network, mask, ip)`. -/
def isInSubnetIpv4 (network mask ip : UInt32) : Bool :=
  (ip &&& mask) == (network &&& mask)

/-! ### `get_ipv4_net16_unused` -/

/-- One attempt of `get_ipv4_net16_unused`: `sprintf(buf, "%s.0.0", net_unused)`,
`get_in_addr(buf, &network)`, and whether `!is_in_subnet_ipv4(ip, &mask, &network)`. -/
def net16Free (ip mask : UInt32) (netUnused : List Char) : Except (List Char) Bool := do
  let network ← getInAddr (netUnused ++ ".0.0".toList)
  return !isInSubnetIpv4 ip mask network

/-- The networks `get_ipv4_net16_unused(ip, prefix)` tries, in order, with `r1` and `r2` the two
values of `rand()`: `10.23`; then `10.y` with `y` random in the half of `[0, 255]` that the second
octet of `ip` is not in; then `x.23` likewise for the first octet. -/
def net16Candidates (ip : UInt32) (r1 r2 : Nat) : List (List Char) :=
  [fmtInt defaultIpv4UnusedPart1 ++ '.' :: fmtInt defaultIpv4UnusedPart2,
   fmtInt defaultIpv4UnusedPart1 ++ '.' :: fmtInt ((r1 % 128 : Nat) + if octet ip 1 < 128 then 128 else 0),
   fmtInt ((r2 % 128 : Nat) + if octet ip 0 < 128 then 128 else 0) ++ '.' :: fmtInt defaultIpv4UnusedPart2]

/-- The first candidate whose attempt succeeds (`return strdup(net_unused)`), `none` when every one
collides (`return NULL`). -/
def firstNet16Free (ip mask : UInt32) : List (List Char) → Except (List Char) (Option (List Char))
  | [] => .ok none
  | netUnused :: rest => do
    if ← net16Free ip mask netUnused then return some netUnused
    firstNet16Free ip mask rest

/-- `get_ipv4_net16_unused(ip, prefix)`: the text `x.y` of the network taken, `none` for `NULL`, or
the message of `tst_brk`.  (The network that `calc_network` computes first is overwritten before it
is read.) -/
def getIpv4Net16Unused (ip pfx : UInt32) (r1 r2 : Nat) : Except (List Char) (Option (List Char)) :=
  firstNet16Free ip (prefix2mask pfx) (net16Candidates ip r1 r2)

/-! ### Network and host parts -/

/-- `round_down_prefix(prefix, is_ipv6)`: down to a multiple of `BASE_IPV6_PREFIX` (16) or
`BASE_IPV4_PREFIX` (8). -/
def roundDownPrefix (pfx : UInt32) (isIpv6 : Bool) : UInt32 :=
  let basePrefix : UInt32 := if isIpv6 then 16 else 8
  pfx / basePrefix * basePrefix

/-- The loop of `get_ipv4_network` from bit `i` on, `k` rounds left: `"%d"` of byte `i / 8` of
`s_addr`, then `".%d"` of the next ones, while `prefix == 0 || i < prefix`. -/
def ipv4NetworkLoop (ip : UInt32) (pfx : Nat) : Nat → Nat → List Char
  | 0, _ => []
  | k + 1, i =>
    if pfx = 0 ∨ i < pfx then
      (if i = 0 then fmtInt (octet ip 0) else '.' :: fmtInt (octet ip (i / 8))) ++
        ipv4NetworkLoop ip pfx k (i + 8)
    else []

/-- `get_ipv4_network(ip, prefix)`, with `ip` the address of `s_addr`. -/
def getIpv4Network (ip pfx : UInt32) : Option (List Char) :=
  if 32 < pfx then none
  else if pfx = 32 then some []
  else some (ipv4NetworkLoop ip (pfx &&& 0x18).toNat 4 0)

/-- `INET6_ADDRSTRLEN`. -/
def inet6Addrstrlen : Nat := 46

/-- The loop of `get_ipv6_network` over the words from index `i`: the first `n = prefix >> 4`
words go into `ret` in `%x`, separated by colons, and `border` sums what `sprintf` printed for them
and one for each colon.  It gives `ret` and `border`. -/
def ipv6NetLoop (n : Nat) : Nat → List Nat → List Char × Nat
  | _, [] => ([], 0)
  | i, w :: ws =>
    if i < n then
      let rest := ipv6NetLoop n (i + 1) ws
      ((if 0 < i then [':'] else []) ++ fmtHex w ++ rest.1,
        (fmtHex w).length + (if 0 < i then 1 else 0) + rest.2)
    else ([], 0)

/-- `for (i = best = 0, max = 2; buf[i]; i++)`: at index `0` and at each colon, the length `j` of the
run of colons and zeros there; the first longest run past two is kept as `(best, max)`. -/
def runSearchLoop : List Char → Nat → Nat × Nat → Nat × Nat
  | [], _, st => st
  | c :: rest, i, (best, max) =>
    if i ≠ 0 ∧ c ≠ ':' then runSearchLoop rest (i + 1) (best, max)
    else
      let j := strspn (c :: rest) ":0".toList
      runSearchLoop rest (i + 1) (if max < j then (i, j) else (best, max))

/-- The four cases of `get_ipv6_network` that replace the run at `best` (`max` long) in the buffer
`ret` by `::`; `memmove` reads the buffer after `ret[best]` is written. -/
def compressRun (ret : List Char) (best max border : Nat) : List Char :=
  let bestEnd := best + max - 1
  if 2 < max ∧ best < border then
    if best = 0 ∧ border ≤ bestEnd then (ret.set 0 ':').set 1 '\x00'
    else if best = 0 then
      let r := ret.set 0 ':'
      Bytes.writeAt r 1 ((r.drop bestEnd).take (border - bestEnd + 1))
    else if border ≤ bestEnd then (ret.set best ':').set (best + 1) '\x00'
    else
      let r := ret.set best ':'
      Bytes.writeAt r (best + 1) ((r.drop bestEnd).take (border - best + 1))
  else ret

/-- `get_ipv6_network(a, prefix)`.  `buf` is the `"%x:%x:%x:%x:%x:%x:%x:%x"` of the eight words;
`ret` is the buffer of 100 characters the loop writes into, the rest of it modelled as `'\0'` (no
byte past the terminator reaches the result). -/
def getIpv6Network (a : In6Addr) (pfx : UInt32) : Option (List Char) :=
  if 128 < pfx then none
  else if pfx = 128 then some []
  else
    let buf := joinHex a.words
    let net := ipv6NetLoop (pfx.toNat / 16) 0 a.words
    let ret := net.1 ++ List.replicate (100 - net.1.length) '\x00'
    let run := runSearchLoop buf 0 (0, 2)
    let length := (cstr ret).length
    let ret := compressRun ret run.1 run.2 net.2
    if length < inet6Addrstrlen then some (cstr ret) else none

/-- The message of the failed `assert` in `get_host_from_ip`. -/
def hostAssertMessage : List Char :=
  "Assertion ip[index] == ':' || ip[index] == '.' failed".toList

/-- `get_host_from_ip(ip, net)`: the host part (`none` for `NULL`), or the message of the failed
`assert` that aborts the program. -/
def getHostFromIp (ip net : Option (List Char)) : Except (List Char) (Option (List Char)) :=
  match ip, net with
  | some ip, some net =>
    if strstr ip net ≠ some 0 then .ok none
    else
      let index := net.length
      if index = ip.length then .ok (some [])
      else if 0 < index ∧ index < ip.length then
        let len := ip.length - index - 1
        if ip[index]? = some ':' ∨ ip[index]? = some '.' then .ok (some ((ip.drop (index + 1)).take len))
        else .error hostAssertMessage
      else .ok (some ip)
  | _, _ => .ok none

/-! ### The masks are the netmasks of `Inet` -/

theorem prefix2mask_toNat {pfx : UInt32} (hp : pfx ≤ 32) :
    (prefix2mask pfx).toNat = 2 ^ 32 - 2 ^ (32 - pfx.toNat) := by
  have hp' : pfx.toNat ≤ 32 := UInt32.le_iff_toNat_le.1 hp
  by_cases h0 : pfx = 0
  · subst h0
    rfl
  have h0' : pfx.toNat ≠ 0 := fun h => h0 (UInt32.toNat_inj.1 (by simpa using h))
  have hsub : (32 - pfx).toNat = 32 - pfx.toNat := UInt32.toNat_sub_of_le _ _ hp
  have hlt : 2 ^ (32 - pfx.toNat) < 2 ^ 32 := Nat.pow_lt_pow_right (by norm_num) (by omega)
  -- `1 << (32 - prefix)` does not wrap for a nonzero prefix
  have hshift : ((1 : UInt32) <<< (32 - pfx)).toNat = 2 ^ (32 - pfx.toNat) := by
    rw [UInt32.toNat_shiftLeft, hsub, Nat.mod_eq_of_lt (show 32 - pfx.toNat < 32 by omega),
      UInt32.toNat_one, Nat.one_shiftLeft]
    exact Nat.mod_eq_of_lt hlt
  have hone : (1 : UInt32) ≤ 1 <<< (32 - pfx) := by
    rw [UInt32.le_iff_toNat_le, hshift, UInt32.toNat_one]
    exact Nat.one_le_two_pow
  rw [prefix2mask, if_pos h0, UInt32.toNat_not, UInt32.toNat_sub_of_le _ _ hone, hshift,
    UInt32.toNat_one, show UInt32.size = 2 ^ 32 from rfl]
  have := Nat.one_le_two_pow (n := 32 - pfx.toNat)
  omega

theorem prefix2mask_eq_netMask {pfx : UInt32} (hp : pfx ≤ 32) :
    prefix2mask pfx = netMask pfx.toNat := by
  have hpos := Nat.one_le_two_pow (n := 32 - pfx.toNat)
  rw [← UInt32.toNat_inj, prefix2mask_toNat hp, netMask,
    UInt32.toNat_ofNat_of_lt' (by rw [show UInt32.size = 2 ^ 32 from rfl]; omega)]

/-- `is_in_subnet_ipv4` with the mask of a prefix tests membership of the prefix's network. -/
theorem isInSubnetIpv4_iff {pfx : UInt32} (hp : pfx ≤ 32) (network ip : UInt32) :
    isInSubnetIpv4 network (prefix2mask pfx) ip = true ↔ InNet network pfx.toNat ip := by
  rw [isInSubnetIpv4, beq_iff_eq, prefix2mask_eq_netMask hp,
    and_netMask_eq_iff (UInt32.le_iff_toNat_le.1 hp)]

/-! ### The network `get_ipv4_net16_unused` takes -/

section Net16

variable {ip mask : UInt32} {s : List Char}

/-- An attempt that succeeds has read the candidate's base address, and it is outside `ip/p`. -/
theorem net16Free_eq_true (h : net16Free ip mask s = .ok true) :
    ∃ network, getInAddr (s ++ ".0.0".toList) = .ok network ∧
      isInSubnetIpv4 ip mask network = false := by
  unfold net16Free at h
  cases hnet : getInAddr (s ++ ".0.0".toList) with
  | error e =>
    rw [hnet] at h
    cases h
  | ok network =>
    rw [hnet] at h
    refine ⟨network, rfl, ?_⟩
    simpa using h

/-- What the search returns is a candidate whose attempt succeeded. -/
theorem firstNet16Free_some {l : List (List Char)} (h : firstNet16Free ip mask l = .ok (some s)) :
    s ∈ l ∧ net16Free ip mask s = .ok true := by
  induction l with
  | nil => cases h
  | cons c l ih =>
    unfold firstNet16Free at h
    -- the attempt on `c` fails the search, returns `c`, or hands over to the rest
    cases hc : net16Free ip mask c with
    | error e =>
      rw [hc] at h
      cases h
    | ok b =>
      cases b with
      | true =>
        rw [hc] at h
        cases h
        exact ⟨List.mem_cons_self, hc⟩
      | false =>
        rw [hc] at h
        obtain ⟨hmem, hfree⟩ := ih h
        exact ⟨List.mem_cons_of_mem c hmem, hfree⟩

/-- For a prefix of at most 16 bits the network taken and the local network do not meet: no
address is in both, the local one included. -/
theorem getIpv4Net16Unused_disjoint {pfx : UInt32} (hp : pfx ≤ 16) {r1 r2 : Nat}
    (h : getIpv4Net16Unused ip pfx r1 r2 = .ok (some s)) :
    ∃ network, getInAddr (s ++ ".0.0".toList) = .ok network ∧
      ¬ ∃ a, InNet network 16 a ∧ InNet ip pfx.toNat a := by
  obtain ⟨-, hfree⟩ := firstNet16Free_some h
  obtain ⟨network, hnet, hout⟩ := net16Free_eq_true hfree
  refine ⟨network, hnet, ?_⟩
  have hp' : pfx.toNat ≤ 16 := UInt32.le_iff_toNat_le.1 hp
  rw [overlap_iff, min_eq_right hp']
  intro hin
  have hp32 : pfx ≤ 32 := UInt32.le_iff_toNat_le.2 (by rw [show (32 : UInt32).toNat = 32 from rfl]; omega)
  have := (isInSubnetIpv4_iff hp32 ip network).2 hin.symm
  rw [hout] at this
  cases this

/-- `get_in_addr("10.23.0.0")`. -/
theorem getInAddr_default :
    getInAddr (fmtInt defaultIpv4UnusedPart1 ++ '.' :: fmtInt defaultIpv4UnusedPart2 ++
      ".0.0".toList) = .ok 0x0A170000 := by
  decide

/-- For every address of `10.23.0.0/16` outside the network `10.23.0.0/p`, which needs a prefix
longer than 16, `get_ipv4_net16_unused` returns `10.23`, and the `/16` network that text names holds
the address. -/
theorem get_ipv4_net16_unused_overlap (ip pfx : UInt32) (r1 r2 : Nat) (hp : pfx ≤ 32)
    (hin : InNet 0x0A170000 16 ip) (hout : ¬ InNet 0x0A170000 pfx.toNat ip) :
    getIpv4Net16Unused ip pfx r1 r2 = .ok (some "10.23".toList) ∧
      ∃ network, getInAddr ("10.23".toList ++ ".0.0".toList) = .ok network ∧ InNet network 16 ip := by
  have hfree : net16Free ip (prefix2mask pfx)
      (fmtInt defaultIpv4UnusedPart1 ++ '.' :: fmtInt defaultIpv4UnusedPart2) = .ok true := by
    have hcheck : isInSubnetIpv4 ip (prefix2mask pfx) 0x0A170000 = false := by
      rw [Bool.eq_false_iff, ne_eq, isInSubnetIpv4_iff hp]
      exact fun h => hout h.symm
    rw [net16Free, getInAddr_default]
    show (pure (!isInSubnetIpv4 ip (prefix2mask pfx) 0x0A170000) : Except (List Char) Bool) = _
    rw [hcheck]
    rfl
  refine ⟨?_, 0x0A170000, getInAddr_default, hin⟩
  unfold getIpv4Net16Unused net16Candidates
  rw [firstNet16Free, hfree]
  rfl

theorem get_ipv4_net16_unused_overlap_24 :
    getIpv4Net16Unused 0x0A170101 24 0 0 = .ok (some "10.23".toList) ∧
      ∃ network, getInAddr ("10.23".toList ++ ".0.0".toList) = .ok network ∧
        InNet network 16 0x0A170101 :=
  get_ipv4_net16_unused_overlap 0x0A170101 24 0 0 (by decide) (by decide) (by decide)

end Net16

/-! ### The run `get_ipv6_network` finds -/

section RunSearch

variable {rest : List Char} {i b m : Nat}

/-- The head of a nonzero word is neither a colon nor a zero. -/
theorem fmtHex_head_not_mem {w : Nat} (hw : w ≠ 0) :
    ∃ c t, fmtHex w = c :: t ∧ c ∉ ":0".toList := by
  obtain ⟨c, t, hct, hc0⟩ := fmtHex_head hw
  refine ⟨c, t, hct, ?_⟩
  have hcolon : c ≠ ':' := fun h => colon_not_mem_fmtHex w (by rw [hct, h]; exact List.mem_cons_self)
  simp [hc0, hcolon]

/-- Past index `0` the loop looks only at colons. -/
theorem runSearchLoop_skip {u : List Char} (hu : ':' ∉ u) (hi : 0 < i) :
    runSearchLoop (u ++ rest) i (b, m) = runSearchLoop rest (i + u.length) (b, m) := by
  induction u generalizing i with
  | nil => rfl
  | cons c u ih =>
    have hc : c ≠ ':' := fun h => hu (h ▸ List.mem_cons_self)
    rw [List.cons_append, runSearchLoop, if_pos ⟨by omega, hc⟩,
      ih (fun h => hu (List.mem_cons_of_mem c h)) (by omega), List.length_cons]
    congr 1
    omega

/-- At a colon before a nonzero word the run is the colon alone. -/
theorem runSearchLoop_word {w : Nat} (hw : w ≠ 0) (hi : 0 < i) (hm : 1 ≤ m) :
    runSearchLoop ((':' :: fmtHex w) ++ rest) i (b, m) =
      runSearchLoop rest (i + 1 + (fmtHex w).length) (b, m) := by
  obtain ⟨c, t, hct, hc⟩ := fmtHex_head_not_mem hw
  have hspan : strspn (':' :: (fmtHex w ++ rest)) ":0".toList = 1 := by
    rw [strspn_cons_of_mem (by decide), hct, List.cons_append, strspn_cons_of_not_mem hc]
  rw [List.cons_append, runSearchLoop, if_neg (by simp), hspan]
  dsimp only
  rw [if_neg (by omega), runSearchLoop_skip (colon_not_mem_fmtHex w) (by omega)]

theorem runSearchLoop_words {ws : List Nat} (hws : ∀ w ∈ ws, w ≠ 0) (hi : 0 < i) (hm : 1 ≤ m) :
    runSearchLoop ((ws.flatMap fun w => ':' :: fmtHex w) ++ rest) i (b, m) =
      runSearchLoop rest (i + (ws.flatMap fun w => ':' :: fmtHex w).length) (b, m) := by
  induction ws generalizing i with
  | nil => rfl
  | cons w ws ih =>
    rw [List.flatMap_cons, List.append_assoc,
      runSearchLoop_word (hws w List.mem_cons_self) hi hm,
      ih (fun v hv => hws v (List.mem_cons_of_mem w hv)) (by omega)]
    simp only [List.length_append, List.length_cons]
    congr 1
    omega

/-- A lone zero word between nonzero ones is a run of three, `:0:`, longer than the two to beat. -/
theorem runSearchLoop_lone_zero {w : Nat} (hw : w ≠ 0) (hi : 0 < i) :
    runSearchLoop (':' :: '0' :: ((':' :: fmtHex w) ++ rest)) i (b, 2) =
      runSearchLoop ((':' :: fmtHex w) ++ rest) (i + 2) (i, 3) := by
  obtain ⟨c, t, hct, hc⟩ := fmtHex_head_not_mem hw
  have hspan : strspn (':' :: '0' :: ((':' :: fmtHex w) ++ rest)) ":0".toList = 3 := by
    rw [strspn_cons_of_mem (by decide), strspn_cons_of_mem (by decide), List.cons_append,
      strspn_cons_of_mem (by decide), hct, List.cons_append, strspn_cons_of_not_mem hc]
  rw [runSearchLoop, if_neg (by simp), hspan]
  dsimp only
  rw [if_pos (by norm_num), runSearchLoop, if_pos ⟨by omega, by decide⟩]

/-- At index `0` a nonzero word starts no run. -/
theorem runSearchLoop_first {w : Nat} (hw : w ≠ 0) :
    runSearchLoop (fmtHex w ++ rest) 0 (b, m) = runSearchLoop rest (fmtHex w).length (b, m) := by
  obtain ⟨c, t, hct, hc⟩ := fmtHex_head_not_mem hw
  have hno := colon_not_mem_fmtHex w
  rw [hct] at hno ⊢
  rw [List.cons_append, runSearchLoop, if_neg (by simp), strspn_cons_of_not_mem (by simpa using hc)]
  dsimp only
  rw [if_neg (by omega), runSearchLoop_skip (fun h => hno (List.mem_cons_of_mem c h)) (by omega)]
  simp [Nat.add_comm]

/-- Over words with one zero word, neither first nor last, the run found is that word with its
two colons. -/
theorem runSearchLoop_joinHex {pre post : List Nat} (hpre : ∀ w ∈ pre, w ≠ 0)
    (hpost : ∀ w ∈ post, w ≠ 0) (hpre0 : pre ≠ []) (hpost0 : post ≠ []) :
    runSearchLoop (joinHex (pre ++ 0 :: post)) 0 (0, 2) = ((joinHex pre).length, 3) := by
  obtain ⟨w, pre', rfl⟩ := List.exists_cons_of_ne_nil hpre0
  obtain ⟨v, post', rfl⟩ := List.exists_cons_of_ne_nil hpost0
  have hw := hpre w List.mem_cons_self
  have hv := hpost v List.mem_cons_self
  -- the text: the first word, the others of `pre`, `:0`, then `post`
  have htext : joinHex ((w :: pre') ++ 0 :: v :: post') =
      fmtHex w ++ ((pre'.flatMap fun w => ':' :: fmtHex w) ++ (':' :: '0' ::
        ((':' :: fmtHex v) ++ ((post'.flatMap fun w => ':' :: fmtHex w) ++ [])))) := by
    simp [joinHex, List.flatMap_append, fmtHex_zero]
  have hwlen : 0 < (fmtHex w).length := List.length_pos_of_ne_nil Nat.toDigits_ne_nil
  rw [htext, runSearchLoop_first hw,
    runSearchLoop_words (fun u hu => hpre u (List.mem_cons_of_mem w hu)) hwlen (by norm_num),
    runSearchLoop_lone_zero hv (by omega),
    runSearchLoop_word hv (by omega) (by norm_num),
    runSearchLoop_words (fun u hu => hpost u (List.mem_cons_of_mem v hu)) (by omega) (by norm_num)]
  simp [runSearchLoop, joinHex]

end RunSearch

/-! ### The network part of an address with a lone zero word -/

section Ipv6Network

/-- Past word `0` the loop writes a colon and the word, for each word before word `n`. -/
theorem ipv6NetLoop_succ {n i : Nat} (ws : List Nat) (hi : 0 < i) :
    ipv6NetLoop n i ws = (((ws.take (n - i)).flatMap fun w => ':' :: fmtHex w),
      ((ws.take (n - i)).flatMap fun w => ':' :: fmtHex w).length) := by
  induction ws generalizing i with
  | nil => simp [ipv6NetLoop]
  | cons w ws ih =>
    rw [ipv6NetLoop]
    by_cases h : i < n
    · rw [if_pos h, ih (by omega), show n - i = n - (i + 1) + 1 by omega, List.take_succ_cons]
      simp [hi]
      omega
    · rw [if_neg h, show n - i = 0 by omega]
      simp

/-- `ret` holds the first `n` words and `border` is its length. -/
theorem ipv6NetLoop_zero {n : Nat} (hn : 0 < n) (w : Nat) (ws : List Nat) :
    ipv6NetLoop n 0 (w :: ws) = (joinHex ((w :: ws).take n), (joinHex ((w :: ws).take n)).length) := by
  rw [ipv6NetLoop, if_pos hn, ipv6NetLoop_succ ws (by norm_num), show n = n - 1 + 1 by omega,
    List.take_succ_cons]
  simp only [Nat.add_sub_cancel, joinHex, List.length_append]
  simp

/-- The middle case: the run `:0:` at `best`, ending before `border`, becomes `::`. -/
theorem compressRun_mid {pre t : List Char} {pad : Nat} (hpre : pre ≠ []) (hpad : 3 ≤ pad)
    (hpre0 : '\x00' ∉ pre) (ht0 : '\x00' ∉ t) :
    cstr (compressRun ((pre ++ ':' :: '0' :: ':' :: t) ++ List.replicate pad '\x00') pre.length 3
      (pre ++ ':' :: '0' :: ':' :: t).length) = pre ++ ':' :: ':' :: t := by
  have hlen : 0 < pre.length := List.length_pos_of_ne_nil hpre
  -- the buffer: the text, then the terminator and the rest of the buffer
  set buf := (pre ++ ':' :: '0' :: ':' :: t) ++ List.replicate pad '\x00' with hbuf
  have hset : buf.set pre.length ':' = buf := by
    simp [hbuf, List.set_append_right]
  have hdrop : buf.drop (pre.length + 2) = (':' :: t) ++ List.replicate pad '\x00' := by
    simp [hbuf, List.drop_append]
  -- `memmove` copies the colon, the rest of the text and the terminator
  have hmove : (buf.drop (pre.length + 2)).take (t.length + 1 + 3) =
      (':' :: t) ++ List.replicate 3 '\x00' := by
    rw [hdrop, show t.length + 1 + 3 = (':' :: t).length + 3 by simp, List.take_length_add_append,
      List.take_replicate, min_eq_left hpad]
  have hhead : buf.take (pre.length + 1) = pre ++ [':'] := by
    simp [hbuf, List.take_append]
  unfold compressRun
  simp only [List.length_append, List.length_cons]
  rw [if_pos ⟨by norm_num, by omega⟩, if_neg (by omega), if_neg (by omega), if_neg (by omega), hset,
    show pre.length + 3 - 1 = pre.length + 2 by omega,
    show pre.length + (t.length + 1 + 1 + 1) - pre.length + 1 = t.length + 1 + 3 by omega, hmove,
    Bytes.writeAt, hhead]
  have hno : '\x00' ∉ pre ++ [':'] ++ ':' :: t := by simp [hpre0, ht0]
  rw [show ∀ r : List Char, pre ++ [':'] ++ ((':' :: t) ++ List.replicate 3 '\x00') ++ r =
      (pre ++ [':'] ++ ':' :: t) ++ ('\x00' :: '\x00' :: '\x00' :: r) from fun r => by simp,
    cstr_append _ hno]
  simp [cstr]

theorem getElem_words (a : In6Addr) {i : Nat} (hi : i < a.words.length) : a.words[i] = a.word i := by
  simp [In6Addr.words]

section LoneZero

variable {a : In6Addr} {k : Nat}

theorem words_lone_zero (hk : k < 8) (hzero : a.word k = 0) :
    a.words = a.words.take k ++ 0 :: a.words.drop (k + 1) := by
  have hlen := a.length_words
  have h := List.take_append_drop k a.words
  rw [List.drop_eq_getElem_cons (by omega), getElem_words, hzero] at h
  exact h.symm

theorem take_words_ne_zero (hnz : ∀ i < 8, i ≠ k → a.word i ≠ 0) : ∀ w ∈ a.words.take k, w ≠ 0 := by
  intro w hw
  obtain ⟨i, hi, rfl⟩ := List.getElem_of_mem hw
  have hlen := a.length_words
  simp only [List.length_take] at hi
  rw [List.getElem_take, getElem_words]
  exact hnz i (by omega) (by omega)

theorem drop_words_ne_zero (hnz : ∀ i < 8, i ≠ k → a.word i ≠ 0) :
    ∀ w ∈ a.words.drop (k + 1), w ≠ 0 := by
  intro w hw
  obtain ⟨i, hi, rfl⟩ := List.getElem_of_mem hw
  have hlen := a.length_words
  simp only [List.length_drop] at hi
  rw [List.getElem_drop, getElem_words]
  exact hnz (k + 1 + i) (by omega) (by omega)

theorem isChain_of_ne_zero {l : List Nat} (hl : ∀ w ∈ l, w ≠ 0) :
    List.IsChain (fun a b => ¬ (a = 0 ∧ b = 0)) l := by
  induction l with
  | nil => exact .nil
  | cons x l ih =>
    cases l with
    | nil => exact .singleton x
    | cons y l =>
      apply List.isChain_cons_cons.2
      exact ⟨fun h => hl x List.mem_cons_self h.1, ih (fun w hw => hl w (List.mem_cons_of_mem x hw))⟩

/-- A lone zero word stands between nonzero words, so no two zero words are adjacent and
`inet_ntop` prints every word. -/
theorem isChain_words_lone_zero (hk : k < 8) (hzero : a.word k = 0)
    (hnz : ∀ i < 8, i ≠ k → a.word i ≠ 0) : List.IsChain (fun a b => ¬ (a = 0 ∧ b = 0)) a.words := by
  have hpre := take_words_ne_zero hnz
  have hpost := drop_words_ne_zero hnz
  rw [words_lone_zero hk hzero]
  apply List.isChain_append.2
  refine ⟨isChain_of_ne_zero hpre, ?_, fun x hx _ _ h => hpre x (List.mem_of_getLast? hx) h.1⟩
  cases hd : a.words.drop (k + 1) with
  | nil => exact .singleton 0
  | cons y l =>
    rw [hd] at hpost
    apply List.isChain_cons_cons.2
    exact ⟨fun h => hpost y List.mem_cons_self h.2, isChain_of_ne_zero hpost⟩

theorem lt_of_mem_words {w : Nat} (hw : w ∈ a.words) : w < 65536 := by
  obtain ⟨i, _, rfl⟩ := List.mem_map.1 hw
  exact a.word_lt i

/-- The words of the network part: those before the lone zero, the zero, and a nonempty tail. -/
theorem take_words_lone_zero {n : Nat} (hkn : k + 1 < n) (hn : n ≤ 8) (hzero : a.word k = 0) :
    a.words.take n = a.words.take k ++ 0 :: (a.words.take n).drop (k + 1) := by
  have hlen := a.length_words
  have h := List.take_append_drop k (a.words.take n)
  rw [List.drop_eq_getElem_cons (by simp; omega), List.take_take, List.getElem_take, getElem_words,
    hzero, min_eq_left (by omega)] at h
  exact h.symm

/-- `get_ipv6_network` of an address whose only zero word `k` lies inside the network part: the
zero word, a run of length one, is compressed to `::`. -/
theorem getIpv6Network_lone_zero {pfx : UInt32} (hp : pfx < 128) (hk : 0 < k)
    (hkn : k + 1 < pfx.toNat / 16) (hzero : a.word k = 0) (hnz : ∀ i < 8, i ≠ k → a.word i ≠ 0) :
    getIpv6Network a pfx = some (joinHex (a.words.take k) ++ ':' ::
      ((a.words.take (pfx.toNat / 16)).drop (k + 1)).flatMap fun w => ':' :: fmtHex w) := by
  have hp' : pfx.toNat < 128 := UInt32.lt_iff_toNat_lt.1 hp
  have hlen := a.length_words
  set n := pfx.toNat / 16 with hn
  set pre := a.words.take k with hpre
  set M := (a.words.take n).drop (k + 1) with hM
  have hpre0 : pre ≠ [] := List.ne_nil_of_length_pos (by simp [hpre]; omega)
  have hpost0 : a.words.drop (k + 1) ≠ [] := List.ne_nil_of_length_pos (by simp; omega)
  -- the tail of the network part is nonempty: it starts with a colon
  obtain ⟨t, hMt⟩ := exists_flatMap_colon (List.ne_nil_of_length_pos (by simp [hM]; omega) : M ≠ [])
  have ht0 : '\x00' ∉ t := fun h => nul_not_mem_flatMap M (hMt ▸ List.mem_cons_of_mem _ h)
  -- the text of the network part, as `inet_ntop` prints it word by word
  have htext : joinHex (a.words.take n) = joinHex pre ++ ':' :: '0' :: ':' :: t := by
    rw [take_words_lone_zero hkn (by omega) hzero, joinHex_append hpre0, List.flatMap_cons, hMt,
      fmtHex_zero]
    rfl
  have htlen : (joinHex (a.words.take n)).length ≤ 40 := by
    have h : (joinHex (a.words.take n)).length ≤ 5 * (a.words.take n).length :=
      length_joinHex_le fun w hw => lt_of_mem_words (List.mem_of_mem_take hw)
    simp only [List.length_take, hlen] at h
    omega
  obtain ⟨w, ws, hwws⟩ : ∃ w ws, a.words = w :: ws := ⟨a.word 0, _, rfl⟩
  have hnet : ipv6NetLoop n 0 a.words =
      (joinHex (a.words.take n), (joinHex (a.words.take n)).length) := by
    rw [hwws, ipv6NetLoop_zero (by omega)]
  have hrun : runSearchLoop (joinHex a.words) 0 (0, 2) = ((joinHex pre).length, 3) := by
    rw [words_lone_zero (by omega) hzero]
    exact runSearchLoop_joinHex (take_words_ne_zero hnz) (drop_words_ne_zero hnz) hpre0 hpost0
  -- the buffer: the text, then at least three bytes of zeros
  have hpad : 3 ≤ 100 - (joinHex (a.words.take n)).length := by omega
  have hcstr : cstr (joinHex (a.words.take n) ++
      List.replicate (100 - (joinHex (a.words.take n)).length) '\x00') = joinHex (a.words.take n) := by
    obtain ⟨q, hq⟩ : ∃ q, 100 - (joinHex (a.words.take n)).length = q + 1 := ⟨_, (Nat.sub_add_cancel
      (by omega : 1 ≤ 100 - (joinHex (a.words.take n)).length)).symm⟩
    rw [cstr_append _ (nul_not_mem_joinHex _), hq, List.replicate_succ]
    simp [cstr]
  unfold getIpv6Network
  have h128 : ¬ 128 < pfx := fun h => by
    have := UInt32.lt_iff_toNat_lt.1 h
    simp at this
    omega
  rw [if_neg h128, if_neg (fun h => by simp [h] at hp')]
  dsimp only
  rw [hnet, hrun, hcstr, if_pos (by show _ < 46; omega)]
  simp only
  rw [htext] at hpad ⊢
  rw [compressRun_mid (joinHex_ne_nil hpre0) hpad (nul_not_mem_joinHex _) ht0, hMt]

end LoneZero

theorem roundDownPrefix_ipv6_toNat (pfx : UInt32) :
    (roundDownPrefix pfx true).toNat = pfx.toNat / 16 * 16 := by
  have h := pfx.toNat_lt
  simp only [roundDownPrefix, if_true, UInt32.toNat_mul, UInt32.toNat_div]
  show pfx.toNat / 16 * 16 % 2 ^ 32 = _
  omega

/-! ### The host part -/

theorem getHostFromIp_of_not_prefix {s net : List Char} (h : ¬ net <+: s) :
    getHostFromIp (some s) (some net) = .ok none := by
  rw [getHostFromIp, if_pos (mt strstr_eq_zero_iff.1 h)]

/-- A network text with `::` in it is not a prefix of a text that has none. -/
theorem not_prefix_of_double_colon {s net : List Char}
    (hs : List.IsChain (fun a b => ¬ (a = ':' ∧ b = ':')) s) (hnet : [':', ':'] <:+: net) :
    ¬ net <+: s := by
  intro h
  have hc := hs.infix (hnet.trans h.isInfix)
  simp at hc

theorem get_ipv6_network_lone_zero (a : In6Addr) (pfx : UInt32) (k : Nat) (hp : pfx < 128)
    (hk : 0 < k) (hkn : k + 1 < pfx.toNat / 16) (hzero : a.word k = 0)
    (hnz : ∀ i < 8, i ≠ k → a.word i ≠ 0) :
    getIpv6Network a (roundDownPrefix pfx true) = some (joinHex (a.words.take k) ++ ':' ::
      ((a.words.take (pfx.toNat / 16)).drop (k + 1)).flatMap fun w => ':' :: fmtHex w) ∧
    getHostFromIp (some (inetNtop6 a)) (getIpv6Network a (roundDownPrefix pfx true)) = .ok none := by
  have hq := roundDownPrefix_ipv6_toNat pfx
  have hp' : pfx.toNat < 128 := UInt32.lt_iff_toNat_lt.1 hp
  have hq128 : roundDownPrefix pfx true < 128 := UInt32.lt_iff_toNat_lt.2 (by simp only [hq]; simp; omega)
  have hq16 : (roundDownPrefix pfx true).toNat / 16 = pfx.toNat / 16 := by omega
  have hnet := getIpv6Network_lone_zero hq128 hk (hq16 ▸ hkn) hzero hnz
  rw [hq16] at hnet
  refine ⟨hnet, ?_⟩
  -- the network text has `::` for the lone zero word, which `inet_ntop` prints as `0`
  have hlen := a.length_words
  obtain ⟨t, ht⟩ := exists_flatMap_colon
    (List.ne_nil_of_length_pos (by simp; omega) : (a.words.take (pfx.toNat / 16)).drop (k + 1) ≠ [])
  rw [hnet, inetNtop6_of_isChain (isChain_words_lone_zero (by omega) hzero hnz)]
  apply getHostFromIp_of_not_prefix
  apply not_prefix_of_double_colon (isChain_joinHex _)
  rw [ht]
  exact ⟨joinHex (a.words.take k), t, by simp⟩

theorem get_ipv6_network_lone_zero_doc :
    getIpv6Network ⟨[0x20, 0x01, 0x0d, 0xb8, 0, 0, 0, 1, 0, 1, 0, 1, 0, 1, 0, 1], rfl⟩
      (roundDownPrefix 64 true) = some "2001:db8::1".toList ∧
    getHostFromIp (some (inetNtop6 ⟨[0x20, 0x01, 0x0d, 0xb8, 0, 0, 0, 1, 0, 1, 0, 1, 0, 1, 0, 1], rfl⟩))
      (some "2001:db8::1".toList) = .ok none := by
  have h := get_ipv6_network_lone_zero ⟨[0x20, 0x01, 0x0d, 0xb8, 0, 0, 0, 1, 0, 1, 0, 1, 0, 1, 0, 1], rfl⟩
    64 2 (by decide) (by decide) (by decide) (by decide) (by decide)
  have htext : joinHex ((In6Addr.words ⟨[0x20, 0x01, 0x0d, 0xb8, 0, 0, 0, 1, 0, 1, 0, 1, 0, 1, 0, 1],
      rfl⟩).take 2) ++ ':' :: (((In6Addr.words ⟨[0x20, 0x01, 0x0d, 0xb8, 0, 0, 0, 1, 0, 1, 0, 1, 0, 1,
      0, 1], rfl⟩).take ((64 : UInt32).toNat / 16)).drop 3).flatMap (fun w => ':' :: fmtHex w) =
      "2001:db8::1".toList := by decide
  rw [htext] at h
  exact ⟨h.1, h.1 ▸ h.2⟩

end Ipv6Network

end Ltp
