import Mathlib.Tactic

/-!
# Internet addresses in text

The text forms of IPv4 addresses that `inet_pton` reads and `inet_ntop` writes, as glibc does
both.  An address is held as the number `ntohl(s_addr)` stands for, the first octet of its text in
the high byte, so that an invalid address cannot be built.

* `inetPton4` is glibc's `inet_pton4`: exactly four decimal octets separated by dots, each at most
  `255` and without a leading zero.
* `inetNtop4` is `inet_ntop(AF_INET, ...)`, the format `"%u.%u.%u.%u"`.

The round trip: the text `inet_ntop` prints for an address reads back as that address
(`inetPton4_inetNtop4`).

A network `net/p` is the set of addresses that agree with `net` on their first `p` bits (`InNet`);
the C test `(a & mask) == (net & mask)` decides it (`and_netMask_eq_iff`), and two networks meet
exactly when the one of the shorter prefix holds the other's address (`overlap_iff`).
-/

namespace Inet

/-! ### Octets -/

/-- Octet `i` of the address `a`, counting from the first one of its text. -/
def octet (a : UInt32) (i : Nat) : Nat :=
  a.toNat / 2 ^ (24 - 8 * i) % 256

/-- The number that the octets `os`, first one high, stand for. -/
def valueOf (os : List Nat) : Nat :=
  os.foldl (fun v o => 256 * v + o) 0

theorem octet_lt (a : UInt32) (i : Nat) : octet a i < 256 :=
  Nat.mod_lt _ (by norm_num)

theorem valueOf_octets (a : UInt32) :
    valueOf [octet a 0, octet a 1, octet a 2, octet a 3] = a.toNat := by
  have ha := a.toNat_lt
  simp only [valueOf, octet, List.foldl_cons, List.foldl_nil]
  omega

/-! ### `inet_pton(AF_INET, src, dst)` -/

/-- The loop of glibc's `inet_pton4` over the characters left: `sawDigit`, the number of octets
begun, the octets already closed by a dot and the octet being read (`*tp`).  It gives the four
octets of `tmp` that the function copies to `dst`, or `none` where it returns `0`. -/
def inetPton4Loop : List Char → Bool → Nat → List Nat → Nat → Option (List Nat)
  | [], _, octets, done, cur => if octets < 4 then none else some (done ++ [cur])
  | ch :: src, sawDigit, octets, done, cur =>
    if ch.isDigit then
      let new := cur * 10 + (ch.toNat - '0'.toNat)
      -- a digit after a leading zero, or an octet past 255
      if sawDigit && cur == 0 then none
      else if 255 < new then none
      else if !sawDigit then
        if 4 < octets + 1 then none else inetPton4Loop src true (octets + 1) done new
      else inetPton4Loop src true octets done new
    else if ch = '.' && sawDigit then
      if octets = 4 then none else inetPton4Loop src false octets (done ++ [cur]) 0
    else none

/-- `inet_pton(AF_INET, src, dst)`: the address, or `none` where it returns `0`. -/
def inetPton4 (src : List Char) : Option UInt32 :=
  (inetPton4Loop src false 0 [] 0).map fun os => UInt32.ofNat (valueOf os)

/-- `%u` of an octet. -/
def fmtOctet (o : Nat) : List Char :=
  Nat.toDigits 10 o

/-- `inet_ntop(AF_INET, &a, buf, size)` with room enough: `"%u.%u.%u.%u"` of the octets. -/
def inetNtop4 (a : UInt32) : List Char :=
  fmtOctet (octet a 0) ++ '.' :: fmtOctet (octet a 1) ++ '.' :: fmtOctet (octet a 2) ++ '.' ::
    fmtOctet (octet a 3)

/-! ### Reading back a printed address -/

theorem digitChar_isDigit {d : Nat} (hd : d < 10) : (Nat.digitChar d).isDigit = true := by
  rw [Nat.isDigit_digitChar]
  exact decide_eq_true hd

theorem digitChar_value {d : Nat} (hd : d < 10) : (Nat.digitChar d).toNat - '0'.toNat = d := by
  interval_cases d <;> rfl

/-- The digits of an octet begin it: the loop reads them into `*tp`, one octet more begun. -/
theorem inetPton4Loop_digits {o : Nat} (ho : o < 256) {octets : Nat} (hk : octets < 4)
    (done : List Nat) (rest : List Char) :
    inetPton4Loop (fmtOctet o ++ rest) false octets done 0 =
      inetPton4Loop rest true (octets + 1) done o := by
  induction o using Nat.strong_induction_on generalizing rest with
  | _ o ih =>
    unfold fmtOctet
    rw [Nat.toDigits_eq_if (by norm_num)]
    split_ifs with h10
    · -- a single digit opens the octet
      have hdig := digitChar_isDigit h10
      simp only [List.singleton_append, inetPton4Loop, hdig, if_true, digitChar_value h10,
        Bool.false_and, Bool.false_eq_true, if_false, Bool.not_false, zero_mul, zero_add]
      rw [if_neg (by omega), if_neg (by omega)]
    · -- the leading digits, then the last one
      have hlast : o % 10 < 10 := Nat.mod_lt _ (by norm_num)
      have hpos : 0 < o / 10 := by omega
      rw [List.append_assoc, List.singleton_append, ← fmtOctet, ih (o / 10) (by omega) (by omega)]
      simp only [inetPton4Loop, digitChar_isDigit hlast, if_true, digitChar_value hlast,
        Bool.true_and, Bool.not_true, Bool.false_eq_true, if_false]
      rw [if_neg (by simpa using hpos.ne'), if_neg (by omega),
        show o / 10 * 10 + o % 10 = o by omega]

/-- A dot after a read octet closes it. -/
theorem inetPton4Loop_dot {octets : Nat} (hk : octets ≠ 4) (done : List Nat) (cur : Nat)
    (rest : List Char) :
    inetPton4Loop ('.' :: rest) true octets done cur =
      inetPton4Loop rest false octets (done ++ [cur]) 0 := by
  simp [inetPton4Loop, hk]

theorem inetPton4_inetNtop4 (a : UInt32) : inetPton4 (inetNtop4 a) = some a := by
  have hlt := octet_lt a
  unfold inetPton4 inetNtop4
  simp only [List.append_assoc, List.cons_append]
  rw [inetPton4Loop_digits (hlt 0) (by norm_num), inetPton4Loop_dot (by norm_num),
    inetPton4Loop_digits (hlt 1) (by norm_num), inetPton4Loop_dot (by norm_num),
    inetPton4Loop_digits (hlt 2) (by norm_num), inetPton4Loop_dot (by norm_num),
    ← List.append_nil (fmtOctet (octet a 3)), inetPton4Loop_digits (hlt 3) (by norm_num)]
  simp only [inetPton4Loop, List.nil_append, List.cons_append, Nat.reduceAdd, Nat.lt_irrefl,
    if_false, Option.map_some, valueOf_octets, UInt32.ofNat_toNat]

/-! ### Networks -/

/-- The netmask of the prefix `p`: the first `p` bits set. -/
def netMask (p : Nat) : UInt32 :=
  UInt32.ofNat (2 ^ 32 - 2 ^ (32 - p))

/-- `a` lies in the network `net/p`: the two agree on their first `p` bits. -/
def InNet (net : UInt32) (p : Nat) (a : UInt32) : Prop :=
  a.toNat / 2 ^ (32 - p) = net.toNat / 2 ^ (32 - p)

instance (net : UInt32) (p : Nat) (a : UInt32) : Decidable (InNet net p a) :=
  inferInstanceAs (Decidable (_ = _))

theorem InNet.refl (net : UInt32) (p : Nat) : InNet net p net := rfl

theorem InNet.symm {a b : UInt32} {p : Nat} (h : InNet b p a) : InNet a p b := Eq.symm h

theorem InNet.trans {a b c : UInt32} {p : Nat} (hab : InNet b p a) (hbc : InNet c p b) :
    InNet c p a := Eq.trans hab hbc

/-- A network lies inside every network of a shorter prefix around it. -/
theorem InNet.mono {a b : UInt32} {q p : Nat} (hq : q ≤ p) (h : InNet b p a) : InNet b q a := by
  unfold InNet at h ⊢
  have hsplit : 32 - q = (32 - p) + ((32 - q) - (32 - p)) := by omega
  rw [hsplit, Nat.pow_add, ← Nat.div_div_eq_div_mul, ← Nat.div_div_eq_div_mul, h]

/-- Two networks meet exactly when the one of the shorter prefix holds the other's address. -/
theorem overlap_iff (n m : UInt32) (q p : Nat) :
    (∃ a, InNet n q a ∧ InNet m p a) ↔ InNet n (min q p) m := by
  constructor
  · rintro ⟨a, hn, hm⟩
    exact (hm.mono (min_le_right q p)).symm.trans (hn.mono (min_le_left q p))
  · intro h
    rcases le_total q p with hqp | hpq
    · rw [min_eq_left hqp] at h
      exact ⟨m, h, InNet.refl m p⟩
    · rw [min_eq_right hpq] at h
      exact ⟨n, InNet.refl n q, h.symm⟩

/-- Masking with the top bits of a 32-bit number rounds it down to a multiple of `2 ^ k`. -/
theorem and_two_pow_sub_two_pow {x k : Nat} (hx : x < 2 ^ 32) (hk : k ≤ 32) :
    x &&& (2 ^ 32 - 2 ^ k) = x / 2 ^ k * 2 ^ k := by
  have hmask : 2 ^ 32 - 2 ^ k = 2 ^ k * (2 ^ (32 - k) - 1) := by
    rw [Nat.mul_sub, Nat.mul_one, ← Nat.pow_add, Nat.add_sub_cancel' hk]
  apply Nat.eq_of_testBit_eq
  intro i
  rw [Nat.testBit_and, hmask, Nat.testBit_two_pow_mul, Nat.testBit_two_pow_sub_one, Nat.mul_comm,
    Nat.testBit_two_pow_mul, Nat.testBit_div_two_pow]
  by_cases hi : k ≤ i
  · rw [Nat.sub_add_cancel hi]
    by_cases h32 : i < 32
    · simp [hi, show i - k < 32 - k by omega]
    · -- no bit of `x` is set from bit 32 on
      have hpow : 2 ^ 32 ≤ 2 ^ i := Nat.pow_le_pow_right (by norm_num) (by omega)
      simp [Nat.testBit_lt_two_pow (lt_of_lt_of_le hx hpow)]
  · simp [hi]

/-- Two addresses agree under the netmask exactly when they are in one network. -/
theorem and_netMask_eq_iff {p : Nat} (hp : p ≤ 32) (a b : UInt32) :
    a &&& netMask p = b &&& netMask p ↔ InNet b p a := by
  have hpos := Nat.one_le_two_pow (n := 32 - p)
  have hm : (netMask p).toNat = 2 ^ 32 - 2 ^ (32 - p) :=
    UInt32.toNat_ofNat_of_lt' (by rw [show UInt32.size = 2 ^ 32 from rfl]; omega)
  rw [← UInt32.toNat_inj, UInt32.toNat_and, UInt32.toNat_and, hm,
    and_two_pow_sub_two_pow a.toNat_lt (by omega), and_two_pow_sub_two_pow b.toNat_lt (by omega)]
  unfold InNet
  constructor
  · exact Nat.eq_of_mul_eq_mul_right (Nat.two_pow_pos _)
  · intro h
    rw [h]

/-! ### IPv6 addresses in text -/

/-- An IPv6 address: the sixteen bytes of `s6_addr`. -/
structure In6Addr where
  bytes : List UInt8
  length_bytes : bytes.length = 16

/-- Word `i` of the address, `256 * a[2i] + a[2i+1]`. -/
def In6Addr.word (a : In6Addr) (i : Nat) : Nat :=
  256 * (a.bytes.getD (2 * i) 0).toNat + (a.bytes.getD (2 * i + 1) 0).toNat

/-- The eight words of the address. -/
def In6Addr.words (a : In6Addr) : List Nat :=
  (List.range 8).map a.word

/-- The IPv4 address in the last four bytes. -/
def In6Addr.v4 (a : In6Addr) : UInt32 :=
  UInt32.ofNat (valueOf ((a.bytes.drop 12).map UInt8.toNat))

/-- `%x`. -/
def fmtHex (w : Nat) : List Char :=
  Nat.toDigits 16 w

/-- The words in `%x`, separated by colons. -/
def joinHex : List Nat → List Char
  | [] => []
  | w :: ws => fmtHex w ++ ws.flatMap fun w => ':' :: fmtHex w

/-- Of a run of zero words being read and the longest one so far, the one glibc keeps: the run
read when it is longer, or when there is none so far. -/
def pickRun : Option (Nat × Nat) → Option (Nat × Nat) → Option (Nat × Nat)
  | none, best => best
  | some c, none => some c
  | some c, some b => if b.2 < c.2 then some c else some b

/-- The run of zero words `cur`, `(base, len)`, extended by the zero word at `i`. -/
def extendRun (cur : Option (Nat × Nat)) (i : Nat) : Nat × Nat :=
  match cur with
  | none => (i, 1)
  | some (b, l) => (b, l + 1)

/-- The first loop of glibc's `inet_ntop6`: the longest run of zero words, the first of equal ones,
over the words left from index `i`, with `cur` and `best` (`base == -1` is `none`). -/
def zeroRunLoop : List Nat → Nat → Option (Nat × Nat) → Option (Nat × Nat) → Option (Nat × Nat)
  | [], _, cur, best => pickRun cur best
  | w :: ws, i, cur, best =>
    if w = 0 then zeroRunLoop ws (i + 1) (some (extendRun cur i)) best
    else zeroRunLoop ws (i + 1) none (pickRun cur best)

/-- The run `inet_ntop6` writes as `::`: the longest, if it has two words or more. -/
def bestZeroRun (ws : List Nat) : Option (Nat × Nat) :=
  match zeroRunLoop ws 0 none none with
  | some (b, l) => if l < 2 then none else some (b, l)
  | none => none

/-- Whether word `i` lies in the run `best`. -/
def inRun (best : Option (Nat × Nat)) (i : Nat) : Bool :=
  match best with
  | some (b, l) => decide (b ≤ i ∧ i < b + l)
  | none => false

/-- The second loop of `inet_ntop6`, from word `i` on: a colon where the run starts and nothing for
the rest of it; elsewhere a colon (but before word `0`) and the word in `%x`, except that an
`embedded` IPv4 address is printed as `v4` in place of words `6` and `7`. -/
def ntop6Loop (best : Option (Nat × Nat)) (embedded : Bool) (v4 : List Char) :
    Nat → List Nat → List Char
  | _, [] => []
  | i, w :: ws =>
    if inRun best i then
      (if best.map Prod.fst = some i then [':'] else []) ++ ntop6Loop best embedded v4 (i + 1) ws
    else
      (if i ≠ 0 then [':'] else []) ++
        if i = 6 ∧ embedded then v4 else fmtHex w ++ ntop6Loop best embedded v4 (i + 1) ws

/-- `inet_ntop(AF_INET6, &a, buf, size)` with room enough, as glibc writes it: the longest run of
two zero words or more (the first of equal ones) as `::`, the other words in `%x`, and the last four
bytes as a dotted quad after `::` or `::ffff:`. -/
def inetNtop6 (a : In6Addr) : List Char :=
  let ws := a.words
  let best := bestZeroRun ws
  let embedded := decide (best.map Prod.fst = some 0 ∧
    (best.map Prod.snd = some 6 ∨ (best.map Prod.snd = some 5 ∧ ws.getD 5 0 = 0xffff)))
  ntop6Loop best embedded (inetNtop4 a.v4) 0 ws ++
    if best.map (fun r => r.1 + r.2) = some 8 then [':'] else []

/-! ### Addresses without two zero words in a row -/

theorem mem_fmtHex {c : Char} {w : Nat} (h : c ∈ fmtHex w) : ∃ d < 16, c = Nat.digitChar d := by
  induction w using Nat.strong_induction_on with
  | _ w ih =>
    unfold fmtHex at h
    rw [Nat.toDigits_eq_if (by norm_num)] at h
    split_ifs at h with h16
    · exact ⟨w, h16, List.mem_singleton.1 h⟩
    · rcases List.mem_append.1 h with h | h
      · exact ih (w / 16) (by omega) h
      · exact ⟨w % 16, Nat.mod_lt _ (by norm_num), List.mem_singleton.1 h⟩

theorem colon_not_mem_fmtHex (w : Nat) : ':' ∉ fmtHex w := by
  intro h
  obtain ⟨d, hd, he⟩ := mem_fmtHex h
  have : ∀ d < 16, Nat.digitChar d ≠ ':' := by decide
  exact this d hd he.symm

theorem fmtHex_zero : fmtHex 0 = ['0'] := rfl

theorem nul_not_mem_fmtHex (w : Nat) : '\x00' ∉ fmtHex w := by
  intro h
  obtain ⟨d, hd, he⟩ := mem_fmtHex h
  have : ∀ d < 16, Nat.digitChar d ≠ '\x00' := by decide
  exact this d hd he.symm

theorem nul_not_mem_flatMap (ws : List Nat) : '\x00' ∉ ws.flatMap fun w => ':' :: fmtHex w := by
  simp only [List.mem_flatMap, List.mem_cons, not_exists, not_and]
  intro w _ h
  rcases h with h | h
  · exact absurd h (by decide)
  · exact nul_not_mem_fmtHex w h

theorem nul_not_mem_joinHex (ws : List Nat) : '\x00' ∉ joinHex ws := by
  cases ws with
  | nil => simp [joinHex]
  | cons w ws =>
    rw [joinHex, List.mem_append, not_or]
    exact ⟨nul_not_mem_fmtHex w, nul_not_mem_flatMap ws⟩

/-- Words printed after a nonempty run go on with a colon before each. -/
theorem joinHex_append {pre : List Nat} (hpre : pre ≠ []) (ws : List Nat) :
    joinHex (pre ++ ws) = joinHex pre ++ ws.flatMap fun w => ':' :: fmtHex w := by
  obtain ⟨w, pre', rfl⟩ := List.exists_cons_of_ne_nil hpre
  simp [joinHex, List.flatMap_append]

theorem joinHex_ne_nil {ws : List Nat} (hws : ws ≠ []) : joinHex ws ≠ [] := by
  obtain ⟨w, ws, rfl⟩ := List.exists_cons_of_ne_nil hws
  simp [joinHex, fmtHex, Nat.toDigits_ne_nil]

/-- A nonempty list of words prints with a colon first. -/
theorem exists_flatMap_colon {ws : List Nat} (hws : ws ≠ []) :
    ∃ t, (ws.flatMap fun w => ':' :: fmtHex w) = ':' :: t := by
  obtain ⟨w, ws, rfl⟩ := List.exists_cons_of_ne_nil hws
  exact ⟨_, by rw [List.flatMap_cons]; rfl⟩

theorem In6Addr.length_words (a : In6Addr) : a.words.length = 8 := by
  simp [In6Addr.words]

theorem In6Addr.word_lt (a : In6Addr) (i : Nat) : a.word i < 65536 := by
  have h1 := (a.bytes.getD (2 * i) 0).toNat_lt
  have h2 := (a.bytes.getD (2 * i + 1) 0).toNat_lt
  unfold In6Addr.word
  omega

theorem length_fmtHex_le {w : Nat} (hw : w < 65536) : (fmtHex w).length ≤ 4 :=
  (Nat.length_toDigits_le_iff (by norm_num) (by norm_num)).2 hw

/-- Words of 16 bits take at most five characters each with their colons. -/
theorem length_joinHex_le {ws : List Nat} (hws : ∀ w ∈ ws, w < 65536) :
    (joinHex ws).length ≤ 5 * ws.length := by
  have hflat : ∀ vs : List Nat, (∀ w ∈ vs, w < 65536) →
      (vs.flatMap fun w => ':' :: fmtHex w).length ≤ 5 * vs.length := by
    intro vs hvs
    induction vs with
    | nil => simp
    | cons v vs ih =>
      have hv := length_fmtHex_le (hvs v List.mem_cons_self)
      have := ih (fun w hw => hvs w (List.mem_cons_of_mem v hw))
      simp only [List.flatMap_cons, List.length_append, List.length_cons]
      omega
  cases ws with
  | nil => simp [joinHex]
  | cons w ws =>
    have hw := length_fmtHex_le (hws w List.mem_cons_self)
    have := hflat ws (fun v hv => hws v (List.mem_cons_of_mem w hv))
    simp only [joinHex, List.length_append, List.length_cons]
    omega

/-- A nonzero word is printed without a leading zero. -/
theorem fmtHex_head {w : Nat} (hw : w ≠ 0) : ∃ c t, fmtHex w = c :: t ∧ c ≠ '0' := by
  induction w using Nat.strong_induction_on with
  | _ w ih =>
    unfold fmtHex
    rw [Nat.toDigits_eq_if (by norm_num)]
    split_ifs with h16
    · exact ⟨_, [], rfl, by simpa using hw⟩
    · obtain ⟨c, t, hct, hc⟩ := ih (w / 16) (by omega) (by omega)
      unfold fmtHex at hct
      exact ⟨c, t ++ [Nat.digitChar (w % 16)], by rw [hct]; rfl, hc⟩

theorem isChain_of_colon_not_mem {u : List Char} (h : ':' ∉ u) :
    List.IsChain (fun a b => ¬ (a = ':' ∧ b = ':')) u := by
  induction u with
  | nil => exact .nil
  | cons a u ih =>
    cases u with
    | nil => exact .singleton a
    | cons b u =>
      apply List.isChain_cons_cons.2
      exact ⟨fun hab => h (hab.1 ▸ List.mem_cons_self), ih (fun hu => h (List.mem_cons_of_mem a hu))⟩

/-- A colon and then a printed word. -/
theorem isChain_colon_fmtHex (w : Nat) :
    List.IsChain (fun a b => ¬ (a = ':' ∧ b = ':')) (':' :: fmtHex w) := by
  obtain ⟨c, t, hct⟩ := List.exists_cons_of_ne_nil (Nat.toDigits_ne_nil (n := w) (b := 16))
  have hno := colon_not_mem_fmtHex w
  unfold fmtHex at hno
  rw [fmtHex, hct]
  rw [hct] at hno
  apply List.isChain_cons_cons.2
  exact ⟨fun hc => hno (hc.2 ▸ List.mem_cons_self), isChain_of_colon_not_mem hno⟩

/-- No two colons stand together in words printed apart. -/
theorem isChain_joinHex (ws : List Nat) :
    List.IsChain (fun a b => ¬ (a = ':' ∧ b = ':')) (joinHex ws) := by
  cases ws with
  | nil => exact .nil
  | cons w ws =>
    -- the last character of a printed word is not a colon
    have hlast : ∀ v : Nat, ∀ x ∈ (':' :: fmtHex v).getLast?, x ≠ ':' := by
      intro v x hx
      obtain ⟨c, t, hct⟩ := List.exists_cons_of_ne_nil (Nat.toDigits_ne_nil (n := v) (b := 16))
      rw [fmtHex, hct, List.getLast?_cons_cons] at hx
      have hmem : x ∈ fmtHex v := by rw [fmtHex, hct]; exact List.mem_of_getLast? hx
      exact fun hc => colon_not_mem_fmtHex v (hc ▸ hmem)
    unfold joinHex
    apply List.isChain_append.2
    refine ⟨isChain_of_colon_not_mem (colon_not_mem_fmtHex w), ?_, ?_⟩
    · induction ws with
      | nil => exact .nil
      | cons v ws ih =>
        rw [List.flatMap_cons]
        exact List.isChain_append.2 ⟨isChain_colon_fmtHex v, ih,
          fun x hx _ _ hc => hlast v x hx hc.1⟩
    · intro x hx _ _ hc
      exact colon_not_mem_fmtHex w (hc.1 ▸ List.mem_of_getLast? hx)

/-- A run kept from words without two zeros in a row is a single word. -/
theorem pickRun_le {cur best : Option (Nat × Nat)} {k : Nat} (hc : ∀ c, cur = some c → c.2 ≤ k)
    (hb : ∀ c, best = some c → c.2 ≤ k) : ∀ c, pickRun cur best = some c → c.2 ≤ k := by
  intro c h
  unfold pickRun at h
  split at h
  · exact hb c h
  · exact hc c h
  · split_ifs at h
    · exact hc _ rfl |>.trans' (by cases h; rfl)
    · exact hb _ rfl |>.trans' (by cases h; rfl)

theorem zeroRunLoop_short {ws : List Nat} (hws : List.IsChain (fun a b => ¬ (a = 0 ∧ b = 0)) ws)
    {i : Nat} {cur best : Option (Nat × Nat)} (hcur : ∀ c, cur = some c → c.2 ≤ 1)
    (hbest : ∀ c, best = some c → c.2 ≤ 1) (hnext : cur.isSome → ws.head? ≠ some 0) :
    ∀ c, zeroRunLoop ws i cur best = some c → c.2 ≤ 1 := by
  induction ws generalizing i cur best with
  | nil => exact pickRun_le hcur hbest
  | cons w ws ih =>
    have htail := hws.tail
    by_cases hw : w = 0
    · -- a zero word opens a run of one, and the next word is not zero
      have hnone : cur = none := by
        cases cur with
        | none => rfl
        | some c => exact absurd (by simp [hw]) (hnext rfl)
      subst hnone
      rw [zeroRunLoop, if_pos hw]
      apply ih htail (by rintro c ⟨⟩; rfl) hbest
      intro _ h
      cases ws with
      | nil => cases h
      | cons w' ws =>
        simp only [List.head?_cons, Option.some.injEq] at h
        exact (List.isChain_cons_cons.1 hws).1 ⟨hw, h⟩
    · rw [zeroRunLoop, if_neg hw]
      exact ih htail (by rintro c ⟨⟩) (pickRun_le hcur hbest) (by simp)

/-- Without two zero words in a row there is no run to compress. -/
theorem bestZeroRun_eq_none {ws : List Nat}
    (hws : List.IsChain (fun a b => ¬ (a = 0 ∧ b = 0)) ws) : bestZeroRun ws = none := by
  have hshort : ∀ c, zeroRunLoop ws 0 none none = some c → c.2 ≤ 1 :=
    zeroRunLoop_short hws (by simp) (by simp) (by simp)
  unfold bestZeroRun
  split
  · rename_i b l h
    rw [if_pos (by have := hshort _ h; simp at this; omega)]
  · rfl

theorem ntop6Loop_none (v4 : List Char) {i : Nat} (hi : 0 < i) (ws : List Nat) :
    ntop6Loop none false v4 i ws = ws.flatMap fun w => ':' :: fmtHex w := by
  induction ws generalizing i with
  | nil => rfl
  | cons w ws ih =>
    rw [ntop6Loop, if_neg (by simp [inRun]), if_pos (by omega), ih (by omega)]
    simp

/-- An address without two zero words in a row is printed word by word. -/
theorem inetNtop6_of_isChain {a : In6Addr}
    (ha : List.IsChain (fun a b => ¬ (a = 0 ∧ b = 0)) a.words) : inetNtop6 a = joinHex a.words := by
  obtain ⟨w, ws, hws⟩ : ∃ w ws, a.words = w :: ws := ⟨a.word 0, _, rfl⟩
  have hbest := bestZeroRun_eq_none ha
  rw [hws] at hbest
  unfold inetNtop6
  dsimp only
  rw [hws, hbest]
  simp only [Option.map_none, reduceCtorEq, false_and, decide_false, if_false, List.append_nil]
  rw [ntop6Loop, if_neg (by simp [inRun]), if_neg (by simp), ntop6Loop_none _ (by norm_num)]
  simp [joinHex]

end Inet
