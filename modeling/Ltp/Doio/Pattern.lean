import Ltp.Library.Memory
import Ltp.Library.CText

/-!
# Pattern fill and check (`pattern.c`)

`pattern_fill` writes a buffer with a repeating pattern started `patshift` bytes into the pattern,
and `pattern_check` compares a buffer with it.  Both handle the first period in two pieces (the last
`patlen - patshift` bytes of the pattern, then its first `patshift` bytes), with an early exit when the
buffer is shorter, and then double: the buffer's own verified (or written) prefix is compared with
(or copied to) the next stretch of the same length.

The buffer lives in a memory `Nat → α` at address `buf`; the pattern is a separate region `pat`.  The
doubling loops are run on fuel `buflen + 1`, which is enough whenever the verified prefix is not empty;
with `patlen = 0` the C loop makes no progress and the model runs out of fuel (`none`).

The specification is `patternAt`: byte `i` of the buffer should be `pat ((i + patshift) % patlen)`.
-/

namespace Ltp

open CMem CText

variable {α : Type}

/-- The value at offset `i` of a buffer holding the pattern `pat` of length `patlen` shifted by
`patshift`. -/
def patternAt (pat : Nat → α) (patlen patshift i : Nat) : α :=
  pat ((i + patshift) % patlen)

/-- The first `n` bytes of the buffer at `buf` follow `spec`. -/
def Follows (m : Nat → α) (buf : Nat) (spec : Nat → α) (n : Nat) : Prop :=
  ∀ i < n, m (buf + i) = spec i

instance [DecidableEq α] (m : Nat → α) (buf : Nat) (spec : Nat → α) (n : Nat) :
    Decidable (Follows m buf spec n) :=
  inferInstanceAs (Decidable (∀ i < n, m (buf + i) = spec i))

/-! ### The model -/

/-- The verification loop of `pattern_check`: `buf[0..nb)` against `cp[0..nb)`, doubling `ncmp`. -/
def patternCheckLoop [DecidableEq α] (m : Nat → α) (buf buflen : Nat) :
    (fuel cp ncmp nleft : Nat) → Option Int
  | 0, _, _, _ => none
  | fuel + 1, cp, ncmp, nleft =>
    if ncmp < buflen then
      let nb := if ncmp < nleft then ncmp else nleft
      if memcmp (shift m buf) (shift m cp) nb then some (-1)
      else patternCheckLoop m buf buflen fuel (cp + nb) (ncmp + nb) (nleft - nb)
    else some 0

/-- `pattern_check(buf, buflen, pat, patlen, patshift)`: `0` when the buffer holds the pattern,
`-1` otherwise. -/
def patternCheck [DecidableEq α] (m : Nat → α) (buf buflen : Nat) (pat : Nat → α)
    (patlen patshift : Nat) : Option Int :=
  let patshift := if patlen ≠ 0 then patshift % patlen else patshift
  let nb := patlen - patshift
  -- the last `patlen - patshift` bytes of the pattern
  if buflen < nb then some (if memcmp (shift m buf) (shift pat patshift) buflen then -1 else 0)
  else if memcmp (shift m buf) (shift pat patshift) nb then some (-1)
  else
    let nleft := buflen - nb
    let cp := buf + nb
    -- then its first `patshift` bytes
    if 0 < patshift then
      if nleft < patshift then some (if memcmp (shift m cp) pat nleft then -1 else 0)
      else if memcmp (shift m cp) pat patshift then some (-1)
      else
        patternCheckLoop m buf buflen (buflen + 1) (cp + patshift) (cp + patshift - buf)
          (nleft - patshift)
    else patternCheckLoop m buf buflen (buflen + 1) cp (cp - buf) nleft

/-- The copy loop of `pattern_fill`: `buf[0..trans)` to `cp`, doubling `ncopied`. -/
def patternFillLoop (buf buflen : Nat) :
    (fuel : Nat) → (m : Nat → α) → (cp ncopied nleft : Nat) → Option (Nat → α)
  | 0, _, _, _, _ => none
  | fuel + 1, m, cp, ncopied, nleft =>
    if ncopied < buflen then
      let trans := if ncopied < nleft then ncopied else nleft
      patternFillLoop buf buflen fuel (memcpy m cp (shift m buf) trans) (cp + trans)
        (ncopied + trans) (nleft - trans)
    else some m

/-- `pattern_fill(buf, buflen, pat, patlen, patshift)`: the returned `0` and the memory after it. -/
def patternFill (m : Nat → α) (buf buflen : Nat) (pat : Nat → α) (patlen patshift : Nat) :
    Option (Int × (Nat → α)) :=
  let patshift := if patlen ≠ 0 then patshift % patlen else patshift
  let trans := patlen - patshift
  if buflen < trans then some (0, memcpy m buf (shift pat patshift) buflen)
  else
    let m := memcpy m buf (shift pat patshift) trans
    let nleft := buflen - trans
    let cp := buf + trans
    if 0 < patshift then
      if nleft < patshift then some (0, memcpy m cp pat nleft)
      else
        let m := memcpy m cp pat patshift
        (patternFillLoop buf buflen (buflen + 1) m (cp + patshift) (cp + patshift - buf)
          (nleft - patshift)).map fun m => (0, m)
    else (patternFillLoop buf buflen (buflen + 1) m cp (cp - buf) nleft).map fun m => (0, m)

/-- The byte-by-byte rescan of `doio_pat_check`: the address of the first byte that differs from
the pattern, with the pattern index it was compared with.  `left` is `bufend - cp`. -/
def doioPatScan [DecidableEq α] (m : Nat → α) (pattern : Nat → α) (patternLength : Nat) :
    (left cp patternIndex : Nat) → Option (Nat × Nat)
  | 0, _, _ => none
  | left + 1, cp, patternIndex =>
    if m cp ≠ pattern patternIndex then some (cp, patternIndex)
    else
      doioPatScan m pattern patternLength left (cp + 1)
        (if patternIndex + 1 = patternLength then 0 else patternIndex + 1)

/-- A byte as the corruption report shows it: itself when printable, `.` otherwise. -/
def printable (c : Char) : Char :=
  if isprint c then c else '.'

/-- The two header lines of the corruption report. -/
def corruptHeader : List Char :=
  "Corrupt regions follow - unprintable chars are represented as \x27.\x27\n".toList ++
    List.replicate 65 '-' ++ ['\n']

/-- The lines of the corruption report for the first corrupt byte, at address `cp`, compared with
the pattern byte `patternIndex`: at most 32 expected and actual bytes. -/
def corruptReport (m : Nat → Char) (buf : Nat) (offset : Int) (length : Nat) (pattern : Nat → Char)
    (patternLength cp patternIndex : Nat) : List Char :=
  let nb := min (buf + length - cp) 32
  "corrupt bytes starting at file offset ".toList ++ fmtInt (offset + (cp - buf : Nat)) ++ ['\n'] ++
    "    1st ".toList ++ fmtIntWidth 2 nb ++ " expected bytes:  ".toList ++
    (List.range nb).map (fun i => printable (pattern ((patternIndex + i) % patternLength))) ++ ['\n'] ++
    "    1st ".toList ++ fmtIntWidth 2 nb ++ " actual bytes:    ".toList ++
    (List.range nb).map (fun i => printable (m (cp + i))) ++ ['\n']

/-- `doio_pat_check(buf, offset, length, pattern, pattern_length, patshift)`: `NULL` (`none`) when
the buffer holds the pattern, otherwise the text of the report.  The outer `Option` is the
termination of `pattern_check`. -/
def doioPatCheck (m : Nat → Char) (buf : Nat) (offset : Int) (length : Nat) (pattern : Nat → Char)
    (patternLength patshift : Nat) : Option (Option (List Char)) :=
  (patternCheck m buf length pattern patternLength patshift).map fun r =>
    if r ≠ 0 then
      some (corruptHeader ++
        match doioPatScan m pattern patternLength length buf (patshift % patternLength) with
        | none => []
        | some (cp, patternIndex) =>
          corruptReport m buf offset length pattern patternLength cp patternIndex)
    else none

/-! ### The specification -/

theorem patternAt_add_of_mod {pat : Nat → α} {patlen patshift n : Nat} (h : n % patlen = 0)
    (i : Nat) : patternAt pat patlen patshift (n + i) = patternAt pat patlen patshift i := by
  unfold patternAt
  rw [show n + i + patshift = n + (i + patshift) by omega, Nat.add_mod, h, Nat.zero_add,
    Nat.mod_mod]

/-- Inside the first period the shifted pattern is read straight from `patshift` on. -/
theorem patternAt_of_lt {pat : Nat → α} {patlen patshift i : Nat} (h : i + patshift < patlen) :
    patternAt pat patlen patshift i = pat (patshift + i) := by
  unfold patternAt
  rw [Nat.mod_eq_of_lt h, Nat.add_comm]

/-- The second piece of the first period wraps around to the start of the pattern. -/
theorem patternAt_wrap {pat : Nat → α} {patlen patshift i : Nat} (hs : patshift < patlen)
    (hi : i < patshift) : patternAt pat patlen patshift (patlen - patshift + i) = pat i := by
  unfold patternAt
  rw [show patlen - patshift + i + patshift = patlen + i by omega, Nat.add_mod_left,
    Nat.mod_eq_of_lt (by omega)]

theorem patternAt_mod (pat : Nat → α) {patlen : Nat} (patshift i : Nat) :
    patternAt pat patlen (patshift % patlen) i = patternAt pat patlen patshift i := by
  unfold patternAt
  rw [Nat.add_mod, Nat.mod_mod, ← Nat.add_mod]

theorem Follows.mono {m : Nat → α} {buf : Nat} {spec : Nat → α} {n k : Nat} (h : Follows m buf spec n)
    (hk : k ≤ n) : Follows m buf spec k :=
  fun i hi => h i (by omega)

theorem follows_congr {m : Nat → α} {buf n : Nat} {spec spec' : Nat → α}
    (h : ∀ i < n, spec i = spec' i) : Follows m buf spec n ↔ Follows m buf spec' n := by
  constructor
  · intro hf i hi; rw [hf i hi, h i hi]
  · intro hf i hi; rw [hf i hi, h i hi]

theorem follows_add {m : Nat → α} {buf : Nat} {spec : Nat → α} {n k : Nat} :
    Follows m buf spec (n + k) ↔ Follows m buf spec n ∧ ∀ i < k, m (buf + (n + i)) = spec (n + i) := by
  constructor
  · intro h
    exact ⟨h.mono (by omega), fun i hi => h (n + i) (by omega)⟩
  · rintro ⟨h₁, h₂⟩ i hi
    by_cases hin : i < n
    · exact h₁ i hin
    · have := h₂ (i - n) (by omega)
      rwa [Nat.add_sub_cancel' (by omega)] at this

/-- `memcmp` of a buffer against a pattern region is the test that the buffer follows it. -/
theorem memcmp_eq_false_iff_follows [DecidableEq α] {m p : Nat → α} {buf n : Nat} :
    memcmp (shift m buf) p n = false ↔ Follows m buf p n := by
  rw [memcmp_eq_false_iff]; rfl

/-! ### The doubling step -/

section Doubling

variable {pat : Nat → α} {patlen patshift : Nat}

/-- Once the first `n` bytes follow the pattern and `n` is a whole number of periods, comparing the
next `k ≤ n` bytes with the buffer's own prefix is comparing them with the pattern. -/
theorem memcmp_double [DecidableEq α] {m : Nat → α} {buf n k : Nat}
    (hf : Follows m buf (patternAt pat patlen patshift) n) (hn : n % patlen = 0) (hk : k ≤ n) :
    memcmp (shift m buf) (shift m (buf + n)) k = false ↔
      ∀ i < k, m (buf + (n + i)) = patternAt pat patlen patshift (n + i) := by
  rw [memcmp_eq_false_iff]
  refine forall₂_congr fun i hi => ?_
  rw [shift_apply, shift_apply, hf i (by omega), patternAt_add_of_mod hn, Nat.add_assoc, eq_comm]

theorem patternCheckLoop_eq [DecidableEq α] (m : Nat → α) (buf buflen : Nat) :
    ∀ fuel cp ncmp nleft, 0 < ncmp → (ncmp < buflen → ncmp % patlen = 0) → cp = buf + ncmp →
      nleft = buflen - ncmp → buflen - ncmp < fuel →
      Follows m buf (patternAt pat patlen patshift) ncmp →
      patternCheckLoop m buf buflen fuel cp ncmp nleft =
        some (if Follows m buf (patternAt pat patlen patshift) buflen then 0 else -1) := by
  intro fuel
  induction fuel with
  | zero => intro _ _ _ _ _ _ _ hfuel; omega
  | succ fuel ih =>
    intro cp ncmp nleft hpos hmod hcp hleft hfuel hf
    subst hcp hleft
    unfold patternCheckLoop
    by_cases hlt : ncmp < buflen
    · -- one doubling step: compare the next `nb` bytes with the verified prefix
      simp only [hlt, if_true]
      generalize hnb : (if ncmp < buflen - ncmp then ncmp else buflen - ncmp) = nb
      have hnbs : 0 < nb ∧ nb ≤ ncmp ∧ ncmp + nb ≤ buflen := by split at hnb <;> omega
      have hstep := memcmp_double hf (hmod hlt) hnbs.2.1
      cases hcmp : memcmp (shift m buf) (shift m (buf + ncmp)) nb with
      | true =>
        have hne : ¬Follows m buf (patternAt pat patlen patshift) buflen := by
          intro hall
          have hfalse := hstep.2 fun i hi => hall (ncmp + i) (by omega)
          rw [hcmp] at hfalse
          exact Bool.noConfusion hfalse
        simp [hne]
      | false =>
        have hf' := follows_add.2 ⟨hf, hstep.1 hcmp⟩
        simp only [Bool.false_eq_true, if_false]
        apply ih
        · omega
        · intro h
          split at hnb
          · rw [← hnb, ← Nat.two_mul, Nat.mul_mod, hmod hlt, Nat.mul_zero, Nat.zero_mod]
          · omega
        · omega
        · omega
        · omega
        · exact hf'
    · have hall : Follows m buf (patternAt pat patlen patshift) buflen := hf.mono (by omega)
      simp [hlt, hall]

theorem patternFillLoop_spec (buf buflen : Nat) :
    ∀ fuel (m : Nat → α) cp ncopied nleft, 0 < ncopied → (ncopied < buflen → ncopied % patlen = 0) →
      cp = buf + ncopied → nleft = buflen - ncopied → buflen - ncopied < fuel →
      Follows m buf (patternAt pat patlen patshift) ncopied →
      ∃ m', patternFillLoop buf buflen fuel m cp ncopied nleft = some m' ∧
        Follows m' buf (patternAt pat patlen patshift) buflen ∧
        ∀ a, a < buf + ncopied ∨ buf + buflen ≤ a → m' a = m a := by
  intro fuel
  induction fuel with
  | zero => intro _ _ _ _ _ _ _ _ hfuel; omega
  | succ fuel ih =>
    intro m cp ncopied nleft hpos hmod hcp hleft hfuel hf
    subst hcp hleft
    unfold patternFillLoop
    by_cases hlt : ncopied < buflen
    · simp only [hlt, if_true]
      -- one doubling step: copy the written prefix after itself
      generalize htr : (if ncopied < buflen - ncopied then ncopied else buflen - ncopied) = trans
      have htrans : 0 < trans ∧ trans ≤ ncopied ∧ ncopied + trans ≤ buflen := by split at htr <;> omega
      have hout : ∀ a, a < buf + ncopied ∨ buf + buflen ≤ a →
          memcpy m (buf + ncopied) (shift m buf) trans a = m a :=
        fun a ha => memcpy_outside (by omega)
      have hf' : Follows (memcpy m (buf + ncopied) (shift m buf) trans) buf
          (patternAt pat patlen patshift) (ncopied + trans) := by
        refine follows_add.2 ⟨fun i hi => by rw [hout _ (by omega)]; exact hf i hi, fun i hi => ?_⟩
        rw [← Nat.add_assoc, memcpy_add _ _ _ hi, shift_apply, hf i (by omega),
          patternAt_add_of_mod (hmod hlt)]
      obtain ⟨m', hrun, hfill, hframe⟩ := ih _ (buf + ncopied + trans) (ncopied + trans)
        (buflen - ncopied - trans) (by omega)
        (fun h => by
          split at htr
          · rw [← htr, ← Nat.two_mul, Nat.mul_mod, hmod hlt, Nat.mul_zero, Nat.zero_mod]
          · omega)
        (by omega) (by omega) (by omega) hf'
      refine ⟨m', hrun, hfill, fun a ha => ?_⟩
      rw [hframe a (by omega), hout a ha]
    · exact ⟨m, by simp [hlt], hf.mono (by omega), fun _ _ => rfl⟩

end Doubling

/-! ### The first period -/

section FirstPeriod

variable {pat : Nat → α} {patlen patshift : Nat}

/-- The first piece: the buffer against the pattern from `patshift` on. -/
theorem follows_first_piece {m : Nat → α} {buf k : Nat} (hk : k + patshift ≤ patlen) :
    Follows m buf (shift pat patshift) k ↔ Follows m buf (patternAt pat patlen patshift) k :=
  follows_congr fun i hi => by rw [shift_apply, patternAt_of_lt (by omega)]

/-- The second piece: after the first `patlen - patshift` bytes, the buffer against the start of
the pattern. -/
theorem follows_second_piece {m : Nat → α} {buf k : Nat} (hs : patshift < patlen) (hk : k ≤ patshift)
    (hf : Follows m buf (patternAt pat patlen patshift) (patlen - patshift)) :
    Follows m (buf + (patlen - patshift)) pat k ↔
      Follows m buf (patternAt pat patlen patshift) (patlen - patshift + k) := by
  rw [follows_add]
  refine ⟨fun h => ⟨hf, fun i hi => ?_⟩, fun h i hi => ?_⟩
  · rw [patternAt_wrap hs (by omega), ← Nat.add_assoc]; exact h i hi
  · have hw : patternAt pat patlen patshift (patlen - patshift + i) = pat i := patternAt_wrap hs (by omega)
    rw [Nat.add_assoc, ← hw]
    exact h.2 i hi

theorem patternCheck_mod [DecidableEq α] (m : Nat → α) (buf buflen : Nat) :
    patternCheck m buf buflen pat patlen patshift =
      patternCheck m buf buflen pat patlen (patshift % patlen) := by
  unfold patternCheck
  by_cases h : patlen = 0 <;> simp [h]

theorem patternFill_mod (m : Nat → α) (buf buflen : Nat) :
    patternFill m buf buflen pat patlen patshift =
      patternFill m buf buflen pat patlen (patshift % patlen) := by
  unfold patternFill
  by_cases h : patlen = 0 <;> simp [h]

/-- What a `memcpy` wrote follows its source. -/
theorem follows_memcpy (m : Nat → α) (dst : Nat) (src : Nat → α) (n : Nat) :
    Follows (memcpy m dst src n) dst src n :=
  fun _ hi => memcpy_add _ _ _ hi

theorem patternFill_spec_of_lt {m : Nat → α} {buf buflen : Nat} (hs : patshift < patlen) :
    ∃ m', patternFill m buf buflen pat patlen patshift = some (0, m') ∧
      Follows m' buf (patternAt pat patlen patshift) buflen ∧
      ∀ a, a < buf ∨ buf + buflen ≤ a → m' a = m a := by
  unfold patternFill
  simp only [show patlen ≠ 0 by omega, ne_eq, not_false_eq_true, if_true, Nat.mod_eq_of_lt hs]
  by_cases h₁ : buflen < patlen - patshift
  · -- the buffer ends inside the first piece
    rw [if_pos h₁]
    exact ⟨_, rfl, (follows_first_piece (by omega)).1 (follows_memcpy _ _ _ _),
      fun a ha => memcpy_outside (by omega)⟩
  rw [if_neg h₁]
  set m₁ := memcpy m buf (shift pat patshift) (patlen - patshift) with hm₁
  have hf₁ : Follows m₁ buf (patternAt pat patlen patshift) (patlen - patshift) :=
    (follows_first_piece (by omega)).1 (follows_memcpy _ _ _ _)
  have hout₁ : ∀ a, a < buf ∨ buf + (patlen - patshift) ≤ a → m₁ a = m a :=
    fun a ha => memcpy_outside ha
  by_cases h₂ : 0 < patshift
  · rw [if_pos h₂]
    by_cases h₃ : buflen - (patlen - patshift) < patshift
    · -- the buffer ends inside the second piece
      rw [if_pos h₃]
      refine ⟨_, rfl, ?_, fun a ha => ?_⟩
      · have hf : Follows (memcpy m₁ (buf + (patlen - patshift)) pat (buflen - (patlen - patshift))) buf
            (patternAt pat patlen patshift) (patlen - patshift) :=
          fun i hi => by rw [memcpy_outside (by omega)]; exact hf₁ i hi
        have := (follows_second_piece hs (by omega) hf).1 (follows_memcpy _ _ _ _)
        rwa [Nat.add_sub_cancel' (by omega)] at this
      · rw [memcpy_outside (by omega), hout₁ a (by omega)]
    rw [if_neg h₃]
    set m₂ := memcpy m₁ (buf + (patlen - patshift)) pat patshift with hm₂
    have hout₂ : ∀ a, a < buf + (patlen - patshift) ∨ buf + patlen ≤ a → m₂ a = m₁ a :=
      fun a ha => memcpy_outside (by omega)
    have hf₂ : Follows m₂ buf (patternAt pat patlen patshift) patlen := by
      have hf : Follows m₂ buf (patternAt pat patlen patshift) (patlen - patshift) :=
        fun i hi => by rw [hout₂ _ (by omega)]; exact hf₁ i hi
      have := (follows_second_piece hs le_rfl hf).1 (follows_memcpy _ _ _ _)
      rwa [Nat.sub_add_cancel (by omega)] at this
    obtain ⟨m', hrun, hfill, hframe⟩ := patternFillLoop_spec buf buflen (buflen + 1) m₂
      (buf + (patlen - patshift) + patshift) patlen (buflen - (patlen - patshift) - patshift)
      (by omega) (fun _ => Nat.mod_self patlen) (by omega) (by omega) (by omega) hf₂
    rw [show buf + (patlen - patshift) + patshift - buf = patlen by omega, hrun]
    refine ⟨m', rfl, hfill, fun a ha => ?_⟩
    rw [hframe a (by omega), hout₂ a (by omega), hout₁ a (by omega)]
  · rw [if_neg h₂]
    have hp : patshift = 0 := by omega
    subst hp
    obtain ⟨m', hrun, hfill, hframe⟩ := patternFillLoop_spec buf buflen (buflen + 1) m₁ (buf + patlen) patlen
      (buflen - patlen) (by omega) (fun _ => Nat.mod_self patlen) rfl rfl (by omega) hf₁
    rw [Nat.sub_zero, Nat.add_sub_cancel_left, hrun]
    refine ⟨m', rfl, hfill, fun a ha => ?_⟩
    rw [hframe a (by omega), hout₁ a (by omega)]

/-- A `memcmp` that tests `P` returns `0` exactly when `P` holds. -/
theorem memcmp_result {b : Bool} {P : Prop} [Decidable P] (h : b = false ↔ P) :
    (if b then (-1 : Int) else 0) = if P then 0 else -1 := by
  cases b
  · simp [h.1 rfl]
  · have : ¬P := fun hp => Bool.noConfusion (h.2 hp)
    simp [this]

theorem patternCheck_eq_of_lt [DecidableEq α] {m : Nat → α} {buf buflen : Nat} (hs : patshift < patlen) :
    patternCheck m buf buflen pat patlen patshift =
      some (if Follows m buf (patternAt pat patlen patshift) buflen then 0 else -1) := by
  unfold patternCheck
  simp only [show patlen ≠ 0 by omega, ne_eq, not_false_eq_true, if_true, Nat.mod_eq_of_lt hs]
  by_cases h₁ : buflen < patlen - patshift
  · -- the buffer ends inside the first piece
    rw [if_pos h₁, memcmp_result (memcmp_eq_false_iff_follows.trans
      (follows_first_piece (show buflen + patshift ≤ patlen by omega)))]
  rw [if_neg h₁]
  have hfirst : memcmp (shift m buf) (shift pat patshift) (patlen - patshift) = false ↔
      Follows m buf (patternAt pat patlen patshift) (patlen - patshift) :=
    memcmp_eq_false_iff_follows.trans (follows_first_piece (by omega))
  cases hc : memcmp (shift m buf) (shift pat patshift) (patlen - patshift) with
  | true =>
    have hne : ¬Follows m buf (patternAt pat patlen patshift) buflen :=
      fun h => Bool.noConfusion (hc ▸ hfirst.2 (h.mono (by omega)))
    simp [hne]
  | false =>
  have hf₁ := hfirst.1 hc
  simp only [Bool.false_eq_true, if_false]
  by_cases h₂ : 0 < patshift
  · rw [if_pos h₂]
    by_cases h₃ : buflen - (patlen - patshift) < patshift
    · -- the buffer ends inside the second piece
      rw [if_pos h₃, memcmp_result (memcmp_eq_false_iff_follows.trans
        (follows_second_piece hs (by omega) hf₁)), Nat.add_sub_cancel' (by omega)]
    rw [if_neg h₃]
    have hsecond := memcmp_eq_false_iff_follows.trans (follows_second_piece hs le_rfl hf₁)
    rw [Nat.sub_add_cancel (by omega)] at hsecond
    cases hc₂ : memcmp (shift m (buf + (patlen - patshift))) pat patshift with
    | true =>
      have hne : ¬Follows m buf (patternAt pat patlen patshift) buflen :=
        fun h => Bool.noConfusion (hc₂ ▸ hsecond.2 (h.mono (by omega)))
      simp [hne]
    | false =>
      simp only [Bool.false_eq_true, if_false]
      rw [show buf + (patlen - patshift) + patshift - buf = patlen by omega]
      exact patternCheckLoop_eq m buf buflen _ _ _ _ (by omega) (fun _ => Nat.mod_self patlen)
        (by omega) (by omega) (by omega) (hsecond.1 hc₂)
  · rw [if_neg h₂]
    have hp : patshift = 0 := by omega
    subst hp
    rw [Nat.sub_zero, Nat.add_sub_cancel_left]
    exact patternCheckLoop_eq m buf buflen _ _ _ _ (by omega) (fun _ => Nat.mod_self patlen) rfl
      rfl (by omega) hf₁

theorem patternFill_spec {m : Nat → α} {buf buflen : Nat} (hpat : 0 < patlen) :
    ∃ m', patternFill m buf buflen pat patlen patshift = some (0, m') ∧
      Follows m' buf (patternAt pat patlen patshift) buflen ∧
      ∀ a, a < buf ∨ buf + buflen ≤ a → m' a = m a := by
  have hspec : patternAt pat patlen (patshift % patlen) = patternAt pat patlen patshift :=
    funext (patternAt_mod pat patshift)
  rw [patternFill_mod, ← hspec]
  exact patternFill_spec_of_lt (Nat.mod_lt _ hpat)

theorem patternCheck_eq [DecidableEq α] {m : Nat → α} {buf buflen : Nat} (hpat : 0 < patlen) :
    patternCheck m buf buflen pat patlen patshift =
      some (if Follows m buf (patternAt pat patlen patshift) buflen then 0 else -1) := by
  have hspec : patternAt pat patlen (patshift % patlen) = patternAt pat patlen patshift :=
    funext (patternAt_mod pat patshift)
  rw [patternCheck_mod, ← hspec]
  exact patternCheck_eq_of_lt (Nat.mod_lt _ hpat)

end FirstPeriod

/-! ### The rescan of `doio_pat_check` -/

section Rescan

variable [DecidableEq α] {m pat : Nat → α} {patlen patshift buf : Nat}

/-- Stepping the pattern index with its wrap-around is stepping the offset modulo `patlen`. -/
theorem step_patternIndex (hpat : 0 < patlen) (x : Nat) :
    (if x % patlen + 1 = patlen then 0 else x % patlen + 1) = (x + 1) % patlen := by
  have hlt := Nat.mod_lt x hpat
  have key : (x + 1) % patlen = (x % patlen + 1) % patlen := by
    conv_lhs => rw [← Nat.mod_add_div x patlen]
    rw [Nat.add_right_comm, Nat.add_mul_mod_self_left]
  rw [key]
  split
  · rename_i h
    rw [h, Nat.mod_self]
  · rw [Nat.mod_eq_of_lt (show x % patlen + 1 < patlen by omega)]

theorem doioPatScan_eq_none_iff (hpat : 0 < patlen) :
    ∀ left j, doioPatScan m pat patlen left (buf + j) ((j + patshift) % patlen) = none ↔
      ∀ i < left, m (buf + (j + i)) = patternAt pat patlen patshift (j + i) := by
  intro left
  induction left with
  | zero => intro j; simp [doioPatScan]
  | succ left ih =>
    intro j
    rw [doioPatScan]
    by_cases hne : m (buf + j) ≠ pat ((j + patshift) % patlen)
    · rw [if_pos hne]
      simp only [reduceCtorEq, false_iff, not_forall]
      exact ⟨0, by omega, by simpa [patternAt] using hne⟩
    · rw [if_neg hne, step_patternIndex hpat, show (j + patshift + 1) = (j + 1 + patshift) by omega,
        show buf + j + 1 = buf + (j + 1) by omega, ih (j + 1)]
      constructor
      · intro h i hi
        cases i with
        | zero => simpa [patternAt] using hne
        | succ i => rw [show j + (i + 1) = j + 1 + i by omega]; exact h i (by omega)
      · intro h i hi
        rw [show j + 1 + i = j + (i + 1) by omega]; exact h (i + 1) (by omega)

theorem doioPatScan_eq_some (hpat : 0 < patlen) :
    ∀ left j a k, doioPatScan m pat patlen left (buf + j) ((j + patshift) % patlen) = some (a, k) →
      ∃ i < left, a = buf + (j + i) ∧ k = (j + i + patshift) % patlen ∧ m a ≠ pat k := by
  intro left
  induction left with
  | zero => intro j a k h; simp [doioPatScan] at h
  | succ left ih =>
    intro j a k h
    rw [doioPatScan] at h
    by_cases hne : m (buf + j) ≠ pat ((j + patshift) % patlen)
    · rw [if_pos hne] at h
      obtain ⟨rfl, rfl⟩ := Prod.mk.inj (Option.some.inj h)
      exact ⟨0, by omega, rfl, rfl, hne⟩
    · rw [if_neg hne, step_patternIndex hpat, show (j + patshift + 1) = (j + 1 + patshift) by omega,
        show buf + j + 1 = buf + (j + 1) by omega] at h
      obtain ⟨i, hi, rfl, rfl, hmis⟩ := ih (j + 1) a k h
      exact ⟨i + 1, by omega, by omega, by rw [show j + 1 + i = j + (i + 1) by omega], hmis⟩

/-- When `pattern_check` reports `-1`, the rescan stops at a byte that differs from the pattern. -/
theorem doioPatScan_of_patternCheck (hpat : 0 < patlen) {buflen : Nat}
    (h : patternCheck m buf buflen pat patlen patshift = some (-1)) :
    ∃ i < buflen, doioPatScan m pat patlen buflen buf (patshift % patlen) =
      some (buf + i, (i + patshift) % patlen) ∧ m (buf + i) ≠ pat ((i + patshift) % patlen) := by
  rw [patternCheck_eq hpat] at h
  have hnot : ¬Follows m buf (patternAt pat patlen patshift) buflen := by
    intro hf; simp [hf] at h
  have hscan : doioPatScan m pat patlen buflen (buf + 0) ((0 + patshift) % patlen) = none ↔
      ∀ i < buflen, m (buf + (0 + i)) = patternAt pat patlen patshift (0 + i) :=
    doioPatScan_eq_none_iff hpat buflen 0
  cases hs : doioPatScan m pat patlen buflen buf (patshift % patlen) with
  | none =>
    rw [Nat.zero_add, Nat.add_zero] at hscan
    exact absurd (fun i hi => by simpa using (hscan.1 hs) i hi) hnot
  | some r =>
    obtain ⟨a, k⟩ := r
    have : doioPatScan m pat patlen buflen (buf + 0) ((0 + patshift) % patlen) = some (a, k) →
        ∃ i < buflen, a = buf + (0 + i) ∧ k = (0 + i + patshift) % patlen ∧ m a ≠ pat k :=
      doioPatScan_eq_some hpat buflen 0 a k
    rw [Nat.zero_add, Nat.add_zero] at this
    obtain ⟨i, hi, rfl, rfl, hmis⟩ := this hs
    exact ⟨i, hi, by simp, by simpa using hmis⟩

/-- The report of `doio_pat_check` is empty exactly for a buffer holding the pattern, and otherwise
names a byte that differs from it. -/
theorem doioPatCheck_spec {m pattern : Nat → Char} {buf length patternLength patshift : Nat}
    (offset : Int) (hpat : 0 < patternLength) :
    (doioPatCheck m buf offset length pattern patternLength patshift = some none ↔
      Follows m buf (patternAt pattern patternLength patshift) length) ∧
    (¬Follows m buf (patternAt pattern patternLength patshift) length →
      ∃ i < length, m (buf + i) ≠ pattern ((i + patshift) % patternLength) ∧
        doioPatCheck m buf offset length pattern patternLength patshift =
          some (some (corruptHeader ++ corruptReport m buf offset length pattern patternLength (buf + i)
            ((i + patshift) % patternLength)))) := by
  have hcheck : patternCheck m buf length pattern patternLength patshift =
      some (if Follows m buf (patternAt pattern patternLength patshift) length then 0 else -1) :=
    patternCheck_eq hpat
  refine ⟨?_, fun hnot => ?_⟩
  · unfold doioPatCheck
    rw [hcheck]
    by_cases hf : Follows m buf (patternAt pattern patternLength patshift) length <;> simp [hf]
  · have hm1 : patternCheck m buf length pattern patternLength patshift = some (-1) := by
      rw [hcheck, if_neg hnot]
    obtain ⟨i, hi, hscan, hmis⟩ := doioPatScan_of_patternCheck hpat hm1
    refine ⟨i, hi, hmis, ?_⟩
    unfold doioPatCheck
    rw [hm1]
    simp [hscan]

end Rescan

/-! ### Agreement with the modular definition -/

theorem pattern_fill_check_modular {α : Type} [DecidableEq α] (m : Nat → α) (buf buflen : Nat)
    (pat : Nat → α) (patlen patshift : Nat) (hpat : 0 < patlen) :
    (∃ m', patternFill m buf buflen pat patlen patshift = some (0, m') ∧
      (∀ i < buflen, m' (buf + i) = pat ((i + patshift) % patlen)) ∧
      ∀ a, a < buf ∨ buf + buflen ≤ a → m' a = m a) ∧
    (patternCheck m buf buflen pat patlen patshift = some 0 ↔
      ∀ i < buflen, m (buf + i) = pat ((i + patshift) % patlen)) ∧
    (patternCheck m buf buflen pat patlen patshift = some 0 ∨
      patternCheck m buf buflen pat patlen patshift = some (-1)) ∧
    (patternCheck m buf buflen pat patlen patshift = some (-1) →
      ∃ i < buflen, doioPatScan m pat patlen buflen buf (patshift % patlen) =
          some (buf + i, (i + patshift) % patlen) ∧
        m (buf + i) ≠ pat ((i + patshift) % patlen)) := by
  have hcheck : patternCheck m buf buflen pat patlen patshift =
      some (if Follows m buf (patternAt pat patlen patshift) buflen then 0 else -1) :=
    patternCheck_eq hpat
  refine ⟨patternFill_spec hpat, ?_, ?_, doioPatScan_of_patternCheck hpat⟩
  · rw [hcheck]
    by_cases hf : Follows m buf (patternAt pat patlen patshift) buflen
    · simp only [hf, if_true, true_iff]; exact hf
    · simp only [hf, if_false, Option.some.injEq]
      exact ⟨fun h => by omega, fun h => absurd h hf⟩
  · rw [hcheck]; split <;> simp

theorem pattern_fill_check_modular_abc :
    0 < 3 ∧
    (∃ m', patternFill (fun _ => 'x') 0 5 (fun i => "abc".toList.getD i ' ') 3 1 = some (0, m') ∧
      (∀ i < 5, m' (0 + i) = "abc".toList.getD ((i + 1) % 3) ' ') ∧
      ∀ a, a < 0 ∨ 0 + 5 ≤ a → m' a = 'x') ∧
    (patternCheck (fun _ => 'x') 0 5 (fun i => "abc".toList.getD i ' ') 3 1 = some 0 ↔
      ∀ i < 5, 'x' = "abc".toList.getD ((i + 1) % 3) ' ') ∧
    (patternCheck (fun _ => 'x') 0 5 (fun i => "abc".toList.getD i ' ') 3 1 = some 0 ∨
      patternCheck (fun _ => 'x') 0 5 (fun i => "abc".toList.getD i ' ') 3 1 = some (-1)) ∧
    (patternCheck (fun _ => 'x') 0 5 (fun i => "abc".toList.getD i ' ') 3 1 = some (-1) →
      ∃ i < 5, doioPatScan (fun _ => 'x') (fun i => "abc".toList.getD i ' ') 3 5 0 (1 % 3) =
          some (0 + i, (i + 1) % 3) ∧
        'x' ≠ "abc".toList.getD ((i + 1) % 3) ' ') :=
  ⟨by decide, pattern_fill_check_modular (fun _ => 'x') 0 5 (fun i => "abc".toList.getD i ' ') 3 1
    (by decide)⟩

end Ltp
