import Ltp.Library.CInt

/-!
# The scans of `do_timer_test` (`tst_timer_test.c`)

After sorting its `nsamples` samples in non-increasing order, `do_timer_test` counts the outliers
at the front, samples over ten times the requested sleep `usec` and over three times the
resolution of `CLOCK_MONOTONIC`, and the samples at the back that woke up before `usec`:

    for (i = 0; samples[i] > 10 * usec && i < (int)nsamples; i++)
            if (samples[i] <= 3 * monotonic_resolution) break;
    for (i = nsamples - 1; samples[i] < usec && i > -1; i--);

Both conditions read `samples[i]` before they test `i`.  The model reads the array through
`samples : Int → Int`, the value at every index, the ones past the samples included, and records
the index of every read.  `10 * usec` is taken exactly; `3 * monotonic_resolution` is
`unsigned int` arithmetic.

* `outlierLoop_spec`, `earlyLoop_spec`: each loop stops at the first index that ends the run it
  counts, and reads exactly the indices from its start to that index.
* `outlierScan_spec`, `earlyScan_spec`: the counts are the longest prefix of outliers and the
  longest suffix of early samples.
* `do_timer_test_reads_past_samples`: the outlier scan reads `samples[nsamples]` exactly when
  every sample is an outlier, and the early scan reads `samples[-1]` exactly when every sample woke
  up early; no other read leaves `[0, nsamples)`.
-/

namespace Ltp

open CInt

/-- The outlier loop from index `i`, with `nsamples` as the `int` it is compared as; returns where
it stops and the indices it read, in order. -/
def outlierLoop (samples : Int → Int) (nsamples usec : Int) (monotonicResolution : Nat) :
    Nat → Int → List Int → Int × List Int
  | 0, i, reads => (i, reads)
  | fuel + 1, i, reads =>
    if 10 * usec < samples i ∧ i < nsamples then
      if samples i ≤ ((3 * monotonicResolution % 2 ^ 32 : Nat) : Int) then (i, reads ++ [i, i])
      else outlierLoop samples nsamples usec monotonicResolution fuel (i + 1) (reads ++ [i, i])
    else (i, reads ++ [i])

/-- The early-wakeup loop from index `i` down. -/
def earlyLoop (samples : Int → Int) (usec : Int) : Nat → Int → List Int → Int × List Int
  | 0, i, reads => (i, reads)
  | fuel + 1, i, reads =>
    if samples i < usec ∧ -1 < i then earlyLoop samples usec fuel (i - 1) (reads ++ [i])
    else (i, reads ++ [i])

/-- The outlier scan: the number of outliers and the indices read. -/
def outlierScan (samples : Int → Int) (nsamples : Nat) (usec : Int) (monotonicResolution : Nat) :
    Int × List Int :=
  outlierLoop samples (ofUnsigned 32 nsamples) usec monotonicResolution (nsamples + 1) 0 []

/-- The early-wakeup scan from `i = nsamples - 1`: where it stops and the indices read; the count
is `nsamples - 1 - i`. -/
def earlyScan (samples : Int → Int) (nsamples : Nat) (usec : Int) : Int × List Int :=
  earlyLoop samples usec (nsamples + 1) (ofUnsigned 32 ((nsamples + 2 ^ 32 - 1) % 2 ^ 32)) []

/-- An outlier: over ten times the requested sleep and over three times the resolution. -/
def IsOutlier (usec : Int) (monotonicResolution : Nat) (v : Int) : Prop :=
  10 * usec < v ∧ 3 * (monotonicResolution : Int) < v

section Loops

variable {samples : Int → Int} {usec : Int} {reads rs : List Int} {i j : Int}

/-- The outlier loop from `0 ≤ i ≤ n` stops at the first `j` that is not an outlier or at `n`,
having read each index from `i` to `j`. -/
theorem outlierLoop_spec {n : Int} {res fuel : Nat} (hres : 3 * res < 2 ^ 32) (hi : 0 ≤ i)
    (hin : i ≤ n) (hfuel : n - i < fuel) (h : outlierLoop samples n usec res fuel i reads = (j, rs)) :
    i ≤ j ∧ j ≤ n ∧ (∀ m, i ≤ m → m < j → IsOutlier usec res (samples m)) ∧
      (j < n → ¬ IsOutlier usec res (samples j)) ∧ (∀ x, x ∈ rs ↔ x ∈ reads ∨ (i ≤ x ∧ x ≤ j)) := by
  have hthree : ((3 * res % 2 ^ 32 : Nat) : Int) = 3 * (res : Int) := by
    rw [Nat.mod_eq_of_lt hres]
    push_cast
    ring
  induction fuel generalizing i reads with
  | zero => omega
  | succ fuel ih =>
    rw [outlierLoop, hthree] at h
    split_ifs at h with hc hb
    · -- `samples[i]` is not above three times the resolution: `break`
      cases h
      refine ⟨le_refl _, hin, fun m hm hm' => absurd hm' (by omega), fun _ ho => ?_, fun x => ?_⟩
      · exact absurd ho.2 (by omega)
      · simp only [List.mem_append, List.mem_cons, List.not_mem_nil, or_false]
        constructor
        · rintro (hx | rfl | rfl) <;> simp_all
        · rintro (hx | ⟨h1, h2⟩)
          · exact .inl hx
          · exact .inr (.inl (by omega))
    · -- an outlier: the loop goes on from `i + 1`
      obtain ⟨hij, hjn, hpre, hstop, hmem⟩ := ih (by omega) (by omega) (by omega) h
      refine ⟨by omega, hjn, fun m hm hm' => ?_, hstop, fun x => ?_⟩
      · rcases eq_or_lt_of_le hm with rfl | hm
        · exact ⟨hc.1, by omega⟩
        · exact hpre m (by omega) hm'
      · rw [hmem]
        simp only [List.mem_append, List.mem_cons, List.not_mem_nil, or_false]
        constructor
        · rintro ((hx | rfl | rfl) | ⟨h1, h2⟩)
          · exact .inl hx
          · exact .inr ⟨le_refl _, by omega⟩
          · exact .inr ⟨le_refl _, by omega⟩
          · exact .inr ⟨by omega, h2⟩
        · rintro (hx | ⟨h1, h2⟩)
          · exact .inl (.inl hx)
          · rcases eq_or_lt_of_le h1 with rfl | h1
            · exact .inl (.inr (.inl rfl))
            · exact .inr ⟨by omega, h2⟩
    · -- the condition fails, at `i = n` whatever `samples[n]` holds
      cases h
      refine ⟨le_refl _, hin, fun m hm hm' => absurd hm' (by omega), fun hlt ho => hc ⟨ho.1, hlt⟩,
        fun x => ?_⟩
      simp only [List.mem_append, List.mem_singleton]
      constructor
      · rintro (hx | rfl)
        · exact .inl hx
        · exact .inr ⟨le_refl _, le_refl _⟩
      · rintro (hx | ⟨h1, h2⟩)
        · exact .inl hx
        · exact .inr (by omega)

/-- The early-wakeup loop from `-1 ≤ i` stops at the first `j` down that did not wake up early or
at `-1`, having read each index from `i` down to `j`. -/
theorem earlyLoop_spec {fuel : Nat} (hi : -1 ≤ i) (hfuel : i + 1 < fuel)
    (h : earlyLoop samples usec fuel i reads = (j, rs)) :
    -1 ≤ j ∧ j ≤ i ∧ (∀ m, j < m → m ≤ i → samples m < usec) ∧ (-1 < j → ¬ samples j < usec) ∧
      (∀ x, x ∈ rs ↔ x ∈ reads ∨ (j ≤ x ∧ x ≤ i)) := by
  induction fuel generalizing i reads with
  | zero => omega
  | succ fuel ih =>
    rw [earlyLoop] at h
    split_ifs at h with hc
    · -- an early sample: the loop goes on from `i - 1`
      obtain ⟨hj, hji, hsuf, hstop, hmem⟩ := ih (by omega) (by omega) h
      refine ⟨hj, by omega, fun m hm hm' => ?_, hstop, fun x => ?_⟩
      · rcases eq_or_lt_of_le hm' with rfl | hm'
        · exact hc.1
        · exact hsuf m hm (by omega)
      · rw [hmem]
        simp only [List.mem_append, List.mem_singleton]
        constructor
        · rintro ((hx | rfl) | ⟨h1, h2⟩)
          · exact .inl hx
          · exact .inr ⟨by omega, le_refl _⟩
          · exact .inr ⟨h1, by omega⟩
        · rintro (hx | ⟨h1, h2⟩)
          · exact .inl (.inl hx)
          · rcases eq_or_lt_of_le h2 with rfl | h2
            · exact .inl (.inr rfl)
            · exact .inr ⟨h1, by omega⟩
    · -- the condition fails, at `i = -1` whatever `samples[-1]` holds
      cases h
      refine ⟨hi, le_refl _, fun m hm hm' => absurd hm' (by omega), fun hlt he => hc ⟨he, hlt⟩,
        fun x => ?_⟩
      simp only [List.mem_append, List.mem_singleton]
      constructor
      · rintro (hx | rfl)
        · exact .inl hx
        · exact .inr ⟨le_refl _, le_refl _⟩
      · rintro (hx | ⟨h1, h2⟩)
        · exact .inl hx
        · exact .inr (by omega)

end Loops

section Scans

variable {samples : Int → Int} {n : Nat} {usec : Int} {rs : List Int} {j : Int}

/-- The outlier scan stops at the length `j` of the longest prefix of outliers, having read
`samples[0 .. j]`. -/
theorem outlierScan_spec {res : Nat} (hn : n < 2 ^ 31) (hres : 3 * res < 2 ^ 32)
    (h : outlierScan samples n usec res = (j, rs)) :
    0 ≤ j ∧ j ≤ n ∧ (∀ m, 0 ≤ m → m < j → IsOutlier usec res (samples m)) ∧
      (j < n → ¬ IsOutlier usec res (samples j)) ∧ (∀ x, x ∈ rs ↔ 0 ≤ x ∧ x ≤ j) := by
  rw [outlierScan, ofUnsigned_of_lt (by omega)] at h
  obtain ⟨hj0, hjn, hpre, hstop, hmem⟩ := outlierLoop_spec hres (le_refl 0) (by omega) (by omega) h
  exact ⟨hj0, hjn, hpre, hstop, fun x => by simpa using hmem x⟩

/-- The early-wakeup scan stops at `j`, where `n - 1 - j` is the length of the longest suffix of
early samples, having read `samples[j .. n - 1]`. -/
theorem earlyScan_spec (hn0 : 0 < n) (hn : n < 2 ^ 31) (h : earlyScan samples n usec = (j, rs)) :
    -1 ≤ j ∧ j < n ∧ (∀ m, j < m → m < n → samples m < usec) ∧ (-1 < j → ¬ samples j < usec) ∧
      (∀ x, x ∈ rs ↔ j ≤ x ∧ x < n) := by
  have hstart : (n + 2 ^ 32 - 1) % 2 ^ 32 = n - 1 := by omega
  rw [earlyScan, hstart, ofUnsigned_of_lt (by omega)] at h
  obtain ⟨hj, hji, hsuf, hstop, hmem⟩ := earlyLoop_spec (by omega) (by omega) h
  refine ⟨hj, by omega, fun m hm hm' => hsuf m hm (by omega), hstop, fun x => ?_⟩
  rw [hmem]
  simp only [List.not_mem_nil, false_or]
  omega

/-- Both scans read `samples[i]` before they test `i`: the outlier scan reads `samples[nsamples]`
exactly when every sample is an outlier, the early-wakeup scan reads `samples[-1]` exactly when
every sample woke up early, and these are the only reads outside `[0, nsamples)`. -/
theorem do_timer_test_reads_past_samples {res : Nat} (hn0 : 0 < n) (hn : n < 2 ^ 31)
    (hres : 3 * res < 2 ^ 32) :
    (∀ x ∈ (outlierScan samples n usec res).2, 0 ≤ x ∧ x ≤ n) ∧
      ((n : Int) ∈ (outlierScan samples n usec res).2 ↔
        ∀ m : Int, 0 ≤ m → m < n → IsOutlier usec res (samples m)) ∧
      (∀ x ∈ (earlyScan samples n usec).2, -1 ≤ x ∧ x < n) ∧
      ((-1 : Int) ∈ (earlyScan samples n usec).2 ↔ ∀ m : Int, 0 ≤ m → m < n → samples m < usec) := by
  rcases hout : outlierScan samples n usec res with ⟨j, rs⟩
  rcases hearly : earlyScan samples n usec with ⟨k, es⟩
  obtain ⟨hj0, hjn, hpre, hstop, hmem⟩ := outlierScan_spec hn hres hout
  obtain ⟨hk, hkn, hsuf, hkstop, hkmem⟩ := earlyScan_spec hn0 hn hearly
  refine ⟨fun x hx => ?_, ?_, fun x hx => ?_, ?_⟩
  · have := (hmem x).1 hx
    omega
  · -- the read of `samples[nsamples]` is the scan running to the end
    rw [hmem]
    constructor
    · rintro ⟨-, hnj⟩
      exact fun m hm hm' => hpre m hm (by omega)
    · intro hall
      by_contra hlt
      exact hstop (by omega) (hall j hj0 (by omega))
  · have := (hkmem x).1 hx
    omega
  · rw [hkmem]
    constructor
    · rintro ⟨hk1, -⟩
      exact fun m hm hm' => hsuf m (by omega) hm'
    · intro hall
      by_contra hlt
      exact hkstop (by omega) (hall k (by omega) hkn)

end Scans

/-- Ten samples of a second for a requested sleep of a millisecond, with a resolution of one
microsecond: every sample is an outlier, so the outlier scan reads `samples[10]`. -/
theorem do_timer_test_reads_past_samples_slow :
    (∀ x ∈ (outlierScan (fun _ => 1000000) 10 1000 1).2, 0 ≤ x ∧ x ≤ 10) ∧
      (((10 : Nat) : Int) ∈ (outlierScan (fun _ => 1000000) 10 1000 1).2 ↔
        ∀ m : Int, 0 ≤ m → m < (10 : Nat) → IsOutlier 1000 1 ((fun _ => 1000000) m)) ∧
      (∀ x ∈ (earlyScan (fun _ => 1000000) 10 1000).2, -1 ≤ x ∧ x < (10 : Nat)) ∧
      ((-1 : Int) ∈ (earlyScan (fun _ => 1000000) 10 1000).2 ↔
        ∀ m : Int, 0 ≤ m → m < (10 : Nat) → (fun _ => (1000000 : Int)) m < 1000) :=
  do_timer_test_reads_past_samples (by norm_num) (by norm_num) (by norm_num)

example : (10 : Int) ∈ (outlierScan (fun _ => 1000000) 10 1000 1).2 := by decide

end Ltp
