import Ltp.Library.CText

/-!
# Splitting a string into an array of tokens (`string_to_tokens.c`)

`string_to_tokens(arg_string, arg_array, array_size, separator)` stores the `strtok` tokens of
`arg_string` into `arg_array` and returns how many it stored.  The model records what the call
writes into `arg_array`: the index and the pointer stored (`none` is `NULL`), in order.  The
`strtok` calls return the tokens of `CText.strtokAll` one by one, then `NULL`.

* `stringToTokens_eq`: with `m = min n array_size` for the `n` tokens of the string, the call
  stores the first `m` tokens at `0 .. m-1` and then `NULL` at index `m`, and returns `m`.
* `string_to_tokens_overrun`: with at least `array_size` tokens it therefore stores
  `array_size` tokens, not `array_size - 1`, writes `NULL` at `arg_array[array_size]`, past an
  array of `array_size` entries, and returns `array_size`, not the number of tokens.  doio's
  `-M` option tokenizes into `memargs[NMEMALLOC]` with `array_size` 32.
-/

namespace Ltp

open CText

/-- The loop `for (num_toks = 1; num_toks < array_size; num_toks++)`, from `numToks` with `k`
iterations left: each stores the next `strtok` result, and a `NULL` ends it.  Returns the writes
and the final `num_toks`. -/
def stringToTokensLoop (toks : List (List Char)) : Nat → Nat → List (Nat × Option (List Char)) × Nat
  | 0, numToks => ([], numToks)
  | k + 1, numToks =>
    match toks[numToks]? with
    | none => ([(numToks, none)], numToks)
    | some tok =>
      let r := stringToTokensLoop toks k (numToks + 1)
      ((numToks, some tok) :: r.1, r.2)

/-- `string_to_tokens`: the writes into `arg_array` and the value returned.  `argArrayNull` and a
`separator` of `none` are the `NULL` arguments it rejects. -/
def stringToTokens (argString : List Char) (argArrayNull : Bool) (arraySize : Int)
    (separator : Option (List Char)) : List (Nat × Option (List Char)) × Int :=
  if argArrayNull || decide (arraySize ≤ 1) then ([], -1) else
  match separator with
  | none => ([], -1)
  | some sep =>
    let toks := strtokAll sep argString
    match toks[0]? with
    | none => ([(0, none)], 0)
    | some tok =>
      let r := stringToTokensLoop toks (arraySize.toNat - 1) 1
      -- `if (num_toks == array_size) arg_array[num_toks] = NULL;`
      if (r.2 : Int) = arraySize then ((0, some tok) :: r.1 ++ [(r.2, none)], r.2)
      else ((0, some tok) :: r.1, r.2)

/-- The entries `i .. i + m - 1` of the token list, each with its index. -/
def tokenWrites (toks : List (List Char)) (i m : Nat) : List (Nat × Option (List Char)) :=
  (List.range' i m).map fun j => (j, toks[j]?)

theorem tokenWrites_succ (toks : List (List Char)) (i m : Nat) :
    tokenWrites toks i (m + 1) = (i, toks[i]?) :: tokenWrites toks (i + 1) m := by
  simp [tokenWrites, List.range'_succ]

/-- The loop from `i ≤ n`: it stores the tokens `i ..` while there are iterations and tokens
left, then `NULL` if it ran out of tokens first. -/
theorem stringToTokensLoop_eq (toks : List (List Char)) (k i : Nat) (hi : i ≤ toks.length) :
    stringToTokensLoop toks k i =
      (tokenWrites toks i (min (toks.length - i) k) ++
        (if toks.length - i < k then [(toks.length, none)] else []),
       i + min (toks.length - i) k) := by
  induction k generalizing i with
  | zero => simp [stringToTokensLoop, tokenWrites]
  | succ k ih =>
    rcases Nat.lt_or_ge i toks.length with hlt | hge
    · -- a token is left: store it and go on from `i + 1`
      have hm : min (toks.length - i) (k + 1) = min (toks.length - (i + 1)) k + 1 := by omega
      have hc : toks.length - i < k + 1 ↔ toks.length - (i + 1) < k := by omega
      rw [stringToTokensLoop, List.getElem?_eq_getElem hlt, hm, tokenWrites_succ,
        ih (i + 1) hlt, List.getElem?_eq_getElem hlt]
      simp only [List.cons_append, hc, Prod.mk.injEq, true_and]
      omega
    · -- no token left: `strtok` returns `NULL`, which is stored and ends the loop
      have hi' : i = toks.length := by omega
      subst hi'
      simp [stringToTokensLoop, tokenWrites]

/-- With `2 ≤ array_size` and a separator, the call stores the first `m = min n array_size`
tokens at `0 .. m-1` and then `NULL` at `m`, and returns `m`. -/
theorem stringToTokens_eq (s sep : List Char) (arraySize : Nat) (hA : 2 ≤ arraySize) :
    stringToTokens s false arraySize (some sep) =
      (tokenWrites (strtokAll sep s) 0 (min (strtokAll sep s).length arraySize) ++
        [(min (strtokAll sep s).length arraySize, none)],
       ((min (strtokAll sep s).length arraySize : Nat) : Int)) := by
  have hA' : ¬ (arraySize : Int) ≤ 1 := by omega
  simp only [stringToTokens, Bool.false_or, hA', decide_false, Bool.false_eq_true, if_false,
    Int.toNat_natCast]
  generalize strtokAll sep s = toks
  cases toks with
  | nil => simp [tokenWrites]
  | cons tok rest =>
    have hloop := stringToTokensLoop_eq (tok :: rest) (arraySize - 1) 1 (by simp)
    simp only [List.length_cons, Nat.add_sub_cancel] at hloop
    simp only [List.getElem?_cons_zero, hloop, List.length_cons]
    by_cases hlt : rest.length < arraySize - 1
    · -- fewer tokens than slots: the loop stored `NULL` itself
      have hn : 1 + min rest.length (arraySize - 1) = rest.length + 1 := by omega
      have hm : min (rest.length + 1) arraySize = rest.length + 1 := by omega
      have hne : ((rest.length + 1 : Nat) : Int) ≠ arraySize := by omega
      rw [hn, if_neg hne, if_pos hlt, hm, Nat.min_eq_left hlt.le, tokenWrites_succ]
      simp
    · -- the slots ran out: `arg_array[array_size] = NULL`
      have hn : 1 + min rest.length (arraySize - 1) = arraySize := by omega
      have hm : min (rest.length + 1) arraySize = arraySize := by omega
      rw [hn, if_pos rfl, if_neg hlt, hm, Nat.min_eq_right (by omega)]
      obtain ⟨a, rfl⟩ : ∃ a, arraySize = a + 1 := ⟨arraySize - 1, by omega⟩
      rw [tokenWrites_succ]
      simp

theorem lt_of_mem_tokenWrites {toks : List (List Char)} {i m : Nat} {w : Nat × Option (List Char)}
    (h : w ∈ tokenWrites toks i m) : w.1 < i + m := by
  obtain ⟨j, hj, rfl⟩ := List.mem_map.1 h
  simpa using (List.mem_range'_1.1 hj).2

/-- The call writes inside an array of `array_size` entries exactly when the string has fewer
tokens than that. -/
theorem stringToTokens_inBounds_iff (s sep : List Char) (arraySize : Nat) (hA : 2 ≤ arraySize) :
    (∀ w ∈ (stringToTokens s false arraySize (some sep)).1, w.1 < arraySize) ↔
      (strtokAll sep s).length < arraySize := by
  rw [stringToTokens_eq s sep arraySize hA]
  constructor
  · intro h
    have hlast := h _ (List.mem_append_right _ (List.mem_singleton_self _))
    simp only [Nat.min_def] at hlast
    split_ifs at hlast <;> omega
  · intro hlt w hw
    rcases List.mem_append.1 hw with hw | hw
    · have := lt_of_mem_tokenWrites hw
      omega
    · rw [List.mem_singleton.1 hw]
      omega

/-- With at least `array_size` tokens, the last write is `NULL` at `arg_array[array_size]`, one
past an array of `array_size` entries, and the call returns `array_size` whatever the number of
tokens. -/
theorem string_to_tokens_overrun (s sep : List Char) (arraySize : Nat) (hA : 2 ≤ arraySize)
    (hn : arraySize ≤ (strtokAll sep s).length) :
    (stringToTokens s false arraySize (some sep)).1.getLast? = some (arraySize, none) ∧
      (stringToTokens s false arraySize (some sep)).2 = arraySize := by
  rw [stringToTokens_eq s sep arraySize hA, Nat.min_eq_right hn]
  simp

/-- doio's `-M` option with 33 comma-separated fields: `string_to_tokens(optarg, memargs, 32, ",")`
stores `NULL` at `memargs[32]` of an array of `NMEMALLOC = 32` and returns 32. -/
theorem string_to_tokens_overrun_memargs :
    (strtokAll [','] (List.intercalate [','] (List.replicate 33 ['a']))).length = 33 ∧
      (stringToTokens (List.intercalate [','] (List.replicate 33 ['a'])) false 32
        (some [','])).1.getLast? = some (32, none) ∧
      (stringToTokens (List.intercalate [','] (List.replicate 33 ['a'])) false 32
        (some [','])).2 = 32 :=
  ⟨by decide, string_to_tokens_overrun _ _ 32 (by norm_num) (by decide)⟩

end Ltp
