import Ltp.Pan.Symbol

/-!
# The array of `splitstr` (`splitstr.c`)

`splitstr(str, separator, &argcount)` copies `str`, cuts the copy with `strtok`, and stores the
token pointers in an array of `max_toks = 20` slots that `realloc` grows by 20 each time a stored
token fills it; then it stores `NULL` after the last token and in every slot after that.

The array is modelled slot by slot: a slot is a token, `NULL`, or not written yet (what `malloc` and
`realloc` leave).  A store at an index past the slots allocated is an error carrying the index.
Allocation failures are not modelled: `realloc` failing ends the program.

* `splitstrLoop_eq`: the loop keeps `max_toks` the least multiple of 20 above `num_toks`
  (`capacity`), so the next store is always inside the array.
* `splitstr_array`: for every string and separator set (`NULL` is `" \t"`) the call writes only
  inside the array, returns the tokens, `NULL` and `NULL`s up to the capacity, and the tokens are the
  non-empty pieces of the string between separators (`CText.tokens`); `splitstr` of `symbol.c` and
  the argument vectors of `ltp-pan` use exactly these tokens, none of them empty.
-/

namespace Ltp

open CText

/-- A slot of `arg_array`. -/
inductive ArgSlot
  | unset
  | null
  | tok (t : List Char)
  deriving DecidableEq, Repr

/-- `arg_array[i] = v`; an index past the slots allocated is an error. -/
def setSlot (arr : List ArgSlot) (i : Nat) (v : ArgSlot) : Except Nat (List ArgSlot) :=
  if i < arr.length then .ok (arr.set i v) else .error i

/-- The `strtok` loop, over the tokens still to come: store the token, count it, and grow the
array by 20 slots when the count reaches `max_toks`.  Returns the array, `num_toks` and
`max_toks`. -/
def splitstrLoop : List (List Char) → List ArgSlot → Nat → Nat →
    Except Nat (List ArgSlot × Nat × Nat)
  | [], arr, numToks, maxToks => .ok (arr, numToks, maxToks)
  | tok :: toks, arr, numToks, maxToks => do
    let arr ← setSlot arr numToks (.tok tok)
    let numToks := numToks + 1
    if numToks = maxToks then
      splitstrLoop toks (arr ++ List.replicate 20 .unset) numToks (maxToks + 20)
    else splitstrLoop toks arr numToks maxToks

/-- `for (i = num_toks + 1; i < max_toks; i++) arg_array[i] = NULL;`, as `k` stores from `i`. -/
def nullFill : Nat → List ArgSlot → Nat → Except Nat (List ArgSlot)
  | 0, arr, _ => .ok arr
  | k + 1, arr, i => do
    let arr ← setSlot arr i .null
    nullFill k arr (i + 1)

/-- `splitstr(str, separator, &argcount)`: the array (`none` for `NULL`) and `*argcount`. -/
def splitstrArray (str separator : Option (List Char)) :
    Except Nat (Option (List ArgSlot) × Nat) :=
  match str with
  | none => .ok (none, 0)
  | some str => do
    let separator := separator.getD " \t".toList
    let (arr, numToks, maxToks) ←
      splitstrLoop (strtokAll separator str) (List.replicate 20 .unset) 0 20
    let arr ← setSlot arr numToks .null
    let arr ← nullFill (maxToks - (numToks + 1)) arr (numToks + 1)
    pure (some arr, numToks)

/-- The slots allocated once `n` tokens are stored: the least multiple of 20 above `n`. -/
def capacity (n : Nat) : Nat :=
  20 * (n / 20 + 1)

theorem lt_capacity (n : Nat) : n < capacity n := by
  rw [capacity]
  omega

/-- Storing one more token keeps the capacity, or fills it and grows it by 20. -/
theorem capacity_succ (n : Nat) :
    (n + 1 = capacity n ∧ capacity (n + 1) = capacity n + 20) ∨
      (n + 1 < capacity n ∧ capacity (n + 1) = capacity n) := by
  rw [capacity, capacity]
  omega

/-- A store at the first slot not written yet. -/
theorem setSlot_append_replicate (l : List ArgSlot) (k : Nat) (v w : ArgSlot) :
    setSlot (l ++ List.replicate (k + 1) w) l.length v = .ok (l ++ v :: List.replicate k w) := by
  have hlt : l.length < (l ++ List.replicate (k + 1) w).length := by simp
  rw [setSlot, if_pos hlt, List.set_append_right _ _ (le_refl _), Nat.sub_self,
    List.replicate_succ, List.set_cons_zero]

/-- The loop from `pre` stored: it stores the tokens after them, and the array is then the tokens
and unwritten slots up to the capacity. -/
theorem splitstrLoop_eq (toks pre : List (List Char)) :
    splitstrLoop toks (pre.map .tok ++ List.replicate (capacity pre.length - pre.length) .unset)
        pre.length (capacity pre.length) =
      .ok ((pre ++ toks).map .tok ++
          List.replicate (capacity (pre ++ toks).length - (pre ++ toks).length) .unset,
        (pre ++ toks).length, capacity (pre ++ toks).length) := by
  induction toks generalizing pre with
  | nil => simp [splitstrLoop]
  | cons t toks ih =>
    obtain ⟨k, hk⟩ : ∃ k, capacity pre.length - pre.length = k + 1 :=
      ⟨capacity pre.length - pre.length - 1, by have := lt_capacity pre.length; omega⟩
    have hstore := setSlot_append_replicate (pre.map ArgSlot.tok) k (.tok t) .unset
    rw [List.length_map] at hstore
    have hrest := ih (pre ++ [t])
    simp only [List.append_assoc, List.singleton_append, List.length_append, List.length_cons,
      List.length_nil, Nat.zero_add, List.map_append, List.map_cons, List.map_nil] at hrest ⊢
    rw [splitstrLoop, hk, hstore]
    simp only [bind, Except.bind]
    rcases capacity_succ pre.length with ⟨hfull, hcap⟩ | ⟨hroom, hcap⟩
    · -- the store fills the array: `realloc` adds 20 unwritten slots
      have hk0 : k = 0 := by omega
      rw [if_pos hfull, ← hrest, hcap, hk0, List.replicate_zero,
        show capacity pre.length + 20 - (pre.length + 1) = 20 by omega]
      simp
    · rw [if_neg hroom.ne, ← hrest, hcap, show capacity pre.length - (pre.length + 1) = k by omega]

/-- The `NULL` loop over unwritten slots. -/
theorem nullFill_eq (k : Nat) (l : List ArgSlot) :
    nullFill k (l ++ List.replicate k .unset) l.length = .ok (l ++ List.replicate k .null) := by
  induction k generalizing l with
  | zero => simp [nullFill]
  | succ k ih =>
    have hrest := ih (l ++ [.null])
    simp only [List.append_assoc, List.singleton_append, List.length_append, List.length_cons,
      List.length_nil] at hrest
    rw [nullFill, setSlot_append_replicate]
    simp only [bind, Except.bind]
    rw [hrest, List.replicate_succ]

/-- `splitstr` writes only inside its array, and returns the tokens of the string, then `NULL`
in every slot up to the capacity; the tokens are the non-empty pieces between separators, the
same as `splitstr` of the symbol table gives, and none is empty or holds a separator. -/
theorem splitstr_array (str : List Char) (separator : Option (List Char)) :
    splitstrArray (some str) separator =
        .ok (some ((tokens (separator.getD " \t".toList) str).map .tok ++ .null ::
            List.replicate (capacity (tokens (separator.getD " \t".toList) str).length -
              (tokens (separator.getD " \t".toList) str).length - 1) .null),
          (tokens (separator.getD " \t".toList) str).length) ∧
      splitstr str (separator.getD " \t".toList) = tokens (separator.getD " \t".toList) str ∧
      ∀ t ∈ tokens (separator.getD " \t".toList) str,
        t ≠ [] ∧ ∀ c ∈ t, c ∉ separator.getD " \t".toList := by
  refine ⟨?_, strtokAll_eq_tokens _ str, fun t ht => mem_tokens ht⟩
  simp only [splitstrArray, strtokAll_eq_tokens]
  generalize tokens (separator.getD " \t".toList) str = toks
  have hcap := lt_capacity toks.length
  obtain ⟨k, hk⟩ : ∃ k, capacity toks.length - toks.length = k + 1 :=
    ⟨capacity toks.length - toks.length - 1, by omega⟩
  have hloop := splitstrLoop_eq toks []
  have hnull := setSlot_append_replicate (toks.map ArgSlot.tok) k .null .unset
  have hfill := nullFill_eq k (toks.map ArgSlot.tok ++ [.null])
  rw [List.length_map] at hnull
  simp only [List.map_nil, List.length_nil, List.nil_append, List.append_assoc,
    List.singleton_append, List.length_append, List.length_map, List.length_cons,
    List.length_nil, Nat.zero_add] at hloop hfill
  rw [show capacity 0 - 0 = 20 by rfl, show capacity 0 = 20 by rfl] at hloop
  rw [hloop]
  simp only [bind, Except.bind]
  rw [hk, hnull]
  dsimp only
  rw [show capacity toks.length - (toks.length + 1) = k by omega, hfill, Nat.add_sub_cancel]
  rfl

end Ltp
