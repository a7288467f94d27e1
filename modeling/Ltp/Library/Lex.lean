import Mathlib.Tactic

/-!
# Maximal-munch scanners

A `lex` or `flex` scanner tries all of its rules at the head of the input, fires the one with the
longest match, the earliest rule among those of equal length, runs the rule's action on the matched
text and goes on after it.  Here a rule is the length of its longest match, given whether the
input starts a line (for `^`), and a token; a scanner is its rules in each state and the action
that the state takes on a token and its text.

* `mem_of_longest`: the rule that fires is one of the rules, with its length and token, and it
  matches something;
* `greedyLen_many_eq_some`, `greedyLen_one_eq_some`: a greedy match takes the maximal run of a
  repeated character class (`[…]+`), then matches the rest of the pattern;
* `run_induction`: an invariant of every step of the scanning loop holds of the whole loop.
-/

namespace Lex

/-- A scanner rule: the length of its longest match at the head of the input, `0` when it does
not match, given whether the input starts a line; and the token it returns. -/
structure Rule (σ τ : Type) where
  len : Bool → List σ → Nat
  tok : τ

variable {σ τ ρ : Type}

/-- The length and the token of the rule a maximal-munch scanner fires: the longest match, and
the earliest rule among the longest; `none` when no rule matches. -/
def longest : List (Rule σ τ) → Bool → List σ → Option (Nat × τ)
  | [], _, _ => none
  | r :: rs, b, s =>
    match longest rs b s with
    | none => if 0 < r.len b s then some (r.len b s, r.tok) else none
    | some (m, t) => if 0 < r.len b s ∧ m ≤ r.len b s then some (r.len b s, r.tok) else some (m, t)

/-- The fired rule is one of the rules, and it matched something. -/
theorem mem_of_longest {rs : List (Rule σ τ)} {b : Bool} {s : List σ} {n : Nat} {t : τ}
    (h : longest rs b s = some (n, t)) : ∃ r ∈ rs, r.len b s = n ∧ r.tok = t ∧ 0 < n := by
  induction rs generalizing n t with
  | nil => cases h
  | cons q rs ih =>
    rw [longest] at h
    cases hl : longest rs b s with
    | none =>
      rw [hl] at h
      split_ifs at h with hq
      cases h
      exact ⟨q, List.mem_cons_self, rfl, rfl, hq⟩
    | some mt =>
      rw [hl] at h
      dsimp only at h
      split_ifs at h with hq
      · cases h
        exact ⟨q, List.mem_cons_self, rfl, rfl, hq.1⟩
      · cases h
        obtain ⟨r, hr, hlen, htok, hpos⟩ := ih hl
        exact ⟨r, List.mem_cons_of_mem q hr, hlen, htok, hpos⟩

/-! ### Character classes -/

/-- The length of the maximal run of characters of a class at the head of the input. -/
def spanLen (p : σ → Bool) (s : List σ) : Nat :=
  (s.takeWhile p).length

/-- A piece of a pattern: a class repeated one or more times, or one character of a class. -/
inductive Piece (σ : Type) where
  | many (p : σ → Bool)
  | one (p : σ → Bool)

/-- The greedy match of a sequence of pieces, each repeated class taking its maximal run.  When each
repeated class is disjoint from the first class of what follows it, this is the only match, and so
the longest. -/
def greedyLen : List (Piece σ) → List σ → Option Nat
  | [], _ => some 0
  | .many p :: ps, s =>
    if 0 < spanLen p s then (greedyLen ps (s.drop (spanLen p s))).map (spanLen p s + ·) else none
  | .one p :: ps, c :: s => if p c then (greedyLen ps s).map (1 + ·) else none
  | .one _ :: _, [] => none

theorem greedyLen_nil (s : List σ) : greedyLen [] s = some 0 := by
  rw [greedyLen]

/-- A repeated class matched: its maximal run, then the rest of the pattern. -/
theorem greedyLen_many_eq_some {p : σ → Bool} {ps : List (Piece σ)} {s : List σ} {n : Nat}
    (h : greedyLen (.many p :: ps) s = some n) :
    ∃ m, 0 < spanLen p s ∧ greedyLen ps (s.drop (spanLen p s)) = some m ∧ n = spanLen p s + m := by
  rw [greedyLen] at h
  split_ifs at h with hpos
  obtain ⟨m, hm, rfl⟩ := Option.map_eq_some_iff.1 h
  exact ⟨m, hpos, hm, rfl⟩

/-- One character of a class matched, then the rest of the pattern. -/
theorem greedyLen_one_eq_some {p : σ → Bool} {ps : List (Piece σ)} {s : List σ} {n : Nat}
    (h : greedyLen (.one p :: ps) s = some n) :
    ∃ c s' m, s = c :: s' ∧ p c = true ∧ greedyLen ps s' = some m ∧ n = 1 + m := by
  cases s with
  | nil => simp [greedyLen] at h
  | cons c s' =>
    rw [greedyLen] at h
    split_ifs at h with hc
    obtain ⟨m, hm, rfl⟩ := Option.map_eq_some_iff.1 h
    exact ⟨c, s', m, rfl, hc, hm, rfl⟩

/-- The maximal run of a class is what `takeWhile` keeps. -/
theorem take_spanLen (p : σ → Bool) (s : List σ) : s.take (spanLen p s) = s.takeWhile p :=
  (List.prefix_iff_eq_take.1 (List.takeWhile_prefix p)).symm

/-- A maximal run that is not empty, taken off the input, is not empty. -/
theorem take_spanLen_ne_nil {p : σ → Bool} {s : List σ} (h : 0 < spanLen p s) :
    s.take (spanLen p s) ≠ [] := by
  rw [take_spanLen]
  intro hnil
  simp [spanLen, hnil] at h

/-! ### Scanning -/

/-- A scanner: its rules in each state, whether a state is at the start of a line, and the action
of a state on a fired token and the text it matched. -/
structure Scanner (σ τ ρ : Type) where
  rules : ρ → List (Rule σ τ)
  bol : ρ → Bool
  act : ρ → τ → List σ → ρ

/-- The scanning loop, for at most `fuel` tokens: it stops at the end of the input, or where no
rule matches. -/
def run (sc : Scanner σ τ ρ) : Nat → ρ → List σ → ρ × List σ
  | 0, st, s => (st, s)
  | fuel + 1, st, s =>
    match longest (sc.rules st) (sc.bol st) s with
    | none => (st, s)
    | some (n, t) => run sc fuel (sc.act st t (s.take n)) (s.drop n)

/-- The induction rule of the scanning loop: an invariant of the state that the action of every
fired rule keeps holds after any number of tokens. -/
theorem run_induction {sc : Scanner σ τ ρ} (P : ρ → Prop)
    (hstep : ∀ st s n t, P st → longest (sc.rules st) (sc.bol st) s = some (n, t) →
      P (sc.act st t (s.take n))) :
    ∀ (fuel : Nat) (st : ρ) (s : List σ), P st → P (run sc fuel st s).1 := by
  intro fuel
  induction fuel with
  | zero => exact fun st s h => h
  | succ fuel ih =>
    intro st s h
    rw [run]
    cases hl : longest (sc.rules st) (sc.bol st) s with
    | none => exact h
    | some nt => exact ih _ _ (hstep st s nt.1 nt.2 h hl)

end Lex
