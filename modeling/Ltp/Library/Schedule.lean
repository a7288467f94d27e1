import Mathlib.Logic.Basic

/-!
# Runs under a scheduler

A system whose next state is a function of its state and of a label that the environment picks at
each step: the thread that runs next, or the event that arrives.  `Reachable step s₀ s` says that
some choice of labels leads from `s₀` to `s`, and `run` follows one such choice.  A property of
`s₀` that every labelled step keeps holds of every reachable state (`Reachable.invariant`); the
second form lets the step use an invariant proved before (`Reachable.invariant_of`), and a third
holds along runs whose labels all satisfy a condition (`run_invariant`).  The steps
of a run that change the state in some way are counted by `countSteps`, and a potential that
those steps lower bounds their number (`countSteps_add_le`).  What each step shows, as a function
of its state and label, is listed by `collect`: a potential that each shown item lowers bounds
their number (`length_collect_add_le`), and one that each item raises by one counts them
(`collect_conserved`).  That some schedule leads from `s` into `Q` follows from a variant that
some label lowers at each state outside `Q` (`exists_run_of_variant`), and such schedules compose
(`exists_run_trans`).
-/

namespace Sched

variable {σ ι : Type*}

/-- The states some schedule of labels leads to from `s₀`. -/
inductive Reachable (step : σ → ι → σ) (s₀ : σ) : σ → Prop
  | init : Reachable step s₀ s₀
  | next {s : σ} (i : ι) : Reachable step s₀ s → Reachable step s₀ (step s i)

/-- The state after the labels of `sched`, in order. -/
def run (step : σ → ι → σ) (s : σ) (sched : List ι) : σ :=
  sched.foldl step s

variable {step : σ → ι → σ} {s₀ s : σ}

theorem run_nil : run step s [] = s := rfl

theorem run_cons (i : ι) (sched : List ι) : run step s (i :: sched) = run step (step s i) sched :=
  rfl

theorem run_append (l₁ l₂ : List ι) : run step s (l₁ ++ l₂) = run step (run step s l₁) l₂ :=
  List.foldl_append

theorem reachable_run (sched : List ι) : Reachable step s₀ (run step s₀ sched) := by
  suffices h : ∀ s, Reachable step s₀ s → Reachable step s₀ (run step s sched) from h _ .init
  induction sched with
  | nil => exact fun s hs => hs
  | cons i sched ih => exact fun s hs => ih _ (hs.next i)

theorem Reachable.invariant {P : σ → Prop} (h0 : P s₀) (hstep : ∀ s i, P s → P (step s i))
    (h : Reachable step s₀ s) : P s := by
  induction h with
  | init => exact h0
  | next i _ ih => exact hstep _ i ih

theorem Reachable.run (h : Reachable step s₀ s) (sched : List ι) :
    Reachable step s₀ (Sched.run step s sched) := by
  induction sched generalizing s with
  | nil => exact h
  | cons i sched ih => exact ih (h.next i)

/-- An invariant whose step may use another one, `Q`, known of every reachable state. -/
theorem Reachable.invariant_of {P Q : σ → Prop} (hQ : ∀ s, Reachable step s₀ s → Q s) (h0 : P s₀)
    (hstep : ∀ s i, Reachable step s₀ s → Q s → P s → P (step s i)) (h : Reachable step s₀ s) :
    P s := by
  induction h with
  | init => exact h0
  | next i hr ih => exact hstep _ i hr (hQ _ hr) ih

/-- A property that each step with a label of `G` keeps holds after a run of such labels. -/
theorem run_invariant {P : σ → Prop} {G : ι → Prop} (hstep : ∀ s i, G i → P s → P (step s i)) :
    ∀ (sched : List ι) (s : σ), (∀ i ∈ sched, G i) → P s → P (run step s sched)
  | [], _, _, hs => hs
  | i :: sched, s, hg, hs =>
    run_invariant hstep sched (step s i) (fun j hj => hg j (List.mem_cons_of_mem _ hj))
      (hstep s i (hg i List.mem_cons_self) hs)

/-- From every state of `P` some schedule leads into `Q`, when each state of `P` outside `Q` has a
label that leads into `Q` or keeps `P` and lowers the variant `μ`. -/
theorem exists_run_of_variant {P Q : σ → Prop} (μ : σ → Nat)
    (h : ∀ s, P s → ¬ Q s → ∃ i, Q (step s i) ∨ (P (step s i) ∧ μ (step s i) < μ s)) :
    ∀ s, P s → ∃ sched, Q (run step s sched) := by
  intro s hs
  -- strong induction on the variant
  induction hμ : μ s using Nat.strongRecOn generalizing s with
  | _ n ih =>
    rcases Classical.em (Q s) with hq | hq
    · exact ⟨[], hq⟩
    · obtain ⟨i, hi | ⟨hp, hlt⟩⟩ := h s hs hq
      · exact ⟨[i], hi⟩
      · obtain ⟨l, hl⟩ := ih _ (hμ ▸ hlt) _ hp rfl
        exact ⟨i :: l, hl⟩

theorem exists_run_trans {Q R : σ → Prop} (h : ∃ l, Q (run step s l))
    (hQ : ∀ s', Q s' → ∃ l, R (run step s' l)) : ∃ l, R (run step s l) := by
  obtain ⟨l₁, h₁⟩ := h
  obtain ⟨l₂, h₂⟩ := hQ _ h₁
  exact ⟨l₁ ++ l₂, by rw [run_append]; exact h₂⟩

/-- The steps of the run along `sched` from `s` whose state before and state after are related
by `p`. -/
def countSteps (step : σ → ι → σ) (p : σ → σ → Prop) [DecidableRel p] : σ → List ι → Nat
  | _, [] => 0
  | s, i :: sched => (if p s (step s i) then 1 else 0) + countSteps step p (step s i) sched

/-- A potential that no step raises and each counted step lowers, along states that keep `P`,
bounds the number of counted steps. -/
theorem countSteps_add_le {p : σ → σ → Prop} [DecidableRel p] {P : σ → Prop} (V : σ → Nat)
    (hP : ∀ s i, P s → P (step s i))
    (hV : ∀ s i, P s → (if p s (step s i) then 1 else 0) + V (step s i) ≤ V s) :
    ∀ (sched : List ι) (s : σ), P s → countSteps step p s sched + V (run step s sched) ≤ V s
  | [], s, _ => by simp [countSteps, run_nil]
  | i :: sched, s, hs => by
    have ih := countSteps_add_le V hP hV sched (step s i) (hP s i hs)
    have h1 := hV s i hs
    rw [countSteps, run_cons]
    omega

variable {β : Type*}

/-- What the run along `sched` from `s` shows, step after step: `obs s i` at the step from `s` with
label `i`. -/
def collect (step : σ → ι → σ) (obs : σ → ι → List β) : σ → List ι → List β
  | _, [] => []
  | s, i :: sched => obs s i ++ collect step obs (step s i) sched

section Collect

variable {obs : σ → ι → List β} {P : σ → Prop}

theorem collect_nil : collect step obs s [] = [] := rfl

theorem collect_cons (i : ι) (sched : List ι) :
    collect step obs s (i :: sched) = obs s i ++ collect step obs (step s i) sched :=
  rfl

/-- A potential that each step lowers by what it shows, along states that keep `P`, bounds what
the whole run shows. -/
theorem length_collect_add_le (V : σ → Nat) (hP : ∀ s i, P s → P (step s i))
    (hV : ∀ s i, P s → (obs s i).length + V (step s i) ≤ V s) :
    ∀ (sched : List ι) (s : σ), P s → (collect step obs s sched).length + V (run step s sched) ≤ V s
  | [], s, _ => by simp [collect_nil, run_nil]
  | i :: sched, s, hs => by
    have ih := length_collect_add_le V hP hV sched (step s i) (hP s i hs)
    have h1 := hV s i hs
    rw [collect_cons, run_cons, List.length_append]
    omega

/-- A quantity that each step raises by what it shows, along states that keep `P`, counts what the
whole run shows. -/
theorem collect_conserved (V : σ → Int) (hP : ∀ s i, P s → P (step s i))
    (hV : ∀ s i, P s → V (step s i) = V s + (obs s i).length) :
    ∀ (sched : List ι) (s : σ), P s → V (run step s sched) = V s + (collect step obs s sched).length
  | [], s, _ => by simp [collect_nil, run_nil]
  | i :: sched, s, hs => by
    have ih := collect_conserved V hP hV sched (step s i) (hP s i hs)
    have h1 := hV s i hs
    rw [collect_cons, run_cons, List.length_append, ih, h1]
    omega

end Collect

end Sched
