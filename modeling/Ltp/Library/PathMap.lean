import Mathlib.Data.List.Basic

/-!
# Hierarchical namespaces

A namespace binds paths (lists of components) to leaves or directories.  It is closed when the
root is a directory and every proper prefix of a bound path is one; `put` binds a path to a leaf,
creating the missing directories above it, and fails when the path is bound or a leaf lies above
it.  It changes no other path than the new one, which becomes a leaf, and its unbound prefixes,
which become directories.
-/

namespace PathMap

/-- What a path is bound to. -/
inductive Entry (β : Type) where
  | leaf (b : β)
  | dir
  deriving DecidableEq, Repr

/-- A namespace: the entry of each path, if any. -/
abbrev Space (κ β : Type) := List κ → Option (Entry β)

/-- How `put` ends. -/
inductive PutResult where
  | ok
  | exists
  | notDir
  deriving DecidableEq, Repr

variable {κ β : Type}

/-- The root is a directory and so is every proper prefix of a bound path. -/
def Closed (m : Space κ β) : Prop :=
  m [] = some .dir ∧ ∀ p q, q <+: p → q ≠ p → m p ≠ none → m q = some .dir

/-- A proper prefix of `p` is bound to a leaf. -/
def LeafAbove (m : Space κ β) (p : List κ) : Prop :=
  ∃ q, q <+: p ∧ q ≠ p ∧ ∃ b, m q = some (.leaf b)

section Bind

variable [DecidableEq κ] {m : Space κ β} {p q : List κ} {b : β}

/-- `p` bound to the leaf `b`, with a directory at each unbound proper prefix. -/
def bind (m : Space κ β) (p : List κ) (b : β) : Space κ β := fun q =>
  if q = p then some (.leaf b) else if q <+: p ∧ m q = none then some .dir else m q

open Classical in
/-- Binding `p` where it is free and no leaf lies above it. -/
noncomputable def put (m : Space κ β) (p : List κ) (b : β) : Space κ β × PutResult :=
  if m p ≠ none then (m, .exists) else if LeafAbove m p then (m, .notDir) else (bind m p b, .ok)

@[simp] theorem bind_self : bind m p b p = some (.leaf b) := by
  simp [bind]

theorem bind_of_unbound (hpre : q <+: p) (hne : q ≠ p) (hq : m q = none) :
    bind m p b q = some .dir := by
  simp [bind, hne, hpre, hq]

end Bind

end PathMap
