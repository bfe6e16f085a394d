import Mathlib.Algebra.Order.Group.Multiset

/-!
Code as the resources it takes, uses and gives back. Code that uses and gives back only
what it has taken does the same whatever else is held, so what it leaves can be read off
a run that starts with nothing.
-/

namespace HxcppLuv

universe u v

inductive Action (R : Type u) where
  | acquire (r : R)
  | touch (r : R)
  | release (r : R)
  deriving DecidableEq

namespace Action

variable {R : Type u} [DecidableEq R]

def resource : Action R → R
  | acquire r | touch r | release r => r

def apply (held : Multiset R) : Action R → Multiset R
  | acquire r => held + {r}
  | touch _ => held
  | release r => held.erase r

def run (as : List (Action R)) (held : Multiset R) : Multiset R := as.foldl apply held

/-- What is used or given back is held. -/
def Holds (own : Multiset R) : Action R → Prop
  | acquire _ => True
  | touch r | release r => r ∈ own

instance (own : Multiset R) : DecidablePred (Holds own)
  | acquire _ => isTrue trivial
  | touch r | release r => inferInstanceAs (Decidable (r ∈ own))

/-- Everything used or given back is among what was taken by then. -/
def Owned : List (Action R) → Multiset R → Prop
  | [], _ => True
  | a :: as, own => Holds own a ∧ Owned as (apply own a)

instance decidableOwned : ∀ (as : List (Action R)) own, Decidable (Owned as own)
  | [], _ => isTrue trivial
  | a :: as, own =>
      have := decidableOwned as (apply own a)
      inferInstanceAs (Decidable (Holds own a ∧ Owned as (apply own a)))

/-- What is used or given back while it is not held. -/
def misused : List (Action R) → Multiset R → List R
  | [], _ => []
  | a :: as, held => (if Holds held a then [] else [a.resource]) ++ misused as (apply held a)

theorem misused_eq_nil {as : List (Action R)} {own : Multiset R} (h : Owned as own) :
    misused as own = [] := by
  induction as generalizing own with
  | nil => rfl
  | cons a as ih => rw [misused, if_pos h.1, ih h.2, List.nil_append]

theorem misused_touch (r : R) (held : Multiset R) :
    misused [touch r] held = if r ∈ held then [] else [r] :=
  List.append_nil _

section Frame

variable {a : Action R} {as : List (Action R)} {own : Multiset R}

theorem apply_add (h : Holds own a) (ctx : Multiset R) :
    apply (ctx + own) a = ctx + apply own a := by
  cases a with
  | acquire r => exact add_assoc ctx own {r}
  | touch r => rfl
  | release r => exact Multiset.erase_add_right_pos ctx h

omit [DecidableEq R] in
theorem holds_add (h : Holds own a) (ctx : Multiset R) : Holds (ctx + own) a := by
  cases a with
  | acquire r => trivial
  | touch r | release r => exact Multiset.mem_add.mpr (.inr h)

/-- What else is held stays as it is. -/
theorem run_add (h : Owned as own) (ctx : Multiset R) :
    run as (ctx + own) = ctx + run as own := by
  induction as generalizing own with
  | nil => rfl
  | cons a as ih =>
      simp only [run, List.foldl_cons]
      rw [apply_add h.1 ctx]
      exact ih h.2

theorem owned_add (h : Owned as own) (ctx : Multiset R) : Owned as (ctx + own) := by
  induction as generalizing own with
  | nil => trivial
  | cons a as ih =>
      refine ⟨holds_add h.1 ctx, ?_⟩
      rw [apply_add h.1 ctx]
      exact ih h.2

theorem run_of_owned (h : Owned as 0) (ctx : Multiset R) : run as ctx = ctx + run as 0 := by
  simpa using run_add h ctx

end Frame

section Map

variable {S : Type v} [DecidableEq S] {f : R → S}

/-- The same action on what the resources are called elsewhere. -/
def map (f : R → S) : Action R → Action S
  | acquire r => acquire (f r)
  | touch r => touch (f r)
  | release r => release (f r)

theorem apply_map (hf : f.Injective) (own : Multiset R) (a : Action R) :
    apply (own.map f) (a.map f) = (apply own a).map f := by
  cases a with
  | acquire r => simp [apply, map]
  | touch r => rfl
  | release r => exact (Multiset.map_erase f hf r own).symm

omit [DecidableEq R] [DecidableEq S] in
theorem holds_map {own : Multiset R} {a : Action R} (h : Holds own a) :
    Holds (own.map f) (a.map f) := by
  cases a with
  | acquire r => trivial
  | touch r | release r => exact Multiset.mem_map_of_mem f h

theorem run_map (hf : f.Injective) (as : List (Action R)) (own : Multiset R) :
    run (as.map (map f)) (own.map f) = (run as own).map f := by
  induction as generalizing own with
  | nil => rfl
  | cons a as ih =>
      simp only [run, List.map_cons, List.foldl_cons]
      rw [apply_map hf]
      exact ih (apply own a)

theorem owned_map (hf : f.Injective) {as : List (Action R)} {own : Multiset R}
    (h : Owned as own) : Owned (as.map (map f)) (own.map f) := by
  induction as generalizing own with
  | nil => trivial
  | cons a as ih =>
      refine ⟨holds_map h.1, ?_⟩
      rw [apply_map hf]
      exact ih h.2

end Map

end Action
end HxcppLuv
