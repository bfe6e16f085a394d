import Mathlib.Logic.Function.Basic
import Mathlib.Data.List.Basic

/-!
Tables of file descriptors: the open file at each number and whether `exec` closes it, the least
free number from some number on, and what is left after `exec`.
-/

namespace HxcppLuv.Descriptors

universe u

variable {F : Type u}

structure Descriptor (F : Type u) where
  file : F
  cloexec : Bool
  deriving DecidableEq

/-- No descriptor is opened from the limit on. -/
structure Table (F : Type u) where
  entry : Nat → Option (Descriptor F)
  limit : Nat

namespace Table

variable (t : Table F) (fd k : Nat) (d : Descriptor F)

def set : Table F := { t with entry := Function.update t.entry fd (some d) }

def clear : Table F := { t with entry := Function.update t.entry fd none }

/-- The least free descriptor from one on. -/
def lowest (least : Nat) : Option Nat :=
  (List.range t.limit).find? fun fd => decide (least ≤ fd) && (t.entry fd).isNone

/-- What `exec` leaves open. -/
def exec : Table F := { t with entry := fun fd => (t.entry fd).filter fun d => !d.cloexec }

@[simp] theorem entry_set :
    (t.set fd d).entry k = if k = fd then some d else t.entry k :=
  Function.update_apply ..

@[simp] theorem entry_clear : (t.clear fd).entry k = if k = fd then none else t.entry k :=
  Function.update_apply ..

@[simp] theorem limit_set : (t.set fd d).limit = t.limit := rfl

@[simp] theorem limit_clear : (t.clear fd).limit = t.limit := rfl

variable {t fd} {least : Nat}

theorem lowest_spec (h : t.lowest least = some fd) :
    least ≤ fd ∧ fd < t.limit ∧ t.entry fd = none ∧
      ∀ k, least ≤ k → k < fd → t.entry k ≠ none := by
  obtain ⟨hp, hmem, hfirst⟩ := List.find?_range_eq_some.mp h
  rw [Bool.and_eq_true, decide_eq_true_iff, Option.isNone_iff_eq_none] at hp
  refine ⟨hp.1, List.mem_range.mp hmem, hp.2, fun k hk hlt hnone => ?_⟩
  have := hfirst k hlt
  simp [hk, hnone] at this

/-- What is opened to be closed by `exec` does not show after it. -/
theorem exec_congr {t' : Table F} (hkept : ∀ fd d, t.entry fd = some d → t'.entry fd = some d)
    (hnew : ∀ fd d, t'.entry fd = some d → t.entry fd = some d ∨ d.cloexec = true) (fd : Nat) :
    t'.exec.entry fd = t.exec.entry fd := by
  cases hold : t.entry fd with
  | some d => simp only [exec, hkept fd d hold, hold]
  | none =>
      cases hd : t'.entry fd with
      | none => simp only [exec, hold, hd]
      | some d =>
          have hcloexec : d.cloexec = true := by
            cases hnew fd d hd with
            | inl hd => rw [hold] at hd; cases hd
            | inr hcloexec => exact hcloexec
          simp [exec, hold, hd, hcloexec]

end Table

end HxcppLuv.Descriptors
