import Mathlib.Data.List.Basic

/-!
Code that changes the status of a thread, and gives control away in places that call
back into it. A function is checked on its own, as if every place it enters came back
in the status it was entered in; when all functions check, no nesting of calls breaks
a rule or meets a place in a status it must not run in.
-/

namespace HxcppLuv

universe u v w x

inductive Instr (A : Type u) (P : Type v) where
  | act (a : A)
  | into (p : P)
  deriving DecidableEq

/-- The functions `F` and what they do; a place runs in the statuses `runsIn` has, and may
call the functions `may` has. -/
structure Discipline (Z : Type u) (A : Type v) (P : Type w) (F : Type x) where
  act : Z → A → Z
  allowed : Z → A → Bool
  runsIn : P → Z → Bool
  may : P → F → Bool
  body : F → List (Instr A P)

inductive Frame (A : Type v) (P : Type w) (F : Type x) where
  | code (f : F) (rest : List (Instr A P))
  | place (p : P)

/-- `fault` records an action that was not allowed. -/
structure Thread (Z : Type u) (A : Type v) (P : Type w) (F : Type x) where
  status : Z
  stack : List (Frame A P F)
  fault : Bool

/-- The next instruction of the function on top, a call made by the place on top, and
the return of either. -/
inductive Move (F : Type x) where
  | instr
  | call (f : F)
  | ret
  deriving DecidableEq

namespace Discipline

variable {Z : Type u} {A : Type v} {P : Type w} {F : Type x} (D : Discipline Z A P F)

def move (t : Thread Z A P F) : Move F → Option (Thread Z A P F)
  | .instr =>
      match t.stack with
      | .code f (.act a :: k) :: fs =>
          some ⟨D.act t.status a, .code f k :: fs, t.fault || !D.allowed t.status a⟩
      | .code f (.into p :: k) :: fs => some { t with stack := .place p :: .code f k :: fs }
      | _ => none
  | .call f =>
      match t.stack with
      | .place p :: fs =>
          if D.may p f then some { t with stack := .code f (D.body f) :: .place p :: fs } else none
      | _ => none
  | .ret =>
      match t.stack with
      | .code _ [] :: fs | .place _ :: fs => some { t with stack := fs }
      | _ => none

/-- The status at the end of some code, if it keeps the rules. -/
def check : Z → List (Instr A P) → Option Z
  | z, [] => some z
  | z, .act a :: k => if D.allowed z a then check (D.act z a) k else none
  | z, .into p :: k => if D.runsIn p z then check z k else none

/-- Every action of some code satisfies `R` in the status it is made in. -/
def Along (R : Z → A → Prop) : Z → List (Instr A P) → Prop
  | _, [] => True
  | z, .act a :: k => R z a ∧ Along R (D.act z a) k
  | z, .into _ :: k => Along R z k

instance decidableAlong (R : Z → A → Prop) [∀ z a, Decidable (R z a)] :
    ∀ z k, Decidable (D.Along R z k)
  | _, [] => isTrue trivial
  | z, .act a :: k =>
      have := decidableAlong R (D.act z a) k
      inferInstanceAs (Decidable (R z a ∧ D.Along R (D.act z a) k))
  | z, .into _ :: k => decidableAlong R z k

/-- Each frame finds the status the one above it leaves. -/
def Typed (R : F → Z → A → Prop) : Z → List (Frame A P F) → Prop
  | _, [] => True
  | z, .code f k :: fs => D.Along (R f) z k ∧ ∃ z', D.check z k = some z' ∧ Typed R z' fs
  | z, .place p :: fs => D.runsIn p z = true ∧ Typed R z fs

/-- No rule was broken, and the place on top runs in a status it may run in. -/
structure Sound (t : Thread Z A P F) : Prop where
  fault : t.fault = false
  place : ∀ p fs, t.stack = .place p :: fs → D.runsIn p t.status = true

/-- Every function a place may call checks from the place back to it. -/
def Checked (R : F → Z → A → Prop) : Prop :=
  ∀ p f z, D.may p f = true → D.runsIn p z = true →
    D.check z (D.body f) = some z ∧ D.Along (R f) z (D.body f)

variable {D} {R : F → Z → A → Prop} {t t' : Thread Z A P F} {m : Move F}

theorem sound_of_typed (h : D.Typed R t.status t.stack) (hf : t.fault = false) : D.Sound t where
  fault := hf
  place p fs hs := by
    rw [hs] at h
    exact h.1

theorem typed_instr (h : D.Typed R t.status t.stack) (hf : t.fault = false)
    (hm : D.move t .instr = some t') : D.Typed R t'.status t'.stack ∧ t'.fault = false := by
  simp only [move] at hm
  split at hm
  · rename_i f a k fs hstack
    cases hm
    rw [hstack] at h
    obtain ⟨⟨-, halong⟩, z, hcheck, htyped⟩ := h
    rw [check] at hcheck
    split at hcheck
    · rename_i hallowed
      exact ⟨⟨halong, z, hcheck, htyped⟩, by simp [hf, hallowed]⟩
    · cases hcheck
  · rename_i f p k fs hstack
    cases hm
    rw [hstack] at h
    obtain ⟨halong, z, hcheck, htyped⟩ := h
    rw [check] at hcheck
    split at hcheck
    · exact ⟨⟨‹_›, halong, z, hcheck, htyped⟩, hf⟩
    · cases hcheck
  · cases hm

theorem typed_call (hD : D.Checked R) (h : D.Typed R t.status t.stack) {f : F}
    (hm : D.move t (.call f) = some t') :
    D.Typed R t'.status t'.stack ∧ t'.fault = t.fault := by
  simp only [move] at hm
  split at hm
  · rename_i p fs hstack
    split at hm
    · cases hm
      rw [hstack] at h
      obtain ⟨hcheck, halong⟩ := hD p f t.status ‹_› h.1
      exact ⟨⟨halong, t.status, hcheck, h⟩, rfl⟩
    · cases hm
  · cases hm

theorem typed_ret (h : D.Typed R t.status t.stack) (hm : D.move t .ret = some t') :
    D.Typed R t'.status t'.stack ∧ t'.fault = t.fault := by
  simp only [move] at hm
  split at hm
  · rename_i f fs hstack
    cases hm
    rw [hstack] at h
    obtain ⟨-, z, hcheck, htyped⟩ := h
    cases hcheck
    exact ⟨htyped, rfl⟩
  · rename_i p fs hstack
    cases hm
    rw [hstack] at h
    exact ⟨h.2, rfl⟩
  · cases hm

/-- When every function checks, a well-typed thread stays well typed and faultless. -/
theorem typed_move (hD : D.Checked R) (h : D.Typed R t.status t.stack) (hf : t.fault = false)
    (hm : D.move t m = some t') : D.Typed R t'.status t'.stack ∧ t'.fault = false := by
  cases m with
  | instr => exact typed_instr h hf hm
  | call f => exact (typed_call hD h hm).imp_right (·.trans hf)
  | ret => exact (typed_ret h hm).imp_right (·.trans hf)

end Discipline
end HxcppLuv
