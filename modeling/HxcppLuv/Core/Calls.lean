/-!
Programs that call what may fail and change a state on the way, also where they fail: what a
program that succeeds did, step by step, and what each keeps that its calls keep.
-/

namespace HxcppLuv.Calls

universe u

variable {ε σ α β : Type u} {s s' : σ} {x : EStateM ε σ α} {f : α → EStateM ε σ β} {b : β}

theorem bind_ok (h : (x >>= f) s = .ok b s') : ∃ a t, x s = .ok a t ∧ f a t = .ok b s' := by
  simp only [bind, EStateM.bind] at h
  split at h
  · exact ⟨_, _, ‹_›, h⟩
  · cases h

/-- The state in which a program ends, with success or without. -/
def final : EStateM.Result ε σ α → σ
  | .ok _ s => s
  | .error _ s => s

/-- However it ends, the states before and after a program are related. -/
def Keeps (R : σ → σ → Prop) (x : EStateM ε σ α) : Prop := ∀ s, R s (final (x s))

namespace Keeps

variable {R : σ → σ → Prop}

theorem ok {a : α} (hx : Keeps R x) (h : x s = .ok a s') : R s s' := by
  have hs := hx s
  rwa [h] at hs

theorem error {e : ε} (hx : Keeps R x) (h : x s = .error e s') : R s s' := by
  have hs := hx s
  rwa [h] at hs

theorem pure (hrefl : ∀ s, R s s) (a : α) : Keeps R (Pure.pure a : EStateM ε σ α) :=
  fun s => hrefl s

/-- What follows a call may depend on what it returned, and from where. -/
theorem bind_at (hx : Keeps R x) (hf : ∀ s a t, x s = .ok a t → R s t → R s (final (f a t))) :
    Keeps R (x >>= f) := by
  intro s
  have hs := hx s
  simp only [Bind.bind, EStateM.bind]
  cases h : x s with
  | ok a t =>
      rw [h] at hs
      exact hf s a t h hs
  | error e t =>
      rw [h] at hs
      exact hs

theorem bind (htrans : ∀ s t u, R s t → R t u → R s u) (hx : Keeps R x)
    (hf : ∀ a, Keeps R (f a)) : Keeps R (x >>= f) :=
  bind_at hx fun s a t _ hst => htrans s t _ hst (hf a t)

end Keeps

end HxcppLuv.Calls
