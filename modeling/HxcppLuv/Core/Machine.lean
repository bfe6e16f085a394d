import Mathlib.Data.List.Basic
import Mathlib.Data.List.Infix

/-!
Machines with one initial state and a partial step per label, and the rules the
models use on them: a property of every state of a run, a condition on every
step of a run, and the invariant rule that takes the second to the first. The
exact rule adds that a step outside the condition breaks the property at once.
-/

namespace HxcppLuv

universe u v v'

structure Machine (σ : Type u) (α : Type v) where
  init : σ
  step : σ → α → Option σ

namespace Machine

variable {σ : Type u} {α : Type v} (M : Machine σ α)

/-- The state a list of labels leads to, when every one of them is enabled. -/
def run : σ → List α → Option σ
  | s, [] => some s
  | s, a :: as => (M.step s a).bind fun t => run t as

/-- `P` holds in every state the run from `s` visits, `s` included. -/
def Always (P : σ → Prop) : σ → List α → Prop
  | s, [] => P s
  | s, a :: as => P s ∧ ∀ t, M.step s a = some t → Always P t as

/-- Every step the run from `s` takes satisfies `G` in the state before it. -/
def Throughout (G : σ → α → Prop) : σ → List α → Prop
  | _, [] => True
  | s, a :: as => ∀ t, M.step s a = some t → G s a ∧ Throughout G t as

/-- Where a run from `s` leads, the same labels lead the other machine to a related state. -/
def Follows {τ : Type v'} (N : Machine τ α) (R : σ → τ → Prop) (s : σ) (t : τ) (as : List α) :
    Prop :=
  ∀ s', M.run s as = some s' → ∃ t', N.run t as = some t' ∧ R s' t'

instance decidableAlways (P : σ → Prop) [DecidablePred P] :
    ∀ s as, Decidable (M.Always P s as)
  | s, [] => inferInstanceAs (Decidable (P s))
  | s, a :: as =>
      match h : M.step s a with
      | none => decidable_of_iff (P s) (by simp [Always, h])
      | some t =>
          have := decidableAlways P t as
          decidable_of_iff (P s ∧ M.Always P t as) (by simp [Always, h])

instance decidableThroughout (G : σ → α → Prop) [∀ s a, Decidable (G s a)] :
    ∀ s as, Decidable (M.Throughout G s as)
  | _, [] => isTrue trivial
  | s, a :: as =>
      match h : M.step s a with
      | none => isTrue (by simp [Throughout, h])
      | some t =>
          have := decidableThroughout G t as
          decidable_of_iff (G s a ∧ M.Throughout G t as) (by simp [Throughout, h])

theorem run_append (s : σ) (as bs : List α) :
    M.run s (as ++ bs) = (M.run s as).bind fun t => M.run t bs := by
  induction as generalizing s with
  | nil => rfl
  | cons a as ih =>
      simp only [List.cons_append, run]
      cases M.step s a with
      | none => rfl
      | some t => exact ih t

theorem run_cons_eq_some {s t : σ} {a : α} {as : List α} (h : M.run s (a :: as) = some t) :
    ∃ u, M.step s a = some u ∧ M.run u as = some t :=
  Option.bind_eq_some_iff.mp h

/-- What a guarded step says when it is taken. -/
theorem of_guard {p : Prop} [Decidable p] {s t : σ} (h : (if p then some s else none) = some t) :
    p ∧ s = t := by
  split at h
  · exact ⟨‹p›, Option.some.inj h⟩
  · cases h

variable {M}

/-- `Always` speaks of the state after each prefix of the labels. -/
theorem always_iff_prefix {P : σ → Prop} {s : σ} {as : List α} :
    M.Always P s as ↔ ∀ bs t, bs <+: as → M.run s bs = some t → P t := by
  induction as generalizing s with
  | nil =>
      constructor
      · intro h bs t hbs hrun
        cases List.prefix_nil.mp hbs
        cases hrun
        exact h
      · intro h
        exact h [] s List.prefix_rfl rfl
  | cons a as ih =>
      constructor
      · intro h bs t hbs hrun
        cases bs with
        | nil => cases hrun; exact h.1
        | cons b bs =>
            obtain ⟨rfl, hpre⟩ := List.cons_prefix_cons.mp hbs
            obtain ⟨u, hu, hrest⟩ := M.run_cons_eq_some hrun
            exact ih.mp (h.2 u hu) bs t hpre hrest
      · intro h
        refine ⟨h [] s (List.nil_prefix) rfl, fun t ht => ih.mpr ?_⟩
        intro bs u hbs hrun
        exact h (a :: bs) u (List.cons_prefix_cons.mpr ⟨rfl, hbs⟩) (by simp [run, ht, hrun])

theorem Always.last {P : σ → Prop} {s t : σ} {as : List α} (h : M.Always P s as)
    (hrun : M.run s as = some t) : P t :=
  always_iff_prefix.mp h as t List.prefix_rfl hrun

theorem Always.mono {P Q : σ → Prop} (hPQ : ∀ s, P s → Q s) {s : σ} {as : List α}
    (h : M.Always P s as) : M.Always Q s as := by
  induction as generalizing s with
  | nil => exact hPQ s h
  | cons a as ih => exact ⟨hPQ s h.1, fun t ht => ih (h.2 t ht)⟩

theorem Throughout.and {G H : σ → α → Prop} {s : σ} {as : List α}
    (hG : M.Throughout G s as) (hH : M.Throughout H s as) :
    M.Throughout (fun s a => G s a ∧ H s a) s as := by
  induction as generalizing s with
  | nil => trivial
  | cons a as ih =>
      intro t ht
      exact ⟨⟨(hG t ht).1, (hH t ht).1⟩, ih (hG t ht).2 (hH t ht).2⟩

/-- The invariant rule: what every step that meets `G` preserves holds in every
state of a run whose steps all meet it. -/
theorem always_of_throughout {I P : σ → Prop} {G : σ → α → Prop}
    (hP : ∀ s, I s → P s)
    (hstep : ∀ s a t, I s → G s a → M.step s a = some t → I t)
    {s : σ} {as : List α} (hs : I s) (h : M.Throughout G s as) : M.Always P s as := by
  induction as generalizing s with
  | nil => exact hP s hs
  | cons a as ih =>
      refine ⟨hP s hs, fun t ht => ?_⟩
      obtain ⟨hG, hrest⟩ := h t ht
      exact ih (hstep s a t hs hG ht) hrest

/-- The invariant rule for every run. -/
theorem always_of_step {I P : σ → Prop} (hP : ∀ s, I s → P s)
    (hstep : ∀ s a t, I s → M.step s a = some t → I t)
    {s : σ} {as : List α} (hs : I s) : M.Always P s as := by
  induction as generalizing s with
  | nil => exact hP s hs
  | cons a as ih => exact ⟨hP s hs, fun t ht => ih (hstep s a t hs ht)⟩

/-- The simulation rule: what follows the other machine's steps follows its runs. -/
theorem simulates {τ : Type v'} {N : Machine τ α} {R : σ → τ → Prop}
    (hstep : ∀ s t a s', R s t → M.step s a = some s' → ∃ t', N.step t a = some t' ∧ R s' t')
    {s s' : σ} {t : τ} {as : List α} (hst : R s t) (hrun : M.run s as = some s') :
    ∃ t', N.run t as = some t' ∧ R s' t' := by
  induction as generalizing s t with
  | nil =>
      cases hrun
      exact ⟨t, rfl, hst⟩
  | cons a as ih =>
      obtain ⟨u, hu, hrest⟩ := M.run_cons_eq_some hrun
      obtain ⟨u', hu', huu⟩ := hstep s t a u hst hu
      obtain ⟨t', ht', hst'⟩ := ih huu hrest
      exact ⟨t', Option.bind_eq_some_iff.mpr ⟨u', hu', ht'⟩, hst'⟩

theorem follows_of_step {τ : Type v'} {N : Machine τ α} {I R : σ → τ → Prop}
    (hR : ∀ s t, I s t → R s t)
    (hstep : ∀ s t a s', I s t → M.step s a = some s' → ∃ t', N.step t a = some t' ∧ I s' t')
    {s : σ} {t : τ} {as : List α} (hst : I s t) : M.Follows N R s t as := by
  intro s' hrun
  obtain ⟨t', ht', hs'⟩ := simulates hstep hst hrun
  exact ⟨t', ht', hR s' t' hs'⟩

/-- The lockstep rule: two machines that take the same steps have the same runs. -/
theorem lockstep {τ : Type v'} {N : Machine τ α} {I R : σ → τ → Prop}
    (hR : ∀ s t, I s t → R s t)
    (hstep : ∀ s t a, I s t → Option.Rel I (M.step s a) (N.step t a))
    {s : σ} {t : τ} (as : List α) (hst : I s t) : Option.Rel R (M.run s as) (N.run t as) := by
  induction as generalizing s t with
  | nil => exact .some (hR s t hst)
  | cons a as ih =>
      have hrel := hstep s t a hst
      rw [run, run]
      cases hs : M.step s a with
      | none =>
          rw [hs] at hrel
          cases ht : N.step t a with
          | none => exact .none
          | some t' => rw [ht] at hrel; cases hrel
      | some s' =>
          rw [hs] at hrel
          cases ht : N.step t a with
          | none => rw [ht] at hrel; cases hrel
          | some t' =>
              rw [ht] at hrel
              cases hrel with
              | some hst' => exact ih hst'

/-- The measure rule: what lowers `f` at every step is over after `f` steps. -/
theorem length_le_of_measure {I : σ → Prop} {D : α → Prop} {f : σ → Nat}
    (hstep : ∀ s a t, I s → D a → M.step s a = some t → I t ∧ f t < f s)
    {s t : σ} {as : List α} (hs : I s) (has : ∀ a ∈ as, D a) (hrun : M.run s as = some t) :
    I t ∧ as.length + f t ≤ f s := by
  induction as generalizing s with
  | nil =>
      cases hrun
      exact ⟨hs, by simp⟩
  | cons a as ih =>
      obtain ⟨u, hu, hrest⟩ := M.run_cons_eq_some hrun
      obtain ⟨hI, hlt⟩ := hstep s a u hs (has a List.mem_cons_self) hu
      obtain ⟨ht, hle⟩ := ih hI (fun b hb => has b (List.mem_cons_of_mem a hb)) hrest
      refine ⟨ht, ?_⟩
      rw [List.length_cons]
      omega

/-- Conditions that agree in the states of every run agree on runs. -/
theorem throughout_congr {I : σ → Prop} {G H : σ → α → Prop}
    (hstep : ∀ s a t, I s → M.step s a = some t → I t)
    (hGH : ∀ s a t, I s → M.step s a = some t → (G s a ↔ H s a))
    {s : σ} {as : List α} (hs : I s) : M.Throughout G s as ↔ M.Throughout H s as := by
  induction as generalizing s with
  | nil => rfl
  | cons a as ih =>
      apply forall_congr'
      intro t
      apply imp_congr_right
      intro ht
      rw [hGH s a t hs ht, ih (hstep s a t hs ht)]

/-- The exact rule: when a step outside `G` breaks `P` in the state it leads to,
the condition is not only enough. -/
theorem always_iff_throughout {I P : σ → Prop} {G : σ → α → Prop}
    (hP : ∀ s, I s → P s)
    (hstep : ∀ s a t, I s → G s a → M.step s a = some t → I t)
    (hbreak : ∀ s a t, I s → ¬ G s a → M.step s a = some t → ¬ P t)
    {s : σ} {as : List α} (hs : I s) : M.Always P s as ↔ M.Throughout G s as := by
  refine ⟨fun h => ?_, always_of_throughout hP hstep hs⟩
  induction as generalizing s with
  | nil => trivial
  | cons a as ih =>
      intro t ht
      have hG : G s a := by
        by_contra hn
        apply hbreak s a t hs hn ht
        cases as with
        | nil => exact h.2 t ht
        | cons b bs => exact (h.2 t ht).1
      exact ⟨hG, ih (hstep s a t hs hG ht) (h.2 t ht)⟩

end Machine
end HxcppLuv
