import Mathlib.Data.List.Basic
import Mathlib.Data.List.Perm.Basic
import Mathlib.Algebra.BigOperators.Group.List.Basic
import Mathlib.Algebra.Order.Ring.Nat

/-!
Records kept in a list under the index they were appended at: what appending a
record or replacing one does to a statement about all of them, and to what they
hold taken together.
-/

namespace HxcppLuv.Slots

universe u
variable {α : Type u} {P : Nat → α → Prop} {l : List α}

/-- `P` holds of every record and the index it is kept at. -/
def All (P : Nat → α → Prop) (l : List α) : Prop := ∀ i a, l[i]? = some a → P i a

theorem all_nil : All P [] := by
  intro i a h
  simp at h

theorem all_concat (h : All P l) {a : α} (ha : P l.length a) : All P (l ++ [a]) := by
  intro i b hb
  rw [List.getElem?_append] at hb
  split at hb
  · exact h i b hb
  · rw [List.getElem?_singleton] at hb
    split at hb
    · cases hb
      rwa [show i = l.length by omega]
    · cases hb

theorem all_set (h : All P l) {i : Nat} {a : α} (ha : P i a) : All P (l.set i a) := by
  intro j b hb
  rw [List.getElem?_set] at hb
  split at hb
  · split at hb
    · cases hb
      rwa [← ‹i = j›]
    · cases hb
  · exact h j b hb

/-- A record of the list with one replaced is the new one or was there before. -/
theorem mem_set_cases {i : Nat} {a b : α} (h : b ∈ l.set i a) : b = a ∨ b ∈ l := by
  rcases List.mem_or_eq_of_mem_set h with h | h
  · exact .inr h
  · exact .inl h

variable {β : Type u} {i : Nat} {a : α} {f : α → α}

theorem perm_cons_eraseIdx (h : l[i]? = some a) : l.Perm (a :: l.eraseIdx i) := by
  obtain ⟨hi, rfl⟩ := List.getElem?_eq_some_iff.mp h
  exact (List.getElem_cons_eraseIdx_perm hi).symm

theorem modify_perm (h : l[i]? = some a) : (l.modify i f).Perm (f a :: l.eraseIdx i) := by
  obtain ⟨hi, rfl⟩ := List.getElem?_eq_some_iff.mp h
  rw [List.modify_eq_set_get f hi]
  exact List.set_perm_cons_eraseIdx hi _

theorem all_modify (hothers : ∀ j b, j ≠ i → l[j]? = some b → P j b)
    (hi : ∀ b, l[i]? = some b → P i (f b)) : All P (l.modify i f) := by
  intro j b hb
  rw [List.getElem?_modify] at hb
  obtain ⟨b', hb', rfl⟩ := Option.map_eq_some_iff.mp hb
  by_cases hj : i = j
  · cases hj
    simpa using hi b' hb'
  · simpa [hj] using hothers j b' (Ne.symm hj) hb'

/-- Replacing one record exchanges what it holds for what the new one does. -/
theorem count_flatMap_modify [BEq β] [LawfulBEq β] (g : α → List β) (h : l[i]? = some a)
    (x : β) :
    ((l.modify i f).flatMap g).count x + (g a).count x =
      (l.flatMap g).count x + (g (f a)).count x := by
  rw [((modify_perm h).flatMap_right g).count_eq, ((perm_cons_eraseIdx h).flatMap_right g).count_eq]
  simp only [List.flatMap_cons, List.count_append]
  omega

theorem sum_map_modify (g : α → Nat) (h : l[i]? = some a) :
    ((l.modify i f).map g).sum + g a = (l.map g).sum + g (f a) := by
  rw [((modify_perm h).map g).sum_eq, ((perm_cons_eraseIdx h).map g).sum_eq]
  simp only [List.map_cons, List.sum_cons]
  omega

/-- Replacing one record by an equivalent one changes nothing. -/
theorem map_modify_of_eq {g : α → β} (h : ∀ a, l[i]? = some a → g (f a) = g a) :
    (l.modify i f).map g = l.map g := by
  apply List.ext_getElem?
  intro j
  simp only [List.getElem?_map, List.getElem?_modify]
  cases hj : l[j]? with
  | none => rfl
  | some b =>
      by_cases hij : i = j
      · simp [hij, h b (hij ▸ hj)]
      · simp [hij]

/-- What the records of a list come to by the measure `g`. -/
def total (g : α → Nat) : List α → Nat
  | [] => 0
  | a :: l => g a + total g l

theorem total_set (g : α → Nat) {b : α} (h : l[i]? = some a) :
    total g (l.set i b) + g a = total g l + g b := by
  induction l generalizing i with
  | nil => simp at h
  | cons c l ih =>
      cases i with
      | zero =>
          cases h
          simp only [List.set_cons_zero, total]
          omega
      | succ i =>
          have := ih (by simpa using h)
          simp only [List.set_cons_succ, total]
          omega

theorem total_modify (g : α → Nat) (h : l[i]? = some a) :
    total g (l.modify i f) + g a = total g l + g (f a) := by
  obtain ⟨hi, rfl⟩ := List.getElem?_eq_some_iff.mp h
  rw [List.modify_eq_set_get f hi]
  exact total_set g (List.getElem?_eq_getElem hi)

theorem total_append (g : α → Nat) (l₁ l₂ : List α) :
    total g (l₁ ++ l₂) = total g l₁ + total g l₂ := by
  induction l₁ with
  | nil => exact (Nat.zero_add _).symm
  | cons b l₁ ih => rw [List.cons_append, total, total, ih, Nat.add_assoc]

theorem total_map {g : α → Nat} {f' : α → α} (h : ∀ a ∈ l, g (f' a) = g a) :
    total g (l.map f') = total g l := by
  induction l with
  | nil => rfl
  | cons b l ih =>
      rw [List.map_cons, total, total, h b List.mem_cons_self,
        ih fun a ha => h a (List.mem_cons_of_mem b ha)]

theorem total_pos {g : α → Nat} : 0 < total g l ↔ ∃ a ∈ l, 0 < g a := by
  induction l with
  | nil => simp [total]
  | cons b l ih =>
      rw [total, List.exists_mem_cons_iff, ← ih]
      omega

theorem total_eq_zero {g : α → Nat} (h : ∀ a ∈ l, g a = 0) : total g l = 0 := by
  by_contra hpos
  obtain ⟨a, ha, hg⟩ := total_pos.mp (Nat.pos_of_ne_zero hpos)
  exact absurd (h a ha) hg.ne'

theorem le_total {g : α → Nat} (h : l[i]? = some a) : g a ≤ total g l := by
  induction l generalizing i with
  | nil => simp at h
  | cons b l ih =>
      rw [total]
      cases i with
      | zero => cases h; omega
      | succ i =>
          have := ih (by simpa using h)
          omega

theorem total_le {g g' : α → Nat} (h : ∀ a ∈ l, g a ≤ g' a) : total g l ≤ total g' l := by
  induction l with
  | nil => exact Nat.le_refl _
  | cons b l ih =>
      have := h b List.mem_cons_self
      have := ih fun a ha => h a (List.mem_cons_of_mem b ha)
      simp only [total]
      omega

end HxcppLuv.Slots
