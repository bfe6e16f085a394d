import Mathlib.Order.Lattice
import Mathlib.Data.List.Basic
import Mathlib.Data.List.Perm.Basic

/-!
Complete binary trees kept as the list of their levels, with the least key at the root: what
is left in order around a place whose element was put there or taken from its parent or its
least child, and when the whole is in order again.
-/

namespace HxcppLuv.BinaryHeap

universe u v

variable {α : Type u} {κ : Type v} [LinearOrder κ] {key : α → κ} {l : List α}

def parent (i : Nat) : Nat := (i - 1) / 2

def IsChild (i p : Nat) : Prop := i = 2 * p + 1 ∨ i = 2 * p + 2

instance (i p : Nat) : Decidable (IsChild i p) :=
  inferInstanceAs (Decidable (i = 2 * p + 1 ∨ i = 2 * p + 2))

theorem isChild_parent {i : Nat} (hi : 0 < i) : IsChild i (parent i) := by
  unfold IsChild parent
  omega

theorem IsChild.parent_eq {i p : Nat} (h : IsChild i p) : parent i = p := by
  unfold IsChild at h
  unfold parent
  omega

theorem IsChild.lt {i p : Nat} (h : IsChild i p) : p < i := by
  unfold IsChild at h
  omega

/-- The elements at two places are exchanged. -/
def swap (l : List α) (i j : Nat) : List α :=
  match l[i]?, l[j]? with
  | some a, some b => (l.set i b).set j a
  | _, _ => l

section Swap

variable {i j : Nat}

theorem length_swap : (swap l i j).length = l.length := by
  unfold swap
  split
  · rw [List.length_set, List.length_set]
  · rfl

theorem getElem?_swap (hi : i < l.length) (hj : j < l.length) (k : Nat) :
    (swap l i j)[k]? = if k = j then l[i]? else if k = i then l[j]? else l[k]? := by
  unfold swap
  rw [List.getElem?_eq_getElem hi, List.getElem?_eq_getElem hj]
  simp only [List.getElem?_set, List.length_set]
  by_cases hkj : k = j
  · simp [hkj, hj]
  · by_cases hki : k = i
    · have hji : ¬ j = i := fun h => hkj (hki.trans h.symm)
      have hij : ¬ i = j := fun h => hji h.symm
      simp [hki, hi, hji, hij]
    · simp [hkj, hki, Ne.symm hkj, Ne.symm hki]

theorem swap_perm : (swap l i j).Perm l := by
  unfold swap
  split
  · rename_i a b ha hb
    obtain ⟨hi, rfl⟩ := List.getElem?_eq_some_iff.mp ha
    obtain ⟨hj, rfl⟩ := List.getElem?_eq_some_iff.mp hb
    exact List.set_set_perm hi hj
  · exact List.Perm.refl _

end Swap

/-- Every element comes after its parent. -/
def Ordered (key : α → κ) (l : List α) : Prop :=
  ∀ i p a b, IsChild i p → l[i]? = some a → l[p]? = some b → key b ≤ key a

/-- All is in order but the element at `h`, which may be too far up or down. -/
structure Hole (key : α → κ) (l : List α) (h : Nat) : Prop where
  others : ∀ i p a b, IsChild i p → i ≠ h → p ≠ h → l[i]? = some a → l[p]? = some b →
    key b ≤ key a
  around : ∀ i p a b, IsChild i h → IsChild h p → l[i]? = some a → l[p]? = some b →
    key b ≤ key a

/-- The element at `h` can only be too far down. -/
structure Up (key : α → κ) (l : List α) (h : Nat) : Prop extends Hole key l h where
  below : ∀ i a b, IsChild i h → l[i]? = some a → l[h]? = some b → key b ≤ key a

section Sift

variable {h p : Nat} {a b : α}

theorem Up.ordered (hup : Up key l h)
    (habove : ∀ p a b, IsChild h p → l[h]? = some a → l[p]? = some b → key b ≤ key a) :
    Ordered key l := by
  intro i p a b hchild ha hb
  by_cases hi : i = h
  · cases hi
    exact habove p a b hchild ha hb
  · by_cases hp : p = h
    · cases hp
      exact hup.below i a b hchild ha hb
    · exact hup.others i p a b hchild hi hp ha hb

theorem Hole.up (hhole : Hole key l h)
    (hbelow : ∀ i a b, IsChild i h → l[i]? = some a → l[h]? = some b → key b ≤ key a) :
    Up key l h :=
  ⟨hhole, hbelow⟩

/-- An element before its parent changes places with it. -/
theorem Up.swap (hup : Up key l h) (hchild : IsChild h p) (ha : l[h]? = some a)
    (hb : l[p]? = some b) (hlt : key a < key b) : Up key (swap l p h) p := by
  obtain ⟨hh, -⟩ := List.getElem?_eq_some_iff.mp ha
  have hp := hchild.lt
  have get := getElem?_swap (l := l) (show p < l.length by omega) hh
  refine ⟨⟨?_, ?_⟩, ?_⟩
  · intro i q x y hiq hip hqp hx hy
    have hih : i ≠ h := by
      rintro rfl
      exact hqp (hiq.parent_eq.symm.trans hchild.parent_eq)
    rw [get, if_neg hih, if_neg hip] at hx
    rw [get] at hy
    by_cases hqh : q = h
    · rw [if_pos hqh, hb] at hy
      cases hy
      exact hup.around i p x b (hqh ▸ hiq) hchild hx hb
    · rw [if_neg hqh, if_neg hqp] at hy
      exact hup.others i q x y hiq hih hqh hx hy
  · intro i q x y hip hpq hx hy
    have hq := hpq.lt
    rw [get, if_neg (by omega), if_neg (by omega)] at hy
    have hqb := hup.others p q b y hpq (by omega) (by omega) hb hy
    rw [get] at hx
    by_cases hih : i = h
    · rw [if_pos hih, hb] at hx
      cases hx
      exact hqb
    · have := hip.lt
      rw [if_neg hih, if_neg (by omega)] at hx
      exact hqb.trans (hup.others i p x b hip hih (by omega) hx hb)
  · intro i x y hip hx hy
    rw [get, if_neg (by omega), if_pos rfl, ha] at hy
    cases hy
    rw [get] at hx
    by_cases hih : i = h
    · rw [if_pos hih, hb] at hx
      cases hx
      exact hlt.le
    · have := hip.lt
      rw [if_neg hih, if_neg (by omega)] at hx
      exact hlt.le.trans (hup.others i p x b hip hih (by omega) hx hb)

/-- An element changes places with its least child. -/
theorem Hole.swap {c : Nat} (hhole : Hole key l h) (hchild : IsChild c h) (hc : l[c]? = some a)
    (hleast : ∀ i x, IsChild i h → l[i]? = some x → key a ≤ key x) :
    Hole key (swap l h c) c := by
  obtain ⟨hlen, -⟩ := List.getElem?_eq_some_iff.mp hc
  have hlt := hchild.lt
  have get := getElem?_swap (l := l) (show h < l.length by omega) hlen
  constructor
  · intro i q x y hiq hic hqc hx hy
    have hq := hiq.lt
    rw [get, if_neg hic] at hx
    rw [get, if_neg hqc] at hy
    by_cases hih : i = h
    · rw [if_pos hih, hc] at hx
      rw [if_neg (by omega)] at hy
      cases hx
      exact hhole.around c q a y hchild (hih ▸ hiq) hc hy
    · rw [if_neg hih] at hx
      by_cases hqh : q = h
      · rw [if_pos hqh, hc] at hy
        cases hy
        exact hleast i x (hqh ▸ hiq) hx
      · rw [if_neg hqh] at hy
        exact hhole.others i q x y hiq hih hqh hx hy
  · intro i q x y hic hcq hx hy
    have hi := hic.lt
    have hqh : q = h := hcq.parent_eq.symm.trans hchild.parent_eq
    rw [get, if_neg (by omega), if_neg (by omega)] at hx
    rw [get, if_neg (by omega), if_pos hqh, hc] at hy
    cases hy
    exact hhole.others i c x a hic (by omega) (by omega) hx hc

end Sift

section Whole

variable {a b x : α} {n : Nat}

theorem Ordered.hole (hl : Ordered key l) (h : Nat) : Hole key l h where
  others i p a b hchild _ _ ha hb := hl i p a b hchild ha hb
  around i p a b hi hp ha hb := by
    have hih := hi.lt
    obtain ⟨hlen, -⟩ := List.getElem?_eq_some_iff.mp ha
    have hh := List.getElem?_eq_getElem (show h < l.length by omega)
    exact (hl h p _ b hp hh hb).trans (hl i h a _ hi ha hh)

theorem Ordered.congr {key' : α → κ} (hl : Ordered key l) (hkey : ∀ x ∈ l, key' x = key x) :
    Ordered key' l := by
  intro i p a b hchild ha hb
  rw [hkey a (List.mem_of_getElem? ha), hkey b (List.mem_of_getElem? hb)]
  exact hl i p a b hchild ha hb

/-- The element at a place does not matter to the order around it. -/
theorem Hole.set (hhole : Hole key l n) (x : α) : Hole key (l.set n x) n where
  others i p a b hchild hi hp ha hb := by
    rw [List.getElem?_set_ne (Ne.symm hi)] at ha
    rw [List.getElem?_set_ne (Ne.symm hp)] at hb
    exact hhole.others i p a b hchild hi hp ha hb
  around i p a b hi hp ha hb := by
    have := hi.lt
    have := hp.lt
    rw [List.getElem?_set_ne (by omega)] at ha hb
    exact hhole.around i p a b hi hp ha hb

theorem Ordered.take (hl : Ordered key l) (n : Nat) : Ordered key (l.take n) := by
  intro i p a b hchild ha hb
  rw [List.getElem?_take] at ha hb
  split at ha
  · split at hb
    · exact hl i p a b hchild ha hb
    · cases hb
  · cases ha

/-- A new last element. -/
theorem Ordered.concat (hl : Ordered key l) (x : α) : Up key (l ++ [x]) l.length := by
  have old : ∀ {i a}, i ≠ l.length → (l ++ [x])[i]? = some a → l[i]? = some a := by
    intro i a hi ha
    rw [List.getElem?_append] at ha
    split at ha
    · exact ha
    · rw [List.getElem?_singleton, if_neg (by omega)] at ha
      cases ha
  have noChild : ∀ {i a}, IsChild i l.length → (l ++ [x])[i]? ≠ some a := by
    intro i a hi ha
    have hlt := hi.lt
    obtain ⟨hlen, -⟩ := List.getElem?_eq_some_iff.mp (old (by omega) ha)
    omega
  refine ⟨⟨?_, ?_⟩, ?_⟩
  · exact fun i p a b hchild hi hp ha hb => hl i p a b hchild (old hi ha) (old hp hb)
  · exact fun i p a b hi _ ha _ => absurd ha (noChild hi)
  · exact fun i a b hi ha _ => absurd ha (noChild hi)

/-- The root comes before everything. -/
theorem Ordered.root_le (hl : Ordered key l) (ha : l[0]? = some a) :
    ∀ (i : Nat) (b : α), l[i]? = some b → key a ≤ key b := by
  intro i
  induction i using Nat.strongRecOn with
  | ind i ih =>
      intro b hb
      by_cases hi : i = 0
      · cases hi
        rw [ha] at hb
        cases hb
        exact le_refl _
      · have hchild := isChild_parent (Nat.pos_of_ne_zero hi)
        have hlt := hchild.lt
        obtain ⟨hlen, -⟩ := List.getElem?_eq_some_iff.mp hb
        have hp := List.getElem?_eq_getElem (show parent i < l.length by omega)
        exact (ih (parent i) hlt _ hp).trans (hl i (parent i) b _ hchild hb hp)

end Whole

end HxcppLuv.BinaryHeap
