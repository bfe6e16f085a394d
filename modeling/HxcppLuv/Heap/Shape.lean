import HxcppLuv.Core.BinaryHeap
import HxcppLuv.Heap.Model

/-!
The pointers of a heap are those of a complete binary tree over the list of its nodes by levels,
and each of its functions does on the pointers what it should do on the list.
-/

namespace HxcppLuv.Heap

open BinaryHeap

variable {A : Type} [DecidableEq A]

namespace Memory

section Fields

variable (m : Memory A) (a x : A) (o v : Option A)

@[simp] theorem setLeft_left : (m.setLeft a v).left x = if x = a then v else m.left x :=
  Function.update_apply ..

@[simp] theorem setLeft_right : (m.setLeft a v).right = m.right := rfl

@[simp] theorem setLeft_parent : (m.setLeft a v).parent = m.parent := rfl

@[simp] theorem setRight_left : (m.setRight a v).left = m.left := rfl

@[simp] theorem setRight_right : (m.setRight a v).right x = if x = a then v else m.right x :=
  Function.update_apply ..

@[simp] theorem setRight_parent : (m.setRight a v).parent = m.parent := rfl

@[simp] theorem setParent_left : (m.setParent a v).left = m.left := rfl

@[simp] theorem setParent_right : (m.setParent a v).right = m.right := rfl

@[simp] theorem setParent_parent :
    (m.setParent a v).parent x = if x = a then v else m.parent x :=
  Function.update_apply ..

@[simp] theorem adopt_left : (m.adopt o v).left = m.left := by
  cases o <;> rfl

@[simp] theorem adopt_right : (m.adopt o v).right = m.right := by
  cases o <;> rfl

@[simp] theorem adopt_parent :
    (m.adopt o v).parent x = if o = some x then v else m.parent x := by
  cases o with
  | none => rfl
  | some a => simp [adopt, eq_comm]

@[simp] theorem replace_left (old : A) :
    (m.replace o old v).left x = if o = some x ∧ m.left x = some old then v else m.left x := by
  cases o with
  | none => simp [replace]
  | some p =>
      by_cases hx : x = p
      · cases hx
        by_cases hp : m.left x = some old <;> simp [replace, hp]
      · by_cases hp : m.left p = some old <;> simp [replace, hp, hx, Ne.symm hx]

@[simp] theorem replace_right (old : A) :
    (m.replace o old v).right x =
      if o = some x ∧ m.left x ≠ some old then v else m.right x := by
  cases o with
  | none => simp [replace]
  | some p =>
      by_cases hx : x = p
      · cases hx
        by_cases hp : m.left x = some old <;> simp [replace, hp]
      · by_cases hp : m.left p = some old <;> simp [replace, hp, hx, Ne.symm hx]

@[simp] theorem replace_parent (old : A) : (m.replace o old v).parent = m.parent := by
  cases o with
  | none => rfl
  | some p => by_cases hp : m.left p = some old <;> simp [replace, hp]

@[simp] theorem replace_min (old : A) :
    (m.replace o old v).min = if o = none then v else m.min := by
  cases o with
  | none => rfl
  | some p => by_cases hp : m.left p = some old <;> simp [replace, hp, setLeft, setRight]

@[simp] theorem replace_nelts (old : A) : (m.replace o old v).nelts = m.nelts := by
  cases o with
  | none => rfl
  | some p => by_cases hp : m.left p = some old <;> simp [replace, hp, setLeft, setRight]

@[simp] theorem adopt_min : (m.adopt o v).min = m.min := by
  cases o <;> rfl

@[simp] theorem adopt_nelts : (m.adopt o v).nelts = m.nelts := by
  cases o <;> rfl

@[simp] theorem setLeft_min : (m.setLeft a v).min = m.min := rfl

@[simp] theorem setRight_min : (m.setRight a v).min = m.min := rfl

@[simp] theorem setParent_min : (m.setParent a v).min = m.min := rfl

@[simp] theorem setLeft_nelts : (m.setLeft a v).nelts = m.nelts := rfl

@[simp] theorem setRight_nelts : (m.setRight a v).nelts = m.nelts := rfl

@[simp] theorem setParent_nelts : (m.setParent a v).nelts = m.nelts := rfl

end Fields

end Memory

section NodeSwap

variable {m : Memory A} {a b : A}

/-- What the pointers of a parent and a child satisfy. -/
structure Linked (m : Memory A) (a b : A) : Prop where
  ne : a ≠ b
  left : m.left b ≠ some b
  right : m.right b ≠ some b
  sibling : m.left a = some b → m.right a ≠ some b

def swappedLeft (m : Memory A) (a b x : A) : Option A :=
  if x = b then (if m.left a = some b then some a else m.left a)
  else if x = a then m.left b else m.left x

def swappedRight (m : Memory A) (a b x : A) : Option A :=
  if x = b then (if m.left a = some b then m.right a else some a)
  else if x = a then m.right b else m.right x

def sibling (m : Memory A) (a b : A) : Option A :=
  if m.left a = some b then m.right a else m.left a

theorem swappedLeft_of_ne {x : A} (ha : x ≠ a) (hb : x ≠ b) :
    swappedLeft m a b x = m.left x := by
  rw [swappedLeft, if_neg hb, if_neg ha]

theorem swappedRight_of_ne {x : A} (ha : x ≠ a) (hb : x ≠ b) :
    swappedRight m a b x = m.right x := by
  rw [swappedRight, if_neg hb, if_neg ha]

theorem nodeSwap_left (h : Linked m a b) (x : A) :
    (m.nodeSwap a b).left x =
      if m.parent a = some x ∧ swappedLeft m a b x = some a then some b
      else swappedLeft m a b x := by
  by_cases hleft : m.left a = some b
  · have hright := h.sibling hleft
    by_cases hx : x = b <;>
      simp [Memory.nodeSwap, swappedLeft, hleft, h.ne, h.ne.symm, h.left, h.right, hright, hx]
  · simp [Memory.nodeSwap, swappedLeft, hleft, h.ne, h.ne.symm, h.left, h.right]

theorem nodeSwap_right (h : Linked m a b) (x : A) :
    (m.nodeSwap a b).right x =
      if m.parent a = some x ∧ swappedLeft m a b x ≠ some a then some b
      else swappedRight m a b x := by
  by_cases hleft : m.left a = some b
  · have hright := h.sibling hleft
    by_cases hx : x = b <;>
      simp [Memory.nodeSwap, swappedLeft, swappedRight, hleft, h.ne, h.ne.symm, h.left, h.right,
        hright, hx]
  · by_cases hx : x = b <;>
      simp [Memory.nodeSwap, swappedLeft, swappedRight, hleft, h.ne, h.ne.symm, h.left, h.right,
        hx]

theorem nodeSwap_parent (h : Linked m a b) (x : A) :
    (m.nodeSwap a b).parent x =
      if m.right b = some x then some a else if m.left b = some x then some a
      else if sibling m a b = some x then some b
      else if x = a then some b else if x = b then m.parent a else m.parent x := by
  by_cases hleft : m.left a = some b
  · by_cases hx : x = a <;> simp [Memory.nodeSwap, sibling, hleft, h.ne, h.ne.symm, hx]
  · by_cases hx : x = a <;> simp [Memory.nodeSwap, sibling, hleft, h.ne, h.ne.symm, hx]

theorem nodeSwap_min (h : Linked m a b) :
    (m.nodeSwap a b).min = if m.parent a = none then some b else m.min := by
  by_cases hleft : m.left a = some b
  · have hright := h.sibling hleft
    simp [Memory.nodeSwap, hleft, h.ne, h.ne.symm, h.left, h.right, hright]
  · simp [Memory.nodeSwap, hleft, h.ne, h.ne.symm, h.left, h.right]

theorem nodeSwap_nelts : (m.nodeSwap a b).nelts = m.nelts := by
  simp only [Memory.nodeSwap, Memory.replace_nelts, Memory.adopt_nelts]
  split <;> rfl

end NodeSwap

omit [DecidableEq A] in
/-- The node above a place. -/
def above (l : List A) (i : Nat) : Option A := if i = 0 then none else l[BinaryHeap.parent i]?

/-- The nodes of a heap by levels. -/
structure Tree (m : Memory A) (l : List A) : Prop where
  nodup : l.Nodup
  nelts : m.nelts = l.length
  min : m.min = l[0]?
  left : ∀ (i : Nat) (a : A), l[i]? = some a → m.left a = l[2 * i + 1]?
  right : ∀ (i : Nat) (a : A), l[i]? = some a → m.right a = l[2 * i + 2]?
  parent : ∀ (i : Nat) (a : A), l[i]? = some a →
    m.parent a = above l i

namespace Tree

variable {m : Memory A} {l : List A} {p c i j : Nat} {a b x y : A}

section Indices

omit [DecidableEq A]

theorem index_eq (h : Tree m l) (hi : l[i]? = some a) (hj : l[j]? = some a) : i = j := by
  obtain ⟨hlt, -⟩ := List.getElem?_eq_some_iff.mp hi
  exact (List.getElem?_inj hlt h.nodup).mp (hi.trans hj.symm)

theorem eq_iff (h : Tree m l) (hi : l[i]? = some a) (hj : l[j]? = some b) : a = b ↔ i = j := by
  constructor
  · rintro rfl
    exact h.index_eq hi hj
  · rintro rfl
    exact Option.some.inj (hi.symm.trans hj)

theorem get_eq (h : Tree m l) (hj : l[j]? = some b) : l[i]? = some b ↔ i = j := by
  constructor
  · exact fun hi => h.index_eq hi hj
  · rintro rfl
    exact hj

theorem above_eq (h : Tree m l) (hj : l[j]? = some b) : above l i = some b ↔ IsChild i j := by
  unfold above
  by_cases hi : i = 0
  · simp only [hi, if_true, reduceCtorEq, false_iff]
    exact fun hchild => absurd hchild.lt (Nat.not_lt_zero j)
  · rw [if_neg hi, h.get_eq hj]
    constructor
    · rintro rfl
      exact isChild_parent (Nat.pos_of_ne_zero hi)
    · exact IsChild.parent_eq

theorem left_eq_some (h : Tree m l) (hi : l[i]? = some a) (hj : l[j]? = some b) :
    m.left a = some b ↔ j = 2 * i + 1 := by
  rw [h.left i a hi, h.get_eq hj, eq_comm]

theorem right_eq_some (h : Tree m l) (hi : l[i]? = some a) (hj : l[j]? = some b) :
    m.right a = some b ↔ j = 2 * i + 2 := by
  rw [h.right i a hi, h.get_eq hj, eq_comm]

theorem parent_eq_some (h : Tree m l) (hi : l[i]? = some a) (hj : l[j]? = some b) :
    m.parent a = some b ↔ IsChild i j := by
  rw [h.parent i a hi, h.above_eq hj]

end Indices

omit [DecidableEq A] in
theorem linked (h : Tree m l) (hp : l[p]? = some a) (hc : l[c]? = some b)
    (hchild : IsChild c p) : Linked m a b := by
  have hlt := hchild.lt
  constructor
  · rw [Ne, h.eq_iff hp hc]
    omega
  · rw [Ne, h.left_eq_some hc hc]
    omega
  · rw [Ne, h.right_eq_some hc hc]
    omega
  · rw [Ne, h.left_eq_some hp hc, h.right_eq_some hp hc]
    omega

theorem sibling_eq_some (h : Tree m l) (hp : l[p]? = some a) (hc : l[c]? = some b)
    (hchild : IsChild c p) (hi : l[i]? = some x) :
    sibling m a b = some x ↔ IsChild i p ∧ i ≠ c := by
  unfold sibling
  unfold IsChild at hchild ⊢
  split
  · rename_i hleft
    rw [h.left_eq_some hp hc] at hleft
    rw [h.right_eq_some hp hi]
    omega
  · rename_i hleft
    rw [h.left_eq_some hp hc] at hleft
    rw [h.left_eq_some hp hi]
    omega

section Swap

variable (h : Tree m l) (hp : l[p]? = some a) (hc : l[c]? = some b) (hchild : IsChild c p)
include h hp hc hchild

omit [DecidableEq A] hchild in
/-- Who is at a place after the exchange. -/
theorem at_swap (hx : (swap l p c)[i]? = some x) :
    i = c ∧ x = a ∨ i = p ∧ x = b ∨ i ≠ c ∧ i ≠ p ∧ x ≠ a ∧ x ≠ b ∧ l[i]? = some x := by
  have hpl : p < l.length := (List.getElem?_eq_some_iff.mp hp).1
  have hcl : c < l.length := (List.getElem?_eq_some_iff.mp hc).1
  rw [getElem?_swap hpl hcl] at hx
  by_cases hic : i = c
  · rw [if_pos hic, hp] at hx
    exact .inl ⟨hic, (Option.some.inj hx).symm⟩
  · rw [if_neg hic] at hx
    by_cases hip : i = p
    · rw [if_pos hip, hc] at hx
      exact .inr (.inl ⟨hip, (Option.some.inj hx).symm⟩)
    · rw [if_neg hip] at hx
      refine .inr (.inr ⟨hic, hip, ?_, ?_, hx⟩)
      · exact fun hxa => hip ((h.eq_iff hx hp).mp hxa)
      · exact fun hxb => hic ((h.eq_iff hx hc).mp hxb)

theorem swap_left (hx : (swap l p c)[i]? = some x) :
    (m.nodeSwap a b).left x = (swap l p c)[2 * i + 1]? := by
  have hlinked := h.linked hp hc hchild
  have hlt := hchild.lt
  have hpl : p < l.length := (List.getElem?_eq_some_iff.mp hp).1
  have hcl : c < l.length := (List.getElem?_eq_some_iff.mp hc).1
  rw [nodeSwap_left hlinked, getElem?_swap hpl hcl]
  rcases h.at_swap hp hc hx with ⟨rfl, rfl⟩ | ⟨rfl, rfl⟩ | ⟨hic, hip, hxa, hxb, hold⟩
  · have hself : ¬ m.parent x = some x := by
      rw [h.parent_eq_some hp hp]
      exact fun hself => absurd hself.lt (Nat.lt_irrefl _)
    rw [if_neg fun hand => hself hand.1, swappedLeft, if_neg hlinked.ne, if_pos rfl,
      h.left i b hc, if_neg (by omega), if_neg (by omega)]
  · have hpar : ¬ m.parent a = some x := by
      rw [h.parent_eq_some hp hc]
      exact fun hback => absurd hback.lt (by omega)
    rw [if_neg fun hand => hpar hand.1, swappedLeft, if_pos rfl]
    simp only [h.left_eq_some hp hc]
    by_cases hleft : c = 2 * i + 1
    · rw [if_pos hleft, if_pos hleft.symm, hp]
    · rw [if_neg hleft, if_neg (Ne.symm hleft), if_neg (by omega), h.left i a hp]
  · simp only [swappedLeft_of_ne hxa hxb, h.parent_eq_some hp hold, h.left_eq_some hold hp]
    have hnot : 2 * i + 1 ≠ c := fun hci =>
      hip (hchild.parent_eq ▸ (IsChild.parent_eq (.inl hci.symm)).symm)
    rw [if_neg hnot]
    by_cases hleft : p = 2 * i + 1
    · rw [if_pos ⟨.inl hleft, hleft⟩, if_pos hleft.symm, hc]
    · rw [if_neg fun hand => hleft hand.2, if_neg (Ne.symm hleft), h.left i x hold]

theorem swap_right (hx : (swap l p c)[i]? = some x) :
    (m.nodeSwap a b).right x = (swap l p c)[2 * i + 2]? := by
  have hlinked := h.linked hp hc hchild
  have hlt := hchild.lt
  have hpl : p < l.length := (List.getElem?_eq_some_iff.mp hp).1
  have hcl : c < l.length := (List.getElem?_eq_some_iff.mp hc).1
  rw [nodeSwap_right hlinked, getElem?_swap hpl hcl]
  rcases h.at_swap hp hc hx with ⟨rfl, rfl⟩ | ⟨rfl, rfl⟩ | ⟨hic, hip, hxa, hxb, hold⟩
  · have hself : ¬ m.parent x = some x := by
      rw [h.parent_eq_some hp hp]
      exact fun hself => absurd hself.lt (Nat.lt_irrefl _)
    rw [if_neg fun hand => hself hand.1, swappedRight, if_neg hlinked.ne, if_pos rfl,
      h.right i b hc, if_neg (by omega), if_neg (by omega)]
  · have hpar : ¬ m.parent a = some x := by
      rw [h.parent_eq_some hp hc]
      exact fun hback => absurd hback.lt (by omega)
    rw [if_neg fun hand => hpar hand.1, swappedRight, if_pos rfl]
    simp only [h.left_eq_some hp hc]
    unfold IsChild at hchild
    by_cases hleft : c = 2 * i + 1
    · rw [if_pos hleft, if_neg (by omega), if_neg (by omega), h.right i a hp]
    · rw [if_neg hleft, if_pos (by omega), hp]
  · simp only [swappedLeft_of_ne hxa hxb, swappedRight_of_ne hxa hxb,
      h.parent_eq_some hp hold, Ne, h.left_eq_some hold hp]
    have hnot : 2 * i + 2 ≠ c := fun hci =>
      hip (hchild.parent_eq ▸ (IsChild.parent_eq (.inr hci.symm)).symm)
    rw [if_neg hnot]
    by_cases hright : p = 2 * i + 2
    · rw [if_pos ⟨.inr hright, by omega⟩, if_pos hright.symm, hc]
    · rw [if_neg fun hand => hand.1.elim hand.2 hright, if_neg (Ne.symm hright),
        h.right i x hold]

theorem swap_parent (hx : (swap l p c)[i]? = some x) :
    (m.nodeSwap a b).parent x = above (swap l p c) i := by
  have hlinked := h.linked hp hc hchild
  have hlt := hchild.lt
  have hpl : p < l.length := (List.getElem?_eq_some_iff.mp hp).1
  have hcl : c < l.length := (List.getElem?_eq_some_iff.mp hc).1
  rw [nodeSwap_parent hlinked, above, getElem?_swap hpl hcl]
  rcases h.at_swap hp hc hx with ⟨rfl, rfl⟩ | ⟨rfl, rfl⟩ | ⟨hic, hip, hxa, hxb, hold⟩
  · simp only [h.right_eq_some hc hp, h.left_eq_some hc hp, h.sibling_eq_some hp hc hchild hp]
    rw [if_neg (by omega), if_neg (by omega), if_neg fun hand => absurd hand.1.lt (by omega),
      if_pos trivial, if_neg (by omega), hchild.parent_eq, if_neg (by omega), if_pos rfl, hc]
  · simp only [h.right_eq_some hc hc, h.left_eq_some hc hc, h.sibling_eq_some hp hc hchild hc]
    rw [if_neg (by omega), if_neg (by omega), if_neg fun hand => hand.2 rfl,
      if_neg (Ne.symm hlinked.ne), if_pos trivial, h.parent i a hp, above]
    by_cases hi : i = 0
    · rw [if_pos hi, if_pos hi]
    · have hup := (isChild_parent (Nat.pos_of_ne_zero hi)).lt
      rw [if_neg hi, if_neg hi, if_neg (by omega), if_neg (by omega)]
  · simp only [h.right_eq_some hc hold, h.left_eq_some hc hold,
      h.sibling_eq_some hp hc hchild hold]
    rw [if_neg hxa, if_neg hxb, h.parent i x hold, above]
    by_cases hi : i = 0
    · rw [if_neg (by omega), if_neg (by omega), if_neg fun hand => absurd hand.1.lt (by omega),
        if_pos hi, if_pos hi]
    · have hup := isChild_parent (Nat.pos_of_ne_zero hi)
      rw [if_neg hi, if_neg hi]
      by_cases hc' : BinaryHeap.parent i = c
      · rw [if_pos hc', hp]
        unfold IsChild at hup
        by_cases hr : i = 2 * c + 2
        · rw [if_pos hr]
        · rw [if_neg hr, if_pos (by omega)]
      · rw [if_neg hc', if_neg fun hr => hc' (IsChild.parent_eq (.inr hr)),
          if_neg fun hr => hc' (IsChild.parent_eq (.inl hr))]
        by_cases hp' : BinaryHeap.parent i = p
        · rw [if_pos hp', if_pos ⟨hp' ▸ hup, hic⟩, hc]
        · rw [if_neg hp', if_neg fun hand => hp' hand.1.parent_eq]

/-- Exchanging two linked nodes exchanges them in the levels. -/
theorem nodeSwap : Tree (m.nodeSwap a b) (swap l p c) := by
  have hlinked := h.linked hp hc hchild
  have hpl : p < l.length := (List.getElem?_eq_some_iff.mp hp).1
  have hcl : c < l.length := (List.getElem?_eq_some_iff.mp hc).1
  have hlt := hchild.lt
  constructor
  · exact (swap_perm.nodup_iff).mpr h.nodup
  · rw [nodeSwap_nelts, length_swap, h.nelts]
  · rw [nodeSwap_min hlinked, h.parent p a hp, getElem?_swap hpl hcl, h.min,
      if_neg (show ¬ 0 = c by omega), above]
    by_cases hp0 : p = 0
    · rw [if_pos hp0, if_pos rfl, if_pos hp0.symm, hc]
    · have hpar : BinaryHeap.parent p < l.length := by
        have := (isChild_parent (Nat.pos_of_ne_zero hp0)).lt
        omega
      rw [if_neg hp0, List.getElem?_eq_getElem hpar, if_neg (Option.some_ne_none _),
        if_neg (Ne.symm hp0)]
  · exact fun i x hx => h.swap_left hp hc hchild hx
  · exact fun i x hx => h.swap_right hp hc hchild hx
  · exact fun i x hx => h.swap_parent hp hc hchild hx

end Swap

end Tree

end HxcppLuv.Heap
