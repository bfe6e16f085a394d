import HxcppLuv.Heap.Shape

/-!
The two loops of a heap: from levels in order but for one node, they end with levels in order.
-/

namespace HxcppLuv.Heap

open BinaryHeap

variable {A : Type} {κ : Type} [LinearOrder κ] {key : A → κ}

/-- The words of a node are as they were. -/
structure SameAt (m m' : Memory A) (x : A) : Prop where
  left : m'.left x = m.left x
  right : m'.right x = m.right x
  parent : m'.parent x = m.parent x

namespace SameAt

variable {m m' m'' : Memory A} {x : A}

theorem refl : SameAt m m x := ⟨rfl, rfl, rfl⟩

theorem trans (h : SameAt m m' x) (h' : SameAt m' m'' x) : SameAt m m'' x :=
  ⟨h'.left.trans h.left, h'.right.trans h.right, h'.parent.trans h.parent⟩

end SameAt

/-- The memory `m'` holds the heap `l'`, which has the nodes of `l`, and is otherwise as `m`. -/
structure Moved (m : Memory A) (l : List A) (m' : Memory A) (l' : List A) : Prop where
  tree : Tree m' l'
  perm : l'.Perm l
  frame : ∀ x, x ∉ l → SameAt m m' x

namespace Moved

variable {m m' m'' : Memory A} {l l' l'' : List A}

theorem refl (h : Tree m l) : Moved m l m l := ⟨h, List.Perm.refl l, fun _ _ => .refl⟩

theorem trans (h : Moved m l m' l') (h' : Moved m' l' m'' l'') : Moved m l m'' l'' where
  tree := h'.tree
  perm := h'.perm.trans h.perm
  frame x hx := (h.frame x hx).trans (h'.frame x fun hmem => hx (h.perm.mem_iff.mp hmem))

end Moved

namespace Tree

variable {m m' : Memory A} {l : List A} {i p c : Nat} {a b x : A}

theorem left_mem (h : Tree m l) (hi : l[i]? = some a) (hx : m.left a = some x) : x ∈ l :=
  List.mem_of_getElem? ((h.left i a hi).symm.trans hx)

theorem right_mem (h : Tree m l) (hi : l[i]? = some a) (hx : m.right a = some x) : x ∈ l :=
  List.mem_of_getElem? ((h.right i a hi).symm.trans hx)

theorem above_mem (hx : above l i = some x) : x ∈ l := by
  unfold above at hx
  split at hx
  · cases hx
  · exact List.mem_of_getElem? hx

theorem parent_mem (h : Tree m l) (hi : l[i]? = some a) (hx : m.parent a = some x) : x ∈ l :=
  above_mem ((h.parent i a hi).symm.trans hx)

/-- A heap is where its nodes are. -/
theorem of_same (h : Tree m l) (hmin : m'.min = m.min) (hnelts : m'.nelts = m.nelts)
    (hsame : ∀ x, x ∈ l → SameAt m m' x) : Tree m' l where
  nodup := h.nodup
  nelts := hnelts.trans h.nelts
  min := hmin.trans h.min
  left i a ha := (hsame a (List.mem_of_getElem? ha)).left.trans (h.left i a ha)
  right i a ha := (hsame a (List.mem_of_getElem? ha)).right.trans (h.right i a ha)
  parent i a ha := (hsame a (List.mem_of_getElem? ha)).parent.trans (h.parent i a ha)

/-- The node above a place. -/
theorem parent_cases (h : Tree m l) (hi : l[i]? = some a) :
    i = 0 ∧ m.parent a = none ∨
      ∃ p b, IsChild i p ∧ l[p]? = some b ∧ m.parent a = some b := by
  rw [h.parent i a hi, above]
  by_cases hi0 : i = 0
  · exact .inl ⟨hi0, if_pos hi0⟩
  · have hchild := isChild_parent (Nat.pos_of_ne_zero hi0)
    have hlt := hchild.lt
    have hlen := (List.getElem?_eq_some_iff.mp hi).1
    have hget := List.getElem?_eq_getElem (show BinaryHeap.parent i < l.length by omega)
    exact .inr ⟨_, _, hchild, hget, (if_neg hi0).trans hget⟩

variable [DecidableEq A]

theorem moved_nodeSwap (h : Tree m l) (hp : l[p]? = some a) (hc : l[c]? = some b)
    (hchild : IsChild c p) : Moved m l (m.nodeSwap a b) (swap l p c) where
  tree := h.nodeSwap hp hc hchild
  perm := swap_perm
  frame x hx := by
    have hlinked := h.linked hp hc hchild
    have hxa : x ≠ a := fun hxa => hx (hxa ▸ List.mem_of_getElem? hp)
    have hxb : x ≠ b := fun hxb => hx (hxb ▸ List.mem_of_getElem? hc)
    have hparent : ¬ m.parent a = some x := fun hpar => hx (h.parent_mem hp hpar)
    constructor
    · rw [nodeSwap_left hlinked, if_neg fun hand => hparent hand.1, swappedLeft_of_ne hxa hxb]
    · rw [nodeSwap_right hlinked, if_neg fun hand => hparent hand.1,
        swappedRight_of_ne hxa hxb]
    · have hsibling : ¬ sibling m a b = some x := by
        unfold sibling
        split
        · exact fun hright => hx (h.right_mem hp hright)
        · exact fun hleft => hx (h.left_mem hp hleft)
      rw [nodeSwap_parent hlinked, if_neg fun hright => hx (h.right_mem hc hright),
        if_neg fun hleft => hx (h.left_mem hc hleft), if_neg hsibling, if_neg hxa, if_neg hxb]

end Tree

section Loops

variable [DecidableEq A] {lessThan : A → A → Bool} {m : Memory A} {l : List A} {i : Nat} {a p : A}

theorem siftUp_root (fuel : Nat) (hroot : m.parent a = none) :
    m.siftUp lessThan a fuel = some m := by
  unfold Memory.siftUp
  rw [hroot]

theorem siftUp_stop (fuel : Nat) (hp : m.parent a = some p) (hless : lessThan a p = false) :
    m.siftUp lessThan a fuel = some m := by
  unfold Memory.siftUp
  rw [hp]
  simp only [hless, Bool.false_eq_true, if_false]

theorem siftUp_move (fuel : Nat) (hp : m.parent a = some p) (hless : lessThan a p = true) :
    m.siftUp lessThan a (fuel + 1) = (m.nodeSwap p a).siftUp lessThan a fuel := by
  rw [Memory.siftUp, hp]
  simp only [hless, if_true]

variable (hless : ∀ a b, lessThan a b = true ↔ key a < key b)
include hless

theorem siftUp_spec (i fuel : Nat) (h : Tree m l) (hup : Up key l i) (hi : l[i]? = some a)
    (hfuel : i ≤ fuel) :
    ∃ m' l', m.siftUp lessThan a fuel = some m' ∧ Moved m l m' l' ∧ Ordered key l' := by
  induction i using Nat.strongRecOn generalizing fuel m l with
  | ind i ih =>
      rcases h.parent_cases hi with ⟨rfl, hroot⟩ | ⟨p, b, hchild, hp, hparent⟩
      · refine ⟨m, l, siftUp_root fuel hroot, .refl h, hup.ordered ?_⟩
        exact fun p _ _ hchild => absurd hchild.lt (Nat.not_lt_zero p)
      · have hlt := hchild.lt
        by_cases hab : key a < key b
        · obtain ⟨fuel, rfl⟩ := Nat.exists_eq_succ_of_ne_zero (show fuel ≠ 0 by omega)
          have hmoved := h.moved_nodeSwap hp hi hchild
          have hget : (swap l p i)[p]? = some a := by
            have hil := (List.getElem?_eq_some_iff.mp hi).1
            rw [getElem?_swap (by omega) hil, if_neg (by omega), if_pos rfl, hi]
          obtain ⟨m', l', hm', hmoved', hl'⟩ :=
            ih p hlt fuel hmoved.tree (hup.swap hchild hi hp hab) hget (by omega)
          exact ⟨m', l', (siftUp_move fuel hparent ((hless a b).mpr hab)).trans hm',
            hmoved.trans hmoved', hl'⟩
        · have hstop : lessThan a b = false := by
            rw [Bool.eq_false_iff, Ne, hless]
            exact hab
          refine ⟨m, l, siftUp_stop fuel hparent hstop, .refl h, hup.ordered ?_⟩
          intro q x y hq hx hy
          obtain rfl := hq.parent_eq.symm.trans hchild.parent_eq
          rw [hi] at hx
          rw [hp] at hy
          cases hx
          cases hy
          exact not_lt.mp hab

omit [DecidableEq A] in
theorem lesser_le (o : Option A) (s : A) :
    key (Memory.lesser lessThan o s) ≤ key s ∧
      ∀ x, o = some x → key (Memory.lesser lessThan o s) ≤ key x := by
  cases o with
  | none => exact ⟨le_refl _, fun x hx => by cases hx⟩
  | some x =>
      by_cases hx : lessThan x s
      · rw [Memory.lesser, if_pos hx]
        exact ⟨((hless x s).mp hx).le, fun y hy => by cases hy; exact le_refl _⟩
      · rw [Memory.lesser, if_neg hx]
        refine ⟨le_refl _, fun y hy => ?_⟩
        cases hy
        rw [hless] at hx
        exact not_lt.mp hx

omit [DecidableEq A] hless in
theorem lesser_cases (lessThan : A → A → Bool) (o : Option A) (s : A) :
    Memory.lesser lessThan o s = s ∨ o = some (Memory.lesser lessThan o s) := by
  cases o with
  | none => exact .inl rfl
  | some x =>
      by_cases hx : lessThan x s
      · rw [Memory.lesser, if_pos hx]
        exact .inr rfl
      · rw [Memory.lesser, if_neg hx]
        exact .inl rfl

omit [DecidableEq A] in
/-- The smallest of a node and its children. -/
theorem smallest_le (h : Tree m l) (hi : l[i]? = some a) {c : Nat} {x : A}
    (hc : IsChild c i) (hx : l[c]? = some x) :
    key (Memory.lesser lessThan (m.right a) (Memory.lesser lessThan (m.left a) a)) ≤ key x := by
  obtain ⟨hleft, hright⟩ := lesser_le hless (m.right a) (Memory.lesser lessThan (m.left a) a)
  rcases hc with rfl | rfl
  · exact hleft.trans ((lesser_le hless (m.left a) a).2 x ((h.left i a hi).trans hx))
  · exact hright x ((h.right i a hi).trans hx)

omit [DecidableEq A] hless in
theorem smallest_cases (h : Tree m l) (hi : l[i]? = some a) {s : A}
    (hs : Memory.lesser lessThan (m.right a) (Memory.lesser lessThan (m.left a) a) = s) :
    s = a ∨ ∃ c, IsChild c i ∧ l[c]? = some s := by
  subst hs
  rcases lesser_cases lessThan (m.right a)
    (Memory.lesser lessThan (m.left a) a) with hright | hright
  · rw [hright]
    rcases lesser_cases lessThan (m.left a) a with hleft | hleft
    · exact .inl hleft
    · exact .inr ⟨_, .inl rfl, (h.left i a hi).symm.trans hleft⟩
  · exact .inr ⟨_, .inr rfl, (h.right i a hi).symm.trans hright⟩

omit hless in
theorem siftDown_stop (fuel : Nat)
    (hs : Memory.lesser lessThan (m.right a) (Memory.lesser lessThan (m.left a) a) = a) :
    m.siftDown lessThan a fuel = some m := by
  unfold Memory.siftDown
  simp only [hs, if_true]

omit hless in
theorem siftDown_move (fuel : Nat) {s : A} (hne : s ≠ a)
    (hs : Memory.lesser lessThan (m.right a) (Memory.lesser lessThan (m.left a) a) = s) :
    m.siftDown lessThan a (fuel + 1) = (m.nodeSwap a s).siftDown lessThan a fuel := by
  rw [Memory.siftDown]
  simp only [hs, hne, if_false]

/-- The loop ends where the node comes before its children. -/
theorem siftDown_spec (n i fuel : Nat) (h : Tree m l) (hhole : Hole key l i)
    (hi : l[i]? = some a) (hn : l.length ≤ i + 1 + n) (hfuel : n ≤ fuel) :
    ∃ m' l' j, m.siftDown lessThan a fuel = some m' ∧ Moved m l m' l' ∧ Up key l' j ∧
      l'[j]? = some a := by
  induction n generalizing i fuel m l with
  | zero =>
      refine ⟨m, l, i, siftDown_stop fuel ?_, .refl h, hhole.up ?_, hi⟩
      · rcases smallest_cases h hi rfl with hs | ⟨c, hc, hget⟩
        · exact hs
        · have hlt := hc.lt
          have hlen := (List.getElem?_eq_some_iff.mp hget).1
          omega
      · intro c x _ hc hx _
        have hlt := hc.lt
        have hlen := (List.getElem?_eq_some_iff.mp hx).1
        omega
  | succ n ih =>
      generalize hs : Memory.lesser lessThan (m.right a) (Memory.lesser lessThan (m.left a) a) = s
      have hleast : ∀ c x, IsChild c i → l[c]? = some x → key s ≤ key x :=
        fun c x hc hx => hs ▸ smallest_le hless h hi hc hx
      by_cases hsa : s = a
      · refine ⟨m, l, i, siftDown_stop fuel (hs.trans hsa), .refl h, hhole.up ?_, hi⟩
        intro c x y hc hx hy
        rw [hi] at hy
        cases hy
        exact hsa ▸ hleast c x hc hx
      · obtain ⟨c, hc, hget⟩ := (smallest_cases h hi hs).resolve_left hsa
        have hlt := hc.lt
        have hlen := (List.getElem?_eq_some_iff.mp hget).1
        obtain ⟨fuel, rfl⟩ := Nat.exists_eq_succ_of_ne_zero (show fuel ≠ 0 by omega)
        have hmoved := h.moved_nodeSwap hi hget hc
        have hnext : (swap l i c)[c]? = some a := by
          rw [getElem?_swap (by omega) hlen, if_pos rfl, hi]
        obtain ⟨m', l', j, hm', hmoved', hup, hj⟩ := ih c fuel hmoved.tree
          (hhole.swap hc hget hleast) hnext (by rw [length_swap]; omega) (by omega)
        exact ⟨m', l', j, (siftDown_move fuel hsa hs).trans hm', hmoved.trans hmoved', hup, hj⟩

end Loops

end HxcppLuv.Heap
