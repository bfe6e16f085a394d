import HxcppLuv.Heap.Sift
import Mathlib.Data.List.Nodup

/-!
`heap_insert` and `heap_remove`: the path of bits leads to the last place, and the node that is
put there or taken from there leaves a heap of one node more or less.
-/

namespace HxcppLuv.Heap

open BinaryHeap

variable {A : Type} {m m' : Memory A} {l : List A} {i j n : Nat} {a b x : A}

/-- The number, from 1 on, of the place to which a path leads. -/
def turns : Nat → Nat → Nat → Nat
  | _, 0, n => n
  | path, k + 1, n => turns (path / 2) k (2 * n + path % 2)

theorem turns_pathTo (path k n : Nat) (hn : 0 < n) :
    turns (Memory.pathTo path k n).1 (Memory.pathTo path k n).2 1 = turns path k n := by
  induction n using Nat.strongRecOn generalizing path k with
  | ind n ih =>
      unfold Memory.pathTo
      split
      · rw [show n = 1 by omega]
      · rw [ih (n / 2) (by omega) _ _ (by omega), turns]
        congr 1 <;> omega

theorem le_turns (path k n : Nat) : n ≤ turns path k n := by
  induction k generalizing path n with
  | zero => exact Nat.le_refl n
  | succ k ih => exact Nat.le_trans (by omega) (ih (path / 2) (2 * n + path % 2))

/-- The place in memory that points to a place of the levels. -/
inductive SlotOf (l : List A) : Nat → Slot A → Prop where
  | min : SlotOf l 0 .min
  | left {i : Nat} {a : A} (hi : l[i]? = some a) : SlotOf l (2 * i + 1) (.left a)
  | right {i : Nat} {a : A} (hi : l[i]? = some a) : SlotOf l (2 * i + 2) (.right a)

theorem SlotOf.read {s : Slot A} (hs : SlotOf l i s) (h : Tree m l) : m.read s = l[i]? := by
  cases hs with
  | min => exact h.min
  | left hi => exact h.left _ _ hi
  | right hi => exact h.right _ _ hi

/-- A path leads to the slot of its place, over the slot of the parent's. -/
theorem walk_spec (h : Tree m l) (path k : Nat) {ps cs : Slot A} (hcs : SlotOf l i cs)
    (hps : ∀ p, IsChild i p → SlotOf l p ps) (hlast : turns path k (i + 1) ≤ l.length + 1) :
    ∃ ps' cs', m.walk path k ps cs = some (ps', cs') ∧
      SlotOf l (turns path k (i + 1) - 1) cs' ∧
      (∀ p, IsChild (turns path k (i + 1) - 1) p → SlotOf l p ps') ∧
      (k = 0 → ps' = ps) := by
  induction k generalizing path i ps cs with
  | zero => exact ⟨ps, cs, rfl, hcs, hps, fun _ => rfl⟩
  | succ k ih =>
      have hturn : turns path (k + 1) (i + 1) =
          turns (path / 2) k (2 * i + 1 + path % 2 + 1) := by
        rw [turns]
        congr 1
        omega
      have hle := le_turns (path / 2) k (2 * i + 1 + path % 2 + 1)
      rw [hturn] at hlast ⊢
      have hget := List.getElem?_eq_getElem (show i < l.length by omega)
      have hcs' : SlotOf l (2 * i + 1 + path % 2)
          (if path % 2 = 1 then .right l[i] else .left l[i]) := by
        split
        · rename_i hbit
          rw [hbit]
          exact .right hget
        · rw [show path % 2 = 0 by omega]
          exact .left hget
      have hps' : ∀ p, IsChild (2 * i + 1 + path % 2) p → SlotOf l p cs := by
        intro p hp
        have : p = i := by
          unfold IsChild at hp
          omega
        exact this ▸ hcs
      obtain ⟨ps', cs', hwalk, hslot, hparent, -⟩ := ih (path / 2) hcs' hps' hlast
      refine ⟨ps', cs', ?_, hslot, hparent, fun hk => absurd hk (Nat.succ_ne_zero k)⟩
      rw [Memory.walk, hcs.read h, hget]
      exact hwalk

/-- The slot of the `n`th place. -/
theorem walk_pathTo (h : Tree m l) (hn : 0 < n) (hlen : n ≤ l.length + 1) :
    ∃ ps cs, m.walk (Memory.pathTo 0 0 n).1 (Memory.pathTo 0 0 n).2 .min .min = some (ps, cs) ∧
      SlotOf l (n - 1) cs ∧ (l = [] ∨ 0 < n - 1 → m.read ps = above l (n - 1)) := by
  have hturns : turns (Memory.pathTo 0 0 n).1 (Memory.pathTo 0 0 n).2 1 = n :=
    turns_pathTo 0 0 n hn
  obtain ⟨ps, cs, hwalk, hcs, hps, hroot⟩ :=
    walk_spec h (Memory.pathTo 0 0 n).1 (Memory.pathTo 0 0 n).2 (i := 0) .min
      (fun p hp => absurd hp.lt (Nat.not_lt_zero p)) (by rw [hturns]; exact hlen)
  rw [Nat.zero_add, hturns] at hcs hps
  refine ⟨ps, cs, hwalk, hcs, fun hcase => ?_⟩
  unfold above
  split
  · rename_i hzero
    obtain rfl : l = [] := hcase.resolve_right (by omega)
    have hk : (Memory.pathTo 0 0 n).2 = 0 := by
      rw [show n = 1 by omega, Memory.pathTo, if_pos (by omega)]
    rw [hroot hk]
    exact h.min
  · rename_i hzero
    exact (hps _ (isChild_parent (Nat.pos_of_ne_zero hzero))).read h

namespace SlotOf

variable {s : Slot A}

theorem eq_min (hs : SlotOf l n s) : s = .min ↔ n = 0 := by
  cases hs <;> simp

theorem eq_left (hs : SlotOf l n s) (h : Tree m l) (hx : l[i]? = some x) :
    s = .left x ↔ n = 2 * i + 1 := by
  cases hs with
  | min => simp
  | left ha =>
      rw [Slot.left.injEq, h.eq_iff ha hx]
      omega
  | right ha =>
      simp only [reduceCtorEq, false_iff]
      omega

theorem eq_right (hs : SlotOf l n s) (h : Tree m l) (hx : l[i]? = some x) :
    s = .right x ↔ n = 2 * i + 2 := by
  cases hs with
  | min => simp
  | left ha =>
      simp only [reduceCtorEq, false_iff]
      omega
  | right ha =>
      rw [Slot.right.injEq, h.eq_iff ha hx]
      omega

/-- A slot is in a node of the heap. -/
theorem mem (hs : SlotOf l n s) (hx : s = .left x ∨ s = .right x) : x ∈ l := by
  cases hs with
  | min => simp at hx
  | left ha =>
      simp only [Slot.left.injEq, reduceCtorEq, or_false] at hx
      exact hx ▸ List.mem_of_getElem? ha
  | right ha =>
      simp only [Slot.right.injEq, reduceCtorEq, false_or] at hx
      exact hx ▸ List.mem_of_getElem? ha

end SlotOf

theorem getElem?_concat (l : List A) (a : A) (j : Nat) :
    (l ++ [a])[j]? = if j = l.length then some a else l[j]? := by
  split
  · rename_i hj
    rw [hj, List.getElem?_concat_length]
  · rename_i hj
    rw [List.getElem?_append]
    split
    · rfl
    · rw [List.getElem?_eq_none (by simp; omega), List.getElem?_eq_none (by omega)]

section Link

variable [DecidableEq A] {s : Slot A} {v : Option A}

@[simp] theorem write_left :
    (m.write s v).left x = if s = .left x then v else m.left x := by
  cases s <;> simp [Memory.write, eq_comm]

@[simp] theorem write_right :
    (m.write s v).right x = if s = .right x then v else m.right x := by
  cases s <;> simp [Memory.write, eq_comm]

@[simp] theorem write_parent : (m.write s v).parent = m.parent := by
  cases s <;> rfl

@[simp] theorem write_min : (m.write s v).min = if s = .min then v else m.min := by
  cases s <;> rfl

@[simp] theorem write_nelts : (m.write s v).nelts = m.nelts := by
  cases s <;> rfl

theorem frame_write (hs : SlotOf l n s) (hx : x ∉ l) : SameAt m (m.write s v) x := by
  refine ⟨?_, ?_, congrFun write_parent x⟩
  · rw [write_left, if_neg fun hleft => hx (hs.mem (.inl hleft))]
  · rw [write_right, if_neg fun hright => hx (hs.mem (.inr hright))]

/-- A node is linked in the slot after the last. -/
theorem Tree.link (h : Tree m l) (ha : a ∉ l) (hs : SlotOf l l.length s)
    (hleft : m.left a = none) (hright : m.right a = none)
    (hparent : m.parent a = above l l.length) :
    Tree { m.write s (some a) with nelts := m.nelts + 1 } (l ++ [a]) := by
  have cases : ∀ i x, (l ++ [a])[i]? = some x →
      i = l.length ∧ x = a ∨ i < l.length ∧ x ∈ l ∧ l[i]? = some x := by
    intro i x hx
    rw [getElem?_concat] at hx
    split at hx
    · rename_i hi
      exact .inl ⟨hi, (Option.some.inj hx).symm⟩
    · exact .inr ⟨(List.getElem?_eq_some_iff.mp hx).1, List.mem_of_getElem? hx, hx⟩
  constructor
  · exact (List.perm_append_singleton a l).nodup_iff.mpr (List.nodup_cons.mpr ⟨ha, h.nodup⟩)
  · simp [h.nelts]
  · simp only [write_min, hs.eq_min, getElem?_concat, h.min, eq_comm]
  · intro i x hx
    rcases cases i x hx with ⟨rfl, rfl⟩ | ⟨hlt, hmem, hold⟩
    · rw [getElem?_concat, if_neg (by omega), List.getElem?_eq_none (by omega)]
      simp only [write_left, if_neg fun hx => ha (hs.mem (.inl hx)), hleft]
    · simp only [write_left, hs.eq_left h hold, getElem?_concat, h.left i x hold, eq_comm]
  · intro i x hx
    rcases cases i x hx with ⟨rfl, rfl⟩ | ⟨hlt, hmem, hold⟩
    · rw [getElem?_concat, if_neg (by omega), List.getElem?_eq_none (by omega)]
      simp only [write_right, if_neg fun hx => ha (hs.mem (.inr hx)), hright]
    · simp only [write_right, hs.eq_right h hold, getElem?_concat, h.right i x hold, eq_comm]
  · intro i x hx
    have habove : i ≤ l.length → above (l ++ [a]) i = above l i := by
      intro hi
      unfold above
      split
      · rfl
      · have := (isChild_parent (show 0 < i by omega)).lt
        rw [getElem?_concat, if_neg (by omega)]
    rcases cases i x hx with ⟨rfl, rfl⟩ | ⟨hlt, hmem, hold⟩
    · rw [habove (Nat.le_refl _)]
      simp only [write_parent, hparent]
    · rw [habove (by omega)]
      simp only [write_parent, h.parent i x hold]

/-- The last node is unlinked. -/
theorem Tree.unlink (h : Tree m (l ++ [b])) (hs : SlotOf (l ++ [b]) l.length s) :
    Tree ({ m with nelts := m.nelts - 1 }.write s none) l := by
  have get : ∀ j : Nat, l[j]? = if l.length = j then none else (l ++ [b])[j]? := by
    intro j
    rw [getElem?_concat]
    split
    · rw [List.getElem?_eq_none (by omega)]
    · rw [if_neg (Ne.symm (by assumption))]
  have old : ∀ {i : Nat} {x : A}, l[i]? = some x → (l ++ [b])[i]? = some x := by
    intro i x hx
    have hlt := (List.getElem?_eq_some_iff.mp hx).1
    rw [getElem?_concat, if_neg (by omega), hx]
  constructor
  · exact h.nodup.sublist (List.sublist_append_left l [b])
  · simp [h.nelts]
  · simp only [write_min, hs.eq_min, get 0, h.min]
  · intro i x hx
    simp only [write_left, hs.eq_left h (old hx), get (2 * i + 1), h.left i x (old hx)]
  · intro i x hx
    simp only [write_right, hs.eq_right h (old hx), get (2 * i + 2), h.right i x (old hx)]
  · intro i x hx
    have hlt := (List.getElem?_eq_some_iff.mp hx).1
    simp only [write_parent, h.parent i x (old hx), above]
    split
    · rfl
    · have := (isChild_parent (show 0 < i by omega)).lt
      rw [getElem?_concat, if_neg (by omega)]

omit [DecidableEq A] in
theorem getElem?_set_eq (hi : i < l.length) (b : A) (j : Nat) :
    (l.set i b)[j]? = if j = i then some b else l[j]? := by
  by_cases hj : j = i
  · rw [hj, List.getElem?_set_self hi, if_pos rfl]
  · rw [List.getElem?_set_ne (Ne.symm hj), if_neg hj]

/-- `b` takes the place of `a`. -/
def substitute (m : Memory A) (a b : A) : Memory A :=
  let m := ((m.setLeft b (m.left a)).setRight b (m.right a)).setParent b (m.parent a)
  let m := m.adopt (m.left b) (some b)
  let m := m.adopt (m.right b) (some b)
  m.replace (m.parent a) a (some b)

theorem substitute_parent (x : A) :
    (substitute m a b).parent x =
      if m.right a = some x ∨ m.left a = some x then some b
      else if x = b then m.parent a else m.parent x := by
  by_cases hr : m.right a = some x <;> by_cases hl : m.left a = some x <;>
    simp [substitute, hr, hl]

section Substitute

variable (h : Tree m l) (ha : l[n]? = some a) (hb : b ∉ l)
include h ha hb

theorem substitute_left (x : A) :
    (substitute m a b).left x =
      if x = b then m.left a
      else if m.parent a = some x ∧ m.left x = some a then some b else m.left x := by
  have hab : a ≠ b := fun hab => hb (hab ▸ List.mem_of_getElem? ha)
  have hself : ¬ m.left a = some a := by
    rw [h.left_eq_some ha ha]
    omega
  have hself' : ¬ m.right a = some a := by
    rw [h.right_eq_some ha ha]
    omega
  have hpb : ¬ m.parent a = some b := fun hpar => hb (h.parent_mem ha hpar)
  by_cases hx : x = b
  · simp [substitute, hx, hab, hself, hself', hpb]
  · simp [substitute, hx, hab, hself, hself']

theorem substitute_right (x : A) :
    (substitute m a b).right x =
      if x = b then m.right a
      else if m.parent a = some x ∧ m.left x ≠ some a then some b else m.right x := by
  have hab : a ≠ b := fun hab => hb (hab ▸ List.mem_of_getElem? ha)
  have hself : ¬ m.left a = some a := by
    rw [h.left_eq_some ha ha]
    omega
  have hself' : ¬ m.right a = some a := by
    rw [h.right_eq_some ha ha]
    omega
  have hpb : ¬ m.parent a = some b := fun hpar => hb (h.parent_mem ha hpar)
  by_cases hx : x = b
  · simp [substitute, hx, hab, hself, hself', hpb]
  · simp [substitute, hx, hab, hself, hself']

theorem substitute_min :
    (substitute m a b).min = if m.parent a = none then some b else m.min := by
  have hab : a ≠ b := fun hab => hb (hab ▸ List.mem_of_getElem? ha)
  have hself : ¬ m.left a = some a := by
    rw [h.left_eq_some ha ha]
    omega
  have hself' : ¬ m.right a = some a := by
    rw [h.right_eq_some ha ha]
    omega
  simp [substitute, hab, hself, hself']

omit [DecidableEq A] h in
theorem set_cases (hx : (l.set n b)[i]? = some x) :
    i = n ∧ x = b ∨ i ≠ n ∧ x ≠ b ∧ l[i]? = some x := by
  rw [getElem?_set_eq (List.getElem?_eq_some_iff.mp ha).1] at hx
  split at hx
  · rename_i hi
    exact .inl ⟨hi, (Option.some.inj hx).symm⟩
  · rename_i hi
    exact .inr ⟨hi, fun hxb => hb (hxb ▸ List.mem_of_getElem? hx), hx⟩

theorem Tree.substitute : Tree (substitute m a b) (l.set n b) := by
  have hlen := (List.getElem?_eq_some_iff.mp ha).1
  have get := getElem?_set_eq hlen b
  have hpar : ∀ {i x}, l[i]? = some x → (m.parent a = some x ↔ IsChild n i) :=
    fun hx => h.parent_eq_some ha hx
  constructor
  · exact List.Nodup.set h.nodup hb
  · simp [Heap.substitute, h.nelts]
  · rw [substitute_min h ha hb, h.parent n a ha, get, above, h.min]
    by_cases hn : n = 0
    · rw [if_pos hn, if_pos rfl, if_pos hn.symm]
    · have hup := (isChild_parent (Nat.pos_of_ne_zero hn)).lt
      rw [if_neg hn, if_neg (Ne.symm hn),
        List.getElem?_eq_getElem (show BinaryHeap.parent n < l.length by omega),
        if_neg (Option.some_ne_none _)]
  · intro i x hx
    rw [substitute_left h ha hb, get]
    rcases set_cases ha hb hx with ⟨rfl, rfl⟩ | ⟨hin, hxb, hold⟩
    · rw [if_pos rfl, if_neg (by omega), h.left i a ha]
    · simp only [if_neg hxb, hpar hold, h.left_eq_some hold ha]
      by_cases hchild : n = 2 * i + 1
      · rw [if_pos ⟨.inl hchild, hchild⟩, if_pos hchild.symm]
      · rw [if_neg fun hand => hchild hand.2, if_neg (Ne.symm hchild), h.left i x hold]
  · intro i x hx
    rw [substitute_right h ha hb, get]
    rcases set_cases ha hb hx with ⟨rfl, rfl⟩ | ⟨hin, hxb, hold⟩
    · rw [if_pos rfl, if_neg (by omega), h.right i a ha]
    · simp only [if_neg hxb, hpar hold, Ne, h.left_eq_some hold ha]
      by_cases hchild : n = 2 * i + 2
      · rw [if_pos ⟨.inr hchild, by omega⟩, if_pos hchild.symm]
      · rw [if_neg fun hand => hand.1.elim hand.2 hchild, if_neg (Ne.symm hchild),
          h.right i x hold]
  · intro i x hx
    rw [substitute_parent, above]
    rcases set_cases ha hb hx with ⟨rfl, rfl⟩ | ⟨hin, hxb, hold⟩
    · rw [if_neg fun hor => hb (hor.elim (h.right_mem ha) (h.left_mem ha)), if_pos rfl,
        h.parent i a ha, above]
      split
      · rfl
      · have hup := (isChild_parent (show 0 < i by omega)).lt
        rw [get, if_neg (by omega)]
    · simp only [h.right_eq_some ha hold, h.left_eq_some ha hold, if_neg hxb, h.parent i x hold,
        above, get]
      by_cases hi : i = 0
      · rw [if_neg (by omega), if_pos hi, if_pos hi]
      · have hup := isChild_parent (Nat.pos_of_ne_zero hi)
        rw [if_neg hi, if_neg hi]
        by_cases hpn : BinaryHeap.parent i = n
        · have hchild : IsChild i n := hpn ▸ hup
          rw [if_pos hchild.symm, if_pos hpn]
        · rw [if_neg fun hor => hpn (IsChild.parent_eq hor.symm), if_neg hpn]

theorem frame_substitute (hx : x ∉ l) (hxb : x ≠ b) : SameAt m (substitute m a b) x := by
  have hparent : ¬ m.parent a = some x := fun hpar => hx (h.parent_mem ha hpar)
  constructor
  · rw [substitute_left h ha hb, if_neg hxb, if_neg fun hand => hparent hand.1]
  · rw [substitute_right h ha hb, if_neg hxb, if_neg fun hand => hparent hand.1]
  · rw [substitute_parent, if_neg fun hor => hx (hor.elim (h.right_mem ha) (h.left_mem ha)),
      if_neg hxb]

omit h hb in
theorem set_perm_erase (b : A) : (l.set n b).Perm (b :: l.erase a) := by
  obtain ⟨hlen, rfl⟩ := List.getElem?_eq_some_iff.mp ha
  refine (List.set_perm_cons_eraseIdx hlen b).trans (List.Perm.cons b ?_)
  exact ((List.getElem_cons_eraseIdx_perm hlen).trans
    (List.perm_cons_erase (List.getElem_mem hlen))).cons_inv

end Substitute

section Operations

variable {κ : Type} [LinearOrder κ] {key : A → κ} {lessThan : A → A → Bool}
  (hless : ∀ a b, lessThan a b = true ↔ key a < key b)
include hless

/-- `heap_insert` puts one node into the heap. -/
theorem insert_spec (h : Tree m l) (hl : Ordered key l) (ha : a ∉ l) :
    ∃ m' l', m.insert lessThan a = some m' ∧ Moved m (a :: l) m' l' ∧ Ordered key l' := by
  generalize hclear : ((m.setLeft a none).setRight a none).setParent a none = m₀
  have hsame : ∀ x, x ≠ a → SameAt m m₀ x := by
    intro x hx
    subst hclear
    constructor <;> simp [hx]
  have htree : Tree m₀ l :=
    h.of_same (by subst hclear; rfl) (by subst hclear; rfl)
      fun x hx => hsame x fun hxa => ha (hxa ▸ hx)
  obtain ⟨ps, cs, hwalk, hcs, hps⟩ :=
    walk_pathTo htree (n := 1 + m₀.nelts) (by omega) (by rw [htree.nelts]; omega)
  have hlen : 1 + m₀.nelts - 1 = l.length := by rw [htree.nelts]; omega
  rw [hlen] at hcs hps
  replace hps := hps (by cases l <;> simp)
  generalize hparent : m₀.setParent a (m₀.read ps) = m₁
  have hsame₁ : ∀ x, x ≠ a → SameAt m₀ m₁ x := by
    intro x hx
    subst hparent
    constructor <;> simp [hx]
  have htree₁ : Tree m₁ l :=
    htree.of_same (by subst hparent; rfl) (by subst hparent; rfl)
      fun x hx => hsame₁ x fun hxa => ha (hxa ▸ hx)
  have hlink : Tree { m₁.write cs (some a) with nelts := m₁.nelts + 1 } (l ++ [a]) := by
    refine htree₁.link ha hcs ?_ ?_ ?_
    · subst hparent hclear
      simp
    · subst hparent hclear
      simp
    · subst hparent
      simp [hps]
  obtain ⟨m', l', hm', hmoved, hord⟩ :=
    siftUp_spec hless l.length (m₁.nelts + 1) hlink (hl.concat a) (List.getElem?_concat_length ..)
      (by rw [htree₁.nelts]; omega)
  have hperm := List.perm_append_singleton a l
  refine ⟨m', l', ?_, ⟨hmoved.tree, hmoved.perm.trans hperm, ?_⟩, hord⟩
  · simp only [Memory.insert, hclear]
    rw [hwalk]
    simp only [Option.bind_some, hparent, write_nelts]
    exact hm'
  · intro x hx
    rw [List.mem_cons, not_or] at hx
    have hwrite := frame_write (m := m₁) (v := some a) hcs hx.2
    have hsifted := hmoved.frame x fun hmem =>
      (List.mem_cons.mp (hperm.mem_iff.mp hmem)).elim hx.1 hx.2
    have hlinked : SameAt m₁ { m₁.write cs (some a) with nelts := m₁.nelts + 1 } x :=
      ⟨hwrite.left, hwrite.right, hwrite.parent⟩
    exact ((hsame x hx.1).trans (hsame₁ x hx.1)).trans (hlinked.trans hsifted)

/-- `heap_remove` takes one node out of the heap. -/
theorem remove_spec (h : Tree m l) (hl : Ordered key l) (ha : a ∈ l) :
    ∃ m' l', m.remove lessThan a = some m' ∧ Tree m' l' ∧ Ordered key l' ∧
      l'.Perm (l.erase a) ∧ ∀ x, x ∉ l → SameAt m m' x := by
  obtain rfl | ⟨l, b, rfl⟩ := List.eq_nil_or_concat' l
  · cases ha
  have hnelts : m.nelts = l.length + 1 := h.nelts.trans (by simp)
  obtain ⟨ps, cs, hwalk, hcs, -⟩ := walk_pathTo h (n := m.nelts) (by omega) (by rw [h.nelts]; omega)
  rw [hnelts, Nat.add_sub_cancel] at hcs
  have hunlink := h.unlink hcs
  have hread : ({ m with nelts := m.nelts - 1 } : Memory A).read cs = some b := by
    have hb := (hcs.read h).trans (List.getElem?_concat_length ..)
    cases cs <;> exact hb
  have hframe : ∀ x, x ∉ l ++ [b] →
      SameAt m (({ m with nelts := m.nelts - 1 } : Memory A).write cs none) x := by
    intro x hx
    have hwrite := frame_write (m := { m with nelts := m.nelts - 1 }) (v := none) hcs hx
    exact ⟨hwrite.left, hwrite.right, hwrite.parent⟩
  have hb : b ∉ l := by
    have hnodup := h.nodup
    rw [List.nodup_append] at hnodup
    exact fun hmem => hnodup.2.2 b hmem b (List.mem_singleton_self b) rfl
  have hsub : Ordered key l := by
    have htake := hl.take l.length
    rwa [List.take_left'] at htake
    rfl
  generalize hm₁ : ({ m with nelts := m.nelts - 1 } : Memory A).write cs none = m₁
    at hunlink hframe
  have hstart : m.remove lessThan a =
      if b = a then some (if m₁.min = some b then { m₁ with min := none } else m₁)
      else ((substitute m₁ a b).siftDown lessThan b (substitute m₁ a b).nelts).bind
        (Memory.siftUp lessThan b (substitute m₁ a b).nelts) := by
    rw [Memory.remove, if_neg (by omega)]
    simp only [hwalk, Option.bind_some, hread, hm₁]
    rfl
  rw [hstart]
  by_cases hab : b = a
  · subst hab
    refine ⟨m₁, l, ?_, hunlink, hsub, ?_, hframe⟩
    · have hmin : ¬ m₁.min = some b := by
        rw [hunlink.min]
        exact fun hmin => hb (List.mem_of_getElem? hmin)
      rw [if_pos rfl, if_neg hmin]
    · rw [List.erase_append_right _ hb, List.erase_cons_head, List.append_nil]
  · rw [if_neg hab]
    have ha' : a ∈ l := by
      simpa [Ne.symm hab] using ha
    obtain ⟨r, hr⟩ := List.getElem?_of_mem ha'
    have hrlen := (List.getElem?_eq_some_iff.mp hr).1
    have hsubst := hunlink.substitute hr hb
    have hnelts' : (substitute m₁ a b).nelts = l.length := by
      rw [hsubst.nelts, List.length_set]
    obtain ⟨m₂, l₂, j, hdown, hmoved, hup, hj⟩ := siftDown_spec hless (l.length - r - 1) r
      (substitute m₁ a b).nelts hsubst ((hsub.hole r).set b) (by rw [getElem?_set_eq hrlen, if_pos rfl])
      (by rw [List.length_set]; omega) (by omega)
    have hjlen := (List.getElem?_eq_some_iff.mp hj).1
    have hlen₂ : l₂.length = l.length := hmoved.perm.length_eq.trans List.length_set
    obtain ⟨m', l', hm', hmoved', hord⟩ := siftUp_spec hless j (substitute m₁ a b).nelts
      hmoved.tree hup hj (by omega)
    have hall := hmoved.trans hmoved'
    refine ⟨m', l', ?_, hall.tree, hord, hall.perm.trans ?_, ?_⟩
    · rw [hdown, Option.bind_some, hm']
    · rw [List.erase_append_left _ ha']
      exact (set_perm_erase hr b).trans (List.perm_append_singleton b _).symm
    · intro x hx
      rw [List.mem_append, List.mem_singleton, not_or] at hx
      have hset : x ∉ l.set r b := fun hmem =>
        (List.mem_or_eq_of_mem_set hmem).elim hx.1 hx.2
      exact ((hframe x (by simp [hx])).trans (frame_substitute hunlink hr hb hx.1 hx.2)).trans
        (hall.frame x hset)

end Operations

end Link

end HxcppLuv.Heap
