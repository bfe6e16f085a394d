import HxcppLuv.Core.Machine
import HxcppLuv.Heap.Update

/-!
What a heap is for: under any sequence of calls it holds the nodes that were inserted and not
removed, with the least at its root.
-/

namespace HxcppLuv.Heap

open BinaryHeap

variable {A κ : Type} [DecidableEq A] [LinearOrder κ]

/-- A node gets its key before it is inserted. -/
inductive Call (A κ : Type) where
  | insert (a : A) (k : κ)
  | remove (a : A)

/-- The nodes that should be in the heap. -/
structure Contents (A κ : Type) where
  key : A → κ
  nodes : List A

namespace Contents

/-- Callers insert what is not in the heap, and remove what is. -/
def step (c : Contents A κ) : Call A κ → Option (Contents A κ)
  | .insert a k =>
      if a ∉ c.nodes then some ⟨Function.update c.key a k, a :: c.nodes⟩ else none
  | .remove a => if a ∈ c.nodes then some { c with nodes := c.nodes.erase a } else none

end Contents

structure Store (A κ : Type) where
  key : A → κ
  memory : Memory A

namespace Store

def lessThan (s : Store A κ) (a b : A) : Bool := decide (s.key a < s.key b)

omit [DecidableEq A] in
theorem lessThan_iff (s : Store A κ) (a b : A) : s.lessThan a b = true ↔ s.key a < s.key b :=
  decide_eq_true_iff

def step (s : Store A κ) : Call A κ → Option (Store A κ)
  | .insert a k =>
      let s := { s with key := Function.update s.key a k }
      (s.memory.insert s.lessThan a).map fun m => { s with memory := m }
  | .remove a => (s.memory.remove s.lessThan a).map fun m => { s with memory := m }

end Store

def contents (key : A → κ) : Machine (Contents A κ) (Call A κ) := ⟨⟨key, []⟩, Contents.step⟩

/-- A heap from `heap_init` on, in any memory. -/
def heap (key : A → κ) (m : Memory A) : Machine (Store A κ) (Call A κ) :=
  ⟨⟨key, m.heapInit⟩, Store.step⟩

/-- The links are those of a complete binary tree of the nodes, in order. -/
structure Holds (c : Contents A κ) (s : Store A κ) : Prop where
  key : s.key = c.key
  levels : ∃ l, l.Perm c.nodes ∧ Tree s.memory l ∧ Ordered c.key l

namespace Holds

variable {c c' : Contents A κ} {s : Store A κ} {a : A}

omit [DecidableEq A] in
theorem nelts (h : Holds c s) : s.memory.nelts = c.nodes.length := by
  obtain ⟨l, hperm, htree, -⟩ := h.levels
  rw [htree.nelts, hperm.length_eq]

omit [DecidableEq A] in
theorem min_none (h : Holds c s) : s.memory.min = none ↔ c.nodes = [] := by
  obtain ⟨l, hperm, htree, -⟩ := h.levels
  rw [htree.min, List.getElem?_eq_none_iff, Nat.le_zero, hperm.length_eq, List.length_eq_zero_iff]

omit [DecidableEq A] in
theorem min_le (h : Holds c s) (ha : s.memory.min = some a) :
    a ∈ c.nodes ∧ ∀ b ∈ c.nodes, c.key a ≤ c.key b := by
  obtain ⟨l, hperm, htree, hord⟩ := h.levels
  have hroot := htree.min.symm.trans ha
  refine ⟨hperm.mem_iff.mp (List.mem_of_getElem? hroot), fun b hb => ?_⟩
  obtain ⟨i, hi⟩ := List.getElem?_of_mem (hperm.mem_iff.mpr hb)
  exact hord.root_le hroot i b hi

theorem step {call : Call A κ} (h : Holds c s) (hc : c.step call = some c') :
    ∃ s', s.step call = some s' ∧ Holds c' s' := by
  obtain ⟨l, hperm, htree, hord⟩ := h.levels
  rw [← h.key] at hord
  cases call with
  | insert a k =>
      obtain ⟨ha, rfl⟩ := Machine.of_guard hc
      have hal : a ∉ l := fun hmem => ha (hperm.mem_iff.mp hmem)
      have hord' : Ordered (Function.update s.key a k) l := by
        refine hord.congr fun x hx => Function.update_of_ne ?_ ..
        exact fun hxa => hal (hxa ▸ hx)
      obtain ⟨m', l', hm', hmoved, hl'⟩ := insert_spec
        (Store.lessThan_iff ⟨Function.update s.key a k, s.memory⟩) htree hord' hal
      refine ⟨⟨Function.update s.key a k, m'⟩, ?_, by rw [h.key], l',
        hmoved.perm.trans (hperm.cons a), hmoved.tree, h.key ▸ hl'⟩
      rw [Store.step, hm', Option.map_some]
  | remove a =>
      obtain ⟨ha, rfl⟩ := Machine.of_guard hc
      obtain ⟨m', l', hm', htree', hl', hperm', -⟩ :=
        remove_spec s.lessThan_iff htree hord (hperm.mem_iff.mpr ha)
      refine ⟨⟨s.key, m'⟩, ?_, h.key, l', hperm'.trans (hperm.erase a), htree', h.key ▸ hl'⟩
      rw [Store.step, hm', Option.map_some]

omit [DecidableEq A] in
theorem init (key : A → κ) (m : Memory A) : Holds ⟨key, []⟩ ⟨key, m.heapInit⟩ where
  key := rfl
  levels := by
    refine ⟨[], List.Perm.refl [], ⟨List.nodup_nil, rfl, rfl, ?_, ?_, ?_⟩, ?_⟩
    · exact fun i a ha => nomatch ha
    · exact fun i a ha => nomatch ha
    · exact fun i a ha => nomatch ha
    · exact fun i p a b _ ha => nomatch ha

end Holds

/-- No call follows a null pointer, and after each the heap holds what it should. -/
theorem heap_holds (key : A → κ) (m : Memory A) (calls : List (Call A κ)) {c : Contents A κ}
    (hrun : (contents key).run (contents key).init calls = some c) :
    ∃ s, (heap key m).run (heap key m).init calls = some s ∧ Holds c s ∧
      s.memory.nelts = c.nodes.length ∧ (s.memory.min = none ↔ c.nodes = []) ∧
      ∀ a, s.memory.min = some a → a ∈ c.nodes ∧ ∀ b ∈ c.nodes, c.key a ≤ c.key b := by
  obtain ⟨s, hs, hholds⟩ := Machine.simulates (M := contents key) (N := heap key m) (R := Holds)
    (fun c s call c' h hc => h.step hc) (Holds.init key m) hrun
  exact ⟨s, hs, hholds, hholds.nelts, hholds.min_none, fun a ha => hholds.min_le ha⟩

/-- The last of three is first; when it is removed, the least of the others is. -/
theorem heap_holds_three :
    ∃ s, (heap (fun _ => 0) blank).run (heap (fun _ => 0) blank).init
        [.insert 1 7, .insert 2 5, .insert 3 4, .remove 3] = some s ∧
      s.memory.min = some (2 : Nat) := by
  obtain ⟨s, hs, hholds, -, hnone, hmin⟩ := heap_holds (fun _ => 0) blank
    [.insert 1 7, .insert 2 5, .insert 3 4, .remove 3] rfl
  refine ⟨s, hs, ?_⟩
  cases ha : s.memory.min with
  | none => cases hnone.mp ha
  | some a =>
      obtain ⟨hmem, hle⟩ := hmin a ha
      rcases List.mem_cons.mp hmem with rfl | hmem
      · rfl
      · cases List.mem_singleton.mp hmem
        exact absurd (hle 2 List.mem_cons_self) (by decide)

end HxcppLuv.Heap
