import HxcppLuv.Heap.Sift
import Mathlib.Data.List.Chain
import Mathlib.Data.List.Nodup

/-!
A queue of libuv is a ring of its head and its nodes, and its functions do on the ring what they
should do on the list of the nodes.
-/

namespace HxcppLuv.Heap

variable {A : Type} {m m' : Memory A} {h q p n x : A} {l r : List A}

/-- One node is next to another. -/
structure Next (m : Memory A) (a b : A) : Prop where
  next : m.left a = some b
  prev : m.right b = some a

/-- The ring of a head and its nodes. -/
structure Ring (m : Memory A) (h : A) (l : List A) : Prop where
  nodup : (h :: l).Nodup
  chain : List.IsChain (Next m) (h :: (l ++ [h]))

/-- A chain is where its nodes are; its first has no node before and its last none after. -/
theorem chain_of_same {l : List A} (hl : List.IsChain (Next m) l)
    (hleft : ∀ a, a ∈ l.dropLast → m'.left a = m.left a)
    (hright : ∀ b, b ∈ l.tail → m'.right b = m.right b) : List.IsChain (Next m') l := by
  induction l with
  | nil => exact .nil
  | cons a l ih =>
      cases l with
      | nil => exact .singleton a
      | cons b l =>
          rw [List.isChain_cons_cons] at hl ⊢
          refine ⟨⟨?_, ?_⟩, ih hl.2 ?_ ?_⟩
          · rw [hleft a List.mem_cons_self, hl.1.next]
          · rw [hright b List.mem_cons_self, hl.1.prev]
          · exact fun c hc => hleft c (List.mem_cons_of_mem a hc)
          · exact fun c hc => hright c (List.mem_cons_of_mem b hc)

/-- The queues do not touch the heap they share their nodes with. -/
theorem queueRemove_heap [DecidableEq A] (hm : m.queueRemove q = some m') :
    m'.min = m.min ∧ m'.nelts = m.nelts := by
  obtain ⟨p, -, hp⟩ := Option.bind_eq_some_iff.mp hm
  obtain ⟨n, -, hn⟩ := Option.bind_eq_some_iff.mp hp
  cases hn
  exact ⟨rfl, rfl⟩

theorem insertTail_heap [DecidableEq A] (hm : m.insertTail h q = some m') :
    m'.min = m.min ∧ m'.nelts = m.nelts := by
  obtain ⟨p, -, hp⟩ := Option.bind_eq_some_iff.mp hm
  cases hp
  exact ⟨rfl, rfl⟩

namespace Ring

theorem of_same (hr : Ring m h l) (hsame : ∀ x, x ∈ h :: l → SameAt m m' x) : Ring m' h l where
  nodup := hr.nodup
  chain := by
    refine chain_of_same hr.chain ?_ ?_
    · intro a ha
      rw [← List.cons_append, List.dropLast_concat] at ha
      exact (hsame a ha).left
    · intro b hb
      rw [List.tail_cons, List.mem_append, List.mem_singleton] at hb
      exact (hsame b (List.mem_cons.mpr hb.symm)).right

theorem head (hr : Ring m h l) : m.left h = some (l.head?.getD h) := by
  have hchain := hr.chain
  cases l with
  | nil => exact (List.isChain_pair.mp hchain).next
  | cons a l => exact (List.isChain_cons_cons.mp hchain).1.next

theorem last (hr : Ring m h l) : m.right h = some (l.getLast?.getD h) := by
  have hchain := hr.chain
  obtain rfl | ⟨l, a, rfl⟩ := List.eq_nil_or_concat' l
  · exact (List.isChain_pair.mp hchain).prev
  · rw [List.append_assoc] at hchain
    rw [List.getLast?_concat, Option.getD_some]
    exact ((List.isChain_cons_append_cons_cons).mp hchain).2.1.prev

variable [DecidableEq A]

theorem queueInit (m : Memory A) (h : A) : Ring (m.queueInit h) h [] where
  nodup := List.nodup_singleton h
  chain := by
    refine List.isChain_pair.mpr ⟨?_, ?_⟩ <;> simp [Memory.queueInit]

theorem frame_queueInit (hx : x ≠ h) : SameAt m (m.queueInit h) x := by
  constructor <;> simp [Memory.queueInit, hx]

/-- A node that is in no queue is not changed by `uv__queue_init`. -/
theorem queueInit_alone (hr : Ring m h []) : m.queueInit h = m := by
  have hlink := List.isChain_pair.mp hr.chain
  have hleft : m.setLeft h (some h) = m := by
    rw [← hlink.next, Memory.setLeft, Function.update_eq_self]
  have hright : m.setRight h (some h) = m := by
    rw [← hlink.prev, Memory.setRight, Function.update_eq_self]
  rw [Memory.queueInit, hleft, hright]

theorem queueEmpty (hr : Ring m h l) : m.queueEmpty h = l.isEmpty := by
  unfold Memory.queueEmpty
  rw [hr.head]
  cases l with
  | nil => simp
  | cons a l =>
      have hne : a ≠ h := fun hah => (List.nodup_cons.mp hr.nodup).1 (hah ▸ List.mem_cons_self)
      simp [hne]

/-- `uv__queue_insert_tail`. -/
theorem insertTail (hr : Ring m h l) (hq : q ∉ h :: l) :
    ∃ m', m.insertTail h q = some m' ∧ Ring m' h (l ++ [q]) ∧
      ∀ x, x ∉ h :: q :: l → SameAt m m' x := by
  obtain ⟨L, p, hL⟩ : ∃ L p, h :: l = L ++ [p] :=
    (List.eq_nil_or_concat' (h :: l)).resolve_left (List.cons_ne_nil h l)
  have hmem : p ∈ h :: l := hL ▸ List.mem_append_right L (List.mem_singleton_self p)
  have hpq : p ≠ q := fun hpq => hq (hpq ▸ hmem)
  have hhq : h ≠ q := fun hhq => hq (hhq ▸ List.mem_cons_self)
  have hnodup := hr.nodup
  have hchain := hr.chain
  rw [← List.cons_append, hL, List.append_assoc, List.singleton_append,
    List.isChain_append_cons_cons] at hchain
  obtain ⟨hold, hlink, -⟩ := hchain
  have hq' : m.right h = some p := hlink.prev
  refine ⟨(((m.setLeft q (some h)).setRight q (m.right h)).setLeft p (some q)).setRight h (some q),
    ?_, ⟨?_, ?_⟩, ?_⟩
  · simp [Memory.insertTail, hq']
  · rw [← List.cons_append]
    exact (List.perm_append_singleton q (h :: l)).nodup_iff.mpr (List.nodup_cons.mpr ⟨hq, hnodup⟩)
  · rw [← List.cons_append, ← List.cons_append, hL, List.append_assoc, List.append_assoc,
      List.singleton_append, List.singleton_append, List.isChain_append_cons_cons]
    refine ⟨chain_of_same hold ?_ ?_, ⟨?_, ?_⟩, List.isChain_pair.mpr ⟨?_, ?_⟩⟩
    · intro a ha
      rw [List.dropLast_concat] at ha
      rw [hL, List.nodup_append] at hnodup
      have hap : a ≠ p := hnodup.2.2 a ha p (List.mem_singleton_self p)
      have haq : a ≠ q := fun haq => hq (haq ▸ hL ▸ List.mem_append_left [p] ha)
      simp [hap, haq]
    · intro b hb
      rw [← hL, List.tail_cons] at hb
      have hbh : b ≠ h := fun hbh => (List.nodup_cons.mp hnodup).1 (hbh ▸ hb)
      have hbq : b ≠ q := fun hbq => hq (hbq ▸ List.mem_cons_of_mem h hb)
      simp [hbh, hbq]
    · simp
    · simp [hhq.symm, hq']
    · simp [hpq.symm]
    · simp
  · intro x hx
    rw [List.mem_cons, List.mem_cons, not_or, not_or] at hx
    have hxp : x ≠ p := by
      rintro rfl
      exact (List.mem_cons.mp hmem).elim hx.1 hx.2.2
    constructor <;> simp [hx, hxp]

/-- `uv__queue_remove` of a node of a queue. -/
theorem queueRemove (hr : Ring m h (l ++ q :: r)) :
    ∃ m', m.queueRemove q = some m' ∧ Ring m' h (l ++ r) ∧
      ∀ x, x ∉ h :: (l ++ r) → SameAt m m' x := by
  obtain ⟨L, p, hL⟩ : ∃ L p, h :: l = L ++ [p] :=
    (List.eq_nil_or_concat' (h :: l)).resolve_left (List.cons_ne_nil h l)
  obtain ⟨n, R, hR⟩ : ∃ n R, r ++ [h] = n :: R :=
    List.exists_cons_of_ne_nil (List.append_ne_nil_of_right_ne_nil r (List.cons_ne_nil h []))
  have hp : p ∈ h :: l := hL ▸ List.mem_append_right L (List.mem_singleton_self p)
  have hn : n ∈ r ++ [h] := hR ▸ List.mem_cons_self
  have hnodup : ((h :: l) ++ q :: r).Nodup := hr.nodup
  have hmid := List.nodup_middle.mp hnodup
  have hchain : List.IsChain (Next m) (L ++ p :: q :: n :: R) := by
    have hfull := hr.chain
    rwa [List.append_assoc, List.cons_append, hR, ← List.cons_append, hL, List.append_assoc,
      List.singleton_append] at hfull
  rw [List.isChain_append_cons_cons, List.isChain_cons_cons] at hchain
  obtain ⟨hbefore, hpq, hqn, hafter⟩ := hchain
  rw [List.nodup_cons, List.mem_append, not_or] at hmid
  obtain ⟨⟨hql, hqr⟩, hnodup'⟩ := hmid
  rw [List.nodup_append] at hnodup'
  obtain ⟨hnl, hnr, hdisj⟩ := hnodup'
  refine ⟨(m.setLeft p (m.left q)).setRight n (m.right q), ?_, ⟨?_, ?_⟩, ?_⟩
  · simp [Memory.queueRemove, hpq.prev, hqn.next]
  · rw [← List.cons_append]
    exact List.nodup_append.mpr ⟨hnl, hnr, hdisj⟩
  · rw [List.append_assoc, hR, ← List.cons_append, hL, List.append_assoc, List.singleton_append,
      List.isChain_append_cons_cons]
    refine ⟨chain_of_same hbefore ?_ ?_, ⟨?_, ?_⟩, chain_of_same hafter ?_ ?_⟩
    · intro a ha
      rw [List.dropLast_concat] at ha
      rw [hL, List.nodup_append] at hnl
      have hap : a ≠ p := hnl.2.2 a ha p (List.mem_singleton_self p)
      simp [hap]
    · intro b hb
      rw [← hL, List.tail_cons] at hb
      have hbn : b ≠ n := by
        rintro rfl
        rcases List.mem_append.mp hn with hbr | hbh
        · exact hdisj b (List.mem_cons_of_mem h hb) b hbr rfl
        · exact (List.nodup_cons.mp hnl).1 (List.mem_singleton.mp hbh ▸ hb)
      simp [hbn]
    · simp [hqn.next]
    · simp [hpq.prev]
    · intro a ha
      rw [← hR, List.dropLast_concat] at ha
      have hap : a ≠ p := fun hap => hdisj p hp a ha hap.symm
      simp [hap]
    · intro b hb
      rw [List.tail_cons] at hb
      have hbn : b ≠ n := by
        rintro rfl
        have hring : (r ++ [h]).Nodup :=
          List.nodup_append.mpr ⟨hnr, List.nodup_cons.mpr ⟨List.not_mem_nil, List.nodup_nil⟩,
            fun a ha c hc => List.mem_singleton.mp hc ▸ (hdisj h List.mem_cons_self a ha).symm⟩
        rw [hR] at hring
        exact (List.nodup_cons.mp hring).1 hb
      simp [hbn]
  · intro x hx
    rw [← List.cons_append, List.mem_append, not_or] at hx
    have hxp : x ≠ p := fun hxp => hx.1 (hxp ▸ hp)
    have hxn : x ≠ n := by
      rintro rfl
      exact (List.mem_append.mp hn).elim hx.2 fun hxh =>
        hx.1 (List.mem_singleton.mp hxh ▸ List.mem_cons_self)
    constructor <;> simp [hxp, hxn]

/-- `uv__queue_remove` of a node that is in no queue. -/
theorem queueRemove_alone (hr : Ring m q []) : m.queueRemove q = some m := by
  have hlink := List.isChain_pair.mp hr.chain
  have hleft : m.setLeft q (m.left q) = m := by
    rw [Memory.setLeft, Function.update_eq_self]
  have hright : m.setRight q (m.right q) = m := by
    rw [Memory.setRight, Function.update_eq_self]
  rw [Memory.queueRemove, hlink.prev, Option.bind_some, hleft]
  show ((m.left q).bind fun n => some (m.setRight n (m.right q))) = some m
  rw [hlink.next, Option.bind_some, hright]

end Ring

end HxcppLuv.Heap
