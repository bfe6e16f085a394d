import HxcppLuv.Heap.Ring
import HxcppLuv.Heap.Update
import HxcppLuv.Timer.Pointers
import Mathlib.Data.Prod.Lex

/-!
Where the timers are in memory: the active ones are in the heap, in its order, those of the
ready queue in its ring, and each of the others alone. Every call of `timer.c` keeps it so and
does on the timers what the model of the bindings has for it.
-/

namespace HxcppLuv.Timer.Pointers

open BinaryHeap

variable {m : Heap.Memory Node} {s t : Timer.State} {h k : Nat} {hd : Handle}
  {out : Option Nat}

/-- What `timer_less_than` compares. -/
def key (handles : List Handle) (a : Node) : Nat ×ₗ Nat :=
  toLex ((handleAt handles a).timeout, (handleAt handles a).startId)

theorem lessThan_iff (handles : List Handle) (a b : Node) :
    lessThan handles a b = true ↔ key handles a < key handles b := by
  unfold lessThan Handle.lessThan key
  rw [Prod.Lex.lt_iff]
  simp only [ofLex_toLex]
  split
  · simp [*]
  · split
    · simp only [Bool.false_eq_true, false_iff, not_or, not_and]
      exact ⟨by assumption, fun heq => absurd heq (by omega)⟩
    · rw [decide_eq_true_iff]
      omega

theorem startId_eq {handles handles' : List Handle} {a b : Node}
    (hkey : key handles a = key handles' b) :
    (handleAt handles a).startId = (handleAt handles' b).startId :=
  congrArg (fun k => (ofLex k).2) hkey

theorem handleAt_timer (hhd : s.handles[h]? = some hd) :
    handleAt s.handles (.timer h) = hd := by
  rw [handleAt, hhd, Option.getD_some]

def active (s : Timer.State) (h : Nat) : Bool := s.handles[h]?.any Handle.active

theorem active_eq (hhd : s.handles[h]? = some hd) : active s h = hd.active := by
  rw [active, hhd, Option.any_some]

/-- The state of the pointers for a state of the timers. -/
def place (s : Timer.State) (m : Heap.Memory Node) : State :=
  ⟨s.handles, s.time, s.counter, m, s.frame, s.closing, s.aborted⟩

/-- `out` is a timer that was taken from its place and is nowhere yet. -/
structure Laid (out : Option Nat) (m : Heap.Memory Node) (s : Timer.State) : Prop where
  heap : ∃ l, Heap.Tree m l ∧ Ordered (key s.handles) l ∧
    ∀ a, a ∈ l ↔ ∃ h, a = Node.timer h ∧ active s h
  ring : Heap.Ring m .ready (s.ready.map .timer)
  waiting : ∀ h ∈ s.ready, h < s.handles.length ∧ active s h = false
  alone : ∀ h, h < s.handles.length → active s h = false → h ∉ s.ready → some h ≠ out →
    Heap.Ring m (.timer h) []
  fresh : ∀ h, active s h → (handleAt s.handles (.timer h)).startId < s.counter
  distinct : ∀ h k, active s h → active s k →
    (handleAt s.handles (.timer h)).startId = (handleAt s.handles (.timer k)).startId → h = k

namespace Laid

/-- What is not compared or counted does not matter. -/
theorem congr (hs : Laid out m s) (hlen : t.handles.length = s.handles.length)
    (hactive : ∀ h, active t h = active s h)
    (hkey : ∀ h, active s h → key t.handles (.timer h) = key s.handles (.timer h))
    (hready : t.ready = s.ready) (hcounter : t.counter = s.counter) : Laid out m t where
  heap := by
    obtain ⟨l, htree, hord, hmem⟩ := hs.heap
    refine ⟨l, htree, hord.congr ?_, fun a => by simp only [hmem, hactive]⟩
    intro a ha
    obtain ⟨h, rfl, hh⟩ := (hmem a).mp ha
    exact hkey h hh
  ring := hready ▸ hs.ring
  waiting h hh := by
    rw [hactive, hlen]
    exact hs.waiting h (hready ▸ hh)
  alone h hlt hidle hh hout := hs.alone h (hlen ▸ hlt) (hactive h ▸ hidle) (hready ▸ hh) hout
  fresh h ha := by
    rw [hactive] at ha
    rw [startId_eq (hkey h ha), hcounter]
    exact hs.fresh h ha
  distinct h k ha hb heq := by
    rw [hactive] at ha hb
    rw [startId_eq (hkey h ha), startId_eq (hkey k hb)] at heq
    exact hs.distinct h k ha hb heq

theorem getElem?_modify_handles (f : Handle → Handle) (k : Nat) :
    (s.modify h f).handles[k]? = if h = k then s.handles[k]?.map f else s.handles[k]? := by
  rw [Timer.State.modify, List.getElem?_modify]
  split
  · rfl
  · exact Option.map_id' ..

theorem active_modify (f : Handle → Handle) (k : Nat) :
    active (s.modify h f) k =
      if h = k then s.handles[k]?.any (fun hd => (f hd).active) else active s k := by
  unfold active
  rw [getElem?_modify_handles]
  split
  · rw [Option.any_map]
  · rfl

theorem handleAt_modify_ne (f : Handle → Handle) (hk : h ≠ k) :
    handleAt (s.modify h f).handles (.timer k) = handleAt s.handles (.timer k) := by
  rw [handleAt, handleAt, getElem?_modify_handles, if_neg hk]

theorem handleAt_modify (f : Handle → Handle) (hhd : s.handles[h]? = some hd) :
    handleAt (s.modify h f).handles (.timer h) = f hd := by
  rw [handleAt, getElem?_modify_handles, if_pos rfl, hhd]
  rfl

/-- A change of a timer that does not touch what its place depends on. -/
theorem modify (hs : Laid out m s) {f : Handle → Handle}
    (hf : ∀ hd, (f hd).active = hd.active ∧ (f hd).timeout = hd.timeout ∧
      (f hd).startId = hd.startId) : Laid out m (s.modify h f) := by
  have hactive : ∀ k, active (s.modify h f) k = active s k := by
    intro k
    rw [active_modify]
    split
    · simp only [active, (hf _).1]
    · rfl
  refine hs.congr (by simp [Timer.State.modify]) hactive (fun k hk => ?_) rfl rfl
  by_cases hhk : h = k
  · subst hhk
    cases hhd : s.handles[h]? with
    | none => simp [active, hhd] at hk
    | some hd => rw [key, key, handleAt_modify f hhd, handleAt_timer hhd, (hf hd).2.1, (hf hd).2.2]
  · rw [key, key, handleAt_modify_ne f hhk]

/-- Only the nodes of active timers are in the heap. -/
theorem not_mem_heap {l : List Node} (hmem : ∀ a, a ∈ l ↔ ∃ h, a = Node.timer h ∧ active s h)
    (hidle : active s h = false) : Node.timer h ∉ l := by
  intro hh
  obtain ⟨k, hk, hactive⟩ := (hmem _).mp hh
  cases hk
  rw [hidle] at hactive
  cases hactive

theorem ring_not_mem_heap (hs : Laid out m s) {l : List Node}
    (hmem : ∀ a, a ∈ l ↔ ∃ h, a = Node.timer h ∧ active s h) {a : Node}
    (ha : a ∈ Node.ready :: s.ready.map .timer) : a ∉ l := by
  rcases List.mem_cons.mp ha with rfl | ha
  · intro hready
    obtain ⟨k, hk, -⟩ := (hmem _).mp hready
    cases hk
  · obtain ⟨k, hk, rfl⟩ := List.mem_map.mp ha
    exact not_mem_heap hmem (hs.waiting k hk).2

/-- The timer that was out is alone. -/
theorem queueInit (hs : Laid (some h) m s) (hidle : active s h = false) (hout : h ∉ s.ready) :
    Laid none (m.queueInit (.timer h)) s where
  heap := by
    obtain ⟨l, htree, hord, hmem⟩ := hs.heap
    refine ⟨l, htree.of_same rfl rfl fun a ha => Heap.Ring.frame_queueInit ?_, hord, hmem⟩
    rintro rfl
    exact not_mem_heap hmem hidle ha
  ring := by
    refine hs.ring.of_same fun a ha => Heap.Ring.frame_queueInit ?_
    rintro rfl
    simp [hout] at ha
  waiting := hs.waiting
  alone k hlt hk hnot _ := by
    by_cases hkh : k = h
    · cases hkh
      exact Heap.Ring.queueInit m (.timer h)
    · refine (hs.alone k hlt hk hnot (by simpa using hkh)).of_same fun a ha =>
        Heap.Ring.frame_queueInit ?_
      cases List.mem_singleton.mp ha
      simpa using hkh
  fresh := hs.fresh
  distinct := hs.distinct

/-- A timer is taken from the heap. -/
theorem remove (hs : Laid none m s) (hactive : active s h) :
    ∃ m', m.remove (lessThan s.handles) (.timer h) = some m' ∧
      Laid (some h) m' (s.modify h (Handle.setActive false)) := by
  obtain ⟨l, htree, hord, hmem⟩ := hs.heap
  have hh : Node.timer h ∈ l := (hmem _).mpr ⟨h, rfl, hactive⟩
  obtain ⟨m', l', hm', htree', hord', hperm, hframe⟩ :=
    Heap.remove_spec (lessThan_iff s.handles) htree hord hh
  have hstill : ∀ k, active (s.modify h (Handle.setActive false)) k =
      (active s k && !decide (k = h)) := by
    intro k
    rw [active_modify]
    by_cases hk : h = k
    · subst hk
      cases s.handles[h]? <;> simp [Handle.setActive]
    · simp [hk, Ne.symm hk]
  have hrest : ∀ k, k ≠ h → handleAt (s.modify h (Handle.setActive false)).handles (.timer k) =
      handleAt s.handles (.timer k) := fun k hk => handleAt_modify_ne _ (Ne.symm hk)
  refine ⟨m', hm', ⟨⟨l', htree', ?_, ?_⟩, ?_, ?_, ?_, ?_, ?_⟩⟩
  · refine hord'.congr fun a ha => ?_
    rw [hperm.mem_iff, htree.nodup.mem_erase_iff] at ha
    obtain ⟨k, rfl, -⟩ := (hmem a).mp ha.2
    rw [key, key, hrest k fun hk => ha.1 (hk ▸ rfl)]
  · intro a
    rw [hperm.mem_iff, htree.nodup.mem_erase_iff, hmem]
    constructor
    · rintro ⟨hne, k, rfl, hk⟩
      exact ⟨k, rfl, by simpa [hstill, hk] using hne⟩
    · rintro ⟨k, rfl, hk⟩
      rw [hstill] at hk
      simp only [Bool.and_eq_true, Bool.not_eq_true', decide_eq_false_iff_not] at hk
      exact ⟨by simpa using hk.2, k, rfl, hk.1⟩
  · exact hs.ring.of_same fun a ha => hframe a (hs.ring_not_mem_heap hmem ha)
  · intro k hk
    obtain ⟨hlt, hidle⟩ := hs.waiting k hk
    exact ⟨by simpa [Timer.State.modify] using hlt, by rw [hstill, hidle, Bool.false_and]⟩
  · intro k hlt hk hnot hkh
    have hne : k ≠ h := by simpa using hkh
    have hidle : active s k = false := by simpa [hstill, hne] using hk
    refine (hs.alone k (by simpa [Timer.State.modify] using hlt) hidle hnot (by simp)).of_same ?_
    intro a ha
    cases List.mem_singleton.mp ha
    exact hframe _ (not_mem_heap hmem hidle)
  · intro k hk
    rw [hstill, Bool.and_eq_true] at hk
    rw [hrest k (by simpa using hk.2)]
    exact hs.fresh k hk.1
  · intro i j hi hj heq
    rw [hstill, Bool.and_eq_true] at hi hj
    rw [hrest i (by simpa using hi.2), hrest j (by simpa using hj.2)] at heq
    exact hs.distinct i j hi.1 hj.1 heq

/-- A timer is taken from the ready queue. -/
theorem dequeue (hs : Laid none m s) (hh : h ∈ s.ready) :
    ∃ m', m.queueRemove (.timer h) = some m' ∧
      Laid (some h) m' { s with ready := s.ready.erase h } := by
  obtain ⟨l, htree, hord, hmem⟩ := hs.heap
  obtain ⟨before, after, hsplit⟩ := List.append_of_mem hh
  have hring := hs.ring
  rw [hsplit, List.map_append, List.map_cons] at hring
  obtain ⟨m', hm', hring', hframe⟩ := hring.queueRemove
  have hnot : h ∉ before := by
    intro hb
    have hnodup : (before.map Node.timer ++ Node.timer h :: after.map Node.timer).Nodup :=
      (List.nodup_cons.mp hring.nodup).2
    rw [List.nodup_append] at hnodup
    exact hnodup.2.2 _ (List.mem_map_of_mem hb) _ List.mem_cons_self rfl
  have herase : s.ready.erase h = before ++ after := by
    rw [hsplit, List.erase_append_right _ hnot, List.erase_cons_head]
  have hsub : ∀ k, k ∈ before ++ after → k ∈ s.ready := by
    intro k hk
    rw [← herase] at hk
    exact List.mem_of_mem_erase hk
  have hsame : ∀ a, a ∉ Node.ready :: s.ready.map .timer → Heap.SameAt m m' a := by
    intro a ha
    refine hframe a fun hmem' => ha ?_
    rw [List.mem_cons, ← List.map_append] at hmem'
    rcases hmem' with rfl | hmem'
    · exact List.mem_cons_self
    · obtain ⟨k, hk, rfl⟩ := List.mem_map.mp hmem'
      exact List.mem_cons_of_mem _ (List.mem_map_of_mem (hsub k hk))
  rw [herase]
  have hmin : m'.min = m.min ∧ m'.nelts = m.nelts := Heap.queueRemove_heap hm'
  refine ⟨m', hm', ⟨⟨l, htree.of_same hmin.1 hmin.2 ?_, hord, hmem⟩, ?_, ?_, ?_, hs.fresh,
    hs.distinct⟩⟩
  · exact fun a ha => hsame a fun hready => hs.ring_not_mem_heap hmem hready ha
  · rw [List.map_append]
    exact hring'
  · exact fun k hk => hs.waiting k (hsub k hk)
  · intro k hlt hidle hk hkh
    have hne : k ≠ h := by simpa using hkh
    have hk' : k ∉ s.ready := by
      intro hready
      rw [hsplit] at hready
      exact hk (by simpa [hne] using hready)
    refine (hs.alone k hlt hidle hk' (by simp)).of_same fun a ha => hsame a ?_
    cases List.mem_singleton.mp ha
    simpa using hk'

/-- A timer that is in no queue has only itself to be taken from. -/
theorem dequeue_alone (hs : Laid none m s) (hlt : h < s.handles.length)
    (hidle : active s h = false) (hh : h ∉ s.ready) :
    m.queueRemove (.timer h) = some m ∧ Laid (some h) m s :=
  ⟨(hs.alone h hlt hidle hh (by simp)).queueRemove_alone,
    hs.heap, hs.ring, hs.waiting, fun k hk hidle hnot _ => hs.alone k hk hidle hnot (by simp),
    hs.fresh, hs.distinct⟩

theorem uvTimerStop (hs : Laid none m s) (hhd : s.handles[h]? = some hd) :
    ∃ m', (place s m).uvTimerStop h = some (place (s.uvTimerStop h) m') ∧
      Laid none m' (s.uvTimerStop h) ∧ active (s.uvTimerStop h) h = false ∧
      h ∉ (s.uvTimerStop h).ready := by
  have hlt := (List.getElem?_eq_some_iff.mp hhd).1
  by_cases hactive : hd.active
  · have hstop : s.uvTimerStop h = s.modify h (Handle.setActive false) := by
      rw [Timer.State.uvTimerStop, hhd, Option.any_some, if_pos hactive]
    obtain ⟨m', hm', hs'⟩ := hs.remove ((active_eq hhd).trans hactive)
    have hidle : active (s.modify h (Handle.setActive false)) h = false := by
      rw [active_modify, if_pos rfl, hhd]
      rfl
    have hout : h ∉ s.ready := fun hready =>
      Bool.noConfusion (((active_eq hhd).trans hactive).symm.trans (hs.waiting h hready).2)
    rw [hstop]
    refine ⟨m'.queueInit (.timer h), ?_, hs'.queueInit hidle hout, hidle, hout⟩
    simp only [State.uvTimerStop, place, hhd, Option.bind_some, if_pos hactive, hm',
      Option.map_some]
    rfl
  · have hstop : s.uvTimerStop h = { s with ready := s.ready.erase h } := by
      rw [Timer.State.uvTimerStop, hhd, Option.any_some, if_neg hactive]
    have hidle : active s h = false := (active_eq hhd).trans (Bool.eq_false_iff.mpr hactive)
    have hnodup : s.ready.Nodup :=
      List.Nodup.of_map _ (List.nodup_cons.mp hs.ring.nodup).2
    have hout : h ∉ s.ready.erase h := fun hmem => (hnodup.mem_erase_iff.mp hmem).1 rfl
    have htaken : ∃ m', m.queueRemove (.timer h) = some m' ∧
        Laid (some h) m' { s with ready := s.ready.erase h } := by
      by_cases hh : h ∈ s.ready
      · exact hs.dequeue hh
      · obtain ⟨hm, hs'⟩ := hs.dequeue_alone hlt hidle hh
        rw [List.erase_of_not_mem hh]
        exact ⟨m, hm, hs'⟩
    obtain ⟨m', hm', hs'⟩ := htaken
    rw [hstop]
    refine ⟨m'.queueInit (.timer h), ?_, hs'.queueInit hidle hout, hidle, hout⟩
    simp only [State.uvTimerStop, place, hhd, Option.bind_some, if_neg hactive, hm',
      Option.map_some]
    rfl

/-- A timer is armed and put into the heap. -/
theorem arm (hs : Laid none m s) (hhd : s.handles[h]? = some hd) (hidle : active s h = false)
    (hout : h ∉ s.ready) (timeout repeatValue : Nat)
    (ht : t = { s.modify h (Handle.arm s.time s.counter timeout repeatValue) with
      counter := s.counter + 1 }) :
    ∃ m', m.insert (lessThan t.handles) (.timer h) = some m' ∧ Laid none m' t := by
  obtain ⟨l, htree, hord, hmem⟩ := hs.heap
  have hh : Node.timer h ∉ l := not_mem_heap hmem hidle
  have hactive : ∀ k, active t k = (decide (k = h) || active s k) := by
    intro k
    rw [ht]
    refine (active_modify _ k).trans ?_
    by_cases hk : h = k
    · subst hk
      simp [hhd, Handle.arm]
    · simp [hk, Ne.symm hk]
  have hlen : t.handles.length = s.handles.length := by
    simp [ht, Timer.State.modify]
  have hrest : ∀ k, k ≠ h → handleAt t.handles (.timer k) = handleAt s.handles (.timer k) := by
    intro k hk
    rw [ht]
    exact handleAt_modify_ne _ (Ne.symm hk)
  have hnew : (handleAt t.handles (.timer h)).startId = s.counter := by
    rw [ht]
    exact congrArg Handle.startId (handleAt_modify _ hhd)
  have hready : t.ready = s.ready := by
    rw [ht]
    rfl
  have hcounter : t.counter = s.counter + 1 := by
    rw [ht]
  have hord' : Ordered (key t.handles) l := by
    refine hord.congr fun a ha => ?_
    obtain ⟨k, rfl, hk⟩ := (hmem a).mp ha
    rw [key, key, hrest k]
    rintro rfl
    exact hh ha
  obtain ⟨m', l', hm', hmoved, hl'⟩ :=
    Heap.insert_spec (lessThan_iff t.handles) htree hord' hh
  refine ⟨m', hm', ⟨⟨l', hmoved.tree, hl', ?_⟩, ?_, ?_, ?_, ?_, ?_⟩⟩
  · intro a
    rw [hmoved.perm.mem_iff, List.mem_cons, hmem]
    constructor
    · rintro (rfl | ⟨k, rfl, hk⟩)
      · exact ⟨h, rfl, by simp [hactive]⟩
      · exact ⟨k, rfl, by simp [hactive, hk]⟩
    · rintro ⟨k, rfl, hk⟩
      rw [hactive, Bool.or_eq_true, decide_eq_true_eq] at hk
      exact hk.imp (fun hkh => by rw [hkh]) fun hk => ⟨k, rfl, hk⟩
  · rw [hready]
    refine hs.ring.of_same fun a ha => hmoved.frame a ?_
    rw [List.mem_cons, not_or]
    refine ⟨?_, hs.ring_not_mem_heap hmem ha⟩
    rintro rfl
    simp [hout] at ha
  · intro k hk
    rw [hready] at hk
    obtain ⟨hlt, hidle'⟩ := hs.waiting k hk
    have hkh : k ≠ h := fun hkh => hout (hkh ▸ hk)
    exact ⟨hlen ▸ hlt, by simp [hactive, hidle', hkh]⟩
  · intro k hlt hk hnot _
    rw [hactive, Bool.or_eq_false_iff, decide_eq_false_iff_not] at hk
    refine (hs.alone k (hlen ▸ hlt) hk.2 (hready ▸ hnot) (by simp)).of_same fun a ha => ?_
    cases List.mem_singleton.mp ha
    refine hmoved.frame _ ?_
    rw [List.mem_cons, not_or]
    exact ⟨by simpa using hk.1, not_mem_heap hmem hk.2⟩
  · intro k hk
    rw [hcounter]
    by_cases hkh : k = h
    · rw [hkh, hnew]
      exact Nat.lt_succ_self _
    · rw [hactive, Bool.or_eq_true, decide_eq_true_eq] at hk
      rw [hrest k hkh]
      exact Nat.lt_succ_of_lt (hs.fresh k (hk.resolve_left hkh))
  · intro i j hi hj heq
    rw [hactive, Bool.or_eq_true, decide_eq_true_eq] at hi hj
    by_cases hih : i = h
    · by_cases hjh : j = h
      · exact hih.trans hjh.symm
      · have hlt := hs.fresh j (hj.resolve_left hjh)
        rw [hih, hnew, hrest j hjh] at heq
        omega
    · by_cases hjh : j = h
      · have hlt := hs.fresh i (hi.resolve_left hih)
        rw [hjh, hnew, hrest i hih] at heq
        omega
      · rw [hrest i hih, hrest j hjh] at heq
        exact hs.distinct i j (hi.resolve_left hih) (hj.resolve_left hjh) heq

theorem exists_handle_stop (hhd : s.handles[h]? = some hd) :
    ∃ hd', (s.uvTimerStop h).handles[h]? = some hd' := by
  unfold Timer.State.uvTimerStop
  split
  · exact ⟨_, (getElem?_modify_handles _ h).trans (by rw [if_pos rfl, hhd]; rfl)⟩
  · exact ⟨hd, hhd⟩

theorem uvTimerStart (hs : Laid none m s) (hhd : s.handles[h]? = some hd)
    (timeout repeatValue : Nat) :
    ∃ m', (place s m).uvTimerStart h timeout repeatValue =
        some (place (s.uvTimerStart h timeout repeatValue) m') ∧
      Laid none m' (s.uvTimerStart h timeout repeatValue) := by
  by_cases hclosing : hd.closing
  · have hstart : s.uvTimerStart h timeout repeatValue = s := by
      rw [Timer.State.uvTimerStart, hhd, Option.any_some, if_pos hclosing]
    rw [hstart]
    refine ⟨m, ?_, hs⟩
    simp only [State.uvTimerStart, place, hhd, Option.bind_some, if_pos hclosing]
  · obtain ⟨m₁, hm₁, hs₁, hidle, hout⟩ := hs.uvTimerStop hhd
    obtain ⟨hd₁, hhd₁⟩ := exists_handle_stop hhd
    have hkept : (s.uvTimerStop h).time = s.time ∧ (s.uvTimerStop h).counter = s.counter := by
      unfold Timer.State.uvTimerStop
      split <;> exact ⟨rfl, rfl⟩
    have hstart : s.uvTimerStart h timeout repeatValue =
        { (s.uvTimerStop h).modify h (Handle.arm (s.uvTimerStop h).time
          (s.uvTimerStop h).counter timeout repeatValue) with
          counter := (s.uvTimerStop h).counter + 1 } := by
      rw [Timer.State.uvTimerStart, hhd, Option.any_some, if_neg hclosing, hkept.1, hkept.2]
    obtain ⟨m₂, hm₂, hs₂⟩ := hs₁.arm hhd₁ hidle hout timeout repeatValue hstart
    refine ⟨m₂, ?_, hs₂⟩
    rw [hstart] at hm₂ ⊢
    have hhd' : (place s m).handles[h]? = some hd := hhd
    rw [State.uvTimerStart, hhd', Option.bind_some, if_neg hclosing, hm₁, Option.bind_some]
    exact Option.map_eq_some_iff.mpr ⟨m₂, hm₂, rfl⟩

end Laid

end HxcppLuv.Timer.Pointers
