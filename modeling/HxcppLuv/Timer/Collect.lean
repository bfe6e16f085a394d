import HxcppLuv.Timer.Layout

/-!
The first loop of `uv__run_timers`: it takes the least timer out of the heap while that is due,
and so leaves in the ready queue what is due, in the order of the heap.
-/

namespace HxcppLuv.Timer.Pointers

open BinaryHeap

variable {m : Heap.Memory Node} {s t : Timer.State} {h k : Nat} {hd : Handle}

section Sorted

variable {α : Type} {r : α → α → Prop} [DecidableRel r]

theorem pairwise_orderedInsert (htrans : ∀ a b c, r a b → r b c → r a c) {a : α} {l : List α}
    (ha : ∀ b ∈ l, ¬ r a b → r b a) (hl : l.Pairwise r) : (l.orderedInsert r a).Pairwise r := by
  induction l with
  | nil => exact List.pairwise_singleton r a
  | cons b l ih =>
      obtain ⟨hb, htail⟩ := List.pairwise_cons.mp hl
      rw [List.orderedInsert_cons]
      split
      · rename_i hab
        refine List.pairwise_cons.mpr ⟨?_, hl⟩
        intro c hc
        rcases List.mem_cons.mp hc with rfl | hc
        · exact hab
        · exact htrans a b c hab (hb c hc)
      · rename_i hab
        refine List.pairwise_cons.mpr ⟨?_, ih (fun c hc => ha c (List.mem_cons_of_mem b hc)) htail⟩
        intro c hc
        rcases List.mem_cons.mp ((List.perm_orderedInsert r a l).mem_iff.mp hc) with rfl | hc
        · exact ha b List.mem_cons_self hab
        · exact hb c hc

/-- A strict order sorts what it compares. -/
theorem pairwise_insertionSort (htrans : ∀ a b c, r a b → r b c → r a c) {l : List α}
    (hl : l.Pairwise fun a b => ¬ r a b → r b a) : (l.insertionSort r).Pairwise r := by
  induction l with
  | nil => exact List.Pairwise.nil
  | cons a l ih =>
      obtain ⟨ha, htail⟩ := List.pairwise_cons.mp hl
      refine pairwise_orderedInsert htrans (fun b hb => ha b ?_) (ih htail)
      exact (List.mem_insertionSort r).mp hb

end Sorted

def due (s : Timer.State) (h : Nat) : Bool := s.handles[h]?.any (Handle.isDue s.time)

theorem due_iff (hhd : s.handles[h]? = some hd) : due s h ↔ hd.active ∧ hd.timeout ≤ s.time := by
  rw [due, hhd, Option.any_some, Handle.isDue, Bool.and_eq_true, decide_eq_true_iff]

theorem exists_handle (ha : active s h) : ∃ hd, s.handles[h]? = some hd ∧ hd.active := by
  cases hhd : s.handles[h]? with
  | none => simp [active, hhd] at ha
  | some hd => exact ⟨hd, rfl, (active_eq hhd).symm.trans ha⟩

theorem due_active (hdue : due s h) : active s h := by
  cases hhd : s.handles[h]? with
  | none => simp [due, hhd] at hdue
  | some hd => exact (active_eq hhd).trans ((due_iff hhd).mp hdue).1

/-- The order of the ready queue of the other model is that of the heap. -/
theorem lessThan_handles (h k : Nat) :
    (∃ a ∈ s.handles[h]?, ∃ b ∈ s.handles[k]?, Handle.lessThan a b) ↔
      h < s.handles.length ∧ k < s.handles.length ∧
        key s.handles (.timer h) < key s.handles (.timer k) := by
  rw [← lessThan_iff]
  constructor
  · rintro ⟨a, ha, b, hb, hab⟩
    refine ⟨(List.getElem?_eq_some_iff.mp ha).1, (List.getElem?_eq_some_iff.mp hb).1, ?_⟩
    rw [lessThan, handleAt_timer ha, handleAt_timer hb]
    exact hab
  · rintro ⟨hh, hk, hless⟩
    refine ⟨_, List.getElem?_eq_getElem hh, _, List.getElem?_eq_getElem hk, ?_⟩
    rwa [lessThan, handleAt_timer (List.getElem?_eq_getElem hh),
      handleAt_timer (List.getElem?_eq_getElem hk)] at hless

theorem key_ne (hs : Laid none m s) (hh : active s h) (hk : active s k) (hne : h ≠ k) :
    key s.handles (.timer h) ≠ key s.handles (.timer k) :=
  fun hkey => hne (hs.distinct h k hh hk (startId_eq hkey))

/-- What is due is the ready queue of the other model. -/
theorem due_eq (hs : Laid none m s) {l : List Nat} (hnodup : l.Nodup)
    (hmem : ∀ h, h ∈ l ↔ due s h)
    (hl : l.Pairwise fun h k => key s.handles (.timer h) < key s.handles (.timer k)) :
    s.due = l := by
  have hall : ∀ h, h ∈ (List.range s.handles.length).filter (due s) ↔ due s h := by
    intro h
    rw [List.mem_filter, List.mem_range, and_iff_right_iff_imp]
    intro hdue
    obtain ⟨hd, hhd, -⟩ := exists_handle (due_active hdue)
    exact (List.getElem?_eq_some_iff.mp hhd).1
  have hrange : ((List.range s.handles.length).filter (due s)).Nodup := List.nodup_range.filter _
  have hsorted : s.due.Pairwise fun h k =>
      ∃ a ∈ s.handles[h]?, ∃ b ∈ s.handles[k]?, Handle.lessThan a b := by
    refine pairwise_insertionSort ?_ (List.Pairwise.imp_of_mem ?_ hrange)
    · intro a b c hab hbc
      rw [lessThan_handles] at hab hbc ⊢
      exact ⟨hab.1, hbc.2.1, hab.2.2.trans hbc.2.2⟩
    · intro a b ha hb hab hless
      have ha' := due_active ((hall a).mp ha)
      have hb' := due_active ((hall b).mp hb)
      rw [lessThan_handles] at hless ⊢
      have hlen := List.mem_range.mp (List.mem_filter.mp ha).1
      have hlen' := List.mem_range.mp (List.mem_filter.mp hb).1
      refine ⟨hlen', hlen, ?_⟩
      have hle := not_lt.mp fun hlt => hless ⟨hlen, hlen', hlt⟩
      exact lt_of_le_of_ne hle (key_ne hs ha' hb' hab).symm
  have hperm : s.due.Perm l := by
    refine (List.perm_insertionSort _ _).trans ?_
    exact (List.perm_ext_iff_of_nodup hrange hnodup).mpr fun h => (hall h).trans (hmem h).symm
  refine List.Perm.eq_of_pairwise ?_ (hsorted.imp fun hless => ((lessThan_handles _ _).mp hless).2.2)
    hl hperm
  exact fun a b _ _ hab hba => absurd (hab.trans hba) (lt_irrefl _)

/-- A timer of the heap goes into the ready queue. -/
def takeOne (s : Timer.State) (h : Nat) : Timer.State :=
  { s.modify h (Handle.setActive false) with ready := s.ready ++ [h] }

theorem takeOne_handles (h k : Nat) :
    (takeOne s h).handles[k]? =
      if h = k then s.handles[k]?.map (Handle.setActive false) else s.handles[k]? :=
  Laid.getElem?_modify_handles _ k

def taken (s : Timer.State) : List Nat → Timer.State
  | [] => s
  | h :: l => taken (takeOne s h) l

namespace Laid

/-- A timer that is in no queue is put into the ready queue. -/
theorem enqueue (hs : Laid none m s) (hlt : h < s.handles.length) (hidle : active s h = false)
    (hout : h ∉ s.ready) :
    ∃ m', m.insertTail .ready (.timer h) = some m' ∧
      Laid none m' { s with ready := s.ready ++ [h] } := by
  obtain ⟨l, htree, hord, hmem⟩ := hs.heap
  obtain ⟨m', hm', hring, hframe⟩ := hs.ring.insertTail (q := .timer h) (by simpa using hout)
  have hheap := Heap.insertTail_heap hm'
  refine ⟨m', hm', ⟨⟨l, htree.of_same hheap.1 hheap.2 ?_, hord, hmem⟩, ?_, ?_, ?_, hs.fresh,
    hs.distinct⟩⟩
  · intro a ha
    refine hframe a fun hmem' => ?_
    rcases List.mem_cons.mp hmem' with rfl | hmem'
    · exact hs.ring_not_mem_heap hmem List.mem_cons_self ha
    · rcases List.mem_cons.mp hmem' with rfl | hmem'
      · exact not_mem_heap hmem hidle ha
      · exact hs.ring_not_mem_heap hmem (List.mem_cons_of_mem _ hmem') ha
  · rw [List.map_append]
    exact hring
  · intro k hk
    rcases List.mem_append.mp hk with hk | hk
    · exact hs.waiting k hk
    · cases List.mem_singleton.mp hk
      exact ⟨hlt, hidle⟩
  · intro k hk hidle' hnot hne
    rw [List.mem_append, List.mem_singleton, not_or] at hnot
    refine (hs.alone k hk hidle' hnot.1 hne).of_same fun a ha => hframe a ?_
    cases List.mem_singleton.mp ha
    simpa using hnot.symm

/-- How many timers are in the heap. -/
theorem nelts (hs : Laid none m s) :
    m.nelts = ((List.range s.handles.length).filter (active s)).length := by
  obtain ⟨l, htree, hord, hmem⟩ := hs.heap
  have hinj : Function.Injective Node.timer := fun a b hab => Node.timer.inj hab
  have hperm : l.Perm (((List.range s.handles.length).filter (active s)).map .timer) := by
    refine (List.perm_ext_iff_of_nodup htree.nodup ?_).mpr fun a => ?_
    · exact (List.nodup_range.filter _).map hinj
    · rw [hmem, List.mem_map]
      constructor
      · rintro ⟨h, rfl, ha⟩
        obtain ⟨hd, hhd, -⟩ := exists_handle ha
        have hlt := (List.getElem?_eq_some_iff.mp hhd).1
        exact ⟨h, List.mem_filter.mpr ⟨List.mem_range.mpr hlt, ha⟩, rfl⟩
      · rintro ⟨h, hh, rfl⟩
        exact ⟨h, rfl, (List.mem_filter.mp hh).2⟩
  rw [htree.nelts, hperm.length_eq, List.length_map]

/-- The least timer of the heap. -/
theorem min_cases (hs : Laid none m s) :
    m.min = none ∧ (∀ h, active s h = false) ∨
      ∃ h, m.min = some (.timer h) ∧ active s h ∧
        ∀ k, active s k → key s.handles (.timer h) ≤ key s.handles (.timer k) := by
  obtain ⟨l, htree, hord, hmem⟩ := hs.heap
  cases l with
  | nil =>
      refine .inl ⟨htree.min, fun h => Bool.eq_false_iff.mpr fun ha => ?_⟩
      exact absurd ((hmem _).mpr ⟨h, rfl, ha⟩) List.not_mem_nil
  | cons a l =>
      obtain ⟨h, rfl, ha⟩ := (hmem a).mp List.mem_cons_self
      refine .inr ⟨h, htree.min, ha, fun k hk => ?_⟩
      obtain ⟨i, hi⟩ := List.getElem?_of_mem ((hmem _).mpr ⟨k, rfl, hk⟩)
      exact hord.root_le rfl i _ hi

end Laid

/-- A timer that was taken is idle and in the ready queue, and nothing else changed. -/
structure Taken (s t : Timer.State) (l : List Nat) : Prop where
  handles : ∀ k, t.handles[k]? =
    if k ∈ l then s.handles[k]?.map (Handle.setActive false) else s.handles[k]?
  ready : t.ready = s.ready ++ l
  rest : t = { s with handles := t.handles, ready := t.ready }

theorem taken_spec (s : Timer.State) (l : List Nat) : Taken s (taken s l) l := by
  induction l generalizing s with
  | nil => exact ⟨fun k => by simp [taken], by simp [taken], rfl⟩
  | cons h l ih =>
      obtain ⟨hhandles, hready, hrest⟩ := ih (takeOne s h)
      refine ⟨fun k => ?_, ?_, hrest⟩
      · rw [taken, hhandles k, takeOne_handles]
        by_cases hk : h = k
        · subst hk
          cases s.handles[h]? <;> simp [Handle.setActive]
        · simp [hk, Ne.symm hk]
      · rw [taken, hready, takeOne, List.append_assoc]
        rfl

theorem active_takeOne (h k : Nat) : active (takeOne s h) k = (!decide (k = h) && active s k) := by
  unfold active
  rw [takeOne_handles]
  by_cases hk : h = k
  · subst hk
    cases s.handles[h]? <;> simp [Handle.setActive]
  · simp [hk, Ne.symm hk]

theorem due_takeOne (h k : Nat) : due (takeOne s h) k = (!decide (k = h) && due s k) := by
  unfold due
  rw [takeOne_handles]
  by_cases hk : h = k
  · subst hk
    cases s.handles[h]? <;> simp [Handle.setActive, Handle.isDue]
  · simp only [if_neg hk, Ne.symm hk, decide_false, Bool.not_false, Bool.true_and]
    rfl

theorem key_takeOne (h k : Nat) :
    key (takeOne s h).handles (.timer k) = key s.handles (.timer k) := by
  simp only [key, handleAt, takeOne_handles]
  split
  · cases s.handles[k]? <;> simp [Handle.setActive]
  · rfl

theorem count_takeOne (ha : active s h) :
    ((List.range s.handles.length).filter (active s)).length =
      ((List.range (takeOne s h).handles.length).filter (active (takeOne s h))).length + 1 := by
  have hlen : (takeOne s h).handles.length = s.handles.length := by
    simp [takeOne, Timer.State.modify]
  obtain ⟨hd, hhd, -⟩ := exists_handle ha
  have hlt := (List.getElem?_eq_some_iff.mp hhd).1
  have hperm : ((List.range s.handles.length).filter (active s)).Perm
      (h :: (List.range s.handles.length).filter (active (takeOne s h))) := by
    refine (List.perm_ext_iff_of_nodup (List.nodup_range.filter _)
      (List.nodup_cons.mpr ⟨?_, List.nodup_range.filter _⟩)).mpr fun k => ?_
    · simp [active_takeOne]
    · rw [List.mem_cons, List.mem_filter, List.mem_filter, List.mem_range, active_takeOne]
      by_cases hk : k = h
      · simp [hk, hlt, ha]
      · simp [hk]
  rw [hlen, hperm.length_eq, List.length_cons]

theorem timeout_le (hkey : key s.handles (.timer h) ≤ key s.handles (.timer k)) :
    (handleAt s.handles (.timer h)).timeout ≤ (handleAt s.handles (.timer k)).timeout := by
  rw [key, key, Prod.Lex.le_iff] at hkey
  exact hkey.elim (fun hlt => hlt.le) fun hand => hand.1.le

theorem due_iff_timeout (ha : active s h) :
    due s h ↔ (handleAt s.handles (.timer h)).timeout ≤ s.time := by
  obtain ⟨hd, hhd, hactive⟩ := exists_handle ha
  rw [due_iff hhd, handleAt_timer hhd]
  exact and_iff_right hactive

/-- The loop ends where the least timer is not due. -/
theorem collect_stop (hs : Laid none m s) (hnone : ∀ h, ¬ due s h) (fuel : Nat) :
    State.collect fuel (place s m) = some (place s m) := by
  unfold State.collect
  rcases hs.min_cases with ⟨hmin, -⟩ | ⟨h, hmin, ha, -⟩
  · simp only [place, hmin]
  · have hlate := hnone h
    rw [due_iff_timeout ha, not_le] at hlate
    simp only [place, hmin, hlate, if_true]

/-- The least timer is due where any is. -/
theorem Laid.min_due (hs : Laid none m s) (hdue : due s k) :
    ∃ h, m.min = some (.timer h) ∧ due s h ∧
      ∀ k, active s k → key s.handles (.timer h) ≤ key s.handles (.timer k) := by
  have hk := due_active hdue
  rcases hs.min_cases with ⟨-, hidle⟩ | ⟨h, hmin, ha, hleast⟩
  · exact absurd hk (Bool.eq_false_iff.mp (hidle k))
  · refine ⟨h, hmin, ?_, hleast⟩
    rw [due_iff_timeout ha]
    exact (timeout_le (hleast k hk)).trans ((due_iff_timeout hk).mp hdue)

theorem collect_take (hs : Laid none m s) (hdue : due s h) (hmin : m.min = some (.timer h)) :
    ∃ m', Laid none m' (takeOne s h) ∧
      ∀ fuel, State.collect (fuel + 1) (place s m) = State.collect fuel (place (takeOne s h) m') := by
  obtain ⟨hd, hhd, hactive⟩ := exists_handle (due_active hdue)
  obtain ⟨m₁, hm₁, hs₁, hidle, hout⟩ := hs.uvTimerStop hhd
  have hstop : s.uvTimerStop h = s.modify h (Handle.setActive false) := by
    rw [Timer.State.uvTimerStop, hhd, Option.any_some, if_pos hactive]
  rw [hstop] at hm₁ hs₁ hidle hout
  have hlt : h < (s.modify h (Handle.setActive false)).handles.length := by
    simpa [Timer.State.modify] using (List.getElem?_eq_some_iff.mp hhd).1
  obtain ⟨m₂, hm₂, hs₂⟩ := hs₁.enqueue hlt hidle hout
  refine ⟨m₂, hs₂, fun fuel => ?_⟩
  have hnow := (due_iff_timeout (due_active hdue)).mp hdue
  have hmin' : (place s m).memory.min = some (.timer h) := hmin
  rw [State.collect, hmin']
  simp only [if_neg (show ¬ (place s m).time <
    (handleAt (place s m).handles (.timer h)).timeout from Nat.not_lt.mpr hnow), hm₁,
    Option.bind_some]
  exact congrArg (Option.bind · _) hm₂

/-- What the loop takes: the timers that are due, in the order of the heap. -/
structure Collected (s : Timer.State) (m : Heap.Memory Node) (fuel : Nat) (l : List Nat)
    (m' : Heap.Memory Node) : Prop where
  run : State.collect fuel (place s m) = some (place (taken s l) m')
  laid : Laid none m' (taken s l)
  nodup : l.Nodup
  mem : ∀ h, h ∈ l ↔ due s h
  sorted : l.Pairwise fun h k => key s.handles (.timer h) < key s.handles (.timer k)

theorem collected_nil (hs : Laid none m s) (hnone : ∀ h, ¬ due s h) (fuel : Nat) :
    Collected s m fuel [] m where
  run := collect_stop hs hnone fuel
  laid := hs
  nodup := List.nodup_nil
  mem h := ⟨fun hh => absurd hh List.not_mem_nil, fun hh => absurd hh (hnone h)⟩
  sorted := List.Pairwise.nil

theorem collect_spec (fuel : Nat) (hs : Laid none m s)
    (hfuel : ((List.range s.handles.length).filter (active s)).length ≤ fuel) :
    ∃ m' l, Collected s m fuel l m' := by
  induction fuel generalizing m s with
  | zero =>
      refine ⟨m, [], collected_nil hs (fun h hh => ?_) 0⟩
      have hcount := count_takeOne (due_active hh)
      omega
  | succ fuel ih =>
      by_cases hdue : ∃ k, due s k
      · obtain ⟨k, hk⟩ := hdue
        obtain ⟨h, hmin, hh, hleast⟩ := hs.min_due hk
        obtain ⟨m₁, hs₁, hstep⟩ := collect_take hs hh hmin
        have hcount := count_takeOne (due_active hh)
        obtain ⟨m', l, hl, hs', hnodup, hmem, hsorted⟩ := ih hs₁ (by omega)
        have hnot : h ∉ l := by simp [hmem, due_takeOne]
        refine ⟨m', h :: l, (hstep fuel).trans hl, hs', List.nodup_cons.mpr ⟨hnot, hnodup⟩,
          ?_, ?_⟩
        · intro i
          rw [List.mem_cons, hmem, due_takeOne]
          by_cases hi : i = h
          · simp [hi, hh]
          · simp [hi]
        · refine List.pairwise_cons.mpr ⟨fun i hi => ?_, ?_⟩
          · rw [hmem, due_takeOne] at hi
            simp only [Bool.and_eq_true, Bool.not_eq_true', decide_eq_false_iff_not] at hi
            have hai := due_active hi.2
            exact lt_of_le_of_ne (hleast i hai) (key_ne hs (due_active hh) hai (Ne.symm hi.1))
          · simpa only [key_takeOne] using hsorted
      · exact ⟨m, [], collected_nil hs (fun h hh => hdue ⟨h, hh⟩) _⟩

end HxcppLuv.Timer.Pointers
