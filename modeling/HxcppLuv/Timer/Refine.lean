import HxcppLuv.Timer.Collect

/-!
The pointers of `timer.c` take the same steps as the model of the timers, in every run, and what
`uv__next_timeout` reads from the root of the heap is when the next timer is due.
-/

namespace HxcppLuv.Timer.Pointers

variable {m : Heap.Memory Node} {s t : Timer.State} {p : State} {h k : Nat} {hd : Handle}
  {out : Option Nat}

/-- The pointers that hold the timers of a state. -/
def Represents (p : State) (s : Timer.State) : Prop := ∃ m, p = place s m ∧ Laid none m s

namespace Laid

theorem uvTimerAgain (hs : Laid none m s) (hhd : s.handles[h]? = some hd) :
    ∃ m', (place s m).uvTimerAgain h = some (place (s.uvTimerAgain h) m') ∧
      Laid none m' (s.uvTimerAgain h) := by
  have hhd' : (place s m).handles[h]? = some hd := hhd
  rw [State.uvTimerAgain, hhd', Option.bind_some, Timer.State.uvTimerAgain, hhd]
  simp only
  by_cases hrepeat : hd.repeatValue = 0
  · rw [if_pos hrepeat, if_pos hrepeat]
    exact ⟨m, rfl, hs⟩
  · obtain ⟨m₁, hm₁, hs₁, -, -⟩ := hs.uvTimerStop hhd
    obtain ⟨hd₁, hhd₁⟩ := exists_handle_stop hhd
    rw [if_neg hrepeat, if_neg hrepeat, hm₁, Option.bind_some]
    exact hs₁.uvTimerStart hhd₁ hd.repeatValue hd.repeatValue

theorem uvTimerAgain_time (s : Timer.State) (h : Nat) : (s.uvTimerAgain h).time = s.time := by
  have stop : ∀ s : Timer.State, (s.uvTimerStop h).time = s.time := by
    intro s
    unfold Timer.State.uvTimerStop
    split <;> rfl
  have start : ∀ (s : Timer.State) (timeout repeatValue : Nat),
      (s.uvTimerStart h timeout repeatValue).time = s.time := by
    intro s timeout repeatValue
    unfold Timer.State.uvTimerStart
    split
    · rfl
    · exact stop s
  unfold Timer.State.uvTimerAgain
  split
  · rfl
  · split
    · rfl
    · exact (start _ _ _).trans (stop s)

/-- What only the counts and the callbacks of a timer see. -/
theorem same (hs : Laid none m s) (hhandles : t.handles = s.handles) (hready : t.ready = s.ready)
    (hcounter : t.counter = s.counter) : Laid none m t :=
  hs.congr (by rw [hhandles]) (fun h => by rw [active, active, hhandles])
    (fun h _ => by rw [hhandles]) hready hcounter

theorem uvTimerStop_closing (s : Timer.State) (h : Nat) :
    (s.uvTimerStop h).closing = s.closing := by
  unfold Timer.State.uvTimerStop
  split <;> rfl

theorem uvClose (hs : Laid none m s) (hhd : s.handles[h]? = some hd) (cb : CloseCb) :
    ∃ m', (place s m).uvClose h cb = some (place (s.uvClose h cb) m') ∧
      Laid none m' (s.uvClose h cb) := by
  have hhd' : (place s m).handles[h]? = some hd := hhd
  have hcount : Laid none m (s.modify h Handle.countClose) := hs.modify fun _ => ⟨rfl, rfl, rfl⟩
  rw [State.uvClose, hhd', Option.bind_some, Timer.State.uvClose, hhd]
  simp only
  by_cases hfreed : hd.allocated = false
  · rw [if_pos hfreed, if_pos hfreed]
    exact ⟨m, rfl, hcount.modify fun _ => ⟨rfl, rfl, rfl⟩⟩
  · rw [if_neg hfreed, if_neg hfreed]
    by_cases hclosing : hd.closing
    · rw [if_pos hclosing, if_pos hclosing]
      exact ⟨m, rfl, hcount.same rfl rfl rfl⟩
    · rw [if_neg hclosing, if_neg hclosing]
      have hhd₁ : (s.modify h Handle.countClose).handles[h]? = some hd.countClose := by
        rw [getElem?_modify_handles, if_pos rfl, hhd, Option.map_some]
      obtain ⟨m', hm', hs', -, -⟩ := hcount.uvTimerStop hhd₁
      have hkept := uvTimerStop_closing (s.modify h Handle.countClose) h
      refine ⟨m', Option.map_eq_some_iff.mpr ⟨_, hm', ?_⟩, ?_⟩
      · rw [← hkept]
        rfl
      · exact (hs'.modify (f := Handle.setClosing cb) fun _ => ⟨rfl, rfl, rfl⟩).same rfl rfl rfl

/-- A new timer is nowhere until its node is set. -/
theorem append (hs : Laid none m s) (hd : Handle) (hidle : hd.active = false)
    (ht : t = { s with handles := s.handles ++ [hd] }) : Laid (some s.handles.length) m t := by
  have hget : ∀ k, t.handles[k]? = if k = s.handles.length then some hd else s.handles[k]? := by
    rw [ht]
    exact Heap.getElem?_concat s.handles hd
  have hactive : ∀ k, active t k = active s k := by
    intro k
    rw [active, active, hget]
    split
    · rename_i hk
      rw [hk, List.getElem?_eq_none (Nat.le_refl _), Option.any_some, hidle, Option.any_none]
    · rfl
  have hhandle : ∀ k, active s k → handleAt t.handles (.timer k) = handleAt s.handles (.timer k) := by
    intro k hk
    obtain ⟨hd', hhd', -⟩ := exists_handle hk
    have hlt := (List.getElem?_eq_some_iff.mp hhd').1
    rw [handleAt, handleAt, hget, if_neg (by omega)]
  have hready : t.ready = s.ready := by rw [ht]
  have hcounter : t.counter = s.counter := by rw [ht]
  have hlen : t.handles.length = s.handles.length + 1 := by simp [ht]
  obtain ⟨l, htree, hord, hmem⟩ := hs.heap
  refine ⟨⟨l, htree, hord.congr ?_, fun a => by simp only [hmem, hactive]⟩, ?_, ?_, ?_, ?_, ?_⟩
  · intro a ha
    obtain ⟨k, rfl, hk⟩ := (hmem a).mp ha
    rw [key, key, hhandle k hk]
  · rw [hready]
    exact hs.ring
  · intro k hk
    obtain ⟨hlt, hk'⟩ := hs.waiting k (hready ▸ hk)
    exact ⟨by omega, (hactive k).trans hk'⟩
  · intro k hlt hk hnot hne
    have hk' : k ≠ s.handles.length := by simpa using hne
    exact hs.alone k (by omega) ((hactive k).symm.trans hk) (hready ▸ hnot) (by simp)
  · intro k hk
    rw [hactive] at hk
    rw [hhandle k hk, hcounter]
    exact hs.fresh k hk
  · intro i j hi hj heq
    rw [hactive] at hi hj
    rw [hhandle i hi, hhandle j hj] at heq
    exact hs.distinct i j hi hj heq

theorem start (hs : Laid none m s) (payload : Payload) (interval : Int) :
    ∃ m', (place s m).start payload interval = some (place (s.start payload interval) m') ∧
      Laid none m' (s.start payload interval) := by
  generalize ht : ({ s with
    handles := s.handles ++ [Handle.init payload interval s.time] } : Timer.State) = t
  have hget : t.handles[s.handles.length]? = some (Handle.init payload interval s.time) := by
    rw [← ht]
    exact List.getElem?_concat_length ..
  have hidle : active t s.handles.length = false := active_eq hget
  have hout : s.handles.length ∉ t.ready := by
    rw [← ht]
    exact fun hmem => absurd (hs.waiting _ hmem).1 (Nat.lt_irrefl _)
  have hs' := (hs.append (Handle.init payload interval s.time) rfl ht.symm).queueInit hidle hout
  obtain ⟨m', hm', hs''⟩ := hs'.uvTimerStart hget (cUInt64 interval) (cUInt64 interval)
  have hstart : s.start payload interval =
      t.uvTimerStart s.handles.length (cUInt64 interval) (cUInt64 interval) := by
    rw [← ht]
    rfl
  rw [hstart]
  refine ⟨m', ?_, hs''⟩
  rw [← hm', ← ht]
  rfl

theorem map (hs : Laid out m s) {f : Handle → Handle}
    (hf : ∀ hd, (f hd).active = hd.active ∧ (f hd).timeout = hd.timeout ∧
      (f hd).startId = hd.startId) : Laid out m { s with handles := s.handles.map f } := by
  refine hs.congr (List.length_map ..) (fun h => ?_) (fun h ha => ?_) rfl rfl
  · rw [active, active, List.getElem?_map, Option.any_map]
    exact congrArg (s.handles[h]?.any) (funext fun hd => (hf hd).1)
  · obtain ⟨hd, hhd, -⟩ := exists_handle ha
    have hhd' : (s.handles.map f)[h]? = some (f hd) := by
      rw [List.getElem?_map, hhd, Option.map_some]
    rw [key, key, handleAt_timer hhd, handleAt, hhd', Option.getD_some, (hf hd).2.1, (hf hd).2.2]

end Laid

theorem taken_handles {l : List Nat} (hmem : ∀ h, h ∈ l ↔ due s h) :
    (taken s l).handles.map (State.countPhase s.time) =
      s.handles.map (Handle.collect s.time) := by
  refine List.ext_getElem? fun k => ?_
  rw [List.getElem?_map, List.getElem?_map, (taken_spec s l).handles k]
  cases hhd : s.handles[k]? with
  | none => simp
  | some hd =>
      have hdue : (k ∈ l) = (hd.isDue s.time = true) := by
        rw [hmem, due, hhd, Option.any_some]
      simp only [hdue]
      split
      · rename_i hnow
        simp [State.countPhase, Handle.collect, Handle.setActive, hnow]
      · rename_i hlater
        simp [State.countPhase, Handle.collect, hlater]

namespace Laid

theorem runTimers (hs : Laid none m s) (hready : s.ready = []) :
    ∃ m', (place s m).runTimers = some (place { s with
        handles := s.handles.map (Handle.collect s.time), ready := s.due } m') ∧
      Laid none m' { s with handles := s.handles.map (Handle.collect s.time), ready := s.due } := by
  have hring := hs.ring
  rw [hready] at hring
  have hinit : (place s m).setMemory ((place s m).memory.queueInit .ready) = place s m :=
    congrArg (place s) hring.queueInit_alone
  obtain ⟨m', l, hrun, hlaid, hnodup, hmem, hsorted⟩ := collect_spec m.nelts hs (hs.nelts ▸ le_refl _)
  have htaken := taken_spec s l
  have htime : (taken s l).time = s.time := by rw [htaken.rest]
  have hstate : { s with handles := s.handles.map (Handle.collect s.time), ready := s.due } =
      { taken s l with handles := (taken s l).handles.map (State.countPhase s.time) } := by
    rw [taken_handles hmem, due_eq hs hnodup hmem hsorted, htaken.rest, htaken.ready, hready]
    rfl
  rw [hstate]
  refine ⟨m', ?_, hlaid.map fun _ => ⟨rfl, rfl, rfl⟩⟩
  rw [State.runTimers]
  simp only [hinit]
  refine Option.map_eq_some_iff.mpr ⟨_, hrun, ?_⟩
  rw [← htime]
  rfl

theorem fire (hs : Laid none m s) : Option.Rel Represents (place s m).fire s.fire := by
  have hempty := hs.ring.queueEmpty
  cases hframe : s.frame with
  | some k =>
      have hp : (place s m).fire = none := by
        rw [State.fire]
        exact if_pos (.inl (by rw [place, hframe]; exact Option.some_ne_none k))
      rw [hp, Timer.State.fire, hframe]
      exact .none
  | none =>
      cases hready : s.ready with
      | nil =>
          rw [hready] at hempty
          have hp : (place s m).fire = none := by
            rw [State.fire]
            exact if_pos (.inr hempty)
          rw [hp, Timer.State.fire, hframe, hready]
          exact .none
      | cons h rest =>
          have hmem : h ∈ s.ready := hready ▸ List.mem_cons_self
          obtain ⟨m₁, hm₁, hs₁⟩ := hs.dequeue hmem
          have hnodup : s.ready.Nodup := List.Nodup.of_map _ (List.nodup_cons.mp hs.ring.nodup).2
          rw [hready] at hempty hs₁ hnodup
          rw [List.erase_cons_head] at hs₁
          obtain ⟨hlt, hidle⟩ := hs.waiting h hmem
          have hs₂ := hs₁.queueInit hidle (List.nodup_cons.mp hnodup).1
          have hhd := List.getElem?_eq_getElem hlt
          obtain ⟨m₂, hm₂, hs₃⟩ := hs₂.uvTimerAgain hhd
          have hhead : (place s m).memory.left .ready = some (.timer h) := by
            refine hs.ring.head.trans ?_
            rw [hready]
            rfl
          have hp : (place s m).fire = some (place
              { ({ s with ready := rest }.uvTimerAgain h).modify h (Handle.call s.time) with
                frame := some h } m₂) := by
            rw [State.fire, if_neg (by simp [place, hframe, hempty]), hhead]
            refine Option.bind_eq_some_iff.mpr ⟨m₁, hm₁, Option.map_eq_some_iff.mpr ⟨_, hm₂, ?_⟩⟩
            exact congrArg (fun time =>
              { (place ({ s with ready := rest }.uvTimerAgain h) m₂).modify h (Handle.call time) with
                frame := some h }) (uvTimerAgain_time { s with ready := rest } h)
          have ht : s.fire = some
              { ({ s with ready := rest }.uvTimerAgain h).modify h (Handle.call s.time) with
                frame := some h } := by
            unfold Timer.State.fire
            split
            · rename_i hready'
              rw [hready] at hready'
              cases hready'
              rfl
            · rename_i hother
              exact absurd hready (hother h rest hframe)
          rw [hp, ht]
          refine .some ⟨m₂, rfl, (hs₃.modify (f := Handle.call s.time) ?_).same rfl rfl rfl⟩
          exact fun _ => ⟨rfl, rfl, rfl⟩

theorem timerStop (hs : Laid none m s) (h : Nat) :
    Option.Rel Represents ((place s m).timerStop h) (s.timerStop h) := by
  cases hhd : s.handles[h]? with
  | none =>
      have hhd' : (place s m).handles[h]? = none := hhd
      rw [State.timerStop, Timer.State.timerStop, hhd, hhd']
      exact .none
  | some hd =>
      have hhd' : (place s m).handles[h]? = some hd := hhd
      rw [State.timerStop, Timer.State.timerStop, hhd, hhd', Option.bind_some, Option.bind_some]
      by_cases hclosed : hd.userClosed
      · rw [if_pos hclosed, if_pos hclosed]
        exact .none
      · rw [if_neg hclosed, if_neg hclosed]
        by_cases hlive : hd.allocated
        · obtain ⟨m', hm', hs', -, -⟩ := hs.uvTimerStop hhd
          rw [if_pos hlive, if_pos hlive, hm']
          exact .some ⟨m', rfl, hs'.modify fun _ => ⟨rfl, rfl, rfl⟩⟩
        · rw [if_neg hlive, if_neg hlive]
          exact .some ⟨m, rfl, hs.modify fun _ => ⟨rfl, rfl, rfl⟩⟩

theorem timerClose (hs : Laid none m s) (h : Nat) :
    Option.Rel Represents ((place s m).timerClose h) (s.timerClose h) := by
  cases hhd : s.handles[h]? with
  | none =>
      have hhd' : (place s m).handles[h]? = none := hhd
      rw [State.timerClose, Timer.State.timerClose, hhd, hhd']
      exact .none
  | some hd =>
      have hhd' : (place s m).handles[h]? = some hd := hhd
      rw [State.timerClose, Timer.State.timerClose, hhd, hhd', Option.bind_some, Option.bind_some]
      by_cases hclosed : hd.userClosed
      · rw [if_pos hclosed, if_pos hclosed]
        exact .none
      · rw [if_neg hclosed, if_neg hclosed]
        have hmarked : Laid none m (s.modify h Handle.markClosed) :=
          hs.modify fun _ => ⟨rfl, rfl, rfl⟩
        have hhd₁ : (s.modify h Handle.markClosed).handles[h]? = some hd.markClosed := by
          rw [getElem?_modify_handles, if_pos rfl, hhd, Option.map_some]
        obtain ⟨m', hm', hs'⟩ := hmarked.uvClose hhd₁ .timerClose
        have hp : ((place s m).modify h Handle.markClosed).uvClose h .timerClose =
            some (place ((s.modify h Handle.markClosed).uvClose h .timerClose) m') := hm'
        rw [hp]
        exact .some ⟨m', rfl, hs'⟩

theorem ret (hs : Laid none m s) : Option.Rel Represents (place s m).ret s.ret := by
  have hframe : (place s m).frame = s.frame := rfl
  rw [State.ret, Timer.State.ret, hframe]
  cases s.frame with
  | none => exact .none
  | some h =>
      have hhandles : (place s m).handles = s.handles := rfl
      rw [Option.bind_some, Option.bind_some, hhandles]
      cases hhd : s.handles[h]? with
      | none => exact .none
      | some hd =>
          rw [Option.bind_some, Option.map_some]
          cases hd.payload with
          | runData =>
              obtain ⟨m', hm', hs'⟩ := hs.uvClose hhd .deleteHandle
              have haborted : (place (s.uvClose h .deleteHandle) m').aborted =
                  (s.uvClose h .deleteHandle).aborted := rfl
              simp only [hm', Option.map_some, haborted]
              by_cases habort : (s.uvClose h .deleteHandle).aborted
              · rw [if_pos habort, if_pos habort]
                exact .some ⟨m', rfl, hs'⟩
              · rw [if_neg habort, if_neg habort]
                refine .some ⟨m', rfl, (hs'.modify (f := Handle.release .runData) ?_).same
                  rfl rfl rfl⟩
                exact fun _ => ⟨rfl, rfl, rfl⟩
          | rootedObject => exact .some ⟨m, rfl, hs.same rfl rfl rfl⟩

end Laid

theorem Laid.idle (hs : Laid none m s) : (place s m).idle = s.idle := by
  rw [State.idle, Timer.State.idle]
  have hempty : (place s m).memory.queueEmpty .ready = s.ready.isEmpty := by
    rw [← List.isEmpty_map (f := Node.timer)]
    exact hs.ring.queueEmpty
  rw [hempty]
  rfl

theorem Laid.finishClose (hs : Laid none m s) (h : Nat) :
    Option.Rel Represents ((place s m).finishClose h) (s.finishClose h) := by
  have hclosing : (place s m).closing = s.closing := rfl
  rw [State.finishClose, Timer.State.finishClose, hs.idle, hclosing]
  by_cases hguard : s.idle ∧ h ∈ s.closing
  · rw [if_pos hguard, if_pos hguard]
    refine .some ⟨m, rfl, (hs.modify (f := Handle.runCloseCb) ?_).same rfl rfl rfl⟩
    intro hd
    unfold Handle.runCloseCb
    split <;> exact ⟨rfl, rfl, rfl⟩
  · rw [if_neg hguard, if_neg hguard]
    exact .none

theorem stepLive_represents (hs : Laid none m s) (l : Label) :
    Option.Rel Represents (stepLive (place s m) l) (Timer.stepLive s l) := by
  cases l with
  | timerRun =>
      obtain ⟨m', hm', hs'⟩ := hs.start .runData 0
      rw [stepLive, hm']
      exact .some ⟨m', rfl, hs'⟩
  | timerRepeat interval =>
      rw [stepLive, Timer.stepLive]
      split
      · obtain ⟨m', hm', hs'⟩ := hs.start .rootedObject interval
        rw [hm']
        exact .some ⟨m', rfl, hs'⟩
      · exact .none
  | timerStop h => exact hs.timerStop h
  | timerClose h => exact hs.timerClose h
  | updateTime hrtime =>
      rw [stepLive, Timer.stepLive, hs.idle]
      have htime : (place s m).time = s.time := rfl
      rw [htime]
      split
      · exact .some ⟨m, rfl, hs.same rfl rfl rfl⟩
      · exact .none
  | runTimers =>
      rw [stepLive, Timer.stepLive, hs.idle]
      by_cases hidle : s.idle
      · have hready : s.ready = [] := by
          rw [Timer.State.idle, Bool.and_eq_true] at hidle
          exact List.isEmpty_iff.mp hidle.2
        obtain ⟨m', hm', hs'⟩ := hs.runTimers hready
        rw [if_pos hidle, if_pos hidle, hm']
        exact .some ⟨m', rfl, hs'⟩
      · rw [if_neg hidle, if_neg hidle]
        exact .none
  | fire => exact hs.fire
  | ret => exact hs.ret
  | finishClose h => exact hs.finishClose h

theorem step_represents (hp : Represents p s) (l : Label) :
    Option.Rel Represents (step p l) (Timer.step s l) := by
  obtain ⟨m, rfl, hs⟩ := hp
  have hempty : (place s m).memory.queueEmpty .ready = s.ready.isEmpty := by
    rw [← List.isEmpty_map (f := Node.timer)]
    exact hs.ring.queueEmpty
  have hguard : ((place s m).aborted ∨ l.byUser ∧ (place s m).frame = none ∧
      (place s m).memory.queueEmpty .ready = false) ↔
      (s.aborted ∨ l.byUser ∧ s.frame = none ∧ s.ready ≠ []) := by
    rw [hempty]
    have hne : s.ready.isEmpty = false ↔ s.ready ≠ [] := by
      cases s.ready <;> simp
    rw [hne]
    rfl
  rw [step, Timer.step]
  by_cases hbusy : s.aborted ∨ l.byUser ∧ s.frame = none ∧ s.ready ≠ []
  · rw [if_pos (hguard.mpr hbusy), if_pos hbusy]
    exact .none
  · rw [if_neg fun hand => hbusy (hguard.mp hand), if_neg hbusy]
    exact stepLive_represents hs l

theorem laid_init : Laid none (Heap.blank.heapInit.queueInit .ready) Timer.machine.init where
  heap := by
    refine ⟨[], ⟨List.nodup_nil, rfl, rfl, ?_, ?_, ?_⟩, ?_, fun a => ?_⟩
    · exact fun i a ha => nomatch ha
    · exact fun i a ha => nomatch ha
    · exact fun i a ha => nomatch ha
    · exact fun i p a b _ ha => nomatch ha
    · refine ⟨fun ha => absurd ha List.not_mem_nil, ?_⟩
      rintro ⟨h, -, ha⟩
      cases ha
  ring := Heap.Ring.queueInit ..
  waiting h hh := absurd hh List.not_mem_nil
  alone h hlt := absurd hlt (Nat.not_lt_zero h)
  fresh h ha := nomatch ha
  distinct h k ha := nomatch ha

/-- The pointers take the steps of the model, and no others. -/
theorem pointers_represent (ls : List Label) :
    Option.Rel Represents (machine.run machine.init ls)
      (Timer.machine.run Timer.machine.init ls) :=
  Machine.lockstep (fun _ _ hp => hp) (fun _ _ l hp => step_represents hp l) ls
    ⟨Heap.blank.heapInit.queueInit .ready, rfl, laid_init⟩

/-- How long the loop may sleep for its timers: for ever without any, not at all when one is due,
never over the next, and where it is less than `INT_MAX` up to the next. -/
structure Timely (p : State) : Prop where
  forever : p.uvNextTimeout = -1 ↔ ∀ hd ∈ p.handles, hd.active = false
  now : p.uvNextTimeout = 0 ↔ ∃ hd ∈ p.handles, hd.active ∧ hd.timeout ≤ p.time
  before : ∀ hd ∈ p.handles, hd.active → p.time < hd.timeout →
    p.time + p.uvNextTimeout ≤ hd.timeout
  until_next : 0 < p.uvNextTimeout → p.uvNextTimeout < 2147483647 →
    ∃ hd ∈ p.handles, hd.active ∧ p.time + p.uvNextTimeout = hd.timeout

theorem active_of_mem (hmem : hd ∈ s.handles) (ha : hd.active) :
    ∃ h, s.handles[h]? = some hd ∧ active s h := by
  obtain ⟨h, hh⟩ := List.getElem?_of_mem hmem
  exact ⟨h, hh, (active_eq hh).trans ha⟩

theorem Laid.timely (hs : Laid none m s) : Timely (place s m) := by
  rcases hs.min_cases with ⟨hmin, hidle⟩ | ⟨h, hmin, ha, hleast⟩
  · have hout : (place s m).uvNextTimeout = -1 := by
      rw [State.uvNextTimeout, show (place s m).memory.min = none from hmin]
    have hnone : ∀ hd ∈ s.handles, hd.active = false := by
      intro hd hmem
      obtain ⟨h, hh⟩ := List.getElem?_of_mem hmem
      exact (active_eq hh).symm.trans (hidle h)
    refine ⟨⟨fun _ => hnone, fun _ => hout⟩, ?_, ?_, ?_⟩
    · rw [hout]
      refine ⟨fun h => absurd h (by decide), ?_⟩
      rintro ⟨hd, hmem, hactive, -⟩
      rw [hnone hd hmem] at hactive
      cases hactive
    · intro hd hmem hactive
      rw [hnone hd hmem] at hactive
      cases hactive
    · rw [hout]
      exact fun h => absurd h (by decide)
  · obtain ⟨hd, hhd, hactive⟩ := exists_handle ha
    have hmem := List.mem_of_getElem? hhd
    have hle : ∀ hd' ∈ s.handles, hd'.active → hd.timeout ≤ hd'.timeout := by
      intro hd' hmem' hactive'
      obtain ⟨k, hk, hak⟩ := active_of_mem hmem' hactive'
      have := timeout_le (hleast k hak)
      rwa [handleAt_timer hhd, handleAt_timer hk] at this
    have hout : (place s m).uvNextTimeout =
        if hd.timeout ≤ s.time then 0
        else if 2147483647 < hd.timeout - s.time then 2147483647
        else ((hd.timeout - s.time : Nat) : Int) := by
      rw [State.uvNextTimeout, show (place s m).memory.min = some (.timer h) from hmin]
      simp only [show handleAt (place s m).handles (.timer h) = hd from handleAt_timer hhd]
      rfl
    refine ⟨?_, ?_, ?_, ?_⟩
    · rw [hout]
      constructor
      · intro hforever
        split at hforever
        · cases hforever
        · split at hforever <;> omega
      · intro hnone
        rw [hnone hd hmem] at hactive
        cases hactive
    · rw [hout]
      constructor
      · intro hnow
        refine ⟨hd, hmem, hactive, ?_⟩
        by_contra hlate
        change ¬ hd.timeout ≤ s.time at hlate
        rw [if_neg hlate] at hnow
        split at hnow <;> omega
      · rintro ⟨hd', hmem', hactive', hdue⟩
        exact if_pos ((hle hd' hmem' hactive').trans hdue)
    · intro hd' hmem' hactive' hlate
      have := hle hd' hmem' hactive'
      change (s.time : Int) + _ ≤ _
      change s.time < hd'.timeout at hlate
      rw [hout]
      split
      · omega
      · split <;> omega
    · rw [hout]
      intro hpos hlt
      refine ⟨hd, hmem, hactive, ?_⟩
      change (s.time : Int) + _ = _
      split
      · rename_i hdue
        rw [if_pos hdue] at hpos
        exact absurd hpos (Int.lt_irrefl 0)
      · rename_i hlate
        rw [if_neg hlate] at hlt
        split
        · rename_i hlong
          rw [if_pos hlong] at hlt
          exact absurd hlt (Int.lt_irrefl _)
        · omega

/-- In every state of a run. -/
theorem next_timeout_timely (ls : List Label) : machine.Always Timely machine.init ls := by
  refine Machine.always_of_step (I := fun p => ∃ s, Represents p s) ?_ ?_
    ⟨_, _, rfl, laid_init⟩
  · rintro p ⟨s, m, rfl, hs⟩
    exact hs.timely
  · rintro p l q ⟨s, hp⟩ hq
    have hrel := step_represents hp l
    rw [show step p l = some q from hq] at hrel
    cases hs : Timer.step s l with
    | none =>
        rw [hs] at hrel
        cases hrel
    | some t =>
        rw [hs] at hrel
        cases hrel with
        | some hrep => exact ⟨t, hrep⟩

end HxcppLuv.Timer.Pointers
