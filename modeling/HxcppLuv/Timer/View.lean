import HxcppLuv.Timer.Model

/-!
What a single timer sees of the loop: its record, its places in the ready queue and in the
list of closing handles, and whether its callback is the one running. Every step of the loop
is at each timer either nothing or one step of that timer alone, so an invariant of all of
them is an invariant of one.
-/

namespace HxcppLuv.Timer

structure View where
  handle : Handle
  queued : Nat
  pending : Nat
  running : Bool

namespace View

def on (f : Handle → Handle) (v : View) : View := { v with handle := f v.handle }

def uvTimerStop (v : View) : View :=
  if v.handle.active then v.on (Handle.setActive false) else { v with queued := v.queued - 1 }

def uvTimerStart (time counter timeout repeatValue : Nat) (v : View) : View :=
  if v.handle.closing then v
  else v.uvTimerStop.on (Handle.arm time counter timeout repeatValue)

def uvTimerAgain (time counter : Nat) (v : View) : View :=
  if v.handle.repeatValue = 0 then v
  else v.uvTimerStop.uvTimerStart time counter v.handle.repeatValue v.handle.repeatValue

def push (v : View) : View := { v with pending := v.pending + 1 }

def uvClose (cb : CloseCb) (v : View) : View :=
  let counted := v.on Handle.countClose
  if v.handle.allocated = false then counted.on Handle.misuse
  else if v.handle.closing then counted
  else (counted.uvTimerStop.on (Handle.setClosing cb)).push

def fresh (time counter : Nat) (payload : Payload) (interval : Int) : View :=
  ⟨(Handle.init payload interval time).arm time counter (cUInt64 interval) (cUInt64 interval),
    0, 0, false⟩

def timerStop (v : View) : View :=
  if v.handle.allocated then v.uvTimerStop.on Handle.stop else v.on Handle.misuse

def timerClose (v : View) : View := (v.on Handle.markClosed).uvClose .timerClose

def collect (time : Nat) (v : View) : View :=
  { v.on (Handle.collect time) with queued := if v.handle.isDue time then 1 else 0 }

def fire (time counter : Nat) (v : View) : View :=
  { ({ v with queued := v.queued - 1 }.uvTimerAgain time counter).on (Handle.call time) with
    running := true }

def ret (v : View) : View :=
  match v.handle.payload with
  | .runData =>
      let w := v.uvClose .deleteHandle
      if v.handle.allocated ∧ v.handle.closing then w
      else { w.on (Handle.release .runData) with running := false }
  | .rootedObject => { v with running := false }

def finishClose (v : View) : View :=
  { v.on Handle.runCloseCb with pending := v.pending - 1 }

end View

namespace State

def view (s : State) (h : Nat) : Option View :=
  s.handles[h]?.map fun hd => ⟨hd, s.ready.count h, s.closing.count h, s.frame == some h⟩

/-- What a view is made of, also where there is no timer. -/
def spot (s : State) (h : Nat) : Option Handle × Nat × Nat × Bool :=
  (s.handles[h]?, s.ready.count h, s.closing.count h, s.frame == some h)

theorem view_of_spot {s t : State} {h : Nat} (hspot : t.spot h = s.spot h) :
    t.view h = s.view h := by
  simp only [spot, Prod.mk.injEq] at hspot
  simp [view, hspot]

theorem view_eq_some {s : State} {h : Nat} {v : View} : s.view h = some v ↔
    s.handles[h]? = some v.handle ∧ s.ready.count h = v.queued ∧
      s.closing.count h = v.pending ∧ (s.frame == some h) = v.running := by
  cases v
  simp only [view, Option.map_eq_some_iff, View.mk.injEq]
  constructor
  · rintro ⟨hd, hhd, rfl, rest⟩
    exact ⟨hhd, rest⟩
  · rintro ⟨hhd, rest⟩
    exact ⟨_, hhd, rfl, rest⟩

theorem view_of_handle {s : State} {h : Nat} {hd : Handle} (hhd : s.handles[h]? = some hd) :
    ∃ v, s.view h = some v ∧ v.handle = hd := by
  simp [view, hhd]

/-- A stop touches the timer and the ready queue. -/
@[simp] theorem uvTimerStop_same (s : State) (h : Nat) :
    (s.uvTimerStop h).time = s.time ∧ (s.uvTimerStop h).counter = s.counter ∧
      (s.uvTimerStop h).closing = s.closing ∧ (s.uvTimerStop h).frame = s.frame ∧
      (s.uvTimerStop h).aborted = s.aborted := by
  unfold uvTimerStop
  split <;> exact ⟨rfl, rfl, rfl, rfl, rfl⟩

theorem uvTimerStart_frame (s : State) (h timeout repeatValue : Nat) :
    (s.uvTimerStart h timeout repeatValue).frame = s.frame := by
  unfold uvTimerStart
  split
  · rfl
  · simp [modify]

theorem uvTimerAgain_frame (s : State) (h : Nat) : (s.uvTimerAgain h).frame = s.frame := by
  unfold uvTimerAgain
  split
  · rfl
  · split
    · rfl
    · simp [uvTimerStart_frame]

theorem uvClose_frame (s : State) (h : Nat) (cb : CloseCb) :
    (s.uvClose h cb).frame = s.frame := by
  unfold uvClose
  split
  · rfl
  · dsimp only
    split
    · rfl
    · split
      · rfl
      · simp [modify]

/-- Closing aborts exactly on a timer that is closing. -/
theorem uvClose_aborted {s : State} {h : Nat} {hd : Handle} (cb : CloseCb)
    (hhd : s.handles[h]? = some hd) (hlive : s.aborted = false) :
    (s.uvClose h cb).aborted = (hd.allocated && hd.closing) := by
  unfold uvClose
  rw [hhd]
  dsimp only
  split
  · simp_all [modify]
  · split
    · simp_all
    · simp_all [modify]

end State

/-- From `s` to `t` the timer `h` does `f`, and nothing else of what is seen changes. -/
structure Local (h : Nat) (f : View → View) (s t : State) : Prop where
  here : t.view h = (s.view h).map f
  there : ∀ k, h ≠ k → t.spot k = s.spot k
  time : t.time = s.time

namespace Local

variable {h : Nat} {s t u : State} {f g : View → View}

theorem refl : Local h id s s := ⟨by simp, fun _ _ => rfl, rfl⟩

theorem trans (hf : Local h f s t) (hg : Local h g t u) : Local h (g ∘ f) s u := by
  refine ⟨?_, fun k hk => (hg.there k hk).trans (hf.there k hk), hg.time.trans hf.time⟩
  rw [hg.here, hf.here, Option.map_map]

theorem congr (hf : Local h f s t) (hfg : ∀ v, s.view h = some v → f v = g v) :
    Local h g s t := by
  refine ⟨?_, hf.there, hf.time⟩
  rw [hf.here]
  cases hv : s.view h with
  | none => rfl
  | some v => simp [hfg v hv]

theorem congr_at {v : View} (hf : Local h f s t) (hv : s.view h = some v) (hfg : f v = g v) :
    Local h g s t :=
  hf.congr fun w hw => by rwa [← Option.some.inj (hv.symm.trans hw)]

theorem congr_none (hf : Local h f s t) (hnone : s.handles[h]? = none) : Local h g s t :=
  hf.congr fun w hw => by simp [State.view, hnone] at hw

theorem at_view (hf : Local h f s t) {v : View} (hv : s.view h = some v) :
    t.view h = some (f v) := by
  rw [hf.here, hv, Option.map_some]

theorem modify (f : Handle → Handle) : Local h (View.on f) s (s.modify h f) := by
  refine ⟨?_, fun k hk => by simp [State.spot, State.modify, hk], rfl⟩
  cases hhd : s.handles[h]? <;> simp [State.view, State.modify, hhd, View.on]

theorem erase_ready :
    Local h (fun v => { v with queued := v.queued - 1 }) s
      { s with ready := s.ready.erase h } := by
  refine ⟨?_, fun k hk => by simp [State.spot, List.count_erase_of_ne (Ne.symm hk)], rfl⟩
  cases hhd : s.handles[h]? <;> simp [State.view, hhd]

theorem uvTimerStop : Local h View.uvTimerStop s (s.uvTimerStop h) := by
  unfold State.uvTimerStop
  split
  · refine (modify _).congr fun v hv => ?_
    simp_all [State.view_eq_some.mp hv, View.uvTimerStop]
  · refine erase_ready.congr fun v hv => ?_
    simp_all [State.view_eq_some.mp hv, View.uvTimerStop]

theorem uvTimerStart {timeout repeatValue : Nat} :
    Local h (View.uvTimerStart s.time s.counter timeout repeatValue) s
      (s.uvTimerStart h timeout repeatValue) := by
  unfold State.uvTimerStart
  split
  · refine refl.congr fun v hv => ?_
    simp_all [State.view_eq_some.mp hv, View.uvTimerStart]
  · have armed : Local h _ s { (s.uvTimerStop h).modify h
        (Handle.arm s.time s.counter timeout repeatValue) with counter := s.counter + 1 } :=
      have stopped := uvTimerStop.trans (modify (Handle.arm s.time s.counter timeout repeatValue))
      ⟨stopped.here, stopped.there, stopped.time⟩
    refine armed.congr fun v hv => ?_
    simp_all [State.view_eq_some.mp hv, View.uvTimerStart]

theorem uvTimerAgain :
    Local h (View.uvTimerAgain s.time s.counter) s (s.uvTimerAgain h) := by
  unfold State.uvTimerAgain
  split
  · exact refl.congr_none ‹_›
  · rename_i hd hhd
    obtain ⟨v, hv, rfl⟩ := State.view_of_handle hhd
    split
    · refine refl.congr_at hv ?_
      simp_all [View.uvTimerAgain]
    · refine (uvTimerStop.trans uvTimerStart).congr_at hv ?_
      simp_all [View.uvTimerAgain]

theorem push_closing : Local h View.push s { s with closing := h :: s.closing } := by
  refine ⟨?_, fun k hk => by simp [State.spot, hk], rfl⟩
  cases hhd : s.handles[h]? <;> simp [State.view, hhd, View.push]

theorem erase_closing :
    Local h (fun v => { v with pending := v.pending - 1 }) s
      { s with closing := s.closing.erase h } := by
  refine ⟨?_, fun k hk => by simp [State.spot, List.count_erase_of_ne (Ne.symm hk)], rfl⟩
  cases hhd : s.handles[h]? <;> simp [State.view, hhd]

theorem uvClose {cb : CloseCb} : Local h (View.uvClose cb) s (s.uvClose h cb) := by
  unfold State.uvClose
  split
  · exact refl.congr_none ‹_›
  · rename_i hd hhd
    obtain ⟨v, hv, rfl⟩ := State.view_of_handle hhd
    have counted : Local h (View.on Handle.countClose) s (s.modify h Handle.countClose) :=
      modify Handle.countClose
    dsimp only
    split
    · refine (counted.trans (modify Handle.misuse)).congr_at hv ?_
      simp_all [View.uvClose]
    · split
      · have aborted : Local h (View.on Handle.countClose) s
            { s.modify h Handle.countClose with aborted := true } :=
          ⟨counted.here, counted.there, counted.time⟩
        refine aborted.congr_at hv ?_
        simp_all [View.uvClose]
      · have closed := ((counted.trans uvTimerStop).trans
          (modify (Handle.setClosing cb))).trans push_closing
        simp only [State.modify, State.uvTimerStop_same] at closed ⊢
        refine closed.congr_at hv ?_
        simp_all [View.uvClose]

theorem pop {rest : List Nat} (hready : s.ready = h :: rest) :
    Local h (fun v => { v with queued := v.queued - 1 }) s { s with ready := rest } := by
  have popped := erase_ready (h := h) (s := s)
  rwa [hready, List.erase_cons_head] at popped

theorem enter (hframe : s.frame = none) :
    Local h (fun v => { v with running := true }) s { s with frame := some h } := by
  refine ⟨?_, fun k hk => by simp [State.spot, hframe, hk], rfl⟩
  cases hhd : s.handles[h]? <;> simp [State.view, hhd]

theorem leave (hframe : s.frame = some h) :
    Local h (fun v => { v with running := false }) s { s with frame := none } := by
  refine ⟨?_, fun k hk => by simp [State.spot, hframe, hk], rfl⟩
  cases hhd : s.handles[h]? <;> simp [State.view, hhd]

theorem timerStop (ht : s.timerStop h = some t) :
    ∃ v, s.view h = some v ∧ v.handle.userClosed = false ∧ Local h View.timerStop s t := by
  obtain ⟨hd, hhd, ht⟩ := Option.bind_eq_some_iff.mp ht
  obtain ⟨v, hv, rfl⟩ := State.view_of_handle hhd
  split at ht
  · cases ht
  · refine ⟨v, hv, eq_false_of_ne_true ‹_›, ?_⟩
    split at ht
    · cases ht
      refine (uvTimerStop.trans (modify _)).congr_at hv ?_
      simp_all [View.timerStop]
    · cases ht
      refine (modify _).congr_at hv ?_
      simp_all [View.timerStop]

theorem timerClose (ht : s.timerClose h = some t) :
    ∃ v, s.view h = some v ∧ v.handle.userClosed = false ∧ Local h View.timerClose s t := by
  obtain ⟨hd, hhd, ht⟩ := Option.bind_eq_some_iff.mp ht
  obtain ⟨v, hv, rfl⟩ := State.view_of_handle hhd
  split at ht
  · cases ht
  · cases ht
    exact ⟨v, hv, eq_false_of_ne_true ‹_›, (modify _).trans uvClose⟩

theorem fire (ht : s.fire = some t) :
    ∃ h, s.ready.head? = some h ∧ s.frame = none ∧
      Local h (View.fire s.time s.counter) s t := by
  unfold State.fire at ht
  split at ht
  · rename_i h rest hframe hready
    cases ht
    refine ⟨h, by simp [hready], hframe, ?_⟩
    have again := uvTimerAgain (h := h) (s := { s with ready := rest })
    have called := ((pop hready).trans again).trans (modify (Handle.call s.time))
    refine called.trans (enter ?_)
    simp [State.modify, State.uvTimerAgain_frame, hframe]
  · cases ht

theorem ret (ht : s.ret = some t) (hlive : s.aborted = false) :
    ∃ h v, s.frame = some h ∧ s.view h = some v ∧ Local h View.ret s t := by
  obtain ⟨h, hframe, ht⟩ := Option.bind_eq_some_iff.mp ht
  obtain ⟨hd, hhd, rfl⟩ := Option.map_eq_some_iff.mp ht
  obtain ⟨v, hv, rfl⟩ := State.view_of_handle hhd
  refine ⟨h, v, hframe, hv, ?_⟩
  cases hp : v.handle.payload with
  | rootedObject =>
      refine (leave hframe).congr_at hv ?_
      simp [View.ret, hp]
  | runData =>
      have closed : Local h (View.uvClose .deleteHandle) s _ := uvClose
      have aborts := State.uvClose_aborted .deleteHandle hhd hlive
      dsimp only
      split
      · refine closed.congr_at hv ?_
        simp_all [View.ret]
      · have released := closed.trans (modify (Handle.release .runData))
        refine (released.trans (leave ?_)).congr_at hv ?_
        · simpa [State.modify, State.uvClose_frame] using hframe
        · simp_all [View.ret]

theorem finishClose (ht : s.finishClose h = some t) :
    s.idle ∧ h ∈ s.closing ∧ Local h View.finishClose s t := by
  obtain ⟨⟨hidle, hmem⟩, rfl⟩ := Machine.of_guard ht
  exact ⟨hidle, hmem, (modify _).trans erase_closing⟩

theorem view_cases (hl : Local h f s t) {k : Nat} {w : View} (hw : t.view k = some w) :
    s.view k = some w ∨ k = h ∧ ∃ v, s.view h = some v ∧ w = f v := by
  by_cases hk : h = k
  · subst k
    rw [hl.here] at hw
    obtain ⟨v, hv, rfl⟩ := Option.map_eq_some_iff.mp hw
    exact .inr ⟨rfl, v, hv, rfl⟩
  · exact .inl ((State.view_of_spot (hl.there k hk)).symm.trans hw)

end Local

namespace State

variable {s t : State}

theorem count_due {h : Nat} {hd : Handle} (hhd : s.handles[h]? = some hd) :
    s.due.count h = if hd.isDue s.time then 1 else 0 := by
  obtain ⟨hlt, rfl⟩ := List.getElem?_eq_some_iff.mp hhd
  have hnodup : ((List.range s.handles.length).filter fun h =>
      s.handles[h]?.any (Handle.isDue s.time)).Nodup := List.nodup_range.filter _
  unfold due
  rw [(List.perm_insertionSort _ _).count_eq, hnodup.count]
  simp [hlt]

theorem view_runTimers (h : Nat) :
    State.view { s with handles := s.handles.map (Handle.collect s.time), ready := s.due } h =
      (s.view h).map (View.collect s.time) := by
  cases hhd : s.handles[h]? with
  | none => simp [view, hhd]
  | some hd => simp [view, hhd, View.collect, View.on, count_due hhd]

theorem count_due_none {h : Nat} (hnone : s.handles[h]? = none) : s.due.count h = 0 := by
  apply List.count_eq_zero.mpr
  intro hmem
  have hmem := (List.perm_insertionSort _ _).mem_iff.mp hmem
  simp [hnone] at hmem

/-- What the queues name are timers there are. -/
def Named (s : State) : Prop := ∀ h, s.handles[h]? = none → s.spot h = (none, 0, 0, false)

theorem Named.of_local {h : Nat} {f : View → View} {v : View} (hs : s.Named)
    (hv : s.view h = some v) (hl : Local h f s t) : t.Named := by
  intro k hk
  by_cases hkh : h = k
  · have hw := hl.at_view hv
    rw [hkh] at hw
    rw [(view_eq_some.mp hw).1] at hk
    cases hk
  · have hspot := hl.there k hkh
    rw [hspot]
    apply hs
    have handles := congrArg Prod.fst hspot
    exact handles.symm.trans hk

theorem Named.exists_view {h : Nat} (hs : s.Named) (hmem : h ∈ s.ready ∨ h ∈ s.closing) :
    ∃ v, s.view h = some v := by
  cases hhd : s.handles[h]? with
  | none =>
      have hspot := hs h hhd
      simp only [spot, Prod.mk.injEq, List.count_eq_zero] at hspot
      exact (hmem.elim hspot.2.1 hspot.2.2.1).elim
  | some hd =>
      obtain ⟨v, hv, -⟩ := view_of_handle hhd
      exact ⟨v, hv⟩

theorem view_start (hs : s.Named) (payload : Payload) (interval : Int) :
    (s.start payload interval).view s.handles.length =
        some (View.fresh s.time s.counter payload interval) ∧
      ∀ k, s.handles.length ≠ k → (s.start payload interval).spot k = s.spot k := by
  have started : Local s.handles.length _
      { s with handles := s.handles ++ [Handle.init payload interval s.time] }
      (s.start payload interval) := Local.uvTimerStart
  have hnone := hs s.handles.length (by simp)
  simp only [spot, Prod.mk.injEq] at hnone
  obtain ⟨-, hready, hclosing, hframe⟩ := hnone
  constructor
  · refine (started.at_view (v := ⟨Handle.init payload interval s.time, 0, 0, false⟩) ?_).trans ?_
    · simp [view, hready, hclosing, hframe]
    · simp [View.uvTimerStart, View.uvTimerStop, Handle.init, View.fresh, View.on]
  · intro k hk
    refine (started.there k hk).trans ?_
    rcases Nat.lt_or_gt_of_ne (Ne.symm hk) with hlt | hgt
    · simp [spot, List.getElem?_append_left hlt]
    · simp [spot, List.getElem?_eq_none (Nat.le_of_lt hgt), List.getElem?_append_right
        (Nat.le_of_lt hgt), Nat.sub_ne_zero_of_lt hgt]

end State

/-- The timer a label makes. -/
inductive Starts : Label → Payload → Int → Prop where
  | timerRun : Starts .timerRun .runData 0
  | timerRepeat {interval} : -2 ^ 31 ≤ interval ∧ interval < 2 ^ 31 →
      Starts (.timerRepeat interval) .rootedObject interval

/-- What a step does at the timer it is about. -/
inductive Move (s : State) : Label → Nat → View → View → Prop where
  | timerStop {h v} : v.handle.userClosed = false → Move s (.timerStop h) h v v.timerStop
  | timerClose {h v} : v.handle.userClosed = false → Move s (.timerClose h) h v v.timerClose
  | collect {h v} : v.queued = 0 → v.running = false → Move s .runTimers h v (v.collect s.time)
  | fire {h v} : s.ready.head? = some h → 0 < v.queued → v.running = false →
      Move s .fire h v (v.fire s.time s.counter)
  | ret {h v} : s.frame = some h → v.running = true → Move s .ret h v v.ret
  | finishClose {h v} : 0 < v.pending → v.queued = 0 → v.running = false →
      Move s (.finishClose h) h v v.finishClose

/-- What a step is: a timer is made, a timer moves, all move that are due, or the clock is
read. -/
inductive Shape (s : State) : Label → State → Prop where
  | starts {l payload interval} : Starts l payload interval →
      Shape s l (s.start payload interval)
  | moves {l h v f t} : s.view h = some v → Local h f s t → Move s l h v (f v) → Shape s l t
  | collects : s.idle → Shape s .runTimers
      { s with handles := s.handles.map (Handle.collect s.time), ready := s.due }
  | ticks {hrtime} : hrtime < 2 ^ 64 →
      Shape s (.updateTime hrtime) { s with time := hrtime / 1000000 }

theorem State.idle_eq {s : State} {h : Nat} {v : View} (hidle : s.idle)
    (hv : s.view h = some v) : v.queued = 0 ∧ v.running = false := by
  simp only [idle, Bool.and_eq_true, Option.isNone_iff_eq_none, List.isEmpty_iff] at hidle
  obtain ⟨-, hqueued, -, hrunning⟩ := view_eq_some.mp hv
  exact ⟨by simp [← hqueued, hidle.2], by simp [← hrunning, hidle.1]⟩

theorem step_shape {s t : State} {l : Label} (hs : s.Named) (ht : step s l = some t) :
    Shape s l t := by
  unfold step at ht
  split at ht
  · cases ht
  rename_i hfree
  have hlive : s.aborted = false := eq_false_of_ne_true fun haborted => hfree (.inl haborted)
  cases l with
  | timerRun =>
      cases ht
      exact .starts .timerRun
  | timerRepeat interval =>
      obtain ⟨hint, rfl⟩ := Machine.of_guard ht
      exact .starts (.timerRepeat hint)
  | timerStop h =>
      obtain ⟨v, hv, hopen, hl⟩ := Local.timerStop ht
      exact .moves hv hl (.timerStop hopen)
  | timerClose h =>
      obtain ⟨v, hv, hopen, hl⟩ := Local.timerClose ht
      exact .moves hv hl (.timerClose hopen)
  | updateTime hrtime =>
      obtain ⟨⟨-, hlt, -⟩, rfl⟩ := Machine.of_guard ht
      exact .ticks hlt
  | runTimers =>
      obtain ⟨hidle, rfl⟩ := Machine.of_guard ht
      exact .collects hidle
  | fire =>
      obtain ⟨h, hhead, hframe, hl⟩ := Local.fire ht
      have hmem := List.mem_of_mem_head? hhead
      obtain ⟨v, hv⟩ := hs.exists_view (.inl hmem)
      obtain ⟨-, hqueued, -, hrunning⟩ := State.view_eq_some.mp hv
      refine .moves hv hl (.fire hhead ?_ (by simp [← hrunning, hframe]))
      rw [← hqueued]
      exact List.count_pos_iff.mpr hmem
  | ret =>
      obtain ⟨h, v, hframe, hv, hl⟩ := Local.ret ht hlive
      obtain ⟨-, -, -, hrunning⟩ := State.view_eq_some.mp hv
      exact .moves hv hl (.ret hframe (by simp [← hrunning, hframe]))
  | finishClose h =>
      obtain ⟨hidle, hmem, hl⟩ := Local.finishClose ht
      obtain ⟨v, hv⟩ := hs.exists_view (.inr hmem)
      obtain ⟨-, -, hpending, -⟩ := State.view_eq_some.mp hv
      obtain ⟨hqueued, hrunning⟩ := State.idle_eq hidle hv
      refine .moves hv hl (.finishClose ?_ hqueued hrunning)
      rw [← hpending]
      exact List.count_pos_iff.mpr hmem

theorem State.Named.step {s t : State} {l : Label} (hs : s.Named) (ht : step s l = some t) :
    t.Named := by
  cases step_shape hs ht with
  | starts =>
      obtain ⟨hnew, hold⟩ := view_start hs _ _
      intro k hk
      by_cases hkn : s.handles.length = k
      · rw [← hkn, (view_eq_some.mp hnew).1] at hk
        cases hk
      · have hspot := hold k hkn
        have handles := congrArg Prod.fst hspot
        exact hspot.trans (hs k (handles.symm.trans hk))
  | moves hv hl => exact hs.of_local hv hl
  | collects =>
      intro k hk
      have hk : s.handles[k]? = none := by simpa using hk
      have hspot := hs k hk
      simp only [spot, Prod.mk.injEq] at hspot
      simp [spot, hk, count_due_none hk, hspot.2.2]
  | ticks => exact hs

theorem step_time {s t : State} {l : Label} (hs : s.Named) (ht : step s l = some t) :
    t.time = s.time ∨ ∃ hrtime, hrtime < 2 ^ 64 ∧ t.time = hrtime / 1000000 := by
  cases step_shape hs ht with
  | starts => exact .inl Local.uvTimerStart.time
  | moves hv hl => exact .inl hl.time
  | collects => exact .inl rfl
  | ticks hlt => exact .inr ⟨_, hlt, rfl⟩

/-- `P` holds of what each timer sees. -/
def All (P : Nat → View → Prop) (s : State) : Prop := ∀ h v, s.view h = some v → P h v

/-- The invariant rule for one timer: what holds of a new one and is kept by its moves. -/
theorem All.step {P : Nat → View → Prop} {s t : State} {l : Label} (hP : All P s) (hs : s.Named)
    (ht : step s l = some t)
    (starts : ∀ h payload interval, Starts l payload interval →
      P h (View.fresh s.time s.counter payload interval))
    (moves : ∀ h v w, s.view h = some v → P h v → Move s l h v w → P h w) : All P t := by
  intro k w hw
  cases step_shape hs ht with
  | starts hstart =>
      obtain ⟨hnew, hold⟩ := State.view_start hs _ _
      by_cases hk : s.handles.length = k
      · rw [← hk, hnew] at hw
        cases hw
        exact starts k _ _ hstart
      · exact hP k w ((State.view_of_spot (hold k hk)).symm.trans hw)
  | moves hv hl hm =>
      rcases hl.view_cases hw with hold | ⟨rfl, v, hv', rfl⟩
      · exact hP k w hold
      · cases hv.symm.trans hv'
        exact moves k _ _ hv (hP k _ hv) hm
  | collects hidle =>
      rw [State.view_runTimers] at hw
      obtain ⟨v, hv, rfl⟩ := Option.map_eq_some_iff.mp hw
      obtain ⟨hqueued, hrunning⟩ := State.idle_eq hidle hv
      exact moves k v _ hv (hP k v hv) (.collect hqueued hrunning)
  | ticks => exact hP k w hw

end HxcppLuv.Timer
