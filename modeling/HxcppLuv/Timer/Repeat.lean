import HxcppLuv.Timer.Invariant

/-!
What a repeating timer does while the user leaves it alone. `repeat` passes its interval as
the timeout and as the repeat value, and `uv_timer_again` takes a repeat value of zero for
a timer that does not repeat.
-/

namespace HxcppLuv.Timer

/-- Made by `repeat` with an interval that is not negative, and neither stopped nor closed. -/
def Handle.Kept (hd : Handle) : Prop :=
  hd.payload = .rootedObject ∧ hd.stopped = false ∧ hd.userClosed = false ∧ 0 ≤ hd.interval

instance : DecidablePred Handle.Kept := fun hd =>
  inferInstanceAs (Decidable (hd.payload = .rootedObject ∧ hd.stopped = false ∧
    hd.userClosed = false ∧ 0 ≤ hd.interval))

/-- The timer is armed for when it is due unless its call is about to come, and there has
been a call for each phase that found it due. -/
def Repeats (h : Nat) (s : State) : Prop :=
  ∀ hd ∈ s.handles[h]?, hd.Kept →
    (h ∉ s.ready → hd.active ∧ (hd.timeout : Int) = hd.history.due) ∧
      hd.history.calls + s.ready.count h = hd.history.phases

instance (h : Nat) : DecidablePred (Repeats h) := fun s =>
  inferInstanceAs (Decidable (∀ hd ∈ s.handles[h]?, hd.Kept →
    (h ∉ s.ready → hd.active ∧ (hd.timeout : Int) = hd.history.due) ∧
      hd.history.calls + s.ready.count h = hd.history.phases))

/-- The timer is not called with an interval of zero. -/
def Positive (h : Nat) (s : State) : Label → Prop
  | .fire => s.ready.head? = some h → ∀ hd ∈ s.handles[h]?, hd.Kept → hd.interval ≠ 0
  | .timerRun | .timerRepeat _ | .timerStop _ | .timerClose _ | .updateTime _ | .runTimers
  | .ret | .finishClose _ => True

/-- A clock of nanoseconds in 64 bits leaves the sum of a time and an interval room. -/
theorem clampedTimeout_eq {time timeout : Nat} (htime : time < 2 ^ 45) (hout : timeout < 2 ^ 31) :
    clampedTimeout time timeout = time + timeout := by
  have hmod : (time + timeout) % 2 ^ 64 = time + timeout := Nat.mod_eq_of_lt (by omega)
  unfold clampedTimeout
  rw [hmod]
  exact if_neg (by omega)

theorem cUInt64_of_nonneg {x : Int} (hx : 0 ≤ x) (hlt : x < 2 ^ 31) : (cUInt64 x : Int) = x := by
  have hmod : x % 2 ^ 64 = x := Int.emod_eq_of_lt hx (by omega)
  rw [cUInt64, hmod, Int.toNat_of_nonneg hx]

/-- What a repeating timer keeps in every run. -/
def Paced (v : View) : Prop :=
  v.handle.payload = .rootedObject → 0 ≤ v.handle.interval →
    (v.handle.repeatValue : Int) = v.handle.interval ∧ v.handle.interval < 2 ^ 31

/-- And what it keeps while it repeats. -/
def Repeating (v : View) : Prop :=
  v.handle.Kept →
    (v.queued = 0 → v.handle.active ∧ (v.handle.timeout : Int) = v.handle.history.due) ∧
      v.handle.history.calls + v.queued = v.handle.history.phases

theorem repeats_iff_view {h : Nat} {s : State} :
    Repeats h s ↔ ∀ v, s.view h = some v → Repeating v := by
  constructor
  · intro hs v hv hkept
    obtain ⟨hhd, hqueued, -, -⟩ := State.view_eq_some.mp hv
    obtain ⟨armed, calls⟩ := hs v.handle hhd hkept
    rw [← hqueued]
    exact ⟨fun hzero => armed (List.count_eq_zero.mp hzero), calls⟩
  · intro hs hd hhd hkept
    obtain ⟨v, hv, rfl⟩ := State.view_of_handle hhd
    obtain ⟨-, hqueued, -, -⟩ := State.view_eq_some.mp hv
    obtain ⟨armed, calls⟩ := hs v hv hkept
    rw [hqueued]
    exact ⟨fun hmem => armed (by rw [← hqueued]; exact List.count_eq_zero.mpr hmem), calls⟩

theorem Paced.fresh {l : Label} {payload : Payload} {interval : Int} (time counter : Nat)
    (hstart : Starts l payload interval) : Paced (View.fresh time counter payload interval) := by
  intro hp hnonneg
  cases hstart with
  | timerRun => cases hp
  | timerRepeat hint => exact ⟨cUInt64_of_nonneg hnonneg hint.2, hint.2⟩

theorem Repeating.fresh {l : Label} {payload : Payload} {interval : Int} {time : Nat}
    (counter : Nat) (htime : time < 2 ^ 45) (hstart : Starts l payload interval) :
    Repeating (View.fresh time counter payload interval) := by
  rintro ⟨hp, -, -, hnonneg⟩
  cases hstart with
  | timerRun => cases hp
  | timerRepeat hint =>
      have hnonneg : 0 ≤ interval := hnonneg
      have hpace := cUInt64_of_nonneg hnonneg hint.2
      refine ⟨fun _ => ⟨rfl, ?_⟩, rfl⟩
      simp only [View.fresh, Handle.arm, Handle.init]
      rw [clampedTimeout_eq htime (by omega)]
      push_cast
      rw [hpace]

namespace View

/-- What a timer was made with. -/
def made (v : View) : Payload × Int × Nat :=
  (v.handle.payload, v.handle.interval, v.handle.repeatValue)

theorem uvTimerStop_made (v : View) : v.uvTimerStop.made = v.made := by
  unfold uvTimerStop
  split <;> rfl

theorem uvClose_made (v : View) (cb : CloseCb) : (v.uvClose cb).made = v.made := by
  unfold uvClose
  dsimp only
  split
  · rfl
  · split
    · rfl
    · exact uvTimerStop_made _

end View

theorem Move.made {s : State} {l : Label} {h : Nat} {v w : View} (hcore : Core v)
    (hm : Move s l h v w) : w.made = v.made := by
  cases hm with
  | timerStop hopen =>
      unfold View.timerStop
      split
      · exact v.uvTimerStop_made
      · rfl
  | timerClose hopen => exact View.uvClose_made _ _
  | collect => rfl
  | fire hhead hqueued =>
      rw [hcore.fire_eq hqueued]
      split <;> rfl
  | ret =>
      unfold View.ret
      split
      · dsimp only
        split
        · exact View.uvClose_made _ _
        · exact View.uvClose_made v .deleteHandle
      · rfl
  | finishClose =>
      unfold View.finishClose View.on Handle.runCloseCb
      cases v.handle.closeCb <;> rfl

theorem Paced.move {s : State} {l : Label} {h : Nat} {v w : View} (hcore : Core v)
    (hv : Paced v) (hm : Move s l h v w) : Paced w := by
  have made := hm.made hcore
  simp only [View.made, Prod.mk.injEq] at made
  obtain ⟨payload, interval, repeatValue⟩ := made
  unfold Paced
  rw [payload, interval, repeatValue]
  exact hv

theorem Repeating.collect {v : View} {time : Nat} (hv : Repeating v) (hqueued : v.queued = 0) :
    Repeating (v.collect time) := by
  intro hkept
  obtain ⟨armed, calls⟩ := hv hkept
  obtain ⟨active, timeout⟩ := armed hqueued
  have calls : v.handle.history.calls = v.handle.history.phases := by omega
  by_cases hdue : v.handle.timeout ≤ time
  · have hphase : v.handle.history.due ≤ time := by omega
    simp [View.collect, View.on, Handle.collect, Handle.isDue, active, hdue, hphase, calls]
  · have hphase : ¬ v.handle.history.due ≤ time := by omega
    simp [View.collect, View.on, Handle.collect, Handle.isDue, active, hdue, hphase, calls,
      timeout]

/-- The timer is started again before it is called. -/
theorem Repeating.fire {v : View} {time : Nat} (counter : Nat) (hcore : Core v) (hpace : Paced v)
    (htime : time < 2 ^ 45) (hv : Repeating v) (hqueued : 0 < v.queued)
    (hpos : v.handle.Kept → v.handle.interval ≠ 0) : Repeating (v.fire time counter) := by
  rw [hcore.fire_eq hqueued]
  split
  · intro hkept
    have hpos := hpos hkept
    have := (hpace hkept.1 hkept.2.2.2).1
    omega
  · intro hkept
    have hqueued : v.queued = 1 := by have := hcore.queued; omega
    obtain ⟨hrep, hlt⟩ := hpace hkept.1 hkept.2.2.2
    have calls := (hv hkept).2
    refine ⟨fun _ => ⟨rfl, ?_⟩, ?_⟩
    · simp only [View.on, Handle.call, Handle.arm]
      rw [clampedTimeout_eq htime (by omega)]
      push_cast
      rw [hrep]
    · simp only [View.on, Handle.call, Handle.arm]
      omega

theorem Repeating.move {s : State} {l : Label} {h : Nat} {v w : View} (hcore : Core v)
    (hpace : Paced v) (htime : s.time < 2 ^ 45) (hv : Repeating v)
    (hl : l = .fire → v.handle.Kept → v.handle.interval ≠ 0)
    (hm : Move s l h v w) : Repeating w := by
  have payload : w.handle.payload = v.handle.payload := congrArg Prod.fst (hm.made hcore)
  cases hm with
  | timerStop hopen =>
      rintro ⟨hp, hstopped, -, -⟩
      by_cases hlive : v.handle.allocated
      · rw [hcore.timerStop_eq hlive] at hstopped
        cases hstopped
      · have hclosing := hcore.deleted (eq_false_of_ne_true hlive)
        have huser := hcore.byUser (payload.symm.trans hp) hclosing
        cases huser.symm.trans hopen
  | timerClose hopen =>
      rintro ⟨hp, -, huser, -⟩
      have hclosing : v.handle.closing = false := by
        by_contra hclosing
        have := hcore.byUser (payload.symm.trans hp) (by simpa using hclosing)
        cases this.symm.trans hopen
      rw [hcore.timerClose_eq hclosing] at huser
      cases huser
  | collect hqueued hrunning => exact hv.collect hqueued
  | fire hhead hqueued hrunning => exact hv.fire s.counter hcore hpace htime hqueued (hl rfl)
  | ret hframe hrunning =>
      rintro hkept
      cases hp : v.handle.payload with
      | runData => cases (hkept.1.symm.trans payload).trans hp
      | rootedObject =>
          unfold View.ret at hkept ⊢
          simp only [hp] at hkept ⊢
          exact hv hkept
  | finishClose hpending hqueued hrunning =>
      rintro ⟨hp, -, huser, -⟩
      have hclosed := hcore.byUser (payload.symm.trans hp) (hcore.waiting hpending).1
      have same : v.finishClose.handle.userClosed = v.handle.userClosed := by
        unfold View.finishClose View.on Handle.runCloseCb
        cases v.handle.closeCb <;> rfl
      cases (same.symm.trans huser).symm.trans hclosed

/-- Called with an interval of zero, the timer is not armed again. -/
theorem Repeating.broken {s : State} {h : Nat} {v w : View} (hcore : Core v) (hpace : Paced v)
    (hkept : v.handle.Kept) (hzero : v.handle.interval = 0) (hm : Move s .fire h v w) :
    ¬ Repeating w := by
  cases hm with
  | fire hhead hqueued hrunning =>
      have hrep := (hpace hkept.1 hkept.2.2.2).1
      rw [hcore.fire_eq hqueued, if_pos (by omega)]
      intro hw
      have active := ((hw hkept).1 rfl).1
      have := (hcore.active active).1
      omega

/-- The invariant behind the repetition of the timer `h`. -/
structure Steady (h : Nat) (s : State) : Prop where
  named : s.Named
  time : s.time < 2 ^ 45
  core : All (fun _ => Core) s
  paced : All (fun _ => Paced) s
  repeating : All (fun k v => k = h → Repeating v) s

theorem Positive.at_fire {h : Nat} {s : State} {l : Label} {v w : View} (hl : Positive h s l)
    (hv : s.view h = some v) (hm : Move s l h v w) (hfire : l = .fire) (hkept : v.handle.Kept) :
    v.handle.interval ≠ 0 := by
  subst hfire
  cases hm with
  | fire hhead => exact hl hhead v.handle (State.view_eq_some.mp hv).1 hkept

theorem Steady.step {h : Nat} {s t : State} {l : Label} (hs : Steady h s)
    (hl : Positive h s l) (ht : step s l = some t) : Steady h t where
  named := hs.named.step ht
  time := by
    have := hs.time
    rcases step_time hs.named ht with htime | ⟨hrtime, hlt, htime⟩ <;> omega
  core := hs.core.step hs.named ht (fun _ _ _ hstart => Core.fresh _ _ hstart)
    fun _ _ _ _ hv hm => hv.move hm
  paced := hs.paced.step hs.named ht (fun _ _ _ hstart => Paced.fresh _ _ hstart)
    fun k v _ hview hv hm => hv.move (hs.core k v hview) hm
  repeating := by
    refine hs.repeating.step hs.named ht ?_ ?_
    · intro _ _ _ hstart _
      exact Repeating.fresh _ hs.time hstart
    · intro k v w hview hv hm hk
      subst k
      exact (hv rfl).move (hs.core h v hview) (hs.paced h v hview) hs.time
        (fun hfire => hl.at_fire hview hm hfire) hm

theorem exists_zero {h : Nat} {s t : State} {l : Label} (hs : s.Named)
    (hl : ¬ Positive h s l) (ht : step s l = some t) :
    ∃ w v, t.view h = some w ∧ s.view h = some v ∧ v.handle.Kept ∧ v.handle.interval = 0 ∧
      Move s .fire h v w := by
  cases step_shape hs ht with
  | starts hstart => cases hstart <;> exact absurd trivial hl
  | collects | ticks => exact absurd trivial hl
  | @moves _ k v f _ hv hlocal hm =>
      have hview := hlocal.at_view hv
      generalize f v = w at hm hview
      cases hm with
      | timerStop | timerClose | collect | ret | finishClose => exact absurd trivial hl
      | fire hhead hqueued hrunning =>
          simp only [Positive, Classical.not_imp, not_forall, not_not] at hl
          obtain ⟨hhead', hd, hhd, hkept, hzero⟩ := hl
          cases hhead.symm.trans hhead'
          cases (State.view_eq_some.mp hv).1.symm.trans hhd
          exact ⟨_, _, hview, hv, hkept, hzero, .fire hhead hqueued hrunning⟩

/-- A repeating timer keeps repeating, exactly as long as its interval is not zero when it
is called. -/
theorem repeats_iff (h : Nat) (ls : List Label) :
    machine.Always (Repeats h) machine.init ls ↔
      machine.Throughout (Positive h) machine.init ls := by
  apply Machine.always_iff_throughout (I := Steady h)
  · intro s hs
    exact repeats_iff_view.mpr fun v hv => hs.repeating h v hv rfl
  · intro s l t hs hl ht
    exact hs.step hl ht
  · intro s l t hs hl ht hrep
    obtain ⟨w, v, hw, hv, hkept, hzero, hm⟩ := exists_zero hs.named hl ht
    exact Repeating.broken (hs.core h v hv) (hs.paced h v hv) hkept hzero hm
      (repeats_iff_view.mp hrep w hw)
  · have none : ∀ k v, machine.init.view k ≠ some v := by simp [State.view, machine]
    refine ⟨fun h _ => rfl, by decide, ?_, ?_, ?_⟩ <;>
      exact fun k v hv => absurd hv (none k v)

/-- The timer of `Timer.repeat` with an interval of zero is called once. -/
theorem zero_fires_once :
    ¬ machine.Always (Repeats 0) machine.init [.timerRepeat 0, .runTimers, .fire, .ret] := by
  decide

end HxcppLuv.Timer
