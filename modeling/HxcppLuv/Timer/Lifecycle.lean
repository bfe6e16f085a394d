import HxcppLuv.Timer.Invariant

/-!
Who closes a timer and who frees what it was given. A repeating timer is closed by the user
alone. A one-shot is closed by its `RunData` when its task is done, and a close of the
user's is one too many: before the task it deletes the `RunData` as a `RootedObject`, in the
task or after it it is the second.
-/

namespace HxcppLuv.Timer

namespace Handle

/-- Closed once at most, its payload deleted once at most and as what it is and with the
timer at the latest, no task after that, and one task for a one-shot. -/
structure Owned (hd : Handle) : Prop where
  closes : hd.history.closes ≤ 1
  releases : hd.history.releases = [] ∨ hd.history.releases = [hd.payload]
  deleted : hd.allocated = false → hd.history.releases = [hd.payload]
  late : hd.history.late = false
  misused : hd.history.misused = false
  once : hd.payload = .runData → hd.history.calls ≤ 1

instance decidableOwned : DecidablePred Owned := fun hd =>
  decidable_of_iff (hd.history.closes ≤ 1 ∧
      (hd.history.releases = [] ∨ hd.history.releases = [hd.payload]) ∧
      (hd.allocated = false → hd.history.releases = [hd.payload]) ∧
      hd.history.late = false ∧ hd.history.misused = false ∧
      (hd.payload = .runData → hd.history.calls ≤ 1))
    ⟨fun ⟨h₁, h₂, h₃, h₄, h₅, h₆⟩ => ⟨h₁, h₂, h₃, h₄, h₅, h₆⟩,
      fun ⟨h₁, h₂, h₃, h₄, h₅, h₆⟩ => ⟨h₁, h₂, h₃, h₄, h₅, h₆⟩⟩

end Handle

/-- A one-shot that is closing is not closed again, by the user or by its `RunData`, the
close callback of the user's close runs on a repeating timer, and no timer that was deleted
is stopped. -/
def Proper (s : State) : Label → Prop
  | .timerStop h => ∀ hd ∈ s.handles[h]?, hd.allocated
  | .timerClose h => ∀ hd ∈ s.handles[h]?, hd.payload = .runData → hd.closing = false
  | .ret => ∀ h ∈ s.frame, ∀ hd ∈ s.handles[h]?, hd.payload = .runData → hd.closing = false
  | .finishClose h =>
      ∀ hd ∈ s.handles[h]?, hd.closeCb = .timerClose → hd.payload = .rootedObject
  | .timerRun | .timerRepeat _ | .updateTime _ | .runTimers | .fire => True

/-- What runs keep in which no timer has two owners. -/
structure Life (v : View) : Prop where
  core : Core v
  closes : v.handle.history.closes = if v.handle.closing then 1 else 0
  opened : v.handle.closing = false → v.handle.history.releases = []
  late : v.handle.history.late = false
  misused : v.handle.history.misused = false
  repeating : v.handle.payload = .rootedObject → v.handle.closing →
    v.handle.closeCb = .timerClose ∧
      v.handle.history.releases = if v.handle.allocated then [] else [.rootedObject]
  oneShot : v.handle.payload = .runData → v.handle.closing →
    v.handle.closeCb = .deleteHandle ∧ v.handle.history.releases = [.runData] ∨
      v.handle.closeCb = .timerClose ∧ v.handle.history.releases = [] ∧ v.handle.allocated
  once : v.handle.payload = .runData →
    v.handle.history.calls + v.queued + (if v.handle.active then 1 else 0) ≤ 1

theorem Life.releases {v : View} (hv : Life v) :
    v.handle.history.releases = [] ∧ v.handle.allocated ∨
      v.handle.history.releases = [v.handle.payload] := by
  by_cases hclosing : v.handle.closing
  · cases hp : v.handle.payload with
    | runData =>
        rcases hv.oneShot hp hclosing with ⟨-, released⟩ | ⟨-, kept, hallocated⟩
        · exact .inr released
        · exact .inl ⟨kept, hallocated⟩
    | rootedObject =>
        obtain ⟨-, released⟩ := hv.repeating hp hclosing
        split at released
        · exact .inl ⟨released, ‹_›⟩
        · exact .inr released
  · have hopen := eq_false_of_ne_true hclosing
    refine .inl ⟨hv.opened hopen, ?_⟩
    by_contra hfree
    exact hclosing (hv.core.deleted (eq_false_of_ne_true hfree))

theorem Life.owned {v : View} (hv : Life v) : v.handle.Owned where
  closes := by
    rw [hv.closes]
    split <;> omega
  releases := hv.releases.imp And.left id
  deleted hfree := by
    rcases hv.releases with ⟨-, hallocated⟩ | released
    · simp [hfree] at hallocated
    · exact released
  late := hv.late
  misused := hv.misused
  once hp := by
    have := hv.once hp
    omega

theorem Life.fresh {l : Label} {payload : Payload} {interval : Int} (time counter : Nat)
    (hstart : Starts l payload interval) : Life (View.fresh time counter payload interval) where
  core := Core.fresh time counter hstart
  closes := rfl
  opened _ := rfl
  late := rfl
  misused := rfl
  repeating _ hclosing := by simp [View.fresh, Handle.init, Handle.arm] at hclosing
  oneShot _ hclosing := by simp [View.fresh, Handle.init, Handle.arm] at hclosing
  once _ := by simp [View.fresh, Handle.init, Handle.arm]

/-- What `Proper` says of the timer a move is about. -/
def Fit : Label → View → Prop
  | .timerStop _, v => v.handle.allocated
  | .timerClose _, v | .ret, v => v.handle.payload = .runData → v.handle.closing = false
  | .finishClose _, v => v.handle.closeCb = .timerClose → v.handle.payload = .rootedObject
  | _, _ => True

theorem Life.opened_of_fit {v : View} (hv : Life v) (hopen : v.handle.userClosed = false)
    (hfit : v.handle.payload = .runData → v.handle.closing = false) :
    v.handle.closing = false := by
  cases hp : v.handle.payload with
  | runData => exact hfit hp
  | rootedObject =>
      by_contra hclosing
      simp [hv.core.byUser hp (by simpa using hclosing)] at hopen

namespace Life

variable {v : View}

theorem timerStop (hv : Life v) (hlive : v.handle.allocated) : Life v.timerStop := by
  have core := hv.core.timerStop
  rw [hv.core.timerStop_eq hlive] at core ⊢
  refine ⟨core, hv.closes, hv.opened, hv.late, hv.misused, hv.repeating, hv.oneShot, ?_⟩
  intro hp
  have := hv.once hp
  simp [View.on, Handle.stop, Handle.setActive]
  omega

theorem timerClose (hv : Life v) (hopen : v.handle.closing = false) : Life v.timerClose := by
  have core := hv.core.timerClose
  have kept := hv.opened hopen
  have live := hv.core.live hopen
  rw [hv.core.timerClose_eq hopen] at core ⊢
  refine ⟨core, ?_, ?_, hv.late, hv.misused, ?_, ?_, ?_⟩
  · simp [View.on, Handle.setClosing, Handle.setActive, Handle.countClose,
      Handle.markClosed, hv.closes, hopen]
  · intro hclosing
    cases hclosing
  · intro hp hclosing
    refine ⟨rfl, kept.trans ?_⟩
    exact (if_pos live).symm
  · intro hp hclosing
    exact .inr ⟨rfl, kept, live⟩
  · intro hp
    have := hv.once hp
    simp [View.on, Handle.setClosing, Handle.setActive, Handle.countClose,
      Handle.markClosed]
    omega

theorem collect (hv : Life v) (time : Nat) : Life (v.collect time) := by
  refine ⟨hv.core.collect time, hv.closes, hv.opened, hv.late, hv.misused, hv.repeating,
    hv.oneShot, ?_⟩
  intro hp
  have := hv.once hp
  simp only [View.collect, View.on, Handle.collect, Handle.isDue]
  by_cases hactive : v.handle.active
  · by_cases hdue : v.handle.timeout ≤ time <;> simp_all
  · simp [hactive]
    omega

theorem fire (hv : Life v) (hqueued : 0 < v.queued) (time counter : Nat) :
    Life (v.fire time counter) := by
  have core := hv.core.fire hqueued time counter
  have kept := hv.opened (hv.core.opened hqueued)
  have inactive : v.handle.active = false := by
    by_contra hactive
    have := hv.core.active (by simpa using hactive)
    omega
  rw [hv.core.fire_eq hqueued] at core ⊢
  split
  · refine ⟨?_, hv.closes, hv.opened, ?_, hv.misused, hv.repeating, hv.oneShot, ?_⟩
    · simp_all
    · simp [View.on, Handle.call, hv.late, kept]
    · intro hp
      have := hv.once hp
      simp [View.on, Handle.call, inactive]
      omega
  · refine ⟨?_, hv.closes, hv.opened, ?_, hv.misused, hv.repeating, hv.oneShot, ?_⟩
    · simp_all
    · simp [View.on, Handle.call, Handle.arm, hv.late, kept]
    · intro hp
      have := hv.core.oneShot hp
      contradiction

theorem ret (hv : Life v) (hrunning : v.running)
    (hopen : v.handle.payload = .runData → v.handle.closing = false) : Life v.ret := by
  have core := hv.core.ret hrunning
  rw [hv.core.ret_eq hopen] at core ⊢
  cases hp : v.handle.payload with
  | rootedObject =>
      simp only [hp] at core ⊢
      exact ⟨core, hv.closes, hv.opened, hv.late, hv.misused, hv.repeating, hv.oneShot, hv.once⟩
  | runData =>
      have hopen := hopen hp
      have kept := hv.opened hopen
      simp only [hp] at core ⊢
      refine ⟨core, ?_, ?_, hv.late, hv.misused, ?_, ?_, ?_⟩
      · simp [View.on, Handle.setClosing, Handle.setActive, Handle.countClose,
          Handle.release, hv.closes, hopen]
      · intro hclosing
        cases hclosing
      · intro hrooted
        cases hp.symm.trans hrooted
      · intro hp hclosing
        refine .inl ⟨rfl, ?_⟩
        simp [View.on, Handle.setClosing, Handle.setActive, Handle.countClose,
          Handle.release, kept]
      · intro hp
        have := hv.once hp
        simp [View.on, Handle.setClosing, Handle.setActive, Handle.countClose,
          Handle.release]
        omega

theorem finishClose (hv : Life v) (hpending : 0 < v.pending) (hqueued : v.queued = 0)
    (hrunning : v.running = false)
    (hrooted : v.handle.closeCb = .timerClose → v.handle.payload = .rootedObject) :
    Life v.finishClose := by
  have core := hv.core.finishClose hpending hqueued hrunning
  obtain ⟨hclosing, hlive⟩ := hv.core.waiting hpending
  unfold View.finishClose View.on Handle.runCloseCb at core ⊢
  cases hcb : v.handle.closeCb with
  | deleteHandle =>
      simp only [hcb] at core ⊢
      refine ⟨core, hv.closes, hv.opened, hv.late, hv.misused, ?_, ?_, hv.once⟩
      · intro hp hclosing
        cases hcb.symm.trans (hv.repeating hp hclosing).1
      · intro hp hclosing
        rcases hv.oneShot hp hclosing with ⟨-, released⟩ | ⟨huser, -⟩
        · exact .inl ⟨rfl, released⟩
        · cases hcb.symm.trans huser
  | timerClose =>
      have hp := hrooted hcb
      have kept := (hv.repeating hp hclosing).2.trans (if_pos hlive)
      simp only [hcb] at core ⊢
      refine ⟨core, hv.closes, ?_, hv.late, hv.misused, ?_, ?_, hv.once⟩
      · intro hopen
        cases hopen.symm.trans hclosing
      · intro _ _
        exact ⟨hcb, by simp [Handle.release, kept]⟩
      · intro hrun
        cases hp.symm.trans hrun

theorem move {s : State} {l : Label} {h : Nat} {w : View} (hv : Life v) (hfit : Fit l v)
    (hm : Move s l h v w) : Life w := by
  cases hm with
  | timerStop hopen => exact hv.timerStop hfit
  | timerClose hopen => exact hv.timerClose (hv.opened_of_fit hopen hfit)
  | collect hqueued hrunning => exact hv.collect s.time
  | fire hhead hqueued hrunning => exact hv.fire hqueued s.time s.counter
  | ret hframe hrunning => exact hv.ret hrunning hfit
  | finishClose hpending hqueued hrunning =>
      exact hv.finishClose hpending hqueued hrunning hfit

end Life

theorem proper_iff_fit {s : State} {l : Label} {h : Nat} {v w : View}
    (hv : s.view h = some v) (hm : Move s l h v w) : Proper s l ↔ Fit l v := by
  have hhd := (State.view_eq_some.mp hv).1
  cases hm with
  | timerStop | timerClose | finishClose =>
      refine ⟨fun hl => hl _ hhd, fun hfit hd hhd' => ?_⟩
      cases hhd.symm.trans hhd'
      exact hfit
  | ret hframe =>
      refine ⟨fun hl => hl h hframe _ hhd, fun hfit k hk hd hhd' => ?_⟩
      cases hframe.symm.trans hk
      cases hhd.symm.trans hhd'
      exact hfit
  | collect | fire => exact Iff.rfl

theorem View.uvClose_closes (v : View) (cb : CloseCb) :
    (v.uvClose cb).handle.history.closes = v.handle.history.closes + 1 := by
  unfold uvClose uvTimerStop
  dsimp only
  split
  · rfl
  · split
    · rfl
    · split <;> rfl

/-- A move outside `Fit` breaks what the timer's owner is promised. -/
theorem Life.broken {s : State} {l : Label} {h : Nat} {v w : View} (hv : Life v)
    (hfit : ¬ Fit l v) (hm : Move s l h v w) : ¬ w.handle.Owned := by
  intro howned
  cases hm with
  | timerStop hopen =>
      have hmisused := howned.misused
      unfold View.timerStop at hmisused
      rw [if_neg (by simpa [Fit] using hfit)] at hmisused
      cases hmisused
  | timerClose hopen =>
      obtain ⟨-, hclosing⟩ := Classical.not_imp.mp hfit
      have closed := hv.closes.trans (if_pos (by simpa using hclosing))
      have closes := howned.closes
      rw [View.timerClose, View.uvClose_closes] at closes
      simp only [View.on, Handle.markClosed, closed] at closes
      omega
  | ret hframe hrunning =>
      obtain ⟨hp, hclosing⟩ := Classical.not_imp.mp hfit
      have hclosing : v.handle.closing := by simpa using hclosing
      have closed := hv.closes.trans (if_pos hclosing)
      have closes := howned.closes
      simp only [View.ret, hp, hclosing, hv.core.running hrunning, and_self, if_true,
        View.uvClose_closes, closed] at closes
      omega
  | finishClose hpending hqueued hrunning =>
      obtain ⟨hcb, hp⟩ := Classical.not_imp.mp hfit
      have hclosing := (hv.core.waiting hpending).1
      have hrun : v.handle.payload = .runData := by
        cases hpay : v.handle.payload with
        | runData => rfl
        | rootedObject => exact absurd hpay hp
      have released : (v.finishClose).handle.history.releases = [.rootedObject] := by
        rcases hv.oneShot hrun hclosing with ⟨hdelete, -⟩ | ⟨-, kept, -⟩
        · cases hdelete.symm.trans hcb
        · simp [View.finishClose, View.on, Handle.runCloseCb, hcb, Handle.release, kept]
      have payload : (v.finishClose).handle.payload = .runData := by
        simp [View.finishClose, View.on, Handle.runCloseCb, hcb, Handle.release, hrun]
      have := howned.releases
      simp [released, payload] at this
  | collect | fire => exact hfit trivial

/-- The move that is not fit in a step that is not proper. -/
theorem exists_unfit {s t : State} {l : Label} (hs : s.Named) (hl : ¬ Proper s l)
    (ht : step s l = some t) :
    ∃ h v w, s.view h = some v ∧ t.view h = some w ∧ ¬ Fit l v ∧ Move s l h v w := by
  cases step_shape hs ht with
  | starts hstart => cases hstart <;> exact absurd trivial hl
  | moves hv hlocal hm =>
      exact ⟨_, _, _, hv, hlocal.at_view hv, mt (proper_iff_fit hv hm).mpr hl, hm⟩
  | collects | ticks => exact absurd trivial hl

/-- No timer of a run is closed twice, freed twice or as what it is not, or called when it
is gone, exactly as long as every step is proper. -/
theorem lifecycle_iff (ls : List Label) :
    machine.Always (fun s => ∀ hd ∈ s.handles, hd.Owned) machine.init ls ↔
      machine.Throughout Proper machine.init ls := by
  apply Machine.always_iff_throughout (I := fun s => s.Named ∧ All (fun _ => Life) s)
  · rintro s ⟨-, hlife⟩ hd hmem
    obtain ⟨h, hhd⟩ := List.mem_iff_getElem?.mp hmem
    obtain ⟨v, hv, rfl⟩ := State.view_of_handle hhd
    exact (hlife h v hv).owned
  · rintro s l t ⟨hs, hlife⟩ hl ht
    refine ⟨hs.step ht, hlife.step hs ht ?_ ?_⟩
    · intro _ payload interval hstart
      exact Life.fresh s.time s.counter hstart
    · intro h v w hv hkept hm
      exact hkept.move ((proper_iff_fit hv hm).mp hl) hm
  · rintro s l t ⟨hs, hlife⟩ hl ht howned
    obtain ⟨h, v, w, hv, hw, hfit, hm⟩ := exists_unfit hs hl ht
    exact (hlife h v hv).broken hfit hm
      (howned _ (List.mem_iff_getElem?.mpr ⟨h, (State.view_eq_some.mp hw).1⟩))
  · exact ⟨fun h _ => rfl, fun h v hv => by simp [State.view, machine] at hv⟩

/-- A task that closes its own one-shot: the destructor closes it again. -/
theorem task_closes_twice :
    ¬ machine.Always (fun s => ∀ hd ∈ s.handles, hd.Owned) machine.init
      [.timerRun, .runTimers, .fire, .timerClose 0, .ret] := by
  decide

-- Closed before it is due, its `RunData` is deleted as a `RootedObject`.
example : ¬ machine.Always (fun s => ∀ hd ∈ s.handles, hd.Owned) machine.init
    [.timerRun, .timerClose 0, .finishClose 0] := by
  decide

end HxcppLuv.Timer
