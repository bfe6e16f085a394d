import HxcppLuv.Timer.View

/-!
What every run keeps of a timer: it is in the heap, in the ready queue or in neither, and
in neither once it is closing. On such a timer the steps are short, since a stop does the
same wherever the timer is.
-/

namespace HxcppLuv.Timer

theorem Handle.setActive_false {hd : Handle} (hactive : hd.active = false) :
    hd.setActive false = hd := by
  rw [setActive, ← hactive]

namespace View

variable {v : View}

theorem uvTimerStop_eq (hqueued : v.queued ≤ 1) (hactive : v.handle.active → v.queued = 0) :
    v.uvTimerStop = { v.on (Handle.setActive false) with queued := 0 } := by
  unfold uvTimerStop
  split
  · rw [on, hactive ‹_›]
  · have hzero : v.queued - 1 = 0 := by omega
    rw [on, Handle.setActive_false (eq_false_of_ne_true ‹_›), hzero]

theorem uvClose_eq {cb : CloseCb} (hqueued : v.queued ≤ 1)
    (hactive : v.handle.active → v.queued = 0) (hlive : v.handle.allocated)
    (hopen : v.handle.closing = false) :
    v.uvClose cb = { v.on (fun hd => (hd.countClose.setActive false).setClosing cb) with
      queued := 0, pending := v.pending + 1 } := by
  unfold uvClose
  rw [if_neg (by simp [hlive]), if_neg (by simp [hopen]),
    uvTimerStop_eq (v := v.on Handle.countClose) hqueued hactive]
  rfl

end View

structure Core (v : View) : Prop where
  queued : v.queued ≤ 1
  active : v.handle.active → v.queued = 0 ∧ v.handle.closing = false
  closing : v.handle.closing → v.queued = 0
  pending : v.pending ≤ 1
  waiting : 0 < v.pending → v.handle.closing ∧ v.handle.allocated
  deleted : v.handle.allocated = false → v.handle.closing
  running : v.running → v.handle.allocated
  oneShot : v.handle.payload = .runData → v.handle.repeatValue = 0
  byUser : v.handle.payload = .rootedObject → v.handle.closing → v.handle.userClosed

namespace Core

variable {v : View}

theorem fresh {l : Label} {payload : Payload} {interval : Int} (time counter : Nat)
    (hstart : Starts l payload interval) : Core (View.fresh time counter payload interval) := by
  cases hstart <;> constructor <;>
    simp [View.fresh, Handle.init, Handle.arm, cUInt64]

theorem opened (hv : Core v) (hqueued : 0 < v.queued) : v.handle.closing = false := by
  by_contra hclosing
  have := hv.closing (by simpa using hclosing)
  omega

theorem live (hv : Core v) (hopen : v.handle.closing = false) : v.handle.allocated := by
  by_contra hfree
  have := hv.deleted (eq_false_of_ne_true hfree)
  simp [hopen] at this

theorem timerStop_eq (hv : Core v) (hlive : v.handle.allocated) :
    v.timerStop = { v.on (fun hd => (hd.setActive false).stop) with queued := 0 } := by
  rw [View.timerStop, if_pos hlive, View.uvTimerStop_eq hv.queued fun h => (hv.active h).1]
  rfl

theorem timerClose_eq (hv : Core v) (hopen : v.handle.closing = false) :
    v.timerClose =
      { v.on (fun hd => (hd.markClosed.countClose.setActive false).setClosing .timerClose) with
        queued := 0, pending := v.pending + 1 } := by
  have hlive := hv.live hopen
  rw [View.timerClose, View.uvClose_eq (v := v.on Handle.markClosed) hv.queued
    (fun h => (hv.active h).1) hlive hopen]
  rfl

theorem ret_eq (hv : Core v) (hopen : v.handle.payload = .runData → v.handle.closing = false) :
    v.ret = match v.handle.payload with
      | .runData =>
          { v.on (fun hd =>
              ((hd.countClose.setActive false).setClosing .deleteHandle).release .runData) with
            queued := 0, pending := v.pending + 1, running := false }
      | .rootedObject => { v with running := false } := by
  unfold View.ret
  cases hp : v.handle.payload with
  | runData =>
      have hopen := hopen hp
      simp only [hopen, Bool.false_eq_true, and_false, if_false]
      rw [View.uvClose_eq hv.queued (fun h => (hv.active h).1) (hv.live hopen) hopen]
      rfl
  | rootedObject => rfl

theorem fire_eq (hv : Core v) (hqueued : 0 < v.queued) (time counter : Nat) :
    v.fire time counter =
      if v.handle.repeatValue = 0 then
        { v.on (Handle.call time) with queued := 0, running := true }
      else
        { v.on (fun hd =>
            (hd.arm time counter hd.repeatValue hd.repeatValue).call time) with
          queued := 0, running := true } := by
  have hzero : v.queued - 1 = 0 := by have := hv.queued; omega
  have hopen := hv.opened hqueued
  unfold View.fire View.uvTimerAgain
  dsimp only
  split
  · rw [hzero]
    rfl
  · rw [hzero, View.uvTimerStop_eq (by simp) (by simp)]
    simp only [View.uvTimerStart, View.on, Handle.setActive, hopen]
    rw [View.uvTimerStop_eq (by simp) (by simp)]
    simp [View.on, Handle.setActive, Handle.arm, Handle.call, hopen]

/-- A change of what the invariant does not speak of. -/
theorem of_same {w : View} (hv : Core v)
    (hhandle : w.handle = { v.handle with
      stopped := w.handle.stopped, userClosed := w.handle.userClosed, history := w.handle.history })
    (huser : v.handle.userClosed → w.handle.userClosed) (hqueued : w.queued = v.queued)
    (hpending : w.pending = v.pending) (hrunning : w.running → v.running) : Core w := by
  obtain ⟨hd, queued, pending, running⟩ := w
  cases hqueued
  cases hpending
  dsimp only at hhandle huser hrunning
  rw [hhandle]
  exact ⟨hv.queued, hv.active, hv.closing, hv.pending, hv.waiting, hv.deleted,
    fun h => hv.running (hrunning h), hv.oneShot, fun hp hc => huser (hv.byUser hp hc)⟩

theorem pending_zero (hv : Core v) (hopen : v.handle.closing = false) : v.pending = 0 := by
  by_contra hpending
  have := (hv.waiting (Nat.pos_of_ne_zero hpending)).1
  simp [hopen] at this

theorem timerStop (hv : Core v) : Core v.timerStop := by
  by_cases hlive : v.handle.allocated
  · rw [hv.timerStop_eq hlive]
    exact ⟨Nat.zero_le _, nofun, fun _ => rfl, hv.pending, hv.waiting, hv.deleted, hv.running,
      hv.oneShot, hv.byUser⟩
  · rw [View.timerStop, if_neg hlive]
    exact hv.of_same rfl id rfl rfl id

theorem timerClose (hv : Core v) : Core v.timerClose := by
  by_cases hopen : v.handle.closing = false
  · have hpending := hv.pending_zero hopen
    rw [hv.timerClose_eq hopen, hpending]
    exact ⟨Nat.zero_le _, nofun, fun _ => rfl, Nat.le_refl _, fun _ => ⟨rfl, hv.live hopen⟩,
      fun _ => rfl, hv.running, hv.oneShot, fun _ _ => rfl⟩
  · have hclosing : (v.on Handle.markClosed).handle.closing = true := eq_true_of_ne_false hopen
    unfold View.timerClose View.uvClose
    dsimp only
    split
    · exact hv.of_same rfl (fun _ => rfl) rfl rfl id
    · exact hv.of_same rfl (fun _ => rfl) rfl rfl id

theorem collect (hv : Core v) (time : Nat) : Core (v.collect time) where
  queued := by
    simp only [View.collect]
    split <;> omega
  active h := by
    simp only [View.collect, View.on, Handle.collect, Bool.and_eq_true, Bool.not_eq_true'] at h
    exact ⟨if_neg (by simp [h.2]), (hv.active h.1).2⟩
  closing h := by
    refine if_neg fun hdue => ?_
    simp only [Handle.isDue, Bool.and_eq_true] at hdue
    cases (hv.active hdue.1).2.symm.trans h
  pending := hv.pending
  waiting := hv.waiting
  deleted := hv.deleted
  running := hv.running
  oneShot := hv.oneShot
  byUser := hv.byUser

theorem fire (hv : Core v) (hqueued : 0 < v.queued) (time counter : Nat) :
    Core (v.fire time counter) := by
  have hopen := hv.opened hqueued
  rw [hv.fire_eq hqueued]
  split
  · exact ⟨Nat.zero_le _, fun _ => ⟨rfl, hopen⟩, fun _ => rfl, hv.pending, hv.waiting, hv.deleted,
      fun _ => hv.live hopen, hv.oneShot, hv.byUser⟩
  · exact ⟨Nat.zero_le _, fun _ => ⟨rfl, hopen⟩, fun _ => rfl, hv.pending, hv.waiting, hv.deleted,
      fun _ => hv.live hopen, hv.oneShot, hv.byUser⟩

theorem ret (hv : Core v) (hrunning : v.running) : Core v.ret := by
  by_cases htwice : v.handle.payload = .runData ∧ v.handle.closing
  · have hlive := hv.running hrunning
    simp only [View.ret, htwice, hlive, View.uvClose, and_self, if_true, Bool.true_eq_false,
      if_false]
    exact hv.of_same rfl id rfl rfl id
  · have hopen : v.handle.payload = .runData → v.handle.closing = false := fun hp =>
      eq_false_of_ne_true fun hclosing => htwice ⟨hp, hclosing⟩
    rw [hv.ret_eq hopen]
    cases hp : v.handle.payload with
    | rootedObject => exact hv.of_same rfl id rfl rfl fun h => by cases h
    | runData =>
        have hpending := hv.pending_zero (hopen hp)
        dsimp only
        rw [hpending]
        refine ⟨Nat.zero_le _, ?_, fun _ => rfl, Nat.le_refl _,
          fun _ => ⟨rfl, hv.live (hopen hp)⟩, fun _ => rfl, ?_, hv.oneShot, ?_⟩
        · intro h
          cases h
        · intro h
          cases h
        · intro hrooted
          cases hp.symm.trans hrooted

theorem finishClose (hv : Core v) (hpending : 0 < v.pending) (hqueued : v.queued = 0)
    (hrunning : v.running = false) : Core v.finishClose := by
  have hclosing := (hv.waiting hpending).1
  have hactive : v.handle.active → False := fun h => by
    cases (hv.active h).2.symm.trans hclosing
  have hlast : v.pending - 1 = 0 := by have := hv.pending; omega
  unfold View.finishClose View.on Handle.runCloseCb
  rw [hqueued, hlast, hrunning]
  cases v.handle.closeCb with
  | deleteHandle =>
      exact ⟨Nat.zero_le _, fun h => (hactive h).elim, fun _ => rfl, Nat.zero_le _, nofun,
        fun _ => hclosing, nofun, hv.oneShot, hv.byUser⟩
  | timerClose =>
      exact ⟨Nat.zero_le _, fun h => (hactive h).elim, fun _ => rfl, Nat.zero_le _, nofun,
        fun _ => hclosing, nofun, hv.oneShot, hv.byUser⟩

theorem move {s : State} {l : Label} {h : Nat} {w : View} (hv : Core v)
    (hm : Move s l h v w) : Core w := by
  cases hm with
  | timerStop hopen => exact hv.timerStop
  | timerClose hopen => exact hv.timerClose
  | collect hqueued hrunning => exact hv.collect s.time
  | fire hhead hqueued hrunning => exact hv.fire hqueued s.time s.counter
  | ret hframe hrunning => exact hv.ret hrunning
  | finishClose hpending hqueued hrunning => exact hv.finishClose hpending hqueued hrunning

end Core

end HxcppLuv.Timer
