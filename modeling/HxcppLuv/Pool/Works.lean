import Mathlib.Data.List.Nodup
import HxcppLuv.Core.Slots
import HxcppLuv.Pool.Steps

/-!
A work is in one place at a time, in every run of the pool: it is run once or cancelled, never
both, and its `done` is called once, with the status that tells which. The works of a kind are
run in the order in which they were submitted, and those of slow I/O on half of the threads.
-/

namespace HxcppLuv.Pool

open Slots

def Worker.holds (w : Nat) (slow : Bool) : Worker → Nat
  | running w' slow' => if w' = w ∧ slow' = slow then 1 else 0
  | _ => 0

/-- How often a work is found in each place. -/
@[ext]
structure Row where
  queued : Nat := 0
  pending : Nat := 0
  fast : Nat := 0
  slow : Nat := 0
  cancelling : Nat := 0
  back : Nat := 0
  started : Nat := 0
  answered : Nat := 0
  ok : Nat := 0
  cancelled : Nat := 0

def State.row (s : State) (w : Nat) : Row where
  queued := s.wq.count (.work w)
  pending := s.slowPending.count w
  fast := total (Worker.holds w false) s.workers
  slow := total (Worker.holds w true) s.workers
  cancelling := s.cancelling.toList.count w
  back := s.loopWq.count w + s.dispatching.count w
  started := s.started.count w
  answered := (s.finished.map Prod.fst).count w
  ok := s.finished.count (w, 0)
  cancelled := s.finished.count (w, ECANCELED)

/-- What a work is in each of the places it goes through. -/
inductive Fits : Option Work → Row → Prop
  | unborn : Fits none {}
  | queued (kind : Kind) (h : kind ≠ .slowIo) : Fits (some ⟨kind, .body, true⟩) { queued := 1 }
  | pending : Fits (some ⟨.slowIo, .body, true⟩) { pending := 1 }
  | fast (kind : Kind) (h : kind ≠ .slowIo) :
      Fits (some ⟨kind, .body, false⟩) { fast := 1, started := 1 }
  | slow : Fits (some ⟨.slowIo, .body, false⟩) { slow := 1, started := 1 }
  | ran (kind : Kind) : Fits (some ⟨kind, .null, true⟩) { back := 1, started := 1 }
  | cancelling (kind : Kind) : Fits (some ⟨kind, .cancelled, true⟩) { cancelling := 1 }
  | cancelled (kind : Kind) : Fits (some ⟨kind, .cancelled, true⟩) { back := 1 }
  | doneRan (kind : Kind) :
      Fits (some ⟨kind, .null, true⟩) { started := 1, answered := 1, ok := 1 }
  | doneCancelled (kind : Kind) :
      Fits (some ⟨kind, .cancelled, true⟩) { answered := 1, cancelled := 1 }

namespace Fits

variable {work : Option Work} {r : Row}

theorem of_none (h : Fits none r) : r = {} := by
  cases h
  rfl

theorem of_queued (h : Fits work r) (hr : 0 < r.queued) :
    ∃ kind, kind ≠ .slowIo ∧ work = some ⟨kind, .body, true⟩ ∧ r = { queued := 1 } := by
  cases h with
  | queued kind hkind => exact ⟨kind, hkind, rfl, rfl⟩
  | _ => cases hr

theorem of_pending (h : Fits work r) (hr : 0 < r.pending) :
    work = some ⟨.slowIo, .body, true⟩ ∧ r = { pending := 1 } := by
  cases h with
  | pending => exact ⟨rfl, rfl⟩
  | _ => cases hr

theorem of_fast (h : Fits work r) (hr : 0 < r.fast) :
    ∃ kind, kind ≠ .slowIo ∧ work = some ⟨kind, .body, false⟩ ∧
      r = { fast := 1, started := 1 } := by
  cases h with
  | fast kind hkind => exact ⟨kind, hkind, rfl, rfl⟩
  | _ => cases hr

theorem of_slow (h : Fits work r) (hr : 0 < r.slow) :
    work = some ⟨.slowIo, .body, false⟩ ∧ r = { slow := 1, started := 1 } := by
  cases h with
  | slow => exact ⟨rfl, rfl⟩
  | _ => cases hr

theorem of_cancelling (h : Fits work r) (hr : 0 < r.cancelling) :
    ∃ kind, work = some ⟨kind, .cancelled, true⟩ ∧ r = { cancelling := 1 } := by
  cases h with
  | cancelling kind => exact ⟨kind, rfl, rfl⟩
  | _ => cases hr

theorem of_back (h : Fits work r) (hr : 0 < r.back) :
    ∃ kind, work = some ⟨kind, .null, true⟩ ∧ r = { back := 1, started := 1 } ∨
      work = some ⟨kind, .cancelled, true⟩ ∧ r = { back := 1 } := by
  cases h with
  | ran kind => exact ⟨kind, .inl ⟨rfl, rfl⟩⟩
  | cancelled kind => exact ⟨kind, .inr ⟨rfl, rfl⟩⟩
  | _ => cases hr

/-- Where a work is that `uv__work_cancel` takes. -/
theorem of_cancel {k : Work} (h : Fits (some k) r) (hlinked : k.linked = true)
    (hfn : k.fn ≠ .null) (hcancelling : r.cancelling = 0) (hanswered : r.answered = 0) :
    r = { queued := 1 } ∨ r = { pending := 1 } ∨ r = { back := 1 } := by
  cases h with
  | queued => exact .inl rfl
  | pending => exact .inr (.inl rfl)
  | cancelled => exact .inr (.inr rfl)
  | fast | slow => cases hlinked
  | ran | doneRan => exact absurd rfl hfn
  | cancelling => cases hcancelling
  | doneCancelled => cases hanswered

end Fits

/-- Every work is in one place, and what that place says it is. -/
def Placed (s : State) : Prop := ∀ w, Fits s.works[w]? (s.row w)

section Rows

variable {s t : State} {i w x : Nat} {k : Worker} {wake : Option Nat}

theorem total_holds_set {b : Bool} {a : Worker} (hi : s.workers[i]? = some a)
    (ha : a.holds x b = 0) :
    total (Worker.holds x b) (s.workers.set i k) =
      total (Worker.holds x b) s.workers + k.holds x b := by
  have := total_set (Worker.holds x b) (b := k) hi
  omega

/-- A change of what no place of a work depends on. -/
theorem Placed.congr (h : Placed s) (hworks : t.works = s.works)
    (hrow : ∀ x, t.row x = s.row x) : Placed t := by
  intro x
  rw [hworks, hrow x]
  exact h x

/-- A change of the place of one work. -/
theorem Placed.move (h : Placed s) (w : Nat)
    (hothers : ∀ x, x ≠ w → t.works[x]? = s.works[x]? ∧ t.row x = s.row x)
    (hw : Fits t.works[w]? (t.row w)) : Placed t := by
  intro x
  by_cases hx : x = w
  · exact hx ▸ hw
  · obtain ⟨hwork, hrow⟩ := hothers x hx
    rw [hwork, hrow]
    exact h x

theorem row_setWorker {a : Worker} (hi : s.workers[i]? = some a) (ha : ∀ w b, a.holds w b = 0)
    (hk : ∀ w b, k.holds w b = 0) : (s.setWorker i k).row x = s.row x := by
  simp only [State.row, State.setWorker, total_holds_set hi (ha _ _), hk, Nat.add_zero]

theorem Placed.setWorker (h : Placed s) {a : Worker} (hi : s.workers[i]? = some a)
    (ha : ∀ w b, a.holds w b = 0) (hk : ∀ w b, k.holds w b = 0) : Placed (s.setWorker i k) :=
  h.congr rfl fun _ => row_setWorker hi ha hk

theorem Placed.signalled (h : Placed s) (ht : Signalled s t) : Placed t := by
  cases ht with
  | woke i hi => exact h.setWorker hi (fun _ _ => rfl) fun _ _ => rfl
  | nobody => exact h

theorem Placed.notified (h : Placed s) (ht : Notified s t) : Placed t := by
  cases ht with
  | signalled ht => exact h.signalled ht
  | busy => exact h

/-- A new work, in the place that fits it. -/
theorem Placed.append (h : Placed s) {work : Work} (hworks : t.works = s.works ++ [work])
    (hrow : ∀ x, x ≠ s.works.length → t.row x = s.row x)
    (hfits : s.row s.works.length = {} → Fits (some work) (t.row s.works.length)) : Placed t := by
  have hnone : s.works[s.works.length]? = none := List.getElem?_eq_none (Nat.le_refl _)
  refine h.move s.works.length (fun x hx => ⟨?_, hrow x hx⟩) ?_
  · rw [hworks, List.getElem?_append]
    split
    · rfl
    · rw [List.getElem?_eq_none (l := s.works) (by omega), List.getElem?_singleton,
        if_neg (by omega)]
  · rw [hworks, List.getElem?_concat_length]
    exact hfits (Fits.of_none (hnone ▸ h s.works.length))

theorem Placed.submitSlow (h : Placed s) {wq : List Item}
    (hwq : ∀ x, wq.count (.work x) = s.wq.count (.work x)) : Placed (s.submitSlow wq) := by
  refine h.append rfl (fun x hx => ?_) fun hempty => ?_
  · simp [State.row, State.submitSlow, hwq, Ne.symm hx]
  · have hrow : (s.submitSlow wq).row s.works.length =
        { s.row s.works.length with pending := (s.row s.works.length).pending + 1 } := by
      simp [State.row, State.submitSlow, hwq]
    rw [hrow, hempty]
    exact .pending

theorem Placed.submitFast (h : Placed s) {kind : Kind} (hkind : kind ≠ .slowIo) :
    Placed (s.submitFast kind) := by
  refine h.append rfl (fun x hx => ?_) fun hempty => ?_
  · simp [State.row, State.submitFast, Ne.symm hx]
  · have hrow : (s.submitFast kind).row s.works.length =
        { s.row s.works.length with queued := (s.row s.works.length).queued + 1 } := by
      simp [State.row, State.submitFast]
    rw [hrow, hempty]
    exact .queued kind hkind

theorem Placed.submitted {kind : Kind} (h : Placed s) (ht : Submitted s kind t) : Placed t := by
  cases ht with
  | scheduled => exact h.submitSlow fun _ => rfl
  | slow _ ht => exact (h.submitSlow fun x => by simp).notified ht
  | fast hkind ht => exact (h.submitFast hkind).notified ht

theorem Placed.cleanup (h : Placed s) :
    Placed { s with wq := s.wq ++ [.exit], exiting := true } :=
  h.congr rfl fun x => by simp [State.row]

theorem works_setWork {f : Work → Work} (hx : x ≠ w) :
    (s.setWork w f).works[x]? = s.works[x]? :=
  List.getElem?_modify_ne _ _ (Ne.symm hx)

theorem works_setWork_self {f : Work → Work} {work : Work} (hw : s.works[w]? = some work) :
    (s.setWork w f).works[w]? = some (f work) := by
  simp [State.setWork, hw]

theorem row_cancelled (hback : s.loopWq.count w + s.dispatching.count w ≤ 1) :
    (s.cancelled w).row w =
      { s.row w with
        queued := (s.row w).queued - 1
        pending := (s.row w).pending - 1
        back := (s.row w).back - 1
        cancelling := 1 } := by
  ext
  case back =>
    simp only [State.row, State.cancelled, List.count_erase_self]
    omega
  all_goals simp [State.row, State.cancelled, State.setWork]

theorem Placed.cancelled (h : Placed s) {work : Work} (hfree : s.free = true)
    (hdone : w ∉ s.finished.map Prod.fst) (hwork : s.works[w]? = some work)
    (hlinked : work.linked = true) (hfn : work.fn ≠ .null) : Placed (s.cancelled w) := by
  have hcancelling : s.cancelling = none := Option.isNone_iff_eq_none.mp hfree
  have hfits := h w
  rw [hwork] at hfits
  have hrow := hfits.of_cancel hlinked hfn (by simp [State.row, hcancelling])
    (List.count_eq_zero.mpr hdone)
  have hback : s.loopWq.count w + s.dispatching.count w ≤ 1 := by
    change (s.row w).back ≤ 1
    rcases hrow with hrow | hrow | hrow <;> simp [hrow]
  refine h.move w (fun x hx => ⟨works_setWork hx, ?_⟩) ?_
  · simp [State.row, State.cancelled, State.setWork, hcancelling, List.count_erase_of_ne, hx,
      Ne.symm hx]
  · have hnew_work : (s.cancelled w).works[w]? = some { work with fn := .cancelled } :=
      works_setWork_self hwork
    rw [row_cancelled hback, hnew_work]
    obtain ⟨kind, fn, linked⟩ := work
    cases hlinked
    rcases hrow with hrow | hrow | hrow <;> rw [hrow] <;> exact .cancelling kind

theorem Placed.requeue (h : Placed s) (hw : s.cancelling = some w) :
    Placed { s with cancelling := none, loopWq := s.loopWq ++ [w], asyncPending := true } := by
  obtain ⟨kind, hwork, hrow⟩ := (h w).of_cancelling (by simp [State.row, hw])
  refine h.move w (fun x hx => ⟨rfl, ?_⟩) ?_
  · simp [State.row, hw, Ne.symm hx]
  · have hnew : State.row { s with
        cancelling := none
        loopWq := s.loopWq ++ [w]
        asyncPending := true } w =
        { s.row w with cancelling := 0, back := (s.row w).back + 1 } := by
      ext <;> simp [State.row, Nat.add_right_comm]
    rw [hnew, hrow]
    exact hwork ▸ .cancelled kind

theorem Placed.startFast (h : Placed s) {rest : List Item} (hi : s.workers[i]? = some .locked)
    (hq : s.wq = .work w :: rest) :
    Placed (s.startFast i w rest) := by
  obtain ⟨kind, hkind, hwork, hrow⟩ := (h w).of_queued (by simp [State.row, hq])
  refine h.move w (fun x hx => ⟨works_setWork hx, ?_⟩) ?_
  · ext
    case fast | slow =>
      simp [State.row, State.startFast, State.start, State.setWork, State.setWorker, total_holds_set hi rfl,
        Worker.holds, Ne.symm hx]
    all_goals simp [State.row, State.startFast, State.start, State.setWork, State.setWorker, hq, Ne.symm hx]
  · have hnew : (s.startFast i w rest).row w =
        { s.row w with
          queued := (s.row w).queued - 1
          fast := (s.row w).fast + 1
          started := (s.row w).started + 1 } := by
      ext
      case fast | slow =>
        simp [State.row, State.startFast, State.start, State.setWork, State.setWorker, total_holds_set hi rfl,
          Worker.holds]
      all_goals simp [State.row, State.startFast, State.start, State.setWork, State.setWorker, hq]
    have hnew_work : (s.startFast i w rest).works[w]? =
        some ⟨kind, .body, false⟩ := works_setWork_self hwork
    rw [hnew, hnew_work, hrow]
    exact .fast kind hkind

theorem Placed.startSlow (h : Placed s) {more : List Nat} {wq : List Item}
    (hi : s.workers[i]? = some .locked) (hq : s.slowPending = w :: more)
    (hwq : ∀ x, wq.count (.work x) = s.wq.count (.work x)) :
    Placed (s.startSlow i w more wq) := by
  obtain ⟨hwork, hrow⟩ := (h w).of_pending (by simp [State.row, hq])
  refine h.move w (fun x hx => ⟨works_setWork hx, ?_⟩) ?_
  · ext
    case fast | slow =>
      simp [State.row, State.startSlow, State.start, State.setWork, State.setWorker,
        total_holds_set hi rfl, Worker.holds, Ne.symm hx]
    all_goals
      simp [State.row, State.startSlow, State.start, State.setWork, State.setWorker, hq, hwq,
        Ne.symm hx]
  · have hnew : (s.startSlow i w more wq).row w =
        { s.row w with
          pending := (s.row w).pending - 1
          slow := (s.row w).slow + 1
          started := (s.row w).started + 1 } := by
      ext
      case fast | slow =>
        simp [State.row, State.startSlow, State.start, State.setWork, State.setWorker,
          total_holds_set hi rfl, Worker.holds]
      all_goals
        simp [State.row, State.startSlow, State.start, State.setWork, State.setWorker, hq, hwq]
    have hnew_work : (s.startSlow i w more wq).works[w]? = some ⟨.slowIo, .body, false⟩ :=
      works_setWork_self hwork
    rw [hnew, hnew_work, hrow]
    exact .slow

theorem Placed.turned (h : Placed s) (hi : s.workers[i]? = some .locked) (ht : Turned s i t) :
    Placed t := by
  cases ht with
  | wait => exact (h.setWorker hi (fun _ _ => rfl) fun _ _ => rfl).congr rfl fun _ => rfl
  | exit _ ht => exact (h.setWorker hi (fun _ _ => rfl) fun _ _ => rfl).signalled ht
  | fast hq => exact h.startFast hi hq
  | behind hq | nothing hq => exact h.congr rfl fun x => by simp [State.row, hq]
  | last hq _ hpending => exact h.startSlow hi hpending fun x => by simp [hq]
  | slow hq _ hpending _ ht => exact (h.startSlow hi hpending fun x => by simp [hq]).notified ht

theorem row_ran {slow : Bool} (hi : s.workers[i]? = some (.running w slow)) :
    (s.ran i w slow).row w =
      { s.row w with
        fast := (s.row w).fast - if slow then 0 else 1
        slow := (s.row w).slow - if slow then 1 else 0
        back := (s.row w).back + 1 } := by
  have hset : ∀ b, total (Worker.holds w b) (s.workers.set i (.returning slow)) +
      Worker.holds w b (.running w slow) = total (Worker.holds w b) s.workers :=
    fun b => total_set (Worker.holds w b) hi
  ext
  case fast =>
    have := hset false
    cases slow
    · simp_all [State.row, State.ran, State.setWork, State.setWorker, Worker.holds]
      omega
    · simpa [State.row, State.ran, State.setWork, State.setWorker, Worker.holds] using this
  case slow =>
    have := hset true
    cases slow
    · simpa [State.row, State.ran, State.setWork, State.setWorker, Worker.holds] using this
    · simp_all [State.row, State.ran, State.setWork, State.setWorker, Worker.holds]
      omega
  all_goals simp [State.row, State.ran, State.setWork, State.setWorker, Nat.add_right_comm]

theorem Placed.ran (h : Placed s) {slow : Bool} (hi : s.workers[i]? = some (.running w slow)) :
    Placed (s.ran i w slow) := by
  have hle := le_total (g := Worker.holds w slow) hi
  simp only [Worker.holds, and_self, if_true] at hle
  refine h.move w (fun x hx => ⟨works_setWork hx, ?_⟩) ?_
  · have hset : ∀ b, total (Worker.holds x b) (s.workers.set i (.returning slow)) =
        total (Worker.holds x b) s.workers := fun b =>
      total_holds_set hi (by simp [Worker.holds, Ne.symm hx])
    simp [State.row, State.ran, State.setWork, State.setWorker, hset, Ne.symm hx]
  · have hnew_work : ∀ work, s.works[w]? = some work →
        (s.ran i w slow).works[w]? = some { work with fn := .null, linked := true } :=
      fun work hwork => works_setWork_self (s := s.setWorker i _) hwork
    rw [row_ran hi]
    cases slow with
    | false =>
        obtain ⟨kind, -, hwork, hrow⟩ := (h w).of_fast hle
        rw [hrow, hnew_work _ hwork]
        exact .ran kind
    | true =>
        obtain ⟨hwork, hrow⟩ := (h w).of_slow hle
        rw [hrow, hnew_work _ hwork]
        exact .ran .slowIo

theorem Placed.take (h : Placed s) (hempty : s.dispatching = []) : Placed s.take :=
  h.congr rfl fun x => by simp [State.row, State.take, hempty]

theorem row_done {rest : List Nat} (hq : s.dispatching = w :: rest) (err : Int) :
    State.row { s with dispatching := rest, finished := s.finished ++ [(w, err)] } w =
      { s.row w with
        back := (s.row w).back - 1
        answered := (s.row w).answered + 1
        ok := (s.row w).ok + if err = 0 then 1 else 0
        cancelled := (s.row w).cancelled + if err = ECANCELED then 1 else 0 } := by
  ext <;> simp [State.row, hq, List.count_singleton]

theorem Placed.done (h : Placed s) {rest : List Nat} (hq : s.dispatching = w :: rest) :
    Placed { s with dispatching := rest, finished := s.finished ++ [(w, s.err w)] } := by
  obtain ⟨kind, hback⟩ := (h w).of_back (by simp [State.row, hq])
  refine h.move w (fun x hx => ⟨rfl, by simp [State.row, hq, Ne.symm hx]⟩) ?_
  rw [row_done hq]
  rcases hback with ⟨hwork, hrow⟩ | ⟨hwork, hrow⟩
  · simp only [State.err, hwork, hrow]
    exact .doneRan kind
  · simp only [State.err, hwork, hrow]
    exact .doneCancelled kind

/-- `uv__work_done` takes the queue once it is through with what it took before. -/
def Through (s : State) : Prop := s.called = true → s.dispatching = []

theorem placed_stepped {a : Label} (h : Placed s) (hthrough : Through s) (ht : Stepped s a t) :
    Placed t := by
  cases ht with
  | submit _ _ _ ht => exact h.submitted ht
  | cancel _ hfree hdone hw hlinked hfn => exact h.cancelled hfree hdone hw hlinked hfn
  | busy => exact h
  | requeue hw => exact h.requeue hw
  | cleanup _ _ _ ht => exact h.cleanup.notified ht
  | lock _ hi | wake _ hi =>
      exact (h.setWorker hi (fun _ _ => rfl) fun _ _ => rfl).congr rfl fun _ => rfl
  | turn hi ht => exact h.turned hi ht
  | run hi => exact h.ran hi
  | spurious hi => exact h.setWorker hi (fun _ _ => rfl) fun _ _ => rfl
  | async => exact h.congr rfl fun _ => rfl
  | take _ hcalled => exact h.take (hthrough hcalled)
  | done _ _ hq => exact h.done hq

end Rows

/-- What only the thread of the loop changes, a worker at the end of a work apart. -/
def State.loopSide (s : State) :
    Option Nat × List Nat × Bool × Bool × List Nat × List (Nat × Int) :=
  (s.cancelling, s.loopWq, s.asyncPending, s.called, s.dispatching, s.finished)

section Frame

variable {s t : State} {i : Nat}

theorem loopSide_signalled (ht : Signalled s t) : t.loopSide = s.loopSide := by
  cases ht <;> rfl

theorem loopSide_notified (ht : Notified s t) : t.loopSide = s.loopSide := by
  cases ht with
  | signalled ht => exact loopSide_signalled ht
  | busy => rfl

theorem loopSide_submitted {kind : Kind} (ht : Submitted s kind t) : t.loopSide = s.loopSide := by
  cases ht with
  | scheduled => rfl
  | slow _ ht | fast _ ht => exact (loopSide_notified ht).trans rfl

theorem loopSide_turned (ht : Turned s i t) : t.loopSide = s.loopSide := by
  cases ht with
  | wait | fast | behind | nothing | last => rfl
  | exit _ ht => exact (loopSide_signalled ht).trans rfl
  | slow _ _ _ _ ht => exact (loopSide_notified ht).trans rfl

theorem Through.congr (h : Through s) (ht : t.loopSide = s.loopSide) : Through t := by
  simp only [State.loopSide, Prod.mk.injEq] at ht
  obtain ⟨-, -, -, hcalled, hdispatching, -⟩ := ht
  rw [Through, hcalled, hdispatching]
  exact h

theorem through_stepped {a : Label} (h : Through s) (ht : Stepped s a t) : Through t := by
  cases ht with
  | submit _ _ _ ht => exact h.congr (loopSide_submitted ht)
  | cleanup _ _ _ ht => exact h.congr ((loopSide_notified ht).trans rfl)
  | turn _ ht => exact h.congr (loopSide_turned ht)
  | busy | requeue | lock | wake | run | spurious => exact h
  | cancel => exact fun hcalled => by simp [State.cancelled, h hcalled]
  | async _ _ _ hdispatching => exact fun _ => hdispatching
  | take => exact fun hcalled => nomatch hcalled
  | done _ hcalled => exact fun hcalled' => absurd hcalled' (by simp [hcalled])

end Frame

/-- Every work is run at most once and answered at most once, the answer is 0 for the works that
were run and ECANCELED for those that were not, and none is answered that is being run. -/
structure Exact (s : State) : Prop where
  started : s.started.Nodup
  answered : (s.finished.map Prod.fst).Nodup
  submitted : (∀ w ∈ s.started, w < s.works.length) ∧ ∀ a ∈ s.finished, a.1 < s.works.length
  status : ∀ a ∈ s.finished,
    a.2 = 0 ∧ a.1 ∈ s.started ∨ a.2 = ECANCELED ∧ a.1 ∉ s.started
  running : ∀ w slow, .running w slow ∈ s.workers → w ∈ s.started ∧ w ∉ s.finished.map Prod.fst

theorem count_status {l : List (Nat × Int)} {w : Nat} {e e' : Int} (h : e ≠ e') :
    l.count (w, e) + l.count (w, e') ≤ (l.map Prod.fst).count w := by
  induction l with
  | nil => simp
  | cons a l ih =>
      obtain ⟨x, d⟩ := a
      simp only [List.count_cons, List.map_cons, beq_iff_eq, Prod.mk.injEq]
      split <;> split <;> split <;> grind

section Exact

variable {s : State} {w : Nat}

theorem lt_of_row (h : Placed s) (hw : s.row w ≠ {}) : w < s.works.length := by
  by_contra hlt
  have hnone : s.works[w]? = none := List.getElem?_eq_none (by omega)
  exact hw (Fits.of_none (hnone ▸ h w))

theorem Fits.started_le {work : Option Work} {r : Row} (h : Fits work r) : r.started ≤ 1 := by
  cases h <;> decide

theorem Fits.answered_le {work : Option Work} {r : Row} (h : Fits work r) : r.answered ≤ 1 := by
  cases h <;> decide

/-- Which answer a work that is done has got. -/
theorem Fits.of_answered {work : Option Work} {r : Row} (h : Fits work r) (hr : 0 < r.answered) :
    r = { started := 1, answered := 1, ok := 1 } ∨ r = { answered := 1, cancelled := 1 } := by
  cases h with
  | doneRan => exact .inl rfl
  | doneCancelled => exact .inr rfl
  | _ => cases hr

theorem Placed.exact (h : Placed s) : Exact s where
  started := List.nodup_iff_count_le_one.mpr fun w => (h w).started_le
  answered := List.nodup_iff_count_le_one.mpr fun w => (h w).answered_le
  submitted := by
    constructor
    · intro w hw
      refine lt_of_row h fun hrow => ?_
      exact absurd (congrArg Row.started hrow) (List.count_pos_iff.mpr hw).ne'
    · intro a ha
      refine lt_of_row h fun hrow => ?_
      have hcount := congrArg Row.answered hrow
      exact absurd hcount (List.count_pos_iff.mpr (List.mem_map_of_mem ha)).ne'
  status := by
    rintro ⟨w, e⟩ ha
    have hanswered : 0 < (s.row w).answered := List.count_pos_iff.mpr (List.mem_map_of_mem ha)
    have hcount : 0 < s.finished.count (w, e) := List.count_pos_iff.mpr ha
    -- the one answer is counted once, whatever it is
    have honly : ∀ e', s.finished.count (w, e') = 1 → (s.row w).answered = 1 → e = e' := by
      intro e' he' hone
      by_contra hne
      have hle : s.finished.count (w, e) + s.finished.count (w, e') ≤ (s.row w).answered :=
        count_status hne
      omega
    rcases (h w).of_answered hanswered with hrow | hrow
    · have hstarted : s.started.count w = 1 := congrArg Row.started hrow
      refine .inl ⟨honly 0 (congrArg Row.ok hrow) (congrArg Row.answered hrow), ?_⟩
      exact List.count_pos_iff.mp (by dsimp only; omega)
    · have hstarted : s.started.count w = 0 := congrArg Row.started hrow
      refine .inr ⟨honly _ (congrArg Row.cancelled hrow) (congrArg Row.answered hrow), ?_⟩
      exact List.count_eq_zero.mp hstarted
  running := by
    intro w slow hk
    obtain ⟨i, hi⟩ := List.mem_iff_getElem?.mp hk
    have hle := le_total (g := Worker.holds w slow) hi
    simp only [Worker.holds, and_self, if_true] at hle
    have hrow : (s.row w).started = 1 ∧ (s.row w).answered = 0 := by
      cases slow with
      | false =>
          obtain ⟨-, -, -, hrow⟩ := (h w).of_fast hle
          simp [hrow]
      | true =>
          obtain ⟨-, hrow⟩ := (h w).of_slow hle
          simp [hrow]
    have hstarted : s.started.count w = 1 := hrow.1
    exact ⟨List.count_pos_iff.mp (by omega), List.count_eq_zero.mp hrow.2⟩

end Exact

theorem placed_init (size : Option Int) : Placed (machine size).init := by
  intro w
  have hfree : ∀ b, total (Worker.holds w b) (machine size).init.workers = 0 := by
    intro b
    refine total_eq_zero fun k hk => ?_
    rw [List.eq_of_mem_replicate hk]
    rfl
  have hrow : (machine size).init.row w = {} := by
    simp [State.row, hfree]
    simp [machine]
  rw [hrow]
  exact .unborn

theorem each_work_once (size : Option Int) (as : List Label) :
    (machine size).Always Exact (machine size).init as := by
  refine Machine.always_of_step (I := fun s => Placed s ∧ Through s) ?_ ?_ ⟨placed_init size, ?_⟩
  · exact fun s h => h.1.exact
  · intro s a t h ht
    have hstep := stepped ht
    exact ⟨placed_stepped h.1 h.2 hstep, through_stepped h.2 hstep⟩
  · exact fun h => nomatch h

end HxcppLuv.Pool
