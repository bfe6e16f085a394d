import HxcppLuv.Pool.Schedule

/-!
What becomes of the works once nothing new happens: the workers and the loop come to an end after
a bounded number of steps, whatever their order, and then every work that was submitted has been
answered. After the cleanup every worker is gone, and only slow works can be left.
-/

namespace HxcppLuv.Pool

open Slots

/-- Behind `exit_message` there is none but `run_slow_work_message`. -/
def Item.Ahead (a b : Item) : Prop := a = .exit → ∀ w, b ≠ .work w

/-- `run_slow_work_message` is queued for the slow works that wait, the loop is told of what
its queue has, and nothing is behind `exit_message` but the works of slow I/O. -/
structure Told (s : State) : Prop where
  pending : s.slowPending ≠ [] → .runSlow ∈ s.wq
  loop : s.loopWq ≠ [] → s.asyncPending = true ∨ s.called = true
  exit : s.exiting = true ↔ .exit ∈ s.wq
  last : s.wq.Pairwise Item.Ahead
  exited : .exited ∈ s.workers → ∃ rest, s.wq = .exit :: rest

section Told

variable {s t : State} {i : Nat}

theorem Told.setWorker (h : Told s) {k : Worker} (hk : k ≠ .exited) : Told (s.setWorker i k) where
  pending := h.pending
  loop := h.loop
  exit := h.exit
  last := h.last
  exited hexited := by
    rcases mem_set_cases hexited with heq | hin
    · exact absurd heq.symm hk
    · exact h.exited hin

theorem Told.signalled (h : Told s) (ht : Signalled s t) : Told t := by
  cases ht with
  | woke => exact h.setWorker Worker.noConfusion
  | nobody => exact h

theorem Told.notified (h : Told s) (ht : Notified s t) : Told t := by
  cases ht with
  | signalled ht => exact h.signalled ht
  | busy => exact h

/-- Before the cleanup no worker is gone, and `exit_message` is not queued. -/
theorem Told.running (h : Told s) (hexiting : s.exiting = false) :
    .exit ∉ s.wq ∧ .exited ∉ s.workers := by
  have hexit : .exit ∉ s.wq := fun hin => by
    rw [h.exit.mpr hin] at hexiting
    cases hexiting
  refine ⟨hexit, fun hexited => hexit ?_⟩
  obtain ⟨rest, hq⟩ := h.exited hexited
  exact hq ▸ List.mem_cons_self

/-- A queue that nothing but slow works is put behind. -/
theorem last_append {wq : List Item} {item : Item}
    (h : wq.Pairwise Item.Ahead) (hitem : .exit ∈ wq → ∀ w, item ≠ .work w) :
    (wq ++ [item]).Pairwise Item.Ahead := by
  refine List.pairwise_append.mpr ⟨h, List.pairwise_singleton _ _, fun a ha b hb hexit => ?_⟩
  cases List.mem_singleton.mp hb
  exact hitem (hexit ▸ ha)

theorem Told.submitted {kind : Kind} (h : Told s) (hexiting : s.exiting = false)
    (ht : Submitted s kind t) : Told t := by
  obtain ⟨hexit, hexited⟩ := h.running hexiting
  have hlast : ∀ item, (s.wq ++ [item]).Pairwise Item.Ahead :=
    fun item => last_append h.last fun hin => absurd hin hexit
  cases ht with
  | scheduled hin => exact ⟨fun _ => hin, h.loop, h.exit, h.last, h.exited⟩
  | slow _ ht =>
      refine Told.notified (s := s.submitSlow (s.wq ++ [.runSlow])) ?_ ht
      refine ⟨fun _ => ?_, h.loop, ?_, hlast _, fun hin => absurd hin hexited⟩
      · exact List.mem_append_right _ List.mem_cons_self
      · simpa [State.submitSlow] using h.exit
  | fast _ ht =>
      refine Told.notified (s := s.submitFast kind) ?_ ht
      refine ⟨fun hne => List.mem_append_left _ (h.pending hne), h.loop, ?_, hlast _,
        fun hin => absurd hin hexited⟩
      simpa [State.submitFast] using h.exit

theorem Told.turned (h : Told s) (ht : Turned s i t) : Told t := by
  -- a worker that finds something else at the head is not to exit
  have running : ∀ {item rest}, s.wq = item :: rest → item ≠ .exit → .exited ∉ s.workers := by
    intro item rest hq hitem hin
    obtain ⟨rest', hq'⟩ := h.exited hin
    cases hq.symm.trans hq'
    exact hitem rfl
  cases ht with
  | wait => exact ⟨h.pending, h.loop, h.exit, h.last, (h.setWorker Worker.noConfusion).exited⟩
  | @exit rest _ hq ht =>
      refine Told.signalled (s := s.setWorker i .exited) ?_ ht
      exact ⟨h.pending, h.loop, h.exit, h.last, fun _ => ⟨rest, hq⟩⟩
  | @fast w rest hq =>
      have hlast := h.last
      have hexit := h.exit
      have hpending := h.pending
      rw [hq] at hlast hexit hpending
      refine ⟨fun hne => ?_, h.loop, ?_, (List.pairwise_cons.mp hlast).2, fun hin => ?_⟩
      · simpa using hpending hne
      · simpa using hexit
      · rcases mem_set_cases hin with heq | hin
        · cases heq
        · exact absurd hin (running hq Item.noConfusion)
  | @behind rest hq =>
      have hlast := h.last
      have hexit := h.exit
      rw [hq] at hlast hexit
      refine ⟨fun _ => by simp, h.loop, ?_, ?_, fun hin => ?_⟩
      · simpa using hexit
      · exact last_append (List.pairwise_cons.mp hlast).2 fun _ _ => Item.noConfusion
      · exact absurd hin (running hq Item.noConfusion)
  | @nothing rest hq hpending =>
      have hlast := h.last
      have hexit := h.exit
      rw [hq] at hlast hexit
      refine ⟨fun hne => absurd hpending hne, h.loop, ?_, (List.pairwise_cons.mp hlast).2,
        fun hin => absurd hin (running hq Item.noConfusion)⟩
      simpa using hexit
  | @last w rest hq _ hpending =>
      have hlast := h.last
      have hexit := h.exit
      rw [hq] at hlast hexit
      refine ⟨fun hne => absurd rfl hne, h.loop, ?_, (List.pairwise_cons.mp hlast).2,
        fun hin => ?_⟩
      · simpa using hexit
      · rcases mem_set_cases hin with heq | hin
        · cases heq
        · exact absurd hin (running hq Item.noConfusion)
  | @slow w more rest _ hq _ hpending _ ht =>
      have hlast := h.last
      have hexit := h.exit
      rw [hq] at hlast hexit
      refine Told.notified (s := s.startSlow i w more (rest ++ [.runSlow])) ?_ ht
      refine ⟨fun _ => List.mem_append_right _ List.mem_cons_self, h.loop, ?_, ?_, fun hin => ?_⟩
      · simpa using hexit
      · exact last_append (List.pairwise_cons.mp hlast).2 fun _ _ => Item.noConfusion
      · rcases mem_set_cases hin with heq | hin
        · cases heq
        · exact absurd hin (running hq Item.noConfusion)

theorem told_stepped {a : Label} (h : Told s) (ht : Stepped s a t) : Told t := by
  cases ht with
  | submit _ _ hexiting ht => exact h.submitted hexiting ht
  | @cancel w _ =>
      refine ⟨fun hne => ?_, fun hne => ?_, ?_, h.last.sublist List.erase_sublist, fun hin => ?_⟩
      · refine (List.mem_erase_of_ne Item.noConfusion).mpr (h.pending fun hnil => hne ?_)
        simp [State.cancelled, hnil]
      · refine h.loop fun hnil => hne ?_
        simp [State.cancelled, hnil]
      · exact h.exit.trans (List.mem_erase_of_ne Item.noConfusion).symm
      · obtain ⟨rest, hq⟩ := h.exited hin
        refine ⟨rest.erase (.work w), ?_⟩
        change s.wq.erase (.work w) = _
        rw [hq]
        exact List.erase_cons_tail (by simp)
  | busy => exact h
  | requeue => exact ⟨h.pending, fun _ => .inl rfl, h.exit, h.last, h.exited⟩
  | cleanup _ _ hexiting ht =>
      obtain ⟨-, hexited⟩ := h.running hexiting
      refine Told.notified (s := { s with wq := s.wq ++ [.exit], exiting := true }) ?_ ht
      refine ⟨fun hne => List.mem_append_left _ (h.pending hne), h.loop, ?_,
        last_append h.last fun _ _ => Item.noConfusion, fun hin => absurd hin hexited⟩
      simp
  | lock | wake =>
      exact ⟨h.pending, h.loop, h.exit, h.last, (h.setWorker Worker.noConfusion).exited⟩
  | turn _ ht => exact h.turned ht
  | run =>
      exact ⟨h.pending, fun _ => .inl rfl, h.exit, h.last,
        (h.setWorker Worker.noConfusion).exited⟩
  | spurious => exact h.setWorker Worker.noConfusion
  | async => exact ⟨h.pending, fun _ => .inr rfl, h.exit, h.last, h.exited⟩
  | take => exact ⟨h.pending, fun hne => absurd rfl hne, h.exit, h.last, h.exited⟩
  | done => exact ⟨h.pending, h.loop, h.exit, h.last, h.exited⟩

end Told

def Worker.Rests : Worker → Prop
  | waiting | exited => True
  | returning _ | locked | woken | running _ _ => False

/-- Nobody has anything to do. -/
structure Resting (s : State) : Prop where
  workers : ∀ k ∈ s.workers, k.Rests
  cancelling : s.cancelling = none
  asyncPending : s.asyncPending = false
  called : s.called = false
  dispatching : s.dispatching = []

/-- Every work is answered; after the cleanup, every worker is gone and only works of slow I/O
that were not begun may be left. -/
structure Settled (s : State) : Prop where
  answered : s.exiting = false → ∀ w < s.works.length, w ∈ s.finished.map Prod.fst
  cleaned : s.exiting = true → (∀ k ∈ s.workers, k = .exited) ∧
    ∀ w < s.works.length, w ∈ s.finished.map Prod.fst ∨ w ∈ s.slowPending

section Settled

variable {n : Nat} {s : State}

theorem nthreads_pos (size : Option Int) : 0 < nthreads size := by
  unfold nthreads
  split
  · decide
  · dsimp only
    split
    · decide
    · split <;> omega

theorem Resting.total_eq_zero {g : Worker → Nat} (h : Resting s) (hwaiting : g .waiting = 0)
    (hexited : g .exited = 0) : total g s.workers = 0 := by
  refine Slots.total_eq_zero fun k hk => ?_
  have hrests := h.workers k hk
  cases k with
  | waiting => exact hwaiting
  | exited => exact hexited
  | returning | locked | woken | running => exact hrests.elim

/-- What is at rest and in none of the queues is answered. -/
theorem Resting.answered {w : Nat} (h : Resting s) (hp : Placed s) (ht : Told s)
    (hw : w < s.works.length) (hqueued : .work w ∉ s.wq) (hpending : w ∉ s.slowPending) :
    w ∈ s.finished.map Prod.fst := by
  have hloop : s.loopWq = [] := by
    by_contra hne
    rcases ht.loop hne with hon | hon
    · rw [h.asyncPending] at hon
      cases hon
    · rw [h.called] at hon
      cases hon
  have hrow : s.row w = {
      started := (s.row w).started
      answered := (s.row w).answered
      ok := (s.row w).ok
      cancelled := (s.row w).cancelled } := by
    ext
    case queued => exact List.count_eq_zero.mpr hqueued
    case pending => exact List.count_eq_zero.mpr hpending
    case fast | slow => exact h.total_eq_zero rfl rfl
    all_goals simp [State.row, h.cancelling, hloop, h.dispatching]
  have hfits := hp w
  rw [List.getElem?_eq_getElem hw, hrow] at hfits
  have hone : (s.row w).answered = 1 := by
    generalize s.row w = r at hfits
    generalize s.works[w] = work at hfits
    obtain ⟨_, _, _, _, _, _, started, answered, ok, cancelled⟩ := r
    cases hfits <;> rfl
  exact List.count_pos_iff.mp (by change 0 < (s.row w).answered; omega)

theorem takeable_true_length (wq : List Item) : takeable true wq = wq.length := by
  simp [takeable]

/-- While a worker sleeps and all are at rest, the queues are empty. -/
theorem Resting.wq_eq_nil (h : Resting s) (hinv : Invariant n s) (hw : .waiting ∈ s.workers) :
    s.wq = [] := by
  have hready := hinv.awake hw
  have hrunning := hinv.counted.slow
  rw [h.total_eq_zero rfl rfl] at hready hrunning
  have hpos := List.length_pos_of_mem hw
  have hfew : s.slowRunning < s.threshold := by
    unfold State.threshold
    omega
  unfold State.ready at hready
  rw [decide_eq_true hfew, takeable_true_length] at hready
  exact List.eq_nil_of_length_eq_zero (by omega)

theorem Resting.settled (h : Resting s) (hinv : Invariant n s) (ht : Told s) (hn : 0 < n) :
    Settled s where
  answered := by
    intro hexiting w hw
    have hwaiting : .waiting ∈ s.workers := by
      obtain ⟨k, hk⟩ := List.exists_mem_of_length_pos (by rw [hinv.counted.size]; exact hn)
      have hrests := h.workers k hk
      cases k with
      | waiting => exact hk
      | exited => exact absurd hk (ht.running hexiting).2
      | returning | locked | woken | running => exact hrests.elim
    have hq := h.wq_eq_nil hinv hwaiting
    have hpending : s.slowPending = [] := by
      by_contra hne
      have hin := ht.pending hne
      rw [hq] at hin
      cases hin
    exact h.answered hinv.placed ht hw (by simp [hq]) (by simp [hpending])
  cleaned := by
    intro hexiting
    have hexit := ht.exit.mp hexiting
    have hexited : ∀ k ∈ s.workers, k = .exited := by
      intro k hk
      have hrests := h.workers k hk
      cases k with
      | exited => rfl
      | waiting =>
          rw [h.wq_eq_nil hinv hk] at hexit
          cases hexit
      | returning | locked | woken | running => exact hrests.elim
    refine ⟨hexited, fun w hw => ?_⟩
    have hqueued : .work w ∉ s.wq := by
      obtain ⟨k, hk⟩ := List.exists_mem_of_length_pos (by rw [hinv.counted.size]; exact hn)
      obtain ⟨rest, hq⟩ := ht.exited (hexited k hk ▸ hk)
      have hlast := ht.last
      rw [hq] at hlast ⊢
      intro hin
      rcases List.mem_cons.mp hin with heq | hin
      · cases heq
      · exact (List.pairwise_cons.mp hlast).1 _ hin rfl w rfl
    by_cases hpending : w ∈ s.slowPending
    · exact .inr hpending
    · exact .inl (h.answered hinv.placed ht hw hqueued hpending)

end Settled

/-- The steps of the workers and of the loop; the others come from the program. -/
def Label.internal : Label → Bool
  | requeue | lock _ | turn _ _ | run _ | async | take | done => true
  | submit _ _ | cancel _ | cleanup _ | spurious _ => false

section Enabled

variable {s : State} {i : Nat}

theorem exists_signal (s : State) : ∃ wake, (s.signal wake).isSome := by
  by_cases hw : .waiting ∈ s.workers
  · obtain ⟨i, hi⟩ := List.mem_iff_getElem?.mp hw
    exact ⟨some i, by simp [State.signal, hi]⟩
  · exact ⟨none, by simp [State.signal, hw]⟩

theorem exists_signalIdle (s : State) : ∃ wake, (s.signalIdle wake).isSome := by
  unfold State.signalIdle
  split
  · exact exists_signal s
  · exact ⟨none, rfl⟩

theorem exists_turn (s : State) (i : Nat) : ∃ wake, (s.turn i wake).isSome := by
  unfold State.turn
  split
  · exact ⟨none, rfl⟩
  · rename_i hwait
    split
    · rename_i hq
      simp [State.mustWait, hq] at hwait
    · exact exists_signal _
    · exact ⟨none, rfl⟩
    · split
      · exact ⟨none, rfl⟩
      · split
        · exact ⟨none, rfl⟩
        · dsimp only
          split
          · exact ⟨none, rfl⟩
          · exact exists_signalIdle _

/-- Where none of the steps of the workers and of the loop can be taken, all are at rest. -/
theorem resting_of_stuck (h : ∀ a : Label, a.internal = true → step s a = none) : Resting s := by
  have hcancelling : s.cancelling = none := by
    have := h .requeue rfl
    simp only [step, State.requeue] at this
    split at this
    · assumption
    · cases this
  have hfree : s.free = true := by simp [State.free, hcancelling]
  have hlocked : .locked ∉ s.workers := by
    intro hin
    obtain ⟨i, hi⟩ := List.mem_iff_getElem?.mp hin
    obtain ⟨wake, hturn⟩ := exists_turn s i
    have := h (.turn i wake) rfl
    simp only [step, hi, if_true] at this
    rw [this] at hturn
    cases hturn
  have hunlocked : s.unlocked = true := by simp [State.unlocked, hlocked]
  have hcalled : s.called = false := by
    by_contra hon
    have := h .take rfl
    simp [step, hfree, hon] at this
  have hdispatching : s.dispatching = [] := by
    by_contra hne
    obtain ⟨w, rest, hq⟩ := List.exists_cons_of_ne_nil hne
    have := h .done rfl
    simp [step, State.done, hfree, hcalled, hq] at this
  refine ⟨fun k hk => ?_, hcancelling, ?_, hcalled, hdispatching⟩
  · obtain ⟨i, hi⟩ := List.mem_iff_getElem?.mp hk
    cases k with
    | waiting | exited => trivial
    | locked => exact hlocked hk
    | returning | woken =>
        have := h (.lock i) rfl
        simp [step, State.lock, hunlocked, hi] at this
    | running =>
        have := h (.run i) rfl
        simp [step, State.run, hi] at this
  · by_contra hon
    have := h .async rfl
    simp [step, hfree, hon, hcalled, hdispatching] at this

end Enabled

/-- What a worker can still do before it takes a work. -/
def Worker.weight : Worker → Nat
  | running _ _ => 8
  | returning _ | woken => 4
  | locked => 3
  | waiting => 2
  | exited => 0

/-- How far `run_slow_work_message` is from the end of the queue. -/
def behind : List Item → Nat
  | [] => 0
  | .runSlow :: wq => wq.length
  | .work _ :: wq | .exit :: wq => behind wq

def Item.isWork : Item → Bool
  | work _ => true
  | runSlow | exit => false

/-- A bound on the steps of the workers and of the loop. -/
def State.potential (s : State) : Nat :=
  8 * (s.wq.countP Item.isWork + s.slowPending.length) + total Worker.weight s.workers +
    behind s.wq + s.wq.count .runSlow + s.loopWq.length + s.dispatching.length +
    2 * s.asyncPending.toNat + s.called.toNat + 4 * s.cancelling.toList.length

section Potential

variable {n i : Nat} {s t : State}

theorem behind_eq_zero {wq : List Item} (h : .runSlow ∉ wq) : behind wq = 0 := by
  induction wq with
  | nil => rfl
  | cons item wq ih =>
      rw [List.mem_cons, not_or] at h
      obtain ⟨hne, hnot⟩ := h
      cases item with
      | runSlow => exact absurd rfl hne
      | work | exit => exact ih hnot

theorem behind_append {wq : List Item} (h : .runSlow ∉ wq) : behind (wq ++ [.runSlow]) = 0 := by
  induction wq with
  | nil => rfl
  | cons item wq ih =>
      rw [List.mem_cons, not_or] at h
      obtain ⟨hne, hnot⟩ := h
      cases item with
      | runSlow => exact absurd rfl hne
      | work | exit => exact ih hnot

theorem potential_signalled (ht : Signalled s t) : t.potential ≤ s.potential + 2 := by
  cases ht with
  | woke i hi =>
      have := total_set Worker.weight (b := .woken) hi
      simp only [Worker.weight] at this
      simp only [State.potential, State.setWorker]
      omega
  | nobody => omega

theorem potential_notified (ht : Notified s t) : t.potential ≤ s.potential + 2 := by
  cases ht with
  | signalled ht => exact potential_signalled ht
  | busy => omega

/-- `run_slow_work_message` is queued once. -/
theorem Counted.notMem (h : Counted n s) {rest : List Item} (hq : s.wq = .runSlow :: rest) :
    .runSlow ∉ rest := by
  have hscheduled := h.scheduled
  rw [hq, List.count_cons_self] at hscheduled
  exact List.count_eq_zero.mp (by omega)

theorem potential_startSlow {w : Nat} {more : List Nat} {rest : List Item} (wq : List Item)
    (hi : s.workers[i]? = some .locked) (hq : s.wq = .runSlow :: rest)
    (hpending : s.slowPending = w :: more) (hworks : wq.countP Item.isWork = rest.countP Item.isWork)
    (hbehind : behind wq = 0) (hcount : wq.count .runSlow ≤ rest.count .runSlow + 1) :
    (s.startSlow i w more wq).potential + 3 ≤ s.potential := by
  have hset := total_set Worker.weight (b := .running w true) hi
  simp only [Worker.weight] at hset
  simp only [State.potential, State.startSlow, State.start, State.setWork, State.setWorker, hq,
    hpending, hworks, hbehind, List.countP_cons, Item.isWork, behind, List.count_cons_self,
    List.length_cons, Bool.false_eq_true, if_false]
  omega

theorem potential_turned (hc : Counted n s) (hi : s.workers[i]? = some .locked)
    (ht : Turned s i t) : t.potential < s.potential := by
  have hset : ∀ b : Worker, total Worker.weight (s.workers.set i b) + 3 =
      total Worker.weight s.workers + b.weight := fun b => total_set Worker.weight hi
  cases ht with
  | wait =>
      have hwait := hset .waiting
      simp only [Worker.weight] at hwait
      simp only [State.potential, State.setWorker]
      omega
  | exit _ ht =>
      have hexit := hset .exited
      simp only [Worker.weight] at hexit
      have hle := potential_signalled ht
      simp only [State.potential, State.setWorker] at hle ⊢
      omega
  | @fast w rest hq =>
      have hrun := hset (.running w false)
      simp only [Worker.weight] at hrun
      simp only [State.potential, State.startFast, State.start, State.setWork, State.setWorker, hq,
        List.countP_cons, Item.isWork, behind, List.count_cons, if_true, beq_iff_eq, reduceCtorEq,
        if_false]
      omega
  | @behind rest hq hrest =>
      have hnot := hc.notMem hq
      have hpos := List.length_pos_iff.mpr hrest
      simp only [State.potential, hq, behind_append hnot, List.countP_append, List.countP_cons,
        List.count_append, List.count_cons, List.countP_nil, List.count_nil, behind]
      omega
  | @nothing rest hq =>
      have hnot := hc.notMem hq
      simp only [State.potential, hq, behind_eq_zero hnot, List.countP_cons, List.count_cons,
        behind, BEq.rfl, if_true]
      omega
  | @last w rest hq _ hpending =>
      have := potential_startSlow rest hi hq hpending rfl (behind_eq_zero (hc.notMem hq))
        (Nat.le_succ _)
      omega
  | @slow w more rest _ hq _ hpending _ ht =>
      have hle := potential_notified ht
      have := potential_startSlow (rest ++ [.runSlow]) hi hq hpending
        (by simp [Item.isWork]) (behind_append (hc.notMem hq)) (by simp)
      omega

theorem potential_stepped {a : Label} (hc : Counted n s) (ha : a.internal = true)
    (ht : Stepped s a t) : t.potential < s.potential := by
  cases ht with
  | submit | cancel | busy | cleanup | spurious => cases ha
  | requeue hw =>
      have := s.asyncPending.toNat_le
      simp only [State.potential, hw, List.length_append, List.length_singleton, Bool.toNat_true,
        Option.toList_some, Option.toList_none, List.length_nil]
      omega
  | @lock _ slow _ hi =>
      have hset := total_set Worker.weight (b := .locked) hi
      simp only [Worker.weight] at hset
      simp only [State.potential, State.setWorker]
      omega
  | wake _ hi =>
      have hset := total_set Worker.weight (b := .locked) hi
      simp only [Worker.weight] at hset
      simp only [State.potential, State.setWorker]
      omega
  | turn hi ht => exact potential_turned hc hi ht
  | @run _ w slow hi =>
      have hset := total_set Worker.weight (b := .returning slow) hi
      simp only [Worker.weight] at hset
      have := s.asyncPending.toNat_le
      simp only [State.potential, State.ran, State.setWork, State.setWorker, List.length_append,
        List.length_singleton, Bool.toNat_true]
      omega
  | async _ hpending hcalled =>
      simp only [State.potential, State.async, hpending, hcalled, Bool.toNat_true,
        Bool.toNat_false]
      omega
  | take _ hcalled =>
      simp only [State.potential, State.take, hcalled, Bool.toNat_true, Bool.toNat_false,
        List.length_nil]
      omega
  | done _ _ hq =>
      simp only [State.potential, hq, List.length_cons]
      omega

end Potential

/-- From `s` on, the workers and the loop come to an end by themselves, with nothing owed. -/
def Finishes (size : Option Int) (s : State) : Prop :=
  ∀ bs t, (∀ b ∈ bs, Label.internal b = true) → (machine size).run s bs = some t →
    bs.length ≤ s.potential ∧
      ((∀ a : Label, a.internal = true → step t a = none) → Settled t)

theorem finishes {size : Option Int} {s : State} (h : Invariant (nthreads size) s) (ht : Told s) :
    Finishes size s := by
  intro bs t hbs hrun
  have hmeasure := Machine.length_le_of_measure (M := machine size)
    (I := fun s => Invariant (nthreads size) s ∧ Told s) (D := fun a => a.internal = true)
    (f := State.potential) (fun s a t hI ha hst => ?_) ⟨h, ht⟩ hbs hrun
  · obtain ⟨⟨hinv, htold⟩, hle⟩ := hmeasure
    refine ⟨by omega, fun hstuck => ?_⟩
    exact (resting_of_stuck hstuck).settled hinv htold (nthreads_pos size)
  · have hstep := stepped hst
    exact ⟨⟨invariant_step hI.1 hst, told_stepped hI.2 hstep⟩,
      potential_stepped hI.1.counted ha hstep⟩

theorem told_init (size : Option Int) : Told (machine size).init where
  pending hne := absurd rfl hne
  loop hne := absurd rfl hne
  exit := by simp [machine]
  last := List.Pairwise.nil
  exited hin := by cases List.eq_of_mem_replicate hin

theorem every_work_is_answered (size : Option Int) (as : List Label) :
    (machine size).Always (Finishes size) (machine size).init as :=
  Machine.always_of_step (I := fun s => Invariant (nthreads size) s ∧ Told s)
    (fun _ h => finishes h.1 h.2)
    (fun _ _ _ h ht => ⟨invariant_step h.1 ht, told_stepped h.2 (stepped ht)⟩)
    ⟨invariant_init size, told_init size⟩

end HxcppLuv.Pool
