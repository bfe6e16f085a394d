import HxcppLuv.Pool.Works

/-!
Which work a worker takes, and which workers are awake, in every run of the pool. Works are taken
in the order in which they were submitted, those of slow I/O in an order of their own and by half
of the workers at most; and no worker stays asleep while there is something it could take that no
other worker is on its way to.
-/

namespace HxcppLuv.Pool

open Slots

def Item.work? : Item → Option Nat
  | work w => some w
  | runSlow | exit => none

def State.kinds (s : State) : List Kind := s.works.map Work.kind

def State.isSlow (s : State) (w : Nat) : Bool := s.kinds[w]? = some .slowIo

/-- The works that were run and those that wait, of slow I/O and of the other kinds. -/
structure InOrder (s : State) : Prop where
  fast : (s.started.filter (fun w => !s.isSlow w) ++ s.wq.filterMap Item.work?).Pairwise (· < ·)
  slow : (s.started.filter s.isSlow ++ s.slowPending).Pairwise (· < ·)

section Order

variable {s t : State} {w : Nat}

theorem InOrder.congr (h : InOrder s) (hkinds : t.kinds = s.kinds) (hstarted : t.started = s.started)
    (hwq : (t.wq.filterMap Item.work?).Sublist (s.wq.filterMap Item.work?))
    (hpending : t.slowPending.Sublist s.slowPending) : InOrder t := by
  have hslow : t.isSlow = s.isSlow := by
    funext w
    rw [State.isSlow, hkinds]
    rfl
  constructor
  · rw [hslow, hstarted]
    exact h.fast.sublist (List.Sublist.append_left hwq _)
  · rw [hslow, hstarted]
    exact h.slow.sublist (List.Sublist.append_left hpending _)

theorem kinds_setWork {f : Work → Work} (hf : ∀ work, (f work).kind = work.kind) :
    (s.setWork w f).kinds = s.kinds :=
  map_modify_of_eq fun work _ => hf work

theorem InOrder.signalled (h : InOrder s) (ht : Signalled s t) : InOrder t := by
  cases ht with
  | woke => exact ⟨h.fast, h.slow⟩
  | nobody => exact h

theorem InOrder.notified (h : InOrder s) (ht : Notified s t) : InOrder t := by
  cases ht with
  | signalled ht => exact h.signalled ht
  | busy => exact h

/-- The works that were run or wait to be were submitted. -/
theorem lt_of_started (hp : Placed s) (hw : w ∈ s.started) : w < s.works.length :=
  hp.exact.submitted.1 w hw

theorem lt_of_queued (hp : Placed s) (hw : .work w ∈ s.wq) : w < s.works.length := by
  refine lt_of_row hp fun hrow => ?_
  exact absurd (congrArg Row.queued hrow) (List.count_pos_iff.mpr hw).ne'

theorem lt_of_pending (hp : Placed s) (hw : w ∈ s.slowPending) : w < s.works.length := by
  refine lt_of_row hp fun hrow => ?_
  exact absurd (congrArg Row.pending hrow) (List.count_pos_iff.mpr hw).ne'

theorem mem_work? {wq : List Item} : w ∈ wq.filterMap Item.work? ↔ .work w ∈ wq := by
  simp only [List.mem_filterMap]
  constructor
  · rintro ⟨item, hitem, hw⟩
    cases item with
    | work w' => cases hw; exact hitem
    | runSlow | exit => cases hw
  · exact fun hw => ⟨.work w, hw, rfl⟩

theorem isSlow_append (hkinds : ∃ kind, t.kinds = s.kinds ++ [kind]) (hw : w < s.works.length) :
    t.isSlow w = s.isSlow w := by
  obtain ⟨kind, hkinds⟩ := hkinds
  rw [State.isSlow, State.isSlow, hkinds,
    List.getElem?_append_left (by simpa [State.kinds] using hw)]

theorem InOrder.submitSlow (h : InOrder s) (hp : Placed s) {wq : List Item}
    (hwq : wq.filterMap Item.work? = s.wq.filterMap Item.work?) : InOrder (s.submitSlow wq) := by
  have hslow : ∀ w ∈ s.started, (s.submitSlow wq).isSlow w = s.isSlow w := fun w hw =>
    isSlow_append ⟨.slowIo, by simp [State.kinds, State.submitSlow]⟩ (lt_of_started hp hw)
  constructor
  · change ((s.started.filter fun w => !(s.submitSlow wq).isSlow w) ++
      wq.filterMap Item.work?).Pairwise (· < ·)
    rw [hwq, List.filter_congr fun w hw => congrArg (!·) (hslow w hw)]
    exact h.fast
  · change (s.started.filter (s.submitSlow wq).isSlow ++
      (s.slowPending ++ [s.works.length])).Pairwise (· < ·)
    rw [List.filter_congr hslow, ← List.append_assoc]
    refine List.pairwise_append.mpr ⟨h.slow, List.pairwise_singleton _ _, fun w hw x hx => ?_⟩
    cases List.mem_singleton.mp hx
    rcases List.mem_append.mp hw with hw | hw
    · exact lt_of_started hp (List.mem_filter.mp hw).1
    · exact lt_of_pending hp hw

theorem InOrder.submitFast (h : InOrder s) (hp : Placed s) (kind : Kind) :
    InOrder (s.submitFast kind) := by
  have hslow : ∀ w ∈ s.started, (s.submitFast kind).isSlow w = s.isSlow w := fun w hw =>
    isSlow_append ⟨kind, by simp [State.kinds, State.submitFast]⟩ (lt_of_started hp hw)
  constructor
  · change ((s.started.filter fun w => !(s.submitFast kind).isSlow w) ++
      (s.wq ++ [Item.work s.works.length]).filterMap Item.work?).Pairwise (· < ·)
    rw [List.filterMap_append, List.filter_congr fun w hw => congrArg (!·) (hslow w hw),
      ← List.append_assoc]
    refine List.pairwise_append.mpr ⟨h.fast, List.pairwise_singleton _ _, fun w hw x hx => ?_⟩
    cases List.mem_singleton.mp hx
    rcases List.mem_append.mp hw with hw | hw
    · exact lt_of_started hp (List.mem_filter.mp hw).1
    · exact lt_of_queued hp (mem_work?.mp hw)
  · change (s.started.filter (s.submitFast kind).isSlow ++ s.slowPending).Pairwise (· < ·)
    rw [List.filter_congr hslow]
    exact h.slow

theorem InOrder.submitted {kind : Kind} (h : InOrder s) (hp : Placed s)
    (ht : Submitted s kind t) : InOrder t := by
  cases ht with
  | scheduled => exact h.submitSlow hp rfl
  | slow _ ht => exact (h.submitSlow hp (by simp [Item.work?])).notified ht
  | fast _ ht => exact (h.submitFast hp kind).notified ht

theorem filterMap_erase (wq : List Item) (w : Nat) :
    ((wq.erase (.work w)).filterMap Item.work?).Sublist (wq.filterMap Item.work?) :=
  List.Sublist.filterMap _ List.erase_sublist

theorem InOrder.startFast (h : InOrder s) (hp : Placed s) {i : Nat} {rest : List Item}
    (hq : s.wq = .work w :: rest) : InOrder (s.startFast i w rest) := by
  obtain ⟨kind, hkind, hwork, -⟩ := (hp w).of_queued (by simp [State.row, hq])
  have hslow : s.isSlow w = false := by simp [State.isSlow, State.kinds, hwork, hkind]
  have hkinds : (s.startFast i w rest).isSlow = s.isSlow := by
    funext x
    have : (s.startFast i w rest).kinds = s.kinds := kinds_setWork fun _ => rfl
    rw [State.isSlow, this]
    rfl
  have hfast := h.fast
  rw [hq] at hfast
  constructor
  · rw [hkinds]
    simpa [State.startFast, State.start, State.setWork, State.setWorker, hslow, Item.work?]
      using hfast
  · rw [hkinds]
    simpa [State.startFast, State.start, State.setWork, State.setWorker, hslow] using h.slow

theorem InOrder.startSlow (h : InOrder s) (hp : Placed s) {i : Nat} {more : List Nat}
    {wq : List Item} (hpending : s.slowPending = w :: more)
    (hwq : wq.filterMap Item.work? = s.wq.filterMap Item.work?) :
    InOrder (s.startSlow i w more wq) := by
  obtain ⟨hwork, -⟩ := (hp w).of_pending (by simp [State.row, hpending])
  have hslow : s.isSlow w = true := by simp [State.isSlow, State.kinds, hwork]
  have hkinds : (s.startSlow i w more wq).isSlow = s.isSlow := by
    funext x
    have : (s.startSlow i w more wq).kinds = s.kinds := kinds_setWork fun _ => rfl
    rw [State.isSlow, this]
    rfl
  have hold := h.slow
  rw [hpending] at hold
  constructor
  · rw [hkinds]
    simpa [State.startSlow, State.start, State.setWork, State.setWorker, hslow, hwq] using h.fast
  · rw [hkinds]
    simpa [State.startSlow, State.start, State.setWork, State.setWorker, hslow] using hold

theorem InOrder.turned {i : Nat} (h : InOrder s) (hp : Placed s) (ht : Turned s i t) :
    InOrder t := by
  cases ht with
  | wait => exact ⟨h.fast, h.slow⟩
  | exit _ ht => exact InOrder.signalled (s := s.setWorker i .exited) ⟨h.fast, h.slow⟩ ht
  | fast hq => exact h.startFast hp hq
  | behind hq | nothing hq =>
      refine h.congr rfl rfl ?_ (List.Sublist.refl _)
      simp [hq, List.filterMap_cons, Item.work?]
  | last hq _ hpending => exact h.startSlow hp hpending (by simp [hq, List.filterMap_cons, Item.work?])
  | slow hq _ hpending _ ht =>
      exact (h.startSlow hp hpending (by simp [hq, List.filterMap_cons, Item.work?])).notified ht

theorem inOrder_stepped {a : Label} (h : InOrder s) (hp : Placed s) (ht : Stepped s a t) :
    InOrder t := by
  cases ht with
  | submit _ _ _ ht => exact h.submitted hp ht
  | cancel =>
      exact h.congr (kinds_setWork fun _ => rfl) rfl (filterMap_erase _ _) List.erase_sublist
  | busy => exact h
  | cleanup _ _ _ ht =>
      have hexit : InOrder { s with wq := s.wq ++ [.exit], exiting := true } := by
        refine h.congr rfl rfl ?_ (List.Sublist.refl _)
        simp [List.filterMap_cons, Item.work?]
      exact hexit.notified ht
  | turn _ ht => exact h.turned hp ht
  | run => exact h.congr (kinds_setWork fun _ => rfl) rfl (List.Sublist.refl _) (List.Sublist.refl _)
  | requeue | lock | wake | spurious | async | take | done => exact ⟨h.fast, h.slow⟩

end Order

/-- Those whom `idle_threads` counts. -/
def Worker.idle : Worker → Nat
  | waiting | woken => 1
  | returning _ | locked | running _ _ | exited => 0

/-- Those whom `slow_io_work_running` counts. -/
def Worker.busySlow : Worker → Nat
  | returning true | running _ true => 1
  | returning false | running _ false | locked | waiting | woken | exited => 0

structure Counted (n : Nat) (s : State) : Prop where
  size : s.workers.length = n
  idle : s.idleThreads = total Worker.idle s.workers
  slow : s.slowRunning = total Worker.busySlow s.workers
  limit : s.slowRunning ≤ s.threshold
  scheduled : s.wq.count .runSlow ≤ 1

section Counted

variable {n i : Nat} {s t : State}

theorem Counted.congr (h : Counted n s) (hworkers : t.workers = s.workers)
    (hidle : t.idleThreads = s.idleThreads) (hslow : t.slowRunning = s.slowRunning)
    (hscheduled : t.wq.count .runSlow ≤ 1) : Counted n t where
  size := hworkers ▸ h.size
  idle := by rw [hidle, hworkers, h.idle]
  slow := by rw [hslow, hworkers, h.slow]
  limit := by
    rw [hslow, State.threshold, hworkers]
    exact h.limit
  scheduled := hscheduled

/-- A worker that moves, and what the counters are then. -/
theorem Counted.setWorker (h : Counted n s) {a b : Worker} (hi : s.workers[i]? = some a)
    (hworkers : t.workers = s.workers.set i b)
    (hidle : t.idleThreads + a.idle = s.idleThreads + b.idle)
    (hslow : t.slowRunning + a.busySlow = s.slowRunning + b.busySlow)
    (hlimit : t.slowRunning ≤ s.threshold) (hscheduled : t.wq.count .runSlow ≤ 1) :
    Counted n t where
  size := by rw [hworkers, List.length_set, h.size]
  idle := by
    have := total_set Worker.idle (b := b) hi
    have := h.idle
    rw [hworkers]
    omega
  slow := by
    have := total_set Worker.busySlow (b := b) hi
    have := h.slow
    rw [hworkers]
    omega
  limit := by
    rw [State.threshold, hworkers, List.length_set]
    exact hlimit
  scheduled := hscheduled

theorem Counted.signalled (h : Counted n s) (ht : Signalled s t) : Counted n t := by
  cases ht with
  | woke i hi => exact h.setWorker hi rfl rfl rfl h.limit h.scheduled
  | nobody => exact h

theorem Counted.notified (h : Counted n s) (ht : Notified s t) : Counted n t := by
  cases ht with
  | signalled ht => exact h.signalled ht
  | busy => exact h

theorem Counted.submitted {kind : Kind} (h : Counted n s) (ht : Submitted s kind t) :
    Counted n t := by
  cases ht with
  | scheduled => exact h.congr rfl rfl rfl h.scheduled
  | slow hnot ht =>
      have hnone := List.count_eq_zero.mpr hnot
      have hslow : Counted n (s.submitSlow (s.wq ++ [.runSlow])) :=
        h.congr rfl rfl rfl (by simp [State.submitSlow, hnone])
      exact hslow.notified ht
  | fast _ ht =>
      have hfast : Counted n (s.submitFast kind) :=
        h.congr rfl rfl rfl (by simpa [State.submitFast, List.count_cons] using h.scheduled)
      exact hfast.notified ht

theorem Counted.startSlow (h : Counted n s) {w : Nat} {more : List Nat} {rest wq : List Item}
    (hi : s.workers[i]? = some .locked) (hq : s.wq = .runSlow :: rest)
    (hfew : s.slowRunning < s.threshold) (hwq : wq.count .runSlow ≤ rest.count .runSlow + 1) :
    Counted n (s.startSlow i w more wq) := by
  have hscheduled := h.scheduled
  rw [hq, List.count_cons_self] at hscheduled
  exact h.setWorker hi rfl rfl rfl hfew (by
    change wq.count .runSlow ≤ 1
    omega)

theorem Counted.turned (h : Counted n s) (hi : s.workers[i]? = some .locked)
    (ht : Turned s i t) : Counted n t := by
  have hscheduled := h.scheduled
  cases ht with
  | wait => exact h.setWorker hi rfl rfl rfl h.limit hscheduled
  | exit _ ht =>
      have hexit : Counted n (s.setWorker i .exited) :=
        h.setWorker hi rfl rfl rfl h.limit hscheduled
      exact hexit.signalled ht
  | fast hq =>
      refine h.setWorker hi rfl rfl rfl h.limit ?_
      simpa [State.startFast, State.start, State.setWork, State.setWorker, hq, List.count_cons]
        using hscheduled
  | behind hq =>
      refine h.congr rfl rfl rfl ?_
      simpa [hq] using hscheduled
  | nothing hq =>
      refine h.congr rfl rfl rfl ?_
      simp only [hq, List.count_cons_self] at hscheduled
      dsimp only
      omega
  | last hq hfew => exact h.startSlow hi hq hfew (Nat.le_succ _)
  | slow hq hfew _ _ ht => exact (h.startSlow hi hq hfew (by simp)).notified ht

theorem counted_stepped {a : Label} (h : Counted n s) (ht : Stepped s a t) : Counted n t := by
  cases ht with
  | submit _ _ _ ht => exact h.submitted ht
  | cancel =>
      refine h.congr rfl rfl rfl ?_
      simpa [State.cancelled, List.count_erase_of_ne] using h.scheduled
  | busy => exact h
  | cleanup _ _ _ ht =>
      have hexit : Counted n { s with wq := s.wq ++ [.exit], exiting := true } :=
        h.congr rfl rfl rfl (by simpa using h.scheduled)
      exact hexit.notified ht
  | @lock _ slow _ hi =>
      have hle := le_total (g := Worker.busySlow) hi
      have hslow := h.slow
      have hlimit := h.limit
      cases slow with
      | false => exact h.setWorker hi rfl rfl rfl hlimit h.scheduled
      | true =>
          simp only [Worker.busySlow] at hle
          exact h.setWorker hi rfl rfl (by simp [Worker.busySlow]; omega)
            (by simp; omega) h.scheduled
  | wake _ hi =>
      have hle := le_total (g := Worker.idle) hi
      have hidle := h.idle
      simp only [Worker.idle] at hle
      exact h.setWorker hi rfl (by simp [Worker.idle]; omega) rfl h.limit h.scheduled
  | turn hi ht => exact h.turned hi ht
  | @run _ _ slow hi =>
      cases slow with
      | false | true => exact h.setWorker hi rfl rfl rfl h.limit h.scheduled
  | spurious hi => exact h.setWorker hi rfl rfl rfl h.limit h.scheduled
  | requeue | async | take | done => exact h.congr rfl rfl rfl h.scheduled

end Counted

/-- What in the queue can be taken, `few` where the slow works are not too many yet. -/
def takeable (few : Bool) (wq : List Item) : Nat :=
  wq.countP fun item => decide (item ≠ .runSlow) || few

def State.ready (s : State) : Nat := takeable (s.slowRunning < s.threshold) s.wq

/-- Awake, and about to look at the queue. -/
def Worker.alert : Worker → Nat
  | woken | locked => 1
  | returning _ | waiting | running _ _ | exited => 0

/-- While a worker sleeps, there is a worker awake for each thing that can be taken. -/
def Awake (s : State) : Prop := .waiting ∈ s.workers → s.ready ≤ total Worker.alert s.workers

section Awake

variable {n i : Nat} {s t : State}

theorem takeable_true (wq : List Item) :
    takeable true wq = takeable false wq + wq.count .runSlow := by
  induction wq with
  | nil => rfl
  | cons item wq ih =>
      unfold takeable at ih ⊢
      cases item <;> simp_all <;> omega

theorem takeable_le (few : Bool) (wq : List Item) : takeable few wq ≤ takeable true wq := by
  have := takeable_true wq
  cases few <;> omega

theorem le_takeable (few : Bool) (wq : List Item) : takeable false wq ≤ takeable few wq := by
  have := takeable_true wq
  cases few <;> omega

theorem takeable_append (few : Bool) (wq wq' : List Item) :
    takeable few (wq ++ wq') = takeable few wq + takeable few wq' :=
  List.countP_append

theorem takeable_cons (few : Bool) (item : Item) (wq : List Item) :
    takeable few (item :: wq) = takeable few [item] + takeable few wq := by
  rw [← takeable_append, List.singleton_append]

theorem ready_of_mustWait (h : s.mustWait = true) : s.ready = 0 := by
  unfold State.mustWait at h
  simp only [Bool.or_eq_true, List.isEmpty_iff, Bool.and_eq_true, decide_eq_true_eq] at h
  unfold State.ready
  rcases h with hq | ⟨hq, hmany⟩
  · rw [hq]
    rfl
  · rw [hq, decide_eq_false (by omega : ¬ s.slowRunning < s.threshold)]
    rfl

theorem ready_eq (hlength : t.workers.length = s.workers.length)
    (hslow : t.slowRunning = s.slowRunning) :
    t.ready = takeable (s.slowRunning < s.threshold) t.wq := by
  have hthreshold : t.threshold = s.threshold := by rw [State.threshold, hlength, State.threshold]
  rw [State.ready, hslow, hthreshold]

/-- The worker that is woken is awake for one thing more. -/
theorem Awake.signalled (h : .waiting ∈ s.workers → s.ready ≤ total Worker.alert s.workers + 1)
    (ht : Signalled s t) : Awake t := by
  cases ht with
  | woke i hi =>
      intro _
      have hle := h (List.mem_of_getElem? hi)
      have := total_set Worker.alert (b := .woken) hi
      simp only [Worker.alert] at this
      have hready : (s.setWorker i .woken).ready = s.ready := ready_eq (List.length_set ..) rfl
      change _ ≤ total Worker.alert (s.workers.set i .woken)
      omega
  | nobody hnone => exact fun hw => absurd hw hnone

theorem Awake.notified (h : Counted n s)
    (hready : .waiting ∈ s.workers → s.ready ≤ total Worker.alert s.workers + 1)
    (ht : Notified s t) : Awake t := by
  cases ht with
  | signalled ht => exact Awake.signalled hready ht
  | busy hidle =>
      intro hw
      obtain ⟨i, hi⟩ := List.mem_iff_getElem?.mp hw
      have hle := le_total (g := Worker.idle) hi
      simp only [Worker.idle] at hle
      have := h.idle
      omega

/-- A worker that moves, and falls asleep only where it leaves nothing it could take. -/
theorem Awake.setWorker (h : Awake s) {a b : Worker} (hi : s.workers[i]? = some a)
    (hworkers : t.workers = s.workers.set i b) (hb : b ≠ .waiting)
    (hready : t.ready + a.alert ≤ s.ready + b.alert) : Awake t := by
  intro hw
  rw [hworkers] at hw ⊢
  have hle : s.ready ≤ total Worker.alert s.workers := by
    rcases mem_set_cases hw with hw | hw
    · exact absurd hw.symm hb
    · exact h hw
  have := total_set Worker.alert (b := b) hi
  omega

/-- A worker that gets no further from the queue, which stays as it is. -/
theorem Awake.moveWorker (h : Awake s) {a b : Worker} (hi : s.workers[i]? = some a)
    (hworkers : t.workers = s.workers.set i b) (hb : b ≠ .waiting) (hwq : t.wq = s.wq)
    (hslow : t.slowRunning = s.slowRunning) (halert : a.alert ≤ b.alert) : Awake t := by
  refine h.setWorker hi hworkers hb ?_
  have hready : t.ready = s.ready := by
    rw [ready_eq (by rw [hworkers, List.length_set]) hslow, hwq]
    rfl
  omega

theorem Awake.congr (h : Awake s) (hworkers : t.workers = s.workers)
    (hready : t.ready ≤ s.ready) : Awake t := by
  intro hw
  rw [hworkers] at hw ⊢
  exact Nat.le_trans hready (h hw)

/-- Something more in the queue, before the signal. -/
theorem Awake.post (h : Awake s) {item : Item} (hworkers : t.workers = s.workers)
    (hwq : t.wq = s.wq ++ [item]) (hslow : t.slowRunning = s.slowRunning) :
    .waiting ∈ t.workers → t.ready ≤ total Worker.alert t.workers + 1 := by
  intro hw
  rw [hworkers] at hw ⊢
  have hle := h hw
  have hready := ready_eq (congrArg List.length hworkers) hslow
  rw [hwq, takeable_append] at hready
  have hone : takeable (s.slowRunning < s.threshold) [item] ≤ 1 := by
    unfold takeable
    exact List.countP_le_length
  unfold State.ready at hle
  omega

theorem Awake.submitted {kind : Kind} (h : Awake s) (hc : Counted n s)
    (ht : Submitted s kind t) : Awake t := by
  cases ht with
  | scheduled => exact h.congr rfl (Nat.le_refl _)
  | slow hnot ht =>
      have hcounted : Counted n (s.submitSlow (s.wq ++ [.runSlow])) :=
        hc.congr rfl rfl rfl (by simp [State.submitSlow, List.count_eq_zero.mpr hnot])
      exact Awake.notified hcounted (h.post rfl rfl rfl) ht
  | fast _ ht =>
      have hcounted : Counted n (s.submitFast kind) :=
        hc.congr rfl rfl rfl (by simpa [State.submitFast, List.count_cons] using hc.scheduled)
      exact Awake.notified hcounted (h.post rfl rfl rfl) ht

/-- A worker that leaves, before the signal. -/
theorem Awake.leave (h : Awake s) {b : Worker} (hi : s.workers[i]? = some .locked)
    (hworkers : t.workers = s.workers.set i b) (hb : b ≠ .waiting) (hready : t.ready ≤ s.ready) :
    .waiting ∈ t.workers → t.ready ≤ total Worker.alert t.workers + 1 := by
  intro hw
  rw [hworkers] at hw ⊢
  have hle : s.ready ≤ total Worker.alert s.workers := by
    rcases mem_set_cases hw with hw | hw
    · exact absurd hw.symm hb
    · exact h hw
  have := total_set Worker.alert (b := b) hi
  simp only [Worker.alert] at this
  omega

theorem ready_startSlow (s : State) (i w : Nat) (more : List Nat) (wq : List Item) :
    (s.startSlow i w more wq).ready ≤ takeable true wq :=
  takeable_le _ wq

theorem ready_runSlow {rest : List Item} (hq : s.wq = .runSlow :: rest)
    (hfew : s.slowRunning < s.threshold) : s.ready = takeable true rest + 1 := by
  unfold State.ready
  rw [hq, decide_eq_true hfew, takeable_cons]
  exact Nat.add_comm 1 _

theorem Awake.turned (h : Awake s) (hc : Counted n s) (hi : s.workers[i]? = some .locked)
    (ht : Turned s i t) : Awake t := by
  cases ht with
  | wait hwait =>
      intro _
      have hready : State.ready { s.setWorker i .waiting with idleThreads := s.idleThreads + 1 } =
          s.ready := ready_eq (List.length_set ..) rfl
      rw [hready, ready_of_mustWait hwait]
      exact Nat.zero_le _
  | exit _ ht =>
      have hready : (s.setWorker i .exited).ready = s.ready := ready_eq (List.length_set ..) rfl
      exact Awake.signalled (h.leave hi rfl Worker.noConfusion hready.le) ht
  | @fast w rest hq =>
      have hready : (s.startFast i w rest).ready =
          takeable (s.slowRunning < s.threshold) rest := ready_eq (List.length_set ..) rfl
      have hold : s.ready = takeable (s.slowRunning < s.threshold) rest + 1 := by
        unfold State.ready
        rw [hq, takeable_cons]
        exact Nat.add_comm 1 _
      exact h.setWorker hi rfl Worker.noConfusion (by simp only [Worker.alert]; omega)
  | @behind rest hq =>
      refine h.congr rfl (Nat.le_of_eq ?_)
      unfold State.ready
      rw [hq, takeable_cons, Nat.add_comm]
      exact takeable_append _ rest [.runSlow]
  | @nothing rest hq =>
      refine h.congr rfl ?_
      unfold State.ready
      rw [hq, takeable_cons]
      exact Nat.le_add_left _ _
  | @last w rest hq hfew =>
      have hold := ready_runSlow hq hfew
      have hnew := ready_startSlow s i w [] rest
      exact h.setWorker hi rfl Worker.noConfusion (by simp only [Worker.alert]; omega)
  | @slow w more rest _ hq hfew _ _ ht =>
      have hold := ready_runSlow hq hfew
      have hnew := ready_startSlow s i w more (rest ++ [.runSlow])
      rw [takeable_append] at hnew
      have hone : takeable true [Item.runSlow] = 1 := rfl
      exact Awake.notified (hc.startSlow hi hq hfew (by simp))
        (h.leave hi rfl Worker.noConfusion (by omega)) ht

theorem awake_stepped {a : Label} (h : Awake s) (hc : Counted n s) (ht : Stepped s a t) :
    Awake t := by
  cases ht with
  | submit _ _ _ ht => exact h.submitted hc ht
  | cancel => exact h.congr rfl (List.Sublist.countP_le List.erase_sublist)
  | busy => exact h
  | cleanup _ _ _ ht =>
      have hexit : Counted n { s with wq := s.wq ++ [.exit], exiting := true } :=
        hc.congr rfl rfl rfl (by simpa using hc.scheduled)
      exact Awake.notified hexit (h.post rfl rfl rfl) ht
  | @lock i slow _ hi =>
      refine h.setWorker hi rfl Worker.noConfusion ?_
      -- the end of a slow work lets at most `run_slow_work_message` be taken again
      have hnew := takeable_le (decide ((if slow then s.slowRunning - 1 else s.slowRunning) <
        ((s.workers.set i .locked).length + 1) / 2)) s.wq
      have hold := le_takeable (decide (s.slowRunning < s.threshold)) s.wq
      have htrue := takeable_true s.wq
      have hscheduled := hc.scheduled
      simp only [Worker.alert]
      unfold State.ready
      change takeable (decide ((if slow then s.slowRunning - 1 else s.slowRunning) <
        ((s.workers.set i .locked).length + 1) / 2)) s.wq + 0 ≤ _
      omega
  | wake _ hi => exact h.moveWorker hi rfl Worker.noConfusion rfl rfl (Nat.le_refl 1)
  | turn hi ht => exact h.turned hc hi ht
  | run hi => exact h.moveWorker hi rfl Worker.noConfusion rfl rfl (Nat.le_refl 0)
  | spurious hi => exact h.moveWorker hi rfl Worker.noConfusion rfl rfl (Nat.zero_le 1)
  | requeue | async | take | done => exact h.congr rfl (Nat.le_refl _)

end Awake

structure Invariant (n : Nat) (s : State) : Prop where
  placed : Placed s
  through : Through s
  order : InOrder s
  counted : Counted n s
  awake : Awake s

theorem invariant_init (size : Option Int) :
    Invariant (nthreads size) (machine size).init where
  placed := placed_init size
  through := fun h => nomatch h
  order := ⟨List.Pairwise.nil, List.Pairwise.nil⟩
  counted := by
    have hreturning : ∀ k ∈ (machine size).init.workers, k = .returning false :=
      fun k hk => List.eq_of_mem_replicate hk
    constructor
    · exact List.length_replicate
    · exact (total_eq_zero fun k hk => by rw [hreturning k hk]; rfl).symm
    · exact (total_eq_zero fun k hk => by rw [hreturning k hk]; rfl).symm
    · exact Nat.zero_le _
    · exact Nat.zero_le _
  awake := fun _ => Nat.zero_le _

theorem invariant_step {n : Nat} {s t : State} {a : Label} (h : Invariant n s)
    (ht : step s a = some t) : Invariant n t := by
  have hstep := stepped ht
  exact {
    placed := placed_stepped h.placed h.through hstep
    through := through_stepped h.through hstep
    order := inOrder_stepped h.order h.placed hstep
    counted := counted_stepped h.counted hstep
    awake := awake_stepped h.awake h.counted hstep }

def Worker.runsSlow : Worker → Nat
  | running _ true => 1
  | running _ false | returning _ | locked | waiting | woken | exited => 0

/-- What is run, and when: the slow works and the others in the order of `uv__work_submit` each,
with nothing left out that was not cancelled, and never more slow works at once than half of
the threads. -/
structure Taken (n : Nat) (s : State) : Prop where
  fast : (s.started.filter fun w => !s.isSlow w).Pairwise (· < ·)
  slow : (s.started.filter s.isSlow).Pairwise (· < ·)
  skipped : ∀ w x, w < x → x ∈ s.started → s.isSlow w = s.isSlow x →
    w ∈ s.started ∨ s.works[w]?.map Work.fn = some .cancelled
  limit : total Worker.runsSlow s.workers ≤ (n + 1) / 2

theorem Invariant.taken {n : Nat} {s : State} (h : Invariant n s) : Taken n s where
  fast := (List.pairwise_append.mp h.order.fast).1
  slow := (List.pairwise_append.mp h.order.slow).1
  skipped := by
    intro w x hlt hx hkind
    have hw : w < s.works.length := by
      have := lt_of_started h.placed hx
      omega
    have hwork := List.getElem?_eq_getElem hw
    have hfits := h.placed w
    rw [hwork] at hfits ⊢
    generalize hrow : s.row w = r at hfits
    generalize s.works[w] = work at hfits hwork
    -- a work that waits comes after those of its kind that were run
    have hqueued : ¬ (.work w ∈ s.wq ∧ s.isSlow w = false) := by
      rintro ⟨hin, hfast⟩
      have hcross := (List.pairwise_append.mp h.order.fast).2.2
      have := hcross x (List.mem_filter.mpr ⟨hx, by simp [← hkind, hfast]⟩) w (mem_work?.mpr hin)
      omega
    have hpending : ¬ (w ∈ s.slowPending ∧ s.isSlow w = true) := by
      rintro ⟨hin, hslow⟩
      have hcross := (List.pairwise_append.mp h.order.slow).2.2
      have := hcross x (List.mem_filter.mpr ⟨hx, hkind ▸ hslow⟩) w hin
      omega
    have hstarted : r.started = 1 → w ∈ s.started := by
      intro hone
      rw [← hrow] at hone
      exact List.count_pos_iff.mp (by change 0 < (s.row w).started; omega)
    cases hfits with
    | queued kind hkind' =>
        refine absurd ⟨List.count_pos_iff.mp ?_, ?_⟩ hqueued
        · change 0 < (s.row w).queued
          rw [hrow]
          exact Nat.one_pos
        · simp [State.isSlow, State.kinds, hwork, hkind']
    | pending =>
        refine absurd ⟨List.count_pos_iff.mp ?_, ?_⟩ hpending
        · change 0 < (s.row w).pending
          rw [hrow]
          exact Nat.one_pos
        · simp [State.isSlow, State.kinds, hwork]
    | fast | slow | ran | doneRan => exact .inl (hstarted rfl)
    | cancelling | cancelled | doneCancelled => exact .inr rfl
  limit := by
    have hle : total Worker.runsSlow s.workers ≤ total Worker.busySlow s.workers := by
      refine total_le fun k _ => ?_
      cases k with
      | running w slow => cases slow <;> exact Nat.le_refl _
      | _ => exact Nat.zero_le _
    have hslow := h.counted.slow
    have hlimit := h.counted.limit
    rw [State.threshold, h.counted.size] at hlimit
    omega

theorem taken_in_order (size : Option Int) (as : List Label) :
    (machine size).Always (Taken (nthreads size)) (machine size).init as :=
  Machine.always_of_step (I := Invariant (nthreads size)) (fun _ h => h.taken)
    (fun _ _ _ h ht => invariant_step h ht) (invariant_init size)

theorem no_lost_wakeup (size : Option Int) (as : List Label) :
    (machine size).Always Awake (machine size).init as :=
  Machine.always_of_step (I := Invariant (nthreads size)) (fun _ h => h.awake)
    (fun _ _ _ h ht => invariant_step h ht) (invariant_init size)

end HxcppLuv.Pool
