import HxcppLuv.Pool.Model

/-!
What each step of the pool does, with all that its guards say.
-/

namespace HxcppLuv.Pool

/-- `uv_cond_signal` wakes one of the workers in `uv_cond_wait`, where there is one. -/
inductive Signalled (s : State) : State → Prop
  | woke (i : Nat) (hi : s.workers[i]? = some .waiting) : Signalled s (s.setWorker i .woken)
  | nobody (h : .waiting ∉ s.workers) : Signalled s s

/-- The signal is sent where `idle_threads` is not zero. -/
inductive Notified (s : State) : State → Prop
  | signalled {t : State} (h : Signalled s t) : Notified s t
  | busy (h : s.idleThreads = 0) : Notified s s

def State.submitSlow (s : State) (wq : List Item) : State :=
  { s with
    works := s.works ++ [⟨.slowIo, .body, true⟩]
    slowPending := s.slowPending ++ [s.works.length]
    wq := wq }

def State.submitFast (s : State) (kind : Kind) : State :=
  { s with
    works := s.works ++ [⟨kind, .body, true⟩]
    wq := s.wq ++ [.work s.works.length] }

inductive Submitted (s : State) : Kind → State → Prop
  | scheduled (h : .runSlow ∈ s.wq) : Submitted s .slowIo (s.submitSlow s.wq)
  | slow {t : State} (h : .runSlow ∉ s.wq) (ht : Notified (s.submitSlow (s.wq ++ [.runSlow])) t) :
      Submitted s .slowIo t
  | fast {kind : Kind} {t : State} (h : kind ≠ .slowIo) (ht : Notified (s.submitFast kind) t) :
      Submitted s kind t

def State.startFast (s : State) (i w : Nat) (rest : List Item) : State :=
  start { s with wq := rest } i w false

def State.startSlow (s : State) (i w : Nat) (more : List Nat) (wq : List Item) : State :=
  start { s with slowPending := more, slowRunning := s.slowRunning + 1, wq := wq } i w true

section Fields

variable (s : State) (i w : Nat) (more : List Nat) (rest : List Item)

@[simp] theorem startFast_wq : (s.startFast i w rest).wq = rest := rfl

@[simp] theorem startFast_exiting : (s.startFast i w rest).exiting = s.exiting := rfl

@[simp] theorem startSlow_wq : (s.startSlow i w more rest).wq = rest := rfl

@[simp] theorem startSlow_exiting : (s.startSlow i w more rest).exiting = s.exiting := rfl

end Fields

/-- What a turn of the loop of `worker` can do. -/
inductive Turned (s : State) (i : Nat) : State → Prop
  | wait (h : s.mustWait = true) :
      Turned s i { s.setWorker i .waiting with idleThreads := s.idleThreads + 1 }
  | exit {rest : List Item} {t : State} (hq : s.wq = .exit :: rest)
      (ht : Signalled (s.setWorker i .exited) t) : Turned s i t
  | fast {w : Nat} {rest : List Item} (hq : s.wq = .work w :: rest) :
      Turned s i (s.startFast i w rest)
  | behind {rest : List Item} (hq : s.wq = .runSlow :: rest) (hrest : rest ≠ [])
      (hmany : s.threshold ≤ s.slowRunning) : Turned s i { s with wq := rest ++ [.runSlow] }
  | nothing {rest : List Item} (hq : s.wq = .runSlow :: rest) (hpending : s.slowPending = []) :
      Turned s i { s with wq := rest }
  | last {w : Nat} {rest : List Item} (hq : s.wq = .runSlow :: rest)
      (hfew : s.slowRunning < s.threshold) (hpending : s.slowPending = [w]) :
      Turned s i (s.startSlow i w [] rest)
  | slow {w : Nat} {more : List Nat} {rest : List Item} {t : State}
      (hq : s.wq = .runSlow :: rest) (hfew : s.slowRunning < s.threshold)
      (hpending : s.slowPending = w :: more) (hmore : more ≠ [])
      (ht : Notified (s.startSlow i w more (rest ++ [.runSlow])) t) : Turned s i t

def State.cancelled (s : State) (w : Nat) : State :=
  { s.setWork w fun work => { work with fn := .cancelled } with
    wq := s.wq.erase (.work w)
    slowPending := s.slowPending.erase w
    loopWq := s.loopWq.erase w
    dispatching := s.dispatching.erase w
    cancelling := some w }

def State.ran (s : State) (i w : Nat) (slow : Bool) : State :=
  { (s.setWorker i (.returning slow)).setWork w
      fun work => { work with fn := .null, linked := true } with
    loopWq := s.loopWq ++ [w]
    asyncPending := true }

/-- The status `uv__work_done` passes to `done`. -/
def State.err (s : State) (w : Nat) : Int :=
  if (s.works[w]?.map Work.fn) = some .cancelled then ECANCELED else 0

inductive Stepped (s : State) : Label → State → Prop
  | submit {kind : Kind} {wake : Option Nat} {t : State} (hunlocked : s.unlocked = true)
      (hfree : s.free = true) (hexiting : s.exiting = false) (ht : Submitted s kind t) :
      Stepped s (.submit kind wake) t
  | cancel {w : Nat} {work : Work} (hunlocked : s.unlocked = true) (hfree : s.free = true)
      (hdone : w ∉ s.finished.map Prod.fst) (hw : s.works[w]? = some work)
      (hlinked : work.linked = true) (hfn : work.fn ≠ .null) :
      Stepped s (.cancel w) (s.cancelled w)
  | busy {w : Nat} : Stepped s (.cancel w) s
  | requeue {w : Nat} (hw : s.cancelling = some w) :
      Stepped s .requeue
        { s with cancelling := none, loopWq := s.loopWq ++ [w], asyncPending := true }
  | cleanup {wake : Option Nat} {t : State} (hunlocked : s.unlocked = true)
      (hfree : s.free = true) (hexiting : s.exiting = false)
      (ht : Notified { s with wq := s.wq ++ [.exit], exiting := true } t) :
      Stepped s (.cleanup wake) t
  | lock {i : Nat} {slow : Bool} (hunlocked : s.unlocked = true)
      (hi : s.workers[i]? = some (.returning slow)) :
      Stepped s (.lock i) { s.setWorker i .locked with
        slowRunning := if slow then s.slowRunning - 1 else s.slowRunning }
  | wake {i : Nat} (hunlocked : s.unlocked = true) (hi : s.workers[i]? = some .woken) :
      Stepped s (.lock i) { s.setWorker i .locked with idleThreads := s.idleThreads - 1 }
  | turn {i : Nat} {wake : Option Nat} {t : State} (hi : s.workers[i]? = some .locked)
      (ht : Turned s i t) : Stepped s (.turn i wake) t
  | run {i w : Nat} {slow : Bool} (hi : s.workers[i]? = some (.running w slow)) :
      Stepped s (.run i) (s.ran i w slow)
  | spurious {i : Nat} (hi : s.workers[i]? = some .waiting) :
      Stepped s (.spurious i) (s.setWorker i .woken)
  | async (hfree : s.free = true) (hpending : s.asyncPending = true) (hcalled : s.called = false)
      (hdispatching : s.dispatching = []) : Stepped s .async s.async
  | take (hfree : s.free = true) (hcalled : s.called = true) : Stepped s .take s.take
  | done {w : Nat} {rest : List Nat} (hfree : s.free = true) (hcalled : s.called = false)
      (hq : s.dispatching = w :: rest) :
      Stepped s .done
        { s with dispatching := rest, finished := s.finished ++ [(w, s.err w)] }

section Steps

variable {s t : State} {i : Nat} {wake : Option Nat}

theorem signalled (ht : s.signal wake = some t) : Signalled s t := by
  unfold State.signal at ht
  split at ht
  · split at ht
    · cases ht
      exact .woke _ ‹_›
    · cases ht
  · split at ht
    · cases ht
    · rename_i hnone
      cases ht
      exact .nobody (by simpa using hnone)

theorem notified (ht : s.signalIdle wake = some t) : Notified s t := by
  unfold State.signalIdle at ht
  split at ht
  · exact .signalled (signalled ht)
  · obtain ⟨-, rfl⟩ := Machine.of_guard ht
    exact .busy (by omega)

theorem submitted {kind : Kind} (ht : s.submit kind wake = some t) : Submitted s kind t := by
  simp only [State.submit, State.post] at ht
  split at ht
  · cases ‹kind = .slowIo›
    split at ht
    · rename_i hscheduled
      obtain ⟨-, rfl⟩ := Machine.of_guard ht
      exact .scheduled (by simpa using hscheduled)
    · rename_i hscheduled
      exact .slow (by simpa using hscheduled) (notified ht)
  · exact .fast ‹_› (notified ht)

theorem turned (ht : s.turn i wake = some t) : Turned s i t := by
  unfold State.turn at ht
  split at ht
  · obtain ⟨-, rfl⟩ := Machine.of_guard ht
    exact .wait ‹_›
  · rename_i hwait
    split at ht
    · cases ht
    · exact .exit ‹_› (signalled ht)
    · obtain ⟨-, rfl⟩ := Machine.of_guard ht
      exact .fast ‹_›
    · rename_i rest hq
      split at ht
      · rename_i hmany
        obtain ⟨-, rfl⟩ := Machine.of_guard ht
        refine .behind hq (fun hnil => hwait ?_) hmany
        simp [State.mustWait, hq, hnil, hmany]
      · split at ht
        · obtain ⟨-, rfl⟩ := Machine.of_guard ht
          exact .nothing hq ‹_›
        · rename_i w more hpending
          dsimp only at ht
          split at ht
          · cases ‹more = []›
            obtain ⟨-, rfl⟩ := Machine.of_guard ht
            exact .last hq (by omega) hpending
          · exact .slow hq (by omega) hpending ‹_› (notified ht)

theorem stepped {a : Label} (ht : step s a = some t) : Stepped s a t := by
  cases a with
  | submit kind wake =>
      simp only [step] at ht
      split at ht
      · rename_i h
        exact .submit h.1 h.2.1 h.2.2 (submitted ht)
      · cases ht
  | cancel w =>
      obtain ⟨⟨hunlocked, hfree, hdone⟩, rfl⟩ := Machine.of_guard ht
      unfold State.cancel
      split
      · exact .busy
      · rename_i work hw
        split
        · rename_i h
          exact .cancel hunlocked hfree hdone hw h.1 h.2
        · exact .busy
  | requeue =>
      simp only [step, State.requeue] at ht
      split at ht
      · cases ht
      · cases ht
        exact .requeue ‹_›
  | cleanup wake =>
      simp only [step] at ht
      split at ht
      · rename_i h
        exact .cleanup h.1 h.2.1 h.2.2 (notified ht)
      · cases ht
  | lock i =>
      simp only [step, State.lock] at ht
      split at ht
      · split at ht
        · cases ht
          exact .lock ‹_› ‹_›
        · cases ht
          exact .wake ‹_› ‹_›
        · cases ht
      · cases ht
  | turn i wake =>
      simp only [step] at ht
      split at ht
      · exact .turn ‹_› (turned ht)
      · cases ht
  | run i =>
      simp only [step, State.run] at ht
      split at ht
      · cases ht
        exact .run ‹_›
      · cases ht
  | spurious i =>
      obtain ⟨hi, rfl⟩ := Machine.of_guard ht
      exact .spurious hi
  | async =>
      obtain ⟨⟨hfree, hpending, hcalled, hdispatching⟩, rfl⟩ := Machine.of_guard ht
      exact .async hfree hpending hcalled hdispatching
  | take =>
      obtain ⟨⟨hfree, hcalled⟩, rfl⟩ := Machine.of_guard ht
      exact .take hfree hcalled
  | done =>
      simp only [step, State.done] at ht
      split at ht
      · rename_i h
        split at ht
        · cases ht
        · cases ht
          exact .done h.1 h.2 ‹_›
      · cases ht

end Steps

end HxcppLuv.Pool
