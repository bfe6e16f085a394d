import HxcppLuv.Core.Machine

/-!
The worker threads of libuv, which run the requests of files and directories and the tasks of
`work::queue`. A critical section under the global mutex is one step, and so is a turn of the
loop of `worker`, which keeps the mutex where it is not done. The thread of the loop submits,
cancels and calls back: `uv__work_cancel` takes the work under the mutex and gives it to the
loop in a second section, and `uv__async_io` clears the flag of `wq_async` before
`uv__work_done` takes the queue.

A work is known by its place in the order of `uv__work_submit`. Which of the threads in
`uv_cond_wait` a signal wakes is an argument of the labels, and they may wake by themselves.
-/

namespace HxcppLuv.Pool

def ECANCELED : Int := -125

inductive Kind where
  | cpu
  | fastIo
  | slowIo
  deriving DecidableEq

/-- What `w->work` is: the function to run, null once it has returned, or `uv__cancelled`. -/
inductive Fn where
  | body
  | null
  | cancelled
  deriving DecidableEq

/-- A `struct uv__work`; `linked` where its queue node is not by itself. -/
structure Work where
  kind : Kind
  fn : Fn
  linked : Bool
  deriving DecidableEq

/-- What is in `wq`: works, `run_slow_work_message` and `exit_message`. -/
inductive Item where
  | work (w : Nat)
  | runSlow
  | exit
  deriving DecidableEq

/-- Where a worker is: about to take the mutex, as it starts or after a work; at the head of its
loop, with the mutex; in `uv_cond_wait`, and woken there; in a work; or at its end. -/
inductive Worker where
  | returning (slow : Bool)
  | locked
  | waiting
  | woken
  | running (w : Nat) (slow : Bool)
  | exited
  deriving DecidableEq

/-- `cancelling` is what `uv__work_cancel` took and has not given to the loop yet, `loopWq` the
queue of the loop, `called` whether `uv__work_done` is about to take it, and `dispatching` what
it took. `started` and `finished` are the works that were run and the calls of `done`. -/
structure State where
  works : List Work
  wq : List Item
  slowPending : List Nat
  idleThreads : Nat
  slowRunning : Nat
  workers : List Worker
  cancelling : Option Nat
  loopWq : List Nat
  asyncPending : Bool
  called : Bool
  dispatching : List Nat
  exiting : Bool
  started : List Nat
  finished : List (Nat × Int)
  deriving DecidableEq

inductive Label where
  | submit (kind : Kind) (wake : Option Nat)
  | cancel (w : Nat)
  | requeue
  | cleanup (wake : Option Nat)
  | lock (i : Nat)
  | turn (i : Nat) (wake : Option Nat)
  | run (i : Nat)
  | spurious (i : Nat)
  | async
  | take
  | done
  deriving DecidableEq

/-- `init_threads`, on the value of UV_THREADPOOL_SIZE. -/
def nthreads : Option Int → Nat
  | none => 4
  | some val =>
      let n := (val % 4294967296).toNat
      if n = 0 then 1 else if 1024 < n then 1024 else n

namespace State

def setWorker (s : State) (i : Nat) (k : Worker) : State :=
  { s with workers := s.workers.set i k }

def setWork (s : State) (w : Nat) (f : Work → Work) : State :=
  { s with works := s.works.modify w f }

/-- `slow_work_thread_threshold`. -/
def threshold (s : State) : Nat := (s.workers.length + 1) / 2

/-- Nobody has the mutex. -/
def unlocked (s : State) : Bool := !s.workers.contains .locked

/-- `uv_cond_signal`, which wakes one of those that wait. -/
def signal (s : State) : Option Nat → Option State
  | some i => if s.workers[i]? = some .waiting then some (s.setWorker i .woken) else none
  | none => if s.workers.contains .waiting then none else some s

def signalIdle (s : State) (wake : Option Nat) : Option State :=
  if 0 < s.idleThreads then s.signal wake else if wake = none then some s else none

/-- `post`, for the work that is submitted. -/
def post (s : State) (w : Nat) (kind : Kind) (wake : Option Nat) : Option State :=
  if kind = .slowIo then
    let t := { s with slowPending := s.slowPending ++ [w] }
    if t.wq.contains .runSlow then (if wake = none then some t else none)
    else signalIdle { t with wq := t.wq ++ [.runSlow] } wake
  else signalIdle { s with wq := s.wq ++ [.work w] } wake

/-- `uv__work_submit`. -/
def submit (s : State) (kind : Kind) (wake : Option Nat) : Option State :=
  post { s with works := s.works ++ [⟨kind, .body, true⟩] } s.works.length kind wake

/-- `uv__threadpool_cleanup`, up to the joins. -/
def cleanup (s : State) (wake : Option Nat) : Option State :=
  signalIdle { s with wq := s.wq ++ [.exit], exiting := true } wake

/-- The first section of `uv__work_cancel`, which takes the work out of the queue it is in. -/
def cancel (s : State) (w : Nat) : State :=
  match s.works[w]? with
  | none => s
  | some work =>
      if work.linked ∧ work.fn ≠ .null then
        { s.setWork w fun work => { work with fn := .cancelled } with
          wq := s.wq.erase (.work w)
          slowPending := s.slowPending.erase w
          loopWq := s.loopWq.erase w
          dispatching := s.dispatching.erase w
          cancelling := some w }
      else s

/-- The second section of `uv__work_cancel`. -/
def requeue (s : State) : Option State :=
  match s.cancelling with
  | none => none
  | some w =>
      some { s with cancelling := none, loopWq := s.loopWq ++ [w], asyncPending := true }

/-- A worker that got the mutex, at the end of a work or of `uv_cond_wait`. -/
def lock (s : State) (i : Nat) : Option State :=
  match s.workers[i]? with
  | some (.returning slow) =>
      some { s.setWorker i .locked with
        slowRunning := if slow then s.slowRunning - 1 else s.slowRunning }
  | some .woken => some { s.setWorker i .locked with idleThreads := s.idleThreads - 1 }
  | _ => none

/-- The condition of the inner loop of `worker`. -/
def mustWait (s : State) : Bool :=
  s.wq.isEmpty || s.wq = [.runSlow] && s.threshold ≤ s.slowRunning

/-- A worker leaves with a work, out of the mutex. -/
def start (s : State) (i w : Nat) (slow : Bool) : State :=
  { (s.setWorker i (.running w slow)).setWork w fun work => { work with linked := false } with
    started := s.started ++ [w] }

/-- One turn of the loop of `worker`. -/
def turn (s : State) (i : Nat) (wake : Option Nat) : Option State :=
  if s.mustWait then
    if wake = none then
      some { s.setWorker i .waiting with idleThreads := s.idleThreads + 1 }
    else none
  else
    match s.wq with
    | [] => none
    | .exit :: _ => (s.setWorker i .exited).signal wake
    | .work w :: rest =>
        if wake = none then some (start { s with wq := rest } i w false) else none
    | .runSlow :: rest =>
        if s.threshold ≤ s.slowRunning then
          if wake = none then some { s with wq := rest ++ [.runSlow] } else none
        else
          match s.slowPending with
          | [] => if wake = none then some { s with wq := rest } else none
          | w :: more =>
              let t := { s with slowPending := more, slowRunning := s.slowRunning + 1 }
              if more = [] then
                if wake = none then some (start { t with wq := rest } i w true) else none
              else signalIdle (start { t with wq := rest ++ [.runSlow] } i w true) wake

/-- The end of `w->work(w)`, and the queue of the loop. -/
def run (s : State) (i : Nat) : Option State :=
  match s.workers[i]? with
  | some (.running w slow) =>
      some { (s.setWorker i (.returning slow)).setWork w
          fun work => { work with fn := .null, linked := true } with
        loopWq := s.loopWq ++ [w]
        asyncPending := true }
  | _ => none

/-- `uv__async_io`, up to the call of `uv__work_done`. -/
def async (s : State) : State := { s with asyncPending := false, called := true }

/-- `uv__work_done`, up to its loop. -/
def take (s : State) : State :=
  { s with called := false, dispatching := s.loopWq, loopWq := [] }

/-- A turn of the loop of `uv__work_done`. -/
def done (s : State) : Option State :=
  match s.dispatching with
  | [] => none
  | w :: rest =>
      some { s with
        dispatching := rest
        finished := s.finished ++
          [(w, if (s.works[w]?.map Work.fn) = some .cancelled then ECANCELED else 0)] }

end State

/-- The thread of the loop is not inside `uv__work_cancel`. -/
def State.free (s : State) : Bool := s.cancelling.isNone

/-- Nothing is submitted after the cleanup, and no work is cancelled that is done. -/
def step (s : State) : Label → Option State
  | .submit kind wake =>
      if s.unlocked ∧ s.free ∧ s.exiting = false then s.submit kind wake else none
  | .cancel w =>
      if s.unlocked ∧ s.free ∧ w ∉ s.finished.map Prod.fst then some (s.cancel w) else none
  | .requeue => s.requeue
  | .cleanup wake =>
      if s.unlocked ∧ s.free ∧ s.exiting = false then s.cleanup wake else none
  | .lock i => if s.unlocked then s.lock i else none
  | .turn i wake => if s.workers[i]? = some .locked then s.turn i wake else none
  | .run i => s.run i
  | .spurious i =>
      if s.workers[i]? = some .waiting then some (s.setWorker i .woken) else none
  | .async =>
      if s.free ∧ s.asyncPending ∧ s.called = false ∧ s.dispatching = [] then some s.async
      else none
  | .take => if s.free ∧ s.called then some s.take else none
  | .done => if s.free ∧ s.called = false then s.done else none

def machine (size : Option Int) : Machine State Label where
  init := ⟨[], [], [], 0, 0, List.replicate (nthreads size) (.returning false), none, [], false,
    false, [], false, [], []⟩
  step := step

end HxcppLuv.Pool
