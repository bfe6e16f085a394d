import HxcppLuv.Core.Machine
import HxcppLuv.Core.Slots
import Mathlib.Data.List.Sort

/-!
The timers of one loop. `uv__run_timers` takes what is due out of the heap into a queue,
and only then starts each again and calls it, so a task may stop or close what is in the
queue still. A one-shot timer is closed by the destructor of its `RunData` at the end of
its callback, a repeating one by the user, and both have the same `stop` and `close`.

The heap is the active timers, in its order. A timer is named by the order of
`uv_timer_init`.
-/

namespace HxcppLuv.Timer

/-- What `data` points to: of a timer made by `run`, and of one made by `repeat`. -/
inductive Payload where
  | runData
  | rootedObject
  deriving DecidableEq

inductive CloseCb where
  | deleteHandle
  | timerClose
  deriving DecidableEq

/-- What is seen of a timer: how often it was closed, the types its payload was deleted as,
whether its task was called after that or a call was made on it after it was deleted, how
often its task was called, when it is due again after a start or a call, and how many timer
phases there were that were due. -/
structure History where
  closes : Nat
  releases : List Payload
  late : Bool
  misused : Bool
  calls : Nat
  due : Int
  phases : Nat
  deriving DecidableEq

structure Handle where
  payload : Payload
  interval : Int
  allocated : Bool
  active : Bool
  closing : Bool
  closeCb : CloseCb
  timeout : Nat
  repeatValue : Nat
  startId : Nat
  stopped : Bool
  userClosed : Bool
  history : History
  deriving DecidableEq

/-- An `int` passed for a `uint64_t`. -/
def cUInt64 (x : Int) : Nat := (x % 2 ^ 64).toNat

/-- The due time of `uv_timer_start`, in 64 bits. -/
def clampedTimeout (time timeout : Nat) : Nat :=
  let t := (time + timeout) % 2 ^ 64
  if t < timeout then 2 ^ 64 - 1 else t

namespace Handle

/-- The bindings' constructors up to `uv_timer_init`. -/
def init (payload : Payload) (interval : Int) (time : Nat) : Handle :=
  ⟨payload, interval, true, false, false, .deleteHandle, 0, 0, 0, false, false,
    ⟨0, [], false, false, 0, time + interval, 0⟩⟩

/-- `timer_less_than`. -/
def lessThan (a b : Handle) : Bool :=
  if a.timeout < b.timeout then true
  else if b.timeout < a.timeout then false
  else a.startId < b.startId

def isDue (time : Nat) (hd : Handle) : Bool := hd.active && hd.timeout ≤ time

def setActive (active : Bool) (hd : Handle) : Handle := { hd with active := active }

/-- The first loop of `uv__run_timers`. -/
def collect (time : Nat) (hd : Handle) : Handle :=
  { hd with
    active := hd.active && !hd.isDue time
    history := { hd.history with
      phases := if hd.history.due ≤ time then hd.history.phases + 1 else hd.history.phases } }

def call (time : Nat) (hd : Handle) : Handle :=
  { hd with history := { hd.history with
      late := hd.history.late || !hd.history.releases.isEmpty
      calls := hd.history.calls + 1
      due := time + hd.interval } }

def countClose (hd : Handle) : Handle :=
  { hd with history := { hd.history with closes := hd.history.closes + 1 } }

def misuse (hd : Handle) : Handle :=
  { hd with history := { hd.history with misused := true } }

def release (p : Payload) (hd : Handle) : Handle :=
  { hd with history := { hd.history with releases := hd.history.releases ++ [p] } }

def stop (hd : Handle) : Handle := { hd with stopped := true }

def markClosed (hd : Handle) : Handle := { hd with userClosed := true }

def setClosing (cb : CloseCb) (hd : Handle) : Handle := { hd with closing := true, closeCb := cb }

def arm (time counter timeout repeatValue : Nat) (hd : Handle) : Handle :=
  { hd with
    active := true
    timeout := clampedTimeout time timeout
    repeatValue := repeatValue
    startId := counter }

/-- The two close callbacks; `close` deletes `data` as a `RootedObject`. -/
def runCloseCb (hd : Handle) : Handle :=
  match hd.closeCb with
  | .deleteHandle => { hd with allocated := false }
  | .timerClose => { hd.release .rootedObject with allocated := false }

end Handle

/-- `frame` is the timer whose callback is running. -/
structure State where
  handles : List Handle
  time : Nat
  counter : Nat
  ready : List Nat
  frame : Option Nat
  closing : List Nat
  aborted : Bool
  deriving DecidableEq

inductive Label where
  | timerRun
  | timerRepeat (interval : Int)
  | timerStop (h : Nat)
  | timerClose (h : Nat)
  | updateTime (hrtime : Nat)
  | runTimers
  | fire
  | ret
  | finishClose (h : Nat)
  deriving DecidableEq

namespace State

def modify (s : State) (h : Nat) (f : Handle → Handle) : State :=
  { s with handles := s.handles.modify h f }

def uvTimerStop (s : State) (h : Nat) : State :=
  if s.handles[h]?.any Handle.active then s.modify h (Handle.setActive false)
  else { s with ready := s.ready.erase h }

def uvTimerStart (s : State) (h : Nat) (timeout repeatValue : Nat) : State :=
  if s.handles[h]?.any Handle.closing then s
  else
    { (s.uvTimerStop h).modify h (Handle.arm s.time s.counter timeout repeatValue) with
      counter := s.counter + 1 }

def uvTimerAgain (s : State) (h : Nat) : State :=
  match s.handles[h]? with
  | none => s
  | some hd =>
      if hd.repeatValue = 0 then s
      else (s.uvTimerStop h).uvTimerStart h hd.repeatValue hd.repeatValue

def uvClose (s : State) (h : Nat) (cb : CloseCb) : State :=
  match s.handles[h]? with
  | none => s
  | some hd =>
      let s := s.modify h Handle.countClose
      if hd.allocated = false then s.modify h Handle.misuse
      else if hd.closing then { s with aborted := true }
      else { (s.uvTimerStop h).modify h (Handle.setClosing cb) with closing := h :: s.closing }

/-- `timer::run` and `timer::repeat`. -/
def start (s : State) (payload : Payload) (interval : Int) : State :=
  { s with handles := s.handles ++ [Handle.init payload interval s.time] }.uvTimerStart
    s.handles.length (cUInt64 interval) (cUInt64 interval)

def timerStop (s : State) (h : Nat) : Option State :=
  s.handles[h]?.bind fun hd =>
    if hd.userClosed then none
    else if hd.allocated then some ((s.uvTimerStop h).modify h Handle.stop)
    else some (s.modify h Handle.misuse)

def timerClose (s : State) (h : Nat) : Option State :=
  s.handles[h]?.bind fun hd =>
    if hd.userClosed then none
    else some ((s.modify h Handle.markClosed).uvClose h .timerClose)

def idle (s : State) : Bool := s.frame.isNone && s.ready.isEmpty

/-- What is due, as it comes out of the heap. -/
def due (s : State) : List Nat :=
  ((List.range s.handles.length).filter fun h =>
    s.handles[h]?.any (Handle.isDue s.time)).insertionSort fun i j =>
      ∃ a ∈ s.handles[i]?, ∃ b ∈ s.handles[j]?, Handle.lessThan a b

/-- The second loop of `uv__run_timers`, up to the user's task. -/
def fire (s : State) : Option State :=
  match s.frame, s.ready with
  | none, h :: rest =>
      some { ({ s with ready := rest }.uvTimerAgain h).modify h (Handle.call s.time) with
        frame := some h }
  | _, _ => none

/-- The end of the callback; the destructor of `RunData` closes the timer. -/
def ret (s : State) : Option State :=
  s.frame.bind fun h => s.handles[h]?.map fun hd =>
    match hd.payload with
    | .runData =>
        let t := s.uvClose h .deleteHandle
        if t.aborted then t else { t.modify h (Handle.release .runData) with frame := none }
    | .rootedObject => { s with frame := none }

def finishClose (s : State) (h : Nat) : Option State :=
  if s.idle ∧ h ∈ s.closing then
    some { s.modify h Handle.runCloseCb with closing := s.closing.erase h }
  else none

end State

/-- The loop's clock is `uv_hrtime` in milliseconds. -/
def stepLive (s : State) : Label → Option State
  | .timerRun => some (s.start .runData 0)
  | .timerRepeat interval =>
      if -2 ^ 31 ≤ interval ∧ interval < 2 ^ 31 then some (s.start .rootedObject interval) else none
  | .timerStop h => s.timerStop h
  | .timerClose h => s.timerClose h
  | .updateTime hrtime =>
      if s.idle ∧ hrtime < 2 ^ 64 ∧ s.time ≤ hrtime / 1000000 then
        some { s with time := hrtime / 1000000 }
      else none
  | .runTimers =>
      if s.idle then
        some { s with handles := s.handles.map (Handle.collect s.time), ready := s.due }
      else none
  | .fire => s.fire
  | .ret => s.ret
  | .finishClose h => s.finishClose h

def Label.byUser : Label → Bool
  | .timerRun | .timerRepeat _ | .timerStop _ | .timerClose _ => true
  | .updateTime _ | .runTimers | .fire | .ret | .finishClose _ => false

/-- The user's calls are made from a task, or while no timers are run. -/
def step (s : State) (l : Label) : Option State :=
  if s.aborted ∨ l.byUser ∧ s.frame = none ∧ s.ready ≠ [] then none else stepLive s l

def machine : Machine State Label where
  init := ⟨[], 0, 0, [], none, [], false⟩
  step := step

end HxcppLuv.Timer
