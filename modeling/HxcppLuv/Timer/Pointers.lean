import HxcppLuv.Heap.Model
import HxcppLuv.Timer.Model

/-!
The timers as `timer.c` keeps them: the active ones in a heap and the others each alone in a
ring or with others in the ready queue, all in the one `node` of a `uv_timer_t`. A null pointer
that is followed, and a loop that does not end, have no result.
-/

namespace HxcppLuv.Timer.Pointers

/-- The `node` of a timer, or the `ready_queue` of `uv__run_timers`. -/
inductive Node where
  | timer (h : Nat)
  | ready
  deriving DecidableEq

structure State where
  handles : List Handle
  time : Nat
  counter : Nat
  memory : Heap.Memory Node
  frame : Option Nat
  closing : List Nat
  aborted : Bool

/-- `container_of`. -/
def handleAt (handles : List Handle) : Node → Handle
  | .timer h => handles[h]?.getD (.init .runData 0 0)
  | .ready => .init .runData 0 0

/-- `timer_less_than`. -/
def lessThan (handles : List Handle) (ha hb : Node) : Bool :=
  Handle.lessThan (handleAt handles ha) (handleAt handles hb)

namespace State

variable (s : State)

def modify (h : Nat) (f : Handle → Handle) : State := { s with handles := s.handles.modify h f }

def setMemory (m : Heap.Memory Node) : State := { s with memory := m }

def uvTimerStop (h : Nat) : Option State :=
  s.handles[h]?.bind fun hd =>
    (if hd.active then
      (s.memory.remove (lessThan s.handles) (.timer h)).map
        (s.modify h (Handle.setActive false)).setMemory
    else (s.memory.queueRemove (.timer h)).map s.setMemory).map fun s =>
      s.setMemory (s.memory.queueInit (.timer h))

def uvTimerStart (h : Nat) (timeout repeatValue : Nat) : Option State :=
  s.handles[h]?.bind fun hd =>
    if hd.closing then some s
    else
      (s.uvTimerStop h).bind fun s =>
        let s := { s.modify h (Handle.arm s.time s.counter timeout repeatValue) with
          counter := s.counter + 1 }
        (s.memory.insert (lessThan s.handles) (.timer h)).map s.setMemory

def uvTimerAgain (h : Nat) : Option State :=
  s.handles[h]?.bind fun hd =>
    if hd.repeatValue = 0 then some s
    else (s.uvTimerStop h).bind fun s => s.uvTimerStart h hd.repeatValue hd.repeatValue

def uvClose (h : Nat) (cb : CloseCb) : Option State :=
  s.handles[h]?.bind fun hd =>
    let s := s.modify h Handle.countClose
    if hd.allocated = false then some (s.modify h Handle.misuse)
    else if hd.closing then some { s with aborted := true }
    else
      (s.uvTimerStop h).map fun s =>
        { s.modify h (Handle.setClosing cb) with closing := h :: s.closing }

/-- `uv_timer_init` and `uv_timer_start` in `timer::run` and `timer::repeat`. -/
def start (payload : Payload) (interval : Int) : Option State :=
  let h := s.handles.length
  let s := { s with
    handles := s.handles ++ [Handle.init payload interval s.time]
    memory := s.memory.queueInit (.timer h) }
  s.uvTimerStart h (cUInt64 interval) (cUInt64 interval)

def timerStop (h : Nat) : Option State :=
  s.handles[h]?.bind fun hd =>
    if hd.userClosed then none
    else if hd.allocated then (s.uvTimerStop h).map fun s => s.modify h Handle.stop
    else some (s.modify h Handle.misuse)

def timerClose (h : Nat) : Option State :=
  s.handles[h]?.bind fun hd =>
    if hd.userClosed then none
    else (s.modify h Handle.markClosed).uvClose h .timerClose

/-- The first loop of `uv__run_timers`. -/
def collect : Nat → State → Option State
  | fuel, s =>
      match s.memory.min with
      | none => some s
      | some node =>
          if s.time < (handleAt s.handles node).timeout then some s
          else
            match node, fuel with
            | .timer h, fuel + 1 =>
                (s.uvTimerStop h).bind fun s =>
                  (s.memory.insertTail .ready (.timer h)).bind fun m => collect fuel (s.setMemory m)
            | _, _ => none

def countPhase (time : Nat) (hd : Handle) : Handle :=
  { hd with history := { hd.history with
      phases := if hd.history.due ≤ time then hd.history.phases + 1 else hd.history.phases } }

def runTimers : Option State :=
  let s := s.setMemory (s.memory.queueInit .ready)
  (collect s.memory.nelts s).map fun s =>
    { s with handles := s.handles.map (countPhase s.time) }

def idle : Bool := s.frame.isNone && s.memory.queueEmpty .ready

/-- The second loop, up to the user's task. -/
def fire : Option State :=
  if s.frame ≠ none ∨ s.memory.queueEmpty .ready then none
  else
    match s.memory.left .ready with
    | some (.timer h) =>
        (s.memory.queueRemove (.timer h)).bind fun m =>
          ((s.setMemory (m.queueInit (.timer h))).uvTimerAgain h).map fun s =>
            { s.modify h (Handle.call s.time) with frame := some h }
    | _ => none

def ret : Option State :=
  s.frame.bind fun h => s.handles[h]?.bind fun hd =>
    match hd.payload with
    | .runData =>
        (s.uvClose h .deleteHandle).map fun t =>
          if t.aborted then t else { t.modify h (Handle.release .runData) with frame := none }
    | .rootedObject => some { s with frame := none }

def finishClose (h : Nat) : Option State :=
  if s.idle ∧ h ∈ s.closing then
    some { s.modify h Handle.runCloseCb with closing := s.closing.erase h }
  else none

/-- `uv__next_timeout`. -/
def uvNextTimeout : Int :=
  match s.memory.min with
  | none => -1
  | some node =>
      let timeout := (handleAt s.handles node).timeout
      if timeout ≤ s.time then 0
      else
        let diff := timeout - s.time
        if 2147483647 < diff then 2147483647 else diff

end State

def stepLive (s : State) : Label → Option State
  | .timerRun => s.start .runData 0
  | .timerRepeat interval =>
      if -2 ^ 31 ≤ interval ∧ interval < 2 ^ 31 then s.start .rootedObject interval else none
  | .timerStop h => s.timerStop h
  | .timerClose h => s.timerClose h
  | .updateTime hrtime =>
      if s.idle ∧ hrtime < 2 ^ 64 ∧ s.time ≤ hrtime / 1000000 then
        some { s with time := hrtime / 1000000 }
      else none
  | .runTimers => if s.idle then s.runTimers else none
  | .fire => s.fire
  | .ret => s.ret
  | .finishClose h => s.finishClose h

def step (s : State) (l : Label) : Option State :=
  if s.aborted ∨ l.byUser ∧ s.frame = none ∧ s.memory.queueEmpty .ready = false then none
  else stepLive s l

/-- `heap_init` on a loop's memory; no timers are run, and the ready queue is empty. -/
def machine : Machine State Label where
  init := ⟨[], 0, 0, Heap.blank.heapInit.queueInit .ready, none, [], false⟩
  step := step

end HxcppLuv.Timer.Pointers
