import HxcppLuv.Core.Machine

/-!
Async handles, over which other threads wake the loop. Each atomic access of `uv_async_send` is
a step of the thread that makes it, and so is each system call, so any number of calls from any
threads interleave with `uv__async_io`, with `uv__async_spin` and with each other.

The channel of the loop is an eventfd or a pipe; a write to one that is full is given up. The
accesses are sequentially consistent, the relaxed load at the head of `uv_async_send` too. A
call is served when the loop takes the flag it has raised, and a handle whose `async_cb` is null
is then passed over.
-/

namespace HxcppLuv.Async

/-- `cap` is how much the counter of the eventfd or the pipe can hold. -/
structure Channel where
  pipe : Bool
  cap : Nat
  pos : 0 < cap

inductive Phase where
  | opened
  | spinning
  | closed
  deriving DecidableEq

/-- A `uv_async_t`; `callback` where `async_cb` is not null, and `calls` counts its calls. -/
structure Handle where
  pending : Bool
  busy : Nat
  callback : Bool
  phase : Phase
  calls : Nat
  deriving DecidableEq

/-- The next access of a call of `uv_async_send`. -/
inductive Access where
  | load
  | setBusy
  | exchange
  | write
  | clearBusy
  | returned
  deriving DecidableEq

/-- A call of `uv_async_send`; `served` where the loop has taken the flag since it began. -/
structure Sender where
  handle : Nat
  next : Access
  served : Bool
  deriving DecidableEq

/-- Where the loop is: outside of `uv__async_io`, about to read again, about to move the queue,
at the head of the loop over it, or in a callback. -/
inductive Place where
  | outside
  | read
  | move
  | scan
  | callback
  deriving DecidableEq

/-- `bytes` is what the channel has to be read, and `queue` the local one of `uv__async_io`. -/
structure State where
  handles : List Handle
  asyncHandles : List Nat
  queue : List Nat
  bytes : Nat
  senders : List Sender
  place : Place
  spinning : Option Nat
  deriving DecidableEq

inductive Label where
  | init (callback : Bool)
  | send (h : Nat)
  | sender (i : Nat)
  | poll
  | read
  | move
  | scan
  | ret
  | close (h : Nat)
  | spin
  deriving DecidableEq

namespace State

variable (c : Channel) (s : State)

def setHandle (h : Nat) (f : Handle → Handle) : State :=
  { s with handles := s.handles.modify h f }

def setNext (i : Nat) (a : Access) : State :=
  { s with senders := s.senders.modify i fun x => { x with next := a } }

/-- `uv__async_send`. -/
def wakeup : State := { s with bytes := if s.bytes < c.cap then s.bytes + 1 else s.bytes }

/-- The next access of `uv_async_send`. -/
def access (i : Nat) : Option State :=
  match s.senders[i]? with
  | none => none
  | some x =>
      match s.handles[x.handle]? with
      | none => none
      | some handle =>
          match x.next with
          | .load =>
              some (s.setNext i (if handle.pending then .returned else .setBusy))
          | .setBusy =>
              some ((s.setHandle x.handle fun k => { k with busy := k.busy + 1 }).setNext i
                .exchange)
          | .exchange =>
              some ((s.setHandle x.handle fun k => { k with pending := true }).setNext i
                (if handle.pending then .clearBusy else .write))
          | .write => some ((s.wakeup c).setNext i .clearBusy)
          | .clearBusy =>
              some ((s.setHandle x.handle fun k => { k with busy := k.busy - 1 }).setNext i
                .returned)
          | .returned => none

/-- A `read` of the loop of `uv__async_io`, which goes on where it filled the buffer. -/
def drain : State :=
  if c.pipe then
    let n := min 1024 s.bytes
    { s with bytes := s.bytes - n, place := if n = 1024 then .read else .move }
  else { s with bytes := 0, place := .move }

/-- The flag of a handle is taken: the calls of `uv_async_send` up to here are served. -/
def take (h : Nat) : State :=
  { s.setHandle h fun k => { k with
      pending := false, calls := if k.callback then k.calls + 1 else k.calls } with
    senders := s.senders.map fun x => if x.handle = h then { x with served := true } else x }

/-- A turn of the loop over the local queue. -/
def turn : State :=
  match s.queue with
  | [] => { s with place := .outside }
  | h :: rest =>
      let t := { s with queue := rest, asyncHandles := s.asyncHandles ++ [h] }
      match s.handles[h]? with
      | none => t
      | some handle =>
          if handle.pending then
            { t.take h with place := if handle.callback then .callback else .scan }
          else t

/-- `uv_async_init`. -/
def init (callback : Bool) : State :=
  { s with
    handles := s.handles ++ [⟨false, 0, callback, .opened, 0⟩]
    asyncHandles := s.asyncHandles ++ [s.handles.length] }

/-- `uv__async_close`, up to the loop of `uv__async_spin`. -/
def close (h : Nat) : State :=
  { s.setHandle h fun k => { k with pending := true, phase := .spinning } with
    spinning := some h }

/-- The rest of `uv__async_close`, once the busy flag is clear. -/
def closed (h : Nat) : State :=
  { s.setHandle h fun k => { k with phase := .closed } with
    asyncHandles := s.asyncHandles.erase h
    queue := s.queue.erase h
    spinning := none }

/-- The loop's thread is in code of the program, from where it may use the handles. -/
def inProgram : Bool :=
  s.spinning.isNone && (s.place = .outside || s.place = .callback)

end State

/-- A handle is closed once, and nothing else runs on the loop's thread while it spins. -/
def step (c : Channel) (s : State) : Label → Option State
  | .init callback => if s.inProgram then some (s.init callback) else none
  | .send h =>
      if h < s.handles.length then some { s with senders := s.senders ++ [⟨h, .load, false⟩] }
      else none
  | .sender i => s.access c i
  | .poll =>
      if s.spinning = none ∧ s.place = .outside ∧ 0 < s.bytes then some (s.drain c) else none
  | .read => if s.place = .read then some (s.drain c) else none
  | .move =>
      if s.place = .move then
        some { s with queue := s.asyncHandles, asyncHandles := [], place := .scan }
      else none
  | .scan => if s.place = .scan then some s.turn else none
  | .ret =>
      if s.spinning = none ∧ s.place = .callback then some { s with place := .scan } else none
  | .close h =>
      if s.inProgram ∧ s.handles[h]?.map Handle.phase = some .opened then some (s.close h)
      else none
  | .spin =>
      match s.spinning with
      | none => none
      | some h =>
          if s.handles[h]?.map Handle.busy = some 0 then some (s.closed h) else none

def machine (c : Channel) : Machine State Label where
  init := ⟨[], [], [], 0, [], .outside, none⟩
  step := step c

end HxcppLuv.Async
