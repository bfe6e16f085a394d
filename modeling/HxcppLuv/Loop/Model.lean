import HxcppLuv.Core.Machine
import HxcppLuv.Core.Slots

/-!
The handles of one loop. `uv_*_init` links a handle into `loop->handle_queue`,
`uv_close` puts it on the closing list, and `uv__finish_close` unlinks it and runs
its close callback, where the bindings delete it. Between the two each handle
carries a `void*` whose meaning is fixed by whoever stored it last.

Which way an operation goes is decided by what the libuv calls in it return; the
results are arguments of the labels. `task` and `exit` are the callbacks that do
something after the user code they run: a one-shot timer's, and a child's exit.
All other callbacks read `data` first and are done when the user code returns, so
the calls made in them follow as steps of their own. Failed assertions of libuv
abort the program.

A handle is named by its place in the order of `uv_*_init`. A struct that was
never linked is `stray` when nothing deletes it.
-/

namespace HxcppLuv.Loop

/-- What made a handle, which fixes its libuv type and the calls the user has for it. -/
inductive Kind where
  | pipe
  | stdio
  | server
  | client
  | tty
  | signal
  | process
  | runTimer
  | repeatTimer
  | async
  deriving DecidableEq

inductive Tag where
  | streamData
  | callbackRoot
  | rootedObject
  | runData
  | spawnData
  deriving DecidableEq

/-- The objects a `data` field points to; `SpawnData` keeps the three pipes. -/
inductive Payload where
  | streamData
  | callbackRoot
  | rootedObject
  | runData
  | spawnData (stdinPipe stdoutPipe stderrPipe : Nat)
  deriving DecidableEq

def Payload.tag : Payload → Tag
  | .streamData => .streamData
  | .callbackRoot => .callbackRoot
  | .rootedObject => .rootedObject
  | .runData => .runData
  | .spawnData _ _ _ => .spawnData

/-- A `data` field: null, or a pointer to a payload that is live or was deleted. -/
inductive Data where
  | null
  | live (p : Payload)
  | dead (p : Payload)
  deriving DecidableEq

namespace Data

def delete : Data → Data
  | live p => dead p
  | d => d

def held : Data → List Payload
  | live p => [p]
  | _ => []

end Data

/-- The close callbacks of the bindings; `shutdownLoop` passes none. -/
inductive CloseCb where
  | null
  | deleteHandle
  | streamClose
  | ttyClose
  | timerClose
  | asyncClose
  deriving DecidableEq

/-- What a close callback casts `data` to, and whether it checks for null before. -/
def CloseCb.casts : CloseCb → Option (Tag × Bool)
  | null | deleteHandle => none
  | streamClose => some (.streamData, true)
  | ttyClose => some (.streamData, false)
  | timerClose => some (.rootedObject, false)
  | asyncClose => some (.callbackRoot, false)

/-- The close callback behind the user's `close`, for the handles that have one. -/
def Kind.closeCb : Kind → Option CloseCb
  | pipe | server | client => some .streamClose
  | tty => some .ttyClose
  | signal => some .deleteHandle
  | runTimer | repeatTimer => some .timerClose
  | async => some .asyncClose
  | stdio | process => none

def Kind.isTimer : Kind → Bool
  | runTimer | repeatTimer => true
  | _ => false

def Kind.isReadable : Kind → Bool
  | pipe | stdio | client | tty => true
  | _ => false

structure Handle where
  kind : Kind
  allocated : Bool
  linked : Bool
  closing : Bool
  closeCb : CloseCb
  data : Data
  active : Bool
  reading : Bool
  listening : Bool
  signum : Int
  given : Bool
  userClosed : Bool
  deriving DecidableEq

namespace Handle

/-- A zeroed struct after `uv_*_init`. -/
def init (kind : Kind) : Handle :=
  ⟨kind, true, true, false, .null, .null, false, false, false, 0, false, false⟩

/-- `uv_close`, which stops whatever the handle was watching. -/
def close (cb : CloseCb) (hd : Handle) : Handle :=
  { hd with
    closing := true
    closeCb := cb
    active := false
    reading := false
    listening := false
    signum := 0 }

/-- `uv__finish_close` and the close callback. -/
def finish (hd : Handle) : Handle :=
  { hd with
    linked := false
    allocated := hd.allocated && hd.closeCb == .null
    data := if hd.closeCb.casts.isSome then hd.data.delete else hd.data }

end Handle

inductive Frame where
  | idle
  | task (h : Nat)
  | exit (h : Nat)
  deriving DecidableEq

/-- A cast of a handle's `data` and what the field was. -/
structure Use where
  handle : Nat
  expects : Tag
  nullOk : Bool
  found : Data
  deriving DecidableEq

/-- `fault` records an access to a handle that was deleted. -/
structure State where
  handles : List Handle
  closing : List Nat
  frame : Frame
  aborted : Bool
  fault : Bool
  uses : List Use
  lost : List Payload
  stray : List Kind
  deriving DecidableEq

inductive Label where
  | pipeOpen (init result : Int)
  | tcpBind (addr init result : Int)
  | tcpListen (h : Nat) (result : Int)
  | tcpAccept (h : Nat) (result : Int)
  | ttyInit (result : Int)
  | signalInit (result : Int)
  | signalStart (h : Nat) (signum registered : Int)
  | signalStop (h : Nat)
  | spawn (result : Int)
  | timerRun
  | timerRepeat
  | timerStop (h : Nat)
  | asyncInit (result : Int)
  | streamRead (h : Nat) (result : Int)
  | streamStop (h : Nat)
  | close (h : Nat)
  | streamEvent (h : Nat) (ended : Bool)
  | connection (h : Nat)
  | signalEvent (h : Nat)
  | asyncEvent (h : Nat)
  | timerEvent (h : Nat)
  | taskReturn
  | childExit (h : Nat)
  | exitReturn
  | walk (h : Nat)
  | finishClose (h : Nat)
  deriving DecidableEq

namespace State

def add (s : State) (hd : Handle) : State := { s with handles := s.handles ++ [hd] }

def modify (s : State) (h : Nat) (f : Handle → Handle) : State :=
  { s with handles := s.handles.modify h f }

def use (s : State) (h : Nat) (expects : Tag) (nullOk : Bool) (found : Data) : State :=
  { s with uses := s.uses ++ [⟨h, expects, nullOk, found⟩] }

/-- `handle->data = p`, over what was there. -/
def store (s : State) (h : Nat) (old : Data) (p : Payload) : State :=
  { s.modify h fun hd => { hd with data := .live p } with lost := s.lost ++ old.held }

def uvClose (s : State) (h : Nat) (cb : CloseCb) : State :=
  match s.handles[h]? with
  | none => s
  | some hd =>
      if hd.allocated = false then { s with fault := true }
      else if hd.closing then { s with aborted := true }
      else { s.modify h (Handle.close cb) with closing := h :: s.closing }

/-- A call of the user's on a handle he was given, deleted or not. -/
def call (s : State) (h : Nat) (ofKind : Kind → Bool) (f : Handle → State) : Option State :=
  s.handles[h]?.bind fun hd =>
    if hd.given ∧ ofKind hd.kind then
      some (if hd.allocated then f hd else { s with fault := true })
    else none

/-- A callback of the loop's on a handle that is not closing. -/
def event (s : State) (h : Nat) (ready : Handle → Bool) (f : Handle → State) : Option State :=
  s.handles[h]?.bind fun hd =>
    if s.frame = .idle ∧ hd.allocated ∧ !hd.closing ∧ ready hd then some (f hd) else none

/-- `pipe::open`: the `unique_ptr` deletes the pipe when `uv_pipe_open` fails. -/
def pipeOpen (s : State) (init result : Int) : State :=
  if init < 0 then s
  else if result < 0 then s.add { Handle.init .pipe with allocated := false }
  else s.add { Handle.init .pipe with data := .live .streamData, given := true }

def tcpBind (s : State) (addr init result : Int) : State :=
  if addr < 0 then s
  else if init < 0 then s
  else if result < 0 then (s.add (Handle.init .server)).uvClose s.handles.length .deleteHandle
  else s.add { Handle.init .server with given := true }

/-- `tcp::listen`; `uv_listen` refuses a closing handle. -/
def tcpListen (s : State) (h : Nat) (result : Int) : Option State :=
  s.call h (· = .server) fun hd =>
    if hd.closing ∨ result < 0 then s
    else (s.store h hd.data .callbackRoot).modify h fun hd => { hd with listening := true }

/-- `tcp::accept`: the client is initialised first, and deleted by its `unique_ptr`
when `uv_accept` fails, as it does on a closing server. -/
def tcpAccept (s : State) (h : Nat) (result : Int) : Option State :=
  s.call h (· = .server) fun hd =>
    if hd.closing ∨ result < 0 then s.add { Handle.init .client with allocated := false }
    else s.add { Handle.init .client with data := .live .streamData, given := true }

def ttyInit (s : State) (result : Int) : State :=
  if result < 0 then { s with stray := s.stray ++ [.tty] }
  else s.add { Handle.init .tty with data := .live .streamData, given := true }

def signalInit (s : State) (result : Int) : State :=
  if result < 0 then s else s.add { Handle.init .signal with given := true }

/-- `signal::start` with `uv__signal_start`, which keeps a handler it already has
and stops the one before it registers another. -/
def signalStart (s : State) (h : Nat) (signum registered : Int) : Option State :=
  s.call h (· = .signal) fun hd =>
    if hd.closing then { s with aborted := true }
    else if signum = 0 then s
    else if signum = hd.signum then s.store h hd.data .callbackRoot
    else if registered < 0 then s.modify h fun hd => { hd with signum := 0 }
    else (s.store h hd.data .callbackRoot).modify h fun hd => { hd with signum := signum }

def signalStop (s : State) (h : Nat) : Option State :=
  s.call h (· = .signal) fun hd =>
    if hd.closing then { s with aborted := true }
    else (s.use h .callbackRoot false hd.data).modify h fun hd =>
      { hd with signum := 0, data := hd.data.delete }

/-- A pipe of a child, of which the `Process` object reads two. -/
def stdioPipe (given : Bool) : Handle :=
  { Handle.init .stdio with data := .live .streamData, given := given }

/-- `process::spawn`. `uv_spawn` links the process first of all; on success the
`Process` object asks for two streams and sets the exit callback. -/
def spawn (s : State) (result : Int) : State :=
  let n := s.handles.length
  let data := Data.live (.spawnData n (n + 2) (n + 1))
  let ok := decide (0 ≤ result)
  let pipes := ((s.add (stdioPipe false)).add (stdioPipe ok)).add (stdioPipe ok)
  if result < 0 then pipes.add (Handle.init .process)
  else
    (((pipes.add { Handle.init .process with data := data, active := true }).use
      (n + 3) .spawnData false data).use (n + 3) .spawnData false data).use
        (n + 3) .spawnData false data

def timerRun (s : State) : State :=
  s.add { Handle.init .runTimer with data := .live .runData, active := true, given := true }

def timerRepeat (s : State) : State :=
  s.add { Handle.init .repeatTimer with data := .live .rootedObject, active := true, given := true }

def timerStop (s : State) (h : Nat) : Option State :=
  s.call h Kind.isTimer fun _ => s.modify h fun hd => { hd with active := false }

/-- `async::init` throws when `uv_async_init` fails. -/
def asyncInit (s : State) (result : Int) : State :=
  if result < 0 then
    { s with stray := s.stray ++ [.async], lost := s.lost ++ [.callbackRoot] }
  else
    s.add { Handle.init .async with data := .live .callbackRoot, active := true, given := true }

/-- `stream::read`; `uv_read_start` refuses a closing handle. -/
def streamRead (s : State) (h : Nat) (result : Int) : Option State :=
  s.call h Kind.isReadable fun hd =>
    if hd.closing ∨ result < 0 then s
    else (s.use h .streamData false hd.data).modify h fun hd => { hd with reading := true }

def streamStop (s : State) (h : Nat) : Option State :=
  s.call h Kind.isReadable fun _ => s.modify h fun hd => { hd with reading := false }

/-- The `close` of each kind, which the user calls at most once on a handle. -/
def close (s : State) (h : Nat) : Option State :=
  s.handles[h]?.bind fun hd =>
    hd.kind.closeCb.bind fun cb =>
      if hd.given ∧ !hd.userClosed then
        some ((s.modify h fun hd => { hd with userClosed := true }).uvClose h cb)
      else none

/-- The alloc and read callbacks; the end of the stream and errors stop reading. -/
def streamEvent (s : State) (h : Nat) (ended : Bool) : Option State :=
  s.event h Handle.reading fun hd =>
    (s.use h .streamData false hd.data).modify h fun hd =>
      { hd with reading := hd.reading && !ended }

def connection (s : State) (h : Nat) : Option State :=
  s.event h Handle.listening fun hd => s.use h .callbackRoot false hd.data

def signalEvent (s : State) (h : Nat) : Option State :=
  s.event h (fun hd => hd.signum ≠ 0) fun hd => s.use h .callbackRoot false hd.data

def asyncEvent (s : State) (h : Nat) : Option State :=
  s.event h (fun hd => hd.kind = .async ∧ hd.active) fun hd =>
    s.use h .callbackRoot false hd.data

/-- A timer fires. `uv__run_timers` stops it and starts it again if it repeats. -/
def timerEvent (s : State) (h : Nat) : Option State :=
  s.event h (fun hd => Kind.isTimer hd.kind ∧ hd.active) fun hd =>
    if hd.kind = .runTimer then
      { (s.use h .runData false hd.data).modify h fun hd => { hd with active := false } with
        frame := .task h }
    else s.use h .rootedObject false hd.data

/-- The destructor of `RunData` at the end of a one-shot timer's callback. -/
def taskReturn (s : State) : Option State :=
  match s.frame with
  | .task h =>
      some { (s.uvClose h .deleteHandle).modify h fun hd => { hd with data := hd.data.delete } with
        frame := .idle }
  | _ => none

/-- The exit wrapper up to the user's callback. -/
def childExit (s : State) (h : Nat) : Option State :=
  s.event h (fun hd => hd.kind = .process ∧ hd.active) fun hd =>
    { (s.use h .spawnData false hd.data).modify h fun hd => { hd with active := false } with
      frame := .exit h }

/-- The end of the exit wrapper: `SpawnData` closes the pipes, and the process
struct is deleted as it is. -/
def exitReturn (s : State) : Option State :=
  match s.frame with
  | .exit h =>
      match s.handles[h]?.map Handle.data with
      | some (.live (.spawnData i o e)) =>
          some { (((s.uvClose i .ttyClose).uvClose o .ttyClose).uvClose e .ttyClose).modify h
            fun hd => { hd with data := hd.data.delete, allocated := false } with
            frame := .idle }
      | _ => none
  | _ => none

/-- `doWalkLoop` on a handle of the queue. -/
def walk (s : State) (h : Nat) : Option State :=
  s.handles[h]?.bind fun hd =>
    if s.frame = .idle ∧ hd.linked then
      some (if hd.closing ∧ hd.allocated then s else s.uvClose h .null)
    else none

/-- `uv__finish_close` with the handle's close callback. -/
def finishClose (s : State) (h : Nat) : Option State :=
  s.handles[h]?.bind fun hd =>
    if s.frame = .idle ∧ h ∈ s.closing then
      let s := { s.modify h Handle.finish with closing := s.closing.erase h }
      some (match hd.closeCb.casts with
        | none => s
        | some (expects, nullOk) => s.use h expects nullOk hd.data)
    else none

end State

open State in
def stepLive (s : State) : Label → Option State
  | .pipeOpen init result => some (s.pipeOpen init result)
  | .tcpBind addr init result => some (s.tcpBind addr init result)
  | .tcpListen h result => s.tcpListen h result
  | .tcpAccept h result => s.tcpAccept h result
  | .ttyInit result => some (s.ttyInit result)
  | .signalInit result => some (s.signalInit result)
  | .signalStart h signum registered => s.signalStart h signum registered
  | .signalStop h => s.signalStop h
  | .spawn result => some (s.spawn result)
  | .timerRun => some s.timerRun
  | .timerRepeat => some s.timerRepeat
  | .timerStop h => s.timerStop h
  | .asyncInit result => some (s.asyncInit result)
  | .streamRead h result => s.streamRead h result
  | .streamStop h => s.streamStop h
  | .close h => s.close h
  | .streamEvent h ended => s.streamEvent h ended
  | .connection h => s.connection h
  | .signalEvent h => s.signalEvent h
  | .asyncEvent h => s.asyncEvent h
  | .timerEvent h => s.timerEvent h
  | .taskReturn => s.taskReturn
  | .childExit h => s.childExit h
  | .exitReturn => s.exitReturn
  | .walk h => s.walk h
  | .finishClose h => s.finishClose h

def step (s : State) (l : Label) : Option State := if s.aborted then none else stepLive s l

def machine : Machine State Label where
  init := ⟨[], [], .idle, false, false, [], [], []⟩
  step := step

end HxcppLuv.Loop
