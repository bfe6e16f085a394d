import HxcppLuv.Core.Machine

/-!
Writing to one open stream. `uv_write` queues a request and, where nothing is waiting, hands
its buffers to the system at once; the rest goes out when the descriptor is writable or when
`uv__io_feed` has put the stream on the loop's pending queue. No callback is run before
`uv_write` has returned, so `stream::write` may set the request's data after it.

A write is known by its place among the writes that were accepted. What the system does is
an argument of the labels: the results of `write(2)` in one run of `uv__write`, and that of
`shutdown(2)`. Failed assertions of libuv abort the program.
-/

namespace HxcppLuv.Stream.Write

def EPIPE : Int := -32
def EBADF : Int := -9
def ENOTCONN : Int := -107
def ECANCELED : Int := -125

/-- A `uv_write_t`: its buffers from `write_index` on, each from its base on. -/
structure Request where
  id : Nat
  bufs : List (List UInt8)
  error : Int
  freed : Bool
  deriving DecidableEq

/-- What `uv__try_write` returns; an error is not EAGAIN. -/
inductive Reply where
  | wrote (n : Nat)
  | again
  | error (code : Int)
  deriving DecidableEq

/-- Where libuv is: outside of `uv__stream_io` and `uv__stream_destroy`; in a callback of one
of them, with the requests `uv__write_callbacks` has still to call; or done with the handle. -/
inductive Control where
  | rest
  | inWrite (pq : List Request) (destroy : Bool)
  | inShutdown (destroy : Bool)
  | gone
  deriving DecidableEq

/-- `accepted` and `written` are the bytes of each accepted write and what the system took of
them, `wire` is all it took and `fin` all it had taken when `shutdown(2)` succeeded. The
descriptor is open until the stream is closing. -/
structure State where
  blocking : Bool
  writable : Bool
  shut : Bool
  closing : Bool
  pollout : Bool
  fed : Bool
  writeQueue : List Request
  completed : List Request
  writeQueueSize : Nat
  shutdownReq : Bool
  control : Control
  aborted : Bool
  accepted : List (List UInt8)
  written : List (List UInt8)
  wire : List UInt8
  fin : Option (List UInt8)
  called : List (Nat × Int)
  refused : List Int
  shutdowns : List Int
  deriving DecidableEq

inductive Label where
  | write (bufs : List (List UInt8)) (replies : List Reply)
  | shutdown
  | close
  | readError
  | io (pending : Bool) (replies : List Reply) (shut : Int)
  | ret (shut : Int)
  | finishClose
  deriving DecidableEq

/-- `uv__count_bufs`. -/
def countBufs : List (List UInt8) → Nat
  | [] => 0
  | buf :: bufs => buf.length + countBufs bufs

/-- The loop of `uv__write_req_update`, on the buffers from `write_index` on. -/
def advance : List (List UInt8) → Nat → List (List UInt8)
  | [], _ => []
  | buf :: bufs, n =>
      let len := if n < buf.length then n else buf.length
      if len < buf.length then buf.drop len :: bufs
      else if n - len = 0 then bufs
      else advance bufs (n - len)

def iovMax : Nat := 1024

namespace State

/-- `uv__write_req_update` on the first request of the queue. -/
def reqUpdate (s : State) (n : Nat) : State :=
  match s.writeQueue with
  | [] => s
  | req :: rest =>
      let bytes := req.bufs.flatten.take n
      { s with
        aborted := s.aborted || decide (s.writeQueueSize < n)
        writeQueueSize := s.writeQueueSize - n
        writeQueue := { req with bufs := advance req.bufs n } :: rest
        written := s.written.modify req.id (· ++ bytes)
        wire := s.wire ++ bytes }

/-- `uv__write_req_finish`, which keeps the buffers of a request that failed. -/
def reqFinish (s : State) (error : Int) : State :=
  match s.writeQueue with
  | [] => s
  | req :: rest =>
      { s with
        writeQueue := rest
        completed := s.completed ++ [{ req with error := error, freed := error = 0 }]
        fed := true }

/-- `uv__write`, on the results of its calls of `uv__try_write`: all of them, and no more. -/
def uvWrite (count : Nat) : List Reply → State → Option State
  | [], s => if s.writeQueue = [] then some s else none
  | reply :: replies, s =>
      match s.writeQueue with
      | [] => none
      | req :: _ =>
          match reply with
          | .wrote n =>
              if countBufs (req.bufs.take iovMax) < n then none
              else if advance req.bufs n = [] then
                let t := (s.reqUpdate n).reqFinish 0
                if 0 < count then uvWrite (count - 1) replies t
                else if replies = [] then some t else none
              else if s.blocking then uvWrite count replies (s.reqUpdate n)
              else if replies = [] then some { s.reqUpdate n with pollout := true } else none
          | .again =>
              if s.blocking then uvWrite count replies s
              else if replies = [] then some { s with pollout := true } else none
          | .error code =>
              if code < 0 ∧ replies = [] then some { s.reqFinish code with pollout := false }
              else none

/-- `uv_write2` without a handle to send, after `uv__check_before_write`. -/
def enqueue (s : State) (bufs : List (List UInt8)) (replies : List Reply) : Option State :=
  let t := { s with
    writeQueueSize := s.writeQueueSize + countBufs bufs
    writeQueue := s.writeQueue ++ [⟨s.accepted.length, bufs, 0, false⟩]
    accepted := s.accepted ++ [bufs.flatten]
    written := s.written ++ [[]] }
  if s.writeQueueSize = 0 then uvWrite 32 replies t
  else if replies = [] then
    some { t with aborted := t.aborted || t.blocking, pollout := true }
  else none

/-- `stream::write`, which passes one buffer. -/
def write (s : State) (bufs : List (List UInt8)) (replies : List Reply) : Option State :=
  if s.closing then
    if replies = [] then some { s with refused := s.refused ++ [EBADF] } else none
  else if s.writable = false then
    if replies = [] then some { s with refused := s.refused ++ [EPIPE] } else none
  else s.enqueue bufs replies

/-- `stream::shutdown` with `uv_shutdown`. -/
def shutdown (s : State) : State :=
  if s.writable = false ∨ s.shut ∨ s.shutdownReq ∨ s.closing then
    { s with refused := s.refused ++ [ENOTCONN] }
  else
    { s with shutdownReq := true, writable := false, fed := s.fed || s.writeQueue.isEmpty }

/-- `uv__stream_close`. -/
def close (s : State) : State :=
  { s with closing := true, pollout := false, fed := false, writable := false }

/-- The end of `uv__stream_io` or of `uv__stream_destroy`, which has an assertion there. -/
def leave (s : State) (destroy : Bool) : State :=
  if destroy then
    { s with aborted := s.aborted || decide (s.writeQueueSize ≠ 0), control := .gone }
  else { s with control := .rest }

/-- `uv__drain`, where `shutdown(2)` returns `shut`, up to the user's callback. -/
def drain (s : State) (destroy : Bool) (shut : Int) : State :=
  let t := { s with
    aborted := s.aborted || !s.writeQueue.isEmpty
    pollout := s.pollout && s.closing }
  if t.shutdownReq then
    if t.closing then
      { t with
        shutdownReq := false
        shutdowns := t.shutdowns ++ [ECANCELED]
        control := .inShutdown destroy }
    else if t.shut then t.leave destroy
    else
      { t with
        shutdownReq := false
        shut := shut = 0
        fin := if shut = 0 then some t.wire else t.fin
        shutdowns := t.shutdowns ++ [shut]
        control := .inShutdown destroy }
  else t.leave destroy

/-- What follows `uv__write_callbacks` in `uv__stream_io` and `uv__stream_destroy`. -/
def afterCallbacks (s : State) (destroy : Bool) (shut : Int) : State :=
  if destroy ∨ s.writeQueue = [] then s.drain destroy shut else s.leave destroy

/-- The loop of `uv__write_callbacks`, up to the next callback of the user's. -/
def runCallbacks (s : State) (pq : List Request) (destroy : Bool) (shut : Int) : State :=
  match pq with
  | [] => s.afterCallbacks destroy shut
  | req :: pq =>
      let size := if req.freed then 0 else countBufs req.bufs
      { s with
        aborted := s.aborted || decide (s.writeQueueSize < size)
        writeQueueSize := s.writeQueueSize - size
        called := s.called ++ [(req.id, req.error)]
        control := .inWrite pq destroy }

/-- `uv__write_callbacks`. -/
def writeCallbacks (s : State) (destroy : Bool) (shut : Int) : State :=
  { s with completed := [] }.runCallbacks s.completed destroy shut

/-- The write half of `uv__stream_io`, for an event or off the pending queue. -/
def io (s : State) (pending : Bool) (replies : List Reply) (shut : Int) : Option State :=
  if s.control = .rest ∧ s.closing = false ∧ (pending → s.fed) then
    (uvWrite 32 replies { s with fed := s.fed && !pending }).map fun t =>
      t.writeCallbacks false shut
  else none

/-- What libuv does when the user's callback returns. -/
def ret (s : State) (shut : Int) : Option State :=
  match s.control with
  | .inWrite pq destroy => some (s.runCallbacks pq destroy shut)
  | .inShutdown destroy => some (s.leave destroy)
  | .rest | .gone => none

/-- `uv__stream_flush_write_queue`. -/
def flush (s : State) (error : Int) : State :=
  { s with
    writeQueue := []
    completed := s.completed ++ s.writeQueue.map fun req => { req with error := error } }

/-- `uv__stream_destroy`. -/
def finishClose (s : State) : Option State :=
  if s.control = .rest ∧ s.closing then some ((s.flush ECANCELED).writeCallbacks true 0) else none

end State

/-- The user calls from anywhere until the handle is deleted. An error of `uv__read` takes
the stream's flags. -/
def step (s : State) (l : Label) : Option State :=
  if s.aborted then none
  else
    match l with
    | .write bufs replies =>
        if s.control ≠ .gone ∧ bufs ≠ [] then s.write bufs replies else none
    | .shutdown => if s.control ≠ .gone then some s.shutdown else none
    | .close => if s.control ≠ .gone ∧ s.closing = false then some s.close else none
    | .readError =>
        if s.control = .rest ∧ s.closing = false then some { s with writable := false } else none
    | .io pending replies shut => s.io pending replies shut
    | .ret shut => s.ret shut
    | .finishClose => s.finishClose

/-- A stream that was opened for writing. -/
def machine (blocking : Bool) : Machine State Label where
  init := ⟨blocking, true, false, false, false, false, [], [], 0, false, .rest, false, [], [], [],
    none, [], [], []⟩
  step := step

end HxcppLuv.Stream.Write
