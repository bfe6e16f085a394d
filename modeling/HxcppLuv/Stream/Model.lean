import HxcppLuv.Core.Machine
import HxcppLuv.Asio.Result

/-!
Reading from one open stream: libuv's flags, the `StreamData` of the bindings, and
the loop of `uv__read`, in the middle of which the user's callbacks read and stop
again. The model ends before the close callback deletes the `StreamData`, and so its
two pointers stay rooted.

A call of `read` is known by its place in the order of the calls. Waiting for POLLIN
and the write half of `uv__stream_io` change nothing here.
-/

namespace HxcppLuv.Stream

open Asio

/-- What `uv__read` gets from the system in one turn of its loop. -/
inductive Os where
  | chunk (bytes : List UInt8)
  | again
  | end
  | error (code : Int)
  deriving DecidableEq

/-- Where libuv is: outside of `uv__stream_io`; at the head of the loop of `uv__read`
with `count` turns left; or in a callback of the user's, called for a chunk, for the
end, for an error, or for the end found behind a partial read. `hup` is POLLHUP. -/
inductive Control where
  | poll
  | loop (count : Nat) (hup : Bool)
  | inChunk (full : Bool) (count : Nat) (hup : Bool)
  | inEnd (hup : Bool)
  | inError (hup : Bool)
  | inHup
  deriving DecidableEq

/-- `StreamData`, whose callbacks are those of some call of `read`. -/
structure StreamData where
  success : Option Nat
  failure : Option Nat
  buffer : List UInt8
  deriving DecidableEq

/-- A call of a user's callback, as `ReadStream` and `DuplexStream` make it. -/
structure Call where
  read : Nat
  result : Result (List UInt8) Code
  deriving DecidableEq

/-- `crashed` records the call of a callback that is null. -/
structure State where
  reading : Bool
  readable : Bool
  readEof : Bool
  readPartial : Bool
  closing : Bool
  readCb : Bool
  data : StreamData
  control : Control
  reads : Nat
  calls : List Call
  crashed : Bool
  deriving DecidableEq

inductive Label where
  | read
  | stop
  | close
  | io (hup : Bool)
  | os (r : Os)
  | leave
  | ret
  deriving DecidableEq

def EINVAL : Int := -22
def EALREADY : Int := -114
def ENOTCONN : Int := -107

/-- The size of the buffer the alloc callback makes. -/
def suggestedSize : Nat := 64 * 1024

namespace State

/-- Haxe code may run: libuv is elsewhere, or in a callback of this stream. -/
def atUser (s : State) : Bool :=
  match s.control with
  | .loop _ _ => false
  | _ => true

/-- The callback of the read in `read`, if there is one. -/
def call (s : State) (read : Option Nat) (result : Result (List UInt8) Code) : State :=
  match read with
  | some i => { s with calls := s.calls ++ [⟨i, result⟩] }
  | none => { s with crashed := true }

/-- The `read` wrapper, on what `uv__read` passes to `read_cb`. -/
def readWrapper (s : State) (nread : Int) : State :=
  if !s.readCb then { s with crashed := true }
  else if nread < 0 then s.call s.data.failure (.error nread)
  else if 0 < nread then s.call s.data.success (.success (s.data.buffer.take nread.toNat))
  else s

/-- `uv_read_start`. -/
def uvReadStart (s : State) : Int × State :=
  if s.closing then (EINVAL, s)
  else if s.reading then (EALREADY, s)
  else if !s.readable then (ENOTCONN, s)
  else (0, { s with reading := true, readEof := false, readCb := true })

/-- `stream::read`. -/
def read (s : State) : State :=
  match s.uvReadStart with
  | (result, t) =>
      if result < 0 then
        { t with reads := s.reads + 1 }.call (some s.reads) (.error result)
      else
        { t with
          reads := s.reads + 1
          data := { s.data with success := some s.reads, failure := some s.reads } }

/-- `uv_read_stop`. -/
def uvReadStop (s : State) : State :=
  if s.reading then { s with reading := false, readCb := false } else s

/-- `stream::stop`. -/
def stop (s : State) : State := s.uvReadStop

/-- `uv_close` on a stream. -/
def close (s : State) : State :=
  { s.uvReadStop with closing := true, readable := false }

/-- `uv__stream_eof`. -/
def eof (s : State) : State :=
  { s with readEof := true, reading := false }.readWrapper Code.eof

/-- `uv__stream_io` after `uv__read`. -/
def afterRead (s : State) (hup : Bool) : State :=
  if !s.closing && hup && s.reading && s.readPartial && !s.readEof then
    { s.eof with control := .inHup }
  else { s with control := .poll }

/-- One turn of the loop of `uv__read`, from the alloc callback to `read_cb`. -/
def turn (s : State) (count : Nat) (hup : Bool) (r : Os) : State :=
  let s := { s with data := { s.data with buffer := List.replicate suggestedSize 0 } }
  match r with
  | .chunk bytes =>
      { { s with data := { s.data with
            buffer := bytes ++ s.data.buffer.drop bytes.length } }.readWrapper bytes.length with
        control := .inChunk (bytes.length = suggestedSize) count hup }
  | .again => (s.readWrapper 0).afterRead hup
  | .end => { s.eof with control := .inEnd hup }
  | .error code =>
      { { s with readable := false }.readWrapper code with control := .inError hup }

/-- What libuv does when the user's callback returns. -/
def ret (s : State) : Option State :=
  match s.control with
  | .inChunk true count hup => some { s with control := .loop count hup }
  | .inChunk false _ hup => some ({ s with readPartial := true }.afterRead hup)
  | .inEnd hup => some (s.afterRead hup)
  | .inError hup => some ({ s with reading := false }.afterRead hup)
  | .inHup => some { s with control := .poll }
  | .poll | .loop _ _ => none

end State

/-- What a system call of `uv__read` can return. -/
def Os.valid : Os → Bool
  | .chunk bytes => 0 < bytes.length ∧ bytes.length ≤ suggestedSize
  | .error code => code < 0
  | .again | .end => true

/-- `uv__read` is called with 32 turns; the loop goes on while the stream is read. -/
def step (s : State) (l : Label) : Option State :=
  if s.crashed then none
  else
    match l with
    | .read => if s.atUser then some s.read else none
    | .stop => if s.atUser then some s.stop else none
    | .close => if s.atUser ∧ s.closing = false then some s.close else none
    | .io hup =>
        if s.control = .poll ∧ s.closing = false then
          some { s with readPartial := false, control := .loop 32 hup }
        else none
    | .os r =>
        match s.control with
        | .loop (count + 1) hup =>
            if s.readCb ∧ s.reading ∧ r.valid then some (s.turn count hup r) else none
        | _ => none
    | .leave =>
        match s.control with
        | .loop count hup =>
            if s.readCb ∧ s.reading ∧ count ≠ 0 then none else some (s.afterRead hup)
        | _ => none
    | .ret => s.ret

/-- A stream that was opened, for reading or not. -/
def machine (readable : Bool) : Machine State Label where
  init := ⟨false, readable, false, false, false, false, ⟨none, none, []⟩, .poll, 0, [], false⟩
  step := step

end HxcppLuv.Stream
