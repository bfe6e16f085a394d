import HxcppLuv.Process.Child

/-!
The parent's side of `uv_spawn`. It makes a pair of sockets for each stream it was asked for, and
a pipe over which the child says why it did not come to `exec`; the child keeps one end of each
pair and the stream gets the other. The streams are named pipes, and `signal_pipe` is read until
its end or a whole number.
-/

namespace HxcppLuv.Process.Parent

open Child Descriptors

def einval : Errno := ⟨-22, by decide⟩

def ebusy : Errno := ⟨-16, by decide⟩

/-- A `uv_stdio_container_t`, where a stream is known by a number. The flags are those of the
pipe as the child sees it. -/
inductive Container where
  | ignore
  | createPipe (stream : Nat) (readable writable : Bool)
  | inherit (fd : Option Nat)

/-- `pipes[i]`, where a negative number is none. -/
structure Ends where
  own : Option Nat
  other : Option Nat

/-- A `uv_stream_t`, with the number in its `io_watcher`. -/
structure Stream where
  fd : Option Nat
  readable : Bool
  writable : Bool
  deriving DecidableEq

structure State where
  kernel : Kernel
  streams : Nat → Stream

/-- `uv__close_nocheckstdio`, which -1 is kept from. -/
def closed (k : Kernel) : Option Nat → Kernel
  | none => k
  | some fd => { k with table := k.table.clear fd }

/-- Whether a process has a file open. -/
def has (k : Kernel) (f : File) : Bool :=
  (List.range k.table.limit).any fun fd => (k.table.entry fd).any fun d => d.file = f

/-- The two descriptors of `socketpair` or `pipe2`, both to be closed by `exec`. -/
def pair : Sys (Nat × Nat) := do
  Sys.fault
  fun k =>
    match k.table.lowest 0 with
    | none => .error emfile k
    | some a =>
        let t := k.table.set a ⟨.pair k.made false, true⟩
        match t.lowest 0 with
        | none => .error emfile k
        | some b =>
            .ok (a, b) { k with table := t.set b ⟨.pair k.made true, true⟩, made := k.made + 1 }

/-- `uv__process_init_stdio`. -/
def initStdio : Container → Sys Ends
  | .ignore => pure ⟨none, none⟩
  | .createPipe .. => do
      let (own, other) ← pair
      pure ⟨some own, some other⟩
  | .inherit none => throw einval
  | .inherit fd => pure ⟨none, fd⟩

/-- The loop at `error`. -/
def release : List (Container × Ends) → Kernel → Kernel
  | [], k => k
  | (.inherit _, _) :: rest, k => release rest k
  | (_, ends) :: rest, k => release rest (closed (closed k ends.own) ends.other)

/-- The child where it has come to `exec`. -/
def executed : EStateM.Result Errno Kernel Unit → Option Kernel
  | .ok _ child => some child
  | .error _ _ => none

/-- `uv__stream_open`. -/
def streamOpen (s : Stream) (fd : Nat) (readable writable : Bool) : Option Stream :=
  if s.fd = none ∨ s.fd = some fd then
    some ⟨some fd, s.readable || readable, s.writable || writable⟩
  else none

/-- `uv__process_open_stream`; `pipes[i][1]` is -1 afterwards. -/
def openStream (c : Container) (ends : Ends) (s : State) : Option (Option Errno × Ends × State) :=
  match c, ends with
  | .createPipe stream readable writable, ⟨some own, some other⟩ =>
      if other < 3 then none
      else
        let k := Calls.final (Sys.nonblock own true (closed s.kernel other))
        match streamOpen (s.streams stream) own writable readable with
        | none => some (some ebusy, ⟨some own, none⟩, { s with kernel := k })
        | some st => some (none, ⟨some own, none⟩, ⟨k, Function.update s.streams stream st⟩)
  | _, ends => some (none, ends, s)

/-- `uv__process_close_stream`, which leaves a standard descriptor open. -/
def closeStream (c : Container) (s : State) : State :=
  match c with
  | .createPipe stream _ _ =>
      ⟨closed s.kernel ((s.streams stream).fd.filter fun fd => 3 ≤ fd),
        Function.update s.streams stream ⟨none, false, false⟩⟩
  | .ignore | .inherit _ => s

/-- What `uv_spawn` returns and leaves; `active` is the `uv_process_t`. -/
structure Spawned where
  code : Int
  state : State
  child : Option Kernel
  active : Bool

def code (err : Option Errno) : Int := (err.map Errno.code).getD 0

end HxcppLuv.Process.Parent
