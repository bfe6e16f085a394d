import HxcppLuv.Core.Ledger
import HxcppLuv.Core.Machine
import HxcppLuv.Core.Slots

/-!
The requests of the bindings: files, directories, writes and shutdowns of streams, and
work. For each kind, what its code takes before libuv is asked, once libuv has taken the
request or has refused it, and what its wrapper and its callback use and give back. A
file read sends one request again and again, and every directory read points the
directory at its own entry.
-/

namespace HxcppLuv.Request

open HxcppLuv.Action

/-- What a root of a request keeps. -/
inductive Role where
  | callback
  | success
  | failure
  | array
  | task
  deriving DecidableEq

/-- What is allocated or registered for a request: the libuv struct, what its `data`
points to, the roots, and the `uv_dirent_t` of a `ReaddirData`. -/
inductive Part where
  | request
  | data
  | root (w : Role)
  | entry
  deriving DecidableEq

/-- The directory of a directory read and the stream of a write or a shutdown matter to
other requests. -/
inductive Kind where
  | fileOpen
  | fileWrite
  | fileRead
  | fileClose
  | directoryOpen
  | directoryRead (dir : Nat)
  | directoryClose
  | streamWrite (stream : Nat)
  | streamShutdown (stream : Nat)
  | work
  deriving DecidableEq

/-- The code of a kind: up to the call of libuv; after it, when libuv has taken the
request, and when it has not, before the user's callback is called and after that returns;
what libuv uses meanwhile; the wrapper up to the user's callback and from there; and what
follows that. -/
structure Code where
  prepare : List (Action Part)
  accepted : List (Action Part) := []
  refused : List (Action Part)
  refusedReturn : List (Action Part) := []
  carry : List (Action Part) := [touch .request]
  enter : List (Action Part) := [touch .request, touch .data]
  leave : List (Action Part)
  after : List (Action Part) := []

/-- A data object with `RootedObject` members, and its destructor. -/
def rooted (ws : List Role) : List (Action Part) :=
  acquire .data :: ws.map fun w => acquire (.root w)

def unrooted (ws : List Role) : List (Action Part) :=
  (ws.reverse.map fun w => release (.root w)) ++ [release .data]

/-- The deleter of `make_uv_fs_t`. -/
def cleanup : List (Action Part) := [touch .request, release .request]

def fileOpen : Code where
  prepare := [acquire .data, acquire .request]
  accepted := [acquire (.root .callback)]
  refused := [release .data, release .request]
  leave := cleanup ++ [release (.root .callback), release .data]

def fileWrite : Code where
  prepare := acquire .request :: rooted [.array, .callback]
  refused := unrooted [.array, .callback] ++ [release .request]
  carry := [touch .request, touch (.root .array)]
  leave := unrooted [.array, .callback] ++ cleanup

/-- The buffer is part of the data object. -/
def fileRead : Code where
  prepare := rooted [.array, .success, .failure] ++ [acquire .request]
  refused := unrooted [.array, .success, .failure] ++ [release .request]
  carry := [touch .request, touch .data]
  leave := unrooted [.array, .success, .failure] ++ cleanup

def fileClose : Code where
  prepare := [acquire .data, acquire .request]
  accepted := [acquire (.root .callback)]
  refused := [release .data, release .request]
  leave := cleanup ++ [release (.root .callback), release .data]

def directoryOpen : Code where
  prepare := acquire .request :: rooted [.success, .failure]
  refused := unrooted [.success, .failure] ++ [release .request]
  leave := unrooted [.success, .failure] ++ [release .request]

def directoryRead : Code where
  prepare := rooted [.success, .failure] ++ [acquire .entry, acquire .request]
  refused := release .entry :: unrooted [.success, .failure] ++ [release .request]
  leave := release .entry :: unrooted [.success, .failure] ++ [release .request]

def directoryClose : Code where
  prepare := [acquire .data, acquire .request]
  accepted := [acquire (.root .callback)]
  refused := [release .data, release .request]
  leave := [release (.root .callback), release .data, release .request]

/-- The data is attached once `uv_write` has taken the request. -/
def streamWrite : Code where
  prepare := [acquire .request]
  accepted := rooted [.array, .callback]
  refused := []
  refusedReturn := [release .request]
  carry := [touch .request, touch (.root .array)]
  leave := unrooted [.array, .callback] ++ [release .request]

def streamShutdown : Code where
  prepare := [acquire .request]
  accepted := [acquire .data, acquire (.root .callback)]
  refused := [release .request]
  leave := [release (.root .callback), release .data, release .request]

/-- `onCallback` runs on a worker, `onAfter` on the loop's thread. `uv_queue_work` does
not refuse. -/
def work : Code where
  prepare := acquire .request :: rooted [.task]
  refused := []
  leave := unrooted [.task]
  after := [release .request]

def Kind.code : Kind → Code
  | fileOpen => Request.fileOpen
  | fileWrite => Request.fileWrite
  | fileRead => Request.fileRead
  | fileClose => Request.fileClose
  | directoryOpen => Request.directoryOpen
  | directoryRead _ => Request.directoryRead
  | directoryClose => Request.directoryClose
  | streamWrite _ => Request.streamWrite
  | streamShutdown _ => Request.streamShutdown
  | work => Request.work

/-- A request struct and its data: `pending` until libuv has its result, `finished`
until its wrapper is called, `calling` while the user's callback or the task runs;
`rejected` when libuv has refused the request, before the callback is called, and
`refused` while that callback runs. `ran` is work before `onAfter`. -/
inductive Phase where
  | pending
  | finished (result : Int)
  | calling (result : Int)
  | rejected
  | refused
  | ran
  | done
  deriving DecidableEq

/-- Whether libuv has the request and has not called back. -/
def Phase.taken : Phase → Bool
  | pending | finished _ => true
  | calling _ | rejected | refused | ran | done => false

/-- Whether the outcome is still to come. -/
def Phase.awaits : Phase → Bool
  | pending | finished _ | rejected => true
  | calling _ | refused | ran | done => false

def Phase.inFlight : Phase → Bool
  | pending | finished _ | calling _ => true
  | rejected | refused | ran | done => false

/-- `outcomes` counts the calls of the user's callback, or of the task. -/
structure Record where
  kind : Kind
  phase : Phase
  outcomes : Nat
  deriving DecidableEq

def Record.become (r : Record) (p : Phase) : Record := { r with phase := p }

def Record.call (r : Record) (p : Phase) : Record :=
  { r with phase := p, outcomes := r.outcomes + 1 }

inductive Closing where
  | opened
  | closing
  | closed
  deriving DecidableEq

/-- Every request made so far, under its number; the parts that are held, and those used
or given back when they were not; whose entry each directory's `dirents` is; and how far
each stream is closed. -/
structure State where
  requests : List Record
  held : Multiset (Nat × Part)
  misused : List (Nat × Part)
  dirents : Nat → Option Nat
  streams : Nat → Closing

def State.exec (s : State) (i : Nat) (as : List (Action Part)) : State :=
  let as := as.map (Action.map (Prod.mk i))
  { s with
    held := Action.run as s.held
    misused := s.misused ++ Action.misused as s.held }

/-- `dir->dirents[0]` is written or read. -/
def State.touchEntry (s : State) (d : Nat) : State :=
  match s.dirents d with
  | some j => s.exec j [touch .entry]
  | none => s

def State.replace (s : State) (i : Nat) (r : Record) : State :=
  { s with requests := s.requests.set i r }

/-- `_dir->dirents = data->entry.get()`. -/
def State.point (s : State) (k : Kind) : State :=
  match k with
  | .directoryRead d =>
      { s with dirents := fun e => if e = d then some s.requests.length else s.dirents e }
  | _ => s

def State.push (s : State) (r : Record) : State := { s with requests := s.requests ++ [r] }

/-- Whether a callback of the request is running on the loop's thread, or about to. -/
def Record.running (r : Record) : Bool :=
  match r.phase with
  | .calling _ => r.kind ≠ .work
  | .rejected | .refused => true
  | .pending | .finished _ | .ran | .done => false

/-- Whether the loop may call a wrapper. -/
def State.idle (s : State) : Bool := s.requests.all fun r => !r.running

/-- Whether Haxe code may run on the loop's thread: no refusal is being dealt with. -/
def State.atUser (s : State) : Bool := s.requests.all fun r => r.phase ≠ .rejected

def Kind.stream? : Kind → Option Nat
  | streamWrite st | streamShutdown st => some st
  | _ => none

/-- A stream that is closing refuses; `uv_queue_work` takes every request. -/
def State.admits (s : State) (k : Kind) (accepted : Bool) : Bool :=
  match k with
  | .streamWrite st | .streamShutdown st => !accepted || s.streams st = .opened
  | .work => accepted
  | _ => true

/-- The results libuv has. A directory read that has stored an entry fails when the
entry's name cannot be copied; the requests of a stream that is closing are cancelled. -/
def State.results (s : State) (canceled : Int) : Kind → Int → Bool → Bool
  | .directoryRead _, result, stored =>
      if stored then result = 1 ∨ result < 0 else result ≤ 0
  | .streamWrite st, result, stored | .streamShutdown st, result, stored =>
      !stored && (s.streams st = .opened || result = canceled)
  | .work, _, _ => false
  | _, _, stored => !stored

inductive Label where
  | submit (k : Kind) (accepted : Bool)
  | finish (i : Nat) (result : Int) (stored : Bool)
  | callback (i : Nat) (resubmitted : Bool)
  | runTask (i : Nat)
  | report (i : Nat)
  | ret (i : Nat)
  | after (i : Nat)
  | closeStream (st : Nat)
  | finishClose (st : Nat)
  deriving DecidableEq

def State.submit (s : State) (k : Kind) (accepted : Bool) : State :=
  let i := s.requests.length
  if accepted then
    ((s.point k).exec i (k.code.prepare ++ k.code.accepted)).push ⟨k, .pending, 0⟩
  else
    ((s.point k).exec i (k.code.prepare ++ k.code.refused)).push ⟨k, .rejected, 0⟩

def State.finish (s : State) (i : Nat) (r : Record) (result : Int) (stored : Bool) : State :=
  let t := (s.exec i r.kind.code.carry).replace i (r.become (.finished result))
  match r.kind with
  | .directoryRead d => if stored then t.touchEntry d else t
  | _ => t

/-- A file read that has got bytes asks for more, and reports when that is refused. -/
def State.callback (s : State) (i : Nat) (r : Record) (result : Int) (resubmitted : Bool) :
    State :=
  let t := s.exec i r.kind.code.enter
  if resubmitted then t.replace i (r.become .pending) else t.replace i (r.call (.calling result))

/-- The user's callback returns to the wrapper. `uv_fs_req_cleanup` frees the names of
the entries that were read, before the data goes. -/
def State.ret (s : State) (i : Nat) (r : Record) (result : Int) : State :=
  let t := match r.kind with
    | .directoryRead d => if 0 < result then s.touchEntry d else s
    | _ => s
  (t.exec i r.kind.code.leave).replace i (r.become (if r.kind = .work then .ran else .done))

def step (canceled : Int) (s : State) : Label → Option State
  | .submit k accepted =>
      if s.atUser ∧ s.admits k accepted then some (s.submit k accepted) else none
  | .finish i result stored => s.requests[i]?.bind fun r =>
      if r.phase = .pending ∧ s.results canceled r.kind result stored then
        some (s.finish i r result stored)
      else none
  | .callback i resubmitted => s.requests[i]?.bind fun r =>
      match r.phase with
      | .finished result =>
          if s.idle ∧ (resubmitted → r.kind = .fileRead ∧ 0 < result) then
            some (s.callback i r result resubmitted)
          else none
      | _ => none
  | .runTask i => s.requests[i]?.bind fun r =>
      if r.kind = .work ∧ r.phase = .pending then
        some ((s.exec i r.kind.code.enter).replace i (r.call (.calling 0)))
      else none
  | .report i => s.requests[i]?.bind fun r =>
      if r.phase = .rejected then some (s.replace i (r.call .refused)) else none
  | .ret i => s.requests[i]?.bind fun r =>
      match r.phase with
      | .calling result => some (s.ret i r result)
      | .refused => some ((s.exec i r.kind.code.refusedReturn).replace i (r.become .done))
      | _ => none
  | .after i => s.requests[i]?.bind fun r =>
      if r.phase = .ran ∧ s.idle then
        some ((s.exec i r.kind.code.after).replace i (r.become .done))
      else none
  | .closeStream st =>
      if s.atUser ∧ s.streams st = .opened then
        some { s with streams := fun x => if x = st then .closing else s.streams x }
      else none
  | .finishClose st =>
      -- what is pending on the stream is called back before the close callback is
      if s.streams st = .closing ∧ s.idle ∧
          s.requests.all (fun r => r.kind.stream? ≠ some st ∨ r.phase = .done) then
        some { s with streams := fun x => if x = st then .closed else s.streams x }
      else none

def machine (canceled : Int) : Machine State Label where
  init := ⟨[], 0, [], fun _ => none, fun _ => .opened⟩
  step := step canceled

end HxcppLuv.Request
