import HxcppLuv.Core.Machine
import HxcppLuv.Core.Nested

/-!
Where the bindings change the collector's view of a thread: the GC free zone, the set
of roots and the registration of the thread. Each function is the sequence of these
changes in the order of the source, the destructors at the end of a scope included,
with the places where it runs Haxe code or lets libuv run callbacks.
-/

namespace HxcppLuv.Gc

/-- What the collector knows of a thread. -/
structure Status where
  inFree : Bool
  registered : Bool
  deriving DecidableEq

/-- `root` is a call of `hx::GCAddRoot` or of `hx::GCRemoveRoot`. -/
inductive Act where
  | enterGCFreeZone
  | exitGCFreeZone
  | root
  | setTopOfStack
  | unregisterCurrentThread
  deriving DecidableEq

/-- Haxe code; `uv_run`; and `uv_read_start`, which may call the alloc callback. -/
inductive Place where
  | haxe
  | uvRun
  | uvReadStart
  deriving DecidableEq

/-- The functions Haxe code calls; `close` is the close of any handle, and `freeLoop`
stands for the ones of `HxcppLuv.cpp` that run no callback. -/
inductive Op where
  | runLoop
  | shutdownLoop
  | freeLoop
  | fileOpen
  | fileWrite
  | fileRead
  | fileClose
  | directoryOpen
  | directoryRead
  | directoryClose
  | streamRead
  | streamStop
  | streamWrite
  | streamShutdown
  | tcpBind
  | tcpListen
  | tcpAccept
  | pipeOpen
  | ttyInit
  | signalInit
  | signalStart
  | signalStop
  | timerRepeat
  | timerRun
  | timerStop
  | asyncInit
  | asyncSend
  | spawn
  | workQueue
  | close
  deriving DecidableEq

/-- The callbacks the bindings hand to libuv for the loop's thread. `called` and
`data` are the branches of those that do not always call the user, or delete nothing
when `data` is null. -/
inductive Callback where
  | fileOpen
  | fileWrite
  | fileRead (called : Bool)
  | fileClose
  | directoryOpen
  | directoryRead
  | directoryClose
  | alloc
  | streamRead (called : Bool)
  | streamWrite
  | streamShutdown
  | connection
  | signal
  | timerRepeat
  | timerRun
  | async
  | exit
  | streamClose (data : Bool)
  | ttyClose
  | pipeClose
  | timerClose
  | asyncClose
  | deleteHandle
  | onAfter
  deriving DecidableEq

/-- `work` is `onCallback`, which a worker runs. -/
inductive Fn where
  | op (o : Op) (ok : Bool)
  | callback (c : Callback)
  | work
  deriving DecidableEq

abbrev Code := List (Instr Act Place)

def haxe : Code := [.into .haxe]

def roots (n : Nat) : Code := List.replicate n (.act .root)

/-- The scope of a `cpp::utils::AutoGCZone`. -/
def autoGCZone (code : Code) : Code :=
  [.act .exitGCFreeZone] ++ code ++ [.act .enterGCFreeZone]

/-- The scope of an `hx::AutoGCFreeZone`. -/
def autoGCFreeZone (code : Code) : Code :=
  [.act .enterGCFreeZone] ++ code ++ [.act .exitGCFreeZone]

def Op.body : Op → Bool → Code
  | runLoop, _ | shutdownLoop, _ => autoGCFreeZone [.into .uvRun]
  -- the callback is rooted once it is submitted
  | fileOpen, true | fileClose, true | directoryClose, true | streamShutdown, true => roots 1
  | fileOpen, false | fileClose, false | directoryClose, false | streamShutdown, false => haxe
  -- the data object roots what it is given, and is deleted again on failure
  | fileWrite, true | directoryOpen, true | directoryRead, true => roots 2
  | fileWrite, false | directoryOpen, false | directoryRead, false => roots 2 ++ roots 2 ++ haxe
  | fileRead, true => roots 3
  | fileRead, false => roots 3 ++ roots 3 ++ haxe
  | streamRead, true => autoGCFreeZone [.into .uvReadStart]
  | streamRead, false => autoGCFreeZone [.into .uvReadStart] ++ haxe
  | streamWrite, true => roots 2
  | streamWrite, false => haxe
  | tcpBind, _ | signalInit, _ => haxe
  | tcpListen, true | signalStart, true | asyncInit, true => roots 1
  | tcpListen, false | signalStart, false => haxe
  -- `StreamData` roots its two callbacks
  | tcpAccept, true | pipeOpen, true | ttyInit, true => roots 2 ++ haxe
  | tcpAccept, false | pipeOpen, false | ttyInit, false => haxe
  | signalStop, _ | timerRepeat, _ | timerRun, _ | workQueue, _ => roots 1
  -- three `StreamData`, and the `RootedObject` of `SpawnData`
  | spawn, true => roots 6 ++ roots 1 ++ haxe
  | spawn, false => roots 6 ++ haxe
  | asyncInit, false | asyncSend, _ | streamStop, _ | timerStop, _ | close, _ | freeLoop, _ => []

def Callback.body : Callback → Code
  | fileOpen | fileClose | directoryClose | streamShutdown => autoGCZone (haxe ++ roots 1)
  | fileWrite | directoryOpen | directoryRead | streamWrite => autoGCZone (haxe ++ roots 2)
  | fileRead true => autoGCZone (haxe ++ roots 3)
  | fileRead false | streamRead false | alloc => autoGCZone []
  | streamRead true | connection | signal | timerRepeat | async => autoGCZone haxe
  -- the destructors of `RunData` and of `SpawnData`
  | timerRun | exit => autoGCZone (haxe ++ roots 1)
  -- the close callbacks have no zone of their own
  | streamClose true | ttyClose | pipeClose => roots 2
  | timerClose | asyncClose => roots 1
  | streamClose false | deleteHandle | onAfter => []

def Fn.body : Fn → Code
  | op o ok => o.body ok
  | callback c => c.body
  -- the root goes with its `unique_ptr`, at the end of the scope
  | work => [.act .setTopOfStack, .into .haxe, .act .unregisterCurrentThread, .act .root]

def discipline : Discipline Status Act Place Fn where
  act z
    | .enterGCFreeZone => { z with inFree := true }
    | .exitGCFreeZone => { z with inFree := false }
    | .root => z
    | .setTopOfStack => { z with registered := true }
    | .unregisterCurrentThread => { z with registered := false }
  allowed z
    | .enterGCFreeZone => !z.inFree
    | .exitGCFreeZone => z.inFree
    | .root | .setTopOfStack | .unregisterCurrentThread => true
  runsIn
    | .haxe, z => !z.inFree && z.registered
    | .uvRun, z | .uvReadStart, z => z.inFree && z.registered
  may
    | .haxe, .op _ _ | .uvRun, .callback _ | .uvReadStart, .callback .alloc => true
    | _, _ => false
  body := Fn.body

abbrev GcThread := Thread Status Act Place Fn

/-- A thread of the Haxe program, which may run a loop. -/
def haxeThread : GcThread := ⟨⟨false, true⟩, [.place .haxe], false⟩

/-- A thread of libuv's pool that has taken a work request. -/
def poolThread : GcThread := ⟨⟨false, false⟩, [.code .work Fn.work.body], false⟩

inductive Label where
  | haxeThread
  | poolThread
  | move (i : Nat) (m : Move Fn)
  deriving DecidableEq

/-- Any number of threads, interleaved in any way. -/
def machine : Machine (List GcThread) Label where
  init := []
  step s
    | .haxeThread => some (s ++ [haxeThread])
    | .poolThread => some (s ++ [poolThread])
    | .move i m => s[i]?.bind fun t => (discipline.move t m).map (s.set i)

end HxcppLuv.Gc
