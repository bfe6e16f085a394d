import HxcppLuv.Core.Calls
import HxcppLuv.Core.Descriptors

/-!
The child of `uv_spawn` between `fork` and `exec`. It moves the descriptors it was asked for to
0, 1, 2 and so on in its own table, where they may stand in each other's way, and writes to
`error_fd` what failed. A call fails where `faults` says so, or when its descriptor is not open,
a number is past the limit, or the rights are missing.
-/

namespace HxcppLuv.Process.Child

open Descriptors

/-- An open file: one there was, an end of what `socketpair` or `pipe` made, and `/dev/null`. -/
inductive File where
  | given (n : Nat)
  | pair (id : Nat) (second : Bool)
  | devNull (readOnly : Bool)
  deriving DecidableEq

structure Program where
  file : String
  args : List String
  env : List String
  deriving DecidableEq

/-- A negated `errno`. -/
structure Errno where
  code : Int
  negative : code < 0
  deriving DecidableEq

/-- What the kernel keeps for a process. `made` counts the pairs, and `handled` are the signals
whose disposition is not the default. -/
structure Kernel where
  table : Table File
  made : Nat
  faults : List (Option Errno)
  nonblock : File → Bool
  handled : Nat → Bool
  blocked : Bool
  cwd : String
  uid : Nat
  gid : Nat
  groups : List Nat
  leader : Bool
  environ : List String
  program : Option Program

abbrev Sys := EStateM Errno Kernel

def eperm : Errno := ⟨-1, by decide⟩

def ebadf : Errno := ⟨-9, by decide⟩

def emfile : Errno := ⟨-24, by decide⟩

namespace Sys

/-- The next call fails where that is foreseen. -/
def fault : Sys Unit := fun k =>
  match k.faults with
  | [] => .ok () k
  | none :: fs => .ok () { k with faults := fs }
  | some e :: fs => .error e { k with faults := fs }

def change (f : Kernel → Kernel) : Sys Unit := fun k => .ok () (f k)

/-- A call whose failure is not looked at. -/
def ignore (x : Sys Unit) : Sys Unit := fun k => .ok () (Calls.final (x k))

def lookup (fd : Nat) : Sys (Descriptor File) := fun k =>
  match k.table.entry fd with
  | none => .error ebadf k
  | some d => .ok d k

def setEntry (fd : Nat) (d : Descriptor File) : Sys Unit :=
  change fun k => { k with table := k.table.set fd d }

def lowest (least : Nat) : Sys Nat := fun k =>
  match k.table.lowest least with
  | none => .error emfile k
  | some fd => .ok fd k

/-- `signal(n, SIG_DFL)`. -/
def signalDefault (n : Nat) : Sys Unit := do
  fault
  change fun k => { k with handled := Function.update k.handled n false }

/-- `fcntl` with `F_DUPFD_CLOEXEC`. -/
def dupfdCloexec (fd least : Nat) : Sys Nat := do
  fault
  let d ← lookup fd
  let new ← lowest least
  setEntry new ⟨d.file, true⟩
  pure new

def dup2 (old new : Nat) : Sys Unit := do
  fault
  let d ← lookup old
  fun k =>
    if new < k.table.limit then setEntry new ⟨d.file, false⟩ k else .error ebadf k

/-- `uv__cloexec`. -/
def cloexec (fd : Nat) (set : Bool) : Sys Unit := do
  fault
  let d ← lookup fd
  setEntry fd ⟨d.file, set⟩

/-- `uv__close_nocheckstdio`. -/
def close (fd : Nat) : Sys Unit := change fun k => { k with table := k.table.clear fd }

def openDevNull (readOnly : Bool) : Sys Nat := do
  fault
  let fd ← lowest 0
  setEntry fd ⟨.devNull readOnly, false⟩
  pure fd

/-- `uv__nonblock_fcntl`. -/
def nonblock (fd : Nat) (set : Bool) : Sys Unit := do
  fault
  let d ← lookup fd
  change fun k => { k with nonblock := Function.update k.nonblock d.file set }

def chdir (cwd : String) : Sys Unit := do
  fault
  change fun k => { k with cwd := cwd }

/-- What only root may do, or who asks for no more than there is. -/
def privileged (allowed : Kernel → Bool) (f : Kernel → Kernel) : Sys Unit := fun k =>
  if allowed k then (do fault; change f) k else .error eperm k

def setgroups (groups : List Nat) : Sys Unit :=
  privileged (fun k => k.uid = 0) fun k => { k with groups := groups }

def setgid (gid : Nat) : Sys Unit :=
  privileged (fun k => k.uid = 0 ∨ gid = k.gid) fun k => { k with gid := gid }

def setuid (uid : Nat) : Sys Unit :=
  privileged (fun k => k.uid = 0 ∨ uid = k.uid) fun k => { k with uid := uid }

end Sys

open Sys

variable {α : Type}

/-- What `uv__process_child_init` reads of the options. -/
structure Options where
  file : String
  args : List String
  env : Option (List String)
  detached : Bool
  cwd : Option String
  gid : Option Nat
  uid : Option Nat

/-- `SIGKILL` and `SIGSTOP` can not be changed. -/
def signals : List Nat := (List.range 32).filter fun n => n ≠ 0 ∧ n ≠ 9 ∧ n ≠ 19

def each (f : Nat → Sys Unit) : List Nat → Sys Unit
  | [] => pure ()
  | n :: ns => do
      f n
      each f ns

/-- The low numbered descriptors are duplicated first: `pipes fd` is `pipes[fd][1]`, or none where
that is negative. -/
def duplicateLow (stdioCount : Nat) : List Nat → (Nat → Option Nat) → Sys (Nat → Option Nat)
  | [], pipes => pure pipes
  | fd :: fds, pipes =>
      match pipes fd with
      | none => duplicateLow stdioCount fds pipes
      | some useFd =>
          if fd ≤ useFd then duplicateLow stdioCount fds pipes
          else do
            let new ← dupfdCloexec useFd stdioCount
            duplicateLow stdioCount fds (Function.update pipes fd (some new))

def only (p : Prop) [Decidable p] (x : Sys Unit) : Sys Unit := if p then x else pure ()

def given (o : Option α) (f : α → Sys Unit) : Sys Unit :=
  match o with
  | none => pure ()
  | some a => f a

/-- The second loop, for one descriptor. -/
def assign (stdioCount : Nat) (pipes : Nat → Option Nat) (fd : Nat) : Sys Unit :=
  match pipes fd with
  | none =>
      only (fd < 3) do
        close fd
        let useFd ← openDevNull (fd = 0)
        only (fd ≠ useFd) (dup2 useFd fd)
        only (stdioCount ≤ useFd) (close useFd)
  | some useFd => do
      cond (fd = useFd) (cloexec useFd false) (dup2 useFd fd)
      only (fd ≤ 2) (ignore (nonblock fd false))

/-- `uv__process_child_init` up to `execvp`. -/
def prepare (o : Options) (stdioCount : Nat) (pipes : Nat → Option Nat) : Sys Unit := do
  each signalDefault signals
  only o.detached (change fun k => { k with leader := true })
  let pipes ← duplicateLow stdioCount (List.range stdioCount) pipes
  each (assign stdioCount pipes) (List.range stdioCount)
  given o.cwd chdir
  only (o.uid.isSome ∨ o.gid.isSome) (ignore (setgroups []))
  given o.gid setgid
  given o.uid setuid
  given o.env fun env => change fun k => { k with environ := env }
  change fun k => { k with blocked := false }

end HxcppLuv.Process.Child
