import HxcppLuv.Core.Ledger
import HxcppLuv.Core.Machine
import HxcppLuv.Core.Slots
import HxcppLuv.Process.Output

/-!
The constructors of the bindings on their failing paths: what each has taken by the
step that fails, and what it gives back, at once or in a close callback it schedules.
Three of them leave nothing behind, if the loop has had a stream before: with its first one a
loop opens the descriptor it keeps for EMFILE. The others delete a handle that is linked into
the loop, or forget what they made.
-/

namespace HxcppLuv.Loop.Construct

open Process (Stdio)
open HxcppLuv.Action

/-- The objects a constructor makes. -/
inductive Object where
  | pipe
  | tty
  | server
  | client
  | signal
  | async
  | callbackRoot
  | process
  | stdioPipe (w : Stdio)
  | streamData (w : Stdio)
  | stdio
  | args
  | envs
  | options
  deriving DecidableEq

/-- The `emfile_fd` of the loop, native memory, a link in the loop's handle queue, the two
roots of a `StreamData`, a descriptor, and the child's end of a pipe. -/
inductive Resource where
  | emfile
  | memory (o : Object)
  | handle (o : Object)
  | success (w : Stdio)
  | failure (w : Stdio)
  | descriptor (o : Object)
  | childEnd (w : Stdio)
  deriving DecidableEq

/-- The step at which `process::spawn` fails: `shell` is read of null options; in
`uv_spawn`, a pair of descriptors cannot be made, the fork or the exec fails, or a
stream cannot be opened. -/
inductive SpawnStep where
  | nullOptions
  | initStdio (w : Stdio)
  | child
  | openStream (w : Stdio)
  deriving DecidableEq

/-- The step at which a constructor fails. `reopened` is whether `uv_tty_init` has opened
the terminal again, `socket` whether `uv_tcp_bind` has made its socket, `env` whether
there is an environment. -/
inductive Failure where
  | pipeInit
  | pipeOpen
  | ttyInit (reopened : Bool)
  | tcpAddress
  | tcpInit
  | tcpBind (socket : Bool)
  | tcpAccept
  | signalInit
  | asyncInit
  | spawn (env : Bool) (step : SpawnStep)
  deriving DecidableEq

/-- What is done before the failure is reported, and what each close callback that is
scheduled gives back. -/
structure Path where
  now : List (Action Resource)
  later : List (Multiset Resource)

/-- `uv_spawn` looks at the containers in this order. -/
def containers : List Stdio := [.stdin, .stdout, .stderr]

def before (w : Stdio) : List Stdio := containers.takeWhile (· ≠ w)

def after (w : Stdio) : List Stdio := (containers.dropWhile (· ≠ w)).tail

/-- The pipes and their `StreamData`, which `process::spawn` makes first. -/
def stdioPipes : List (Action Resource) :=
  [acquire (.memory (.stdioPipe .stdin)), acquire (.memory (.stdioPipe .stdout)),
    acquire (.memory (.stdioPipe .stderr)), acquire (.handle (.stdioPipe .stdin)),
    acquire (.handle (.stdioPipe .stderr)), acquire (.handle (.stdioPipe .stdout))] ++
  containers.flatMap fun w =>
    [acquire (.memory (.streamData w)), acquire (.success w), acquire (.failure w)]

/-- The containers, the vectors and the options, and the process `uv_spawn` links. -/
def spawnOptions (env : Bool) : List (Action Resource) :=
  [acquire (.memory .args), acquire (.memory .options)] ++
    (if env then [acquire (.memory .envs)] else []) ++
    [acquire (.memory .process), acquire (.handle .process)]

/-- `uv__process_init_stdio`. -/
def socketpair (w : Stdio) : List (Action Resource) :=
  [acquire (.descriptor (.stdioPipe w)), acquire (.childEnd w)]

/-- The descriptors of `uv_spawn`, up to its error path or its end. -/
def spawnDescriptors : SpawnStep → List (Action Resource)
  | .nullOptions => []
  | .initStdio w =>
      (before w).flatMap socketpair ++ (before w).flatMap fun v =>
        [release (.descriptor (.stdioPipe v)), release (.childEnd v)]
  -- the streams are opened nevertheless
  | .child => containers.flatMap socketpair ++ containers.map fun v => release (.childEnd v)
  | .openStream w =>
      containers.flatMap socketpair ++ (before w ++ [w]).map (fun v => release (.childEnd v)) ++
        (before w).map (fun v => release (.descriptor (.stdioPipe v))) ++
        [release (.descriptor (.stdioPipe w))] ++ (after w).flatMap fun v =>
          [release (.descriptor (.stdioPipe v)), release (.childEnd v)]

def Failure.path : Failure → Path
  | pipeInit => ⟨[acquire (.memory .pipe), release (.memory .pipe)], []⟩
  | pipeOpen =>
      ⟨[acquire (.memory .pipe), acquire (.handle .pipe), release (.memory .pipe)], []⟩
  | ttyInit reopened =>
      ⟨[acquire (.memory .tty)] ++
        if reopened then [acquire (.descriptor .tty), release (.descriptor .tty)] else [], []⟩
  | tcpAddress => ⟨[], []⟩
  | tcpInit => ⟨[acquire (.memory .server), release (.memory .server)], []⟩
  | tcpBind socket =>
      -- `uv_close` closes the socket, the close callback deletes the server
      ⟨[acquire (.memory .server), acquire (.handle .server)] ++
        (if socket then [acquire (.descriptor .server), release (.descriptor .server)] else []),
        [{.handle .server, .memory .server}]⟩
  -- the connection, which `uv_accept` closes when it cannot open it, is the server's
  | tcpAccept =>
      ⟨[acquire (.memory .client), acquire (.handle .client), release (.memory .client)], []⟩
  | signalInit => ⟨[acquire (.memory .signal), release (.memory .signal)], []⟩
  | asyncInit => ⟨[acquire (.memory .async), acquire (.memory .callbackRoot)], []⟩
  | spawn _ .nullOptions => ⟨stdioPipes ++ [acquire (.memory .stdio)], []⟩
  | spawn env step =>
      ⟨stdioPipes ++ [acquire (.memory .stdio)] ++ spawnOptions env ++ spawnDescriptors step, []⟩

/-- Whether `uv__stream_init` has been called by the step that fails. `uv_tty_init` calls it
last. -/
def Failure.streams : Failure → Bool
  | pipeOpen | tcpBind _ | tcpAccept | spawn _ _ => true
  | pipeInit | ttyInit _ | tcpAddress | tcpInit | signalInit | asyncInit => false

/-- What is held, of the constructors' and of everyone else's; whether `loop->emfile_fd` is
open; and what the close callbacks that are scheduled give back. -/
structure State where
  held : Multiset Resource
  emfile : Bool
  closing : List (Multiset Resource)

/-- `opens` is whether `uv__stream_init` can open `/dev/null`, or `/`. -/
inductive Label where
  | fail (f : Failure) (opens : Bool)
  | finishClose (i : Nat)
  deriving DecidableEq

/-- Whether the call is the loop's first to open `emfile_fd`. -/
def State.first (s : State) (f : Failure) (opens : Bool) : Bool :=
  f.streams && opens && !s.emfile

def State.fail (s : State) (f : Failure) (opens : Bool) : State where
  held := Action.run ((if s.first f opens then [acquire .emfile] else []) ++ f.path.now) s.held
  emfile := s.emfile || s.first f opens
  closing := s.closing ++ f.path.later

/-- A loop that holds `held`, with its `emfile_fd` open or not. -/
def machine (held : Multiset Resource) (emfile : Bool) : Machine State Label where
  init := ⟨held, emfile, []⟩
  step s
    | .fail f opens => some (s.fail f opens)
    | .finishClose i =>
        s.closing[i]?.map fun r => { s with held := s.held - r, closing := s.closing.eraseIdx i }

/-- Nothing is held but what was, and what a close callback will give back; once the
loop has run them, exactly what was. -/
structure Traceless (held : Multiset Resource) (s : State) : Prop where
  accounted : s.held = held + s.closing.sum
  settled : s.closing = [] → s.held = held

/-- The failures whose path gives everything back. -/
def Failure.unwound : Failure → Bool
  | pipeInit | tcpAddress | tcpInit | tcpBind _ | signalInit => true
  | pipeOpen | ttyInit _ | tcpAccept | asyncInit | spawn _ _ => false

/-- Such a path, and no stream is the loop's first. -/
def Unwound (s : State) : Label → Prop
  | .fail f opens => f.unwound = true ∧ s.first f opens = false
  | .finishClose _ => True

/-- What a failing call takes and does not give back at once. -/
def Failure.left (f : Failure) (first : Bool) : Multiset Resource :=
  Action.run ((if first then [acquire .emfile] else []) ++ f.path.now) 0

/-- A constructor gives back only what it took. -/
theorem owned_path (f : Failure) (first : Bool) :
    Owned ((if first then [acquire .emfile] else []) ++ f.path.now) 0 := by
  cases f with
  | ttyInit reopened => cases first <;> cases reopened <;> decide
  | tcpBind socket => cases first <;> cases socket <;> decide
  | spawn env step =>
      cases step with
      | nullOptions => cases first <;> cases env <;> decide
      | child => cases first <;> cases env <;> decide
      | initStdio w | openStream w => cases first <;> cases env <;> cases w <;> decide
  | _ => cases first <;> decide

/-- What the path leaves is what its close callbacks give back, or not. -/
theorem left_iff_unwound (f : Failure) (first : Bool) :
    f.left first = f.path.later.sum ↔ f.unwound = true ∧ first = false := by
  cases f with
  | ttyInit reopened => cases first <;> cases reopened <;> decide
  | tcpBind socket => cases first <;> cases socket <;> decide
  | spawn env step =>
      cases step with
      | nullOptions => cases first <;> cases env <;> decide
      | child => cases first <;> cases env <;> decide
      | initStdio w | openStream w => cases first <;> cases env <;> cases w <;> decide
  | _ => cases first <;> decide

/-- A failing call adds to what is held what its path leaves. -/
theorem held_fail (s : State) (f : Failure) (opens : Bool) :
    (s.fail f opens).held = s.held + f.left (s.first f opens) :=
  run_of_owned (owned_path f (s.first f opens)) s.held

theorem traceless_of_accounted {held : Multiset Resource} {s : State}
    (h : s.held = held + s.closing.sum) : Traceless held s where
  accounted := h
  settled hnil := by simpa [hnil] using h

theorem sum_eraseIdx {rs : List (Multiset Resource)} {i : Nat} {r : Multiset Resource}
    (h : rs[i]? = some r) : rs.sum = r + (rs.eraseIdx i).sum := by
  rw [(Slots.perm_cons_eraseIdx h).sum_eq, List.sum_cons]

section

variable {held : Multiset Resource} {emfile : Bool} {s t : State} {a : Label}

theorem traceless_step (hs : Traceless held s) (ha : Unwound s a)
    (h : (machine held emfile).step s a = some t) : Traceless held t := by
  apply traceless_of_accounted
  cases a with
  | fail f opens =>
      cases h
      have hleft := (left_iff_unwound f (s.first f opens)).mpr ha
      rw [held_fail, hleft, hs.accounted, add_assoc]
      exact congrArg (held + ·) List.sum_append.symm
  | finishClose i =>
      obtain ⟨r, hr, rfl⟩ := Option.map_eq_some_iff.mp h
      simp only [hs.accounted, sum_eraseIdx hr]
      rw [add_left_comm, add_tsub_cancel_left]

/-- What a failing path leaves, no close callback that is scheduled gives back. -/
theorem not_traceless_step (hs : Traceless held s) (ha : ¬ Unwound s a)
    (h : (machine held emfile).step s a = some t) : ¬ Traceless held t := by
  intro ht
  cases a with
  | fail f opens =>
      cases h
      apply ha
      apply (left_iff_unwound f (s.first f opens)).mp
      have hall := ht.accounted
      rw [held_fail, hs.accounted, add_assoc] at hall
      have hsum : (s.fail f opens).closing.sum = s.closing.sum + f.path.later.sum :=
        List.sum_append
      rw [hsum] at hall
      exact add_left_cancel (add_left_cancel hall)
  | finishClose i => exact ha trivial

end

/-- The failing calls of a run leave no trace exactly when each of them is of a kind
whose path gives everything back, and none is the loop's first to open `emfile_fd`. -/
theorem traceless_iff_unwound (held : Multiset Resource) (emfile : Bool) (as : List Label) :
    (machine held emfile).Always (Traceless held) (machine held emfile).init as ↔
      (machine held emfile).Throughout Unwound (machine held emfile).init as :=
  Machine.always_iff_throughout (fun _ hs => hs) (fun _ _ _ => traceless_step)
    (fun _ _ _ => not_traceless_step) (traceless_of_accounted (add_zero held).symm)

instance (held : Multiset Resource) : DecidablePred (Traceless held) := fun s =>
  decidable_of_iff (s.held = held + s.closing.sum)
    ⟨traceless_of_accounted, fun h => h.accounted⟩

/-- A program that does not exist: the process, its three pipes, their three descriptors and all
that was made for the call stay. -/
theorem failed_spawn_stays :
    ¬ (machine 0 true).Always (Traceless 0) (machine 0 true).init
      [.fail (.spawn false .child) true] := by
  decide

end HxcppLuv.Loop.Construct
