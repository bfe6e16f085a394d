import HxcppLuv.Core.Machine
import Mathlib.Logic.Function.Basic

/-!
A child made by `Process.spawn` and the three pipes of its `SpawnData`. The pipes
are read by the loop while a subscription is active, but they are closed by the
destructor of `SpawnData` at the end of the exit wrapper, read or not, and the
`Process` object goes on holding them. Output survives in exactly the runs in
which they are drained by then and not used afterwards.

The user has no way to close the pipes, and `Process.stdin` is null.
-/

namespace HxcppLuv.Process

inductive Stdio where
  | stdin
  | stdout
  | stderr
  deriving DecidableEq

instance {p : Stdio → Prop} [DecidablePred p] : Decidable (∀ w, p w) :=
  decidable_of_iff (p .stdin ∧ p .stdout ∧ p .stderr)
    ⟨fun h w => by cases w <;> simp [h], fun h => ⟨h _, h _, h _⟩⟩

inductive PipePhase where
  | opened
  | closing
  | freed
  deriving DecidableEq

/-- The parent's end of a pipe, and what the child has written to the other. -/
structure Pipe where
  phase : PipePhase
  reading : Bool
  writeEnd : Bool
  written : List UInt8
  buffer : List UInt8
  delivered : List UInt8
  deriving DecidableEq

/-- `notifying` is the time the exit wrapper takes, in which the loop does nothing else. -/
inductive Child where
  | running
  | exited
  | notifying
  | notified
  deriving DecidableEq

/-- `misused` records a call on a pipe that has been closed. -/
structure State where
  child : Child
  pipe : Stdio → Pipe
  misused : Bool

inductive Label where
  | write (w : Stdio) (bytes : List UInt8)
  | shut (w : Stdio)
  | exit
  | deliver (w : Stdio) (n : Nat)
  | eof (w : Stdio)
  | notify
  | notifyReturn
  | finishClose (w : Stdio)
  | read (w : Stdio)
  | stop (w : Stdio)
  deriving DecidableEq

/-- The size `uv__read` asks the allocation callback for. -/
def suggestedSize : Nat := 64 * 1024

namespace Pipe

/-- `uv_close`: nothing more is read from the pipe. -/
def close (p : Pipe) : Pipe := { p with phase := .closing, reading := false }

def write (p : Pipe) (bytes : List UInt8) : Pipe :=
  { p with
    written := p.written ++ bytes
    buffer := if p.phase = .opened then p.buffer ++ bytes else p.buffer }

def deliver (p : Pipe) (n : Nat) : Pipe :=
  { p with buffer := p.buffer.drop n, delivered := p.delivered ++ p.buffer.take n }

end Pipe

namespace State

def update (s : State) (w : Stdio) (p : Pipe) : State :=
  { s with pipe := Function.update s.pipe w p }

/-- `stream::read` and `stream::stop` on a pipe the `Process` object holds. -/
def call (s : State) (w : Stdio) (reading : Bool) : State :=
  if (s.pipe w).phase = .opened then s.update w { s.pipe w with reading := reading }
  else { s with misused := true }

end State

def step (s : State) : Label → Option State
  | .write w bytes =>
      if s.child = .running ∧ w ≠ .stdin ∧ (s.pipe w).writeEnd then
        some (s.update w ((s.pipe w).write bytes))
      else none
  | .shut w =>
      if s.child = .running ∧ w ≠ .stdin then some (s.update w { s.pipe w with writeEnd := false })
      else none
  | .exit => if s.child = .running then some { s with child := .exited } else none
  | .deliver w n =>
      if (s.pipe w).phase = .opened ∧ (s.pipe w).reading ∧ s.child ≠ .notifying ∧
          0 < n ∧ n ≤ (s.pipe w).buffer.length ∧ n ≤ suggestedSize then
        some (s.update w ((s.pipe w).deliver n))
      else none
  | .eof w =>
      -- the write end is closed or gone with the child, and `uv__stream_eof` stops reading
      if (s.pipe w).phase = .opened ∧ (s.pipe w).reading ∧ (s.pipe w).buffer = [] ∧
          ((s.pipe w).writeEnd = false ∨ s.child ≠ .running) ∧ s.child ≠ .notifying then
        some (s.update w { s.pipe w with reading := false })
      else none
  | .notify => if s.child = .exited then some { s with child := .notifying } else none
  | .notifyReturn =>
      if s.child = .notifying then
        some { s with child := .notified, pipe := fun w => (s.pipe w).close }
      else none
  | .finishClose w =>
      if (s.pipe w).phase = .closing ∧ s.child ≠ .notifying then
        some (s.update w { s.pipe w with phase := .freed })
      else none
  | .read w => if w ≠ .stdin then some (s.call w true) else none
  | .stop w => if w ≠ .stdin then some (s.call w false) else none

def machine : Machine State Label where
  init := ⟨.running, fun _ => ⟨.opened, false, true, [], [], []⟩, false⟩
  step := step

/-- What is delivered is what was written, in order; a pipe is closed only with all
of it delivered, and no call is made on it then. -/
def Survives (s : State) : Prop :=
  (∀ w, (s.pipe w).delivered <+: (s.pipe w).written) ∧
  (∀ w, (s.pipe w).phase ≠ .opened → (s.pipe w).delivered = (s.pipe w).written) ∧
  s.misused = false

/-- The exit wrapper ends with nothing left in the pipes, and the user lets go of
them by then. -/
def Drained (s : State) : Label → Prop
  | .notifyReturn => ∀ w, (s.pipe w).buffer = []
  | .read w | .stop w => (s.pipe w).phase = .opened
  | _ => True

instance : DecidablePred Survives := fun _ => inferInstanceAs (Decidable (_ ∧ _ ∧ _))

instance : ∀ s l, Decidable (Drained s l)
  | s, .notifyReturn => inferInstanceAs (Decidable (∀ w, (s.pipe w).buffer = []))
  | s, .read w | s, .stop w => inferInstanceAs (Decidable ((s.pipe w).phase = .opened))
  | _, .write _ _ | _, .shut _ | _, .exit | _, .deliver _ _ | _, .eof _ | _, .notify
  | _, .finishClose _ => isTrue trivial

/-- Every byte written is delivered or waits in the pipe, and none waits in one
that is closed, which happens only after the exit. -/
structure PipeInv (child : Child) (p : Pipe) : Prop where
  kept : p.delivered ++ p.buffer = p.written
  closed : p.phase ≠ .opened → p.buffer = [] ∧ child = .notified

structure Inv (s : State) : Prop where
  pipes : ∀ w, PipeInv s.child (s.pipe w)
  misused : s.misused = false

theorem inv_init : Inv machine.init := ⟨fun _ => ⟨rfl, fun h => absurd rfl h⟩, rfl⟩

theorem survives_of_inv {s : State} (h : Inv s) : Survives s := by
  refine ⟨fun w => ⟨_, (h.pipes w).kept⟩, fun w hw => ?_, h.misused⟩
  have := (h.pipes w).kept
  rwa [((h.pipes w).closed hw).1, List.append_nil] at this

theorem Inv.update {s : State} (h : Inv s) {w : Stdio} {p : Pipe} (hp : PipeInv s.child p) :
    Inv (s.update w p) := by
  refine ⟨fun v => ?_, h.misused⟩
  by_cases hv : v = w
  · subst hv
    simpa only [State.update, Function.update_self] using hp
  · simpa only [State.update, Function.update_of_ne hv] using h.pipes v

theorem Inv.child {s : State} (h : Inv s) {c : Child} (hc : s.child ≠ .notified) :
    Inv { s with child := c } :=
  ⟨fun w => ⟨(h.pipes w).kept, fun hw => absurd ((h.pipes w).closed hw).2 hc⟩, h.misused⟩

/-- No pipe is closed while the child runs. -/
theorem opened_of_running {s : State} (h : Inv s) (hc : s.child = .running) (w : Stdio) :
    (s.pipe w).phase = .opened := by
  by_contra hn
  have := ((h.pipes w).closed hn).2
  rw [hc] at this
  cases this

theorem inv_call {s : State} (h : Inv s) {w : Stdio} {reading : Bool}
    (hw : (s.pipe w).phase = .opened) : Inv (s.call w reading) := by
  rw [State.call, if_pos hw]
  exact h.update ⟨(h.pipes w).kept, fun hc => absurd hw hc⟩

theorem inv_step {s t : State} {l : Label} (h : Inv s) (hG : Drained s l)
    (hs : step s l = some t) : Inv t := by
  cases l with
  | write w bytes =>
      obtain ⟨⟨hc, -⟩, rfl⟩ := Machine.of_guard hs
      have hopen := opened_of_running h hc w
      refine h.update ⟨?_, fun hn => absurd hopen hn⟩
      simp only [Pipe.write, if_pos hopen]
      rw [← List.append_assoc, (h.pipes w).kept]
  | shut w =>
      obtain ⟨⟨hc, -⟩, rfl⟩ := Machine.of_guard hs
      exact h.update ⟨(h.pipes w).kept, fun hn => absurd (opened_of_running h hc w) hn⟩
  | exit =>
      obtain ⟨hc, rfl⟩ := Machine.of_guard hs
      exact h.child (by simp [hc])
  | deliver w n =>
      obtain ⟨⟨hopen, -⟩, rfl⟩ := Machine.of_guard hs
      refine h.update ⟨?_, fun hn => absurd hopen hn⟩
      simp only [Pipe.deliver]
      rw [List.append_assoc, List.take_append_drop, (h.pipes w).kept]
  | eof w =>
      obtain ⟨⟨hopen, -⟩, rfl⟩ := Machine.of_guard hs
      exact h.update ⟨(h.pipes w).kept, fun hn => absurd hopen hn⟩
  | notify =>
      obtain ⟨hc, rfl⟩ := Machine.of_guard hs
      exact h.child (by simp [hc])
  | notifyReturn =>
      obtain ⟨-, rfl⟩ := Machine.of_guard hs
      exact ⟨fun w => ⟨(h.pipes w).kept, fun _ => ⟨hG w, rfl⟩⟩, h.misused⟩
  | finishClose w =>
      obtain ⟨⟨hcl, -⟩, rfl⟩ := Machine.of_guard hs
      exact h.update ⟨(h.pipes w).kept, fun _ => (h.pipes w).closed (by simp [hcl])⟩
  | read w =>
      obtain ⟨-, rfl⟩ := Machine.of_guard hs
      exact inv_call h hG
  | stop w =>
      obtain ⟨-, rfl⟩ := Machine.of_guard hs
      exact inv_call h hG

theorem call_breaks {s : State} {w : Stdio} {reading : Bool}
    (hw : (s.pipe w).phase ≠ .opened) : ¬ Survives (s.call w reading) := by
  rw [State.call, if_neg hw]
  intro h
  cases h.2.2

theorem notifyReturn_breaks {s t : State} (h : Inv s) (hw : ¬ ∀ w, (s.pipe w).buffer = [])
    (hs : step s .notifyReturn = some t) : ¬ Survives t := by
  obtain ⟨-, rfl⟩ := Machine.of_guard hs
  intro hsurv
  apply hw
  intro w
  have hall : (s.pipe w).delivered = (s.pipe w).written := hsurv.2.1 w (by simp [Pipe.close])
  rw [← (h.pipes w).kept] at hall
  exact List.self_eq_append_right.mp hall

/-- A child's output survives its exit in exactly the runs that drain the pipes
before the exit wrapper ends and make no call on them after it. -/
theorem survives_iff_drained (as : List Label) :
    machine.Always Survives machine.init as ↔ machine.Throughout Drained machine.init as := by
  refine Machine.always_iff_throughout (fun _ => survives_of_inv) (fun _ _ _ => inv_step) ?_
    inv_init
  intro s l t h hG hs
  cases l with
  | notifyReturn => exact notifyReturn_breaks h hG hs
  | read w | stop w =>
      obtain ⟨-, rfl⟩ := Machine.of_guard hs
      exact call_breaks hG
  | write | shut | exit | deliver | eof | notify | finishClose => exact absurd trivial hG

/-- A child writes a byte and exits before the user has subscribed: the byte is
discarded. -/
theorem exit_discards_output : ¬ machine.Always Survives machine.init
    [.write .stdout [104], .exit, .notify, .notifyReturn] := by
  decide

end HxcppLuv.Process
