import HxcppLuv.Core.Machine
import Mathlib.Data.List.Nodup

/-!
One `Signal` and the callback roots its starts make. `signal::start` puts a new
root into `handle->data` over whatever is there, `signal::stop` removes and deletes
what it finds there and leaves the pointer, and `signal::close` does neither. What
the wrapper finds is the live root of the last start in every run; that each root
is released exactly once holds in the runs whose starts and stops are paired.

The calls made in a delivery follow it, since the wrapper reads `data` before it
calls the user. A root is named by the order of `hx::GCAddRoot`.
-/

namespace HxcppLuv.Signal

/-- What the wrapper found in `data`, beside the root of the last successful start. -/
structure Deref where
  found : Option Nat
  latest : Option Nat
  live : Bool
  deriving DecidableEq

/-- `pending` are the messages in the signal pipe that are not dispatched; `added`,
`removed` and `deleted` record what was done to roots. -/
structure State where
  signum : Int
  data : Option Nat
  closing : Bool
  closed : Bool
  pending : List Int
  added : List Nat
  removed : List Nat
  deleted : List Nat
  derefs : List Deref
  aborted : Bool
  deriving DecidableEq

inductive Label where
  | start (signum registered : Int)
  | stop
  | close
  | caught
  | event
  | finishClose
  deriving DecidableEq

def EINVAL : Int := -22

namespace State

/-- `uv__signal_start`, where `registered` is what `uv__signal_register_handler`
returns if it is called; it keeps a handler it already has and stops the one before
it registers another. -/
def uvSignalStart (s : State) (signum registered : Int) : Int × State :=
  if signum = 0 then (EINVAL, s)
  else if signum = s.signum then (0, s)
  else if registered < 0 then (registered, { s with signum := 0 })
  else (0, { s with signum := signum })

/-- `hx::GCAddRoot` on a new root stored in `data`. -/
def root (s : State) : State :=
  { s with data := some s.added.length, added := s.added ++ [s.added.length] }

/-- `hx::GCRemoveRoot` and `delete` on what `data` holds; on null both do nothing. -/
def unroot (s : State) : State :=
  { s with removed := s.removed ++ s.data.toList, deleted := s.deleted ++ s.data.toList }

/-- `signal::start`. -/
def start (s : State) (signum registered : Int) : State :=
  if s.closing then { s with aborted := true }
  else
    match s.uvSignalStart signum registered with
    | (result, t) => if result < 0 then t else t.root

/-- `signal::stop`. -/
def stop (s : State) : State :=
  if s.closing then { s with aborted := true } else { s with signum := 0 }.unroot

/-- `signal::close`. -/
def close (s : State) : State :=
  if s.closing then { s with aborted := true } else { s with closing := true, signum := 0 }

/-- The wrapper `signal::start` passes down. -/
def wrapper (s : State) : State :=
  { s with derefs := s.derefs ++
      [⟨s.data, s.added.getLast?, s.data.any fun r => r ∉ s.deleted⟩] }

/-- `uv__signal_event` on one message. -/
def event (s : State) (signum : Int) (rest : List Int) : State :=
  let s := { s with pending := rest }
  if signum = s.signum then
    if s.closing then { s with aborted := true } else s.wrapper
  else s

end State

/-- A signal is caught for the number the handle watches; a closing handle waits
until the messages to it are dispatched. -/
def step (s : State) (l : Label) : Option State :=
  if s.aborted then none
  else
    match l with
    | .start signum registered => some (s.start signum registered)
    | .stop => some s.stop
    | .close => some s.close
    | .caught =>
        if s.signum ≠ 0 then some { s with pending := s.pending ++ [s.signum] } else none
    | .event =>
        match s.pending with
        | [] => none
        | signum :: rest => some (s.event signum rest)
    | .finishClose =>
        if s.closing ∧ s.closed = false ∧ s.pending = [] then some { s with closed := true }
        else none

def machine : Machine State Label where
  init := ⟨0, none, false, false, [], [], [], [], [], false⟩
  step := step

/-- The wrapper found the live root of the last successful start. -/
def Deref.sound (d : Deref) : Prop := d.found = d.latest ∧ d.live = true

/-- Libuv watches the signal already, or gets a handler for it. -/
def State.Watchable (s : State) (signum registered : Int) : Prop :=
  signum ≠ 0 ∧ (signum = s.signum ∨ 0 ≤ registered)

/-- The calls that can be made on an open handle, and the delivery of a signal it
watches: a start that succeeds makes a root, a stop releases the one it finds, a close
begins, and the wrapper is called. -/
structure Served (s : State) : Prop where
  start : ∀ signum registered, s.Watchable signum registered →
    ∃ t, step s (.start signum registered) = some t ∧ t.data = some s.added.length ∧
      t.added = s.added ++ [s.added.length]
  stop : ∀ r, s.data = some r → ∃ t, step s .stop = some t ∧
    t.removed = s.removed ++ [r] ∧ t.deleted = s.deleted ++ [r]
  close : ∃ t, step s .close = some t ∧ t.closing = true ∧ t.signum = 0
  event : ∀ rest, s.pending = s.signum :: rest → ∃ t d, step s .event = some t ∧
    t.derefs = s.derefs ++ [d]

/-- Every root is registered once and released at most once, a root that is not
released can still be, and none is left by a close. -/
structure Lifecycle (s : State) : Prop where
  added : s.added.Nodup
  removed : s.removed.Nodup
  deleted : s.deleted.Nodup
  known : ∀ r ∈ s.removed, r ∈ s.added
  together : s.deleted = s.removed
  reached : ∀ r ∈ s.added, r ∈ s.removed ∨ s.data = some r
  derefs : ∀ d ∈ s.derefs, d.sound
  closed : s.closed = true → ∀ r ∈ s.added, r ∈ s.removed
  served : s.aborted = false → s.closing = false → Served s
  ends : s.aborted = false → s.closing = true → s.closed = false → s.pending = [] →
    ∃ t, step s .finishClose = some t ∧ t.closed = true

/-- `data` points to a root that is not released. -/
def State.holds (s : State) : Prop := ∃ r, s.data = some r ∧ r ∉ s.removed

/-- No start of a signal that can be watched is made while a root is held, no stop
finds a released one, and no close ends with one held. -/
def Paired (s : State) : Label → Prop
  | .start signum registered => s.closing = false → s.Watchable signum registered → ¬ s.holds
  | .stop => s.closing = false → ∀ r, s.data = some r → r ∉ s.removed
  | .finishClose => ¬ s.holds
  | .close | .caught | .event => True

/-- What holds in every run: the roots are numbered, and a watching handle holds the
root of its last start. -/
structure Core (s : State) : Prop where
  added : s.added = List.range s.added.length
  known : ∀ r ∈ s.removed, r ∈ s.added
  together : s.deleted = s.removed
  data : ∀ r, s.data = some r → r ∈ s.added
  derefs : ∀ d ∈ s.derefs, d.sound
  watching : s.signum ≠ 0 → s.data = s.added.getLast? ∧ s.holds
  quiet : s.closing = true → s.signum = 0
  pending : ∀ n ∈ s.pending, n ≠ 0

theorem core_init : Core machine.init where
  added := rfl
  known := by intro r hr; cases hr
  together := rfl
  data := by intro r hr; cases hr
  derefs := by intro d hd; cases hd
  watching h := absurd rfl h
  quiet _ := rfl
  pending := by intro n hn; cases hn

/-- A start keeps everything but the number it watches. -/
theorem uvSignalStart_cases (s : State) (signum registered : Int) :
    ∃ n, (s.uvSignalStart signum registered).2 = { s with signum := n } ∧
      ((s.uvSignalStart signum registered).1 < 0 → n = s.signum ∨ n = 0) := by
  simp only [State.uvSignalStart]
  split
  · exact ⟨s.signum, rfl, fun _ => .inl rfl⟩
  · split
    · exact ⟨s.signum, rfl, fun _ => .inl rfl⟩
    · split
      · exact ⟨0, rfl, fun _ => .inr rfl⟩
      · exact ⟨signum, rfl, fun h => absurd h (Int.lt_irrefl 0)⟩

theorem watchable_iff (s : State) (signum registered : Int) :
    s.Watchable signum registered ↔ 0 ≤ (s.uvSignalStart signum registered).1 := by
  simp only [State.Watchable, State.uvSignalStart]
  by_cases hzero : signum = 0
  · simp [hzero, EINVAL]
  · by_cases hsame : signum = s.signum
    · have hwatched : s.signum ≠ 0 := hsame ▸ hzero
      simp [hsame, hwatched]
    · by_cases hneg : registered < 0
      · simp [hzero, hsame, hneg]
      · simp [hzero, hsame, hneg, Int.not_lt.mp hneg]

/-- Nothing but a call on a closing handle keeps a call from being served. -/
theorem served_of_open {s : State} (hruns : s.aborted = false) (hopen : s.closing = false) :
    Served s where
  start signum registered hwatch := by
    have hok := (watchable_iff s signum registered).mp hwatch
    obtain ⟨n, heq, -⟩ := uvSignalStart_cases s signum registered
    have hs : s.start signum registered = { s with signum := n }.root := by
      simp [State.start, hopen, heq, Int.not_lt.mpr hok]
    exact ⟨{ s with signum := n }.root, by simp [step, hruns, hs], rfl, rfl⟩
  stop r hd := by
    have hs : s.stop = { s with signum := 0 }.unroot := by simp [State.stop, hopen]
    refine ⟨s.stop, by simp [step, hruns], ?_, ?_⟩
    · simp [hs, State.unroot, hd]
    · simp [hs, State.unroot, hd]
  close := ⟨s.close, by simp [step, hruns], by simp [State.close, hopen],
    by simp [State.close, hopen]⟩
  event rest hp := by
    have hs : s.event s.signum rest = { s with pending := rest }.wrapper := by
      simp [State.event, hopen]
    refine ⟨{ s with pending := rest }.wrapper, _, ?_, rfl⟩
    rw [← hs]
    simp [step, hruns, hp]

theorem Core.setSignum {s : State} (h : Core s) {n : Int} (hn : n = s.signum ∨ n = 0) :
    Core { s with signum := n } where
  added := h.added
  known := h.known
  together := h.together
  data := h.data
  derefs := h.derefs
  watching hne := by
    cases hn with
    | inl hn => exact h.watching (hn ▸ hne)
    | inr hn => exact absurd hn hne
  quiet hc := by
    cases hn with
    | inl hn => exact hn.trans (h.quiet hc)
    | inr hn => exact hn
  pending := h.pending

/-- The root that is made next is new. -/
theorem Core.fresh {s : State} (h : Core s) : s.added.length ∉ s.added := by
  intro hmem
  rw [h.added] at hmem
  simp at hmem

theorem core_root {s : State} (h : Core s) {n : Int} (hopen : s.closing = false) :
    Core { s with signum := n }.root where
  added := by
    simp only [State.root, List.length_append, List.length_singleton]
    rw [List.range_succ, ← h.added]
  known r hr := List.mem_append_left _ (h.known r hr)
  together := h.together
  data r hr := by
    cases hr
    exact List.mem_append_right _ (List.mem_singleton_self _)
  derefs := h.derefs
  watching _ := ⟨by simp [State.root], s.added.length, rfl, fun hr => h.fresh (h.known _ hr)⟩
  quiet hc := by rw [State.root, hopen] at hc; cases hc
  pending := h.pending

theorem core_start {s : State} (h : Core s) (signum registered : Int) :
    Core (s.start signum registered) := by
  simp only [State.start]
  split
  · exact { h with }
  · rename_i hopen
    obtain ⟨n, heq, hfail⟩ := uvSignalStart_cases s signum registered
    rw [heq]
    split
    · exact h.setSignum (hfail ‹_›)
    · exact core_root h (Bool.eq_false_iff.mpr hopen)

theorem core_stop {s : State} (h : Core s) : Core s.stop := by
  simp only [State.stop]
  split
  · exact { h with }
  · exact {
      added := h.added
      known := fun r hr => by
        rcases List.mem_append.mp hr with hr | hr
        · exact h.known r hr
        · exact h.data r (Option.mem_toList.mp hr)
      together := congrArg (· ++ s.data.toList) h.together
      data := h.data
      derefs := h.derefs
      watching := fun hne => absurd rfl hne
      quiet := fun _ => rfl
      pending := h.pending }

theorem core_event {s : State} (h : Core s) {signum : Int} {rest : List Int}
    (hp : s.pending = signum :: rest) : Core (s.event signum rest) := by
  have hne : signum ≠ 0 := h.pending signum (by simp [hp])
  have hrest : ∀ n ∈ rest, n ≠ 0 := fun n hn => h.pending n (by simp [hp, hn])
  simp only [State.event]
  split
  · rename_i hsig
    split
    · exact { h with pending := hrest }
    · obtain ⟨hlast, r, hr, hlive⟩ := h.watching (hsig ▸ hne)
      refine { h with pending := hrest, derefs := fun d hd => ?_ }
      rcases List.mem_append.mp hd with hd | hd
      · exact h.derefs d hd
      · rw [List.mem_singleton.mp hd]
        exact ⟨hlast, by simp [hr, h.together, hlive]⟩
  · exact { h with pending := hrest }

theorem core_step {s t : State} {l : Label} (h : Core s) (hs : step s l = some t) : Core t := by
  simp only [step] at hs
  split at hs
  · cases hs
  · cases l with
    | start signum registered => cases hs; exact core_start h signum registered
    | stop => cases hs; exact core_stop h
    | close =>
        cases hs
        simp only [State.close]
        split
        · exact { h with }
        · exact { h.setSignum (.inr rfl) with quiet := fun _ => rfl }
    | caught =>
        obtain ⟨hne, rfl⟩ := Machine.of_guard hs
        refine { h with pending := fun n hn => ?_ }
        rcases List.mem_append.mp hn with hn | hn
        · exact h.pending n hn
        · exact List.mem_singleton.mp hn ▸ hne
    | event =>
        simp only at hs
        split at hs
        · cases hs
        · cases hs; exact core_event h ‹_›
    | finishClose =>
        obtain ⟨-, rfl⟩ := Machine.of_guard hs
        exact { h with }

/-- Whatever the calls, the wrapper finds the live root of the last successful start. -/
theorem derefs_sound (as : List Label) :
    machine.Always (fun s => ∀ d ∈ s.derefs, d.sound) machine.init as :=
  Machine.always_of_step (fun _ h => h.derefs) (fun _ _ _ => core_step) core_init

/-- What the paired runs add. -/
structure Inv (s : State) : Prop extends Core s where
  removed : s.removed.Nodup
  reached : ∀ r ∈ s.added, r ∈ s.removed ∨ s.data = some r
  closed : s.closed = true → s.closing = true ∧ ∀ r ∈ s.added, r ∈ s.removed

theorem inv_init : Inv machine.init :=
  { core_init with
    removed := List.nodup_nil
    reached := by intro r hr; cases hr
    closed := by intro h; cases h }

theorem lifecycle_of_inv {s : State} (h : Inv s) : Lifecycle s where
  added := h.added ▸ List.nodup_range
  removed := h.removed
  deleted := h.together ▸ h.removed
  known := h.known
  together := h.together
  reached := h.reached
  derefs := h.derefs
  closed hc := (h.closed hc).2
  served := served_of_open
  ends hruns hclosing hopen hpending :=
    ⟨{ s with closed := true }, by simp [step, hruns, hclosing, hopen, hpending], rfl⟩

/-- When nothing is held every root is released. -/
theorem Inv.released {s : State} (h : Inv s) (hn : ¬ s.holds) {r : Nat} (hr : r ∈ s.added) :
    r ∈ s.removed := by
  cases h.reached r hr with
  | inl hr => exact hr
  | inr hd =>
      by_contra hlive
      exact hn ⟨r, hd, hlive⟩

theorem Inv.not_closed {s : State} (h : Inv s) (hopen : s.closing = false) :
    ¬ s.closed = true := by
  intro hc
  rw [(h.closed hc).1] at hopen
  cases hopen

/-- A step that leaves the roots and `data` alone and ends no close. -/
theorem Inv.of_same {s t : State} (h : Inv s) (hcore : Core t) (hd : t.data = s.data)
    (ha : t.added = s.added) (hr : t.removed = s.removed)
    (hc : t.closed = true → s.closed = true ∧ t.closing = true) : Inv t :=
  { hcore with
    removed := hr ▸ h.removed
    reached := by rw [ha, hr, hd]; exact h.reached
    closed := fun ht => by rw [ha, hr]; exact ⟨(hc ht).2, (h.closed (hc ht).1).2⟩ }

theorem inv_start {s : State} (h : Inv s) {signum registered : Int}
    (hG : Paired s (.start signum registered)) : Inv (s.start signum registered) := by
  have hcore := core_start h.toCore signum registered
  obtain ⟨n, heq, -⟩ := uvSignalStart_cases s signum registered
  cases hopen : s.closing with
  | true =>
      have hs : s.start signum registered = { s with aborted := true } := by
        simp [State.start, hopen]
      rw [hs]
      exact { h with }
  | false =>
      have hs : s.start signum registered =
          if (s.uvSignalStart signum registered).1 < 0 then { s with signum := n }
          else { s with signum := n }.root := by
        simp [State.start, hopen, heq]
      rw [hs] at hcore ⊢
      by_cases hneg : (s.uvSignalStart signum registered).1 < 0
      · rw [if_pos hneg] at hcore ⊢
        exact h.of_same hcore rfl rfl rfl fun hc => ⟨hc, (h.closed hc).1⟩
      · rw [if_neg hneg] at hcore ⊢
        have hn := hG hopen ((watchable_iff s signum registered).mpr (Int.not_lt.mp hneg))
        exact {
          hcore with
          removed := h.removed
          reached := fun r hr => by
            cases List.mem_append.mp hr with
            | inl hr => exact .inl (h.released hn hr)
            | inr hr => exact .inr (congrArg some (List.mem_singleton.mp hr).symm)
          closed := fun hc => absurd hc (h.not_closed hopen) }

theorem inv_stop {s : State} (h : Inv s) (hG : Paired s .stop) : Inv s.stop := by
  have hcore := core_stop h.toCore
  cases hopen : s.closing with
  | true =>
      have hs : s.stop = { s with aborted := true } := by simp [State.stop, hopen]
      rw [hs]
      exact { h with }
  | false =>
      have hs : s.stop = { s with signum := 0 }.unroot := by simp [State.stop, hopen]
      rw [hs] at hcore ⊢
      have hremoved : (s.removed ++ s.data.toList).Nodup := by
        cases hd : s.data with
        | none => simpa using h.removed
        | some r =>
            have hnot := hG hopen r hd
            simpa [← List.concat_eq_append] using h.removed.concat hnot
      exact {
        hcore with
        removed := hremoved
        reached := fun r hr => (h.reached r hr).imp_left (List.mem_append_left _)
        closed := fun hc => absurd hc (h.not_closed hopen) }

theorem inv_close {s : State} (h : Inv s) (hcore : Core s.close) : Inv s.close := by
  cases hopen : s.closing with
  | true =>
      have hs : s.close = { s with aborted := true } := by simp [State.close, hopen]
      rw [hs]
      exact { h with }
  | false =>
      have hs : s.close = { s with closing := true, signum := 0 } := by simp [State.close, hopen]
      rw [hs] at hcore ⊢
      exact h.of_same hcore rfl rfl rfl fun hc => ⟨hc, rfl⟩

theorem inv_event {s : State} (h : Inv s) {signum : Int} {rest : List Int}
    (hcore : Core (s.event signum rest)) : Inv (s.event signum rest) := by
  have hframe : (s.event signum rest).data = s.data ∧ (s.event signum rest).added = s.added ∧
      (s.event signum rest).removed = s.removed ∧ (s.event signum rest).closed = s.closed ∧
      (s.event signum rest).closing = s.closing := by
    simp only [State.event]
    split
    · split <;> exact ⟨rfl, rfl, rfl, rfl, rfl⟩
    · exact ⟨rfl, rfl, rfl, rfl, rfl⟩
  obtain ⟨hd, ha, hr, hc, hcl⟩ := hframe
  exact h.of_same hcore hd ha hr (by rw [hc, hcl]; exact fun hc => ⟨hc, (h.closed hc).1⟩)

theorem inv_step {s t : State} {l : Label} (h : Inv s) (hG : Paired s l)
    (hs : step s l = some t) : Inv t := by
  have hcore := core_step h.toCore hs
  simp only [step] at hs
  split at hs
  · cases hs
  · cases l with
    | start signum registered => cases hs; exact inv_start h hG
    | stop => cases hs; exact inv_stop h hG
    | close => cases hs; exact inv_close h hcore
    | caught =>
        obtain ⟨-, rfl⟩ := Machine.of_guard hs
        exact h.of_same hcore rfl rfl rfl fun hc => ⟨hc, (h.closed hc).1⟩
    | event =>
        simp only at hs
        split at hs
        · cases hs
        · cases hs; exact inv_event h hcore
    | finishClose =>
        obtain ⟨⟨hclosing, -⟩, rfl⟩ := Machine.of_guard hs
        exact {
          hcore with
          removed := h.removed
          reached := h.reached
          closed := fun _ => ⟨hclosing, fun r hr => h.released hG hr⟩ }

/-- A start that succeeds over a held root leaves it where nothing can release it. -/
theorem start_breaks {s : State} (h : Core s) {signum registered : Int}
    (hG : ¬ Paired s (.start signum registered)) : ¬ Lifecycle (s.start signum registered) := by
  simp only [Paired, Classical.not_imp, not_not] at hG
  obtain ⟨hopen, hwatch, r, hd, hlive⟩ := hG
  have hok := (watchable_iff s signum registered).mp hwatch
  obtain ⟨n, heq, -⟩ := uvSignalStart_cases s signum registered
  have hs : s.start signum registered = { s with signum := n }.root := by
    simp [State.start, hopen, heq, Int.not_lt.mpr hok]
  rw [hs]
  intro hlife
  have hr := h.data r hd
  cases hlife.reached r (List.mem_append_left _ hr) with
  | inl hrem => exact hlive hrem
  | inr hnew =>
      apply h.fresh
      rwa [show s.added.length = r from Option.some.inj hnew]

/-- A stop that finds a released root releases it again. -/
theorem stop_breaks {s : State} (hG : ¬ Paired s .stop) : ¬ Lifecycle s.stop := by
  simp only [Paired, Classical.not_imp, not_forall, not_not] at hG
  obtain ⟨hopen, r, hd, hrem⟩ := hG
  have hs : s.stop = { s with signum := 0 }.unroot := by simp [State.stop, hopen]
  rw [hs]
  intro hlife
  have hnodup : (s.removed ++ [r]).Nodup := by simpa [State.unroot, hd] using hlife.removed
  exact (List.nodup_append.mp hnodup).2.2 r hrem r (List.mem_singleton_self r) rfl

/-- Every root is released once, and none is left, in exactly the runs that stop after
each start that succeeds and before the next and the close. -/
theorem lifecycle_iff_paired (as : List Label) :
    machine.Always Lifecycle machine.init as ↔ machine.Throughout Paired machine.init as := by
  refine Machine.always_iff_throughout (fun _ => lifecycle_of_inv) (fun _ _ _ => inv_step) ?_
    inv_init
  intro s l t h hG hs
  change step s l = some t at hs
  simp only [step] at hs
  split at hs
  · cases hs
  · cases l with
    | start signum registered => cases hs; exact start_breaks h.toCore hG
    | stop => cases hs; exact stop_breaks hG
    | finishClose =>
        obtain ⟨-, rfl⟩ := Machine.of_guard hs
        obtain ⟨r, hd, hlive⟩ := not_not.mp hG
        exact fun hlife => hlive (hlife.closed rfl r (h.data r hd))
    | close | caught | event => exact absurd trivial hG

/-- A watcher that is closed while it is started keeps its root. -/
theorem close_keeps_root : ¬ machine.Always Lifecycle machine.init
    [.start 2 0, .close, .finishClose] := by
  intro h
  have : ¬ machine.Always (fun s => s.closed = true → ∀ r ∈ s.added, r ∈ s.removed) machine.init
      [.start 2 0, .close, .finishClose] := by decide
  exact this (h.mono fun _ hs => hs.closed)

end HxcppLuv.Signal
