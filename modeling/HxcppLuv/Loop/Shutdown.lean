import HxcppLuv.Loop.Advance
import HxcppLuv.Loop.Data
import HxcppLuv.Loop.Memory
import HxcppLuv.Request.Ledger

/-!
A loop from its first handle to `freeLoop`. `shutdownLoop` closes once what it finds
open and runs the loop until nothing keeps it alive or the stop flag is set. What the
callbacks do meanwhile, and how `uv_run` was left, it does not look at, and `freeLoop`
does not look at what `uv_loop_close` says.
-/

namespace HxcppLuv.Loop.Shutdown

open Request (Record)

/-- Where the loop is in its life: `shutting` is the `uv_run` of `shutdownLoop`, after a
walk over the first `walked` handles, and `freed` has the result of `uv_loop_close`. -/
inductive Stage where
  | running
  | shutting (walked : Nat)
  | returned
  | freed (result : Int)
  deriving DecidableEq

structure State where
  loop : Loop.State
  requests : Request.State
  unref : List Nat
  stopFlag : Bool
  stage : Stage

inductive Label where
  | loop (l : Loop.Label)
  | request (l : Request.Label)
  | ref (h : Nat)
  | unref (h : Nat)
  | stopLoop
  | runReturns
  | shutdownLoop
  | leave
  | freeLoop
  deriving DecidableEq

/-- Whether libuv has the request among its active ones, which it leaves before its
callback is called. -/
def isActive (r : Record) : Bool :=
  match r.phase with
  | .pending | .finished _ | .ran => true
  | .calling _ => r.kind = .work
  | .rejected | .refused | .done => false

/-- Whether the handle is one of the loop's active ones, but for `uv_unref`. -/
def isWatching (hd : Handle) : Bool :=
  hd.linked && (hd.active || hd.reading || hd.listening || hd.signum != 0)

namespace State

/-- `uv__loop_alive`. -/
def alive (s : State) : Bool :=
  (List.range s.loop.handles.length).any (fun h =>
      (s.loop.handles[h]?.any isWatching) && !s.unref.contains h) ||
    s.requests.requests.any isActive || !s.loop.closing.isEmpty

/-- No callback is running. -/
def idle (s : State) : Bool := s.loop.frame = .idle && s.requests.idle

/-- `uv_walk(loop, doWalkLoop, nullptr)`. -/
def walkLoop (s : Loop.State) : Loop.State :=
  (List.range s.handles.length).foldl (fun s h => (s.walk h).getD s) s

/-- The handles that are left in the queue, and the active requests. -/
def empty (s : State) : Bool :=
  s.loop.handles.all (fun hd => !hd.linked) && s.requests.requests.all fun r => !isActive r

def isAsync (s : State) (h : Nat) : Bool :=
  s.loop.handles[h]?.any fun hd => hd.kind = .async ∧ hd.given

/-- Between the callbacks of a loop that is not freed yet, or in one of them. -/
def inUse (s : State) : Bool :=
  match s.stage with
  | .running | .shutting _ => !s.loop.aborted
  | .returned | .freed _ => false

end State

/-- How many handles the walk of `shutdownLoop` went over. -/
def State.walked (s : State) : Nat :=
  match s.stage with
  | .shutting n => n
  | .running | .returned | .freed _ => 0

/-- `UV_EBUSY`. -/
def busy : Int := -16

/-- The walk is made by `shutdownLoop` alone. -/
def isWalk : Loop.Label → Bool
  | .walk _ => true
  | _ => false

def step (canceled : Int) (s : State) : Label → Option State
  | .loop l =>
      if s.inUse ∧ !isWalk l then
        (Loop.step s.loop l).map fun t => { s with loop := t }
      else none
  | .request l =>
      if s.inUse then (Request.step canceled s.requests l).map fun t => { s with requests := t }
      else none
  | .ref h =>
      if s.inUse ∧ s.isAsync h then some { s with unref := s.unref.filter (· ≠ h) } else none
  | .unref h => if s.inUse ∧ s.isAsync h then some { s with unref := h :: s.unref } else none
  | .stopLoop => if s.inUse then some { s with stopFlag := true } else none
  -- `uv_run` clears the flag when it is left
  | .runReturns =>
      if s.inUse ∧ s.idle ∧ s.stage = .running then some { s with stopFlag := false } else none
  | .shutdownLoop =>
      if s.inUse ∧ s.idle ∧ s.stage = .running then
        some { s with loop := State.walkLoop s.loop, stage := .shutting s.loop.handles.length }
      else none
  | .leave =>
      match s.stage with
      | .shutting _ =>
          if s.inUse ∧ s.idle ∧ (s.alive → s.stopFlag) then
            some { s with stopFlag := false, stage := .returned }
          else none
      | _ => none
  | .freeLoop =>
      if s.stage = .returned then
        some { s with stage := .freed (if s.empty then 0 else busy) }
      else none

def machine (canceled : Int) : Machine State Label where
  init := ⟨Loop.machine.init, (Request.machine canceled).init, [], false, .running⟩
  step := step canceled

/-- When `shutdownLoop` has returned there is no handle and no active request, and
`uv_loop_close` has nothing to refuse. -/
def Emptied (s : State) : Prop :=
  match s.stage with
  | .running | .shutting _ => True
  | .returned => s.empty = true
  | .freed result => result = 0 ∧ s.empty = true

instance : DecidablePred Emptied := fun s => by
  unfold Emptied
  split <;> infer_instance

/-- `uv_run` is not stopped while the loop is alive, no handle in the queue has been
deleted, and those that were opened since the walk are closed. -/
def Drained (s : State) : Label → Prop
  | .leave => (s.alive = true → s.stopFlag = false) ∧ ∀ h < s.loop.handles.length,
      Meets s.loop h fun hd => !hd.linked || hd.allocated && (decide (h < s.walked) || hd.closing)
  | _ => True

instance (s : State) (a : Label) : Decidable (Drained s a) := by
  cases a <;> simp only [Drained] <;> infer_instance

section Walk

variable {s : Loop.State} {h : Nat}

theorem length_uvClose (s : Loop.State) (h : Nat) (cb : CloseCb) :
    (s.uvClose h cb).handles.length = s.handles.length := by
  have hcases := uvClose_cases s h cb
  generalize s.uvClose h cb = u at hcases ⊢
  cases hcases with
  | absent | deleted | twice => rfl
  | closes => exact List.length_modify _ _ _

theorem frame_uvClose (s : Loop.State) (h : Nat) (cb : CloseCb) :
    (s.uvClose h cb).frame = s.frame := by
  have hcases := uvClose_cases s h cb
  generalize s.uvClose h cb = u at hcases ⊢
  cases hcases with
  | absent | deleted | twice | closes => rfl

/-- What holds of the handle `h` once it has been walked. -/
def Walked (s : Loop.State) (h : Nat) : Prop :=
  ∀ hd, s.handles[h]? = some hd → hd.linked = true → hd.allocated = true → hd.closing = true

/-- `doWalkLoop` closes a handle, or does nothing to one that is not open. -/
theorem walk_cases (hidle : s.frame = .idle) (h : Nat) :
    (s.walk h).getD s = s ∧ Walked s h ∨ (s.walk h).getD s = s.uvClose h .null := by
  unfold State.walk
  cases hh : s.handles[h]? with
  | none => exact .inl ⟨rfl, fun hd hh' => by rw [hh] at hh'; cases hh'⟩
  | some hd =>
      simp only [Option.bind_some]
      by_cases hl : hd.linked = true
      · rw [if_pos ⟨hidle, hl⟩]
        split
        · refine .inl ⟨rfl, fun hd' hh' _ _ => ?_⟩
          cases hh.symm.trans hh'
          exact ‹_ ∧ _›.1
        · exact .inr rfl
      · rw [if_neg fun h => hl h.2]
        refine .inl ⟨rfl, fun hd' hh' hl' => ?_⟩
        cases hh.symm.trans hh'
        exact absurd hl' hl

structure WalksTo (s t : Loop.State) : Prop where
  inv : Inv s → Inv t
  listed : Listed s → Listed t
  advances : Advances s t
  frame : t.frame = s.frame
  length : t.handles.length = s.handles.length

theorem WalksTo.refl (s : Loop.State) : WalksTo s s := ⟨id, id, .refl s, rfl, rfl⟩

theorem WalksTo.trans {s t u : Loop.State} (h : WalksTo s t) (h' : WalksTo t u) : WalksTo s u :=
  ⟨h'.inv ∘ h.inv, h'.listed ∘ h.listed, h.advances.trans h'.advances, h'.frame.trans h.frame,
    h'.length.trans h.length⟩

theorem walksTo_uvClose (s : Loop.State) (h : Nat) : WalksTo s (s.uvClose h .null) :=
  ⟨fun hs => hs.uvClose h .null, fun hs => hs.uvClose h .null, (Advances.refl s).uvClose h .null,
    frame_uvClose s h .null, length_uvClose s h .null⟩

/-- A handle that was walked stays so. -/
theorem Walked.advance {t : Loop.State} (hs : Walked s h) (hlt : h < s.handles.length)
    (hst : Advances s t) : Walked t h := by
  intro hd hh hl ha
  obtain ⟨e, he, hlater⟩ := hst.back hlt hh
  exact hlater.closing (hs e he (hlater.linked hl) (hlater.allocated ha))

theorem Walked.later {t : Loop.State} (hs : Walked s h) (ht : WalksTo s t) : Walked t h := by
  intro hd hh
  have hlt : h < s.handles.length := ht.length ▸ (List.getElem?_eq_some_iff.mp hh).1
  exact hs.advance hlt ht.advances hd hh

/-- One visit of the walk. -/
theorem walksTo_walk (hidle : s.frame = .idle) (h : Nat) :
    WalksTo s ((s.walk h).getD s) ∧ Walked ((s.walk h).getD s) h := by
  cases walk_cases hidle h with
  | inl hsame => exact hsame.1.symm ▸ ⟨.refl s, hsame.2⟩
  | inr hclose =>
      rw [hclose]
      exact ⟨walksTo_uvClose s h, fun hd hh _ ha => Typing.closing_uvClose hh ha⟩

theorem walksTo_foldl (hs : List Nat) (hidle : s.frame = .idle) :
    WalksTo s (hs.foldl (fun s h => (s.walk h).getD s) s) ∧
      ∀ h ∈ hs, Walked (hs.foldl (fun s h => (s.walk h).getD s) s) h := by
  induction hs generalizing s with
  | nil => exact ⟨.refl s, nofun⟩
  | cons h hs ih =>
      obtain ⟨hto, hwalked⟩ := walksTo_walk hidle h
      obtain ⟨hrest, hall⟩ := ih (hto.frame.trans hidle)
      refine ⟨hto.trans hrest, fun i hi => ?_⟩
      cases List.mem_cons.mp hi with
      | inl hi => exact hi ▸ hwalked.later hrest
      | inr hi => exact hall i hi

/-- After the walk every handle that was found is closing, or is deleted. -/
theorem walkLoop_spec (hidle : s.frame = .idle) :
    WalksTo s (State.walkLoop s) ∧ ∀ h < s.handles.length, Walked (State.walkLoop s) h := by
  obtain ⟨hto, hall⟩ := walksTo_foldl (List.range s.handles.length) hidle
  exact ⟨hto, fun h hh => hall h (List.mem_range.mpr hh)⟩

end Walk

/-- While the loop is shut down, what the walk has found is closing or deleted. -/
structure Good (s : State) : Prop where
  inv : Inv s.loop
  listed : Listed s.loop
  walked : ∀ n, s.stage = .shutting n → n ≤ s.loop.handles.length ∧ ∀ h < n, Walked s.loop h
  emptied : Emptied s

section

variable {c : Int} {s t : State}

theorem good_init : Good (machine c).init where
  inv := Inv.init
  listed := listed_init
  walked n hn := by cases hn
  emptied := trivial

theorem inUse_stage (h : s.inUse = true) : s.stage = .running ∨ ∃ n, s.stage = .shutting n := by
  unfold State.inUse at h
  cases hs : s.stage with
  | running => exact .inl rfl
  | shutting n => exact .inr ⟨n, rfl⟩
  | returned | freed => rw [hs] at h; cases h

theorem emptied_of_inUse (h : s.inUse = true) (hstage : t.stage = s.stage) : Emptied t := by
  unfold Emptied
  rw [hstage]
  rcases inUse_stage h with hs | ⟨n, hs⟩ <;> rw [hs] <;> trivial

/-- Requests, references and the stop flag are no matter of the invariant. -/
theorem Good.congr (hs : Good s) (huse : s.inUse = true) (hloop : t.loop = s.loop)
    (hstage : t.stage = s.stage) : Good t where
  inv := hloop ▸ hs.inv
  listed := hloop ▸ hs.listed
  walked n hn := hloop ▸ hs.walked n (hstage ▸ hn)
  emptied := emptied_of_inUse huse hstage

theorem length_step {u : Loop.State} {l : Loop.Label} (hu : Loop.step s.loop l = some u) :
    s.loop.handles.length ≤ u.handles.length := by
  by_contra hlt
  obtain ⟨hd', hh', -⟩ := advances_step hu u.handles.length _
    (List.getElem?_eq_getElem (Nat.lt_of_not_le hlt))
  exact absurd (List.getElem?_eq_some_iff.mp hh').1 (Nat.lt_irrefl _)

theorem good_loop {u : Loop.State} {l : Loop.Label} (hs : Good s) (huse : s.inUse = true)
    (hu : Loop.step s.loop l = some u) : Good { s with loop := u } where
  inv := hs.inv.step hu
  listed := hs.listed.step hu
  walked n hn := by
    obtain ⟨hle, hall⟩ := hs.walked n hn
    exact ⟨hle.trans (length_step hu), fun h hh =>
      (hall h hh).advance (hh.trans_le hle) (advances_step hu)⟩
  emptied := emptied_of_inUse huse rfl

theorem good_shutdownLoop (hs : Good s) (hidle : s.loop.frame = .idle) :
    Good { s with
      loop := State.walkLoop s.loop
      stage := .shutting s.loop.handles.length } := by
  obtain ⟨hto, hall⟩ := walkLoop_spec hidle
  refine ⟨hto.inv hs.inv, hto.listed hs.listed, fun n hn => ?_, trivial⟩
  cases hn
  exact ⟨hto.length.ge, hall⟩

/-- A loop that is not alive and was drained is empty. -/
theorem empty_of_drained {n : Nat} (hs : Good s) (hstage : s.stage = .shutting n)
    (halive : s.alive = true → s.stopFlag = true) (hdrained : Drained s .leave) :
    s.empty = true := by
  have hdead : s.alive = false := by
    by_contra ha
    rw [Bool.not_eq_false] at ha
    exact absurd ((hdrained.1 ha).symm.trans (halive ha)) Bool.false_ne_true
  simp only [State.alive, Bool.or_eq_false_iff, Bool.not_eq_false'] at hdead
  obtain ⟨⟨-, hreqs⟩, hclosing⟩ := hdead
  simp only [State.empty, Bool.and_eq_true, List.all_eq_true]
  refine ⟨fun hd hmem => ?_, fun r hr => ?_⟩
  · by_contra hl
    have hl : hd.linked = true := by simpa using hl
    obtain ⟨h, hh⟩ := List.mem_iff_getElem?.mp hmem
    have hleft := hdrained.2 h (List.getElem?_eq_some_iff.mp hh).1 hd hh
    obtain ⟨ha, hnew⟩ : hd.allocated = true ∧ (h < n ∨ hd.closing = true) := by
      simpa [hl, State.walked, hstage] using hleft
    have hc : hd.closing = true := by
      cases hnew with
      | inl hlt => exact (hs.walked n hstage).2 h hlt hd hh hl ha
      | inr hc => exact hc
    have hin := hs.listed h hd hh hl hc
    rw [List.isEmpty_iff.mp hclosing] at hin
    cases hin
  · have hnone := List.any_eq_false.mp hreqs r hr
    simpa using hnone

theorem good_leave {n : Nat} (hs : Good s) (hstage : s.stage = .shutting n)
    (halive : s.alive = true → s.stopFlag = true) (hdrained : Drained s .leave) :
    Good { s with stopFlag := false, stage := .returned } where
  inv := hs.inv
  listed := hs.listed
  walked m hm := by cases hm
  emptied := by
    have hempty := empty_of_drained hs hstage halive hdrained
    exact hempty

theorem good_freeLoop (hs : Good s) (hstage : s.stage = .returned) :
    Good { s with stage := .freed (if s.empty then 0 else busy) } where
  inv := hs.inv
  listed := hs.listed
  walked m hm := by cases hm
  emptied := by
    have hempty : s.empty = true := by
      have hem := hs.emptied
      unfold Emptied at hem
      rw [hstage] at hem
      exact hem
    exact ⟨if_pos hempty, hempty⟩

theorem good_step {a : Label} (hs : Good s) (ha : Drained s a) (h : step c s a = some t) :
    Good t := by
  cases a with
  | loop l =>
      simp only [step] at h
      split at h
      · obtain ⟨u, hu, rfl⟩ := Option.map_eq_some_iff.mp h
        exact good_loop hs (‹_ ∧ _›).1 hu
      · cases h
  | request l =>
      simp only [step] at h
      split at h
      · obtain ⟨u, -, rfl⟩ := Option.map_eq_some_iff.mp h
        exact hs.congr ‹_› rfl rfl
      · cases h
  | ref h' | unref h' =>
      obtain ⟨⟨huse, -⟩, rfl⟩ := Machine.of_guard h
      exact hs.congr huse rfl rfl
  | stopLoop =>
      obtain ⟨huse, rfl⟩ := Machine.of_guard h
      exact hs.congr huse rfl rfl
  | runReturns =>
      obtain ⟨⟨huse, -⟩, rfl⟩ := Machine.of_guard h
      exact hs.congr huse rfl rfl
  | shutdownLoop =>
      obtain ⟨⟨-, hidle, -⟩, rfl⟩ := Machine.of_guard h
      exact good_shutdownLoop hs (by simpa using (Bool.and_eq_true_iff.mp hidle).1)
  | leave =>
      simp only [step] at h
      split at h
      · rename_i n hstage
        obtain ⟨⟨-, -, halive⟩, rfl⟩ := Machine.of_guard h
        exact good_leave hs hstage halive ha
      · cases h
  | freeLoop =>
      obtain ⟨hstage, rfl⟩ := Machine.of_guard h
      exact good_freeLoop hs hstage

/-- A loop with nothing left in it is not alive. -/
theorem drained_of_empty (hs : Good s) (hempty : s.empty = true) : Drained s .leave := by
  simp only [State.empty, Bool.and_eq_true, List.all_eq_true] at hempty
  obtain ⟨hhandles, hreqs⟩ := hempty
  have hunlinked (h : Nat) (hd : Handle) (hh : s.loop.handles[h]? = some hd) :
      hd.linked = false := by simpa using hhandles hd (List.mem_of_getElem? hh)
  have hclosing : s.loop.closing = [] := by
    apply List.eq_nil_iff_forall_not_mem.mpr
    intro h hmem
    obtain ⟨hd, hh, hl, -⟩ := hs.inv.pending h hmem
    rw [hunlinked h hd hh] at hl
    cases hl
  refine ⟨fun halive => ?_, fun h _ hd hh => by simp [hunlinked h hd hh]⟩
  simp only [State.alive, hclosing, List.isEmpty_nil, Bool.not_true, Bool.or_false,
    Bool.or_eq_true, List.any_eq_true] at halive
  rcases halive with ⟨h, -, hh⟩ | ⟨r, hr, hactive⟩
  · obtain ⟨hd, hhd, hw⟩ := (Option.any_eq_true _ _).mp (Bool.and_eq_true_iff.mp hh).1
    rw [isWatching, hunlinked h hd hhd] at hw
    cases hw
  · have hnone := hreqs r hr
    rw [hactive] at hnone
    cases hnone

theorem not_emptied_step {a : Label} (hs : Good s) (ha : ¬ Drained s a)
    (h : step c s a = some t) : ¬ Emptied t := by
  intro ht
  cases a with
  | leave =>
      simp only [step] at h
      split at h
      · obtain ⟨-, rfl⟩ := Machine.of_guard h
        exact ha (drained_of_empty hs ht)
      · cases h
  | loop | request | ref | unref | stopLoop | runReturns | shutdownLoop | freeLoop =>
      exact ha trivial

end

/-- When `shutdownLoop` returns the loop is empty, and `uv_loop_close` closes it, exactly
in the runs that leave its `uv_run` drained. -/
theorem emptied_iff_drained (canceled : Int) (as : List Label) :
    (machine canceled).Always Emptied (machine canceled).init as ↔
      (machine canceled).Throughout Drained (machine canceled).init as :=
  Machine.always_iff_throughout (fun _ hs => hs.emptied) (fun _ _ _ => good_step)
    (fun _ _ _ => not_emptied_step) good_init

/-- `stopLoop` comes before `shutdownLoop`: the close callback of the timer is never
run, and the loop is freed with the timer in its queue. -/
theorem stopped_loop_is_freed :
    ¬ (machine (-125)).Always Emptied (machine (-125)).init
      [.loop .timerRepeat, .stopLoop, .shutdownLoop, .leave, .freeLoop] := by
  decide

end HxcppLuv.Loop.Shutdown
