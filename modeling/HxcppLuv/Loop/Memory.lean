import HxcppLuv.Loop.Invariant

/-!
A handle's memory against the loop's links to it. Most operations hand a handle to
libuv and get it back in its close callback; `pipe::open` and `tcp::accept` delete
a linked one when their second libuv call fails, and the exit wrapper deletes the
process it was called for. Apart from these, and from calls on a timer that has
already closed itself, every linked handle is allocated.
-/

namespace HxcppLuv.Loop

open State

def Kept (hd : Handle) : Prop := hd.linked = true → hd.allocated = true

/-- Every handle in the queue or on the closing list is allocated, and nothing has
gone through one that is not. -/
def Allocated (s : State) : Prop :=
  (∀ hd ∈ s.handles, hd.linked = true → hd.allocated = true) ∧
  (∀ h ∈ s.closing, (s.handles[h]?.any Handle.allocated) = true) ∧
  s.fault = false

instance : DecidablePred Allocated := fun _ => inferInstanceAs (Decidable (_ ∧ _ ∧ _))

/-- No operation deletes a handle it has had linked, and the user makes no call on
one that is deleted. -/
def ReleasedByClose (s : State) : Label → Prop
  | .pipeOpen init result => init < 0 ∨ 0 ≤ result
  | .tcpAccept h result =>
      0 ≤ result ∧ Meets s h fun hd => hd.allocated && !hd.closing
  | .tcpListen h _ | .signalStart h _ _ | .signalStop h | .timerStop h | .streamRead h _
  | .streamStop h | .close h => Meets s h Handle.allocated
  | .exitReturn => False
  | _ => True

structure MemoryInv (s : State) : Prop where
  inv : Inv s
  kept : Each Kept s
  fault : s.fault = false

theorem memoryInv_init : MemoryInv machine.init where
  inv := Inv.init
  kept hd hmem := by cases hmem
  fault := rfl

theorem allocated_of_inv {s : State} (h : MemoryInv s) : Allocated s := by
  refine ⟨h.kept, fun i hi => ?_, h.fault⟩
  obtain ⟨hd, hh, hl, -⟩ := h.inv.pending i hi
  rw [hh]
  exact h.kept hd (List.mem_of_getElem? hh) hl

section

variable {s t : State} {h : Nat} {hd : Handle} {f : Handle → Handle}

theorem kept_add (hs : Each Kept s) (ha : hd.allocated = true) : Each Kept (s.add hd) :=
  hs.add fun _ => ha

theorem kept_modify (hs : Each Kept s) (hl : ∀ hd, (f hd).linked = hd.linked)
    (ha : ∀ hd, (f hd).allocated = hd.allocated) : Each Kept (s.modify h f) :=
  hs.modify fun hd _ hk hlinked => (ha hd).trans (hk (hl hd ▸ hlinked))

theorem kept_uvClose (hs : Each Kept s) (cb : CloseCb) : Each Kept (s.uvClose h cb) :=
  hs.uvClose cb fun _ _ _ _ hk => hk

theorem fault_uvClose (hh : s.handles[h]? = some hd) (ha : hd.allocated = true) (cb : CloseCb) :
    (s.uvClose h cb).fault = s.fault := by
  simp only [State.uvClose, hh, ha]
  split
  · contradiction
  · split <;> rfl

theorem kept_finish (hs : Each Kept s) : Each Kept (s.modify h Handle.finish) :=
  hs.modify fun _ _ _ hl => by cases hl

theorem kept_spawn (hs : Each Kept s) (result : Int) : Each Kept (s.spawn result) :=
  spawn_induction hs result (fun hs _ _ ha => kept_add hs ha) fun _ _ _ _ hs => hs

end

theorem meets_of_allocated {s : State} {h : Nat} {hd : Handle} (hh : s.handles[h]? = some hd)
    (ha : hd.allocated = true) : Meets s h Handle.allocated := by
  intro hd' hh'
  cases hh.symm.trans hh'
  exact ha

theorem not_meets_of_deleted {s : State} {h : Nat} {hd : Handle} {p : Handle → Bool}
    (hh : s.handles[h]? = some hd) (hp : p hd = false) : ¬ Meets s h p := by
  intro hmeets
  rw [hmeets hd hh] at hp
  cases hp

theorem releasedByClose_callee {s : State} {l : Label} {h : Nat} (hl : l.callee = some h) :
    ReleasedByClose s l ↔ Meets s h Handle.allocated := by
  cases l with
  | tcpListen | signalStart | signalStop | timerStop | streamRead | streamStop =>
      cases hl
      exact Iff.rfl
  | pipeOpen | tcpBind | tcpAccept | ttyInit | signalInit | spawn | timerRun | timerRepeat
  | asyncInit | close | streamEvent | connection | signalEvent | asyncEvent | timerEvent
  | taskReturn | childExit | exitReturn | walk | finishClose => cases hl

theorem kept_step {s t : State} {l : Label} (h : MemoryInv s) (hG : ReleasedByClose s l)
    (ht : step s l = some t) : Each Kept t ∧ t.fault = s.fault := by
  have hk := h.kept
  have hmod {i : Nat} {f : Handle → Handle}
      (hl : ∀ hd, (f hd).linked = hd.linked := by intro _; rfl)
      (ha : ∀ hd, (f hd).allocated = hd.allocated := by intro _; rfl) : Each Kept (s.modify i f) :=
    kept_modify hk hl ha
  cases step_cases ht with
  | callDeleted hl hh ha =>
      exact absurd ((releasedByClose_callee hl).mp hG) (not_meets_of_deleted hh ha)
  | acceptDeleted result hh ha => exact absurd hG.2 (not_meets_of_deleted hh (by simp [ha]))
  | callAborted | callRefused | pipeRefused | bindRefused | ttyFailed | signalRefused | asyncFailed
  | walked | connection | signalEvent | asyncEvent | repeatTimer => exact ⟨hk, rfl⟩
  | pipeDeleted init result hi hr =>
      cases hG with
      | inl hG => exact absurd hG (Int.not_lt.mpr hi)
      | inr hG => exact absurd hr (Int.not_lt.mpr hG)
  | acceptFailed hh ha hr =>
      cases hr with
      | inl hc => exact absurd hG.2 (not_meets_of_deleted hh (by simp [hc]))
      | inr hr => exact absurd hr (Int.not_lt.mpr hG.1)
  | pipeOpen | tcpBind | tcpAccept | ttyInit | signalInit | timerRun | timerRepeat | asyncInit =>
      exact ⟨kept_add hk rfl, rfl⟩
  | bindFailed =>
      exact ⟨kept_uvClose (kept_add hk rfl) _, fault_uvClose (getElem?_add_last s _) rfl _⟩
  | signalKept | signalDropped | signalStop | timerStop | streamRead | streamStop | streamEvent
  | runTimer | childExit => exact ⟨hmod, rfl⟩
  | tcpListen | signalStart => exact ⟨kept_modify hmod (fun _ => rfl) fun _ => rfl, rfl⟩
  | spawn result =>
      refine ⟨kept_spawn hk result, ?_⟩
      simp only [State.spawn]
      split <;> rfl
  | @close i hd cb hh hcb =>
      have hopen : (s.modify i fun hd => { hd with userClosed := true }).handles[i]? =
          some { hd with userClosed := true } := by
        rw [getElem?_modify, hh]
        simp
      exact ⟨kept_uvClose hmod cb, fault_uvClose hopen (hG hd hh) cb⟩
  | taskReturn hf =>
      obtain ⟨hd, hh, hl, -⟩ := h.inv.frame _ (by rw [hf]; rfl)
      exact ⟨kept_modify (kept_uvClose hk _) (fun _ => rfl) fun _ => rfl,
        fault_uvClose hh (hk hd (List.mem_of_getElem? hh) hl) _⟩
  | exitReturn => exact hG.elim
  | walk hh hl => exact ⟨kept_uvClose hk _, fault_uvClose hh (hk _ (List.mem_of_getElem? hh) hl) _⟩
  | finishClose | finishCast => exact ⟨kept_finish hk, rfl⟩

theorem memoryInv_step {s t : State} {l : Label} (h : MemoryInv s) (hG : ReleasedByClose s l)
    (ht : step s l = some t) : MemoryInv t := by
  obtain ⟨hk, hf⟩ := kept_step h hG ht
  exact ⟨h.inv.step ht, hk, hf.trans h.fault⟩

/-- A handle that is deleted while linked breaks the property at once. -/
theorem not_allocated {t : State} {hd : Handle} (hmem : hd ∈ t.handles) (hl : hd.linked = true)
    (ha : hd.allocated = false) : ¬ Allocated t := by
  intro h
  have := h.1 hd hmem hl
  rw [ha] at this
  cases this

theorem not_allocated_fault {t : State} (hf : t.fault = true) : ¬ Allocated t := by
  intro h
  rw [h.2.2] at hf
  cases hf

theorem close_breaks {s : State} {h : Nat} {hd : Handle} (hh : s.handles[h]? = some hd)
    (hn : ¬ Meets s h Handle.allocated) (cb : CloseCb) :
    ¬ Allocated ((s.modify h fun hd => { hd with userClosed := true }).uvClose h cb) := by
  have hopen : (s.modify h fun hd => { hd with userClosed := true }).handles[h]? =
      some { hd with userClosed := true } := by
    rw [getElem?_modify, hh]
    simp
  have ha : hd.allocated = false := eq_false_of_ne_true fun ha => hn (meets_of_allocated hh ha)
  apply not_allocated_fault
  simp only [State.uvClose, hopen, ha, if_true]

/-- The exit wrapper deletes the process, which is linked. -/
theorem exitReturn_breaks {s : State} (h : MemoryInv s) {i o e p : Nat} (hf : s.frame = .exit p) :
    ¬ Allocated { (((s.uvClose i .ttyClose).uvClose o .ttyClose).uvClose e .ttyClose).modify p
      fun hd => { hd with data := hd.data.delete, allocated := false } with frame := .idle } := by
  obtain ⟨hd, hh, hl, -⟩ := (((h.inv.frame p (by rw [hf]; rfl)).uvClose i .ttyClose
    fun _ => starts_close _).uvClose o .ttyClose fun _ => starts_close _).uvClose e .ttyClose
    fun _ => starts_close _
  have hmod := getElem?_modify (((s.uvClose i .ttyClose).uvClose o .ttyClose).uvClose e .ttyClose)
    p p fun hd => { hd with data := hd.data.delete, allocated := false }
  rw [hh, Option.map_some, if_pos rfl] at hmod
  exact not_allocated (List.mem_of_getElem? hmod) hl rfl

theorem not_released {s t : State} {l : Label} (h : MemoryInv s) (hG : ¬ ReleasedByClose s l)
    (ht : step s l = some t) : ¬ Allocated t := by
  cases step_cases ht with
  | callDeleted | acceptDeleted => exact not_allocated_fault rfl
  | pipeDeleted | acceptFailed =>
      exact not_allocated (List.mem_of_getElem? (getElem?_add_last s _)) rfl rfl
  | close hh => exact close_breaks hh hG _
  | exitReturn hf => exact exitReturn_breaks h hf
  | callAborted hl hh ha | callRefused hl hh ha =>
      exact absurd ((releasedByClose_callee hl).mpr (meets_of_allocated hh ha)) hG
  | tcpListen _ hh ha | signalKept _ _ hh ha | signalDropped _ _ hh ha | signalStart _ _ hh ha
  | signalStop hh ha | timerStop hh ha | streamRead _ hh ha | streamStop hh ha =>
      exact absurd (meets_of_allocated hh ha) hG
  | pipeRefused _ _ hi => exact absurd (.inl hi) hG
  | pipeOpen _ _ hr => exact absurd (.inr hr) hG
  | tcpAccept hh ha hc hr =>
      refine absurd ⟨hr, fun hd hh' => ?_⟩ hG
      cases hh.symm.trans hh'
      simp [ha, hc]
  | bindRefused | bindFailed | tcpBind | ttyFailed | ttyInit | signalRefused | signalInit | spawn
  | timerRun | timerRepeat | asyncFailed | asyncInit | streamEvent | connection | signalEvent
  | asyncEvent | runTimer | repeatTimer | taskReturn | childExit | walked | walk | finishClose
  | finishCast => exact absurd trivial hG

/-- A handle's memory is released by its close callback alone in exactly the runs
that take none of the ways past it. -/
theorem allocated_iff_releasedByClose (as : List Label) :
    machine.Always Allocated machine.init as ↔
      machine.Throughout ReleasedByClose machine.init as := by
  exact Machine.always_iff_throughout (fun _ => allocated_of_inv) (fun _ _ _ => memoryInv_step)
    (fun _ _ _ => not_released) memoryInv_init

/-- A child exits, and the loop's queue is left with a link into freed memory. -/
theorem exited_process_stays_linked :
    ¬ machine.Always Allocated machine.init [.spawn 0, .childExit 3, .exitReturn] := by
  decide

end HxcppLuv.Loop
