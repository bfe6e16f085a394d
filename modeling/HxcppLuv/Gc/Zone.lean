import HxcppLuv.Gc.Model

/-!
The two rules on every thread. The free zone is entered and left in turn and Haxe code
runs outside it, whatever libuv calls back and from where. The set of roots is changed
by a thread the collector can stop, but for the close callbacks, which run in the zone
of `uv_run`, and `onCallback`, whose root outlives its registration.
-/

namespace HxcppLuv.Gc

/-- A collection waits for the thread. -/
def Status.stoppable (z : Status) : Bool := z.registered && !z.inFree

/-- The functions that change the set of roots where a collection does not wait. -/
def Fn.unstopped : Fn → Bool
  | .callback (.streamClose data) => data
  | .callback .ttyClose | .callback .pipeClose | .callback .timerClose | .callback .asyncClose
  | .work => true
  | .op _ _ | .callback _ => false

/-- Which of the two a function is shows at each of its root changes. -/
def Seen (f : Fn) (z : Status) (a : Act) : Prop := a = .root → z.stoppable = !f.unstopped

instance (f : Fn) (z : Status) (a : Act) : Decidable (Seen f z a) :=
  inferInstanceAs (Decidable (a = .root → z.stoppable = !f.unstopped))

/-- Every function checks from where it is called. -/
theorem discipline_checked : discipline.Checked Seen := by
  intro p f z hmay hruns
  obtain ⟨inFree, registered⟩ := z
  cases p with
  | haxe =>
      obtain ⟨rfl, rfl⟩ : inFree = false ∧ registered = true := by
        simpa [discipline] using hruns
      cases f with
      | op o ok => cases o <;> cases ok <;> exact ⟨rfl, by decide⟩
      | callback | work => cases hmay
  | uvRun =>
      obtain ⟨rfl, rfl⟩ : inFree = true ∧ registered = true := by simpa [discipline] using hruns
      cases f with
      | callback c =>
          cases c with
          | fileRead b | streamRead b | streamClose b => cases b <;> exact ⟨rfl, by decide⟩
          | _ => exact ⟨rfl, by decide⟩
      | op | work => cases hmay
  | uvReadStart =>
      obtain ⟨rfl, rfl⟩ : inFree = true ∧ registered = true := by simpa [discipline] using hruns
      cases f with
      | callback c =>
          cases c with
          | alloc => exact ⟨rfl, by decide⟩
          | _ => cases hmay
      | op | work => cases hmay

/-- Every thread is well typed and has broken no rule. -/
def Inv (s : List GcThread) : Prop :=
  ∀ t ∈ s, discipline.Typed Seen t.status t.stack ∧ t.fault = false

theorem inv_init : Inv machine.init := by
  intro t ht
  cases ht

theorem inv_append {s : List GcThread} {t : GcThread} (h : Inv s)
    (ht : discipline.Typed Seen t.status t.stack ∧ t.fault = false) : Inv (s ++ [t]) := by
  intro u hu
  cases List.mem_append.mp hu with
  | inl hu => exact h u hu
  | inr hu => exact List.mem_singleton.mp hu ▸ ht

theorem inv_step {s t : List GcThread} {l : Label} (h : Inv s)
    (hs : machine.step s l = some t) : Inv t := by
  cases l with
  | haxeThread =>
      cases hs
      exact inv_append h ⟨⟨rfl, trivial⟩, rfl⟩
  | poolThread =>
      cases hs
      exact inv_append h ⟨⟨by decide, ⟨false, false⟩, rfl, trivial⟩, rfl⟩
  | move i m =>
      obtain ⟨u, hu, hmove⟩ := Option.bind_eq_some_iff.mp hs
      obtain ⟨u', hu', rfl⟩ := Option.map_eq_some_iff.mp hmove
      intro v hv
      cases List.mem_or_eq_of_mem_set hv with
      | inl hv => exact h v hv
      | inr hv =>
          obtain ⟨htyped, hfault⟩ := h u (List.mem_of_getElem? hu)
          exact hv ▸ Discipline.typed_move discipline_checked htyped hfault hu'

/-- The zone was always left before it was entered again and entered before it was
left; Haxe code runs outside it and libuv's loop inside. -/
structure Disciplined (t : GcThread) : Prop where
  toggles : t.fault = false
  haxe : ∀ fs, t.stack = .place .haxe :: fs → t.status.inFree = false
  uvRun : ∀ fs, t.stack = .place .uvRun :: fs → t.status.inFree = true

theorem disciplined_of_inv {s : List GcThread} (h : Inv s) {t : GcThread} (ht : t ∈ s) :
    Disciplined t := by
  obtain ⟨htyped, hfault⟩ := h t ht
  have hsound := Discipline.sound_of_typed htyped hfault
  refine ⟨hfault, fun fs hs => ?_, fun fs hs => ?_⟩
  · have hruns := hsound.place _ _ hs
    simp only [discipline, Bool.and_eq_true, Bool.not_eq_true'] at hruns
    exact hruns.1
  · have hruns := hsound.place _ _ hs
    simp only [discipline, Bool.and_eq_true] at hruns
    exact hruns.1

/-- In every run the threads keep the discipline of the free zone. -/
theorem zones_disciplined (as : List Label) :
    machine.Always (fun s => ∀ t ∈ s, Disciplined t) machine.init as :=
  Machine.always_of_step (fun _ h _ => disciplined_of_inv h) (fun _ _ _ => inv_step) inv_init

/-- The root change a step makes: the function it is in, and the status of the thread. -/
def rootChange (s : List GcThread) : Label → Option (Fn × Status)
  | .move i .instr =>
      s[i]?.bind fun t =>
        match t.stack with
        | .code f (.act .root :: _) :: _ => some (f, t.status)
        | _ => none
  | _ => none

/-- A root change is made by a thread the collector can stop. -/
def Stopped (s : List GcThread) (l : Label) : Prop :=
  (rootChange s l).all (fun p => p.2.stoppable) = true

/-- A root change is neither in a close callback nor in `onCallback`. -/
def Attended (s : List GcThread) (l : Label) : Prop :=
  (rootChange s l).all (fun p => !p.1.unstopped) = true

instance : ∀ s l, Decidable (Stopped s l) := fun _ _ => inferInstanceAs (Decidable (_ = true))

theorem seen_of_rootChange {s : List GcThread} (h : Inv s) {l : Label} {f : Fn} {z : Status}
    (hc : rootChange s l = some (f, z)) : z.stoppable = !f.unstopped := by
  simp only [rootChange] at hc
  split at hc
  · obtain ⟨t, ht, hc⟩ := Option.bind_eq_some_iff.mp hc
    split at hc
    · rename_i hstack
      cases hc
      obtain ⟨htyped, -⟩ := h t (List.mem_of_getElem? ht)
      rw [hstack] at htyped
      exact htyped.1.1 rfl
    · cases hc
  · cases hc

/-- The set of roots is only changed by threads a collection waits for in exactly the
runs that get to no root change in a close callback or at the end of `onCallback`. -/
theorem stopped_iff_attended (as : List Label) :
    machine.Throughout Stopped machine.init as ↔ machine.Throughout Attended machine.init as := by
  apply Machine.throughout_congr (fun _ _ _ => inv_step) _ inv_init
  intro s l t h _
  simp only [Stopped, Attended]
  cases hc : rootChange s l with
  | none => rfl
  | some p =>
      have := seen_of_rootChange h hc
      simp only [Option.all_some, this]

/-- A stream is closed: its `StreamData` is deleted in the free zone of `runLoop`. -/
theorem close_unroots_in_free_zone : ¬ machine.Throughout Stopped machine.init
    [.haxeThread, .move 0 (.call (.op .runLoop true)), .move 0 .instr, .move 0 .instr,
      .move 0 (.call (.callback (.streamClose true))), .move 0 .instr] := by
  decide

end HxcppLuv.Gc
