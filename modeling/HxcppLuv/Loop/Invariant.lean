import HxcppLuv.Loop.Step

/-!
What holds of the handles of a loop in every state: one that is open is linked,
the closing list names linked closing handles once each, and a callback that has
something to do at its end is about a linked handle. The lemmas follow the
operations `add`, `modify` and `uvClose` the steps are made of.
-/

namespace HxcppLuv.Loop

open State

def Each (P : Handle → Prop) (s : State) : Prop := ∀ hd ∈ s.handles, P hd

/-- The handle `h` is in the loop's queue, and satisfies `P`. -/
def LinkedWith (P : Handle → Prop) (s : State) (h : Nat) : Prop :=
  ∃ hd, s.handles[h]? = some hd ∧ hd.linked = true ∧ P hd

/-- What the user calls, if it is there at all, satisfies `p`. -/
def Meets (s : State) (h : Nat) (p : Handle → Bool) : Prop :=
  ∀ hd, s.handles[h]? = some hd → p hd = true

instance (s : State) (h : Nat) (p : Handle → Bool) : Decidable (Meets s h p) :=
  decidable_of_iff ((s.handles[h]?.all p) = true) (Option.all_eq_true p s.handles[h]?)

def Frame.subject : Frame → Option Nat
  | .idle => none
  | .task h | .exit h => some h

/-- What a frame's callback was started on. -/
def Frame.starts : Frame → Handle → Prop
  | .idle, _ => False
  | .task _, hd => hd.kind = .runTimer
  | .exit _, hd => hd.kind = .process ∧ hd.active = false

/-- An update that leaves a handle what it is and where it is in the loop. -/
structure Keeps (f : Handle → Handle) : Prop where
  linked : ∀ hd, (f hd).linked = hd.linked := by intro _; rfl
  closing : ∀ hd, (f hd).closing = hd.closing := by intro _; rfl
  kind : ∀ hd, (f hd).kind = hd.kind := by intro _; rfl
  idle : ∀ hd, hd.active = false → (f hd).active = false := by
    intro _ h
    first | exact h | rfl
  allocated : ∀ hd, (f hd).allocated = true → hd.allocated = true := by
    intro _ h
    first | exact h | cases h

theorem Keeps.starts {f : Handle → Handle} (hf : Keeps f) {frame : Frame} {hd : Handle}
    (h : frame.starts hd) : frame.starts (f hd) := by
  cases frame with
  | idle => exact h
  | task i => exact (hf.kind hd).trans h
  | exit i => exact ⟨(hf.kind hd).trans h.1, hf.idle hd h.2⟩

theorem starts_close {frame : Frame} {hd : Handle} (cb : CloseCb) (h : frame.starts hd) :
    frame.starts (hd.close cb) := by
  cases frame with
  | idle | task i => exact h
  | exit i => exact ⟨h.1, rfl⟩

section

variable {P : Handle → Prop} {s t : State} {h i : Nat} {hd : Handle} {f : Handle → Handle}

theorem getElem?_modify (s : State) (h i : Nat) (f : Handle → Handle) :
    (s.modify h f).handles[i]? = s.handles[i]?.map fun hd => if h = i then f hd else hd := by
  simp only [State.modify, List.getElem?_modify, Option.map_eq_map]

/-- A handle of the updated state is the updated one, or was there before. -/
theorem modify_cases (hi : (s.modify h f).handles[i]? = some hd) :
    (h = i ∧ ∃ e, s.handles[i]? = some e ∧ f e = hd) ∨ h ≠ i ∧ s.handles[i]? = some hd := by
  rw [getElem?_modify] at hi
  obtain ⟨e, he, heq⟩ := Option.map_eq_some_iff.mp hi
  by_cases hhi : h = i
  · rw [if_pos hhi] at heq
    exact .inl ⟨hhi, e, he, heq⟩
  · rw [if_neg hhi] at heq
    exact .inr ⟨hhi, heq ▸ he⟩

theorem getElem?_add (hi : s.handles[i]? = some hd) (new : Handle) :
    (s.add new).handles[i]? = some hd := by
  have hlt := (List.getElem?_eq_some_iff.mp hi).1
  rw [State.add, List.getElem?_append_left hlt, hi]

theorem getElem?_add_last (s : State) (new : Handle) :
    (s.add new).handles[s.handles.length]? = some new := by
  simp [State.add]

theorem Each.add (hs : Each P s) (hP : P hd) : Each P (s.add hd) := by
  intro e he
  rw [State.add, List.mem_append, List.mem_singleton] at he
  cases he with
  | inl he => exact hs e he
  | inr he => exact he ▸ hP

theorem Each.modify (hs : Each P s) (hf : ∀ hd, s.handles[h]? = some hd → P hd → P (f hd)) :
    Each P (s.modify h f) := by
  intro e he
  obtain ⟨i, hi⟩ := List.mem_iff_getElem?.mp he
  rcases modify_cases hi with ⟨rfl, d, hd, rfl⟩ | ⟨-, hi⟩
  · exact hf d hd (hs d (List.mem_of_getElem? hd))
  · exact hs e (List.mem_of_getElem? hi)

/-- What `uv_close` does: nothing to a handle that is gone or closing already. -/
inductive Closed (s : State) (h : Nat) (cb : CloseCb) : State → Prop where
  | absent (hh : s.handles[h]? = none) : Closed s h cb s
  | deleted (hd : Handle) (hh : s.handles[h]? = some hd) (ha : hd.allocated = false) :
      Closed s h cb { s with fault := true }
  | twice (hd : Handle) (hh : s.handles[h]? = some hd) (ha : hd.allocated = true)
      (hc : hd.closing = true) : Closed s h cb { s with aborted := true }
  | closes (hd : Handle) (hh : s.handles[h]? = some hd) (ha : hd.allocated = true)
      (hc : hd.closing = false) :
      Closed s h cb { s.modify h (Handle.close cb) with closing := h :: s.closing }

theorem uvClose_cases (s : State) (h : Nat) (cb : CloseCb) : Closed s h cb (s.uvClose h cb) := by
  simp only [State.uvClose]
  split
  · exact .absent ‹_›
  · split
    · exact .deleted _ ‹_› ‹_›
    · split
      · exact .twice _ ‹_› (eq_true_of_ne_false ‹_›) ‹_›
      · exact .closes _ ‹_› (eq_true_of_ne_false ‹_›) (eq_false_of_ne_true ‹_›)

theorem Each.uvClose (hs : Each P s) (cb : CloseCb)
    (hf : ∀ hd, s.handles[h]? = some hd → hd.allocated = true → hd.closing = false → P hd →
      P (hd.close cb)) : Each P (s.uvClose h cb) := by
  have hcases := uvClose_cases s h cb
  generalize s.uvClose h cb = u at hcases ⊢
  cases hcases with
  | absent | deleted | twice => exact hs
  | closes hd hh ha hc =>
      apply Each.modify (f := Handle.close cb) hs
      intro e he hP
      cases hh.symm.trans he
      exact hf hd hh ha hc hP

theorem LinkedWith.add (hs : LinkedWith P s h) (new : Handle) : LinkedWith P (s.add new) h := by
  obtain ⟨hd, hh, hl, hP⟩ := hs
  exact ⟨hd, getElem?_add hh new, hl, hP⟩

theorem LinkedWith.modify (hs : LinkedWith P s h) (i : Nat) {f : Handle → Handle}
    (hl : ∀ hd, (f hd).linked = hd.linked) (hP : ∀ hd, P hd → P (f hd)) :
    LinkedWith P (s.modify i f) h := by
  obtain ⟨hd, hh, hl', hp⟩ := hs
  refine ⟨if i = h then f hd else hd, by rw [getElem?_modify, hh, Option.map_some], ?_, ?_⟩
  · split
    · rw [hl, hl']
    · exact hl'
  · split
    · exact hP hd hp
    · exact hp

theorem LinkedWith.uvClose (hs : LinkedWith P s h) (i : Nat) (cb : CloseCb)
    (hP : ∀ hd, P hd → P (hd.close cb)) : LinkedWith P (s.uvClose i cb) h := by
  have hcases := uvClose_cases s i cb
  generalize s.uvClose i cb = u at hcases ⊢
  cases hcases with
  | absent | deleted | twice => exact hs
  | closes => exact hs.modify (f := Handle.close cb) i (fun _ => rfl) hP

end

/-- What adding a fresh handle keeps, spawning keeps. -/
theorem spawn_induction {P : State → Prop} {s : State} (hs : P s) (result : Int)
    (hadd : ∀ {s hd}, P s → hd.linked = true → hd.closing = false → hd.allocated = true →
      P (s.add hd))
    (huse : ∀ {s} h expects nullOk found, P s → P (s.use h expects nullOk found)) :
    P (s.spawn result) := by
  have hpipe (s : State) (given : Bool) (hs : P s) : P (s.add (stdioPipe given)) :=
    hadd hs rfl rfl rfl
  have hpipes := hpipe _ (decide (0 ≤ result)) (hpipe _ (decide (0 ≤ result)) (hpipe s false hs))
  simp only [State.spawn]
  split
  · exact hadd hpipes rfl rfl rfl
  · exact huse _ _ _ _ (huse _ _ _ _ (huse _ _ _ _ (hadd hpipes rfl rfl rfl)))

structure Inv (s : State) : Prop where
  opened : Each (fun hd => hd.allocated = true → hd.closing = false → hd.linked = true) s
  pending : ∀ h ∈ s.closing, LinkedWith (fun hd => hd.closing = true) s h
  nodup : s.closing.Nodup
  frame : ∀ h, s.frame.subject = some h → LinkedWith s.frame.starts s h

namespace Inv

variable {s t : State} {h : Nat} {hd : Handle} {f : Handle → Handle}

theorem init : Inv machine.init where
  opened e he := by cases he
  pending h hh := by cases hh
  nodup := List.nodup_nil
  frame h hh := by cases hh

theorem congr (hs : Inv s) (hhandles : t.handles = s.handles) (hclosing : t.closing = s.closing)
    (hframe : t.frame = s.frame) : Inv t := by
  obtain ⟨handles, closing, frame, _, _, _, _, _⟩ := t
  cases hhandles
  cases hclosing
  cases hframe
  exact ⟨hs.opened, hs.pending, hs.nodup, hs.frame⟩

theorem add (hs : Inv s) (hl : hd.linked = true) : Inv (s.add hd) where
  opened := hs.opened.add fun _ _ => hl
  pending h hh := (hs.pending h hh).add hd
  nodup := hs.nodup
  frame h hh := (hs.frame h hh).add hd

theorem modify (hs : Inv s) (hf : Keeps f) : Inv (s.modify h f) where
  opened := hs.opened.modify fun hd _ hP ha hc => by
    rw [hf.linked]
    exact hP (hf.allocated hd ha) (hf.closing hd ▸ hc)
  pending i hi := (hs.pending i hi).modify h hf.linked fun hd hc => (hf.closing hd).trans hc
  nodup := hs.nodup
  frame i hi := (hs.frame i hi).modify h hf.linked fun _ => hf.starts

theorem use (hs : Inv s) (h : Nat) (expects : Tag) (nullOk : Bool) (found : Data) :
    Inv (s.use h expects nullOk found) :=
  hs.congr rfl rfl rfl

theorem store (hs : Inv s) (h : Nat) (old : Data) (p : Payload) : Inv (s.store h old p) :=
  (hs.modify (h := h) (f := fun hd => { hd with data := .live p }) {}).congr rfl rfl rfl

/-- A handle is put on the closing list while it is open, so only once. -/
theorem uvClose (hs : Inv s) (h : Nat) (cb : CloseCb) : Inv (s.uvClose h cb) := by
  have hcases := uvClose_cases s h cb
  generalize s.uvClose h cb = u at hcases ⊢
  cases hcases with
  | absent => exact hs
  | deleted | twice => exact hs.congr rfl rfl rfl
  | closes hd hh ha hc =>
      have hl := hs.opened hd (List.mem_of_getElem? hh) ha hc
      have hmod {P : Handle → Prop} {i : Nat} (hi : LinkedWith P s i)
          (hP : ∀ hd, P hd → P (hd.close cb)) : LinkedWith P (s.modify h (Handle.close cb)) i :=
        hi.modify (f := Handle.close cb) h (fun _ => rfl) hP
      refine ⟨?_, fun i hi => ?_, List.nodup_cons.mpr ⟨fun hmem => ?_, hs.nodup⟩, fun i hi => ?_⟩
      · exact hs.opened.modify (f := Handle.close cb) fun _ _ _ _ hcl => by cases hcl
      · cases List.mem_cons.mp hi with
        | inl hi =>
            subst hi
            exact ⟨hd.close cb, by rw [getElem?_modify, hh]; simp, hl, rfl⟩
        | inr hi => exact hmod (hs.pending i hi) fun _ _ => rfl
      · obtain ⟨hd', hh', -, hc'⟩ := hs.pending h hmem
        rw [hh] at hh'
        cases hh'
        rw [hc] at hc'
        cases hc'
      · exact hmod (hs.frame i hi) fun _ => starts_close cb

theorem setFrame (hs : Inv s) {frame : Frame}
    (hl : ∀ h, frame.subject = some h → LinkedWith frame.starts s h) :
    Inv { s with frame := frame } :=
  ⟨hs.opened, hs.pending, hs.nodup, hl⟩

theorem setIdle (hs : Inv s) : Inv { s with frame := .idle } :=
  hs.setFrame fun _ hf => by cases hf

/-- A callback with something to do at its end starts on an open handle. -/
theorem enter (hs : Inv s) {frame : Frame} (hsub : frame.subject = some h)
    (hh : s.handles[h]? = some hd) (ha : hd.allocated = true) (hc : hd.closing = false)
    (hstart : frame.starts { hd with active := false }) :
    Inv { s.modify h fun hd => { hd with active := false } with frame := frame } := by
  apply (hs.modify {}).setFrame
  intro i hi
  cases hsub.symm.trans hi
  refine ⟨{ hd with active := false }, ?_, hs.opened hd (List.mem_of_getElem? hh) ha hc, hstart⟩
  rw [getElem?_modify, hh]
  simp

/-- `uv__finish_close` is the one step that unlinks a handle. -/
theorem finish (hs : Inv s) (hidle : s.frame = .idle) (hmem : h ∈ s.closing) :
    Inv { s.modify h Handle.finish with closing := s.closing.erase h } where
  opened := hs.opened.modify (f := Handle.finish) fun hd hh _ _ hc => by
    obtain ⟨hd', hh', -, hc'⟩ := hs.pending h hmem
    rw [hh] at hh'
    cases hh'
    rw [show hd.closing = false from hc] at hc'
    cases hc'
  pending i hi := by
    have hmem := List.mem_of_mem_erase hi
    have hne : h ≠ i := fun he => (hs.nodup.mem_erase_iff.mp hi).1 he.symm
    obtain ⟨hd, hh, hl, hc⟩ := hs.pending i hmem
    refine ⟨hd, ?_, hl, hc⟩
    change (s.modify h Handle.finish).handles[i]? = _
    rw [getElem?_modify, hh, Option.map_some, if_neg hne]
  nodup := hs.nodup.erase h
  frame i hf := by
    change s.frame.subject = some i at hf
    rw [hidle] at hf
    cases hf

theorem spawn (hs : Inv s) (result : Int) : Inv (s.spawn result) :=
  spawn_induction hs result (fun hs hl _ _ => hs.add hl) fun _ _ _ _ hs => hs.use _ _ _ _

theorem step {l : Label} (hs : Inv s) (ht : Loop.step s l = some t) : Inv t := by
  cases step_cases ht with
  | callDeleted | callAborted | acceptDeleted | ttyFailed | asyncFailed =>
      exact hs.congr rfl rfl rfl
  | callRefused | pipeRefused | bindRefused | signalRefused | walked => exact hs
  | pipeDeleted | pipeOpen | tcpBind | acceptFailed | tcpAccept | ttyInit | signalInit | timerRun
  | timerRepeat | asyncInit => exact hs.add rfl
  | bindFailed => exact (hs.add rfl).uvClose _ _
  | tcpListen | signalStart => exact (hs.store _ _ _).modify {}
  | signalKept => exact hs.store _ _ _
  | signalDropped | timerStop | streamStop => exact hs.modify {}
  | signalStop | streamRead | streamEvent => exact (hs.use _ _ _ _).modify {}
  | spawn result => exact hs.spawn result
  | close => exact (hs.modify {}).uvClose _ _
  | connection | signalEvent | asyncEvent | repeatTimer => exact hs.use _ _ _ _
  | @runTimer h hd hh ha hc hk =>
      have hstart : (Frame.task h).starts { hd with active := false } := hk
      exact (hs.enter rfl hh ha hc hstart).congr rfl rfl rfl
  | @childExit h hd hh ha hc hk hr =>
      have hstart : (Frame.exit h).starts { hd with active := false } := ⟨hk, rfl⟩
      exact (hs.enter rfl hh ha hc hstart).congr rfl rfl rfl
  | taskReturn => exact ((hs.uvClose _ _).modify {}).setIdle
  | exitReturn => exact ((((hs.uvClose _ _).uvClose _ _).uvClose _ _).modify {}).setIdle
  | walk => exact hs.uvClose _ _
  | finishClose hf hmem => exact hs.finish hf hmem
  | finishCast hf hmem => exact (hs.finish hf hmem).use _ _ _ _

end Inv

end HxcppLuv.Loop
