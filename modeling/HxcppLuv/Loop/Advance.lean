import HxcppLuv.Loop.Invariant

/-!
What a step of the loop does not take back: a handle that is closing stays so, one that
is unlinked or deleted is not linked or allocated again, and one that is closing is on
the closing list until it is unlinked.
-/

namespace HxcppLuv.Loop

open State

structure Handle.Later (hd hd' : Handle) : Prop where
  linked : hd'.linked = true → hd.linked = true
  allocated : hd'.allocated = true → hd.allocated = true
  closing : hd.closing = true → hd'.closing = true

theorem Handle.Later.refl (hd : Handle) : hd.Later hd := ⟨id, id, id⟩

theorem Handle.Later.trans {hd hd' hd'' : Handle} (h : hd.Later hd') (h' : hd'.Later hd'') :
    hd.Later hd'' :=
  ⟨h.linked ∘ h'.linked, h.allocated ∘ h'.allocated, h'.closing ∘ h.closing⟩

theorem Keeps.later {f : Handle → Handle} (hf : Keeps f) (hd : Handle) : hd.Later (f hd) :=
  ⟨fun h => hf.linked hd ▸ h, hf.allocated hd, fun h => (hf.closing hd).trans h⟩

theorem later_close (cb : CloseCb) (hd : Handle) : hd.Later (hd.close cb) :=
  ⟨id, id, fun _ => rfl⟩

theorem later_finish (hd : Handle) : hd.Later hd.finish :=
  ⟨nofun, fun h => (Bool.and_eq_true_iff.mp h).1, id⟩

/-- The handles of a later state are those of an earlier one, and new ones. -/
def Advances (s t : State) : Prop :=
  ∀ (h : Nat) (hd : Handle), s.handles[h]? = some hd →
    ∃ hd', t.handles[h]? = some hd' ∧ hd.Later hd'

/-- The handle is on the closing list while it is closing and linked. -/
def Listed (s : State) : Prop :=
  ∀ (h : Nat) (hd : Handle), s.handles[h]? = some hd → hd.linked = true → hd.closing = true →
    h ∈ s.closing

section

variable {s t u : State} {h : Nat} {hd : Handle} {f : Handle → Handle}

theorem Advances.refl (s : State) : Advances s s := fun _ hd hh => ⟨hd, hh, .refl hd⟩

theorem Advances.trans (hst : Advances s t) (htu : Advances t u) : Advances s u := by
  intro h hd hh
  obtain ⟨hd', hh', hl⟩ := hst h hd hh
  obtain ⟨hd'', hh'', hl'⟩ := htu h hd' hh'
  exact ⟨hd'', hh'', hl.trans hl'⟩

/-- An old handle of the later state, as it was. -/
theorem Advances.back (hst : Advances s t) (hlt : h < s.handles.length)
    (hh : t.handles[h]? = some hd) : ∃ e, s.handles[h]? = some e ∧ e.Later hd := by
  obtain ⟨hd', hh', hl⟩ := hst h _ (List.getElem?_eq_getElem hlt)
  cases hh.symm.trans hh'
  exact ⟨_, List.getElem?_eq_getElem hlt, hl⟩

theorem Advances.congr (hst : Advances s t) (hhandles : u.handles = t.handles) : Advances s u := by
  intro h hd hh
  rw [hhandles]
  exact hst h hd hh

theorem Advances.add (hst : Advances s t) (new : Handle) : Advances s (t.add new) := by
  intro h hd hh
  obtain ⟨hd', hh', hl⟩ := hst h hd hh
  exact ⟨hd', getElem?_add hh' new, hl⟩

theorem Advances.modify (hst : Advances s t) (hf : ∀ hd : Handle, hd.Later (f hd)) :
    Advances s (t.modify h f) := by
  intro i hd hh
  obtain ⟨hd', hh', hl⟩ := hst i hd hh
  refine ⟨if h = i then f hd' else hd', by rw [getElem?_modify, hh', Option.map_some], ?_⟩
  split
  · exact hl.trans (hf hd')
  · exact hl

theorem Advances.uvClose (hst : Advances s t) (h : Nat) (cb : CloseCb) :
    Advances s (t.uvClose h cb) := by
  have hcases := uvClose_cases t h cb
  generalize t.uvClose h cb = u at hcases ⊢
  cases hcases with
  | absent | deleted | twice => exact hst
  | closes => exact (hst.modify (h := h) (later_close cb)).congr rfl

theorem Listed.congr (hs : Listed s) (hhandles : t.handles = s.handles)
    (hclosing : t.closing = s.closing) : Listed t := by
  intro h hd hh hl hc
  rw [hclosing]
  exact hs h hd (hhandles ▸ hh) hl hc

theorem Listed.add (hs : Listed s) (hc : hd.closing = false) : Listed (s.add hd) := by
  intro h hd' hh hl hc'
  rw [State.add, List.getElem?_append] at hh
  split at hh
  · exact hs h hd' hh hl hc'
  · rw [List.getElem?_singleton] at hh
    split at hh
    · cases hh
      rw [hc] at hc'
      cases hc'
    · cases hh

theorem Listed.modify (hs : Listed s) (hf : Keeps f) : Listed (s.modify h f) := by
  intro i hd hh hl hc
  rcases modify_cases hh with ⟨-, e, he, rfl⟩ | ⟨-, hh⟩
  · exact hs i e he (hf.linked e ▸ hl) (hf.closing e ▸ hc)
  · exact hs i hd hh hl hc

theorem Listed.uvClose (hs : Listed s) (h : Nat) (cb : CloseCb) : Listed (s.uvClose h cb) := by
  have hcases := uvClose_cases s h cb
  generalize s.uvClose h cb = u at hcases ⊢
  cases hcases with
  | absent => exact hs
  | deleted | twice => exact hs.congr rfl rfl
  | closes =>
      intro i hd hh hl hc
      rcases modify_cases (f := Handle.close cb) hh with ⟨rfl, -⟩ | ⟨-, hh⟩
      · exact List.mem_cons_self
      · exact List.mem_cons_of_mem h (hs i hd hh hl hc)

theorem Listed.finish (hs : Listed s) :
    Listed { s.modify h Handle.finish with closing := s.closing.erase h } := by
  intro i hd hh hl hc
  rcases modify_cases (f := Handle.finish) hh with ⟨-, e, -, rfl⟩ | ⟨hi, hh⟩
  · cases hl
  · exact (List.mem_erase_of_ne (Ne.symm hi)).mpr (hs i hd hh hl hc)

end

theorem advances_step {s t : State} {l : Label} (ht : Loop.step s l = some t) : Advances s t := by
  have hmod {h : Nat} {f : Handle → Handle} (hf : Keeps f := by exact {}) :
      Advances s (s.modify h f) := (Advances.refl s).modify hf.later
  cases step_cases ht with
  | callDeleted | callAborted | acceptDeleted | ttyFailed | asyncFailed | callRefused | pipeRefused
  | bindRefused | signalRefused | walked | connection | signalEvent | asyncEvent | repeatTimer =>
      exact Advances.refl s
  | pipeDeleted | pipeOpen | tcpBind | acceptFailed | tcpAccept | ttyInit | signalInit | timerRun
  | timerRepeat | asyncInit => exact (Advances.refl s).add _
  | bindFailed => exact ((Advances.refl s).add _).uvClose _ _
  | tcpListen | signalStart =>
      refine Advances.modify (Advances.congr (hmod (f := fun hd => { hd with data := _ })) rfl) ?_
      exact fun hd => ⟨id, id, id⟩
  | signalKept => exact (hmod (f := fun hd => { hd with data := _ })).congr rfl
  | signalDropped | timerStop | streamStop | signalStop | streamRead | streamEvent | runTimer
  | childExit => exact hmod
  | spawn result =>
      exact spawn_induction (.refl s) result (fun hs _ _ _ => hs.add _) fun _ _ _ _ hs => hs
  | close => exact Advances.uvClose hmod _ _
  | taskReturn =>
      refine Advances.congr (Advances.modify ((Advances.refl s).uvClose _ _) fun hd => ?_) rfl
      exact ⟨id, id, id⟩
  | exitReturn =>
      refine Advances.congr (Advances.modify ((((Advances.refl s).uvClose _ _).uvClose _ _).uvClose
        _ _) fun hd => ?_) rfl
      exact ⟨id, nofun, id⟩
  | walk => exact (Advances.refl s).uvClose _ _
  | finishClose | finishCast => exact ((Advances.refl s).modify later_finish).congr rfl

theorem Listed.step {s t : State} {l : Label} (hs : Listed s) (ht : Loop.step s l = some t) :
    Listed t := by
  cases step_cases ht with
  | callDeleted | callAborted | acceptDeleted | ttyFailed | asyncFailed => exact hs.congr rfl rfl
  | callRefused | pipeRefused | bindRefused | signalRefused | walked => exact hs
  | connection | signalEvent | asyncEvent | repeatTimer => exact hs.congr rfl rfl
  | pipeDeleted | pipeOpen | tcpBind | acceptFailed | tcpAccept | ttyInit | signalInit | timerRun
  | timerRepeat | asyncInit => exact hs.add rfl
  | bindFailed => exact (hs.add rfl).uvClose _ _
  | tcpListen | signalStart =>
      have hstore (h : Nat) (old : Data) (p : Payload) : Listed (s.store h old p) :=
        (hs.modify (h := h) (f := fun hd => { hd with data := .live p }) {}).congr rfl rfl
      exact (hstore _ _ _).modify {}
  | @signalKept h _ _ hd =>
      exact (hs.modify (h := h) (f := fun hd => { hd with data := .live .callbackRoot }) {}).congr
        rfl rfl
  | signalDropped | timerStop | streamStop => exact hs.modify {}
  | signalStop | streamRead | streamEvent =>
      exact Listed.modify (hs.congr (t := s.use _ _ _ _) rfl rfl) {}
  | runTimer | childExit =>
      exact (Listed.modify (hs.congr (t := s.use _ _ _ _) rfl rfl) {}).congr rfl rfl
  | spawn result =>
      exact spawn_induction hs result (fun hs _ hc _ => hs.add hc)
        fun _ _ _ _ hs => hs.congr rfl rfl
  | close => exact (hs.modify {}).uvClose _ _
  | taskReturn => exact ((hs.uvClose _ _).modify {}).congr rfl rfl
  | exitReturn => exact ((((hs.uvClose _ _).uvClose _ _).uvClose _ _).modify {}).congr rfl rfl
  | walk => exact hs.uvClose _ _
  | finishClose => exact hs.finish
  | finishCast => exact hs.finish.congr rfl rfl

theorem listed_init : Listed machine.init := by
  intro h hd hh
  cases hh

end HxcppLuv.Loop
