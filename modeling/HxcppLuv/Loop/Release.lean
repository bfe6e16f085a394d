import HxcppLuv.Loop.Shutdown

/-!
What is left of a loop that was shut down and freed. The bindings delete a handle and
its payload in the close callback of their own close function for the kind. The walk of
`shutdownLoop` passes no callback, so what is still open then is never deleted; and of
what the bindings do close, a signal forgets the root it holds.
-/

namespace HxcppLuv.Loop.Shutdown

/-- Every handle and every payload is deleted, each once and as what it is, and the
requests hold nothing. -/
structure AllReleased (s : State) : Prop where
  handles : ∀ hd ∈ s.loop.handles, hd.allocated = false ∧ hd.data.held = []
  lost : s.loop.lost = []
  stray : s.loop.stray = []
  casts : CastsSound s.loop
  fault : s.loop.fault = false
  requests : s.requests.held = 0

def Released (s : State) : Prop :=
  match s.stage with
  | .running | .shutting _ => True
  | .returned | .freed _ => AllReleased s

/-- No constructor forgets what it made, no payload is stored over another, and a signal
that is closed has been stopped. -/
def Unspilled (s : Loop.State) : Loop.Label → Prop
  | .ttyInit result | .asyncInit result => 0 ≤ result
  | .tcpListen h result => 0 ≤ result → Meets s h fun hd => hd.closing || hd.data.held = []
  | .signalStart h signum registered => Meets s h fun hd =>
      hd.closing || hd.data.held = [] || signum = 0 || (signum ≠ hd.signum && registered < 0)
  | .close h => Meets s h fun hd => hd.closing || hd.kind ≠ .signal || hd.data.held = []
  | _ => True

instance (s : Loop.State) : DecidablePred (ReleasedByClose s)
  | .pipeOpen init result => inferInstanceAs (Decidable (init < 0 ∨ 0 ≤ result))
  | .tcpAccept h result => inferInstanceAs (Decidable (0 ≤ result ∧ Meets s h _))
  | .tcpListen h _ | .signalStart h _ _ | .signalStop h | .timerStop h | .streamRead h _
  | .streamStop h | .close h => inferInstanceAs (Decidable (Meets s h _))
  | .exitReturn => isFalse id
  | .tcpBind _ _ _ | .ttyInit _ | .signalInit _ | .spawn _ | .timerRun | .timerRepeat
  | .asyncInit _ | .streamEvent _ _ | .connection _ | .signalEvent _ | .asyncEvent _
  | .timerEvent _ | .taskReturn | .childExit _ | .walk _ | .finishClose _ => isTrue trivial

instance (s : Loop.State) : DecidablePred (Unspilled s)
  | .ttyInit result | .asyncInit result => inferInstanceAs (Decidable (0 ≤ result))
  | .tcpListen h result => inferInstanceAs (Decidable (0 ≤ result → Meets s h _))
  | .signalStart h _ _ | .close h => inferInstanceAs (Decidable (Meets s h _))
  | .pipeOpen _ _ | .tcpAccept _ _ | .signalStop _ | .timerStop _ | .streamRead _ _
  | .streamStop _ | .exitReturn | .tcpBind _ _ _ | .signalInit _ | .spawn _ | .timerRun
  | .timerRepeat | .streamEvent _ _ | .connection _ | .signalEvent _ | .asyncEvent _
  | .timerEvent _ | .taskReturn | .childExit _ | .walk _ | .finishClose _ => isTrue trivial

/-- What the user opens he closes, before `shutdownLoop` walks or in the `uv_run` of it. -/
def Tidy (s : State) : Label → Prop
  | .loop l => WellUsed s.loop l ∧ ReleasedByClose s.loop l ∧ Unspilled s.loop l
  | .shutdownLoop => ∀ hd ∈ s.loop.handles, hd.linked = true → hd.closing = true
  | .leave => Drained s .leave
  | _ => True

instance (s : State) : DecidablePred (Tidy s)
  | .loop l => inferInstanceAs (Decidable (WellUsed s.loop l ∧ ReleasedByClose s.loop l ∧ _))
  | .shutdownLoop => inferInstanceAs (Decidable (∀ hd ∈ s.loop.handles, _ → _))
  | .leave => inferInstanceAs (Decidable (Drained s .leave))
  | .request _ | .ref _ | .unref _ | .stopLoop | .runReturns | .freeLoop => isTrue trivial

/-- A handle that is unlinked is deleted with its payload, and one that is closing will
be. -/
structure Settling (hd : Handle) : Prop where
  freed : hd.linked = false → hd.allocated = false ∧ hd.data.held = []
  frees : hd.closing = true → hd.linked = true → hd.closeCb ≠ .null ∧
    (hd.closeCb.casts = none → hd.data.held = [])

theorem held_delete (d : Data) : d.delete.held = [] := by
  cases d with
  | null | live | dead => rfl

namespace Settling

variable {hd : Handle}

theorem of_open (hl : hd.linked = true) (hc : hd.closing = false) : Settling hd := by
  constructor
  · intro h
    rw [hl] at h
    cases h
  · intro h
    rw [hc] at h
    cases h

theorem close (h : Settling hd) {cb : CloseCb} (hcb : cb ≠ .null)
    (hdata : cb.casts = none → hd.data.held = []) : Settling (hd.close cb) where
  freed := h.freed
  frees _ _ := ⟨hcb, hdata⟩

/-- The close callback deletes the handle, and what it casts. -/
theorem finish (h : Settling hd) (hc : hd.closing = true) (hl : hd.linked = true) :
    Settling hd.finish where
  freed _ := by
    obtain ⟨hcb, hdata⟩ := h.frees hc hl
    refine ⟨by simp [Handle.finish, hcb], ?_⟩
    simp only [Handle.finish]
    split
    · exact held_delete hd.data
    · rename_i hcasts
      exact hdata (by simpa using hcasts)
  frees _ hl' := by cases hl'

/-- An update of what is watched, or that deletes the payload. -/
theorem update (h : Settling hd) {hd' : Handle} (hl : hd'.linked = hd.linked)
    (ha : hd'.allocated = hd.allocated) (hc : hd'.closing = hd.closing)
    (hcb : hd'.closeCb = hd.closeCb) (hdata : hd'.data = hd.data ∨ hd'.data.held = []) :
    Settling hd' where
  freed h' := by
    obtain ⟨hfreed, hheld⟩ := h.freed (hl ▸ h')
    exact ⟨ha ▸ hfreed, hdata.elim (fun hd => hd ▸ hheld) id⟩
  frees hc' hl' := by
    obtain ⟨hnull, hheld⟩ := h.frees (hc ▸ hc') (hl ▸ hl')
    exact ⟨hcb ▸ hnull, fun hcasts => hdata.elim (fun hd => hd ▸ hheld (hcb ▸ hcasts)) id⟩

end Settling

section

variable {s t : Loop.State} {h : Nat} {hd : Handle} {f : Handle → Handle}

theorem settling_open (hinv : Inv s) (hh : s.handles[h]? = some hd) (ha : hd.allocated = true)
    (hc : hd.closing = false) (hf : ∀ hd, (f hd).linked = hd.linked := by intro _; rfl)
    (hf' : ∀ hd, (f hd).closing = hd.closing := by intro _; rfl) :
    ∀ hd, s.handles[h]? = some hd → Settling hd → Settling (f hd) := by
  intro hd' hh' _
  cases hh.symm.trans hh'
  have hl := hinv.opened hd (List.mem_of_getElem? hh) ha hc
  exact .of_open ((hf hd).trans hl) ((hf' hd).trans hc)

/-- What is stored on an open handle will be deleted when it is closed. -/
theorem settling_store (hs : Each Settling s) (hinv : Inv s) (hh : s.handles[h]? = some hd)
    (ha : hd.allocated = true) (hc : hd.closing = false) (p : Payload) :
    Each Settling (s.store h hd.data p) :=
  hs.modify (settling_open hinv hh ha hc)

theorem settling_update (hs : Each Settling s)
    (hf : ∀ hd, Settling hd → Settling (f hd)) : Each Settling (s.modify h f) :=
  hs.modify fun hd _ => hf hd

theorem settling_spawn (hs : Each Settling s) (result : Int) : Each Settling (s.spawn result) :=
  spawn_induction hs result (fun hs hl hc _ => hs.add (.of_open hl hc)) fun _ _ _ _ hs => hs

theorem settling_bindFailed (hs : Each Settling s) :
    Each Settling ((s.add (Handle.init .server)).uvClose s.handles.length .deleteHandle) := by
  apply (hs.add (.of_open rfl rfl)).uvClose
  intro hd hh _ _ hset
  cases (getElem?_add_last s _).symm.trans hh
  exact hset.close nofun fun _ => rfl

/-- The close functions of the bindings delete what they find, or were told of nothing. -/
theorem settling_close (hs : Each Settling s) {cb : CloseCb}
    (hh : s.handles[h]? = some hd) (hcb : hd.kind.closeCb = some cb)
    (hG : Unspilled s (.close h)) :
    Each Settling ((s.modify h fun hd => { hd with userClosed := true }).uvClose h cb) := by
  have hmod : Each Settling (s.modify h fun hd => { hd with userClosed := true }) :=
    settling_update hs fun hd hset => hset.update rfl rfl rfl rfl (.inl rfl)
  apply hmod.uvClose
  intro hd' hh' _ hc hset
  rw [getElem?_modify, hh, Option.map_some, if_pos rfl] at hh'
  cases hh'
  have hc : hd.closing = false := hc
  have hsig : hd.kind = .signal → hd.data.held = [] := by
    intro hk
    simpa [hc, hk] using hG hd hh
  apply hset.close
  · rintro rfl
    cases hk : hd.kind <;> rw [hk] at hcb <;> cases hcb
  · intro hcasts
    cases hk : hd.kind with
    | signal => exact hsig hk
    | pipe | server | client | tty | runTimer | repeatTimer | async =>
        rw [hk] at hcb
        cases hcb
        cases hcasts
    | stdio | process =>
        rw [hk] at hcb
        cases hcb

/-- A one-shot timer deletes its payload itself. -/
theorem settling_taskReturn (hs : Each Settling s) :
    Each Settling ((s.uvClose h .deleteHandle).modify h fun hd =>
      { hd with data := hd.data.delete }) := by
  have hdel : ∀ hd : Handle, Settling hd → Settling { hd with data := hd.data.delete } :=
    fun hd hset => hset.update rfl rfl rfl rfl (.inr (held_delete hd.data))
  have hcases := uvClose_cases s h .deleteHandle
  generalize s.uvClose h .deleteHandle = u at hcases ⊢
  cases hcases with
  | absent | deleted | twice => exact settling_update (f := fun hd => { hd with data := _ }) hs hdel
  | closes =>
      have hmod : Each Settling (s.modify h fun hd =>
          ({ hd with data := hd.data.delete } : Handle).close .deleteHandle) :=
        settling_update hs fun hd hset => (hdel hd hset).close nofun fun _ => held_delete hd.data
      intro e he
      apply hmod e
      simp only [State.modify, List.modify_modify_eq] at he
      exact he

theorem settling_finish (hs : Each Settling s) (hinv : Inv s) (hmem : h ∈ s.closing) :
    Each Settling (s.modify h Handle.finish) := by
  apply Each.modify (f := Handle.finish) hs
  intro hd hh hset
  obtain ⟨hd', hh', hl, hc⟩ := hinv.pending h hmem
  cases hh.symm.trans hh'
  exact hset.finish hc hl

end

theorem settling_step {s t : Loop.State} {l : Loop.Label} (hs : Each Settling s) (hinv : Inv s)
    (hl : isWalk l = false) (hr : ReleasedByClose s l) (hG : Unspilled s l)
    (ht : Loop.step s l = some t) : Each Settling t := by
  have hopen {hd : Handle} (hl : hd.linked = true := by rfl) (hc : hd.closing = false := by rfl) :
      Each Settling (s.add hd) := hs.add (.of_open hl hc)
  have hkeep {h : Nat} {f : Handle → Handle}
      (hl : ∀ hd, (f hd).linked = hd.linked := by intro _; rfl)
      (ha : ∀ hd, (f hd).allocated = hd.allocated := by intro _; rfl)
      (hc : ∀ hd, (f hd).closing = hd.closing := by intro _; rfl)
      (hcb : ∀ hd, (f hd).closeCb = hd.closeCb := by intro _; rfl)
      (hdata : ∀ hd, (f hd).data = hd.data := by intro _; rfl) : Each Settling (s.modify h f) :=
    settling_update hs fun hd hset => hset.update (hl hd) (ha hd) (hc hd) (hcb hd) (.inl (hdata hd))
  cases step_cases ht with
  | callDeleted | callAborted | callRefused | pipeRefused | bindRefused | acceptDeleted | ttyFailed
  | signalRefused | asyncFailed | connection | signalEvent | asyncEvent | repeatTimer => exact hs
  | pipeDeleted | pipeOpen | tcpBind | acceptFailed | tcpAccept | ttyInit | signalInit | timerRun
  | timerRepeat | asyncInit => exact hopen
  | bindFailed => exact settling_bindFailed hs
  | tcpListen result hh ha hc | signalStart _ _ hh ha hc =>
      exact settling_update (settling_store hs hinv hh ha hc _) fun hd hset =>
        hset.update rfl rfl rfl rfl (.inl rfl)
  | signalKept _ _ hh ha hc => exact settling_store hs hinv hh ha hc _
  | signalStop =>
      exact settling_update hs fun hd hset =>
        hset.update rfl rfl rfl rfl (.inr (held_delete hd.data))
  | spawn result => exact settling_spawn hs result
  | signalDropped | timerStop | streamRead | streamStop | streamEvent | runTimer | childExit =>
      exact hkeep
  | close hh hcb => exact settling_close hs hh hcb hG
  | taskReturn => exact settling_taskReturn hs
  | exitReturn => exact hr.elim
  | walked | walk => cases hl
  | finishClose _ hmem | finishCast _ hmem => exact settling_finish hs hinv hmem

/-- Nothing is forgotten. -/
structure Unlost (s t : Loop.State) : Prop where
  lost : t.lost = s.lost
  stray : t.stray = s.stray

theorem Unlost.uvClose {s t : Loop.State} (hst : Unlost s t) (h : Nat) (cb : CloseCb) :
    Unlost s (t.uvClose h cb) := by
  have hcases := uvClose_cases t h cb
  generalize t.uvClose h cb = u at hcases ⊢
  cases hcases with
  | absent | deleted | twice | closes => exact ⟨hst.lost, hst.stray⟩

theorem unlost_store {s : Loop.State} {old : Data} (hdata : old.held = []) (h : Nat)
    (p : Payload) : Unlost s (s.store h old p) :=
  ⟨by simp [Loop.State.store, hdata], rfl⟩

theorem unlost_call {s t : Loop.State} {h : Nat} {ofKind : Kind → Bool}
    {f : Handle → Loop.State} (ht : s.call h ofKind f = some t)
    (hf : ∀ hd, s.handles[h]? = some hd → Unlost s (f hd)) : Unlost s t := by
  obtain ⟨hd, hh, ht⟩ := Option.bind_eq_some_iff.mp ht
  obtain ⟨-, rfl⟩ := Machine.of_guard ht
  split
  · exact hf hd hh
  · exact ⟨rfl, rfl⟩

theorem unlost_listen {s t : Loop.State} {h : Nat} {result : Int}
    (hG : Unspilled s (.tcpListen h result)) (ht : s.tcpListen h result = some t) :
    Unlost s t := by
  apply unlost_call ht
  intro hd hh
  split
  · exact ⟨rfl, rfl⟩
  · rename_i hok
    rw [not_or, Int.not_lt, Bool.not_eq_true] at hok
    have hdata : hd.data.held = [] := by simpa [hok.1] using hG hok.2 hd hh
    have hst := unlost_store (s := s) hdata h .callbackRoot
    exact ⟨hst.lost, hst.stray⟩

/-- The root before is given up by a start that succeeds. -/
theorem unlost_signalStart {s t : Loop.State} {h : Nat} {signum registered : Int}
    (hG : Unspilled s (.signalStart h signum registered))
    (ht : s.signalStart h signum registered = some t) : Unlost s t := by
  apply unlost_call ht
  intro hd hh
  have hG := hG hd hh
  split
  · exact ⟨rfl, rfl⟩
  · split
    · exact ⟨rfl, rfl⟩
    · split
      · exact unlost_store (by simp_all) h .callbackRoot
      · split
        · exact ⟨rfl, rfl⟩
        · have hdata : hd.data.held = [] := by simp_all
          have hst := unlost_store (s := s) hdata h .callbackRoot
          exact ⟨hst.lost, hst.stray⟩

theorem unlost_step {s t : Loop.State} {l : Loop.Label} (hl : isWalk l = false)
    (hr : ReleasedByClose s l) (hG : Unspilled s l) (ht : Loop.step s l = some t) :
    Unlost s t := by
  have hlive : stepLive s l = some t := by
    simp only [Loop.step] at ht
    split at ht
    · cases ht
    · exact ht
  cases step_cases ht with
  | callDeleted | callAborted | callRefused | pipeRefused | bindRefused | acceptDeleted
  | signalRefused | connection | signalEvent | asyncEvent | repeatTimer | pipeDeleted | pipeOpen
  | tcpBind | acceptFailed | tcpAccept | ttyInit | signalInit | timerRun | timerRepeat | asyncInit
  | signalStop | signalDropped | timerStop | streamRead | streamStop | streamEvent | runTimer
  | childExit | finishClose | finishCast => exact ⟨rfl, rfl⟩
  | ttyFailed result =>
      simp only [stepLive, Loop.State.ttyInit, if_neg (Int.not_lt.mpr hG)] at hlive
      have hstray := congrArg (fun o => o.map Loop.State.stray) hlive
      exact ⟨rfl, (Option.some.inj hstray).symm⟩
  | asyncFailed result =>
      simp only [stepLive, Loop.State.asyncInit, if_neg (Int.not_lt.mpr hG)] at hlive
      have hlost := congrArg (fun o => o.map Loop.State.lost) hlive
      have hstray := congrArg (fun o => o.map Loop.State.stray) hlive
      exact ⟨(Option.some.inj hlost).symm, (Option.some.inj hstray).symm⟩
  | bindFailed =>
      have hadd : Unlost s (s.add (Handle.init .server)) := ⟨rfl, rfl⟩
      exact hadd.uvClose _ _
  | tcpListen => exact unlost_listen hG hlive
  | signalKept | signalStart => exact unlost_signalStart hG hlive
  | spawn result =>
      exact spawn_induction (P := Unlost s) ⟨rfl, rfl⟩ result
        (fun hs _ _ _ => ⟨hs.lost, hs.stray⟩) fun _ _ _ _ hs => ⟨hs.lost, hs.stray⟩
  | @close h =>
      have hmod : Unlost s (s.modify h fun hd => { hd with userClosed := true }) := ⟨rfl, rfl⟩
      exact hmod.uvClose _ _
  | @taskReturn h =>
      have hsame : Unlost s s := ⟨rfl, rfl⟩
      have hclose := hsame.uvClose h .deleteHandle
      exact ⟨hclose.lost, hclose.stray⟩
  | exitReturn => exact hr.elim
  | walked | walk => cases hl

/-- The loop while it is tidy: whatever is taken out of it will be deleted. -/
structure Tidied (s : Loop.State) : Prop where
  memory : MemoryInv s
  typing : Typing s
  settling : Each Settling s
  lost : s.lost = []
  stray : s.stray = []

theorem tidied_init : Tidied Loop.machine.init where
  memory := memoryInv_init
  typing := Typing.init
  settling hd hmem := by cases hmem
  lost := rfl
  stray := rfl

theorem tidied_step {s t : Loop.State} {l : Loop.Label} (hs : Tidied s) (hl : isWalk l = false)
    (hG : WellUsed s l ∧ ReleasedByClose s l ∧ Unspilled s l) (ht : Loop.step s l = some t) :
    Tidied t := by
  obtain ⟨hwell, hreleased, hunspilled⟩ := hG
  have hunlost := unlost_step hl hreleased hunspilled ht
  exact
    { memory := memoryInv_step hs.memory hreleased ht
      typing := hs.typing.step hs.memory.inv hwell ht
      settling := settling_step hs.settling hs.memory.inv hl hreleased hunspilled ht
      lost := hunlost.lost.trans hs.lost
      stray := hunlost.stray.trans hs.stray }

/-- A walk that finds nothing open does nothing. -/
theorem walkLoop_eq_self {s : Loop.State} (hs : Tidied s)
    (hclosing : ∀ hd ∈ s.handles, hd.linked = true → hd.closing = true) :
    State.walkLoop s = s := by
  have hone (h : Nat) : (s.walk h).getD s = s := by
    unfold Loop.State.walk
    cases hh : s.handles[h]? with
    | none => rfl
    | some hd =>
        have hmem := List.mem_of_getElem? hh
        simp only [Option.bind_some]
        split
        · have hl := (‹_ ∧ _›).2
          rw [if_pos ⟨hclosing hd hmem hl, hs.memory.kept hd hmem hl⟩]
          rfl
        · rfl
  unfold State.walkLoop
  induction List.range s.handles.length with
  | nil => rfl
  | cons h hs ih => rw [List.foldl_cons, hone, ih]

/-- The requests of a loop that is empty and idle are all done, and hold nothing. -/
theorem held_eq_zero {s : Request.State} (hs : Request.Books s) (hidle : s.idle = true)
    (hnone : ∀ r ∈ s.requests, isActive r = false) : s.held = 0 := by
  apply Multiset.eq_zero_of_forall_notMem
  rintro ⟨i, p⟩ hmem
  rw [← Multiset.count_pos, hs.held i p] at hmem
  cases hr : s.requests[i]? with
  | none => rw [hr] at hmem; exact absurd hmem (Nat.lt_irrefl 0)
  | some r =>
      have hdone : r.phase = .done := by
        have hrest := List.all_eq_true.mp hidle r (List.mem_of_getElem? hr)
        have hinactive := hnone r (List.mem_of_getElem? hr)
        cases hp : r.phase <;> simp_all [isActive, Request.Record.running]
      rw [hr] at hmem
      simp [Request.Record.owned, hdone] at hmem

theorem allReleased_of_empty {s : State} (hs : Tidied s.loop) (hbooks : Request.Books s.requests)
    (hidle : s.idle = true) (hempty : s.empty = true) : AllReleased s := by
  simp only [State.empty, Bool.and_eq_true, List.all_eq_true] at hempty
  obtain ⟨hhandles, hreqs⟩ := hempty
  exact
    { handles := fun hd hmem => (hs.settling hd hmem).freed (by simpa using hhandles hd hmem)
      lost := hs.lost
      stray := hs.stray
      casts := hs.typing.casts
      fault := hs.memory.fault
      requests := held_eq_zero hbooks (Bool.and_eq_true_iff.mp hidle).2 fun r hr => by
        simpa using hreqs r hr }

structure TidyInv (s : State) : Prop where
  good : Good s
  tidied : Tidied s.loop
  books : Request.Books s.requests
  released : Released s

section

variable {c : Int} {s t : State}

theorem released_of_inUse (h : s.inUse = true) (hstage : t.stage = s.stage) : Released t := by
  unfold Released
  rw [hstage]
  rcases inUse_stage h with hs | ⟨n, hs⟩ <;> rw [hs] <;> trivial

theorem drained_of_tidy {a : Label} (h : Tidy s a) : Drained s a := by
  cases a with
  | leave => exact h
  | loop | request | ref | unref | stopLoop | runReturns | shutdownLoop | freeLoop => trivial

theorem tidyInv_init : TidyInv (machine c).init where
  good := good_init
  tidied := tidied_init
  books := Request.books_init (c := c)
  released := trivial

theorem tidyInv_step {a : Label} (hs : TidyInv s) (ha : Tidy s a) (h : step c s a = some t) :
    TidyInv t := by
  have hgood := good_step hs.good (drained_of_tidy ha) h
  cases a with
  | loop l =>
      simp only [step] at h
      split at h
      · obtain ⟨huse, hl⟩ := ‹_ ∧ _›
        obtain ⟨u, hu, rfl⟩ := Option.map_eq_some_iff.mp h
        exact ⟨hgood, tidied_step hs.tidied (by simpa using hl) ha hu, hs.books,
          released_of_inUse huse rfl⟩
      · cases h
  | request l =>
      simp only [step] at h
      split at h
      · obtain ⟨u, hu, rfl⟩ := Option.map_eq_some_iff.mp h
        exact ⟨hgood, hs.tidied, (Request.kept_step hs.books hu).books, released_of_inUse ‹_› rfl⟩
      · cases h
  | ref h' | unref h' | runReturns =>
      obtain ⟨⟨huse, -⟩, rfl⟩ := Machine.of_guard h
      exact ⟨hgood, hs.tidied, hs.books, released_of_inUse huse rfl⟩
  | stopLoop =>
      obtain ⟨huse, rfl⟩ := Machine.of_guard h
      exact ⟨hgood, hs.tidied, hs.books, released_of_inUse huse rfl⟩
  | shutdownLoop =>
      obtain ⟨-, rfl⟩ := Machine.of_guard h
      refine ⟨hgood, ?_, hs.books, trivial⟩
      rw [walkLoop_eq_self hs.tidied ha]
      exact hs.tidied
  | leave =>
      simp only [step] at h
      split at h
      · obtain ⟨⟨-, hidle, halive⟩, rfl⟩ := Machine.of_guard h
        have hempty := empty_of_drained hs.good ‹_› halive ha
        obtain ⟨hh, hl, hst, hc, hf, hr⟩ := allReleased_of_empty hs.tidied hs.books hidle hempty
        exact ⟨hgood, hs.tidied, hs.books, ⟨hh, hl, hst, hc, hf, hr⟩⟩
      · cases h
  | freeLoop =>
      obtain ⟨hstage, rfl⟩ := Machine.of_guard h
      have hreleased := hs.released
      unfold Released at hreleased
      rw [hstage] at hreleased
      obtain ⟨hh, hl, hst, hc, hf, hr⟩ := hreleased
      exact ⟨hgood, hs.tidied, hs.books, ⟨hh, hl, hst, hc, hf, hr⟩⟩

end

/-- In a run whose user closes what he opens, each kind by a close that deletes it,
nothing is left of the loop when it has been shut down. -/
theorem released_of_tidy (canceled : Int) (as : List Label)
    (h : (machine canceled).Throughout Tidy (machine canceled).init as) :
    (machine canceled).Always Released (machine canceled).init as :=
  Machine.always_of_throughout (fun _ hs => hs.released) (fun _ _ _ => tidyInv_step)
    tidyInv_init h

/-- A signal is stopped and closed, a one-shot timer fires, and a pipe is closed with a
write in flight, which is called back in the `uv_run` of `shutdownLoop`. -/
theorem released_tidy_loop :
    (machine (-125)).Always Released (machine (-125)).init
      [.loop (.signalInit 0), .loop (.signalStart 0 2 0), .loop (.signalStop 0), .loop (.close 0),
        .loop .timerRun, .loop (.timerEvent 1), .loop .taskReturn, .loop (.pipeOpen 0 0),
        .request (.submit (.streamWrite 2) true), .loop (.finishClose 1), .loop (.finishClose 0),
        .loop (.close 2), .request (.closeStream 2), .shutdownLoop,
        .request (.finish 0 (-125) false), .request (.callback 0 false), .request (.ret 0),
        .request (.finishClose 2), .loop (.finishClose 2), .leave, .freeLoop] :=
  released_of_tidy _ _ (by decide)

/-- A timer that repeats when `shutdownLoop` is called: its handle and its
`RootedObject` are never deleted. -/
theorem walked_timer_stays :
    ¬ (machine (-125)).Always Released (machine (-125)).init
      [.loop .timerRepeat, .shutdownLoop, .loop (.finishClose 0), .leave, .freeLoop] := by
  intro h
  have hmono := h.mono (Q := fun s => s.stage = .returned →
    ∀ hd ∈ s.loop.handles, hd.allocated = false) fun s hs hstage => by
      unfold Released at hs
      rw [hstage] at hs
      exact fun hd hmem => (hs.handles hd hmem).1
  exact absurd hmono (by decide)

end HxcppLuv.Loop.Shutdown
