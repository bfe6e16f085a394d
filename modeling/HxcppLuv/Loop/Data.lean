import HxcppLuv.Loop.Invariant

/-!
The `void*` of a handle against the casts of it. Most kinds store one payload when
the handle is made and keep it until the close callback deletes it. A server and a
signal store theirs on `listen` and `start`, and the payloads of a one-shot timer
and of a process are deleted by the callbacks of these themselves.

`stream::close` takes the `data` of a server for a `StreamData` too, `timer::close`
that of every timer for a `RootedObject`, and `signal::stop` deletes a root without
asking whether there is one. All other casts meet what was stored.
-/

namespace HxcppLuv.Loop

open State

/-- A cast to `expects` meets a live object of that type, or a null it checks for. -/
def Data.sound (expects : Tag) (nullOk : Bool) : Data → Bool
  | live p => p.tag == expects
  | null => nullOk
  | dead _ => false

def Use.sound (u : Use) : Bool := u.found.sound u.expects u.nullOk

def CastsSound (s : State) : Prop := ∀ u ∈ s.uses, u.sound = true

instance : DecidablePred CastsSound := fun s =>
  inferInstanceAs (Decidable (∀ u ∈ s.uses, u.sound = true))

/-- Calls are made on handles that are not deleted. No server is closed once it has
listened, no one-shot timer is closed by the user, and a signal is stopped only
while it holds the root of a start. On a closing handle libuv aborts instead. -/
def WellUsed (s : State) : Label → Prop
  | .tcpListen h _ | .tcpAccept h _ | .signalStart h _ _ | .timerStop h | .streamRead h _
  | .streamStop h => Meets s h Handle.allocated
  | .signalStop h => Meets s h fun hd =>
      hd.allocated && (hd.closing || hd.data == .live .callbackRoot)
  | .close h => Meets s h fun hd =>
      hd.allocated &&
        (hd.closing || hd.kind != .runTimer && (hd.kind != .server || hd.data == .null))
  | _ => True

instance (s : State) (l : Label) : Decidable (WellUsed s l) := by
  cases l <;> simp only [WellUsed] <;> infer_instance

/-- What an open handle keeps in `data`, for the kinds that store it once. -/
def Kind.payload : Kind → Option Payload
  | pipe | stdio | client | tty => some .streamData
  | runTimer => some .runData
  | repeatTimer => some .rootedObject
  | async => some .callbackRoot
  | server | signal | process => none

theorem Kind.payload_of_isReadable {k : Kind} (h : k.isReadable = true) :
    k.payload = some .streamData := by
  cases k with
  | pipe | stdio | client | tty => rfl
  | server | signal | process | runTimer | repeatTimer | async => cases h

def State.kinds (s : State) : List Kind := s.handles.map Handle.kind

/-- A close callback casts `data` to what is there, and spares the two kinds whose
own callback deletes it. -/
def Fits (cb : CloseCb) (hd : Handle) : Prop :=
  ∀ c, cb.casts = some c →
    hd.data.sound c.1 c.2 = true ∧ hd.kind ≠ .runTimer ∧ hd.kind ≠ .process

/-- What `data` is, for everything that is going to cast it; `ks` are the kinds of
the loop's handles. -/
structure Typed (ks : List Kind) (hd : Handle) : Prop where
  opened : hd.allocated = true → hd.closing = false → ∀ p, hd.kind.payload = some p →
    hd.data = .live p
  reads : hd.reading = true → hd.kind.isReadable = true
  listens : hd.listening = true → hd.kind = .server ∧ hd.data = .live .callbackRoot
  signals : hd.signum ≠ 0 → hd.kind = .signal ∧ hd.data = .live .callbackRoot
  runs : hd.kind = .process → hd.active = true → hd.data.sound .spawnData false = true
  pipes : ∀ i o e, hd.data = .live (.spawnData i o e) → ∀ n ∈ [i, o, e], ks[n]? = some .stdio
  casts : hd.closing = true → Fits hd.closeCb hd

theorem Data.delete_ne_live (d : Data) (p : Payload) : d.delete ≠ .live p := by
  cases d with
  | null | live | dead => exact nofun

theorem fits_of_casts_none {cb : CloseCb} {hd : Handle} (h : cb.casts = none) : Fits cb hd := by
  intro c hc
  rw [h] at hc
  cases hc

namespace Typed

variable {ks : List Kind} {hd : Handle}

theorem append (h : Typed ks hd) (l : List Kind) : Typed (ks ++ l) hd where
  opened := h.opened
  reads := h.reads
  listens := h.listens
  signals := h.signals
  runs := h.runs
  pipes i o e he n hn := by
    have hks := h.pipes i o e he n hn
    rw [List.getElem?_append_left (List.getElem?_eq_some_iff.mp hks).1, hks]
  casts := h.casts

/-- A handle that starts nothing new. -/
theorem quiet (h : Typed ks hd) {active reading listening userClosed : Bool} {signum : Int}
    (ha : active = true → hd.active = true) (hr : reading = true → hd.reading = true)
    (hl : listening = true → hd.listening = true) (hg : signum ≠ 0 → hd.signum ≠ 0) :
    Typed ks { hd with
      active := active
      reading := reading
      listening := listening
      signum := signum
      userClosed := userClosed } where
  opened := h.opened
  reads hr' := h.reads (hr hr')
  listens hl' := h.listens (hl hl')
  signals hg' := h.signals (hg hg')
  runs hk ha' := h.runs hk (ha ha')
  pipes := h.pipes
  casts := h.casts

theorem startReading (h : Typed ks hd) (hk : hd.kind.isReadable = true) :
    Typed ks { hd with reading := true } where
  opened := h.opened
  reads _ := hk
  listens := h.listens
  signals := h.signals
  runs := h.runs
  pipes := h.pipes
  casts := h.casts

theorem new {kind : Kind} {allocated active given : Bool} {data : Data}
    (hp : allocated = true → ∀ p, kind.payload = some p → data = .live p)
    (hr : kind = .process → active = true → data.sound .spawnData false = true)
    (hpipes : ∀ i o e, data = .live (.spawnData i o e) → ∀ n ∈ [i, o, e], ks[n]? = some .stdio) :
    Typed ks { Handle.init kind with
      allocated := allocated
      data := data
      active := active
      given := given } where
  opened ha _ := hp ha
  reads h := by cases h
  listens h := by cases h
  signals h := (h rfl).elim
  runs := hr
  pipes := hpipes
  casts h := by cases h

theorem close (h : Typed ks hd) {cb : CloseCb} (hfits : Fits cb hd) : Typed ks (hd.close cb) where
  opened _ hc := by cases hc
  reads hr := by cases hr
  listens hl := by cases hl
  signals hg := (hg rfl).elim
  runs _ ha := by cases ha
  pipes := h.pipes
  casts _ := hfits

/-- The callbacks of a one-shot timer and of a process delete `data` at their end. -/
theorem release (h : Typed ks hd) {allocated : Bool}
    (hk : hd.kind = .runTimer ∨ hd.kind = .process ∧ hd.active = false)
    (ha : allocated = true → hd.closing = true) :
    Typed ks { hd with data := hd.data.delete, allocated := allocated } where
  opened ha' hc := by
    rw [show hd.closing = false from hc] at ha
    cases ha ha'
  reads := h.reads
  listens hl := by
    have hserver := (h.listens hl).1
    simp [hserver] at hk
  signals hg := by
    have hsignal := (h.signals hg).1
    simp [hsignal] at hk
  runs hkind hact := by
    have hkind : hd.kind = .process := hkind
    have hact : hd.active = true := hact
    simp [hkind, hact] at hk
  pipes i o e he := absurd he (hd.data.delete_ne_live _)
  casts hc c hcasts := by
    obtain ⟨-, hrun, hprocess⟩ := h.casts hc c hcasts
    cases hk with
    | inl hk => exact absurd hk hrun
    | inr hk => exact absurd hk.1 hprocess

/-- A server or a signal that is open stores a callback root. -/
theorem storeRoot (h : Typed ks hd) (hc : hd.closing = false)
    (hk : hd.kind = .server ∨ hd.kind = .signal) {listening : Bool} {signum : Int}
    (hl : listening = true → hd.kind = .server) (hg : signum ≠ 0 → hd.kind = .signal) :
    Typed ks { hd with data := .live .callbackRoot, listening := listening, signum := signum } where
  opened _ _ p hp := by
    cases hk with
    | inl hk | inr hk => simp [hk, Kind.payload] at hp
  reads := h.reads
  listens hl' := ⟨hl hl', rfl⟩
  signals hg' := ⟨hg hg', rfl⟩
  runs hkind := by
    cases hk with
    | inl hk | inr hk => cases hk.symm.trans hkind
  pipes i o e he := by cases he
  casts hc' := by cases hc.symm.trans hc'

theorem stopSignal (h : Typed ks hd) (hc : hd.closing = false) (hk : hd.kind = .signal) :
    Typed ks { hd with signum := 0, data := hd.data.delete } where
  opened _ _ p hp := by simp [hk, Kind.payload] at hp
  reads := h.reads
  listens hl := by
    have hserver := (h.listens hl).1
    rw [hk] at hserver
    cases hserver
  signals hg := (hg rfl).elim
  runs hkind := by cases hk.symm.trans hkind
  pipes i o e he := absurd he (hd.data.delete_ne_live _)
  casts hc' := by cases hc.symm.trans hc'

end Typed

/-- Every linked handle is typed, and every cast made so far met what it asked for. -/
structure Typing (s : State) : Prop where
  typed : Each (fun hd => hd.linked = true → Typed s.kinds hd) s
  casts : CastsSound s

namespace Typing

variable {s t : State} {h : Nat} {hd : Handle} {f : Handle → Handle}

theorem init : Typing machine.init where
  typed hd hmem := by cases hmem
  casts u hu := by cases hu

theorem congr (hs : Typing s) (hhandles : t.handles = s.handles) (huses : t.uses = s.uses) :
    Typing t := by
  obtain ⟨handles, _, _, _, _, uses, _, _⟩ := t
  cases hhandles
  cases huses
  exact ⟨hs.typed, hs.casts⟩

theorem opened (hs : Typing s) (hinv : Inv s) (hh : s.handles[h]? = some hd)
    (ha : hd.allocated = true) (hc : hd.closing = false) : Typed s.kinds hd :=
  hs.typed hd (List.mem_of_getElem? hh) (hinv.opened hd (List.mem_of_getElem? hh) ha hc)

theorem add (hs : Typing s) (hT : Typed (s.kinds ++ [hd.kind]) hd) : Typing (s.add hd) where
  typed := by
    have hkinds : (s.add hd).kinds = s.kinds ++ [hd.kind] := by
      simp only [State.kinds, State.add, List.map_append, List.map_cons, List.map_nil]
    rw [hkinds]
    exact Each.add (fun e he hl => (hs.typed e he hl).append _) fun _ => hT
  casts := hs.casts

theorem kinds_modify (hk : ∀ hd, (f hd).kind = hd.kind) : (s.modify h f).kinds = s.kinds :=
  Slots.map_modify_of_eq fun hd _ => hk hd

theorem modify (hs : Typing s) (hf : Keeps f)
    (hT : ∀ hd, s.handles[h]? = some hd → Typed s.kinds hd → Typed s.kinds (f hd)) :
    Typing (s.modify h f) where
  typed := by
    rw [kinds_modify hf.kind]
    exact hs.typed.modify fun hd hh hP hl => hT hd hh (hP (hf.linked hd ▸ hl))
  casts := hs.casts

theorem use (hs : Typing s) {expects : Tag} {nullOk : Bool} {found : Data}
    (hsound : found.sound expects nullOk = true) : Typing (s.use h expects nullOk found) where
  typed := hs.typed
  casts u hu := by
    cases List.mem_append.mp hu with
    | inl hu => exact hs.casts u hu
    | inr hu =>
        rw [List.mem_singleton.mp hu]
        exact hsound

theorem uvClose (hs : Typing s) (hinv : Inv s) {cb : CloseCb}
    (hfits : ∀ hd, s.handles[h]? = some hd → hd.allocated = true → hd.closing = false →
      Typed s.kinds hd → Fits cb hd) : Typing (s.uvClose h cb) := by
  have hcases := uvClose_cases s h cb
  generalize s.uvClose h cb = u at hcases ⊢
  cases hcases with
  | absent => exact hs
  | deleted | twice => exact hs.congr rfl rfl
  | closes hd hh ha hc =>
      have hT := hs.opened hinv hh ha hc
      refine Typing.congr (s := s.modify h (Handle.close cb)) ⟨?_, hs.casts⟩ rfl rfl
      rw [kinds_modify (f := Handle.close cb) fun _ => rfl]
      apply hs.typed.modify (f := Handle.close cb)
      intro hd' hh' _ _
      cases hh.symm.trans hh'
      exact hT.close (hfits hd hh ha hc hT)

/-- After `uv_close` a handle that is still there is closing. -/
theorem closing_uvClose {cb : CloseCb} (hh : (s.uvClose h cb).handles[h]? = some hd)
    (ha : hd.allocated = true) : hd.closing = true := by
  have hcases := uvClose_cases s h cb
  generalize s.uvClose h cb = u at hcases hh
  cases hcases with
  | absent hnone =>
      rw [hnone] at hh
      cases hh
  | deleted hd' hh' ha' =>
      cases hh'.symm.trans hh
      rw [ha] at ha'
      cases ha'
  | twice hd' hh' ha' hc' =>
      cases hh'.symm.trans hh
      exact hc'
  | closes hd' hh' =>
      change (s.modify h (Handle.close cb)).handles[h]? = some hd at hh
      rw [getElem?_modify, hh'] at hh
      cases hh
      simp [Handle.close]

theorem finish (hs : Typing s) : Typing (s.modify h Handle.finish) where
  typed := by
    rw [kinds_modify (f := Handle.finish) fun _ => rfl]
    exact hs.typed.modify (f := Handle.finish) fun hd _ _ hl => by cases hl
  casts := hs.casts

/-- A payload is stored and what is watched for it is set. -/
theorem store (hs : Typing s) {old : Data} {p : Payload} (hf : Keeps f)
    (hT : ∀ hd, s.handles[h]? = some hd → Typed s.kinds hd →
      Typed s.kinds (f { hd with data := .live p })) :
    Typing ((s.store h old p).modify h f) := by
  have hmod := hs.modify (h := h) (f := fun hd => f { hd with data := .live p })
    ⟨fun _ => hf.linked _, fun _ => hf.closing _, fun _ => hf.kind _,
      fun hd => hf.idle { hd with data := .live p },
      fun hd => hf.allocated { hd with data := .live p }⟩ hT
  refine hmod.congr ?_ rfl
  simp only [State.store, State.modify, List.modify_modify_eq]
  rfl

/-- The close callbacks of the user's `close` suit the handles they are for. -/
theorem fits_of_wellUsed (hT : Typed s.kinds hd) (ha : hd.allocated = true)
    (hc : hd.closing = false) {cb : CloseCb} (hcb : hd.kind.closeCb = some cb)
    (hrun : hd.kind ≠ .runTimer) (hserver : hd.kind = .server → hd.data = .null) :
    Fits cb hd := by
  intro c hcasts
  have hpayload := hT.opened ha hc
  cases hkind : hd.kind with
  | pipe | client | tty | repeatTimer | async =>
      rw [hkind] at hcb hpayload
      cases hcb
      cases hcasts
      simp [hpayload _ rfl, Data.sound, Payload.tag]
  | server =>
      rw [hkind] at hcb
      cases hcb
      cases hcasts
      simp [hserver hkind, Data.sound]
  | signal =>
      rw [hkind] at hcb
      cases hcb
      cases hcasts
  | runTimer => exact absurd hkind hrun
  | stdio | process =>
      rw [hkind] at hcb
      cases hcb

theorem spawn (hs : Typing s) (result : Int) : Typing (s.spawn result) := by
  have hpipe (s : State) (given : Bool) (hs : Typing s) : Typing (s.add (stdioPipe given)) :=
    hs.add (Typed.new (by simp [Kind.payload]) (by simp) (by simp))
  have hpipes := hpipe _ (decide (0 ≤ result)) (hpipe _ (decide (0 ≤ result)) (hpipe s false hs))
  simp only [State.spawn]
  split
  · exact hpipes.add (Typed.new (by simp [Kind.payload]) (by simp) (by simp [Handle.init]))
  · have hsound : (Data.live (.spawnData s.handles.length (s.handles.length + 2)
        (s.handles.length + 1))).sound .spawnData false = true := rfl
    refine (((hpipes.add (Typed.new ?_ ?_ ?_)).use hsound).use hsound).use hsound
    · simp [Kind.payload]
    · exact fun _ _ => hsound
    · intro i o e he n hn
      cases he
      simp [State.kinds, State.add, stdioPipe, Handle.init] at hn ⊢
      rcases hn with rfl | rfl | rfl <;> simp

theorem kinds_uvClose (s : State) (h : Nat) (cb : CloseCb) : (s.uvClose h cb).kinds = s.kinds := by
  have hcases := uvClose_cases s h cb
  generalize s.uvClose h cb = u at hcases ⊢
  cases hcases with
  | absent | deleted | twice => rfl
  | closes => exact kinds_modify (f := Handle.close cb) fun _ => rfl

theorem closePipe (hs : Typing s) (hinv : Inv s) (hk : s.kinds[h]? = some .stdio) :
    Typing (s.uvClose h .ttyClose) := by
  apply hs.uvClose hinv
  intro hd hh ha hc hT c hcasts
  rw [State.kinds, List.getElem?_map, hh] at hk
  have hk : hd.kind = .stdio := Option.some.inj hk
  cases hcasts
  have hdata : hd.data = .live .streamData := hT.opened ha hc _ (by rw [hk]; rfl)
  rw [hdata, hk]
  exact ⟨rfl, by simp, by simp⟩

/-- The exit wrapper closes the three pipes, and deletes what `data` was. -/
theorem exitReturn (hs : Typing s) (hinv : Inv s) {i o e : Nat} (hf : s.frame = .exit h)
    (hh : s.handles[h]? = some hd) (hdata : hd.data = .live (.spawnData i o e)) :
    Typing ((((s.uvClose i .ttyClose).uvClose o .ttyClose).uvClose e .ttyClose).modify h
      fun hd => { hd with data := hd.data.delete, allocated := false }) := by
  have hlinked := hinv.frame h (by rw [hf]; rfl)
  have hl : hd.linked = true := by
    obtain ⟨hd', hh', hl, -⟩ := hlinked
    cases hh.symm.trans hh'
    exact hl
  have hpipes := (hs.typed hd (List.mem_of_getElem? hh) hl).pipes i o e hdata
  have hs₁ := hs.closePipe hinv (hpipes i (by simp))
  have hs₂ := hs₁.closePipe (h := o) (hinv.uvClose _ _) (by
    rw [kinds_uvClose]
    exact hpipes o (by simp))
  have hs₃ := hs₂.closePipe (h := e) ((hinv.uvClose _ _).uvClose _ _) (by
    rw [kinds_uvClose, kinds_uvClose]
    exact hpipes e (by simp))
  apply hs₃.modify {}
  intro hd' hh' hT
  obtain ⟨hd'', hh'', -, hstart⟩ := ((hlinked.uvClose i .ttyClose fun _ => starts_close _).uvClose
    o .ttyClose fun _ => starts_close _).uvClose e .ttyClose fun _ => starts_close _
  cases hh'.symm.trans hh''
  rw [hf] at hstart
  exact hT.release (.inr hstart) (by simp)

/-- The end of a one-shot timer's callback closes it, and deletes what `data` was. -/
theorem taskReturn (hs : Typing s) (hinv : Inv s) (hf : s.frame = .task h) :
    Typing ((s.uvClose h .deleteHandle).modify h fun hd => { hd with data := hd.data.delete }) := by
  obtain ⟨hd, hh, -, hstart⟩ := (hinv.frame h (by rw [hf]; rfl)).uvClose h .deleteHandle
    fun _ => starts_close _
  rw [hf] at hstart
  have hclosed : Typing (s.uvClose h .deleteHandle) :=
    hs.uvClose hinv fun _ _ _ _ _ => fits_of_casts_none rfl
  apply hclosed.modify {}
  intro hd' hh' hT
  cases hh.symm.trans hh'
  exact hT.release (.inl hstart) (closing_uvClose hh)

theorem close (hs : Typing s) (hinv : Inv s) (hG : WellUsed s (.close h))
    (hh : s.handles[h]? = some hd) {cb : CloseCb} (hcb : hd.kind.closeCb = some cb) :
    Typing ((s.modify h fun hd => { hd with userClosed := true }).uvClose h cb) := by
  have hmod := hs.modify (h := h) (f := fun hd => { hd with userClosed := true }) {}
    fun _ _ hT => hT.quiet id id id id
  apply hmod.uvClose (hinv.modify {})
  intro hd' hh' ha hc hT
  rw [getElem?_modify, hh, Option.map_some, if_pos rfl] at hh'
  cases hh'
  have hc' : hd.closing = false := hc
  obtain ⟨-, hrun, hserver⟩ : hd.allocated = true ∧ hd.kind ≠ .runTimer ∧
      (hd.kind = .server → hd.data = .null) := by
    simpa [hc', or_iff_not_imp_left] using hG hd hh
  exact fits_of_wellUsed hT ha hc hcb hrun hserver

/-- `uv__finish_close` deletes what the close callback suits. -/
theorem finishCast (hs : Typing s) (hinv : Inv s) (hmem : h ∈ s.closing)
    (hh : s.handles[h]? = some hd) {expects : Tag} {nullOk : Bool}
    (hcasts : hd.closeCb.casts = some (expects, nullOk)) : hd.data.sound expects nullOk = true := by
  obtain ⟨hd', hh', hl, hc⟩ := hinv.pending h hmem
  cases hh.symm.trans hh'
  exact ((hs.typed hd (List.mem_of_getElem? hh) hl).casts hc _ hcasts).1

theorem step {l : Label} (hinv : Inv s) (hs : Typing s) (hG : WellUsed s l)
    (ht : Loop.step s l = some t) : Typing t := by
  have hopen {h : Nat} {hd : Handle} (hh : s.handles[h]? = some hd) (ha : hd.allocated = true)
      (hc : hd.closing = false) : Typed s.kinds hd := hs.opened hinv hh ha hc
  -- what a handle of a kind that stores its payload once is found to hold
  have hholds {h : Nat} {hd : Handle} (hh : s.handles[h]? = some hd) (ha : hd.allocated = true)
      (hc : hd.closing = false) {p : Payload} (hp : hd.kind.payload = some p) :
      hd.data = .live p := (hopen hh ha hc).opened ha hc p hp
  cases step_cases ht with
  | callDeleted | callAborted | acceptDeleted | ttyFailed | asyncFailed => exact hs.congr rfl rfl
  | callRefused | pipeRefused | bindRefused | signalRefused | walked => exact hs
  | pipeDeleted | acceptFailed =>
      exact hs.add (Typed.new (by simp) (by simp) (by simp [Handle.init]))
  | pipeOpen | tcpAccept | ttyInit | timerRun | timerRepeat | asyncInit =>
      exact hs.add (Typed.new (by simp [Kind.payload]) (by simp) (by simp))
  | tcpBind | signalInit =>
      exact hs.add (Typed.new (by simp [Kind.payload]) (by simp) (by simp [Handle.init]))
  | bindFailed =>
      have hserver : Typing (s.add (Handle.init .server)) :=
        hs.add (Typed.new (by simp [Kind.payload]) (by simp) (by simp [Handle.init]))
      exact hserver.uvClose (hinv.add rfl) fun _ _ _ _ _ => fits_of_casts_none rfl
  | tcpListen result hh ha hc hk =>
      apply hs.store {}
      intro hd' hh' hT
      cases hh.symm.trans hh'
      exact hT.storeRoot hc (.inl hk) (fun _ => hk) fun hg => (hT.signals hg).1
  | signalKept signum registered hh ha hc hk =>
      refine (hs.modify {} fun hd' hh' hT => ?_).congr rfl rfl
      cases hh.symm.trans hh'
      exact hT.storeRoot hc (.inr hk) (fun hl => (hT.listens hl).1) fun _ => hk
  | signalStart signum registered hh ha hc hk =>
      apply hs.store {}
      intro hd' hh' hT
      cases hh.symm.trans hh'
      exact hT.storeRoot hc (.inr hk) (fun hl => (hT.listens hl).1) fun _ => hk
  | signalDropped => exact hs.modify {} fun _ _ hT => hT.quiet id id id fun hg => (hg rfl).elim
  | @signalStop h hd hh ha hc hk =>
      have hroot : hd.data = .live .callbackRoot := by simpa [ha, hc] using hG hd hh
      apply (hs.use (by rw [hroot]; rfl)).modify {}
      intro hd' hh' hT
      cases hh.symm.trans hh'
      exact hT.stopSignal hc hk
  | spawn result => exact hs.spawn result
  | timerStop => exact hs.modify {} fun _ _ hT => hT.quiet (by simp) id id id
  | streamStop => exact hs.modify {} fun _ _ hT => hT.quiet id (by simp) id id
  | streamRead result hh ha hc hk =>
      have hdata := hholds hh ha hc (Kind.payload_of_isReadable hk)
      apply (hs.use (by rw [hdata]; rfl)).modify {}
      intro hd' hh' hT
      cases hh.symm.trans hh'
      exact hT.startReading hk
  | close hh hcb => exact hs.close hinv hG hh hcb
  | streamEvent ended hh ha hc hr =>
      have hdata := hholds hh ha hc (Kind.payload_of_isReadable ((hopen hh ha hc).reads hr))
      apply (hs.use (by rw [hdata]; rfl)).modify {}
      intro _ _ hT
      exact hT.quiet id (fun h => (Bool.and_eq_true_iff.mp h).1) id id
  | connection hh ha hc hr =>
      have hdata := ((hopen hh ha hc).listens hr).2
      exact hs.use (by rw [hdata]; rfl)
  | signalEvent hh ha hc hr =>
      have hdata := ((hopen hh ha hc).signals hr).2
      exact hs.use (by rw [hdata]; rfl)
  | asyncEvent hh ha hc hk | repeatTimer hh ha hc hk =>
      have hdata := hholds hh ha hc (by rw [hk]; rfl)
      exact hs.use (by rw [hdata]; rfl)
  | runTimer hh ha hc hk =>
      have hdata := hholds hh ha hc (by rw [hk]; rfl)
      refine ((hs.use (by rw [hdata]; rfl)).modify {} fun _ _ hT => ?_).congr rfl rfl
      exact hT.quiet (by simp) id id id
  | childExit hh ha hc hk hr =>
      have hsound := (hopen hh ha hc).runs hk hr
      refine ((hs.use hsound).modify {} fun _ _ hT => ?_).congr rfl rfl
      exact hT.quiet (by simp) id id id
  | taskReturn hf => exact (hs.taskReturn hinv hf).congr rfl rfl
  | exitReturn hf hh hdata => exact (hs.exitReturn hinv hf hh hdata).congr rfl rfl
  | walk => exact hs.uvClose hinv fun _ _ _ _ _ => fits_of_casts_none rfl
  | finishClose => exact hs.finish.congr rfl rfl
  | finishCast hf hmem hh hcasts =>
      exact (hs.finish.use (hs.finishCast hinv hmem hh hcasts)).congr rfl rfl

end Typing

/-- In a run of well used handles every cast of a `data` field meets a live object
of the type it is cast to, or a null that it checks for. -/
theorem castsSound_of_wellUsed (as : List Label) (h : machine.Throughout WellUsed machine.init as) :
    machine.Always CastsSound machine.init as := by
  refine Machine.always_of_throughout (I := fun s => Inv s ∧ Typing s) (fun _ hs => hs.2.casts) ?_
    ⟨Inv.init, Typing.init⟩ h
  intro s l t hs hG ht
  exact ⟨hs.1.step ht, hs.2.step hs.1 hG ht⟩

/-- A server accepts a client that is read and closed, and a one-shot timer fires. -/
theorem castsSound_accepted_client :
    machine.Always CastsSound machine.init
      [.tcpBind 0 0 0, .tcpListen 0 0, .connection 0, .tcpAccept 0 0, .streamRead 1 0,
        .streamEvent 1 true, .close 1, .finishClose 1, .timerRun, .timerEvent 2, .taskReturn,
        .finishClose 2, .signalInit 0, .signalStart 3 2 0, .signalEvent 3, .signalStop 3] :=
  castsSound_of_wellUsed _ (by decide)

/-- A server that has listened keeps a callback root, which its close takes for a
`StreamData`. -/
theorem closed_server_casts_root :
    ¬ machine.Always CastsSound machine.init
      [.tcpBind 0 0 0, .tcpListen 0 0, .close 0, .finishClose 0] := by
  decide

end HxcppLuv.Loop
