import HxcppLuv.Directory.Model

/-!
`Directory.iter` on a directory nothing else is done to. The nested read points
`dirents` at its own record before the callback that made it has cleaned up, so
a worker that stores a record in between has its name freed. When none does, the
callback receives every entry in order and then the end, and the run is over
after five steps for each entry and four for the end.
-/

namespace HxcppLuv.Directory

open Asio State

/-- The state `iter` leaves behind: its first read is submitted. -/
def iterMachine (es : List Record) : Machine State Label where
  init := (machine es).init.read true
  step := step

/-- What happens to a directory that is only being iterated. -/
def Label.ofIter : Label → Bool
  | .take _ | .store _ | .deliver _ | .nested | .cleanup => true
  | _ => false

/-- No record is stored while a callback has still to clean up. -/
def StoresAfterCleanup (s : State) : Label → Prop
  | .store i =>
      match s.phaseAt i with
      | some (.taken (some _)) => s.loop = .idle
      | _ => True
  | _ => True

instance : ∀ s l, Decidable (StoresAfterCleanup s l)
  | s, .store i => by
      simp only [StoresAfterCleanup]
      split <;> infer_instance
  | _, .callRead _ | _, .callClose | _, .take _ | _, .fail _ _ | _, .closedir _ | _, .deliver _
  | _, .nested | _, .cleanup | _, .finishClose _ => isTrue trivial

def State.reported (s : State) : List (Result Entry Code) := s.reports.map Prod.snd

def successes (es : List Record) : List (Result Entry Code) :=
  es.map fun e => .success e.entry

def expected (es : List Record) : List (Result Entry Code) :=
  successes (entries es) ++ [.error Code.eof]

/-- The calls so far are the first of the expected ones, and when nothing is left
to happen they are all of them. -/
def Enumerated (es : List Record) (s : State) : Prop :=
  s.reported <+: expected es ∧
    ((∀ l : Label, l.ofIter = true → step s l = none) → s.reported = expected es)

/-- The read `n` is on its way, the `n` entries before it have been reported,
`left` is still in the stream, and the read has `k` steps of its own to go. -/
inductive Pending (E left : List Record) (n : Nat) (r : Request) : Nat → Prop where
  | queued (hp : r.phase = .queued) (hs : E.drop n = left) : Pending E left n r 3
  | taken (e : Record) (hp : r.phase = .taken (some e)) (hs : E.drop n = e :: left) :
      Pending E left n r 2
  | takenEnd (hp : r.phase = .taken none) (hs : E.drop n = []) : Pending E left n r 2
  | done (e : Record) (hp : r.phase = .done 1) (hs : E.drop n = e :: left)
      (he : r.entry = e.entry) : Pending E left n r 1
  | doneEnd (hp : r.phase = .done 0) (hs : E.drop n = []) : Pending E left n r 1

structure Waiting (E : List Record) (s : State) (n : Nat) (r : Request) (k : Nat) : Prop where
  last : s.requests.length = n + 1
  get : s.requests[n]? = some r
  iter : r.iter = true
  dirents : s.dirents = some n
  le : n ≤ E.length
  reported : s.reported = successes (E.take n)
  pending : Pending E (entries s.stream) n r k

/-- The reads before the `n`-th are over. -/
def Past (s : State) (n : Nat) : Prop := ∀ i < n, s.phaseAt i = some .released

/-- The states of an undisturbed iteration, with the number of steps left. -/
inductive IterInv (E : List Record) (s : State) : Nat → Prop where
  | waiting (n k : Nat) (r : Request) (hl : s.loop = .idle) (hw : Waiting E s n r k)
      (hpast : Past s n) : IterInv E s (5 * (E.length - n) + 1 + k)
  | issued (n k : Nat) (r : Request) (hl : s.loop = .issued n) (hw : Waiting E s (n + 1) r k)
      (hcb : s.phaseAt n = some (.callback 1)) (hstore : r.phase ≠ .done 1)
      (hpast : Past s n) : IterInv E s (5 * (E.length - (n + 1)) + 2 + k)
  | user (n : Nat) (r : Request) (hl : s.loop = .user n) (hlast : s.requests.length = n + 1)
      (hr : s.requests[n]? = some r) (hi : r.iter = true) (hp : r.phase = .callback 1)
      (hle : n + 1 ≤ E.length) (hrep : s.reported = successes (E.take (n + 1)))
      (hs : E.drop (n + 1) = entries s.stream) (hpast : Past s n) :
      IterInv E s (5 * (E.length - (n + 1)) + 6)
  | userEnd (n : Nat) (r : Request) (hl : s.loop = .user n) (hlast : s.requests.length = n + 1)
      (hr : s.requests[n]? = some r) (hp : r.phase = .callback 0)
      (hrep : s.reported = successes E ++ [.error Code.eof]) (hpast : Past s n) :
      IterInv E s 1
  | finished (n : Nat) (hl : s.loop = .idle) (hlast : s.requests.length = n)
      (hrep : s.reported = successes E ++ [.error Code.eof]) (hpast : Past s n) :
      IterInv E s 0

theorem iterInv_init (es : List Record) :
    IterInv (entries es) (iterMachine es).init (5 * (entries es).length + 4) :=
  .waiting 0 3 ⟨true, .queued, ⟨.unknown, none⟩⟩ rfl
    ⟨rfl, rfl, rfl, rfl, Nat.zero_le _, rfl, .queued rfl rfl⟩
    (fun i hi => absurd hi (Nat.not_lt_zero i))

theorem Past.setPhase {s : State} {n : Nat} (h : Past s n) (p : Phase) :
    Past (s.setPhase n p) n := by
  intro i hi
  rw [phaseAt_setPhase_ne s p (by omega)]
  exact h i hi

theorem Past.succ {s : State} {n : Nat} (h : Past s n) (hn : s.phaseAt n = some .released) :
    Past s (n + 1) := by
  intro i hi
  rcases Nat.lt_succ_iff_lt_or_eq.mp hi with hlt | rfl
  · exact h i hlt
  · exact hn

/-- A request that is neither over nor in its callback is the last one. -/
theorem eq_of_phase {s : State} {n i : Nat} {p : Phase} (hlast : s.requests.length = n + 1)
    (hpast : ∀ j < n, s.phaseAt j = some .released ∨ s.phaseAt j = some (.callback 1))
    (hi : s.phaseAt i = some p) (hp : p ≠ .released) (hq : p ≠ .callback 1) : i = n := by
  rcases Nat.lt_trichotomy i n with hlt | rfl | hgt
  · rcases hpast i hlt with h | h <;> rw [hi] at h <;> cases h <;> contradiction
  · rfl
  · have : s.requests[i]? = none := List.getElem?_eq_none (by omega)
    rw [State.phaseAt, this] at hi
    cases hi

theorem Waiting.setPhase {E : List Record} {s : State} {n k k' : Nat} {r : Request}
    {rest : List Record} {p : Phase} (h : Waiting E s n r k)
    (hpend : Pending E (entries rest) n { r with phase := p } k') :
    Waiting E ({ s.useDir with stream := rest }.setPhase n p) n { r with phase := p } k' where
  last := (length_setPhase _ _ _).trans h.last
  get := getElem?_setPhase_self p h.get
  iter := h.iter
  dirents := h.dirents
  le := h.le
  reported := h.reported
  pending := hpend

/-- The worker takes the next record. -/
theorem Waiting.take {E : List Record} {s t : State} {n k : Nat} {r : Request}
    (h : Waiting E s n r k) (hs : Step s (.take n) t) :
    ∃ r' k', k = k' + 1 ∧ Waiting E t n r' k' ∧ r'.phase ≠ .done 1 ∧ t.loop = s.loop ∧
      ∀ j ≠ n, t.phaseAt j = s.phaseAt j := by
  have hphase := phaseAt_of_get h.get
  cases hs with
  | takeEnd _ hi hr =>
      rw [hphase] at hi
      cases h.pending with
      | queued hp hs =>
          rw [readdir_none hr] at hs
          refine ⟨_, 2, rfl, h.setPhase (.takenEnd rfl hs), by simp, rfl, fun j hj => ?_⟩
          exact phaseAt_setPhase_ne _ _ hj.symm
      | taken _ hp | takenEnd hp | done _ hp | doneEnd hp => rw [hp] at hi; cases hi
  | take _ e rest hi hr =>
      rw [hphase] at hi
      cases h.pending with
      | queued hp hs =>
          rw [readdir_some hr] at hs
          refine ⟨_, 2, rfl, h.setPhase (.taken e rfl hs), by simp, rfl, fun j hj => ?_⟩
          exact phaseAt_setPhase_ne _ _ hj.symm
      | taken _ hp | takenEnd hp | done _ hp | doneEnd hp => rw [hp] at hi; cases hi

/-- The worker found the end and is done. -/
theorem Waiting.storeEnd {E : List Record} {s : State} {n k : Nat} {r : Request}
    (h : Waiting E s n r k) (hi : s.phaseAt n = some (.taken none)) :
    k = 2 ∧ Waiting E (s.useDir.setPhase n (.done 0)) n { r with phase := .done 0 } 1 := by
  rw [phaseAt_of_get h.get] at hi
  cases h.pending with
  | takenEnd hp hs => exact ⟨rfl, h.setPhase (.doneEnd rfl hs)⟩
  | queued hp | taken _ hp | done _ hp | doneEnd hp => rw [hp] at hi; cases hi

/-- The worker stores the record it took, in the read's own `uv_dirent_t`. -/
theorem Waiting.store {E : List Record} {s : State} {n k : Nat} {r : Request} {e : Record}
    (h : Waiting E s n r k) (hi : s.phaseAt n = some (.taken (some e))) :
    k = 2 ∧ Waiting E ((s.storeRecord e).setPhase n (.done 1)) n ⟨r.iter, .done 1, e.entry⟩ 1 := by
  rw [phaseAt_of_get h.get] at hi
  cases h.pending with
  | taken e' hp hs =>
      rw [hp] at hi
      cases hi
      have hget : (s.useDir.setEntry n fun _ => e.entry).requests[n]? =
          some ⟨r.iter, r.phase, e.entry⟩ := by
        rw [getElem?_setEntry, show s.useDir.requests[n]? = some r from h.get]
        simp
      refine ⟨rfl, ?_⟩
      simp only [storeRecord, h.dirents]
      exact {
        last := by
          rw [length_setPhase]
          exact (length_setEntry s.useDir n fun _ => e.entry).trans h.last
        get := getElem?_setPhase_self (r := ⟨r.iter, r.phase, e.entry⟩) _ hget
        iter := h.iter
        dirents := h.dirents
        le := h.le
        reported := h.reported
        pending := .done e rfl hs rfl }
  | queued hp | takenEnd hp | done _ hp | doneEnd hp => rw [hp] at hi; cases hi

/-- What the cleanup of the read before it does to a request that has no record:
its name is cleared, and it had none. -/
theorem Pending.clear {E left : List Record} {n k : Nat} {r : Request} (d : Entry)
    (h : Pending E left n r k) (hr : r.phase ≠ .done 1) :
    Pending E left n { r with entry := d } k := by
  cases h with
  | queued hp hs => exact .queued hp hs
  | taken e hp hs => exact .taken e hp hs
  | takenEnd hp hs => exact .takenEnd hp hs
  | done e hp hs he => exact absurd hp hr
  | doneEnd hp hs => exact .doneEnd hp hs

theorem Past.congr {s t : State} {n : Nat} (h : Past s n)
    (heq : ∀ i < n, t.phaseAt i = s.phaseAt i) : Past t n :=
  fun i hi => (heq i hi).trans (h i hi)

theorem Waiting.release {E : List Record} {s : State} {n k : Nat} {r : Request}
    (h : Waiting E s (n + 1) r k) (hr : r.phase ≠ .done 1) :
    Waiting E (s.release n 1) (n + 1) { r with entry := { r.entry with name := none } } k := by
  have hget : (s.useDir.setEntry (n + 1) fun d => { d with name := none }).requests[n + 1]? =
      some { r with entry := { r.entry with name := none } } := by
    rw [getElem?_setEntry, show s.useDir.requests[n + 1]? = some r from h.get]
    simp
  simp only [State.release, readdirCleanup, h.dirents]
  exact {
    last := by
      simp only [State.setPhase, List.length_modify]
      exact (length_setEntry s.useDir (n + 1) fun d => { d with name := none }).trans h.last
    get := (getElem?_setPhase_ne _ _ (Nat.ne_of_lt (Nat.lt_succ_self n))).trans hget
    iter := h.iter
    dirents := h.dirents
    le := h.le
    reported := h.reported
    pending := h.pending.clear _ hr }

/-- The read's callback starts: it reports its entry, or the end. -/
theorem IterInv.deliver {E : List Record} {s : State} {n k : Nat} {r : Request} {result : Int}
    (hw : Waiting E s n r k) (hpast : Past s n) (hp : r.phase = .done result) :
    ∃ k', 5 * (E.length - n) + 1 + k = k' + 1 ∧
      IterInv E { s.setPhase n (.callback result) with
        loop := .user n
        reports := s.reports ++ [(n, State.report r.entry result)] } k' := by
  have hrep (x : Result Entry Code) :
      ((s.reports ++ [(n, x)]).map Prod.snd) = s.reported ++ [x] := by
    simp [State.reported]
  have hget := getElem?_setPhase_self (.callback result) hw.get
  cases hw.pending with
  | done e hd hs he =>
      rw [hp] at hd
      cases hd
      obtain ⟨hn, hcons⟩ := List.getElem?_eq_some_iff.mp
        (show E[n]? = some e by rw [← List.head?_drop, hs, List.head?_cons])
      refine ⟨5 * (E.length - (n + 1)) + 6, by omega, ?_⟩
      refine .user n _ rfl ((length_setPhase _ _ _).trans hw.last) hget hw.iter rfl hn ?_ ?_
        (hpast.setPhase _)
      · change (s.reports ++ [_]).map Prod.snd = _
        rw [hrep, hw.reported, successes, successes, List.take_succ_eq_append_getElem hn,
          List.map_append, hcons]
        simp [State.report, he]
      · rw [← List.tail_drop, hs, List.tail_cons]
        rfl
  | doneEnd hd hs =>
      rw [hp] at hd
      cases hd
      have hn : E.length ≤ n := List.drop_eq_nil_iff.mp hs
      refine ⟨1, by omega, ?_⟩
      refine .userEnd n _ rfl ((length_setPhase _ _ _).trans hw.last) hget rfl ?_
        (hpast.setPhase _)
      change (s.reports ++ [_]).map Prod.snd = _
      rw [hrep, hw.reported, List.take_of_length_le hn]
      rfl
  | queued hd | taken _ hd | takenEnd hd => rw [hp] at hd; cases hd

/-- Nothing can happen to a request that is over or in its callback. -/
theorem quiet_of_last {s : State} {n i : Nat} {p q : Phase} (hlast : s.requests.length = n + 1)
    (hpast : Past s n) (hn : s.phaseAt n = some q) (hi : s.phaseAt i = some p)
    (hp : p ≠ .released) (hc : p ≠ .callback 1) : p = q := by
  have := eq_of_phase hlast (fun j hj => .inl (hpast j hj)) hi hp hc
  rw [this, hn] at hi
  exact (Option.some.inj hi).symm

theorem iterInv_waiting {E : List Record} {s t : State} {l : Label} {n k : Nat} {r : Request}
    (hl : s.loop = .idle) (hw : Waiting E s n r k) (hpast : Past s n) (ho : l.ofIter = true)
    (hs : Step s l t) :
    ∃ k', 5 * (E.length - n) + 1 + k = k' + 1 ∧ IterInv E t k' := by
  have hself {i : Nat} {p : Phase} (hi : s.phaseAt i = some p) (hp : p ≠ .released)
      (hc : p ≠ .callback 1) : i = n :=
    eq_of_phase hw.last (fun j hj => .inl (hpast j hj)) hi hp hc
  have htake {i : Nat} (hi : s.phaseAt i = some .queued) (hs : Step s (.take i) t) :
      ∃ k', 5 * (E.length - n) + 1 + k = k' + 1 ∧ IterInv E t k' := by
    cases hself hi (by simp) (by simp)
    obtain ⟨r', k', rfl, hw', -, hloop, hrest⟩ := hw.take hs
    exact ⟨_, by omega, .waiting n k' r' (hloop.trans hl) hw'
      (hpast.congr fun j hj => hrest j (Nat.ne_of_lt hj))⟩
  cases hs with
  | takeEnd i hi hr => exact htake hi (.takeEnd i hi hr)
  | take i e rest hi hr => exact htake hi (.take i e rest hi hr)
  | storeEnd i hi =>
      cases hself hi (by simp) (by simp)
      obtain ⟨rfl, hw'⟩ := hw.storeEnd hi
      exact ⟨_, by omega, .waiting n 1 _ hl hw' (hpast.setPhase _)⟩
  | store i e hi =>
      cases hself hi (by simp) (by simp)
      obtain ⟨rfl, hw'⟩ := hw.store hi
      refine ⟨_, by omega, .waiting n 1 _ ?_ hw' ?_⟩
      · rw [← hl]
        simp only [State.setPhase, storeRecord]
        split <;> rfl
      · refine Past.setPhase (fun j hj => ?_) _
        rw [phaseAt_storeRecord]
        exact hpast j hj
  | deliver i r' result _ hr hp =>
      cases hself (phaseAt_of_get hr) (by simp [hp]) (by simp [hp])
      cases hw.get.symm.trans hr
      exact IterInv.deliver hw hpast hp
  | nested _ _ h | cleanupUser _ _ _ h | cleanupIssued _ _ h => rw [hl] at h; cases h
  | callRead | callClose | fail | failName | closedir | finishClose => cases ho

theorem iterInv_issued {E : List Record} {s t : State} {l : Label} {n k : Nat} {r : Request}
    (hl : s.loop = .issued n) (hw : Waiting E s (n + 1) r k)
    (hcb : s.phaseAt n = some (.callback 1)) (hstore : r.phase ≠ .done 1) (hpast : Past s n)
    (ho : l.ofIter = true) (hG : StoresAfterCleanup s l) (hs : Step s l t) :
    ∃ k', 5 * (E.length - (n + 1)) + 2 + k = k' + 1 ∧ IterInv E t k' := by
  have hself {i : Nat} {p : Phase} (hi : s.phaseAt i = some p) (hp : p ≠ .released)
      (hc : p ≠ .callback 1) : i = n + 1 := by
    refine eq_of_phase hw.last (fun j hj => ?_) hi hp hc
    cases Nat.lt_succ_iff_lt_or_eq.mp hj with
    | inl hlt => exact .inl (hpast j hlt)
    | inr heq => exact .inr (heq ▸ hcb)
  have htake {i : Nat} (hi : s.phaseAt i = some .queued) (hs : Step s (.take i) t) :
      ∃ k', 5 * (E.length - (n + 1)) + 2 + k = k' + 1 ∧ IterInv E t k' := by
    cases hself hi (by simp) (by simp)
    obtain ⟨r', k', rfl, hw', hne, hloop, hrest⟩ := hw.take hs
    exact ⟨_, by omega, .issued n k' r' (hloop.trans hl) hw'
      ((hrest n (by omega)).trans hcb) hne (hpast.congr fun j hj => hrest j (by omega))⟩
  cases hs with
  | takeEnd i hi hr => exact htake hi (.takeEnd i hi hr)
  | take i e rest hi hr => exact htake hi (.take i e rest hi hr)
  | storeEnd i hi =>
      cases hself hi (by simp) (by simp)
      obtain ⟨rfl, hw'⟩ := hw.storeEnd hi
      refine ⟨_, by omega, .issued n 1 _ hl hw' ?_ (by simp) ?_⟩
      · exact (phaseAt_setPhase_ne _ _ (by omega)).trans hcb
      · exact hpast.congr fun j hj => phaseAt_setPhase_ne _ _ (by omega)
  | store i e hi =>
      simp only [StoresAfterCleanup, hi, hl] at hG
      cases hG
  | cleanupIssued i result h hi =>
      rw [hl] at h
      cases h
      rw [hcb] at hi
      cases hi
      have hpast' : Past (s.release n 1) (n + 1) :=
        (hpast.congr fun j hj => phaseAt_release_ne s 1 (by omega)).succ
          (phaseAt_release_self 1 hcb)
      exact ⟨_, by omega, .waiting (n + 1) k _ rfl (hw.release hstore) hpast'⟩
  | deliver _ _ _ h | nested _ _ h | cleanupUser _ _ _ h => rw [hl] at h; cases h
  | callRead | callClose | fail | failName | closedir | finishClose => cases ho

theorem iterInv_user {E : List Record} {s t : State} {l : Label} {n : Nat} {r : Request}
    (hl : s.loop = .user n) (hlast : s.requests.length = n + 1) (hr : s.requests[n]? = some r)
    (hi : r.iter = true) (hp : r.phase = .callback 1) (hle : n + 1 ≤ E.length)
    (hrep : s.reported = successes (E.take (n + 1)))
    (hd : E.drop (n + 1) = entries s.stream) (hpast : Past s n) (ho : l.ofIter = true)
    (hs : Step s l t) :
    ∃ k', 5 * (E.length - (n + 1)) + 6 = k' + 1 ∧ IterInv E t k' := by
  have hn : s.phaseAt n = some (.callback 1) := by rw [phaseAt_of_get hr, hp]
  have hquiet {i : Nat} {p : Phase} (h : s.phaseAt i = some p) (hp : p ≠ .released) :
      p = .callback 1 := by
    by_contra hc
    exact hc (quiet_of_last hlast hpast hn h hp hc)
  cases hs with
  | nested i result h hi' hpos =>
      rw [hl] at h
      cases h
      refine ⟨_, by omega, .issued n 3 ⟨true, .queued, ⟨.unknown, none⟩⟩ rfl ?_ ?_ (by simp) ?_⟩
      · exact {
          last := by simp [State.read, hlast]
          get := hlast ▸ getElem?_read_last s true
          iter := rfl
          dirents := by simp [State.read, hlast]
          le := hle
          reported := hrep
          pending := .queued rfl hd }
      · exact (phaseAt_read s true (by omega)).trans hn
      · exact hpast.congr fun j hj => phaseAt_read s true (by omega)
  | cleanupUser i r' result h hr' hp' hend =>
      rw [hl] at h
      cases h
      rw [hr] at hr'
      cases hr'
      rw [hp] at hp'
      cases hp'
      exact absurd (hend hi) (by decide)
  | takeEnd i hi | take i _ _ hi | storeEnd i hi | store i _ hi =>
      cases hquiet hi (by simp)
  | deliver _ _ _ h | cleanupIssued _ _ h => rw [hl] at h; cases h
  | callRead | callClose | fail | failName | closedir | finishClose => cases ho

theorem iterInv_userEnd {E : List Record} {s t : State} {l : Label} {n : Nat} {r : Request}
    (hl : s.loop = .user n) (hlast : s.requests.length = n + 1) (hr : s.requests[n]? = some r)
    (hp : r.phase = .callback 0) (hrep : s.reported = successes E ++ [.error Code.eof])
    (hpast : Past s n) (ho : l.ofIter = true) (hs : Step s l t) : IterInv E t 0 := by
  have hn : s.phaseAt n = some (.callback 0) := by rw [phaseAt_of_get hr, hp]
  cases hs with
  | cleanupUser i r' result h hr' hp' =>
      rw [hl] at h
      cases h
      rw [hr] at hr'
      cases hr'
      rw [hp] at hp'
      cases hp'
      have hpast' : Past (s.release n 0) (n + 1) :=
        (hpast.congr fun j hj => phaseAt_release_ne s 0 (by omega)).succ
          (phaseAt_release_self 0 hn)
      refine .finished (n + 1) rfl ((length_release s n 0).trans hlast) ?_ hpast'
      rw [State.reported, reports_release]
      exact hrep
  | nested i result h hi hpos =>
      rw [hl] at h
      cases h
      rw [hn] at hi
      cases hi
      exact absurd hpos (by decide)
  | takeEnd i hi | take i _ _ hi | storeEnd i hi | store i _ hi =>
      cases quiet_of_last hlast hpast hn hi (by simp) (by simp)
  | deliver _ _ _ h | cleanupIssued _ _ h => rw [hl] at h; cases h
  | callRead | callClose | fail | failName | closedir | finishClose => cases ho

theorem iterInv_finished {s t : State} {l : Label} {n : Nat}
    (hl : s.loop = .idle) (hlast : s.requests.length = n) (hpast : Past s n)
    (ho : l.ofIter = true) (hs : Step s l t) : False := by
  have hquiet {i : Nat} {p : Phase} (hi : s.phaseAt i = some p) : p = .released := by
    obtain ⟨r, hr, -⟩ := Option.map_eq_some_iff.mp hi
    have hlt := (List.getElem?_eq_some_iff.mp hr).1
    rw [hpast i (hlast ▸ hlt)] at hi
    exact (Option.some.inj hi).symm
  cases hs with
  | takeEnd i hi | take i _ _ hi | storeEnd i hi | store i _ hi => cases hquiet hi
  | deliver i r result _ hr hp =>
      have := hquiet (phaseAt_of_get hr)
      rw [hp] at this
      cases this
  | nested _ _ h | cleanupUser _ _ _ h | cleanupIssued _ _ h => rw [hl] at h; cases h
  | callRead | callClose | fail | failName | closedir | finishClose => cases ho

/-- Every step of the iteration brings its end one step nearer. -/
theorem iterInv_step {E : List Record} {s t : State} {l : Label} {k : Nat} (h : IterInv E s k)
    (ho : l.ofIter = true) (hG : StoresAfterCleanup s l) (hs : step s l = some t) :
    ∃ k', k = k' + 1 ∧ IterInv E t k' := by
  have hs := step_cases hs
  cases h with
  | waiting n k r hl hw hpast => exact iterInv_waiting hl hw hpast ho hs
  | issued n k r hl hw hcb hstore hpast => exact iterInv_issued hl hw hcb hstore hpast ho hG hs
  | user n r hl hlast hr hi hp hle hrep hd hpast =>
      exact iterInv_user hl hlast hr hi hp hle hrep hd hpast ho hs
  | userEnd n r hl hlast hr hp hrep hpast =>
      exact ⟨0, rfl, iterInv_userEnd hl hlast hr hp hrep hpast ho hs⟩
  | finished n hl hlast hrep hpast => exact (iterInv_finished hl hlast hpast ho hs).elim

/-- As long as steps are left, one can be taken. -/
theorem iterInv_progress {E : List Record} {s : State} {k : Nat} (h : IterInv E s (k + 1)) :
    ∃ l : Label, l.ofIter = true ∧ step s l ≠ none := by
  generalize hk : k + 1 = m at h
  cases h with
  | waiting n k r hl hw hpast =>
      have hphase := phaseAt_of_get hw.get
      cases hw.pending with
      | queued hp hs =>
          refine ⟨.take n, rfl, ?_⟩
          rw [hp] at hphase
          simp only [step, hphase]
          split <;> simp
      | taken _ hp | takenEnd hp =>
          refine ⟨.store n, rfl, ?_⟩
          rw [hp] at hphase
          simp [step, hphase]
      | done _ hp | doneEnd hp =>
          refine ⟨.deliver n, rfl, ?_⟩
          simp [step, hl, hw.get, hp]
  | issued n k r hl hw hcb =>
      refine ⟨.cleanup, rfl, ?_⟩
      simp [step, hl, hcb]
  | user n r hl hlast hr hi hp =>
      refine ⟨.nested, rfl, ?_⟩
      obtain ⟨iter, phase, entry⟩ := r
      cases hi
      cases hp
      simp [step, hl, hr]
  | userEnd n r hl hlast hr hp =>
      refine ⟨.cleanup, rfl, ?_⟩
      obtain ⟨iter, phase, entry⟩ := r
      cases hp
      simp [step, hl, hr]
  | finished => cases hk

theorem enumerated_of_iterInv {es : List Record} {s : State} {k : Nat}
    (h : IterInv (entries es) s k) : Enumerated es s := by
  have hpre (n : Nat) : successes ((entries es).take n) <+: expected es := by
    refine List.IsPrefix.trans ?_ (List.prefix_append _ _)
    exact (List.take_prefix n (entries es)).map _
  refine ⟨?_, fun hend => ?_⟩
  · cases h with
    | waiting n k r hl hw => exact hw.reported ▸ hpre n
    | issued n k r hl hw => exact hw.reported ▸ hpre (n + 1)
    | user n r hl hlast hr hi hp hle hrep => exact hrep ▸ hpre (n + 1)
    | userEnd n r hl hlast hr hp hrep | finished n hl hlast hrep =>
        exact hrep ▸ List.prefix_rfl
  · cases k with
    | succ k =>
        obtain ⟨l, ho, hl⟩ := iterInv_progress h
        exact absurd (hend l ho) hl
    | zero =>
        generalize hk : 0 = m at h
        cases h with
        | finished n hl hlast hrep => exact hrep
        | waiting | issued | user | userEnd => omega

def Undisturbed (s : State) (l : Label) : Prop := l.ofIter = true ∧ StoresAfterCleanup s l

instance : ∀ s l, Decidable (Undisturbed s l) :=
  fun s l => inferInstanceAs (Decidable (l.ofIter = true ∧ StoresAfterCleanup s l))

theorem length_le_of_iterInv {es : List Record} {E : List Record} {s t : State} {as : List Label}
    {k : Nat} (h : IterInv E s k) (hG : (iterMachine es).Throughout Undisturbed s as)
    (hrun : (iterMachine es).run s as = some t) : as.length ≤ k := by
  induction as generalizing s k with
  | nil => exact Nat.zero_le k
  | cons a as ih =>
      obtain ⟨u, hu, hrest⟩ := Machine.run_cons_eq_some _ hrun
      obtain ⟨⟨ho, hstore⟩, hG'⟩ := hG u hu
      obtain ⟨k', rfl, h'⟩ := iterInv_step h ho hstore hu
      exact Nat.succ_le_succ (ih h' hG' hrest)

/-- When no worker stores a record under a callback that has still to clean up,
`iter` reports every entry in order and then the end, and it does end. -/
theorem iter_enumerates (es : List Record) (as : List Label)
    (h : (iterMachine es).Throughout Undisturbed (iterMachine es).init as) :
    (iterMachine es).Always (Enumerated es) (iterMachine es).init as ∧
      ∀ t, (iterMachine es).run (iterMachine es).init as = some t →
        as.length ≤ 5 * (entries es).length + 4 := by
  refine ⟨?_, fun t hrun => length_le_of_iterInv (iterInv_init es) h hrun⟩
  refine Machine.always_of_throughout (I := fun s => ∃ k, IterInv (entries es) s k) ?_ ?_
    ⟨_, iterInv_init es⟩ h
  · intro s hs
    obtain ⟨k, hk⟩ := hs
    exact enumerated_of_iterInv hk
  · intro s l t hs hG ht
    obtain ⟨k, hk⟩ := hs
    obtain ⟨k', -, h'⟩ := iterInv_step hk hG.1 hG.2 ht
    exact ⟨k', h'⟩

/-- One entry, with the worker always after the cleanup. -/
theorem iter_one_entry :
    (iterMachine [⟨"a", .file⟩]).Always (Enumerated [⟨"a", .file⟩])
      (iterMachine [⟨"a", .file⟩]).init
      [.take 0, .store 0, .deliver 0, .nested, .take 1, .cleanup, .store 1, .deliver 1, .cleanup] :=
  (iter_enumerates [⟨"a", .file⟩] _ (by decide)).1

/-- The second record is stored before the first callback cleans up, which then
clears the second name: the user is given an entry without one. -/
theorem iter_reports_null_name :
    (iterMachine [⟨"a", .file⟩, ⟨"b", .file⟩]).Throughout (fun _ l => l.ofIter = true)
      (iterMachine [⟨"a", .file⟩, ⟨"b", .file⟩]).init
      [.take 0, .store 0, .deliver 0, .nested, .take 1, .store 1, .cleanup, .deliver 1] ∧
    ((iterMachine [⟨"a", .file⟩, ⟨"b", .file⟩]).run (iterMachine [⟨"a", .file⟩, ⟨"b", .file⟩]).init
      [.take 0, .store 0, .deliver 0, .nested, .take 1, .store 1, .cleanup, .deliver 1]).map
        State.reported =
      some [.success ⟨.file, some "a"⟩, .success ⟨.file, none⟩] ∧
    ¬ (iterMachine [⟨"a", .file⟩, ⟨"b", .file⟩]).Always
        (fun s => s.reported <+: expected [⟨"a", .file⟩, ⟨"b", .file⟩])
      (iterMachine [⟨"a", .file⟩, ⟨"b", .file⟩]).init
      [.take 0, .store 0, .deliver 0, .nested, .take 1, .store 1, .cleanup, .deliver 1] := by
  decide

end HxcppLuv.Directory
