import HxcppLuv.Directory.Model
import Mathlib.Data.List.Nodup
import Mathlib.Algebra.Order.BigOperators.Group.List
import Mathlib.Algebra.Group.Action.Defs

/-!
Any number of overlapping `Directory.read` calls. Each call has a `uv_dirent_t`
of its own, but a worker stores its record, and a callback cleans up, wherever
`dirents` points by then. As long as the first finds the call's own record there
and the second none that waits to be delivered or is deleted, the calls share the
directory out: nothing is lost, doubled or given to the user without its name.
-/

namespace HxcppLuv.Directory

open Asio State

/-- What happens to a directory that is only read from. -/
def Label.ofReads : Label → Bool
  | .callRead iter => !iter
  | .take _ | .store _ | .deliver _ | .cleanup => true
  | _ => false

/-- A worker stores its record in its own `uv_dirent_t`, and no callback clears
one that waits to be delivered or is deleted. -/
def OwnDirents (s : State) : Label → Prop
  | .store i =>
      match s.phaseAt i with
      | some (.taken (some _)) => s.dirents = some i
      | _ => True
  | .cleanup =>
      match s.loop, s.dirents with
      | .user i, some j =>
          s.phaseAt i = some (.callback 1) →
            s.phaseAt j ≠ some (.done 1) ∧ s.phaseAt j ≠ some .released
      | _, _ => True
  | _ => True

instance : ∀ s l, Decidable (OwnDirents s l)
  | s, .store i => by
      simp only [OwnDirents]
      exact match s.phaseAt i with
        | some (.taken (some _)) => inferInstanceAs (Decidable (s.dirents = some i))
        | none | some .queued | some (.taken none) | some (.done _) | some (.callback _)
        | some .released => isTrue trivial
  | s, .cleanup => by
      simp only [OwnDirents]
      exact match s.loop, s.dirents with
        | .user _, some _ => inferInstanceAs (Decidable (_ → _ ∧ _))
        | .user _, none | .idle, _ | .issued _, _ => isTrue trivial
  | _, .callRead _ | _, .callClose | _, .take _ | _, .fail _ _ | _, .closedir _ | _, .deliver _
  | _, .nested | _, .finishClose _ => isTrue trivial

/-- The entry a request has consumed from the stream and not yet delivered. -/
def Request.carried (r : Request) : List Entry :=
  match r.phase with
  | .taken (some e) => [e.entry]
  | .done result => if 0 < result then [r.entry] else []
  | _ => []

namespace State

def carried (s : State) : List Entry := s.requests.flatMap Request.carried

def left (s : State) : List Entry := (entries s.stream).map Record.entry

def delivered (s : State) : List Entry :=
  s.reports.filterMap fun r =>
    match r.2 with
    | .success e => some e
    | .error _ => none

/-- Which of the calls were made by `iter`. -/
def iters (s : State) : List Bool := s.requests.map Request.iter

/-- The calls whose callback has run. -/
def fired (s : State) : List Nat := s.reports.map Prod.fst

end State

/-- Nothing is left to do for the calls made so far. -/
def Quiescent (s : State) : Prop :=
  ∀ l : Label, l.ofReads = true → (∀ iter, l ≠ .callRead iter) → step s l = none

structure SharedOut (es : List Record) (s : State) : Prop where
  once : s.fired.Nodup
  calls : ∀ i ∈ s.fired, i < s.requests.length
  kept : (s.delivered ++ s.carried ++ s.left).Perm ((entries es).map Record.entry)
  eof : ∀ i c, (i, .error c) ∈ s.reports → c = Code.eof
  intact : s.direntFault = false
  count : s.fired.length = s.requests.length →
    s.delivered.length = min s.requests.length (entries es).length
  fires : Quiescent s → s.fired.length = s.requests.length

/-- The callback has run or is running. -/
def Phase.called : Phase → Bool
  | .callback _ | .released => true
  | .queued | .taken _ | .done _ => false

/-- The worker has found the end of the stream. -/
def Phase.atEnd : Phase → Bool
  | .taken none => true
  | .done result => result = 0
  | _ => false

def Phase.valid : Phase → Prop
  | .done result | .callback result => result = 0 ∨ result = 1
  | _ => True

/-- At most the callback the loop is in is unfinished. -/
def LoopInv (s : State) : Prop :=
  match s.loop with
  | .idle => ∀ i result, s.phaseAt i ≠ some (.callback result)
  | .user i => (∃ result, s.phaseAt i = some (.callback result)) ∧
      ∀ j result, s.phaseAt j = some (.callback result) → j = i
  | .issued _ => False

structure OverlapInv (es : List Record) (s : State) : Prop where
  once : s.fired.Nodup
  called : ∀ i, i ∈ s.fired ↔ ∃ p, s.phaseAt i = some p ∧ p.called = true
  kept : ∀ x, s.delivered.count x + s.carried.count x + s.left.count x =
    ((entries es).map Record.entry).count x
  eof : ∀ i c, (i, .error c) ∈ s.reports → c = Code.eof
  intact : s.direntFault = false
  valid : ∀ i p, s.phaseAt i = some p → p.valid
  atEnd : ∀ i p, s.phaseAt i = some p → p.atEnd = true → s.left = []
  ended : ∀ i c, (i, .error c) ∈ s.reports → s.left = []
  loop : LoopInv s
  plain : ∀ b ∈ s.iters, b = false

theorem overlapInv_init (es : List Record) : OverlapInv es (machine es).init where
  once := List.nodup_nil
  called i := by simp [machine, fired, phaseAt]
  kept x := by simp [machine, delivered, carried, left]
  eof i c h := by cases h
  intact := rfl
  valid i p h := by simp [machine, phaseAt] at h
  atEnd i p h := by simp [machine, phaseAt] at h
  ended i c h := by cases h
  loop i result h := by simp [machine, phaseAt] at h
  plain b h := by cases h

theorem iters_setPhase (s : State) (i : Nat) (p : Phase) : (s.setPhase i p).iters = s.iters :=
  Slots.map_modify_of_eq fun _ _ => rfl

theorem iters_setEntry (s : State) (j : Nat) (f : Entry → Entry) :
    (s.setEntry j f).iters = s.iters :=
  Slots.map_modify_of_eq fun _ _ => rfl

section

variable {es : List Record} {s t : State} {i : Nat} {p q : Phase}

/-- A step outside the callbacks that takes one request on. -/
theorem LoopInv.advance (h : LoopInv s) (hi : s.phaseAt i = some q)
    (ht : ∀ j, t.phaseAt j = if j = i then some p else s.phaseAt j) (hloop : t.loop = s.loop)
    (hq : q.called = false) (hp : p.called = false) : LoopInv t := by
  have hback {j : Nat} {result : Int} (hj : t.phaseAt j = some (.callback result)) :
      s.phaseAt j = some (.callback result) := by
    rw [ht] at hj
    split at hj
    · cases hj
      cases hp
    · exact hj
  simp only [LoopInv, hloop] at h ⊢
  cases hl : s.loop with
  | idle =>
      rw [hl] at h
      exact fun j result hj => h j result (hback hj)
  | issued j =>
      rw [hl] at h
      exact h
  | user j =>
      rw [hl] at h
      obtain ⟨⟨result, hj⟩, honly⟩ := h
      refine ⟨⟨result, ?_⟩, fun j' result' hj' => honly j' result' (hback hj')⟩
      rw [ht, if_neg, hj]
      rintro rfl
      rw [hj] at hi
      cases hi
      cases hq

/-- A step that takes one request on and reports nothing. -/
theorem OverlapInv.advance (h : OverlapInv es s) (hi : s.phaseAt i = some q)
    (ht : ∀ j, t.phaseAt j = if j = i then some p else s.phaseAt j)
    (hreports : t.reports = s.reports) (hcalled : p.called = q.called) (hvalid : p.valid)
    (hend : p.atEnd = true → t.left = []) (hleft : s.left = [] → t.left = [])
    (hkept : ∀ x, t.carried.count x + t.left.count x = s.carried.count x + s.left.count x)
    (hintact : t.direntFault = s.direntFault) (hloop : LoopInv t) (hiters : t.iters = s.iters) :
    OverlapInv es t where
  once := by rw [fired, hreports]; exact h.once
  called j := by
    rw [fired, hreports, ht]
    apply (h.called j).trans
    split
    · subst j
      rw [hi]
      simp [hcalled]
    · rfl
  kept x := by
    have := h.kept x
    have := hkept x
    rw [delivered, hreports, ← delivered]
    omega
  eof := by rw [hreports]; exact h.eof
  intact := hintact.trans h.intact
  valid j r hj := by
    rw [ht] at hj
    split at hj
    · cases hj
      exact hvalid
    · exact h.valid j r hj
  atEnd j r hj hr := by
    rw [ht] at hj
    split at hj
    · cases hj
      exact hend hr
    · exact hleft (h.atEnd j r hj hr)
  ended j c hj := hleft (h.ended j c (hreports ▸ hj))
  loop := hloop
  plain := by rw [hiters]; exact h.plain

/-- A new phase exchanges what the request carried before for what it carries now. -/
theorem count_carried {r : Request} (hr : s.requests[i]? = some r)
    (ht : t.requests = (s.setPhase i p).requests) {old new : List Entry} (hold : r.carried = old)
    (hnew : Request.carried { r with phase := p } = new) (x : Entry) :
    t.carried.count x + old.count x = s.carried.count x + new.count x := by
  rw [State.carried, ht, ← hold, ← hnew]
  exact Slots.count_flatMap_modify Request.carried hr x

theorem carried_setEntry {j : Nat} {f : Entry → Entry}
    (ht : t.requests = (s.setEntry j f).requests) (hj : s.phaseAt j ≠ some (.done 1))
    (hvalid : ∀ i p, s.phaseAt i = some p → p.valid) : t.carried = s.carried := by
  rw [State.carried, ht]
  simp only [State.carried, State.setEntry, List.flatMap_def]
  congr 1
  apply Slots.map_modify_of_eq
  intro r hr
  have hphase := phaseAt_of_get hr
  have hv := hvalid j r.phase hphase
  rw [hphase] at hj
  simp only [Request.carried]
  cases hp : r.phase with
  | done result =>
      rw [hp] at hv hj
      cases hv with
      | inl h0 => simp [h0]
      | inr h1 => exact absurd (by rw [h1]) hj
  | queued | callback | released => rfl
  | taken e => cases e <;> rfl

theorem direntFault_setEntry {j : Nat} (f : Entry → Entry) (hj : s.phaseAt j ≠ some .released) :
    (s.setEntry j f).direntFault = s.direntFault := by
  have : (s.requests[j]?.map Request.phase == some .released) = false := beq_eq_false_iff_ne.mpr hj
  simp only [State.setEntry, this, Bool.or_false]

theorem overlapInv_take (h : OverlapInv es s) {e : Record} {rest : List Record}
    (hi : s.phaseAt i = some .queued) (hr : readdir s.stream = some (e, rest)) :
    OverlapInv es ({ s.useDir with stream := rest }.setPhase i (.taken (some e))) := by
  obtain ⟨r, hget, hphase⟩ := Option.map_eq_some_iff.mp hi
  have hleft : s.left = e.entry :: (entries rest).map Record.entry := by
    rw [State.left, readdir_some hr, List.map_cons]
  have ht := phaseAt_setPhase (s := { s.useDir with stream := rest }) (.taken (some e)) hi
  refine h.advance hi ht rfl rfl trivial (fun h => by cases h) ?_ (fun x => ?_) rfl
    (h.loop.advance hi ht rfl rfl rfl) (iters_setPhase _ i _)
  · rw [hleft]
    intro h
    cases h
  · have := count_carried (t := { s.useDir with stream := rest }.setPhase i (.taken (some e)))
      hget rfl (show r.carried = [] by simp only [Request.carried, hphase])
      (show _ = [e.entry] from rfl) x
    calc
      _ = s.carried.count x + [e.entry].count x + ((entries rest).map Record.entry).count x :=
        congrArg (· + ((entries rest).map Record.entry).count x) this
      _ = s.carried.count x + s.left.count x := by
        simp only [hleft, List.count_cons, List.count_nil]
        omega

theorem overlapInv_takeEnd (h : OverlapInv es s) (hi : s.phaseAt i = some .queued)
    (hr : readdir s.stream = none) :
    OverlapInv es ({ s.useDir with stream := [] }.setPhase i (.taken none)) := by
  obtain ⟨r, hget, hphase⟩ := Option.map_eq_some_iff.mp hi
  have hleft : s.left = [] := by rw [State.left, readdir_none hr, List.map_nil]
  have ht := phaseAt_setPhase (s := { s.useDir with stream := [] }) (.taken none) hi
  refine h.advance hi ht rfl rfl trivial (fun _ => rfl) (fun _ => rfl) (fun x => ?_) rfl
    (h.loop.advance hi ht rfl rfl rfl) (iters_setPhase _ i _)
  have := count_carried (t := { s.useDir with stream := [] }.setPhase i (.taken none))
    hget rfl (show r.carried = [] by simp only [Request.carried, hphase]) rfl x
  rw [hleft]
  exact this

theorem overlapInv_storeEnd (h : OverlapInv es s) (hi : s.phaseAt i = some (.taken none)) :
    OverlapInv es (s.useDir.setPhase i (.done 0)) := by
  obtain ⟨r, hget, hphase⟩ := Option.map_eq_some_iff.mp hi
  have ht := phaseAt_setPhase (s := s.useDir) (.done 0) hi
  refine h.advance hi ht rfl rfl (.inl rfl) (fun _ => h.atEnd i _ hi rfl) id (fun x => ?_) rfl
    (h.loop.advance hi ht rfl rfl rfl) (iters_setPhase _ i _)
  have := count_carried (t := s.useDir.setPhase i (.done 0))
    hget rfl (show r.carried = [] by simp only [Request.carried, hphase]) rfl x
  exact congrArg (· + s.left.count x) this

/-- The worker stores its record, in its own `uv_dirent_t`. -/
theorem overlapInv_store (h : OverlapInv es s) {e : Record}
    (hi : s.phaseAt i = some (.taken (some e))) (hown : s.dirents = some i) :
    OverlapInv es ((s.storeRecord e).setPhase i (.done 1)) := by
  obtain ⟨r, hget, hphase⟩ := Option.map_eq_some_iff.mp hi
  have ht := phaseAt_setPhase (s := s.storeRecord e) (.done 1)
    ((phaseAt_storeRecord s e i).trans hi)
  have hstate : s.storeRecord e = { s.useDir.setEntry i fun _ => e.entry with
      lost := s.lost ++ (s.nameAt i).toList } := by
    simp only [storeRecord, hown]
  have ht' : ∀ j, ((s.storeRecord e).setPhase i (.done 1)).phaseAt j =
      if j = i then some (.done 1) else s.phaseAt j := by
    intro j
    rw [ht, phaseAt_storeRecord]
  have hcarried : (s.storeRecord e).carried = s.carried := by
    rw [hstate]
    refine carried_setEntry (j := i) (f := fun _ => e.entry) rfl (fun hd => ?_) h.valid
    rw [hd] at hi
    cases hi
  have hget' : (s.storeRecord e).requests[i]? = some ⟨r.iter, .taken (some e), e.entry⟩ := by
    rw [hstate]
    refine (getElem?_setEntry s.useDir i i fun _ => e.entry).trans ?_
    rw [show s.useDir.requests[i]? = some r from hget, ← hphase]
    simp
  have hsame : (s.storeRecord e).loop = s.loop ∧ (s.storeRecord e).reports = s.reports ∧
      (s.storeRecord e).left = s.left ∧ (s.storeRecord e).iters = s.iters := by
    rw [hstate]
    exact ⟨rfl, rfl, rfl, iters_setEntry s.useDir i fun _ => e.entry⟩
  refine h.advance hi ht' hsame.2.1 rfl (.inr rfl) (fun h => by cases h) ?_ (fun x => ?_) ?_
    (h.loop.advance hi ht' hsame.1 rfl rfl) ((iters_setPhase _ i _).trans hsame.2.2.2)
  · intro hl
    exact hsame.2.2.1.trans hl
  · have := count_carried (t := (s.storeRecord e).setPhase i (.done 1)) hget' rfl rfl rfl x
    rw [hcarried] at this
    change _ + (s.storeRecord e).left.count x = _
    rw [hsame.2.2.1]
    exact congrArg (· + s.left.count x) (Nat.add_right_cancel this)
  · change (s.storeRecord e).direntFault = _
    rw [hstate]
    exact direntFault_setEntry (s := s.useDir) (fun _ => e.entry)
      (fun hd => by rw [show s.phaseAt i = _ from hd] at hi; cases hi)

theorem overlapInv_read (h : OverlapInv es s) {iter : Bool} (hiter : iter = false)
    (hl : ∀ i, s.loop ≠ .issued i) : OverlapInv es (s.read iter) := by
  have hold {j : Nat} {p : Phase} (hp : p ≠ .queued) (hj : (s.read iter).phaseAt j = some p) :
      s.phaseAt j = some p := by
    rw [phaseAt_read_if] at hj
    split at hj
    · exact absurd (Option.some.inj hj).symm hp
    · exact hj
  have hnew {j : Nat} {p : Phase} (hj : s.phaseAt j = some p) :
      (s.read iter).phaseAt j = some p := by
    rw [phaseAt_read_if, if_neg, hj]
    rintro rfl
    rw [phaseAt_length] at hj
    cases hj
  exact {
    once := h.once
    called := fun j => by
      refine (h.called j).trans ⟨fun ⟨p, hj, hp⟩ => ⟨p, hnew hj, hp⟩, fun ⟨p, hj, hp⟩ => ?_⟩
      exact ⟨p, hold (by rintro rfl; cases hp) hj, hp⟩
    kept := fun x => by
      have : (s.read iter).carried = s.carried := by
        simp [State.carried, State.read, State.useDir, Request.carried]
      rw [this]
      exact h.kept x
    eof := h.eof
    intact := h.intact
    valid := fun j p hj => by
      cases hp : p with
      | queued => trivial
      | taken | done | callback | released => exact hp ▸ h.valid j p (hold (by simp [hp]) hj)
    atEnd := fun j p hj hp => h.atEnd j p (hold (by rintro rfl; cases hp) hj) hp
    ended := h.ended
    loop := by
      have := h.loop
      simp only [LoopInv] at this ⊢
      change match s.loop with | .idle => _ | .user i => _ | .issued _ => _
      cases hloop : s.loop with
      | idle =>
          rw [hloop] at this
          exact fun j result hj => this j result (hold (by simp) hj)
      | user i =>
          rw [hloop] at this
          obtain ⟨⟨result, hi⟩, honly⟩ := this
          exact ⟨⟨result, hnew hi⟩, fun j r hj => honly j r (hold (by simp) hj)⟩
      | issued i => exact hl i hloop
    plain := fun b hb => by
      rw [State.iters, State.read, List.map_append, List.mem_append, List.map_singleton,
        List.mem_singleton] at hb
      cases hb with
      | inl hb => exact h.plain b hb
      | inr hb => exact hb.trans hiter }

/-- The one error a read without a failure reports is the end. -/
theorem error_of_report {reports : List (Nat × Result Entry Code)} {entry : Entry} {result : Int}
    {j : Nat} {c : Code} (hresult : result = 0 ∨ result = 1)
    (hj : (j, .error c) ∈ reports ++ [(i, State.report entry result)]) :
    (j, .error c) ∈ reports ∨ result = 0 ∧ c = Code.eof := by
  rw [List.mem_append, List.mem_singleton] at hj
  cases hj with
  | inl hj => exact .inl hj
  | inr hj =>
      apply Or.inr
      cases hresult with
      | inl h0 =>
          subst h0
          cases hj
          exact ⟨rfl, rfl⟩
      | inr h1 => subst h1; cases hj

/-- What a request carried is delivered by its callback. -/
theorem count_deliver {r : Request} {result : Int} (hr : s.requests[i]? = some r)
    (hp : r.phase = .done result) (hresult : result = 0 ∨ result = 1)
    (ht : t.requests = (s.setPhase i (.callback result)).requests)
    (hreports : t.reports = s.reports ++ [(i, State.report r.entry result)]) (x : Entry) :
    t.delivered.count x + t.carried.count x = s.delivered.count x + s.carried.count x := by
  cases hresult with
  | inl h0 =>
      subst h0
      have hcarried := count_carried hr ht (show r.carried = [] by simp [Request.carried, hp]) rfl x
      have hdelivered : t.delivered = s.delivered := by
        simp [delivered, hreports, State.report, List.filterMap_append]
      rw [hdelivered]
      exact congrArg (s.delivered.count x + ·) hcarried
  | inr h1 =>
      subst h1
      have hcarried := count_carried hr ht
        (show r.carried = [r.entry] by simp [Request.carried, hp]) (show _ = [] from rfl) x
      have hdelivered : t.delivered = s.delivered ++ [r.entry] := by
        simp [delivered, hreports, State.report, List.filterMap_append]
      rw [hdelivered, List.count_append]
      simp only [List.count_nil] at hcarried
      omega

/-- The callback is called with what its request carried. -/
theorem overlapInv_deliver (h : OverlapInv es s) {r : Request} {result : Int}
    (hl : s.loop = .idle) (hr : s.requests[i]? = some r) (hp : r.phase = .done result) :
    OverlapInv es { s.setPhase i (.callback result) with
      loop := .user i
      reports := s.reports ++ [(i, State.report r.entry result)] } := by
  have hi : s.phaseAt i = some (.done result) := by rw [phaseAt_of_get hr, hp]
  have ht := phaseAt_setPhase (.callback result) hi
  have hidle : ∀ j result, s.phaseAt j ≠ some (.callback result) := by
    have := h.loop
    rwa [LoopInv, hl] at this
  have hnot : i ∉ s.fired := by
    rw [h.called i]
    rintro ⟨p, hp, ho⟩
    rw [hi] at hp
    cases hp
    cases ho
  have hresult : result = 0 ∨ result = 1 := h.valid i _ hi
  exact {
    once := by
      change ((s.reports ++ [_]).map Prod.fst).Nodup
      rw [List.map_append, List.map_singleton, ← List.concat_eq_append]
      exact h.once.concat hnot
    called := fun j => by
      change j ∈ (s.reports ++ [_]).map Prod.fst ↔
        ∃ p, (s.setPhase i (.callback result)).phaseAt j = some p ∧ p.called = true
      rw [List.map_append, List.mem_append, ht]
      split
      · subst j
        simp [Phase.called]
      · rw [← h.called j, fired]
        simp [*]
    kept := fun x => by
      rw [← h.kept x]
      have hcount := count_deliver
        (t := { s.setPhase i (.callback result) with
          loop := .user i
          reports := s.reports ++ [(i, State.report r.entry result)] })
        hr hp hresult rfl rfl x
      exact congrArg (· + s.left.count x) hcount
    eof := fun j c hj => (error_of_report hresult hj).elim (h.eof j c) And.right
    intact := h.intact
    valid := fun j p hj => by
      replace hj := (ht j).symm.trans hj
      split at hj
      · cases hj
        exact hresult
      · exact h.valid j p hj
    atEnd := fun j p hj hp => by
      replace hj := (ht j).symm.trans hj
      split at hj
      · cases hj
        cases hp
      · exact h.atEnd j p hj hp
    ended := fun j c hj => by
      cases error_of_report hresult hj with
      | inl hj => exact h.ended j c hj
      | inr h0 => exact h.atEnd i _ hi (by simp [Phase.atEnd, h0.1])
    loop := by
      refine ⟨⟨result, (ht i).trans (if_pos rfl)⟩, fun j result' hj => ?_⟩
      replace hj := (ht j).symm.trans hj
      split at hj
      · assumption
      · exact absurd hj (hidle j result')
    plain := by
      change ∀ b ∈ (s.setPhase i (.callback result)).iters, _
      rw [iters_setPhase]
      exact h.plain }

/-- The end of the callback, which may clear the name of a request in flight, but
only one that has none yet. -/
theorem overlapInv_cleanup (h : OverlapInv es s) {result : Int} (hl : s.loop = .user i)
    (hi : s.phaseAt i = some (.callback result)) (hG : OwnDirents s .cleanup) :
    OverlapInv es (s.release i result) := by
  have hresult : result = 0 ∨ result = 1 := h.valid i _ hi
  have hneg : ¬ result < 0 := by omega
  have hclean : (s.readdirCleanup result).carried = s.carried ∧
      (s.readdirCleanup result).direntFault = s.direntFault ∧
      (s.readdirCleanup result).left = s.left ∧ (s.readdirCleanup result).iters = s.iters := by
    simp only [readdirCleanup]
    split
    · exact ⟨rfl, rfl, rfl, rfl⟩
    · rename_i j hj
      split
      · rename_i hpos
        have h1 : result = 1 := by omega
        subst h1
        simp only [OwnDirents, hl, hj] at hG
        obtain ⟨hdone, hreleased⟩ := hG hi
        exact ⟨carried_setEntry (f := fun d => { d with name := none }) rfl hdone h.valid,
          direntFault_setEntry (s := s.useDir) _ hreleased, rfl,
          iters_setEntry s.useDir j fun d => { d with name := none }⟩
      · exact ⟨rfl, rfl, rfl, rfl⟩
  have ht : ∀ j, (s.release i result).phaseAt j =
      if j = i then some .released else s.phaseAt j := by
    intro j
    split
    · subst j
      exact phaseAt_release_self result hi
    · exact phaseAt_release_ne s result (Ne.symm ‹_›)
  have hstate : ((s.release i result).requests =
        ((s.readdirCleanup result).setPhase i .released).requests ∧
      (s.release i result).direntFault = (s.readdirCleanup result).direntFault ∧
      (s.release i result).left = (s.readdirCleanup result).left) ∧
      (s.release i result).loop = .idle := by
    rw [release, if_neg hneg]
    exact ⟨⟨rfl, rfl, rfl⟩, rfl⟩
  obtain ⟨⟨hreq, hfault, hleft⟩, hidle⟩ := hstate
  obtain ⟨r, hget, hphase⟩ := Option.map_eq_some_iff.mp
    ((phaseAt_readdirCleanup s result i).trans hi)
  refine h.advance hi ht (reports_release s i result) rfl trivial (fun h => by cases h)
    (fun hl => hleft.trans (hclean.2.2.1.trans hl)) (fun x => ?_) (hfault.trans hclean.2.1) ?_ ?_
  · have := count_carried hget hreq (show r.carried = [] by simp only [Request.carried, hphase])
      rfl x
    rw [hclean.1] at this
    rw [hleft, hclean.2.2.1]
    exact congrArg (· + s.left.count x) this
  · have hloop := h.loop
    simp only [LoopInv, hl, hidle] at hloop ⊢
    intro j result' hj
    replace hj := (ht j).symm.trans hj
    split at hj
    · cases hj
    · exact absurd (hloop.2 j result' hj) ‹_›
  · rw [State.iters, hreq]
    exact (iters_setPhase _ i _).trans hclean.2.2.2

theorem overlapInv_step {l : Label} (h : OverlapInv es s) (ho : l.ofReads = true)
    (hG : OwnDirents s l) (hs : step s l = some t) : OverlapInv es t := by
  have hissued {i : Nat} (hl : s.loop = .issued i) : False := by
    have := h.loop
    rwa [LoopInv, hl] at this
  cases step_cases hs with
  | callRead iter hl => exact overlapInv_read h (by simpa [Label.ofReads] using ho) hl
  | takeEnd i hi hr => exact overlapInv_takeEnd h hi hr
  | take i e rest hi hr => exact overlapInv_take h hi hr
  | storeEnd i hi => exact overlapInv_storeEnd h hi
  | store i e hi =>
      simp only [OwnDirents, hi] at hG
      exact overlapInv_store h hi hG
  | deliver i r result hl hr hp => exact overlapInv_deliver h hl hr hp
  | cleanupUser i r result hl hr hp =>
      exact overlapInv_cleanup h hl (by rw [phaseAt_of_get hr, hp]) hG
  | cleanupIssued i result hl => exact (hissued hl).elim
  | callClose | fail | failName | closedir | nested | finishClose => cases ho

/-- A call whose callback has not run can be taken on, once the loop is idle. -/
theorem called_of_quiescent (h : OverlapInv es s) (hq : Quiescent s) (hi : s.phaseAt i = some p) :
    p.called = true := by
  obtain ⟨r, hr, rfl⟩ := Option.map_eq_some_iff.mp hi
  cases hp : r.phase with
  | callback | released => rfl
  | queued =>
      have := hq (.take i) rfl (by simp)
      rw [hp] at hi
      simp only [step, hi] at this
      split at this <;> cases this
  | taken e =>
      have := hq (.store i) rfl (by simp)
      rw [hp] at hi
      cases e <;> simp [step, hi] at this
  | done result =>
      have hloop := h.loop
      cases hl : s.loop with
      | idle =>
          have := hq (.deliver i) rfl (by simp)
          simp [step, hl, hr, hp] at this
      | issued j =>
          rw [LoopInv, hl] at hloop
          exact hloop.elim
      | user j =>
          rw [LoopInv, hl] at hloop
          obtain ⟨⟨result', hj⟩, -⟩ := hloop
          obtain ⟨r', hr', hp'⟩ := Option.map_eq_some_iff.mp hj
          have hcleanup := hq .cleanup rfl (by simp)
          obtain ⟨iter, phase, entry⟩ := r'
          cases hp'
          have hiter : iter = false := h.plain iter
            (List.mem_map.mpr ⟨_, List.mem_of_getElem? hr', rfl⟩)
          simp [step, hl, hr', hiter] at hcleanup

theorem lt_of_fired (h : OverlapInv es s) (hi : i ∈ s.fired) : i < s.requests.length := by
  obtain ⟨p, hp, -⟩ := (h.called i).mp hi
  obtain ⟨r, hr, -⟩ := Option.map_eq_some_iff.mp hp
  exact (List.getElem?_eq_some_iff.mp hr).1

theorem fired_subperm (h : OverlapInv es s) : s.fired.Subperm (List.range s.requests.length) :=
  List.subperm_of_subset h.once fun _ hi => List.mem_range.mpr (lt_of_fired h hi)

theorem carried_of_called (hcalled : ∀ r ∈ s.requests, r.phase.called = true) : s.carried = [] := by
  apply List.flatMap_eq_nil_iff.mpr
  intro r hr
  have := hcalled r hr
  cases hp : r.phase with
  | callback | released => simp [Request.carried, hp]
  | queued | taken | done => rw [hp] at this; cases this

theorem sharedOut_of_inv (h : OverlapInv es s) : SharedOut es s := by
  have hkept : (s.delivered ++ s.carried ++ s.left).Perm ((entries es).map Record.entry) := by
    rw [List.perm_iff_count]
    intro x
    rw [List.count_append, List.count_append]
    exact h.kept x
  refine ⟨h.once, fun i => lt_of_fired h, hkept, h.eof, h.intact, fun hall => ?_, fun hq => ?_⟩
  · have hperm := (fired_subperm h).perm_of_length_le (by rw [hall, List.length_range])
    have hcalled : ∀ r ∈ s.requests, r.phase.called = true := by
      intro r hr
      obtain ⟨i, hi⟩ := List.mem_iff_getElem?.mp hr
      have hlt := (List.getElem?_eq_some_iff.mp hi).1
      obtain ⟨p, hp, ho⟩ := (h.called i).mp (hperm.mem_iff.mpr (List.mem_range.mpr hlt))
      rw [phaseAt_of_get hi] at hp
      cases hp
      exact ho
    have hlen := hkept.length_eq
    rw [carried_of_called hcalled, List.append_nil, List.length_append, List.length_map] at hlen
    have hreports : s.reports.length = s.requests.length := (List.length_map _).symm.trans hall
    have hle : s.delivered.length ≤ s.reports.length := List.length_filterMap_le _ _
    by_cases herr : ∃ i c, (i, .error c) ∈ s.reports
    · obtain ⟨i, c, hic⟩ := herr
      rw [h.ended i c hic, List.length_nil] at hlen
      omega
    · have hsucc : s.delivered.length = s.reports.length := by
        apply List.filterMap_length_eq_length.mpr
        intro r hr
        cases hx : r.2 with
        | success e => rfl
        | error c => exact absurd ⟨r.1, c, hx ▸ hr⟩ herr
      omega
  · refine Nat.le_antisymm ?_ ?_
    · simpa using (fired_subperm h).length_le
    · have : (List.range s.requests.length).Subperm s.fired := by
        apply List.subperm_of_subset List.nodup_range
        intro i hi
        obtain ⟨r, hr⟩ : ∃ r, s.requests[i]? = some r :=
          ⟨_, List.getElem?_eq_getElem (List.mem_range.mp hi)⟩
        have hp := phaseAt_of_get hr
        exact (h.called i).mpr ⟨_, hp, called_of_quiescent h hq hp⟩
      simpa using this.length_le

end

/-- How many of its steps a request has taken. -/
def Phase.rank : Phase → Nat
  | .queued => 1
  | .taken _ => 2
  | .done _ => 3
  | .callback _ => 4
  | .released => 5

def State.taken (s : State) : Nat := (s.requests.map fun r => r.phase.rank).sum

theorem taken_setPhase {s t : State} {i : Nat} {p q : Phase}
    (ht : t.requests = (s.setPhase i p).requests) (hi : s.phaseAt i = some q)
    (hp : p.rank = q.rank + 1) : t.taken = s.taken + 1 := by
  obtain ⟨r, hr, rfl⟩ := Option.map_eq_some_iff.mp hi
  have := Slots.sum_map_modify (fun r : Request => r.phase.rank)
    (f := fun r => { r with phase := p }) hr
  change _ + r.phase.rank = s.taken + p.rank at this
  rw [State.taken, ht]
  exact Nat.add_right_cancel (this.trans (by omega))

theorem taken_setEntry (s : State) (j : Nat) (f : Entry → Entry) :
    (s.setEntry j f).taken = s.taken :=
  congrArg List.sum (Slots.map_modify_of_eq fun _ _ => rfl)

theorem taken_step {s t : State} {l : Label} (ho : l.ofReads = true) (hs : step s l = some t) :
    t.taken = s.taken + 1 := by
  have hrelease {i : Nat} {result : Int} (hi : s.phaseAt i = some (.callback result)) :
      (s.release i result).taken = s.taken + 1 := by
    have hclean : (s.readdirCleanup result).taken = s.taken := by
      simp only [readdirCleanup]
      split
      · rfl
      · split
        · exact taken_setEntry s.useDir _ fun d => { d with name := none }
        · rfl
    by_cases hr : result < 0
    · rw [release, if_pos hr]
      exact taken_setPhase rfl hi rfl
    · rw [release, if_neg hr, ← hclean]
      exact taken_setPhase rfl ((phaseAt_readdirCleanup s result i).trans hi) rfl
  cases step_cases hs with
  | callRead iter hl => simp [State.taken, State.read, State.useDir, Phase.rank]
  | takeEnd i hi | take i _ _ hi | storeEnd i hi => exact taken_setPhase rfl hi rfl
  | store i e hi =>
      have hstore : (s.storeRecord e).taken = s.taken := by
        simp only [storeRecord]
        split
        · rfl
        · exact taken_setEntry s.useDir _ fun _ => e.entry
      rw [← hstore]
      exact taken_setPhase rfl ((phaseAt_storeRecord s e i).trans hi) rfl
  | deliver i r result hl hr hp =>
      exact taken_setPhase rfl (by rw [phaseAt_of_get hr, hp]) rfl
  | cleanupUser i r result hl hr hp => exact hrelease (by rw [phaseAt_of_get hr, hp])
  | cleanupIssued i result hl hi => exact hrelease hi
  | callClose | fail | failName | closedir | nested | finishClose => cases ho

def ReadsApart (s : State) (l : Label) : Prop := l.ofReads = true ∧ OwnDirents s l

instance : ∀ s l, Decidable (ReadsApart s l) :=
  fun s l => inferInstanceAs (Decidable (l.ofReads = true ∧ OwnDirents s l))

theorem length_eq_taken {es : List Record} {s t : State} {as : List Label}
    (hG : (machine es).Throughout ReadsApart s as) (hrun : (machine es).run s as = some t) :
    t.taken = s.taken + as.length := by
  induction as generalizing s with
  | nil => cases hrun; rfl
  | cons a as ih =>
      obtain ⟨u, hu, hrest⟩ := Machine.run_cons_eq_some _ hrun
      obtain ⟨⟨ho, -⟩, hG'⟩ := hG u hu
      rw [ih hG' hrest, taken_step ho hu, List.length_cons]
      omega

theorem taken_le (s : State) : s.taken ≤ 5 * s.requests.length := by
  have := List.sum_le_card_nsmul (s.requests.map fun r => r.phase.rank) 5 (by
    intro n hn
    obtain ⟨r, -, rfl⟩ := List.mem_map.mp hn
    cases r.phase <;> simp [Phase.rank])
  rw [List.length_map, smul_eq_mul] at this
  rw [State.taken]
  omega

/-- Overlapping reads share the directory out as long as each stores and cleans up
in a `uv_dirent_t` of its own, and all of them are over after five steps each. -/
theorem reads_share_out (es : List Record) (as : List Label)
    (h : (machine es).Throughout ReadsApart (machine es).init as) :
    (machine es).Always (SharedOut es) (machine es).init as ∧
      ∀ t, (machine es).run (machine es).init as = some t →
        as.length ≤ 5 * t.requests.length := by
  refine ⟨?_, fun t hrun => ?_⟩
  · exact Machine.always_of_throughout (fun _ => sharedOut_of_inv)
      (fun _ _ _ hi hG => overlapInv_step hi hG.1 hG.2) (overlapInv_init es) h
  · have := length_eq_taken h hrun
    have := taken_le t
    have : (machine es).init.taken = 0 := rfl
    omega

/-- Two reads in flight at once, the second made after the first has its record. -/
theorem two_reads_share_out :
    (machine [⟨"a", .file⟩]).Always (SharedOut [⟨"a", .file⟩]) (machine [⟨"a", .file⟩]).init
      [.callRead false, .take 0, .store 0, .callRead false, .take 1, .deliver 0, .cleanup,
        .store 1, .deliver 1, .cleanup] :=
  (reads_share_out [⟨"a", .file⟩] _ (by decide)).1

/-- The second read points `dirents` at its own record before the first has stored:
the first call is told it succeeded and given an entry without a name. -/
theorem overlapping_reads_lose_entry :
    (machine [⟨"a", .file⟩]).Throughout (fun _ l => l.ofReads = true) (machine [⟨"a", .file⟩]).init
      [.callRead false, .callRead false, .take 0, .store 0, .deliver 0] ∧
    ¬ (machine [⟨"a", .file⟩]).Always (SharedOut [⟨"a", .file⟩]) (machine [⟨"a", .file⟩]).init
      [.callRead false, .callRead false, .take 0, .store 0, .deliver 0] := by
  refine ⟨by decide, fun h => ?_⟩
  have := (h.last rfl).kept
  revert this
  decide

end HxcppLuv.Directory
