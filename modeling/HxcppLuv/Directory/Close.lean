import HxcppLuv.Directory.Model

/-!
`Directory.close` against the reads issued before it. Closing cancels nothing: a
worker may run `uv__fs_closedir` while a read is still queued, running, or has a
callback whose cleanup goes through the `uv_dir_t`. It is safe exactly to free
the directory when every read has been cleaned up or has failed.
-/

namespace HxcppLuv.Directory

open State

/-- A read that will not go through the `uv_dir_t` again: it is over, or it has
failed, and the failure path does not clean up. -/
def Phase.quiet : Phase → Bool
  | .released => true
  | .done result | .callback result => result < 0
  | .queued | .taken _ => false

def Settled (s : State) : Prop := ∀ r ∈ s.requests, r.phase.quiet = true

/-- A read the worker has returned from. -/
def Phase.completed : Phase → Bool
  | .done _ | .callback _ | .released => true
  | .queued | .taken _ => false

/-- Nothing has gone through the freed `uv_dir_t`, and every read completed before
it was freed; a pending one would have no way to its callback but through it. -/
def CloseSafe (s : State) : Prop :=
  s.dirFault = false ∧ (s.freed = true → ∀ r ∈ s.requests, r.phase.completed = true)

/-- The user issues nothing after `close`. -/
def NothingAfterClose (s : State) : Label → Prop
  | .callRead _ | .callClose => s.closes = []
  | _ => True

/-- The worker frees the directory only when every read is settled. -/
def ClosesSettled (s : State) : Label → Prop
  | .closedir _ => Settled s
  | _ => True

instance : DecidablePred Settled := fun s => inferInstanceAs (Decidable (∀ r ∈ s.requests, _))

instance : DecidablePred CloseSafe := fun _ => inferInstanceAs (Decidable (_ ∧ (_ → _)))

instance : ∀ s l, Decidable (NothingAfterClose s l)
  | s, .callRead _ | s, .callClose => inferInstanceAs (Decidable (s.closes = []))
  | _, .take _ | _, .fail _ _ | _, .store _ | _, .closedir _ | _, .deliver _ | _, .nested
  | _, .cleanup | _, .finishClose _ => isTrue trivial

instance : ∀ s l, Decidable (ClosesSettled s l)
  | s, .closedir _ => inferInstanceAs (Decidable (Settled s))
  | _, .callRead _ | _, .callClose | _, .take _ | _, .fail _ _ | _, .store _ | _, .deliver _
  | _, .nested | _, .cleanup | _, .finishClose _ => isTrue trivial

structure CloseInv (s : State) : Prop where
  unharmed : s.dirFault = false
  settled : s.freed = true → Settled s
  once : s.closes.length ≤ 1
  done : s.freed = true → ∃ p, s.closes = [p] ∧ p ≠ .queued

theorem closeInv_init (es : List Record) : CloseInv (machine es).init where
  unharmed := rfl
  settled hf := by cases hf
  once := Nat.zero_le 1
  done hf := by cases hf

theorem Phase.completed_of_quiet {p : Phase} (h : p.quiet = true) : p.completed = true := by
  cases p with
  | done _ | callback _ | released => rfl
  | queued | taken _ => cases h

theorem closeSafe_of_closeInv {s : State} (h : CloseInv s) : CloseSafe s :=
  ⟨h.unharmed, fun hf r hr => Phase.completed_of_quiet (h.settled hf r hr)⟩

theorem settled_setPhase {s : State} {i : Nat} {p : Phase} (h : Settled s)
    (hp : p.quiet = true) : Settled (s.setPhase i p) := by
  intro r hr
  obtain ⟨j, hj⟩ := List.mem_iff_getElem?.mp hr
  simp only [setPhase, List.getElem?_modify] at hj
  cases hs : s.requests[j]? with
  | none => simp [hs] at hj
  | some q =>
      simp only [hs, Option.map_eq_map, Option.map_some, Option.some.injEq] at hj
      subst hj
      split
      · exact hp
      · exact h q (List.mem_of_getElem? hs)

theorem useDir_eq {s : State} (h : CloseInv s) (hf : s.freed = false) : s.useDir = s := by
  have hd := h.unharmed
  cases s
  simp_all [useDir]

theorem CloseInv.of_live {s t : State} (h : CloseInv s) (hf : s.freed = false)
    (hfreed : t.freed = s.freed) (hfault : t.dirFault = s.dirFault)
    (hcloses : t.closes = s.closes) : CloseInv t where
  unharmed := hfault.trans h.unharmed
  settled := fun ht => by rw [hfreed, hf] at ht; cases ht
  once := hcloses ▸ h.once
  done := fun ht => by rw [hfreed, hf] at ht; cases ht

/-- A read that is not quiet shows the directory is still there. -/
theorem live_of_phase {s : State} {i : Nat} {p : Phase} (h : CloseInv s)
    (hi : s.phaseAt i = some p) (hp : p.quiet = false) : s.freed = false := by
  obtain ⟨r, hr, rfl⟩ := Option.map_eq_some_iff.mp hi
  cases hf : s.freed with
  | false => rfl
  | true =>
      have := h.settled hf r (List.mem_of_getElem? hr)
      rw [hp] at this
      cases this

/-- The directory is there as long as nobody asked to close it. -/
theorem live_of_closes_nil {s : State} (h : CloseInv s) (hnil : s.closes = []) :
    s.freed = false := by
  cases hf : s.freed with
  | false => rfl
  | true =>
      obtain ⟨p, hp, -⟩ := h.done hf
      rw [hnil] at hp
      cases hp

/-- A closedir that has yet to run finds the directory there. -/
theorem live_of_pending_close {s : State} {k : Nat} (h : CloseInv s)
    (hk : s.closes[k]? = some .queued) : s.freed = false := by
  cases hf : s.freed with
  | false => rfl
  | true =>
      obtain ⟨p, hp, hq⟩ := h.done hf
      rw [hp, List.getElem?_singleton] at hk
      split at hk
      · exact absurd (Option.some.inj hk) hq
      · cases hk

theorem closeInv_release {s : State} {i : Nat} {result : Int} (h : CloseInv s)
    (hi : s.phaseAt i = some (.callback result)) : CloseInv (s.release i result) := by
  by_cases hr : result < 0
  · simp only [release, if_pos hr]
    exact ⟨h.unharmed, fun hf => settled_setPhase (h.settled hf) rfl, h.once, h.done⟩
  · have hf := live_of_phase h hi (by simpa [Phase.quiet] using hr)
    have hcl : ∀ u : State, u = s.readdirCleanup result →
        u.freed = s.freed ∧ u.dirFault = s.dirFault ∧ u.closes = s.closes := by
      rintro u rfl
      simp only [readdirCleanup, useDir_eq h hf]
      split
      · trivial
      · split <;> exact ⟨rfl, rfl, rfl⟩
    obtain ⟨hfreed, hfault, hcloses⟩ := hcl _ rfl
    simp only [release, if_neg hr]
    exact h.of_live hf hfreed hfault hcloses

theorem closeInv_step {s t : State} {l : Label} (h : CloseInv s)
    (hG : NothingAfterClose s l ∧ ClosesSettled s l) (hs : step s l = some t) : CloseInv t := by
  obtain ⟨hlate, hsettled⟩ := hG
  cases step_cases hs with
  | callRead iter hl =>
      have hf := live_of_closes_nil h hlate
      rw [State.read, useDir_eq h hf]
      exact h.of_live hf rfl rfl rfl
  | callClose hl =>
      have hnil : s.closes = [] := hlate
      refine ⟨h.unharmed, h.settled, by simp [close, hnil], fun hf => ?_⟩
      have hlive := live_of_closes_nil h hnil
      exact absurd (hlive.symm.trans hf) Bool.false_ne_true
  | takeEnd i hi hr | take i e rest hi hr | fail i code hi hc | storeEnd i hi =>
      have hf := live_of_phase h hi rfl
      rw [useDir_eq h hf]
      exact h.of_live hf rfl rfl rfl
  | failName i code e hi hc =>
      have hf := live_of_phase h hi rfl
      have hst : s.storeNull.freed = s.freed ∧ s.storeNull.dirFault = s.dirFault ∧
          s.storeNull.closes = s.closes := by
        simp only [storeNull, useDir_eq h hf]
        split <;> exact ⟨rfl, rfl, rfl⟩
      exact h.of_live hf hst.1 hst.2.1 hst.2.2
  | store i e hi =>
      have hf := live_of_phase h hi rfl
      have hst : (s.storeRecord e).freed = s.freed ∧ (s.storeRecord e).dirFault = s.dirFault ∧
          (s.storeRecord e).closes = s.closes := by
        simp only [storeRecord, useDir_eq h hf]
        split <;> exact ⟨rfl, rfl, rfl⟩
      exact h.of_live hf hst.1 hst.2.1 hst.2.2
  | closedir k hk =>
      rw [useDir_eq h (live_of_pending_close h hk)]
      obtain ⟨hlt, -⟩ := List.getElem?_eq_some_iff.mp hk
      have hlen := h.once
      obtain ⟨p, hp⟩ := List.length_eq_one_iff.mp (show s.closes.length = 1 by omega)
      have hk0 : k = 0 := by omega
      exact ⟨h.unharmed, fun _ => hsettled, by simpa using h.once,
        fun _ => ⟨.done, by simp [hp, hk0], by simp⟩⟩
  | deliver i r result hl hr hp =>
      refine ⟨h.unharmed, fun hf => settled_setPhase (h.settled hf) ?_, h.once, h.done⟩
      have := h.settled hf r (List.mem_of_getElem? hr)
      rwa [hp] at this
  | nested i result hl hi hpos =>
      have hf := live_of_phase h hi (by simpa [Phase.quiet] using Int.le_of_lt hpos)
      rw [State.read, useDir_eq h hf]
      exact h.of_live hf rfl rfl rfl
  | cleanupUser i r result hl hr hp hlast =>
      exact closeInv_release h (by rw [phaseAt, hr, Option.map_some, hp])
  | cleanupIssued i result hl hi => exact closeInv_release h hi
  | finishClose k hl hk =>
      refine ⟨h.unharmed, h.settled, by simpa using h.once, fun hf => ?_⟩
      obtain ⟨p, hp, hq⟩ := h.done hf
      cases k with
      | zero => exact ⟨.finished, by simp [hp], by simp⟩
      | succ k => exact ⟨p, by simp [hp], hq⟩

/-- Whatever the workers' order, closing is safe as long as none of them frees the
directory under a read that is not settled. -/
theorem closeSafe_of_settled (es : List Record) (as : List Label)
    (hlate : (machine es).Throughout NothingAfterClose (machine es).init as)
    (hsettled : (machine es).Throughout ClosesSettled (machine es).init as) :
    (machine es).Always CloseSafe (machine es).init as :=
  Machine.always_of_throughout (fun _ => closeSafe_of_closeInv) (fun _ _ _ => closeInv_step)
    (closeInv_init es) (hlate.and hsettled)

/-- A read, and a close asked for inside its callback but run after it. -/
theorem closeSafe_after_callback :
    (machine [⟨"a", .file⟩]).Always CloseSafe (machine [⟨"a", .file⟩]).init
      [.callRead false, .take 0, .store 0, .deliver 0, .callClose, .cleanup, .closedir 0,
        .finishClose 0] :=
  closeSafe_of_settled _ _ (by decide) (by decide)

/-- An empty directory iterated and closed on the end, as the README does: the
worker frees the directory before the callback that asked for it has cleaned up. -/
theorem close_on_eof_frees_under_callback :
    (machine []).Throughout NothingAfterClose (machine []).init
      [.callRead true, .take 0, .store 0, .deliver 0, .callClose, .closedir 0, .cleanup] ∧
    ¬ (machine []).Always CloseSafe (machine []).init
      [.callRead true, .take 0, .store 0, .deliver 0, .callClose, .closedir 0, .cleanup] := by
  decide

end HxcppLuv.Directory
