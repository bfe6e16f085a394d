import Mathlib.Data.List.Nodup
import Mathlib.Data.List.Perm.Subperm
import HxcppLuv.Async.Wakeup

/-!
The calls of `uv_async_send` under way and the loop come to an end together: after a bounded
number of their accesses and turns, in any order, every call has returned and was followed by
the callback of its handle, unless the handle was closed, and no close waits for a call.
-/

namespace HxcppLuv.Async

open Slots

/-- The steps of the calls under way and of the loop; the others come from the program. -/
def Label.internal : Label → Bool
  | sender _ | poll | read | move | scan | ret | spin => true
  | init _ | send _ | close _ => false

/-- No close spins, every call has returned, and those on open handles are served. -/
structure Settled (s : State) : Prop where
  spinning : s.spinning = none
  returned : ∀ x ∈ s.senders, x.next = .returned
  served : ∀ x ∈ s.senders, ∀ k, s.handles[x.handle]? = some k → k.phase = .opened →
    x.served = true

section Stuck

variable {c : Channel} {s : State}

theorem access_isSome {i : Nat} {x : Sender} {k : Handle} (hi : s.senders[i]? = some x)
    (hk : s.handles[x.handle]? = some k) (hx : x.next ≠ .returned) : (s.access c i).isSome := by
  simp only [State.access, hi, hk]
  cases hnext : x.next with
  | returned => exact absurd hnext hx
  | load | setBusy | exchange | write | clearBusy => rfl

theorem returned_of_stuck (hinv : Inv s)
    (h : ∀ a : Label, a.internal = true → step c s a = none) :
    ∀ x ∈ s.senders, x.next = .returned := by
  intro x hx
  by_contra hnext
  obtain ⟨i, hi⟩ := List.mem_iff_getElem?.mp hx
  have hk := List.getElem?_eq_getElem (hinv.senders x hx)
  have hsome := access_isSome (c := c) hi hk hnext
  have hnone : s.access c i = none := h (.sender i) rfl
  rw [hnone] at hsome
  cases hsome

/-- A loop with nothing to do is outside of `uv__async_io`, and does not spin. -/
theorem outside_of_stuck (hinv : Inv s)
    (h : ∀ a : Label, a.internal = true → step c s a = none) :
    s.spinning = none ∧ s.place = .outside ∧ s.bytes = 0 := by
  have hreturned := returned_of_stuck hinv h
  have hspinning : s.spinning = none := by
    cases hs : s.spinning with
    | none => rfl
    | some j =>
        have hstep := h .spin rfl
        simp only [step, hs] at hstep
        have hk := List.getElem?_eq_getElem (hinv.spinning j hs).1
        have hinside : s.tally j Sender.inside = 0 := by
          refine total_eq_zero fun x hx => ?_
          simp [Sender.inside, hreturned x hx]
        rw [hk, Option.map_some, (hinv.handles j _ hk).busy, hinside] at hstep
        cases hstep
  have hplace : s.place = .outside := by
    cases hp : s.place with
    | outside => rfl
    | read =>
        have := h .read rfl
        simp [step, hp] at this
    | move =>
        have := h .move rfl
        simp [step, hp] at this
    | scan =>
        have := h .scan rfl
        simp [step, hp] at this
    | callback =>
        have := h .ret rfl
        simp [step, hp, hspinning] at this
  refine ⟨hspinning, hplace, ?_⟩
  by_contra hbytes
  have := h .poll rfl
  simp [step, hplace, hspinning, Nat.pos_of_ne_zero hbytes] at this

theorem settled_of_stuck (hinv : Inv s)
    (h : ∀ a : Label, a.internal = true → step c s a = none) : Settled s := by
  have hreturned := returned_of_stuck hinv h
  obtain ⟨hspinning, hplace, hbytes⟩ := outside_of_stuck hinv h
  refine ⟨hspinning, hreturned, fun x hx k hk hphase => ?_⟩
  by_contra hserved
  have hkept := hinv.handles x.handle k hk
  obtain ⟨i, hi⟩ := List.mem_iff_getElem?.mp hx
  have hle := toNat_le_tally (p := Sender.owed) hi
  rw [show x.owed = true by simp [Sender.owed, Sender.before, hreturned x hx, hserved]] at hle
  rcases hkept.due hphase (hkept.owed hle) with hdue | ⟨y, hy, hwrite⟩ | hdue | hdue | hdue
  · omega
  · rw [hreturned y hy] at hwrite
    cases hwrite
  · simp [hplace] at hdue
  · simp [hplace] at hdue
  · rw [hinv.queue (by simp [hplace]) (by simp [hplace])] at hdue
    cases hdue

end Stuck

/-- What a round of `uv__async_io` takes at most, with the wakeup that starts it. -/
def State.round (s : State) : Nat := 2 * s.handles.length + 5

def Sender.weight (round : Nat) (x : Sender) : Nat :=
  match x.next with
  | .load => round + 5
  | .setBusy => round + 4
  | .exchange => round + 3
  | .write => round + 2
  | .clearBusy => 1
  | .returned => 0

/-- What is left of the round the loop is in. -/
def State.left (s : State) : Nat :=
  match s.place with
  | .outside => 0
  | .read => 2 * s.asyncHandles.length + 3
  | .move => 2 * s.asyncHandles.length + 2
  | .scan => 2 * s.queue.length + 1
  | .callback => 2 * s.queue.length + 2

/-- A bound on the steps of the calls under way and of the loop. -/
def State.potential (s : State) : Nat :=
  total (Sender.weight s.round) s.senders + s.bytes * s.round + s.left +
    s.spinning.toList.length

section Potential

variable {c : Channel} {s t : State}

theorem length_asyncHandles (hinv : Inv s) : s.asyncHandles.length ≤ s.handles.length := by
  have hnodup : s.asyncHandles.Nodup := by
    refine List.nodup_iff_count_le_one.mpr fun h => ?_
    by_cases hin : h ∈ s.asyncHandles
    · have hk := List.getElem?_eq_getElem (hinv.known h (List.mem_append_left _ hin))
      have hlisted := (hinv.handles h _ hk).listed
      rw [List.count_append] at hlisted
      split at hlisted <;> omega
    · rw [List.count_eq_zero.mpr hin]
      exact Nat.zero_le 1
  have hsub : s.asyncHandles ⊆ List.range s.handles.length := fun h hin =>
    List.mem_range.mpr (hinv.known h (List.mem_append_left _ hin))
  have := (hnodup.subperm hsub).length_le
  rwa [List.length_range] at this

theorem round_setNext {i : Nat} {a : Access} {h : Nat} {f : Handle → Handle} :
    ((s.setHandle h f).setNext i a).round = s.round := by
  simp only [State.round, State.setNext, State.setHandle, List.length_modify]

/-- The next access of a call leaves it with less to do, the wakeup it makes included. -/
theorem potential_setNext {i : Nat} {x : Sender} {a : Access} (hi : s.senders[i]? = some x)
    (hsenders : t.senders = s.senders.modify i fun x => { x with next := a })
    (hround : t.round = s.round) (hleft : t.left = s.left) (hspinning : t.spinning = s.spinning)
    (hlt : (t.bytes = s.bytes ∧ Sender.weight s.round { x with next := a } < x.weight s.round) ∨
      (t.bytes ≤ s.bytes + 1 ∧
        Sender.weight s.round { x with next := a } + s.round < x.weight s.round)) :
    t.potential < s.potential := by
  have htotal := total_modify (f := fun x => { x with next := a }) (Sender.weight s.round) hi
  simp only [State.potential, hround, hleft, hspinning, hsenders]
  rcases hlt with ⟨hbytes, hlt⟩ | ⟨hbytes, hlt⟩
  · rw [hbytes]
    omega
  · have hmul := Nat.mul_le_mul_right s.round hbytes
    rw [Nat.add_mul, Nat.one_mul] at hmul
    omega

theorem potential_accessed {i : Nat} {x : Sender} {k : Handle} (hi : s.senders[i]? = some x)
    (ht : Accessed c s i x k t) : t.potential < s.potential := by
  cases ht with
  | loaded hx | load hx =>
      exact potential_setNext hi rfl rfl rfl rfl (.inl ⟨rfl, by simp [Sender.weight, hx]⟩)
  | setBusy hx | won hx | lost hx | clearBusy hx =>
      refine potential_setNext hi rfl round_setNext rfl rfl (.inl ⟨rfl, ?_⟩)
      simp [Sender.weight, hx]
  | write hx =>
      refine potential_setNext hi rfl rfl rfl rfl (.inr ⟨?_, ?_⟩)
      · simp only [State.setNext, State.wakeup]
        split <;> omega
      · simp only [Sender.weight, hx]
        omega

theorem potential_drain (hinv : Inv s)
    (hplace : s.place = .outside ∧ 0 < s.bytes ∨ s.place = .read) :
    (s.drain c).potential < s.potential := by
  have hlength := length_asyncHandles hinv
  -- what is read starts at most one round, and pays for it
  have paid : ∀ (n : Nat) (place : Place), 0 < n → n ≤ s.bytes → place = .read ∨ place = .move →
      State.potential { s with bytes := s.bytes - n, place := place } < s.potential := by
    intro n place hpos hle hnew
    have hmul := Nat.mul_le_mul_right s.round (show s.bytes - n + 1 ≤ s.bytes by omega)
    rw [Nat.add_mul, Nat.one_mul] at hmul
    have hleft : State.left { s with bytes := s.bytes - n, place := place } ≤
        2 * s.asyncHandles.length + 3 := by
      rcases hnew with rfl | rfl <;> simp [State.left]
    have hround : s.round = 2 * s.handles.length + 5 := rfl
    change total (Sender.weight s.round) s.senders + (s.bytes - n) * s.round +
      State.left { s with bytes := s.bytes - n, place := place } + s.spinning.toList.length < _
    unfold State.potential
    omega
  have unpaid : s.bytes = 0 → State.potential { s with bytes := 0, place := .move } <
      s.potential := by
    intro hzero
    have hread : s.place = .read := hplace.resolve_left fun h => by omega
    change total (Sender.weight s.round) s.senders + 0 * s.round +
      (2 * s.asyncHandles.length + 2) + s.spinning.toList.length < _
    have hleft : s.left = 2 * s.asyncHandles.length + 3 := by
      simp only [State.left, hread]
    unfold State.potential
    rw [hleft, hzero]
    omega
  by_cases hbytes : s.bytes = 0
  · have hdrain : s.drain c = { s with bytes := 0, place := .move } := by
      simp [State.drain, hbytes]
    rw [hdrain]
    exact unpaid hbytes
  · unfold State.drain
    split
    · refine paid (min 1024 s.bytes) _ (by omega) (Nat.min_le_right ..) ?_
      split
      · exact .inl rfl
      · exact .inr rfl
    · have := paid s.bytes .move (by omega) (Nat.le_refl _) (.inr rfl)
      rwa [Nat.sub_self] at this

theorem potential_turn (hplace : s.place = .scan) : s.turn.potential < s.potential := by
  have hleft : s.left = 2 * s.queue.length + 1 := by simp only [State.left, hplace]
  unfold State.turn
  split
  · change total (Sender.weight s.round) s.senders + s.bytes * s.round + 0 +
      s.spinning.toList.length < _
    unfold State.potential
    omega
  · rename_i h rest hq
    rw [hq, List.length_cons] at hleft
    have skip : State.potential { s with
        queue := rest, asyncHandles := s.asyncHandles ++ [h] } < s.potential := by
      change total (Sender.weight s.round) s.senders + s.bytes * s.round +
        State.left { s with queue := rest, asyncHandles := s.asyncHandles ++ [h] } +
          s.spinning.toList.length < _
      have hnew : State.left { s with queue := rest, asyncHandles := s.asyncHandles ++ [h] } =
          2 * rest.length + 1 := by simp only [State.left, hplace]
      rw [hnew]
      unfold State.potential
      omega
    dsimp only
    split
    · exact skip
    · split
      · have hround : State.round (State.take s h) = s.round := by
          simp only [State.round, State.take, State.setHandle, List.length_modify]
        have htotal : total (Sender.weight s.round) (s.take h).senders =
            total (Sender.weight s.round) s.senders := total_map fun x _ => by
          split <;> rfl
        change total (Sender.weight (s.take h).round) (s.take h).senders +
          s.bytes * (s.take h).round + _ + s.spinning.toList.length < _
        rw [hround, htotal]
        unfold State.potential
        split
        · change _ + _ + (2 * rest.length + 2) + _ < _
          omega
        · change _ + _ + (2 * rest.length + 1) + _ < _
          omega
      · exact skip

theorem potential_closed {h : Nat} (hspinning : s.spinning = some h)
    (hplace : s.place = .outside ∨ s.place = .callback) :
    (s.closed h).potential < s.potential := by
  have hround : (s.closed h).round = s.round := by
    simp only [State.round, State.closed, State.setHandle, List.length_modify]
  have hleft : (s.closed h).left ≤ s.left := by
    have := List.length_erase_le (a := h) (l := s.queue)
    rcases hplace with hplace | hplace
    · simp [State.left, State.closed, State.setHandle, hplace]
    · simp only [State.left, State.closed, State.setHandle, hplace]
      omega
  simp only [State.potential, hround, hspinning]
  change total (Sender.weight s.round) s.senders + s.bytes * s.round + (s.closed h).left + 0 < _
  simp only [Option.toList_some, List.length_singleton]
  omega

theorem potential_step {a : Label} (hinv : Inv s) (ha : a.internal = true)
    (ht : step c s a = some t) : t.potential < s.potential := by
  cases stepped ht with
  | init | send | close => cases ha
  | access hi _ ht => exact potential_accessed hi ht
  | poll _ hplace hbytes => exact potential_drain hinv (.inl ⟨hplace, hbytes⟩)
  | read hplace => exact potential_drain hinv (.inr hplace)
  | move hplace =>
      have hold : s.left = 2 * s.asyncHandles.length + 2 := by simp only [State.left, hplace]
      change total (Sender.weight s.round) s.senders + s.bytes * s.round +
        (2 * s.asyncHandles.length + 1) + s.spinning.toList.length < _
      unfold State.potential
      omega
  | scan hplace => exact potential_turn hplace
  | ret _ hplace =>
      have hold : s.left = 2 * s.queue.length + 2 := by simp only [State.left, hplace]
      change total (Sender.weight s.round) s.senders + s.bytes * s.round +
        (2 * s.queue.length + 1) + s.spinning.toList.length < _
      unfold State.potential
      omega
  | spin hspinning => exact potential_closed hspinning (hinv.spinning _ hspinning).2

end Potential

/-- From `s` on, the calls under way and the loop come to an end by themselves. -/
def Finishes (c : Channel) (s : State) : Prop :=
  ∀ bs t, (∀ b ∈ bs, Label.internal b = true) → (machine c).run s bs = some t →
    bs.length ≤ s.potential ∧
      ((∀ a : Label, a.internal = true → step c t a = none) → Settled t)

theorem every_send_is_served (c : Channel) (as : List Label) :
    (machine c).Always (Finishes c) (machine c).init as := by
  refine Machine.always_of_step (I := Inv) (fun s hinv bs t hbs hrun => ?_)
    (fun _ _ _ hinv ht => inv_step hinv ht) (inv_init c)
  obtain ⟨ht, hle⟩ := Machine.length_le_of_measure (M := machine c) (I := Inv)
    (D := fun a => a.internal = true) (f := State.potential)
    (fun s a t hinv ha hst => ⟨inv_step hinv hst, potential_step hinv ha hst⟩) hinv hbs hrun
  exact ⟨by omega, fun hstuck => settled_of_stuck ht hstuck⟩

end HxcppLuv.Async
