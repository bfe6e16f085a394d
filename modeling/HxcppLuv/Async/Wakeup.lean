import HxcppLuv.Core.Slots
import HxcppLuv.Async.Steps

/-!
No call of `uv_async_send` is lost: the flag it leaves is seen by the loop, whatever the accesses
of other threads in between. The calls of a callback are no more than those of
`uv_async_send`, and none follows the end of `uv__async_close`.
-/

namespace HxcppLuv.Async

open Slots

/-- The calls of `uv_async_send` on a handle that satisfy `p`. -/
def State.tally (s : State) (h : Nat) (p : Sender → Bool) : Nat :=
  total (fun x => if x.handle = h then (p x).toNat else 0) s.senders

def Sender.inside (x : Sender) : Bool :=
  match x.next with
  | .exchange | .write | .clearBusy => true
  | .load | .setBusy | .returned => false

def Sender.before (x : Sender) : Bool :=
  match x.next with
  | .load | .setBusy | .exchange => true
  | .write | .clearBusy | .returned => false

def Sender.writing (x : Sender) : Bool := x.next = .write

/-- It is through with the flag, and the loop has not taken it since it began. -/
def Sender.owed (x : Sender) : Bool := !x.before && !x.served

/-- The loop is about to look at the handle: it can be woken, will be, or is on its way. -/
def Due (s : State) (h : Nat) : Prop :=
  0 < s.bytes ∨ (∃ x ∈ s.senders, x.next = .write) ∨ s.place = .read ∨ s.place = .move ∨
    h ∈ s.queue

/-- What is kept of each handle. -/
structure Kept (s : State) (h : Nat) (k : Handle) : Prop where
  busy : k.busy = s.tally h Sender.inside
  shut : k.phase ≠ .opened → k.pending = true
  spinning : k.phase = .spinning ↔ s.spinning = some h
  quiet : k.phase = .closed → s.tally h Sender.writing = 0
  listed : (s.asyncHandles ++ s.queue).count h = if k.phase = .closed then 0 else 1
  due : k.phase = .opened → k.pending = true → Due s h
  owed : 0 < s.tally h Sender.owed → k.pending = true
  calls : k.calls + (if k.phase = .opened ∧ k.pending then 1 else 0) + s.tally h Sender.before ≤
    s.tally h fun _ => true

structure Inv (s : State) : Prop where
  handles : All (Kept s) s.handles
  senders : ∀ x ∈ s.senders, x.handle < s.handles.length
  known : ∀ h ∈ s.asyncHandles ++ s.queue, h < s.handles.length
  queue : s.place ≠ .scan → s.place ≠ .callback → s.queue = []
  spinning : ∀ h, s.spinning = some h →
    h < s.handles.length ∧ (s.place = .outside ∨ s.place = .callback)

theorem Inv.unspinning {s : State} (hinv : Inv s) (houtside : s.place ≠ .outside)
    (hcallback : s.place ≠ .callback) : s.spinning = none := by
  cases hs : s.spinning with
  | none => rfl
  | some h =>
      obtain ⟨-, hplace | hplace⟩ := hinv.spinning h hs
      · exact absurd hplace houtside
      · exact absurd hplace hcallback

section Tally

variable {s : State} {i h : Nat} {x : Sender} {p : Sender → Bool} {a : Access}

theorem tally_setNext (hi : s.senders[i]? = some x) :
    (s.setNext i a).tally x.handle p + (p x).toNat =
      s.tally x.handle p + (p { x with next := a }).toNat := by
  have := total_modify (f := fun x => { x with next := a })
    (fun y : Sender => if y.handle = x.handle then (p y).toNat else 0) hi
  simpa [State.tally, State.setNext] using this

theorem tally_setNext_ne (hi : s.senders[i]? = some x) (hne : x.handle ≠ h) :
    (s.setNext i a).tally h p = s.tally h p := by
  have := total_modify (f := fun x => { x with next := a })
    (fun y : Sender => if y.handle = h then (p y).toNat else 0) hi
  simpa [State.tally, State.setNext, hne] using this

theorem toNat_le_tally (hi : s.senders[i]? = some x) : (p x).toNat ≤ s.tally x.handle p := by
  have := le_total (g := fun y : Sender => if y.handle = x.handle then (p y).toNat else 0) hi
  simpa [State.tally] using this

/-- The writers are among those inside. -/
theorem writing_le_inside (s : State) (h : Nat) :
    s.tally h Sender.writing ≤ s.tally h Sender.inside := by
  refine total_le fun x _ => ?_
  by_cases hx : x.handle = h
  · simp only [hx, if_true, Sender.writing, Sender.inside]
    cases x.next <;> decide
  · simp [hx]

/-- Nobody calls `uv_async_send` on a handle that is not there yet. -/
theorem tally_eq_zero (hs : ∀ x ∈ s.senders, x.handle < s.handles.length)
    (hh : s.handles.length ≤ h) : s.tally h p = 0 := by
  refine total_eq_zero fun x hx => if_neg ?_
  have := hs x hx
  omega

end Tally

section Access

variable {c : Channel} {s t : State} {i : Nat} {x : Sender} {k : Handle}

theorem due_setNext (hi : s.senders[i]? = some x) (hx : x.next ≠ .write) {a : Access} {h : Nat}
    (hdue : Due s h) : Due (s.setNext i a) h := by
  rcases hdue with hdue | ⟨y, hy, hwrite⟩ | hdue
  · exact .inl hdue
  · refine .inr (.inl ⟨y, ?_, hwrite⟩)
    obtain ⟨j, hj⟩ := List.mem_iff_getElem?.mp hy
    have hne : i ≠ j := by
      rintro rfl
      cases hi.symm.trans hj
      exact hx hwrite
    refine List.mem_of_getElem? (i := j) ?_
    rw [State.setNext, List.getElem?_modify_ne _ _ hne, hj]
  · exact .inr (.inr hdue)

theorem bytes_wakeup (c : Channel) (s : State) : 0 < (s.wakeup c).bytes := by
  have := c.pos
  simp only [State.wakeup]
  split <;> omega

/-- What is kept of a handle that a step leaves alone. -/
theorem Kept.frame {h : Nat} (hk : Kept s h k) (htally : ∀ p, t.tally h p = s.tally h p)
    (hspinning : t.spinning = s.spinning)
    (hlisted : (t.asyncHandles ++ t.queue).count h = (s.asyncHandles ++ s.queue).count h)
    (hdue : k.phase = .opened → k.pending = true → Due s h → Due t h) : Kept t h k where
  busy := hk.busy.trans (htally _).symm
  shut := hk.shut
  spinning := hspinning ▸ hk.spinning
  quiet hphase := (htally _).trans (hk.quiet hphase)
  listed := hlisted.trans hk.listed
  due hphase hpending := hdue hphase hpending (hk.due hphase hpending)
  owed howed := hk.owed (htally _ ▸ howed)
  calls := by
    rw [htally, htally]
    exact hk.calls

/-- The handle of a call that goes on to `a`, which never clears the flag. -/
theorem Kept.access (hk : Kept s x.handle k) {k' : Handle} {a : Access}
    (htally : ∀ p : Sender → Bool, t.tally x.handle p + (p x).toNat =
      s.tally x.handle p + (p { x with next := a }).toNat)
    (hframe : t.spinning = s.spinning ∧ t.asyncHandles = s.asyncHandles ∧ t.queue = s.queue)
    (hsame : k'.phase = k.phase ∧ k'.calls = k.calls)
    (hbusy : k'.busy + x.inside.toNat = k.busy + (Sender.inside { x with next := a }).toNat)
    (hpending : k.pending = true → k'.pending = true)
    (hwriting : a = .write → k.phase ≠ .closed)
    (howed : x.served = false → a = .write ∨ a = .clearBusy ∨ a = .returned → k'.pending = true)
    (hbefore : (if k.phase = .opened ∧ k'.pending then 1 else 0) +
      (Sender.before { x with next := a }).toNat ≤
        (if k.phase = .opened ∧ k.pending then 1 else 0) + x.before.toNat)
    (hdue : k.phase = .opened → k'.pending = true → Due t x.handle) : Kept t x.handle k' where
  busy := by
    have := htally Sender.inside
    have := hk.busy
    omega
  shut hphase := hpending (hk.shut (hsame.1 ▸ hphase))
  spinning := by
    rw [hsame.1, hframe.1]
    exact hk.spinning
  quiet hphase := by
    rw [hsame.1] at hphase
    have hnew : Sender.writing { x with next := a } = false := by
      simp only [Sender.writing, decide_eq_false_iff_not]
      exact fun ha => hwriting ha hphase
    have := htally Sender.writing
    have := hk.quiet hphase
    rw [hnew, Bool.toNat_false] at *
    omega
  listed := by
    rw [hsame.1, hframe.2.1, hframe.2.2]
    exact hk.listed
  due hphase hpend := hdue (hsame.1 ▸ hphase) hpend
  owed hpos := by
    by_cases hnew : (Sender.owed { x with next := a }) = true
    · refine howed ?_ ?_
      all_goals cases a <;> simp_all [Sender.owed, Sender.before]
    · have := htally Sender.owed
      rw [Bool.eq_false_iff.mpr hnew, Bool.toNat_false] at this
      exact hpending (hk.owed (by omega))
  calls := by
    have := htally Sender.before
    have := htally fun _ => true
    have := hk.calls
    rw [hsame.1, hsame.2]
    omega

theorem all_of_modify {f : Handle → Handle} (h : Inv s) (hk : s.handles[x.handle]? = some k)
    (hhandles : t.handles = s.handles.modify x.handle f)
    (hothers : ∀ j k', j ≠ x.handle → Kept s j k' → Kept t j k')
    (hself : Kept t x.handle (f k)) : All (Kept t) t.handles := by
  rw [hhandles]
  refine all_modify (fun j k' hj hk' => hothers j k' hj (h.handles j k' hk')) fun k' hk' => ?_
  cases hk.symm.trans hk'
  exact hself

theorem kept_accessed (h : Inv s) (hi : s.senders[i]? = some x)
    (hk : s.handles[x.handle]? = some k) (ht : Accessed c s i x k t) :
    All (Kept t) t.handles := by
  have hkept := h.handles x.handle k hk
  have howed : x.owed = true → k.pending = true := fun hx => hkept.owed (by
    have := toNat_le_tally (p := Sender.owed) hi
    rw [hx, Bool.toNat_true] at this
    exact this)
  -- what the other handles see: nothing but that the loop may be woken
  have others : ∀ {a : Access} {u : State}, u.senders = s.senders → u.spinning = s.spinning →
      u.asyncHandles = s.asyncHandles → u.queue = s.queue →
      (∀ j, Due s j → Due (u.setNext i a) j) →
      ∀ j k', j ≠ x.handle → Kept s j k' → Kept (u.setNext i a) j k' := by
    intro a u hsenders hspinning hasync hqueue hdue j k' hj hk'
    refine hk'.frame (fun p => ?_) hspinning ?_ fun _ _ => hdue j
    · rw [tally_setNext_ne (by rw [hsenders]; exact hi) (Ne.symm hj), State.tally, hsenders]
      rfl
    · change (u.asyncHandles ++ u.queue).count j = _
      rw [hasync, hqueue]
  cases ht with
  | loaded hx hpending =>
      refine all_of_modify (f := id) h hk (by simp [State.setNext]) ?_ ?_
      · exact others rfl rfl rfl rfl fun j => due_setNext hi (by simp [hx])
      · exact hkept.access (fun p => tally_setNext hi) ⟨rfl, rfl, rfl⟩ ⟨rfl, rfl⟩
          (by simp [Sender.inside, hx]) id (by simp) (fun _ _ => hpending)
          (by simp [Sender.before, hx])
          fun hphase hpend => due_setNext hi (by simp [hx]) (hkept.due hphase hpend)
  | load hx hpending =>
      refine all_of_modify (f := id) h hk (by simp [State.setNext]) ?_ ?_
      · exact others rfl rfl rfl rfl fun j => due_setNext hi (by simp [hx])
      · exact hkept.access (fun p => tally_setNext hi) ⟨rfl, rfl, rfl⟩ ⟨rfl, rfl⟩
          (by simp [Sender.inside, hx]) id (by simp) (by simp) (by simp [Sender.before, hx])
          fun hphase hpend => due_setNext hi (by simp [hx]) (hkept.due hphase hpend)
  | setBusy hx =>
      refine all_of_modify h hk rfl ?_ ?_
      · exact others rfl rfl rfl rfl fun j hdue => due_setNext (s := s.setHandle _ _) hi
          (by simp [hx]) hdue
      · exact hkept.access (fun p => tally_setNext hi) ⟨rfl, rfl, rfl⟩ ⟨rfl, rfl⟩
          (by simp [Sender.inside, hx]) id (by simp) (by simp) (by simp [Sender.before, hx])
          fun hphase hpend => due_setNext (s := s.setHandle _ _) hi (by simp [hx])
            (hkept.due hphase hpend)
  | won hx hpending =>
      have hopened : k.phase = .opened := by
        by_contra hphase
        rw [hkept.shut hphase] at hpending
        cases hpending
      refine all_of_modify h hk rfl ?_ ?_
      · exact others rfl rfl rfl rfl fun j hdue => due_setNext (s := s.setHandle _ _) hi
          (by simp [hx]) hdue
      · refine hkept.access (fun p => tally_setNext hi) ⟨rfl, rfl, rfl⟩ ⟨rfl, rfl⟩
          (by simp [Sender.inside, hx]) (fun _ => rfl) (by simp [hopened]) (fun _ _ => rfl)
          (by simp [Sender.before, hx, hopened, hpending])
          fun _ _ => .inr (.inl ⟨{ x with next := .write }, ?_, rfl⟩)
        exact List.mem_of_getElem? (i := i) (by simp [State.setNext, State.setHandle, hi])
  | lost hx hpending =>
      refine all_of_modify h hk rfl ?_ ?_
      · exact others rfl rfl rfl rfl fun j hdue => due_setNext (s := s.setHandle _ _) hi
          (by simp [hx]) hdue
      · exact hkept.access (fun p => tally_setNext hi) ⟨rfl, rfl, rfl⟩ ⟨rfl, rfl⟩
          (by simp [Sender.inside, hx]) (fun _ => rfl) (by simp) (fun _ _ => rfl)
          (by simp [Sender.before, hx, hpending])
          fun hphase _ => due_setNext (s := s.setHandle _ _) hi (by simp [hx])
            (hkept.due hphase hpending)
  | write hx =>
      refine all_of_modify (f := id) h hk (by simp [State.setNext, State.wakeup]) ?_ ?_
      · exact others rfl rfl rfl rfl fun j _ => .inl (bytes_wakeup c s)
      · exact hkept.access (fun p => tally_setNext hi) ⟨rfl, rfl, rfl⟩ ⟨rfl, rfl⟩
          (by simp [Sender.inside, hx]) id (by simp)
          (fun hserved _ => howed (by simp [Sender.owed, Sender.before, hx, hserved]))
          (by simp [Sender.before, hx]) fun _ _ => .inl (bytes_wakeup c s)
  | clearBusy hx =>
      have hinside := toNat_le_tally (p := Sender.inside) hi
      have hbusy := hkept.busy
      refine all_of_modify h hk rfl ?_ ?_
      · exact others rfl rfl rfl rfl fun j hdue => due_setNext (s := s.setHandle _ _) hi
          (by simp [hx]) hdue
      · refine hkept.access (fun p => tally_setNext hi) ⟨rfl, rfl, rfl⟩ ⟨rfl, rfl⟩
          ?_ id (by simp)
          (fun hserved _ => howed (by simp [Sender.owed, Sender.before, hx, hserved]))
          (by simp [Sender.before, hx])
          fun hphase hpend => due_setNext (s := s.setHandle _ _) hi (by simp [hx])
            (hkept.due hphase hpend)
        simp [Sender.inside, hx] at hinside ⊢
        omega

end Access

section Loop

variable {c : Channel} {s t : State} {h : Nat} {k : Handle}

theorem frame_accessed {i : Nat} {x : Sender} (ht : Accessed c s i x k t) :
    ∃ a, t.senders = s.senders.modify i (fun x => { x with next := a }) ∧
      t.handles.length = s.handles.length ∧ t.asyncHandles = s.asyncHandles ∧
      t.queue = s.queue ∧ t.place = s.place ∧ t.spinning = s.spinning := by
  cases ht with
  | loaded | load | write => exact ⟨_, rfl, rfl, rfl, rfl, rfl, rfl⟩
  | setBusy | won | lost | clearBusy =>
      exact ⟨_, rfl, List.length_modify .., rfl, rfl, rfl, rfl⟩

theorem Inv.accessed {i : Nat} {x : Sender} (hinv : Inv s) (hi : s.senders[i]? = some x)
    (hk : s.handles[x.handle]? = some k) (ht : Accessed c s i x k t) : Inv t := by
  have hkept := kept_accessed hinv hi hk ht
  obtain ⟨a, hsenders, hlength, hasync, hqueue, hplace, hspinning⟩ := frame_accessed ht
  refine ⟨hkept, fun y hy => ?_, ?_, ?_, ?_⟩
  · rw [hsenders] at hy
    rw [hlength]
    obtain ⟨j, hj⟩ := List.mem_iff_getElem?.mp hy
    rw [List.getElem?_modify] at hj
    obtain ⟨z, hz, rfl⟩ := Option.map_eq_some_iff.mp hj
    have := hinv.senders z (List.mem_of_getElem? hz)
    split <;> exact this
  · rw [hasync, hqueue, hlength]
    exact hinv.known
  · rw [hplace, hqueue]
    exact hinv.queue
  · rw [hplace, hspinning, hlength]
    exact hinv.spinning

/-- A change of the loop's place and of what it has read that leaves the handles due. -/
theorem Inv.congr (hinv : Inv s) (hhandles : t.handles = s.handles)
    (hsenders : t.senders = s.senders) (hspinning : t.spinning = s.spinning)
    (hlisted : ∀ j, (t.asyncHandles ++ t.queue).count j = (s.asyncHandles ++ s.queue).count j)
    (hqueue : t.place ≠ .scan → t.place ≠ .callback → t.queue = [])
    (hplace : s.spinning ≠ none → t.place = .outside ∨ t.place = .callback)
    (hdue : ∀ j k, s.handles[j]? = some k → k.phase = .opened → k.pending = true → Due s j → Due t j) :
    Inv t where
  handles := by
    rw [hhandles]
    intro j k' hk'
    refine (hinv.handles j k' hk').frame (fun p => ?_) hspinning (hlisted j) (hdue j k' hk')
    rw [State.tally, hsenders]
    rfl
  senders := by
    rw [hsenders, hhandles]
    exact hinv.senders
  known j hj := by
    rw [hhandles]
    refine hinv.known j (List.count_pos_iff.mp ?_)
    rw [← hlisted j]
    exact List.count_pos_iff.mpr hj
  queue := hqueue
  spinning j hj := by
    rw [hspinning] at hj
    rw [hhandles]
    exact ⟨(hinv.spinning j hj).1, hplace (by simp [hj])⟩

theorem Inv.drain (hinv : Inv s) (hspinning : s.spinning = none) (hqueue : s.queue = []) :
    Inv (s.drain c) := by
  have hplace : (s.drain c).place = .read ∨ (s.drain c).place = .move := by
    unfold State.drain
    split
    · dsimp only
      split
      · exact .inl rfl
      · exact .inr rfl
    · exact .inr rfl
  have hframe : (s.drain c).handles = s.handles ∧ (s.drain c).senders = s.senders ∧
      (s.drain c).spinning = s.spinning ∧ (s.drain c).asyncHandles = s.asyncHandles ∧
      (s.drain c).queue = s.queue := by
    unfold State.drain
    split <;> exact ⟨rfl, rfl, rfl, rfl, rfl⟩
  obtain ⟨hhandles, hsenders, hspin, hasync, hq⟩ := hframe
  refine hinv.congr hhandles hsenders hspin (by simp [hasync, hq]) ?_ ?_ ?_
  · exact fun _ _ => hq.trans hqueue
  · exact fun hne => absurd hspinning hne
  · exact fun j _ _ _ _ _ => .inr (.inr (hplace.imp_right .inl))

theorem Inv.move (hinv : Inv s) (hplace : s.place = .move) :
    Inv { s with queue := s.asyncHandles, asyncHandles := [], place := .scan } := by
  have hqueue : s.queue = [] := hinv.queue (by simp [hplace]) (by simp [hplace])
  have hspinning := hinv.unspinning (by simp [hplace]) (by simp [hplace])
  refine hinv.congr rfl rfl rfl (by simp [hqueue]) (by simp) (by simp [hspinning]) ?_
  intro j k hk hphase _ _
  have hlisted := (hinv.handles j k hk).listed
  rw [hqueue, List.append_nil, hphase] at hlisted
  exact .inr (.inr (.inr (.inr (List.count_pos_iff.mp (by simp [hlisted])))))

theorem tally_take (hsenders : t.senders = (s.take h).senders) (p : Sender → Bool) {j : Nat}
    (hp : j = h → ∀ x : Sender, p { x with served := true } = p x) :
    t.tally j p = s.tally j p := by
  rw [State.tally, hsenders]
  refine total_map fun x _ => ?_
  by_cases hx : x.handle = h
  · by_cases hj : j = h
    · rw [if_pos hx]
      change (if x.handle = j then (p { x with served := true }).toNat else 0) = _
      rw [hp hj x]
    · simp only [hx, if_true, Ne.symm hj, if_false]
  · simp only [hx, if_false]

theorem tally_owed_take (hsenders : t.senders = (s.take h).senders) :
    t.tally h Sender.owed = 0 := by
  rw [State.tally, hsenders]
  refine total_eq_zero fun x hx => ?_
  obtain ⟨y, -, rfl⟩ := List.mem_map.mp hx
  by_cases hy : y.handle = h <;> simp [hy, Sender.owed]

theorem mem_take {x : Sender} (hx : x ∈ s.senders) :
    ∃ y ∈ (s.take h).senders, y.next = x.next := by
  refine ⟨if x.handle = h then { x with served := true } else x, List.mem_map.mpr ⟨x, hx, rfl⟩, ?_⟩
  split <;> rfl

/-- The handle whose flag the loop takes. -/
theorem Kept.take (hk : Kept s h k) (hphase : k.phase = .opened) (hpending : k.pending = true)
    (hsenders : t.senders = (s.take h).senders) (hspinning : t.spinning = s.spinning)
    (hlisted : (t.asyncHandles ++ t.queue).count h = (s.asyncHandles ++ s.queue).count h) :
    Kept t h
      { k with pending := false, calls := if k.callback then k.calls + 1 else k.calls } where
  busy := by
    rw [tally_take hsenders _ fun _ _ => rfl]
    exact hk.busy
  shut hne := absurd hphase hne
  spinning := hspinning ▸ hk.spinning
  quiet hclosed := by
    rw [hphase] at hclosed
    cases hclosed
  listed := hlisted.trans hk.listed
  due _ hpending := by cases hpending
  owed hpos := by
    rw [tally_owed_take hsenders] at hpos
    cases hpos
  calls := by
    have hcalls := hk.calls
    rw [tally_take hsenders _ fun _ _ => rfl, tally_take hsenders _ fun _ _ => rfl]
    rw [if_pos ⟨hphase, hpending⟩] at hcalls
    simp only [Bool.false_eq_true, and_false, if_false]
    split <;> omega

/-- What the turn of a handle leaves due of the others. -/
theorem due_rest {rest : List Nat} {j : Nat} (hplace : s.place = .scan) (hq : s.queue = h :: rest)
    (hj : j ≠ h) (hdue : Due s j) :
    0 < s.bytes ∨ (∃ x ∈ s.senders, x.next = .write) ∨ j ∈ rest := by
  rcases hdue with hdue | hdue | hdue | hdue | hdue
  · exact .inl hdue
  · exact .inr (.inl hdue)
  · simp [hplace] at hdue
  · simp [hplace] at hdue
  · rw [hq, List.mem_cons] at hdue
    exact .inr (.inr (hdue.resolve_left hj))

theorem Inv.skip (hinv : Inv s) (hplace : s.place = .scan) {rest : List Nat}
    (hq : s.queue = h :: rest) (hnot : ∀ k, s.handles[h]? = some k → k.pending = false) :
    Inv { s with queue := rest, asyncHandles := s.asyncHandles ++ [h] } := by
  refine hinv.congr rfl rfl rfl (by simp [hq]) (fun hne => absurd hplace hne)
    (fun hne => absurd (hinv.unspinning (by simp [hplace]) (by simp [hplace])) hne) ?_
  intro j k hk _ hpending hdue
  have hj : j ≠ h := by
    rintro rfl
    rw [hnot k hk] at hpending
    cases hpending
  exact (due_rest hplace hq hj hdue).imp_right fun hdue => hdue.imp_right fun hin => .inr (.inr hin)

theorem Inv.take (hinv : Inv s) (hplace : s.place = .scan) {rest : List Nat} {place : Place}
    (hq : s.queue = h :: rest) (hk : s.handles[h]? = some k) (hpending : k.pending = true)
    (hnew : place = .scan ∨ place = .callback) :
    Inv { State.take { s with queue := rest, asyncHandles := s.asyncHandles ++ [h] } h with
      place := place } := by
  have hkept := hinv.handles h k hk
  have hspinning := hinv.unspinning (by simp [hplace]) (by simp [hplace])
  have hlisted : ∀ j, (s.asyncHandles ++ [h] ++ rest).count j =
      (s.asyncHandles ++ s.queue).count j := by simp [hq]
  have hopened : k.phase = .opened := by
    cases hphase : k.phase with
    | opened => rfl
    | spinning =>
        rw [hkept.spinning.mp hphase] at hspinning
        cases hspinning
    | closed =>
        have := hkept.listed
        simp [hphase, hq] at this
  refine ⟨?_, fun x hx => ?_, fun j hj => ?_, fun hscan hcallback => ?_, fun j hj => ?_⟩
  · refine all_modify (fun j k' hj hk' => ?_) fun k' hk' => ?_
    · refine (hinv.handles j k' hk').frame (fun p => tally_take rfl p fun heq => absurd heq hj) rfl
        (hlisted j) fun _ _ hdue => ?_
      rcases due_rest hplace hq hj hdue with hdue | ⟨x, hx, hwrite⟩ | hin
      · exact .inl hdue
      · obtain ⟨y, hy, hnext⟩ := mem_take hx
        exact .inr (.inl ⟨y, hy, hnext.trans hwrite⟩)
      · exact .inr (.inr (.inr (.inr hin)))
    · cases hk.symm.trans hk'
      exact hkept.take hopened hpending rfl rfl (hlisted h)
  · obtain ⟨y, hy, rfl⟩ := List.mem_map.mp hx
    have := hinv.senders y hy
    change _ < (s.handles.modify h _).length
    rw [List.length_modify]
    split <;> exact this
  · change _ < (s.handles.modify h _).length
    rw [List.length_modify]
    exact hinv.known j (List.count_pos_iff.mp (hlisted j ▸ List.count_pos_iff.mpr hj))
  · exact (hnew.elim hscan hcallback).elim
  · exact nomatch hspinning.symm.trans hj

theorem Inv.turn (hinv : Inv s) (hplace : s.place = .scan) : Inv s.turn := by
  unfold State.turn
  split
  · rename_i hq
    refine hinv.congr rfl rfl rfl (fun _ => rfl) (fun _ _ => hq) (fun _ => .inl rfl) ?_
    intro j _ _ _ _ hdue
    rcases hdue with hdue | hdue | hdue | hdue | hdue
    · exact .inl hdue
    · exact .inr (.inl hdue)
    · simp [hplace] at hdue
    · simp [hplace] at hdue
    · simp [hq] at hdue
  · rename_i h rest hq
    dsimp only
    split
    · rename_i hnone
      exact hinv.skip hplace hq fun k hk => by simp [hnone] at hk
    · rename_i k hk
      split
      · refine hinv.take hplace hq hk ‹_› ?_
        split
        · exact .inr rfl
        · exact .inl rfl
      · refine hinv.skip hplace hq fun k' hk' => ?_
        cases hk.symm.trans hk'
        exact Bool.eq_false_iff.mpr ‹_›

theorem Inv.ret (hinv : Inv s) (hspinning : s.spinning = none) (hplace : s.place = .callback) :
    Inv { s with place := .scan } := by
  refine hinv.congr rfl rfl rfl (fun _ => rfl) (by simp) (by simp [hspinning]) ?_
  intro j _ _ _ _ hdue
  rcases hdue with hdue | hdue | hdue | hdue | hdue
  · exact .inl hdue
  · exact .inr (.inl hdue)
  · simp [hplace] at hdue
  · simp [hplace] at hdue
  · exact .inr (.inr (.inr (.inr hdue)))

end Loop

section Program

variable {c : Channel} {s t : State} {h : Nat} {k : Handle}

theorem place_of_inProgram (hprogram : s.inProgram = true) :
    s.spinning = none ∧ (s.place = .outside ∨ s.place = .callback) := by
  simpa [State.inProgram] using hprogram

theorem Inv.init (hinv : Inv s) (hprogram : s.inProgram = true) (callback : Bool) :
    Inv (s.init callback) := by
  obtain ⟨hspinning, hplace⟩ := place_of_inProgram hprogram
  have hfresh : s.handles.length ∉ s.asyncHandles ++ s.queue := fun hin => by
    have := hinv.known _ hin
    omega
  have hcount := List.count_eq_zero.mpr hfresh
  have htally : ∀ p, (s.init callback).tally s.handles.length p = 0 :=
    fun p => tally_eq_zero (s := s) hinv.senders (Nat.le_refl _)
  refine ⟨?_, fun x hx => ?_, fun j hj => ?_, hinv.queue, fun j hj => ?_⟩
  · refine all_concat (fun j k' hk' => ?_) ?_
    · have hj : j < s.handles.length := (List.getElem?_eq_some_iff.mp hk').1
      refine (hinv.handles j k' hk').frame (fun _ => rfl) rfl ?_ fun _ _ hdue => hdue
      simp [State.init, List.count_append, Nat.ne_of_gt hj]
    · constructor
      · exact (htally _).symm
      · exact fun hne => absurd rfl hne
      · simp [State.init, hspinning]
      · exact fun _ => htally _
      · simp [State.init] at hcount ⊢
        simp [hcount]
      · simp
      · simp [htally]
      · simp [htally]
  · have := hinv.senders x hx
    simp only [State.init, List.length_append, List.length_singleton]
    omega
  · simp only [State.init, List.length_append, List.length_singleton, List.mem_append,
      List.mem_singleton] at hj ⊢
    rcases hj with (hj | hj) | hj
    · have := hinv.known j (List.mem_append_left _ hj)
      omega
    · omega
    · have := hinv.known j (List.mem_append_right _ hj)
      omega
  · exact nomatch hspinning.symm.trans hj

theorem tally_send {j : Nat} (p : Sender → Bool) :
    State.tally { s with senders := s.senders ++ [⟨h, .load, false⟩] } j p =
      s.tally j p + if h = j then (p ⟨h, .load, false⟩).toNat else 0 := by
  simp only [State.tally, total_append, total, Nat.add_zero]

theorem Inv.send (hinv : Inv s) (hh : h < s.handles.length) :
    Inv { s with senders := s.senders ++ [⟨h, .load, false⟩] } := by
  refine ⟨fun j k' hk' => ?_, fun x hx => ?_, hinv.known, hinv.queue, hinv.spinning⟩
  · have hkept := hinv.handles j k' hk'
    constructor
    · rw [tally_send]
      simpa [Sender.inside] using hkept.busy
    · exact hkept.shut
    · exact hkept.spinning
    · rw [tally_send]
      simpa [Sender.writing] using hkept.quiet
    · exact hkept.listed
    · intro hphase hpending
      rcases hkept.due hphase hpending with hdue | ⟨x, hx, hwrite⟩ | hdue
      · exact .inl hdue
      · exact .inr (.inl ⟨x, List.mem_append_left _ hx, hwrite⟩)
      · exact .inr (.inr hdue)
    · rw [tally_send]
      simpa [Sender.owed, Sender.before] using hkept.owed
    · have hcalls := hkept.calls
      rw [tally_send, tally_send]
      have hbefore : Sender.before ⟨h, .load, false⟩ = true := rfl
      rw [hbefore]
      omega
  · rcases List.mem_append.mp hx with hx | hx
    · exact hinv.senders x hx
    · cases List.mem_singleton.mp hx
      exact hh

theorem Inv.close (hinv : Inv s) (hprogram : s.inProgram = true) (hk : s.handles[h]? = some k)
    (hphase : k.phase = .opened) : Inv (s.close h) := by
  obtain ⟨hspinning, hplace⟩ := place_of_inProgram hprogram
  have hkept := hinv.handles h k hk
  have hlength : (s.close h).handles.length = s.handles.length := List.length_modify ..
  refine ⟨?_, ?_, ?_, hinv.queue, fun j hj => ⟨?_, hplace⟩⟩
  · refine all_modify (fun j k' hj hk' => ?_) fun k' hk' => ?_
    · have hkept' := hinv.handles j k' hk'
      refine ⟨hkept'.busy, hkept'.shut, ?_, hkept'.quiet, hkept'.listed, hkept'.due, hkept'.owed,
        hkept'.calls⟩
      rw [hkept'.spinning, hspinning]
      simp [State.close, Ne.symm hj]
    · cases hk.symm.trans hk'
      have hcalls := hkept.calls
      have hlisted := hkept.listed
      rw [hphase] at hlisted
      refine ⟨hkept.busy, fun _ => rfl, by simp [State.close], ?_, hlisted, ?_, fun _ => rfl, ?_⟩
      · exact fun hclosed => nomatch hclosed
      · exact fun hopened => nomatch hopened
      · change k.calls + (if Phase.spinning = .opened ∧ true then 1 else 0) +
          s.tally h Sender.before ≤ s.tally h fun _ => true
        split at hcalls <;> simp only [reduceCtorEq, false_and, if_false] <;> omega
  · rw [hlength]
    exact hinv.senders
  · rw [hlength]
    exact hinv.known
  · cases hj
    rw [hlength]
    exact (List.getElem?_eq_some_iff.mp hk).1

theorem Inv.closed (hinv : Inv s) (hspinning : s.spinning = some h)
    (hk : s.handles[h]? = some k) (hbusy : k.busy = 0) : Inv (s.closed h) := by
  have hkept := hinv.handles h k hk
  have hphase : k.phase = .spinning := hkept.spinning.mpr hspinning
  have hlength : (s.closed h).handles.length = s.handles.length := List.length_modify ..
  refine ⟨?_, ?_, fun j hj => ?_, fun hscan hcallback => ?_, fun _ hj => nomatch hj⟩
  · refine all_modify (fun j k' hj hk' => ?_) fun k' hk' => ?_
    · have hkept' := hinv.handles j k' hk'
      refine ⟨hkept'.busy, hkept'.shut, ?_, hkept'.quiet, ?_, fun hopened hpending => ?_,
        hkept'.owed, hkept'.calls⟩
      · rw [hkept'.spinning, hspinning]
        simp [State.closed, Ne.symm hj]
      · rw [← hkept'.listed]
        simp [State.closed, List.count_erase_of_ne hj]
      · rcases hkept'.due hopened hpending with hdue | hdue | hdue | hdue | hdue
        · exact .inl hdue
        · exact .inr (.inl hdue)
        · exact .inr (.inr (.inl hdue))
        · exact .inr (.inr (.inr (.inl hdue)))
        · exact .inr (.inr (.inr (.inr ((List.mem_erase_of_ne hj).mpr hdue))))
    · cases hk.symm.trans hk'
      have hcalls := hkept.calls
      have hlisted := hkept.listed
      rw [hphase] at hlisted
      refine ⟨hkept.busy, fun _ => hkept.shut (by simp [hphase]), by simp [State.closed], ?_, ?_,
        ?_, hkept.owed, ?_⟩
      · intro _
        have hle := writing_le_inside s h
        have := hkept.busy
        change s.tally h Sender.writing = 0
        omega
      · simp only [State.closed, List.count_append, List.count_erase_self] at hlisted ⊢
        simp at hlisted ⊢
        omega
      · exact fun hopened => nomatch hopened
      · change k.calls + (if Phase.closed = .opened ∧ k.pending then 1 else 0) +
          s.tally h Sender.before ≤ s.tally h fun _ => true
        split at hcalls <;> simp only [reduceCtorEq, false_and, if_false] <;> omega
  · rw [hlength]
    exact hinv.senders
  · rw [hlength]
    refine hinv.known j ?_
    rcases List.mem_append.mp hj with hj | hj
    · exact List.mem_append_left _ (List.mem_of_mem_erase hj)
    · exact List.mem_append_right _ (List.mem_of_mem_erase hj)
  · have hnil := hinv.queue hscan hcallback
    simp [State.closed, hnil]

end Program

theorem inv_step {c : Channel} {s t : State} {a : Label} (hinv : Inv s)
    (ht : step c s a = some t) : Inv t := by
  cases stepped ht with
  | init hprogram => exact hinv.init hprogram _
  | send hh => exact hinv.send hh
  | access hi hk ht => exact hinv.accessed hi hk ht
  | poll hspinning hplace =>
      exact hinv.drain hspinning (hinv.queue (by simp [hplace]) (by simp [hplace]))
  | read hplace =>
      exact hinv.drain (hinv.unspinning (by simp [hplace]) (by simp [hplace])) (hinv.queue (by simp [hplace]) (by simp [hplace]))
  | move hplace => exact hinv.move hplace
  | scan hplace => exact hinv.turn hplace
  | ret hspinning hplace => exact hinv.ret hspinning hplace
  | close hprogram hk hphase => exact hinv.close hprogram hk hphase
  | spin hspinning hk hbusy => exact hinv.closed hspinning hk hbusy

theorem inv_init (c : Channel) : Inv (machine c).init where
  handles := all_nil
  senders _ hx := by cases hx
  known _ hj := by cases hj
  queue _ _ := rfl
  spinning _ hj := by cases hj

/-- A call of `uv_async_send` that has returned was followed by a callback, or the loop is due to
look at the handle. -/
def Delivered (s : State) : Prop :=
  ∀ x ∈ s.senders, x.next = .returned → x.served = false →
    ∀ k, s.handles[x.handle]? = some k → k.phase = .opened → k.pending = true ∧ Due s x.handle

theorem no_lost_send (c : Channel) (as : List Label) :
    (machine c).Always Delivered (machine c).init as := by
  refine Machine.always_of_step (I := Inv) (fun s hinv x hx hnext hserved k hk hphase => ?_)
    (fun _ _ _ hinv ht => inv_step hinv ht) (inv_init c)
  have hkept := hinv.handles x.handle k hk
  obtain ⟨i, hi⟩ := List.mem_iff_getElem?.mp hx
  have hle := toNat_le_tally (p := Sender.owed) hi
  rw [show x.owed = true by simp [Sender.owed, Sender.before, hnext, hserved]] at hle
  have hpending := hkept.owed hle
  exact ⟨hpending, hkept.due hphase hpending⟩

/-- A handle is called no more often than it was sent to; once closed, it is in no queue, its
flag stays up and nobody is about to wake the loop for it. -/
structure Sound (s : State) : Prop where
  calls : ∀ h k, s.handles[h]? = some k → k.calls ≤ s.tally h fun _ => true
  closed : ∀ h k, s.handles[h]? = some k → k.phase = .closed → k.pending = true ∧
    h ∉ s.asyncHandles ++ s.queue ∧ ∀ x ∈ s.senders, x.handle = h → x.next ≠ .write

theorem calls_are_sent (c : Channel) (as : List Label) :
    (machine c).Always Sound (machine c).init as := by
  refine Machine.always_of_step (I := Inv) (fun s hinv => ?_)
    (fun _ _ _ hinv ht => inv_step hinv ht) (inv_init c)
  constructor
  · intro h k hk
    have := (hinv.handles h k hk).calls
    omega
  · intro h k hk hphase
    have hkept := hinv.handles h k hk
    have hlisted := hkept.listed
    rw [if_pos hphase] at hlisted
    refine ⟨hkept.shut (by simp [hphase]), List.count_eq_zero.mp hlisted, fun x hx hh hwrite => ?_⟩
    obtain ⟨i, hi⟩ := List.mem_iff_getElem?.mp hx
    have hle := toNat_le_tally (p := Sender.writing) hi
    have hquiet := hkept.quiet hphase
    rw [← hh] at hquiet
    simp [Sender.writing, hwrite, hquiet] at hle

end HxcppLuv.Async
