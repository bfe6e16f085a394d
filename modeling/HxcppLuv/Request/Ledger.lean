import HxcppLuv.Request.Model

/-!
The ledger of the requests. In every run each request has one outcome, its roots are
registered while it is in flight, and its struct and its data are freed once: after the
outcome of a request libuv has taken, and of one it has refused before the outcome, but for
a write of a stream. Only the entry of a directory read is used by others: overlapping reads
of one directory have to end in the order they were submitted.
-/

namespace HxcppLuv.Request

open HxcppLuv.Action

variable {c : Int}

/-- The callbacks and buffers of a request. -/
def Kind.roles : Kind → List Role
  | fileOpen | fileClose | directoryClose | streamShutdown _ => [.callback]
  | fileWrite | streamWrite _ => [.array, .callback]
  | fileRead => [.array, .success, .failure]
  | directoryOpen | directoryRead _ => [.success, .failure]
  | work => [.task]

/-- What a request holds while libuv has it. -/
def Code.parts (c : Code) : Multiset Part := Action.run (c.prepare ++ c.accepted) 0

/-- What a request that was refused holds until the callback returns. -/
def Code.rest (c : Code) : Multiset Part := Action.run (c.prepare ++ c.refused) 0

/-- What there is to a request before libuv is asked. -/
def Code.prepared (c : Code) : Multiset Part := Action.run c.prepare 0

/-- What the wrapper leaves. -/
def Code.left (c : Code) : Multiset Part := Action.run c.leave c.parts

def Record.owned (r : Record) : Multiset Part :=
  match r.phase with
  | .pending | .finished _ | .calling _ => r.kind.code.parts
  | .rejected | .refused => r.kind.code.rest
  | .ran => r.kind.code.left
  | .done => 0

/-- What has been made for a request by then, freed or not. -/
def Record.made (r : Record) : Multiset Part :=
  match r.phase with
  | .rejected | .refused => r.kind.code.prepared
  | .pending | .finished _ | .calling _ | .ran | .done => r.kind.code.parts

/-- (a) One outcome for what is submitted, none while the request awaits it, and it can still
come. (b) The roots that are registered are those of the requests in flight. (c) The struct
and the data are there while libuv has the request, they are freed once, before the outcome
when libuv refuses it (but for a stream's write) and after it when it does not, and they are
not used after that; what is answered comes to its end. A stream that is closed has nothing
to call back. -/
structure Settled (c : Int) (s : State) : Prop where
  submitted : ∀ k accepted, s.atUser → s.admits k accepted →
    ∃ t, step c s (.submit k accepted) = some t ∧
      t.requests = s.requests ++ [⟨k, if accepted then .pending else .rejected, 0⟩]
  outcomes : ∀ (i : Nat) (r : Record), s.requests[i]? = some r →
    r.outcomes = if r.phase.awaits then 0 else 1
  answered : ∀ (i : Nat) (r : Record), s.requests[i]? = some r → r.phase.awaits →
    ∃ bs t r', (machine c).run s bs = some t ∧ t.requests[i]? = some r' ∧ r'.outcomes = 1
  ended : ∀ (i : Nat) (r : Record), s.requests[i]? = some r → ¬ r.phase.awaits →
    ∃ bs t r', (machine c).run s bs = some t ∧ t.requests[i]? = some r' ∧ r'.phase = .done
  roots : ∀ i w, s.held.count (i, .root w) =
    ((s.requests[i]?).filter fun r => r.phase.inFlight).elim 0 fun r => r.kind.roles.count w
  kept : ∀ (i : Nat) (r : Record), s.requests[i]? = some r → r.phase.taken →
    s.held.count (i, .request) = 1 ∧ s.held.count (i, .data) = 1
  rejected : ∀ (i : Nat) (r : Record), s.requests[i]? = some r → r.phase = .rejected →
    (i, .data) ∉ s.held ∧ ((i, .request) ∈ s.held ↔ ∃ st, r.kind = .streamWrite st)
  freed : ∀ (i : Nat) (r : Record), s.requests[i]? = some r → r.phase = .done →
    ∀ p, (i, p) ∉ s.held
  sound : ∀ x ∈ s.misused, x.2 = .entry
  closed : ∀ (i : Nat) (r : Record) st, s.requests[i]? = some r →
    r.kind.stream? = some st → s.streams st = .closed → ¬ r.phase.taken

/-- The struct and the data of a request are there until its outcome, libuv having refused it
or not, and the entries of the directory reads are not used after they are freed either. -/
structure SettledWhole (c : Int) (s : State) : Prop extends Settled c s where
  unfreed : ∀ (i : Nat) (r : Record) p, s.requests[i]? = some r → r.phase.awaits →
    p = .request ∨ p = .data → s.held.count (i, p) = r.made.count p
  unused : s.misused = []

/-- The read of a directory that was submitted last is in flight. -/
def LastInFlight (s : State) (d : Nat) : Prop :=
  ∀ j, s.dirents d = some j → ∃ r ∈ s.requests[j]?, r.phase.inFlight

/-- When a directory read stores an entry, or its callback has been given one, the last
read of the directory is in flight. -/
def InOrder (s : State) : Label → Prop
  | .finish i _ stored => stored → ∀ r d, s.requests[i]? = some r →
      r.kind = .directoryRead d → LastInFlight s d
  | .ret i => ∀ r d result, s.requests[i]? = some r → r.kind = .directoryRead d →
      r.phase = .calling result → 0 < result → LastInFlight s d
  | _ => True

/-- No request is refused, but writes of streams. -/
def Answered : Label → Prop
  | .submit k accepted => accepted = false → ∃ st, k = .streamWrite st
  | _ => True

/-- The code of a kind uses and gives back what it holds. -/
structure Code.Sound (c : Code) : Prop where
  accept : Owned (c.prepare ++ c.accepted) 0
  carry : Owned c.carry c.parts
  carried : Action.run c.carry c.parts = c.parts
  enter : Owned c.enter c.parts
  entered : Action.run c.enter c.parts = c.parts
  leave : Owned c.leave c.parts
  after : Owned c.after c.left
  afterDone : Action.run c.after c.left = 0

theorem sound_code (k : Kind) : k.code.Sound := by
  constructor <;> cases k <;> (simp only [Kind.code]; decide)

theorem left_code {k : Kind} (h : k ≠ .work) : k.code.left = 0 := by
  cases k with
  | work => exact absurd rfl h
  | _ => simp only [Kind.code]; decide

/-- So does that of a refusal. -/
structure Code.SoundRefusal (c : Code) : Prop where
  refuse : Owned (c.prepare ++ c.refused) 0
  ret : Owned c.refusedReturn c.rest
  done : Action.run c.refusedReturn c.rest = 0

theorem soundRefusal_code {k : Kind} (h : k ≠ .work) : k.code.SoundRefusal := by
  constructor <;> cases k with
  | work => exact absurd rfl h
  | _ => simp only [Kind.code]; decide

/-- The roots a kind's code registers are its callbacks and buffers. -/
theorem count_root_parts (k : Kind) (w : Role) :
    k.code.parts.count (.root w) = k.roles.count w := by
  cases k <;> cases w <;> simp only [Kind.code, Kind.roles] <;> decide

theorem count_root_rest {k : Kind} (h : k ≠ .work) (w : Role) :
    k.code.rest.count (.root w) = 0 := by
  cases k with
  | work => exact absurd rfl h
  | _ => cases w <;> simp only [Kind.code] <;> decide

theorem count_root_left (k : Kind) (w : Role) : k.code.left.count (.root w) = 0 := by
  cases k <;> cases w <;> simp only [Kind.code] <;> decide

theorem count_parts (k : Kind) :
    k.code.parts.count .request = 1 ∧ k.code.parts.count .data = 1 := by
  cases k <;> simp only [Kind.code] <;> decide

/-- Whether libuv has refused the request. -/
def Phase.declined : Phase → Bool
  | rejected | refused => true
  | pending | finished _ | calling _ | ran | done => false

/-- The invariant: every request holds what its phase says, and only that. -/
structure Books (s : State) : Prop where
  held : ∀ i p, s.held.count (i, p) = (s.requests[i]?).elim 0 fun r => r.owned.count p
  outcomes : Slots.All (fun _ r => r.outcomes = if r.phase.awaits then 0 else 1) s.requests
  refusals : Slots.All (fun _ r => r.phase.declined → r.kind ≠ .work) s.requests
  sound : ∀ x ∈ s.misused, x.2 = .entry
  closed : Slots.All (fun _ r => ∀ st, r.kind.stream? = some st → s.streams st = .closed →
    ¬ r.phase.taken) s.requests
  entries : ∀ d j, s.dirents d = some j →
    ∃ r, s.requests[j]? = some r ∧ r.kind = .directoryRead d

theorem count_map_mk (own : Multiset Part) (i j : Nat) (p : Part) :
    (own.map (Prod.mk i)).count (j, p) = if j = i then own.count p else 0 := by
  split
  · subst j
    exact Multiset.count_map_eq_count' _ _ (Prod.mk_right_injective i) p
  · rename_i hij
    rw [Multiset.count_eq_zero, Multiset.mem_map]
    rintro ⟨q, -, hq⟩
    exact hij (congrArg Prod.fst hq).symm

theorem exec_nil (s : State) (i : Nat) : s.exec i [] = s := by
  simp [State.exec, Action.run, Action.misused]

section Exec

variable {s : State} {i : Nat} {own : Multiset Part} {as : List (Action Part)}

theorem held_eq_add (h : ∀ p, s.held.count (i, p) = own.count p) :
    ∃ ctx, s.held = ctx + own.map (Prod.mk i) := by
  refine ⟨s.held - own.map (Prod.mk i), (Multiset.sub_add_cancel ?_).symm⟩
  rw [Multiset.le_iff_count]
  rintro ⟨j, p⟩
  rw [count_map_mk]
  split
  · subst j
    exact (h p).ge
  · exact Nat.zero_le _

/-- A request's code changes what the request holds, and nothing else. -/
theorem count_exec (h : ∀ p, s.held.count (i, p) = own.count p) (ho : Owned as own)
    (j : Nat) (p : Part) : (s.exec i as).held.count (j, p) =
      if j = i then (Action.run as own).count p else s.held.count (j, p) := by
  obtain ⟨ctx, hctx⟩ := held_eq_add h
  have hinj := Prod.mk_right_injective (β := Part) i
  have hrun : (s.exec i as).held = ctx + (Action.run as own).map (Prod.mk i) := by
    simp only [State.exec, hctx]
    rw [run_add (owned_map hinj ho), run_map hinj]
  have hself := h p
  rw [hctx, Multiset.count_add, count_map_mk] at hself
  rw [hrun, hctx, Multiset.count_add, Multiset.count_add, count_map_mk, count_map_mk]
  split
  · subst j
    simp only [if_true] at hself
    omega
  · rfl

theorem misused_exec (h : ∀ p, s.held.count (i, p) = own.count p) (ho : Owned as own) :
    (s.exec i as).misused = s.misused := by
  obtain ⟨ctx, hctx⟩ := held_eq_add h
  have hinj := Prod.mk_right_injective (β := Part) i
  simp only [State.exec, hctx]
  rw [misused_eq_nil (owned_add (owned_map hinj ho) ctx), List.append_nil]

end Exec

theorem inFlight_of_taken {p : Phase} (h : p.taken = true) : p.inFlight = true := by
  cases p with
  | pending | finished => rfl
  | calling | rejected | refused | ran | done => cases h

theorem owned_of_inFlight {r : Record} (h : r.phase.inFlight = true) :
    r.owned = r.kind.code.parts := by
  unfold Record.owned
  cases hp : r.phase with
  | pending | finished | calling => rfl
  | rejected | refused | ran | done =>
      rw [hp] at h
      cases h

/-- A record moves on: its code runs, and what that leaves is what the new record has. -/
structure Moves (r r' : Record) (as : List (Action Part)) : Prop where
  owned : Owned as r.owned
  leaves : Action.run as r.owned = r'.owned
  kind : r'.kind = r.kind
  outcomes : r'.outcomes = if r'.phase.awaits then 0 else 1
  refusals : r'.phase.declined → r.phase.declined
  taken : r'.phase.taken → r.phase.taken

theorem Books.count_self {s : State} (hs : Books s) {i : Nat} {r : Record}
    (hr : s.requests[i]? = some r) (p : Part) : s.held.count (i, p) = r.owned.count p := by
  simpa [hr] using hs.held i p

theorem Books.outcomes_eq_zero {s : State} (hs : Books s) {i : Nat} {r : Record}
    (hr : s.requests[i]? = some r) (ha : r.phase.awaits = true) : r.outcomes = 0 := by
  rw [hs.outcomes i r hr, if_pos ha]

theorem Books.outcomes_eq_one {s : State} (hs : Books s) {i : Nat} {r : Record}
    (hr : s.requests[i]? = some r) (ha : r.phase.awaits = false) : r.outcomes = 1 := by
  rw [hs.outcomes i r hr, if_neg (ne_true_of_eq_false ha)]

theorem misused_replace {s : State} (hs : Books s) {i : Nat} {r r' : Record}
    {as : List (Action Part)} (hr : s.requests[i]? = some r) (hm : Moves r r' as) :
    ((s.exec i as).replace i r').misused = s.misused :=
  misused_exec (hs.count_self hr) hm.owned

theorem books_replace {s : State} (hs : Books s) {i : Nat} {r r' : Record}
    {as : List (Action Part)} (hr : s.requests[i]? = some r) (hm : Moves r r' as) :
    Books ((s.exec i as).replace i r') where
  held j p := by
    have hlt := (List.getElem?_eq_some_iff.mp hr).1
    show (s.exec i as).held.count (j, p) = _
    rw [count_exec (hs.count_self hr) hm.owned, hm.leaves]
    simp only [State.replace, State.exec, List.getElem?_set]
    by_cases hij : i = j
    · subst j
      simp [hlt]
    · rw [if_neg (Ne.symm hij), if_neg hij]
      exact hs.held j p
  outcomes := Slots.all_set hs.outcomes hm.outcomes
  refusals := Slots.all_set hs.refusals fun h => hm.kind ▸ hs.refusals i r hr (hm.refusals h)
  sound := by
    rw [misused_replace hs hr hm]
    exact hs.sound
  closed := Slots.all_set hs.closed fun st hst hc ha =>
    hs.closed i r hr st (hm.kind ▸ hst) hc (hm.taken ha)
  entries d j hj := by
    obtain ⟨q, hq, hk⟩ := hs.entries d j hj
    simp only [State.replace, State.exec, List.getElem?_set]
    by_cases hij : i = j
    · subst j
      cases hr.symm.trans hq
      exact ⟨r', by simp [(List.getElem?_eq_some_iff.mp hr).1], hm.kind.trans hk⟩
    · exact ⟨q, by simp [hij, hq], hk⟩

/-- A record is made: its code starts with nothing. -/
structure Starts (s : State) (r : Record) (as : List (Action Part)) : Prop where
  owned : Owned as 0
  leaves : Action.run as 0 = r.owned
  outcomes : r.outcomes = if r.phase.awaits then 0 else 1
  refusals : r.phase.declined → r.kind ≠ .work
  admitted : ∀ st, r.kind.stream? = some st → s.streams st = .closed → ¬ r.phase.taken

theorem Books.count_fresh {s : State} (hs : Books s) (p : Part) :
    s.held.count (s.requests.length, p) = (0 : Multiset Part).count p := by
  simpa using hs.held s.requests.length p

theorem misused_push {s : State} (hs : Books s) {r : Record} {as : List (Action Part)}
    (hm : Starts s r as) :
    (((s.point r.kind).exec s.requests.length as).push r).misused = s.misused := by
  have hfresh : ∀ p, (s.point r.kind).held.count (s.requests.length, p) = Multiset.count p 0 := by
    cases hk : r.kind <;> exact hs.count_fresh
  rw [State.push, misused_exec hfresh hm.owned]
  cases r.kind <;> rfl

theorem books_push {s : State} (hs : Books s) {r : Record} {as : List (Action Part)}
    (hm : Starts s r as) : Books (((s.point r.kind).exec s.requests.length as).push r) := by
  have hheld : (s.point r.kind).held = s.held := by cases r.kind <;> rfl
  have hreqs : (s.point r.kind).requests = s.requests := by cases r.kind <;> rfl
  have hstreams : (s.point r.kind).streams = s.streams := by cases r.kind <;> rfl
  have hfresh : ∀ p, (s.point r.kind).held.count (s.requests.length, p) = Multiset.count p 0 := by
    rw [hheld]
    exact hs.count_fresh
  refine ⟨fun j p => ?_, ?_, ?_, ?_, ?_, fun d j hj => ?_⟩
  · show ((s.point r.kind).exec s.requests.length as).held.count (j, p) = _
    rw [count_exec hfresh hm.owned, hm.leaves, hheld]
    simp only [State.push, State.exec, hreqs]
    by_cases hj : j = s.requests.length
    · subst j
      simp
    · rw [if_neg hj, hs.held j p, List.getElem?_append]
      split
      · rfl
      · rename_i hlt
        rw [List.getElem?_eq_none (by omega), List.getElem?_eq_none (by simp; omega)]
  · simpa only [State.push, State.exec, hreqs] using Slots.all_concat hs.outcomes hm.outcomes
  · simpa only [State.push, State.exec, hreqs] using Slots.all_concat hs.refusals hm.refusals
  · rw [misused_push hs hm]
    exact hs.sound
  · simp only [State.push, State.exec, hreqs, hstreams]
    exact Slots.all_concat hs.closed hm.admitted
  · simp only [State.push, State.exec, hreqs] at hj ⊢
    have hold : s.dirents d = some j → ∃ q, (s.requests ++ [r])[j]? = some q ∧
        q.kind = .directoryRead d := by
      intro h
      obtain ⟨q, hq, hk⟩ := hs.entries d j h
      exact ⟨q, by rw [List.getElem?_append_left (List.getElem?_eq_some_iff.mp hq).1, hq], hk⟩
    cases hk : r.kind with
    | directoryRead e =>
        simp only [State.point, hk] at hj
        split at hj
        · subst d
          cases hj
          exact ⟨r, by simp, hk⟩
        · exact hold hj
    | _ => exact hold (by simpa only [State.point, hk] using hj)

/-- The entry of a directory read is held while the request is in flight. -/
theorem mem_entry_iff {r : Record} {d : Nat} (hk : r.kind = .directoryRead d) :
    .entry ∈ r.owned ↔ r.phase.inFlight := by
  obtain ⟨k, p, n⟩ := r
  cases hk
  cases p <;> simp only [Record.owned, Kind.code, Phase.inFlight] <;> decide

theorem Books.mem_held_iff {s : State} (hs : Books s) {d j : Nat} (hj : s.dirents d = some j) :
    (j, .entry) ∈ s.held ↔ LastInFlight s d := by
  obtain ⟨r, hr, hk⟩ := hs.entries d j hj
  rw [← Multiset.count_pos, hs.count_self hr, Multiset.count_pos, mem_entry_iff hk]
  constructor
  · intro h j' hj'
    cases hj.symm.trans hj'
    exact ⟨r, hr, h⟩
  · intro h
    obtain ⟨r', hr', hp⟩ := h j hj
    cases hr.symm.trans hr'
    exact hp

theorem misused_touchEntry {s : State} (hs : Books s) (d : Nat) :
    (s.touchEntry d).misused = [] ↔ s.misused = [] ∧ LastInFlight s d := by
  unfold State.touchEntry
  split
  · rename_i j hj
    rw [← hs.mem_held_iff hj]
    simp only [State.exec, Action.map, List.map_cons, List.map_nil, misused_touch,
      List.append_eq_nil_iff, ite_eq_left_iff, List.cons_ne_nil, imp_false, not_not]
  · rename_i hnone
    exact (and_iff_left fun j hj => by simp [hnone] at hj).symm

theorem books_touchEntry {s : State} (hs : Books s) (d : Nat) : Books (s.touchEntry d) := by
  unfold State.touchEntry
  split
  · refine ⟨hs.held, hs.outcomes, hs.refusals, fun x hx => ?_, hs.closed, hs.entries⟩
    rcases List.mem_append.mp hx with hx | hx
    · exact hs.sound x hx
    · simp only [Action.map, List.map_cons, List.map_nil, misused_touch] at hx
      split at hx
      · cases hx
      · exact congrArg Prod.snd (List.mem_singleton.mp hx)
  · exact hs

/-- One step keeps the books, and uses no entry that is freed just when it is in order. -/
structure Kept (s : State) (a : Label) (t : State) : Prop where
  books : Books t
  misused : t.misused = [] ↔ s.misused = [] ∧ InOrder s a

theorem kept_replace {s : State} (hs : Books s) {i : Nat} {r r' : Record}
    {as : List (Action Part)} {a : Label} (hr : s.requests[i]? = some r) (hm : Moves r r' as)
    (ha : InOrder s a) : Kept s a ((s.exec i as).replace i r') where
  books := books_replace hs hr hm
  misused := by rw [misused_replace hs hr hm, and_iff_left ha]

theorem kept_submit {s t : State} {k : Kind} {accepted : Bool} (hs : Books s)
    (h : step c s (.submit k accepted) = some t) : Kept s (.submit k accepted) t := by
  obtain ⟨⟨-, hadm⟩, rfl⟩ := Machine.of_guard h
  have hstarts : ∀ (r : Record) as, r.kind = k → Starts s r as →
      Kept s (.submit k accepted) (((s.point k).exec s.requests.length as).push r) := by
    intro r as hk hm
    subst hk
    exact ⟨books_push hs hm, by rw [misused_push hs hm]; exact (and_iff_left trivial).symm⟩
  unfold State.submit
  split
  · refine hstarts ⟨k, .pending, 0⟩ _ rfl
      ⟨(sound_code k).accept, rfl, rfl, nofun, fun st hst hc => ?_⟩
    subst accepted
    cases k <;> simp_all [State.admits, Kind.stream?]
  · have hk : k ≠ .work := by
      rintro rfl
      exact absurd hadm ‹_›
    exact hstarts ⟨k, .rejected, 0⟩ _ rfl
      ⟨(soundRefusal_code hk).refuse, rfl, rfl, fun _ => hk, nofun⟩

/-- Which read of a directory is in flight does not change while a request stays so. -/
theorem lastInFlight_replace {s : State} {i : Nat} {r r' : Record} {as : List (Action Part)}
    (hr : s.requests[i]? = some r) (hp : r'.phase.inFlight = r.phase.inFlight) (d : Nat) :
    LastInFlight ((s.exec i as).replace i r') d ↔ LastInFlight s d := by
  obtain ⟨hlt, rfl⟩ := List.getElem?_eq_some_iff.mp hr
  apply forall_congr'
  intro j
  apply imp_congr_right
  intro _
  simp only [State.replace, State.exec, List.getElem?_set]
  by_cases hij : i = j
  · subst j
    simp [hlt, hp]
  · simp [hij]

theorem kept_finish {s : State} {i : Nat} {r : Record} (hs : Books s)
    (hr : s.requests[i]? = some r) (hp : r.phase = .pending) (result : Int) (stored : Bool) :
    Kept s (.finish i result stored) (s.finish i r result stored) := by
  have hsound := sound_code r.kind
  have howned : r.owned = r.kind.code.parts := owned_of_inFlight (by rw [hp]; rfl)
  have hout : r.outcomes = 0 := hs.outcomes_eq_zero hr (by rw [hp]; rfl)
  have hm : Moves r (r.become (.finished result)) r.kind.code.carry :=
    { owned := howned ▸ hsound.carry
      leaves := howned ▸ hsound.carried
      kind := rfl
      outcomes := hout
      refusals := nofun
      taken := fun _ => by rw [hp]; rfl }
  have hin : (∀ d, r.kind = .directoryRead d → stored = false) →
      InOrder s (.finish i result stored) := by
    intro hk hst r' d hr' hd
    cases hr.symm.trans hr'
    rw [hk d hd] at hst
    cases hst
  simp only [State.finish]
  split
  · rename_i d hk
    split
    · rename_i hst
      have hbooks := books_replace hs hr hm
      refine ⟨books_touchEntry hbooks d, ?_⟩
      rw [misused_touchEntry hbooks, misused_replace hs hr hm,
        lastInFlight_replace hr (by rw [hp]; rfl)]
      refine and_congr_right fun _ => ⟨fun h _ r' d' hr' hd' => ?_, fun h => h hst r d hr hk⟩
      cases hr.symm.trans hr'
      cases hk.symm.trans hd'
      exact h
    · rename_i hst
      exact kept_replace hs hr hm (hin fun _ _ => by simpa using hst)
  · rename_i hk
    exact kept_replace hs hr hm (hin fun d hd => (hk d hd).elim)

theorem kept_callback {s : State} {i : Nat} {r : Record} {result : Int} (hs : Books s)
    (hr : s.requests[i]? = some r) (hp : r.phase = .finished result) (resubmitted : Bool) :
    Kept s (.callback i resubmitted) (s.callback i r result resubmitted) := by
  have hsound := sound_code r.kind
  have howned : r.owned = r.kind.code.parts := owned_of_inFlight (by rw [hp]; rfl)
  have hout : r.outcomes = 0 := hs.outcomes_eq_zero hr (by rw [hp]; rfl)
  unfold State.callback
  split
  · refine kept_replace hs hr ?_ trivial
    exact ⟨howned ▸ hsound.enter, howned ▸ hsound.entered, rfl, hout, nofun,
      fun _ => by rw [hp]; rfl⟩
  · refine kept_replace hs hr ?_ trivial
    exact ⟨howned ▸ hsound.enter, howned ▸ hsound.entered, rfl, congrArg (· + 1) hout, nofun,
      nofun⟩

theorem kept_runTask {s : State} {i : Nat} {r : Record} (hs : Books s)
    (hr : s.requests[i]? = some r) (hp : r.phase = .pending) :
    Kept s (.runTask i) ((s.exec i r.kind.code.enter).replace i (r.call (.calling 0))) := by
  have hsound := sound_code r.kind
  have howned : r.owned = r.kind.code.parts := owned_of_inFlight (by rw [hp]; rfl)
  have hout : r.outcomes = 0 := hs.outcomes_eq_zero hr (by rw [hp]; rfl)
  refine kept_replace hs hr ?_ trivial
  exact ⟨howned ▸ hsound.enter, howned ▸ hsound.entered, rfl, congrArg (· + 1) hout, nofun, nofun⟩

/-- What a callback that returns leaves is what is left for `onAfter`, or nothing. -/
theorem moves_ret {s : State} {i : Nat} {r : Record} {result : Int} (hs : Books s)
    (hr : s.requests[i]? = some r) (hp : r.phase = .calling result) :
    Moves r (r.become (if r.kind = .work then .ran else .done)) r.kind.code.leave := by
  have howned : r.owned = r.kind.code.parts := owned_of_inFlight (by rw [hp]; rfl)
  have hout : r.outcomes = 1 := hs.outcomes_eq_one hr (by rw [hp]; rfl)
  have hnone : (r.become (if r.kind = .work then .ran else .done)).phase.awaits = false ∧
      (r.become (if r.kind = .work then .ran else .done)).phase.taken = false := by
    unfold Record.become
    split <;> exact ⟨rfl, rfl⟩
  refine ⟨howned ▸ (sound_code r.kind).leave, ?_, rfl, ?_, fun h => ?_, fun h => ?_⟩
  · rw [howned]
    unfold Record.become
    split
    · rfl
    · exact left_code ‹_›
  · rw [hnone.1]
    exact hout
  · unfold Record.become at h
    split at h <;> cases h
  · rw [hnone.2] at h
    cases h

theorem kept_ret {s : State} {i : Nat} {r : Record} {result : Int} (hs : Books s)
    (hr : s.requests[i]? = some r) (hp : r.phase = .calling result) :
    Kept s (.ret i) (s.ret i r result) := by
  have hin : (∀ d, r.kind = .directoryRead d → ¬ 0 < result) → InOrder s (.ret i) := by
    intro hk r' d result' hr' hd hp' hpos
    cases hr.symm.trans hr'
    cases hp.symm.trans hp'
    exact absurd hpos (hk d hd)
  simp only [State.ret]
  split
  · rename_i d hk
    split
    · rename_i hpos
      have hbooks := books_touchEntry hs d
      have hr' : (s.touchEntry d).requests[i]? = some r := by
        unfold State.touchEntry
        split <;> exact hr
      refine ⟨books_replace hbooks hr' (moves_ret hs hr hp), ?_⟩
      rw [misused_replace hbooks hr' (moves_ret hs hr hp), misused_touchEntry hs]
      refine and_congr_right fun _ =>
        ⟨fun h r' d' result' hr' hd' hp' _ => ?_, fun h => h r d result hr hk hp hpos⟩
      cases hr.symm.trans hr'
      cases hk.symm.trans hd'
      exact h
    · rename_i hpos
      exact kept_replace hs hr (moves_ret hs hr hp) (hin fun _ _ => hpos)
  · rename_i hk
    exact kept_replace hs hr (moves_ret hs hr hp) (hin fun d hd => (hk d hd).elim)

theorem kept_report {s : State} {i : Nat} {r : Record} (hs : Books s)
    (hr : s.requests[i]? = some r) (hp : r.phase = .rejected) :
    Kept s (.report i) (s.replace i (r.call .refused)) := by
  have howned : r.owned = r.kind.code.rest := by rw [Record.owned, hp]
  have hout : r.outcomes = 0 := hs.outcomes_eq_zero hr (by rw [hp]; rfl)
  have hm : Moves r (r.call .refused) [] :=
    ⟨trivial, howned, rfl, congrArg (· + 1) hout, fun _ => by rw [hp]; rfl, nofun⟩
  have hkept := kept_replace (a := .report i) hs hr hm trivial
  rwa [exec_nil] at hkept

theorem kept_refusedRet {s : State} {i : Nat} {r : Record} (hs : Books s)
    (hr : s.requests[i]? = some r) (hp : r.phase = .refused) :
    Kept s (.ret i) ((s.exec i r.kind.code.refusedReturn).replace i (r.become .done)) := by
  have hsound := soundRefusal_code (hs.refusals i r hr (by rw [hp]; rfl))
  have howned : r.owned = r.kind.code.rest := by rw [Record.owned, hp]
  have hout : r.outcomes = 1 := hs.outcomes_eq_one hr (by rw [hp]; rfl)
  refine kept_replace hs hr ⟨howned ▸ hsound.ret, howned ▸ hsound.done, rfl, hout, nofun, nofun⟩ ?_
  intro r' d result hr' hd hp'
  cases hr.symm.trans hr'
  cases hp.symm.trans hp'

theorem kept_after {s : State} {i : Nat} {r : Record} (hs : Books s)
    (hr : s.requests[i]? = some r) (hp : r.phase = .ran) :
    Kept s (.after i) ((s.exec i r.kind.code.after).replace i (r.become .done)) := by
  have hsound := sound_code r.kind
  have howned : r.owned = r.kind.code.left := by rw [Record.owned, hp]
  have hout : r.outcomes = 1 := hs.outcomes_eq_one hr (by rw [hp]; rfl)
  refine kept_replace hs hr ?_ trivial
  exact ⟨howned ▸ hsound.after, howned ▸ hsound.afterDone, rfl, hout, nofun, nofun⟩

theorem kept_step {s t : State} {a : Label} (hs : Books s) (h : step c s a = some t) :
    Kept s a t := by
  cases a with
  | submit k accepted => exact kept_submit hs h
  | finish i result stored =>
      obtain ⟨r, hr, hstep⟩ := Option.bind_eq_some_iff.mp h
      obtain ⟨⟨hp, -⟩, rfl⟩ := Machine.of_guard hstep
      exact kept_finish hs hr hp result stored
  | callback i resubmitted =>
      obtain ⟨r, hr, hstep⟩ := Option.bind_eq_some_iff.mp h
      split at hstep
      · rename_i result hp
        obtain ⟨-, rfl⟩ := Machine.of_guard hstep
        exact kept_callback hs hr hp resubmitted
      · cases hstep
  | runTask i =>
      obtain ⟨r, hr, hstep⟩ := Option.bind_eq_some_iff.mp h
      obtain ⟨⟨-, hp⟩, rfl⟩ := Machine.of_guard hstep
      exact kept_runTask hs hr hp
  | report i =>
      obtain ⟨r, hr, hstep⟩ := Option.bind_eq_some_iff.mp h
      obtain ⟨hp, rfl⟩ := Machine.of_guard hstep
      exact kept_report hs hr hp
  | ret i =>
      obtain ⟨r, hr, hstep⟩ := Option.bind_eq_some_iff.mp h
      split at hstep
      · rename_i result hp
        cases hstep
        exact kept_ret hs hr hp
      · rename_i hp
        cases hstep
        exact kept_refusedRet hs hr hp
      · cases hstep
  | after i =>
      obtain ⟨r, hr, hstep⟩ := Option.bind_eq_some_iff.mp h
      obtain ⟨⟨hp, -⟩, rfl⟩ := Machine.of_guard hstep
      exact kept_after hs hr hp
  | closeStream st =>
      obtain ⟨-, rfl⟩ := Machine.of_guard h
      refine ⟨⟨hs.held, hs.outcomes, hs.refusals, hs.sound, ?_, hs.entries⟩,
        (and_iff_left trivial).symm⟩
      intro i r hr x hx hc
      dsimp only at hc
      split at hc
      · cases hc
      · exact hs.closed i r hr x hx hc
  | finishClose st =>
      obtain ⟨⟨-, -, hall⟩, rfl⟩ := Machine.of_guard h
      refine ⟨⟨hs.held, hs.outcomes, hs.refusals, hs.sound, ?_, hs.entries⟩,
        (and_iff_left trivial).symm⟩
      intro i r hr x hx hc
      dsimp only at hc
      split at hc
      · subst x
        have hr' := List.all_eq_true.mp hall r (List.mem_of_getElem? hr)
        have hdone : r.phase = .done := by simpa [hx] using hr'
        simp [hdone, Phase.taken]
      · exact hs.closed i r hr x hx hc

theorem books_init : Books (machine c).init where
  held _ _ := rfl
  outcomes := Slots.all_nil
  refusals := Slots.all_nil
  sound := nofun
  closed := Slots.all_nil
  entries _ _ h := nomatch h

theorem count_root_owned {r : Record} (hr : r.phase.declined → r.kind ≠ .work) (w : Role) :
    r.owned.count (.root w) = if r.phase.inFlight then r.kind.roles.count w else 0 := by
  cases hp : r.phase with
  | pending | finished _ | calling _ => simp [Record.owned, hp, Phase.inFlight, count_root_parts]
  | rejected | refused =>
      simp [Record.owned, hp, Phase.inFlight, count_root_rest (hr (by rw [hp]; rfl))]
  | ran => simp [Record.owned, hp, Phase.inFlight, count_root_left]
  | done => simp [Record.owned, hp, Phase.inFlight]

theorem not_running_of_taken {r : Record} (h : r.phase.taken = true) : r.running = false := by
  unfold Record.running
  cases hp : r.phase with
  | pending | finished | ran | done => rfl
  | calling | rejected | refused =>
      rw [hp] at h
      cases h

theorem requests_touchEntry (s : State) (d : Nat) : (s.touchEntry d).requests = s.requests := by
  unfold State.touchEntry
  split <;> rfl

/-- How many calls and returns there are still to come on the loop's thread. -/
def Record.busy (r : Record) : Nat := r.running.toNat + (decide (r.phase = .rejected)).toNat

/-- A callback that is running may return at any time, and a refusal be reported. -/
theorem ret_enabled {s : State} {j : Nat} {r : Record} (hr : s.requests[j]? = some r)
    (hrun : r.running = true) :
    ∃ l t r', step c s l = some t ∧ r'.busy < r.busy ∧ t.requests = s.requests.set j r' := by
  have hbusy : r.busy = 1 + (decide (r.phase = .rejected)).toNat := by rw [Record.busy, hrun]; rfl
  rw [hbusy]
  unfold Record.running at hrun
  cases hp : r.phase with
  | calling result =>
      refine ⟨.ret j, s.ret j r result, r.become (if r.kind = .work then .ran else .done), ?_, ?_,
        ?_⟩
      · simp [step, hr, hp]
      · by_cases hk : r.kind = .work <;> simp [Record.become, Record.busy, Record.running, hk]
      · simp only [State.ret, State.replace, State.exec]
        split
        · split
          · rw [requests_touchEntry]
          · rfl
        · rfl
  | rejected =>
      refine ⟨.report j, s.replace j (r.call .refused), r.call .refused, ?_, ?_, rfl⟩
      · simp [step, hr, hp]
      · exact Nat.lt_succ_self 1
  | refused =>
      refine ⟨.ret j, _, r.become .done, by simp only [step, hr, Option.bind_some, hp]; rfl,
        Nat.zero_lt_one, rfl⟩
  | pending | finished | ran | done =>
      rw [hp] at hrun
      cases hrun

/-- The callbacks that are running return, and the other requests stay. -/
theorem becomes_idle (c : Int) (n : Nat) {s : State}
    (hn : Slots.total Record.busy s.requests ≤ n) :
    ∃ bs t, (machine c).run s bs = some t ∧ t.idle = true ∧
      ∀ (i : Nat) (r : Record), s.requests[i]? = some r → r.running = false →
        t.requests[i]? = some r := by
  induction n generalizing s with
  | zero =>
      refine ⟨[], s, rfl, ?_, fun _ _ hr _ => hr⟩
      simp only [State.idle, List.all_eq_true]
      intro r hr
      obtain ⟨i, hi⟩ := List.mem_iff_getElem?.mp hr
      have hle := Slots.le_total (g := Record.busy) hi
      cases hrun : r.running with
      | false => rfl
      | true =>
          simp only [Record.busy, hrun, Bool.toNat_true] at hle
          omega
  | succ n ih =>
      by_cases hidle : s.idle = true
      · exact ⟨[], s, rfl, hidle, fun _ _ hr _ => hr⟩
      · simp only [State.idle, List.all_eq_true, not_forall] at hidle
        obtain ⟨r, hmem, hrun⟩ := hidle
        have hrun : r.running = true := by simpa using hrun
        obtain ⟨j, hj⟩ := List.mem_iff_getElem?.mp hmem
        obtain ⟨l, t, r', hstep, hlt, hreqs⟩ := ret_enabled (c := c) hj hrun
        have htotal := Slots.total_set Record.busy (b := r') hj
        obtain ⟨bs, u, hu, hidle, hkeep⟩ := ih (s := t) (by rw [hreqs]; omega)
        refine ⟨l :: bs, u, ?_, hidle, fun i q hq ha => hkeep i q ?_ ha⟩
        · exact Option.bind_eq_some_iff.mpr ⟨t, hstep, hu⟩
        · -- the record that moved was running
          have hne : j ≠ i := by
            rintro rfl
            cases hj.symm.trans hq
            rw [ha] at hrun
            cases hrun
          rw [hreqs, List.getElem?_set_ne hne, hq]

theorem callback_answers {s : State} {i : Nat} {r : Record} {result : Int}
    (hidle : s.idle = true) (hr : s.requests[i]? = some r) (hp : r.phase = .finished result)
    (hout : r.outcomes = 0) :
    ∃ t r', step c s (.callback i false) = some t ∧ t.requests[i]? = some r' ∧
      r'.outcomes = 1 := by
  refine ⟨s.callback i r result false, r.call (.calling result), ?_, ?_, congrArg (· + 1) hout⟩
  · simp [step, hr, hp, hidle]
  · simp [State.callback, State.replace, State.exec, (List.getElem?_eq_some_iff.mp hr).1]

/-- Libuv may be done with a request it has. -/
theorem finish_enabled {s : State} {i : Nat} {r : Record} (hr : s.requests[i]? = some r)
    (hp : r.phase = .pending) (hk : r.kind ≠ .work) :
    ∃ t result, step c s (.finish i result false) = some t ∧
      t.requests = s.requests.set i (r.become (.finished result)) := by
  obtain ⟨result, hresult⟩ : ∃ result, s.results c r.kind result false = true := by
    cases hkind : r.kind with
    | work => exact absurd hkind hk
    | streamWrite | streamShutdown => exact ⟨c, by simp [State.results]⟩
    | _ => exact ⟨-1, by simp [State.results]⟩
  refine ⟨s.finish i r result false, result, ?_, ?_⟩
  · simp only [step, hr, Option.bind_some]
    exact if_pos ⟨hp, hresult⟩
  · simp only [State.finish]
    split <;> rfl

/-- What libuv has can be called back, whatever is going on. -/
theorem answered_taken {s : State} (hs : Books s) {i : Nat} {r : Record}
    (hr : s.requests[i]? = some r) (ha : r.phase.taken = true) :
    ∃ bs t r', (machine c).run s bs = some t ∧ t.requests[i]? = some r' ∧ r'.outcomes = 1 := by
  have hlt := (List.getElem?_eq_some_iff.mp hr).1
  obtain ⟨bs, t, ht, hidle, hkeep⟩ := becomes_idle c _ (Nat.le_refl _)
  have hrt := hkeep i r hr (not_running_of_taken ha)
  have hltt := (List.getElem?_eq_some_iff.mp hrt).1
  cases hp : r.phase with
  | finished result =>
      have hout := hs.outcomes_eq_zero hr (by rw [hp]; rfl)
      obtain ⟨u, r', hu, hr', hone⟩ := callback_answers (c := c) hidle hrt hp hout
      refine ⟨bs ++ [.callback i false], u, r', ?_, hr', hone⟩
      rw [Machine.run_append, ht, Option.bind_some]
      exact Option.bind_eq_some_iff.mpr ⟨u, hu, rfl⟩
  | pending =>
      have hout := hs.outcomes_eq_zero hr (by rw [hp]; rfl)
      by_cases hk : r.kind = .work
      · refine ⟨[.runTask i], (s.exec i r.kind.code.enter).replace i (r.call (.calling 0)),
          r.call (.calling 0), ?_, ?_, congrArg (· + 1) hout⟩
        · simp [Machine.run, machine, step, hr, hk, hp]
        · simp [State.replace, State.exec, hlt]
      · obtain ⟨u, result, hu, hreqs⟩ := finish_enabled (c := c) hrt hp hk
        have hidleu : u.idle = true := by
          simp only [State.idle, hreqs, List.all_eq_true]
          intro q hq
          cases List.mem_or_eq_of_mem_set hq with
          | inl hq => exact List.all_eq_true.mp hidle q hq
          | inr hq => rw [hq]; rfl
        have hru : u.requests[i]? = some (r.become (.finished result)) := by
          simp [hreqs, hltt]
        obtain ⟨v, r', hv, hr', hone⟩ := callback_answers (c := c) hidleu hru rfl hout
        refine ⟨bs ++ [.finish i result false, .callback i false], v, r', ?_, hr', hone⟩
        rw [Machine.run_append, ht, Option.bind_some]
        exact Option.bind_eq_some_iff.mpr ⟨u, hu, Option.bind_eq_some_iff.mpr ⟨v, hv, rfl⟩⟩
  | calling | rejected | refused | ran | done =>
      rw [hp] at ha
      cases ha

/-- Whatever is going on, the outcome of a request can still come. -/
theorem answered {s : State} (hs : Books s) {i : Nat} {r : Record}
    (hr : s.requests[i]? = some r) (ha : r.phase.awaits = true) :
    ∃ bs t r', (machine c).run s bs = some t ∧ t.requests[i]? = some r' ∧ r'.outcomes = 1 := by
  by_cases hp : r.phase = .rejected
  · have hout := hs.outcomes_eq_zero hr ha
    refine ⟨[.report i], s.replace i (r.call .refused), r.call .refused, ?_, ?_,
      congrArg (· + 1) hout⟩
    · simp [Machine.run, machine, step, hr, hp]
    · simp [State.replace, (List.getElem?_eq_some_iff.mp hr).1]
  · refine answered_taken hs hr ?_
    cases hq : r.phase with
    | pending | finished => rfl
    | rejected => exact absurd hq hp
    | calling | refused | ran | done =>
        rw [hq] at ha
        cases ha

/-- A task's wrapper has its second turn when no callback runs. -/
theorem ended_ran {s : State} {i : Nat} {r : Record} (hr : s.requests[i]? = some r)
    (hp : r.phase = .ran) :
    ∃ bs t r', (machine c).run s bs = some t ∧ t.requests[i]? = some r' ∧ r'.phase = .done := by
  have hrun : r.running = false := by simp [Record.running, hp]
  obtain ⟨bs, t, ht, hidle, hkeep⟩ := becomes_idle c _ (Nat.le_refl _)
  have hrt := hkeep i r hr hrun
  refine ⟨bs ++ [.after i], (t.exec i r.kind.code.after).replace i (r.become .done),
    r.become .done, ?_, ?_, rfl⟩
  · rw [Machine.run_append, ht, Option.bind_some]
    simp [Machine.run, machine, step, hrt, hp, hidle]
  · simp [State.replace, State.exec, (List.getElem?_eq_some_iff.mp hrt).1]

/-- What has been answered can be given back. -/
theorem ended {s : State} {i : Nat} {r : Record} (hr : s.requests[i]? = some r)
    (ha : ¬ r.phase.awaits = true) :
    ∃ bs t r', (machine c).run s bs = some t ∧ t.requests[i]? = some r' ∧ r'.phase = .done := by
  have hlt := (List.getElem?_eq_some_iff.mp hr).1
  cases hp : r.phase with
  | done => exact ⟨[], s, r, rfl, hr, hp⟩
  | ran => exact ended_ran hr hp
  | refused =>
      refine ⟨[.ret i], (s.exec i r.kind.code.refusedReturn).replace i (r.become .done),
        r.become .done, ?_, ?_, rfl⟩
      · simp [Machine.run, machine, step, hr, hp]
      · simp [State.replace, State.exec, hlt]
  | calling result =>
      have hstep : step c s (.ret i) = some (s.ret i r result) := by simp [step, hr, hp]
      have hreqs : (s.ret i r result).requests =
          s.requests.set i (r.become (if r.kind = .work then .ran else .done)) := by
        simp only [State.ret, State.replace, State.exec]
        split
        · split
          · rw [requests_touchEntry]
          · rfl
        · rfl
      have hrt : (s.ret i r result).requests[i]? =
          some (r.become (if r.kind = .work then .ran else .done)) := by
        simp [hreqs, hlt]
      by_cases hk : r.kind = .work
      · rw [if_pos hk] at hrt
        obtain ⟨bs, t, r', ht, hr', hdone⟩ := ended_ran (c := c) hrt rfl
        exact ⟨.ret i :: bs, t, r', Option.bind_eq_some_iff.mpr ⟨_, hstep, ht⟩, hr', hdone⟩
      · rw [if_neg hk] at hrt
        exact ⟨[.ret i], _, _, Option.bind_eq_some_iff.mpr ⟨_, hstep, rfl⟩, hrt, rfl⟩
  | pending | finished | rejected =>
      rw [hp] at ha
      exact absurd rfl ha

/-- Only a stream's write has its request freed after the callback of a refusal. -/
theorem count_rest {k : Kind} (h : k ≠ .work) : k.code.rest.count .data = 0 ∧
    ((∃ st, k = .streamWrite st) → k.code.rest = k.code.prepared) ∧
    ((¬ ∃ st, k = .streamWrite st) → k.code.rest.count .request = 0) ∧
    k.code.prepared.count .request = 1 := by
  cases k with
  | work => exact absurd rfl h
  | streamWrite st =>
      refine ⟨?_, fun _ => rfl, fun hk => absurd ⟨st, rfl⟩ hk, ?_⟩ <;>
        (simp only [Kind.code]; decide)
  | _ =>
      refine ⟨?_, fun ⟨_, hk⟩ => (nomatch hk), fun _ => ?_, ?_⟩ <;>
        (simp only [Kind.code]; decide)

theorem Books.count_rejected {s : State} (hs : Books s) {i : Nat} {r : Record}
    (hr : s.requests[i]? = some r) (hp : r.phase = .rejected) (p : Part) :
    s.held.count (i, p) = r.kind.code.rest.count p := by
  rw [hs.count_self hr, Record.owned, hp]

theorem rejected_of_books {s : State} (hs : Books s) {i : Nat} {r : Record}
    (hr : s.requests[i]? = some r) (hp : r.phase = .rejected) :
    (i, .data) ∉ s.held ∧ ((i, .request) ∈ s.held ↔ ∃ st, r.kind = .streamWrite st) := by
  obtain ⟨hdata, hwrite, hrequest, hone⟩ := count_rest (hs.refusals i r hr (by rw [hp]; rfl))
  rw [← Multiset.count_eq_zero, ← Multiset.count_pos, hs.count_rejected hr hp,
    hs.count_rejected hr hp]
  refine ⟨hdata, fun hpos => ?_, fun hk => ?_⟩
  · by_contra hk
    rw [hrequest hk] at hpos
    exact absurd hpos (Nat.lt_irrefl 0)
  · rw [hwrite hk, hone]
    exact Nat.zero_lt_one

theorem submitted {s : State} {k : Kind} {accepted : Bool} (huser : s.atUser)
    (hadmits : s.admits k accepted) : ∃ t, step c s (.submit k accepted) = some t ∧
      t.requests = s.requests ++ [⟨k, if accepted then .pending else .rejected, 0⟩] := by
  have hpoint : (s.point k).requests = s.requests := by
    unfold State.point
    split <;> rfl
  refine ⟨s.submit k accepted, if_pos ⟨huser, hadmits⟩, ?_⟩
  cases accepted <;> simp [State.submit, State.push, State.exec, hpoint]

theorem settled_of_books {s : State} (hs : Books s) : Settled c s where
  submitted _ _ := submitted
  outcomes := hs.outcomes
  answered _ _ := answered hs
  ended _ _ := ended
  roots i w := by
    rw [hs.held i (.root w)]
    cases hr : s.requests[i]? with
    | none => rfl
    | some r =>
        simp only [Option.elim, count_root_owned (hs.refusals i r hr), Option.filter_some]
        split <;> rfl
  kept i r hr ha := by
    rw [hs.count_self hr, hs.count_self hr, owned_of_inFlight (inFlight_of_taken ha)]
    exact count_parts r.kind
  rejected _ _ := rejected_of_books hs
  freed i r hr hp p := by
    rw [← Multiset.count_eq_zero, hs.count_self hr, Record.owned, hp]
    exact Multiset.count_zero p
  sound := hs.sound
  closed i r st hr hst hc := hs.closed i r hr st hst hc

/-- What has been refused and not reported is a stream's write. -/
def Prompt (s : State) : Prop :=
  Slots.All (fun _ r => r.phase = .rejected → ∃ st, r.kind = .streamWrite st) s.requests

theorem unfreed_of_prompt {s : State} (hs : Books s) (hprompt : Prompt s) {i : Nat} {r : Record}
    (hr : s.requests[i]? = some r) (ha : r.phase.awaits) (p : Part) :
    s.held.count (i, p) = r.made.count p := by
  rw [hs.count_self hr]
  unfold Record.owned Record.made
  cases hp : r.phase with
  | pending | finished => rfl
  | rejected =>
      have hwork := hs.refusals i r hr (by rw [hp]; rfl)
      exact congrArg (Multiset.count p) ((count_rest hwork).2.1 (hprompt i r hr hp))
  | calling | refused | ran | done => exact absurd ha (by rw [hp]; exact Bool.false_ne_true)

/-- After its submission a request is not refused any more. -/
theorem requests_step {s t : State} {a : Label} (h : step c s a = some t) :
    (∃ k accepted, a = .submit k accepted) ∨ t.requests = s.requests ∨
      ∃ i r', t.requests = s.requests.set i r' ∧ r'.phase ≠ .rejected := by
  cases a with
  | submit k accepted => exact .inl ⟨k, accepted, rfl⟩
  | finish i result stored =>
      obtain ⟨r, hr, hstep⟩ := Option.bind_eq_some_iff.mp h
      obtain ⟨-, rfl⟩ := Machine.of_guard hstep
      refine .inr (.inr ⟨i, r.become (.finished result), ?_, nofun⟩)
      simp only [State.finish]
      split
      · split
        · rw [requests_touchEntry]
          rfl
        · rfl
      · rfl
  | callback i resubmitted =>
      obtain ⟨r, hr, hstep⟩ := Option.bind_eq_some_iff.mp h
      split at hstep
      · rename_i result hp
        obtain ⟨-, rfl⟩ := Machine.of_guard hstep
        unfold State.callback
        split
        · exact .inr (.inr ⟨i, _, rfl, nofun⟩)
        · exact .inr (.inr ⟨i, _, rfl, nofun⟩)
      · cases hstep
  | runTask i | report i | after i =>
      obtain ⟨r, hr, hstep⟩ := Option.bind_eq_some_iff.mp h
      obtain ⟨-, rfl⟩ := Machine.of_guard hstep
      exact .inr (.inr ⟨i, _, rfl, nofun⟩)
  | ret i =>
      obtain ⟨r, hr, hstep⟩ := Option.bind_eq_some_iff.mp h
      split at hstep
      · rename_i result hp
        cases hstep
        refine .inr (.inr ⟨i, r.become (if r.kind = .work then .ran else .done), ?_, ?_⟩)
        · simp only [State.ret, State.replace, State.exec]
          split
          · split
            · rw [requests_touchEntry]
            · rfl
          · rfl
        · unfold Record.become
          split <;> nofun
      · cases hstep
        exact .inr (.inr ⟨i, _, rfl, nofun⟩)
      · cases hstep
  | closeStream st | finishClose st =>
      obtain ⟨-, rfl⟩ := Machine.of_guard h
      exact .inr (.inl rfl)

theorem requests_submit (s : State) (k : Kind) (accepted : Bool) :
    (s.submit k accepted).requests =
      s.requests ++ [if accepted then ⟨k, .pending, 0⟩ else ⟨k, .rejected, 0⟩] := by
  unfold State.submit
  cases accepted <;> cases k <;> rfl

theorem prompt_step {s t : State} {a : Label} (hprompt : Prompt s) (ha : Answered a)
    (h : step c s a = some t) : Prompt t := by
  unfold Prompt
  rcases requests_step h with ⟨k, accepted, rfl⟩ | hsame | ⟨i, r', hset, hphase⟩
  · obtain ⟨-, rfl⟩ := Machine.of_guard h
    rw [requests_submit]
    refine Slots.all_concat hprompt ?_
    cases accepted with
    | true => exact nofun
    | false => exact fun _ => ha rfl
  · rw [hsame]
    exact hprompt
  · rw [hset]
    exact Slots.all_set hprompt fun hp => absurd hp hphase

/-- A request that is refused is freed at once, where it is not a stream's write. -/
theorem freed_early {s t : State} {a : Label} (hs : Books s) (ha : ¬ Answered a)
    (h : step c s a = some t) : ¬ SettledWhole c t := by
  intro ht
  have hbooks := (kept_step hs h).books
  cases a with
  | submit k accepted =>
      obtain ⟨⟨-, hadm⟩, rfl⟩ := Machine.of_guard h
      simp only [Answered, Classical.not_imp] at ha
      obtain ⟨rfl, hk⟩ := ha
      have hr : (s.submit k false).requests[s.requests.length]? = some ⟨k, .rejected, 0⟩ := by
        rw [requests_submit]
        exact List.getElem?_concat_length
      have hcount := ht.unfreed _ _ .request hr rfl (.inl rfl)
      rw [hbooks.count_rejected hr rfl] at hcount
      obtain ⟨-, -, hrest, hone⟩ := count_rest (hbooks.refusals _ _ hr rfl)
      have hzero := hrest hk
      exact absurd (hcount.symm.trans hzero) (ne_of_eq_of_ne hone Nat.one_ne_zero)
  | _ => exact ha trivial

/-- Every run is settled but for the order of a refusal and for the entries, and those too
exactly when only writes of streams are refused, and the last read of a directory outlasts the
use of what it points the directory to. -/
theorem settled_and_whole_iff_inOrder (canceled : Int) (as : List Label) :
    (machine canceled).Always (Settled canceled) (machine canceled).init as ∧
      ((machine canceled).Always (SettledWhole canceled) (machine canceled).init as ↔
        (machine canceled).Throughout (fun s a => InOrder s a ∧ Answered a)
          (machine canceled).init as) := by
  refine ⟨Machine.always_of_step (fun _ => settled_of_books)
    (fun _ _ _ hs h => (kept_step hs h).books) books_init, ?_⟩
  apply Machine.always_iff_throughout (I := fun s => Books s ∧ s.misused = [] ∧ Prompt s)
  · intro s ⟨hs, hmisused, hprompt⟩
    exact ⟨settled_of_books hs, fun i r p hr ha _ => unfreed_of_prompt hs hprompt hr ha p, hmisused⟩
  · intro s a t ⟨hs, hmisused, hprompt⟩ ⟨hin, ha⟩ h
    exact ⟨(kept_step hs h).books, (kept_step hs h).misused.mpr ⟨hmisused, hin⟩,
      prompt_step hprompt ha h⟩
  · intro s a t ⟨hs, _, _⟩ hG h ht
    by_cases ha : Answered a
    · exact hG ⟨((kept_step hs h).misused.mp ht.unused).2, ha⟩
    · exact freed_early hs ha h ht
  · exact ⟨books_init, rfl, Slots.all_nil⟩

/-- Two reads of one directory, the second of which ends first: the first stores its
entry in what the second has freed. -/
theorem overlapping_reads_use_freed_entry :
    ¬ (machine (-125)).Always (SettledWhole (-125)) (machine (-125)).init
      [.submit (.directoryRead 0) true, .submit (.directoryRead 0) true, .finish 1 1 true,
        .callback 1 false, .ret 1, .finish 0 1 true] := by
  intro h
  exact absurd (h.mono fun s hs => hs.unused) (by decide)

end HxcppLuv.Request
