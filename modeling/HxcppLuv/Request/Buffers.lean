import HxcppLuv.Request.Ledger

/-!
What libuv allocates for the file and directory requests: the copy of a path, which the
request points to, and the copy of a name, which an entry of a directory read points to.
`uv_fs_req_cleanup` frees both, but finds the entry through the directory. The wrappers of
files all call it, that of a directory read where the result is not an error, and those of
the opening and the closing of a directory do not.
-/

namespace HxcppLuv.Request.Buffers

open HxcppLuv.Action

inductive Buffer where
  | path
  | name
  deriving DecidableEq

/-- The requests; the buffers libuv has allocated and not freed, each under the request it
was allocated for, and those freed when they were not there; which of the pointers to them
are set; which directory a close of one closes; and the directories that are freed and
those used after that. -/
structure State where
  requests : Request.State
  live : Multiset (Nat × Buffer)
  misused : List (Nat × Buffer)
  pointers : Nat × Buffer → Bool
  closes : Nat → Nat
  gone : Nat → Bool
  strayed : List Nat

/-- With the submission of a `directoryClose` comes the directory. -/
abbrev Label := Request.Label × Nat

namespace State

def exec (s : State) (as : List (Action (Nat × Buffer))) : State :=
  { s with live := Action.run as s.live, misused := s.misused ++ Action.misused as s.live }

def setPointer (s : State) (x : Nat × Buffer) (set : Bool) : State :=
  { s with pointers := fun y => if y = x then set else s.pointers y }

/-- `uv__strdup` into a pointer. -/
def strdup (s : State) (x : Nat × Buffer) : State := (s.exec [acquire x]).setPointer x true

/-- `uv__free` of a pointer, which is null after it. -/
def free (s : State) (x : Nat × Buffer) : State :=
  if s.pointers x then (s.exec [release x]).setPointer x false else s

def useDirectory (s : State) (d : Nat) : State :=
  if s.gone d then { s with strayed := d :: s.strayed } else s

/-- Up to the return of libuv. -/
def submit (s : State) (dir : Nat) (k : Kind) (accepted : Bool) : State :=
  let i := s.requests.requests.length
  match k with
  | .fileOpen | .directoryOpen => if accepted then s.strdup (i, .path) else s
  | .directoryRead d => s.useDirectory d
  | .directoryClose => { s with closes := fun j => if j = i then dir else s.closes j }
  | .fileWrite | .fileRead | .fileClose | .streamWrite _ | .streamShutdown _ | .work => s

/-- `uv__fs_readdir`, which is done with one entry, and `uv__fs_closedir`. -/
def finish (s : State) (i : Nat) (k : Kind) (result : Int) (stored : Bool) : State :=
  match k with
  | .directoryRead d =>
      let t := s.useDirectory d
      match s.requests.dirents d with
      | some j =>
          if stored then
            -- the name is null where it cannot be copied
            if result < 0 then t.setPointer (j, .name) false else t.strdup (j, .name)
          else t
      | none => t
  | .directoryClose =>
      let d := s.closes i
      { s.useDirectory d with gone := fun e => if e = d then true else s.gone e }
  | .fileOpen | .fileWrite | .fileRead | .fileClose | .directoryOpen | .streamWrite _
  | .streamShutdown _ | .work => s

/-- `uv__fs_readdir_cleanup`. -/
def readdirCleanup (s : State) (d : Nat) (result : Int) : State :=
  let t := s.useDirectory d
  match s.requests.dirents d with
  | some j => if 0 < result then t.free (j, .name) else t
  | none => t

/-- What the wrapper does of `uv_fs_req_cleanup` when the user's callback returns. -/
def cleanup (s : State) (i : Nat) (k : Kind) (result : Int) : State :=
  match k with
  | .fileOpen | .fileWrite | .fileRead | .fileClose => s.free (i, .path)
  | .directoryRead d => if result < 0 then s else s.readdirCleanup d result
  | .directoryOpen | .directoryClose | .streamWrite _ | .streamShutdown _ | .work => s

def effect (s : State) (dir : Nat) : Request.Label → State
  | .submit k accepted => s.submit dir k accepted
  | .finish i result stored =>
      match s.requests.requests[i]? with
      | some r => s.finish i r.kind result stored
      | none => s
  | .ret i =>
      match s.requests.requests[i]? with
      | some ⟨k, .calling result, _⟩ => s.cleanup i k result
      | _ => s
  | .callback _ _ | .runTask _ | .report _ | .after _ | .closeStream _ | .finishClose _ => s

end State

def step (canceled : Int) (s : State) (l : Label) : Option State :=
  (Request.step canceled s.requests l.1).map fun t => { s.effect l.2 l.1 with requests := t }

def machine (canceled : Int) : Machine State Label where
  init := ⟨(Request.machine canceled).init, 0, [], fun _ => false, fun _ => 0, fun _ => false, []⟩
  step := step canceled

/-- Each buffer is there once and is pointed to. -/
def State.Pointed (s : State) : Prop := ∀ x, s.live.count x = if s.pointers x then 1 else 0

/-- A request that is deleted has no buffer left, and until then its buffers can be freed.
Nothing is freed or used that is gone, and there are at most as many buffers as requests
in flight. -/
structure Released (s : State) : Prop where
  freed : ∀ (i : Nat) (r : Record), s.requests.requests[i]? = some r →
    r.phase.inFlight = false → ∀ b, (i, b) ∉ s.live
  pointed : s.Pointed
  sound : s.misused = [] ∧ s.requests.misused = [] ∧ s.strayed = []
  bounded : s.live.card ≤ s.requests.requests.countP fun r => r.phase.inFlight

/-- A name is stored where there is none, and no directory that is freed is read or closed. -/
def StoresClean (s : State) (i : Nat) (stored : Bool) (r : Record) : Prop :=
  (∀ d, r.kind = .directoryRead d → s.gone d = false ∧
    ∀ j, s.requests.dirents d = some j → stored → s.pointers (j, .name) = false) ∧
  (r.kind = .directoryClose → s.gone (s.closes i) = false)

/-- The request is not that of an opened directory. Of a directory read, the directory is
there, and the name of its own entry is not set or is freed through the directory. -/
def ReturnsClean (s : State) (i : Nat) (r : Record) (result : Int) : Prop :=
  r.kind ≠ .directoryOpen ∧
  ∀ d, r.kind = .directoryRead d → (0 ≤ result → s.gone d = false) ∧
    (s.pointers (i, .name) → 0 < result ∧ s.requests.dirents d = some i)

def Clean (s : State) (l : Label) : Prop :=
  InOrder s.requests l.1 ∧
    match l.1 with
    | .submit (.directoryRead d) _ => s.gone d = false
    | .finish i _ stored => ∀ r, s.requests.requests[i]? = some r → StoresClean s i stored r
    | .ret i => ∀ r result, s.requests.requests[i]? = some r → r.phase = .calling result →
        ReturnsClean s i r result
    | _ => True

namespace State

variable {s : State} {x y : Nat × Buffer}

theorem strdup_pointers : (s.strdup x).pointers y = if y = x then true else s.pointers y := rfl

theorem strdup_live : (s.strdup x).live = s.live + {x} := rfl

theorem strdup_misused : (s.strdup x).misused = s.misused := List.append_nil _

theorem free_pointers : (s.free x).pointers y = if y = x then false else s.pointers y := by
  unfold free
  split
  · rfl
  · split
    · subst y
      exact eq_false_of_ne_true ‹_›
    · rfl

theorem free_strayed : (s.free x).strayed = s.strayed := by
  unfold free
  split <;> rfl

theorem Pointed.mem_iff (hs : s.Pointed) : x ∈ s.live ↔ s.pointers x = true := by
  rw [← Multiset.count_pos, hs x]
  split <;> simp_all

theorem Pointed.strdup (hs : s.Pointed) (hx : s.pointers x = false) : (s.strdup x).Pointed := by
  intro y
  rw [strdup_live, strdup_pointers, Multiset.count_add, hs y, Multiset.count_singleton]
  by_cases hy : y = x
  · subst y
    simp [hx]
  · simp [hy]

theorem Pointed.free (hs : s.Pointed) : (s.free x).Pointed := by
  intro y
  rw [free_pointers]
  unfold State.free
  split
  · show (s.live.erase x).count y = _
    by_cases hy : y = x
    · subst y
      rw [Multiset.count_erase_self, hs x]
      simp_all
    · rw [Multiset.count_erase_of_ne hy, hs y, if_neg hy]
  · rw [hs y]
    by_cases hy : y = x
    · subst y
      simp_all
    · rw [if_neg hy]

theorem Pointed.free_misused (hs : s.Pointed) : (s.free x).misused = s.misused := by
  unfold State.free
  split
  · show s.misused ++ Action.misused [release x] s.live = _
    simp [Action.misused, Holds, hs.mem_iff, ‹s.pointers x = true›]
  · rfl

/-- A null pointer that is set to null stays one. -/
theorem setPointer_null (hx : s.pointers x = false) : s.setPointer x false = s := by
  have : (fun y => if y = x then false else s.pointers y) = s.pointers := by
    funext y
    split
    · rw [‹y = x›, hx]
    · rfl
  rw [setPointer, this]

theorem useDirectory_of_live {d : Nat} (hd : s.gone d = false) : s.useDirectory d = s := by
  rw [useDirectory, hd]
  rfl

theorem useDirectory_of_gone {d : Nat} (hd : s.gone d = true) :
    (s.useDirectory d).strayed ≠ [] := by
  rw [useDirectory, hd]
  exact List.cons_ne_nil _ _

end State

/-- The kind of a request that is in flight. -/
def flying (s : Request.State) (i : Nat) : Option Kind :=
  (s.requests[i]?).bind fun r => if r.phase.inFlight then some r.kind else none

theorem flying_eq_some {s : Request.State} {i : Nat} {k : Kind} :
    flying s i = some k ↔ ∃ r, s.requests[i]? = some r ∧ r.phase.inFlight ∧ r.kind = k := by
  simp only [flying, Option.bind_eq_some_iff, Option.ite_none_right_eq_some, Option.some.injEq]

theorem flying_fresh (s : Request.State) : flying s s.requests.length = none := by
  simp [flying]

theorem flying_push {s t : Request.State} {r : Record} (ht : t.requests = s.requests ++ [r])
    (i : Nat) : flying t i = if i = s.requests.length then
      (if r.phase.inFlight then some r.kind else none) else flying s i := by
  unfold flying
  rw [ht, List.getElem?_append]
  split
  · rw [if_neg (by omega)]
  · rw [List.getElem?_singleton]
    by_cases hi : i = s.requests.length
    · simp [hi]
    · rw [if_neg (by omega), if_neg hi, List.getElem?_eq_none (by omega)]

theorem flying_set {s t : Request.State} {i : Nat} {r q : Record}
    (hr : s.requests[i]? = some r) (hk : q.kind = r.kind) (ht : t.requests = s.requests.set i q)
    (j : Nat) : flying t j =
      if i = j then (if q.phase.inFlight then some r.kind else none) else flying s j := by
  have hlt := (List.getElem?_eq_some_iff.mp hr).1
  unfold flying
  rw [ht, List.getElem?_set]
  split
  · rw [Option.bind_some, hk]
  · rfl

theorem flying_stays {s t : Request.State} {i : Nat} {r q : Record}
    (hr : s.requests[i]? = some r) (hk : q.kind = r.kind)
    (hp : q.phase.inFlight = r.phase.inFlight) (ht : t.requests = s.requests.set i q)
    (j : Nat) : flying t j = flying s j := by
  rw [flying_set hr hk ht]
  split
  · subst j
    simp [flying, hr, hp]
  · rfl

theorem requests_point (s : Request.State) (k : Kind) : (s.point k).requests = s.requests := by
  cases k <;> rfl

def flyingAfter (s : Request.State) (i : Nat) : Request.Label → Option Kind
  | .submit k accepted =>
      if i = s.requests.length then (if accepted then some k else none) else flying s i
  | .ret j => if j = i then none else flying s i
  | .finish _ _ _ | .callback _ _ | .runTask _ | .report _ | .after _ | .closeStream _
  | .finishClose _ => flying s i

/-- Only a submission and the return of a callback change what is in flight. -/
theorem flying_step {c : Int} {s t : Request.State} {l : Request.Label}
    (ht : Request.step c s l = some t) (i : Nat) : flying t i = flyingAfter s i l := by
  cases l with
  | submit k accepted =>
      obtain ⟨-, rfl⟩ := Machine.of_guard ht
      unfold Request.State.submit
      split
      · refine (flying_push (s := s) (r := ⟨k, .pending, 0⟩) ?_ i).trans ?_
        · simp only [State.push, Request.State.exec, requests_point]
        · simp [flyingAfter, Phase.inFlight, ‹accepted = true›]
      · refine (flying_push (s := s) (r := ⟨k, .rejected, 0⟩) ?_ i).trans ?_
        · simp only [State.push, Request.State.exec, requests_point]
        · simp [flyingAfter, Phase.inFlight, ‹¬accepted = true›]
  | finish j result stored =>
      obtain ⟨r, hr, hstep⟩ := Option.bind_eq_some_iff.mp ht
      obtain ⟨⟨hp, -⟩, rfl⟩ := Machine.of_guard hstep
      refine flying_stays hr (q := r.become (.finished result)) rfl (by rw [hp]; rfl) ?_ i
      simp only [Request.State.finish]
      split
      · split
        · rw [requests_touchEntry]
          rfl
        · rfl
      · rfl
  | callback j resubmitted =>
      obtain ⟨r, hr, hstep⟩ := Option.bind_eq_some_iff.mp ht
      split at hstep
      · rename_i result hp
        obtain ⟨-, rfl⟩ := Machine.of_guard hstep
        unfold Request.State.callback
        split
        · exact flying_stays hr (q := r.become .pending) rfl (by rw [hp]; rfl) rfl i
        · exact flying_stays hr (q := r.call (.calling result)) rfl (by rw [hp]; rfl) rfl i
      · cases hstep
  | runTask j =>
      obtain ⟨r, hr, hstep⟩ := Option.bind_eq_some_iff.mp ht
      obtain ⟨⟨-, hp⟩, rfl⟩ := Machine.of_guard hstep
      exact flying_stays hr (q := r.call (.calling 0)) rfl (by rw [hp]; rfl) rfl i
  | report j =>
      obtain ⟨r, hr, hstep⟩ := Option.bind_eq_some_iff.mp ht
      obtain ⟨hp, rfl⟩ := Machine.of_guard hstep
      exact flying_stays hr (q := r.call .refused) rfl (by rw [hp]; rfl) rfl i
  | ret j =>
      obtain ⟨r, hr, hstep⟩ := Option.bind_eq_some_iff.mp ht
      split at hstep
      · rename_i result hp
        cases hstep
        refine (flying_set hr (q := r.become (if r.kind = .work then .ran else .done)) rfl
          ?_ i).trans ?_
        · simp only [Request.State.ret, State.replace, Request.State.exec]
          split
          · split
            · rw [requests_touchEntry]
            · rfl
          · rfl
        · have hnone : (r.become (if r.kind = .work then .ran else .done)).phase.inFlight =
              false := by
            unfold Record.become
            split <;> rfl
          rw [hnone]
          rfl
      · cases hstep
        exact (flying_set hr (q := r.become .done) rfl rfl i).trans rfl
      · cases hstep
  | after j =>
      obtain ⟨r, hr, hstep⟩ := Option.bind_eq_some_iff.mp ht
      obtain ⟨⟨hp, -⟩, rfl⟩ := Machine.of_guard hstep
      exact flying_stays hr (q := r.become .done) rfl (by rw [hp]; rfl) rfl i
  | closeStream st =>
      obtain ⟨-, rfl⟩ := Machine.of_guard ht
      rfl
  | finishClose st =>
      obtain ⟨-, rfl⟩ := Machine.of_guard ht
      rfl

theorem countP_eq_length_filter {α : Type} (p : α → Bool) (l : List α) :
    l.countP p = ((List.range l.length).filter fun i => l[i]?.any p).length := by
  induction l with
  | nil => rfl
  | cons a l ih =>
      rw [List.length_cons, List.range_succ_eq_map, List.filter_cons, List.countP_cons, ih,
        List.filter_map]
      by_cases ha : p a <;> simp [ha, Function.comp_def]

/-- The invariant: a request's pointer to a path or to a name is set only while it is in
flight, and that to a path until then. -/
structure Inv (s : State) : Prop where
  books : Books s.requests
  pointed : s.Pointed
  sound : s.misused = [] ∧ s.requests.misused = [] ∧ s.strayed = []
  paths : ∀ i, s.pointers (i, .path) = true ↔
    flying s.requests i = some .fileOpen ∨ flying s.requests i = some .directoryOpen
  names : ∀ i, s.pointers (i, .name) = true → ∃ d, flying s.requests i = some (.directoryRead d)

theorem Inv.flying_of_pointer {s : State} (hs : Inv s) {x : Nat × Buffer}
    (hx : s.pointers x = true) : ∃ k, flying s.requests x.1 = some k := by
  obtain ⟨i, b⟩ := x
  cases b with
  | path => exact ((hs.paths i).mp hx).elim (fun h => ⟨_, h⟩) fun h => ⟨_, h⟩
  | name => exact (hs.names i hx).imp' _ fun d h => h

/-- A request has a path or a name, not both. -/
theorem Inv.eq_of_fst {s : State} (hs : Inv s) {x y : Nat × Buffer}
    (hx : s.pointers x = true) (hy : s.pointers y = true) (hxy : x.1 = y.1) : x = y := by
  obtain ⟨i, b⟩ := x
  obtain ⟨j, b'⟩ := y
  have different : ∀ j, s.pointers (j, .path) = true → s.pointers (j, .name) = true → False := by
    intro j hpath hname
    obtain ⟨d, hd⟩ := hs.names j hname
    rcases (hs.paths j).mp hpath with hk | hk <;> cases hd.symm.trans hk
  cases hxy
  cases b <;> cases b'
  · rfl
  · exact (different i hx hy).elim
  · exact (different i hy hx).elim
  · rfl

theorem Inv.bounded {s : State} (hs : Inv s) :
    s.live.card ≤ s.requests.requests.countP fun r => r.phase.inFlight := by
  rw [countP_eq_length_filter, ← Multiset.card_map Prod.fst s.live, ← Multiset.coe_card]
  apply Multiset.card_le_card
  have hnodup : s.live.Nodup := by
    rw [Multiset.nodup_iff_count_le_one]
    intro x
    rw [hs.pointed x]
    split <;> omega
  rw [Multiset.le_iff_subset (hnodup.map_on fun x hx y hy hxy =>
    hs.eq_of_fst (hs.pointed.mem_iff.mp hx) (hs.pointed.mem_iff.mp hy) hxy)]
  intro i hi
  obtain ⟨x, hx, rfl⟩ := Multiset.mem_map.mp hi
  obtain ⟨k, hk⟩ := hs.flying_of_pointer (hs.pointed.mem_iff.mp hx)
  obtain ⟨r, hr, hp, -⟩ := flying_eq_some.mp hk
  rw [Multiset.mem_coe, List.mem_filter, List.mem_range, hr]
  exact ⟨(List.getElem?_eq_some_iff.mp hr).1, hp⟩

theorem Inv.released {s : State} (hs : Inv s) : Released s where
  freed i r hr hp b hmem := by
    obtain ⟨k, hk⟩ := hs.flying_of_pointer (hs.pointed.mem_iff.mp hmem)
    obtain ⟨r', hr', hp', -⟩ := flying_eq_some.mp hk
    cases hr.symm.trans hr'
    cases hp.symm.trans hp'
  pointed := hs.pointed
  sound := hs.sound
  bounded := hs.bounded

theorem Inv.fresh {s : State} (hs : Inv s) (b : Buffer) :
    s.pointers (s.requests.requests.length, b) = false := by
  by_contra hset
  obtain ⟨k, hk⟩ := hs.flying_of_pointer (x := (_, b)) (by simpa using hset)
  rw [flying_fresh] at hk
  cases hk

section Step

variable {c : Int} {s : State} {t : Request.State}

theorem Inv.submit {k : Kind} {accepted : Bool} {dir : Nat} (hs : Inv s)
    (hclean : Clean s (.submit k accepted, dir))
    (ht : Request.step c s.requests (.submit k accepted) = some t) :
    Inv { s.submit dir k accepted with requests := t } := by
  have hkept := kept_step hs.books ht
  have hmisused := hkept.misused.mpr ⟨hs.sound.2.1, hclean.1⟩
  have hfly : ∀ i, flying t i = flyingAfter s.requests i (.submit k accepted) := flying_step ht
  have hpath := hs.fresh .path
  have hname := hs.fresh .name
  have names : ∀ i, s.pointers (i, .name) = true → ∃ d, flying t i = some (.directoryRead d) := by
    intro i hi
    have hne : i ≠ s.requests.requests.length := by
      rintro rfl
      cases hi.symm.trans hname
    simpa [hfly, flyingAfter, hne] using hs.names i hi
  have same : (accepted = true → k ≠ .fileOpen ∧ k ≠ .directoryOpen) →
      ∀ i, s.pointers (i, .path) = true ↔
        flying t i = some .fileOpen ∨ flying t i = some .directoryOpen := by
    intro hk i
    rw [hfly i, flyingAfter]
    by_cases hi : i = s.requests.requests.length
    · subst i
      by_cases ha : accepted <;> simp_all
    · simpa [hi] using hs.paths i
  have opened : (k = .fileOpen ∨ k = .directoryOpen) → accepted = true →
      ∀ i, (s.strdup (s.requests.requests.length, .path)).pointers (i, .path) = true ↔
        flying t i = some .fileOpen ∨ flying t i = some .directoryOpen := by
    intro hk ha i
    rw [hfly i, flyingAfter, State.strdup_pointers]
    by_cases hi : i = s.requests.requests.length
    · subst i
      rcases hk with rfl | rfl <;> simp [ha]
    · simpa [hi] using hs.paths i
  cases k with
  | fileOpen | directoryOpen =>
      unfold State.submit
      dsimp only
      split
      · refine ⟨hkept.books, hs.pointed.strdup hpath, ⟨?_, hmisused, hs.sound.2.2⟩,
          opened (by simp) ‹_›, ?_⟩
        · exact State.strdup_misused.trans hs.sound.1
        · intro i hi
          exact names i (by simpa [State.strdup_pointers] using hi)
      · exact ⟨hkept.books, hs.pointed, ⟨hs.sound.1, hmisused, hs.sound.2.2⟩,
          same (fun ha => absurd ha ‹_›), names⟩
  | directoryRead d =>
      simp only [State.submit, State.useDirectory_of_live hclean.2]
      exact ⟨hkept.books, hs.pointed, ⟨hs.sound.1, hmisused, hs.sound.2.2⟩,
        same (by simp), names⟩
  | directoryClose | fileWrite | fileRead | fileClose | streamWrite _ | streamShutdown _ | work =>
      exact ⟨hkept.books, hs.pointed, ⟨hs.sound.1, hmisused, hs.sound.2.2⟩,
        same (by simp), names⟩

/-- The entry a directory read is about to store a name in is that of a read in flight. -/
theorem Inv.flying_of_dirents {d j : Nat} (hs : Inv s) (hlast : LastInFlight s.requests d)
    (hj : s.requests.dirents d = some j) :
    flying s.requests j = some (.directoryRead d) := by
  obtain ⟨r, hr, hp⟩ := hlast j hj
  obtain ⟨r', hr', hk⟩ := hs.books.entries d j hj
  cases hr.symm.trans hr'
  exact flying_eq_some.mpr ⟨r, hr, hp, hk⟩

/-- A step that leaves the buffers as they are. -/
theorem Inv.quiet {u : State} (hs : Inv s) (hbooks : Books t) (hmisused : t.misused = [])
    (hfly : ∀ i, flying t i = flying s.requests i) (hlive : u.live = s.live)
    (hmis : u.misused = s.misused) (hpointers : u.pointers = s.pointers)
    (hstrayed : u.strayed = s.strayed) : Inv { u with requests := t } where
  books := hbooks
  pointed := by
    intro x
    show u.live.count x = if u.pointers x then 1 else 0
    rw [hlive, hpointers]
    exact hs.pointed x
  sound := ⟨hmis.trans hs.sound.1, hmisused, hstrayed.trans hs.sound.2.2⟩
  paths i := by
    show u.pointers _ = true ↔ _
    rw [hpointers, hfly i]
    exact hs.paths i
  names i hi := by
    rw [hfly i]
    exact hs.names i (by rw [← hpointers]; exact hi)

theorem Inv.finish {i : Nat} {result : Int} {stored : Bool} {dir : Nat} (hs : Inv s)
    (hclean : Clean s (.finish i result stored, dir))
    (ht : Request.step c s.requests (.finish i result stored) = some t) {r : Record}
    (hr : s.requests.requests[i]? = some r) :
    Inv { s.finish i r.kind result stored with requests := t } := by
  have hkept := kept_step hs.books ht
  have hmisused := hkept.misused.mpr ⟨hs.sound.2.1, hclean.1⟩
  have hfly : ∀ j, flying t j = flying s.requests j := flying_step ht
  obtain ⟨hread, hclose⟩ := hclean.2 r hr
  cases hk : r.kind with
  | directoryRead d =>
      obtain ⟨hlive, hnull⟩ := hread d hk
      simp only [State.finish, State.useDirectory_of_live hlive]
      split
      · rename_i j hj
        split
        · rename_i hstored
          have hx := hnull j hj hstored
          split
          · rw [State.setPointer_null hx]
            exact hs.quiet hkept.books hmisused hfly rfl rfl rfl rfl
          · refine ⟨hkept.books, hs.pointed.strdup hx, ⟨?_, hmisused, hs.sound.2.2⟩, ?_, ?_⟩
            · exact State.strdup_misused.trans hs.sound.1
            · intro m
              rw [hfly m]
              simpa [State.strdup_pointers] using hs.paths m
            · intro m hm
              rw [hfly m]
              by_cases hmj : m = j
              · subst m
                exact ⟨d, hs.flying_of_dirents (hclean.1 hstored r d hr hk) hj⟩
              · exact hs.names m (by simpa [State.strdup_pointers, hmj] using hm)
        · exact hs.quiet hkept.books hmisused hfly rfl rfl rfl rfl
      · exact hs.quiet hkept.books hmisused hfly rfl rfl rfl rfl
  | directoryClose =>
      simp only [State.finish, State.useDirectory_of_live (hclose hk)]
      exact hs.quiet (u := { s with gone := fun e => if e = s.closes i then true else s.gone e })
        hkept.books hmisused hfly rfl rfl rfl rfl
  | fileOpen | fileWrite | fileRead | fileClose | directoryOpen | streamWrite _
  | streamShutdown _ | work => exact hs.quiet hkept.books hmisused hfly rfl rfl rfl rfl

/-- A request that is deleted takes its pointers along; they have to be null by then. -/
theorem Inv.delete {u : State} {i : Nat} (hs : Inv s) (hbooks : Books t)
    (hmisused : t.misused = [])
    (hfly : ∀ j, flying t j = if i = j then none else flying s.requests j)
    (hpointed : u.Pointed) (hmis : u.misused = []) (hstrayed : u.strayed = [])
    (hnull : ∀ b, u.pointers (i, b) = false)
    (hpaths : ∀ j, i ≠ j → u.pointers (j, .path) = s.pointers (j, .path))
    (hnames : ∀ j, u.pointers (j, .name) = true → s.pointers (j, .name) = true) :
    Inv { u with requests := t } where
  books := hbooks
  pointed := hpointed
  sound := ⟨hmis, hmisused, hstrayed⟩
  paths j := by
    show u.pointers _ = true ↔ _
    rw [hfly j]
    by_cases hij : i = j
    · subst j
      simp [hnull]
    · rw [hpaths j hij, if_neg hij]
      exact hs.paths j
  names j hj := by
    rw [hfly j]
    by_cases hij : i = j
    · subst j
      cases hj.symm.trans (hnull .name)
    · rw [if_neg hij]
      exact hs.names j (hnames j hj)

/-- A buffer is freed before the deletion, that of a path with its own request only. -/
theorem Inv.delete_free {i : Nat} {x : Nat × Buffer} (hs : Inv s) (hbooks : Books t)
    (hmisused : t.misused = [])
    (hfly : ∀ j, flying t j = if i = j then none else flying s.requests j)
    (hpath : ∀ j, i ≠ j → (j, .path) ≠ x) (hnull : ∀ b, (i, b) ≠ x → s.pointers (i, b) = false) :
    Inv { s.free x with requests := t } := by
  refine hs.delete hbooks hmisused hfly hs.pointed.free
    (hs.pointed.free_misused.trans hs.sound.1) (State.free_strayed.trans hs.sound.2.2) ?_ ?_ ?_
  · intro b
    rw [State.free_pointers]
    split
    · rfl
    · exact hnull b ‹_›
  · intro j hij
    rw [State.free_pointers, if_neg (hpath j hij)]
  · intro j hj
    rw [State.free_pointers] at hj
    split at hj
    · cases hj
    · exact hj

theorem Inv.path_null {i : Nat} {k : Kind} (hs : Inv s) (hfly : flying s.requests i = some k)
    (hk : k ≠ .fileOpen ∧ k ≠ .directoryOpen) : s.pointers (i, .path) = false := by
  by_contra hset
  have := (hs.paths i).mp (by simpa using hset)
  simp [hfly, hk.1, hk.2] at this

theorem Inv.name_null {i : Nat} {k : Kind} (hs : Inv s) (hfly : flying s.requests i = some k)
    (hk : ∀ d, k ≠ .directoryRead d) : s.pointers (i, .name) = false := by
  by_contra hset
  obtain ⟨d, hd⟩ := hs.names i (by simpa using hset)
  exact hk d (Option.some.inj (hfly.symm.trans hd))

theorem Inv.cleanup {i : Nat} {result : Int} {dir : Nat} (hs : Inv s)
    (hclean : Clean s (.ret i, dir)) (ht : Request.step c s.requests (.ret i) = some t)
    {r : Record} (hr : s.requests.requests[i]? = some r) (hp : r.phase = .calling result) :
    Inv { s.cleanup i r.kind result with requests := t } := by
  have hkept := kept_step hs.books ht
  have hmisused := hkept.misused.mpr ⟨hs.sound.2.1, hclean.1⟩
  have hfly : ∀ j, flying t j = if i = j then none else flying s.requests j := flying_step ht
  have hself : flying s.requests i = some r.kind :=
    flying_eq_some.mpr ⟨r, hr, by rw [hp]; rfl, rfl⟩
  obtain ⟨hopen, hread⟩ := hclean.2 r result hr hp
  have untouched : (∀ b, s.pointers (i, b) = false) → Inv { s with requests := t } := fun hnull =>
    hs.delete hkept.books hmisused hfly hs.pointed hs.sound.1 hs.sound.2.2 hnull
      (fun _ _ => rfl) fun _ h => h
  have freed : (∀ d, r.kind ≠ .directoryRead d) →
      Inv { s.free (i, .path) with requests := t } := by
    intro hk
    refine hs.delete_free hkept.books hmisused hfly (fun j hij => by simp [Ne.symm hij]) ?_
    intro b hb
    cases b with
    | path => exact absurd rfl hb
    | name => exact hs.name_null hself hk
  cases hk : r.kind with
  | fileOpen | fileWrite | fileRead | fileClose => exact freed (by simp [hk])
  | directoryOpen => exact absurd hk hopen
  | directoryClose | streamWrite _ | streamShutdown _ | work =>
      refine untouched fun b => ?_
      cases b with
      | path => exact hs.path_null hself (by simp [hk])
      | name => exact hs.name_null hself (by simp [hk])
  | directoryRead d =>
      obtain ⟨hlive, howner⟩ := hread d hk
      have hpath := hs.path_null hself (by simp [hk])
      have hname : ¬ (0 < result ∧ s.requests.dirents d = some i) →
          s.pointers (i, .name) = false := by
        intro h
        by_contra hset
        exact h (howner (by simpa using hset))
      have nothing : ¬ (0 < result ∧ s.requests.dirents d = some i) →
          Inv { s with requests := t } := fun h => untouched fun b => by
        cases b with
        | path => exact hpath
        | name => exact hname h
      unfold State.cleanup State.readdirCleanup
      dsimp only
      split
      · exact nothing (by omega)
      · rw [State.useDirectory_of_live (hlive (by omega))]
        split
        · rename_i j hj
          split
          · refine hs.delete_free hkept.books hmisused hfly (fun m _ => by simp) ?_
            intro b hb
            cases b with
            | path => exact hpath
            | name => exact hname fun h => by simp_all
          · exact nothing fun h => by omega
        · exact nothing fun h => by simp_all

theorem step_eq_some {t : State} {l : Label} (ht : step c s l = some t) :
    ∃ u, Request.step c s.requests l.1 = some u ∧ t = { s.effect l.2 l.1 with requests := u } := by
  obtain ⟨u, hu, rfl⟩ := Option.map_eq_some_iff.mp ht
  exact ⟨u, hu, rfl⟩

theorem Inv.step {t : State} {l : Label} (hs : Inv s) (hclean : Clean s l)
    (ht : Buffers.step c s l = some t) : Inv t := by
  obtain ⟨u, hu, rfl⟩ := step_eq_some ht
  obtain ⟨l, dir⟩ := l
  have hkept := kept_step hs.books hu
  have hmisused := hkept.misused.mpr ⟨hs.sound.2.1, hclean.1⟩
  cases l with
  | submit k accepted => exact hs.submit hclean hu
  | finish i result stored =>
      obtain ⟨r, hr, -⟩ := Option.bind_eq_some_iff.mp hu
      simp only [State.effect, hr]
      exact hs.finish hclean hu hr
  | ret i =>
      obtain ⟨r, hr, hstep⟩ := Option.bind_eq_some_iff.mp hu
      cases hp : r.phase with
      | calling result =>
          have hcleanup := hs.cleanup hclean hu hr hp
          obtain ⟨k, p, n⟩ := r
          cases hp
          simpa only [State.effect, hr] using hcleanup
      | pending | finished | rejected | ran | done => simp [hp] at hstep
      | refused =>
          have hnone : flying s.requests i = none := by simp [flying, hr, hp, Phase.inFlight]
          have hsame : s.effect dir (.ret i) = s := by
            obtain ⟨k, p, n⟩ := r
            cases hp
            simp only [State.effect, hr]
          have hfly : ∀ j, flying u j = flying s.requests j := by
            intro j
            refine (flying_step hu j).trans ?_
            show (if i = j then none else flying s.requests j) = _
            split
            · rw [← ‹i = j›, hnone]
            · rfl
          rw [hsame]
          exact hs.quiet hkept.books hmisused hfly rfl rfl rfl rfl
  | callback | runTask | report | after | closeStream | finishClose =>
      exact hs.quiet hkept.books hmisused (flying_step hu) rfl rfl rfl rfl

theorem broken_submit {k : Kind} {accepted : Bool} {dir : Nat}
    (hclean : ¬ Clean s (.submit k accepted, dir)) : (s.submit dir k accepted).strayed ≠ [] := by
  cases k with
  | directoryRead d =>
      refine State.useDirectory_of_gone (eq_true_of_ne_false fun hlive => hclean ?_)
      exact ⟨trivial, hlive⟩
  | fileOpen | directoryOpen | directoryClose | fileWrite | fileRead | fileClose
  | streamWrite _ | streamShutdown _ | work => exact absurd ⟨trivial, trivial⟩ hclean

theorem broken_finish {i : Nat} {result : Int} {stored : Bool} {dir : Nat} (hs : Inv s)
    (hin : InOrder s.requests (.finish i result stored))
    (hclean : ¬ Clean s (.finish i result stored, dir)) {r : Record}
    (hr : s.requests.requests[i]? = some r) :
    (s.finish i r.kind result stored).strayed ≠ [] ∨
      ¬ (s.finish i r.kind result stored).Pointed := by
  have hbad : ¬ StoresClean s i stored r := by
    intro h
    refine hclean ⟨hin, fun r' hr' => ?_⟩
    cases hr.symm.trans hr'
    exact h
  cases hk : r.kind with
  | directoryRead d =>
      by_cases hlive : s.gone d = false
      · right
        obtain ⟨j, hj, hstored, hset⟩ : ∃ j, s.requests.dirents d = some j ∧ stored = true ∧
            s.pointers (j, .name) = true := by
          by_contra hnone
          refine hbad ⟨fun d' hd' => ?_, by simp [hk]⟩
          cases hk.symm.trans hd'
          refine ⟨hlive, fun j hj hstored => ?_⟩
          by_contra hset
          exact hnone ⟨j, hj, hstored, by simpa using hset⟩
        have hcount := hs.pointed (j, .name)
        rw [if_pos hset] at hcount
        simp only [State.finish, State.useDirectory_of_live hlive, hj, hstored, if_true]
        intro hpointed
        have := hpointed (j, .name)
        split at this
        · simp [State.setPointer, hcount] at this
        · simp [State.strdup_pointers, State.strdup_live, hcount] at this
      · left
        have hgone := State.useDirectory_of_gone (eq_true_of_ne_false hlive)
        simp only [State.finish]
        split
        · split
          · split <;> exact hgone
          · exact hgone
        · exact hgone
  | directoryClose =>
      left
      refine State.useDirectory_of_gone (eq_true_of_ne_false fun hlive => hbad ⟨by simp [hk], ?_⟩)
      exact fun _ => hlive
  | fileOpen | fileWrite | fileRead | fileClose | directoryOpen | streamWrite _
  | streamShutdown _ | work => exact absurd ⟨by simp [hk], by simp [hk]⟩ hbad

theorem broken_cleanup {i : Nat} {dir : Nat} {result : Int} {r : Record} (hs : Inv s)
    (hin : InOrder s.requests (.ret i)) (hclean : ¬ Clean s (.ret i, dir))
    (hr : s.requests.requests[i]? = some r) (hp : r.phase = .calling result) :
    (s.cleanup i r.kind result).strayed ≠ [] ∨ ∃ b, (i, b) ∈ (s.cleanup i r.kind result).live := by
  have hself : flying s.requests i = some r.kind :=
    flying_eq_some.mpr ⟨r, hr, by rw [hp]; rfl, rfl⟩
  have hbad : ¬ ReturnsClean s i r result := by
    intro h
    refine hclean ⟨hin, fun r' result' hr' hp' => ?_⟩
    cases hr.symm.trans hr'
    cases hp.symm.trans hp'
    exact h
  cases hk : r.kind with
  | directoryOpen =>
      refine .inr ⟨.path, hs.pointed.mem_iff.mpr ((hs.paths i).mpr (.inr ?_))⟩
      rw [hself, hk]
  | directoryRead d =>
      by_cases hgone : 0 ≤ result ∧ s.gone d = true
      · left
        have hstrayed := State.useDirectory_of_gone hgone.2
        simp only [State.cleanup, State.readdirCleanup]
        rw [if_neg (by omega)]
        split
        · split
          · rw [State.free_strayed]
            exact hstrayed
          · exact hstrayed
        · exact hstrayed
      · have hlive : 0 ≤ result → s.gone d = false := fun h =>
          eq_false_of_ne_true fun hg => hgone ⟨h, hg⟩
        obtain ⟨hset, hother⟩ : s.pointers (i, .name) = true ∧
            ¬ (0 < result ∧ s.requests.dirents d = some i) := by
          by_contra hnone
          refine hbad ⟨by simp [hk], fun d' hd' => ?_⟩
          cases hk.symm.trans hd'
          exact ⟨hlive, fun hset => by_contra fun h => hnone ⟨hset, h⟩⟩
        have hmem := hs.pointed.mem_iff.mpr hset
        refine .inr ⟨.name, ?_⟩
        simp only [State.cleanup, State.readdirCleanup]
        split
        · exact hmem
        · rw [State.useDirectory_of_live (hlive (by omega))]
          split
          · rename_i j hj
            split
            · rw [hs.pointed.free.mem_iff, State.free_pointers, if_neg]
              · exact hset
              · intro hij
                cases hij
                exact hother ⟨‹_›, hj⟩
            · exact hmem
          · exact hmem
  | fileOpen | fileWrite | fileRead | fileClose | directoryClose | streamWrite _
  | streamShutdown _ | work => exact absurd ⟨by simp [hk], by simp [hk]⟩ hbad

/-- The request whose callback returns is deleted. -/
theorem deleted_of_ret {i : Nat} (ht : Request.step c s.requests (.ret i) = some t) {r : Record}
    {result : Int} (hr : s.requests.requests[i]? = some r) (hp : r.phase = .calling result) :
    ∃ r', t.requests[i]? = some r' ∧ r'.phase.inFlight = false := by
  have hlt := (List.getElem?_eq_some_iff.mp hr).1
  simp only [Request.step, hr, Option.bind_some, hp] at ht
  cases ht
  refine ⟨r.become (if r.kind = .work then .ran else .done), ?_, ?_⟩
  · simp only [Request.State.ret, State.replace, Request.State.exec]
    split
    · split
      · rw [requests_touchEntry, List.getElem?_set_self hlt]
      · exact List.getElem?_set_self hlt
    · exact List.getElem?_set_self hlt
  · unfold Record.become
    split <;> rfl

theorem Inv.broken {t : State} {l : Label} (hs : Inv s) (hclean : ¬ Clean s l)
    (ht : Buffers.step c s l = some t) : ¬ Released t := by
  obtain ⟨u, hu, rfl⟩ := step_eq_some ht
  intro hrel
  by_cases hin : InOrder s.requests l.1
  · obtain ⟨l, dir⟩ := l
    cases l with
    | submit k accepted => exact broken_submit hclean hrel.sound.2.2
    | finish i result stored =>
        obtain ⟨r, hr, -⟩ := Option.bind_eq_some_iff.mp hu
        have hbroken := broken_finish hs hin hclean hr
        simp only [State.effect, hr] at hrel
        exact hbroken.elim (· hrel.sound.2.2) (· hrel.pointed)
    | ret i =>
        obtain ⟨r, hr, -⟩ := Option.bind_eq_some_iff.mp hu
        cases hp : r.phase with
        | calling result =>
            have hbroken := broken_cleanup hs hin hclean hr hp
            obtain ⟨r', hr', hp'⟩ := deleted_of_ret hu hr hp
            obtain ⟨k, p, n⟩ := r
            cases hp
            simp only [State.effect, hr] at hrel
            rcases hbroken with hstrayed | ⟨b, hmem⟩
            · exact hstrayed hrel.sound.2.2
            · exact hrel.freed i r' hr' hp' b hmem
        | pending | finished | rejected | refused | ran | done =>
            refine hclean ⟨hin, fun r' result hr' hp' => ?_⟩
            cases hr.symm.trans hr'
            cases hp.symm.trans hp'
    | callback | runTask | report | after | closeStream | finishClose =>
        exact hclean ⟨hin, trivial⟩
  · exact hin ((kept_step hs.books hu).misused.mp hrel.sound.2.1).2

end Step

theorem inv_init (canceled : Int) : Inv (machine canceled).init where
  books := books_init (c := canceled)
  pointed _ := rfl
  sound := ⟨rfl, rfl, rfl⟩
  paths i := by simp [machine, Request.machine, flying]
  names i h := by simp [machine] at h

/-- What libuv allocates for the requests is released with them, exactly as long as no
directory that was opened is reported and the reads of a directory do not overlap. -/
theorem released_iff (canceled : Int) (ls : List Label) :
    (machine canceled).Always Released (machine canceled).init ls ↔
      (machine canceled).Throughout Clean (machine canceled).init ls := by
  apply Machine.always_iff_throughout (I := Inv)
  · intro s hs
    exact hs.released
  · intro s l t hs hclean ht
    exact hs.step hclean ht
  · intro s l t hs hclean ht
    exact hs.broken hclean ht
  · exact inv_init canceled

/-- A directory is opened, and the copy of its path is left when the request is deleted. -/
theorem directory_path_leaks :
    ¬ (machine (-125)).Always Released (machine (-125)).init
      [(.submit .directoryOpen true, 0), (.finish 0 0 false, 0), (.callback 0 false, 0),
        (.ret 0, 0)] := by
  intro h
  have hlast := h.last rfl
  exact hlast.freed 0 ⟨.directoryOpen, .done, 1⟩ rfl rfl .path (by decide)

-- A second read from the first one's callback: the first name is not freed.
example : ¬ (machine (-125)).Always Released (machine (-125)).init
    [(.submit (.directoryRead 0) true, 0), (.finish 0 1 true, 0), (.callback 0 false, 0),
      (.submit (.directoryRead 0) true, 0), (.ret 0, 0)] := by
  intro h
  have hlast := h.last rfl
  exact hlast.freed 0 ⟨.directoryRead 0, .done, 1⟩ rfl rfl .name (by decide)

end HxcppLuv.Request.Buffers
