import HxcppLuv.Core.Machine
import HxcppLuv.Core.Slots

/-!
`File.open`, `read`, `write` and `close` on any number of files, with the worker
pool free to run the submitted requests in any order. Nothing in the bindings
counts the requests of a file, so what keeps them on it is only that the system
does not give its descriptor number away while one is outstanding.

A file is named by the `File.open` that made it, counted in the order the
workers ran them; paths and contents play no part. A file object exists from the
moment the worker has opened it, and the user has it (`given`) after the open's
callback. A request is `early` when it was issued before its file's `close`;
its `sources` are the opens behind the descriptors it met.
-/

namespace HxcppLuv.File.Fence

/-- What `uv__fs_read` and `uv__fs_write` report on a number that is not open. -/
def EBADF : Int := -9

structure FileObject where
  inst : Nat
  fd : Nat
  given : Bool
  closed : Bool
  deriving DecidableEq

inductive OpenPhase where
  | queued
  | opened (inst : Nat)
  | failed (code : Int)
  | finished
  deriving DecidableEq

inductive Op where
  | read
  | write
  | close
  deriving DecidableEq

inductive Phase where
  | queued
  | executed (result : Int)
  | finished
  deriving DecidableEq

structure Request where
  op : Op
  file : Nat
  fd : Nat
  early : Bool
  phase : Phase
  sources : List Nat
  deriving DecidableEq

/-- Still to touch the descriptor: in the queue, or a chunk of a read whose
callback will submit the next one. -/
def Request.outstanding (r : Request) : Bool :=
  match r.op, r.phase with
  | .read, .executed result => 0 < result
  | .read, .queued | .write, .queued => true
  | _, _ => false

structure Touch where
  file : Nat
  early : Bool
  inst : Nat
  deriving DecidableEq

structure State where
  fds : Nat → Option Nat
  files : List FileObject
  opens : List OpenPhase
  requests : List Request
  touches : List Touch
  reads : List (Nat × Bool × List Nat)

inductive Label where
  | callOpen
  | call (op : Op) (file : Nat)
  | runOpen (i : Nat) (fd : Except Int Nat)
  | finishOpen (i : Nat)
  | run (i : Nat) (result : Int)
  | finish (i : Nat)
  deriving DecidableEq

/-- `File.read`, `File.write` and `File.close` submit one request with the
number the object holds. -/
def call (s : State) (op : Op) (file : Nat) : Option State :=
  s.files[file]?.bind fun f =>
    if f.given then
      some { s with
        files := if op = .close then s.files.set file { f with closed := true } else s.files
        requests := s.requests ++ [⟨op, file, f.fd, !f.closed, .queued, []⟩] }
    else none

/-- A worker runs `uv__fs_open`: the system picks a number that is not open. -/
def runOpen (s : State) (i : Nat) : Except Int Nat → Option State
  | .error code =>
      if s.opens[i]? = some .queued ∧ code < 0 then
        some { s with opens := s.opens.set i (.failed code) }
      else none
  | .ok fd =>
      if s.opens[i]? = some .queued ∧ s.fds fd = none then
        some { s with
          fds := Function.update s.fds fd (some s.files.length)
          files := s.files ++ [⟨s.files.length, fd, false, false⟩]
          opens := s.opens.set i (.opened s.files.length) }
      else none

/-- The open's callback: `new File(new FileHandler(result))` on success. -/
def finishOpen (s : State) (i : Nat) : Option State :=
  match s.opens[i]? with
  | some (.opened inst) =>
      s.files[inst]?.map fun f =>
        { s with
          files := s.files.set inst { f with given := true }
          opens := s.opens.set i .finished }
  | some (.failed _) => some { s with opens := s.opens.set i .finished }
  | _ => none

/-- A worker runs a queued request with its number as it then stands. -/
def run (s : State) (i : Nat) (result : Int) : Option State :=
  s.requests[i]?.bind fun r =>
    if r.phase = .queued then
      match s.fds r.fd, r.op with
      | none, _ => some { s with requests := s.requests.set i { r with phase := .executed EBADF } }
      | some _, .close =>
          some { s with
            fds := Function.update s.fds r.fd none
            requests := s.requests.set i { r with phase := .executed 0 } }
      | some inst, _ =>
          some { s with
            touches := s.touches ++ [⟨r.file, r.early, inst⟩]
            requests := s.requests.set i
              { r with phase := .executed result, sources := r.sources ++ [inst] } }
    else none

/-- The callback on the loop thread: `read_callback` submits the next chunk after
a positive result, everything else ends here. -/
def finish (s : State) (i : Nat) : Option State :=
  s.requests[i]?.bind fun r =>
    match r.phase with
    | .executed result =>
        if r.op = .read ∧ 0 < result then
          some { s with requests := s.requests.set i { r with phase := .queued } }
        else
          some { s with
            requests := s.requests.set i { r with phase := .finished }
            reads := if r.op = .read ∧ result = 0 then s.reads ++ [(r.file, r.early, r.sources)]
              else s.reads }
    | _ => none

def step (s : State) : Label → Option State
  | .callOpen => some { s with opens := s.opens ++ [.queued] }
  | .call op file => call s op file
  | .runOpen i fd => runOpen s i fd
  | .finishOpen i => finishOpen s i
  | .run i result => run s i result
  | .finish i => finish s i

def machine : Machine State Label where
  init := ⟨fun _ => none, [], [], [], [], []⟩
  step := step

/-- A request issued before the close only ever meets the descriptor its file
was opened on, and a read reports bytes of that file alone. -/
def Fenced (s : State) : Prop :=
  (∀ t ∈ s.touches, t.early = true → t.inst = t.file) ∧
  ∀ r ∈ s.reads, r.2.1 = true → ∀ inst ∈ r.2.2, inst = r.1

/-- An open is given a number only after every file that had it has been closed
and has no earlier read or write outstanding. -/
def Exclusive (s : State) : Label → Prop
  | .runOpen _ (.ok fd) =>
      ∀ f ∈ s.files, f.fd = fd →
        f.closed = true ∧ ∀ r ∈ s.requests, r.file = f.inst → r.early = true → r.outstanding = false
  | _ => True

instance : DecidablePred Fenced := fun _ => inferInstanceAs (Decidable (_ ∧ _))

instance : ∀ s l, Decidable (Exclusive s l)
  | s, .runOpen _ (.ok fd) => inferInstanceAs (Decidable (∀ f ∈ s.files, f.fd = fd → _))
  | _, .runOpen _ (.error _) | _, .callOpen | _, .call _ _ | _, .finishOpen _ | _, .run _ _
  | _, .finish _ => isTrue trivial

/-- A file whose number must not be given away. -/
def Active (requests : List Request) (f : FileObject) : Prop :=
  f.closed = false ∨
    ∃ r ∈ requests, r.file = f.inst ∧ r.early = true ∧ r.outstanding = true

/-- What every step keeps: file objects and requests agree on numbers, and the
number of a file that is not closed, or has an early request outstanding, is
open on that file or on nothing. -/
structure Inv (s : State) : Prop where
  inst : Slots.All (fun i f => f.inst = i) s.files
  request : ∀ r ∈ s.requests, ∃ f, s.files[r.file]? = some f ∧ r.fd = f.fd
  held : ∀ f ∈ s.files, Active s.requests f →
    s.fds f.fd = none ∨ s.fds f.fd = some f.inst
  sources : ∀ r ∈ s.requests, r.early = true → ∀ inst ∈ r.sources, inst = r.file
  fenced : Fenced s

theorem inv_init : Inv machine.init where
  inst := Slots.all_nil
  request := by intro r hr; cases hr
  held := by intro f hf; cases hf
  sources := by intro r hr; cases hr
  fenced := by decide

theorem Inv.file_of_inst {s : State} (h : Inv s) {f g : FileObject} {i : Nat}
    (hf : s.files[i]? = some f) (hg : g ∈ s.files) (hi : g.inst = i) : g = f := by
  obtain ⟨j, hj⟩ := List.mem_iff_getElem?.mp hg
  have : j = i := (h.inst j g hj).symm.trans hi
  subst this
  exact Option.some.inj (hj.symm.trans hf)

/-- An outstanding early request meets its own file or nothing. -/
theorem Inv.meets {s : State} (h : Inv s) {r : Request} (hr : r ∈ s.requests)
    (he : r.early = true) (ho : r.outstanding = true) {inst : Nat}
    (hfd : s.fds r.fd = some inst) : inst = r.file := by
  obtain ⟨f, hf, hnum⟩ := h.request r hr
  have hinst := h.inst r.file f hf
  have hheld := h.held f (List.mem_of_getElem? hf) (.inr ⟨r, hr, hinst.symm, he, ho⟩)
  rw [← hnum, hfd, hinst] at hheld
  simpa using hheld

/-- Replacing a request by one of the same file that is outstanding only if the
first was makes no file active. -/
theorem active_of_set {l : List Request} {i : Nat} {r r' : Request} {f : FileObject}
    (h : Active (l.set i r') f) (hr : l[i]? = some r) (hfile : r'.file = r.file)
    (hearly : r'.early = r.early) (hout : r'.outstanding = true → r.outstanding = true) :
    Active l f := by
  rcases h with h | ⟨q, hq, hqf, hqe, hqo⟩
  · exact .inl h
  · rcases Slots.mem_set_cases hq with rfl | hq
    · exact .inr ⟨r, List.mem_of_getElem? hr, hfile ▸ hqf, hearly ▸ hqe, hout hqo⟩
    · exact .inr ⟨q, hq, hqf, hqe, hqo⟩

theorem request_set {s : State} (h : Inv s) {i : Nat} {r r' : Request}
    (hr : s.requests[i]? = some r) (hfile : r'.file = r.file) (hfd : r'.fd = r.fd) :
    ∀ q ∈ s.requests.set i r', ∃ f, s.files[q.file]? = some f ∧ q.fd = f.fd := by
  intro q hq
  rcases Slots.mem_set_cases hq with rfl | hq
  · rw [hfile, hfd]
    exact h.request r (List.mem_of_getElem? hr)
  · exact h.request q hq

theorem request_files_set {s : State} (h : Inv s) {i : Nat} {f f' : FileObject}
    (hf : s.files[i]? = some f) (hfd : f'.fd = f.fd) :
    ∀ q ∈ s.requests, ∃ g, (s.files.set i f')[q.file]? = some g ∧ q.fd = g.fd := by
  intro q hq
  obtain ⟨g, hg, hnum⟩ := h.request q hq
  by_cases hi : i = q.file
  · subst hi
    cases hf.symm.trans hg
    obtain ⟨hlt, -⟩ := List.getElem?_eq_some_iff.mp hf
    exact ⟨f', by simp [hlt], hnum.trans hfd.symm⟩
  · exact ⟨g, by simp [hi, hg], hnum⟩

theorem sources_set {s : State} (h : Inv s) {i : Nat} {r : Request}
    (hsrc : r.early = true → ∀ inst ∈ r.sources, inst = r.file) :
    ∀ q ∈ s.requests.set i r, q.early = true → ∀ inst ∈ q.sources, inst = q.file := by
  intro q hq
  rcases Slots.mem_set_cases hq with rfl | hq
  · exact hsrc
  · exact h.sources q hq

theorem inv_call {s t : State} {op : Op} {file : Nat} (h : Inv s)
    (hs : call s op file = some t) : Inv t := by
  obtain ⟨f, hf, hs⟩ := Option.bind_eq_some_iff.mp hs
  split at hs
  · cases hs
    have hfile := h.inst file f hf
    have hmem : f ∈ s.files := List.mem_of_getElem? hf
    constructor
    · dsimp only
      split
      · exact Slots.all_set h.inst hfile
      · exact h.inst
    · intro r hr
      dsimp only at hr ⊢
      obtain hr | hr := List.mem_append.mp hr
      · split
        · exact request_files_set h hf (by rfl) r hr
        · exact h.request r hr
      · rw [List.mem_singleton.mp hr]
        split
        · obtain ⟨hlt, -⟩ := List.getElem?_eq_some_iff.mp hf
          exact ⟨{ f with closed := true }, by simp [hlt], rfl⟩
        · exact ⟨f, hf, rfl⟩
    · -- a new early request is of a file that was not closed, so was active before
      have hold : ∀ g ∈ s.files, (∃ r ∈ s.requests ++ [⟨op, file, f.fd, !f.closed, .queued, []⟩],
          r.file = g.inst ∧ r.early = true ∧ r.outstanding = true) → Active s.requests g := by
        rintro g hg ⟨r, hr, hrf, hre, hro⟩
        obtain hr | hr := List.mem_append.mp hr
        · exact .inr ⟨r, hr, hrf, hre, hro⟩
        · rw [List.mem_singleton.mp hr] at hrf hre
          rw [h.file_of_inst hf hg hrf.symm]
          exact .inl (by simpa using hre)
      intro g hg hact
      dsimp only at hg hact ⊢
      split at hg
      · rcases Slots.mem_set_cases hg with rfl | hg
        · rcases hact with hact | hact
          · cases hact
          · exact h.held f hmem (hold f hmem hact)
        · exact h.held g hg (hact.elim .inl (hold g hg))
      · exact h.held g hg (hact.elim .inl (hold g hg))
    · intro r hr
      obtain hr | hr := List.mem_append.mp hr
      · exact h.sources r hr
      · rw [List.mem_singleton.mp hr]
        intro _ inst hi
        cases hi
    · exact h.fenced
  · cases hs

theorem inv_runOpen {s t : State} {i : Nat} {fd : Except Int Nat} (h : Inv s)
    (hex : Exclusive s (.runOpen i fd)) (hs : runOpen s i fd = some t) : Inv t := by
  cases fd with
  | error code =>
      simp only [runOpen] at hs
      split at hs
      · cases hs
        exact ⟨h.inst, h.request, h.held, h.sources, h.fenced⟩
      · cases hs
  | ok fd =>
      simp only [runOpen] at hs
      split at hs
      · cases hs
        constructor
        · exact Slots.all_concat h.inst rfl
        · intro r hr
          obtain ⟨f, hf, hnum⟩ := h.request r hr
          obtain ⟨hlt, -⟩ := List.getElem?_eq_some_iff.mp hf
          exact ⟨f, by simp [List.getElem?_append_left hlt, hf], hnum⟩
        · intro g hg hact
          dsimp only at hg hact ⊢
          obtain hg | hg := List.mem_append.mp hg
          · by_cases hfd : g.fd = fd
            · -- the number is not one of an active file
              obtain ⟨hclosed, hdone⟩ := hex g hg hfd
              rcases hact with hact | ⟨r, hr, hrf, hre, hro⟩
              · rw [hclosed] at hact
                cases hact
              · rw [hdone r hr hrf hre] at hro
                cases hro
            · rw [Function.update_of_ne hfd]
              exact h.held g hg hact
          · rw [List.mem_singleton.mp hg]
            exact .inr (Function.update_self ..)
        · exact h.sources
        · exact h.fenced
      · cases hs

theorem inv_finishOpen {s t : State} {i : Nat} (h : Inv s) (hs : finishOpen s i = some t) :
    Inv t := by
  simp only [finishOpen] at hs
  split at hs
  · obtain ⟨f, hf, rfl⟩ := Option.map_eq_some_iff.mp hs
    constructor
    · exact Slots.all_set h.inst (h.inst _ f hf)
    · exact request_files_set h hf (by rfl)
    · intro g hg hact
      rcases Slots.mem_set_cases hg with rfl | hg
      · exact h.held f (List.mem_of_getElem? hf) hact
      · exact h.held g hg hact
    · exact h.sources
    · exact h.fenced
  · cases hs
    exact ⟨h.inst, h.request, h.held, h.sources, h.fenced⟩
  · cases hs

theorem inv_run {s t : State} {i : Nat} {result : Int} (h : Inv s)
    (hs : run s i result = some t) : Inv t := by
  obtain ⟨r, hr, hs⟩ := Option.bind_eq_some_iff.mp hs
  have hmem : r ∈ s.requests := List.mem_of_getElem? hr
  split at hs
  · rename_i hq
    -- whatever it was, a queued read or write was outstanding
    have hout : r.op ≠ .close → r.outstanding = true := by
      intro hop
      cases hc : r.op <;> simp_all [Request.outstanding]
    split at hs
    · cases hs
      refine ⟨h.inst, request_set h hr rfl rfl, fun g hg hact => h.held g hg ?_,
        sources_set h (h.sources r hmem), h.fenced⟩
      refine active_of_set hact hr rfl rfl fun ho => hout fun hop => ?_
      simp [Request.outstanding, hop] at ho
    · rename_i hop
      cases hs
      refine ⟨h.inst, request_set h hr rfl rfl, fun g hg hact => ?_,
        sources_set h (h.sources r hmem), h.fenced⟩
      dsimp only
      by_cases hfd : g.fd = r.fd
      · exact .inl (by rw [hfd, Function.update_self])
      · rw [Function.update_of_ne hfd]
        refine h.held g hg (active_of_set hact hr rfl rfl fun ho => ?_)
        simp [Request.outstanding, hop] at ho
    · rename_i inst hfd hop
      cases hs
      have hown : r.early = true → inst = r.file := fun he => h.meets hmem he (hout hop) hfd
      refine ⟨h.inst, request_set h hr rfl rfl, fun g hg hact => h.held g hg ?_,
        sources_set h ?_, ?_, h.fenced.2⟩
      · exact active_of_set hact hr rfl rfl fun _ => hout hop
      · intro he j hj
        obtain hj | hj := List.mem_append.mp hj
        · exact h.sources r hmem he j hj
        · exact (List.mem_singleton.mp hj).trans (hown he)
      · intro t ht he
        obtain ht | ht := List.mem_append.mp ht
        · exact h.fenced.1 t ht he
        · rw [List.mem_singleton.mp ht] at he ⊢
          exact hown he
  · cases hs

theorem inv_finish {s t : State} {i : Nat} (h : Inv s) (hs : finish s i = some t) : Inv t := by
  obtain ⟨r, hr, hs⟩ := Option.bind_eq_some_iff.mp hs
  have hmem : r ∈ s.requests := List.mem_of_getElem? hr
  split at hs
  · rename_i result hphase
    split at hs
    · rename_i hread
      cases hs
      refine ⟨h.inst, request_set h hr rfl rfl, fun g hg hact => h.held g hg ?_,
        sources_set h (h.sources r hmem), h.fenced⟩
      apply active_of_set hact hr rfl rfl
      intro _
      simp [Request.outstanding, hread.1, hphase, hread.2]
    · cases hs
      refine ⟨h.inst, request_set h hr rfl rfl, fun g hg hact => h.held g hg ?_,
        sources_set h (h.sources r hmem), h.fenced.1, ?_⟩
      · apply active_of_set hact hr rfl rfl
        intro ho
        cases hc : r.op <;> simp [Request.outstanding, hc] at ho
      · intro q hq
        dsimp only at hq
        split at hq
        · obtain hq | hq := List.mem_append.mp hq
          · exact h.fenced.2 q hq
          · rw [List.mem_singleton.mp hq]
            exact h.sources r hmem
        · exact h.fenced.2 q hq
  · cases hs

theorem inv_step {s t : State} {l : Label} (h : Inv s) (hex : Exclusive s l)
    (hs : step s l = some t) : Inv t := by
  cases l with
  | callOpen =>
      cases hs
      exact ⟨h.inst, h.request, h.held, h.sources, h.fenced⟩
  | call op file => exact inv_call h hs
  | runOpen i fd => exact inv_runOpen h hex hs
  | finishOpen i => exact inv_finishOpen h hs
  | run i result => exact inv_run h hs
  | finish i => exact inv_finish h hs

end HxcppLuv.File.Fence
