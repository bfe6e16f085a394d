import HxcppLuv.Core.Ledger
import HxcppLuv.Core.Machine
import HxcppLuv.File.ReadChain

/-!
The chain of `uv_fs_read` requests against whatever libuv reports. Between a submission
and its callback a worker writes the result into the request and the bytes into the
buffer that all links share. The user gets what was reported, once, and the request and
its data are there for as long as libuv or the chain uses them. What is reported is read off
the labels of a run alone, by a machine of its own, with which the chain keeps step.
-/

namespace HxcppLuv.File

open Asio
open HxcppLuv.Action

/-- The size of the array in `ReadRequestData`. -/
def bufferSize : Nat := 1024

/-- What a `uv_fs_read` into the buffer comes to. -/
inductive Outcome where
  | chunk (bytes : List UInt8)
  | eof
  | error (code : Int)
  deriving DecidableEq

namespace Outcome

def result : Outcome → Int
  | chunk bytes => bytes.length
  | eof => 0
  | error code => code

def valid : Outcome → Bool
  | chunk bytes => 0 < bytes.length ∧ bytes.length ≤ bufferSize
  | eof => true
  | error code => code < 0

end Outcome

/-- A submission libuv has taken and not called back. -/
inductive Flight where
  | pending (offset : Int)
  | finished (o : Outcome)
  deriving DecidableEq

/-- The request and the `ReadRequestData` it points to. -/
inductive Object where
  | request
  | data
  deriving DecidableEq

/-- What an effect does to the two. The callback is fetched before it is called. -/
def Effect.actions : Effect → List (Action Object)
  | .allocate => [acquire .data, acquire .request]
  | .submit _ _ _ | .copyOut _ => [touch .request, touch .data]
  | .callbackSuccess _ | .callbackError _ => []
  | .deleteData => [release .data]
  | .deleteRequest => [release .request]

/-- A submission is in flight when `uv_fs_read` has accepted it. -/
def Effect.flight? : Effect → Option Flight
  | .submit _ offset rc => if rc < 0 then none else some (.pending offset)
  | _ => none

/-- `data` is what the chain owns. -/
structure Chain where
  data : Option ReadRequestData
  buffer : List UInt8
  flights : List Flight
  log : List Effect
  held : Multiset Object
  misused : List Object

inductive Label where
  | work (i : Nat) (o : Outcome)
  | callback (i : Nat) (rc : Int)
  deriving DecidableEq

namespace Chain

def exec (s : Chain) (as : List (Action Object)) : Chain :=
  { s with held := Action.run as s.held, misused := s.misused ++ Action.misused as s.held }

/-- The chain does what `read` or `readCallback` returned. -/
def perform (s : Chain) (r : Option ReadRequestData × List Effect) : Chain :=
  { s.exec (r.2.flatMap Effect.actions) with
    data := r.1
    flights := s.flights ++ r.2.filterMap Effect.flight?
    log := s.log ++ r.2 }

def empty : Chain := ⟨none, List.replicate bufferSize 0, [], [], 0, []⟩

/-- A worker reads into the buffer and stores the result. -/
def work (s : Chain) (i : Nat) (o : Outcome) : Chain :=
  { s.exec [touch .request, touch .data] with
    buffer := match o with
      | .chunk bytes => bytes ++ s.buffer.drop bytes.length
      | .eof | .error _ => s.buffer
    flights := s.flights.set i (.finished o) }

/-- libuv is done with a submission, and `read_callback` looks at the result. -/
def enter (s : Chain) (i : Nat) : Chain :=
  { s.exec [touch .request, touch .data] with
    flights := s.flights.eraseIdx i }

def callback (s : Chain) (i : Nat) (o : Outcome) (rc : Int) : Chain :=
  match s.data with
  | some d => (s.enter i).perform (readCallback d o.result s.buffer rc)
  | none => s.enter i

def step (s : Chain) : Label → Option Chain
  | .work i o =>
      match s.flights[i]? with
      | some (.pending _) => if o.valid then some (s.work i o) else none
      | _ => none
  | .callback i rc =>
      match s.flights[i]? with
      | some (.finished o) => some (s.callback i o rc)
      | _ => none

/-- `file::read`, and the run of the chain it starts; `rc` is what its own `uv_fs_read`
returns. -/
def machine (file : Nat) (offset rc : Int) : Machine Chain Label where
  init := empty.perform (read file offset rc)
  step := step

end Chain

/-- Where a read is by what libuv has reported: a submission is out, one has come to
something, or the user has been told. -/
inductive Stage where
  | reading
  | read (o : Outcome)
  | told (result : Result (List UInt8) Code)
  deriving DecidableEq

/-- The chunks so far, and the stage. -/
structure Report where
  chunks : List (List UInt8)
  stage : Stage
  deriving DecidableEq

namespace Report

/-- The first outcome that is not a chunk is the last, whether it is reported at completion
or returned by a submission, as `rc` is. -/
def next (r : Report) (rc : Int) : Outcome → Report
  | .chunk bytes => ⟨r.chunks ++ [bytes], if rc < 0 then .told (.error rc) else .reading⟩
  | .eof => ⟨r.chunks, .told (.success r.chunks.flatten)⟩
  | .error code => ⟨r.chunks, .told (.error code)⟩

def step (r : Report) : Label → Option Report
  | .work i o =>
      match r.stage with
      | .reading => if i = 0 ∧ o.valid then some { r with stage := .read o } else none
      | .read _ | .told _ => none
  | .callback i rc =>
      match r.stage with
      | .read o => if i = 0 then some (r.next rc o) else none
      | .reading | .told _ => none

/-- What is to be reported, when `rc` is what the first `uv_fs_read` returns. -/
def machine (rc : Int) : Machine Report Label where
  init := ⟨[], if rc < 0 then .told (.error rc) else .reading⟩
  step := step

def calls (r : Report) : List (Result (List UInt8) Code) :=
  match r.stage with
  | .reading | .read _ => []
  | .told result => [result]

/-- The submissions libuv has, and what they have come to. -/
def outstanding (r : Report) : List (Option Outcome) :=
  match r.stage with
  | .reading => [none]
  | .read o => [some o]
  | .told _ => []

def owned (r : Report) : Multiset Object :=
  match r.stage with
  | .reading | .read _ => {.data, .request}
  | .told _ => 0

end Report

def Flight.stored? : Flight → Option Outcome
  | .pending _ => none
  | .finished o => some o

inductive Move where
  | submit
  | copyOut (chunk : List UInt8)
  deriving DecidableEq

def Effect.move? : Effect → Option Move
  | .submit _ _ _ => some .submit
  | .copyOut chunk => some (.copyOut chunk)
  | _ => none

/-- Each chunk is copied out before the next submission. -/
def Report.moves (chunks : List (List UInt8)) : List Move :=
  chunks.flatMap fun bytes => [.copyOut bytes, .submit]

/-- The user has been told what was reported, once and only then, libuv has the one
submission that is outstanding, and the two objects are there until they are deleted, once,
when the user has been told. -/
structure Told (s : Chain) (r : Report) : Prop where
  calls : s.log.filterMap userCall = r.calls
  flights : s.flights.map Flight.stored? = r.outstanding
  moves : s.log.filterMap Effect.move? = .submit :: Report.moves r.chunks
  held : s.held = r.owned
  deleted : s.log.count .deleteData = r.calls.length ∧
    s.log.count .deleteRequest = r.calls.length
  sound : s.misused = []

/-- The data gathers the chunks, and a submission that has come to one has its bytes in the
buffer. -/
structure ChainInv (s : Chain) (r : Report) : Prop extends Told s r where
  data : r.calls = [] → ∃ rd, s.data = some rd ∧ rd.array = r.chunks.flatten
  written : ∀ o, r.stage = .read o → o.valid = true ∧
    ∀ bytes, o = .chunk bytes → s.buffer.take bytes.length = bytes

theorem inv_read (file : Nat) (offset rc : Int) :
    ChainInv (Chain.machine file offset rc).init (Report.machine rc).init := by
  by_cases hrc : rc < 0
  · simp only [Chain.machine, Report.machine, read, hrc, if_true]
    exact {
      calls := rfl
      flights := by
        simp [Chain.perform, Chain.empty, List.filterMap_cons, Effect.flight?, hrc,
          Report.outstanding]
      moves := rfl
      held := rfl
      deleted := ⟨rfl, rfl⟩
      sound := rfl
      data := by intro hd; cases hd
      written := by intro o ho; cases ho }
  · simp only [Chain.machine, Report.machine, read, hrc, if_false]
    exact {
      calls := rfl
      flights := by
        simp [Chain.perform, Chain.empty, List.filterMap_cons, Effect.flight?, hrc,
          Report.outstanding, Flight.stored?]
      moves := rfl
      held := rfl
      deleted := ⟨rfl, rfl⟩
      sound := rfl
      data := fun _ => ⟨_, rfl, rfl⟩
      written := by intro o ho; cases ho }

section

variable {s : Chain} {r : Report} {i : Nat} {o : Outcome} {rc : Int}

/-- A submission that libuv has is the only one. -/
theorem Told.only (h : Told s r) {f : Flight} (hi : s.flights[i]? = some f) :
    i = 0 ∧ s.flights = [f] ∧ r.outstanding = [f.stored?] := by
  have hflights := h.flights
  have hlength : r.outstanding.length ≤ 1 := by
    unfold Report.outstanding
    split <;> simp
  rw [← hflights, List.length_map] at hlength
  have hlt := (List.getElem?_eq_some_iff.mp hi).1
  have hzero : i = 0 := by omega
  subst hzero
  obtain ⟨g, hg⟩ := List.length_eq_one_iff.mp (show s.flights.length = 1 by omega)
  rw [hg] at hi
  cases hi
  exact ⟨rfl, hg, by rw [← hflights, hg, List.map_singleton]⟩

theorem Told.flight (h : Told s r) {x : Option Outcome} (hr : r.outstanding = [x]) :
    ∃ f, s.flights = [f] ∧ f.stored? = x := by
  have hflights := h.flights
  rw [hr] at hflights
  obtain ⟨f, rest, hs, hf, hrest⟩ := List.map_eq_cons_iff.mp hflights
  rw [List.map_eq_nil_iff.mp hrest] at hs
  exact ⟨f, hs, hf⟩

theorem take_written (bytes buffer : List UInt8) :
    (bytes ++ buffer.drop bytes.length).take bytes.length = bytes := by
  rw [List.take_append_of_le_length (Nat.le_refl _), List.take_length]

theorem inv_work (h : ChainInv s r) (hr : r.stage = .reading) (ho : o.valid = true) :
    ChainInv (s.work 0 o) { r with stage := .read o } := by
  obtain ⟨f, hflights, -⟩ := h.flight (x := none) (by simp only [Report.outstanding, hr])
  have hcalls : r.calls = [] := by simp only [Report.calls, hr]
  have hheld : s.held = {.data, .request} := h.held.trans (by simp only [Report.owned, hr])
  have hdeleted := h.deleted
  rw [hcalls] at hdeleted
  exact {
    calls := h.calls.trans hcalls
    flights := by
      simp only [Chain.work, hflights, List.set_cons_zero, List.map_singleton]
      rfl
    moves := h.moves
    held := hheld
    deleted := hdeleted
    sound := by
      simp only [Chain.work, Chain.exec, h.sound, hheld]
      rfl
    data := fun _ => h.data hcalls
    written := fun o' ho' => by
      cases ho'
      refine ⟨ho, fun bytes hbytes => ?_⟩
      subst hbytes
      exact take_written bytes s.buffer }

/-- What the chain does about an outcome when it has gathered some chunks: it comes to `r'`. -/
structure Link (chunks : List (List UInt8)) (es : List Effect) (r' : Report) : Prop where
  calls : es.filterMap userCall = r'.calls
  flights : (es.filterMap Effect.flight?).map Flight.stored? = r'.outstanding
  moves : Report.moves chunks ++ es.filterMap Effect.move? = Report.moves r'.chunks
  owned : Owned (es.flatMap Effect.actions) {.data, .request}
  leaves : Action.run (es.flatMap Effect.actions) {.data, .request} = r'.owned
  deleted : es.count .deleteData = r'.calls.length ∧ es.count .deleteRequest = r'.calls.length

theorem link_eof (chunks : List (List UInt8)) :
    Link chunks [.callbackSuccess chunks.flatten, .deleteData, .deleteRequest]
      ⟨chunks, .told (.success chunks.flatten)⟩ where
  calls := rfl
  flights := rfl
  moves := List.append_nil _
  owned := by simp only [List.flatMap_cons, Effect.actions]; decide
  leaves := rfl
  deleted := ⟨rfl, rfl⟩

theorem link_error (chunks : List (List UInt8)) (code : Int) :
    Link chunks [.callbackError code, .deleteData, .deleteRequest]
      ⟨chunks, .told (.error code)⟩ where
  calls := rfl
  flights := rfl
  moves := List.append_nil _
  owned := by simp only [List.flatMap_cons, Effect.actions]; decide
  leaves := rfl
  deleted := ⟨rfl, rfl⟩

theorem moves_concat (chunks : List (List UInt8)) (bytes : List UInt8) :
    Report.moves (chunks ++ [bytes]) = Report.moves chunks ++ [.copyOut bytes, .submit] := by
  simp only [Report.moves, List.flatMap_append, List.flatMap_singleton]

/-- A chunk is copied out and the next link is on its way. -/
theorem link_next (chunks : List (List UInt8)) (bytes : List UInt8) (file : Nat) (offset : Int)
    (hrc : ¬ rc < 0) :
    Link chunks [.copyOut bytes, .submit file offset rc] ⟨chunks ++ [bytes], .reading⟩ where
  calls := rfl
  flights := by
    simp [List.filterMap_cons, Effect.flight?, hrc, Report.outstanding, Flight.stored?]
  moves := (moves_concat chunks bytes).symm
  owned := by simp only [List.flatMap_cons, Effect.actions]; decide
  leaves := rfl
  deleted := ⟨rfl, rfl⟩

/-- A chunk is copied out and the next link is refused. -/
theorem link_refused (chunks : List (List UInt8)) (bytes : List UInt8) (file : Nat) (offset : Int)
    (hrc : rc < 0) :
    Link chunks [.copyOut bytes, .submit file offset rc, .callbackError rc, .deleteData,
      .deleteRequest] ⟨chunks ++ [bytes], .told (.error rc)⟩ where
  calls := rfl
  flights := by simp [List.filterMap_cons, Effect.flight?, hrc, Report.outstanding]
  moves := (moves_concat chunks bytes).symm
  owned := by simp only [List.flatMap_cons, Effect.actions]; decide
  leaves := rfl
  deleted := ⟨rfl, rfl⟩

theorem inv_link {es : List Effect} {r' : Report} {next : Option ReadRequestData}
    (h : ChainInv s r) (hr : r.stage = .read o) (hl : Link r.chunks es r')
    (hstage : ∀ o', r'.stage ≠ .read o')
    (hdata : r'.calls = [] → ∃ rd, next = some rd ∧ rd.array = r'.chunks.flatten) :
    ChainInv ((s.enter 0).perform (next, es)) r' := by
  obtain ⟨f, hflights, -⟩ := h.flight (x := some o) (by simp only [Report.outstanding, hr])
  have hcalls : r.calls = [] := by simp only [Report.calls, hr]
  have hheld : s.held = {.data, .request} := h.held.trans (by simp only [Report.owned, hr])
  have hentered : (s.enter 0).held = {.data, .request} := hheld
  exact {
    calls := by
      simp only [Chain.perform, Chain.enter, Chain.exec, List.filterMap_append, h.calls, hl.calls,
        hcalls, List.nil_append]
    flights := by
      simp only [Chain.perform, Chain.enter, hflights]
      exact hl.flights
    moves := by
      simp only [Chain.perform, Chain.enter, Chain.exec, List.filterMap_append, h.moves,
        List.cons_append, hl.moves]
    held := by
      simp only [Chain.perform, Chain.exec, hentered]
      exact hl.leaves
    deleted := by
      simp only [Chain.perform, Chain.enter, Chain.exec, List.count_append]
      rw [h.deleted.1, h.deleted.2, hl.deleted.1, hl.deleted.2, hcalls]
      exact ⟨Nat.zero_add _, Nat.zero_add _⟩
    sound := by
      have hsound : (s.enter 0).misused = [] := by
        simp only [Chain.enter, Chain.exec, hheld, h.sound]
        rfl
      simp only [Chain.perform, Chain.exec, hentered, hsound, misused_eq_nil hl.owned,
        List.append_nil]
    data := hdata
    written := fun o' ho' => absurd ho' (hstage o') }

theorem inv_callback (h : ChainInv s r) (hr : r.stage = .read o) :
    ChainInv (s.callback 0 o rc) (r.next rc o) := by
  obtain ⟨rd, hrd, harray⟩ := h.data (by simp only [Report.calls, hr])
  obtain ⟨hvalid, hwritten⟩ := h.written o hr
  simp only [Chain.callback, hrd]
  cases o with
  | eof =>
      rw [show Outcome.eof.result = 0 from rfl, readCallback_zero, harray]
      exact inv_link h hr (link_eof _) (fun _ hs => by cases hs) fun hc => by cases hc
  | error code =>
      have hneg : (Outcome.error code).result < 0 := by
        simpa [Outcome.valid, Outcome.result] using hvalid
      rw [readCallback_neg hneg]
      exact inv_link h hr (link_error _ code) (fun _ hs => by cases hs) fun hc => by cases hc
  | chunk bytes =>
      have hpos : 0 < (Outcome.chunk bytes).result := by
        have hlength : 0 < bytes.length ∧ bytes.length ≤ bufferSize := by
          simpa [Outcome.valid] using hvalid
        exact Int.natCast_pos.mpr hlength.1
      have htake : s.buffer.take (Outcome.chunk bytes).result.toNat = bytes :=
        hwritten bytes rfl
      by_cases hrc : rc < 0
      · rw [readCallback_refused hpos hrc, htake]
        simp only [Report.next, if_pos hrc]
        exact inv_link h hr (link_refused _ _ _ _ hrc) (fun _ hs => by cases hs)
          fun hc => by cases hc
      · rw [readCallback_pos hpos (Int.not_lt.mp hrc), htake]
        simp only [Report.next, if_neg hrc]
        refine inv_link h hr (link_next _ _ _ _ hrc) (fun _ hs => by cases hs) fun _ => ?_
        exact ⟨_, rfl, by rw [harray, List.flatten_concat]⟩

theorem Told.pending (h : Told s r) {offset : Int} (hi : s.flights[i]? = some (.pending offset)) :
    i = 0 ∧ r.stage = .reading := by
  obtain ⟨hzero, -, hout⟩ := h.only hi
  refine ⟨hzero, ?_⟩
  unfold Report.outstanding at hout
  split at hout
  · assumption
  · cases hout
  · cases hout

theorem Told.finished (h : Told s r) (hi : s.flights[i]? = some (.finished o)) :
    i = 0 ∧ r.stage = .read o := by
  obtain ⟨hzero, -, hout⟩ := h.only hi
  refine ⟨hzero, ?_⟩
  unfold Report.outstanding at hout
  split at hout
  · cases hout
  · cases hout
    assumption
  · cases hout

/-- Only the one submission can be worked on or called back. -/
theorem Told.step_none (h : Told s r) {l : Label} (hr : r.step l = none) : s.step l = none := by
  cases l with
  | work i o =>
      simp only [Chain.step]
      split
      · obtain ⟨rfl, hstage⟩ := h.pending ‹_›
        simpa [Report.step, hstage] using hr
      · rfl
  | callback i rc =>
      simp only [Chain.step]
      split
      · obtain ⟨rfl, hstage⟩ := h.finished ‹_›
        simp [Report.step, hstage] at hr
      · rfl

/-- The chain takes exactly the steps of what is to be reported. -/
theorem inv_step (h : ChainInv s r) (l : Label) : Option.Rel ChainInv (s.step l) (r.step l) := by
  cases hstep : r.step l with
  | none =>
      rw [h.step_none hstep]
      exact .none
  | some r' =>
      cases l with
      | work i o =>
          simp only [Report.step] at hstep
          split at hstep
          · rename_i hr
            obtain ⟨⟨rfl, hvalid⟩, rfl⟩ := Machine.of_guard hstep
            obtain ⟨f, hflights, hf⟩ := h.flight (x := none) (by simp only [Report.outstanding, hr])
            cases f with
            | pending offset =>
                simp only [Chain.step, hflights, List.getElem?_cons_zero, if_pos hvalid]
                exact .some (inv_work h hr hvalid)
            | finished => cases hf
          · cases hstep
          · cases hstep
      | callback i rc =>
          simp only [Report.step] at hstep
          split at hstep
          · rename_i o hr
            obtain ⟨rfl, rfl⟩ := Machine.of_guard hstep
            obtain ⟨f, hflights, hf⟩ := h.flight (x := some o)
              (by simp only [Report.outstanding, hr])
            cases f with
            | pending => cases hf
            | finished o' =>
                cases hf
                simp only [Chain.step, hflights, List.getElem?_cons_zero]
                exact .some (inv_callback h hr)
          · cases hstep
          · cases hstep

end

/-- Whatever the submissions come to, and in every state on the way, the chain has told
the user what was reported, and has what it needs and nothing else. -/
theorem chain_faithful (file : Nat) (offset rc : Int) (as : List Label) :
    Option.Rel Told ((Chain.machine file offset rc).run (Chain.machine file offset rc).init as)
      ((Report.machine rc).run (Report.machine rc).init as) :=
  Machine.lockstep (I := ChainInv) (fun _ _ h => h.toTold) (fun _ _ l h => inv_step h l) as
    (inv_read file offset rc)

end HxcppLuv.File
