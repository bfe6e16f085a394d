import HxcppLuv.Core.Machine
import HxcppLuv.Core.Slots
import HxcppLuv.Asio.Result

/-!
One open directory: `Directory.read`, `iter` and `close` on the loop thread, and
the `uv__fs_readdir` and `uv__fs_closedir` that workers run for them in any order.

Every read owns a `uv_dirent_t`, but libuv finds it through the `dirents` field
of the shared `uv_dir_t`: the field is written when a read is submitted, and read
when a worker stores a record and again when the read's callback cleans up. A
worker's read is two steps (`take` the record from the stream, `store` it), a
callback three (user code, the nested read of `iter`, cleanup), and anything may
come between. `nentries` is 1 from the first read on and left out.

A request is named by its place in the order of submission.
-/

namespace HxcppLuv.Directory

open Asio

/-- `cpp.asio.EntryType`, in the order of `uv_dirent_type_t`. -/
inductive EntryType where
  | unknown
  | file
  | directory
  | link
  | fifo
  | socket
  | char
  | block
  deriving DecidableEq

/-- A record of the directory stream. -/
structure Record where
  name : String
  type : EntryType
  deriving DecidableEq

/-- A `uv_dirent_t`, whose name may be null; `cpp.asio.Entry` copies the two. -/
structure Entry where
  type : EntryType
  name : Option String
  deriving DecidableEq

def Record.entry (e : Record) : Entry := ⟨e.type, some e.name⟩

def Record.dots (e : Record) : Bool := e.name = "." || e.name = ".."

/-- The entries of a directory as `uv__fs_readdir` sees them. -/
def entries (es : List Record) : List Record := es.filter fun e => !e.dots

/-- The loop of `uv__fs_readdir`: the next record that is not `.` or `..`, and
what is left of the stream. -/
def readdir : List Record → Option (Record × List Record)
  | [] => none
  | e :: es => if e.dots then readdir es else some (e, es)

inductive Phase where
  | queued
  | taken (e : Option Record)
  | done (result : Int)
  | callback (result : Int)
  | released
  deriving DecidableEq

/-- A `uv_fs_t` with its `ReaddirData`; `iter` tells which closure it carries. -/
structure Request where
  iter : Bool
  phase : Phase
  entry : Entry
  deriving DecidableEq

inductive ClosePhase where
  | queued
  | done
  | finished
  deriving DecidableEq

/-- The loop thread: outside this directory's callbacks, in the user code of a
read's callback, or past the nested read that callback has made. -/
inductive Thread where
  | idle
  | user (i : Nat)
  | issued (i : Nat)
  deriving DecidableEq

/-- `dirFault` records a use of the freed `uv_dir_t`, `direntFault` one of a
deleted `uv_dirent_t`, and `lost` the duplicated names nothing points to. -/
structure State where
  freed : Bool
  stream : List Record
  dirents : Option Nat
  requests : List Request
  closes : List ClosePhase
  loop : Thread
  reports : List (Nat × Result Entry Code)
  dirFault : Bool
  direntFault : Bool
  lost : List String
  deriving DecidableEq

inductive Label where
  | callRead (iter : Bool)
  | callClose
  | take (i : Nat)
  | fail (i : Nat) (code : Int)
  | store (i : Nat)
  | closedir (k : Nat)
  | deliver (i : Nat)
  | nested
  | cleanup
  | finishClose (k : Nat)
  deriving DecidableEq

namespace State

/-- A step that goes through the `uv_dir_t`. -/
def useDir (s : State) : State := { s with dirFault := s.dirFault || s.freed }

def setPhase (s : State) (i : Nat) (p : Phase) : State :=
  { s with requests := s.requests.modify i fun r => { r with phase := p } }

/-- Overwrite the `uv_dirent_t` of request `j`. -/
def setEntry (s : State) (j : Nat) (f : Entry → Entry) : State :=
  { s with
    requests := s.requests.modify j fun r => { r with entry := f r.entry }
    direntFault := s.direntFault || (s.requests[j]?.map Request.phase == some .released) }

/-- The name now in the `uv_dirent_t` of request `j`. -/
def nameAt (s : State) (j : Nat) : Option String := s.requests[j]?.bind fun r => r.entry.name

/-- `cpp::luv::directory::read` up to and including `uv_fs_readdir`. -/
def read (s : State) (iter : Bool) : State :=
  { s.useDir with
    dirents := some s.requests.length
    requests := s.requests ++ [⟨iter, .queued, ⟨.unknown, none⟩⟩] }

/-- `cpp::luv::directory::close` up to and including `uv_fs_closedir`. -/
def close (s : State) : State := { s with closes := s.closes ++ [.queued] }

/-- The second half of `uv__fs_readdir`: the record goes wherever `dirents` then
points, over whatever name is there. -/
def storeRecord (s : State) (e : Record) : State :=
  match s.dirents with
  | none => s.useDir
  | some j =>
      { s.useDir.setEntry j fun _ => e.entry with lost := s.lost ++ (s.nameAt j).toList }

/-- The same when `uv__strdup` fails: the null it returned stays there. -/
def storeNull (s : State) : State :=
  match s.dirents with
  | none => s.useDir
  | some j =>
      { s.useDir.setEntry j fun d => { d with name := none } with
        lost := s.lost ++ (s.nameAt j).toList }

/-- `uv__fs_readdir_cleanup` on a request with the given result. -/
def readdirCleanup (s : State) (result : Int) : State :=
  match s.dirents with
  | none => s.useDir
  | some j =>
      if 0 < result then s.useDir.setEntry j fun d => { d with name := none } else s.useDir

/-- What the wrapper and the Haxe closure report for a result. -/
def report (entry : Entry) (result : Int) : Result Entry Code :=
  if result < 0 then .error result
  else if result = 0 then .error Code.eof
  else .success entry

/-- The end of the wrapper: `uv_fs_req_cleanup` unless the read failed, then
`ReaddirData` and the request are deleted. -/
def release (s : State) (i : Nat) (result : Int) : State :=
  let s := if result < 0 then s else s.readdirCleanup result
  { s.setPhase i .released with loop := .idle, lost := s.lost ++ (s.nameAt i).toList }

def phaseAt (s : State) (i : Nat) : Option Phase := s.requests[i]?.map Request.phase

end State

def step (s : State) : Label → Option State
  | .callRead iter =>
      match s.loop with
      | .issued _ => none
      | _ => some (s.read iter)
  | .callClose =>
      match s.loop with
      | .issued _ => none
      | _ => some s.close
  | .take i =>
      match s.phaseAt i with
      | some .queued =>
          match readdir s.stream with
          | none => some ({ s.useDir with stream := [] }.setPhase i (.taken none))
          | some (e, rest) => some ({ s.useDir with stream := rest }.setPhase i (.taken (some e)))
      | _ => none
  | .fail i code =>
      if code < 0 then
        match s.phaseAt i with
        | some .queued => some (s.useDir.setPhase i (.done code))
        | some (.taken (some _)) => some (s.storeNull.setPhase i (.done code))
        | _ => none
      else none
  | .store i =>
      match s.phaseAt i with
      | some (.taken none) => some (s.useDir.setPhase i (.done 0))
      | some (.taken (some e)) => some ((s.storeRecord e).setPhase i (.done 1))
      | _ => none
  | .closedir k =>
      if s.closes[k]? = some .queued then
        some { s.useDir with freed := true, closes := s.closes.set k .done }
      else none
  | .deliver i =>
      match s.loop, s.requests[i]? with
      | .idle, some r =>
          match r.phase with
          | .done result =>
              some { s.setPhase i (.callback result) with
                loop := .user i
                reports := s.reports ++ [(i, State.report r.entry result)] }
          | _ => none
      | _, _ => none
  | .nested =>
      match s.loop with
      | .user i =>
          match s.requests[i]? with
          | some ⟨true, .callback result, _⟩ =>
              if 0 < result then some { s.read true with loop := .issued i } else none
          | _ => none
      | _ => none
  | .cleanup =>
      match s.loop with
      | .idle => none
      | .user i =>
          match s.requests[i]? with
          | some ⟨iter, .callback result, _⟩ =>
              if iter && 0 < result then none else some (s.release i result)
          | _ => none
      | .issued i =>
          match s.phaseAt i with
          | some (.callback result) => some (s.release i result)
          | _ => none
  | .finishClose k =>
      if s.loop = .idle ∧ s.closes[k]? = some .done then
        some { s with closes := s.closes.set k .finished }
      else none

theorem readdir_none {es : List Record} (h : readdir es = none) : entries es = [] := by
  induction es with
  | nil => rfl
  | cons e es ih =>
      simp only [readdir] at h
      split at h
      · rename_i hd
        simpa [entries, hd] using ih h
      · cases h

theorem readdir_some {es rest : List Record} {e : Record} (h : readdir es = some (e, rest)) :
    entries es = e :: entries rest := by
  induction es with
  | nil => cases h
  | cons d es ih =>
      simp only [readdir] at h
      split at h
      · rename_i hd
        simpa [entries, hd] using ih h
      · rename_i hd
        cases h
        simp [entries, hd]

namespace State

theorem getElem?_setPhase (s : State) (i j : Nat) (p : Phase) :
    (s.setPhase i p).requests[j]? =
      s.requests[j]?.map fun r => if i = j then { r with phase := p } else r := by
  simp only [setPhase, List.getElem?_modify, Option.map_eq_map]

theorem getElem?_setPhase_self {s : State} {i : Nat} {r : Request} (p : Phase)
    (h : s.requests[i]? = some r) :
    (s.setPhase i p).requests[i]? = some { r with phase := p } := by
  simp [getElem?_setPhase, h]

theorem getElem?_setPhase_ne (s : State) {i j : Nat} (p : Phase) (h : i ≠ j) :
    (s.setPhase i p).requests[j]? = s.requests[j]? := by
  simp [getElem?_setPhase, h]

theorem getElem?_setEntry (s : State) (i j : Nat) (f : Entry → Entry) :
    (s.setEntry i f).requests[j]? =
      s.requests[j]?.map fun r => if i = j then { r with entry := f r.entry } else r := by
  simp only [setEntry, List.getElem?_modify, Option.map_eq_map]

@[simp] theorem phaseAt_setPhase_ne (s : State) {i j : Nat} (p : Phase) (h : i ≠ j) :
    (s.setPhase i p).phaseAt j = s.phaseAt j := by
  simp [phaseAt, getElem?_setPhase_ne s p h]

@[simp] theorem phaseAt_setEntry (s : State) (i j : Nat) (f : Entry → Entry) :
    (s.setEntry i f).phaseAt j = s.phaseAt j := by
  simp only [phaseAt, getElem?_setEntry]
  cases s.requests[j]? with
  | none => rfl
  | some r => simp only [Option.map_some]; split <;> rfl

@[simp] theorem length_setPhase (s : State) (i : Nat) (p : Phase) :
    (s.setPhase i p).requests.length = s.requests.length := by
  simp [setPhase]

@[simp] theorem length_setEntry (s : State) (i : Nat) (f : Entry → Entry) :
    (s.setEntry i f).requests.length = s.requests.length := by
  simp [setEntry]

theorem phaseAt_of_get {s : State} {i : Nat} {r : Request} (h : s.requests[i]? = some r) :
    s.phaseAt i = some r.phase := by
  rw [phaseAt, h, Option.map_some]

theorem phaseAt_setPhase_self {s : State} {i : Nat} {r : Request} (p : Phase)
    (h : s.requests[i]? = some r) : (s.setPhase i p).phaseAt i = some p := by
  rw [phaseAt_of_get (getElem?_setPhase_self p h)]

theorem phaseAt_setPhase {s : State} {i : Nat} {q : Phase} (p : Phase)
    (h : s.phaseAt i = some q) (j : Nat) :
    (s.setPhase i p).phaseAt j = if j = i then some p else s.phaseAt j := by
  obtain ⟨r, hr, -⟩ := Option.map_eq_some_iff.mp h
  split
  · subst j
    exact phaseAt_setPhase_self p hr
  · exact phaseAt_setPhase_ne s p (Ne.symm ‹_›)

theorem phaseAt_read (s : State) (iter : Bool) {i : Nat} (hi : i < s.requests.length) :
    (s.read iter).phaseAt i = s.phaseAt i := by
  simp only [phaseAt, read, List.getElem?_append_left hi]

theorem phaseAt_length (s : State) : s.phaseAt s.requests.length = none := by
  simp [phaseAt]

theorem phaseAt_read_if (s : State) (iter : Bool) (j : Nat) :
    (s.read iter).phaseAt j = if j = s.requests.length then some .queued else s.phaseAt j := by
  simp only [phaseAt, read, List.getElem?_append, List.getElem?_singleton]
  split
  · rw [if_neg (by omega)]
  · by_cases hj : j = s.requests.length
    · simp [hj]
    · rw [if_neg (by omega), if_neg hj, List.getElem?_eq_none (by omega)]

theorem getElem?_read_last (s : State) (iter : Bool) :
    (s.read iter).requests[s.requests.length]? =
      some ⟨iter, .queued, ⟨.unknown, none⟩⟩ := by
  simp [read]

@[simp] theorem phaseAt_storeRecord (s : State) (e : Record) (i : Nat) :
    (s.storeRecord e).phaseAt i = s.phaseAt i := by
  simp only [storeRecord]
  split
  · rfl
  · exact phaseAt_setEntry s.useDir _ i fun _ => e.entry

@[simp] theorem phaseAt_readdirCleanup (s : State) (result : Int) (i : Nat) :
    (s.readdirCleanup result).phaseAt i = s.phaseAt i := by
  simp only [readdirCleanup]
  split
  · rfl
  · split
    · exact phaseAt_setEntry s.useDir _ i fun d => { d with name := none }
    · rfl

theorem phaseAt_release_ne (s : State) {i j : Nat} (result : Int) (h : i ≠ j) :
    (s.release i result).phaseAt j = s.phaseAt j := by
  by_cases hr : result < 0
  · rw [release, if_pos hr]
    exact phaseAt_setPhase_ne s .released h
  · rw [release, if_neg hr]
    exact (phaseAt_setPhase_ne (s.readdirCleanup result) .released h).trans
      (phaseAt_readdirCleanup s result j)

theorem phaseAt_release_self {s : State} {i : Nat} {p : Phase} (result : Int)
    (h : s.phaseAt i = some p) : (s.release i result).phaseAt i = some .released := by
  by_cases hr : result < 0
  · obtain ⟨r, hr', -⟩ := Option.map_eq_some_iff.mp h
    rw [release, if_pos hr]
    exact phaseAt_setPhase_self .released hr'
  · rw [← phaseAt_readdirCleanup s result i] at h
    obtain ⟨r, hr', -⟩ := Option.map_eq_some_iff.mp h
    rw [release, if_neg hr]
    exact phaseAt_setPhase_self .released hr'

@[simp] theorem reports_readdirCleanup (s : State) (result : Int) :
    (s.readdirCleanup result).reports = s.reports := by
  simp only [readdirCleanup]
  split
  · rfl
  · split <;> rfl

@[simp] theorem length_readdirCleanup (s : State) (result : Int) :
    (s.readdirCleanup result).requests.length = s.requests.length := by
  simp only [readdirCleanup]
  split
  · rfl
  · split
    · exact length_setEntry s.useDir _ fun d => { d with name := none }
    · rfl

@[simp] theorem reports_release (s : State) (i : Nat) (result : Int) :
    (s.release i result).reports = s.reports := by
  simp only [release]
  split
  · rfl
  · exact reports_readdirCleanup s result

@[simp] theorem length_release (s : State) (i : Nat) (result : Int) :
    (s.release i result).requests.length = s.requests.length := by
  simp only [release]
  split
  · exact length_setPhase s i .released
  · exact (length_setPhase (s.readdirCleanup result) i .released).trans
      (length_readdirCleanup s result)

end State

def machine (es : List Record) : Machine State Label where
  init := ⟨false, es, none, [], [], .idle, [], false, false, []⟩
  step := step

/-- The branches of `step`, one constructor each. -/
inductive Step (s : State) : Label → State → Prop where
  | callRead (iter : Bool) (hl : ∀ i, s.loop ≠ .issued i) :
      Step s (.callRead iter) (s.read iter)
  | callClose (hl : ∀ i, s.loop ≠ .issued i) : Step s .callClose s.close
  | takeEnd (i : Nat) (hi : s.phaseAt i = some .queued) (hr : readdir s.stream = none) :
      Step s (.take i) ({ s.useDir with stream := [] }.setPhase i (.taken none))
  | take (i : Nat) (e : Record) (rest : List Record) (hi : s.phaseAt i = some .queued)
      (hr : readdir s.stream = some (e, rest)) :
      Step s (.take i) ({ s.useDir with stream := rest }.setPhase i (.taken (some e)))
  | fail (i : Nat) (code : Int) (hi : s.phaseAt i = some .queued) (hc : code < 0) :
      Step s (.fail i code) (s.useDir.setPhase i (.done code))
  | failName (i : Nat) (code : Int) (e : Record) (hi : s.phaseAt i = some (.taken (some e)))
      (hc : code < 0) : Step s (.fail i code) (s.storeNull.setPhase i (.done code))
  | storeEnd (i : Nat) (hi : s.phaseAt i = some (.taken none)) :
      Step s (.store i) (s.useDir.setPhase i (.done 0))
  | store (i : Nat) (e : Record) (hi : s.phaseAt i = some (.taken (some e))) :
      Step s (.store i) ((s.storeRecord e).setPhase i (.done 1))
  | closedir (k : Nat) (hk : s.closes[k]? = some .queued) :
      Step s (.closedir k) { s.useDir with freed := true, closes := s.closes.set k .done }
  | deliver (i : Nat) (r : Request) (result : Int) (hl : s.loop = .idle)
      (hr : s.requests[i]? = some r) (hp : r.phase = .done result) :
      Step s (.deliver i) { s.setPhase i (.callback result) with
        loop := .user i
        reports := s.reports ++ [(i, State.report r.entry result)] }
  | nested (i : Nat) (result : Int) (hl : s.loop = .user i)
      (hi : s.phaseAt i = some (.callback result)) (hpos : 0 < result) :
      Step s .nested { s.read true with loop := .issued i }
  | cleanupUser (i : Nat) (r : Request) (result : Int) (hl : s.loop = .user i)
      (hr : s.requests[i]? = some r) (hp : r.phase = .callback result)
      (hlast : r.iter = true → result ≤ 0) : Step s .cleanup (s.release i result)
  | cleanupIssued (i : Nat) (result : Int) (hl : s.loop = .issued i)
      (hi : s.phaseAt i = some (.callback result)) : Step s .cleanup (s.release i result)
  | finishClose (k : Nat) (hl : s.loop = .idle) (hk : s.closes[k]? = some .done) :
      Step s (.finishClose k) { s with closes := s.closes.set k .finished }

theorem step_cases {s t : State} {l : Label} (hs : step s l = some t) : Step s l t := by
  cases l with
  | callRead iter =>
      simp only [step] at hs
      split at hs <;> cases hs
      exact .callRead iter fun i hi => by simp_all
  | callClose =>
      simp only [step] at hs
      split at hs <;> cases hs
      exact .callClose fun i hi => by simp_all
  | take i =>
      simp only [step] at hs
      split at hs
      · split at hs <;> cases hs
        · exact .takeEnd i ‹_› ‹_›
        · exact .take i _ _ ‹_› ‹_›
      · cases hs
  | fail i code =>
      simp only [step] at hs
      split at hs
      · split at hs <;> cases hs
        · exact .fail i code ‹_› ‹_›
        · exact .failName i code _ ‹_› ‹_›
      · cases hs
  | store i =>
      simp only [step] at hs
      split at hs <;> cases hs
      · exact .storeEnd i ‹_›
      · exact .store i _ ‹_›
  | closedir k =>
      simp only [step] at hs
      split at hs <;> cases hs
      exact .closedir k ‹_›
  | deliver i =>
      simp only [step] at hs
      split at hs
      · split at hs <;> cases hs
        exact .deliver i _ _ ‹_› ‹_› ‹_›
      · cases hs
  | nested =>
      simp only [step] at hs
      split at hs
      · split at hs
        · rename_i result entry hr
          split at hs <;> cases hs
          exact .nested _ result ‹_› (by simp [State.phaseAt, hr]) ‹_›
        · cases hs
      · cases hs
  | cleanup =>
      simp only [step] at hs
      split at hs
      · cases hs
      · split at hs
        · split at hs <;> cases hs
          exact .cleanupUser _ _ _ ‹_› ‹_› rfl fun hi => by simp_all
        · cases hs
      · split at hs <;> cases hs
        exact .cleanupIssued _ _ ‹_› ‹_›
  | finishClose k =>
      simp only [step] at hs
      split at hs <;> cases hs
      rename_i h
      exact .finishClose k h.1 h.2

end HxcppLuv.Directory
