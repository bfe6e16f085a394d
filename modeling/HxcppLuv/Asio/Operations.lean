import HxcppLuv.Core.Machine
import HxcppLuv.Asio.Result

/-!
What the user's callback of each operation of `cpp.asio` is called with. A
wrapper makes a libuv call and looks at what it returns, then, if the call was
accepted, waits for libuv to report the completion; a Haxe closure tests the
number it is given once more. An operation is followed from one libuv result to
the next, each of them any integer of the size of a C `int`.

`uv_tcp_init` in `TcpRequest.accept` and `uv_pipe_init` in `Process.spawn` always
return 0 and their results are not looked at, so they are no step here.
-/

namespace HxcppLuv.Asio

/-- What a `Result.Success` holds. -/
inductive Value where
  | file (handler : Int)
  | count (bytes : Int)
  | bytes
  | directory
  | entry
  | pipe
  | tty
  | socket
  | request
  | client
  | signal
  | signum (n : Int)
  | process
  deriving DecidableEq

inductive Reply where
  | result (r : Result Value Code)
  | option (code : Option Code)
  deriving DecidableEq

/-- The `Code` of a `Result.Error` or an `Option.Some`. -/
def Reply.code : Reply → Option Code
  | .result (.success _) => none
  | .result (.error code) => some code
  | .option code => code

def Reply.success (v : Value) : Reply := .result (.success v)

def Reply.error (code : Code) : Reply := .result (.error code)

/-- `call k` is the wrapper at its `k`-th libuv call, `pending` an accepted request. -/
inductive Phase where
  | call (k : Nat)
  | pending
  | finished
  deriving DecidableEq

/-- What a libuv result makes of an operation. -/
structure Turn where
  phase : Phase
  replies : List Reply

abbrev Operation := Phase → Int → Turn

/-- The value of a C comparison. -/
def cBool (b : Bool) : Int := if b then 1 else 0

/-- A wrapper with one callback, which gets the code of a refused call and what
every completion reports. -/
def withCallback (repeats : Bool) (callback : Int → Reply) : Operation
  | .call _, result =>
      if result < 0 then ⟨.finished, [callback result]⟩ else ⟨.pending, []⟩
  | .pending, result => ⟨if repeats then .pending else .finished, [callback result]⟩
  | .finished, _ => ⟨.finished, []⟩

/-- A wrapper with a success and a failure callback, both over the same user
callback, that goes on as `rest` says after a result that is no error. -/
def withCallbacks (afterError : Phase) (rest : Int → Turn) : Operation
  | .call _, result =>
      if result < 0 then ⟨.finished, [.error result]⟩ else ⟨.pending, []⟩
  | .pending, result => if result < 0 then ⟨afterError, [.error result]⟩ else rest result
  | .finished, _ => ⟨.finished, []⟩

/-- A wrapper that makes `n + 1` libuv calls and waits for none. -/
def withCalls (n : Nat) (value : Value) : Operation
  | .call k, result =>
      if result < 0 then ⟨.finished, [.error result]⟩
      else if k = n then ⟨.finished, [.success value]⟩
      else ⟨.call (k + 1), []⟩
  | _, _ => ⟨.finished, []⟩

namespace File

def «open» : Operation := withCallback false fun result =>
  if result ≥ 0 then .success (.file result) else .error result

def read : Operation := withCallbacks .finished fun result =>
  if result = 0 then ⟨.finished, [.success .bytes]⟩ else ⟨.call 0, []⟩

def write : Operation := withCallback false fun code =>
  if Code.isError code then .error code else .success (.count code)

def resultToOptionCode (result : Int) : Option Code := if result ≥ 0 then none else some result

def close : Operation := withCallback false fun result => .option (resultToOptionCode result)

end File

namespace Directory

/-- The parenthesis of `directory::open` closes after the comparison, so a refused
call is reported with the comparison's value. -/
def «open» : Operation
  | .call _, returned =>
      let result := cBool (returned < 0)
      if result ≠ 0 then ⟨.finished, [.error result]⟩ else ⟨.pending, []⟩
  | .pending, result =>
      if result < 0 then ⟨.finished, [.error result]⟩ else ⟨.finished, [.success .directory]⟩
  | .finished, _ => ⟨.finished, []⟩

def read : Operation := withCallbacks .finished fun result =>
  if result = 0 then ⟨.finished, [.error Code.eof]⟩ else ⟨.finished, [.success .entry]⟩

def iter : Operation := withCallbacks .finished fun result =>
  if result = 0 then ⟨.finished, [.error Code.eof]⟩ else ⟨.call 0, [.success .entry]⟩

def close : Operation := withCallback false fun code =>
  .option (if Code.isError code then some code else none)

end Directory

def Pipe.open : Operation := withCalls 1 .pipe

def TTY.open : Operation := withCalls 0 .tty

/-- The closure `WriteStream`, `DuplexStream`, `TcpSocket` and `TcpClient` each
have for a status. -/
def statusToOption (status : Int) : Reply := .option (if status < 0 then some status else none)

namespace Stream

/-- A result of 0 is the end of what can be read for now and not reported. -/
def read : Operation := withCallbacks .pending fun result =>
  ⟨.pending, if result > 0 then [.success .bytes] else []⟩

def write : Operation := withCallback false statusToOption

def shutdown : Operation := withCallback false statusToOption

end Stream

namespace TcpSocket

def bind : Operation := withCalls 2 .socket

def listen : Operation := withCallback true fun result =>
  if result < 0 then .error result else .success .request

def shutdown : Operation := withCallback false statusToOption

end TcpSocket

def TcpRequest.accept : Operation := withCalls 0 .client

namespace Signal

def «open» : Operation := withCalls 0 .signal

/-- As in `Directory.open`, the comparison comes before the assignment; here its
value goes through the closure, which takes it for a signal number. -/
def start : Operation
  | .call _, returned =>
      let result := cBool (returned < 0)
      if result ≠ 0 then ⟨.finished, [callback result]⟩ else ⟨.pending, []⟩
  | .pending, signum => ⟨.pending, [callback signum]⟩
  | .finished, _ => ⟨.finished, []⟩
where
  callback (result : Int) : Reply :=
    if result < 0 then .error result else .success (.signum result)

end Signal

def Process.spawn : Operation := withCalls 0 .process

/-- The operations of `cpp.asio` that report to a callback. -/
inductive OperationName where
  | fileOpen | fileRead | fileWrite | fileClose
  | directoryOpen | directoryRead | directoryIter | directoryClose
  | pipeOpen | ttyOpen
  | tcpBind | tcpListen | tcpShutdown | tcpAccept
  | signalOpen | signalStart
  | processSpawn
  | streamRead | streamWrite | streamShutdown
  deriving DecidableEq

def OperationName.operation : OperationName → Operation
  | fileOpen => File.open
  | fileRead => File.read
  | fileWrite => File.write
  | fileClose => File.close
  | directoryOpen => Directory.open
  | directoryRead => Directory.read
  | directoryIter => Directory.iter
  | directoryClose => Directory.close
  | pipeOpen => Pipe.open
  | ttyOpen => TTY.open
  | tcpBind => TcpSocket.bind
  | tcpListen => TcpSocket.listen
  | tcpShutdown => TcpSocket.shutdown
  | tcpAccept => TcpRequest.accept
  | signalOpen => Signal.open
  | signalStart => Signal.start
  | processSpawn => Process.spawn
  | streamRead => Stream.read
  | streamWrite => Stream.write
  | streamShutdown => Stream.shutdown

/-- One libuv result: where it met the operation and what the user was told. -/
structure Event where
  phase : Phase
  result : Int
  replies : List Reply
  deriving DecidableEq

structure Call where
  phase : Phase
  log : List Event
  deriving DecidableEq

/-- One call of an operation, from libuv result to libuv result. -/
def machine (o : OperationName) : Machine Call Int where
  init := ⟨.call 0, []⟩
  step s result :=
    if s.phase ≠ .finished then
      let turn := o.operation s.phase result
      some ⟨turn.phase, s.log ++ [⟨s.phase, result, turn.replies⟩]⟩
    else none

/-- A readdir that found nothing more. -/
def ReaddirEnd (o : OperationName) (e : Event) : Prop :=
  (o = .directoryRead ∨ o = .directoryIter) ∧ e.phase = .pending ∧ e.result = 0

instance (o : OperationName) (e : Event) : Decidable (ReaddirEnd o e) :=
  inferInstanceAs (Decidable (_ ∧ _ ∧ _))

/-- A reply says what libuv said: a success nothing negative, a failure the very
code, or `Code.eof` when a readdir has come to its end. -/
def Honest (o : OperationName) (e : Event) (reply : Reply) : Prop :=
  match reply.code with
  | none => 0 ≤ e.result
  | some code => code = e.result ∧ code < 0 ∨ code = Code.eof ∧ ReaddirEnd o e

instance (o : OperationName) (e : Event) (reply : Reply) : Decidable (Honest o e reply) := by
  simp only [Honest]
  split <;> infer_instance

def Faithful (o : OperationName) (e : Event) : Prop :=
  (e.result < 0 → e.replies.map Reply.code = [some e.result]) ∧
  (ReaddirEnd o e → e.replies.map Reply.code = [some Code.eof]) ∧
  ∀ reply ∈ e.replies, Honest o e reply

instance (o : OperationName) (e : Event) : Decidable (Faithful o e) :=
  inferInstanceAs (Decidable (_ ∧ _ ∧ _))

def FaithfulLog (o : OperationName) (s : Call) : Prop := ∀ e ∈ s.log, Faithful o e

instance (o : OperationName) : DecidablePred (FaithfulLog o) :=
  fun s => inferInstanceAs (Decidable (∀ e ∈ s.log, Faithful o e))

/-- No refused call of the two whose wrappers compare before they assign. -/
def Unslipped (o : OperationName) (s : Call) (result : Int) : Prop :=
  (o = .directoryOpen ∨ o = .signalStart) → (∃ k, s.phase = .call k) → 0 ≤ result

theorem isError_iff (code : Int) : Code.isError code = true ↔ code < 0 := by
  simp only [Code.isError, decide_eq_true_eq]

/-- A callback that tells errors by their sign and passes their code on. -/
def PassesCode (callback : Int → Reply) : Prop :=
  ∀ result, (callback result).code = if result < 0 then some result else none

section

variable {o : OperationName} {phase : Phase} {result : Int}

theorem faithful_nil (hpos : 0 ≤ result) (hend : ¬ ReaddirEnd o ⟨phase, result, []⟩) :
    Faithful o ⟨phase, result, []⟩ := by
  refine ⟨fun hneg => ?_, fun h => absurd h hend, fun reply h => by cases h⟩
  change result < 0 at hneg
  omega

/-- The code of an error, passed on once. -/
theorem faithful_error {reply : Reply} (hneg : result < 0) (hcode : reply.code = some result) :
    Faithful o ⟨phase, result, [reply]⟩ := by
  refine ⟨fun _ => ?_, fun h => ?_, fun r hr => ?_⟩
  · simp only [List.map_cons, List.map_nil, hcode]
  · have : result = 0 := h.2.2
    omega
  · rw [List.mem_singleton.mp hr]
    simp only [Honest, hcode]
    exact .inl ⟨trivial, hneg⟩

theorem faithful_success {reply : Reply} (hpos : 0 ≤ result) (hcode : reply.code = none)
    (hend : ¬ ReaddirEnd o ⟨phase, result, [reply]⟩) : Faithful o ⟨phase, result, [reply]⟩ := by
  refine ⟨fun hneg => ?_, fun h => absurd h hend, fun r hr => ?_⟩
  · change result < 0 at hneg
    omega
  · rw [List.mem_singleton.mp hr]
    simp only [Honest, hcode]
    exact hpos

theorem faithful_withCallback {repeats : Bool} {callback : Int → Reply}
    (hc : PassesCode callback) (ho : o ≠ .directoryRead ∧ o ≠ .directoryIter) :
    Faithful o ⟨phase, result, (withCallback repeats callback phase result).replies⟩ ∨
      phase = .finished := by
  have hend (replies : List Reply) : ¬ ReaddirEnd o ⟨phase, result, replies⟩ :=
    fun h => h.1.elim ho.1 ho.2
  have hcode := hc result
  cases phase with
  | call k =>
      refine .inl ?_
      simp only [withCallback]
      by_cases hneg : result < 0
      · rw [if_pos hneg] at hcode ⊢
        exact faithful_error hneg hcode
      · rw [if_neg hneg]
        exact faithful_nil (Int.not_lt.mp hneg) (hend [])
  | pending =>
      refine .inl ?_
      simp only [withCallback]
      by_cases hneg : result < 0
      · rw [if_pos hneg] at hcode
        exact faithful_error hneg hcode
      · rw [if_neg hneg] at hcode
        exact faithful_success (Int.not_lt.mp hneg) hcode (hend _)
  | finished => exact .inr rfl

theorem faithful_withCallbacks {afterError : Phase} {rest : Int → Turn}
    (hrest : 0 ≤ result → Faithful o ⟨.pending, result, (rest result).replies⟩) :
    Faithful o ⟨phase, result, (withCallbacks afterError rest phase result).replies⟩ ∨
      phase = .finished := by
  cases phase with
  | call k =>
      refine .inl ?_
      simp only [withCallbacks]
      split
      · exact faithful_error ‹_› rfl
      · exact faithful_nil (Int.not_lt.mp ‹_›) fun h => by cases h.2.1
  | pending =>
      refine .inl ?_
      simp only [withCallbacks]
      split
      · exact faithful_error ‹_› rfl
      · exact hrest (Int.not_lt.mp ‹_›)
  | finished => exact .inr rfl

theorem faithful_withCalls {n k : Nat} {value : Value} :
    Faithful o ⟨.call k, result, (withCalls n value (.call k) result).replies⟩ := by
  have hend (replies : List Reply) : ¬ ReaddirEnd o ⟨.call k, result, replies⟩ :=
    fun h => by cases h.2.1
  simp only [withCalls]
  split
  · exact faithful_error ‹_› rfl
  · split
    · exact faithful_success (Int.not_lt.mp ‹_›) rfl (hend _)
    · exact faithful_nil (Int.not_lt.mp ‹_›) (hend [])

end

theorem passesCode_status : PassesCode statusToOption := fun _ => rfl

theorem passesCode_open : PassesCode fun result =>
    if result ≥ 0 then .success (.file result) else .error result := by
  intro result
  by_cases h : result < 0
  · simp only [if_pos h, if_neg (Int.not_le.mpr h), Reply.error, Reply.code]
  · simp only [if_neg h, if_pos (Int.not_lt.mp h), Reply.success, Reply.code]

theorem passesCode_write : PassesCode fun code =>
    if Code.isError code then .error code else .success (.count code) := by
  intro code
  simp only [isError_iff]
  split <;> rfl

theorem passesCode_close : PassesCode fun result => .option (File.resultToOptionCode result) := by
  intro result
  by_cases h : result < 0
  · simp only [File.resultToOptionCode, Reply.code, if_pos h, if_neg (Int.not_le.mpr h)]
  · simp only [File.resultToOptionCode, Reply.code, if_neg h, if_pos (Int.not_lt.mp h)]

theorem passesCode_directoryClose : PassesCode fun code =>
    .option (if Code.isError code then some code else none) := by
  intro code
  simp only [isError_iff, Reply.code]

theorem passesCode_listen : PassesCode fun result =>
    if result < 0 then .error result else .success .request := by
  intro result
  beta_reduce
  split <;> rfl

theorem passesCode_signal : PassesCode Signal.start.callback := by
  intro result
  simp only [Signal.start.callback]
  split <;> rfl

/-- A refused call of the two that slip tells the user of the value of a
comparison: as a code, or as a signal. -/
theorem slip_unfaithful {o : OperationName} (ho : o = .directoryOpen ∨ o = .signalStart)
    {k : Nat} {result : Int} (hneg : result < 0) :
    ¬ Faithful o ⟨.call k, result, (o.operation (.call k) result).replies⟩ := by
  have hbool : cBool (decide (result < 0)) = 1 := by simp [cBool, hneg]
  intro h
  have hmap := h.1 hneg
  cases ho with
  | inl ho =>
      subst ho
      simp only [OperationName.operation, Directory.open, hbool] at hmap
      simp [Reply.error, Reply.code] at hmap
      change 1 = result at hmap
      omega
  | inr ho =>
      subst ho
      simp only [OperationName.operation, Signal.start, hbool] at hmap
      simp [Signal.start.callback, Reply.success, Reply.code] at hmap

/-- The operations that wait for no completion. -/
def OperationName.synchronous : OperationName → Bool
  | pipeOpen | ttyOpen | tcpBind | tcpAccept | signalOpen | processSpawn => true
  | _ => false

theorem withCalls_phase (n : Nat) (value : Value) (phase : Phase) (result : Int) :
    (withCalls n value phase result).phase ≠ .pending := by
  cases phase with
  | call k =>
      simp only [withCalls]
      split
      · simp
      · split <;> simp
  | pending | finished => simp [withCalls]

theorem phase_of_synchronous {o : OperationName} (ho : o.synchronous = true) (phase : Phase)
    (result : Int) : (o.operation phase result).phase ≠ .pending := by
  cases o with
  | pipeOpen | ttyOpen | tcpBind | tcpAccept | signalOpen | processSpawn =>
      exact withCalls_phase _ _ phase result
  | _ => cases ho

theorem faithful_readdir {o : OperationName} {result : Int} {v : Value} {next : Phase}
    (ho : o = .directoryRead ∨ o = .directoryIter) (hpos : 0 ≤ result) :
    Faithful o ⟨.pending, result, (if result = 0 then (⟨.finished, [.error Code.eof]⟩ : Turn)
      else ⟨next, [.success v]⟩).replies⟩ := by
  by_cases hzero : result = 0
  · rw [if_pos hzero]
    subst hzero
    refine ⟨fun h => absurd h (by decide), fun _ => rfl, fun reply hr => ?_⟩
    rw [List.mem_singleton.mp hr]
    exact .inr ⟨rfl, ho, rfl, rfl⟩
  · rw [if_neg hzero]
    exact faithful_success hpos rfl fun h => hzero h.2.2

/-- A call that is not refused does not meet the slip in `directory::open`. -/
theorem faithful_directoryOpen {phase : Phase} {result : Int} (hphase : phase ≠ .finished)
    (hG : ∀ k, phase = .call k → 0 ≤ result) :
    Faithful .directoryOpen
      ⟨phase, result, (OperationName.directoryOpen.operation phase result).replies⟩ := by
  cases phase with
  | call k =>
      have hpos := hG k rfl
      simp only [OperationName.operation, Directory.open, decide_eq_false (Int.not_lt.mpr hpos)]
      exact faithful_nil hpos fun hend => by cases hend.2.1
  | pending =>
      simp only [OperationName.operation, Directory.open]
      split
      · exact faithful_error ‹_› rfl
      · exact faithful_success (Int.not_lt.mp ‹_›) rfl fun hend => by
          cases hend.1 <;> contradiction
  | finished => exact absurd rfl hphase

/-- Nor the one in `signal::start`. -/
theorem faithful_signalStart {phase : Phase} {result : Int} (hphase : phase ≠ .finished)
    (hG : ∀ k, phase = .call k → 0 ≤ result) :
    Faithful .signalStart
      ⟨phase, result, (OperationName.signalStart.operation phase result).replies⟩ := by
  cases phase with
  | call k =>
      have hpos := hG k rfl
      simp only [OperationName.operation, Signal.start, decide_eq_false (Int.not_lt.mpr hpos)]
      exact faithful_nil hpos fun hend => by cases hend.2.1
  | pending =>
      have hcode := passesCode_signal result
      simp only [OperationName.operation, Signal.start]
      by_cases hneg : result < 0
      · rw [if_pos hneg] at hcode
        exact faithful_error hneg hcode
      · rw [if_neg hneg] at hcode
        exact faithful_success (Int.not_lt.mp hneg) hcode fun hend => by
          cases hend.1 <;> contradiction
  | finished => exact absurd rfl hphase

/-- Where neither slip is met, every libuv result is passed on faithfully. -/
theorem faithful_turn {o : OperationName} {phase : Phase} {result : Int}
    (hphase : phase ≠ .finished) (hsync : o.synchronous = true → phase ≠ .pending)
    (hG : (o = .directoryOpen ∨ o = .signalStart) → (∃ k, phase = .call k) → 0 ≤ result) :
    Faithful o ⟨phase, result, (o.operation phase result).replies⟩ := by
  have hcall (ho : o.synchronous = true) : ∃ k, phase = .call k := by
    cases phase with
    | call k => exact ⟨k, rfl⟩
    | pending => exact absurd rfl (hsync ho)
    | finished => exact absurd rfl hphase
  cases o with
  | fileOpen => exact (faithful_withCallback passesCode_open (by simp)).resolve_right hphase
  | fileWrite => exact (faithful_withCallback passesCode_write (by simp)).resolve_right hphase
  | fileClose => exact (faithful_withCallback passesCode_close (by simp)).resolve_right hphase
  | directoryClose =>
      exact (faithful_withCallback passesCode_directoryClose (by simp)).resolve_right hphase
  | tcpListen => exact (faithful_withCallback passesCode_listen (by simp)).resolve_right hphase
  | tcpShutdown | streamWrite | streamShutdown =>
      exact (faithful_withCallback passesCode_status (by simp)).resolve_right hphase
  | fileRead =>
      refine (faithful_withCallbacks fun h => ?_).resolve_right hphase
      split
      · exact faithful_success h rfl fun hend => by cases hend.1 <;> contradiction
      · exact faithful_nil h fun hend => by cases hend.1 <;> contradiction
  | directoryRead =>
      exact (faithful_withCallbacks fun h => faithful_readdir (.inl rfl) h).resolve_right hphase
  | directoryIter =>
      exact (faithful_withCallbacks fun h => faithful_readdir (.inr rfl) h).resolve_right hphase
  | streamRead =>
      refine (faithful_withCallbacks fun h => ?_).resolve_right hphase
      split
      · exact faithful_success h rfl fun hend => by cases hend.1 <;> contradiction
      · exact faithful_nil h fun hend => by cases hend.1 <;> contradiction
  | pipeOpen | ttyOpen | tcpBind | tcpAccept | signalOpen | processSpawn =>
      obtain ⟨k, rfl⟩ := hcall rfl
      exact faithful_withCalls
  | directoryOpen => exact faithful_directoryOpen hphase fun k hk => hG (.inl rfl) ⟨k, hk⟩
  | signalStart => exact faithful_signalStart hphase fun k hk => hG (.inr rfl) ⟨k, hk⟩

structure CallInv (o : OperationName) (s : Call) : Prop where
  log : FaithfulLog o s
  phase : o.synchronous = true → s.phase ≠ .pending

theorem callInv_init (o : OperationName) : CallInv o (machine o).init where
  log e he := by cases he
  phase _ h := by cases h

theorem callInv_step {o : OperationName} {s t : Call} {result : Int} (h : CallInv o s)
    (hG : Unslipped o s result) (hs : (machine o).step s result = some t) : CallInv o t := by
  obtain ⟨hphase, rfl⟩ := Machine.of_guard hs
  refine ⟨fun e he => ?_, fun ho => phase_of_synchronous ho s.phase result⟩
  rw [List.mem_append, List.mem_singleton] at he
  cases he with
  | inl he => exact h.log e he
  | inr he => exact he ▸ faithful_turn hphase h.phase hG

/-- An operation reports every libuv result faithfully in exactly the runs in which
neither `uv_fs_opendir` nor `uv_signal_start` refuses the call. -/
theorem faithful_iff_unslipped (o : OperationName) (results : List Int) :
    (machine o).Always (FaithfulLog o) (machine o).init results ↔
      (machine o).Throughout (Unslipped o) (machine o).init results := by
  refine Machine.always_iff_throughout (fun _ h => h.log) (fun _ _ _ => callInv_step) ?_
    (callInv_init o)
  intro s result t h hG hs
  obtain ⟨-, rfl⟩ := Machine.of_guard hs
  obtain ⟨ho, ⟨k, hk⟩, hneg⟩ : (o = .directoryOpen ∨ o = .signalStart) ∧
      (∃ k, s.phase = .call k) ∧ result < 0 := by
    simpa only [Unslipped, Classical.not_imp, Int.not_le] using hG
  intro hlog
  have := hlog ⟨s.phase, result, (o.operation s.phase result).replies⟩
    (List.mem_append_right _ (List.mem_singleton_self _))
  rw [hk] at this
  exact slip_unfaithful ho hneg this

/-- `uv_signal_start` refuses a signal with `UV_EINVAL`, and the user is told that
signal 1 was delivered. -/
theorem refused_signal_reported_as_success :
    ¬ (machine .signalStart).Always (FaithfulLog .signalStart) (machine .signalStart).init [-22] ∧
    ((machine .signalStart).run (machine .signalStart).init [-22]).map
        (fun s => s.log.map Event.replies) = some [[.success (.signum 1)]] := by
  decide

end HxcppLuv.Asio
