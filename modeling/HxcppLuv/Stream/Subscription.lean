import HxcppLuv.Stream.Model

/-!
A stream has at most one subscription: the last read that was accepted, until a stop,
the end or an error. It gets every chunk taken from the system, and the end or the
error that ends it; a read that is rejected gets its own code and changes nothing. What is
due is read off the labels of a run alone, by a machine of its own, and the calls the
bindings make are those, whatever is called in the callbacks.
-/

namespace HxcppLuv.Stream

open Asio

/-- A stream as its user knows it: the read in force, whether the stream can be read, and the
calls of the user's callbacks that are due. `failing` is the callback of an error, in which
libuv has not stopped reading yet; `short` that of a chunk that did not fill the buffer, behind
which the end is found without reading when there was POLLHUP. -/
structure Subscription where
  current : Option Nat
  readable : Bool
  closing : Bool
  failing : Bool
  short : Bool
  hup : Bool
  reads : Nat
  calls : List Call
  deriving DecidableEq

namespace Subscription

def due (sub : Subscription) (i : Nat) (result : Result (List UInt8) Code) : Subscription :=
  { sub with calls := sub.calls ++ [⟨i, result⟩] }

/-- Why a read is rejected. -/
def reject (sub : Subscription) : Option Int :=
  if sub.closing then some EINVAL
  else if sub.current.isSome || sub.failing then some EALREADY
  else if !sub.readable then some ENOTCONN
  else none

/-- The read that is told of the end behind a short chunk. -/
def behind (sub : Subscription) : Option Nat :=
  if sub.short && sub.hup && !sub.closing then sub.current else none

/-- Nothing is taken from the system without a subscription. -/
def step (sub : Subscription) : Label → Option Subscription
  | .read =>
      match sub.reject with
      | some code => some { sub.due sub.reads (.error code) with reads := sub.reads + 1 }
      | none => some { sub with current := some sub.reads, reads := sub.reads + 1 }
  | .stop => some { sub with current := none, failing := false }
  | .close =>
      some { sub with current := none, failing := false, closing := true, readable := false }
  | .io hup => some { sub with hup := hup }
  | .os (.chunk bytes) =>
      sub.current.map fun i =>
        { sub.due i (.success bytes) with short := !decide (bytes.length = suggestedSize) }
  | .os .again => some sub
  | .os .end =>
      sub.current.map fun i => { sub.due i (.error Code.eof) with current := none }
  | .os (.error code) =>
      sub.current.map fun i =>
        { sub.due i (.error code) with current := none, readable := false, failing := true }
  | .leave => some sub
  | .ret =>
      match sub.behind with
      | some i => some { sub.due i (.error Code.eof) with current := none, short := false }
      | none => some { sub with failing := false, short := false }

def machine (readable : Bool) : Machine Subscription Label where
  init := ⟨none, readable, false, false, false, false, 0, []⟩
  step := step

end Subscription

/-- The calls made are those due. libuv reads the stream while there is a subscription, whose
callbacks are the stored ones, and in no other state but the callback of an error; it can take
whatever the system has, it is never stuck, and the user can read and stop. -/
structure Subscribed (s : State) (sub : Subscription) : Prop where
  calls : s.calls = sub.calls
  reads : s.reads = sub.reads
  reading : s.reading = (sub.current.isSome || sub.failing)
  current : ∀ i, sub.current = some i → s.data.success = some i ∧ s.data.failure = some i
  stored : s.reading = true → s.data.success.isSome = true ∧ s.data.failure.isSome = true
  takes : ∀ count hup, s.control = .loop (count + 1) hup → sub.current.isSome = true →
    ∀ r : Os, r.valid = true → (step s (.os r)).isSome = true
  heard : s.atUser = true → (step s .read).isSome = true ∧ (step s .stop).isSome = true
  polls : s.control = .poll → s.closing = false → ∀ hup, (step s (.io hup)).isSome = true
  leaves : ∀ count hup, s.control = .loop count hup → count = 0 ∨ sub.current = none →
    (step s .leave).isSome = true
  returns : s.atUser = true → s.control ≠ .poll → (step s .ret).isSome = true
  sound : s.crashed = false

namespace Control

def isError : Control → Bool
  | .inError _ => true
  | _ => false

def short : Control → Bool
  | .inChunk false _ _ => true
  | _ => false

/-- POLLHUP, while `uv__read` is under way. -/
def hup? : Control → Option Bool
  | .loop _ hup | .inChunk _ _ hup | .inEnd hup | .inError hup => some hup
  | .poll | .inHup => none

end Control

/-- Where libuv is agrees with what is due there; in an error callback its flag outlives the
subscription. -/
structure Inv (s : State) (sub : Subscription) : Prop where
  calls : s.calls = sub.calls
  reads : s.reads = sub.reads
  readable : s.readable = sub.readable
  closing : s.closing = sub.closing
  reading : s.reading = (sub.current.isSome || sub.failing)
  failing : sub.failing = (s.reading && s.control.isError)
  error : s.control.isError = true → sub.current = none ∧ s.readable = false
  short : sub.short = s.control.short
  hup : ∀ hup, s.control.hup? = some hup → sub.hup = hup ∧ s.readPartial = false
  current : ∀ i, sub.current = some i → s.data.success = some i ∧ s.data.failure = some i
  stored : s.reading = true → s.readCb = true ∧ s.readEof = false ∧
    s.data.success.isSome = true ∧ s.data.failure.isSome = true
  sound : s.crashed = false

theorem inv_init (readable : Bool) :
    Inv (machine readable).init (Subscription.machine readable).init where
  calls := rfl
  reads := rfl
  readable := rfl
  closing := rfl
  reading := rfl
  failing := rfl
  error h := by cases h
  short := rfl
  hup hup h := by cases h
  current i h := by cases h
  stored h := by cases h
  sound := rfl

section

variable {s t : State} {sub : Subscription}

theorem Inv.takes (h : Inv s sub) {count : Nat} {hup : Bool}
    (hc : s.control = .loop (count + 1) hup) (hsome : sub.current.isSome = true) {r : Os}
    (hr : r.valid = true) : (step s (.os r)).isSome = true := by
  have hreading : s.reading = true := by rw [h.reading, hsome, Bool.true_or]
  simp [step, h.sound, hc, hreading, (h.stored hreading).1, hr]

theorem subscribed_of_inv (s : State) (sub : Subscription) (h : Inv s sub) :
    Subscribed s sub where
  calls := h.calls
  reads := h.reads
  reading := h.reading
  current := h.current
  stored hr := ⟨(h.stored hr).2.2.1, (h.stored hr).2.2.2⟩
  takes _ _ hc hsome _ hr := h.takes hc hsome hr
  heard huser := by simp [step, h.sound, huser]
  polls hpoll hopen hup := by simp [step, h.sound, hpoll, hopen]
  leaves count hup hc hdone := by
    have hquiet : ¬ (s.readCb = true ∧ s.reading = true ∧ count ≠ 0) := by
      rintro ⟨-, hreading, hcount⟩
      cases hdone with
      | inl hzero => exact hcount hzero
      | inr hnone =>
          rw [h.reading, hnone, h.failing, hc] at hreading
          simp [Control.isError] at hreading
    simp [step, h.sound, hc, if_neg hquiet]
  returns huser hcall := by
    simp only [step, h.sound, State.ret]
    cases hc : s.control with
    | poll => exact absurd hc hcall
    | loop count hup => simp [State.atUser, hc] at huser
    | inChunk full count hup => cases full <;> rfl
    | inEnd hup | inError hup | inHup => rfl
  sound := h.sound

theorem reject_neg {code : Int} (h : sub.reject = some code) : code < 0 := by
  unfold Subscription.reject at h
  split at h
  · cases h
    decide
  · split at h
    · cases h
      decide
    · split at h
      · cases h
        decide
      · cases h

/-- `uv_read_start` rejects what is to be rejected, with that code. -/
theorem Inv.uvReadStart_eq (h : Inv s sub) : s.uvReadStart =
    match sub.reject with
    | some code => (code, s)
    | none => (0, { s with reading := true, readEof := false, readCb := true }) := by
  unfold State.uvReadStart Subscription.reject
  rw [h.closing, h.reading, h.readable]
  cases sub.closing with
  | true => rfl
  | false =>
      cases sub.current.isSome || sub.failing with
      | true => rfl
      | false => cases sub.readable <;> rfl

/-- A read is accepted where none is in force, and not in the callback of an error. -/
theorem Inv.accepting (h : Inv s sub) (hreject : sub.reject = none) :
    sub.failing = false ∧ s.control.isError = false := by
  unfold Subscription.reject at hreject
  split at hreject
  · cases hreject
  · split at hreject
    · cases hreject
    · split at hreject
      · cases hreject
      · rename_i hsome hreadable
        constructor
        · cases hf : sub.failing with
          | false => rfl
          | true => simp [hf] at hsome
        · cases hc : s.control.isError with
          | false => rfl
          | true =>
              rw [← h.readable, (h.error hc).2] at hreadable
              simp at hreadable

theorem inv_read (h : Inv s sub) :
    ∃ sub', sub.step .read = some sub' ∧ Inv s.read sub' := by
  cases hreject : sub.reject with
  | some code =>
      refine ⟨_, by rw [Subscription.step, hreject], ?_⟩
      have hstart : s.uvReadStart = (code, s) := by rw [h.uvReadStart_eq, hreject]
      simp only [State.read, hstart, if_pos (reject_neg hreject)]
      exact {
        h with
        calls := by simp only [State.call, Subscription.due, h.calls, h.reads]
        reads := congrArg (· + 1) h.reads }
  | none =>
      refine ⟨_, by rw [Subscription.step, hreject], ?_⟩
      obtain ⟨hfailing, hcontrol⟩ := h.accepting hreject
      have hstart : s.uvReadStart =
          (0, { s with reading := true, readEof := false, readCb := true }) := by
        rw [h.uvReadStart_eq, hreject]
      simp only [State.read, hstart, Int.lt_irrefl, if_false]
      exact {
        h with
        reads := congrArg (· + 1) h.reads
        reading := rfl
        failing := by simp only [hfailing, hcontrol, Bool.and_false]
        error := fun hc => by rw [hcontrol] at hc; cases hc
        current := fun i hi => by
          cases hi
          rw [h.reads]
          exact ⟨rfl, rfl⟩
        stored := fun _ => ⟨rfl, rfl, rfl, rfl⟩ }

theorem uvReadStop_eq (s : State) :
    ∃ readCb, s.uvReadStop = { s with reading := false, readCb := readCb } := by
  cases hr : s.reading with
  | true => exact ⟨false, by simp [State.uvReadStop, hr]⟩
  | false =>
      refine ⟨s.readCb, ?_⟩
      simp only [State.uvReadStop, hr]
      exact congrArg (fun b => { s with reading := b }) hr

/-- A stop and a close end the subscription. -/
theorem inv_stop (h : Inv s sub) : ∃ sub', sub.step .stop = some sub' ∧ Inv s.stop sub' := by
  obtain ⟨readCb, heq⟩ := uvReadStop_eq s
  refine ⟨_, rfl, ?_⟩
  rw [State.stop, heq]
  exact {
    h with
    reading := rfl
    failing := rfl
    error := fun hc => ⟨rfl, (h.error hc).2⟩
    current := fun i hi => by cases hi
    stored := fun hr => by cases hr }

theorem inv_close (h : Inv s sub) : ∃ sub', sub.step .close = some sub' ∧ Inv s.close sub' := by
  obtain ⟨readCb, heq⟩ := uvReadStop_eq s
  refine ⟨_, rfl, ?_⟩
  rw [State.close, heq]
  exact {
    h with
    readable := rfl
    closing := rfl
    reading := rfl
    failing := rfl
    error := fun _ => ⟨rfl, rfl⟩
    current := fun i hi => by cases hi
    stored := fun hr => by cases hr }

theorem Inv.failing_eq (h : Inv s sub) (hc : s.control.isError = false) : sub.failing = false := by
  rw [h.failing, hc, Bool.and_false]

/-- A step of libuv's from one place to another, neither of them an error callback. -/
theorem Inv.goto (h : Inv s sub) (hc : s.control.isError = false) (c : Control)
    (hnew : c.isError = false) (readPartial hup : Bool)
    (hhup : ∀ b, c.hup? = some b → hup = b ∧ readPartial = false) :
    Inv { s with control := c, readPartial := readPartial }
      { sub with failing := false, short := c.short, hup := hup } where
  calls := h.calls
  reads := h.reads
  readable := h.readable
  closing := h.closing
  reading := h.failing_eq hc ▸ h.reading
  failing := by simp only [hnew, Bool.and_false]
  error he := by rw [hnew] at he; cases he
  short := rfl
  hup := hhup
  current := h.current
  stored := h.stored
  sound := h.sound

/-- The subscription in force, as `StreamData` holds it. -/
theorem Inv.subscribed (h : Inv s sub) (hr : s.reading = true) (hc : s.control.isError = false) :
    s.readCb = true ∧ ∃ i, sub.current = some i ∧ s.data.success = some i ∧
      s.data.failure = some i := by
  have hreading := h.reading
  rw [hr, h.failing_eq hc, Bool.or_false] at hreading
  obtain ⟨i, hi⟩ := Option.isSome_iff_exists.mp hreading.symm
  exact ⟨(h.stored hr).1, i, hi, h.current i hi⟩

/-- The end or an error is passed to the read in force, whose subscription it ends. -/
theorem inv_ended (h : Inv s sub) {i : Nat} (hr : s.reading = true) (hi : sub.current = some i)
    {code : Int} (hcode : code < 0) (c : Control)
    {reading readable readable' readEof readPartial failing short : Bool}
    (hreading : reading = c.isError)
    (hreadable : readable = readable' ∧ (c.isError = true → readable = false))
    (heof : c.isError = true → readEof = false) (hfailing : failing = c.isError)
    (hshort : short = c.short)
    (hhup : ∀ b, c.hup? = some b → sub.hup = b ∧ readPartial = false) :
    Inv { { s with
        reading := reading
        readable := readable
        readEof := readEof
        readPartial := readPartial }.readWrapper code with control := c }
      { sub.due i (.error code) with
        current := none, readable := readable', failing := failing, short := short } := by
  obtain ⟨hsuccess, hfailure⟩ := h.current i hi
  have heq : { s with
      reading := reading
      readable := readable
      readEof := readEof
      readPartial := readPartial }.readWrapper code = { s with
        reading := reading
        readable := readable
        readEof := readEof
        readPartial := readPartial
        calls := s.calls ++ [⟨i, .error code⟩] } := by
    simp [State.readWrapper, State.call, (h.stored hr).1, hcode, hfailure]
  rw [heq]
  exact {
    calls := by simp only [Subscription.due, h.calls]
    reads := h.reads
    readable := hreadable.1
    closing := h.closing
    reading := by simp only [hreading, hfailing, Option.isSome_none, Bool.false_or]
    failing := by simp only [hreading, hfailing, Bool.and_self]
    error := fun he => ⟨rfl, hreadable.2 he⟩
    short := hshort
    hup := hhup
    current := fun j hj => by cases hj
    stored := fun hb => ⟨(h.stored hr).1, heof (hreading.symm.trans hb), (h.stored hr).2.2⟩
    sound := h.sound }

/-- The buffer is nobody's business but the turn's that fills it. -/
theorem Inv.alloc (h : Inv s sub) (buffer : List UInt8) :
    Inv { s with data := { s.data with buffer := buffer } } sub := { h with }

/-- A chunk is copied out of the buffer to the read in force. -/
theorem inv_taken (h : Inv s sub) {i : Nat} (hr : s.reading = true) (hi : sub.current = some i)
    {bytes rest : List UInt8} (hpos : 0 < bytes.length) (hc : s.control.isError = false)
    (full : Bool) (count : Nat) {hup : Bool} (hhup : sub.hup = hup ∧ s.readPartial = false) :
    Inv { { s with data := { s.data with buffer := bytes ++ rest } }.readWrapper bytes.length with
        control := .inChunk full count hup }
      { sub.due i (.success bytes) with short := !full } := by
  obtain ⟨hsuccess, hfailure⟩ := h.current i hi
  have hneg : ¬ (bytes.length : Int) < 0 := by omega
  have heq : { s with data := { s.data with buffer := bytes ++ rest } }.readWrapper bytes.length =
      { s with
        data := { s.data with buffer := bytes ++ rest }
        calls := s.calls ++ [⟨i, .success bytes⟩] } := by
    simp [State.readWrapper, State.call, (h.stored hr).1, hneg, hpos, hsuccess]
  rw [heq]
  exact {
    h with
    calls := by simp only [Subscription.due, h.calls]
    failing := by
      simp only [Subscription.due, h.failing_eq hc]
      exact (Bool.and_false _).symm
    error := fun he => by cases he
    short := by cases full <;> rfl
    hup := fun b hb => by
      cases hb
      exact hhup }

theorem afterRead_poll (hp : s.readPartial = false) (hup : Bool) :
    s.afterRead hup = { s with control := .poll } := by
  simp [State.afterRead, hp]

/-- libuv is through with the stream, and has found no end behind what it read. -/
theorem inv_poll (h : Inv s sub) (hc : s.control.isError = false) (readPartial : Bool) :
    Inv { s with control := .poll, readPartial := readPartial }
      { sub with failing := false, short := false } :=
  h.goto hc .poll rfl readPartial sub.hup fun b hb => by cases hb

theorem Inv.still (h : Inv s sub) (hc : s.control.isError = false)
    (hs : s.control.short = false) : { sub with failing := false, short := false } = sub := by
  have hfailing := h.failing_eq hc
  have hshort := h.short.trans hs
  cases sub
  simp only at hfailing hshort
  simp only [hfailing, hshort]

/-- A turn that read nothing calls no one. -/
theorem inv_again (h : Inv s sub) (hcb : s.readCb = true) (hc : s.control.isError = false)
    (hs : s.control.short = false) (hp : s.readPartial = false) (hup : Bool) :
    Inv ((s.readWrapper 0).afterRead hup) sub := by
  have hzero : s.readWrapper 0 = s := by simp [State.readWrapper, hcb]
  rw [hzero, afterRead_poll hp]
  exact h.still hc hs ▸ inv_poll h hc s.readPartial

theorem inv_turn (h : Inv s sub) {count : Nat} {hup : Bool} {n : Nat}
    (hc : s.control = .loop n hup) (hr : s.reading = true) {r : Os} (hvalid : r.valid = true) :
    ∃ sub', sub.step (.os r) = some sub' ∧ Inv (s.turn count hup r) sub' := by
  have halloc := h.alloc (List.replicate suggestedSize 0)
  have herror : s.control.isError = false := by rw [hc]; rfl
  have hshort : s.control.short = false := by rw [hc]; rfl
  have hhup : sub.hup = hup ∧ s.readPartial = false := h.hup hup (by rw [hc]; rfl)
  have hhup' : ∀ b, some hup = some b → sub.hup = b ∧ s.readPartial = false := by
    intro b hb
    cases hb
    exact hhup
  obtain ⟨hcb, i, hi, -⟩ := h.subscribed hr herror
  cases r with
  | chunk bytes =>
      have hpos : 0 < bytes.length := by
        simp only [Os.valid, decide_eq_true_eq] at hvalid
        exact hvalid.1
      refine ⟨_, by rw [Subscription.step, hi]; rfl, ?_⟩
      exact inv_taken halloc hr hi hpos herror (bytes.length = suggestedSize) count hhup
  | again => exact ⟨_, rfl, inv_again halloc hcb herror hshort hhup.2 hup⟩
  | «end» =>
      refine ⟨_, by rw [Subscription.step, hi]; rfl, ?_⟩
      exact inv_ended halloc hr hi (by decide) (.inEnd hup) rfl
        ⟨h.readable, fun he => by cases he⟩ (fun he => by cases he) (h.failing_eq herror)
        (h.short.trans hshort) hhup'
  | error code =>
      have hneg : code < 0 := by simpa [Os.valid] using hvalid
      refine ⟨_, by rw [Subscription.step, hi]; rfl, ?_⟩
      have heof := (h.stored hr).2.1
      exact inv_ended halloc hr hi hneg (.inError hup) hr ⟨rfl, fun _ => rfl⟩ (fun _ => heof) rfl
        (h.short.trans hshort) hhup'

/-- The end is found behind a short chunk, where the subscription is still there. -/
theorem inv_short (h : Inv s sub) {n : Nat} {hup : Bool} (hc : s.control = .inChunk false n hup) :
    ∃ sub', sub.step .ret = some sub' ∧
      Inv ({ s with readPartial := true }.afterRead hup) sub' := by
  have herror : s.control.isError = false := by rw [hc]; rfl
  have hshort : sub.short = true := by rw [h.short, hc]; rfl
  have hhup := (h.hup hup (by rw [hc]; rfl)).1
  have hreading : s.reading = sub.current.isSome := by
    rw [h.reading, h.failing_eq herror, Bool.or_false]
  have hafter : State.afterRead { s with readPartial := true } hup =
      if !s.closing && hup && s.reading then
        { State.eof { s with readPartial := true } with control := .inHup }
      else { s with readPartial := true, control := .poll } := by
    cases hr : s.reading with
    | false => simp [State.afterRead]
    | true => simp [State.afterRead, (h.stored hr).2.1]
  rw [hafter]
  split
  · rename_i hfound
    rw [Bool.and_eq_true, Bool.and_eq_true] at hfound
    obtain ⟨⟨hopen, rfl⟩, hr⟩ := hfound
    obtain ⟨-, i, hi, -⟩ := h.subscribed hr herror
    have hbehind : sub.behind = some i := by
      rw [h.closing] at hopen
      simp only [Subscription.behind, hshort, hhup, hopen, hi]
      rfl
    refine ⟨_, by rw [Subscription.step, hbehind], ?_⟩
    exact inv_ended h hr hi (by decide) .inHup rfl ⟨h.readable, fun he => by cases he⟩
      (fun he => by cases he) (h.failing_eq herror) rfl fun b hb => by cases hb
  · rename_i hfound
    have hbehind : sub.behind = none := by
      unfold Subscription.behind
      split
      · rename_i hcond
        rw [Bool.and_eq_true, Bool.and_eq_true, hhup, ← h.closing] at hcond
        cases hcur : sub.current with
        | none => rfl
        | some i =>
            rw [hcur] at hreading
            simp [hcond.1.2, hcond.2, hreading] at hfound
      · rfl
    refine ⟨_, by rw [Subscription.step, hbehind], inv_poll h herror true⟩

theorem behind_of_short (h : sub.short = false) : sub.behind = none := by
  simp [Subscription.behind, h]

theorem inv_ret (h : Inv s sub) (hs : s.ret = some t) :
    ∃ sub', sub.step .ret = some sub' ∧ Inv t sub' := by
  have quiet : s.control.short = false →
      sub.step .ret = some { sub with failing := false, short := false } := by
    intro hshort
    rw [Subscription.step, behind_of_short (h.short.trans hshort)]
  simp only [State.ret] at hs
  split at hs <;> rename_i hc
  · rename_i count hup
    cases hs
    refine ⟨_, quiet (by rw [hc]; rfl), ?_⟩
    exact h.goto (by rw [hc]; rfl) (.loop count hup) rfl s.readPartial sub.hup fun b hb =>
      h.hup b (by rw [hc]; exact hb)
  · cases hs
    exact inv_short h hc
  · rename_i hup
    cases hs
    refine ⟨_, quiet (by rw [hc]; rfl), ?_⟩
    rw [afterRead_poll (h.hup hup (by rw [hc]; rfl)).2]
    exact inv_poll h (by rw [hc]; rfl) s.readPartial
  · rename_i hup
    cases hs
    refine ⟨_, quiet (by rw [hc]; rfl), ?_⟩
    have herror : s.control.isError = true := by rw [hc]; rfl
    have hpartial := (h.hup hup (by rw [hc]; rfl)).2
    rw [afterRead_poll (s := { s with reading := false }) hpartial]
    exact {
      h with
      reading := by rw [(h.error herror).1]; rfl
      failing := rfl
      error := fun he => by cases he
      short := rfl
      hup := fun b hb => by cases hb
      stored := fun hb => by cases hb }
  · cases hs
    exact ⟨_, quiet (by rw [hc]; rfl), inv_poll h (by rw [hc]; rfl) s.readPartial⟩
  · cases hs
  · cases hs

theorem inv_step (h : Inv s sub) {l : Label} (hs : step s l = some t) :
    ∃ sub', sub.step l = some sub' ∧ Inv t sub' := by
  have hsound : ¬ s.crashed = true := Bool.eq_false_iff.mp h.sound
  simp only [step, if_neg hsound] at hs
  cases l with
  | read =>
      obtain ⟨-, rfl⟩ := Machine.of_guard hs
      exact inv_read h
  | stop =>
      obtain ⟨-, rfl⟩ := Machine.of_guard hs
      exact inv_stop h
  | close =>
      obtain ⟨-, rfl⟩ := Machine.of_guard hs
      exact inv_close h
  | io hup =>
      obtain ⟨⟨hc, -⟩, rfl⟩ := Machine.of_guard hs
      have herror : s.control.isError = false := by rw [hc]; rfl
      refine ⟨_, rfl, ?_⟩
      have hgoto := h.goto herror (.loop 32 hup) rfl false hup fun b hb => by
        cases hb
        exact ⟨rfl, rfl⟩
      rw [← h.still herror (by rw [hc]; rfl)]
      exact hgoto
  | os r =>
      simp only at hs
      split at hs
      · rename_i hc
        obtain ⟨⟨-, hr, hvalid⟩, rfl⟩ := Machine.of_guard hs
        exact inv_turn h hc hr hvalid
      · cases hs
  | leave =>
      simp only at hs
      split at hs
      · rename_i hup hc
        split at hs
        · cases hs
        · cases hs
          have herror : s.control.isError = false := by rw [hc]; rfl
          refine ⟨_, rfl, ?_⟩
          rw [afterRead_poll (h.hup hup (by rw [hc]; rfl)).2]
          exact h.still herror (by rw [hc]; rfl) ▸ inv_poll h herror s.readPartial
      · cases hs
  | ret => exact inv_ret h hs

end

/-- Whatever is called and whatever arrives, in every state the calls made are those
due to the subscriptions. -/
theorem subscriptions_kept (readable : Bool) (as : List Label) :
    (machine readable).Follows (Subscription.machine readable) Subscribed
      (machine readable).init (Subscription.machine readable).init as :=
  Machine.follows_of_step (I := Inv) subscribed_of_inv (fun _ _ _ _ h hs => inv_step h hs)
    (inv_init readable)

end HxcppLuv.Stream
