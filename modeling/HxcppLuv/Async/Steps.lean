import HxcppLuv.Async.Model

/-!
What each step of the async handles does, with all that its guards say.
-/

namespace HxcppLuv.Async

/-- An access of `uv_async_send`, by the call `x` to the handle `k`. -/
inductive Accessed (c : Channel) (s : State) (i : Nat) (x : Sender) (k : Handle) : State → Prop
  | loaded (hx : x.next = .load) (hk : k.pending = true) : Accessed c s i x k (s.setNext i .returned)
  | load (hx : x.next = .load) (hk : k.pending = false) : Accessed c s i x k (s.setNext i .setBusy)
  | setBusy (hx : x.next = .setBusy) :
      Accessed c s i x k
        ((s.setHandle x.handle fun k => { k with busy := k.busy + 1 }).setNext i .exchange)
  | won (hx : x.next = .exchange) (hk : k.pending = false) :
      Accessed c s i x k
        ((s.setHandle x.handle fun k => { k with pending := true }).setNext i .write)
  | lost (hx : x.next = .exchange) (hk : k.pending = true) :
      Accessed c s i x k
        ((s.setHandle x.handle fun k => { k with pending := true }).setNext i .clearBusy)
  | write (hx : x.next = .write) : Accessed c s i x k ((s.wakeup c).setNext i .clearBusy)
  | clearBusy (hx : x.next = .clearBusy) :
      Accessed c s i x k
        ((s.setHandle x.handle fun k => { k with busy := k.busy - 1 }).setNext i .returned)

inductive Stepped (c : Channel) (s : State) : Label → State → Prop
  | init {callback : Bool} (hprogram : s.inProgram = true) :
      Stepped c s (.init callback) (s.init callback)
  | send {h : Nat} (hh : h < s.handles.length) :
      Stepped c s (.send h) { s with senders := s.senders ++ [⟨h, .load, false⟩] }
  | access {i : Nat} {x : Sender} {k : Handle} {t : State} (hi : s.senders[i]? = some x)
      (hk : s.handles[x.handle]? = some k) (ht : Accessed c s i x k t) : Stepped c s (.sender i) t
  | poll (hspinning : s.spinning = none) (hplace : s.place = .outside) (hbytes : 0 < s.bytes) :
      Stepped c s .poll (s.drain c)
  | read (hplace : s.place = .read) : Stepped c s .read (s.drain c)
  | move (hplace : s.place = .move) :
      Stepped c s .move { s with queue := s.asyncHandles, asyncHandles := [], place := .scan }
  | scan (hplace : s.place = .scan) : Stepped c s .scan s.turn
  | ret (hspinning : s.spinning = none) (hplace : s.place = .callback) :
      Stepped c s .ret { s with place := .scan }
  | close {h : Nat} {k : Handle} (hprogram : s.inProgram = true) (hk : s.handles[h]? = some k)
      (hphase : k.phase = .opened) : Stepped c s (.close h) (s.close h)
  | spin {h : Nat} {k : Handle} (hspinning : s.spinning = some h) (hk : s.handles[h]? = some k)
      (hbusy : k.busy = 0) : Stepped c s .spin (s.closed h)

variable {c : Channel} {s t : State}

theorem accessed {i : Nat} {x : Sender} {k : Handle} (hi : s.senders[i]? = some x)
    (hk : s.handles[x.handle]? = some k) (ht : s.access c i = some t) :
    Accessed c s i x k t := by
  simp only [State.access, hi, hk] at ht
  split at ht
  · cases ht
    split
    · exact .loaded ‹_› ‹_›
    · exact .load ‹_› (Bool.eq_false_iff.mpr ‹_›)
  · cases ht
    exact .setBusy ‹_›
  · cases ht
    split
    · exact .lost ‹_› ‹_›
    · exact .won ‹_› (Bool.eq_false_iff.mpr ‹_›)
  · cases ht
    exact .write ‹_›
  · cases ht
    exact .clearBusy ‹_›
  · cases ht

theorem stepped {a : Label} (ht : step c s a = some t) : Stepped c s a t := by
  cases a with
  | init callback =>
      obtain ⟨hprogram, rfl⟩ := Machine.of_guard ht
      exact .init hprogram
  | send h =>
      obtain ⟨hh, rfl⟩ := Machine.of_guard ht
      exact .send hh
  | sender i =>
      simp only [step] at ht
      cases hi : s.senders[i]? with
      | none => simp [State.access, hi] at ht
      | some x =>
          cases hk : s.handles[x.handle]? with
          | none => simp [State.access, hi, hk] at ht
          | some k => exact .access hi hk (accessed hi hk ht)
  | poll =>
      obtain ⟨⟨hspinning, hplace, hbytes⟩, rfl⟩ := Machine.of_guard ht
      exact .poll hspinning hplace hbytes
  | read =>
      obtain ⟨hplace, rfl⟩ := Machine.of_guard ht
      exact .read hplace
  | move =>
      obtain ⟨hplace, rfl⟩ := Machine.of_guard ht
      exact .move hplace
  | scan =>
      obtain ⟨hplace, rfl⟩ := Machine.of_guard ht
      exact .scan hplace
  | ret =>
      obtain ⟨⟨hspinning, hplace⟩, rfl⟩ := Machine.of_guard ht
      exact .ret hspinning hplace
  | close h =>
      obtain ⟨⟨hprogram, hphase⟩, rfl⟩ := Machine.of_guard ht
      obtain ⟨k, hk, hphase⟩ := Option.map_eq_some_iff.mp hphase
      exact .close hprogram hk hphase
  | spin =>
      simp only [step] at ht
      split at ht
      · cases ht
      · obtain ⟨hbusy, rfl⟩ := Machine.of_guard ht
        obtain ⟨k, hk, hbusy⟩ := Option.map_eq_some_iff.mp hbusy
        exact .spin ‹_› hk hbusy

end HxcppLuv.Async
