import HxcppLuv.Core.Machine
import HxcppLuv.Core.Slots

/-!
A `TcpSocket` that listens: `uv__server_io` on the loop thread, and the user's
decisions on the `TcpRequest`s it announces, each taken once at any later time.
libuv keeps one accepted descriptor in the server and stops watching until
`uv_accept` takes it; a request knows the server alone, and its `reject` does
nothing. So every connection is announced and resolved in exactly the runs in
which none is rejected.

A connection is named by its place in the order of arrival. The queue of
descriptors sent over a pipe is empty for a socket and left out, as is the
shedding of connections when the process is out of descriptors. `uv__stream_open`
on a client just initialised does not fail.
-/

namespace HxcppLuv.Tcp.Server

/-- What became of a `TcpRequest`: the connection its `TcpClient` was opened on,
or the code `uv_accept` returned. -/
inductive Decision where
  | undecided
  | accepted (client : Nat)
  | failed (code : Int)
  | rejected
  deriving DecidableEq

/-- A `TcpRequest` and the connection it was made for. -/
structure Request where
  conn : Nat
  decision : Decision
  deriving DecidableEq

structure State where
  arrived : Nat
  backlog : List Nat
  acceptedFd : Option Nat
  watching : Bool
  callback : Bool
  requests : List Request
  aborted : Bool
  deriving DecidableEq

inductive Label where
  | arrive
  | serverIo
  | callbackReturn
  | accept (i : Nat)
  | reject (i : Nat)
  deriving DecidableEq

def EAGAIN : Int := -11

/-- `uv__server_io` up to the connection callback, which makes a `TcpRequest`. -/
def serverIo (s : State) : Option State :=
  match s.callback, s.watching, s.backlog with
  | false, true, c :: rest =>
      -- the assertion on `accepted_fd` comes before the connection is taken
      if s.acceptedFd = none then
        some { s with
          backlog := rest
          acceptedFd := some c
          callback := true
          requests := s.requests ++ [⟨c, .undecided⟩] }
      else some { s with aborted := true }
  | _, _, _ => none

/-- The rest of `uv__server_io`. -/
def callbackReturn (s : State) : Option State :=
  if s.callback then
    some { s with callback := false, watching := s.watching && s.acceptedFd.isNone }
  else none

/-- `tcp::accept` with `uv_accept`, for a request that is undecided. -/
def accept (s : State) (i : Nat) : Option State :=
  s.requests[i]?.bind fun r =>
    if r.decision = .undecided then
      match s.acceptedFd with
      | none => some { s with requests := s.requests.set i { r with decision := .failed EAGAIN } }
      | some c =>
          some { s with
            acceptedFd := none
            watching := true
            requests := s.requests.set i { r with decision := .accepted c } }
    else none

/-- `TcpRequest.reject`. -/
def reject (s : State) (i : Nat) : Option State :=
  s.requests[i]?.bind fun r =>
    if r.decision = .undecided then
      some { s with requests := s.requests.set i { r with decision := .rejected } }
    else none

def step (s : State) : Label → Option State
  | .arrive => some { s with arrived := s.arrived + 1, backlog := s.backlog ++ [s.arrived] }
  | .serverIo => serverIo s
  | .callbackReturn => callbackReturn s
  | .accept i => accept s i
  | .reject i => reject s i

def machine : Machine State Label where
  init := ⟨0, [], none, true, false, [], false⟩
  step := step

/-- Every connection taken is announced once and in order, a watching server takes the
next, whatever is accepted gets its own, a rejected one is gone, and a server with
nothing undecided watches. -/
structure Resolved (s : State) : Prop where
  announced : s.requests.map Request.conn ++ s.backlog = List.range s.arrived
  announces : s.callback = false → s.watching = true → ∀ c rest, s.backlog = c :: rest →
    ∃ t, step s .serverIo = some t ∧ t.requests = s.requests ++ [⟨c, .undecided⟩]
  returns : s.callback = true → ∃ t, step s .callbackReturn = some t ∧ t.callback = false
  accepts : ∀ i r, s.requests[i]? = some r → r.decision = .undecided →
    ∃ t, step s (.accept i) = some t ∧
      t.requests = s.requests.set i { r with decision := .accepted r.conn }
  yields : ∀ r ∈ s.requests, ∀ c, r.decision = .accepted c → c = r.conn
  succeeds : ∀ r ∈ s.requests, ∀ code, r.decision ≠ .failed code
  dropped : ∀ r ∈ s.requests, r.decision = .rejected →
    s.acceptedFd ≠ some r.conn ∧ ∀ q ∈ s.requests, q.decision ≠ .accepted r.conn
  watches : (∀ r ∈ s.requests, r.decision ≠ .undecided) → s.watching = true
  runs : s.aborted = false

def NoReject (_ : State) : Label → Prop
  | .reject _ => False
  | _ => True

instance : ∀ s l, Decidable (NoReject s l)
  | _, .reject _ => isFalse id
  | _, .arrive | _, .serverIo | _, .callbackReturn | _, .accept _ => isTrue trivial

/-- The request has got its own connection. -/
def Request.served (r : Request) : Prop := r.decision = .accepted r.conn

/-- The slot holds the connection of the last request, which alone is undecided,
or nothing is undecided. -/
inductive SlotInv (s : State) : Prop where
  | empty (hslot : s.acceptedFd = none) (hwatch : s.watching = true)
      (hserved : ∀ r ∈ s.requests, r.served)
  | full (c : Nat) (rs : List Request) (hslot : s.acceptedFd = some c)
      (hreq : s.requests = rs ++ [⟨c, .undecided⟩]) (hserved : ∀ r ∈ rs, r.served)

structure Inv (s : State) : Prop where
  announced : s.requests.map Request.conn ++ s.backlog = List.range s.arrived
  slot : SlotInv s
  busy : s.callback = false → s.watching = true → s.acceptedFd = none
  runs : s.aborted = false

theorem inv_init : Inv machine.init where
  announced := rfl
  slot := .empty rfl rfl (by intro r hr; cases hr)
  busy _ _ := rfl
  runs := rfl

theorem served_or_undecided {s : State} (h : SlotInv s) {r : Request} (hr : r ∈ s.requests) :
    r.served ∨ r.decision = .undecided := by
  cases h with
  | empty hslot hwatch hserved => exact .inl (hserved r hr)
  | full c rs hslot hreq hserved =>
      rw [hreq, List.mem_append, List.mem_singleton] at hr
      cases hr with
      | inl hr => exact .inl (hserved r hr)
      | inr hr => exact .inr (hr ▸ rfl)

/-- An undecided request is the last one, and the slot holds its connection. -/
theorem slot_of_undecided {s : State} (h : SlotInv s) {i : Nat} {r : Request}
    (hr : s.requests[i]? = some r) (hu : r.decision = .undecided) :
    s.acceptedFd = some r.conn ∧ ∃ rs, s.requests = rs ++ [r] ∧ i = rs.length ∧
      ∀ q ∈ rs, q.served := by
  cases h with
  | empty hslot hwatch hserved =>
      have := hserved r (List.mem_of_getElem? hr)
      rw [Request.served, hu] at this
      cases this
  | full c rs hslot hreq hserved =>
      rw [hreq, List.getElem?_append] at hr
      split at hr
      · have := hserved r (List.mem_of_getElem? hr)
        rw [Request.served, hu] at this
        cases this
      · rw [List.getElem?_singleton] at hr
        split at hr
        · cases hr
          exact ⟨hslot, rs, hreq, by omega, hserved⟩
        · cases hr

theorem resolved_of_inv {s : State} (h : Inv s) : Resolved s where
  announced := h.announced
  announces hcb hwatch c rest hback := by
    have hempty := h.busy hcb hwatch
    simp [step, serverIo, hcb, hwatch, hback, hempty]
  returns hcb := by simp [step, callbackReturn, hcb]
  accepts i r hr hu := by
    obtain ⟨hslot, -⟩ := slot_of_undecided h.slot hr hu
    simp [step, accept, hr, hu, hslot]
  yields r hr c hc := by
    cases served_or_undecided h.slot hr with
    | inl hs => exact Decision.accepted.inj (hc.symm.trans hs)
    | inr hu => rw [hu] at hc; cases hc
  succeeds r hr code hc := by
    cases served_or_undecided h.slot hr with
    | inl hs => rw [show r.decision = _ from hs] at hc; cases hc
    | inr hu => rw [hu] at hc; cases hc
  dropped r hr hc := by
    cases served_or_undecided h.slot hr with
    | inl hs => rw [show r.decision = _ from hs] at hc; cases hc
    | inr hu => rw [hu] at hc; cases hc
  watches hall := by
    cases h.slot with
    | empty hslot hwatch => exact hwatch
    | full c rs hslot hreq => exact absurd rfl (hall ⟨c, .undecided⟩ (by simp [hreq]))
  runs := h.runs

theorem inv_serverIo {s t : State} (h : Inv s) (hs : serverIo s = some t) : Inv t := by
  simp only [serverIo] at hs
  split at hs
  · rename_i c rest hcb hwatch hback
    have hempty := h.busy hcb hwatch
    rw [if_pos hempty] at hs
    cases hs
    have hserved : ∀ r ∈ s.requests, r.served := by
      cases h.slot with
      | empty _ _ hserved => exact hserved
      | full c' rs hslot => rw [hslot] at hempty; cases hempty
    exact {
      announced := by
        rw [List.map_append, List.append_assoc, ← h.announced, hback]
        rfl
      slot := .full c s.requests rfl rfl hserved
      busy := fun h => by cases h
      runs := h.runs }
  · cases hs

theorem inv_accept {s t : State} {i : Nat} (h : Inv s) (hs : accept s i = some t) : Inv t := by
  obtain ⟨r, hr, hs⟩ := Option.bind_eq_some_iff.mp hs
  split at hs
  · rename_i hu
    obtain ⟨hslot, rs, hreq, hi, hserved⟩ := slot_of_undecided h.slot hr hu
    rw [hslot] at hs
    cases hs
    have hset : s.requests.set i { r with decision := .accepted r.conn } =
        rs ++ [{ r with decision := .accepted r.conn }] := by
      rw [hreq, hi]
      simp
    exact {
      announced := by
        rw [← h.announced, hset, hreq, List.map_append, List.map_append]
        rfl
      slot := by
        refine .empty rfl rfl fun q hq => ?_
        rw [hset, List.mem_append, List.mem_singleton] at hq
        cases hq with
        | inl hq => exact hserved q hq
        | inr hq => exact hq ▸ rfl
      busy := fun _ _ => rfl
      runs := h.runs }
  · cases hs

theorem inv_callbackReturn {s t : State} (h : Inv s) (hs : callbackReturn s = some t) :
    Inv t := by
  simp only [callbackReturn] at hs
  split at hs
  · cases hs
    refine ⟨h.announced, ?_, fun _ hw => ?_, h.runs⟩
    · cases h.slot with
      | empty hslot hwatch hserved => exact .empty hslot (by simp [hslot, hwatch]) hserved
      | full c rs hslot hreq hserved => exact .full c rs hslot hreq hserved
    · exact Option.isNone_iff_eq_none.mp (Bool.and_eq_true_iff.mp hw).2
  · cases hs

theorem inv_step {s t : State} {l : Label} (h : Inv s) (hG : NoReject s l)
    (hs : step s l = some t) : Inv t := by
  cases l with
  | arrive =>
      cases hs
      refine ⟨?_, ?_, h.busy, h.runs⟩
      · rw [← List.append_assoc, h.announced, List.range_succ]
      · cases h.slot with
        | empty hslot hwatch hserved => exact .empty hslot hwatch hserved
        | full c rs hslot hreq hserved => exact .full c rs hslot hreq hserved
  | serverIo => exact inv_serverIo h hs
  | callbackReturn => exact inv_callbackReturn h hs
  | accept i => exact inv_accept h hs
  | reject i => cases hG

/-- A rejected connection stays in the slot. -/
theorem reject_breaks {s t : State} {i : Nat} (h : Inv s) (hs : reject s i = some t) :
    ¬ Resolved t := by
  obtain ⟨r, hr, hs⟩ := Option.bind_eq_some_iff.mp hs
  split at hs
  · rename_i hu
    cases hs
    obtain ⟨hslot, -⟩ := slot_of_undecided h.slot hr hu
    have hmem : { r with decision := .rejected } ∈
        s.requests.set i { r with decision := .rejected } :=
      List.mem_set (List.getElem?_eq_some_iff.mp hr).1 _
    intro hres
    exact (hres.dropped _ hmem rfl).1 hslot
  · cases hs

/-- Every connection is announced and resolved in exactly the runs without a reject. -/
theorem resolved_iff_noReject (as : List Label) :
    machine.Always Resolved machine.init as ↔ machine.Throughout NoReject machine.init as := by
  refine Machine.always_iff_throughout (fun _ => resolved_of_inv) (fun _ _ _ => inv_step) ?_
    inv_init
  intro s l t h hG hs
  cases l with
  | reject i => exact reject_breaks h hs
  | arrive | serverIo | callbackReturn | accept => exact absurd trivial hG

/-- One connection rejected: nothing is undecided, another has arrived, and the
server does not watch. -/
theorem reject_stops_watching : ¬ machine.Always Resolved machine.init
    [.arrive, .serverIo, .reject 0, .callbackReturn, .arrive] := by
  intro h
  have : ¬ machine.Always (fun s => (∀ r ∈ s.requests, r.decision ≠ .undecided) →
      s.watching = true) machine.init
      [.arrive, .serverIo, .reject 0, .callbackReturn, .arrive] := by decide
  exact this (h.mono fun _ hs => hs.watches)

end HxcppLuv.Tcp.Server
