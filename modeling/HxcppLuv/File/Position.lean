import HxcppLuv.File.Chain

/-!
The offsets of a chain that starts at an offset of the user's. `ReadRequestData` counts
them in an `int`, so a file of 2 GiB takes the counter to where it turns negative, and
libuv reads on at the descriptor's position.
-/

namespace HxcppLuv.File

/-- The bytes that are in the user's array. -/
def delivered : List Effect → Nat
  | [] => 0
  | .copyOut chunk :: es => chunk.length + delivered es
  | .allocate :: es | .submit _ _ _ :: es | .callbackSuccess _ :: es | .callbackError _ :: es
  | .deleteData :: es | .deleteRequest :: es => delivered es

/-- Each submission is for where the bytes before it end, and is not for libuv's own
position. -/
def Positioned : Int → List Effect → Prop
  | _, [] => True
  | p, .submit _ offset _ :: es => offset = p ∧ 0 ≤ offset ∧ Positioned p es
  | p, .copyOut chunk :: es => Positioned (p + chunk.length) es
  | p, .allocate :: es | p, .callbackSuccess _ :: es | p, .callbackError _ :: es
  | p, .deleteData :: es | p, .deleteRequest :: es => Positioned p es

instance decidablePositioned : ∀ p es, Decidable (Positioned p es)
  | _, [] => isTrue trivial
  | p, .submit _ offset _ :: es =>
      have := decidablePositioned p es
      inferInstanceAs (Decidable (offset = p ∧ 0 ≤ offset ∧ Positioned p es))
  | p, .copyOut chunk :: es => decidablePositioned (p + chunk.length) es
  | p, .allocate :: es | p, .callbackSuccess _ :: es | p, .callbackError _ :: es
  | p, .deleteData :: es | p, .deleteRequest :: es => decidablePositioned p es

/-- What a file of `size` bytes may answer at an offset. A negative one is for the
position of the descriptor, which may be anywhere. -/
def reads (size : Nat) (offset : Int) : Outcome → Bool
  | .chunk bytes => offset < 0 ∨ offset + bytes.length ≤ size
  | .eof => offset < 0 ∨ size ≤ offset
  | .error _ => true

def Chain.readsStep (size : Nat) (s : Chain) : Label → Option Chain
  | .work i o =>
      match s.flights[i]? with
      | some (.pending offset) => if reads size offset o then s.step (.work i o) else none
      | _ => none
  | .callback i rc => s.step (.callback i rc)

/-- `file::read` on a file of `size` bytes. -/
def Chain.sizedMachine (size file : Nat) (offset rc : Int) : Machine Chain Label where
  init := (Chain.machine file offset rc).init
  step := Chain.readsStep size

def Exact (offset : Int) (s : Chain) : Prop := Positioned offset s.log

instance (offset : Int) : DecidablePred (Exact offset) := fun s => decidablePositioned offset s.log

/-- A chunk does not end past what an `int` can count to. -/
def Fits (offset : Int) (s : Chain) : Label → Prop
  | .callback i _ => ∀ bytes, s.flights[i]? = some (.finished (.chunk bytes)) →
      offset + delivered s.log + bytes.length < 2 ^ 31
  | .work _ _ => True

theorem delivered_append (es fs : List Effect) :
    delivered (es ++ fs) = delivered es + delivered fs := by
  induction es with
  | nil => exact (Nat.zero_add _).symm
  | cons e es ih =>
      cases e with
      | copyOut chunk => simp only [List.cons_append, delivered, ih, Nat.add_assoc]
      | allocate | submit | callbackSuccess | callbackError | deleteData | deleteRequest =>
          exact ih

theorem positioned_append {es fs : List Effect} {p : Int} :
    Positioned p (es ++ fs) ↔ Positioned p es ∧ Positioned (p + delivered es) fs := by
  induction es generalizing p with
  | nil => simp [Positioned, delivered]
  | cons e es ih =>
      cases e with
      | copyOut chunk =>
          simp only [List.cons_append, Positioned, delivered, ih, Nat.cast_add, add_assoc]
      | submit => simp only [List.cons_append, Positioned, delivered, ih, and_assoc]
      | allocate | callbackSuccess | callbackError | deleteData | deleteRequest => exact ih

theorem nonneg_of_positioned {es : List Effect} {p : Int} (h : Positioned p es) {file : Nat}
    {offset rc : Int} (hmem : .submit file offset rc ∈ es) : 0 ≤ offset := by
  obtain ⟨before, after, rfl⟩ := List.append_of_mem hmem
  exact (positioned_append.mp h).2.2.1

section

variable {s : Chain} {i : Nat} {o : Outcome} {rc offset : Int} {rd : ReadRequestData}

/-- The callback of a chunk copies it out and asks for what comes after it. -/
theorem callback_chunk {bytes : List UInt8} (hrd : s.data = some rd) (hpos : 0 < bytes.length)
    (htake : s.buffer.take bytes.length = bytes) :
    ∃ rest, (s.callback i (.chunk bytes) rc).log = s.log ++ (.copyOut bytes ::
        .submit rd.file (cInt (rd.offset + bytes.length)) rc :: rest) ∧
      (∀ p, Positioned p rest) ∧ delivered rest = 0 ∧
      (∀ rd', (s.callback i (.chunk bytes) rc).data = some rd' →
        rd'.offset = cInt (rd.offset + bytes.length)) ∧
      ∀ f ∈ (s.callback i (.chunk bytes) rc).flights, f ∈ s.flights.eraseIdx i ∨
        f = .pending (cInt (rd.offset + bytes.length)) := by
  have hresult : 0 < (Outcome.chunk bytes).result := Int.natCast_pos.mpr hpos
  have htake' : s.buffer.take (Outcome.chunk bytes).result.toNat = bytes := htake
  simp only [Chain.callback, hrd]
  by_cases hrc : rc < 0
  · rw [readCallback_refused hresult hrc, htake']
    refine ⟨[.callbackError rc, .deleteData, .deleteRequest], rfl, fun _ => trivial, rfl, ?_, ?_⟩
    · intro rd' hrd'
      cases hrd'
    · intro f hf
      simp only [Chain.perform, List.filterMap_cons, Effect.flight?, hrc, if_true,
        List.filterMap_nil, List.append_nil] at hf
      exact .inl hf
  · rw [readCallback_pos hresult (Int.not_lt.mp hrc), htake']
    refine ⟨[], rfl, fun _ => trivial, rfl, ?_, ?_⟩
    · intro rd' hrd'
      cases hrd'
      rfl
    · intro f hf
      simp only [Chain.perform, List.filterMap_cons, Effect.flight?, hrc, if_false,
        List.filterMap_nil, List.mem_append, List.mem_singleton] at hf
      exact hf

/-- The callback of anything else submits nothing, and the chain ends. -/
theorem callback_last (hrd : s.data = some rd) (ho : o.valid = true)
    (hbytes : ∀ bytes, o ≠ .chunk bytes) :
    ∃ rest, (s.callback i o rc).log = s.log ++ rest ∧ (∀ p, Positioned p rest) ∧
      delivered rest = 0 ∧ (s.callback i o rc).data = none ∧
      (s.callback i o rc).flights = s.flights.eraseIdx i := by
  simp only [Chain.callback, hrd]
  cases o with
  | chunk bytes => exact absurd rfl (hbytes bytes)
  | eof =>
      rw [show Outcome.eof.result = 0 from rfl, readCallback_zero]
      exact ⟨_, rfl, fun _ => trivial, rfl, rfl, List.append_nil _⟩
  | error code =>
      have hneg : (Outcome.error code).result < 0 := by
        simpa [Outcome.valid, Outcome.result] using ho
      rw [readCallback_neg hneg]
      exact ⟨_, rfl, fun _ => trivial, rfl, rfl, List.append_nil _⟩

/-- While nothing has wrapped the counter stands at the next byte. -/
structure PositionInv (offset : Int) (s : Chain) : Prop where
  chain : ∃ r, ChainInv s r
  exact : Exact offset s
  next : ∀ rd, s.data = some rd → rd.offset = offset + delivered s.log ∧ rd.offset < 2 ^ 31

theorem positionInv_read (file : Nat) (rc : Int) (h0 : 0 ≤ offset) (hmax : offset < 2 ^ 31) :
    PositionInv offset (Chain.machine file offset rc).init := by
  refine ⟨⟨_, inv_read file offset rc⟩, ?_, ?_⟩
  all_goals
    simp only [Chain.machine, read]
    by_cases hrc : rc < 0
  · simp [hrc, Exact, Chain.perform, Chain.empty, Positioned, h0, Chain.exec]
  · simp [hrc, Exact, Chain.perform, Chain.empty, Positioned, h0, Chain.exec]
  · simp [hrc, Chain.perform]
  · simpa [hrc, Chain.perform, Chain.empty, delivered, Chain.exec] using hmax

theorem ChainInv.called {r : Report} (h : ChainInv s r)
    (hi : s.flights[i]? = some (.finished o)) : ∃ r', ChainInv (s.callback i o rc) r' := by
  obtain ⟨rfl, hr⟩ := h.finished hi
  exact ⟨_, inv_callback h hr⟩

theorem positionInv_work (h : PositionInv offset s) {at' : Int}
    (hi : s.flights[i]? = some (.pending at')) (ho : o.valid = true) :
    PositionInv offset (s.work i o) := by
  obtain ⟨r, hchain⟩ := h.chain
  obtain ⟨rfl, hr⟩ := hchain.pending hi
  exact ⟨⟨_, inv_work hchain hr ho⟩, h.exact, h.next⟩

/-- What the data and the buffer are when a callback comes. -/
theorem PositionInv.finished (h : PositionInv offset s)
    (hi : s.flights[i]? = some (.finished o)) :
    ∃ rd, s.data = some rd ∧ o.valid = true ∧
      (∀ bytes, o = .chunk bytes → s.buffer.take bytes.length = bytes) ∧
      rd.offset = offset + delivered s.log ∧ rd.offset < 2 ^ 31 := by
  obtain ⟨r, hchain⟩ := h.chain
  obtain ⟨-, hr⟩ := hchain.finished hi
  obtain ⟨rd, hrd, -⟩ := hchain.data (by simp only [Report.calls, hr])
  obtain ⟨hvalid, hwritten⟩ := hchain.written o hr
  exact ⟨rd, hrd, hvalid, hwritten, h.next rd hrd⟩

theorem length_of_valid {bytes : List UInt8} (h : (Outcome.chunk bytes).valid = true) :
    0 < bytes.length ∧ bytes.length ≤ bufferSize := by
  simpa [Outcome.valid] using h

theorem positionInv_last (h : PositionInv offset s) (hi : s.flights[i]? = some (.finished o))
    (ho : ∀ bytes, o ≠ .chunk bytes) : PositionInv offset (s.callback i o rc) := by
  obtain ⟨rd, hrd, hvalid, -⟩ := h.finished hi
  obtain ⟨_, hchain⟩ := h.chain
  obtain ⟨rest, hlog, hrest, -, hnone, -⟩ := callback_last hrd hvalid ho
  refine ⟨hchain.called hi, ?_, fun rd' hrd' => ?_⟩
  · rw [Exact, hlog, positioned_append]
    exact ⟨h.exact, hrest _⟩
  · rw [hnone] at hrd'
    cases hrd'

theorem positionInv_chunk {bytes : List UInt8} (h : PositionInv offset s) (h0 : 0 ≤ offset)
    (hi : s.flights[i]? = some (.finished (.chunk bytes)))
    (hfits : offset + delivered s.log + bytes.length < 2 ^ 31) :
    PositionInv offset (s.callback i (.chunk bytes) rc) := by
  obtain ⟨rd, hrd, hvalid, hwritten, hoffset, -⟩ := h.finished hi
  obtain ⟨_, hchain⟩ := h.chain
  obtain ⟨rest, hlog, hrest, hzero, hnext, -⟩ :=
    callback_chunk hrd (length_of_valid hvalid).1 (hwritten bytes rfl)
  have hcount : cInt (rd.offset + bytes.length) = offset + delivered s.log + bytes.length := by
    rw [hoffset]
    exact cInt_of_mem (by omega) hfits
  refine ⟨hchain.called hi, ?_, fun rd' hrd' => ?_⟩
  · rw [Exact, hlog, positioned_append, hcount]
    exact ⟨h.exact, rfl, by omega, hrest _⟩
  · rw [hnext rd' hrd', hcount, hlog, delivered_append]
    simp only [delivered, hzero]
    omega

/-- A chunk that ends past what an `int` can count to is followed by a negative offset. -/
theorem wraps {bytes : List UInt8} (h : PositionInv offset s)
    (hi : s.flights[i]? = some (.finished (.chunk bytes)))
    (hwrap : 2 ^ 31 ≤ offset + delivered s.log + bytes.length) :
    ¬ Exact offset (s.callback i (.chunk bytes) rc) := by
  obtain ⟨rd, hrd, hvalid, hwritten, hoffset, hmax⟩ := h.finished hi
  obtain ⟨hpos, hle⟩ := length_of_valid hvalid
  obtain ⟨rest, hlog, -⟩ := callback_chunk hrd hpos (hwritten bytes rfl)
  intro hexact
  rw [Exact, hlog, positioned_append] at hexact
  have hnonneg : 0 ≤ cInt (rd.offset + bytes.length) := hexact.2.2.1
  rw [cInt_eq] at hnonneg
  simp only [bufferSize] at hle
  omega

end

section

variable {size : Nat} {offset : Int} {s t : Chain} {l : Label}

/-- A file only decides what its reads come to. -/
theorem step_of_readsStep (h : s.readsStep size l = some t) : s.step l = some t := by
  cases l with
  | callback i rc => exact h
  | work i o =>
      simp only [Chain.readsStep] at h
      split at h
      · split at h
        · exact h
        · cases h
      · cases h

theorem positionInv_step (h0 : 0 ≤ offset) (h : PositionInv offset s) (hG : Fits offset s l)
    (hs : s.step l = some t) : PositionInv offset t := by
  cases l with
  | work i o =>
      simp only [Chain.step] at hs
      split at hs
      · obtain ⟨hvalid, rfl⟩ := Machine.of_guard hs
        exact positionInv_work h ‹_› hvalid
      · cases hs
  | callback i rc =>
      simp only [Chain.step] at hs
      split at hs
      · rename_i o hi
        cases hs
        cases o with
        | chunk bytes => exact positionInv_chunk h h0 hi (hG bytes hi)
        | eof | error => exact positionInv_last h hi fun bytes ho => by cases ho
      · cases hs

theorem not_exact_step (h : PositionInv offset s) (hG : ¬ Fits offset s l)
    (hs : s.step l = some t) : ¬ Exact offset t := by
  cases l with
  | work i o => exact absurd trivial hG
  | callback i rc =>
      simp only [Fits, not_forall, Int.not_lt] at hG
      obtain ⟨bytes, hi, hwrap⟩ := hG
      simp only [Chain.step, hi] at hs
      cases hs
      exact wraps h hi hwrap

/-- A submission reads at the next byte, and within the file. -/
def Flight.Within (size : Nat) (p : Int) : Flight → Prop
  | .pending offset => offset = p
  | .finished (.chunk bytes) => p + bytes.length ≤ size
  | .finished _ => True

structure SizedInv (size : Nat) (offset : Int) (s : Chain) : Prop extends
    PositionInv offset s where
  within : ∀ f ∈ s.flights, f.Within size (offset + delivered s.log)

theorem sizedInv_read (file : Nat) (rc : Int) (h0 : 0 ≤ offset) (hmax : offset < 2 ^ 31) :
    SizedInv size offset (Chain.sizedMachine size file offset rc).init where
  toPositionInv := positionInv_read file rc h0 hmax
  within := by
    intro f hf
    by_cases hrc : rc < 0
    · simp [Chain.sizedMachine, Chain.machine, read, hrc, Chain.perform, Chain.empty,
        List.filterMap_cons, Effect.flight?] at hf
    · simp only [Chain.sizedMachine, Chain.machine, read, hrc, if_false, Chain.perform,
        Chain.empty, List.filterMap_cons, Effect.flight?, List.filterMap_nil, List.nil_append,
        List.mem_singleton] at hf
      subst hf
      simp [Flight.Within, Chain.sizedMachine, Chain.machine, read, hrc, Chain.perform,
        Chain.empty, Chain.exec, delivered]

theorem fits_of_sizedInv (hsize : size < 2 ^ 31) (h : SizedInv size offset s) (l : Label) :
    Fits offset s l := by
  cases l with
  | work i o => trivial
  | callback i rc =>
      intro bytes hi
      have hwithin : offset + delivered s.log + bytes.length ≤ size :=
        h.within _ (List.mem_of_getElem? hi)
      omega

theorem within_of_reads {at' p : Int} {o : Outcome} (h0 : 0 ≤ p) (hat : at' = p)
    (h : reads size at' o = true) : (Flight.finished o).Within size p := by
  subst hat
  cases o with
  | chunk bytes =>
      simp only [reads, decide_eq_true_eq] at h
      exact h.resolve_left (Int.not_lt.mpr h0)
  | eof | error => trivial

theorem sizedInv_step (h0 : 0 ≤ offset) (hsize : size < 2 ^ 31) (h : SizedInv size offset s)
    (hs : s.readsStep size l = some t) : SizedInv size offset t where
  toPositionInv :=
    positionInv_step h0 h.toPositionInv (fits_of_sizedInv hsize h l) (step_of_readsStep hs)
  within := by
    cases l with
    | work i o =>
        simp only [Chain.readsStep] at hs
        split at hs
        · rename_i at' hi
          split at hs
          · rename_i hreads
            simp only [Chain.step, hi] at hs
            obtain ⟨-, rfl⟩ := Machine.of_guard hs
            intro f hf
            cases List.mem_or_eq_of_mem_set hf with
            | inl hf => exact h.within f hf
            | inr hf =>
                subst hf
                have hat : at' = offset + delivered s.log :=
                  h.within _ (List.mem_of_getElem? hi)
                exact within_of_reads (by omega) hat hreads
          · cases hs
        · cases hs
    | callback i rc =>
        simp only [Chain.readsStep, Chain.step] at hs
        split at hs
        · rename_i o hi
          cases hs
          obtain ⟨rd, hrd, hvalid, hwritten, hoffset, -⟩ := h.finished hi
          obtain ⟨_, hchain⟩ := h.chain
          obtain ⟨rfl, hflights, -⟩ := hchain.only hi
          cases o with
          | chunk bytes =>
              obtain ⟨rest, hlog, -, hzero, -, hnext⟩ :=
                callback_chunk hrd (length_of_valid hvalid).1 (hwritten bytes rfl)
              intro f hf
              have hfits := fits_of_sizedInv hsize h (.callback 0 rc) bytes hi
              rw [hflights, List.eraseIdx_cons_zero] at hnext
              obtain rfl := (hnext f hf).resolve_left List.not_mem_nil
              rw [hlog, delivered_append, hoffset, cInt_of_mem (by omega) hfits]
              simp only [Flight.Within, delivered, hzero]
              omega
          | eof | error =>
              obtain ⟨rest, -, -, -, -, hnone⟩ := callback_last hrd hvalid fun _ ho => by cases ho
              intro f hf
              rw [hnone, hflights] at hf
              cases hf
        · cases hs

end

/-- One more link, that reads a byte. -/
theorem link (size file : Nat) (offset rc : Int) {s : Chain} {rd : ReadRequestData}
    (hrd : s.data = some rd) (hflights : s.flights = [.pending rd.offset])
    (hsize : rd.offset + 1 ≤ size) :
    ∃ t rd', (Chain.sizedMachine size file offset rc).run s
        [.work 0 (.chunk [0]), .callback 0 0] = some t ∧
      t.data = some rd' ∧ rd'.offset = cInt (rd.offset + 1) ∧
      t.flights = [.pending rd'.offset] ∧ .submit rd.file rd'.offset 0 ∈ t.log := by
  have hreads : reads size rd.offset (.chunk [0]) = true := by
    simp [reads, hsize]
  have hbuffer : (s.work 0 (.chunk [0])).buffer.take 1 = [0] := rfl
  have hwork : s.readsStep size (.work 0 (.chunk [0])) = some (s.work 0 (.chunk [0])) := by
    simp [Chain.readsStep, Chain.step, hflights, hreads, Outcome.valid, bufferSize]
  have hflights' : (s.work 0 (.chunk [0])).flights = [.finished (.chunk [0])] := by
    simp [Chain.work, hflights]
  have hcallback : (s.work 0 (.chunk [0])).readsStep size (.callback 0 0) =
      some ((s.work 0 (.chunk [0])).callback 0 (.chunk [0]) 0) := by
    simp [Chain.readsStep, Chain.step, hflights']
  refine ⟨(s.work 0 (.chunk [0])).callback 0 (.chunk [0]) 0,
    ⟨cInt (rd.offset + 1), rd.file, rd.array ++ [0]⟩, ?_, ?_, rfl, ?_, ?_⟩
  · simp only [Machine.run, Chain.sizedMachine, hwork, Option.bind_some, hcallback]
  all_goals
    have hdata : (s.work 0 (.chunk [0])).data = some rd := hrd
    have hpos : readCallback rd (Outcome.chunk [0]).result (s.work 0 (.chunk [0])).buffer 0 = _ :=
      readCallback_pos (by decide) (Int.le_refl 0)
    simp only [Chain.callback, hdata, hpos]
  · rfl
  · simp only [Chain.perform, Chain.enter, hflights']
    rfl
  · simp [Chain.perform, Outcome.result]

/-- Links of one byte take the counter as far as an `int` and the file go. -/
theorem walk (size file : Nat) (offset rc : Int) (k : Nat) {s : Chain} {rd : ReadRequestData}
    (hrd : s.data = some rd) (hflights : s.flights = [.pending rd.offset]) (h0 : 0 ≤ rd.offset)
    (hmax : rd.offset + k < 2 ^ 31) (hsize : rd.offset + k ≤ size) :
    ∃ as t rd', (Chain.sizedMachine size file offset rc).run s as = some t ∧
      t.data = some rd' ∧ rd'.offset = rd.offset + k ∧ t.flights = [.pending rd'.offset] := by
  induction k generalizing s rd with
  | zero => exact ⟨[], s, rd, rfl, hrd, (Int.add_zero _).symm, hflights⟩
  | succ k ih =>
      push_cast at hmax hsize
      obtain ⟨u, rd', hrun, hrd', hnext, hflights', -⟩ :=
        link size file offset rc hrd hflights (by omega)
      rw [cInt_of_mem (by omega) (by omega)] at hnext
      obtain ⟨as, t, rd'', hrest, hrd'', hoffset, hflights''⟩ :=
        ih hrd' hflights' (by omega) (by omega) (by omega)
      refine ⟨[.work 0 (.chunk [0]), .callback 0 0] ++ as, t, rd'', ?_, hrd'', ?_, hflights''⟩
      · rw [Machine.run_append, hrun, Option.bind_some, hrest]
      · rw [hoffset, hnext]
        push_cast
        omega

/-- A file of 2 GiB has a run that asks for a negative offset. -/
theorem walks_past (file : Nat) {size : Nat} {offset : Int} (h0 : 0 ≤ offset)
    (hmax : offset < 2 ^ 31) (hsize : 2 ^ 31 ≤ size) :
    ∃ as, ¬ (Chain.sizedMachine size file offset 0).Always (Exact offset)
      (Chain.sizedMachine size file offset 0).init as := by
  obtain ⟨rd₀, hrd₀, hstart, hflights₀⟩ :
      ∃ rd, (Chain.sizedMachine size file offset 0).init.data = some rd ∧ rd.offset = offset ∧
        (Chain.sizedMachine size file offset 0).init.flights = [.pending rd.offset] :=
    ⟨⟨offset, file, []⟩, rfl, rfl, rfl⟩
  obtain ⟨as, t, rd, hrun, hrd, hoffset, hflights⟩ :=
    walk size file offset 0 (2 ^ 31 - 1 - offset).toNat hrd₀ hflights₀ (by omega) (by omega)
      (by omega)
  obtain ⟨u, rd', hlink, -, hnext, -, hmem⟩ :=
    link size file offset 0 hrd hflights (by omega)
  refine ⟨as ++ [.work 0 (.chunk [0]), .callback 0 0], fun halways => ?_⟩
  have hexact : Exact offset u := halways.last (by
    rw [Machine.run_append, hrun, Option.bind_some, hlink])
  have hnonneg := nonneg_of_positioned hexact hmem
  rw [hnext, cInt_eq] at hnonneg
  omega

/-- The offsets of a chain are exact in the runs whose chunks end where an `int` can count
to, and so in all runs just for the files that end there. -/
theorem position_exact_iff (size file : Nat) (offset : Int) (h0 : 0 ≤ offset)
    (hmax : offset < 2 ^ 31) :
    (∀ rc as, (Chain.sizedMachine size file offset rc).Always (Exact offset)
        (Chain.sizedMachine size file offset rc).init as ↔
      (Chain.sizedMachine size file offset rc).Throughout (Fits offset)
        (Chain.sizedMachine size file offset rc).init as) ∧
    ((∀ rc as, (Chain.sizedMachine size file offset rc).Always (Exact offset)
        (Chain.sizedMachine size file offset rc).init as) ↔ size < 2 ^ 31) := by
  refine ⟨fun rc as => ?_, ?_, ?_⟩
  · apply Machine.always_iff_throughout (I := PositionInv offset) fun s h => h.exact
    · intro s l t h hG hs
      exact positionInv_step h0 h hG (step_of_readsStep hs)
    · intro s l t h hG hs
      exact not_exact_step h hG (step_of_readsStep hs)
    · exact positionInv_read file rc h0 hmax
  · intro hall
    by_contra hsize
    obtain ⟨as, has⟩ := walks_past file h0 hmax (Nat.not_lt.mp hsize)
    exact has (hall 0 as)
  · intro hsize rc as
    apply Machine.always_of_step (I := SizedInv size offset) fun s h => h.exact
    · intro s l t h hs
      exact sizedInv_step h0 hsize h hs
    · exact sizedInv_read file rc h0 hmax

/-- A file of five bytes, read from its second. -/
theorem position_exact_five :
    (∀ rc as, (Chain.sizedMachine 5 0 1 rc).Always (Exact 1) (Chain.sizedMachine 5 0 1 rc).init as ↔
      (Chain.sizedMachine 5 0 1 rc).Throughout (Fits 1) (Chain.sizedMachine 5 0 1 rc).init as) ∧
    ((∀ rc as, (Chain.sizedMachine 5 0 1 rc).Always (Exact 1)
      (Chain.sizedMachine 5 0 1 rc).init as) ↔ 5 < 2 ^ 31) :=
  position_exact_iff 5 0 1 (by decide) (by decide)

/-- A file of 2 GiB, read from its last byte: the next link is for a negative offset. -/
theorem last_byte_wraps :
    ¬ (Chain.sizedMachine (2 ^ 31) 0 (2 ^ 31 - 1) 0).Always (Exact (2 ^ 31 - 1))
      (Chain.sizedMachine (2 ^ 31) 0 (2 ^ 31 - 1) 0).init
      [.work 0 (.chunk [0]), .callback 0 0] := by
  decide

end HxcppLuv.File
