import HxcppLuv.Stream.Write

/-!
What every run keeps of the writes of a stream: the system takes their bytes in the order of
the calls, each write is answered once and in that order, and what libuv counts as unsent is
what is unsent. A stream that waits for nothing owes nothing.
-/

namespace HxcppLuv.Stream.Write

theorem countBufs_eq_length (bufs : List (List UInt8)) :
    countBufs bufs = bufs.flatten.length := by
  induction bufs with
  | nil => rfl
  | cons buf bufs ih => simp [countBufs, ih]

theorem countBufs_take_le (bufs : List (List UInt8)) (n : Nat) :
    countBufs (bufs.take n) ≤ countBufs bufs := by
  induction bufs generalizing n with
  | nil => simp [countBufs]
  | cons buf bufs ih =>
      cases n with
      | zero => simp [countBufs]
      | succ n =>
          have := ih n
          simp only [List.take_succ_cons, countBufs]
          omega

theorem flatten_advance {bufs : List (List UInt8)} {n : Nat} (hn : n ≤ countBufs bufs) :
    (advance bufs n).flatten = bufs.flatten.drop n := by
  induction bufs generalizing n with
  | nil => simp [advance]
  | cons buf bufs ih =>
      simp only [countBufs] at hn
      unfold advance
      by_cases hlt : n < buf.length
      · simp only [hlt, if_true, List.flatten_cons]
        rw [List.drop_append_of_le_length (by omega)]
      · simp only [hlt, if_false, Nat.lt_irrefl, List.flatten_cons]
        have hdrop : (buf ++ bufs.flatten).drop n = bufs.flatten.drop (n - buf.length) := by
          rw [List.drop_append, List.drop_eq_nil_of_le (by omega), List.nil_append]
        rw [hdrop]
        split
        · rw [‹n - buf.length = 0›, List.drop_zero]
        · exact ih (by omega)

theorem countBufs_advance {bufs : List (List UInt8)} {n : Nat} (hn : n ≤ countBufs bufs) :
    countBufs (advance bufs n) = countBufs bufs - n := by
  rw [countBufs_eq_length, flatten_advance hn, List.length_drop, ← countBufs_eq_length]

/-- A list of numbers from zero on, cut at one of them. -/
theorem lt_of_range {l₁ l₂ : List Nat} {x n : Nat} (h : l₁ ++ x :: l₂ = List.range n) :
    (∀ y ∈ l₁, y < x) ∧ (∀ y ∈ l₂, x < y) ∧ x < n := by
  have hsorted : (l₁ ++ x :: l₂).Pairwise (· < ·) := h ▸ List.pairwise_lt_range
  obtain ⟨-, hright, hcross⟩ := List.pairwise_append.mp hsorted
  refine ⟨fun y hy => hcross y hy x List.mem_cons_self, (List.pairwise_cons.mp hright).1, ?_⟩
  exact List.mem_range.mp (h ▸ List.mem_append_right l₁ List.mem_cons_self)

theorem flatten_modify_append {α : Type} {l : List (List α)} {i : Nat} {x : List α}
    (hi : i < l.length) (hlater : ∀ j w, i < j → l[j]? = some w → w = []) :
    (l.modify i (· ++ x)).flatten = l.flatten ++ x := by
  induction l generalizing i with
  | nil => simp at hi
  | cons w l ih =>
      cases i with
      | zero =>
          have hnil : l.flatten = [] := by
            rw [List.flatten_eq_nil_iff]
            intro v hv
            obtain ⟨j, hj⟩ := List.mem_iff_getElem?.mp hv
            exact hlater (j + 1) v (by omega) hj
          simp [hnil]
      | succ i =>
          simp only [List.modify_succ_cons, List.flatten_cons, List.append_assoc]
          rw [ih (by simpa using hi)]
          intro j v hij hj
          exact hlater (j + 1) v (by omega) hj

/-- What of some requests is counted in `write_queue_size`. -/
def unsent : List Request → Nat
  | [] => 0
  | req :: reqs => (if req.freed then 0 else countBufs req.bufs) + unsent reqs

theorem unsent_append (l₁ l₂ : List Request) : unsent (l₁ ++ l₂) = unsent l₁ + unsent l₂ := by
  induction l₁ with
  | nil => simp [unsent]
  | cons req l₁ ih => simp [unsent, ih, Nat.add_assoc]

def Request.answer (req : Request) : Nat × Int := (req.id, req.error)

/-- The requests `uv__write_callbacks` has still to call. -/
def Control.calling : Control → List Request
  | inWrite pq _ => pq
  | rest | inShutdown _ | gone => []

/-- The answers given to the user's writes, and those that are fixed by now. -/
def answers (called : List (Nat × Int)) (done : List Request) : List (Nat × Int) :=
  called ++ done.map Request.answer

theorem answers_append (called : List (Nat × Int)) (l₁ l₂ : List Request) :
    answers called (l₁ ++ l₂) = answers called l₁ ++ l₂.map Request.answer := by
  simp [answers]

theorem answers_call (called : List (Nat × Int)) (req : Request) (done : List Request) :
    answers (called ++ [req.answer]) done = answers called (req :: done) := by
  simp [answers]

/-- The system took a part of the write, all of it where the answer is no error. -/
def State.Sent (s : State) (a : Nat × Int) : Prop :=
  ∃ w b, s.written[a.1]? = some w ∧ s.accepted[a.1]? = some b ∧ w <+: b ∧ (a.2 = 0 → w = b)

structure Kept (pq : List Request) (s : State) : Prop where
  ids : (answers s.called (pq ++ s.completed)).map Prod.fst ++ s.writeQueue.map Request.id =
    List.range s.accepted.length
  size : s.writeQueueSize = unsent (pq ++ s.completed ++ s.writeQueue)
  length : s.written.length = s.accepted.length
  wire : s.wire = s.written.flatten
  sent : ∀ a ∈ answers s.called (pq ++ s.completed), s.Sent a
  queued : ∀ req ∈ s.writeQueue, req.freed = false ∧
    ∃ w, s.written[req.id]? = some w ∧ s.accepted[req.id]? = some (w ++ req.bufs.flatten)
  untouched : ∀ req ∈ s.writeQueue, ∀ i w, req.id < i → s.written[i]? = some w → w = []

namespace Kept

variable {pq : List Request} {s t : State} {req : Request} {rest : List Request}

theorem head (h : Kept pq s) (hq : s.writeQueue = req :: rest) :
    (∀ a ∈ answers s.called (pq ++ s.completed), a.1 < req.id) ∧ (∀ r ∈ rest, req.id < r.id) ∧
      req.id < s.accepted.length := by
  have hids := h.ids
  rw [hq, List.map_cons] at hids
  obtain ⟨hleft, hright, hlt⟩ := lt_of_range hids
  exact ⟨fun a ha => hleft a.1 (List.mem_map_of_mem ha),
    fun r hr => hright r.id (List.mem_map_of_mem hr), hlt⟩

theorem size_head (h : Kept pq s) (hq : s.writeQueue = req :: rest) :
    s.writeQueueSize = unsent (pq ++ s.completed) + countBufs req.bufs + unsent rest := by
  have hfreed : req.freed = false := (h.queued req (hq ▸ List.mem_cons_self)).1
  rw [h.size, hq, unsent_append, unsent, hfreed]
  simp [Nat.add_assoc]

theorem reqUpdate (h : Kept pq s) (hq : s.writeQueue = req :: rest) {n : Nat}
    (hn : n ≤ countBufs req.bufs) :
    Kept pq (s.reqUpdate n) ∧ (s.reqUpdate n).aborted = s.aborted := by
  obtain ⟨hbefore, hafter, hlt⟩ := h.head hq
  have hsize := h.size_head hq
  obtain ⟨hfreed, w, hw, hb⟩ := h.queued req (hq ▸ List.mem_cons_self)
  have others : ∀ i, i ≠ req.id →
      (s.written.modify req.id (· ++ req.bufs.flatten.take n))[i]? = s.written[i]? :=
    fun i hi => List.getElem?_modify_ne _ _ (Ne.symm hi)
  unfold State.reqUpdate
  rw [hq]
  dsimp only
  refine ⟨⟨?_, ?_, ?_, ?_, ?_, ?_, ?_⟩, ?_⟩
  · have hids := h.ids
    rw [hq] at hids
    exact hids
  · simp only [unsent_append, unsent, hfreed, countBufs_advance hn, Bool.false_eq_true, if_false]
    rw [hsize, unsent_append]
    omega
  · rw [List.length_modify, h.length]
  · rw [flatten_modify_append (by rw [h.length]; exact hlt), h.wire]
    exact h.untouched req (hq ▸ List.mem_cons_self)
  · intro a ha
    obtain ⟨v, b, hv, hab, hpre, hall⟩ := h.sent a ha
    exact ⟨v, b, (others a.1 (Nat.ne_of_lt (hbefore a ha))).trans hv, hab, hpre, hall⟩
  · intro r hr
    rcases List.mem_cons.mp hr with rfl | hr
    · refine ⟨hfreed, w ++ req.bufs.flatten.take n, ?_, ?_⟩
      · simp [hw]
      · rw [flatten_advance hn, List.append_assoc, List.take_append_drop]
        exact hb
    · obtain ⟨hr', v, hv, hvb⟩ := h.queued r (hq ▸ List.mem_cons_of_mem _ hr)
      exact ⟨hr', v, (others r.id (Nat.ne_of_gt (hafter r hr))).trans hv, hvb⟩
  · intro r hr i v hi hv
    have hle : req.id ≤ r.id := by
      rcases List.mem_cons.mp hr with rfl | hr
      · exact Nat.le_refl _
      · exact Nat.le_of_lt (hafter r hr)
    refine h.untouched req (hq ▸ List.mem_cons_self) i v (by omega) ?_
    exact (others i (by omega)).symm.trans hv
  · simp only [Bool.or_eq_left_iff_imp, decide_eq_true_eq]
    omega

theorem reqFinish (h : Kept pq s) {error : Int}
    (hall : error = 0 → ∀ req rest, s.writeQueue = req :: rest → req.bufs = []) :
    Kept pq (s.reqFinish error) := by
  unfold State.reqFinish
  split
  · exact h
  · rename_i req rest hq
    obtain ⟨hfreed, w, hw, hb⟩ := h.queued req (hq ▸ List.mem_cons_self)
    refine ⟨?_, ?_, h.length, h.wire, ?_, ?_, ?_⟩
    · have hids := h.ids
      rw [hq] at hids
      dsimp only
      rw [← List.append_assoc, answers_append]
      simpa [Request.answer] using hids
    · have hsize := h.size_head hq
      simp only [unsent_append, unsent] at hsize ⊢
      by_cases he : error = 0
      · have hnil := hall he req rest hq
        simp only [hnil, countBufs] at hsize
        simp [he]
        omega
      · simp [he]
        omega
    · intro a ha
      dsimp only at ha
      rw [← List.append_assoc, answers_append] at ha
      rcases List.mem_append.mp ha with ha | ha
      · exact h.sent a ha
      · cases List.mem_singleton.mp ha
        refine ⟨w, _, hw, hb, List.prefix_append _ _, fun he => ?_⟩
        simp [hall he req rest hq]
    · intro r hr
      exact h.queued r (hq ▸ List.mem_cons_of_mem _ hr)
    · intro r hr
      exact h.untouched r (hq ▸ List.mem_cons_of_mem _ hr)

theorem enqueue {bufs : List (List UInt8)} (h : Kept pq s)
    (hcalled : t.called = s.called) (hcompleted : t.completed = s.completed)
    (hqueue : t.writeQueue = s.writeQueue ++ [⟨s.accepted.length, bufs, 0, false⟩])
    (hsize : t.writeQueueSize = s.writeQueueSize + countBufs bufs)
    (haccepted : t.accepted = s.accepted ++ [bufs.flatten])
    (hwritten : t.written = s.written ++ [[]]) (hwire : t.wire = s.wire) : Kept pq t := by
  have old : ∀ (a : Nat × Int), s.Sent a → t.Sent a := by
    rintro a ⟨w, b, hw, hb, hsent⟩
    refine ⟨w, b, ?_, ?_, hsent⟩
    · rw [hwritten, List.getElem?_append_left (List.getElem?_eq_some_iff.mp hw).1, hw]
    · rw [haccepted, List.getElem?_append_left (List.getElem?_eq_some_iff.mp hb).1, hb]
  constructor
  · rw [hcalled, hcompleted, hqueue, haccepted, List.length_append, List.length_singleton,
      List.range_succ, ← h.ids]
    simp
  · rw [hcompleted, hqueue, hsize, h.size]
    simp [unsent_append, unsent, Nat.add_assoc]
  · rw [hwritten, haccepted, List.length_append, List.length_append, h.length]
    rfl
  · rw [hwire, hwritten, h.wire]
    simp
  · rw [hcalled, hcompleted]
    exact fun a ha => old a (h.sent a ha)
  · rw [hqueue]
    intro r hr
    rcases List.mem_append.mp hr with hr | hr
    · obtain ⟨hfreed, w, hw, hb⟩ := h.queued r hr
      refine ⟨hfreed, w, ?_, ?_⟩
      · rw [hwritten, List.getElem?_append_left (List.getElem?_eq_some_iff.mp hw).1, hw]
      · rw [haccepted, List.getElem?_append_left (List.getElem?_eq_some_iff.mp hb).1, hb]
    · cases List.mem_singleton.mp hr
      refine ⟨rfl, [], ?_, ?_⟩
      · rw [hwritten, ← h.length, List.getElem?_concat_length]
      · rw [haccepted, List.getElem?_concat_length, List.nil_append]
  · rw [hqueue, hwritten]
    intro r hr i w hi hw
    rw [List.getElem?_append] at hw
    split at hw
    · rcases List.mem_append.mp hr with hr | hr
      · exact h.untouched r hr i w hi hw
      · cases List.mem_singleton.mp hr
        have := h.length
        dsimp only at hi
        omega
    · rw [List.getElem?_singleton] at hw
      split at hw
      · exact (Option.some.inj hw).symm
      · cases hw

/-- A change of what the writes do not depend on. -/
theorem congr (h : Kept pq s) (hcalled : t.called = s.called)
    (hcompleted : t.completed = s.completed) (hqueue : t.writeQueue = s.writeQueue) (hsize : t.writeQueueSize = s.writeQueueSize)
    (haccepted : t.accepted = s.accepted) (hwritten : t.written = s.written)
    (hwire : t.wire = s.wire) : Kept pq t := by
  constructor
  · rw [hcalled, hcompleted, hqueue, haccepted]
    exact h.ids
  · rw [hcompleted, hqueue, hsize]
    exact h.size
  · rw [hwritten, haccepted]
    exact h.length
  · rw [hwire, hwritten]
    exact h.wire
  · unfold State.Sent
    rw [hcalled, hcompleted, hwritten, haccepted]
    exact h.sent
  · rw [hqueue, hwritten, haccepted]
    exact h.queued
  · rw [hqueue, hwritten]
    exact h.untouched

end Kept

/-- What each turn of the loop of `uv__write` preserves, `uv__write` does. -/
theorem uvWrite_preserves {P : State → Prop}
    (hupdate : ∀ s req rest n, P s → s.writeQueue = req :: rest → n ≤ countBufs req.bufs →
      P (s.reqUpdate n))
    (hfinish : ∀ s req rest, P s → s.writeQueue = req :: rest → req.bufs = [] →
      P (s.reqFinish 0))
    (hfail : ∀ s code, P s → code < 0 → P { s.reqFinish code with pollout := false })
    (hwait : ∀ s, P s → P { s with pollout := true })
    {count : Nat} {replies : List Reply} {s t : State} (hs : P s)
    (ht : State.uvWrite count replies s = some t) : P t := by
  induction replies generalizing count s with
  | nil =>
      unfold State.uvWrite at ht
      obtain ⟨-, rfl⟩ := Machine.of_guard ht
      exact hs
  | cons reply replies ih =>
      unfold State.uvWrite at ht
      split at ht
      · cases ht
      · rename_i req rest hq
        split at ht
        · rename_i n
          split at ht
          · cases ht
          · have hn : n ≤ countBufs req.bufs := by
              have := countBufs_take_le req.bufs iovMax
              omega
            have hupdated := hupdate s req rest n hs hq hn
            have hq' : (s.reqUpdate n).writeQueue =
                { req with bufs := advance req.bufs n } :: rest := by
              unfold State.reqUpdate
              rw [hq]
            split at ht
            · have hfinished := hfinish _ _ _ hupdated hq' ‹_›
              dsimp only at ht
              split at ht
              · exact ih hfinished ht
              · obtain ⟨-, rfl⟩ := Machine.of_guard ht
                exact hfinished
            · split at ht
              · exact ih hupdated ht
              · obtain ⟨-, rfl⟩ := Machine.of_guard ht
                exact hwait _ hupdated
        · split at ht
          · exact ih hs ht
          · obtain ⟨-, rfl⟩ := Machine.of_guard ht
            exact hwait s hs
        · obtain ⟨⟨hcode, -⟩, rfl⟩ := Machine.of_guard ht
          exact hfail s _ hs hcode

/-- What `uv__write` changes, and that it feeds the stream for each request it is done with. -/
structure Wrote (s t : State) : Prop where
  frame : t = { s with
    pollout := t.pollout, fed := t.fed, writeQueue := t.writeQueue, completed := t.completed,
    writeQueueSize := t.writeQueueSize, aborted := t.aborted, written := t.written, wire := t.wire }
  fed : s.fed → t.fed
  done : t.completed = s.completed ∨ t.fed

section

variable {count : Nat} {replies : List Reply} {s t : State}

theorem aborted_reqFinish (error : Int) : (s.reqFinish error).aborted = s.aborted := by
  unfold State.reqFinish
  split <;> rfl

theorem Kept.uvWrite {pq : List Request} (h : Kept pq s)
    (ht : State.uvWrite count replies s = some t) : Kept pq t ∧ t.aborted = s.aborted := by
  refine uvWrite_preserves (P := fun u => Kept pq u ∧ u.aborted = s.aborted) ?_ ?_ ?_ ?_
    ⟨h, rfl⟩ ht
  · rintro u req rest n ⟨hu, haborted⟩ hq hn
    obtain ⟨hkept, hsame⟩ := hu.reqUpdate hq hn
    exact ⟨hkept, hsame.trans haborted⟩
  · rintro u req rest ⟨hu, haborted⟩ hq hnil
    refine ⟨hu.reqFinish fun _ r l hq' => ?_, (aborted_reqFinish 0).trans haborted⟩
    cases hq.symm.trans hq'
    exact hnil
  · rintro u code ⟨hu, haborted⟩ hcode
    refine ⟨(hu.reqFinish fun he => ?_).congr rfl rfl rfl rfl rfl rfl rfl,
      (aborted_reqFinish code).trans haborted⟩
    omega
  · rintro u ⟨hu, haborted⟩
    exact ⟨hu.congr rfl rfl rfl rfl rfl rfl rfl, haborted⟩

theorem wrote_reqFinish {u : State} (error : Int) (hu : Wrote s u) :
    Wrote s (u.reqFinish error) := by
  unfold State.reqFinish
  split
  · exact hu
  · refine ⟨?_, fun _ => rfl, .inr rfl⟩
    rw [hu.frame]

theorem wrote_uvWrite (ht : State.uvWrite count replies s = some t) : Wrote s t := by
  refine uvWrite_preserves (P := Wrote s) ?_ ?_ ?_ ?_ ⟨rfl, id, .inl rfl⟩ ht
  · intro u req rest n hu hq hn
    unfold State.reqUpdate
    rw [hq]
    refine ⟨?_, hu.fed, hu.done⟩
    dsimp only
    rw [hu.frame]
  · intro u req rest hu hq hnil
    exact wrote_reqFinish 0 hu
  · intro u code hu hcode
    have hfinish := wrote_reqFinish code hu
    refine ⟨?_, hfinish.fed, hfinish.done⟩
    rw [hfinish.frame]
  · intro u hu
    refine ⟨?_, hu.fed, hu.done⟩
    rw [hu.frame]

theorem uvWrite_nil (hq : s.writeQueue = []) (ht : State.uvWrite count replies s = some t) :
    t = s := by
  cases replies with
  | nil =>
      unfold State.uvWrite at ht
      exact (Machine.of_guard ht).2.symm
  | cons reply replies =>
      unfold State.uvWrite at ht
      rw [hq] at ht
      cases ht

/-- `uv__write` does not leave a request behind that nothing wakes it for. -/
theorem uvWrite_armed (ht : State.uvWrite count replies s = some t) :
    t.writeQueue = [] ∨ t.pollout ∨ t.fed := by
  induction replies generalizing count s with
  | nil =>
      unfold State.uvWrite at ht
      obtain ⟨hq, rfl⟩ := Machine.of_guard ht
      exact .inl hq
  | cons reply replies ih =>
      unfold State.uvWrite at ht
      split at ht
      · cases ht
      · rename_i req rest hq
        have fed : ∀ (u : State) (e : Int), u.writeQueue ≠ [] → (u.reqFinish e).fed := by
          intro u e hu
          unfold State.reqFinish
          split
          · contradiction
          · rfl
        split at ht
        · rename_i n
          have hq' : (s.reqUpdate n).writeQueue ≠ [] := by
            unfold State.reqUpdate
            rw [hq]
            simp
          split at ht
          · cases ht
          · split at ht
            · dsimp only at ht
              split at ht
              · exact ih ht
              · obtain ⟨-, rfl⟩ := Machine.of_guard ht
                exact .inr (.inr (fed _ 0 hq'))
            · split at ht
              · exact ih ht
              · obtain ⟨-, rfl⟩ := Machine.of_guard ht
                exact .inr (.inl rfl)
        · split at ht
          · exact ih ht
          · obtain ⟨-, rfl⟩ := Machine.of_guard ht
            exact .inr (.inl rfl)
        · obtain ⟨-, rfl⟩ := Machine.of_guard ht
          exact .inr (.inr (fed s _ (by simp [hq])))

end

/-- How the flags of a stream go together, wherever libuv is. -/
structure Flags (s : State) : Prop where
  closing : s.closing → s.fed = false ∧ s.writable = false
  shutting : s.shutdownReq → s.writable = false ∧ s.shut = false
  shut : s.shut → s.writable = false ∧ s.writeQueue = []
  fin : ∀ w ∈ s.fin, s.shut ∧ w = s.wire

/-- A stream with `pq` left to call, which is destroyed or has woken for what it owes. -/
structure Ready (pq : List Request) (destroy : Bool) (s : State) : Prop where
  kept : Kept pq s
  flags : Flags s
  waiting : s.closing = false → s.writeQueue = [] ∨ s.pollout ∨ s.fed
  done : s.closing = false → s.completed = [] ∨ s.fed
  destroyed : destroy → s.closing ∧ s.writeQueue = [] ∧ s.completed = []

def Control.destroying : Control → Bool
  | inWrite _ destroy | inShutdown destroy => destroy
  | gone => true
  | rest => false

def Control.drained : Control → Bool
  | inShutdown _ | gone => true
  | rest | inWrite _ _ => false

structure Good (s : State) : Prop where
  ready : Ready s.control.calling s.control.destroying s
  draining : s.closing = false → s.control = .rest → s.shutdownReq → s.writeQueue = [] → s.fed
  drained : s.control.drained → s.shutdownReq = false ∧ (s.writable = false ∨ s.control = .gone)
  gone : s.control = .gone → s.writeQueueSize = 0

section

variable {pq : List Request} {destroy : Bool} {shut : Int} {s t : State}

theorem Flags.uvWrite {count : Nat} {replies : List Reply} (h : Flags s)
    (hopen : s.closing = false) (ht : State.uvWrite count replies s = some t) : Flags t := by
  have frame := (wrote_uvWrite ht).frame
  have wire : s.shut → t = s := fun hshut => uvWrite_nil (h.shut hshut).2 ht
  constructor
  · intro hclosing
    rw [frame] at hclosing
    cases hopen.symm.trans hclosing
  · intro hreq
    rw [frame] at hreq ⊢
    exact h.shutting hreq
  · intro hshut
    have hshut : s.shut := by rwa [frame] at hshut
    rw [wire hshut]
    exact h.shut hshut
  · intro w hw
    have hw : w ∈ s.fin := by rwa [frame] at hw
    rw [wire (h.fin w hw).1]
    exact h.fin w hw

theorem Ready.leave (h : Ready [] destroy s) (hdrained : destroy → s.shutdownReq = false)
    (hdraining : s.closing = false → s.shutdownReq → s.writeQueue = [] → s.fed) :
    Good (s.leave destroy) ∧ (s.leave destroy).aborted = s.aborted := by
  unfold State.leave
  cases destroy with
  | false =>
      refine ⟨⟨⟨h.kept.congr rfl rfl rfl rfl rfl rfl rfl, ?_, h.waiting, h.done, nofun⟩, ?_, nofun,
        nofun⟩, rfl⟩
      · exact ⟨h.flags.closing, h.flags.shutting, h.flags.shut, h.flags.fin⟩
      · exact fun hopen _ => hdraining hopen
  | true =>
      obtain ⟨hclosing, hqueue, hcompleted⟩ := h.destroyed rfl
      have hsize : s.writeQueueSize = 0 := by
        rw [h.kept.size, hqueue, hcompleted]
        rfl
      refine ⟨⟨⟨h.kept.congr rfl rfl rfl rfl rfl rfl rfl, ?_, h.waiting, h.done, h.destroyed⟩,
        nofun, fun _ => ⟨hdrained rfl, .inr rfl⟩, fun _ => hsize⟩, ?_⟩
      · exact ⟨h.flags.closing, h.flags.shutting, h.flags.shut, h.flags.fin⟩
      · simp [hsize]

theorem Ready.drain (h : Ready [] destroy s) (hqueue : s.writeQueue = []) :
    Good (s.drain destroy shut) ∧ (s.drain destroy shut).aborted = s.aborted := by
  have hsame : (s.aborted || !s.writeQueue.isEmpty) = s.aborted := by simp [hqueue]
  have still : Ready [] destroy { s with pollout := s.pollout && s.closing } :=
    ⟨h.kept.congr rfl rfl rfl rfl rfl rfl rfl,
      ⟨h.flags.closing, h.flags.shutting, h.flags.shut, h.flags.fin⟩, fun _ => .inl hqueue, h.done,
      h.destroyed⟩
  unfold State.drain
  rw [hsame]
  dsimp only
  by_cases hreq : s.shutdownReq
  · obtain ⟨hwritable, hnot⟩ := h.flags.shutting hreq
    rw [if_pos hreq]
    split
    · refine ⟨⟨⟨h.kept.congr rfl rfl rfl rfl rfl rfl rfl, ?_, still.waiting, h.done,
        h.destroyed⟩, nofun, fun _ => ⟨rfl, .inl hwritable⟩, nofun⟩, rfl⟩
      exact ⟨h.flags.closing, nofun, h.flags.shut, h.flags.fin⟩
    · rw [if_neg (by simp [hnot])]
      refine ⟨⟨⟨h.kept.congr rfl rfl rfl rfl rfl rfl rfl, ?_, still.waiting, h.done,
        h.destroyed⟩, nofun, fun _ => ⟨rfl, .inl hwritable⟩, nofun⟩, rfl⟩
      refine ⟨h.flags.closing, nofun, fun _ => ⟨hwritable, hqueue⟩, ?_⟩
      intro w hw
      dsimp only at hw ⊢
      split at hw
      · cases hw
        exact ⟨by simp [*], rfl⟩
      · cases hnot.symm.trans (h.flags.fin w hw).1
  · rw [if_neg hreq]
    exact still.leave (fun _ => eq_false_of_ne_true hreq) fun _ hreq' => absurd hreq' hreq

theorem Ready.runCallbacks (h : Ready pq destroy s) :
    Good (s.runCallbacks pq destroy shut) ∧
      (s.runCallbacks pq destroy shut).aborted = s.aborted := by
  cases pq with
  | nil =>
      change Good (s.afterCallbacks destroy shut) ∧
        (s.afterCallbacks destroy shut).aborted = s.aborted
      unfold State.afterCallbacks
      split
      · rename_i hdrain
        exact h.drain (hdrain.elim (fun hd => (h.destroyed hd).2.1) id)
      · rename_i hleave
        obtain ⟨hdestroy, hqueue⟩ := not_or.mp hleave
        exact h.leave (fun hd => absurd hd hdestroy) fun _ _ hq => absurd hq hqueue
  | cons req pq =>
      have hsize := h.kept.size
      simp only [List.cons_append, unsent] at hsize
      unfold State.runCallbacks
      dsimp only
      refine ⟨⟨⟨?_, ?_, h.waiting, h.done, h.destroyed⟩, nofun, nofun, nofun⟩, ?_⟩
      · refine ⟨?_, ?_, h.kept.length, h.kept.wire, ?_, h.kept.queued, h.kept.untouched⟩
        · have hids := h.kept.ids
          rw [List.cons_append, ← answers_call] at hids
          exact hids
        · simp only [Control.calling]
          omega
        · have hsent := h.kept.sent
          rw [List.cons_append, ← answers_call] at hsent
          exact hsent
      · exact ⟨h.flags.closing, h.flags.shutting, h.flags.shut, h.flags.fin⟩
      · simp only [Bool.or_eq_left_iff_imp, decide_eq_true_eq]
        omega

theorem Good.refuse (h : Good s) (refused : List Int) : Good { s with refused := refused } where
  ready :=
    { h.ready with
      kept := h.ready.kept.congr rfl rfl rfl rfl rfl rfl rfl
      flags := ⟨h.ready.flags.closing, h.ready.flags.shutting, h.ready.flags.shut,
        h.ready.flags.fin⟩ }
  draining := h.draining
  drained := h.drained
  gone := h.gone

theorem Good.readError (h : Good s) : Good { s with writable := false } where
  ready :=
    { h.ready with
      kept := h.ready.kept.congr rfl rfl rfl rfl rfl rfl rfl
      flags := ⟨fun hc => ⟨(h.ready.flags.closing hc).1, rfl⟩,
        fun hr => ⟨rfl, (h.ready.flags.shutting hr).2⟩,
        fun hs => ⟨rfl, (h.ready.flags.shut hs).2⟩, h.ready.flags.fin⟩ }
  draining := h.draining
  drained hd := ⟨(h.drained hd).1, .inl rfl⟩
  gone := h.gone

theorem Good.close (h : Good s) : Good s.close where
  ready :=
    { kept := h.ready.kept.congr rfl rfl rfl rfl rfl rfl rfl
      flags := ⟨fun _ => ⟨rfl, rfl⟩, fun hr => ⟨rfl, (h.ready.flags.shutting hr).2⟩,
        fun hs => ⟨rfl, (h.ready.flags.shut hs).2⟩, h.ready.flags.fin⟩
      waiting := nofun
      done := nofun
      destroyed := fun hd => ⟨rfl, (h.ready.destroyed hd).2⟩ }
  draining := nofun
  drained hd := ⟨(h.drained hd).1, .inl rfl⟩
  gone := h.gone

theorem Good.shutdown (h : Good s) (hctl : s.control ≠ .gone) : Good s.shutdown := by
  unfold State.shutdown
  split
  · exact h.refuse _
  · rename_i hfree
    simp only [not_or, Bool.not_eq_true, Bool.not_eq_false] at hfree
    obtain ⟨hwritable, hshut, hreq, hopen⟩ := hfree
    constructor
    · refine ⟨h.ready.kept.congr rfl rfl rfl rfl rfl rfl rfl, ⟨?_, ?_, ?_, h.ready.flags.fin⟩, ?_,
        ?_, h.ready.destroyed⟩
      · exact fun hc => absurd hc (by simp [hopen])
      · exact fun _ => ⟨rfl, hshut⟩
      · exact fun hs => ⟨rfl, (h.ready.flags.shut hs).2⟩
      · exact fun _ => (h.ready.waiting hopen).imp id (Or.imp id fun hf => by simp [hf])
      · exact fun _ => (h.ready.done hopen).imp id fun hf => by simp [hf]
    · intro _ _ _ hq
      simp only at hq
      simp [hq]
    · intro hd
      rcases (h.drained hd).2 with hoff | hgone
      · cases hwritable.symm.trans hoff
      · exact absurd hgone hctl
    · exact fun hgone => absurd hgone hctl

/-- A write on a blocking stream, which an earlier one that failed is still counted for. -/
def Blocked (s : State) : Label → Prop
  | .write _ _ =>
      s.blocking ∧ s.closing = false ∧ s.writable ∧ s.writeQueueSize ≠ 0
  | .shutdown | .close | .readError | .io _ _ _ | .ret _ | .finishClose => False

theorem Good.of_open {c : Control} (hc : t.control = c) (kept : Kept c.calling t) (flags : Flags t)
    (waiting : t.writeQueue = [] ∨ t.pollout ∨ t.fed) (done : t.completed = [] ∨ t.fed)
    (hreq : t.shutdownReq = false) (hdestroying : ¬ c.destroying) (hdrained : ¬ c.drained) :
    Good t := by
  subst hc
  refine ⟨⟨kept, flags, fun _ => waiting, fun _ => done, fun hd => absurd hd hdestroying⟩, ?_,
    fun hd => absurd hd hdrained, ?_⟩
  · intro _ _ hsome
    cases hreq.symm.trans hsome
  · intro hgone
    rw [hgone] at hdrained
    exact absurd rfl hdrained

theorem Good.enqueue {bufs : List (List UInt8)} {replies : List Reply} (h : Good s)
    (hctl : s.control ≠ .gone) (hlive : s.aborted = false) (hopen : s.closing = false)
    (hwritable : s.writable = true) (ht : s.enqueue bufs replies = some t) :
    Good t ∧ (t.aborted = true ↔ Blocked s (.write bufs replies)) := by
  have hdestroying : ¬ s.control.destroying := fun hd => by
    cases hopen.symm.trans (h.ready.destroyed hd).1
  have hdrained : ¬ s.control.drained := by
    intro hd
    rcases (h.drained hd).2 with hoff | hgone
    · cases hwritable.symm.trans hoff
    · exact hctl hgone
  have hreq : s.shutdownReq = false := by
    by_contra hreq
    cases hwritable.symm.trans (h.ready.flags.shutting (eq_true_of_ne_false hreq)).1
  have hshut : s.shut = false := by
    by_contra hshut
    cases hwritable.symm.trans (h.ready.flags.shut (eq_true_of_ne_false hshut)).1
  unfold State.enqueue at ht
  extract_lets u at ht
  have kept : Kept s.control.calling u := h.ready.kept.enqueue rfl rfl rfl rfl rfl rfl rfl
  have flags : Flags u := by
    refine ⟨fun hc => ?_, fun hr => ?_, fun hs => ?_, fun w hw => ?_⟩
    · cases hopen.symm.trans hc
    · cases hreq.symm.trans hr
    · cases hshut.symm.trans hs
    · cases hshut.symm.trans (h.ready.flags.fin w hw).1
  have done := h.ready.done hopen
  split at ht
  · rename_i hempty
    have wrote := wrote_uvWrite ht
    obtain ⟨hkept, hsame⟩ := kept.uvWrite ht
    refine ⟨Good.of_open (c := s.control) ?_ hkept (flags.uvWrite hopen ht) (uvWrite_armed ht) ?_ ?_
      hdestroying hdrained, ?_⟩
    · rw [wrote.frame]
    · rcases wrote.done with hsame | hfed
      · rw [hsame]
        exact done.imp id wrote.fed
      · exact .inr hfed
    · rw [wrote.frame]
      exact hreq
    · have : t.aborted = false := hsame.trans hlive
      simp [Blocked, this, hempty]
  · rename_i hbusy
    obtain ⟨-, rfl⟩ := Machine.of_guard ht
    refine ⟨Good.of_open (c := s.control) rfl (kept.congr rfl rfl rfl rfl rfl rfl rfl)
      ⟨flags.closing, flags.shutting, flags.shut, flags.fin⟩ (.inr (.inl rfl)) done hreq
      hdestroying hdrained, ?_⟩
    simp [u, Blocked, hlive, hopen, hwritable, hbusy]

theorem Good.write {bufs : List (List UInt8)} {replies : List Reply} (h : Good s)
    (hctl : s.control ≠ .gone) (hlive : s.aborted = false)
    (ht : s.write bufs replies = some t) :
    Good t ∧ (t.aborted = true ↔ Blocked s (.write bufs replies)) := by
  unfold State.write at ht
  split at ht
  · obtain ⟨-, rfl⟩ := Machine.of_guard ht
    exact ⟨h.refuse _, by simp [Blocked, *]⟩
  · split at ht
    · obtain ⟨-, rfl⟩ := Machine.of_guard ht
      exact ⟨h.refuse _, by simp [Blocked, *]⟩
    · exact h.enqueue hctl hlive (eq_false_of_ne_true ‹_›) (eq_true_of_ne_false ‹_›) ht

/-- `uv__queue_move` in `uv__write_callbacks`. -/
theorem Kept.handed (h : Kept [] s) : Kept s.completed { s with completed := [] } := by
  have moved : s.completed ++ [] = [] ++ s.completed := by simp
  refine ⟨?_, ?_, h.length, h.wire, ?_, h.queued, h.untouched⟩
  · dsimp only
    rw [moved]
    exact h.ids
  · dsimp only
    rw [moved]
    exact h.size
  · dsimp only
    rw [moved]
    exact h.sent

theorem Kept.flush (h : Kept [] s) (error : Int) (he : error ≠ 0) : Kept [] (s.flush error) := by
  have size : ∀ l : List Request,
      unsent (l.map fun req => { req with error := error }) = unsent l := by
    intro l
    induction l with
    | nil => rfl
    | cons req l ih => simp only [List.map_cons, unsent, ih]
  have answers : answers s.called ([] ++ (s.flush error).completed) =
      answers s.called ([] ++ s.completed) ++ s.writeQueue.map fun req => (req.id, error) := by
    simp [State.flush, answers, Request.answer, Function.comp_def]
  refine ⟨?_, ?_, h.length, h.wire, ?_, nofun, nofun⟩
  · have hids := h.ids
    change (Write.answers s.called _).map Prod.fst ++ [] = _
    rw [answers, List.append_nil, List.map_append, List.map_map]
    exact hids
  · change s.writeQueueSize = unsent ([] ++ (s.completed ++ _) ++ [])
    rw [h.size, List.append_nil, List.nil_append, List.nil_append, unsent_append, unsent_append,
      size]
  · change ∀ a ∈ Write.answers s.called _, _
    rw [answers]
    intro a ha
    rcases List.mem_append.mp ha with ha | ha
    · exact h.sent a ha
    · obtain ⟨req, hreq, rfl⟩ := List.mem_map.mp ha
      obtain ⟨-, w, hw, hb⟩ := h.queued req hreq
      exact ⟨w, _, hw, hb, List.prefix_append _ _, fun h0 => absurd h0 he⟩

theorem Good.kept_rest (h : Good s) (hrest : s.control = .rest) : Kept [] s := by
  have hkept := h.ready.kept
  rwa [hrest] at hkept

theorem Good.io {pending : Bool} {replies : List Reply} (h : Good s)
    (ht : s.io pending replies shut = some t) : Good t ∧ t.aborted = s.aborted := by
  obtain ⟨⟨hrest, hopen, -⟩, hmap⟩ := Option.ite_none_right_eq_some.mp ht
  obtain ⟨u, hu, rfl⟩ := Option.map_eq_some_iff.mp hmap
  have hkept : Kept [] { s with fed := s.fed && !pending } :=
    (h.kept_rest hrest).congr rfl rfl rfl rfl rfl rfl rfl
  obtain ⟨kept, hsame⟩ := hkept.uvWrite hu
  have flags : Flags u := by
    refine Flags.uvWrite (s := { s with fed := s.fed && !pending }) ?_ hopen hu
    refine ⟨fun hc => ?_, h.ready.flags.shutting, h.ready.flags.shut, h.ready.flags.fin⟩
    cases hopen.symm.trans hc
  have armed := uvWrite_armed hu
  have ready : Ready u.completed false { u with completed := [] } :=
    ⟨kept.handed, ⟨flags.closing, flags.shutting, flags.shut, flags.fin⟩, fun _ => armed,
      fun _ => .inl rfl, nofun⟩
  exact ⟨ready.runCallbacks.1, ready.runCallbacks.2.trans hsame⟩

theorem Good.finishClose (h : Good s) (ht : s.finishClose = some t) :
    Good t ∧ t.aborted = s.aborted := by
  obtain ⟨⟨hrest, hclosing⟩, rfl⟩ := Machine.of_guard ht
  have kept := (h.kept_rest hrest).flush ECANCELED (by decide)
  have flags := h.ready.flags
  have ready : Ready (s.flush ECANCELED).completed true
      { s.flush ECANCELED with completed := [] } := by
    refine ⟨kept.handed, ⟨flags.closing, flags.shutting, fun hs => ⟨(flags.shut hs).1, rfl⟩,
      flags.fin⟩, fun _ => .inl rfl, fun _ => .inl rfl, fun _ => ⟨hclosing, rfl, rfl⟩⟩
  exact ready.runCallbacks

theorem Good.ret (h : Good s) (ht : s.ret shut = some t) : Good t ∧ t.aborted = s.aborted := by
  have ready := h.ready
  unfold State.ret at ht
  cases hc : s.control with
  | inWrite pq destroy =>
      rw [hc] at ht ready
      cases ht
      exact ready.runCallbacks
  | inShutdown destroy =>
      have hdrained := (h.drained (by rw [hc]; rfl)).1
      rw [hc] at ht ready
      cases ht
      exact ready.leave (fun _ => hdrained) fun _ hreq => by cases hdrained.symm.trans hreq
  | rest | gone =>
      rw [hc] at ht
      cases ht

theorem Good.step {l : Label} (h : Good s) (ht : step s l = some t) :
    Good t ∧ (t.aborted = true ↔ Blocked s l) := by
  unfold Write.step at ht
  split at ht
  · cases ht
  · rename_i hlive
    have hlive := eq_false_of_ne_true hlive
    cases l with
    | write bufs replies =>
        obtain ⟨⟨hctl, -⟩, ht⟩ := Option.ite_none_right_eq_some.mp ht
        exact h.write hctl hlive ht
    | shutdown =>
        obtain ⟨hctl, rfl⟩ := Machine.of_guard ht
        refine ⟨h.shutdown hctl, ?_⟩
        have hsame : s.shutdown.aborted = s.aborted := by
          unfold State.shutdown
          split <;> rfl
        simp [hsame, hlive, Blocked]
    | close =>
        obtain ⟨-, rfl⟩ := Machine.of_guard ht
        exact ⟨h.close, by simp [State.close, hlive, Blocked]⟩
    | readError =>
        obtain ⟨-, rfl⟩ := Machine.of_guard ht
        exact ⟨h.readError, by simp [hlive, Blocked]⟩
    | io pending replies shut =>
        obtain ⟨hgood, hsame⟩ := h.io ht
        exact ⟨hgood, by simp [hsame, hlive, Blocked]⟩
    | ret shut =>
        obtain ⟨hgood, hsame⟩ := h.ret ht
        exact ⟨hgood, by simp [hsame, hlive, Blocked]⟩
    | finishClose =>
        obtain ⟨hgood, hsame⟩ := h.finishClose ht
        exact ⟨hgood, by simp [hsame, hlive, Blocked]⟩

theorem good_init (blocking : Bool) : Good (machine blocking).init := by
  refine ⟨⟨⟨rfl, rfl, rfl, rfl, nofun, nofun, nofun⟩, ⟨nofun, nofun, nofun, nofun⟩,
    fun _ => .inl rfl, fun _ => .inl rfl, nofun⟩, nofun, nofun, nofun⟩

theorem good_always {P : State → Prop} (hP : ∀ s, Good s → P s) (blocking : Bool)
    (ls : List Label) : (machine blocking).Always P (machine blocking).init ls :=
  Machine.always_of_step hP (fun _ _ _ h ht => (h.step ht).1) (good_init blocking)

/-- The answers given to the writes, and those that are about to be. -/
def State.fixed (s : State) : List (Nat × Int) :=
  answers s.called (s.control.calling ++ s.completed)

/-- Each accepted write has its answer or is in the queue. -/
theorem Good.fixed_or_queued (h : Good s) {i : Nat} (hi : i < s.accepted.length) :
    (∃ a ∈ s.fixed, a.1 = i) ∨ ∃ req ∈ s.writeQueue, req.id = i := by
  have hmem := List.mem_range.mpr hi
  rw [← h.ready.kept.ids] at hmem
  exact (List.mem_append.mp hmem).imp List.mem_map.mp List.mem_map.mp

/-- What the writes of a stream and their answers are, in the order of the calls. -/
structure State.InOrder (s : State) : Prop where
  called : s.called.map Prod.fst = List.range s.called.length
  wire : s.wire = s.written.flatten
  part : ∀ (i : Nat) (b : List UInt8), s.accepted[i]? = some b →
    ∃ w, s.written[i]? = some w ∧ w <+: b
  whole : ∀ i : Nat, (i, 0) ∈ s.fixed → s.written[i]? = s.accepted[i]?
  turn : ∀ (i j : Nat) (w : List UInt8), i < j → s.written[j]? = some w → w ≠ [] →
    ∃ a ∈ s.fixed, a.1 = i

/-- The system takes the bytes of the writes in the order of the calls, nothing of a write
before those ahead of it have their answers, and all of it where the answer is no error. -/
theorem writes_in_order (blocking : Bool) (ls : List Label) :
    (machine blocking).Always State.InOrder (machine blocking).init ls := by
  refine good_always (fun s h => ?_) blocking ls
  have kept := h.ready.kept
  constructor
  · have hids := kept.ids
    simp only [answers, List.map_append, List.append_assoc] at hids
    have htake := congrArg (List.take s.called.length) hids
    have hlength := congrArg List.length hids
    simp only [List.length_append, List.length_map, List.length_range] at hlength
    rw [List.take_left' (List.length_map _), List.take_range, Nat.min_eq_left (by omega)] at htake
    exact htake
  · exact kept.wire
  · intro i b hb
    have hi := (List.getElem?_eq_some_iff.mp hb).1
    rcases h.fixed_or_queued hi with ⟨a, ha, rfl⟩ | ⟨req, hreq, rfl⟩
    · obtain ⟨w, b', hw, hb', hpre, -⟩ := kept.sent a ha
      cases hb.symm.trans hb'
      exact ⟨w, hw, hpre⟩
    · obtain ⟨-, w, hw, hb'⟩ := kept.queued req hreq
      cases hb.symm.trans hb'
      exact ⟨w, hw, List.prefix_append _ _⟩
  · intro i hi
    obtain ⟨w, b, hw, hb, -, hall⟩ := kept.sent (i, 0) hi
    rw [hw, hb, hall rfl]
  · intro i j w hij hw hne
    have hj := (List.getElem?_eq_some_iff.mp hw).1
    rw [kept.length] at hj
    rcases h.fixed_or_queued (Nat.lt_trans hij hj) with hfixed | ⟨req, hreq, rfl⟩
    · exact hfixed
    · exact absurd (kept.untouched req hreq j w hij hw) hne

/-- The assertions on the way of a write hold, exactly as long as nothing is written to a
blocking stream while an earlier write that failed has not been answered. -/
theorem assertions_hold_iff (blocking : Bool) (ls : List Label) :
    (machine blocking).Always (fun s => s.aborted = false) (machine blocking).init ls ↔
      (machine blocking).Throughout (fun s l => ¬ Blocked s l) (machine blocking).init ls := by
  apply Machine.always_iff_throughout (I := fun s => Good s ∧ s.aborted = false)
  · exact fun s h => h.2
  · intro s l t h hl ht
    obtain ⟨hgood, haborted⟩ := h.1.step ht
    exact ⟨hgood, eq_false_of_ne_true (mt haborted.mp hl)⟩
  · intro s l t h hl ht hlive
    have haborted := (h.1.step ht).2.mpr (not_not.mp hl)
    cases hlive.symm.trans haborted
  · exact ⟨good_init blocking, rfl⟩

/-- Every write of the user's and every shutdown is answered. -/
def State.Settled (s : State) : Prop :=
  s.called.length = s.accepted.length ∧ s.shutdownReq = false

theorem Good.settled (h : Good s) (hcalling : s.control.calling = [])
    (hcompleted : s.completed = []) (hqueue : s.writeQueue = []) (hreq : s.shutdownReq = false) : s.Settled := by
  have hids := congrArg List.length h.ready.kept.ids
  rw [hcalling, hcompleted, hqueue] at hids
  simp only [answers, List.append_nil, List.map_nil, List.length_map, List.length_range] at hids
  exact ⟨hids, hreq⟩

/-- An open stream that waits neither for its descriptor nor on the pending queue has answered
all it was asked, and so has one whose close is done. -/
theorem idle_is_settled (blocking : Bool) (ls : List Label) :
    (machine blocking).Always (fun s =>
      (s.control = .rest → s.closing = false → s.pollout = false → s.fed = false → s.Settled) ∧
        (s.control = .gone → s.Settled ∧ s.writeQueueSize = 0)) (machine blocking).init ls := by
  refine good_always (fun s h => ⟨?_, ?_⟩) blocking ls
  · intro hrest hopen hpollout hfed
    have hqueue : s.writeQueue = [] := by
      simpa [hpollout, hfed] using h.ready.waiting hopen
    have hcompleted : s.completed = [] := by
      simpa [hfed] using h.ready.done hopen
    refine h.settled (by rw [hrest]; rfl) hcompleted hqueue (eq_false_of_ne_true fun hreq => ?_)
    cases hfed.symm.trans (h.draining hopen hrest hreq hqueue)
  · intro hgone
    have hdestroyed := h.ready.destroyed
    rw [hgone] at hdestroyed
    obtain ⟨-, hqueue, hcompleted⟩ := hdestroyed rfl
    have hreq := (h.drained (by rw [hgone]; rfl)).1
    exact ⟨h.settled (by rw [hgone]; rfl) hcompleted hqueue hreq, h.gone hgone⟩

/-- The end of the stream is behind all bytes of the accepted writes but those of writes that
failed, and nothing goes out after it. -/
theorem fin_is_last (blocking : Bool) (ls : List Label) :
    (machine blocking).Always (fun s => ∀ w ∈ s.fin, s.wire = w ∧
      ∀ i < s.accepted.length, ∃ a ∈ s.fixed, a.1 = i ∧
        (a.2 = 0 → s.written[i]? = s.accepted[i]?)) (machine blocking).init ls := by
  refine good_always (fun s h w hw => ?_) blocking ls
  obtain ⟨hshut, rfl⟩ := h.ready.flags.fin w hw
  have hqueue := (h.ready.flags.shut hshut).2
  refine ⟨rfl, fun i hi => ?_⟩
  rcases h.fixed_or_queued hi with ⟨a, ha, rfl⟩ | ⟨req, hreq, -⟩
  · refine ⟨a, ha, rfl, fun hzero => ?_⟩
    obtain ⟨v, b, hv, hb, -, hall⟩ := h.ready.kept.sent a ha
    rw [hv, hb, hall hzero]
  · simp [hqueue] at hreq

-- A write that the system takes in two parts, with a second one and a shutdown behind it.
example : ((machine false).run (machine false).init
    [.write [[1, 2, 3]] [.wrote 2], .write [[4]] [], .shutdown,
      .io false [.wrote 1, .wrote 1] 0, .ret 0, .ret 0, .ret 0]).map
    (fun s => (s.wire, s.called, s.fin)) =
      some ([1, 2, 3, 4], [(0, 0), (1, 0)], some [1, 2, 3, 4]) := by
  decide

end

end HxcppLuv.Stream.Write
