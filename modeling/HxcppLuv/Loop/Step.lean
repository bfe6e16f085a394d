import HxcppLuv.Loop.Model

/-!
The branches of `step`, one constructor each, with what is known of the handle in
them. Calls that fail, abort the program or do nothing have a constructor in common.
-/

namespace HxcppLuv.Loop

open State

/-- The handle a call of the user's is on, for those that only look at this handle. -/
def Label.callee : Label → Option Nat
  | .tcpListen h _ | .signalStart h _ _ | .signalStop h | .timerStop h | .streamRead h _
  | .streamStop h => some h
  | _ => none

inductive Step (s : State) : Label → State → Prop where
  | callDeleted {l : Label} {h : Nat} {hd : Handle} (hl : l.callee = some h)
      (hh : s.handles[h]? = some hd) (ha : hd.allocated = false) :
      Step s l { s with fault := true }
  | callAborted {l : Label} {h : Nat} {hd : Handle} (hl : l.callee = some h)
      (hh : s.handles[h]? = some hd) (ha : hd.allocated = true) :
      Step s l { s with aborted := true }
  | callRefused {l : Label} {h : Nat} {hd : Handle} (hl : l.callee = some h)
      (hh : s.handles[h]? = some hd) (ha : hd.allocated = true) : Step s l s
  | pipeRefused (init result : Int) (hi : init < 0) : Step s (.pipeOpen init result) s
  | pipeDeleted (init result : Int) (hi : 0 ≤ init) (hr : result < 0) :
      Step s (.pipeOpen init result) (s.add { Handle.init .pipe with allocated := false })
  | pipeOpen (init result : Int) (hr : 0 ≤ result) :
      Step s (.pipeOpen init result)
        (s.add { Handle.init .pipe with data := .live .streamData, given := true })
  | bindRefused (addr init result : Int) : Step s (.tcpBind addr init result) s
  | bindFailed (addr init result : Int) :
      Step s (.tcpBind addr init result)
        ((s.add (Handle.init .server)).uvClose s.handles.length .deleteHandle)
  | tcpBind (addr init result : Int) :
      Step s (.tcpBind addr init result) (s.add { Handle.init .server with given := true })
  | tcpListen {h : Nat} (result : Int) {hd : Handle} (hh : s.handles[h]? = some hd)
      (ha : hd.allocated = true) (hc : hd.closing = false) (hk : hd.kind = .server) :
      Step s (.tcpListen h result)
        ((s.store h hd.data .callbackRoot).modify h fun hd => { hd with listening := true })
  | acceptDeleted {h : Nat} (result : Int) {hd : Handle} (hh : s.handles[h]? = some hd)
      (ha : hd.allocated = false) : Step s (.tcpAccept h result) { s with fault := true }
  | acceptFailed {h : Nat} {result : Int} {hd : Handle} (hh : s.handles[h]? = some hd)
      (ha : hd.allocated = true) (hr : hd.closing = true ∨ result < 0) :
      Step s (.tcpAccept h result) (s.add { Handle.init .client with allocated := false })
  | tcpAccept {h : Nat} {result : Int} {hd : Handle} (hh : s.handles[h]? = some hd)
      (ha : hd.allocated = true) (hc : hd.closing = false) (hr : 0 ≤ result) :
      Step s (.tcpAccept h result)
        (s.add { Handle.init .client with data := .live .streamData, given := true })
  | ttyFailed (result : Int) : Step s (.ttyInit result) { s with stray := s.stray ++ [.tty] }
  | ttyInit (result : Int) :
      Step s (.ttyInit result)
        (s.add { Handle.init .tty with data := .live .streamData, given := true })
  | signalRefused (result : Int) : Step s (.signalInit result) s
  | signalInit (result : Int) :
      Step s (.signalInit result) (s.add { Handle.init .signal with given := true })
  | signalKept {h : Nat} (signum registered : Int) {hd : Handle} (hh : s.handles[h]? = some hd)
      (ha : hd.allocated = true) (hc : hd.closing = false) (hk : hd.kind = .signal) :
      Step s (.signalStart h signum registered) (s.store h hd.data .callbackRoot)
  | signalDropped {h : Nat} (signum registered : Int) {hd : Handle}
      (hh : s.handles[h]? = some hd) (ha : hd.allocated = true) :
      Step s (.signalStart h signum registered)
        (s.modify h fun hd => { hd with signum := 0 })
  | signalStart {h : Nat} (signum registered : Int) {hd : Handle} (hh : s.handles[h]? = some hd)
      (ha : hd.allocated = true) (hc : hd.closing = false) (hk : hd.kind = .signal) :
      Step s (.signalStart h signum registered)
        ((s.store h hd.data .callbackRoot).modify h fun hd => { hd with signum := signum })
  | signalStop {h : Nat} {hd : Handle} (hh : s.handles[h]? = some hd) (ha : hd.allocated = true)
      (hc : hd.closing = false) (hk : hd.kind = .signal) :
      Step s (.signalStop h)
        ((s.use h .callbackRoot false hd.data).modify h fun hd =>
          { hd with signum := 0, data := hd.data.delete })
  | spawn (result : Int) : Step s (.spawn result) (s.spawn result)
  | timerRun : Step s .timerRun s.timerRun
  | timerRepeat : Step s .timerRepeat s.timerRepeat
  | timerStop {h : Nat} {hd : Handle} (hh : s.handles[h]? = some hd) (ha : hd.allocated = true) :
      Step s (.timerStop h) (s.modify h fun hd => { hd with active := false })
  | asyncFailed (result : Int) :
      Step s (.asyncInit result)
        { s with stray := s.stray ++ [.async], lost := s.lost ++ [.callbackRoot] }
  | asyncInit (result : Int) :
      Step s (.asyncInit result)
        (s.add { Handle.init .async with
          data := .live .callbackRoot
          active := true
          given := true })
  | streamRead {h : Nat} (result : Int) {hd : Handle} (hh : s.handles[h]? = some hd)
      (ha : hd.allocated = true) (hc : hd.closing = false) (hk : hd.kind.isReadable = true) :
      Step s (.streamRead h result)
        ((s.use h .streamData false hd.data).modify h fun hd => { hd with reading := true })
  | streamStop {h : Nat} {hd : Handle} (hh : s.handles[h]? = some hd) (ha : hd.allocated = true) :
      Step s (.streamStop h) (s.modify h fun hd => { hd with reading := false })
  | close {h : Nat} {hd : Handle} {cb : CloseCb} (hh : s.handles[h]? = some hd)
      (hcb : hd.kind.closeCb = some cb) :
      Step s (.close h) ((s.modify h fun hd => { hd with userClosed := true }).uvClose h cb)
  | streamEvent {h : Nat} (ended : Bool) {hd : Handle} (hh : s.handles[h]? = some hd)
      (ha : hd.allocated = true) (hc : hd.closing = false) (hr : hd.reading = true) :
      Step s (.streamEvent h ended)
        ((s.use h .streamData false hd.data).modify h fun hd =>
          { hd with reading := hd.reading && !ended })
  | connection {h : Nat} {hd : Handle} (hh : s.handles[h]? = some hd) (ha : hd.allocated = true)
      (hc : hd.closing = false) (hr : hd.listening = true) :
      Step s (.connection h) (s.use h .callbackRoot false hd.data)
  | signalEvent {h : Nat} {hd : Handle} (hh : s.handles[h]? = some hd) (ha : hd.allocated = true)
      (hc : hd.closing = false) (hr : hd.signum ≠ 0) :
      Step s (.signalEvent h) (s.use h .callbackRoot false hd.data)
  | asyncEvent {h : Nat} {hd : Handle} (hh : s.handles[h]? = some hd) (ha : hd.allocated = true)
      (hc : hd.closing = false) (hk : hd.kind = .async) :
      Step s (.asyncEvent h) (s.use h .callbackRoot false hd.data)
  | runTimer {h : Nat} {hd : Handle} (hh : s.handles[h]? = some hd) (ha : hd.allocated = true)
      (hc : hd.closing = false) (hk : hd.kind = .runTimer) :
      Step s (.timerEvent h)
        { (s.use h .runData false hd.data).modify h fun hd => { hd with active := false } with
          frame := .task h }
  | repeatTimer {h : Nat} {hd : Handle} (hh : s.handles[h]? = some hd) (ha : hd.allocated = true)
      (hc : hd.closing = false) (hk : hd.kind = .repeatTimer) :
      Step s (.timerEvent h) (s.use h .rootedObject false hd.data)
  | taskReturn {h : Nat} (hf : s.frame = .task h) :
      Step s .taskReturn
        { (s.uvClose h .deleteHandle).modify h fun hd => { hd with data := hd.data.delete } with
          frame := .idle }
  | childExit {h : Nat} {hd : Handle} (hh : s.handles[h]? = some hd) (ha : hd.allocated = true)
      (hc : hd.closing = false) (hk : hd.kind = .process) (hr : hd.active = true) :
      Step s (.childExit h)
        { (s.use h .spawnData false hd.data).modify h fun hd => { hd with active := false } with
          frame := .exit h }
  | exitReturn {h i o e : Nat} {hd : Handle} (hf : s.frame = .exit h)
      (hh : s.handles[h]? = some hd) (hdata : hd.data = .live (.spawnData i o e)) :
      Step s .exitReturn
        { (((s.uvClose i .ttyClose).uvClose o .ttyClose).uvClose e .ttyClose).modify h fun hd =>
            { hd with data := hd.data.delete, allocated := false } with
          frame := .idle }
  | walked (h : Nat) : Step s (.walk h) s
  | walk {h : Nat} {hd : Handle} (hh : s.handles[h]? = some hd) (hl : hd.linked = true) :
      Step s (.walk h) (s.uvClose h .null)
  | finishClose {h : Nat} {hd : Handle} (hf : s.frame = .idle) (hmem : h ∈ s.closing)
      (hh : s.handles[h]? = some hd) (hcasts : hd.closeCb.casts = none) :
      Step s (.finishClose h) { s.modify h Handle.finish with closing := s.closing.erase h }
  | finishCast {h : Nat} {hd : Handle} {expects : Tag} {nullOk : Bool} (hf : s.frame = .idle)
      (hmem : h ∈ s.closing) (hh : s.handles[h]? = some hd)
      (hcasts : hd.closeCb.casts = some (expects, nullOk)) :
      Step s (.finishClose h)
        ({ s.modify h Handle.finish with closing := s.closing.erase h }.use h expects nullOk
          hd.data)

section

variable {s t : State} {l : Label} {h : Nat}

/-- A call of the user's meets a handle that was deleted, or does what it says. -/
theorem step_of_call {ofKind : Kind → Bool} {f : Handle → State} (hs : s.call h ofKind f = some t)
    (hdeleted : ∀ hd, s.handles[h]? = some hd → hd.allocated = false →
      Step s l { s with fault := true })
    (hlive : ∀ hd, s.handles[h]? = some hd → hd.allocated = true → ofKind hd.kind = true →
      Step s l (f hd)) : Step s l t := by
  obtain ⟨hd, hh, hs⟩ := Option.bind_eq_some_iff.mp hs
  obtain ⟨⟨-, hk⟩, rfl⟩ := Machine.of_guard hs
  split
  · exact hlive hd hh ‹_› hk
  · exact hdeleted hd hh (eq_false_of_ne_true ‹_›)

theorem step_of_event {ready : Handle → Bool} {f : Handle → State}
    (hs : s.event h ready f = some t)
    (hf : ∀ hd, s.handles[h]? = some hd → hd.allocated = true → hd.closing = false →
      ready hd = true → Step s l (f hd)) : Step s l t := by
  obtain ⟨hd, hh, hs⟩ := Option.bind_eq_some_iff.mp hs
  obtain ⟨⟨-, ha, hc, hr⟩, rfl⟩ := Machine.of_guard hs
  exact hf hd hh ha (by simpa using hc) hr

theorem step_signalStart {signum registered : Int}
    (hs : s.signalStart h signum registered = some t) :
    Step s (.signalStart h signum registered) t := by
  apply step_of_call hs (fun hd hh ha => .callDeleted rfl hh ha)
  intro hd hh ha hk
  have hk : hd.kind = .signal := of_decide_eq_true hk
  split
  · exact .callAborted rfl hh ha
  · rename_i hc
    have hc := eq_false_of_ne_true hc
    split
    · exact .callRefused rfl hh ha
    · split
      · exact .signalKept signum registered hh ha hc hk
      · split
        · exact .signalDropped signum registered hh ha
        · exact .signalStart signum registered hh ha hc hk

theorem step_timerEvent (hs : s.timerEvent h = some t) : Step s (.timerEvent h) t := by
  apply step_of_event hs
  intro hd hh ha hc hready
  split
  · exact .runTimer hh ha hc ‹_›
  · refine .repeatTimer hh ha hc ?_
    have htimer := (of_decide_eq_true hready).1
    cases hk : hd.kind <;> simp_all [Kind.isTimer]

theorem step_exitReturn (hs : s.exitReturn = some t) : Step s .exitReturn t := by
  simp only [State.exitReturn] at hs
  split at hs
  · rename_i h hf
    split at hs
    · rename_i i o e hdata
      obtain ⟨hd, hh, hdata⟩ := Option.map_eq_some_iff.mp hdata
      cases hs
      exact .exitReturn hf hh hdata
    · cases hs
  · cases hs

theorem step_finishClose (hs : s.finishClose h = some t) : Step s (.finishClose h) t := by
  obtain ⟨hd, hh, hs⟩ := Option.bind_eq_some_iff.mp hs
  obtain ⟨⟨hf, hmem⟩, rfl⟩ := Machine.of_guard hs
  split
  · exact .finishClose hf hmem hh ‹_›
  · exact .finishCast hf hmem hh ‹_›

theorem step_cases (hs : step s l = some t) : Step s l t := by
  simp only [step] at hs
  split at hs
  · cases hs
  cases l with
  | pipeOpen init result =>
      cases hs
      simp only [State.pipeOpen]
      split
      · exact .pipeRefused init result ‹_›
      · split
        · exact .pipeDeleted init result (Int.not_lt.mp ‹_›) ‹_›
        · exact .pipeOpen init result (Int.not_lt.mp ‹_›)
  | tcpBind addr init result =>
      cases hs
      simp only [State.tcpBind]
      split
      · exact .bindRefused addr init result
      · split
        · exact .bindRefused addr init result
        · split
          · exact .bindFailed addr init result
          · exact .tcpBind addr init result
  | tcpListen h result =>
      simp only [stepLive, State.tcpListen] at hs
      apply step_of_call hs (fun hd hh ha => .callDeleted rfl hh ha)
      intro hd hh ha hk
      split
      · exact .callRefused rfl hh ha
      · rename_i hr
        rw [not_or, Bool.not_eq_true] at hr
        exact .tcpListen result hh ha hr.1 (of_decide_eq_true hk)
  | tcpAccept h result =>
      simp only [stepLive, State.tcpAccept] at hs
      apply step_of_call hs (fun hd hh ha => .acceptDeleted result hh ha)
      intro hd hh ha _
      split
      · exact .acceptFailed hh ha ‹_›
      · rename_i hr
        rw [not_or, Bool.not_eq_true, Int.not_lt] at hr
        exact .tcpAccept hh ha hr.1 hr.2
  | ttyInit result =>
      cases hs
      simp only [State.ttyInit]
      split
      · exact .ttyFailed result
      · exact .ttyInit result
  | signalInit result =>
      cases hs
      simp only [State.signalInit]
      split
      · exact .signalRefused result
      · exact .signalInit result
  | signalStart h signum registered => exact step_signalStart hs
  | signalStop h =>
      simp only [stepLive, State.signalStop] at hs
      apply step_of_call hs (fun hd hh ha => .callDeleted rfl hh ha)
      intro hd hh ha hk
      split
      · exact .callAborted rfl hh ha
      · exact .signalStop hh ha (eq_false_of_ne_true ‹_›) (of_decide_eq_true hk)
  | spawn result => cases hs; exact .spawn result
  | timerRun => cases hs; exact .timerRun
  | timerRepeat => cases hs; exact .timerRepeat
  | timerStop h =>
      exact step_of_call hs (fun hd hh ha => .callDeleted rfl hh ha) fun hd hh ha _ =>
        .timerStop hh ha
  | asyncInit result =>
      cases hs
      simp only [State.asyncInit]
      split
      · exact .asyncFailed result
      · exact .asyncInit result
  | streamRead h result =>
      apply step_of_call hs (fun hd hh ha => .callDeleted rfl hh ha)
      intro hd hh ha hk
      split
      · exact .callRefused rfl hh ha
      · rename_i hr
        rw [not_or, Bool.not_eq_true] at hr
        exact .streamRead result hh ha hr.1 hk
  | streamStop h =>
      exact step_of_call hs (fun hd hh ha => .callDeleted rfl hh ha) fun hd hh ha _ =>
        .streamStop hh ha
  | close h =>
      obtain ⟨hd, hh, hs⟩ := Option.bind_eq_some_iff.mp hs
      obtain ⟨cb, hcb, hs⟩ := Option.bind_eq_some_iff.mp hs
      obtain ⟨-, rfl⟩ := Machine.of_guard hs
      exact .close hh hcb
  | streamEvent h ended =>
      exact step_of_event hs fun hd hh ha hc hr => .streamEvent ended hh ha hc hr
  | connection h => exact step_of_event hs fun hd hh ha hc hr => .connection hh ha hc hr
  | signalEvent h =>
      exact step_of_event hs fun hd hh ha hc hr => .signalEvent hh ha hc (of_decide_eq_true hr)
  | asyncEvent h =>
      exact step_of_event hs fun hd hh ha hc hr => .asyncEvent hh ha hc (of_decide_eq_true hr).1
  | timerEvent h => exact step_timerEvent hs
  | taskReturn =>
      simp only [stepLive, State.taskReturn] at hs
      split at hs <;> cases hs
      exact .taskReturn ‹_›
  | childExit h =>
      apply step_of_event hs
      intro hd hh ha hc hr
      exact .childExit hh ha hc (of_decide_eq_true hr).1 (of_decide_eq_true hr).2
  | exitReturn => exact step_exitReturn hs
  | walk h =>
      obtain ⟨hd, hh, hs⟩ := Option.bind_eq_some_iff.mp hs
      obtain ⟨⟨-, hl⟩, rfl⟩ := Machine.of_guard hs
      split
      · exact .walked h
      · exact .walk hh hl
  | finishClose h => exact step_finishClose hs

end

end HxcppLuv.Loop
