import HxcppLuv.Process.Pairs

/-!
The whole of `uv_spawn` for streams: the program that starts and the loop's process hold the two
ends of the pairs and nothing else of what was made, and what `uv_spawn` returns says whether a
program has started.
-/

namespace HxcppLuv.Process.Parent

open Calls Child Descriptors

variable {o : Options} {k k₁ k₂ k' kf kc : Kernel} {own errorFd fd n : Nat} {cs : List Container}
  {ends : List Ends} {faults : List (Option Errno)}

/-- The pairs that are open were made before. -/
def Known (k : Kernel) : Prop :=
  ∀ fd d id second, k.table.entry fd = some d → d.file = .pair id second → id < k.made

/-- The program that was asked for, with `n` streams. -/
structure Started (o : Options) (n : Nat) (k kc : Kernel) : Prop where
  descriptors : ∀ fd, kc.table.entry fd =
    if fd < n then some ⟨.pair (k.made + fd) true, false⟩
    else if fd < 3 then some ⟨.devNull (fd = 0), false⟩
    else k.table.exec.entry fd
  program : kc.program = some ⟨o.file, o.args, o.env.getD k.environ⟩
  handled : ∀ s ∈ signals, kc.handled s = false
  blocked : kc.blocked = false
  cwd : kc.cwd = o.cwd.getD k.cwd
  gid : kc.gid = o.gid.getD k.gid
  uid : kc.uid = o.uid.getD k.uid

/-- `pipes[i][1]`. -/
abbrev others (ends : List Ends) (i : Nat) : Option Nat := ends[i]?.bind Ends.other

/-- The number of the pipe is not that of a pair, or of one there was. -/
theorem Makes.known (h : Makes cs k ends k') (hk : Known k) : Known k' := by
  have hmade : k'.made = k.made + ends.length := congrArg Seen.made h.seen
  intro fd d id second hd hfile
  rcases h.new hd with hold | ⟨i, e, he, hends⟩
  · have := hk fd d id second hold hfile
    omega
  · have hi : i < ends.length := (List.getElem?_eq_some_iff.mp he).1
    rcases hends with ⟨-, rfl⟩ | ⟨-, rfl⟩
    · cases hfile
      omega
    · cases hfile
      omega

section Streams

variable {s : State}

/-- A stream that was just initialised. -/
def blank : Stream := ⟨none, false, false⟩

end Streams

/-- Nothing of what was made is left. -/
structure Restored (s s' : State) : Prop where
  entry : ∀ fd, s'.kernel.table.entry fd = s.kernel.table.entry fd
  streams : s'.streams = s.streams

/-- Each stream has the parent's end of its pair, in the direction its flags say, and there is
nothing else that is new. -/
structure Opened (cs : List Container) (s s' : State) : Prop where
  streams : ∀ (i stream : Nat) (readable writable : Bool),
    cs[i]? = some (.createPipe stream readable writable) →
    ∃ fd, s'.streams stream = ⟨some fd, writable, readable⟩ ∧
      s'.kernel.table.entry fd = some ⟨.pair (s.kernel.made + i) false, true⟩
  rest : ∀ stream, stream ∉ cs.filterMap Container.stream → s'.streams stream = s.streams stream
  entry : ∀ fd, (∀ stream ∈ cs.filterMap Container.stream, (s'.streams stream).fd ≠ some fd) →
    s'.kernel.table.entry fd = s.kernel.table.entry fd

/-- What `uv_spawn` comes to for streams. -/
structure Outcome (o : Options) (cs : List Container) (s : State) (r : Spawned) : Prop where
  code : r.code = 0 ↔ r.child ≠ none
  nonpos : r.code ≤ 0
  active : r.active = true ↔ r.child ≠ none
  started : ∀ kc, r.child = some kc → Started o cs.length s.kernel kc
  parent : Opened cs s r.state ∨ r.child = none ∧ Restored s r.state

end HxcppLuv.Process.Parent
