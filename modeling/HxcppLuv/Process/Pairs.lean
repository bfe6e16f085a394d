import HxcppLuv.Process.Parent
import HxcppLuv.Process.Reports

/-!
The descriptors the parent of a program holds on the way of `uv_spawn`: the pairs it makes, each
at the least numbers that are free, and what is left of them when they are closed again or given
to their streams.
-/

namespace HxcppLuv.Process.Parent

open Calls Child Descriptors

variable {k k₁ k' : Kernel} {a b fd m : Nat} {cs : List Container} {ends : List Ends}

/-- Every descriptor below `m` is open. -/
def Full (m : Nat) (k : Kernel) : Prop := ∀ fd < m, k.table.entry fd ≠ none

/-- The kernel after a pair was made at `a` and `b`. -/
structure Paired (k : Kernel) (a b : Nat) (k' : Kernel) : Prop where
  own : k.table.entry a = none
  other : k.table.entry b = none
  lt : a < b
  entry : ∀ fd, k'.table.entry fd =
    if fd = b then some ⟨.pair k.made true, true⟩
    else if fd = a then some ⟨.pair k.made false, true⟩
    else k.table.entry fd
  seen : k'.seen = { k.seen with table := k'.table, made := k.made + 1 }
  full : ∀ m, Full m k → Full (m + 2) k'

namespace Paired

theorem kept (h : Paired k a b k') {d : Descriptor File} (hd : k.table.entry fd = some d) :
    k'.table.entry fd = some d := by
  rw [h.entry, if_neg, if_neg, hd]
  · rintro rfl
    rw [h.own] at hd
    cases hd
  · rintro rfl
    rw [h.other] at hd
    cases hd

theorem made (h : Paired k a b k') : k'.made = k.made + 1 := congrArg Seen.made h.seen

theorem free (h : Paired k a b k') (hfree : k'.table.entry fd = none) :
    k.table.entry fd = none := by
  cases hd : k.table.entry fd with
  | none => rfl
  | some d =>
      rw [h.kept hd] at hfree
      cases hfree

end Paired

/-- The pairs made for a beginning of the containers. -/
inductive Makes : List Container → Kernel → List Ends → Kernel → Prop
  | nil (cs : List Container) (k : Kernel) : Makes cs k [] k
  | cons {k k₁ k' : Kernel} {a b stream : Nat} {readable writable : Bool} {cs : List Container}
      {ends : List Ends} (hpair : Paired k a b k₁) (hrest : Makes cs k₁ ends k') :
      Makes (.createPipe stream readable writable :: cs) k (⟨some a, some b⟩ :: ends) k'

namespace Makes

theorem kept (h : Makes cs k ends k') {d : Descriptor File} (hd : k.table.entry fd = some d) :
    k'.table.entry fd = some d := by
  induction h with
  | nil => exact hd
  | cons hpair _ ih =>
      exact ih (hpair.kept hd)

theorem seen (h : Makes cs k ends k') :
    k'.seen = { k.seen with table := k'.table, made := k.made + ends.length } := by
  induction h with
  | nil => rfl
  | cons hpair _ ih =>
      rw [ih, hpair.seen, hpair.made, List.length_cons, Nat.add_assoc, Nat.add_comm 1]

theorem full (h : Makes cs k ends k') (hm : Full m k) : Full (m + 2 * ends.length) k' := by
  induction h generalizing m with
  | nil => exact hm
  | cons hpair _ ih =>
      intro fd hfd
      apply ih (hpair.full m hm)
      rw [List.length_cons] at hfd
      omega

/-- What is open now was open before, or is an end of a pair. -/
theorem new (h : Makes cs k ends k') {d : Descriptor File} (hd : k'.table.entry fd = some d) :
    k.table.entry fd = some d ∨ ∃ i e, ends[i]? = some e ∧
      (e.own = some fd ∧ d = ⟨.pair (k.made + i) false, true⟩ ∨
        e.other = some fd ∧ d = ⟨.pair (k.made + i) true, true⟩) := by
  induction h with
  | nil => exact .inl hd
  | cons hpair _ ih =>
      rcases ih hd with hold | ⟨i, e, he, hfd⟩
      · rw [hpair.entry] at hold
        split at hold
        · rename_i hb
          cases hold
          exact .inr ⟨0, _, rfl, .inr ⟨congrArg some hb.symm, rfl⟩⟩
        · split at hold
          · rename_i ha
            cases hold
            exact .inr ⟨0, _, rfl, .inl ⟨congrArg some ha.symm, rfl⟩⟩
          · exact .inl hold
      · rw [hpair.made, Nat.add_assoc, Nat.add_comm 1] at hfd
        exact .inr ⟨i + 1, e, he, hfd⟩

/-- All that is made is closed by `exec`. -/
theorem exec (h : Makes cs k ends k') (fd : Nat) :
    k'.table.exec.entry fd = k.table.exec.entry fd := by
  apply Table.exec_congr (fun _ _ => h.kept)
  intro fd d hd
  cases h.new hd with
  | inl hold => exact .inl hold
  | inr hend =>
      obtain ⟨i, e, -, ⟨-, rfl⟩ | ⟨-, rfl⟩⟩ := hend
      · exact .inr rfl
      · exact .inr rfl

end Makes

/-- The stream that is to get an end of a pair. -/
def Container.stream : Container → Option Nat
  | .createPipe stream _ _ => some stream
  | .ignore | .inherit _ => none

end HxcppLuv.Process.Parent
