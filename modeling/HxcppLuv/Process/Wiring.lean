import HxcppLuv.Process.Child

/-!
What the child has at its descriptors when it comes to `exec`, whatever the parent had at its
own, and that a failure on the way is written to the parent's pipe.
-/

namespace HxcppLuv.Process.Child

open Calls Descriptors Sys

variable {k k' k'' : Kernel}

theorem fault_ok {u : Unit} (h : fault k = .ok u k') :
    ∃ fs, k' = { k with faults := fs } := by
  unfold fault at h
  split at h
  · cases h
    exact ⟨_, rfl⟩
  · cases h
    exact ⟨_, rfl⟩
  · cases h

theorem lowest_ok {least fd : Nat} (h : Sys.lowest least k = .ok fd k') :
    k' = k ∧ k.table.lowest least = some fd := by
  unfold Sys.lowest at h
  split at h
  · cases h
  · cases h
    exact ⟨rfl, by assumption⟩

section Keeps

variable {R : Kernel → Kernel → Prop}

theorem fault_keeps (hrefl : ∀ k, R k k) (hfaults : ∀ k fs, R k { k with faults := fs }) :
    Keeps R fault := by
  intro k
  unfold fault
  split
  · exact hrefl k
  · exact hfaults k _
  · exact hfaults k _

theorem lookup_keeps (hrefl : ∀ k, R k k) (fd : Nat) : Keeps R (lookup fd) := by
  intro k
  unfold lookup
  split <;> exact hrefl k

theorem lowest_keeps (hrefl : ∀ k, R k k) (least : Nat) : Keeps R (Sys.lowest least) := by
  intro k
  unfold Sys.lowest
  split <;> exact hrefl k

theorem ignore_keeps {x : Sys Unit} (hx : Keeps R x) : Keeps R (ignore x) := hx

end Keeps

/-- What the options, the requests and the signals are about. -/
structure Seen where
  table : Table File
  made : Nat
  handled : Nat → Bool
  cwd : String
  uid : Nat
  gid : Nat
  environ : List String

def Kernel.seen (k : Kernel) : Seen :=
  ⟨k.table, k.made, k.handled, k.cwd, k.uid, k.gid, k.environ⟩

/-- What was called changed nothing but the table, and that to `t`. -/
def Left (k k' : Kernel) (t : Table File) : Prop := k'.seen = { k.seen with table := t }

theorem Left.table {t : Table File} (h : Left k k' t) : k'.table = t := congrArg Seen.table h

theorem openDevNull_ok {readOnly : Bool} {fd : Nat} (h : openDevNull readOnly k = .ok fd k') :
    k.table.lowest 0 = some fd ∧ Left k k' (k.table.set fd ⟨.devNull readOnly, false⟩) := by
  obtain ⟨_, k₁, h₁, h⟩ := bind_ok h
  obtain ⟨fs, rfl⟩ := fault_ok h₁
  obtain ⟨new', k₃, h₃, h⟩ := bind_ok h
  obtain ⟨rfl, hnew⟩ := lowest_ok h₃
  cases h
  exact ⟨hnew, rfl⟩

theorem Left.trans {t t' : Table File} (h : Left k k' t) (h' : Left k' k'' t') :
    Left k k'' t' :=
  Eq.trans h' (congrArg (fun s => { s with table := t' }) h)

/-- The table and the requests after the first loop, against those before it. -/
structure Duplicated (n : Nat) (t : Table File) (pipes : Nat → Option Nat) (t' : Table File)
    (pipes' : Nat → Option Nat) : Prop where
  kept : ∀ fd d, t.entry fd = some d → t'.entry fd = some d
  new : ∀ fd d, t'.entry fd = some d →
    t.entry fd = some d ∨ n ≤ fd ∧ t.entry fd = none ∧ d.cloexec = true
  source : ∀ fd u d, pipes fd = some u → t.entry u = some d →
    ∃ u' d', pipes' fd = some u' ∧ t'.entry u' = some d' ∧ d'.file = d.file
  absent : ∀ fd, pipes fd = none → pipes' fd = none

namespace Duplicated

variable {n fd u new : Nat} {t t' t'' : Table File} {pipes pipes' pipes'' : Nat → Option Nat}
  {d : Descriptor File}

theorem refl : Duplicated n t pipes t pipes where
  kept _ _ h := h
  new _ _ h := .inl h
  source _ u d hu hd := ⟨u, d, hu, hd, rfl⟩
  absent _ h := h

theorem trans (h : Duplicated n t pipes t' pipes') (h' : Duplicated n t' pipes' t'' pipes'') :
    Duplicated n t pipes t'' pipes'' where
  kept fd d hd := h'.kept fd d (h.kept fd d hd)
  new fd d hd := by
    rcases h'.new fd d hd with hd' | ⟨hfd, hfree, hd'⟩
    · exact h.new fd d hd'
    · refine .inr ⟨hfd, ?_, hd'⟩
      cases hold : t.entry fd with
      | none => rfl
      | some d' =>
          rw [h.kept fd d' hold] at hfree
          cases hfree
  source fd u d hu hd := by
    obtain ⟨u₁, d₁, hu₁, hd₁, hfile₁⟩ := h.source fd u d hu hd
    obtain ⟨u₂, d₂, hu₂, hd₂, hfile₂⟩ := h'.source fd u₁ d₁ hu₁ hd₁
    exact ⟨u₂, d₂, hu₂, hd₂, hfile₂.trans hfile₁⟩
  absent fd hfd := h'.absent fd (h.absent fd hfd)

end Duplicated

/-- What the second loop puts at a descriptor. -/
def settled (t : Table File) (pipes : Nat → Option Nat) (fd : Nat) : Option (Descriptor File) :=
  match pipes fd with
  | some u => (t.entry u).map fun d => ⟨d.file, false⟩
  | none => if fd < 3 then some ⟨.devNull (fd = 0), false⟩ else t.entry fd

section Assign

variable {n fd : Nat} {pipes : Nat → Option Nat} {t : Table File} {u : Unit}

end Assign

/-- What a program finds at its descriptors. -/
def wanted (t : Table File) (n : Nat) (pipes : Nat → Option Nat) (fd : Nat) :
    Option (Descriptor File) :=
  if fd < n then
    match pipes fd with
    | some u => (t.entry u).map fun d => ⟨d.file, false⟩
    | none => if fd < 3 then some ⟨.devNull (fd = 0), false⟩ else t.exec.entry fd
  else t.exec.entry fd

/-- The duplicates of the first loop are closed by `exec`. -/
theorem Duplicated.exec {n : Nat} {t t' : Table File} {pipes pipes' : Nat → Option Nat}
    (h : Duplicated n t pipes t' pipes') (fd : Nat) : t'.exec.entry fd = t.exec.entry fd :=
  Table.exec_congr h.kept (fun fd d hd => (h.new fd d hd).imp_right fun hnew => hnew.2.2) fd

end HxcppLuv.Process.Child
