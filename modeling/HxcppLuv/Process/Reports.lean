import HxcppLuv.Process.Wiring

/-!
The whole of `uv__process_child_init`: with what a program starts that it lets start, and that
the parent reads why it does not.
-/

namespace HxcppLuv.Process.Child

open Calls Descriptors Sys

variable {k k' : Kernel} {o : Options} {n fd : Nat} {pipes : Nat → Option Nat} {u : Unit}

theorem change_ok {f : Kernel → Kernel} (h : change f k = .ok u k') : k' = f k := by
  cases h
  rfl

/-- With what the program starts. -/
structure Ready (o : Options) (n : Nat) (pipes : Nat → Option Nat) (k k' : Kernel) : Prop where
  descriptors : ∀ fd, k'.table.entry fd = wanted k.table n pipes fd
  program : k'.program = some ⟨o.file, o.args, o.env.getD k.environ⟩
  handled : ∀ s ∈ signals, k'.handled s = false
  blocked : k'.blocked = false
  cwd : k'.cwd = o.cwd.getD k.cwd
  gid : k'.gid = o.gid.getD k.gid
  uid : k'.uid = o.uid.getD k.uid

/-- What is open at a descriptor stays there. -/
def Holds (fd : Nat) (k k' : Kernel) : Prop :=
  ∀ d, k.table.entry fd = some d → k'.table.entry fd = some d

namespace Holds

variable {errorFd : Nat}

theorem refl (k : Kernel) : Holds errorFd k k := fun _ hd => hd

theorem trans (k k' k'' : Kernel) (h : Holds errorFd k k') (h' : Holds errorFd k' k'') :
    Holds errorFd k k'' := fun d hd => h' d (h d hd)

theorem same (h : k'.table = k.table) : Holds errorFd k k' := fun _ hd => h ▸ hd

theorem fault : Keeps (Holds errorFd) fault := fault_keeps refl fun _ _ => refl _

/-- A call that is tried, and then does not touch the table. -/
theorem faultChange {f : Kernel → Kernel} (hf : ∀ k, (f k).table = k.table) :
    Keeps (Holds errorFd) (do Sys.fault; change f) :=
  .bind trans fault fun _ k => same (hf k)

theorem setEntry {d : Descriptor File} (hne : fd ≠ errorFd) :
    Keeps (Holds errorFd) (setEntry fd d) := by
  intro k e he
  exact (Table.entry_set ..).trans ((if_neg hne.symm).trans he)

theorem close (hne : fd ≠ errorFd) : Keeps (Holds errorFd) (close fd) := by
  intro k e he
  exact (Table.entry_clear ..).trans ((if_neg hne.symm).trans he)

/-- What is free is not what is held. -/
theorem setLowest {least : Nat} {d : Descriptor File} {new : Nat}
    (h : Sys.lowest least k = .ok new k') : Holds errorFd k (final (Sys.setEntry new d k')) := by
  obtain ⟨rfl, hnew⟩ := lowest_ok h
  intro e he
  refine setEntry (fun heq => ?_) k' e he
  rw [← heq, (Table.lowest_spec hnew).2.2.1] at he
  cases he

theorem dupfdCloexec {least : Nat} : Keeps (Holds errorFd) (dupfdCloexec fd least) := by
  refine .bind trans fault fun _ => .bind trans (lookup_keeps refl fd) fun _ => ?_
  exact .bind_at (lowest_keeps refl least) fun _ _ _ h _ => setLowest h

theorem dup2 {old : Nat} (hne : fd ≠ errorFd) : Keeps (Holds errorFd) (dup2 old fd) := by
  refine .bind trans fault fun _ => .bind trans (lookup_keeps refl old) fun d k => ?_
  split
  · exact setEntry hne k
  · exact refl k

theorem cloexec {set : Bool} (hne : fd ≠ errorFd) : Keeps (Holds errorFd) (cloexec fd set) :=
  .bind trans fault fun _ => .bind trans (lookup_keeps refl fd) fun _ => setEntry hne

theorem openDevNull {readOnly : Bool} : Keeps (Holds errorFd) (openDevNull readOnly) := by
  refine .bind trans fault fun _ => ?_
  exact .bind_at (lowest_keeps refl 0) fun _ _ _ h _ => setLowest h

theorem nonblock {set : Bool} : Keeps (Holds errorFd) (nonblock fd set) :=
  .bind trans fault fun _ => .bind trans (lookup_keeps refl fd) fun _ _ => same rfl

theorem privileged {allowed : Kernel → Bool} {f : Kernel → Kernel}
    (hf : ∀ k, (f k).table = k.table) : Keeps (Holds errorFd) (privileged allowed f) := by
  intro k
  unfold Sys.privileged
  split
  · exact faultChange hf k
  · exact refl k

theorem only {p : Prop} [Decidable p] {x : Sys Unit} (hx : Keeps (Holds errorFd) x) :
    Keeps (Holds errorFd) (only p x) := by
  unfold Child.only
  split
  · exact hx
  · exact .pure refl ()

theorem given {α : Type} {x : Option α} {f : α → Sys Unit}
    (hf : ∀ a, Keeps (Holds errorFd) (f a)) : Keeps (Holds errorFd) (given x f) := by
  cases x with
  | none => exact .pure refl ()
  | some a => exact hf a

theorem each {f : Nat → Sys Unit} {ns : List Nat} (hf : ∀ m ∈ ns, Keeps (Holds errorFd) (f m)) :
    Keeps (Holds errorFd) (each f ns) := by
  induction ns with
  | nil => exact .pure refl ()
  | cons m ns ih =>
      refine .bind trans (hf m List.mem_cons_self) fun _ => ih fun i hi => ?_
      exact hf i (List.mem_cons_of_mem m hi)

theorem duplicateLow {fds : List Nat} :
    Keeps (Holds errorFd) (duplicateLow n fds pipes) := by
  induction fds generalizing pipes with
  | nil => exact .pure refl pipes
  | cons v fds ih =>
      unfold Child.duplicateLow
      split
      · exact ih
      · split
        · exact ih
        · exact .bind trans dupfdCloexec fun _ => ih

/-- The second loop closes only what it opened, and writes only over `fd`. -/
theorem assign (hne : fd ≠ errorFd) : Keeps (Holds errorFd) (assign n pipes fd) := by
  unfold Child.assign
  split
  · refine only (.bind trans (close hne) fun _ => ?_)
    refine .bind_at openDevNull fun _ useFd k' h hk d hd => ?_
    have hfree := (Table.lowest_spec (openDevNull_ok h).1).2.2.1
    have huse : useFd ≠ errorFd := by
      rintro rfl
      rw [hfree] at hd
      cases hd
    refine Keeps.bind (R := Holds errorFd) trans (only (dup2 hne)) (fun _ => ?_) k' d (hk d hd)
    exact only (close huse)
  · refine .bind trans ?_ fun _ => only (ignore_keeps nonblock)
    rename_i useFd _
    by_cases heq : fd = useFd
    · simp only [heq, decide_true, cond_true]
      exact cloexec (heq ▸ hne)
    · simp only [heq, decide_false, cond_false]
      exact dup2 hne

end Holds

end HxcppLuv.Process.Child
