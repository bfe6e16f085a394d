import Mathlib.Data.List.Basic

/-!
Buffers nothing that is scanned refers to, on a heap whose collector may run at
every allocation: such a buffer can be read until the first collection after it was
made. `gc n` says whether the `n`th allocation point collects.
-/

namespace HxcppLuv

universe u

structure Buffer (α : Type u) where
  content : α
  live : Bool
  deriving DecidableEq

structure Collected (α : Type u) where
  buffers : List (Buffer α)
  points : Nat
  deriving DecidableEq

namespace Collected

variable {α : Type u} {gc : Nat → Bool} {m m' m'' : Collected α}

def empty : Collected α := ⟨[], 0⟩

/-- An allocation point of an object that is scanned, or of one nobody reads. -/
def point (gc : Nat → Bool) (m : Collected α) : Collected α :=
  { buffers := if gc m.points then m.buffers.map fun b => { b with live := false } else m.buffers
    points := m.points + 1 }

/-- An allocation of a buffer only the caller knows, and its address. -/
def allocate (gc : Nat → Bool) (m : Collected α) (content : α) : Nat × Collected α :=
  let m := m.point gc
  (m.buffers.length, { m with buffers := m.buffers ++ [⟨content, true⟩] })

def read (m : Collected α) (i : Nat) : Option α :=
  m.buffers[i]?.bind fun b => if b.live then some b.content else none

/-- No allocation point from `n` on and before `k` collects. -/
def Quiet (gc : Nat → Bool) (n k : Nat) : Prop := ∀ j < k, n ≤ j → gc j = false

instance (n k : Nat) : Decidable (Quiet gc n k) := Nat.decidableBallLT k _

theorem quiet_self (n : Nat) : Quiet gc n n := by
  intro j hlt hle
  omega

theorem quiet_trans {a b c : Nat} (hab : a ≤ b) (hbc : b ≤ c) :
    Quiet gc a c ↔ Quiet gc a b ∧ Quiet gc b c := by
  constructor
  · intro h
    exact ⟨fun j hj ha => h j (by omega) ha, fun j hj hb => h j hj (by omega)⟩
  · intro ⟨h1, h2⟩ j hj ha
    by_cases hlt : j < b
    · exact h1 j hlt ha
    · exact h2 j hj (by omega)

/-- `m'` comes after `m`: what was there can be read in the absence of a collection. -/
structure Later (gc : Nat → Bool) (m m' : Collected α) : Prop where
  points : m.points ≤ m'.points
  length : m.buffers.length ≤ m'.buffers.length
  read : ∀ i < m.buffers.length,
    m'.read i = if Quiet gc m.points m'.points then m.read i else none

theorem Later.refl (gc : Nat → Bool) (m : Collected α) : Later gc m m where
  points := Nat.le_refl _
  length := Nat.le_refl _
  read _ _ := (if_pos (quiet_self m.points)).symm

theorem Later.trans (h : Later gc m m') (h' : Later gc m' m'') : Later gc m m'' where
  points := Nat.le_trans h.points h'.points
  length := Nat.le_trans h.length h'.length
  read i hi := by
    rw [h'.read i (Nat.lt_of_lt_of_le hi h.length), h.read i hi]
    simp only [quiet_trans h.points h'.points]
    by_cases h1 : Quiet gc m.points m'.points <;> simp [h1]

theorem later_point (gc : Nat → Bool) (m : Collected α) : Later gc m (m.point gc) where
  points := Nat.le_succ _
  length := by
    simp only [point]
    split <;> simp
  read i hi := by
    have hquiet : Quiet gc m.points (m.points + 1) ↔ gc m.points = false := by
      constructor
      · intro h
        exact h m.points (Nat.lt_succ_self _) (Nat.le_refl _)
      · intro h j hlt hle
        rwa [show j = m.points by omega]
    simp only [point, hquiet]
    cases hgc : gc m.points with
    | false => simp [read]
    | true => simp [read, List.getElem?_map, Option.bind_map]

theorem later_allocate (gc : Nat → Bool) (m : Collected α) (content : α) :
    Later gc m (m.allocate gc content).2 := by
  apply (later_point gc m).trans
  exact {
    points := Nat.le_refl _
    length := by simp [allocate]
    read := fun i hi => by
      have hself : Quiet gc (m.point gc).points (m.allocate gc content).2.points := quiet_self _
      rw [if_pos hself]
      simp only [read, allocate, List.getElem?_append_left hi] }

/-- What a new buffer reads as later on. -/
theorem read_allocate {content : α} (h : Later gc (m.allocate gc content).2 m') :
    m'.read (m.allocate gc content).1 =
      if Quiet gc (m.points + 1) m'.points then some content else none := by
  rw [h.read _ (by simp [allocate])]
  simp [read, allocate, point]

/-- From every buffer that is kept on, no allocation point before `k` collects; `kept`
tells for the points from `n` on whether the buffer made there is. -/
def Held (gc : Nat → Bool) (k : Nat) : Nat → List Bool → Prop
  | _, [] => True
  | n, b :: kept => (b = true → Quiet gc (n + 1) k) ∧ Held gc k (n + 1) kept

instance decidableHeld (k : Nat) : ∀ n kept, Decidable (Held gc k n kept)
  | _, [] => isTrue trivial
  | n, b :: kept =>
      have := decidableHeld k (n + 1) kept
      inferInstanceAs (Decidable ((b = true → Quiet gc (n + 1) k) ∧ Held gc k (n + 1) kept))

theorem held_append {k n : Nat} {kept rest : List Bool} :
    Held gc k n (kept ++ rest) ↔ Held gc k n kept ∧ Held gc k (n + kept.length) rest := by
  induction kept generalizing n with
  | nil => simp [Held]
  | cons b kept ih =>
      simp only [List.cons_append, Held, List.length_cons, ih, and_assoc]
      rw [Nat.add_assoc n 1, Nat.add_comm 1]

end Collected
end HxcppLuv
