import HxcppLuv.Process.Spawn

/-!
Spawns that share an options object. No field of the object is assigned, but the
array it holds gets the program's name in front when the shell is asked for, so the
next command line has that name among its arguments.
-/

namespace HxcppLuv.Process.Spawn

/-- One call of `spawn`, with what the collector and `uv_spawn` do in it. -/
structure Call where
  gc : Nat → Bool
  file : HxString
  result : Int

/-- The arrays of the program, and what each call so far handed to `uv_spawn`. -/
structure State where
  arrays : Arrays
  spawned : List (Call × Option Spawned)

def machine (arrays : Arrays) (options : Option ProcessOptions) : Machine State Call where
  init := ⟨arrays, []⟩
  step s c :=
    let r := spawn c.gc s.arrays c.file options c.result
    some ⟨r.2, s.spawned ++ [(c, r.1)]⟩

/-- The arrays are as before the first call, and each call handed over what it would
have on its own. -/
structure Unchanged (arrays : Arrays) (options : Option ProcessOptions) (s : State) : Prop where
  kept : s.arrays = arrays
  alone : ∀ p ∈ s.spawned, p.2 = (spawn p.1.gc arrays p.1.file options p.1.result).1

/-- The shell is not asked for, or there is no array of arguments. -/
def Intact (options : Option ProcessOptions) : Prop :=
  ∀ o, options = some o → o.shell = true → o.args = none

theorem spawn_arrays {options : Option ProcessOptions} (h : Intact options) (gc : Nat → Bool)
    (arrays : Arrays) (file : HxString) (result : Int) :
    (spawn gc arrays file options result).2 = arrays := by
  cases options with
  | none => rfl
  | some o =>
      simp only [spawn, argv]
      split
      · simp [insertFile, h o rfl ‹_›]
      · rfl

/-- The array the shell's arguments come from is one longer after the call. -/
theorem spawn_arrays_ne {options : Option ProcessOptions} (h : ¬ Intact options)
    (gc : Nat → Bool) (arrays : Arrays) (file : HxString) (result : Int) :
    (spawn gc arrays file options result).2 ≠ arrays := by
  simp only [Intact, not_forall] at h
  obtain ⟨o, rfl, hshell, hargs⟩ := h
  obtain ⟨a, ha⟩ := Option.ne_none_iff_exists'.mp hargs
  intro heq
  have hlength := congrArg List.length (congrFun heq a)
  simp [spawn, argv, hshell, insertFile, ha] at hlength

theorem unchanged_step {arrays : Arrays} {options : Option ProcessOptions} {s t : State}
    {c : Call} (h : Unchanged arrays options s) (hG : Intact options)
    (hs : (machine arrays options).step s c = some t) : Unchanged arrays options t := by
  cases hs
  refine ⟨(spawn_arrays hG _ _ _ _).trans h.kept, fun p hp => ?_⟩
  cases List.mem_append.mp hp with
  | inl hp => exact h.alone p hp
  | inr hp =>
      rw [List.mem_singleton.mp hp, h.kept]

/-- Calls of `spawn` leave their inputs alone, and are independent of each other, in
exactly the cases where there is no array to insert the program into. -/
theorem unchanged_iff_intact (arrays : Arrays) (options : Option ProcessOptions)
    (calls : List Call) :
    (machine arrays options).Always (Unchanged arrays options) (machine arrays options).init calls ↔
      (machine arrays options).Throughout (fun _ _ => Intact options)
        (machine arrays options).init calls := by
  apply Machine.always_iff_throughout (I := Unchanged arrays options) (fun _ h => h)
    (fun _ _ _ => unchanged_step)
  · intro s c t h hG hs
    cases hs
    intro ht
    apply spawn_arrays_ne hG c.gc s.arrays c.file c.result
    exact ht.kept.trans h.kept.symm
  · exact ⟨rfl, fun p hp => by cases hp⟩

/-- Two calls with the arguments `-l` for the shell: the second runs `ls ls -l`. -/
theorem shell_spawns_accumulate :
    let arrays : Arrays := fun _ => [⟨"-l", true⟩]
    let options : ProcessOptions := ⟨some 0, none, none, true⟩
    let call : Call := ⟨fun _ => false, ⟨"ls", true⟩, 0⟩
    ¬ (machine arrays (some options)).Always (Unchanged arrays (some options))
      (machine arrays (some options)).init [call, call] := by
  intro arrays options call h
  have harrays := h.2 _ rfl
  have hlength := congrArg List.length (congrFun harrays.1.kept 0)
  revert hlength
  decide

end HxcppLuv.Process.Spawn
