import HxcppLuv.Process.Spawn
import Mathlib.Data.List.TakeWhile

/-!
What `uv_spawn` reads through the pointers it is handed. An entry of the environment
with a value is in a temporary that is gone; a buffer `utf8_str` or `join` made lasts
until the collector runs again; a string is read up to its first NUL; and a map that
has had no entry is taken for none. Everything else is as the caller asked.
-/

namespace HxcppLuv.Process.Spawn

open Collected

/-- `key=value`, and the key alone for a null value. -/
def StringHash.entry (map : StringHash) (key : HxString) : String :=
  match map.get key with
  | some item => key.value ++ "=" ++ item.value
  | none => key.value

/-- The entries that were asked for. -/
def StringMap.entries (map : StringMap) : List String :=
  (map.h.map fun h => h.keys.map h.entry).getD []

/-- The command line that was asked for. -/
def requested (arrays : Arrays) (file : HxString) (o : ProcessOptions) : List String :=
  let words := (file :: getArgs arrays o).map HxString.value
  if o.shell then ["/bin/sh", "-c", " ".intercalate words] else words

/-- Every pointer handed over reads as what was asked for, at the moment of the call. -/
structure Spelled (arrays : Arrays) (file : HxString) (o : ProcessOptions) (s : Spawned) :
    Prop where
  args : s.command.args.map (Pointer.read s.heap) =
    (requested arrays file o).map .text ++ [.null]
  cwd : s.command.cwd.map (Pointer.read s.heap) = o.cwd.map fun s => .text s.value
  env : s.command.env.map (List.map (Pointer.read s.heap)) =
    o.env.map fun map => map.entries.map .text ++ [.null]

/-- The allocation points of conversions that keep the buffer they make. -/
def fresh (strings : List HxString) : List Bool :=
  (strings.filter fun s => !s.own).map fun _ => true

def argvPoints (arrays : Arrays) (file : HxString) (o : ProcessOptions) : List Bool :=
  if o.shell then
    if (join (file :: getArgs arrays o)).own then [true] else [false, true]
  else fresh (file :: getArgs arrays o)

def envPoints : Option StringHash → List Bool
  | none => []
  | some map => false :: fresh map.keys

/-- The allocation points of `spawn`, in order, for an environment without values. -/
def points (arrays : Arrays) (file : HxString) (o : ProcessOptions) : List Bool :=
  argvPoints arrays file o ++ (fresh o.cwd.toList ++ envPoints (getEnv o.env))

/-- The environment, if there is one, has had an entry, and no entry of it has a value. -/
def Plain (env : Option StringMap) : Prop :=
  ∀ map, env = some map → ∃ h, map.h = some h ∧ ∀ key ∈ h.keys, h.get key = none

/-- No NUL is in the text. -/
def Unbroken (text : String) : Prop := '\x00' ∉ text.toList

/-- What is handed over for an environment without values. -/
def texts (arrays : Arrays) (file : HxString) (o : ProcessOptions) : List String :=
  requested arrays file o ++
    (o.cwd.toList ++ (getEnv o.env).toList.flatMap StringHash.keys).map HxString.value

/-- No entry of the environment has a value, no NUL ends a string early, and the
collector does not run once a buffer is made that is kept. -/
structure Undisturbed (gc : Nat → Bool) (arrays : Arrays) (file : HxString)
    (o : ProcessOptions) : Prop where
  plain : Plain o.env
  unbroken : ∀ text ∈ texts arrays file o, Unbroken text
  held : Held gc (points arrays file o).length 0 (points arrays file o)

theorem cString_eq_iff (text : String) : cString text = text ↔ Unbroken text := by
  have hlist : cString text = text ↔
      text.toList.takeWhile (· ≠ '\x00') = text.toList := by
    rw [← String.toList_inj, cString, String.toList_ofList]
  rw [hlist, List.takeWhile_eq_self_iff, Unbroken]
  constructor
  · intro h hmem
    simpa using h _ hmem
  · intro h c hc
    have hne : c ≠ '\x00' := fun heq => h (heq ▸ hc)
    simpa using hne

/-- A text that is read whole. -/
def Reading.Unbroken : Reading → Prop
  | .text s => Spawn.Unbroken s
  | .null | .invalid => True

@[simp] theorem unbroken_text (text : String) :
    (Reading.text text).Unbroken ↔ Unbroken text := Iff.rfl

@[simp] theorem unbroken_null : Reading.null.Unbroken := trivial

variable {gc : Nat → Bool} {h : Heap}

/-- A conversion from the heap `h` on: its pointers read as `want` later if and only if
no NUL is in the way and the buffers it keeps are held until then. -/
structure Converts (gc : Nat → Bool) (h : Heap) (r : List Pointer × Heap) (want : List Reading)
    (kept : List Bool) : Prop where
  later : Later gc h r.2
  points : r.2.points = h.points + kept.length
  length : r.1.length = want.length
  reads : ∀ h', Later gc r.2 h' →
    (r.1.map (Pointer.read h') = want ↔
      (∀ w ∈ want, w.Unbroken) ∧ Held gc h'.points h.points kept)

theorem Converts.append {r r' : List Pointer × Heap} {want want' : List Reading}
    {kept kept' : List Bool} (h1 : Converts gc h r want kept)
    (h2 : Converts gc r.2 r' want' kept') :
    Converts gc h (r.1 ++ r'.1, r'.2) (want ++ want') (kept ++ kept') where
  later := h1.later.trans h2.later
  points := by
    rw [h2.points, h1.points, List.length_append, Nat.add_assoc]
  length := by rw [List.length_append, List.length_append, h1.length, h2.length]
  reads h' hl := by
    rw [List.map_append, List.forall_mem_append, held_append, ← h1.points, and_and_and_comm,
      ← h1.reads h' (h2.later.trans hl), ← h2.reads h' hl]
    constructor
    · intro heq
      exact List.append_inj heq (by rw [List.length_map, h1.length])
    · intro ⟨hl, hr⟩
      rw [hl, hr]

theorem converts_nil (gc : Nat → Bool) (h : Heap) : Converts gc h ([], h) [] [] where
  later := .refl gc h
  points := rfl
  length := rfl
  reads _ _ := by simp [Held]

/-- A pointer that needs no buffer. -/
theorem converts_static {p : Pointer} {w : Reading}
    (hread : ∀ h', p.read h' = w ↔ w.Unbroken) : Converts gc h ([p], h) [w] [] where
  later := .refl gc h
  points := rfl
  length := rfl
  reads h' _ := by
    simp [Held, hread h']

theorem converts_null (gc : Nat → Bool) (h : Heap) : Converts gc h ([.null], h) [.null] [] :=
  converts_static fun _ => iff_of_true rfl trivial

theorem converts_literal (gc : Nat → Bool) (h : Heap) (text : String) :
    Converts gc h ([.literal text], h) [.text text] [] :=
  converts_static fun _ => Reading.text.injEq _ _ ▸ cString_eq_iff text

theorem converts_allocate (gc : Nat → Bool) (h : Heap) (text : String) :
    Converts gc h ([.buffer (h.allocate gc text).1], (h.allocate gc text).2) [.text text]
      [true] where
  later := later_allocate gc h text
  points := rfl
  length := rfl
  reads h' hl := by
    simp only [List.map_cons, List.map_nil, Pointer.read, read_allocate hl, Held, and_true,
      true_imp_iff]
    split
    · simp [*, cString_eq_iff]
    · simp [*]

/-- An allocation whose buffer is not kept. -/
theorem converts_skip {h' : Heap} (hl : Later gc h h') (hp : h'.points = h.points + 1) :
    Converts gc h ([], h') [] [false] where
  later := hl
  points := hp
  length := rfl
  reads _ _ := by simp [Held]

theorem converts_utf8Str (gc : Nat → Bool) (h : Heap) (s : HxString) :
    Converts gc h ([(utf8Str gc h s).1], (utf8Str gc h s).2) [.text s.value] (fresh [s]) := by
  cases hown : s.own with
  | true =>
      have hr : utf8Str gc h s = (.string s, h) := if_pos hown
      have hk : fresh [s] = [] := by simp [fresh, hown]
      rw [hr, hk]
      exact converts_static fun _ => Reading.text.injEq _ _ ▸ cString_eq_iff s.value
  | false =>
      have hr : utf8Str gc h s = (h.allocate gc s.value).map Pointer.buffer id := by
        simp [utf8Str, hown]
      have hk : fresh [s] = [true] := by simp [fresh, hown]
      rw [hr, hk]
      exact converts_allocate gc h s.value

theorem fresh_cons (s : HxString) (strings : List HxString) :
    fresh (s :: strings) = fresh [s] ++ fresh strings := by
  simp only [fresh, ← List.map_append, ← List.filter_append, List.singleton_append]

theorem converts_utf8Strs (gc : Nat → Bool) (strings : List HxString) (h : Heap) :
    Converts gc h (utf8Strs gc h strings) (strings.map fun s => .text s.value)
      (fresh strings) := by
  induction strings generalizing h with
  | nil => exact converts_nil gc h
  | cons s strings ih =>
      rw [fresh_cons]
      exact (converts_utf8Str gc h s).append (ih _)

theorem converts_argv (gc : Nat → Bool) (arrays : Arrays) (file : HxString) (o : ProcessOptions) :
    Converts gc Collected.empty (argv gc arrays file o).1
      ((requested arrays file o).map .text ++ [.null]) (argvPoints arrays file o) := by
  cases hshell : o.shell with
  | false =>
      have hstrings := converts_utf8Strs gc (file :: getArgs arrays o) .empty
      simpa [argv, requested, argvPoints, hshell, Function.comp_def] using
        hstrings.append (converts_null gc _)
  | true =>
      have hshell' := (converts_literal gc .empty "/bin/sh").append
        (converts_literal gc .empty "-c")
      simp only [argv, requested, argvPoints, hshell, if_true]
      cases hown : (join (file :: getArgs arrays o)).own with
      | true =>
          exact (hshell'.append (converts_allocate gc _ _)).append (converts_null gc _)
      | false =>
          have hskip := converts_skip (later_allocate gc .empty
            (join (file :: getArgs arrays o)).value) rfl
          exact ((hshell'.append hskip).append (converts_allocate gc _ _)).append
            (converts_null gc _)

/-- Without values the entries are the keys, converted one after another. -/
theorem envEntries_of_plain {get : HxString → Option HxString} {keys : List HxString}
    (hplain : ∀ key ∈ keys, get key = none) (h : Heap) :
    envEntries gc get h keys = utf8Strs gc h keys := by
  induction keys generalizing h with
  | nil => rfl
  | cons key keys ih =>
      simp only [envEntries, utf8Strs, hplain key List.mem_cons_self]
      rw [ih fun k hk => hplain k (List.mem_cons_of_mem _ hk)]

/-- An entry with a value is never read right. -/
theorem plain_of_reads {map : StringHash} {keys : List HxString} {h h' : Heap}
    (hreads : (envEntries gc map.get h keys).1.map (Pointer.read h') =
      (keys.map map.entry).map .text) : ∀ key ∈ keys, map.get key = none := by
  induction keys generalizing h with
  | nil => intro key hkey; cases hkey
  | cons key keys ih =>
      simp only [envEntries, List.map_cons] at hreads
      obtain ⟨hhead, htail⟩ := List.cons.inj hreads
      have hnone : map.get key = none := by
        cases hget : map.get key with
        | none => rfl
        | some item =>
            rw [hget] at hhead
            cases hhead
      intro k hk
      cases List.mem_cons.mp hk with
      | inl hk => exact hk ▸ hnone
      | inr hk => exact ih htail k hk

theorem entries_of_plain {map : StringHash} (hplain : ∀ key ∈ map.keys, map.get key = none) :
    map.keys.map map.entry = map.keys.map HxString.value := by
  apply List.map_congr_left
  intro key hkey
  simp only [StringHash.entry, hplain key hkey]

theorem converts_env (gc : Nat → Bool) {map : StringHash}
    (hplain : ∀ key ∈ map.keys, map.get key = none)
    (h : Heap) : Converts gc h (createLuvEnvironmentVars gc h map)
      ((map.keys.map map.entry).map .text ++ [.null]) (envPoints (some map)) := by
  simp only [entries_of_plain hplain, List.map_map, createLuvEnvironmentVars,
    envEntries_of_plain hplain]
  have hstrings := (converts_skip (later_point gc h) rfl).append
    (converts_utf8Strs gc map.keys (h.point gc))
  simpa [envPoints, Function.comp_def] using hstrings.append (converts_null gc _)

/-- One string or none, by the list of pointers it is converted to. -/
theorem cwd_iff (cwd : Option HxString) (h h' : Heap) :
    (utf8Strs gc h cwd.toList).1.head?.map (Pointer.read h') =
        cwd.map (fun s => .text s.value) ↔
      (utf8Strs gc h cwd.toList).1.map (Pointer.read h') =
        cwd.toList.map fun s => .text s.value := by
  cases cwd with
  | none => simp [utf8Strs]
  | some s => simp [utf8Strs]

theorem plain_of_environment {env : Option StringMap} {h h' : Heap}
    (hreads : (environment gc h (getEnv env)).1.map (List.map (Pointer.read h')) =
      env.map fun map => map.entries.map .text ++ [.null]) : Plain env := by
  intro map hmap
  subst hmap
  cases hhash : map.h with
  | none =>
      -- the vector is left out, and not empty
      simp [getEnv, hhash, environment] at hreads
  | some hash =>
      simp only [getEnv, Option.bind_some, hhash, environment, Prod.map_fst, Option.map_some,
        StringMap.entries, createLuvEnvironmentVars, Option.getD_some, List.map_append]
        at hreads
      have hlist := Option.some.inj hreads
      exact ⟨hash, rfl, plain_of_reads (List.append_inj_left' hlist rfl)⟩

/-- The environment as a conversion, when it has no values. -/
theorem environment_spec (gc : Nat → Bool) {env : Option StringMap} (hplain : Plain env)
    (h : Heap) :
    Later gc h (environment gc h (getEnv env)).2 ∧
    (environment gc h (getEnv env)).2.points = h.points + (envPoints (getEnv env)).length ∧
    ∀ h', Later gc (environment gc h (getEnv env)).2 h' →
      ((environment gc h (getEnv env)).1.map (List.map (Pointer.read h')) =
          env.map (fun map => map.entries.map .text ++ [.null]) ↔
        (∀ s ∈ (getEnv env).toList.flatMap StringHash.keys, Unbroken s.value) ∧
          Held gc h'.points h.points (envPoints (getEnv env))) := by
  cases env with
  | none => exact ⟨.refl gc h, rfl, fun _ _ => iff_of_true rfl ⟨nofun, trivial⟩⟩
  | some map =>
      obtain ⟨hash, hhash, hnone⟩ := hplain map rfl
      have hmap := converts_env gc hnone h
      simp only [getEnv, Option.bind_some, hhash]
      refine ⟨hmap.later, hmap.points, fun h' hl => ?_⟩
      have hreads := hmap.reads h' hl
      rw [entries_of_plain hnone] at hreads
      simp only [List.forall_mem_append, List.forall_mem_map] at hreads
      simpa [environment, StringMap.entries, hhash, entries_of_plain hnone] using hreads

/-- The three parts of the condition that are about the strings, taken apart. -/
theorem undisturbed_iff {arrays : Arrays} {file : HxString} {o : ProcessOptions} :
    Undisturbed gc arrays file o ↔
      Plain o.env ∧
      ((∀ text ∈ requested arrays file o, Unbroken text) ∧
        Held gc (points arrays file o).length 0 (argvPoints arrays file o)) ∧
      ((∀ s ∈ o.cwd.toList, Unbroken s.value) ∧
        Held gc (points arrays file o).length (argvPoints arrays file o).length
          (fresh o.cwd.toList)) ∧
      ((∀ s ∈ (getEnv o.env).toList.flatMap StringHash.keys, Unbroken s.value) ∧
        Held gc (points arrays file o).length
          ((argvPoints arrays file o).length + (fresh o.cwd.toList).length)
          (envPoints (getEnv o.env))) := by
  have hheld : Held gc (points arrays file o).length 0 (points arrays file o) ↔ _ :=
    held_append.trans (and_congr_right fun _ => held_append)
  have htexts : (∀ text ∈ texts arrays file o, Unbroken text) ↔ _ :=
    List.forall_mem_append.trans (and_congr_right fun _ =>
      List.forall_mem_map.trans List.forall_mem_append)
  rw [Nat.zero_add] at hheld
  constructor
  · intro h
    obtain ⟨ha, hc, he⟩ := hheld.mp h.held
    obtain ⟨hta, htc, hte⟩ := htexts.mp h.unbroken
    exact ⟨h.plain, ⟨hta, ha⟩, ⟨htc, hc⟩, hte, he⟩
  · intro ⟨hplain, ⟨hta, ha⟩, ⟨htc, hc⟩, hte, he⟩
    exact ⟨hplain, htexts.mpr ⟨hta, htc, hte⟩, hheld.mpr ⟨ha, hc, he⟩⟩

/-- `uv_spawn` reads what was asked for exactly when nothing was in a temporary, no
string was cut short and nothing kept was reclaimed. -/
theorem spelled_iff_undisturbed {arrays : Arrays} {file : HxString} {o : ProcessOptions}
    {result : Int} {s : Spawned} (hs : (spawn gc arrays file (some o) result).1 = some s) :
    Spelled arrays file o s ↔ Undisturbed gc arrays file o := by
  have hargs := converts_argv gc arrays file o
  have hcwd := converts_utf8Strs gc o.cwd.toList (argv gc arrays file o).1.2
  cases hs
  by_cases hplain : Plain o.env
  · obtain ⟨hlater, hpoints, henv⟩ :=
      environment_spec gc hplain (utf8Strs gc (argv gc arrays file o).1.2 o.cwd.toList).2
    have htotal : (environment gc (utf8Strs gc (argv gc arrays file o).1.2 o.cwd.toList).2
        (getEnv o.env)).2.points = (points arrays file o).length := by
      rw [hpoints, hcwd.points, hargs.points, points, List.length_append, List.length_append]
      simp [Collected.empty, Nat.add_assoc]
    have hA := hargs.reads _ (hcwd.later.trans hlater)
    have hC := hcwd.reads _ hlater
    have hE := henv _ (.refl gc _)
    rw [htotal] at hA hC hE
    rw [hcwd.points] at hE
    rw [hargs.points] at hC hE
    simp only [List.forall_mem_append, List.forall_mem_map, unbroken_text,
      List.forall_mem_singleton, unbroken_null, and_true, Collected.empty, Nat.zero_add]
      at hA hC hE
    rw [undisturbed_iff]
    constructor
    · intro h
      exact ⟨hplain, hA.mp h.args, hC.mp ((cwd_iff _ _ _).mp h.cwd), hE.mp h.env⟩
    · intro ⟨_, ha, hc, he⟩
      exact ⟨hA.mpr ha, (cwd_iff _ _ _).mpr (hC.mpr hc), hE.mpr he⟩
  · constructor
    · intro h
      exact absurd (plain_of_environment h.env) hplain
    · intro h
      exact absurd h.plain hplain

/-- Whatever the options and the collector's runs, the command handed to `uv_spawn` is
the one asked for in exactly the calls that are undisturbed. -/
theorem spawn_spells_iff (gc : Nat → Bool) (arrays : Arrays) (file : HxString)
    (options : Option ProcessOptions) (result : Int) :
    (∀ o s, options = some o → (spawn gc arrays file options result).1 = some s →
      Spelled arrays file o s) ↔
    ∀ o, options = some o → Undisturbed gc arrays file o := by
  constructor
  · intro h o ho
    subst ho
    exact (spelled_iff_undisturbed rfl).mp (h o _ rfl rfl)
  · intro h o s ho hs
    subst ho
    exact (spelled_iff_undisturbed hs).mpr (h o rfl)

/-- One variable with a value, and no collection: its entry is not there any more. -/
theorem valued_variable_dangles :
    let map : StringMap := ⟨some ⟨[⟨"A", true⟩], fun _ => some ⟨"1", true⟩, by decide⟩⟩
    let options : ProcessOptions := ⟨none, some map, none, false⟩
    ¬ ∀ o s, some options = some o →
      (spawn (fun _ => false) (fun _ => []) ⟨"env", true⟩ (some options) 0).1 = some s →
      Spelled (fun _ => []) ⟨"env", true⟩ o s := by
  intro map options h
  have henv := (h options _ rfl rfl).env
  revert henv
  decide

end HxcppLuv.Process.Spawn
