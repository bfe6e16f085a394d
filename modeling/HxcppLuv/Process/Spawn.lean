import HxcppLuv.Core.Machine
import HxcppLuv.Core.Collected
import Mathlib.Logic.Function.Basic

/-!
The command `process::spawn` puts together for `uv_spawn`. It keeps bare pointers in
native memory, which the collector does not scan: into the buffers of strings that a
parameter still reaches, into buffers `utf8_str` has made for it, and into
`std::string`s that are gone at the end of the expression. The arguments are taken
from the caller's own array, and the shell's command line is made by inserting the
program's name into it.

A Haxe array is a reference, so the arrays are kept by their address. Allocations
before the first conversion to UTF-8 reclaim nothing and are left out.
-/

namespace HxcppLuv.Process.Spawn

open Collected

/-- A Haxe `String`; `own` when its buffer is UTF-8 already and `utf8_str` returns it. -/
structure HxString where
  value : String
  own : Bool
  deriving DecidableEq

/-- `Array.join` of strings with a blank. -/
def join (strings : List HxString) : HxString :=
  ⟨" ".intercalate (strings.map HxString.value), strings.all HxString.own⟩

/-- The entries of a map, with the keys in the order `__string_hash_keys` has them. -/
structure StringHash where
  keys : List HxString
  get : HxString → Option HxString
  nodup : (keys.map HxString.value).Nodup

/-- A `Map<String, String>`, whose `h` is null until the first entry is set. -/
structure StringMap where
  h : Option StringHash

def StringMap.keys (map : StringMap) : List HxString := (map.h.map StringHash.keys).getD []

/-- `cpp.asio.ProcessOptions`; `args` is the address of an array. -/
structure ProcessOptions where
  args : Option Nat
  env : Option StringMap
  cwd : Option HxString
  shell : Bool

abbrev Arrays := Nat → List HxString

/-- A `char*`: into the buffer of a reachable string, or one of the heap's; `dangling`
is one into a `std::string` that has been destroyed. -/
inductive Pointer where
  | null
  | literal (text : String)
  | string (s : HxString)
  | buffer (i : Nat)
  | dangling
  deriving DecidableEq

inductive Reading where
  | null
  | text (s : String)
  | invalid
  deriving DecidableEq

abbrev Heap := Collected String

/-- The C string at the start of a string's buffer, which the first NUL ends. -/
def cString (text : String) : String := String.ofList (text.toList.takeWhile (· ≠ '\x00'))

/-- What a pointer reads as. -/
def Pointer.read (h : Heap) : Pointer → Reading
  | .null => .null
  | .literal text => .text (cString text)
  | .string s => .text (cString s.value)
  | .buffer i => ((h.read i).map fun text => Reading.text (cString text)).getD .invalid
  | .dangling => .invalid

/-- `String::utf8_str`. -/
def utf8Str (gc : Nat → Bool) (h : Heap) (s : HxString) : Pointer × Heap :=
  if s.own then (.string s, h)
  else ((h.allocate gc s.value).map Pointer.buffer id)

/-- `utf8_str` of one string after another, each pointer put into a vector. -/
def utf8Strs (gc : Nat → Bool) (h : Heap) : List HxString → List Pointer × Heap
  | [] => ([], h)
  | s :: strings =>
      let (p, h) := utf8Str gc h s
      let (ps, h) := utf8Strs gc h strings
      (p :: ps, h)

/-- The loop of `createLuvEnvironmentVars`. -/
def envEntries (gc : Nat → Bool) (get : HxString → Option HxString) (h : Heap) :
    List HxString → List Pointer × Heap
  | [] => ([], h)
  | key :: keys =>
      let (p, h) := match get key with
        | some item =>
            -- `data()` of the sum of temporaries
            (.dangling, (utf8Str gc (utf8Str gc h key).2 item).2)
        | none => utf8Str gc h key
      let (ps, h) := envEntries gc get h keys
      (p :: ps, h)

/-- `createLuvEnvironmentVars`; the array of keys is allocated and scanned. -/
def createLuvEnvironmentVars (gc : Nat → Bool) (h : Heap) (map : StringHash) :
    List Pointer × Heap :=
  let (ps, h) := envEntries gc map.get (h.point gc) map.keys
  (ps ++ [.null], h)

/-- `getEnv`: the map's `h`, which is null in a map that has had no entry. -/
def getEnv (env : Option StringMap) : Option StringHash := env.bind StringMap.h

/-- `options->env`, which stays null when `getEnv` returns null. -/
def environment (gc : Nat → Bool) (h : Heap) : Option StringHash → Option (List Pointer) × Heap
  | none => (none, h)
  | some map => (createLuvEnvironmentVars gc h map).map some id

/-- The options `uv_spawn` is called with; a null `env` or `cwd` is the parent's. -/
structure Command where
  args : List Pointer
  cwd : Option Pointer
  env : Option (List Pointer)
  deriving DecidableEq

inductive Outcome where
  | success
  | failure (code : Int)
  deriving DecidableEq

/-- What is handed to `uv_spawn`, with the heap it finds, and what the user is told. -/
structure Spawned where
  command : Command
  heap : Heap
  outcome : Outcome
  deriving DecidableEq

/-- `getArgs`: the caller's array, or one made here that no one else has. -/
def getArgs (arrays : Arrays) (o : ProcessOptions) : List HxString :=
  (o.args.map arrays).getD []

/-- `hxArgs->insert(0, _file)`, in the array `getArgs` returned. -/
def insertFile (arrays : Arrays) (o : ProcessOptions) (file : HxString) : Arrays :=
  match o.args with
  | some a => Function.update arrays a (file :: arrays a)
  | none => arrays

/-- The argument vector on a system that is not Windows, and the arrays afterwards. The
joined string is not reachable once it is converted. -/
def argv (gc : Nat → Bool) (arrays : Arrays) (file : HxString) (o : ProcessOptions) :
    (List Pointer × Heap) × Arrays :=
  if o.shell then
    let joined := join (file :: getArgs arrays o)
    let (i, h) := Collected.empty.allocate gc joined.value
    let (p, h) :=
      if joined.own then (.buffer i, h) else (h.allocate gc joined.value).map Pointer.buffer id
    (([.literal "/bin/sh", .literal "-c", p, .null], h), insertFile arrays o file)
  else
    let (ps, h) := utf8Strs gc Collected.empty (file :: getArgs arrays o)
    ((ps ++ [.null], h), arrays)

/-- `cpp::luv::process::spawn` up to and with `uv_spawn`, which returns `result`.
Reading `shell` of null options throws. -/
def spawn (gc : Nat → Bool) (arrays : Arrays) (file : HxString) (options : Option ProcessOptions)
    (result : Int) : Option Spawned × Arrays :=
  match options with
  | none => (none, arrays)
  | some o =>
      let ((args, h), arrays) := argv gc arrays file o
      let (cwd, h) := utf8Strs gc h o.cwd.toList
      let (env, h) := environment gc h (getEnv o.env)
      (some ⟨⟨args, cwd.head?, env⟩, h, if result < 0 then .failure result else .success⟩, arrays)

end HxcppLuv.Process.Spawn
