import HxcppLuv.Process.Command
import HxcppLuv.Process.Start

/-!
`process::spawn` from its call to the program that runs: with what `uv_spawn` reads of the
command, and with the pipes of a process that has been asked for three.
-/

namespace HxcppLuv.Process.Spawn

open Child Parent

/-- A vector of C strings, which has to end with a null. -/
def strings : List Reading → Option (List String)
  | [] => none
  | .invalid :: _ => none
  | .null :: _ => some []
  | .text s :: rest => (strings rest).map (s :: ·)

/-- A C string that may be null. -/
def string : Reading → Option (Option String)
  | .invalid => none
  | .null => some none
  | .text s => some (some s)

/-- What `uv_spawn` finds in its options, whose `flags` are zero; there is no result where a
pointer is not valid. -/
def Spawned.options (s : Spawned) : Option Options :=
  (strings (s.command.args.map (Pointer.read s.heap))).bind fun args =>
    args.head?.bind fun file =>
      (string ((s.command.cwd.map (Pointer.read s.heap)).getD .null)).bind fun cwd =>
        match s.command.env.map (List.map (Pointer.read s.heap)) with
        | none => some ⟨file, args, none, false, cwd, none, none⟩
        | some env => (strings env).map fun env => ⟨file, args, some env, false, cwd, none, none⟩

/-- The stdin, stdout and stderr that `spawn` asks for. -/
def stdio : List Container :=
  [.createPipe 0 true false, .createPipe 1 false true, .createPipe 2 false true]

/-- The program that is asked for, beside the file that is looked for. -/
def program (arrays : Arrays) (file : HxString) (o : ProcessOptions) (k : Kernel) : Program :=
  { file := if o.shell then "/bin/sh" else file.value
    args := requested arrays file o
    env := (o.env.map StringMap.entries).getD k.environ }

end HxcppLuv.Process.Spawn
