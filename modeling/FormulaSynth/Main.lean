import FormulaSynth.Cli.Run

set_option autoImplicit false
namespace FormulaSynth
open Cli Document

def Cli.Invocation.inputs (i : Invocation) (home : String) : List String :=
  let track := match i.command with
    | .schedule track => track.toList
    | .render track _ _ _ => track.toList
    | _ => []
  i.config.getD (configPath home) :: track

def Cli.Invocation.outputs (i : Invocation) : List String :=
  match i.command with
  | .render _ wave pcm _ => wave.toList ++ pcm.toList
  | _ => []

def gather (files : Files) (path : String) : IO Files := do
  match ← (IO.FS.readBinFile path).toBaseIO with
  | .ok content => return files.put (FileName.target path) content
  | .error (.noFileOrDirectory ..) => return files
  | .error _ => return files.putDirectory (FileName.target path)

def deliver (before after : Files) (path : String) : IO Unit := do
  let target := FileName.target path
  if let some content := after.content? target then
    if before.content? target != some content then IO.FS.writeBinFile path content

end FormulaSynth

open FormulaSynth Cli Document in
def main (words : List String) : IO UInt32 := do
  let home := (← IO.getEnv "HOME").getD "."
  let invocation := (Invocation.read words).toOption
  let inputs := invocation.elim [] fun i => i.inputs home
  let outputs := invocation.elim [] Invocation.outputs
  let paths := inputs ++ outputs
  let files ← (paths ++ paths.flatMap FileName.ways).foldlM gather .empty
  let outcome := run words files home
  for line in outcome.lines do IO.println line
  outputs.forM (deliver files outcome.files)
  IO.eprint outcome.message
  return outcome.exit.toUInt32
