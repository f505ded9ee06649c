import PipeShell.Job.Stage

/-!
Starting the stages of a pipeline, the first one first. The pipe between two stages is made before
the first of them is started, since both need an end of it; the interpreter lets go of it as soon as
the second is started.
-/

set_option autoImplicit false
set_option relaxedAutoImplicit false

namespace PipeShell

/-- The position of the first zero byte in the first argument that has one. -/
def Stage.zeroByte? (stage : Stage) : Option Nat :=
  stage.arguments.findSome? fun argument => (Bytes.ofString argument).idxOf? 0

namespace Pipeline

/-- Makes the pipe behind a stage. There is none behind the last one. -/
def makeLink (last : Bool) : Program (Except Errno (Option Link)) :=
  if last then pure (.ok none)
  else do
    let reply ← Program.ask .pipe
    pure (reply.map fun (readEnd, writeEnd) => some ⟨readEnd, writeEnd⟩)

/-- Starts the remaining stages; the first of them has the given number and reads from the given
pipe. The processes are named in the order of the stages. -/
def startFrom (number : Nat) (previous : Option Link) :
    List Stage → Program (Except Fatal (List Pid))
  | [] => pure (.ok [])
  | stage :: rest =>
    match stage.zeroByte? with
    | some position => do
      Link.releaseAny previous
      pure (.error (.zeroByte position))
    | none => do
      match ← makeLink rest.isEmpty with
      | .error reason => do
        Link.releaseAny previous
        pure (.error (.noPipe reason))
      | .ok next =>
        .fork (stage.process previous next) fun
          | .error reason => do
            Link.releaseAny next
            Link.releaseAny previous
            pure (.error (.noProcess reason))
          | .ok pid => do
            Program.note (.started number pid stage.arguments)
            -- The child has this pipe now. An end to write to that stays open here would keep its
            -- readers from ever seeing the end of their input.
            Link.releaseAny previous
            let others ← startFrom (number + 1) next rest
            pure (others.map (pid :: ·))

def start (stages : List Stage) : Program (Except Fatal (List Pid)) := startFrom 0 none stages

end Pipeline

end PipeShell
