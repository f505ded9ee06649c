import PipeShell.System.FileTree.Layout
import PipeShell.Userland.Characters
import PipeShell.Userland.Columns
import PipeShell.Userland.Copy
import PipeShell.Userland.Directory
import PipeShell.Userland.Edit
import PipeShell.Userland.Excerpt
import PipeShell.Userland.Order
import PipeShell.Userland.Produce
import PipeShell.Userland.Repeats
import PipeShell.Userland.Script.Run
import PipeShell.Userland.Search
import PipeShell.Userland.Tally

/-!
The programs that the system comes with, and where they lie.
-/

set_option autoImplicit false
set_option relaxedAutoImplicit false

namespace PipeShell.Userland

def tools : List (String × Tool) :=
  [("cat", Tool.copy), ("cut", Tool.columns), ("echo", Tool.echo), ("false", Tool.endWith 1),
    ("grep", Tool.search),
    ("head", Tool.beginning), ("ls", Tool.list), ("mkdir", Tool.makeDirectories), ("mv", Tool.move),
    ("pwd", Tool.printDirectory), ("rm", Tool.removeFiles), ("rmdir", Tool.removeDirectories),
    ("sed", Tool.edit), ("seq", Tool.count), ("sh", Script.shell), ("sleep", Tool.wait),
    ("sort", Tool.sort), ("tac", Tool.backwards), ("tail", Tool.ending),
    ("tee", Tool.copyToAll), ("touch", Tool.createFiles), ("tr", Tool.replaceCharacters),
    ("true", Tool.endWith 0), ("uniq", Tool.merge), ("wc", Tool.tally),
    ("yes", Tool.repeatForever)]

/-- Runs an installed program. One that does not exist ends at once. -/
def start {α : Type} (program : Bytes) (arguments : List Bytes) : Program α :=
  match tools.find? fun entry => Bytes.ofString entry.1 = program with
  | none => Program.exit 127
  | some (_, tool) =>
    tool (arguments.headD program) arguments.tail >>= Program.exit

def entryOf (name : String) : FileTree.Entry :=
  { path := Bytes.ofString ("/usr/bin/" ++ name), material := .program (Bytes.ofString name) }

/-- The entries of a system: its programs and devices. -/
def entries : List FileTree.Entry :=
  tools.map (fun entry => entryOf entry.1) ++
    [{ path := Bytes.ofString "/bin", material := .link (Bytes.ofString "usr/bin") },
      { path := Bytes.ofString "/dev/null", material := .null },
      { path := Bytes.ofString "/dev/zero", material := .zero },
      { path := Bytes.ofString "/dev/full", material := .full },
      { path := Bytes.ofString "/tmp", material := .directory, mode? := some 0o777 }]

end PipeShell.Userland
