import PipeShell.System.FileTree.Layout
import PipeShell.System.Machine.Schedule

/-!
A machine with one process on it. The process works in a directory that is laid out for it, reads a
file, and writes behind the ends of two others; these three files have no names in the tree.
-/

set_option autoImplicit false
set_option relaxedAutoImplicit false

namespace PipeShell

/-- What a machine is set up with. -/
structure Setup where
  /-- The directory in which the first process works. -/
  home : Bytes
  /-- What there is outside of it. -/
  surroundings : List FileTree.Entry
  /-- What there is in it. -/
  entries : List FileTree.Entry := []
  /-- What the first process reads. -/
  input : Bytes := []
  /-- The entry that the first process reads instead. -/
  inputPath? : Option Bytes := none
  searchPath : Bytes := Bytes.ofString "/usr/bin:/bin"
  mask : Nat := 0o022
  /-- The user to whom the entries belong and who works with them. -/
  user : Nat := 1000
  /-- How much a pipe holds. -/
  pipeCapacity : Nat := 65536
  logger : Logger := .journal

namespace Setup

/-- The first process. -/
def pid : Pid := 1

def inputNode : NodeId := 1

def outputNode : NodeId := 2

def complaintsNode : NodeId := 3

/-- The permissions of the directory that the working directory lies in. -/
def outerMode : Nat := 0o700

/-- A tree with the three files and the root. -/
def streams (user : Nat) (input : Bytes) : FileTree :=
  let file (data : Bytes) : Node := { content := .file data, mode := 0o600, owner := user }
  { FileTree.bare with
    nodes := ((FileTree.bare.nodes.set inputNode (file input)).set outputNode (file [])).set
      complaintsNode (file []) }

/-- The tree of a machine, and the directory in which its first process works. That and the one it
lies in belong to the user; everything outside belongs to user 0. -/
def tree (s : Setup) : FileTree × NodeId :=
  let t := (streams s.user s.input).layOut { directory := FileTree.bare.root }
    (s.surroundings ++ [⟨s.home, .directory, none⟩])
  match t.find 0 t.root s.home with
  | .error _ => (t, t.root)
  | .ok home =>
    let t := match t.nameAbove? home with
      | some (outer, _) =>
        if outer = t.root then t else (t.setMode outer outerMode).setOwner outer s.user
      | none => t
    ((t.setOwner home s.user).layOut { user := s.user, directory := home } s.entries, home)

def environment (s : Setup) : List (Bytes × Bytes) :=
  [(Bytes.ofString "PATH", s.searchPath), (Bytes.ofString "LC_ALL", Bytes.ofString "C")]

def openFiles (input : NodeId) : Table OpenFile :=
  let behind (id : NodeId) : OpenFile :=
    { node := id, readable := false, writable := true, atEnd := true }
  ((({} : Table OpenFile).set 0 { node := input }).set 1 (behind outputNode)).set 2
    (behind complaintsNode)

def descriptors : Table Handle :=
  ((({} : Table Handle).set Fd.input (.file 0)).set Fd.output (.file 1)).set Fd.complaints (.file 2)

/-- The machine, with a program for its first process and the programs that are installed on it. -/
def machine {α : Type} (s : Setup) (program : Program α)
    (installed : Bytes → List Bytes → Program α) : Machine α :=
  let (t, home) := s.tree
  let input := match s.inputPath? with
    | none => inputNode
    | some path => match t.find 0 home path with
      | .ok id => id
      | .error _ => inputNode
  { tree := t
    openFiles := openFiles input
    processes := ({} : Table (Process α)).set pid
      { parent := 0, program := program, descriptors := descriptors, directory := home
        user := s.user, ignored := [Signal.pipe.number], mask := s.mask,
          environment := s.environment }
    nextPid := pid + 1
    logger := s.logger
    pipeCapacity? := some s.pipeCapacity
    installed := installed }

end Setup

namespace Machine

variable {α : Type}

def dataOf (m : Machine α) (id : NodeId) : Bytes :=
  match (m.tree.node id).content with
  | .file data => data
  | _ => []

/-- The working directory of a process as a path. -/
def directoryOf (m : Machine α) (pid : Pid) : Option Bytes :=
  (m.processes.get? pid).bind fun p => m.tree.path? p.directory

end Machine

end PipeShell
