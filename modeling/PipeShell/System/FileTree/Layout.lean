import PipeShell.System.FileTree.Change

/-!
Laying out a file tree from a list of entries. The directories above an entry come into being by
themselves.
-/

set_option autoImplicit false
set_option relaxedAutoImplicit false

namespace PipeShell.FileTree

/-- What an entry is made of. -/
inductive Material
  | file (data : Bytes)
  | directory
  | link (target : Bytes)
  | fifo
  | program (name : Bytes)
  | null
  | zero
  | full
  deriving DecidableEq, Repr

/-- Something to be put into a tree. -/
structure Entry where
  path : Bytes
  material : Material
  /-- The exact permissions, if they matter. -/
  mode? : Option Nat := none
  deriving DecidableEq, Repr

def setMode (t : FileTree) (id : NodeId) (mode : Nat) : FileTree :=
  { t with nodes := t.nodes.modify id ({ · with mode := mode }) }

def setOwner (t : FileTree) (id : NodeId) (owner : Nat) : FileTree :=
  { t with nodes := t.nodes.modify id ({ · with owner := owner }) }

/-- The paths of the directories above a path, the highest one first. -/
def ancestors (path : Bytes) : List Bytes :=
  ((List.range path.length).filter fun k => k ≠ 0 && path[k]? = some Bytes.slash).map path.take

def ensureDirectory (t : FileTree) (actor : Actor) (path : Bytes) : FileTree :=
  match t.makeDirectory actor path 0o777 with
  | .ok t => t
  | .error _ => t

def ensureNode (t : FileTree) (actor : Actor) (path : Bytes) (content : Content)
    (mode : Nat) : FileTree :=
  match t.locateName actor path with
  | .ok { node? := none, directory, name } =>
    (t.addNode ⟨directory, name, none⟩ ⟨content, mode, actor.user⟩).1
  | _ => t

def place (t : FileTree) (actor : Actor) (path : Bytes) : Material → FileTree
  | .file data =>
    match t.openForWriting actor path 0o666 true with
    | .ok (t, id) => t.setContent id (.file data)
    | .error _ => t
  | .directory => t.ensureDirectory actor path
  | .link target => t.ensureNode actor path (.link target) 0o777
  | .fifo => t.ensureNode actor path .fifo 0o644
  | .program name => t.ensureNode actor path (.program name) 0o755
  | .null => t.ensureNode actor path .null 0o666
  | .zero => t.ensureNode actor path .zero 0o666
  | .full => t.ensureNode actor path .full 0o666

/-- Puts an entry at its place, with the directories above it and its permissions. -/
def add (t : FileTree) (actor : Actor) (entry : Entry) : FileTree :=
  let t := (ancestors entry.path).foldl (·.ensureDirectory actor ·) t
  let t := t.place actor entry.path entry.material
  match entry.mode?, t.find actor.user actor.directory entry.path with
  | some mode, .ok id => t.setMode id mode
  | _, _ => t

/-- Lays out entries on behalf of an actor, one after the other. -/
def layOut (t : FileTree) (actor : Actor) (entries : List Entry) : FileTree :=
  entries.foldl (·.add actor ·) t

/-- A tree with nothing but its root. -/
def bare : FileTree :=
  { root := 0, nodes := ({} : Table Node).set 0 { content := .directory 0 [], mode := 0o755 } }

end PipeShell.FileTree
