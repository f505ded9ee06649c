import PipeShell.System.Errno
import PipeShell.System.Table
import PipeShell.Text.Bytes

/-!
A tree of files. Nodes have numbers; a directory names the nodes in it and knows the directory above
it. A path is walked name by name, with the permissions of the user who walks, and symbolic links
are followed on the way. A slash at the end of a path says that it is the path of a directory.
-/

set_option autoImplicit false
set_option relaxedAutoImplicit false

namespace PipeShell

/-- The number of a node in a file tree. -/
abbrev NodeId := Nat

inductive Content
  | file (data : Bytes)
  | directory (parent : NodeId) (names : List (Bytes × NodeId))
  | link (target : Bytes)
  | fifo
  /-- A program that the system comes with. -/
  | program (name : Bytes)
  /-- A device that is always at its end and swallows what is written. -/
  | null
  /-- A device that gives zero bytes without end. -/
  | zero
  /-- A device that gives zero bytes without end and has no room for anything. -/
  | full

/-- A node of the tree. It belongs to a user, and to the group of that user, in which there is
nobody else. -/
structure Node where
  content : Content
  mode : Nat
  owner : Nat := 0

/-- The kind of a node as the outside sees it. -/
inductive NodeKind
  | file
  | directory
  | link
  | fifo
  | device
  deriving DecidableEq, Repr

def Content.kind : Content → NodeKind
  | file _ | program _ => .file
  | directory .. => .directory
  | link _ => .link
  | fifo => .fifo
  | null | zero | full => .device

/-- The number of bytes that can be read from a content. -/
def Content.size : Content → Nat
  | file data => data.length
  | _ => 0

namespace Node

inductive Wish
  | read
  | write
  | search
  deriving DecidableEq, Repr

/-- The bit of a wish in each group of three permission bits. -/
def Wish.bit : Wish → Nat
  | read => 4
  | write => 2
  | search => 1

/-- Whether a user may do something. User 0 may do everything, but run only what somebody may run;
the owner has the first three bits and everybody else the last three. -/
def permits (node : Node) (user : Nat) (wish : Wish) : Bool :=
  if user = 0 then
    wish ≠ .search || node.content.kind = .directory || node.mode &&& 0o111 ≠ 0
  else if user = node.owner then (node.mode >>> 6) &&& wish.bit ≠ 0
  else node.mode &&& wish.bit ≠ 0

/-- The bit by which a program runs with the rights of its owner. -/
def ownerBit : Nat := 0o4000

/-- The bits by which a program runs with the rights of its group: the mark itself and the
permission to run. -/
def groupBits : Nat := 0o2010

/-- The mark of `groupBits`. -/
def groupBit : Nat := 0o2000

/-- The permissions of a file whose data was changed. Unless user 0 has changed it, it gives no
rights away any more. -/
def modeAfterChange (mode user : Nat) : Nat :=
  if user = 0 then mode
  else
    let mode := mode - (mode &&& ownerBit)
    if mode &&& groupBits = groupBits then mode - groupBit else mode

end Node

structure FileTree where
  nodes : Table Node
  root : NodeId

/-- Where a path leads: a name in a directory, and the node of that name if there is one. -/
structure Place where
  directory : NodeId
  name : Bytes
  node? : Option NodeId

namespace FileTree

/-- The node with a number. A number that is not in use counts as an unreachable empty file. -/
def node (t : FileTree) (id : NodeId) : Node :=
  (t.nodes.get? id).getD { content := .file [], mode := 0 }

def setContent (t : FileTree) (id : NodeId) (content : Content) : FileTree :=
  { t with nodes := t.nodes.modify id ({ · with content := content }) }

/-- The name `.` for a directory itself. -/
def here : Bytes := [46]

/-- The name `..` for the directory above. -/
def above : Bytes := [46, 46]

structure Route where
  names : List Bytes
  /-- Whether it ends in a slash, so that it can only lead to a directory. -/
  closed : Bool
  deriving DecidableEq, Repr

def Route.ofPath (path : Bytes) : Route :=
  { names := (Bytes.splitAt Bytes.slash path).filter (· ≠ [])
    closed := path.getLast? = some Bytes.slash }

/-- What a path is walked for. -/
inductive Aim
  /-- For what it leads to, through all links. -/
  | target
  /-- For what bears the last name, even if that is a link. -/
  | bearer
  /-- For a file to be written, which need not be there yet. -/
  | creation
  deriving DecidableEq, Repr

/-- How many symbolic links may be followed for one path. -/
def linkLimit : Nat := 40

def nameLimit : Nat := 255

/-- The length that paths stay below. -/
def pathLimit : Nat := 4096

/-- Where a walk for a path begins. -/
def start (t : FileTree) (directory : NodeId) (path : Bytes) : NodeId :=
  if path.head? = some Bytes.slash then t.root else directory

/-- The name under which a directory stands in the one above it. -/
def nameAbove? (t : FileTree) (id : NodeId) : Option (NodeId × Bytes) :=
  match (t.node id).content with
  | .directory parent _ =>
    match (t.node parent).content with
    | .directory _ names => (names.find? (·.2 = id)).map fun entry => (parent, entry.1)
    | _ => none
  | _ => none

/-- Whether a directory is part of the tree, and not removed while it is in use. -/
def isLinked (t : FileTree) (id : NodeId) : Bool := id = t.root || (t.nameAbove? id).isSome

/-- Walks on from a directory over the remaining names. A file to be created cannot have the name of
a directory, which shows before anything else about its last name. -/
def walk (t : FileTree) (user : Nat) (aim : Aim) :
    Nat → NodeId → List Bytes → Bool → Except Errno Place
  | _, current, [], _ => .ok ⟨current, here, some current⟩
  | links, current, name :: rest, closed =>
    let directory := t.node current
    match directory.content with
    | .directory parent names =>
      if !directory.permits user .search then .error .accessDenied
      else if name = here then
        if rest = [] then .ok ⟨current, here, some current⟩
        else walk t user aim links current rest closed
      else if name = above then
        if rest = [] then .ok ⟨current, above, some parent⟩
        else walk t user aim links parent rest closed
      else if rest = [] && closed && aim = .creation then .error .isDirectory
      else match names.lookup name with
        | none =>
          -- A removed directory has no names any more, not even too long ones.
          if !t.isLinked current then .error .noEntry
          else if nameLimit < name.length then .error .nameTooLong
          else if rest = [] then .ok ⟨current, name, none⟩
          else .error .noEntry
        | some id =>
          match (t.node id).content with
          | .link target =>
            if rest = [] && aim = .bearer && !closed then .ok ⟨current, name, some id⟩
            else match links with
              | 0 => .error .tooManyLinks
              | links + 1 =>
                -- What the link says is walked first; a slash at its end counts only if no names
                -- follow.
                let route := Route.ofPath target
                walk t user aim links (t.start current target) (route.names ++ rest)
                  (closed || (rest = [] && route.closed))
          | .directory .. =>
            if rest = [] then .ok ⟨current, name, some id⟩ else walk t user aim links id rest closed
          | _ =>
            if rest = [] && !closed then .ok ⟨current, name, some id⟩ else .error .notDirectory
    | _ => .error .notDirectory
termination_by links _ names _ => (links, names.length)

def locate (t : FileTree) (user : Nat) (directory : NodeId) (aim : Aim) (path : Bytes) :
    Except Errno Place :=
  let route := Route.ofPath path
  if path = [] then .error .noEntry
  else if pathLimit ≤ path.length then .error .nameTooLong
  else t.walk user aim linkLimit (t.start directory path) route.names route.closed

def find (t : FileTree) (user : Nat) (directory : NodeId) (path : Bytes) (aim : Aim := .target) :
    Except Errno NodeId := do
  let place ← t.locate user directory aim path
  match place.node? with
  | some id => .ok id
  | none => .error .noEntry

/-- The path of a directory, given the part of it that is already known. No path has more parts than
there are nodes. -/
def pathFrom (t : FileTree) (known : Bytes) : Nat → NodeId → Option Bytes
  | 0, _ => none
  | fuel + 1, id =>
    if id = t.root then some (if known = [] then [Bytes.slash] else known)
    else match t.nameAbove? id with
      | none => none
      | some (parent, name) => pathFrom t (Bytes.slash :: name ++ known) fuel parent

/-- The path of a directory from the root. A removed directory has none. -/
def path? (t : FileTree) (id : NodeId) : Option Bytes :=
  pathFrom t [] (t.nodes.entries.length + 1) id

end FileTree

end PipeShell
