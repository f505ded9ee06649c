import PipeShell.System.FileTree

/-!
Changes of a file tree: opening a file for writing, which may create it, making and removing nodes,
and giving them another place.
-/

set_option autoImplicit false
set_option relaxedAutoImplicit false

namespace PipeShell.FileTree

/-- Who changes the tree, and from where paths start that do not begin at the root. -/
structure Actor where
  user : Nat := 0
  directory : NodeId
  /-- The permissions that new nodes do not get. -/
  mask : Nat := 0o022

/-- Where a path leads whose last name is to be given or taken away, with or without slashes behind
it. -/
def locateName (t : FileTree) (actor : Actor) (path : Bytes) : Except Errno Place :=
  let route := Route.ofPath path
  if path = [] then .error .noEntry
  else if pathLimit ≤ path.length then .error .nameTooLong
  else t.walk actor.user .bearer linkLimit (t.start actor.directory path) route.names false

/-- Whether the actor may change the names in a directory. -/
def mayChange (t : FileTree) (actor : Actor) (directory : NodeId) : Bool :=
  (t.node directory).permits actor.user .write && (t.node directory).permits actor.user .search

def attach (t : FileTree) (directory : NodeId) (name : Bytes) (id : NodeId) : FileTree :=
  match (t.node directory).content with
  | .directory parent names => t.setContent directory (.directory parent (names ++ [(name, id)]))
  | _ => t

def detach (t : FileTree) (directory : NodeId) (name : Bytes) : FileTree :=
  match (t.node directory).content with
  | .directory parent names =>
    t.setContent directory (.directory parent (names.filter (·.1 ≠ name)))
  | _ => t

/-- Adds a node at a place that has none. -/
def addNode (t : FileTree) (place : Place) (node : Node) : FileTree × NodeId :=
  let id := t.nodes.next
  (({ t with nodes := t.nodes.set id node } : FileTree).attach place.directory place.name id, id)

/-- Adds a node on behalf of an actor, who needs the permission. -/
def create (t : FileTree) (actor : Actor) (place : Place) (content : Content) (mode : Nat) :
    Except Errno (FileTree × NodeId) :=
  if !t.mayChange actor place.directory then .error .accessDenied
  else .ok (t.addNode place
    { content := content, mode := mode &&& (0o777 ^^^ (actor.mask &&& 0o777)),
      owner := actor.user })

/-- Changes the data of a file on behalf of a user. -/
def setData (t : FileTree) (user : Nat) (id : NodeId) (data : Bytes) : FileTree :=
  { t with nodes := t.nodes.modify id fun node =>
      { node with content := .file data, mode := Node.modeAfterChange node.mode user } }

/-- Opens a path for writing. A missing file is created; an existing one is emptied on demand.
Nothing can be written to a directory, nor to a path that ends like one. -/
def openForWriting (t : FileTree) (actor : Actor) (path : Bytes) (mode : Nat) (truncate : Bool) :
    Except Errno (FileTree × NodeId) :=
  match t.locate actor.user actor.directory .creation path with
  | .error e => .error e
  | .ok place =>
    match place.node? with
    | none => t.create actor place (.file []) mode
    | some id =>
      match (t.node id).content with
      | .directory .. => .error .isDirectory
      | content =>
        if !(t.node id).permits actor.user .write then .error .accessDenied
        else match content with
          | .file _ => .ok (if truncate then t.setData actor.user id [] else t, id)
          | _ => .ok (t, id)

def openForReading (t : FileTree) (actor : Actor) (path : Bytes) : Except Errno NodeId :=
  match t.find actor.user actor.directory path with
  | .error e => .error e
  | .ok id => if (t.node id).permits actor.user .read then .ok id else .error .accessDenied

def makeDirectory (t : FileTree) (actor : Actor) (path : Bytes) (mode : Nat) :
    Except Errno FileTree := do
  let place ← t.locateName actor path
  match place.node? with
  | some _ => .error .alreadyExists
  | none =>
    let (t, _) ← t.create actor place (.directory place.directory []) mode
    .ok t

/-- Removes an empty directory. -/
def removeDirectory (t : FileTree) (actor : Actor) (path : Bytes) : Except Errno FileTree := do
  let place ← t.locateName actor path
  match place.node? with
  | none => .error .noEntry
  | some id =>
    if id = t.root then .error .busy
    else if place.name = here then .error .invalid
    else if place.name = above then .error .notEmpty
    else if !t.mayChange actor place.directory then .error .accessDenied
    else match (t.node id).content with
      | .directory _ [] => .ok (t.detach place.directory place.name)
      | .directory .. => .error .notEmpty
      | _ => .error .notDirectory

def remove (t : FileTree) (actor : Actor) (path : Bytes) : Except Errno FileTree := do
  let place ← t.locate actor.user actor.directory .bearer path
  match place.node? with
  | none => .error .noEntry
  | some id =>
    if (t.node id).content.kind = .directory then .error .isDirectory
    else if !t.mayChange actor place.directory then .error .accessDenied
    else .ok (t.detach place.directory place.name)

/-- Whether a directory is another one or lies below it. No path has more parts than there are
nodes. -/
def liesIn (t : FileTree) (id outer : NodeId) : Nat → Bool
  | 0 => false
  | fuel + 1 =>
    id = outer || match t.nameAbove? id with
      | none => false
      | some (parent, _) => id ≠ t.root && liesIn t parent outer fuel

/-- Gives a node another place. A node that is there already gives way, if it is of the same sort
and empty. -/
def rename (t : FileTree) (actor : Actor) (source target : Bytes) : Except Errno FileTree := do
  let old ← t.locateName actor source
  let new ← t.locateName actor target
  match old.node? with
  | none => .error .noEntry
  | some id =>
    let isDirectory : Bool := (t.node id).content.kind = .directory
    if old.name ∈ [here, above] ∨ new.name ∈ [here, above] then .error .busy
    else if !isDirectory && ((Route.ofPath source).closed || (Route.ofPath target).closed) then
      .error .notDirectory
    else if !t.mayChange actor old.directory || !t.mayChange actor new.directory then
      .error .accessDenied
    else if isDirectory &&
      t.liesIn new.directory id (t.nodes.entries.length + 1) then .error .invalid
    else if new.node? = some id then .ok t
    else
      match new.node?.map fun other => (t.node other).content with
      | some (.directory _ (_ :: _)) =>
        if isDirectory then .error .notEmpty else .error .isDirectory
      | some (.directory _ []) =>
        if isDirectory then .ok (move t id old new) else .error .isDirectory
      | some _ => if isDirectory then .error .notDirectory else .ok (move t id old new)
      | none => .ok (move t id old new)
where
  /-- Takes a node from its place to another one. -/
  move (t : FileTree) (id : NodeId) (old new : Place) : FileTree :=
    let t := ((t.detach old.directory old.name).detach new.directory new.name).attach
      new.directory new.name id
    match (t.node id).content with
    | .directory _ names => t.setContent id (.directory new.directory names)
    | _ => t

/-- The names in a directory. -/
def namesIn (t : FileTree) (actor : Actor) (path : Bytes) : Except Errno (List Bytes) := do
  let id ← t.find actor.user actor.directory path
  match (t.node id).content with
  | .directory _ names =>
    if (t.node id).permits actor.user .read then .ok (names.map (·.1)) else .error .accessDenied
  | _ => .error .notDirectory

/-- All nodes below a directory that a user gets to see, with their paths, to a depth. -/
def below (t : FileTree) (user : Nat) (id : NodeId) (path : Bytes) : Nat → List (Bytes × Node)
  | 0 => []
  | depth + 1 =>
    match (t.node id).content with
    | .directory _ names =>
      if (t.node id).permits user .read && (t.node id).permits user .search then
        names.flatMap fun (name, child) =>
          let childPath := if path = [] then name else path ++ [Bytes.slash] ++ name
          (childPath, t.node child) :: below t user child childPath depth
      else []
    | _ => []

/-- All nodes below a directory that a user gets to see, with their paths, in the order of the
paths. -/
def listing (t : FileTree) (user : Nat) (id : NodeId) : List (Bytes × Node) :=
  (t.below user id [] (t.nodes.entries.length + 1)).mergeSort fun a b => Bytes.notAfter a.1 b.1

end PipeShell.FileTree
