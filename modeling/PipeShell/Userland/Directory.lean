import PipeShell.Userland.Tool

/-!
Programs about directories: listing them, making and removing them, and giving files other names.
-/

set_option autoImplicit false
set_option relaxedAutoImplicit false

namespace PipeShell.Tool

def lastPart (path : Bytes) : Bytes :=
  let trimmed := (path.reverse.dropWhile (· = Bytes.slash)).reverse
  (trimmed.reverse.takeWhile (· ≠ Bytes.slash)).reverse

def below (directory name : Bytes) : Bytes :=
  if directory.getLast? = some Bytes.slash then directory ++ name
  else directory ++ Bytes.slash :: name

/-! ### Listing -/

structure Listing where
  /-- Whether names that begin with a dot are shown. -/
  hidden : Bool := false
  /-- Whether the directory itself and the one above are shown as well. -/
  all : Bool := false
  /-- Whether names that end in a tilde are left out. -/
  withoutBackups : Bool := false
  reverse : Bool := false
  /-- Whether directories are shown by their names only. -/
  asFiles : Bool := false
  /-- Whether the directories in a directory are listed behind it. -/
  deep : Bool := false
  /-- Whether a mark behind a name tells what it names: for directories, for everything but
  programs, or for all. -/
  marksDirectories : Bool := false
  marksKinds : Bool := false
  marksPrograms : Bool := false
  /-- Whether links among the operands stand for what they lead to, if that is a directory. -/
  followsOperands : Bool := true
  /-- Whether all links stand for what they lead to. -/
  followsAll : Bool := false

namespace Listing

def order (l : Listing) (names : List Bytes) : List Bytes :=
  let sorted := names.mergeSort Bytes.notAfter
  if l.reverse then sorted.reverse else sorted

def includes (l : Listing) (name : Bytes) : Bool :=
  (l.hidden || l.all || name.head? ≠ some 46) && !(l.withoutBackups && name.getLast? = some 126)

def names (l : Listing) (inside : List Bytes) : List Bytes :=
  l.order ((if l.all then [[46], [46, 46]] else []) ++ inside.filter l.includes)

def needsKinds (l : Listing) : Bool := l.marksDirectories || l.marksKinds || l.deep

def mark (l : Listing) (info : NodeInfo) : Bytes :=
  match info.kind with
  | .directory => if l.marksDirectories || l.marksKinds then [Bytes.slash] else []
  | .link => if l.marksKinds then [64] else []
  | .fifo => if l.marksKinds then [124] else []
  | .file => if l.marksPrograms && info.mode &&& 0o111 ≠ 0 then [42] else []
  | .device => []

end Listing

/-- What there is behind an operand, or why that cannot be found out. A link that leads nowhere
counts by itself. -/
def examineOperand (path : Bytes) (follow : Bool) : Program (Except Errno NodeInfo) := do
  match ← Program.ask (.examine path follow) with
  | .error reason =>
    if follow && (reason = .noEntry || reason = .tooManyLinks) then
      Program.ask (.examine path false)
    else pure (.error reason)
  | .ok found =>
    if follow && found.kind ≠ .directory then Program.ask (.examine path false)
    else pure (.ok found)

/-- Sorts operands into directories and others, with their marks; says so where there is nothing. -/
def sortOperands (name : Bytes) (l : Listing) :
    List Bytes → Program (List (Bytes × Bytes) × List Bytes × UInt8)
  | [] => pure ([], [], 0)
  | operand :: rest => do
    let found ← if l.followsAll then Program.ask (.examine operand true)
      else examineOperand operand l.followsOperands
    match found with
    | .error reason =>
      complainAbout name (Bytes.ofString "cannot access " ++ quoted operand) reason
      let (files, directories, _) ← sortOperands name l rest
      pure (files, directories, 2)
    | .ok info =>
      let (files, directories, code) ← sortOperands name l rest
      if info.kind = .directory && !l.asFiles then pure (files, operand :: directories, code)
      else pure ((operand, l.mark info) :: files, directories, code)

/-- Names in a directory with their marks, and those of them that are directories. -/
def markEach (l : Listing) (directory : Bytes) : List Bytes → Program (List Bytes × List Bytes)
  | [] => pure ([], [])
  | name :: rest => do
    let found ← if l.needsKinds then Program.ask (.examine (below directory name) l.followsAll)
      else pure (.error .noEntry)
    let (others, directories) ← markEach l directory rest
    match found with
    | .error _ => pure (name :: others, directories)
    | .ok info =>
      let inside : Bool := l.deep && info.kind = .directory &&
        name ∉ [FileTree.here, FileTree.above]
      pure ((name ++ l.mark info) :: others,
        if inside then below directory name :: directories else directories)

def listFault : Writing := { code := 2 }

/-- Lists directories one after the other, with headings if there is more to list; says whether any
was listed. The number is how deep the directories in them may lie. -/
def listEach (name : Bytes) (l : Listing) (headings : Bool) (failure : UInt8) :
    Nat → Bool → List Bytes → Program (Bool × UInt8)
  | _, started, [] => pure (started, 0)
  | depth, started, directory :: rest => do
    match ← Program.ask (.names directory) with
    | .error reason =>
      complainAbout name (Bytes.ofString "cannot open directory " ++ quoted directory) reason
      let (started, code) ← listEach name l headings failure depth started rest
      pure (started, max failure code)
    | .ok inside => do
      let heading := if headings then
          (if started then [Bytes.newline] else []) ++ directory ++ [58, Bytes.newline]
        else []
      let (shown, directories) ← markEach l directory (l.names inside)
      emit name (heading ++ unlines shown) listFault
      let (_, code) ← match depth with
        | 0 => pure (true, 0)
        | depth + 1 => listEach name l headings 1 depth true directories
      let (_, others) ← listEach name l headings failure depth true rest
      pure (true, max code others)
termination_by depth _ directories => (depth, directories.length)

/-- Lists directories, and names files. -/
def list : Tool :=
  let usage : Usage :=
    { plain := "1aABdFGHkLNprRτ", code := 2
      words := [("all", 'a'), ("almost-all", 'A'), ("ignore-backups", 'B'), ("directory", 'd'),
        ("file-type", 'τ'), ("recursive", 'R'), ("reverse", 'r'), ("dereference", 'L')] }
  withArguments usage fun name a => do
    let kind? := a.last? ['p', 'τ', 'F']
    let l : Listing :=
      { hidden := a.last? ['a', 'A'] = some 'A', all := a.last? ['a', 'A'] = some 'a',
        withoutBackups := a.has 'B'
        reverse := a.has 'r', asFiles := a.has 'd', deep := a.has 'R' && !a.has 'd'
        marksDirectories := kind?.isSome, marksKinds := kind? = some 'τ' || kind? = some 'F'
        marksPrograms := kind? = some 'F', followsOperands := a.has 'H' || !(a.has 'd' || a.has 'F')
        followsAll := a.has 'L' }
    let (files, directories, code) ← sortOperands name l
      (if a.operands = [] then [FileTree.here] else a.operands)
    let inOrder := files.mergeSort fun x y => if l.reverse then Bytes.notAfter y.1 x.1
      else Bytes.notAfter x.1 y.1
    emit name (unlines (inOrder.map fun file => file.1 ++ file.2)) listFault
    let headings : Bool := 1 < a.operands.length || l.deep
    let (_, listCode) ← listEach name l headings 2 FileTree.pathLimit (files ≠ [])
      (l.order directories)
    pure (max code listCode)

/-! ### Changing -/

/-- Does something to each operand. Where it fails the message is shown. -/
def eachOperand (name : Bytes) (body : Bytes → Program (Option Bytes)) : List Bytes → Program UInt8
  | [] => pure 0
  | operand :: rest => do
    match ← body operand with
    | some message => do
      complain name message
      let _ ← eachOperand name body rest
      pure 1
    | none => eachOperand name body rest

def withOperands (name : Bytes) (a : Arguments) (body : Program UInt8) : Program UInt8 :=
  if a.operands = [] then misused name (Bytes.ofString "missing operand") 1 else body

def mention (name : Bytes) (wanted : Bool) (text : Bytes) : Program Unit :=
  if wanted then emit name (text ++ [Bytes.newline]) else pure ()

def mentionNamed (name : Bytes) (wanted : Bool) (text : Bytes) : Program Unit :=
  mention name wanted (name ++ Bytes.ofString ": " ++ text)

def withoutSlashes (path : Bytes) : Bytes := (path.reverse.dropWhile (· = Bytes.slash)).reverse

/-- The paths of the directories above a path, the lowest first. -/
def parentsOf (path : Bytes) : List Bytes :=
  let path := withoutSlashes path
  (((List.range path.length).filter fun k => k ≠ 0 &&
    path[k]? = some Bytes.slash).map path.take).reverse

/-- Whether a path with a slash at its end names a link that is not followed. -/
def isUnfollowed (path : Bytes) (reason : Errno) : Program Bool := do
  if reason = .notDirectory && path.getLast? = some Bytes.slash then
    match ← Program.ask (.examine (withoutSlashes path) false) with
    | .ok bearer => pure (bearer.kind = .link)
    | .error _ => pure false
  else pure false

/-- Removes empty directories one after the other, until one cannot be removed. -/
def removeChain (name : Bytes) (verbose tolerant : Bool) (what : Bytes → Bytes) :
    List Bytes → Program (Option Bytes)
  | [] => pure none
  | path :: rest => do
    mentionNamed name verbose (Bytes.ofString "removing directory, " ++ quoted path)
    match ← Program.ask (.change (.removeDirectory path)) with
    | .ok () =>
      removeChain name verbose tolerant
        (fun path => Bytes.ofString "failed to remove directory " ++ quoted path) rest
    | .error reason => do
      if tolerant && reason = .notEmpty then pure none
      else if ← isUnfollowed path reason then
        pure (some (what path ++ Bytes.ofString ": Symbolic link not followed"))
      else pure (some (because (what path) reason))

/-- Removes empty directories, with those above them on demand. -/
def removeDirectories : Tool :=
  let usage : Usage :=
    { plain := "pvι",
      words := [("parents", 'p'), ("verbose", 'v'), ("ignore-fail-on-non-empty", 'ι')] }
  withArguments usage fun name a =>
    withOperands name a <| eachOperand name (fun path =>
      removeChain name (a.has 'v') (a.has 'ι') (fun path => Bytes.ofString "failed to remove " ++
        quoted path) (path :: if a.has 'p' then parentsOf path else [])) a.operands

/-- Makes directories one after the other; their owner can use all but the last one in any case. One
that is there already is fine. -/
def makeChain (name : Bytes) (verbose : Bool) : List Bytes → Program (Option Bytes)
  | [] => pure none
  | path :: rest => do
    let found ← Program.ask (.examine path true)
    let mask ← Program.ask (.withhold 0)
    Program.act (.withhold (if rest = [] then mask else mask &&& 0o477))
    let made ← Program.ask (.change (.makeDirectory path 0o777))
    Program.act (.withhold mask)
    match made with
    | .ok () => do
      mentionNamed name verbose (Bytes.ofString "created directory " ++ quoted path)
      makeChain name verbose rest
    | .error reason => do
      let isThere : Bool := match found with
        | .ok info => info.kind = .directory
        | .error _ => false
      if isThere then makeChain name verbose rest
      else
        let isFile : Bool := match found with
          | .ok _ => rest ≠ []
          | .error _ => false
        pure (some (because (Bytes.ofString "cannot create directory " ++ quoted path)
          (if isFile then .notDirectory else reason)))

/-- Makes directories, with those above them on demand. -/
def makeDirectories : Tool :=
  withArguments { plain := "pv", words := [("parents", 'p'), ("verbose", 'v')] } fun name a =>
    withOperands name a <| eachOperand name (fun path => do
      if a.has 'p' then makeChain name (a.has 'v') ((parentsOf path).reverse ++ [path])
      else match ← Program.ask (.change (.makeDirectory path 0o777)) with
        | .ok () => do
          mentionNamed name (a.has 'v') (Bytes.ofString "created directory " ++ quoted path)
          pure none
        | .error reason =>
          pure (some (because (Bytes.ofString "cannot create directory " ++ quoted path) reason)))
      a.operands

structure Removal where
  /-- Whether missing files are no fault. -/
  forced : Bool := false
  /-- Whether directories are removed with all that is in them. -/
  deep : Bool := false
  /-- Whether empty directories are removed. -/
  directories : Bool := false
  verbose : Bool := false

def complainRemoval (name path : Bytes) (reason : Errno) : Program UInt8 := do
  complainAbout name (Bytes.ofString "cannot remove " ++ quoted path) reason
  pure 1

/-- Removes what a path names. The number is how deep the directories in it may lie. -/
def removeOne (name : Bytes) (r : Removal) : Nat → Bytes → Program UInt8
  | depth, path => do
    match ← Program.ask (.examine path false) with
    | .error reason =>
      if r.forced && (reason = .noEntry || reason = .notDirectory) then pure 0
      else complainRemoval name path reason
    | .ok info =>
      if info.kind = .directory then
        if !r.deep && !r.directories then complainRemoval name path .isDirectory
        else
          let inside ← if r.deep then Program.ask (.names path) else pure (.ok [])
          let code ← match depth, inside with
            | depth + 1, .ok inside =>
              (inside.mergeSort Bytes.notAfter).foldlM (fun code child => do
                let other ← removeOne name r depth (below path child)
                pure (max code other)) (0 : UInt8)
            | _, _ => pure 0
          if code ≠ 0 then pure code
          else match ← Program.ask (.change (.removeDirectory path)) with
            | .ok () => do
              mention name r.verbose (Bytes.ofString "removed directory " ++ quoted path)
              pure 0
            | .error reason => complainRemoval name path reason
      else match ← Program.ask (.change (.remove path)) with
        | .ok () => do
          mention name r.verbose (Bytes.ofString "removed " ++ quoted path)
          pure 0
        | .error reason => complainRemoval name path reason

/-- Removes what an operand names. The working directory, the one above it and the root stay. -/
def removeOperand (name : Bytes) (r : Removal) (path : Bytes) : Program UInt8 := do
  if r.deep && [FileTree.here, FileTree.above].contains (lastPart path) then do
    complain name (Bytes.ofString "refusing to remove '.' or '..' directory: skipping " ++
      quoted path)
    pure 1
  else if r.deep && !path.isEmpty && withoutSlashes path = [] then do
    complain name (Bytes.ofString "it is dangerous to operate recursively on " ++ quoted path)
    complain name (Bytes.ofString "use --no-preserve-root to override this failsafe")
    pure 1
  else removeOne name r FileTree.pathLimit path

/-- Removes files, and directories on demand. -/
def removeFiles : Tool :=
  let usage : Usage :=
    { plain := "frRdv"
      words := [("force", 'f'), ("recursive", 'r'), ("dir", 'd'), ("verbose", 'v')] }
  withArguments usage fun name a =>
    let r : Removal :=
      { forced := a.has 'f', deep := a.has 'r' || a.has 'R', directories := a.has 'd',
        verbose := a.has 'v' }
    if r.forced && a.operands = [] then pure 0
    else withOperands name a <| a.operands.foldlM (fun code path => do
      let other ← removeOperand name r path
      pure (max code other)) (0 : UInt8)

/-- Marks a file as new, and creates it if it is missing. Its owner may do so even if it cannot be
written. -/
def renew (mayCreate : Bool) (path : Bytes) : Program (Option Bytes) := do
  let setting (reason : Errno) : Option Bytes :=
    some (because (Bytes.ofString "setting times of " ++ quoted path) reason)
  let touching (reason : Errno) : Option Bytes :=
    some (because (Bytes.ofString "cannot touch " ++ quoted path) reason)
  match ← Program.ask (.examine path true) with
  | .ok info =>
    if info.owned || info.writable then pure none
    else pure (if info.kind = .directory ||
      !mayCreate then setting .accessDenied else touching .accessDenied)
  | .error reason =>
    if !mayCreate then pure (if reason = .noEntry then none else setting reason)
    else match ← Program.ask (.openFile path (.append 0o666)) with
      | .ok fd => do
        Program.act (.close fd)
        pure none
      | .error .isDirectory => pure (setting reason)
      | .error reason => pure (touching reason)

/-- Marks files as new, and creates those that are missing. -/
def createFiles : Tool :=
  withArguments { plain := "acfm", words := [("no-create", 'c')] } fun name a =>
    if a.operands = [] then misused name (Bytes.ofString "missing file operand") 1
    else eachOperand name (renew (!a.has 'c')) a.operands

structure Move where
  /-- Whether nothing is replaced. -/
  keeps : Bool := false
  verbose : Bool := false

/-- Whether two paths lead to one node, or the first is a link to the second. -/
def areSame (source : Bytes) (found there : NodeInfo) : Program Bool := do
  if found.node = there.node then pure true
  else if found.kind = .link then
    match ← Program.ask (.examine source true) with
    | .ok behind => pure (behind.node = there.node)
    | .error _ => pure false
  else pure false

/-- Gives one file another name, which nothing else may have that would be lost. -/
def rename (name : Bytes) (m : Move) (source target : Bytes) : Program (Option Bytes) := do
  let moving (preposition : String) : Bytes :=
    Bytes.ofString "cannot move " ++ quoted source ++ Bytes.ofString preposition ++ quoted target
  match ← Program.ask (.change (.rename source target)) with
  | .ok () => do
    mention name m.verbose
      (Bytes.ofString "renamed " ++ quoted source ++ Bytes.ofString " -> " ++ quoted target)
    pure none
  | .error .invalid => pure (some (moving " to a subdirectory of itself, "))
  | .error .notEmpty =>
    pure (some (because (Bytes.ofString "cannot overwrite " ++ quoted target) .notEmpty))
  | .error reason => pure (some (because (moving " to ") reason))

def moveOne (name : Bytes) (m : Move) (source target : Bytes) : Program (Option Bytes) := do
  match ← Program.ask (.examine source false) with
  | .error reason => pure (some (because (Bytes.ofString "cannot stat " ++ quoted source) reason))
  | .ok found =>
    match ← Program.ask (.examine target false) with
    | .error .noEntry => rename name m source target
    | .error reason => pure (some (because (Bytes.ofString "cannot stat " ++ quoted target) reason))
    | .ok there =>
      if ← areSame source found there then
        pure (some (quoted source ++ Bytes.ofString " and " ++ quoted target ++
          Bytes.ofString " are the same file"))
      else if m.keeps then pure none
      else if found.kind = .directory && there.kind ≠ .directory then
        pure (some (Bytes.ofString "cannot overwrite non-directory " ++ quoted target ++
          Bytes.ofString " with directory " ++ quoted source))
      else if found.kind ≠ .directory && there.kind = .directory then
        pure (some (Bytes.ofString "cannot overwrite directory " ++ quoted target ++
          Bytes.ofString " with non-directory"))
      else rename name m source target

def moveInto (name : Bytes) (m : Move) (directory : Bytes) (files : List Bytes) : Program UInt8 :=
  eachOperand name (fun source => moveOne name m source (below directory (lastPart source))) files

def complainTarget (name target : Bytes) (reply : Except Errno NodeInfo) : Program UInt8 := do
  let reason := match reply with
    | .error reason => reason
    | .ok _ => .notDirectory
  complainAbout name (Bytes.ofString "target " ++ quoted target) reason
  pure 1

/-- Gives files other places: another name, or one in a directory. -/
def move : Tool :=
  let usage : Usage :=
    { plain := "finTv", valued := "t"
      words := [("force", 'f'), ("no-clobber", 'n'), ("target-directory", 't'),
        ("no-target-directory", 'T'), ("verbose", 'v')] }
  withArguments usage fun name a =>
    let m : Move := { keeps := a.last? ['f', 'i', 'n'] = some 'n', verbose := a.has 'v' }
    match a.value? 't', a.operands.reverse with
    | _, [] => misused name (Bytes.ofString "missing file operand") 1
    | some directory, _ => do
      match ← Program.ask (.examine directory true) with
      | .ok ⟨_, .directory, _, _, _, _⟩ => moveInto name m directory a.operands
      | reply => complainTarget name directory reply
    | none, [source] =>
      misused name (Bytes.ofString "missing destination file operand after " ++ quoted source) 1
    | none, target :: sources => do
      match ← Program.ask (.examine target true), sources, a.has 'T' with
      | .ok ⟨_, .directory, _, _, _, _⟩, _, false => moveInto name m target sources.reverse
      | _, [source], _ => eachOperand name (fun source => moveOne name m source target) [source]
      | _, _ :: extra :: _, true => misused name (Bytes.ofString "extra operand " ++ quoted extra) 1
      | reply, _, _ => complainTarget name target reply

end PipeShell.Tool
