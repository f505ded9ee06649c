import PipeShell.System.FileTree

/-!
What a process runs when it asks for another program: the search along a list of directories, the
files that name an interpreter in their first line, and the shell for files that are no program at
all.
-/

set_option autoImplicit false
set_option relaxedAutoImplicit false

namespace PipeShell

/-- A program that the system comes with, and the arguments it is given. -/
structure Image where
  program : Bytes
  arguments : List Bytes
  deriving DecidableEq, Repr

namespace Image

/-- The longest argument, with a byte that ends it. -/
def argumentLimit : Nat := 131072

/-- The room for all arguments together. -/
def totalLimit : Nat := 2097152

/-- How many interpreters may stand behind one another. -/
def interpreterLimit : Nat := 5

/-- How much of a file is looked at to find its interpreter. -/
def headLimit : Nat := 256

/-- The shell, which runs files that are no program. -/
def shell : Bytes := Bytes.ofString "/bin/sh"

def tooLong (arguments : List Bytes) : Bool :=
  arguments.any (fun a => argumentLimit < a.length + 1) ||
    totalLimit < arguments.foldl (fun room a => room + a.length + 9) 0

/-- Blanks in the first line of a file. -/
private def isBlank (b : UInt8) : Bool := b = 32 || b = 9

/-- Zeros stand for what a file does not have, and they end names. -/
private def endsName (b : UInt8) : Bool := isBlank b || b = 0

/-- The rest of the first line of a file, behind the mark of two bytes, as far as it is looked at.
There has to be an end of the line, or at least an end of the interpreter's name. -/
def firstLine? (head : Bytes) : Option Bytes :=
  if Bytes.newline ∈ head then some (head.takeWhile (· ≠ Bytes.newline))
  else if (head.dropWhile isBlank).any endsName then some head.dropLast
  else none

/-- The interpreter that the first line of a file names, and the argument that it is given there. -/
def interpreter? (data : Bytes) : Option (Bytes × Option Bytes) :=
  match data.take headLimit ++ List.replicate (headLimit - data.length) 0 with
  | 35 :: 33 :: head =>
    match firstLine? head with
    | none => none
    | some line =>
      let line := (line.reverse.dropWhile isBlank).reverse.dropWhile isBlank
      let name := line.takeWhile (!endsName ·)
      let argument? : Option Bytes :=
        match (line.drop name.length).takeWhile (· ≠ 0) with
        | [] => none
        | behind => some (behind.dropWhile isBlank)
      if line = [] then none else some (name, argument?)
  | _ => none

/-- Where files are loaded from, and for whom. -/
structure Loader where
  tree : FileTree
  user : Nat
  /-- Where paths start that do not begin at the root. -/
  directory : NodeId
  /-- The nodes that somebody is writing to. -/
  busy : List NodeId := []

/-- The node of a file that can be run. An empty path is the directory itself, which cannot. -/
def Loader.find (l : Loader) (path : Bytes) : Except Errno Node :=
  if path = [] then .error .accessDenied
  else match l.tree.find l.user l.directory path with
  | .error e => .error e
  | .ok id =>
    let node := l.tree.node id
    if node.content.kind ≠ .file || !node.permits l.user .search then .error .accessDenied
    else if id ∈ l.busy then .error .textBusy
    else .ok node

/-- Loads a file. It is a program itself, or names an interpreter for it, or is of no known sort. -/
def load (l : Loader) : Nat → Bytes → List Bytes → Except Errno Image
  | depth, path, arguments =>
    match l.find path with
    | .error e => .error e
    | .ok node =>
      match node.content with
      | .program name => .ok ⟨name, arguments⟩
      | .file data =>
        match interpreter? data, depth with
        | none, _ => .error .notExecutable
        -- That the chain is too long shows only after its next file was found.
        | some (name, _), 0 =>
          match l.find name with
          | .error e => .error e
          | .ok _ => .error .tooManyLinks
        | some (name, argument), depth + 1 =>
          load l depth name (name :: argument.toList ++ path :: arguments.tail)
      | _ => .error .accessDenied

/-- Loads a file, or the shell for a file of no known sort. -/
def loadOrShell (l : Loader) (path : Bytes) (arguments : List Bytes) : Except Errno Image :=
  if tooLong arguments then .error .argumentsTooLong
  else match load l interpreterLimit path arguments with
    | .error .notExecutable => load l interpreterLimit shell (shell :: path :: arguments.tail)
    | result => result

/-- Tries one path after the other. A file that may not be run is passed over, but remembered. -/
def tryAll (l : Loader) (arguments : List Bytes) : Errno → Bool → List Bytes → Except Errno Image
  | last, denied, [] => .error (if denied then .accessDenied else last)
  | _, denied, path :: rest =>
    match loadOrShell l path arguments with
    | .ok image => .ok image
    | .error .accessDenied => tryAll l arguments .accessDenied true rest
    | .error .noEntry => tryAll l arguments .noEntry denied rest
    | .error .notDirectory => tryAll l arguments .notDirectory denied rest
    | .error e => .error e

/-- The directories of a search path, which stand between colons. One that is too long to be any is
passed over at the end; elsewhere it counts as empty. -/
def directories (searchPath : Bytes) : List Bytes :=
  let isDirectory (entry : Bytes) : Bool := entry.length < FileTree.pathLimit
  let entries := Bytes.splitAt 58 searchPath
  entries.dropLast.map (fun entry => if isDirectory entry then entry else []) ++
    entries.getLast?.toList.filter isDirectory

/-- The files that may be meant by a name without a slash, of which no more is used than is too long
already. The empty directory is the working directory. -/
def candidates (searchPath name : Bytes) : List Bytes :=
  let file := name.take (FileTree.nameLimit + 1)
  (directories searchPath).map fun directory =>
    if directory = [] then file else directory ++ Bytes.slash :: file

/-- Finds what a list of arguments asks to run; the first one is the name. -/
def search (l : Loader) (searchPath : Bytes) (arguments : List Bytes) : Except Errno Image :=
  match arguments with
  | [] => .error .noEntry
  | name :: _ =>
    if name = [] then .error .noEntry
    else if Bytes.slash ∈ name then loadOrShell l name arguments
    else tryAll l arguments .noEntry false (candidates searchPath name)

end Image

end PipeShell
