import PipeShell.System.FileTree.Change
import PipeShell.System.Program

/-!
A machine: a file tree, the files and pipes that are open, and the processes. A process has a table
of descriptors; descriptors of several processes may lead to the same open file, which they then
read and write at one common place. A pipe is at its end when it is empty and no process has an end
of it to write to.
-/

set_option autoImplicit false
set_option relaxedAutoImplicit false

namespace PipeShell

/-- A file that was opened, with the place where it is read or written next. -/
structure OpenFile where
  node : NodeId
  offset : Nat := 0
  readable : Bool := true
  writable : Bool := false
  /-- Whether everything is written at the end of the file. -/
  atEnd : Bool := false

inductive Handle
  | file (number : Nat)
  | readEnd (pipe : Nat)
  | writeEnd (pipe : Nat)
  deriving DecidableEq, Repr

/-- A pipe, with or without a name in the file tree. -/
structure Pipe where
  /-- What was written and not yet read. -/
  content : Bytes := []
  /-- How often an end to read from was opened. -/
  readersSeen : Nat := 0
  /-- How often an end to write to was opened. -/
  writersSeen : Nat := 0

/-- An open of a pipe with a name that waits for the other side. -/
structure Rendezvous where
  fd : Fd
  /-- How often the other side had been opened when the wait began. -/
  seen : Nat

/-- A process. Once it has ended it only keeps its ending, until its parent collects that. -/
structure Process (α : Type) where
  parent : Pid
  program : Program α
  descriptors : Table Handle := {}
  directory : NodeId
  user : Nat := 0
  /-- Descriptors have numbers below this one. -/
  limit : Nat := 1024
  ignored : List Nat := []
  /-- The permissions that new files do not get. -/
  mask : Nat := 0o022
  /-- The names and values that the programs it starts find. -/
  environment : List (Bytes × Bytes) := []
  rendezvous? : Option Rendezvous := none
  /-- How much was taken of what it is writing. -/
  written : Nat := 0
  /-- When it wakes up, if it sleeps. -/
  alarm? : Option Nat := none
  /-- Whether it runs a program that was loaded from a file since it was started. -/
  loaded : Bool := false
  /-- Whether it has read something from a pipe. -/
  fed : Bool := false
  stopped : Bool := false
  ending? : Option Ending := none

/-- What becomes of log records. -/
inductive Logger
  /-- They are kept in the journal of the machine. -/
  | journal
  /-- They are written to the complaints of the process, after the time. -/
  | terminal (verbosity : Log.Verbosity) (time : String)

structure Machine (α : Type) where
  tree : FileTree
  openFiles : Table OpenFile := {}
  pipes : Table Pipe := {}
  /-- The pipes that belong to nodes of the tree. -/
  fifos : Table Nat := {}
  processes : Table (Process α) := {}
  nextPid : Pid := 1
  /-- The records that were left, the last one first. -/
  journal : List Log.Record := []
  logger : Logger := .journal
  /-- The time in microseconds. -/
  now : Nat := 0
  /-- How much a pipe holds. Without a number there is room for everything. -/
  pipeCapacity? : Option Nat := none
  /-- The programs that the system comes with. -/
  installed : Bytes → List Bytes → Program α

namespace Machine

variable {α : Type}

def modifyProcess (m : Machine α) (pid : Pid) (f : Process α → Process α) : Machine α :=
  { m with processes := m.processes.modify pid f }

def proceed (m : Machine α) (pid : Pid) (program : Program α) : Machine α :=
  m.modifyProcess pid fun p => { p with program := program }

/-- What a process does to the file tree, it does as this actor. -/
def actor (_ : Machine α) (p : Process α) : FileTree.Actor :=
  { user := p.user, directory := p.directory, mask := p.mask }

/-- Whether some process has an end of a pipe to read from. -/
def hasReader (m : Machine α) (pipe : Nat) : Bool :=
  m.processes.values.any fun p => Handle.readEnd pipe ∈ p.descriptors.values

/-- Whether some process has an end of a pipe to write to. -/
def hasWriter (m : Machine α) (pipe : Nat) : Bool :=
  m.processes.values.any fun p => Handle.writeEnd pipe ∈ p.descriptors.values

/-- Data up to this length enters a pipe as a whole. -/
def wholeLimit : Nat := 4096

/-- How much of some data a pipe takes at once. -/
def accepted (m : Machine α) (pipe : Pipe) (data : Bytes) : Nat :=
  match m.pipeCapacity? with
  | none => data.length
  | some capacity =>
    let room := capacity - pipe.content.length
    if data.length ≤ room then data.length else if data.length ≤ wholeLimit then 0 else room

end Machine

namespace Process

variable {α : Type}

/-- Puts a handle under the lowest free descriptor. -/
def allocate (p : Process α) (handle : Handle) : Except Errno (Fd × Process α) :=
  match p.descriptors.lowest? p.limit with
  | none => .error .tooManyOpen
  | some fd => .ok (fd, { p with descriptors := p.descriptors.set fd handle })

/-- The value of a variable in the environment of a process. -/
def environmentValue? (p : Process α) (name : String) : Option Bytes :=
  p.environment.lookup (Bytes.ofString name)

def searchPath (p : Process α) : Bytes :=
  (p.environmentValue? "PATH").getD (Bytes.ofString "/bin:/usr/bin")

/-- Whether a descriptor of a process leads to a pipe to read from. -/
def readsPipe (p : Process α) (fd : Fd) : Bool :=
  match p.descriptors.get? fd with
  | some (.readEnd _) => true
  | _ => false

/-- Whether a process does anything any more. -/
def isLive (p : Process α) : Bool := p.ending?.isNone && !p.stopped

end Process

end PipeShell
