import PipeShell.Log.Record
import PipeShell.System.FileTree

/-!
What processes do, as trees: a program is at its end, or makes a call to the system and goes on with
the answer, or starts a child. Transfers from one descriptor to another, which go on for as long as
there is something to read, are single nodes.
-/

set_option autoImplicit false
set_option relaxedAutoImplicit false

namespace PipeShell

/-- A number under which a process has something open. -/
abbrev Fd := Nat

namespace Fd

/-- Where a process reads unless it asks for something else. -/
def input : Fd := 0

/-- Where a process writes. -/
def output : Fd := 1

/-- Where a process complains. -/
def complaints : Fd := 2

end Fd

/-- How a path is opened. -/
inductive Access
  | read
  /-- For writing, the file being created or emptied. -/
  | replace (mode : Nat)
  /-- For writing behind what is there, the file being created if it is missing. -/
  | append (mode : Nat)
  deriving DecidableEq, Repr

/-- Calls whose only effect lies in the directories. -/
inductive Change
  /-- Another working directory. -/
  | enter (path : Bytes)
  | makeDirectory (path : Bytes) (mode : Nat)
  | removeDirectory (path : Bytes)
  | remove (path : Bytes)
  | rename (source target : Bytes)
  deriving DecidableEq, Repr

/-- What an open descriptor leads to. -/
structure OpenInfo where
  kind : NodeKind
  /-- The node, unless it is a pipe without a name. -/
  node? : Option NodeId
  size : Nat
  /-- Where the next byte is read or written. -/
  offset : Nat
  deriving DecidableEq, Repr

/-- What a path leads to. -/
structure NodeInfo where
  node : NodeId
  kind : NodeKind
  mode : Nat
  /-- Whether the user who asks may run it, or search it if it is a directory. -/
  searchable : Bool
  /-- Whether it belongs to the user who asks. -/
  owned : Bool
  /-- Whether the user who asks may change it. -/
  writable : Bool
  deriving DecidableEq, Repr

/-- A call to the system. -/
inductive Call
  | pipe
  | close (fd : Fd)
  | duplicate (source target : Fd)
  | openFile (path : Bytes) (access : Access)
  /-- Runs another program in place of this one, which is searched for if its name has no slash. -/
  | exec (arguments : List Bytes)
  /-- Runs the program in a file in place of this one. -/
  | execFile (path : Bytes) (arguments : List Bytes)
  | exit (code : UInt8)
  /-- Waits for a child to end. -/
  | waitFor (pid : Pid)
  /-- Waits for a child to end, however that is. -/
  | awaitEnd (pid : Pid)
  /-- Asks about a child without waiting. -/
  | poll (pid : Pid)
  | write (fd : Fd) (data : Bytes)
  | seek (fd : Fd) (offset : Nat)
  | inspect (fd : Fd)
  | change (c : Change)
  /-- The names in a directory. -/
  | names (path : Bytes)
  | examine (path : Bytes) (follow : Bool)
  | workingDirectory
  /-- The names and values that were handed over to the process. -/
  | environment
  /-- From now on hands over these names and values. -/
  | provide (environment : List (Bytes × Bytes))
  /-- From now on new files do not get these permissions; the answer tells which ones they did not
  get before. -/
  | withhold (mask : Nat)
  | self
  /-- Waits for so many microseconds. -/
  | sleep (duration : Nat)
  | signal (pid : Pid) (number : Nat)
  /-- From now on a signal does to this process what it does by default. -/
  | restore (number : Nat)
  | note (record : Log.Record)
  deriving DecidableEq, Repr

/-- The answers that a call can have. A call that has none never comes back. -/
abbrev Call.Reply : Call → Type
  | pipe => Except Errno (Fd × Fd)
  | close _ => Unit
  | duplicate .. => Except Errno Unit
  | openFile .. => Except Errno Fd
  | exec _ => Errno
  | execFile .. => Errno
  | exit _ => Empty
  | waitFor _ => Except Errno WaitStatus
  | awaitEnd _ => Except Errno Ending
  | poll _ => Except Errno WaitStatus
  | write .. => Except Errno Unit
  | seek .. => Unit
  | inspect _ => Option OpenInfo
  | change _ => Except Errno Unit
  | names _ => Except Errno (List Bytes)
  | examine .. => Except Errno NodeInfo
  | workingDirectory => Except Errno Bytes
  | environment => List (Bytes × Bytes)
  | provide _ => Unit
  | withhold _ => Nat
  | self => Pid
  | sleep _ => Unit
  | signal .. => Except Errno Unit
  | restore _ => Unit
  | note _ => Unit

/-- Whether an answer settles nothing: the wait was interrupted before the child had ended. -/
def Call.isInterrupted : (c : Call) → c.Reply → Bool
  | .waitFor _, .error .interrupted => true
  | _, _ => false

/-- What a transfer makes of its input: the whole output so far, and, once nothing more will follow,
how much of the input it needed. -/
structure Yield where
  output : Bytes
  needed? : Option Nat := none

/-- A transfer from one descriptor to another. -/
structure Transfer where
  source : Fd := Fd.input
  target : Fd := Fd.output
  /-- How many bytes are read at once. -/
  chunk : Nat := 131072
  /-- How many bytes are written at once. Without a number that is all there is to write. -/
  block? : Option Nat := none
  /-- The output for the input read so far; the second argument says whether the input has ended. -/
  yield : Bytes → Bool → Yield
  /-- What was read. -/
  seen : Bytes := []
  /-- Whether the input has ended. -/
  ended : Bool := false
  /-- The output that is still to be written. -/
  pending : Bytes := (yield seen ended).output
  /-- How much of the input was needed, once nothing more will follow. -/
  needed? : Option Nat := (yield seen ended).needed?
  /-- How much of the output was written. -/
  written : Nat := 0

namespace Transfer

/-- Takes account of more input, or of its end. -/
def advance (t : Transfer) (input : Bytes) (ended : Bool) : Transfer :=
  let seen := t.seen ++ input
  let y := t.yield seen ended
  { t with seen := seen, ended := ended, pending := y.output.drop t.written, needed? := y.needed? }

/-- Takes account of a part of the output that was written. -/
def wrote (t : Transfer) (count : Nat) : Transfer :=
  { t with pending := t.pending.drop count, written := t.written + count }

def next (t : Transfer) : Bytes :=
  match t.block? with
  | some block => t.pending.take block
  | none => t.pending

/-- How much of the input was needed, once there is nothing left to do. -/
def completion? (t : Transfer) : Option Nat :=
  if t.pending ≠ [] then none
  else if t.ended then some (t.needed?.getD t.seen.length) else t.needed?

/-- Whether input is needed before anything else can be done. -/
def isHungry (t : Transfer) : Bool := t.pending = [] && t.completion?.isNone

end Transfer

/-- How a transfer came to its end. -/
inductive Halt
  | complete
  | cannotRead (reason : Errno)
  | cannotWrite (reason : Errno)
  deriving DecidableEq, Repr

/-- What is known after a transfer. -/
structure Transferred where
  halt : Halt
  /-- All that was read. -/
  seen : Bytes
  /-- How much of it was needed. -/
  needed : Nat
  /-- How much of the output was written. -/
  written : Nat

/-- What a process does from now on. -/
inductive Program (α : Type) : Type
  /-- It hands over a result. -/
  | done (result : α)
  | call (c : Call) (next : c.Reply → Program α)
  | fork (child : Program α) (next : Except Errno Pid → Program α)
  | transfer (t : Transfer) (next : Transferred → Program α)
  /-- It writes the same again and again until that fails. -/
  | flood (fd : Fd) (block : Bytes) (next : Errno → Program α)

namespace Program

variable {α β : Type}

/-- Goes on with the result of a program. A child that hands over a result goes on in the same
way. -/
def bind : Program α → (α → Program β) → Program β
  | done result, f => f result
  | call c next, f => call c fun reply => bind (next reply) f
  | fork child next, f => fork (bind child f) fun reply => bind (next reply) f
  | transfer t next, f => transfer t fun result => bind (next result) f
  | flood fd block next, f => flood fd block fun e => bind (next e) f

instance : Monad Program where
  pure := done
  bind := bind

@[simp] theorem pure_eq (a : α) : (pure a : Program α) = done a := rfl

@[simp] theorem done_bind (a : α) (f : α → Program β) : (done a >>= f) = f a := rfl

@[simp] theorem call_bind (c : Call) (next : c.Reply → Program α) (f : α → Program β) :
    (call c next >>= f) = call c fun reply => next reply >>= f := rfl

@[simp] theorem fork_bind (child : Program α)
    (next : Except Errno Pid → Program α) (f : α → Program β) :
    (fork child next >>= f) = fork (child >>= f) fun reply => next reply >>= f := rfl

/-- Goes on after a call, with an answer to it. An interrupted call is made again. -/
def resume (c : Call) (next : c.Reply → Program α) (reply : c.Reply) : Program α :=
  if c.isInterrupted reply then call c next else next reply

def ask (c : Call) : Program c.Reply := call c done

/-- Makes one call whose answer does not matter. -/
def act (c : Call) : Program Unit := call c fun _ => done ()

def exit (code : UInt8) : Program α := call (.exit code) Empty.elim

/-- Writes without minding whether it works. -/
def put (fd : Fd) (data : Bytes) : Program Unit := act (.write fd data)

def note (record : Log.Record) : Program Unit := act (.note record)

/-- Reads once. Nothing at all means the end. -/
def readSome (fd : Fd) (count : Nat) : Program Transferred :=
  let yield (seen : Bytes) (_ : Bool) : Yield :=
    { output := [], needed? := if seen = [] then none else some seen.length }
  transfer { source := fd, chunk := count, yield := yield } done

/-- Reads a descriptor to its end. -/
def slurp (fd : Fd) : Program Transferred :=
  transfer { source := fd, yield := fun _ _ => ⟨[], none⟩ } done

end Program

end PipeShell
