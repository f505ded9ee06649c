import PipeShell.Report
import PipeShell.Session
import PipeShell.System.Machine.Setup

/-!
Sessions on a machine. The interpreter is one of its processes; it reads its input in blocks, so
that the programs it starts see only what is behind the block.
-/

set_option autoImplicit false
set_option relaxedAutoImplicit false

namespace PipeShell

/-- An interpreter on a machine. -/
structure Console where
  machine : Machine Report
  background : Background := {}
  /-- What was read from the input and not yet given out. -/
  ahead : Bytes := []

namespace Console

/-- Lets the interpreter do a piece of work. -/
def perform (c : Console) (work : Program Report) : Option Report × Console :=
  let (report?, machine) := c.machine.perform Setup.pid work
  (report?, { c with machine := machine })

/-- Lets the interpreter do something that has no result. -/
def perform_ (c : Console) (work : Program Unit) : Console :=
  (c.perform do work; pure .nothing).2

def reap (c : Console) : Console :=
  match c.perform (Report.ofReap c.background) with
  | (some (.background b), c) => { c with background := b }
  | (_, c) => c

/-- How the process of the interpreter has ended, if it has. -/
def code? (c : Console) : Option UInt8 :=
  match c.machine.processes.get? Setup.pid with
  | some { ending? := some (.exited code), .. } => some code
  | _ => none

/-- Carries out an action. An interpreter that has come to an end has left. -/
def execute (action : Action) (c : Console) : Performed × Console :=
  match c.perform (Report.ofAction action c.background) with
  | (some (.outcome o), c) =>
    let c := { c with background := o.background }
    match o.status with
    | .ok n => (.status n, c)
    | .error f => (.fatal f, c)
  | (_, c) => (.left (c.code?.getD 0), c)

/-- What an action is held to: no descriptors from some number on, and the rights of some user,
which only user 0 can take on. -/
structure Restriction where
  limit? : Option Nat := none
  user? : Option Nat := none

/-- Carries out an action under a restriction, which is lifted afterwards. -/
def executeUnder (r : Restriction) (action : Action) (c : Console) : Performed × Console :=
  match c.machine.processes.get? Setup.pid with
  | none => (.left 0, c)
  | some before =>
    let change (limit user : Nat) (c : Console) : Console :=
      { c with
        machine := c.machine.modifyProcess Setup.pid ({ · with limit := limit, user := user }) }
    let user := if before.user = 0 then r.user?.getD 0 else before.user
    let (performed, c) := execute action (change (r.limit?.getD before.limit) user c)
    (performed, change before.limit before.user c)

/-- Lets all processes go on as far as they can. -/
def settle (c : Console) : Console := { c with machine := c.machine.settle }

/-- Forgets the processes in the background after they have gone on as far as they can. -/
def startAfresh (c : Console) : Console := { c.settle with background := {} }

/-- The records that were left since they were last taken, the first one first, and a console
without them. -/
def takeJournal (c : Console) : List Log.Record × Console :=
  (c.machine.journal.reverse, { c with machine := { c.machine with journal := [] } })

/-- How much is read at once. -/
def blockSize : Nat := 8192

/-- Reads block after block until there is a newline in one, or the input ends. -/
def readBlocks : Program (Except Errno Bytes) := do
  let yield (seen : Bytes) (_ : Bool) : Yield :=
    { output := [], needed? := if Bytes.newline ∈ seen then some seen.length else none }
  let t ← Program.transfer { source := Fd.input, chunk := blockSize, yield := yield } .done
  match t.halt with
  | .cannotRead reason => pure (.error reason)
  | _ => pure (.ok t.seen)

/-- Gives out the first line of what was read. At the end of the input that is all of it. -/
def takeLine (c : Console) : Except Errno Bytes × Console :=
  let (line, rest) := Bytes.firstLine c.ahead
  (.ok line, { c with ahead := rest })

/-- Reads on if there is no whole line yet. -/
def readLine (c : Console) : Except Errno Bytes × Console :=
  if Bytes.newline ∈ c.ahead then takeLine c
  else
    match c.perform do return .input (← readBlocks) with
    | (some (.input (.error reason)), c) => (.error reason, c)
    | (some (.input (.ok read)), c) => takeLine { c with ahead := c.ahead ++ read }
    | (_, c) => takeLine c

/-- A machine as the host of a session. -/
def host : Host Console where
  reap := reap
  directory c := c.machine.directoryOf Setup.pid
  write data c := c.perform_ (Program.put Fd.output data)
  complain data c := c.perform_ (Program.put Fd.complaints data)
  note record c := c.perform_ (Program.note record)
  readLine := readLine
  perform := execute

/-- Ends the process of the interpreter, and lets all others go on as far as they can. -/
def close (code : UInt8) (c : Console) : Console :=
  { c with machine := (c.machine.finish Setup.pid (.exited code)).settle }

/-- How much of its input the interpreter has not given out yet. -/
def unread (c : Console) : Nat :=
  c.ahead.length +
    match (c.machine.processes.get? Setup.pid).bind (·.descriptors.get? Fd.input) with
    | some (.file number) =>
      match c.machine.openFiles.get? number with
      | some file => (c.machine.dataOf file.node).length - file.offset
      | none => 0
    | some (.readEnd number) => ((c.machine.pipes.get? number).map (·.content.length)).getD 0
    | _ => 0

/-- A whole session. There are no more lines than bytes, and one round finds the end. The code is
missing only if something was put behind the input meanwhile. -/
def session (settings : Settings) (c : Console) : Option UInt8 × Console :=
  match Session.run host settings (c.unread + 1) { host := c } with
  | (none, s) => (none, s.host)
  | (some code, s) => (some code, close code s.host)

/-- A session has a code if each of its rounds leaves less to be read. -/
theorem session_ends {settings : Settings} {c : Console} {I : Session.State Console → Prop}
    (hround : ∀ s next, I s → Session.round host settings s = (.more, next) →
      I next ∧ next.host.unread < s.host.unread)
    (hstart : I { host := c }) : ∃ code, (c.session settings).1 = some code := by
  obtain ⟨code, final, hrun⟩ := Session.run_ends hround hstart (Nat.lt_succ_self c.unread)
  exact ⟨code, by rw [session, hrun]⟩

end Console

end PipeShell
