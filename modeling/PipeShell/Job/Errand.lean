import PipeShell.System.Program

/-!
Children that are started for their endings only: they may be held for a while, may send themselves
a signal, and end with a code.
-/

set_option autoImplicit false
set_option relaxedAutoImplicit false

namespace PipeShell

/-- What a child is to do. -/
structure Errand where
  /-- Whether it waits until it is let go on. -/
  held : Bool := false
  signal? : Option Nat := none
  code : UInt8 := 0
  deriving DecidableEq, Repr

namespace Errand

/-- Waits until something can be read. -/
def awaitByte (fd : Fd) : Program Unit := do
  let _ ← Program.readSome fd 1
  pure ()

/-- What the child does. -/
def run {α : Type} (e : Errand) (gate? : Option Fd) : Program α := do
  match gate? with
  | some fd => awaitByte fd
  | none => pure ()
  match e.signal? with
  | some number =>
    if Signal.isReserved number then pure ()
    else do
      Program.act (.restore number)
      let pid ← Program.ask .self
      Program.act (.signal pid number)
  | none => pure ()
  Program.exit e.code

/-- Starts the child. One that is held comes with the descriptor through which it is let go on. -/
def start (e : Errand) : Program (Except Errno (Pid × Option Fd)) := do
  if e.held then
    match ← Program.ask .pipe with
    | .error reason => pure (.error reason)
    | .ok (readEnd, writeEnd) =>
      .fork (e.run (some readEnd)) fun reply => do
        Program.act (.close readEnd)
        pure (reply.map fun pid => (pid, some writeEnd))
  else .fork (e.run none) fun reply => pure (reply.map fun pid => (pid, none))

/-- Lets a child go on. -/
def release (gate : Fd) : Program Unit := do
  Program.put gate [0]
  Program.act (.close gate)

end Errand

end PipeShell
