import PipeShell.System.Machine.Step

/-!
One run among all that are possible: the processes take turns, in the order of their numbers. It
takes time to load a program, so that the processes that have loaded none are ahead of the others.
What comes through a pipe is awaited eagerly at first; once there was some, there is time until as
much of it has come as the others can give.
-/

set_option autoImplicit false
set_option relaxedAutoImplicit false

namespace PipeShell

variable {α : Type}

/-- Whether a process can go on only with more input from a pipe, after some that it had. -/
def Process.awaitsMore (p : Process α) : Bool :=
  p.fed && match p.program with
    | .transfer t _ => t.isHungry && p.readsPipe t.source
    | _ => false

namespace Machine

/-- Lets each of the given processes make a step, if it can; says whether any could. -/
def turns (m : Machine α) : List Pid → Machine α × Bool
  | [] => (m, false)
  | pid :: rest =>
    match m.step pid with
    | none => turns m rest
    | some m => ((turns m rest).1, true)

/-- The processes of a sort. -/
def pidsOf (m : Machine α) (sort : Process α → Bool) : List Pid :=
  (m.processes.entries.filter fun entry => sort entry.2).map (·.1)

/-- Lets each process make a step that has loaded no program; if none of them can, each of the
others that is not just waiting for more; if none of these can, the last one that waits for more; if
there is none, lets time pass. -/
def round (m : Machine α) : Machine α × Bool :=
  match m.turns (m.pidsOf (!·.loaded)) with
  | (m, true) => (m, true)
  | (m, false) =>
    match m.turns (m.pidsOf fun p => p.loaded && !p.awaitsMore) with
    | (m, true) => (m, true)
    | (m, false) =>
      match (m.pidsOf (·.awaitsMore)).reverse.findSome? m.step with
      | some m => (m, true)
      | none => (m.tick.getD m, m.tick.isSome)

/-- Lets the processes take turns until a condition holds, or none can go on, or a number of rounds
is over. -/
def runUntil (stop : Machine α → Bool) : Nat → Machine α → Machine α
  | 0, m => m
  | rounds + 1, m =>
    if stop m then m
    else match m.round with
      | (m, true) => runUntil stop rounds m
      | (m, false) => m

/-- More rounds than any ordinary run needs. -/
def roundLimit : Nat := 1000000

/-- The result that a process hands over, if it is there. -/
def result? (m : Machine α) (pid : Pid) : Option α :=
  match m.processes.get? pid with
  | some { program := .done result, .. } => some result
  | _ => none

/-- Whether a process has nothing more to do. -/
def isOver (m : Machine α) (pid : Pid) : Bool :=
  match m.processes.get? pid with
  | none => true
  | some p => p.ending?.isSome || (m.result? pid).isSome

/-- Lets a process run a program to its end, with all others taking turns. -/
def perform (m : Machine α) (pid : Pid) (program : Program α) : Option α × Machine α :=
  let m := runUntil (·.isOver pid) roundLimit (m.proceed pid program)
  (m.result? pid, m)

/-- Lets all processes go on until none can. -/
def settle (m : Machine α) : Machine α := runUntil (fun _ => false) roundLimit m

end Machine

end PipeShell
