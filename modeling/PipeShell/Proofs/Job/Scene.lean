import PipeShell.Proofs.Job.Holders
import PipeShell.Proofs.Job.WiredRuns
import PipeShell.Proofs.System.Streams

/-!
A pipeline whose stages are filters: each of them reads all of its input, writes what it makes of
that, and exits, unless it cannot be connected or has no program. Only the interpreter and the
processes that it has started make steps, in any order.
-/

set_option autoImplicit false
set_option relaxedAutoImplicit false

namespace PipeShell

/-- A program that reads its input to the end, and writes and exits as a function of what it has
read says. -/
def Program.filter {α : Type} (f : Bytes → Bytes × UInt8) : Program α := do
  let t ← slurp Fd.input
  put Fd.output (f t.seen).1
  exit (f t.seen).2

/-- What a process keeps when it makes a call for a pipeline: on whose behalf it acts, from where,
and within which limits. -/
structure Standing where
  user : Nat
  directory : NodeId
  limit : Nat
  ignored : List Nat
  mask : Nat
  environment : List (Bytes × Bytes)

def Process.standing {α : Type} (p : Process α) : Standing :=
  ⟨p.user, p.directory, p.limit, p.ignored, p.mask, p.environment⟩

/-- A process that is to carry out a pipeline, and what the stages of the pipeline find and do. -/
structure Scene where
  machine : Machine Report
  pid : Pid
  process : Process Report
  stages : List Stage
  background : Background := {}
  outlook : Nat → Outlook
  /-- What the program of a stage writes, and the code with which it exits, for what it reads. -/
  tool : Nat → Bytes → Bytes × UInt8
  /-- The file that the first stage reads, with what is in it and how much of that was read
  before. -/
  source : NodeId
  data : Bytes
  skipped : Nat := 0
  /-- The file that the last stage writes, with what is in it before that. -/
  sink : NodeId
  already : Bytes := []
  /-- The pipe that is written to in place of this file, if the output of the interpreter leads
  there. -/
  drain? : Option Nat := none

namespace Scene

def base (s : Scene) : Wires := s.process.descriptors.get?

def fate (s : Scene) (k : Nat) : Option UInt8 :=
  s.stages[k]?.bind fun stage => stage.fate (s.outlook k) (decide (k ≠ 0))
    (decide (k + 1 ≠ s.stages.length))

def effect (s : Scene) (k : Nat) (input : Bytes) : Bytes × UInt8 :=
  match s.fate k with
  | some code => ([], code)
  | none => s.tool k input

/-- What a stage is given to read: the first one has the rest of a file, and every other one what
the stage before it makes of its own input. -/
def feed (s : Scene) : Nat → Bytes
  | 0 => s.data.drop s.skipped
  | k + 1 => (s.effect k (feed s k)).1

def code (s : Scene) (k : Nat) : UInt8 := (s.effect k (s.feed k)).2

def last (s : Scene) : Nat := s.stages.length - 1

def Receiving (s : Scene) (m : Machine Report) (h : Handle) : Prop :=
  match s.drain? with
  | none => m.Receives s.sink h s.already
  | some n => h = .writeEnd n ∧ ∃ pipe, m.pipes.get? n = some pipe ∧ pipe.content = s.already

def Gathers (s : Scene) (m : Machine Report) (data : Bytes) : Prop :=
  match s.drain? with
  | none => (m.tree.node s.sink).content = .file data
  | some n => ∃ pipe, m.pipes.get? n = some pipe ∧ pipe.content = data

def Clear (s : Scene) (m : Machine Report) (h : Handle) : Prop :=
  match s.drain? with
  | none => m.Avoids h s.sink
  | some n => h ≠ .readEnd n ∧ h ≠ .writeEnd n

/-- How a scene begins. Nothing that the interpreter asks of the system fails: there is room for two
pipes at a time, and pipes take everything. The file that is read and the one that is written are
different ones, and complaints go elsewhere. If a pipe is written to, somebody else can read from
it. -/
structure Begins (s : Scene) : Prop where
  sound : s.machine.Sound
  present : s.machine.processes.get? s.pid = some s.process
  lives : s.process.ending? = none ∧ s.process.stopped = false
  calm : s.process.rendezvous? = none ∧ s.process.written = 0
  program : s.process.program = do
    return .outcome (← Action.execute (.run { stages := s.stages }) s.background)
  stages : s.stages ≠ []
  strings : ∀ stage ∈ s.stages, stage.zeroByte? = none
  unbounded : s.machine.pipeCapacity? = none
  room : ∃ free : List Fd, free.Nodup ∧ free.length = 4 ∧
    ∀ fd ∈ free, fd < s.process.limit ∧ s.base fd = none
  limit : Fd.output < s.process.limit
  standard : ∀ fd, fd ≤ Fd.complaints → s.base fd ≠ none
  ignores : Signal.pipe.number ∈ s.process.ignored
  data : (s.machine.tree.node s.source).content = .file s.data
  apart : s.source ≠ s.sink
  complaints : ∀ h, s.base Fd.complaints = some h → s.machine.Avoids h s.source ∧
    s.Clear s.machine h
  input : ∀ stage, s.stages.head? = some stage →
    match stage.inputFile with
    | some _ => s.skipped = 0
    | none =>
      ∃ n, s.base Fd.input = some (.file n) ∧
        s.machine.Offers s.source (.file n) (s.data.drop s.skipped)
  output : ∀ stage, s.stages.getLast? = some stage →
    match stage.outputFile with
    | some _ => s.already = [] ∧ s.drain? = none
    | none => ∃ h, s.base Fd.output = some h ∧ s.Receiving s.machine h
  reader : ∀ n, s.drain? = some n → ∃ r p fd, r ≠ s.pid ∧ s.machine.processes.get? r = some p ∧
    p.descriptors.get? fd = some (.readEnd n)

/-- A run in which nobody makes a step but the interpreter and the processes that it has started; it
is told how many steps there were. -/
inductive Performance (s : Scene) : Nat → List Event → Machine Report → Prop
  | start : Performance s 0 [] s.machine
  | turn {n : Nat} {es : List Event} {m m' : Machine Report} (performance : Performance s n es m)
      (q : Pid) (hq : q = s.pid ∨ q ∈ Event.startedBy s.pid es) (step : m.step q = some m') :
      Performance s (n + 1) (es ++ m.events (.turn q)) m'

theorem Performance.run {s : Scene} {n : Nat} {es : List Event} {m : Machine Report}
    (h : s.Performance n es m) : s.machine.Run es m := by
  induction h with
  | start => exact .start
  | turn _ q _ step ih => exact ih.move (.turn q) step

/-- What a stage meets when it opens a file or is about to run its program, as the scene has it. -/
structure Meets (s : Scene) (k : Nat) (q : Pid) (p : Process Report)
    (m : Machine Report) : Prop where
  opens : ∀ path access next, p.program = .call (.openFile path access) next →
    if (s.outlook k).opens path access then
      p.descriptors.lowest? p.limit ≠ none ∧
        ∃ tree, m.OpensAt p path (if access = .read then s.source else s.sink) access tree
    else ∃ e, m.openPath q p path access = .answer (.error e) m
  runs : ∀ arguments next, p.program = .call (.exec arguments) next →
    match (s.outlook k).refusal? arguments with
    | some e => Image.search (m.loader p) p.searchPath arguments = .error e
    | none => p.descriptors.lowest? p.limit ≠ none ∧
        ∃ image, Image.search (m.loader p) p.searchPath arguments = .ok image ∧
          m.installed image.program image.arguments = Program.filter (s.tool k)

/-- The stages meet the same in every performance, whatever the order of the steps. -/
def Consistent (s : Scene) : Prop :=
  ∀ n es m, s.Performance n es m → ∀ k q p, (Event.startedBy s.pid es)[k]? = some q →
    m.processes.get? q = some p → p.ending? = none → p.loaded = false → s.Meets k q p m

inductive Phase
  | pending
  /-- Its process has so many calls left at most before its program runs. -/
  | wiring (left : Nat)
  | reading (inlet outlet : Handle) (seen : Bytes)
  | writing (inlet outlet : Handle)
  | leaving (inlet outlet : Handle)
  | ended
  deriving DecidableEq

def Phase.Early : Phase → Prop
  | pending | wiring _ => True
  | _ => False

def Phase.Late : Phase → Prop
  | leaving .. | ended => True
  | _ => False

def emitted (s : Scene) (k : Nat) : Phase → Bytes
  | .leaving .. | .ended => s.feed (k + 1)
  | _ => []

/-- What has come as far as a stage, or has been read by it. -/
def arrived (s : Scene) (ph : Nat → Phase) : Nat → Bytes
  | 0 => s.feed 0
  | k + 1 => s.emitted k (ph k)

structure Fit (s : Scene) (p : Process Report) : Prop where
  lives : p.ending? = none ∧ p.stopped = false
  calm : p.rendezvous? = none ∧ p.written = 0
  standing : p.standing = s.process.standing
  complaints : p.descriptors.get? Fd.complaints = s.base Fd.complaints

theorem Fit.limit {s : Scene} {p : Process Report} (h : s.Fit p) : p.limit = s.process.limit :=
  congrArg Standing.limit h.standing

theorem Fit.ignored {s : Scene} {p : Process Report} (h : s.Fit p) :
    p.ignored = s.process.ignored :=
  congrArg Standing.ignored h.standing

/-- The process of a stage whose program runs: its input is what comes through the pipe before it,
if there is one, and it can write to no pipe but the one behind it or the one that the pipeline as a
whole writes to. -/
structure Plugged (s : Scene) (pipes : List Nat) (k : Nat) (inlet outlet : Handle)
    (p : Process Report) : Prop where
  fit : s.Fit p
  parent : p.parent = s.pid
  loaded : p.loaded = true
  runs : s.fate k = none
  input : p.descriptors.get? Fd.input = some inlet
  output : p.descriptors.get? Fd.output = some outlet
  others : ∀ fd, fd ≠ Fd.input → fd ≠ Fd.output → p.descriptors.get? fd = s.base fd
  reads : ∀ n, inlet ≠ .writeEnd n
  before : ∀ n, Pipeline.pipeBefore pipes k = some n → inlet = .readEnd n
  behind : ∀ n, pipes[k]? = some n → outlet = .writeEnd n
  writes : ∀ n, outlet = .writeEnd n → pipes[k]? = some n ∨ s.drain? = some n

/-- What there is under the number of a stage's process. -/
def At (s : Scene) (pipes : List Nat) (collected : List Pid) (k : Nat) (q : Pid) :
    Phase → Option (Process Report) → Prop
  | .pending, _ => False
  | .wiring n, p? =>
    ∃ p stage, p? = some p ∧ s.Fit p ∧ p.parent = s.pid ∧ p.loaded = false ∧
      s.stages[k]? = some stage ∧ p.program.Honours
        (stage.conduct (s.outlook k) (decide (k ≠ 0)) (decide (k + 1 ≠ s.stages.length)))
        (fun _ _ => False) n
  | .reading inlet outlet seen, p? => ∃ p, p? = some p ∧ s.Plugged pipes k inlet outlet p ∧
      p.program = .transfer (.slurping seen) fun t => do
        Program.put Fd.output (s.tool k t.seen).1
        Program.exit (s.tool k t.seen).2
  | .writing inlet outlet, p? => ∃ p, p? = some p ∧ s.Plugged pipes k inlet outlet p ∧
      p.program = do
        Program.put Fd.output (s.tool k (s.feed k)).1
        Program.exit (s.tool k (s.feed k)).2
  | .leaving inlet outlet, p? => ∃ p, p? = some p ∧ s.Plugged pipes k inlet outlet p ∧
      p.program = Program.exit (s.tool k (s.feed k)).2
  | .ended, p? => q ∈ collected ∧ p? = none ∨ ∃ p, p? = some p ∧ p.parent = s.pid ∧
      p.ending? = some (.exited (s.code k)) ∧ p.descriptors = {}

end Scene

end PipeShell
