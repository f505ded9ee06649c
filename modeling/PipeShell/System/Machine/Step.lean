import PipeShell.System.Image
import PipeShell.System.Machine.Streams

/-!
The steps of a machine. A step lets one process make its next call. Which process that is, is not
for the machine to say: a run of the machine is any sequence of steps.
-/

set_option autoImplicit false
set_option relaxedAutoImplicit false

namespace PipeShell.Machine

variable {α : Type}

/-- Ends a process. Its descriptors are closed and its children have no parent any more. -/
def finish (m : Machine α) (pid : Pid) (ending : Ending) : Machine α :=
  let orphan (p : Process α) : Process α := if p.parent = pid then { p with parent := 0 } else p
  let m := { m with processes := m.processes.map orphan }
  m.modifyProcess pid fun p =>
    { p with descriptors := {}, rendezvous? := none, ending? := some ending }

/-- Delivers a signal to a process. -/
def deliver (m : Machine α) (pid : Pid) (number : Nat) : Except Errno Unit × Machine α :=
  match m.processes.get? pid with
  | none => (.error .noProcess, m)
  | some p =>
    if Signal.highest < number then (.error .invalid, m)
    -- A process that has ended but was not collected still takes signals, and nothing comes of
    -- them. The numbers 9 and 19 cannot be ignored.
    else if p.ending?.isSome || number = 0 ||
      (number ∈ p.ignored && number ∉ [9, 19]) then (.ok (), m)
    else match Disposition.default number with
      | .ignore => (.ok (), m)
      | .stop => (.ok (), m.modifyProcess pid ({ · with stopped := true }))
      | .terminate => (.ok (), m.finish pid (.killed number))

/-- Starts a child with the descriptors, the directory and the rights of its parent. -/
def fork (m : Machine α) (pid : Pid) (p : Process α) (child : Program α) : Pid × Machine α :=
  (m.nextPid, { m with
    processes := m.processes.set m.nextPid
      { p with parent := pid, program := child, loaded := false, fed := false }
    nextPid := m.nextPid + 1 })

/-- Looks for the ending of a child. A child whose ending was found is gone. -/
def collect (m : Machine α) (pid child : Pid) : Except Errno (Option Ending) × Machine α :=
  match m.processes.get? child with
  | none => (.error .noChild, m)
  | some c =>
    if c.parent ≠ pid then (.error .noChild, m)
    else match c.ending? with
      | some ending => (.ok (some ending), { m with processes := m.processes.erase child })
      | none => (.ok none, m)

/-- Waits for the ending of a child. -/
def awaitEnd (m : Machine α) (pid child : Pid) : Result α (Except Errno Ending) :=
  match m.collect pid child with
  | (.error e, m) => .answer (.error e) m
  | (.ok (some ending), m) => .answer (.ok ending) m
  | (.ok none, _) => .blocked

/-- Waits for a child until it can be reported how it has ended. -/
def waitFor (m : Machine α) (pid child : Pid) : Result α (Except Errno WaitStatus) :=
  match m.awaitEnd pid child with
  | .answer (.error e) m => .answer (.error e) m
  | .answer (.ok ending) m => .answer (ending.report child) m
  | .settled m => .settled m
  | .blocked => .blocked

/-- Reports how a child has ended, if it has. -/
def poll (m : Machine α) (pid child : Pid) : Except Errno WaitStatus × Machine α :=
  match m.collect pid child with
  | (.error e, m) => (.error e, m)
  | (.ok (some ending), m) => (ending.report child, m)
  | (.ok none, m) => (.ok .stillAlive, m)

/-- What a program says that cannot open the libraries it needs. -/
def loaderComplaint (name : Bytes) : Bytes :=
  name ++ Bytes.ofString
    (": error while loading shared libraries: libc.so.6: cannot open shared object file: " ++
      "Error 24\n")

/-- The nodes that some process can write to. -/
def busyNodes (m : Machine α) : List NodeId :=
  let held := m.processes.values.flatMap fun p => p.descriptors.values
  m.openFiles.entries.filterMap fun (number, file) =>
    if file.writable && Handle.file number ∈ held then some file.node else none

def loader (m : Machine α) (p : Process α) : Image.Loader :=
  { tree := m.tree, user := p.user, directory := p.directory, busy := m.busyNodes }

/-- Runs another program in a process, if one was found. A program needs a free descriptor to load
its libraries. -/
def replaceProgram (m : Machine α) (pid : Pid) (p : Process α) : Except Errno Image → Result α Errno
  | .error e => .answer e m
  | .ok image =>
    let program : Program α :=
      if p.descriptors.lowest? p.limit = none then do
        Program.put Fd.complaints (loaderComplaint (image.arguments.headD []))
        Program.exit 127
      else m.installed image.program image.arguments
    .settled (m.modifyProcess pid ({ · with program := program, loaded := true }))

def change (m : Machine α) (pid : Pid) (p : Process α) : Change → Except Errno Unit × Machine α
  | .enter path =>
    match m.tree.find p.user p.directory path with
    | .error e => (.error e, m)
    | .ok id =>
      if (m.tree.node id).content.kind ≠ .directory then (.error .notDirectory, m)
      else if !(m.tree.node id).permits p.user .search then (.error .accessDenied, m)
      else (.ok (), m.modifyProcess pid ({ · with directory := id }))
  | .makeDirectory path mode => apply (m.tree.makeDirectory (m.actor p) path mode)
  | .removeDirectory path => apply (m.tree.removeDirectory (m.actor p) path)
  | .remove path => apply (m.tree.remove (m.actor p) path)
  | .rename source target => apply (m.tree.rename (m.actor p) source target)
where
  /-- Takes over a changed tree. -/
  apply : Except Errno FileTree → Except Errno Unit × Machine α
    | .error e => (.error e, m)
    | .ok tree => (.ok (), { m with tree := tree })

/-- Writes on behalf of a process, and says how much of the data was taken. Where nobody reads, a
process that did not ask otherwise is ended. -/
def writeOrDie (m : Machine α) (pid : Pid) (p : Process α) (fd : Fd) (data : Bytes) :
    Result α (Except Errno Nat) :=
  match m.writeTo p fd data with
  | .answer (.error .brokenPipe) m =>
    if Signal.pipe.number ∈ p.ignored then .answer (.error .brokenPipe) m
    else .settled (m.finish pid (.killed Signal.pipe.number))
  | result => result

/-- What comes of a call that writes all of some data, after an attempt to write what is left of
it. -/
def writeOn (pid : Pid) (p : Process α) (data : Bytes) :
    Result α (Except Errno Nat) → Result α (Except Errno Unit)
  | .blocked => .blocked
  | .settled m => .settled m
  | .answer (.error e) m => .answer (.error e) (setWritten 0 m)
  | .answer (.ok count) m =>
    -- The call is made again from here on in the next step of the process.
    if p.written + count < data.length then .settled (setWritten (p.written + count) m)
    else .answer (.ok ()) (setWritten 0 m)
where
  setWritten (count : Nat) (m : Machine α) : Machine α :=
    m.modifyProcess pid ({ · with written := count })

/-- Writes everything on behalf of a process, in as many steps as it takes. -/
def writeAll (m : Machine α) (pid : Pid) (p : Process α) (fd : Fd) (data : Bytes) :
    Result α (Except Errno Unit) :=
  writeOn pid p data (m.writeOrDie pid p fd (data.drop p.written))

/-- Takes a log record. Only an interpreter leaves any, and it has asked not to be ended by a pipe
that nobody reads. -/
def record (m : Machine α) (pid : Pid) (p : Process α) (r : Log.Record) : Result α Unit :=
  match m.logger with
  | .journal => .answer () { m with journal := r :: m.journal }
  | .terminal verbosity time =>
    if verbosity.keeps r.level then
      let line := Bytes.ofString (r.terminalLine time)
      match writeOn pid p line (m.writeTo p Fd.complaints (line.drop p.written)) with
      | .blocked => .blocked
      | .settled m => .settled m
      -- Nobody is told about a record that could not be written.
      | .answer _ m => .answer () m
    else .answer () m

def sleep (m : Machine α) (pid : Pid) (p : Process α) (duration : Nat) : Result α Unit :=
  match p.alarm? with
  | none => .settled (m.modifyProcess pid ({ · with alarm? := some (m.now + duration) }))
  | some alarm =>
    if alarm ≤ m.now then .answer () (m.modifyProcess pid ({ · with alarm? := none })) else .blocked

/-- What a path leads to, for a process. -/
def examine (m : Machine α) (p : Process α) (path : Bytes) (follow : Bool) :
    Except Errno NodeInfo :=
  (m.tree.find p.user p.directory path (if follow then .target else .bearer)).map fun id =>
    let node := m.tree.node id
    { node := id, kind := node.content.kind, mode := node.mode
      searchable := node.permits p.user .search, owned := decide (p.user = node.owner)
      writable := node.permits p.user .write }

def answer (m : Machine α) (pid : Pid) (p : Process α) : (c : Call) → Result α c.Reply
  | .pipe => let (reply, m) := m.makePipe pid p; .answer reply m
  | .close fd => .answer () (m.close pid fd)
  | .duplicate source target => let (reply, m) := m.duplicate pid p source target; .answer reply m
  | .openFile path access => m.openPath pid p path access
  | .exec arguments => m.replaceProgram pid p (Image.search (m.loader p) p.searchPath arguments)
  | .execFile path arguments =>
    m.replaceProgram pid p (Image.loadOrShell (m.loader p) path arguments)
  | .exit code => .settled (m.finish pid (.exited code))
  | .waitFor child => m.waitFor pid child
  | .awaitEnd child => m.awaitEnd pid child
  | .poll child => let (reply, m) := m.poll pid child; .answer reply m
  | .write fd data => m.writeAll pid p fd data
  | .seek fd offset => .answer () (m.seek p fd offset)
  | .inspect fd => .answer (m.inspect p fd) m
  | .change c => let (reply, m) := m.change pid p c; .answer reply m
  | .names path => .answer (m.tree.namesIn (m.actor p) path) m
  | .examine path follow => .answer (m.examine p path follow) m
  | .workingDirectory =>
    .answer (match m.tree.path? p.directory with
      | some path => .ok path
      | none => .error .noEntry) m
  | .environment => .answer p.environment m
  | .provide environment => .answer () (m.modifyProcess pid ({ · with environment := environment }))
  | .withhold mask => .answer p.mask (m.modifyProcess pid ({ · with mask := mask }))
  | .self => .answer pid m
  | .sleep duration => m.sleep pid p duration
  | .signal target number => let (reply, m) := m.deliver target number; .answer reply m
  | .restore number =>
    .answer () (m.modifyProcess pid fun p => { p with ignored := p.ignored.erase number })
  | .note r => m.record pid p r

/-- Lets a transfer write what it has, or else read on. It is over as soon as there is nothing left
to do. -/
def transferStep (m : Machine α) (pid : Pid) (p : Process α) (t : Transfer)
    (next : Transferred → Program α) : Option (Machine α) :=
  let stop (halt : Halt) (needed : Nat) (t : Transfer) : Program α :=
    next ⟨halt, t.seen, needed, t.written⟩
  let goOn (t : Transfer) : Program α :=
    match t.completion? with
    | some needed => stop .complete needed t
    | none => .transfer t next
  if t.pending ≠ [] then
    match m.writeOrDie pid p t.target t.next with
    | .blocked => none
    | .settled m => some m
    | .answer (.error e) m => some (m.proceed pid (stop (.cannotWrite e) t.seen.length t))
    | .answer (.ok count) m => some (m.proceed pid (goOn (t.wrote count)))
  else match t.completion? with
    | some needed => some (m.proceed pid (stop .complete needed t))
    | none =>
      match m.readFrom p t.source t.chunk with
      | .blocked => none
      | .settled m => some m
      | .answer (.error e) m => some (m.proceed pid (stop (.cannotRead e) t.seen.length t))
      | .answer (.ok bytes) m =>
        let fed := p.fed || bytes ≠ [] && p.readsPipe t.source
        some ((m.modifyProcess pid ({ · with fed := fed })).proceed pid
          (goOn (t.advance bytes (bytes = []))))

/-- Lets a process make its next call. There is no step if it has come to its end, or is stopped, or
waits. -/
def step (m : Machine α) (pid : Pid) : Option (Machine α) :=
  match m.processes.get? pid with
  | none => none
  | some p =>
    if !p.isLive then none
    else match p.program with
      | .done _ => none
      | .call c next =>
        match m.answer pid p c with
        | .blocked => none
        | .settled m => some m
        | .answer reply m => some (m.proceed pid (Program.resume c next reply))
      | .fork child next =>
        let (childPid, m) := m.fork pid p child
        some (m.proceed pid (next (.ok childPid)))
      | .transfer t next => m.transferStep pid p t next
      | .flood fd block next =>
        match m.writeOrDie pid p fd block with
        | .blocked => none
        | .settled m => some m
        | .answer (.error e) m => some (m.proceed pid (next e))
        | .answer (.ok count) m => some (m.proceed pid (.flood fd (block.rotateLeft count) next))

/-- Lets time pass until the next process wakes up, if there is one that sleeps. -/
def tick (m : Machine α) : Option (Machine α) :=
  let alarms := (m.processes.values.filter (·.isLive)).filterMap (·.alarm?)
  (alarms.filter (m.now < ·)).min?.map fun alarm => { m with now := alarm }

end PipeShell.Machine
