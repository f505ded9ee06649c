import PipeShell.System.Machine

/-!
Reading, writing and opening on a machine.
-/

set_option autoImplicit false
set_option relaxedAutoImplicit false

namespace PipeShell.Machine

variable {α : Type}

/-- What a call comes to: an answer, or a machine that has already taken account of it, or nothing
as long as the machine is as it is. -/
inductive Result (α ρ : Type)
  | answer (reply : ρ) (m : Machine α)
  | settled (m : Machine α)
  | blocked

/-- Reads up to `count` bytes. Nothing at all means the end; an empty pipe that is still written to
keeps the reader waiting. -/
def readFrom (m : Machine α) (p : Process α) (fd : Fd) (count : Nat) :
    Result α (Except Errno Bytes) :=
  match p.descriptors.get? fd with
  | none => .answer (.error .badDescriptor) m
  | some (.writeEnd _) => .answer (.error .badDescriptor) m
  | some (.readEnd number) =>
    match m.pipes.get? number with
    | none => .answer (.ok []) m
    | some pipe =>
      if pipe.content = [] then
        if m.hasWriter number then .blocked else .answer (.ok []) m
      else
        .answer (.ok (pipe.content.take count))
          { m with pipes := m.pipes.set number { pipe with content := pipe.content.drop count } }
  | some (.file number) =>
    match m.openFiles.get? number with
    | none => .answer (.error .badDescriptor) m
    | some file =>
      if !file.readable then .answer (.error .badDescriptor) m
      else match (m.tree.node file.node).content with
        | .file data =>
          let bytes := (data.drop file.offset).take count
          .answer (.ok bytes) { m with
            openFiles := m.openFiles.set number { file with offset := file.offset + bytes.length } }
        | .zero | .full => .answer (.ok (List.replicate count 0)) m
        | .directory .. => .answer (.error .isDirectory) m
        | _ => .answer (.ok []) m

/-- Data with other data written over it from an offset on. A gap is filled with zero bytes. -/
def overwrite (data : Bytes) (offset : Nat) (new : Bytes) : Bytes :=
  data.take offset ++ List.replicate (offset - data.length) 0 ++ new ++
    data.drop (offset + new.length)

/-- Writes, and says how much of the data was taken. A pipe takes what there is room for, as long as
somebody has an end of it to read from; a full one keeps the writer waiting. -/
def writeTo (m : Machine α) (p : Process α) (fd : Fd) (data : Bytes) :
    Result α (Except Errno Nat) :=
  match p.descriptors.get? fd with
  | none => .answer (.error .badDescriptor) m
  | some (.readEnd _) => .answer (.error .badDescriptor) m
  | some (.writeEnd number) =>
    match m.pipes.get? number with
    | none => .answer (.error .brokenPipe) m
    | some pipe =>
      if !m.hasReader number then .answer (.error .brokenPipe) m
      else
        let count := m.accepted pipe data
        -- Writing nothing never waits.
        if count = 0 && data ≠ [] then .blocked
        else .answer (.ok count) { m with
          pipes := m.pipes.set number { pipe with content := pipe.content ++ data.take count } }
  | some (.file number) =>
    match m.openFiles.get? number with
    | none => .answer (.error .badDescriptor) m
    | some file =>
      if !file.writable then .answer (.error .badDescriptor) m
      else match (m.tree.node file.node).content with
        | .file old =>
          let offset := if file.atEnd then old.length else file.offset
          let new := if offset = old.length then old ++ data else overwrite old offset data
          .answer (.ok data.length) { m with
            tree := if data = [] then m.tree else m.tree.setData p.user file.node new
            openFiles := m.openFiles.set number { file with offset := offset + data.length } }
        | .directory .. => .answer (.error .isDirectory) m
        | .full => .answer (if data = [] then .ok 0 else .error .noSpace) m
        | _ => .answer (.ok data.length) m

/-- Makes a pipe and opens both of its ends, under the two lowest free descriptors. -/
def makePipe (m : Machine α) (pid : Pid) (p : Process α) : Except Errno (Fd × Fd) × Machine α :=
  let number := m.pipes.next
  match p.allocate (.readEnd number) with
  | .error e => (.error e, m)
  | .ok (readFd, p) =>
    match p.allocate (.writeEnd number) with
    | .error e => (.error e, m)
    | .ok (writeFd, p) =>
      (.ok (readFd, writeFd), { m with
        pipes := m.pipes.set number {}
        processes := m.processes.set pid p })

/-- Makes a descriptor lead to where another one leads. -/
def duplicate (m : Machine α) (pid : Pid) (p : Process α) (source target : Fd) :
    Except Errno Unit × Machine α :=
  match p.descriptors.get? source with
  | none => (.error .badDescriptor, m)
  | some handle =>
    if p.limit ≤ target then (.error .badDescriptor, m)
    else (.ok (), m.modifyProcess pid fun p =>
      { p with descriptors := p.descriptors.set target handle })

def close (m : Machine α) (pid : Pid) (fd : Fd) : Machine α :=
  m.modifyProcess pid fun p => { p with descriptors := p.descriptors.erase fd }

/-- Opens a node of the tree that is no fifo. -/
def openNode (m : Machine α) (pid : Pid) (p : Process α) (id : NodeId) (access : Access) :
    Except Errno Fd × Machine α :=
  let number := m.openFiles.next
  match p.allocate (.file number) with
  | .error e => (.error e, m)
  | .ok (fd, p) =>
    let file : OpenFile := match access with
      | .read => { node := id }
      | .replace _ => { node := id, readable := false, writable := true }
      | .append _ => { node := id, readable := false, writable := true, atEnd := true }
    (.ok fd, { m with
      openFiles := m.openFiles.set number file
      processes := m.processes.set pid p })

/-- The pipe that belongs to a fifo. What is left in it is forgotten while nobody has it open. -/
def pipeOfFifo (m : Machine α) (id : NodeId) : Nat × Machine α :=
  match m.fifos.get? id with
  | none =>
    let number := m.pipes.next
    (number, { m with pipes := m.pipes.set number {}, fifos := m.fifos.set id number })
  | some number =>
    if m.hasReader number || m.hasWriter number then (number, m)
    else (number, { m with pipes := m.pipes.modify number ({ · with content := [] }) })

/-- Begins to open a fifo. The descriptor is there at once, but the call comes back only when the
other side is opened as well. -/
def openFifo (m : Machine α) (pid : Pid) (p : Process α) (id : NodeId) (reading : Bool) :
    Result α (Except Errno Fd) :=
  let (number, m) := m.pipeOfFifo id
  match p.allocate (if reading then .readEnd number else .writeEnd number) with
  | .error e => .answer (.error e) m
  | .ok (fd, p) =>
    let pipe := (m.pipes.get? number).getD {}
    let seen := if reading then pipe.writersSeen else pipe.readersSeen
    let counted := if reading then { pipe with readersSeen := pipe.readersSeen + 1 }
      else { pipe with writersSeen := pipe.writersSeen + 1 }
    .settled { m with
      pipes := m.pipes.set number counted
      processes := m.processes.set pid { p with rendezvous? := some ⟨fd, seen⟩ } }

/-- Whether the other side of a fifo has been opened since the wait began or is open now. -/
def isMet (m : Machine α) (p : Process α) (r : Rendezvous) : Bool :=
  match p.descriptors.get? r.fd with
  | some (.readEnd number) =>
    m.hasWriter number || decide (r.seen < ((m.pipes.get? number).getD {}).writersSeen)
  | some (.writeEnd number) =>
    m.hasReader number || decide (r.seen < ((m.pipes.get? number).getD {}).readersSeen)
  | _ => true

/-- Opens a path. That a path is empty or too long is noticed before the want of a free descriptor,
and that before everything else about the path. -/
def openPath (m : Machine α) (pid : Pid) (p : Process α) (path : Bytes) (access : Access) :
    Result α (Except Errno Fd) :=
  match p.rendezvous? with
  -- The call has begun before: its descriptor is there, and only the other side is missing.
  | some r =>
    if m.isMet p r then .answer (.ok r.fd) (m.modifyProcess pid ({ · with rendezvous? := none }))
    else .blocked
  | none =>
    if path = [] then .answer (.error .noEntry) m
    else if FileTree.pathLimit ≤ path.length then .answer (.error .nameTooLong) m
    else if p.descriptors.lowest? p.limit = none then .answer (.error .tooManyOpen) m
    else
      let opened := match access with
        | .read => (m.tree.openForReading (m.actor p) path).map (m.tree, ·)
        | .replace mode => m.tree.openForWriting (m.actor p) path mode true
        | .append mode => m.tree.openForWriting (m.actor p) path mode false
      match opened with
      | .error e => .answer (.error e) m
      | .ok (tree, id) =>
        let m := { m with tree := tree }
        if (tree.node id).content.kind = .fifo then m.openFifo pid p id (access = .read)
        else
          let (reply, m) := m.openNode pid p id access
          .answer reply m

def inspect (m : Machine α) (p : Process α) (fd : Fd) : Option OpenInfo :=
  match p.descriptors.get? fd with
  | none => none
  | some (.file number) =>
    (m.openFiles.get? number).map fun file =>
      let content := (m.tree.node file.node).content
      { kind := content.kind, node? := some file.node, size := content.size,
        offset := if file.atEnd then content.size else file.offset }
  | some _ => some { kind := .fifo, node? := none, size := 0, offset := 0 }

/-- Moves the place where an open file is read or written next. -/
def seek (m : Machine α) (p : Process α) (fd : Fd) (offset : Nat) : Machine α :=
  match p.descriptors.get? fd with
  | some (.file number) =>
    { m with openFiles := m.openFiles.modify number ({ · with offset := offset }) }
  | _ => m

end PipeShell.Machine
