import PipeShell.Proofs.System.Calls

/-!
What goes through a descriptor. A read or a write changes nothing but what the descriptor leads to;
what is read is taken from the front, what is written comes to stand at the end, and a reader is
kept waiting only by an empty pipe that somebody can still write to.
-/

set_option autoImplicit false
set_option relaxedAutoImplicit false

namespace PipeShell

variable {α : Type}

namespace Machine

variable {m m' m'' : Machine α} {q : Pid} {p : Process α}

theorem hasWriter_iff {n : Nat} : m.hasWriter n = true ↔ ∃ q p fd, m.processes.get? q = some p ∧
    p.descriptors.get? fd = some (.writeEnd n) := by
  simp only [hasWriter, List.any_eq_true, decide_eq_true_eq]
  constructor
  · rintro ⟨p, hp, hmem⟩
    obtain ⟨q, hq⟩ := Table.mem_values_iff.mp hp
    obtain ⟨fd, hfd⟩ := Table.mem_values_iff.mp hmem
    exact ⟨q, p, fd, hq, hfd⟩
  · rintro ⟨q, p, fd, hq, hfd⟩
    exact ⟨p, Table.mem_values_iff.mpr ⟨q, hq⟩, Table.mem_values_iff.mpr ⟨fd, hfd⟩⟩

theorem hasReader_iff {n : Nat} : m.hasReader n = true ↔ ∃ q p fd, m.processes.get? q = some p ∧
    p.descriptors.get? fd = some (.readEnd n) := by
  simp only [hasReader, List.any_eq_true, decide_eq_true_eq]
  constructor
  · rintro ⟨p, hp, hmem⟩
    obtain ⟨q, hq⟩ := Table.mem_values_iff.mp hp
    obtain ⟨fd, hfd⟩ := Table.mem_values_iff.mp hmem
    exact ⟨q, p, fd, hq, hfd⟩
  · rintro ⟨q, p, fd, hq, hfd⟩
    exact ⟨p, Table.mem_values_iff.mpr ⟨q, hq⟩, Table.mem_values_iff.mpr ⟨fd, hfd⟩⟩

/-- Nothing of what is stored has become something else, but what a handle leads to. -/
structure Touches (h : Handle) (m m' : Machine α) : Prop where
  capacity : m'.pipeCapacity? = m.pipeCapacity?
  pipes : ∀ n, h ≠ .readEnd n → h ≠ .writeEnd n → m'.pipes.get? n = m.pipes.get? n
  files : ∀ n, h ≠ .file n → m'.openFiles.get? n = m.openFiles.get? n
  bound : ∀ n file, m.openFiles.get? n = some file → ∃ file', m'.openFiles.get? n = some file' ∧
    file'.node = file.node
  nodes : ∀ id, (∀ n file, h = .file n → m.openFiles.get? n = some file → file.node ≠ id) →
    m'.tree.nodes.get? id = m.tree.nodes.get? id

theorem Touches.of_eq {h : Handle} (hcapacity : m'.pipeCapacity? = m.pipeCapacity?)
    (hpipes : m'.pipes = m.pipes) (hfiles : m'.openFiles = m.openFiles) (htree : m'.tree = m.tree) :
    Touches h m m' where
  capacity := hcapacity
  pipes n _ _ := congrArg (fun table => table.get? n) hpipes
  files n _ := congrArg (fun table => table.get? n) hfiles
  bound _ file hfile := ⟨file, hfiles ▸ hfile, rfl⟩
  nodes id _ := congrArg (fun tree => tree.nodes.get? id) htree

theorem Touches.refl (h : Handle) (m : Machine α) : Touches h m m := .of_eq rfl rfl rfl rfl

theorem Touches.update {h : Handle} (ht : Touches h m m') (q : Pid) (p : Process α) :
    Touches h m (m'.update q p) :=
  ⟨ht.capacity, ht.pipes, ht.files, ht.bound, ht.nodes⟩

theorem Touches.setPipe {h : Handle} {n : Nat} (pipe : Pipe)
    (hn : h = .readEnd n ∨ h = .writeEnd n) :
    Touches h m { m with pipes := m.pipes.set n pipe } where
  capacity := rfl
  pipes k hr hw := by
    have hne : k ≠ n := by
      rintro rfl
      rcases hn with hn | hn
      · exact hr hn
      · exact hw hn
    exact Table.get?_set_of_ne _ _ hne
  files _ _ := rfl
  bound _ file hfile := ⟨file, hfile, rfl⟩
  nodes _ _ := rfl

private theorem bound_setFile {n : Nat} {file file' : OpenFile}
    (hfile : m.openFiles.get? n = some file)
    (hnode : file'.node = file.node) (k : Nat) (f : OpenFile) (hf : m.openFiles.get? k = some f) :
    ∃ f', (m.openFiles.set n file').get? k = some f' ∧ f'.node = f.node := by
  by_cases hk : k = n
  · subst hk
    cases hfile.symm.trans hf
    exact ⟨file', Table.get?_set_same _ _ _, hnode⟩
  · exact ⟨f, (Table.get?_set_of_ne _ _ hk).trans hf, rfl⟩

theorem Touches.setFile {n : Nat} {file file' : OpenFile} (hfile : m.openFiles.get? n = some file)
    (hnode : file'.node = file.node) :
    Touches (.file n) m { m with openFiles := m.openFiles.set n file' } where
  capacity := rfl
  pipes _ _ _ := rfl
  files _ hk := Table.get?_set_of_ne _ _ fun he => hk (he ▸ rfl)
  bound := bound_setFile hfile hnode
  nodes _ _ := rfl

theorem get?_setData (t : FileTree) (user : Nat) (id other : NodeId) (data : Bytes) :
    (t.setData user id data).nodes.get? other =
      if other = id then (t.nodes.get? id).map fun node =>
        { node with content := .file data, mode := Node.modeAfterChange node.mode user }
      else t.nodes.get? other :=
  Table.get?_modify _ _ _ _

theorem writeTo_touches {fd : Fd} {h : Handle} (hfd : p.descriptors.get? fd = some h)
    (data : Bytes) : (m.writeTo p fd data).Keeps (Touches h m) := by
  cases h with
  | readEnd n =>
    simp only [writeTo, hfd]
    exact .refl _ m
  | writeEnd n =>
    simp only [writeTo, hfd]
    split
    · exact .refl _ m
    · split
      · exact .refl _ m
      · split
        · exact trivial
        · exact .setPipe _ (.inr rfl)
  | file n =>
    simp only [writeTo, hfd]
    split
    · exact .refl _ m
    · rename_i file hfile
      split
      · exact .refl _ m
      · split
        · refine ⟨rfl, fun _ _ _ => rfl, fun k hk => Table.get?_set_of_ne _ _ fun he =>
            hk (he ▸ rfl), bound_setFile hfile rfl, fun id hid => ?_⟩
          have hne : id ≠ file.node := fun he => hid n file rfl hfile he.symm
          dsimp only
          split
          · rfl
          · rw [get?_setData, if_neg hne]
        all_goals exact .refl _ m

theorem writeTo_whole (hcapacity : m.pipeCapacity? = none) (fd : Fd) (data : Bytes) :
    ∃ reply m', m.writeTo p fd data = .answer reply m' ∧ ∀ count, reply = .ok count →
      count = data.length := by
  unfold writeTo
  split
  · exact ⟨_, m, rfl, by simp⟩
  · exact ⟨_, m, rfl, by simp⟩
  · split
    · exact ⟨_, m, rfl, by simp⟩
    · split
      · exact ⟨_, m, rfl, by simp⟩
      · rename_i pipe _ _
        have hall : m.accepted pipe data = data.length := by simp [accepted, hcapacity]
        have htaken : (decide (m.accepted pipe data = 0) && decide (data ≠ [])) = false := by
          rw [hall]
          cases data <;> simp
        dsimp only
        rw [if_neg (by simpa using htaken)]
        exact ⟨_, _, rfl, fun count hcount => (Except.ok.inj hcount).symm.trans hall⟩
  · split
    · exact ⟨_, m, rfl, by simp⟩
    · split
      · exact ⟨_, m, rfl, by simp⟩
      · split
        · exact ⟨_, _, rfl, fun count hcount => (Except.ok.inj hcount).symm⟩
        · exact ⟨_, m, rfl, by simp⟩
        · refine ⟨_, m, rfl, fun count hcount => ?_⟩
          split at hcount
          · rename_i hnone
            cases hcount
            simp [hnone]
          · cases hcount
        · exact ⟨_, m, rfl, fun count hcount => (Except.ok.inj hcount).symm⟩

def Avoids (m : Machine α) (h : Handle) (node : NodeId) : Prop :=
  ∀ n file, h = .file n → m.openFiles.get? n = some file → file.node ≠ node

theorem Touches.content {h : Handle} {node : NodeId} (ht : Touches h m m')
    (hnode : m.Avoids h node) : (m'.tree.node node).content = (m.tree.node node).content := by
  rw [FileTree.node, FileTree.node, ht.nodes node hnode]

/-- What can be read through a handle at once: the content of a pipe, or the rest of a file that
lies at a node. -/
def Offers (m : Machine α) (node : NodeId) (h : Handle) (rest : Bytes) : Prop :=
  match h with
  | .readEnd n => ∃ pipe, m.pipes.get? n = some pipe ∧ pipe.content = rest
  | .file n =>
    ∃ file data, m.openFiles.get? n = some file ∧ file.readable = true ∧ file.node = node ∧
      (m.tree.node node).content = .file data ∧ data.drop file.offset = rest
  | .writeEnd _ => False

theorem Touches.offers {h h' : Handle} {node : NodeId} {rest : Bytes} (ht : Touches h m m')
    (hpipe : ∀ n, h' = .readEnd n → h ≠ .readEnd n ∧ h ≠ .writeEnd n)
    (hfile : ∀ n, h' = .file n → m.Avoids h node) (hoffers : m.Offers node h' rest) :
    m'.Offers node h' rest := by
  cases h' with
  | writeEnd n => exact hoffers
  | readEnd n =>
    obtain ⟨pipe, hget, hcontent⟩ := hoffers
    obtain ⟨hread, hwrite⟩ := hpipe n rfl
    exact ⟨pipe, (ht.pipes n hread hwrite).trans hget, hcontent⟩
  | file n =>
    obtain ⟨file, data, hget, hreadable, hnode, hdata, hrest⟩ := hoffers
    have havoids := hfile n rfl
    have hne : h ≠ .file n := fun he => havoids n file he hget hnode
    exact ⟨file, data, (ht.files n hne).trans hget, hreadable, hnode,
      (ht.content havoids).trans hdata, hrest⟩

/-- Reading takes bytes from the front; nothing is read only at the end, when nobody can write any
more. -/
theorem readFrom_offers {fd : Fd} {h : Handle} {node : NodeId} {rest : Bytes} (count : Nat)
    (hfd : p.descriptors.get? fd = some h) (hoffers : m.Offers node h rest) :
    (rest = [] ∧ (∃ n, h = .readEnd n ∧ m.hasWriter n = true) ∧ m.readFrom p fd count = .blocked) ∨
    ((rest = [] → ∀ n, h = .readEnd n → m.hasWriter n = false) ∧
      ∃ m', Touches h m m' ∧ m'.tree = m.tree ∧ m'.Offers node h (rest.drop count) ∧
      m.readFrom p fd count = .answer (.ok (rest.take count)) m') := by
  cases h with
  | writeEnd n => exact hoffers.elim
  | readEnd n =>
    obtain ⟨pipe, hpipe, rfl⟩ := hoffers
    simp only [readFrom, hfd, hpipe]
    by_cases hempty : pipe.content = []
    · rw [if_pos hempty]
      cases hwriter : m.hasWriter n with
      | true => exact .inl ⟨hempty, ⟨n, rfl, hwriter⟩, rfl⟩
      | false =>
        refine .inr ⟨fun _ k hk => ?_, m, .refl _ m, rfl, ⟨pipe, hpipe, ?_⟩, ?_⟩
        · cases hk
          exact hwriter
        · simp [hempty]
        · simp [hempty]
    · rw [if_neg hempty]
      exact .inr ⟨fun h => absurd h hempty, _, .setPipe _ (.inl rfl), rfl,
        ⟨_, Table.get?_set_same _ _ _, rfl⟩, rfl⟩
  | file n =>
    obtain ⟨file, data, hfile, hreadable, rfl, hdata, rfl⟩ := hoffers
    simp only [readFrom, hfd, hfile, hdata]
    rw [if_neg (by simp [hreadable])]
    have htouches (offset : Nat) : Touches (.file n) m
        { m with openFiles := m.openFiles.set n { file with offset := offset } } :=
      .setFile hfile rfl
    refine .inr ⟨fun _ k hk => absurd hk (by simp), _, htouches _, rfl, ?_, rfl⟩
    refine ⟨_, data, Table.get?_set_same _ _ _, hreadable, rfl, hdata, ?_⟩
    dsimp only
    rw [List.drop_drop, List.length_take, List.length_drop]
    by_cases hle : count ≤ data.length - file.offset
    · rw [Nat.min_eq_left hle]
    · rw [Nat.min_eq_right (by omega), List.drop_eq_nil_of_le (by omega),
        List.drop_eq_nil_of_le (by omega)]

end Machine

def Transfer.slurping (seen : Bytes) : Transfer :=
  { source := Fd.input, yield := fun _ _ => ⟨[], none⟩, seen := seen }

namespace Machine

variable {m m' m'' : Machine α} {q : Pid} {p : Process α}

theorem step_transfer (hp : m.processes.get? q = some p) (hlive : p.isLive = true) {t : Transfer}
    {next : Transferred → Program α} (hprogram : p.program = .transfer t next) :
    m.step q = m.transferStep q p t next := by
  simp only [step, hp, hlive, Bool.not_true, Bool.false_eq_true, if_false, hprogram]

private theorem transferStep_slurping (seen : Bytes) (next : Transferred → Program α) :
    m.transferStep q p (.slurping seen) next =
      match m.readFrom p Fd.input (Transfer.slurping seen).chunk with
      | .blocked => none
      | .settled m => some m
      | .answer (.error e) m => some (m.proceed q (next ⟨.cannotRead e, seen, seen.length, 0⟩))
      | .answer (.ok bytes) m =>
        some ((m.modifyProcess q
          ({ · with fed := p.fed || bytes ≠ [] && p.readsPipe Fd.input })).proceed q
          (if bytes = [] then next ⟨.complete, seen ++ [], (seen ++ []).length, 0⟩
          else .transfer (.slurping (seen ++ bytes)) next)) := by
  have hsource : (Transfer.slurping seen).source = Fd.input := rfl
  unfold transferStep
  cases hread : m.readFrom p Fd.input (Transfer.slurping seen).chunk with
  | blocked =>
    rw [← hsource] at hread
    simp only [hread]
    rfl
  | settled m₁ =>
    rw [← hsource] at hread
    simp only [hread]
    rfl
  | answer reply m₁ =>
    rw [← hsource] at hread
    simp only [hread]
    cases reply with
    | error e => rfl
    | ok bytes => cases bytes <;> rfl

/-- A process that reads its input to the end waits for more, or goes on when there is none, or has
seen more of it. -/
theorem step_slurping (hp : m.processes.get? q = some p)
    (hlive : p.isLive = true) {seen rest : Bytes} {next : Transferred → Program α}
    (hprogram : p.program = .transfer (.slurping seen) next) {h : Handle}
    {node : NodeId} (hfd : p.descriptors.get? Fd.input = some h) (hoffers : m.Offers node h rest) :
    (rest = [] ∧ (∃ n, h = .readEnd n ∧ m.hasWriter n = true) ∧ m.step q = none) ∨
    (rest = [] ∧ (∀ n, h = .readEnd n → m.hasWriter n = false) ∧ ∃ m₁ fed t, Touches h m m₁ ∧
      m₁.tree = m.tree ∧ m₁.processes = m.processes ∧ t.seen = seen ∧
      m.step q = some (m₁.update q { p with fed := fed, program := next t })) ∨
    (∃ m₁ fed more rest', rest = more ++ rest' ∧ more ≠ [] ∧ Touches h m m₁ ∧ m₁.tree = m.tree ∧
      m₁.processes = m.processes ∧ m₁.Offers node h rest' ∧ m.step q = some (m₁.update q { p with
        fed := fed, program := .transfer (.slurping (seen ++ more)) next })) := by
  rw [step_transfer hp hlive hprogram, transferStep_slurping]
  rcases readFrom_offers (Transfer.slurping seen).chunk hfd hoffers with ⟨hnone, hwriter, hread⟩ |
    ⟨hend, m₁, htouches, htree, hoffers₁, hread⟩
  · exact .inl ⟨hnone, hwriter, by rw [hread]⟩
  · have hprocesses : m₁.processes = m.processes := by
      have hstores := readFrom_stores (m := m) (p := p) Fd.input (Transfer.slurping seen).chunk
      rw [hread] at hstores
      exact hstores.processes
    have hp₁ : m₁.processes.get? q = some p := hprocesses ▸ hp
    simp only [hread, modifyProcess_eq_update hp₁, proceed_update]
    cases rest with
    | nil =>
      refine .inr (.inl ⟨rfl, hend rfl, m₁, _, _, htouches, htree, hprocesses, ?_, rfl⟩)
      exact List.append_nil seen
    | cons b rest =>
      refine .inr (.inr ⟨m₁, _, _, _, (List.take_append_drop (Transfer.slurping seen).chunk
        (b :: rest)).symm, ?_, htouches, htree, hprocesses, hoffers₁, rfl⟩)
      exact List.cons_ne_nil _ _

/-- Whether what is written through a handle comes to stand behind what is already in the file at a
node. -/
def Receives (m : Machine α) (node : NodeId) (h : Handle) (already : Bytes) : Prop :=
  ∃ number file n, h = .file number ∧ m.openFiles.get? number = some file ∧ file.writable = true ∧
    file.node = node ∧ m.tree.nodes.get? node = some n ∧ n.content = .file already ∧
    (file.atEnd = true ∨ file.offset = already.length)

theorem Receives.content {h : Handle} {node : NodeId} {already : Bytes}
    (hreceives : m.Receives node h already) : (m.tree.node node).content = .file already := by
  obtain ⟨number, file, n, -, -, -, -, hget, hcontent, -⟩ := hreceives
  simp [FileTree.node, hget, hcontent]

theorem Touches.receives {h h' : Handle} {node : NodeId} {already : Bytes} (ht : Touches h m m')
    (havoids : m.Avoids h node) (hreceives : m.Receives node h' already) :
    m'.Receives node h' already := by
  obtain ⟨number, file, n, rfl, hfile, hwritable, hnode, hget, hcontent, hplace⟩ := hreceives
  have hne : h ≠ .file number := fun he => havoids number file he hfile hnode
  exact ⟨number, file, n, rfl, (ht.files number hne).trans hfile, hwritable, hnode,
    (ht.nodes node havoids).trans hget, hcontent, hplace⟩

theorem writeTo_receives {fd : Fd} {h : Handle} {node : NodeId} {already : Bytes}
    (hfd : p.descriptors.get? fd = some h) (hreceives : m.Receives node h already) {data : Bytes}
    {m' : Machine α} {reply : Except Errno Nat} (hwrite : m.writeTo p fd data = .answer reply m') :
    (m'.tree.node node).content = .file (already ++ data) := by
  have hnode' := hreceives.content
  obtain ⟨number, file, n, rfl, hfile, hwritable, rfl, hnode, hcontent, hplace⟩ := hreceives
  simp only [writeTo, hfd, hfile, hnode'] at hwrite
  rw [if_neg (by simp [hwritable])] at hwrite
  have hoffset : (if file.atEnd = true then already.length else file.offset) = already.length := by
    rcases hplace with hplace | hplace
    · rw [if_pos hplace]
    · rw [hplace, ite_self]
  rw [hoffset, if_pos rfl] at hwrite
  cases hwrite
  by_cases hdata : data = []
  · subst hdata
    rw [if_pos rfl, List.append_nil]
    exact hnode'
  · rw [if_neg hdata]
    simp [FileTree.node, get?_setData, hnode]

theorem writeTo_pipe {fd : Fd} {n : Nat} {pipe : Pipe}
    (hfd : p.descriptors.get? fd = some (.writeEnd n)) (hcapacity : m.pipeCapacity? = none)
    (hpipe : m.pipes.get? n = some pipe) (hreader : m.hasReader n = true) {data : Bytes}
    {m' : Machine α} {reply : Except Errno Nat} (hwrite : m.writeTo p fd data = .answer reply m') :
    ∃ pipe', m'.pipes.get? n = some pipe' ∧ pipe'.content = pipe.content ++ data := by
  have hall : m.accepted pipe data = data.length := by simp [accepted, hcapacity]
  simp only [writeTo, hfd, hpipe, hreader, hall, Bool.not_true, Bool.false_eq_true,
    if_false] at hwrite
  split at hwrite
  · cases hwrite
  · cases hwrite
    exact ⟨_, Table.get?_set_same _ _ _, by simp⟩

private theorem writeOn_whole {m₁ : Machine α}
    (hp : m₁.processes.get? q = some p) (hwritten : p.written = 0) {data : Bytes}
    {r : Except Errno Nat} (hwhole : ∀ count, r = .ok count → count = data.length) :
    ∃ reply, writeOn q p data (.answer r m₁) = .answer reply
      (m₁.update q { p with written := 0 }) := by
  cases r with
  | error e =>
    exact ⟨.error e, by simp only [writeOn, writeOn.setWritten, modifyProcess_eq_update hp]⟩
  | ok count =>
    have hcount : ¬ p.written + count < data.length := by
      have := hwhole count rfl
      omega
    exact ⟨.ok (),
      by simp only [writeOn, writeOn.setWritten, if_neg hcount, modifyProcess_eq_update hp]⟩

theorem step_write_whole (hp : m.processes.get? q = some p) (hlive : p.isLive = true)
    {fd : Fd} {data : Bytes} {next : Except Errno Unit → Program α}
    (hprogram : p.program = .call (.write fd data) next) (hcapacity : m.pipeCapacity? = none)
    (hwritten : p.written = 0) (hignored : Signal.pipe.number ∈ p.ignored) :
    ∃ r m₁ reply, m.writeTo p fd data = .answer r m₁ ∧ m₁.processes = m.processes ∧
      m.step q = some (m₁.update q { p with written := 0, program := next reply }) := by
  obtain ⟨r, m₁, hwrite, hwhole⟩ := writeTo_whole (p := p) hcapacity fd data
  have hprocesses : m₁.processes = m.processes := by
    have hstores := writeTo_stores (m := m) (p := p) fd data
    rw [hwrite] at hstores
    exact hstores.processes
  have hdie : m.writeOrDie q p fd data = .answer r m₁ := by
    unfold writeOrDie
    rw [hwrite]
    split
    · rename_i heq
      cases heq
      rw [if_pos hignored]
    · rfl
  obtain ⟨reply, hall⟩ := writeOn_whole (hprocesses ▸ hp) hwritten hwhole
  rw [step_call hp hlive hprogram]
  simp only [answer, writeAll, hwritten, List.drop_zero, hdie, hall, proceed_update]
  exact ⟨_, m₁, reply, hwrite, hprocesses, rfl⟩

theorem step_note_whole {h : Handle} (hp : m.processes.get? q = some p)
    (hlive : p.isLive = true) {r : Log.Record} {next : Unit → Program α}
    (hprogram : p.program = .call (.note r) next) (hcapacity : m.pipeCapacity? = none)
    (hwritten : p.written = 0) (hfd : p.descriptors.get? Fd.complaints = some h) :
    ∃ m₁, Touches h m m₁ ∧ m₁.processes = m.processes ∧
      m.step q = some (m₁.update q { p with written := 0, program := next () }) := by
  have hself : ({ p with written := 0 } : Process α) = p := by rw [← hwritten]
  have hkept {m₁ : Machine α} (hprocesses : m₁.processes = m.processes) :
      m₁ = m₁.update q { p with written := 0 } := by
    rw [hself]
    exact (update_self (hprocesses ▸ hp)).symm
  suffices hrecord : ∃ m₁, Touches h m m₁ ∧ m₁.processes = m.processes ∧
      m.record q p r = .answer () (m₁.update q { p with written := 0 }) by
    obtain ⟨m₁, htouches, hprocesses, heq⟩ := hrecord
    rw [step_call hp hlive hprogram]
    simp only [answer, heq, proceed_update]
    exact ⟨m₁, htouches, hprocesses, rfl⟩
  unfold record
  split
  · exact ⟨{ m with journal := r :: m.journal }, .of_eq rfl rfl rfl rfl, rfl,
      congrArg _ (hkept rfl)⟩
  · rename_i time _
    split
    · have hstores :=
        writeTo_stores (m := m) (p := p) Fd.complaints (Bytes.ofString (r.terminalLine time))
      have htouches := writeTo_touches (m := m) hfd (Bytes.ofString (r.terminalLine time))
      obtain ⟨reply, m₁, hwrite, hwhole⟩ :=
        writeTo_whole (p := p) hcapacity Fd.complaints (Bytes.ofString (r.terminalLine time))
      rw [hwrite] at hstores htouches
      obtain ⟨reply', hall⟩ := writeOn_whole (hstores.processes ▸ hp) hwritten hwhole
      refine ⟨m₁, htouches, hstores.processes, ?_⟩
      simp only [hwritten, List.drop_zero, hwrite, hall]
    · exact ⟨m, .refl _ m, rfl, congrArg _ (hkept rfl)⟩

def withFile (m : Machine α) (q : Pid) (p : Process α) (tree : FileTree) (fd : Fd)
    (file : OpenFile) : Machine α :=
  ({ m with tree := tree, openFiles := m.openFiles.set m.openFiles.next file } : Machine α).update q
    { p with descriptors := p.descriptors.set fd (.file m.openFiles.next) }

/-- How a path can be opened as a regular file at a node: for reading, or for writing with nothing
left in it. -/
def OpensAt (m : Machine α) (p : Process α) (path : Bytes) (node : NodeId) :
    Access → FileTree → Prop
  | .read, tree => m.tree.openForReading (m.actor p) path = .ok node ∧ tree = m.tree ∧
      ∃ data, (m.tree.node node).content = .file data
  | .replace mode, tree => m.tree.openForWriting (m.actor p) path mode true = .ok (tree, node) ∧
      ∃ n, tree.nodes.get? node = some n ∧ n.content = .file []
  | .append _, _ => False

def openedAs (node : NodeId) : Access → OpenFile
  | .read => { node := node }
  | .replace _ => { node := node, readable := false, writable := true }
  | .append _ => { node := node, readable := false, writable := true, atEnd := true }

private theorem path_of_locate {t : FileTree} {user : Nat} {directory : NodeId} {aim : FileTree.Aim}
    {path : Bytes} {place : Place} (h : t.locate user directory aim path = .ok place) :
    path ≠ [] ∧ ¬ FileTree.pathLimit ≤ path.length := by
  unfold FileTree.locate at h
  dsimp only at h
  split at h
  · cases h
  · rename_i hnonempty
    split at h
    · cases h
    · rename_i hshort
      exact ⟨hnonempty, hshort⟩

private theorem path_of_opensAt {path : Bytes} {node : NodeId} {access : Access} {tree : FileTree}
    (h : m.OpensAt p path node access tree) : path ≠ [] ∧ ¬ FileTree.pathLimit ≤ path.length := by
  cases access with
  | read =>
    obtain ⟨hopen, -⟩ := h
    unfold FileTree.openForReading FileTree.find at hopen
    cases hlocate : m.tree.locate (m.actor p).user (m.actor p).directory .target path with
    | error e =>
      rw [hlocate] at hopen
      cases hopen
    | ok place => exact path_of_locate hlocate
  | replace mode =>
    obtain ⟨hopen, -⟩ := h
    unfold FileTree.openForWriting at hopen
    split at hopen
    · cases hopen
    · rename_i hlocate
      exact path_of_locate hlocate
  | append mode => exact h.elim

private theorem openPath_opensAt {path : Bytes} {node : NodeId} {access : Access} {tree : FileTree}
    {fd : Fd} (hcalm : p.rendezvous? = none) (hfree : p.descriptors.lowest? p.limit = some fd)
    (h : m.OpensAt p path node access tree) :
    m.openPath q p path access =
      .answer (.ok fd) (m.withFile q p tree fd (openedAs node access)) := by
  obtain ⟨hnonempty, hshort⟩ := path_of_opensAt h
  simp only [openPath, hcalm]
  rw [if_neg hnonempty, if_neg hshort, if_neg (by simp [hfree])]
  cases access with
  | read =>
    obtain ⟨hopen, rfl, data, hdata⟩ := h
    simp only [hopen, Except.map, hdata, openNode, Process.allocate, hfree]
    rfl
  | replace mode =>
    obtain ⟨hopen, n, hnode, hcontent⟩ := h
    have hdata : (tree.node node).content = .file [] := by simp [FileTree.node, hnode, hcontent]
    simp only [hopen, hdata, openNode, Process.allocate, hfree]
    rfl
  | append mode => exact h.elim

theorem step_openFile_opensAt (hp : m.processes.get? q = some p) (hlive : p.isLive = true)
    {path : Bytes} {access : Access} {next : Except Errno Fd → Program α}
    (hprogram : p.program = .call (.openFile path access) next)
    {node : NodeId} {tree : FileTree} {fd : Fd} (hcalm : p.rendezvous? = none)
    (hfree : p.descriptors.lowest? p.limit = some fd) (h : m.OpensAt p path node access tree) :
    m.step q = some (m.withFile q { p with
      program := next (.ok fd) } tree fd (openedAs node access)) ∧
      m.deeds q p p.program = [.opened path access (.file m.openFiles.next)] := by
  have hopen := openPath_opensAt (q := q) hcalm hfree h
  constructor
  · rw [step_call hp hlive hprogram]
    simp only [answer, hopen, withFile, proceed_update]
    rfl
  · rw [hprogram]
    simp [deeds, hopen, withFile]

theorem step_openFile_refused (hp : m.processes.get? q = some p) (hlive : p.isLive = true)
    {path : Bytes} {access : Access} {next : Except Errno Fd → Program α}
    (hprogram : p.program = .call (.openFile path access) next)
    {e : Errno} (h : m.openPath q p path access = .answer (.error e) m) :
    m.step q = some (m.update q { p with program := next (.error e) }) ∧
    m.deeds q p p.program = [] := by
  constructor
  · rw [step_call hp hlive hprogram]
    simp only [answer, h, proceed_eq hp]
    rfl
  · rw [hprogram]
    simp only [deeds, h]

theorem get?_openForWriting {t tree : FileTree} {actor : FileTree.Actor}
    {path : Bytes} {mode : Nat} {id other : NodeId} {data : Bytes}
    (hopen : t.openForWriting actor path mode true = .ok (tree, id)) (hne : other ≠ id)
    (hdata : (t.node other).content = .file data) : tree.nodes.get? other = t.nodes.get? other := by
  unfold FileTree.openForWriting at hopen
  split at hopen
  · cases hopen
  · rename_i place _
    split at hopen
    · unfold FileTree.create at hopen
      split at hopen
      · cases hopen
      · have hadd := (Except.ok.inj hopen)
        unfold FileTree.addNode at hadd
        obtain ⟨rfl, rfl⟩ := Prod.mk.inj hadd
        unfold FileTree.attach
        split
        · rename_i parent names hdirectory
          have hother : other ≠ place.directory := by
            rintro rfl
            simp only [FileTree.node, Table.get?_set_of_ne _ _ hne] at hdirectory hdata
            exact absurd (hdirectory.symm.trans hdata) (by simp)
          exact (Table.get?_modify_of_ne _ _ hother).trans (Table.get?_set_of_ne _ _ hne)
        · exact Table.get?_set_of_ne _ _ hne
    · split at hopen
      · cases hopen
      · split at hopen
        · cases hopen
        · split at hopen
          · cases hopen
            rw [if_pos rfl, get?_setData, if_neg hne]
          · cases hopen
            rfl

theorem get?_withFile {tree : FileTree} {fd : Fd} {file file' : OpenFile} {n : Nat}
    (hn : m.openFiles.get? n = some file') :
    (m.withFile q p tree fd file).openFiles.get? n = some file' := by
  have hne : n ≠ m.openFiles.next := by
    rintro rfl
    rw [Table.get?_next] at hn
    cases hn
  exact (Table.get?_set_of_ne _ _ hne).trans hn

theorem Offers.withFile {tree : FileTree} {fd : Fd}
    {file : OpenFile} {node : NodeId} {h : Handle} {rest : Bytes}
    (ho : m.Offers node h rest) (hdata : (tree.node node).content = (m.tree.node node).content) :
    (m.withFile q p tree fd file).Offers node h rest := by
  cases h with
  | writeEnd n => exact ho
  | readEnd n => exact ho
  | file n =>
    obtain ⟨file', data, hfile, hreadable, hnode, hcontent, hrest⟩ := ho
    exact ⟨file', data, get?_withFile hfile, hreadable, hnode, hdata.trans hcontent, hrest⟩

theorem Receives.withFile {tree : FileTree} {fd : Fd} {file : OpenFile} {node : NodeId}
    {h : Handle} {already : Bytes} (hreceives : m.Receives node h already) {n : Node}
    (hn : tree.nodes.get? node = some n) (hdata : n.content = .file already) :
    (m.withFile q p tree fd file).Receives node h already := by
  obtain ⟨number, file', -, rfl, hfile, hwritable, hnode, -, -, hplace⟩ := hreceives
  exact ⟨number, file', n, rfl, get?_withFile hfile, hwritable, hnode, hn, hdata, hplace⟩

theorem step_exec_found (hp : m.processes.get? q = some p)
    (hlive : p.isLive = true) {arguments : List Bytes}
    {next : Errno → Program α} (hprogram : p.program = .call (.exec arguments) next) {image : Image}
    (hsearch : Image.search (m.loader p) p.searchPath arguments = .ok image)
    (hfree : p.descriptors.lowest? p.limit ≠ none) :
    m.step q = some (m.update q
      { p with program := m.installed image.program image.arguments, loaded := true }) := by
  rw [step_call hp hlive hprogram]
  simp only [answer, replaceProgram, hsearch, if_neg hfree, modifyProcess_eq_update hp]

theorem step_exec_refused (hp : m.processes.get? q = some p)
    (hlive : p.isLive = true) {arguments : List Bytes}
    {next : Errno → Program α} (hprogram : p.program = .call (.exec arguments) next) {e : Errno}
    (hsearch : Image.search (m.loader p) p.searchPath arguments = .error e) :
    m.step q = some (m.update q { p with program := next e }) := by
  rw [step_call hp hlive hprogram]
  simp only [answer, replaceProgram, hsearch, proceed_eq hp]
  rfl

theorem makePipe_ok {a b : Fd} (hne : a ≠ b) (ha : a < p.limit) (hb : b < p.limit)
    (hfree : p.descriptors.get? a = none) (hfree' : p.descriptors.get? b = none) :
    (m.makePipe q p).1 ≠ .error .tooManyOpen := by
  obtain ⟨readFd, hread⟩ := Option.isSome_iff_exists.mp (Table.lowest?_isSome ha hfree)
  have hleft : ((p.descriptors.set readFd (.readEnd m.pipes.next)).lowest? p.limit).isSome := by
    by_cases hread : a = readFd
    · refine Table.lowest?_isSome hb ?_
      rw [Table.get?_set_of_ne _ _ fun he => hne (hread.trans he.symm)]
      exact hfree'
    · refine Table.lowest?_isSome ha ?_
      rw [Table.get?_set_of_ne _ _ hread]
      exact hfree
  obtain ⟨writeFd, hwrite⟩ := Option.isSome_iff_exists.mp hleft
  simp only [makePipe, Process.allocate, hread, hwrite]
  simp

end Machine

end PipeShell
