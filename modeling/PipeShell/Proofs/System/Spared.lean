import PipeShell.Proofs.System.Streams

/-!
Nodes to which nobody can write. They stay what they are whatever the processes read and write, as
long as no file is replaced and nothing in the directories is changed; so the same programs and the
same files are found throughout.
-/

set_option autoImplicit false
set_option relaxedAutoImplicit false

namespace PipeShell

variable {α : Type}

/-- The calls that neither open a path nor have any other effect in the directories, among those
that are made for a pipeline. -/
def Call.Plain : Call → Prop
  | pipe | close _ | duplicate .. | exec _ | exit _ | waitFor _ | write .. | note _ => True
  | _ => False

def Program.Plain : Program α → Prop
  | .call c _ => c.Plain
  | .fork .. | .transfer .. => True
  | _ => False

namespace Machine

def Unwritable (kept : NodeId → Prop) (m : Machine α) : Prop :=
  ∀ n file, m.openFiles.get? n = some file → file.writable = true → ¬ kept file.node

/-- Some nodes are what they were, and still nobody can write to any of them. -/
structure Resembles (kept : NodeId → Prop) (m m' : Machine α) : Prop where
  installed : m'.installed = m.installed
  root : m'.tree.root = m.tree.root
  nodes : ∀ id, kept id → m'.tree.nodes.get? id = m.tree.nodes.get? id
  unwritable : m'.Unwritable kept

/-- In addition there are no new nodes. -/
structure Spares (kept : NodeId → Prop) (m m' : Machine α) : Prop extends Resembles kept m m' where
  next : m'.tree.nodes.next = m.tree.nodes.next

section

variable {kept : NodeId → Prop} {m m' m'' : Machine α} {q : Pid} {p : Process α}

theorem Resembles.trans (h : Resembles kept m m') (h' : Resembles kept m' m'') :
    Resembles kept m m'' where
  installed := h'.installed.trans h.installed
  root := h'.root.trans h.root
  nodes id hid := (h'.nodes id hid).trans (h.nodes id hid)
  unwritable := h'.unwritable

theorem Spares.of_eq (h : m.Unwritable kept) (htree : m'.tree = m.tree)
    (hfiles : m'.openFiles = m.openFiles) (hinstalled : m'.installed = m.installed) :
    Spares kept m m' where
  installed := hinstalled
  root := congrArg FileTree.root htree
  nodes id _ := congrArg (fun tree => tree.nodes.get? id) htree
  unwritable n file hfile := h n file (hfiles ▸ hfile)
  next := congrArg (fun tree => tree.nodes.next) htree

theorem Spares.refl (h : m.Unwritable kept) : Spares kept m m := .of_eq h rfl rfl rfl

theorem Spares.trans (h : Spares kept m m') (h' : Spares kept m' m'') : Spares kept m m'' where
  toResembles := h.toResembles.trans h'.toResembles
  next := h'.next.trans h.next

theorem Spares.modifyProcess (h : Spares kept m m') (q : Pid) (f : Process α → Process α) :
    Spares kept m (m'.modifyProcess q f) := ⟨⟨h.installed, h.root, h.nodes, h.unwritable⟩, h.next⟩

theorem Spares.finish (h : Spares kept m m') (q : Pid) (e : Ending) :
    Spares kept m (m'.finish q e) :=
  ⟨⟨h.installed, h.root, h.nodes, h.unwritable⟩, h.next⟩

theorem unwritable_set (h : m.Unwritable kept) {n : Nat} {file : OpenFile}
    (hfile : file.writable = true → ¬ kept file.node) :
    ∀ k f, (m.openFiles.set n file).get? k = some f → f.writable = true → ¬ kept f.node := by
  intro k f hf
  rw [Table.get?_set] at hf
  split at hf
  · cases hf
    exact hfile
  · exact h k f hf

theorem readFrom_spares (h : m.Unwritable kept) (fd : Fd) (count : Nat) :
    (m.readFrom p fd count).Keeps (Spares kept m) := by
  unfold readFrom
  split
  · exact .refl h
  · exact .refl h
  · split
    · exact .refl h
    · split
      · split
        · exact trivial
        · exact .refl h
      · exact .of_eq h rfl rfl rfl
  · split
    · exact .refl h
    · rename_i file hfile
      split
      · exact .refl h
      · split
        · exact ⟨⟨rfl, rfl, fun _ _ => rfl, unwritable_set h (h _ file hfile)⟩, rfl⟩
        all_goals exact .refl h

theorem writeTo_spares (h : m.Unwritable kept) (fd : Fd) (data : Bytes) :
    (m.writeTo p fd data).Keeps (Spares kept m) := by
  unfold writeTo
  split
  · exact .refl h
  · exact .refl h
  · split
    · exact .refl h
    · split
      · exact .refl h
      · dsimp only
        split
        · exact trivial
        · exact .of_eq h rfl rfl rfl
  · split
    · exact .refl h
    · rename_i file hfile
      split
      · exact .refl h
      · rename_i hwritable
        have hwritable : file.writable = true := by simpa using hwritable
        split
        · refine ⟨⟨rfl, ?_, fun id hid => ?_, unwritable_set h (h _ file hfile)⟩, ?_⟩
          · dsimp only
            split <;> rfl
          · have hne : id ≠ file.node := by
              rintro rfl
              exact h _ _ hfile hwritable hid
            dsimp only
            split
            · rfl
            · exact Table.get?_modify_of_ne _ _ hne
          · dsimp only
            split
            · rfl
            · exact Table.next_modify _ _ _
        all_goals exact .refl h

theorem writeOrDie_spares (h : m.Unwritable kept) (fd : Fd) (data : Bytes) :
    (m.writeOrDie q p fd data).Keeps (Spares kept m) := by
  have hw := writeTo_spares (p := p) h fd data
  unfold writeOrDie
  split
  · rename_i heq
    rw [heq] at hw
    split
    · exact hw
    · exact Spares.finish hw q _
  · exact hw

theorem writeOn_spares (p : Process α) (data : Bytes) {r : Result α (Except Errno Nat)}
    (h : r.Keeps (Spares kept m)) : (writeOn q p data r).Keeps (Spares kept m) := by
  unfold writeOn
  split
  · exact trivial
  · exact h
  · exact Spares.modifyProcess h q _
  · split
    · exact Spares.modifyProcess h q _
    · exact Spares.modifyProcess h q _

theorem record_spares (h : m.Unwritable kept) (r : Log.Record) :
    (m.record q p r).Keeps (Spares kept m) := by
  unfold record
  split
  · exact Spares.of_eq h rfl rfl rfl
  · rename_i time _
    split
    · dsimp only
      have hw := writeOn_spares (q := q) p (Bytes.ofString (r.terminalLine time)) (writeTo_spares
        (p := p) h Fd.complaints ((Bytes.ofString (r.terminalLine time)).drop p.written))
      split
      · exact trivial
      · rename_i heq
        rw [heq] at hw
        exact hw
      · rename_i heq
        rw [heq] at hw
        exact hw
    · exact Spares.refl h

theorem makePipe_spares (h : m.Unwritable kept) : Spares kept m (m.makePipe q p).2 := by
  unfold makePipe
  dsimp only
  split
  · exact .refl h
  · split
    · exact .refl h
    · exact .of_eq h rfl rfl rfl

theorem duplicate_spares (h : m.Unwritable kept) (source target : Fd) :
    Spares kept m (m.duplicate q p source target).2 := by
  unfold duplicate
  split
  · exact .refl h
  · split
    · exact .refl h
    · exact .of_eq h rfl rfl rfl

theorem waitFor_spares (h : m.Unwritable kept) (child : Pid) :
    (m.waitFor q child).Keeps (Spares kept m) := by
  unfold waitFor awaitEnd
  rcases collect_cases m q child with ⟨c, e, -, -, -, heq⟩ | ⟨c, -, -, -, heq⟩ | ⟨-, heq⟩
  · rw [heq]
    exact Spares.of_eq h rfl rfl rfl
  · rw [heq]
    exact trivial
  · rw [heq]
    exact Spares.refl h

theorem replaceProgram_spares (h : m.Unwritable kept) (r : Except Errno Image) :
    (m.replaceProgram q p r).Keeps (Spares kept m) := by
  unfold replaceProgram
  split
  · exact .refl h
  · exact .of_eq h rfl rfl rfl

theorem answer_spares (h : m.Unwritable kept) {c : Call} (hplain : c.Plain) :
    (m.answer q p c).Keeps (Spares kept m) := by
  cases c with
  | pipe => exact makePipe_spares h
  | close fd => exact Spares.modifyProcess (.refl h) q _
  | duplicate source target => exact duplicate_spares h source target
  | exec arguments => exact replaceProgram_spares h _
  | exit code => exact Spares.finish (.refl h) q _
  | waitFor child => exact waitFor_spares h child
  | write fd data => exact writeOn_spares p data (writeOrDie_spares h fd _)
  | note r => exact record_spares h r
  | _ => exact hplain.elim

private theorem transferStep_spares (h : m.Unwritable kept) (t : Transfer)
    (next : Transferred → Program α) (hstep : m.transferStep q p t next = some m') :
    Spares kept m m' := by
  have hw := writeOrDie_spares (q := q) (p := p) h t.target t.next
  have hr := readFrom_spares (p := p) h t.source t.chunk
  unfold transferStep at hstep
  dsimp only at hstep
  split at hstep
  · split at hstep
    · cases hstep
    · rename_i heq
      cases hstep
      rw [heq] at hw
      exact hw
    all_goals
      rename_i heq
      cases hstep
      rw [heq] at hw
      exact Spares.modifyProcess hw q _
  · split at hstep
    · cases hstep
      exact Spares.modifyProcess (.refl h) q _
    · split at hstep
      · cases hstep
      · rename_i heq
        cases hstep
        rw [heq] at hr
        exact hr
      · rename_i heq
        cases hstep
        rw [heq] at hr
        exact Spares.modifyProcess hr q _
      · rename_i heq
        cases hstep
        rw [heq] at hr
        exact (Spares.modifyProcess hr q _).modifyProcess q _

theorem step_spares (h : m.Unwritable kept) (hp : m.processes.get? q = some p)
    (hplain : p.program.Plain) (hstep : m.step q = some m') : Spares kept m m' := by
  unfold step at hstep
  rw [hp] at hstep
  dsimp only at hstep
  split at hstep
  · cases hstep
  · split at hstep
    · cases hstep
    · rename_i c next hprogram
      rw [hprogram] at hplain
      have ha := answer_spares (q := q) (p := p) h (c := c) hplain
      split at hstep
      · cases hstep
      · rename_i heq
        cases hstep
        rw [heq] at ha
        exact ha
      · rename_i heq
        cases hstep
        rw [heq] at ha
        exact Spares.modifyProcess ha q _
    · cases hstep
      exact .of_eq h rfl rfl rfl
    · exact transferStep_spares h _ _ hstep
    · rename_i hprogram
      rw [hprogram] at hplain
      exact hplain.elim

theorem not_busy (h : m.Unwritable kept) {id : NodeId} (hbusy : id ∈ m.busyNodes) : ¬ kept id := by
  obtain ⟨⟨n, file⟩, hmem, heq⟩ := List.mem_filterMap.mp hbusy
  dsimp only at heq
  split at heq
  · rename_i hheld
    cases heq
    exact h n file (Table.mem_entries_iff.mp hmem) (Bool.and_eq_true_iff.mp hheld).1
  · cases heq

theorem resembles_withFile (h : m.Unwritable kept)
    {tree : FileTree} (hroot : tree.root = m.tree.root)
    (hnodes : ∀ id, kept id → tree.nodes.get? id = m.tree.nodes.get? id) {file : OpenFile}
    (hfile : file.writable = true → ¬ kept file.node) (fd : Fd) :
    Resembles kept m (m.withFile q p tree fd file) :=
  ⟨rfl, hroot, hnodes, unwritable_set h hfile⟩

end

end Machine

end PipeShell
