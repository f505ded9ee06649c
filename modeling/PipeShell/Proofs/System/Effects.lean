import PipeShell.Proofs.System.Tables
import PipeShell.System.Machine.Step

/-!
What a step of one process can do to a machine, said once for all calls: it changes what is stored,
or the process itself, ends or stops some process (another one only by a signal), takes an ended
child away, or adds a child. The main theorem is `step_effect`; what a step leaves alone is read off
from it.
-/

set_option autoImplicit false
set_option relaxedAutoImplicit false

namespace PipeShell.Machine

variable {α : Type}

def Knows (m : Machine α) : Handle → Prop
  | .file number => (m.openFiles.get? number).isSome
  | .readEnd pipe | .writeEnd pipe => (m.pipes.get? pipe).isSome

/-- What is stored on a machine has become something else, but no open file and no pipe is gone. -/
structure Stores (m m' : Machine α) : Prop where
  processes : m'.processes = m.processes
  nextPid : m'.nextPid = m.nextPid
  installed : m'.installed = m.installed
  pipeCapacity : m'.pipeCapacity? = m.pipeCapacity?
  knows : ∀ h, m.Knows h → m'.Knows h
  fifos : ∀ id number, m'.fifos.get? id = some number →
    m.fifos.get? id = some number ∨ ¬ m.Knows (.readEnd number) ∧ m'.Knows (.readEnd number)

/-- A process has become something else by its own doing. It has the same parent and is neither
stopped nor ended by that, and if it had loaded a program it still has. -/
structure Own (m : Machine α) (p p' : Process α) : Prop where
  parent : p'.parent = p.parent
  stopped : p'.stopped = p.stopped
  ending : p'.ending? = p.ending?
  loaded : p.loaded = true → p'.loaded = true
  knows : ∀ h ∈ p'.descriptors.values, h ∈ p.descriptors.values ∨ m.Knows h

/-- What a process can do to a machine; the list names the children that it takes away. -/
inductive Effect (q : Pid) : Machine α → List Pid → Machine α → Prop
  | refl (m) : Effect q m [] m
  | trans {m m' m'' l l'} (first : Effect q m l m') (second : Effect q m' l' m'') :
      Effect q m (l ++ l') m''
  | storage {m m'} (h : Stores m m') : Effect q m [] m'
  | own {m p p'} (h : m.processes.get? q = some p) (changed : Own m p p') :
      Effect q m [] { m with processes := m.processes.set q p' }
  | finish {m r p} (e : Ending) (h : m.processes.get? r = some p) (live : p.ending? = none)
      (who : r = q ∨ ∃ number, e = .killed number) : Effect q m [] (m.finish r e)
  | stop {m r p} (h : m.processes.get? r = some p) :
      Effect q m [] { m with processes := m.processes.set r { p with stopped := true } }
  | collect {m r c} (h : m.processes.get? r = some c) (parent : c.parent = q)
      (ended : c.ending?.isSome) : Effect q m [r] { m with processes := m.processes.erase r }
  | fork {m p} (child : Program α) (h : m.processes.get? q = some p) :
      Effect q m [] (m.fork q p child).2

namespace Effect

theorem after {q : Pid} {m m' m'' : Machine α} {l : List Pid} (first : Effect q m [] m')
    (second : Effect q m' l m'') : Effect q m l m'' := trans first second

theorem before {q : Pid} {m m' m'' : Machine α} {l : List Pid} (first : Effect q m l m')
    (second : Effect q m' [] m'') : Effect q m l m'' := List.append_nil l ▸ trans first second

end Effect

theorem Stores.refl (m : Machine α) : Stores m m :=
  ⟨rfl, rfl, rfl, rfl, fun _ h => h, fun _ _ h => .inl h⟩

theorem Stores.trans {m m' m'' : Machine α} (h : Stores m m') (h' : Stores m' m'') :
    Stores m m'' where
  processes := h'.processes.trans h.processes
  nextPid := h'.nextPid.trans h.nextPid
  installed := h'.installed.trans h.installed
  pipeCapacity := h'.pipeCapacity.trans h.pipeCapacity
  knows handle hk := h'.knows handle (h.knows handle hk)
  fifos id number hf := by
    rcases h'.fifos id number hf with hold | hnew
    · rcases h.fifos id number hold with hold | hnew
      · exact .inl hold
      · exact .inr ⟨hnew.1, h'.knows _ hnew.2⟩
    · exact .inr ⟨fun hk => hnew.1 (h.knows _ hk), hnew.2⟩

section

variable {m : Machine α} {q : Pid}

theorem knows_setPipe {h : Handle} (hk : m.Knows h) (number : Nat) (pipe : Pipe) :
    Knows { m with pipes := m.pipes.set number pipe } h := by
  cases h with
  | file _ => exact hk
  | readEnd n | writeEnd n =>
    show ((m.pipes.set number pipe).get? n).isSome
    rw [Table.get?_set]
    split
    · rfl
    · exact hk

theorem knows_setFile {h : Handle} (hk : m.Knows h) (number : Nat) (file : OpenFile) :
    Knows { m with openFiles := m.openFiles.set number file } h := by
  cases h with
  | file n =>
    show ((m.openFiles.set number file).get? n).isSome
    rw [Table.get?_set]
    split
    · rfl
    · exact hk
  | readEnd _ | writeEnd _ => exact hk

theorem stores_setPipe (number : Nat) (pipe : Pipe) :
    Stores m { m with pipes := m.pipes.set number pipe } :=
  ⟨rfl, rfl, rfl, rfl, fun _ h => knows_setPipe h number pipe, fun _ _ h => .inl h⟩

theorem stores_setFile (number : Nat) (file : OpenFile) :
    Stores m { m with openFiles := m.openFiles.set number file } :=
  ⟨rfl, rfl, rfl, rfl, fun _ h => knows_setFile h number file, fun _ _ h => .inl h⟩

theorem stores_tree (tree : FileTree) : Stores m { m with tree := tree } :=
  ⟨rfl, rfl, rfl, rfl, fun _ h => h, fun _ _ h => .inl h⟩

theorem modifyProcess_eq {p : Process α} (h : m.processes.get? q = some p)
    (f : Process α → Process α) :
    m.modifyProcess q f = { m with processes := m.processes.set q (f p) } := by
  simp only [modifyProcess, Table.modify_of_get? h]

theorem modifyProcess_effect {f : Process α → Process α} (hf : ∀ p, Own m p (f p)) :
    Effect q m [] (m.modifyProcess q f) := by
  cases h : m.processes.get? q with
  | none =>
    have hsame : m.modifyProcess q f = m := by simp only [modifyProcess, Table.modify_of_none h]
    rw [hsame]
    exact .refl m
  | some p =>
    rw [modifyProcess_eq h]
    exact .own h (hf p)

theorem proceed_effect (program : Program α) : Effect q m [] (m.proceed q program) :=
  modifyProcess_effect fun _ => ⟨rfl, rfl, rfl, fun h => h, fun _ h => .inl h⟩

end

def Result.Keeps {ρ : Type} (P : Machine α → Prop) : Result α ρ → Prop
  | .answer _ m | .settled m => P m
  | .blocked => True

theorem Result.Keeps.mono {ρ : Type} {P Q : Machine α → Prop} {r : Result α ρ} (h : r.Keeps P)
    (hpq : ∀ m, P m → Q m) : r.Keeps Q := by
  cases r with
  | answer _ m => exact hpq m h
  | settled m => exact hpq m h
  | blocked => exact trivial

section

variable {m : Machine α} {q : Pid} {p : Process α}

theorem mem_values_set {t : Table Handle} {fd : Fd} {h h' : Handle}
    (hm : h' ∈ (t.set fd h).values) : h' ∈ t.values ∨ h' = h := by
  obtain ⟨k, hk⟩ := Table.mem_values_iff.mp hm
  rw [Table.get?_set] at hk
  split at hk
  · exact .inr (Option.some.inj hk).symm
  · exact .inl (Table.mem_values_iff.mpr ⟨k, hk⟩)

theorem mem_values_erase {t : Table Handle} {fd : Fd} {h : Handle} (hm : h ∈ (t.erase fd).values) :
    h ∈ t.values := by
  obtain ⟨k, hk⟩ := Table.mem_values_iff.mp hm
  rw [Table.get?_erase] at hk
  split at hk
  · exact absurd hk (by simp)
  · exact Table.mem_values_iff.mpr ⟨k, hk⟩

theorem Own.setDescriptor {h : Handle} (hk : m.Knows h) (fd : Fd) :
    Own m p { p with descriptors := p.descriptors.set fd h } := by
  refine ⟨rfl, rfl, rfl, fun h => h, fun h' hm => ?_⟩
  rcases mem_values_set hm with hm | rfl
  · exact .inl hm
  · exact .inr hk

theorem allocate_eq_ok {p' : Process α} {h : Handle} {fd : Fd} (ha : p.allocate h = .ok (fd, p')) :
    p.descriptors.get? fd = none ∧ fd < p.limit ∧
    p' = { p with descriptors := p.descriptors.set fd h } := by
  unfold Process.allocate at ha
  split at ha
  · cases ha
  · rename_i n hn
    cases ha
    exact ⟨(Table.lowest?_eq_some hn).2, (Table.lowest?_eq_some hn).1, rfl⟩

theorem readFrom_stores (fd : Fd) (count : Nat) : (m.readFrom p fd count).Keeps (Stores m) := by
  unfold readFrom
  split
  · exact .refl m
  · exact .refl m
  · split
    · exact .refl m
    · split
      · split
        · exact trivial
        · exact .refl m
      · exact stores_setPipe _ _
  · split
    · exact .refl m
    · split
      · exact .refl m
      · split
        · exact stores_setFile _ _
        all_goals exact .refl m

theorem writeTo_stores (fd : Fd) (data : Bytes) : (m.writeTo p fd data).Keeps (Stores m) := by
  unfold writeTo
  split
  · exact .refl m
  · exact .refl m
  · split
    · exact .refl m
    · split
      · exact .refl m
      · dsimp only
        split
        · exact trivial
        · exact stores_setPipe _ _
  · split
    · exact .refl m
    · split
      · exact .refl m
      · split
        · exact ⟨rfl, rfl, rfl, rfl, fun _ h => knows_setFile h _ _, fun _ _ h => .inl h⟩
        all_goals exact .refl m

theorem seek_stores (fd : Fd) (offset : Nat) : Stores m (m.seek p fd offset) := by
  unfold seek
  split
  · rename_i number _
    cases h : m.openFiles.get? number with
    | none =>
      rw [Table.modify_of_none h]
      exact .refl m
    | some file =>
      rw [Table.modify_of_get? h]
      exact stores_setFile _ _
  · exact .refl m

private theorem writeOrDie_within (hp : m.processes.get? q = some p) (hlive : p.ending? = none)
    (fd : Fd) (data : Bytes) : (m.writeOrDie q p fd data).Keeps (Effect q m []) := by
  have hw := writeTo_stores (m := m) (p := p) fd data
  unfold writeOrDie
  split
  · rename_i m' heq
    rw [heq] at hw
    have hp' : m'.processes.get? q = some p := by
      rw [hw.processes]
      exact hp
    split
    · exact .storage hw
    · exact (Effect.storage hw).after (.finish _ hp' hlive (.inl rfl))
  · exact hw.mono fun _ h => .storage h

private theorem writeOn_within (p : Process α) (data : Bytes) {r : Result α (Except Errno Nat)}
    (h : r.Keeps (Effect q m [])) : (writeOn q p data r).Keeps (Effect q m []) := by
  have hset (count : Nat) (m : Machine α) : Effect q m [] (writeOn.setWritten q count m) :=
    modifyProcess_effect fun _ => ⟨rfl, rfl, rfl, fun h => h, fun _ h => .inl h⟩
  unfold writeOn
  split
  · exact trivial
  · exact h
  · exact Effect.after h (hset 0 _)
  · split
    · exact Effect.after h (hset _ _)
    · exact Effect.after h (hset 0 _)

private theorem record_within (p : Process α) (r : Log.Record) :
    (m.record q p r).Keeps (Effect q m []) := by
  unfold record
  split
  · exact Effect.storage ⟨rfl, rfl, rfl, rfl, fun _ h => h, fun _ _ h => .inl h⟩
  · rename_i time _
    split
    · dsimp only
      have hw := writeOn_within p (Bytes.ofString (r.terminalLine time))
        ((writeTo_stores (m := m) (p := p) Fd.complaints
          ((Bytes.ofString (r.terminalLine time)).drop p.written)).mono fun _ h =>
          Effect.storage (q := q) h)
      split
      · exact trivial
      · rename_i heq
        rw [heq] at hw
        exact hw
      · rename_i heq
        rw [heq] at hw
        exact hw
    · exact Effect.refl m

private theorem makePipe_effect (hp : m.processes.get? q = some p) :
    Effect q m [] (m.makePipe q p).2 := by
  unfold makePipe
  dsimp only
  split
  · exact .refl m
  · rename_i p₁ h₁
    split
    · exact .refl m
    · rename_i p₂ h₂
      obtain ⟨-, -, rfl⟩ := allocate_eq_ok h₁
      obtain ⟨-, -, rfl⟩ := allocate_eq_ok h₂
      refine (Effect.storage (stores_setPipe m.pipes.next {})).after
        (.own hp ⟨rfl, rfl, rfl, fun h => h, ?_⟩)
      intro h hm
      have hnew : (({ m with pipes := m.pipes.set m.pipes.next {} } : Machine α)).Knows
          (.readEnd m.pipes.next) ∧
          (({ m with pipes := m.pipes.set m.pipes.next {} } : Machine α)).Knows
            (.writeEnd m.pipes.next) := by
        simp [Knows]
      rcases mem_values_set hm with hm | rfl
      · rcases mem_values_set hm with hm | rfl
        · exact .inl hm
        · exact .inr hnew.1
      · exact .inr hnew.2

private theorem duplicate_effect (hp : m.processes.get? q = some p) (source target : Fd) :
    Effect q m [] (m.duplicate q p source target).2 := by
  unfold duplicate
  split
  · exact .refl m
  · rename_i h hs
    split
    · exact .refl m
    · rw [modifyProcess_eq hp]
      refine .own hp ⟨rfl, rfl, rfl, fun h => h, fun h' hm => ?_⟩
      rcases mem_values_set hm with hm | rfl
      · exact .inl hm
      · exact .inl (Table.mem_values_iff.mpr ⟨source, hs⟩)

private theorem close_effect (fd : Fd) : Effect q m [] (m.close q fd) :=
  modifyProcess_effect fun _ => ⟨rfl, rfl, rfl, fun h => h, fun _ h => .inl (mem_values_erase h)⟩

private theorem openNode_effect (hp : m.processes.get? q = some p) (id : NodeId) (access : Access) :
    Effect q m [] (m.openNode q p id access).2 := by
  unfold openNode
  dsimp only
  split
  · exact .refl m
  · rename_i fd p₁ h₁
    obtain ⟨-, -, rfl⟩ := allocate_eq_ok h₁
    refine (Effect.storage (stores_setFile m.openFiles.next _)).after
      (.own hp (.setDescriptor ?_ fd))
    simp [Knows]

theorem pipeOfFifo_stores (id : NodeId) : Stores m (m.pipeOfFifo id).2 := by
  unfold pipeOfFifo
  split
  · refine ⟨rfl, rfl, rfl, rfl, fun _ h => knows_setPipe h _ _, fun id' number h => ?_⟩
    have h' : (m.fifos.set id m.pipes.next).get? id' = some number := h
    rw [Table.get?_set] at h'
    split at h'
    · cases h'
      exact .inr ⟨by simp [Knows], by simp [Knows]⟩
    · exact .inl h'
  · rename_i number _
    split
    · exact .refl m
    · cases h : m.pipes.get? number with
      | none =>
        rw [Table.modify_of_none h]
        exact .refl m
      | some pipe =>
        rw [Table.modify_of_get? h]
        exact stores_setPipe _ _

private theorem openFifo_within (hp : m.processes.get? q = some p) (id : NodeId) (reading : Bool) :
    (m.openFifo q p id reading).Keeps (Effect q m []) := by
  have hs := pipeOfFifo_stores (m := m) id
  unfold openFifo
  generalize m.pipeOfFifo id = r at hs ⊢
  obtain ⟨number, m₁⟩ := r
  have hp₁ : m₁.processes.get? q = some p := by
    rw [hs.processes]
    exact hp
  dsimp only
  split
  · exact .storage hs
  · rename_i fd p₁ h₁
    obtain ⟨-, -, rfl⟩ := allocate_eq_ok h₁
    refine (Effect.storage hs).after
      ((Effect.storage (stores_setPipe number _)).after (.own hp₁ ?_))
    refine ⟨rfl, rfl, rfl, fun h => h, fun h' hm => ?_⟩
    rcases mem_values_set hm with hm | rfl
    · exact .inl hm
    · refine .inr ?_
      cases reading <;> simp [Knows]

private theorem openPath_within (hp : m.processes.get? q = some p) (path : Bytes)
    (access : Access) : (m.openPath q p path access).Keeps (Effect q m []) := by
  unfold openPath
  split
  · split
    · exact modifyProcess_effect fun _ => ⟨rfl, rfl, rfl, fun h => h, fun _ h => .inl h⟩
    · exact trivial
  · split
    · exact .refl m
    · split
      · exact .refl m
      · split
        · exact .refl m
        · dsimp only
          split
          · exact .refl m
          · rename_i tree id _
            have hs : Stores m { m with tree := tree } := stores_tree tree
            split
            · exact (openFifo_within (m := { m with tree := tree }) hp id _).mono fun _ h =>
                (Effect.storage hs).after h
            · exact (Effect.storage hs).after
                (openNode_effect (m := { m with tree := tree }) hp id access)

private theorem deliver_effect (target : Pid) (number : Nat) :
    Effect q m [] (m.deliver target number).2 := by
  unfold deliver
  split
  · exact .refl m
  · rename_i p hp
    split
    · exact .refl m
    · split
      · exact .refl m
      · rename_i hlive
        split
        · exact .refl m
        · dsimp only
          rw [modifyProcess_eq hp]
          exact .stop hp
        · refine .finish _ hp ?_ (.inr ⟨number, rfl⟩)
          simp only [Bool.or_eq_true, not_or, Bool.not_eq_true, Option.isSome_eq_false_iff,
            Option.isNone_iff_eq_none] at hlive
          exact hlive.1.1

theorem collect_cases (m : Machine α) (q child : Pid) :
    (∃ c e, m.processes.get? child = some c ∧ c.parent = q ∧ c.ending? = some e ∧
      m.collect q child = (.ok (some e), { m with processes := m.processes.erase child })) ∨
    (∃ c, m.processes.get? child = some c ∧ c.parent = q ∧ c.ending? = none ∧
      m.collect q child = (.ok none, m)) ∨
    ((∀ c, m.processes.get? child = some c → c.parent ≠ q) ∧
      m.collect q child = (.error .noChild, m)) := by
  cases hc : m.processes.get? child with
  | none => exact .inr (.inr ⟨fun _ h => absurd h (by simp), by simp [collect, hc]⟩)
  | some c =>
    by_cases hparent : c.parent = q
    · cases hend : c.ending? with
      | none => exact .inr (.inl ⟨c, rfl, hparent, hend, by simp [collect, hc, hparent, hend]⟩)
      | some e => exact .inl ⟨c, e, rfl, hparent, hend, by simp [collect, hc, hparent, hend]⟩
    · refine .inr (.inr ⟨fun c' h => ?_, by simp [collect, hc, hparent]⟩)
      cases h
      exact hparent

def found (m : Machine α) (q child : Pid) : List Pid :=
  match (m.collect q child).1 with
  | .ok (some _) => [child]
  | _ => []

def taken (m : Machine α) (q : Pid) : Call → List Pid
  | .waitFor child | .awaitEnd child | .poll child => m.found q child
  | _ => []

private theorem awaitEnd_within (child : Pid) :
    (m.awaitEnd q child).Keeps (Effect q m (m.found q child)) := by
  unfold awaitEnd found
  rcases collect_cases m q child with ⟨c, e, hc, hparent, hend, heq⟩ | ⟨c, -, -, -, heq⟩ | ⟨-, heq⟩
  · rw [heq]
    exact Effect.collect hc hparent (by simp [hend])
  · rw [heq]
    exact trivial
  · rw [heq]
    exact Effect.refl m

private theorem waitFor_within (child : Pid) :
    (m.waitFor q child).Keeps (Effect q m (m.found q child)) := by
  have hc := awaitEnd_within (m := m) (q := q) child
  unfold waitFor
  generalize m.awaitEnd q child = r at hc ⊢
  cases r with
  | answer reply m' => cases reply <;> exact hc
  | settled m' => exact hc
  | blocked => exact trivial

private theorem poll_effect (child : Pid) : Effect q m (m.found q child) (m.poll q child).2 := by
  unfold poll found
  rcases collect_cases m q child with ⟨c, e, hc, hparent, hend, heq⟩ | ⟨c, -, -, -, heq⟩ | ⟨-, heq⟩
  · rw [heq]
    exact .collect hc hparent (by simp [hend])
  · rw [heq]
    exact .refl m
  · rw [heq]
    exact .refl m

private theorem replaceProgram_within (r : Except Errno Image) :
    (m.replaceProgram q p r).Keeps (Effect q m []) := by
  unfold replaceProgram
  split
  · exact .refl m
  · exact modifyProcess_effect fun _ => ⟨rfl, rfl, rfl, fun _ => rfl, fun _ h => .inl h⟩

private theorem change_effect (c : Change) : Effect q m [] (m.change q p c).2 := by
  have htree (r : Except Errno FileTree) : Effect q m [] (change.apply m r).2 := by
    unfold change.apply
    split
    · exact .refl m
    · exact .storage (stores_tree _)
  unfold change
  split
  · split
    · exact .refl m
    · split
      · exact .refl m
      · split
        · exact .refl m
        · exact modifyProcess_effect fun _ => ⟨rfl, rfl, rfl, fun h => h, fun _ h => .inl h⟩
  all_goals exact htree _

private theorem sleep_within (duration : Nat) : (m.sleep q p duration).Keeps (Effect q m []) := by
  unfold sleep
  split
  · exact modifyProcess_effect fun _ => ⟨rfl, rfl, rfl, fun h => h, fun _ h => .inl h⟩
  · split
    · exact modifyProcess_effect fun _ => ⟨rfl, rfl, rfl, fun h => h, fun _ h => .inl h⟩
    · exact trivial

/-- What a call of a process can do. -/
theorem answer_within (hp : m.processes.get? q = some p) (hlive : p.ending? = none) (c : Call) :
    (m.answer q p c).Keeps (Effect q m (m.taken q c)) := by
  have hown {f : Process α → Process α} (hf : ∀ p, Own m p (f p)) :
      Effect q m [] (m.modifyProcess q f) :=
    modifyProcess_effect hf
  cases c with
  | pipe => exact makePipe_effect hp
  | close fd => exact close_effect fd
  | duplicate source target => exact duplicate_effect hp source target
  | openFile path access => exact openPath_within hp path access
  | exec arguments => exact replaceProgram_within _
  | execFile path arguments => exact replaceProgram_within _
  | exit code => exact Effect.finish _ hp hlive (.inl rfl)
  | waitFor child => exact waitFor_within child
  | awaitEnd child => exact awaitEnd_within child
  | poll child => exact poll_effect child
  | write fd data => exact writeOn_within p data (writeOrDie_within hp hlive fd _)
  | seek fd offset => exact Effect.storage (seek_stores fd offset)
  | change c => exact change_effect c
  | provide environment => exact hown fun _ => ⟨rfl, rfl, rfl, fun h => h, fun _ h => .inl h⟩
  | withhold mask => exact hown fun _ => ⟨rfl, rfl, rfl, fun h => h, fun _ h => .inl h⟩
  | sleep duration => exact sleep_within duration
  | signal target number => exact deliver_effect target number
  | restore number => exact hown fun _ => ⟨rfl, rfl, rfl, fun h => h, fun _ h => .inl h⟩
  | note r => exact record_within p r
  | inspect _ | names _ | examine _ _ | workingDirectory | environment | self => exact Effect.refl m

private theorem transferStep_effect (hp : m.processes.get? q = some p)
    (hlive : p.ending? = none) (t : Transfer)
    (next : Transferred → Program α) {m' : Machine α} (h : m.transferStep q p t next = some m') :
    Effect q m [] m' := by
  have hw := writeOrDie_within hp hlive t.target t.next
  have hr := readFrom_stores (m := m) (p := p) t.source t.chunk
  unfold transferStep at h
  dsimp only at h
  split at h
  · split at h
    · cases h
    · rename_i heq
      cases h
      rw [heq] at hw
      exact hw
    · rename_i heq
      cases h
      rw [heq] at hw
      exact Effect.after hw (proceed_effect _)
    · rename_i heq
      cases h
      rw [heq] at hw
      exact Effect.after hw (proceed_effect _)
  · split at h
    · cases h
      exact proceed_effect _
    · split at h
      · cases h
      · rename_i heq
        cases h
        rw [heq] at hr
        exact .storage hr
      · rename_i heq
        cases h
        rw [heq] at hr
        exact (Effect.storage hr).after (proceed_effect _)
      · rename_i heq
        cases h
        rw [heq] at hr
        refine ((Effect.storage hr).after (modifyProcess_effect ?_)).after (proceed_effect _)
        exact fun _ => ⟨rfl, rfl, rfl, fun h => h, fun _ h => .inl h⟩

end

theorem isLive_iff {p : Process α} : p.isLive = true ↔ p.ending? = none ∧ p.stopped = false := by
  simp [Process.isLive]

def takenBy (m : Machine α) (q : Pid) : Program α → List Pid
  | .call c _ => m.taken q c
  | _ => []

theorem step_live {m m' : Machine α} {q : Pid} (h : m.step q = some m') :
    ∃ p, m.processes.get? q = some p ∧ p.ending? = none ∧ p.stopped = false := by
  unfold step at h
  split at h
  · cases h
  · rename_i p hp
    split at h
    · cases h
    · rename_i hlive
      exact ⟨p, hp, isLive_iff.mp (by simpa using hlive)⟩

theorem step_effect {m m' : Machine α} {q : Pid} {p : Process α} (hp : m.processes.get? q = some p)
    (h : m.step q = some m') : Effect q m (m.takenBy q p.program) m' := by
  obtain ⟨_, hp', hlive, -⟩ := step_live h
  cases hp.symm.trans hp'
  unfold step at h
  rw [hp] at h
  dsimp only at h
  split at h
  · cases h
  · split at h
    · cases h
    · rename_i c next hprogram
      have hw := answer_within hp hlive c
      rw [hprogram]
      split at h
      · cases h
      · rename_i heq
        cases h
        rw [heq] at hw
        exact hw
      · rename_i heq
        cases h
        rw [heq] at hw
        exact Effect.before hw (proceed_effect _)
    · rename_i child next hprogram
      cases h
      rw [hprogram]
      exact (Effect.fork child hp).after (proceed_effect _)
    · rename_i t next hprogram
      rw [hprogram]
      exact transferStep_effect hp hlive t next h
    · rename_i fd block next hprogram
      have hw := writeOrDie_within hp hlive fd block
      rw [hprogram]
      split at h
      · cases h
      · rename_i heq
        cases h
        rw [heq] at hw
        exact hw
      · rename_i heq
        cases h
        rw [heq] at hw
        exact Effect.after hw (proceed_effect _)
      · rename_i heq
        cases h
        rw [heq] at hw
        exact Effect.after hw (proceed_effect _)

end PipeShell.Machine
