import PipeShell.Proofs.System.Runs

/-!
What a process finds after a step, call by call, for the calls that the interpreter and the stages
of its pipelines make before a program is loaded.
-/

set_option autoImplicit false
set_option relaxedAutoImplicit false

namespace PipeShell.Machine

variable {α : Type}

def update (m : Machine α) (pid : Pid) (p : Process α) : Machine α :=
  { m with processes := m.processes.set pid p }

@[simp] theorem get?_update_same (m : Machine α) (pid : Pid) (p : Process α) :
    (m.update pid p).processes.get? pid = some p := Table.get?_set_same _ _ _

theorem get?_update_of_ne (m : Machine α) {pid other : Pid} (p : Process α) (h : other ≠ pid) :
    (m.update pid p).processes.get? other = m.processes.get? other := Table.get?_set_of_ne _ _ h

theorem update_self {m : Machine α} {pid : Pid} {p : Process α}
    (h : m.processes.get? pid = some p) : m.update pid p = m := by
  simp only [update, Table.set_self h]

theorem modifyProcess_eq_update {m : Machine α} {pid : Pid} {p : Process α}
    (h : m.processes.get? pid = some p) (f : Process α → Process α) :
    m.modifyProcess pid f = m.update pid (f p) := modifyProcess_eq h f

theorem proceed_eq {m : Machine α} {pid : Pid} {p : Process α} (h : m.processes.get? pid = some p)
    (program : Program α) : m.proceed pid program = m.update pid { p with program := program } :=
  modifyProcess_eq h _

theorem proceed_update (m : Machine α) (pid : Pid) (p : Process α) (program : Program α) :
    (m.update pid p).proceed pid program = m.update pid { p with program := program } := by
  rw [proceed_eq (get?_update_same m pid p)]
  simp only [update, Table.set_set]

section

variable {m : Machine α} {q : Pid} {p : Process α}

theorem step_call (hp : m.processes.get? q = some p) (hlive : p.isLive = true) {c : Call}
    {next : c.Reply → Program α} (hprogram : p.program = .call c next) :
    m.step q = match m.answer q p c with
      | .blocked => none
      | .settled m' => some m'
      | .answer reply m' => some (m'.proceed q (Program.resume c next reply)) := by
  cases h : m.answer q p c <;>
    simp only [step, hp, hlive, Bool.not_true, Bool.false_eq_true, if_false, hprogram, h]

theorem step_fork (hp : m.processes.get? q = some p) (hlive : p.isLive = true) {child : Program α}
    {next : Except Errno Pid → Program α} (hprogram : p.program = .fork child next) :
    m.step q = some ((m.fork q p child).2.proceed q (next (.ok m.nextPid))) := by
  simp only [step, hp, hlive, Bool.not_true, Bool.false_eq_true, if_false, hprogram, fork]

theorem resume_of_ne {c : Call} {next : c.Reply → Program α} {reply : c.Reply}
    (h : c.isInterrupted reply = false) : Program.resume c next reply = next reply := by
  simp [Program.resume, h]

theorem step_close (hp : m.processes.get? q = some p) (hlive : p.isLive = true) {fd : Fd}
    {next : Unit → Program α} (hprogram : p.program = .call (.close fd) next) :
    m.step q = some (m.update q { p with
      descriptors := p.descriptors.erase fd, program := next () }) := by
  rw [step_call hp hlive hprogram]
  simp only [answer, close, modifyProcess_eq_update hp, proceed_update]
  rfl

theorem step_duplicate (hp : m.processes.get? q = some p) (hlive : p.isLive = true)
    {source target : Fd} {next : Except Errno Unit → Program α}
    (hprogram : p.program = .call (.duplicate source target) next) :
    (∃ h, p.descriptors.get? source = some h ∧ target < p.limit ∧
      m.step q = some (m.update q
        { p with descriptors := p.descriptors.set target h, program := next (.ok ()) })) ∨
    ((p.descriptors.get? source = none ∨ p.limit ≤ target) ∧
      m.step q = some (m.update q { p with program := next (.error .badDescriptor) })) := by
  rw [step_call hp hlive hprogram]
  simp only [answer, duplicate]
  cases hs : p.descriptors.get? source with
  | none =>
    refine .inr ⟨.inl rfl, ?_⟩
    simp only [proceed_eq hp]
    rfl
  | some h =>
    by_cases ht : p.limit ≤ target
    · refine .inr ⟨.inr ht, ?_⟩
      simp only [if_pos ht, proceed_eq hp]
      rfl
    · refine .inl ⟨h, rfl, Nat.lt_of_not_le ht, ?_⟩
      simp only [if_neg ht, modifyProcess_eq_update hp, proceed_update]
      rfl

def withPipe (m : Machine α) (q : Pid) (p : Process α) (readFd writeFd : Fd) : Machine α :=
  ({ m with pipes := m.pipes.set m.pipes.next {} } : Machine α).update q
    { p with
      descriptors :=
        (p.descriptors.set readFd (.readEnd m.pipes.next)).set writeFd (.writeEnd m.pipes.next) }

theorem get?_withPipe {readFd writeFd : Fd} {n : Nat} {pipe : Pipe}
    (hn : m.pipes.get? n = some pipe) :
    (m.withPipe q p readFd writeFd).pipes.get? n = some pipe := by
  have hne : n ≠ m.pipes.next := by
    rintro rfl
    rw [Table.get?_next] at hn
    cases hn
  exact (Table.get?_set_of_ne _ _ hne).trans hn

theorem makePipe_cases (m : Machine α) (q : Pid) (p : Process α) :
    (∃ readFd writeFd, p.descriptors.get? readFd = none ∧ p.descriptors.get? writeFd = none ∧
      readFd ≠ writeFd ∧ m.makePipe q p = (.ok (readFd, writeFd), m.withPipe q p readFd writeFd)) ∨
    m.makePipe q p = (.error .tooManyOpen, m) := by
  unfold makePipe
  dsimp only
  cases h₁ : p.descriptors.lowest? p.limit with
  | none => exact .inr (by simp only [Process.allocate, h₁])
  | some readFd =>
    have hread := Table.lowest?_eq_some h₁
    cases h₂ : (p.descriptors.set readFd (.readEnd m.pipes.next)).lowest? p.limit with
    | none => exact .inr (by simp only [Process.allocate, h₁, h₂])
    | some writeFd =>
      have hwrite := (Table.lowest?_eq_some h₂).2
      have hne : writeFd ≠ readFd := by
        rintro rfl
        simp at hwrite
      rw [Table.get?_set_of_ne _ _ hne] at hwrite
      exact .inl ⟨readFd, writeFd, hread.2, hwrite, hne.symm,
        by simp only [Process.allocate, h₁, h₂]; rfl⟩

theorem step_pipe (hp : m.processes.get? q = some p) (hlive : p.isLive = true)
    {next : Except Errno (Fd × Fd) → Program α} (hprogram : p.program = .call .pipe next) :
    (∃ readFd writeFd, p.descriptors.get? readFd = none ∧ p.descriptors.get? writeFd = none ∧
      readFd ≠ writeFd ∧ (m.makePipe q p).1 = .ok (readFd, writeFd) ∧ m.step q =
        some (m.withPipe q { p with program := next (.ok (readFd, writeFd)) } readFd writeFd)) ∨
    ((m.makePipe q p).1 = .error .tooManyOpen ∧
      m.step q = some (m.update q { p with program := next (.error .tooManyOpen) })) := by
  rw [step_call hp hlive hprogram]
  simp only [answer]
  rcases makePipe_cases m q p with ⟨readFd, writeFd, hr, hw, hne, heq⟩ | heq
  · refine .inl ⟨readFd, writeFd, hr, hw, hne, by rw [heq], ?_⟩
    rw [heq]
    simp only [withPipe, proceed_update]
    rfl
  · refine .inr ⟨by rw [heq], ?_⟩
    rw [heq]
    simp only [proceed_eq hp]
    rfl

theorem step_exit (hp : m.processes.get? q = some p) (hlive : p.isLive = true) {code : UInt8}
    {next : Empty → Program α} (hprogram : p.program = .call (.exit code) next) :
    m.step q = some (m.finish q (.exited code)) := by
  rw [step_call hp hlive hprogram]
  simp only [answer]

theorem step_exec (hp : m.processes.get? q = some p)
    (hlive : p.isLive = true) {arguments : List Bytes}
    {next : Errno → Program α} (hprogram : p.program = .call (.exec arguments) next) :
    (∃ e, m.step q = some (m.update q { p with program := next e })) ∨
    (∃ program, m.step q = some (m.update q { p with program := program, loaded := true })) := by
  rw [step_call hp hlive hprogram]
  simp only [answer, replaceProgram]
  cases Image.search (m.loader p) p.searchPath arguments with
  | error e =>
    refine .inl ⟨e, ?_⟩
    simp only [proceed_eq hp]
    rfl
  | ok image =>
    simp only [modifyProcess_eq_update hp]
    exact .inr ⟨_, rfl⟩

theorem report_not_interrupted (child : Pid) (e : Ending) :
    (Call.waitFor child).isInterrupted (e.report child) = false := by
  cases e with
  | exited code => rfl
  | killed number =>
    simp only [Ending.report]
    split <;> rfl

/-- A machine on which a child is gone, and the process that has collected it goes on. -/
def withoutChild (m : Machine α) (q : Pid) (p : Process α) (child : Pid) : Machine α :=
  ({ m with processes := m.processes.erase child } : Machine α).update q p

theorem get?_withoutChild_same {child : Pid} (hne : child ≠ q) :
    (m.withoutChild q p child).processes.get? child = none := by
  rw [withoutChild, get?_update_of_ne _ _ hne]
  exact Table.get?_erase_same _ _

theorem get?_withoutChild_of_ne {child r : Pid} (hr : r ≠ q) (hr' : r ≠ child) :
    (m.withoutChild q p child).processes.get? r = m.processes.get? r := by
  rw [withoutChild, get?_update_of_ne _ _ hr]
  exact Table.get?_erase_of_ne _ hr'

private theorem proceed_collected (hp : m.processes.get? q = some p) (hlive : p.isLive = true)
    {child : Pid} {c : Process α} {e : Ending} (hc : m.processes.get? child = some c)
    (hend : c.ending? = some e) (program : Program α) :
    ({ m with processes := m.processes.erase child } : Machine α).proceed q program =
      m.withoutChild q { p with program := program } child := by
  have hne : q ≠ child := by
    rintro rfl
    cases hp.symm.trans hc
    exact absurd ((isLive_iff.mp hlive).1.symm.trans hend) (by simp)
  exact proceed_eq ((Table.get?_erase_of_ne _ hne).trans hp) program

theorem step_waitFor (hp : m.processes.get? q = some p) (hlive : p.isLive = true) {child : Pid}
    {next : Except Errno WaitStatus → Program α}
    (hprogram : p.program = .call (.waitFor child) next) :
    (∃ c e, m.processes.get? child = some c ∧ c.parent = q ∧ c.ending? = some e ∧
      (m.collect q child).1 = .ok (some e) ∧
      m.step q = some (m.withoutChild q { p with program := next (e.report child) } child)) ∨
    (∃ c, m.processes.get? child = some c ∧ c.parent = q ∧ c.ending? = none ∧ m.step q = none) ∨
    ((∀ c, m.processes.get? child = some c → c.parent ≠ q) ∧
      (m.collect q child).1 = .error .noChild ∧
      m.step q = some (m.update q { p with program := next (.error .noChild) })) := by
  rw [step_call hp hlive hprogram]
  simp only [answer, waitFor, awaitEnd]
  rcases collect_cases m q child with ⟨c, e, hc, hparent, hend, heq⟩ | ⟨c, hc, hparent,
    hend, heq⟩ | ⟨hc, heq⟩
  · refine .inl ⟨c, e, hc, hparent, hend, by rw [heq], ?_⟩
    rw [heq]
    simp only [proceed_collected hp hlive hc hend, resume_of_ne (report_not_interrupted child e)]
  · refine .inr (.inl ⟨c, hc, hparent, hend, ?_⟩)
    rw [heq]
  · refine .inr (.inr ⟨hc, by rw [heq], ?_⟩)
    rw [heq]
    simp only [proceed_eq hp]
    rfl

theorem step_poll (hp : m.processes.get? q = some p) (hlive : p.isLive = true) {child : Pid}
    {next : Except Errno WaitStatus → Program α} (hprogram : p.program = .call (.poll child) next) :
    (∃ c e, m.processes.get? child = some c ∧ c.parent = q ∧ c.ending? = some e ∧
      m.step q = some (m.withoutChild q { p with program := next (e.report child) } child)) ∨
    ∃ reply, (reply = .ok .stillAlive ∨ reply = .error .noChild) ∧
      m.step q = some (m.update q { p with program := next reply }) := by
  rw [step_call hp hlive hprogram]
  simp only [answer, poll]
  rcases collect_cases m q child with ⟨c, e, hc, hparent, hend, heq⟩ | ⟨c, -, -, -, heq⟩ | ⟨-, heq⟩
  · refine .inl ⟨c, e, hc, hparent, hend, ?_⟩
    rw [heq]
    exact congrArg some (proceed_collected hp hlive hc hend _)
  · refine .inr ⟨_, .inl rfl, ?_⟩
    rw [heq]
    simp only [proceed_eq hp]
    rfl
  · refine .inr ⟨_, .inr rfl, ?_⟩
    rw [heq]
    simp only [proceed_eq hp]
    rfl

theorem step_enter (hp : m.processes.get? q = some p) (hlive : p.isLive = true) {path : Bytes}
    {next : Except Errno Unit → Program α}
    (hprogram : p.program = .call (.change (.enter path)) next) :
    (∃ id, m.step q = some (m.update q { p with directory := id, program := next (.ok ()) })) ∨
    ∃ e, m.step q = some (m.update q { p with program := next (.error e) }) := by
  have hrefused (e : Errno) :
      some (m.proceed q (Program.resume (.change (.enter path)) next (.error e))) =
        some (m.update q { p with program := next (.error e) }) := congrArg some (proceed_eq hp _)
  rw [step_call hp hlive hprogram]
  simp only [answer, change]
  split
  · exact .inr ⟨_, hrefused _⟩
  · next id _ =>
    split
    · exact .inr ⟨_, hrefused _⟩
    · split
      · exact .inr ⟨_, hrefused _⟩
      · refine .inl ⟨id, ?_⟩
        simp only [modifyProcess_eq_update hp, proceed_update]
        rfl

private theorem writeTo_cases (fd : Fd) (data : Bytes) :
    m.writeTo p fd data = .blocked ∨
      ∃ reply m₁, Stores m m₁ ∧ m.writeTo p fd data = .answer reply m₁ := by
  have hw := writeTo_stores (m := m) (p := p) fd data
  cases heq : m.writeTo p fd data with
  | answer reply m₁ =>
    rw [heq] at hw
    exact .inr ⟨reply, m₁, hw, rfl⟩
  | blocked => exact .inl rfl
  | settled m₁ =>
    exfalso
    unfold writeTo at heq
    split at heq
    · cases heq
    · cases heq
    · split at heq
      · cases heq
      · split at heq
        · cases heq
        · dsimp only at heq
          split at heq <;> cases heq
    · split at heq
      · cases heq
      · split at heq
        · cases heq
        · split at heq <;> cases heq

private theorem writeOrDie_cases (m : Machine α) (q : Pid) (p : Process α)
    (fd : Fd) (data : Bytes) :
    m.writeOrDie q p fd data = .blocked ∨
      (∃ reply m₁, Stores m m₁ ∧ m.writeOrDie q p fd data = .answer reply m₁) ∨
      ∃ m₁, Stores m m₁ ∧ m.writeOrDie q p fd data = .settled
        (m₁.finish q (.killed Signal.pipe.number)) := by
  unfold writeOrDie
  rcases writeTo_cases (m := m) (p := p) fd data with heq | ⟨reply, m₁, hs, heq⟩
  · rw [heq]
    exact .inl rfl
  · rw [heq]
    by_cases hbroken : reply = .error .brokenPipe ∧ Signal.pipe.number ∉ p.ignored
    · obtain ⟨rfl, hignored⟩ := hbroken
      refine .inr (.inr ⟨m₁, hs, ?_⟩)
      simp only [if_neg hignored]
    · refine .inr (.inl ⟨reply, m₁, hs, ?_⟩)
      split
      · rename_i heq'
        cases heq'
        rw [if_pos (not_not.mp fun hn => hbroken ⟨rfl, hn⟩)]
      · rfl

private theorem writeOn_cases {m₁ : Machine α} (hp : m₁.processes.get? q = some p) (data : Bytes)
    (reply : Except Errno Nat) : ∃ count,
      writeOn q p data (.answer reply m₁) = .settled (m₁.update q { p with written := count }) ∨
      ∃ reply', writeOn q p data (.answer reply m₁) = .answer reply'
        (m₁.update q { p with written := count }) := by
  cases reply with
  | error e =>
    exact ⟨0, .inr ⟨.error e,
      by simp only [writeOn, writeOn.setWritten, modifyProcess_eq_update hp]⟩⟩
  | ok n =>
    by_cases hmore : p.written + n < data.length
    · refine ⟨p.written + n, .inl ?_⟩
      simp only [writeOn, writeOn.setWritten, if_pos hmore, modifyProcess_eq_update hp]
    · refine ⟨0, .inr ⟨.ok (), ?_⟩⟩
      simp only [writeOn, writeOn.setWritten, if_neg hmore, modifyProcess_eq_update hp]

theorem step_write (hp : m.processes.get? q = some p) (hlive : p.isLive = true)
    {fd : Fd} {data : Bytes} {next : Except Errno Unit → Program α}
    (hprogram : p.program = .call (.write fd data) next) {m' : Machine α} (h : m.step q = some m') :
    ∃ m₁, Stores m m₁ ∧ ((∃ count, m' = m₁.update q { p with written := count }) ∨
      (∃ count reply, m' = m₁.update q { p with written := count, program := next reply }) ∨
      m' = m₁.finish q (.killed Signal.pipe.number)) := by
  rw [step_call hp hlive hprogram] at h
  simp only [answer, writeAll] at h
  rcases writeOrDie_cases m q p fd (data.drop p.written) with heq | ⟨reply, m₁, hs,
    heq⟩ | ⟨m₁, hs, heq⟩
  · rw [heq] at h
    cases h
  · rw [heq] at h
    refine ⟨m₁, hs, ?_⟩
    obtain ⟨count, heq' | ⟨reply', heq'⟩⟩ := writeOn_cases (hs.processes ▸ hp) data reply
    · rw [heq'] at h
      exact .inl ⟨count, (Option.some.inj h).symm⟩
    · simp only [heq', proceed_update] at h
      exact .inr (.inl ⟨count, reply', (Option.some.inj h).symm⟩)
  · rw [heq] at h
    exact ⟨m₁, hs, .inr (.inr (Option.some.inj h).symm)⟩

private theorem record_cases (hp : m.processes.get? q = some p) (r : Log.Record) :
    m.record q p r = .blocked ∨
    ∃ m₁ count, Stores m m₁ ∧ (m.record q p r = .settled (m₁.update q { p with written := count }) ∨
      m.record q p r = .answer () (m₁.update q { p with written := count })) := by
  unfold record
  split
  · have hs : Stores m { m with journal := r :: m.journal } :=
      ⟨rfl, rfl, rfl, rfl, fun _ h => h, fun _ _ h => .inl h⟩
    exact .inr ⟨_, p.written, hs, .inr (congrArg _ (update_self (hs.processes ▸ hp)).symm)⟩
  · rename_i time _
    split
    · dsimp only
      rcases writeTo_cases (m := m) (p := p) Fd.complaints
        ((Bytes.ofString (r.terminalLine time)).drop p.written) with heq | ⟨reply, m₁, hs, heq⟩
      · rw [heq]
        exact .inl rfl
      · rw [heq]
        obtain ⟨count, heq' | ⟨reply', heq'⟩⟩ :=
          writeOn_cases (hs.processes ▸ hp) (Bytes.ofString (r.terminalLine time)) reply
        · rw [heq']
          exact .inr ⟨m₁, count, hs, .inl rfl⟩
        · rw [heq']
          exact .inr ⟨m₁, count, hs, .inr rfl⟩
    · exact .inr ⟨m, p.written, .refl m, .inr (congrArg _ (update_self hp).symm)⟩

theorem step_note (hp : m.processes.get? q = some p) (hlive : p.isLive = true) {r : Log.Record}
    {next : Unit → Program α} (hprogram : p.program = .call (.note r) next) {m' : Machine α}
    (h : m.step q = some m') :
    ∃ m₁ count, Stores m m₁ ∧ (m' = m₁.update q { p with written := count } ∨
      m' = m₁.update q { p with written := count, program := next () }) := by
  rw [step_call hp hlive hprogram] at h
  rcases record_cases hp r with heq | ⟨m₁, count, hs, heq | heq⟩
  · simp only [answer, heq] at h
    cases h
  · simp only [answer, heq] at h
    exact ⟨m₁, count, hs, .inl (Option.some.inj h).symm⟩
  · simp only [answer, heq, proceed_update] at h
    exact ⟨m₁, count, hs, .inr (Option.some.inj h).symm⟩

def HasPath (m : Machine α) : Handle → Prop
  | .file number => m.Knows (.file number)
  | .readEnd number
    | .writeEnd number => m.Knows (.readEnd number) ∧ ∃ id, m.fifos.get? id = some number

private theorem pipeOfFifo_mem (id : NodeId) :
    (m.pipeOfFifo id).2.fifos.get? id = some (m.pipeOfFifo id).1 := by
  unfold pipeOfFifo
  split
  · exact Table.get?_set_same _ _ _
  · split <;> assumption

private theorem openFifo_cases (id : NodeId) (reading : Bool) :
    ∃ m₁, Stores m m₁ ∧ ((∃ e, m.openFifo q p id reading = .answer (.error e) m₁) ∨
      ∃ fd handle seen, p.descriptors.get? fd = none ∧ m₁.HasPath handle ∧
        m.openFifo q p id reading = .settled (m₁.update q
          { p with
            descriptors := p.descriptors.set fd handle, rendezvous? := some ⟨fd, seen⟩ })) := by
  have hs := pipeOfFifo_stores (m := m) id
  have hmem := pipeOfFifo_mem (m := m) id
  unfold openFifo
  generalize m.pipeOfFifo id = r at hs hmem ⊢
  obtain ⟨number, m₁⟩ := r
  dsimp only
  split
  · rename_i e _
    exact ⟨m₁, hs, .inl ⟨e, rfl⟩⟩
  · rename_i fd p₁ h₁
    obtain ⟨hfree, -, rfl⟩ := allocate_eq_ok h₁
    refine ⟨_, hs.trans (stores_setPipe number _), .inr ⟨fd, _, _, hfree, ?_, rfl⟩⟩
    cases reading <;> exact ⟨by simp [Knows], id, hmem⟩

private theorem openNode_cases (id : NodeId) (access : Access) :
    ∃ m₁, Stores m m₁ ∧ ((∃ e, m.openNode q p id access = (.error e, m₁)) ∨
      ∃ fd handle, p.descriptors.get? fd = none ∧ m₁.HasPath handle ∧ m.openNode q p id access =
        (.ok fd, m₁.update q { p with descriptors := p.descriptors.set fd handle })) := by
  unfold openNode
  dsimp only
  split
  · rename_i e _
    exact ⟨m, .refl m, .inl ⟨e, rfl⟩⟩
  · rename_i fd p₁ h₁
    obtain ⟨hfree, -, rfl⟩ := allocate_eq_ok h₁
    refine ⟨_, stores_setFile m.openFiles.next _, .inr ⟨fd, _, hfree, ?_, rfl⟩⟩
    simp [HasPath, Knows]

theorem openPath_cases (hp : m.processes.get? q = some p) (path : Bytes) (access : Access) :
    (∃ r, p.rendezvous? = some r ∧ (m.openPath q p path access = .blocked ∨
      m.openPath q p path access =
        .answer (.ok r.fd) (m.update q { p with rendezvous? := none }))) ∨
    (p.rendezvous? = none ∧ ∃ m₁, Stores m m₁ ∧
      ((∃ e, m.openPath q p path access = .answer (.error e) m₁) ∨
      (∃ fd handle seen, p.descriptors.get? fd = none ∧ m₁.HasPath handle ∧
        m.openPath q p path access = .settled (m₁.update q
          { p with descriptors := p.descriptors.set fd handle, rendezvous? := some ⟨fd, seen⟩ })) ∨
      (∃ fd handle, p.descriptors.get? fd = none ∧ m₁.HasPath handle ∧
        m.openPath q p path access = .answer (.ok fd)
          (m₁.update q { p with descriptors := p.descriptors.set fd handle })))) := by
  unfold openPath
  split
  · rename_i r hr
    refine .inl ⟨r, hr, ?_⟩
    split
    · exact .inr (by rw [modifyProcess_eq_update hp])
    · exact .inl rfl
  · rename_i hr
    refine .inr ⟨hr, ?_⟩
    split
    · exact ⟨m, .refl m, .inl ⟨_, rfl⟩⟩
    · split
      · exact ⟨m, .refl m, .inl ⟨_, rfl⟩⟩
      · split
        · exact ⟨m, .refl m, .inl ⟨_, rfl⟩⟩
        · dsimp only
          split
          · exact ⟨m, .refl m, .inl ⟨_, rfl⟩⟩
          · rename_i tree id _
            have htree : Stores m { m with tree := tree } := stores_tree tree
            split
            · obtain ⟨m₁, hs, hrest⟩ := openFifo_cases (m := { m with tree := tree }) (q := q)
                (p := p) id (decide (access = .read))
              refine ⟨m₁, htree.trans hs, ?_⟩
              rcases hrest with ⟨e, heq⟩ | ⟨fd, handle, seen, hfree, hpath, heq⟩
              · exact .inl ⟨e, heq⟩
              · exact .inr (.inl ⟨fd, handle, seen, hfree, hpath, heq⟩)
            · obtain ⟨m₁, hs, hrest⟩ :=
                openNode_cases (m := { m with tree := tree }) (q := q) (p := p) id access
              refine ⟨m₁, htree.trans hs, ?_⟩
              rcases hrest with ⟨e, heq⟩ | ⟨fd, handle, hfree, hpath, heq⟩
              · exact .inl ⟨e, by rw [heq]⟩
              · exact .inr (.inr ⟨fd, handle, hfree, hpath, by rw [heq]⟩)

theorem step_openFile (hp : m.processes.get? q = some p)
    (hlive : p.isLive = true) {path : Bytes} {access : Access}
    {next : Except Errno Fd → Program α} (hprogram : p.program = .call (.openFile path access) next)
    {m' : Machine α} (h : m.step q = some m') :
    (∃ r, p.rendezvous? = some r ∧
      m' = m.update q { p with rendezvous? := none, program := next (.ok r.fd) } ∧
      m.deeds q p p.program = (p.descriptors.get? r.fd).toList.map (.opened path access)) ∨
    (p.rendezvous? = none ∧ ∃ m₁, Stores m m₁ ∧
      ((∃ e, m' = m₁.update q { p with program := next (.error e) } ∧ m.deeds q p p.program = []) ∨
      (∃ fd handle seen, p.descriptors.get? fd = none ∧ m₁.HasPath handle ∧
        m' = m₁.update q { p with
          descriptors := p.descriptors.set fd handle, rendezvous? := some ⟨fd, seen⟩ } ∧
        m.deeds q p p.program = []) ∨
      (∃ fd handle, p.descriptors.get? fd = none ∧ m₁.HasPath handle ∧
        m' = m₁.update q { p with
          descriptors := p.descriptors.set fd handle, program := next (.ok fd) } ∧
        m.deeds q p p.program = [.opened path access handle]))) := by
  have hdeeds : m.deeds q p p.program =
      m.deeds q p (.call (.openFile path access) next) := by rw [hprogram]
  rw [step_call hp hlive hprogram] at h
  rw [hdeeds]
  simp only [answer, deeds] at h ⊢
  rcases openPath_cases hp path access with ⟨r, hr, heq | heq⟩ | ⟨hr, m₁, hs, ⟨e, heq⟩ |
    ⟨fd, handle, seen, hfree, hpath, heq⟩ | ⟨fd, handle, hfree, hpath, heq⟩⟩
  · rw [heq] at h
    cases h
  · rw [heq] at h ⊢
    simp only [proceed_update, get?_update_same] at h ⊢
    exact .inl ⟨r, hr, (Option.some.inj h).symm, rfl⟩
  · rw [heq] at h ⊢
    simp only [proceed_eq (show m₁.processes.get? q = some p from hs.processes ▸ hp)] at h
    exact .inr ⟨hr, m₁, hs, .inl ⟨e, (Option.some.inj h).symm, rfl⟩⟩
  · rw [heq] at h ⊢
    exact .inr ⟨hr, m₁, hs,
      .inr (.inl ⟨fd, handle, seen, hfree, hpath, (Option.some.inj h).symm, rfl⟩)⟩
  · rw [heq] at h ⊢
    simp only [proceed_update, get?_update_same] at h ⊢
    refine .inr ⟨hr, m₁, hs, .inr (.inr ⟨fd, handle, hfree, hpath, (Option.some.inj h).symm, ?_⟩)⟩
    simp

/-- A wait that is interrupted is simply begun again, while a look at a child comes back without an
answer. -/
theorem interrupt_cases {m' : Machine α} (h : m.interrupt q = some m') :
    ∃ p, m.processes.get? q = some p ∧ p.isLive = true ∧
      ((∃ child next, p.program = .call (.waitFor child) next ∧ m' = m.update q p) ∨
      ∃ child next, p.program = .call (.poll child) next ∧
        m' = m.update q { p with program := next (.error .interrupted) }) := by
  unfold interrupt at h
  split at h
  · cases h
  · rename_i p hp
    split at h
    · cases h
    · rename_i hlive
      refine ⟨p, hp, by simpa using hlive, ?_⟩
      split at h
      · rename_i c next hprogram
        cases c with
        | waitFor child =>
          cases h
          refine .inl ⟨child, next, hprogram, (proceed_eq hp _).trans ?_⟩
          simp only [Program.resume, Call.isInterrupted, if_true, ← hprogram]
        | poll child =>
          cases h
          exact .inr ⟨child, next, hprogram, proceed_eq hp _⟩
        | _ => cases h
      · cases h

end

end PipeShell.Machine
