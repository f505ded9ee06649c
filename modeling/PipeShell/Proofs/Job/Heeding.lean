import PipeShell.Proofs.Job.Measures
import PipeShell.Proofs.Job.Staffing
import PipeShell.Proofs.Line.Column

/-!
What a line asks for is heeded. A pipeline that was read gives no reason for a failure of its own:
there are stages with programs, no word has a zero byte in it, and no file stands where a pipe would
be used in its place.
-/

set_option autoImplicit false
set_option relaxedAutoImplicit false

namespace PipeShell

open Grammar

variable {α : Type}

/-! ### Words without zero bytes -/

theorem zero_not_mem_of_part {word : String} (h : Part word.toList) :
    '\x00' ∉ word.toList ∧ (0 : UInt8) ∉ Bytes.ofString word := by
  have hzero : '\x00' ∉ word.toList := by
    intro hmem
    have := h.2 _ hmem
    exact absurd this (by decide)
  refine ⟨hzero, fun hmem => ?_⟩
  have hascii : ∀ c ∈ word.toList, Bytes.Ascii c :=
    fun c hc => Line.ascii_of_partCharacter (h.2 c hc)
  rw [← String.ofList_toList (s := word), Bytes.ofString_of_ascii hascii] at hmem
  obtain ⟨c, hc, hbyte⟩ := List.mem_map.mp hmem
  have hnull : Bytes.Ascii '\x00' := by decide
  have heq : c = '\x00' := Bytes.eq_of_ascii (hascii c hc) hnull hbyte
  exact hzero (heq ▸ hc)

theorem Stage.zeroByte?_of_parts {stage : Stage}
    (h : ∀ argument ∈ stage.arguments, Part argument.toList) : stage.zeroByte? = none := by
  refine List.findSome?_eq_none_iff.mpr fun argument hmem => ?_
  exact List.idxOf?_eq_none_iff.mpr (zero_not_mem_of_part (h argument hmem)).2

/-! ### The preparation of a stage -/

def StageFault.OfSystem : StageFault → Prop
  | emptyCommand => False
  | zeroByteIn _ => False
  | _ => True

def Call.Connects : Call → Prop
  | duplicate .. => True
  | openFile .. => True
  | close _ => True
  | _ => False

/-- The calls of a stage up to its first failure. -/
def Call.Prepares (c : Call) : Prop := c.Connects ∨ ∃ arguments, c = .exec arguments

def InputFailed (past : List (Exchange α)) : Prop :=
  (∃ path reason, .called (.openFile path .read) (some (.error reason)) ∈ past) ∨
    ∃ source reason, .called (.duplicate source Fd.input) (some (.error reason)) ∈ past

namespace Stage

open Program

variable {stage : Stage} {previous next : Option Link}

theorem close_connects (fd : Fd) : (act (.close fd)).Confined Call.Connects False fun _ => True :=
  confined_act trivial trivial

theorem release_connects (link : Link) : link.release.Confined Call.Connects False fun _ => True :=
  link.release_confined (fun _ => trivial)

theorem releaseAny_connects (link? : Option Link) :
    (Link.releaseAny link?).Confined Call.Connects False fun _ => True :=
  Link.releaseAny_confined (fun _ => trivial) link?

theorem Connector.connects {x : Option Link → Step} {source : Link → Fd} {target : Fd}
    {file? : Option String} {access : Access} (hx : Connector x source target file? access)
    (link? : Option Link) :
    (x link?).Confined Call.Connects False
      fun r => (∀ file ∈ file?, '\x00' ∉ file.toList) → ∀ fault, r = .error fault →
        fault.OfSystem := by
  have hredirected (reply : Except Errno Unit) (fault : StageFault)
      (hfault : reply.mapError .notRedirected = .error fault) : fault.OfSystem := by
    cases reply with
    | ok => cases hfault
    | error reason =>
      cases hfault
      trivial
  refine confined_of_honours (hx.honours ?_ ?_ ?_)
  · rintro link rfl
    refine honours_redirect trivial fun reply _ _ => ?_
    exact honours_release trivial fun _ _ => honours_act trivial fun _ _ _ _ => hredirected reply
  · rintro rfl file rfl
    refine honours_attachFile (fun hzero hwords => absurd hzero (hwords file rfl))
      (fun _ => trivial) ?_ ?_
    · rintro - reason _ - - fault hfault
      cases hfault
      trivial
    · intro _ fd _ _
      refine honours_redirect trivial fun reply _ _ => ?_
      exact honours_act trivial fun _ _ _ _ => hredirected reply
  · intro _ _ _ fault hfault
    cases hfault

theorem runProgram_prepares (stage : Stage) :
    stage.runProgram.Confined Call.Prepares False fun fault => stage.arguments ≠ [] →
      fault.OfSystem := by
  refine confined_of_honours
    (honours_runProgram (fun hnil hcommand => absurd hnil hcommand) fun name rest _ => ?_)
  exact ⟨.inr ⟨_, rfl⟩, fun reason _ _ _ => by cases reason <;> trivial⟩

theorem firstFault_prepares (stage : Stage) (previous next : Option Link) :
    (stage.firstFault previous next).Confined Call.Prepares False fun fault =>
      stage.arguments ≠ [] → (∀ file ∈ stage.inputFile, '\x00' ∉ file.toList) →
      (∀ file ∈ stage.outputFile, '\x00' ∉ file.toList) →
        fault.OfSystem := by
  have hinput := (connectInput_connector stage).connects previous
  have houtput := (connectOutput_connector stage).connects next
  refine .bind (hinput.mono (fun _ => .inl) id fun r hr => ?_)
  cases r with
  | error fault =>
    exact .bind ((releaseAny_connects next).mono (fun _ => .inl) id fun _ _ _ hinput _ =>
      hr hinput fault rfl)
  | ok =>
    refine .bind (houtput.mono (fun _ => .inl) id fun r hr => ?_)
    cases r with
    | error fault => exact fun _ _ houtput => hr houtput fault rfl
    | ok => exact stage.runProgram_prepares.imp fun _ hfault hcommand _ _ => hfault hcommand

theorem redirect_fails {source target : Fd} {cleanUp : Program Unit}
    {past : List (Exchange (Except StageFault Unit))}
    {fault : StageFault} (hclean : cleanUp.Confined Call.Connects False fun _ => True)
    (h : Course (redirect source target cleanUp) past (some (.error fault))) :
    ∃ reason, .called (.duplicate source target) (some (.error reason)) ∈ past := by
  rw [← bind_done (redirect source target cleanUp)] at h
  rcases course_redirect h with ⟨hnone, -⟩ | ⟨reply, rest, rfl, hrest⟩
  · cases hnone
  · cases reply with
    | error reason => exact ⟨reason, List.mem_cons_self⟩
    | ok =>
      have hok : (cleanUp >>= fun _ => (.done (.ok ()) : Program (Except StageFault Unit))).Confined
          Call.Connects False (· = .ok ()) := .bind (hclean.imp fun _ _ => rfl)
      cases (hrest.of_confined hok).2.2 _ rfl

theorem connectInput_fails {past : List (Exchange (Except StageFault Unit))} {fault : StageFault}
    (hinput : ∀ file ∈ stage.inputFile, '\x00' ∉ file.toList)
    (h : Course (stage.connectInput previous) past (some (.error fault))) : InputFailed past := by
  have hx := connectInput_connector stage
  cases previous with
  | some link =>
    rw [hx.link] at h
    obtain ⟨reason, hmem⟩ := redirect_fails (release_connects link) h
    exact .inr ⟨_, reason, hmem⟩
  | none =>
    cases hfile : stage.inputFile with
    | none =>
      rw [hx.neither hfile] at h
      cases h
    | some file =>
      rw [hx.file file hfile, ← bind_done (attachFile file .read Fd.input)] at h
      rcases course_attachFile (hinput file hfile) h with ⟨hnone, -⟩ | ⟨reply, rest, rfl, hrest⟩
      · cases hnone
      · cases reply with
        | error reason => exact .inl ⟨_, reason, List.mem_cons_self⟩
        | ok fd =>
          dsimp only at hrest
          rw [bind_done] at hrest
          obtain ⟨reason, hmem⟩ := redirect_fails (close_connects fd) hrest
          exact .inr ⟨_, reason, List.mem_cons_of_mem _ hmem⟩

/-- The exchanges begin with the attempt to open a file, and what was opened becomes the standard
descriptor next. -/
def Attaches (path : Bytes) (access : Access) (target : Fd) (past : List (Exchange α)) : Prop :=
  ∃ reply? rest, past = .called (.openFile path access) reply? :: rest ∧ ∀ fd,
    reply? = some (.ok fd) → ∃ reply?' more, rest = .called (.duplicate fd target) reply?' :: more

/-- The file is to be opened next, or it was and nothing has happened since. -/
def IsAttaching (path : Bytes) (access : Access) (past : List (Exchange α)) : Prop :=
  past = [] ∨ ∃ fd, past = [.called (.openFile path access) (some (.ok fd))]

/-- How a stage heeds what stands in it, with a pipe before it and a pipe behind it if there are
any. -/
structure Heeded (stage : Stage) (previous next : Option Link) : Prop where
  /-- It names a program, and its words can be handed over to the system. -/
  command : ∀ past fault, Course (stage.firstFault previous next) past (some fault) →
    fault ≠ .emptyCommand ∧ ∀ file, fault ≠ .zeroByteIn file
  /-- The input file is opened before anything else and becomes the standard input, and no pipe
  takes its place. -/
  input : ∀ file, stage.inputFile = some file → previous = none ∧
    ∀ past result, Course (stage.firstFault previous next) past result →
      IsAttaching (Bytes.ofString file) .read past ∧ result = none ∨
      Attaches (Bytes.ofString file) .read Fd.input past
  /-- The output file is opened before the program runs and becomes the standard output, and no pipe
  takes its place. Also a stage that fails has tried to open it, unless it could not even connect
  its input. -/
  output : ∀ file, stage.outputFile = some file → next = none ∧
    ∀ past result, Course (stage.firstFault previous next) past result →
      (result ≠ none ∨ ∃ arguments reply?, .called (.exec arguments) reply? ∈ past) →
      InputFailed past ∨ ∃ before after, past = before ++ after ∧
        Attaches (Bytes.ofString file) (.replace 0o644) Fd.output after

theorem attaches_of_course {file : String} {access : Access} {target : Fd}
    {f : Except StageFault Unit → Program α} {past : List (Exchange α)} {result : Option α}
    (hzero : '\x00' ∉ file.toList) (h : Course (attachFile file access target >>= f) past result) :
    IsAttaching (Bytes.ofString file) access past ∧ result = none ∨
      Attaches (Bytes.ofString file) access target past := by
  rcases course_attachFile hzero h with ⟨rfl, rfl | rfl⟩ | ⟨reply, rest, rfl, hrest⟩
  · exact .inl ⟨.inl rfl, rfl⟩
  · exact .inr ⟨none, [], rfl, fun fd hfd => by cases hfd⟩
  · cases reply with
    | error reason => exact .inr ⟨_, rest, rfl, fun fd hfd => by cases hfd⟩
    | ok fd =>
      rcases course_redirect hrest with ⟨rfl, rfl | rfl⟩ | ⟨reply, more, rfl, -⟩
      · exact .inl ⟨.inr ⟨fd, rfl⟩, rfl⟩
      · exact .inr ⟨_, _, rfl, fun _ hfd => by cases hfd; exact ⟨none, [], rfl⟩⟩
      · exact .inr ⟨_, _, rfl, fun _ hfd => by cases hfd; exact ⟨some reply, more, rfl⟩⟩

theorem firstFault_input {file : String} (hinput : stage.inputFile = some file)
    (hzero : '\x00' ∉ file.toList) {past : List (Exchange StageFault)} {result : Option StageFault}
    (h : Course (stage.firstFault none next) past result) :
    IsAttaching (Bytes.ofString file) .read past ∧ result = none ∨
      Attaches (Bytes.ofString file) .read Fd.input past := by
  unfold firstFault at h
  rw [(connectInput_connector stage).file file hinput] at h
  exact attaches_of_course hzero h

theorem firstFault_output {file : String}
    (houtput : stage.outputFile = some file) (hzero : '\x00' ∉ file.toList)
    (hinput : ∀ file ∈ stage.inputFile, '\x00' ∉ file.toList) {past : List (Exchange StageFault)}
    {result : Option StageFault} (h : Course (stage.firstFault previous none) past result)
    (hfar : result ≠ none ∨ ∃ arguments reply?, .called (.exec arguments) reply? ∈ past) :
    InputFailed past ∨ ∃ before after, past = before ++ after ∧
      Attaches (Bytes.ofString file) (.replace 0o644) Fd.output after := by
  -- connecting the input runs no program
  have hnoexec {before : List (Exchange (Except StageFault Unit))}
      {r : Option (Except StageFault Unit)}
      {f : Except StageFault Unit → Program StageFault}
      (hcourse : Course (stage.connectInput previous) before r)
      {arguments : List Bytes} {reply? : Option (Call.exec arguments).Reply} :
      .called (.exec arguments) reply? ∉ before.map (Exchange.andThen f) := by
    intro hmem
    exact (hcourse.of_confined ((connectInput_connector stage).connects previous)).1 _ _
      (called_mem_andThen.mp hmem)
  unfold firstFault at h
  rcases h.of_bind with ⟨before, rfl, hcourse, rfl⟩ | ⟨before, after, r, rfl, hcourse, hafter⟩
  · rcases hfar with hresult | ⟨arguments, reply?, hmem⟩
    · exact absurd rfl hresult
    · exact absurd hmem (hnoexec hcourse)
  · cases r with
    | error fault =>
      refine .inl ((connectInput_fails hinput hcourse).imp ?_ ?_)
      · rintro ⟨path, reason, hmem⟩
        exact ⟨path, reason, List.mem_append_left _ (called_mem_andThen.mpr hmem)⟩
      · rintro ⟨source, reason, hmem⟩
        exact ⟨source, reason, List.mem_append_left _ (called_mem_andThen.mpr hmem)⟩
    | ok =>
      dsimp only at hafter
      rw [(connectOutput_connector stage).file file houtput] at hafter
      rcases attaches_of_course hzero hafter with ⟨hattaching, rfl⟩ | hattaches
      · rcases hfar with hresult | ⟨arguments, reply?, hmem⟩
        · exact absurd rfl hresult
        · refine absurd ((List.mem_append.mp hmem).resolve_right fun hexec => ?_) (hnoexec hcourse)
          rcases hattaching with rfl | ⟨fd, rfl⟩
          · cases hexec
          · cases List.mem_singleton.mp hexec
      · exact .inr ⟨_, after, rfl, hattaches⟩

theorem heeded_of_parts (hcommand : stage.arguments ≠ [])
    (hwords : ∀ word ∈ stage.words, Part word.toList)
    (hprevious : stage.inputFile ≠ none → previous = none)
    (hnext : stage.outputFile ≠ none → next = none) :
    stage.Heeded previous next := by
  have hinput (file : String) (hfile : stage.inputFile = some file) : '\x00' ∉ file.toList :=
    (zero_not_mem_of_part (hwords file (by simp [words, hfile]))).1
  have houtput (file : String) (hfile : stage.outputFile = some file) : '\x00' ∉ file.toList :=
    (zero_not_mem_of_part (hwords file (by simp [words, hfile]))).1
  refine ⟨fun past fault hcourse => ?_, fun file hfile => ?_, fun file hfile => ?_⟩
  · have hsystem := (hcourse.of_confined (stage.firstFault_prepares previous next)).2.2 fault rfl
      hcommand hinput houtput
    refine ⟨?_, fun file => ?_⟩
    · rintro rfl
      exact hsystem
    · rintro rfl
      exact hsystem
  · obtain rfl := hprevious (by simp [hfile])
    exact ⟨rfl, fun past result hcourse => firstFault_input hfile (hinput file hfile) hcourse⟩
  · obtain rfl := hnext (by simp [hfile])
    exact ⟨rfl, fun past result hcourse =>
      firstFault_output hfile (houtput file hfile) hinput hcourse⟩

end Stage

namespace Pipeline

open Program

/-- A pipeline that was read has stages, however it goes on nothing goes wrong because of a zero
byte, and each child that is started for it heeds what stands in its stage. -/
theorem run_heeds_line (line : String) (p : Pipeline) (h : Line.read line = .ok (.run p)) :
    p.stages.isEmpty = false ∧
    ∀ (background : Background) (past : List (Exchange Outcome)) (result : Option Outcome),
      Course ((Action.run p).execute background) past result →
      (∀ outcome ∈ result, ∀ position, outcome.status ≠ .error (.zeroByte position)) ∧
      ∀ (k : Nat) (pid : Pid) (child : Program Outcome), (children past)[k]? = some (pid, child) →
        ∃ (stage : Stage) (previous next : Option Link), p.stages[k]? = some stage ∧
          child = stage.process previous next ∧ stage.Heeded previous next := by
  obtain ⟨hformed, hwords⟩ := Line.run_of_read h
  refine ⟨by simpa using hformed.nonempty, fun background past result hcourse => ?_⟩
  have hstrings : ∀ stage ∈ p.stages, stage.zeroByte? = none := fun stage hstage =>
    Stage.zeroByte?_of_parts fun argument hargument =>
      hwords stage hstage argument (List.mem_append_left _ (List.mem_append_left _ hargument))
  obtain ⟨hzero, hstaffed⟩ := execute_staffed hstrings hcourse
  refine ⟨hzero, fun k pid child hchild => ?_⟩
  obtain ⟨stage, previous, next, hstage, rfl, hfirst, hlast⟩ := hstaffed k pid child hchild
  have hmem := List.mem_of_getElem? hstage
  exact ⟨stage, previous,
    next, hstage, rfl, Stage.heeded_of_parts (hformed.named stage hmem) (hwords stage hmem)
    (fun hinput => hfirst (hformed.input k stage hstage hinput))
    (fun houtput => hlast (hformed.output k stage hstage houtput))⟩

private def copyThenCount : Pipeline :=
  ⟨[⟨["a"], some "in", none⟩, ⟨["b"], none, some "out"⟩], false⟩

/-- Both stages can be started, and the output file of the second one is not passed over. -/
theorem run_heeds_two_stages : Line.read "a < in | b > out" = .ok (.run copyThenCount) ∧
    (∃ past, Course ((Action.run copyThenCount).execute {}) past none ∧
      (children past).length = 2) ∧
    ∀ past result, Course ((Action.run copyThenCount).execute {}) past result →
      ∀ pid child, (children past)[1]? = some (pid, child) →
        ∃ previous, child = (Stage.mk ["b"] none (some "out")).process previous none := by
  have hread : Line.read "a < in | b > out" = .ok (.run copyThenCount) := by decide +kernel
  refine ⟨hread, ?_, fun past result hcourse pid child hchild => ?_⟩
  · constructor
    constructor
    · apply Course.answered (c := .note _) ()
      apply Course.answered (c := .pipe) (.ok (3, 4))
      apply Course.forked (.ok 7)
      apply Course.answered (c := .note _) ()
      apply Course.forked (.ok 8)
      exact .started _
    · rfl
  · obtain ⟨-, hchildren⟩ := (run_heeds_line _ _ hread).2 {} past result hcourse
    obtain ⟨stage, previous, next, hstage, rfl, hheeded⟩ := hchildren 1 pid child hchild
    obtain rfl := Option.some.inj hstage
    obtain ⟨rfl, -⟩ := hheeded.output "out" rfl
    exact ⟨previous, rfl⟩

end Pipeline

end PipeShell
