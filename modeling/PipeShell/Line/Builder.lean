import PipeShell.Line.Reader

/-!
What a form of a line has asked for so far. The words are told one by one as they are read, and the
request grows with them. At the end it is the same as if the stages were put together from their
words at once.
-/

set_option autoImplicit false
set_option relaxedAutoImplicit false

namespace PipeShell.Line

/-- Collects what a form asks for. -/
structure Builder where
  action : Option Action := none
  deriving DecidableEq, Repr

/-- Changes the last one of the stages, if there is any. -/
def onLast (f : Stage → Stage) : List Stage → List Stage
  | [] => []
  | [stage] => [f stage]
  | stage :: next :: others => stage :: onLast f (next :: others)

@[simp] theorem onLast_concat (f : Stage → Stage) (before : List Stage) (stage : Stage) :
    onLast f (before ++ [stage]) = before ++ [f stage] := by
  induction before with
  | nil => rfl
  | cons first others ih =>
    cases others with
    | nil => rfl
    | cons second more => exact congrArg (first :: ·) ih

namespace Builder

def exit (_ : Builder) : Builder := ⟨some .exit⟩

/-- The directory is told later. -/
def changeDirectory (_ : Builder) : Builder := ⟨some (.changeDirectory "")⟩

def directory (b : Builder) (target : String) : Builder :=
  match b.action with
  | some (.changeDirectory _) => ⟨some (.changeDirectory target)⟩
  | _ => b

/-- The pipeline that is collected. Anything else gives way to one without stages. -/
def pipeline (b : Builder) : Pipeline :=
  match b.action with
  | some (.run pipeline) => pipeline
  | _ => ⟨[], false⟩

def onStages (b : Builder) (f : List Stage → List Stage) : Builder :=
  ⟨some (.run { b.pipeline with stages := f b.pipeline.stages })⟩

/-- The first argument of all opens the first stage. -/
def argument (b : Builder) (word : String) : Builder :=
  b.onStages fun stages =>
    onLast (fun stage => { stage with arguments := stage.arguments ++ [word] })
      (if stages.isEmpty then [{ arguments := [] }] else stages)

def inputFile (b : Builder) (file : String) : Builder :=
  b.onStages (List.modifyHead fun stage => { stage with inputFile := some file })

def outputFile (b : Builder) (file : String) : Builder :=
  b.onStages (onLast fun stage => { stage with outputFile := some file })

def bar (b : Builder) : Builder := b.onStages (· ++ [{ arguments := [] }])

def background (b : Builder) : Builder := ⟨some (.run { b.pipeline with background := true })⟩

/-- What is asked for in the end. -/
def finish (b : Builder) : Action := b.action.getD .nothing

/-! ### Stages that are put together word by word -/

/-- The words of a further command, behind its bar. -/
def command (b : Builder) (words : List String) : Builder := words.foldl argument b.bar

/-- A redirection that may be there. -/
def redirect (file : Builder → String → Builder) (b : Builder) : Option String → Builder
  | none => b
  | some text => file b text

/-- Stages are collected. -/
def ofStages (stages : List Stage) : Builder := ⟨some (.run ⟨stages, false⟩)⟩

section

variable {before : List Stage} {stage : Stage}

theorem argument_ofStages (word : String) :
    (ofStages (before ++ [stage])).argument word =
      ofStages (before ++ [{ stage with arguments := stage.arguments ++ [word] }]) := by
  have hne : (before ++ [stage]).isEmpty = false := by simp
  simp [argument, onStages, pipeline, ofStages, hne]

theorem foldl_argument_ofStages (words : List String) :
    words.foldl argument (ofStages (before ++ [stage])) =
      ofStages (before ++ [{ stage with arguments := stage.arguments ++ words }]) := by
  induction words generalizing stage with
  | nil => rw [List.append_nil]; rfl
  | cons word words ih =>
    rw [List.foldl_cons, argument_ofStages, ih, List.append_assoc, List.singleton_append]

theorem command_ofStages (words : List String) :
    (ofStages before).command words = ofStages (before ++ [{ arguments := words }]) := by
  show words.foldl argument (ofStages (before ++ [{ arguments := [] }])) = _
  rw [foldl_argument_ofStages, List.nil_append]

theorem foldl_command_ofStages (others : List (List String)) :
    others.foldl command (ofStages before) =
      ofStages (before ++ others.map fun words => { arguments := words }) := by
  induction others generalizing before with
  | nil => rw [List.map_nil, List.append_nil]; rfl
  | cons words others ih =>
    rw [List.foldl_cons, command_ofStages, ih, List.append_assoc,
      List.singleton_append, List.map_cons]

end

theorem assemble_eq (first : List String) (others : List (List String)) (input : Option String) :
    assemble first others input none =
      { arguments := first, inputFile := input } ::
        others.map fun words => { arguments := words } := by
  induction others generalizing first input with
  | nil => rfl
  | cons second others ih => rw [assemble, ih, List.map_cons]

theorem onLast_assemble (first : List String) (others : List (List String))
    (input : Option String) (file : String) :
    onLast (fun stage => { stage with outputFile := some file })
      (assemble first others input none) =
      assemble first others input (some file) := by
  induction others generalizing first input with
  | nil => rfl
  | cons second others ih =>
    rw [assemble, assemble, ← ih second none]
    cases others <;> rfl

/-- Told word by word, the stages are those that are put together at once. -/
theorem redirect_foldl_command (word : String) (words : List String) (input : Option String)
    (others : List (List String)) (output : Option String) :
    redirect outputFile
        (others.foldl command (redirect inputFile
          ((word :: words).foldl argument {}) input)) output =
      ofStages (assemble (word :: words) others input output) := by
  have hfirst : (word :: words).foldl argument {} = ofStages [{ arguments := word :: words }] := by
    show words.foldl argument (ofStages ([] ++ [{ arguments := [word] }])) = _
    rw [foldl_argument_ofStages, List.nil_append, List.singleton_append]
  have hinput : redirect inputFile (ofStages [{ arguments := word :: words }]) input =
      ofStages [{ arguments := word :: words, inputFile := input }] := by
    cases input <;> rfl
  rw [hfirst, hinput, foldl_command_ofStages, List.singleton_append, ← assemble_eq]
  cases output with
  | none => rfl
  | some file => exact congrArg ofStages (onLast_assemble _ others input file)

end Builder

end PipeShell.Line
