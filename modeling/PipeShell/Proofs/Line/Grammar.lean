import PipeShell.Line.Action

/-!
The grammar of the command language. Each symbol is a relation between a text and what the text
stands for. The symbols overlap: every line that leaves or changes the directory is a pipeline as
well, and blanks next to an optional part that is missing can be shared out in several ways. Nothing
here says how a line is read.
-/

set_option autoImplicit false
set_option relaxedAutoImplicit false

namespace PipeShell.Grammar

def Blanks (text : List Char) : Prop := ∀ c ∈ text, c = ' ' ∨ c = '\t'

def PartCharacter (c : Char) : Prop := c.isAlphanum ∨ c ∈ ['_', '-', '/', '.']

def Part (text : List Char) : Prop := text ≠ [] ∧ ∀ c ∈ text, PartCharacter c

instance (text : List Char) : Decidable (Blanks text) := List.decidableBAll _ text

instance (c : Char) : Decidable (PartCharacter c) := inferInstanceAs (Decidable (_ ∨ _))

instance (text : List Char) : Decidable (Part text) :=
  @instDecidableAnd _ _ _ (List.decidableBAll _ text)

inductive Arguments : List Char → List String → Prop
  | none : Arguments [] []
  | more {gap word text : List Char} {words : List String} :
      Blanks gap → gap ≠ [] → Part word → Arguments text words →
      Arguments (gap ++ word ++ text) (String.ofList word :: words)

inductive Command : List Char → List String → Prop
  | mk {word text : List Char} {words : List String} :
      Part word → Arguments text words → Command (word ++ text) (String.ofList word :: words)

/-- An optional redirection: a mark, blanks, and the part that names a file. -/
inductive Redirection (mark : Char) : List Char → Option String → Prop
  | absent : Redirection mark [] none
  | present {gap word : List Char} :
      Blanks gap → Part word → Redirection mark (mark :: (gap ++ word)) (some (String.ofList word))

/-- Commands, each with a bar before it and with blanks around it. -/
inductive FurtherCommands : List Char → List (List String) → Prop
  | none : FurtherCommands [] []
  | bar {before command after text : List Char} {words : List String}
      {others : List (List String)} :
      Blanks before → Command command words → Blanks after → FurtherCommands text others →
      FurtherCommands ('|' :: (before ++ command ++ after ++ text)) (words :: others)

inductive Ampersand : List Char → Bool → Prop
  | absent : Ampersand [] false
  | present : Ampersand ['&'] true

/-- The stages of commands in their order. Only the first one may have an input file, only the last
one an output file. -/
def stages (commands : List (List String)) (input output : Option String) : List Stage :=
  commands.mapIdx fun i words =>
    { arguments := words
      inputFile := if i = 0 then input else none
      outputFile := if i + 1 = commands.length then output else none }

/-- What a form of a line assigns to a text: an action, or nothing if the form does not derive the
text. -/
abbrev Alternative := List Char → Action → Prop

inductive ExitLine : Alternative
  | mk {before after : List Char} :
      Blanks before → Blanks after → ExitLine (before ++ ['e', 'x', 'i', 't'] ++ after) .exit

inductive DirectoryLine : Alternative
  | mk {before gap word after : List Char} :
      Blanks before → Blanks gap → gap ≠ [] → Part word → Blanks after →
      DirectoryLine (before ++ ['c', 'd'] ++ gap ++ word ++ after)
        (.changeDirectory (String.ofList word))

inductive PipelineLine : Alternative
  | mk {b₀ b₁ b₂ b₃ b₄ command source further target ampersand : List Char} {first : List String}
      {others : List (List String)} {input output : Option String} {background : Bool} :
      Blanks b₀ → Command command first → Blanks b₁ → Redirection '<' source input → Blanks b₂ →
      FurtherCommands further others → Redirection '>' target output → Blanks b₃ →
      Ampersand ampersand background → Blanks b₄ →
      PipelineLine
        (b₀ ++ command ++ b₁ ++ source ++ b₂ ++ further ++ target ++ b₃ ++ ampersand ++ b₄)
        (.run ⟨stages (first :: others) input output, background⟩)

inductive BlankLine : Alternative
  | mk {text : List Char} : Blanks text → BlankLine text .nothing

/-- The forms of a line, in the order of precedence. -/
def alternatives : List Alternative := [ExitLine, DirectoryLine, PipelineLine, BlankLine]

/-- What the first form assigns that derives the whole text. -/
def FirstOf : List Alternative → Alternative
  | [], _, _ => False
  | form :: others, text, action =>
    form text action ∨ (∀ a, ¬form text a) ∧ FirstOf others text action

def Terminator (text : List Char) : Prop := text = [] ∨ text = ['\n'] ∨ text = ['\r', '\n']

/-- What the grammar assigns to a line: a terminator is left aside, and the first form that derives
all that is before it decides. -/
def Assigns (line : String) (action : Action) : Prop :=
  ∃ body ending, line.toList = body ++ ending ∧ Terminator ending ∧ FirstOf alternatives body action

end PipeShell.Grammar
