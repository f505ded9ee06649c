import PipeShell.Execute
import PipeShell.Line.Reader
import PipeShell.Settings
import PipeShell.Text.Utf8

/-!
A session: lines are read and carried out one after the other, until one of them ends it or there
are no more. What a session needs from its surroundings is given as a host, so that nothing here
depends on how lines are carried out.
-/

set_option autoImplicit false
set_option relaxedAutoImplicit false

namespace PipeShell

/-- What has come of carrying out an action. -/
inductive Performed
  | status (n : Int)
  /-- The interpreter has left, with a code. -/
  | left (code : UInt8)
  | fatal (f : Fatal)
  deriving DecidableEq, Repr

/-- The surroundings of a session, whose states are of some type. -/
structure Host (σ : Type) where
  /-- Collects the processes in the background that have ended. -/
  reap : σ → σ
  /-- The working directory. -/
  directory : σ → Option Bytes
  write : Bytes → σ → σ
  complain : Bytes → σ → σ
  note : Log.Record → σ → σ
  /-- The next line with its newline, the last one perhaps without; nothing at the end of the
  input. -/
  readLine : σ → Except Errno Bytes × σ
  perform : Action → σ → Performed × σ

namespace Session

/-- The state of a session. -/
structure State (σ : Type) where
  host : σ
  /-- What was printed and not yet written. -/
  pending : Bytes := []

variable {σ : Type}

/-- Prints without writing. -/
def print (data : Bytes) (s : State σ) : State σ := { s with pending := s.pending ++ data }

/-- Writes what was printed. -/
def flush (h : Host σ) (s : State σ) : State σ :=
  if s.pending = [] then s else { host := h.write s.pending s.host, pending := [] }

def onHost (f : σ → σ) (s : State σ) : State σ := { s with host := f s.host }

/-- A directory as it is shown. -/
def shownDirectory (path : Bytes) : Bytes := Bytes.ofString (String.ofList (Utf8.decodeLossy path))

/-- The colour of the directory in a prompt. -/
def directoryColor : Bytes := Bytes.ofString "\x1b[32m"

/-- The colour of everything else. -/
def ordinaryColor : Bytes := Bytes.ofString "\x1b[39m"

/-- The prompt in a directory. A directory that is not known is left out. -/
def prompt (directory? : Option Bytes) : Bytes :=
  (match directory? with
    | some path => directoryColor ++ shownDirectory path ++ ordinaryColor
    | none => []) ++ Bytes.ofString "$ "

def showPrompt (h : Host σ) (s : State σ) : State σ :=
  flush h (print (prompt (h.directory s.host)) s)

/-- The status of a line that cannot be read as an action. -/
def unreadableStatus : Int := 127

def complaint (message : String) : Bytes := Bytes.ofString ("minish: " ++ message ++ "\n")

/-- Carries out a line. -/
def runLine (h : Host σ) (line : Bytes) (s : State σ) : Performed × State σ :=
  match Line.read (String.ofList (Utf8.decodeLossy line)) with
  | .error e => (.status unreadableStatus, onHost (h.complain (complaint e.message)) s)
  | .ok action =>
    -- What is held back has to come before anything that the children write.
    let s := flush h s
    match h.perform action s.host with
    | (.fatal f, host) =>
      (.fatal f, { s with
        host := h.complain (complaint f.message) (h.note (.cannotContinue f.message) host) })
    | (performed, host) => (performed, { s with host := host })

/-- The exit code that a status becomes. -/
def codeOf (status : Int) : UInt8 := UInt8.ofNat (status % 256).toNat

/-- What a round of a session leads to. -/
inductive Round
  | over (code : UInt8)
  | more
  deriving DecidableEq, Repr

/-- One round: the background is looked after, a prompt is shown, a line is read and carried out. -/
def round (h : Host σ) (settings : Settings) (s : State σ) : Round × State σ :=
  let s := onHost h.reap s
  let s := if settings.showPrompt then showPrompt h s else s
  match h.readLine s.host with
  | (.error reason, host) => (.over 1, { s with host := h.note (.unreadableInput reason) host })
  -- Even a blank line has its newline, so that no bytes at all mean the end.
  | (.ok [], host) =>
    let s := { s with host := host }
    (.over 0, if settings.showPrompt then flush h (print [Bytes.newline] s) else s)
  | (.ok line, host) =>
    match runLine h line { s with host := host } with
    | (.left code, s) => (.over code, s)
    | (.fatal _, s) => (.over 1, s)
    | (.status n, s) =>
      let s := onHost (h.note (.lineStatus n)) s
      (if settings.singleShot then .over (codeOf n) else .more, s)

/-- Rounds up to the one that ends the session, if that is among the given number of rounds. -/
def run (h : Host σ) (settings : Settings) : Nat → State σ → Option UInt8 × State σ
  | 0, s => (none, s)
  | rounds + 1, s =>
    match round h settings s with
    | (.over code, s) => (some code, s)
    | (.more, s) => run h settings rounds s

/-- A session comes to its end if each round that does not end it leaves less to be done. -/
theorem run_ends {h : Host σ} {settings : Settings} {I : State σ → Prop} {left : State σ → Nat}
    (hround : ∀ s next, I s → round h settings s = (.more, next) → I next ∧ left next < left s)
    {rounds : Nat} {s : State σ} (hs : I s) (hrounds : left s < rounds) :
    ∃ code final, run h settings rounds s = (some code, final) := by
  induction rounds generalizing s with
  | zero => exact absurd hrounds (Nat.not_lt_zero _)
  | succ rounds ih =>
    rw [run]
    rcases heq : round h settings s with ⟨last | _, next⟩
    · exact ⟨last, next, rfl⟩
    · obtain ⟨hnext, hless⟩ := hround s next hs heq
      exact ih hnext (Nat.lt_of_lt_of_le hless (Nat.le_of_lt_succ hrounds))

end Session

end PipeShell
