/-!
Signals: the numbers that have a name, and what a process does that has not asked for anything else.
-/

set_option autoImplicit false
set_option relaxedAutoImplicit false

namespace PipeShell

/-- A signal that has a name. Higher numbers exist as well; they have none. -/
structure Signal where
  number : Nat
  named : 1 ≤ number ∧ number ≤ 31 := by decide
  deriving DecidableEq, Repr

namespace Signal

def ofNumber? (n : Nat) : Option Signal :=
  if h : 1 ≤ n ∧ n ≤ 31 then some ⟨n, h⟩ else none

/-- The names of the signals in the order of their numbers, without the letters that begin each of
them. -/
def names : List String :=
  ["HUP", "INT", "QUIT", "ILL", "TRAP", "ABRT", "BUS", "FPE", "KILL", "USR1", "SEGV", "USR2",
    "PIPE", "ALRM", "TERM", "STKFLT", "CHLD", "CONT", "STOP", "TSTP", "TTIN", "TTOU", "URG", "XCPU",
    "XFSZ", "VTALRM", "PROF", "WINCH", "IO", "PWR", "SYS"]

/-- What is said about processes that the signals have ended, in the same order. -/
def descriptions : List String :=
  ["Hangup", "Interrupt", "Quit", "Illegal instruction",
    "Trace/breakpoint trap", "Aborted", "Bus error", "Floating point exception",
    "Killed", "User defined signal 1", "Segmentation fault", "User defined signal 2", "Broken pipe",
    "Alarm clock", "Terminated", "Stack fault", "Child exited", "Continued", "Stopped (signal)",
    "Stopped", "Stopped (tty input)", "Stopped (tty output)",
    "Urgent I/O condition", "CPU time limit exceeded", "File size limit exceeded",
    "Virtual timer expired", "Profiling timer expired", "Window changed",
    "I/O possible", "Power failure", "Bad system call"]

def description (s : Signal) : String := descriptions.getD (s.number - 1) ""

def name (s : Signal) : String := "SIG" ++ names.getD (s.number - 1) ""

def numberOf? (name : String) : Option Nat := (names.idxOf? name).map (· + 1)

/-- The highest number of a signal, named or not. -/
def highest : Nat := 64

/-- Whether a number is kept for the management of threads; a process cannot raise these itself. -/
def isReserved (number : Nat) : Bool := number = 32 || number = 33

def interrupt : Signal := { number := 2 }

/-- The signal of writing to a pipe that nobody reads. -/
def pipe : Signal := { number := 13 }

end Signal

/-- What becomes of a process that a signal reaches. -/
inductive Disposition
  | ignore
  | stop
  | terminate
  deriving DecidableEq, Repr

/-- What a signal does unless something else was asked for: a few are ignored, four stop the
process, and all others, named or not, end it. -/
def Disposition.default (number : Nat) : Disposition :=
  if number ∈ [17, 18, 23, 28] then .ignore
  else if number ∈ [19, 20, 21, 22] then .stop
  else .terminate

end PipeShell
