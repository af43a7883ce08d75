import Wakeup.Direction

/-! Errors of setting up and completing waits, and what a completion means for the wait. -/
namespace Wakeup

/-- The kinds of failure an operating system reports. -/
inductive IoKind
  | notFound
  | permissionDenied
  | connectionRefused
  | connectionReset
  | connectionAborted
  | notConnected
  | addrInUse
  | brokenPipe
  | alreadyExists
  | wouldBlock
  | invalidInput
  | invalidData
  | timedOut
  | interrupted
  | unsupported
  | unexpectedEof
  | outOfMemory
  | other
  deriving DecidableEq, Repr

def IoKind.text : IoKind → String
  | .notFound => "entity not found"
  | .permissionDenied => "permission denied"
  | .connectionRefused => "connection refused"
  | .connectionReset => "connection reset"
  | .connectionAborted => "connection aborted"
  | .notConnected => "not connected"
  | .addrInUse => "address in use"
  | .brokenPipe => "broken pipe"
  | .alreadyExists => "entity already exists"
  | .wouldBlock => "operation would block"
  | .invalidInput => "invalid input parameter"
  | .invalidData => "invalid data"
  | .timedOut => "timed out"
  | .interrupted => "operation interrupted"
  | .unsupported => "unsupported"
  | .unexpectedEof => "unexpected end of file"
  | .outOfMemory => "out of memory"
  | .other => "other error"

/-- The numbers by which the operating system reports failures. -/
abbrev Errno := Int

namespace Errno

def notPermitted : Errno := 1
def badDescriptor : Errno := 9
def tryAgain : Errno := 11
def fileExists : Errno := 17

def text : Errno → String
  | 1 => "Operation not permitted"
  | 2 => "No such file or directory"
  | 4 => "Interrupted system call"
  | 5 => "Input/output error"
  | 9 => "Bad file descriptor"
  | 11 => "Resource temporarily unavailable"
  | 12 => "Cannot allocate memory"
  | 13 => "Permission denied"
  | 17 => "File exists"
  | 22 => "Invalid argument"
  | 24 => "Too many open files"
  | 32 => "Broken pipe"
  | 95 => "Operation not supported"
  | 104 => "Connection reset by peer"
  | 110 => "Connection timed out"
  | 111 => "Connection refused"
  | n => s!"Unknown error {n}"

end Errno

/-- A failure of an input or output operation: a kind alone, a kind with a message of its own,
or a number of the operating system. -/
inductive IoError
  | ofKind (kind : IoKind)
  | custom (kind : IoKind) (message : String)
  | os (number : Errno)
  deriving DecidableEq, Repr

namespace IoError

def text : IoError → String
  | .ofKind kind => kind.text
  | .custom _ message => message
  | .os number => s!"{Errno.text number} (os error {number})"

/-- Whether the failure only says that the operation would have to wait. -/
def wouldBlock : IoError → Bool
  | .ofKind kind => kind == .wouldBlock
  | .custom kind _ => kind == .wouldBlock
  | .os number => number == Errno.tryAgain

end IoError

inductive Error
  /-- A handler or reactor cannot be built as asked. -/
  | config (message : String)
  /-- The reactor refuses to watch the descriptor. -/
  | registration (fd : Fd) (cause : IoError)
  /-- The wait was cancelled before it completed. -/
  | canceled
  /-- The wait completed with a failure. -/
  | io (cause : IoError)
  deriving DecidableEq, Repr

namespace Error

/-- The word for the class of an error. -/
def kind : Error → String
  | .config _ => "Config"
  | .registration .. => "Registration"
  | .canceled => "Canceled"
  | .io _ => "Io"

def message : Error → String
  | .config message => s!"Configuration error: {message}"
  | .registration fd cause => s!"Failed to register descriptor {fd}: {cause.text}"
  | .canceled => "Operation canceled"
  | .io cause => s!"IO error: {cause.text}"

/-- The failure of the operating system underneath. -/
def cause? : Error → Option IoError
  | .registration _ cause => some cause
  | .io cause => some cause
  | _ => none

def isCanceled : Error → Bool
  | .canceled => true
  | _ => false

/-- A refused registration is no such error, whatever its cause. -/
def wouldBlock : Error → Bool
  | .io cause => cause.wouldBlock
  | _ => false

/-- Whether a wait that completes with this error still counts as ready. -/
def isBenign (e : Error) : Bool := e.wouldBlock

end Error

/-- How a wait completed. -/
abbrev Outcome := Except Error Unit

instance : DecidableEq Outcome
  | .ok (), .ok () => isTrue rfl
  | .ok (), .error _ => isFalse (by simp)
  | .error _, .ok () => isFalse (by simp)
  | .error e, .error e' => decidable_of_iff (e = e') (by simp)

/-- What a completion means for its wait. -/
inductive Verdict
  /-- Ready: forward it and wait again. -/
  | proceed
  /-- Cancelled: stop without a word. -/
  | canceled
  /-- Failed: stop and tell the engine. -/
  | failed (error : Error)
  deriving DecidableEq, Repr

namespace Verdict

def of : Outcome → Verdict
  | .ok () => .proceed
  | .error e => if e.isBenign then .proceed else if e.isCanceled then .canceled else .failed e

def title : Verdict → String
  | .proceed => "Continue"
  | .canceled => "Canceled"
  | .failed _ => "Failed"

theorem of_canceled : of (.error .canceled) = .canceled := rfl

/-- Every other error fails the wait, a refused registration that would block included. -/
theorem of_eq_failed_iff {o : Outcome} {e : Error} :
    of o = .failed e ↔ o = .error e ∧ e.isBenign = false ∧ e.isCanceled = false := by
  match o with
  | .ok () => simp [of]
  | .error e' =>
    simp only [of]
    split
    · rename_i hb
      constructor
      · simp
      · rintro ⟨h, h', -⟩
        cases h
        simp [h'] at hb
    · split
      · rename_i hc
        constructor
        · simp
        · rintro ⟨h, -, h'⟩
          cases h
          simp [h'] at hc
      · constructor
        · intro h
          cases h
          simp_all
        · rintro ⟨h, -⟩
          cases h
          rfl

end Verdict
end Wakeup
