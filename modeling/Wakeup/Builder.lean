import Wakeup.Handler
import Wakeup.Reactor.Tasks

/-! Building handlers. A reactor that is given takes precedence over a runtime that is given, and
that over the runtime of the caller. -/
namespace Wakeup

structure Builder (ρ : Type) where
  runtime : Option Runtime := none
  /-- How a task reactor handles descriptors. A reactor that is given has its own ways. -/
  options : Options := {}
  reactor : Option ρ := none

namespace Builder
variable {ρ : Type}

def withRuntime (b : Builder ρ) (runtime : Runtime) : Builder ρ :=
  { b with runtime := some runtime }

def withOptions (b : Builder ρ) (options : Options) : Builder ρ := { b with options := options }

def withNonblocking (b : Builder ρ) (nonblocking : Bool) : Builder ρ :=
  { b with options := b.options.withNonblocking nonblocking }

def withReactor (b : Builder ρ) (reactor : ρ) : Builder ρ := { b with reactor := some reactor }

/-- The text for diagnostics. Braces of the text are written as escapes. -/
def debug (b : Builder ρ) : String :=
  s!"HandlerBuilder \x7b runtime: {b.runtime.isSome}, options: {b.options.debug}, " ++
    s!"reactor: {b.reactor.isSome} \x7d"

/-- The reactor to schedule on. Without any, the caller must be inside a runtime. -/
def resolve (b : Builder ρ) (context : Option Runtime) : Except Error (ρ ⊕ Tasks) :=
  match b.reactor, b.runtime.or context with
  | some reactor, _ => .ok (.inl reactor)
  | none, some runtime => .ok (.inr { runtime := runtime, options := b.options })
  | none, none =>
    .error (.config ("No Tokio runtime available. " ++
      "Build inside a runtime or use .runtime() to set one.\n" ++
      "Example: Handler::builder().runtime(runtime.handle().clone())"))

/-- Builds a handler on the reactor of choice. -/
def build [Reactor ρ] (b : Builder ρ) (context : Option Runtime) :
    Except Error ((Handler × Hub ρ) ⊕ (Handler × Hub Tasks)) :=
  match b.resolve context with
  | .error e => .error e
  | .ok (.inl reactor) => .ok (.inl (Handler.create { reactor := reactor }))
  | .ok (.inr tasks) => .ok (.inr (Handler.create { reactor := tasks }))

end Builder
end Wakeup
