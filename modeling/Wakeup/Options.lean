/-! How descriptors are handed to a reactor. -/
namespace Wakeup

structure Options where
  /-- Switch a descriptor to non-blocking mode when it is registered. -/
  nonblocking : Bool := true
  deriving DecidableEq, Repr

namespace Options

instance : Inhabited Options := ⟨{}⟩

def withNonblocking (o : Options) (b : Bool) : Options := { o with nonblocking := b }

/-- The text for diagnostics. Braces of the text are written as escapes. -/
def debug (o : Options) : String :=
  "ReactorOptions \x7b nonblocking: " ++ toString o.nonblocking ++ " \x7d"

end Options
end Wakeup
