import Wakeup.Readiness

/-! Descriptors as the operating system keeps them: the local ends of stream pairs, with what was
written to either end and not read yet, and regular files. -/
namespace Wakeup

inductive SocketKind
  | pair
  | file
  deriving DecidableEq, Repr

/-- An open descriptor with what it is connected to. -/
structure Socket where
  kind : SocketKind
  nonblocking : Bool := false
  /-- Bytes for the local end to read. -/
  inbox : Nat := 0
  /-- Bytes for the peer to read. -/
  outbox : Nat := 0
  /-- The local end was written full, and the peer has not read everything since. -/
  full : Bool := false
  /-- The local end is closed. -/
  closed : Bool := false
  /-- The peer is closed. -/
  peerClosed : Bool := false
  /-- The peer will write no more. -/
  peerShut : Bool := false
  deriving DecidableEq, Repr

/-- What reading took: a number of bytes, and whether the end was met. -/
structure Taken where
  count : Nat
  ended : Bool
  deriving DecidableEq, Repr

namespace Socket

/-- More bytes than the answer to a peer's read tells apart. -/
def capacity : Nat := 4096

/-- Whether the local end meets the end once it has read everything. -/
def ended (s : Socket) : Bool := s.peerClosed || s.peerShut

/-- Whether the peer is there. -/
def hasPeer (s : Socket) : Bool := s.kind == .pair && !s.peerClosed

/-- Whether the local end is there. -/
def hasLocal (s : Socket) : Bool := s.kind == .pair && !s.closed

/-- What the operating system reports of an open descriptor. The driver hears no more of one that is
closed while it is registered. That asking for it would then answer that it is invalid, which counts
as ready, is left out, and a closed descriptor is never ready. -/
def condition (s : Socket) : Condition :=
  if s.closed then {}
  else
    { readable := s.inbox != 0 || s.ended
      writable := !s.full
      hungUp := s.peerClosed }

/-- The local end reads at most `n` bytes. Of a file, or once closed, it reads nothing. -/
def read (n : Nat) (s : Socket) : Taken × Socket :=
  if s.hasLocal then
    (⟨min n s.inbox, s.inbox < n && s.ended⟩, { s with inbox := s.inbox - n })
  else (⟨0, false⟩, s)

/-- The local end reads everything. -/
def drain (s : Socket) : Taken × Socket := s.read (s.inbox + 1)

/-- The local end writes as long as it can. -/
def fill (s : Socket) : Socket :=
  if s.hasLocal && s.hasPeer then { s with full := true, outbox := s.outbox + capacity } else s

/-- The local end writes `n` bytes, if it can. -/
def write (n : Nat) (s : Socket) : Nat × Socket :=
  if s.hasLocal && s.hasPeer && !s.full then (n, { s with outbox := s.outbox + n }) else (0, s)

/-- The peer writes `n` bytes, if it can. -/
def peerWrite (n : Nat) (s : Socket) : Nat × Socket :=
  if s.peerShut || s.closed then (0, s) else (n, { s with inbox := s.inbox + n })

/-- The peer reads everything. -/
def peerRead (s : Socket) : Taken × Socket :=
  (⟨min capacity s.outbox, s.closed⟩, { s with outbox := 0, full := false })

end Socket
end Wakeup
