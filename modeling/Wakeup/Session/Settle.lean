import Wakeup.Session.Engine
import Wakeup.Total

/-! Settling a session: tasks are polled until none is scheduled any more. -/
namespace Wakeup.Session

/-- Completes a wait. -/
def complete (c : Callback) (o : Outcome) (s : Session) : List Record × Session :=
  match c with
  | .bare tag => ([.bare tag o s.hub.reactor.now], s)
  | _ =>
    match s.hub.begin c o with
    | (hub, none) => ([], { s with hub := hub })
    | (hub, some call) =>
      let (record, s) := react call { s with hub := hub }
      ([record], { s with hub := s.hub.finish call })

/-- Polls a task, which may run its callback. -/
def pollTask (id : Nat) (s : Session) : List Record × Session :=
  match s.hub.reactor.pollTask id with
  | (none, r) => ([], s.modifyReactor fun _ => r)
  | (some (c, o), r) => (s.modifyReactor fun _ => r).complete c o

/-- Polls scheduled tasks, as many as are allowed. -/
def poll : Nat → Session → List Record × Session
  | 0, s => ([], s)
  | n + 1, s =>
    match s.hub.reactor.queue with
    | [] => ([], s)
    | id :: queue =>
      let (records, s) := (s.modifyReactor ({ · with queue := queue })).pollTask id
      let (records', s) := poll n s
      (records ++ records', s)

/-- After so many polls the driver has its turn, even if more tasks are scheduled. -/
def pollsPerTurn : Nat := 61

/-- Polls the scheduled tasks, and gives the driver its turn. -/
def round (s : Session) : List Record × Session :=
  let (records, s) := s.poll pollsPerTurn
  (records, s.modifyReactor Tasks.turn)

/-- Polls until no task is scheduled any more, in a limited number of rounds. -/
def settleWithin : Nat → Session → List Record × Session
  | 0, s => ([], s)
  | fuel + 1, s =>
    let (records, s) := s.round
    if s.hub.reactor.queue.isEmpty then (records, s)
    else
      let (records', s) := settleWithin fuel s
      (records ++ records', s)

/-- A number of rounds that is enough unless the engine keeps itself busy without end: a wait is
armed again only for a byte read, a direction given up or a deadline that is later. -/
def budget (s : Session) : Nat :=
  total (fun x => x.schedule.overdue s.hub.reactor.now) s.hub.heartbeats +
    total (fun x => x.inbox + 8) s.hub.reactor.sockets + 2 * s.hub.reactor.tasks.length + 8

/-- Polls until no task is scheduled any more. -/
def settle (s : Session) : List Record × Session := settleWithin s.budget s

end Wakeup.Session
