import Wakeup.Completion

/-! What performing operations answers. -/
namespace Wakeup.Scenario

mutual

/-- The result of an operation. -/
inductive Reply
  | done
  /-- Something that the operation names does not exist. -/
  | missing
  | failed (error : Error)
  | flag (b : Bool)
  | number (n : Nat)
  | text (s : String)
  /-- The interest in a descriptor, if it is watched. -/
  | watching (interest : Option Events)
  | watcher (fd : Fd) (interest : Events)
  | schedule (interval : Option Interval) (deadline : Option Nat)
  | entries (list : List Entry)

/-- What came of an operation, with the callbacks that it led to in order. -/
inductive Entry
  | mk (reply : Reply) (records : List Record)

/-- A callback that was run. -/
inductive Record
  /-- A call of an engine, and what it did if it had something to do. -/
  | call (engine : Int) (notice : Notice) (acted : Option (List Entry))
  | bare (tag : Tag) (outcome : Outcome)

end

def Entry.reply : Entry → Reply
  | .mk reply _ => reply

def Entry.records : Entry → List Record
  | .mk _ records => records

end Wakeup.Scenario
