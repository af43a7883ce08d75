import Wakeup.Scenario.World

/-! Performing operations one small step at a time. Operations that run callbacks or enter a strand
open a frame, in which the nested operations are performed before it closes. -/
namespace Wakeup.Scenario

/-- A call of an engine in progress. -/
structure Cue where
  call : Call
  /-- The engine reports the call. -/
  heard : Bool
  /-- What the script has the engine do in it. -/
  ops : Option (List Op)

/-- What a frame is open for. -/
inductive Activity
  /-- Performing operations outside of all callbacks. -/
  | outside
  /-- Performing operations inside a strand. -/
  | inside (strand : Nat)
  /-- A completion that calls an engine, and what the operation that caused it answers. -/
  | completion (cue : Cue) (reply : Reply)
  /-- Completing due timer waits: how many were, the records in reverse order, and the call in
  progress. -/
  | firing (count : Nat) (records : List Record) (current : Option Cue)

structure Frame where
  activity : Activity
  todo : List Op
  /-- What came of the operations performed so far, in reverse order. -/
  entries : List Entry := []

def Frame.push (entry : Entry) (f : Frame) : Frame := { f with entries := entry :: f.entries }

/-- A world, and the frames that are open in it. -/
structure Config where
  world : World
  frame : Frame
  /-- The frames that wait for the first to close, innermost first. -/
  below : List Frame := []

/-- What an operation leads to. -/
inductive Effect
  | ended (entry : Entry)
  | opened (activity : Activity) (todo : List Op)

namespace Script

/-- Takes the operations of the next callback. -/
def take {α : Type} (notice : Notice) (s : Script α) : Option (List α × Script α) :=
  match notice with
  | .process .. =>
    match s.process with
    | [] => none
    | ops :: rest => some (ops, { s with process := rest })
  | .heartbeat =>
    match s.beat with
    | [] => none
    | ops :: rest => some (ops, { s with beat := rest })
  | .waitError .. =>
    match s.error with
    | [] => none
    | ops :: rest => some (ops, { s with error := rest })

end Script

namespace World

/-- Finds what an engine does in a call. -/
def cue (call : Call) (w : World) : World × Cue :=
  match w.actors[call.engine]? with
  | none => (w, ⟨call, false, none⟩)
  | some actor =>
    if actor.plain && call.notice.isWaitError then (w, ⟨call, false, none⟩)
    else
      match actor.script.take call.notice with
      | none => (w, ⟨call, true, none⟩)
      | some (ops, script) =>
        ({ w with actors := w.actors.modify call.engine ({ · with script := script }) },
          ⟨call, true, some ops⟩)

/-- The record of a call that ended, with what came of its operations in reverse order. -/
def callRecords (cue : Cue) (entries : List Entry) (w : World) : List Record :=
  match w.actors[cue.call.engine]? with
  | none => []
  | some actor =>
    if cue.heard then
      [.call actor.name cue.call.notice (cue.ops.map fun _ => entries.reverse)]
    else []

def finishCall (call : Call) (w : World) : World := w.setHub (w.hub.finish call)

/-- Completes a wait that was removed from the reactor. -/
def completeWait (wait : Wait) (o : Outcome) (reply : Reply) (w : World) : World × Effect :=
  match w.begin wait o with
  | (w, none) => (w, .ended (.mk reply (bareRecords wait.callback o)))
  | (w, some call) =>
    let (w, cue) := w.cue call
    (w, .opened (.completion cue reply) (cue.ops.getD []))

def complete (fd : Fd) (d : Direction) (o : Outcome) (w : World) : World × Effect :=
  match w.hub.reactor.takeReady fd d with
  | none => (w, .ended (.mk (.flag false) []))
  | some (wait, m) => (w.modifyReactor fun _ => m).completeWait wait o (.flag true)

def invoke (slot : Int) (o : Outcome) (w : World) : World × Effect :=
  match w.slots.get? slot with
  | none => (w, .ended (.mk .missing []))
  | some wait => { w with slots := w.slots.erase slot }.completeWait wait o .done

def dispatch (h : Int) (ops : List Op) (w : World) : World × Effect :=
  match w.handlers.get? h with
  | none => (w, .ended (.mk .missing []))
  | some handler =>
    (w.enterDispatch handler.strand, .opened (.inside handler.strand) ops)

def ended (result : World × Reply) : World × Effect := (result.1, .ended (.mk result.2 []))

/-- Performs an operation as far as it goes without nested operations. -/
def perform (op : Op) (w : World) : World × Effect :=
  match op with
  | .newHandler h => ended (w.newHandler h, .done)
  | .dropHandler h => ended (w.dropHandler h)
  | .monitor h e fd ev => ended (w.monitor h e fd ev)
  | .negotiate h e seconds => ended (w.negotiate h e seconds)
  | .close h e => ended (w.close h e)
  | .query h fd => ended (w.ask h fun x => .watching (x.interest fd w.hub))
  | .debug h => ended (w.ask h fun x => .text (x.debug w.hub))
  | .busy h => ended (w.ask h fun x => .flag (x.isBusy w.hub))
  | .busyInside h =>
    ended (w.ask h fun x => .flag (x.isBusy (w.hub.enterStrand x.strand)))
  | .dispatch h ops => w.dispatch h ops
  | .newEngine e script plain => ended (w.newEngine e script plain, .done)
  | .dropEngine e => ended (w.dropEngine e)
  | .script e script => ended (w.extendScript e script)
  | .refuse fd => ended (w.modifyReactor (Manual.refuse fd), .done)
  | .advance elapsed =>
    let w := w.modifyReactor (Manual.advance elapsed)
    ended (w, .number w.hub.reactor.now)
  | .complete fd d o => w.complete fd d o
  | .fireTimers => (w, .opened (.firing 0 [] none) [])
  | .deliverCanceled =>
    let (w, entry) := w.deliverCanceled
    (w, .ended entry)
  | .takeReady fd d slot => ended (w.takeReady fd d slot)
  | .takeTimed slot => ended (w.takeTimed slot)
  | .invoke slot o => w.invoke slot o
  | .discard slot => ended (w.discard slot)
  | .register id h fd => ended (w.register id h fd)
  | .armRegistration id d tag => ended (w.armRegistration id d tag)
  | .dropRegistration id => ended (w.dropRegistration id)
  | .newTimer id => ended (w.newTimer id, .done)
  | .armTimer id delay tag => ended (w.armTimer id delay tag)
  | .cancelTimer id => ended (w.cancelTimer id)
  | .dropTimer id => ended (w.dropTimer id)
  | .newStrand s => ended (w.newStrand s, .done)
  | .dropStrand s => ended (w.dropStrand s)
  | .strandBusy s => ended (w.strandBusy s)
  | .newWatcher x s fd => ended (w.newWatcher x s fd)
  | .setWatcher x e ev => ended (w.setWatcher x e ev)
  | .retireWatcher x => ended (w.retireWatcher x)
  | .viewWatcher x => ended (w.viewWatcher x)
  | .dropWatcher x => ended (w.dropWatcher x)
  | .newHeartbeat t s => ended (w.newHeartbeat t s)
  | .setHeartbeat t e seconds => ended (w.setHeartbeat t e seconds)
  | .stopHeartbeat t => ended (w.stopHeartbeat t)
  | .viewHeartbeat t => ended (w.viewHeartbeat t)
  | .dropHeartbeat t => ended (w.dropHeartbeat t)

end World

namespace Config

/-- Closes the frame, and hands the frame below what came of the operation that opened it. -/
def close (w : World) (entry : Entry) (below : List Frame) : Option Config :=
  match below with
  | [] => none
  | f :: below => some ⟨w, f.push entry, below⟩

/-- Completes the next due timer wait, or closes the frame if there is none. -/
def fire (w : World) (count : Nat) (records : List Record) (below : List Frame) :
    Option Config :=
  match w.hub.reactor.takeDue with
  | none => close w (.mk (.number count) records.reverse) below
  | some (wait, m) =>
    match (w.modifyReactor fun _ => m).begin wait (.ok ()) with
    | (w, none) =>
      let records := World.bareRecords wait.callback (.ok ()) ++ records
      some ⟨w, ⟨.firing (count + 1) records none, [], []⟩, below⟩
    | (w, some call) =>
      let (w, cue) := w.cue call
      some ⟨w, ⟨.firing count records (some cue), cue.ops.getD [], []⟩, below⟩

/-- The next step, if there is something left to do. -/
def step (c : Config) : Option Config :=
  match c.frame.todo with
  | op :: todo =>
    let frame := { c.frame with todo := todo }
    match c.world.perform op with
    | (w, .ended entry) => some ⟨w, frame.push entry, c.below⟩
    | (w, .opened activity ops) => some ⟨w, ⟨activity, ops, []⟩, frame :: c.below⟩
  | [] =>
    match c.frame.activity with
    | .outside => none
    | .inside s =>
      close (c.world.leaveDispatch s)
        (.mk (.entries c.frame.entries.reverse) []) c.below
    | .completion cue reply =>
      close (c.world.finishCall cue.call) (.mk reply (c.world.callRecords cue c.frame.entries))
        c.below
    | .firing count records none => fire c.world count records c.below
    | .firing count records (some cue) =>
      let records := c.world.callRecords cue c.frame.entries ++ records
      some ⟨c.world.finishCall cue.call, ⟨.firing (count + 1) records none, [], []⟩, c.below⟩

end Config
end Wakeup.Scenario
