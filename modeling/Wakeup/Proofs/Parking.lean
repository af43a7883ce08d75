import Wakeup.Proofs.Run

/-! Parked waits are only added to until they are told. What a reactor, its watchers and heartbeats,
handlers and scenarios do is the same, whichever waits were parked before. -/
namespace Wakeup

namespace Manual
variable {m : Manual} (P : List Wait)

/-- Parks waits in front of those that are parked. -/
def prepark (m : Manual) : Manual := { m with parked := P ++ m.parked }

theorem prepark_register (fd : Fd) (m : Manual) :
    (m.prepark P).register fd = Prod.map id (prepark P) (m.register fd) := by
  unfold register prepark
  dsimp only
  split <;> rfl

theorem prepark_release (r : Registration) (m : Manual) :
    (m.prepark P).release r = (m.release r).prepark P := by
  simp only [release, prepark, List.append_assoc]

theorem prepark_cancel (t : Nat) (m : Manual) :
    (m.prepark P).cancel t = (m.cancel t).prepark P := by
  simp only [cancel, prepark, List.append_assoc]

theorem prepark_schedule (t deadline : Nat) (c : Callback) (m : Manual) :
    (m.prepark P).schedule t deadline c = (m.schedule t deadline c).prepark P := by
  unfold schedule
  rw [prepark_cancel]
  rfl

theorem prepark_takeReady (fd : Fd) (d : Direction) (m : Manual) :
    (m.prepark P).takeReady fd d = (m.takeReady fd d).map (Prod.map id (prepark P)) := by
  simp only [takeReady, Option.map_map]
  rfl

theorem prepark_takeTimed (deadline : Nat) (m : Manual) :
    (m.prepark P).takeTimed deadline = (m.takeTimed deadline).map (Prod.map id (prepark P)) := by
  simp only [takeTimed, Option.map_map]
  rfl

theorem prepark_takeEarliest (m : Manual) : (m.prepark P).takeEarliest =
    m.takeEarliest.map (Prod.map id (Prod.map id (prepark P))) := by
  unfold takeEarliest
  rw [show (m.prepark P).earliest = m.earliest from rfl]
  cases m.earliest with
  | none => rfl
  | some deadline =>
    simp only [Option.bind_some, prepark_takeTimed, Option.map_map]
    rfl

theorem prepark_takeDue (m : Manual) :
    (m.prepark P).takeDue = m.takeDue.map (Prod.map id (prepark P)) := by
  unfold takeDue
  rw [show (m.prepark P).earliest = m.earliest from rfl]
  cases m.earliest with
  | none => rfl
  | some deadline =>
    simp only [Option.bind_some, prepark_takeTimed]
    rw [show (m.prepark P).now = m.now from rfl]
    split <;> rfl

end Manual

namespace Hub
variable (P : List Wait)

/-- Parks waits in front of those that are parked. -/
def prepark (hub : Hub Manual) : Hub Manual := { hub with reactor := hub.reactor.prepark P }

variable (hub : Hub Manual)

@[simp] theorem prepark_modifyWatcher (w : Nat) (f : Watcher → Watcher) :
    (hub.prepark P).modifyWatcher w f = (hub.modifyWatcher w f).prepark P := rfl

@[simp] theorem prepark_modifyHeartbeat (t : Nat) (f : Heartbeat → Heartbeat) :
    (hub.prepark P).modifyHeartbeat t f = (hub.modifyHeartbeat t f).prepark P := rfl

@[simp] theorem prepark_modifyStrand (s : Nat) (f : Presence → Presence) :
    (hub.prepark P).modifyStrand s f = (hub.modifyStrand s f).prepark P := rfl

@[simp] theorem prepark_modifyEngine (e : Nat) (f : Presence → Presence) :
    (hub.prepark P).modifyEngine e f = (hub.modifyEngine e f).prepark P := rfl

@[simp] theorem prepark_modifySide (w : Nat) (d : Direction) (f : Side → Side) :
    (hub.prepark P).modifySide w d f = (hub.modifySide w d f).prepark P := rfl

@[simp] theorem prepark_modifySchedule (t : Nat) (f : Schedule → Schedule) :
    (hub.prepark P).modifySchedule t f = (hub.modifySchedule t f).prepark P := rfl

@[simp] theorem prepark_enterStrand (s : Nat) :
    (hub.prepark P).enterStrand s = (hub.enterStrand s).prepark P := rfl

@[simp] theorem prepark_leaveStrand (s : Nat) :
    (hub.prepark P).leaveStrand s = (hub.leaveStrand s).prepark P := rfl

@[simp] theorem prepark_dropStrand (s : Nat) :
    (hub.prepark P).dropStrand s = (hub.dropStrand s).prepark P := rfl

@[simp] theorem prepark_dropEngine (e : Nat) :
    (hub.prepark P).dropEngine e = (hub.dropEngine e).prepark P := rfl

theorem prepark_newStrand : (hub.prepark P).newStrand = Prod.map id (prepark P) hub.newStrand := rfl

theorem prepark_newEngine : (hub.prepark P).newEngine = Prod.map id (prepark P) hub.newEngine := rfl

theorem prepark_newHeartbeat (s : Nat) :
    (hub.prepark P).newHeartbeat s = Prod.map id (prepark P) (hub.newHeartbeat s) := rfl

@[simp] theorem prepark_cancelTimer (t : Nat) :
    (hub.prepark P).cancelTimer t = (hub.cancelTimer t).prepark P := by
  exact congrArg (fun m => { hub with reactor := m }) (Manual.prepark_cancel P t hub.reactor)

section Watchers

theorem prepark_newWatcher (s : Nat) (fd : Fd) :
    (hub.prepark P).newWatcher s fd = Prod.map id (prepark P) (hub.newWatcher s fd) := by
  unfold newWatcher
  rw [show Reactor.register fd (hub.prepark P).reactor =
    Prod.map id (Manual.prepark P) (Reactor.register fd hub.reactor) from
      Manual.prepark_register ..]
  cases h : Reactor.register fd hub.reactor with
  | mk res m => cases res <;> rfl

@[simp] theorem prepark_armSide (w : Nat) (d : Direction) (e : Nat) :
    (hub.prepark P).armSide w d e = (hub.armSide w d e).prepark P := by
  unfold armSide
  dsimp only [prepark]
  split
  · rfl
  · split <;> rfl

@[simp] theorem prepark_setSide (w e : Nat) (d : Direction) (wanted : Bool) :
    (hub.prepark P).setSide w e d wanted = (hub.setSide w e d wanted).prepark P := by
  unfold setSide
  cases wanted <;> simp

@[simp] theorem prepark_setInterest (w e : Nat) (ev : Events) :
    (hub.prepark P).setInterest w e ev = (hub.setInterest w e ev).prepark P := by
  simp [setInterest, Direction.all]

@[simp] theorem prepark_retire (w : Nat) :
    (hub.prepark P).retire w = (hub.retire w).prepark P := rfl

@[simp] theorem prepark_reapWatcher (w : Nat) :
    (hub.prepark P).reapWatcher w = (hub.reapWatcher w).prepark P := by
  unfold reapWatcher
  dsimp only [prepark]
  split
  · rfl
  · split
    · rfl
    · exact congrArg (fun m => { hub with reactor := m }) (Manual.prepark_release ..)

@[simp] theorem prepark_acquireWatcher (w : Nat) :
    (hub.prepark P).acquireWatcher w = (hub.acquireWatcher w).prepark P := rfl

@[simp] theorem prepark_releaseWatcher (w : Nat) :
    (hub.prepark P).releaseWatcher w = (hub.releaseWatcher w).prepark P := by
  simp [releaseWatcher]

@[simp] theorem prepark_dropWatcher (w : Nat) :
    (hub.prepark P).dropWatcher w = (hub.dropWatcher w).prepark P := by
  simp [dropWatcher]

end Watchers

section Heartbeats

@[simp] theorem prepark_armDeadline (t deadline e : Nat) :
    (hub.prepark P).armDeadline t deadline e = (hub.armDeadline t deadline e).prepark P := by
  unfold armDeadline
  dsimp only [prepark]
  split
  · rfl
  · exact congrArg (fun m => { hub with reactor := m }) (Manual.prepark_schedule ..)

@[simp] theorem prepark_setHeartbeat (t e : Nat) (interval : Interval) :
    (hub.prepark P).setHeartbeat t e interval = (hub.setHeartbeat t e interval).prepark P := by
  unfold setHeartbeat
  rw [show (hub.prepark P).heartbeats = hub.heartbeats from rfl]
  split
  · rfl
  · simp only [prepark_cancelTimer, prepark_modifySchedule, prepark_armDeadline]
    rfl

@[simp] theorem prepark_stopHeartbeat (t : Nat) :
    (hub.prepark P).stopHeartbeat t = (hub.stopHeartbeat t).prepark P := by
  unfold stopHeartbeat
  rw [show (hub.prepark P).heartbeats = hub.heartbeats from rfl]
  split
  · rfl
  · simp

@[simp] theorem prepark_nextBeat (t generation e : Nat) :
    (hub.prepark P).nextBeat t generation e = (hub.nextBeat t generation e).prepark P := by
  unfold nextBeat
  rw [show (hub.prepark P).heartbeats = hub.heartbeats from rfl]
  split
  · rfl
  · split
    · split
      · simp
      · rfl
    · rfl

@[simp] theorem prepark_reapHeartbeat (t : Nat) :
    (hub.prepark P).reapHeartbeat t = (hub.reapHeartbeat t).prepark P := by
  unfold reapHeartbeat
  rw [show (hub.prepark P).heartbeats = hub.heartbeats from rfl]
  split
  · rfl
  · split
    · rfl
    · simp

@[simp] theorem prepark_acquireHeartbeat (t : Nat) :
    (hub.prepark P).acquireHeartbeat t = (hub.acquireHeartbeat t).prepark P := rfl

@[simp] theorem prepark_releaseHeartbeat (t : Nat) :
    (hub.prepark P).releaseHeartbeat t = (hub.releaseHeartbeat t).prepark P := by
  simp [releaseHeartbeat]

@[simp] theorem prepark_dropHeartbeat (t : Nat) :
    (hub.prepark P).dropHeartbeat t = (hub.dropHeartbeat t).prepark P := by
  simp [dropHeartbeat]

end Heartbeats

section Completions

@[simp] theorem prepark_acquireOwner (o : Owner) :
    (hub.prepark P).acquireOwner o = (hub.acquireOwner o).prepark P := by
  cases o <;> rfl

@[simp] theorem prepark_releaseOwner (o : Owner) :
    (hub.prepark P).releaseOwner o = (hub.releaseOwner o).prepark P := by
  cases o <;> simp [releaseOwner]

theorem prepark_startCall (call : Call) :
    (hub.prepark P).startCall call = Prod.map (prepark P) id (hub.startCall call) := by
  unfold startCall
  rw [show (hub.prepark P).engineAlive = hub.engineAlive from rfl]
  split
  · simp
  · rfl

theorem prepark_beginReady (w : Nat) (d : Direction) (e : Nat) (o : Outcome) :
    (hub.prepark P).beginReady w d e o = Prod.map (prepark P) id (hub.beginReady w d e o) := by
  unfold beginReady
  rw [show (hub.prepark P).watchers = hub.watchers from rfl]
  simp only [prepark_modifySide, prepark_startCall]
  rw [show ∀ hub : Hub Manual, (hub.prepark P).strandAlive = hub.strandAlive from fun _ => rfl]
  repeat' split
  all_goals rfl

theorem prepark_beginBeat (t generation e : Nat) (o : Outcome) :
    (hub.prepark P).beginBeat t generation e o =
      Prod.map (prepark P) id (hub.beginBeat t generation e o) := by
  unfold beginBeat
  rw [show (hub.prepark P).heartbeats = hub.heartbeats from rfl]
  simp only [prepark_modifySchedule, prepark_startCall]
  rw [show (hub.prepark P).strandAlive = hub.strandAlive from rfl]
  repeat' split
  all_goals rfl

theorem prepark_begin (c : Callback) (o : Outcome) :
    (hub.prepark P).begin c o = Prod.map (prepark P) id (hub.begin c o) := by
  cases c with
  | ready w d e => exact prepark_beginReady ..
  | beat t generation e => exact prepark_beginBeat ..
  | bare tag => rfl

@[simp] theorem prepark_resume (call : Call) :
    (hub.prepark P).resume call = (hub.resume call).prepark P := by
  unfold resume
  split
  · rw [show (hub.prepark P).wants = hub.wants from rfl]
    split
    · simp
    · rfl
  · simp
  · rfl

@[simp] theorem prepark_finish (call : Call) :
    (hub.prepark P).finish call = (hub.finish call).prepark P := by
  simp [finish]

end Completions
end Hub

namespace Handler
variable (P : List Wait) (h : Handler) (hub : Hub Manual)

theorem prepark_create : create (hub.prepark P) = Prod.map id (Hub.prepark P) (create hub) := rfl

theorem prepark_monitor (e : Nat) (fd : Fd) (ev : Events) :
    h.monitor e fd ev (hub.prepark P) = Prod.map id (Hub.prepark P) (h.monitor e fd ev hub) := by
  unfold monitor
  rw [Hub.prepark_newWatcher]
  split
  · split
    · rfl
    · cases hn : hub.newWatcher h.strand fd with
      | mk res hub' => cases res <;> simp
  · split <;> simp

theorem prepark_negotiate (e seconds : Nat) : h.negotiate e seconds (hub.prepark P) =
    Prod.map id (Prod.map id (Hub.prepark P)) (h.negotiate e seconds hub) := by
  unfold negotiate
  rw [Hub.prepark_newHeartbeat]
  split
  · rfl
  · split <;> simp

theorem prepark_close : h.close (hub.prepark P) = Prod.map id (Hub.prepark P) (h.close hub) := by
  unfold close
  split <;> simp

@[simp] theorem prepark_drop : h.drop (hub.prepark P) = (h.drop hub).prepark P := by
  have hwatchers (l : List Nat) (hub : Hub Manual) :
      l.foldl (fun hub w => hub.dropWatcher w) (hub.prepark P) =
        (l.foldl (fun hub w => hub.dropWatcher w) hub).prepark P := by
    induction l generalizing hub with
    | nil => rfl
    | cons w l ih => rw [List.foldl_cons, Hub.prepark_dropWatcher, ih, List.foldl_cons]
  unfold drop
  rw [hwatchers]
  split <;> simp

end Handler

namespace Scenario

namespace World
variable (P : List Wait) (w : World)

/-- Parks waits in front of those that are parked. -/
def prepark : World := w.setHub (w.hub.prepark P)

@[simp] theorem hub_prepark : (w.prepark P).hub = w.hub.prepark P := rfl

theorem prepark_modifyReactor {f : Manual → Manual}
    (hf : f (w.hub.reactor.prepark P) = (f w.hub.reactor).prepark P) :
    (w.prepark P).modifyReactor f = (w.modifyReactor f).prepark P :=
  congrArg (fun m => w.setHub { w.hub with reactor := m }) hf

@[simp] theorem prepark_replaceHandler (old : Handler) :
    (w.prepark P).replaceHandler old = (w.replaceHandler old).prepark P := by
  unfold replaceHandler
  rw [show (w.prepark P).dispatches = w.dispatches from rfl, hub_prepark]
  split
  · rfl
  · rw [Handler.prepark_drop]
    rfl

@[simp] theorem prepark_newHandler (name : Int) :
    (w.prepark P).newHandler name = (w.newHandler name).prepark P := by
  unfold newHandler
  rw [hub_prepark, Handler.prepark_create, show (w.prepark P).handlers = w.handlers from rfl]
  cases Handler.create w.hub with
  | mk h hub =>
    dsimp only [Prod.map]
    split
    · rfl
    · exact prepark_replaceHandler P { w.setHub hub with handlers := w.handlers.insert name h } _

theorem prepark_leaveDispatch (s : Nat) :
    (w.prepark P).leaveDispatch s = (w.leaveDispatch s).prepark P := by
  unfold leaveDispatch
  dsimp only [prepark, setHub]
  split
  · rfl
  · split
    · rfl
    · rw [Hub.prepark_leaveStrand, Handler.prepark_drop]

private theorem prepark_dropHandler (name : Int) :
    (w.prepark P).dropHandler name = Prod.map (prepark P) id (w.dropHandler name) := by
  unfold dropHandler
  dsimp only [prepark, setHub]
  split
  · rfl
  · rw [Handler.prepark_drop]
    rfl

private theorem prepark_monitor (h e : Int) (fd : Fd) (ev : Events) :
    (w.prepark P).monitor h e fd ev = Prod.map (prepark P) id (w.monitor h e fd ev) := by
  unfold monitor
  dsimp only [prepark, setHub]
  split
  · rename_i engine handler _ _
    rw [Handler.prepark_monitor]
    cases handler.monitor engine fd ev w.hub with
    | mk res hub => cases res <;> rfl
  · rfl

private theorem prepark_negotiate (h e : Int) (seconds : Nat) :
    (w.prepark P).negotiate h e seconds = Prod.map (prepark P) id (w.negotiate h e seconds) := by
  unfold negotiate
  dsimp only [prepark, setHub]
  split
  · rw [Handler.prepark_negotiate]
    rfl
  · rfl

private theorem prepark_close (h e : Int) :
    (w.prepark P).close h e = Prod.map (prepark P) id (w.close h e) := by
  unfold close
  dsimp only [prepark, setHub]
  split
  · rw [Handler.prepark_close]
    rfl
  · rfl

private theorem prepark_ask (h : Int) (f : Handler → Reply) :
    (w.prepark P).ask h f = Prod.map (prepark P) id (w.ask h f) := by
  unfold ask
  dsimp only [prepark, setHub]
  split <;> rfl

private theorem prepark_newEngine (name : Int) (script : Script Op) (plain : Bool) :
    (w.prepark P).newEngine name script plain = (w.newEngine name script plain).prepark P := by
  unfold newEngine
  dsimp only [prepark, setHub]
  rw [Hub.prepark_newEngine]
  dsimp only [Prod.map]
  split <;> rfl

private theorem prepark_dropEngine (name : Int) :
    (w.prepark P).dropEngine name = Prod.map (prepark P) id (w.dropEngine name) := by
  unfold dropEngine
  dsimp only [prepark, setHub]
  split <;> rfl

private theorem prepark_extendScript (name : Int) (script : Script Op) :
    (w.prepark P).extendScript name script = Prod.map (prepark P) id (w.extendScript name script) := by
  unfold extendScript
  dsimp only [prepark, setHub]
  split <;> rfl

private theorem prepark_takeReady (fd : Fd) (d : Direction) (slot : Int) :
    (w.prepark P).takeReady fd d slot = Prod.map (prepark P) id (w.takeReady fd d slot) := by
  unfold takeReady
  rw [hub_prepark, show (w.hub.prepark P).reactor = w.hub.reactor.prepark P from rfl,
    Manual.prepark_takeReady]
  cases w.hub.reactor.takeReady fd d <;> rfl

private theorem prepark_takeTimed (slot : Int) :
    (w.prepark P).takeTimed slot = Prod.map (prepark P) id (w.takeTimed slot) := by
  unfold takeTimed
  rw [hub_prepark, show (w.hub.prepark P).reactor = w.hub.reactor.prepark P from rfl,
    Manual.prepark_takeEarliest]
  cases w.hub.reactor.takeEarliest <;> rfl

private theorem prepark_discard (slot : Int) :
    (w.prepark P).discard slot = Prod.map (prepark P) id (w.discard slot) := by
  unfold discard
  dsimp only [prepark, setHub]
  split <;> rfl

private theorem prepark_register (name h : Int) (fd : Fd) :
    (w.prepark P).register name h fd = Prod.map (prepark P) id (w.register name h fd) := by
  unfold register
  rw [hub_prepark, show (w.hub.prepark P).reactor = w.hub.reactor.prepark P from rfl,
    Manual.prepark_register, show (w.prepark P).handlers = w.handlers from rfl,
    show (w.prepark P).registrations = w.registrations from rfl]
  split
  · rfl
  · cases w.hub.reactor.register fd with
    | mk res m =>
      cases res with
      | error err => rfl
      | ok r =>
        dsimp only [Prod.map, id]
        split
        · rfl
        · rw [Manual.prepark_release]
          rfl

private theorem prepark_armRegistration (name : Int) (d : Direction) (tag : Tag) :
    (w.prepark P).armRegistration name d tag =
      Prod.map (prepark P) id (w.armRegistration name d tag) := by
  unfold armRegistration
  dsimp only [prepark, setHub]
  split <;> rfl

private theorem prepark_dropRegistration (name : Int) :
    (w.prepark P).dropRegistration name = Prod.map (prepark P) id (w.dropRegistration name) := by
  unfold dropRegistration
  rw [show (w.prepark P).registrations = w.registrations from rfl]
  split
  · rfl
  · rw [prepark_modifyReactor P w (Manual.prepark_release ..)]
    rfl

private theorem prepark_newTimer (name : Int) :
    (w.prepark P).newTimer name = (w.newTimer name).prepark P := by
  unfold newTimer
  rw [show (w.prepark P).timers = w.timers from rfl, hub_prepark]
  dsimp only [Hub.prepark]
  split
  · rfl
  · rw [show (w.hub.reactor.prepark P).newTimer.2 = w.hub.reactor.newTimer.2.prepark P from rfl,
      Manual.prepark_cancel]
    rfl

private theorem prepark_armTimer (name : Int) (delay : Nat) (tag : Tag) :
    (w.prepark P).armTimer name delay tag =
      Prod.map (prepark P) id (w.armTimer name delay tag) := by
  unfold armTimer
  rw [show (w.prepark P).timers = w.timers from rfl]
  split
  · rfl
  · dsimp only
    rw [prepark_modifyReactor P w (Manual.prepark_schedule ..)]
    rfl

private theorem prepark_cancelTimer (name : Int) :
    (w.prepark P).cancelTimer name = Prod.map (prepark P) id (w.cancelTimer name) := by
  unfold cancelTimer
  rw [show (w.prepark P).timers = w.timers from rfl]
  split
  · rfl
  · rw [prepark_modifyReactor P w (Manual.prepark_cancel ..)]
    rfl

private theorem prepark_dropTimer (name : Int) :
    (w.prepark P).dropTimer name = Prod.map (prepark P) id (w.dropTimer name) := by
  unfold dropTimer
  rw [show (w.prepark P).timers = w.timers from rfl]
  split
  · rfl
  · rw [prepark_modifyReactor P w (Manual.prepark_cancel ..)]
    rfl

private theorem prepark_newStrand (name : Int) :
    (w.prepark P).newStrand name = (w.newStrand name).prepark P := by
  unfold newStrand
  dsimp only [prepark, setHub]
  rw [Hub.prepark_newStrand]
  dsimp only [Prod.map]
  split <;> rfl

private theorem prepark_dropStrand (name : Int) :
    (w.prepark P).dropStrand name = Prod.map (prepark P) id (w.dropStrand name) := by
  unfold dropStrand
  dsimp only [prepark, setHub]
  split <;> rfl

private theorem prepark_strandBusy (name : Int) :
    (w.prepark P).strandBusy name = Prod.map (prepark P) id (w.strandBusy name) := by
  unfold strandBusy
  dsimp only [prepark, setHub]
  split <;> rfl

private theorem prepark_newWatcher (name s : Int) (fd : Fd) :
    (w.prepark P).newWatcher name s fd = Prod.map (prepark P) id (w.newWatcher name s fd) := by
  unfold newWatcher
  dsimp only [prepark, setHub]
  split
  · rfl
  · rename_i strand _
    rw [Hub.prepark_newWatcher]
    cases w.hub.newWatcher strand fd with
    | mk res hub =>
      cases res with
      | error err => rfl
      | ok x =>
        dsimp only [Prod.map, id]
        split
        · rfl
        · rw [Hub.prepark_dropWatcher]
          rfl

private theorem prepark_setWatcher (name e : Int) (ev : Events) :
    (w.prepark P).setWatcher name e ev = Prod.map (prepark P) id (w.setWatcher name e ev) := by
  unfold setWatcher
  dsimp only [prepark, setHub]
  split
  · rw [Hub.prepark_setInterest]
    rfl
  · rfl

private theorem prepark_retireWatcher (name : Int) :
    (w.prepark P).retireWatcher name = Prod.map (prepark P) id (w.retireWatcher name) := by
  unfold retireWatcher
  dsimp only [prepark, setHub]
  split <;> rfl

private theorem prepark_viewWatcher (name : Int) :
    (w.prepark P).viewWatcher name = Prod.map (prepark P) id (w.viewWatcher name) := by
  unfold viewWatcher
  dsimp only [prepark, setHub, Hub.prepark]
  split
  · rfl
  · split <;> rfl

private theorem prepark_dropWatcher (name : Int) :
    (w.prepark P).dropWatcher name = Prod.map (prepark P) id (w.dropWatcher name) := by
  unfold dropWatcher
  dsimp only [prepark, setHub]
  split
  · rfl
  · rw [Hub.prepark_dropWatcher]
    rfl

private theorem prepark_newHeartbeat (name s : Int) :
    (w.prepark P).newHeartbeat name s = Prod.map (prepark P) id (w.newHeartbeat name s) := by
  unfold newHeartbeat
  dsimp only [prepark, setHub]
  split
  · rfl
  · rw [Hub.prepark_newHeartbeat]
    dsimp only [Prod.map]
    split
    · rfl
    · rw [Hub.prepark_dropHeartbeat]
      rfl

private theorem prepark_setHeartbeat (name e : Int) (seconds : Nat) :
    (w.prepark P).setHeartbeat name e seconds =
      Prod.map (prepark P) id (w.setHeartbeat name e seconds) := by
  unfold setHeartbeat
  dsimp only [prepark, setHub]
  split
  · rw [Hub.prepark_setHeartbeat]
    rfl
  · rfl

private theorem prepark_stopHeartbeat (name : Int) :
    (w.prepark P).stopHeartbeat name = Prod.map (prepark P) id (w.stopHeartbeat name) := by
  unfold stopHeartbeat
  dsimp only [prepark, setHub]
  split
  · rfl
  · rw [Hub.prepark_stopHeartbeat]
    rfl

private theorem prepark_viewHeartbeat (name : Int) :
    (w.prepark P).viewHeartbeat name = Prod.map (prepark P) id (w.viewHeartbeat name) := by
  unfold viewHeartbeat
  dsimp only [prepark, setHub]
  split <;> rfl

private theorem prepark_dropHeartbeat (name : Int) :
    (w.prepark P).dropHeartbeat name = Prod.map (prepark P) id (w.dropHeartbeat name) := by
  unfold dropHeartbeat
  dsimp only [prepark, setHub]
  split
  · rfl
  · rw [Hub.prepark_dropHeartbeat]
    rfl

theorem prepark_begin (wait : Wait) (o : Outcome) :
    (w.prepark P).begin wait o = Prod.map (prepark P) id (w.begin wait o) := by
  unfold begin
  rw [hub_prepark, Hub.prepark_begin]
  rfl

theorem prepark_cue (call : Call) :
    (w.prepark P).cue call = Prod.map (prepark P) id (w.cue call) := by
  unfold cue
  dsimp only [prepark, setHub]
  repeat' split
  all_goals rfl

theorem prepark_finishCall (call : Call) :
    (w.prepark P).finishCall call = (w.finishCall call).prepark P := by
  unfold finishCall
  rw [hub_prepark, Hub.prepark_finish]
  rfl

theorem prepark_completeWait (wait : Wait) (o : Outcome) (reply : Reply) :
    (w.prepark P).completeWait wait o reply =
      Prod.map (prepark P) id (w.completeWait wait o reply) := by
  unfold completeWait
  rw [prepark_begin]
  cases w.begin wait o with
  | mk w' call =>
    cases call with
    | none => rfl
    | some call =>
      dsimp only [Prod.map, id]
      rw [prepark_cue]
      rfl

private theorem prepark_complete (fd : Fd) (d : Direction) (o : Outcome) :
    (w.prepark P).complete fd d o = Prod.map (prepark P) id (w.complete fd d o) := by
  unfold complete
  rw [hub_prepark, show (w.hub.prepark P).reactor = w.hub.reactor.prepark P from rfl,
    Manual.prepark_takeReady]
  cases w.hub.reactor.takeReady fd d with
  | none => rfl
  | some taken => exact prepark_completeWait P (w.modifyReactor fun _ => taken.2) taken.1 o _

private theorem prepark_invoke (slot : Int) (o : Outcome) :
    (w.prepark P).invoke slot o = Prod.map (prepark P) id (w.invoke slot o) := by
  unfold invoke
  rw [show (w.prepark P).slots = w.slots from rfl]
  cases w.slots.get? slot with
  | none => rfl
  | some wait => exact prepark_completeWait P { w with slots := w.slots.erase slot } wait o _

private theorem prepark_dispatch (h : Int) (ops : List Op) :
    (w.prepark P).dispatch h ops = Prod.map (prepark P) id (w.dispatch h ops) := by
  unfold dispatch
  dsimp only [prepark, setHub]
  split <;> rfl

/-- All operations but the delivery of cancellations do the same, whichever waits were parked
before, and leave these as they are. -/
theorem prepark_perform {op : Op} (hop : op ≠ .deliverCanceled) :
    (w.prepark P).perform op = Prod.map (prepark P) id (w.perform op) := by
  cases op with
  | deliverCanceled => exact absurd rfl hop
  | newHandler h => exact congrArg (fun w => ended (w, .done)) (prepark_newHandler P w h)
  | dropHandler h => exact congrArg ended (prepark_dropHandler P w h)
  | monitor h e fd ev => exact congrArg ended (prepark_monitor P w h e fd ev)
  | negotiate h e seconds => exact congrArg ended (prepark_negotiate P w h e seconds)
  | close h e => exact congrArg ended (prepark_close P w h e)
  | query h fd => exact congrArg ended (prepark_ask P w h _)
  | debug h => exact congrArg ended (prepark_ask P w h _)
  | busy h => exact congrArg ended (prepark_ask P w h _)
  | busyInside h => exact congrArg ended (prepark_ask P w h _)
  | dispatch h ops => exact prepark_dispatch P w h ops
  | newEngine e script plain =>
    exact congrArg (fun w => ended (w, .done)) (prepark_newEngine P w e script plain)
  | dropEngine e => exact congrArg ended (prepark_dropEngine P w e)
  | script e script => exact congrArg ended (prepark_extendScript P w e script)
  | refuse fd => rfl
  | advance elapsed => rfl
  | complete fd d o => exact prepark_complete P w fd d o
  | fireTimers => rfl
  | takeReady fd d slot => exact congrArg ended (prepark_takeReady P w fd d slot)
  | takeTimed slot => exact congrArg ended (prepark_takeTimed P w slot)
  | invoke slot o => exact prepark_invoke P w slot o
  | discard slot => exact congrArg ended (prepark_discard P w slot)
  | register name h fd => exact congrArg ended (prepark_register P w name h fd)
  | armRegistration name d tag => exact congrArg ended (prepark_armRegistration P w name d tag)
  | dropRegistration name => exact congrArg ended (prepark_dropRegistration P w name)
  | newTimer name => exact congrArg (fun w => ended (w, .done)) (prepark_newTimer P w name)
  | armTimer name delay tag => exact congrArg ended (prepark_armTimer P w name delay tag)
  | cancelTimer name => exact congrArg ended (prepark_cancelTimer P w name)
  | dropTimer name => exact congrArg ended (prepark_dropTimer P w name)
  | newStrand s => exact congrArg (fun w => ended (w, .done)) (prepark_newStrand P w s)
  | dropStrand s => exact congrArg ended (prepark_dropStrand P w s)
  | strandBusy s => exact congrArg ended (prepark_strandBusy P w s)
  | newWatcher x s fd => exact congrArg ended (prepark_newWatcher P w x s fd)
  | setWatcher x e ev => exact congrArg ended (prepark_setWatcher P w x e ev)
  | retireWatcher x => exact congrArg ended (prepark_retireWatcher P w x)
  | viewWatcher x => exact congrArg ended (prepark_viewWatcher P w x)
  | dropWatcher x => exact congrArg ended (prepark_dropWatcher P w x)
  | newHeartbeat t s => exact congrArg ended (prepark_newHeartbeat P w t s)
  | setHeartbeat t e seconds => exact congrArg ended (prepark_setHeartbeat P w t e seconds)
  | stopHeartbeat t => exact congrArg ended (prepark_stopHeartbeat P w t)
  | viewHeartbeat t => exact congrArg ended (prepark_viewHeartbeat P w t)
  | dropHeartbeat t => exact congrArg ended (prepark_dropHeartbeat P w t)

end World
end Scenario
end Wakeup
