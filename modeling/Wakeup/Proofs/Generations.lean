import Wakeup.Proofs.Engines
import Wakeup.Proofs.Closing

/-! Generations of schedules. Only operations that set a heartbeat or stop it begin another. -/
namespace Wakeup

namespace Hub
variable {hub hub' : Hub Manual} {t : Nat}

/-- How often a heartbeat was set or stopped. -/
def generation? (hub : Hub Manual) (t : Nat) : Option Nat :=
  (hub.schedule? t).map (·.generation)

theorem generation?_eq {x : Schedule} (h : hub.schedule? t = some x) :
    hub.generation? t = some x.generation := by
  rw [generation?, h, Option.map_some]

theorem generation_eq_of {x : Schedule} (h : hub.schedule? t = some x) {generation : Nat}
    (hg : hub.generation? t = some generation) : x.generation = generation :=
  Option.some.inj ((generation?_eq h).symm.trans hg)

theorem generation?_congr (h : hub'.schedule? t = hub.schedule? t) :
    hub'.generation? t = hub.generation? t := by
  unfold generation?
  rw [h]

theorem generation?_of_heartbeats (h : hub'.heartbeats = hub.heartbeats) (t : Nat) :
    hub'.generation? t = hub.generation? t :=
  generation?_congr (schedule?_congr h t)

theorem generation?_newHeartbeat (hub : Hub Manual) (s : Nat) (ht : t < hub.heartbeats.length) :
    (hub.newHeartbeat s).2.generation? t = hub.generation? t :=
  generation?_congr ((schedule?_newHeartbeat hub s t).trans (if_neg ht.ne))

theorem generation?_setHeartbeat {generation : Nat} (h : hub.generation? t = some generation)
    (e : Nat) (interval : Interval) :
    (hub.setHeartbeat t e interval).generation? t = some (generation + 1) := by
  obtain ⟨x, hx, rfl⟩ := Option.map_eq_some_iff.mp h
  rw [generation?, schedule?_setHeartbeat, if_pos rfl, hx]
  rfl

theorem generation?_stopHeartbeat {generation : Nat} (h : hub.generation? t = some generation) :
    (hub.stopHeartbeat t).generation? t = some (generation + 1) := by
  obtain ⟨x, hx, rfl⟩ := Option.map_eq_some_iff.mp h
  rw [generation?, schedule?_stopHeartbeat, if_pos rfl, hx]
  rfl

theorem generation?_setHeartbeat_of_ne {j : Nat} (h : j ≠ t) (hub : Hub Manual) (e : Nat)
    (interval : Interval) : (hub.setHeartbeat j e interval).generation? t = hub.generation? t :=
  generation?_congr ((schedule?_setHeartbeat hub j e interval t).trans (if_neg h))

theorem generation?_stopHeartbeat_of_ne {j : Nat} (h : j ≠ t) (hub : Hub Manual) :
    (hub.stopHeartbeat j).generation? t = hub.generation? t :=
  generation?_congr ((schedule?_stopHeartbeat hub j t).trans (if_neg h))

theorem generation?_dropHeartbeat (hub : Hub Manual) (j t : Nat) :
    (hub.dropHeartbeat j).generation? t = hub.generation? t :=
  generation?_congr (schedule?_dropHeartbeat hub j t)

theorem generation?_drop (h : Handler) (hub : Hub Manual) (t : Nat) :
    (h.drop hub).generation? t = hub.generation? t := by
  have hwatchers : ∀ (is : List Nat) (hub : Hub Manual),
      (is.foldl (fun hub i => hub.dropWatcher i) hub).generation? t = hub.generation? t := by
    intro is
    induction is with
    | nil => exact fun _ => rfl
    | cons i is ih =>
      intro hub
      rw [List.foldl_cons, ih]
      exact generation?_of_heartbeats (heartbeats_dropWatcher hub i) t
  unfold Handler.drop
  cases h.heartbeat with
  | none => exact hwatchers _ hub
  | some j => exact (generation?_dropHeartbeat _ j t).trans (hwatchers _ hub)

/-- A wait that fails ends a schedule, and its generation lasts. -/
theorem generation?_begin (hub : Hub Manual) (c : Callback) (o : Outcome) (t : Nat) :
    (hub.begin c o).1.generation? t = hub.generation? t := by
  unfold generation?
  rw [schedule?_begin]
  split
  · rw [Option.map_map]
    rfl
  · rfl

theorem generation?_finish (hub : Hub Manual) (call : Call) (t : Nat) :
    (hub.finish call).generation? t = hub.generation? t := by
  unfold generation?
  rw [schedule?_finish]
  split
  · split
    · rw [Option.map_map]
      exact congrArg (Option.map · _) (funext fun x => x.generation_next _)
    · rfl
  · rfl

end Hub

namespace Scenario
namespace World
variable {w : World} {t : Nat}

/-- The heartbeat that an operation sets, the engine for which it does, and the interval. -/
def sets? (op : Op) (w : World) : Option (Nat × Nat × Interval) :=
  match op with
  | .negotiate h e seconds =>
    match w.engines.get? e, w.handlers.get? h, Interval.ofSeconds? seconds with
    | some engine, some handler, some interval =>
      some (handler.heartbeat.getD w.hub.heartbeats.length, engine, interval)
    | _, _, _ => none
  | .setHeartbeat t e seconds =>
    match w.engines.get? e, w.heartbeats.get? t, Interval.ofSeconds? seconds with
    | some engine, some t, some interval => some (t, engine, interval)
    | _, _, _ => none
  | _ => none

/-- The heartbeat that an operation stops. Closing a handler does that. -/
def halts? (op : Op) (w : World) : Option Nat :=
  match op with
  | .close h e =>
    match w.engines.get? e, w.handlers.get? h with
    | some _, some handler => handler.heartbeat
    | _, _ => none
  | .stopHeartbeat t => w.heartbeats.get? t
  | _ => none

private theorem generation?_newHandler (w : World) (n : Int) (ht : t < w.hub.heartbeats.length) :
    (w.newHandler n).hub.generation? t = w.hub.generation? t := by
  have hcreate : (Handler.create w.hub).2.generation? t = w.hub.generation? t :=
    Hub.generation?_newHeartbeat w.hub.newStrand.2 w.hub.newStrand.1 ht
  simp only [newHandler]
  split
  · exact hcreate
  · unfold replaceHandler
    split
    · exact hcreate
    · exact (Hub.generation?_drop _ _ t).trans hcreate

private theorem generation?_negotiate (w : World) {n e : Int} {seconds : Nat}
    (ht : t < w.hub.heartbeats.length)
    (hset : (w.sets? (.negotiate n e seconds)).map (·.1) ≠ some t) :
    (w.negotiate n e seconds).1.hub.generation? t = w.hub.generation? t := by
  unfold negotiate
  unfold sets? at hset
  split
  · rename_i engine h he hh
    simp only [he, hh] at hset
    unfold Handler.negotiate
    cases hi : Interval.ofSeconds? seconds with
    | none => rfl
    | some interval =>
      simp only [hi] at hset
      cases hb : h.heartbeat with
      | some j =>
        rw [hb] at hset
        have hne : j ≠ t := fun heq => hset (congrArg some heq)
        exact Hub.generation?_setHeartbeat_of_ne hne w.hub engine interval
      | none =>
        have hne : (w.hub.newHeartbeat h.strand).1 ≠ t := ht.ne'
        exact (Hub.generation?_setHeartbeat_of_ne hne _ engine interval).trans
          (Hub.generation?_newHeartbeat w.hub h.strand ht)
  · rfl

private theorem generation?_close (w : World) {n e : Int} (hhalt : w.halts? (.close n e) ≠ some t) :
    (w.close n e).1.hub.generation? t = w.hub.generation? t := by
  unfold close
  unfold halts? at hhalt
  split
  · rename_i engine h he hh
    simp only [he, hh] at hhalt
    unfold Handler.close
    cases hb : h.heartbeat with
    | none => rfl
    | some j =>
      have hne : j ≠ t := fun heq => hhalt (hb.trans (congrArg some heq))
      exact (Hub.generation?_dropHeartbeat _ j t).trans
        (Hub.generation?_stopHeartbeat_of_ne hne w.hub)
  · rfl

theorem generation?_completeWait (w : World) (wait : Wait) (o : Outcome) (reply : Reply) :
    (w.completeWait wait o reply).1.hub.generation? t = w.hub.generation? t := by
  rw [hub_completeWait]
  exact Hub.generation?_begin _ _ _ t

/-- An operation that neither sets a heartbeat nor stops it begins no generation of it. -/
theorem generation?_perform (w : World) {op : Op} (ht : t < w.hub.heartbeats.length)
    (hset : (w.sets? op).map (·.1) ≠ some t) (hhalt : w.halts? op ≠ some t) :
    (w.perform op).1.hub.generation? t = w.hub.generation? t := by
  cases op with
  | newHandler n => exact generation?_newHandler w n ht
  | dropHandler n =>
    simp only [perform, ended, dropHandler]
    split
    · rfl
    · exact Hub.generation?_drop _ w.hub t
  | monitor n e fd ev =>
    simp only [perform, ended, monitor]
    split
    · rename_i engine h _ _
      have hmonitor : (h.monitor engine fd ev w.hub).2.heartbeats = w.hub.heartbeats := by
        unfold Handler.monitor
        split
        · split
          · rfl
          · cases hn : w.hub.newWatcher h.strand fd with
            | mk result hub =>
              cases result with
              | error err =>
                obtain ⟨m, -, rfl⟩ := Hub.newWatcher_error hn
                rfl
              | ok i =>
                exact (Hub.heartbeats_setInterest hub i engine ev).trans
                  (Hub.heartbeats_newWatcher hn)
        · split
          · exact Hub.heartbeats_dropWatcher _ _
          · exact Hub.heartbeats_setInterest w.hub _ engine ev
      split <;> rename_i hm <;> rw [hm] at hmonitor <;>
        exact Hub.generation?_of_heartbeats hmonitor t
    · rfl
  | negotiate n e seconds => exact generation?_negotiate w ht hset
  | close n e => exact generation?_close w hhalt
  | complete fd d o =>
    simp only [perform, complete]
    split
    · rfl
    · exact generation?_completeWait _ _ _ _
  | invoke slot o =>
    simp only [perform, invoke]
    split
    · rfl
    · exact generation?_completeWait _ _ _ _
  | deliverCanceled =>
    exact Hub.generation?_of_heartbeats (hub_deliver w.hub.reactor.takeParked.1 _).1 t
  | newWatcher n s fd =>
    simp only [perform, ended, newWatcher]
    split
    · rfl
    · rename_i strand _
      cases hn : w.hub.newWatcher strand fd with
      | mk result hub =>
        cases result with
        | error err =>
          obtain ⟨m, -, rfl⟩ := Hub.newWatcher_error hn
          rfl
        | ok x =>
          have hnew := Hub.heartbeats_newWatcher hn
          dsimp only
          split
          · exact Hub.generation?_of_heartbeats hnew t
          · exact Hub.generation?_of_heartbeats ((Hub.heartbeats_dropWatcher _ _).trans hnew) t
  | setWatcher n e ev =>
    simp only [perform, ended, setWatcher]
    split
    · exact Hub.generation?_of_heartbeats (Hub.heartbeats_setInterest _ _ _ _) t
    · rfl
  | dropWatcher n =>
    simp only [perform, ended, dropWatcher]
    split
    · rfl
    · exact Hub.generation?_of_heartbeats (Hub.heartbeats_dropWatcher _ _) t
  | newHeartbeat n s =>
    simp only [perform, ended, newHeartbeat]
    split
    · rfl
    · rename_i strand _
      have hnew := Hub.generation?_newHeartbeat w.hub strand ht
      dsimp only
      split
      · exact hnew
      · exact (Hub.generation?_dropHeartbeat _ _ t).trans hnew
  | setHeartbeat n e seconds =>
    simp only [perform, ended, setHeartbeat]
    unfold sets? at hset
    split
    · rename_i engine j interval he hj hi
      simp only [he, hj, hi] at hset
      have hne : j ≠ t := fun heq => hset (congrArg some heq)
      exact Hub.generation?_setHeartbeat_of_ne hne w.hub engine interval
    · rfl
  | stopHeartbeat n =>
    simp only [perform, ended, stopHeartbeat]
    split
    · rfl
    · rename_i j hj
      have hne : j ≠ t := fun heq => hhalt (hj.trans (congrArg some heq))
      exact Hub.generation?_stopHeartbeat_of_ne hne w.hub
  | dropHeartbeat n =>
    simp only [perform, ended, dropHeartbeat]
    split
    · rfl
    · exact Hub.generation?_dropHeartbeat w.hub _ t
  | _ =>
    simp only [perform, ended, ask, dispatch, newEngine, dropEngine, extendScript, takeReady,
      takeTimed, discard, register, armRegistration, dropRegistration, newTimer, armTimer,
      cancelTimer, dropTimer, newStrand, dropStrand, strandBusy, retireWatcher, viewWatcher,
      viewHeartbeat]
    repeat' split
    all_goals exact Hub.generation?_of_heartbeats rfl t

private theorem generation?_leaveDispatch (w : World) (s t : Nat) :
    (w.leaveDispatch s).hub.generation? t = w.hub.generation? t := by
  simp only [leaveDispatch]
  split
  · rfl
  · split
    · rfl
    · exact Hub.generation?_drop _ _ t

end World

namespace Config
open Ledger
variable {c c' : Config} {log : List Event} {t e : Nat} {interval : Interval}

/-- The heartbeat that the next step sets, the engine for which it does, and the interval. -/
def sets? (c : Config) : Option (Nat × Nat × Interval) :=
  c.frame.todo.head?.bind c.world.sets?

/-- The heartbeat that the next step stops. -/
def halts? (c : Config) : Option Nat :=
  c.frame.todo.head?.bind c.world.halts?

/-- A step that neither sets a heartbeat nor stops it begins no generation of it. -/
theorem generation?_step (hs : c.step = some c') (ht : t < c.world.hub.heartbeats.length)
    (hset : c.sets?.map (·.1) ≠ some t) (hhalt : c.halts? ≠ some t) :
    c'.world.hub.generation? t = c.world.hub.generation? t := by
  obtain ⟨w, ⟨activity, todo, entries⟩, below⟩ := c
  unfold step at hs
  cases todo with
  | cons op todo =>
    have hperform := w.generation?_perform ht hset hhalt
    dsimp only at hs
    cases hp : w.perform op with
    | mk w' effect =>
      rw [hp] at hs hperform
      cases effect with
      | ended entry =>
        cases hs
        exact hperform
      | opened activity' ops =>
        cases hs
        exact hperform
  | nil =>
    cases activity with
    | outside => cases hs
    | inside s => rw [close_world hs, World.generation?_leaveDispatch]
    | completion cue reply =>
      rw [close_world hs]
      exact Hub.generation?_finish w.hub cue.call t
    | firing count records current =>
      cases current with
      | some cue =>
        cases hs
        exact Hub.generation?_finish w.hub cue.call t
      | none =>
        dsimp only at hs
        unfold fire at hs
        cases htaken : w.hub.reactor.takeDue with
        | none =>
          rw [htaken] at hs
          rw [close_world hs]
        | some taken =>
          obtain ⟨wait, m⟩ := taken
          have hcomplete := World.generation?_completeWait (t := t) (w.modifyReactor fun _ => m)
            wait (.ok ()) .done
          unfold World.completeWait at hcomplete
          rw [htaken] at hs
          dsimp only at hs
          cases hb : (w.modifyReactor fun _ => m).begin wait (.ok ()) with
          | mk w' call =>
            rw [hb] at hs hcomplete
            cases call with
            | none =>
              cases hs
              exact hcomplete
            | some call =>
              cases hs
              exact hcomplete

/-- The step that sets a heartbeat. The heartbeat is held, or it is made for a handler. -/
theorem step_of_sets (hr : Reached c log) (hs : c.step = some c')
    (hset : c.sets? = some (t, e, interval)) :
    ∃ hub : Hub Manual, c'.world.hub = hub.setHeartbeat t e interval ∧
      hub.reactor.now = c.world.hub.reactor.now ∧ c'.calls = c.calls ∧
      (∃ n, c.world.engines.get? n = some e) ∧
      t ∈ (c'.ledger (c.events.reverse ++ log)).heartbeats.map (·.2) := by
  have hr' := hr.step hs
  obtain ⟨op, htodo, hop⟩ := Option.bind_eq_some_iff.mp hset
  obtain ⟨todo, htodo⟩ := List.head?_eq_some_iff.mp htodo
  cases op with
  | negotiate n m seconds =>
    simp only [World.sets?] at hop
    split at hop
    · rename_i engine h i he hh hi
      cases hop
      obtain ⟨t, hub, ht, hnow, hnegotiate⟩ := h.negotiate_of_interval hi e c.world.hub
      let h' : Handler := { h with heartbeat := some t }
      let w' : World := { c.world with
        hub := hub.setHeartbeat t e interval, handlers := c.world.handlers.insert n h' }
      have hp : c.world.perform (.negotiate n m seconds) = World.ended (w', .number seconds) := by
        simp only [World.perform, World.negotiate, he, hh, hnegotiate]
        rfl
      cases hs.symm.trans (step_of_ended htodo hp)
      have hlive : h' ∈ w'.live := mem_live_of_get? (Table.get?_insert_self _ n h')
      have hmem := (mem_heartbeats_iff hr' hlive).mpr rfl
      rw [← ht]
      exact ⟨hub, rfl, hnow, rfl, ⟨m, he⟩, Multiset.mem_map_of_mem (·.2) hmem⟩
    · cases hop
  | setHeartbeat n m seconds =>
    simp only [World.sets?] at hop
    split at hop
    · rename_i engine j i he hj hi
      cases hop
      have hp : c.world.perform (.setHeartbeat n m seconds) =
          World.ended (c.world.setHeartbeat n m seconds) := rfl
      simp only [World.setHeartbeat, he, hj, hi] at hp
      cases hs.symm.trans (step_of_ended htodo hp)
      have hmem := mem_heartbeats (w := c.world) c.calls c.insides log hj
      exact ⟨c.world.hub, rfl, rfl, rfl, ⟨m, he⟩, Multiset.mem_map_of_mem (·.2) hmem⟩
    · cases hop
  | _ => cases hop

end Config
end Scenario
end Wakeup
