import Wakeup.Scenario.Run

/-! Runs, what happens in them, and the calls that are in progress at a point of a run. Every world
that a scenario shows is reached by a run from an empty world. -/
namespace Wakeup.Scenario

/-- What happened in a run. Handlers are named by their strands. -/
inductive Event
  /-- A handler accepted what an engine asked of a descriptor. -/
  | monitored (strand engine : Nat) (fd : Fd) (mask : Events)
  /-- A handler accepted an interval of heartbeats that an engine asked for. -/
  | negotiated (strand engine : Nat) (interval : Interval)
  /-- A callback was run, and the engine that it names was alive or not. -/
  | completed (wait : Wait) (outcome : Outcome) (served : Bool)
  /-- A callback was thrown away without being run. -/
  | discarded (wait : Wait)
  deriving DecidableEq

/-- Whether the engine that a callback names is alive. -/
def serves (hub : Hub Manual) : Callback → Bool
  | .ready _ _ e => hub.engineAlive e
  | .beat _ _ e => hub.engineAlive e
  | .bare _ => false

namespace World

def completed (w : World) (wait : Wait) (o : Outcome) : Event :=
  .completed wait o (serves w.hub wait.callback)

/-- The handlers that are alive. -/
def live (w : World) : List Handler := w.handlers.values ++ w.replaced

/-- What happens when an operation is performed, before the operations that it leads to. -/
def events (op : Op) (w : World) : List Event :=
  match op with
  | .monitor h e fd ev =>
    match w.engines.get? e, w.handlers.get? h with
    | some engine, some handler =>
      match (handler.monitor engine fd ev w.hub).1 with
      | .ok _ => [.monitored handler.strand engine fd ev]
      | .error _ => []
    | _, _ => []
  | .negotiate h e seconds =>
    match w.engines.get? e, w.handlers.get? h, Interval.ofSeconds? seconds with
    | some engine, some handler, some interval => [.negotiated handler.strand engine interval]
    | _, _, _ => []
  | .complete fd d o =>
    match w.hub.reactor.takeReady fd d with
    | none => []
    | some (wait, _) => [w.completed wait o]
  | .invoke slot o => (w.slots.get? slot).toList.map (w.completed · o)
  | .deliverCanceled => w.hub.reactor.parked.map (w.completed · (.error .canceled))
  | .takeReady fd d slot =>
    match w.hub.reactor.takeReady fd d with
    | none => []
    | some _ => (w.slots.get? slot).toList.map .discarded
  | .takeTimed slot =>
    match w.hub.reactor.takeEarliest with
    | none => []
    | some _ => (w.slots.get? slot).toList.map .discarded
  | .discard slot => (w.slots.get? slot).toList.map .discarded
  | _ => []

end World

def Activity.call? : Activity → Option Call
  | .completion cue _ => some cue.call
  | .firing _ _ (some cue) => some cue.call
  | _ => none

def Activity.inside? : Activity → Option Nat
  | .inside s => some s
  | _ => none

namespace Config

/-- The calls of engines in progress, innermost first. -/
def calls (c : Config) : List Call :=
  (c.frame :: c.below).filterMap fun f => f.activity.call?

/-- The strands of dispatches in progress, innermost first. -/
def insides (c : Config) : List Nat :=
  (c.frame :: c.below).filterMap fun f => f.activity.inside?

/-- What happens in the next step. -/
def events (c : Config) : List Event :=
  match c.frame.todo with
  | op :: _ => c.world.events op
  | [] =>
    match c.frame.activity with
    | .firing _ _ none =>
      match c.world.hub.reactor.takeDue with
      | none => []
      | some (wait, _) => [c.world.completed wait (.ok ())]
    | _ => []

/-- The runs from a configuration, with what happened in them, latest first. When nothing is left
to do, more operations can be asked for. -/
inductive Run (c₀ : Config) : Config → List Event → Prop
  | refl : Run c₀ c₀ []
  | step {c c' : Config} {log : List Event} :
      Run c₀ c log → c.step = some c' → Run c₀ c' (c.events.reverse ++ log)
  | more {c : Config} {log : List Event} (ops : List Op) :
      Run c₀ c log → c.step = none → Run c₀ (c.world.start ops) log

/-- The configurations of all runs from an empty world. -/
def Reached (c : Config) (log : List Event) : Prop :=
  ∃ ops, Run (({} : World).start ops) c log

/-- A number of steps, or all that there are. -/
def steps : Nat → Config × List Event → Config × List Event
  | 0, p => p
  | n + 1, (c, log) =>
    match c.step with
    | none => (c, log)
    | some c' => steps n (c', c.events.reverse ++ log)

/-- A number of steps of operations in an empty world. -/
def sample (ops : List Op) (n : Nat) : Config × List Event :=
  steps n (({} : World).start ops, [])

private theorem run_steps {c₀ c : Config} {log : List Event} (h : Run c₀ c log) (n : Nat) :
    Run c₀ (steps n (c, log)).1 (steps n (c, log)).2 := by
  induction n generalizing c log with
  | zero => exact h
  | succ n ih =>
    unfold steps
    split
    · exact h
    · rename_i c' hs
      exact ih (h.step hs)

theorem reached_sample (ops : List Op) (n : Nat) :
    Reached (sample ops n).1 (sample ops n).2 :=
  ⟨ops, run_steps .refl n⟩

/-- The configurations that come later in a run. -/
def Later (c c' : Config) : Prop := ∃ log, Run c c' log

theorem Later.refl (c : Config) : Later c c := ⟨[], .refl⟩

theorem Run.trans {c₀ c₁ c₂ : Config} {log log' : List Event} (h : Run c₀ c₁ log)
    (h' : Run c₁ c₂ log') : Run c₀ c₂ (log' ++ log) := by
  induction h' with
  | refl => exact h
  | step _ hs ih =>
    rw [List.append_assoc]
    exact ih.step hs
  | more ops _ hs ih => exact ih.more ops hs

/-- The step that performs an operation which ends at once. -/
theorem step_of_ended {c : Config} {op : Op} {todo : List Op} {w : World} {reply : Reply}
    (ht : c.frame.todo = op :: todo) (hp : c.world.perform op = World.ended (w, reply)) :
    c.step = some ⟨w, { c.frame with
      todo := todo, entries := .mk reply [] :: c.frame.entries }, c.below⟩ := by
  unfold step
  rw [ht]
  simp only [hp, World.ended]
  rfl

theorem Reached.run {c c' : Config} {log log' : List Event} (h : Reached c log)
    (hr : Run c c' log') : Reached c' (log' ++ log) := by
  obtain ⟨ops, h⟩ := h
  exact ⟨ops, h.trans hr⟩

theorem Reached.step {c c' : Config} {log : List Event} (h : Reached c log)
    (hs : c.step = some c') : Reached c' (c.events.reverse ++ log) := by
  obtain ⟨ops, h⟩ := h
  exact ⟨ops, h.step hs⟩

theorem Later.step {c c' c'' : Config} (h : Later c c') (hs : c'.step = some c'') :
    Later c c'' := by
  obtain ⟨log, h⟩ := h
  exact ⟨_, h.step hs⟩

/-- The world that `run` answers is that of a later configuration with nothing left to do. -/
theorem later_run (c : Config) :
    ∃ c', Later c c' ∧ c'.step = none ∧ c'.world = c.run.1 := by
  induction c using run.induct with
  | case1 c hs => exact ⟨c, .refl c, hs, by rw [run_of_step_eq_none hs]⟩
  | case2 c c' hs ih =>
    obtain ⟨c'', ⟨log, hr⟩, hn, hw⟩ := ih
    exact ⟨c'', ⟨_, (Run.refl.step hs).trans hr⟩, hn, by rw [hw, run_of_step_eq_some hs]⟩

theorem Reached.performAll {c : Config} {log : List Event} (h : Reached c log)
    (hs : c.step = none) (ops : List Op) :
    ∃ c' log', Reached c' log' ∧ c'.step = none ∧ c'.world = (c.world.performAll ops).1 := by
  obtain ⟨ops₀, h⟩ := h
  obtain ⟨c', ⟨log', hr⟩, hn, hw⟩ := later_run (c.world.start ops)
  exact ⟨c', log' ++ log, ⟨ops₀, (h.more ops hs).trans hr⟩, hn, hw⟩

/-- Runs from an empty world pass through the world in which a scenario starts. -/
theorem reached_initial (script : Script Op) :
    ∃ c log, Reached c log ∧ c.step = none ∧ c.world = World.initial script := by
  let ops : List Op := [.newHandler 0, .newEngine 0 script false, .newStrand 0]
  obtain ⟨c, ⟨log, hr⟩, hn, hw⟩ := later_run (({} : World).start ops)
  refine ⟨c, log, ⟨ops, hr⟩, hn, ?_⟩
  rw [hw]
  have hstep (w : World) (op : Op) (rest : List Op) (entries : List Entry) (w' : World)
      (entry : Entry) (hp : w.perform op = (w', .ended entry)) :
      step ⟨w, ⟨.outside, op :: rest, entries⟩, []⟩ =
        some ⟨w', ⟨.outside, rest, entry :: entries⟩, []⟩ := by
    simp only [step, hp, Frame.push]
  unfold World.start
  rw [run_of_step_eq_some (hstep _ _ _ _ _ _ rfl), run_of_step_eq_some (hstep _ _ _ _ _ _ rfl),
    run_of_step_eq_some (hstep _ _ _ _ _ _ rfl), run_of_step_eq_none rfl]
  rfl

end Config

/-- Whether a frame is open for something that an operation led to. -/
def Activity.nested : Activity → Bool
  | .outside => false
  | _ => true

/-- Only the last frame is outside of all callbacks. -/
def Grounded : List Frame → Prop
  | [] => False
  | [f] => f.activity.nested = false
  | f :: g :: fs => f.activity.nested = true ∧ Grounded (g :: fs)

private theorem nested_perform {w w' : World} {op : Op} {activity : Activity} {ops : List Op}
    (h : w.perform op = (w', .opened activity ops)) : activity.nested = true := by
  have hc (wait : Wait) (o : Outcome) (reply : Reply) (w : World)
      (h : w.completeWait wait o reply = (w', .opened activity ops)) :
      activity.nested = true := by
    unfold World.completeWait at h
    split at h
    · cases h
    · cases h
      rfl
  cases op with
  | dispatch =>
    simp only [World.perform, World.dispatch] at h
    split at h <;> cases h
    rfl
  | complete =>
    simp only [World.perform, World.complete] at h
    split at h
    · cases h
    · exact hc _ _ _ _ h
  | invoke =>
    simp only [World.perform, World.invoke] at h
    split at h
    · cases h
    · exact hc _ _ _ _ h
  | fireTimers =>
    cases h
    rfl
  | _ => cases h

namespace Config
variable {c c' : Config}

private theorem grounded_close {w : World} {entry : Entry} {f : Frame} {below : List Frame}
    (hg : Grounded (f :: below)) (h : close w entry below = some c') :
    Grounded (c'.frame :: c'.below) := by
  unfold close at h
  split at h
  · cases h
  · rename_i g below'
    cases h
    cases below' with
    | nil => exact hg.2
    | cons => exact hg.2

private theorem grounded_of_activity {f g : Frame} {below : List Frame} (hg : Grounded (f :: below))
    (h : g.activity.nested = f.activity.nested) : Grounded (g :: below) := by
  cases below with
  | nil => exact h.trans hg
  | cons => exact ⟨h.trans hg.1, hg.2⟩

theorem grounded_step (hg : Grounded (c.frame :: c.below)) (h : c.step = some c') :
    Grounded (c'.frame :: c'.below) := by
  obtain ⟨w, ⟨activity, todo, entries⟩, below⟩ := c
  unfold step at h
  cases todo with
  | cons op todo =>
    dsimp only at h
    cases hp : w.perform op with
    | mk w' effect =>
      rw [hp] at h
      cases effect with
      | ended entry =>
        cases h
        exact grounded_of_activity hg rfl
      | opened activity' ops =>
        cases h
        exact ⟨nested_perform hp, grounded_of_activity hg rfl⟩
  | nil =>
    cases activity with
    | outside => cases h
    | inside s => exact grounded_close hg h
    | completion cue reply => exact grounded_close hg h
    | firing count records current =>
      cases current with
      | none =>
        dsimp only at h
        unfold fire at h
        split at h
        · exact grounded_close hg h
        · split at h
          · cases h
            exact grounded_of_activity hg rfl
          · cases h
            exact grounded_of_activity hg rfl
      | some cue =>
        cases h
        exact grounded_of_activity hg rfl

/-- A configuration with nothing left to do is outside of all callbacks. -/
theorem eq_outside_of_step_eq_none (hg : Grounded (c.frame :: c.below)) (h : c.step = none) :
    c.calls = [] ∧ c.insides = [] := by
  obtain ⟨w, ⟨activity, todo, entries⟩, below⟩ := c
  have hclose (w : World) (entry : Entry) (h : close w entry below = none) : below = [] := by
    unfold close at h
    split at h
    · rfl
    · cases h
  have hlast (hb : below = []) : activity.nested = false := by
    rw [hb] at hg
    exact hg
  unfold step at h
  cases todo with
  | cons op todo =>
    dsimp only at h
    split at h <;> cases h
  | nil =>
    cases activity with
    | outside =>
      cases below with
      | nil => exact ⟨rfl, rfl⟩
      | cons => cases hg.1
    | inside s => cases hlast (hclose _ _ h)
    | completion cue reply => cases hlast (hclose _ _ h)
    | firing count records current =>
      cases current with
      | some cue => cases h
      | none =>
        dsimp only at h
        unfold fire at h
        split at h
        · cases hlast (hclose _ _ h)
        · split at h <;> cases h

theorem Reached.grounded {log : List Event} (h : Reached c log) :
    Grounded (c.frame :: c.below) := by
  obtain ⟨ops, h⟩ := h
  induction h with
  | refl => exact rfl
  | step _ hs ih => exact grounded_step ih hs
  | more => exact rfl

end Config
end Wakeup.Scenario
