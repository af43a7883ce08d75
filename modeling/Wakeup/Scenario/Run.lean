import Wakeup.Scenario.Backlog
import Wakeup.Scenario.Snapshot

/-! Running a scenario to its end. Every run ends: each step makes the operations to come smaller,
or leaves them as they are and shortens the backlog of overdue beats. -/
namespace Wakeup.Scenario

namespace Config

/-- The size of the operations to come. -/
noncomputable def size (c : Config) : Nat :=
  c.world.scripted + sizeOf c.frame.todo + total (fun f => sizeOf f.todo) c.below

/-- The backlog, in which a call of a timer wait in progress counts too. -/
def late (c : Config) : Nat :=
  c.world.hub.backlog +
    match c.frame.activity with
    | .firing _ _ (some _) => 1
    | _ => 0

/-- Each step makes the pair of size and backlog smaller. -/
def Before (c' c : Config) : Prop :=
  c'.size < c.size ∨ c'.size = c.size ∧ c'.late < c.late

theorem before_wellFounded : WellFounded Before := by
  have h : WellFounded (Prod.Lex (· < ·) (· < ·) : Nat × Nat → Nat × Nat → Prop) :=
    (Prod.lex ⟨_, Nat.lt_wfRel.wf⟩ ⟨_, Nat.lt_wfRel.wf⟩).wf
  refine Subrelation.wf ?_ (InvImage.wf (fun c : Config => (c.size, c.late)) h)
  rintro c' c (hlt | ⟨heq, hlt⟩)
  · exact Prod.Lex.left _ _ hlt
  · simp only [InvImage, heq]
    exact Prod.Lex.right _ hlt

theorem size_close {w : World} {entry : Entry} {below : List Frame} {c : Config}
    (h : close w entry below = some c) :
    c.size = w.scripted + total (fun f => sizeOf f.todo) below := by
  simp only [close] at h
  split at h
  · simp at h
  · simp only [Option.some.injEq] at h
    subst h
    simp [size, Frame.push]
    omega

theorem before_fire {w : World} {count : Nat} {records : List Record} {entries : List Entry}
    {below : List Frame} {c : Config} (h : fire w count records below = some c) :
    Before c ⟨w, ⟨.firing count records none, [], entries⟩, below⟩ := by
  simp only [fire] at h
  split at h
  · left
    rw [size_close h]
    simp [size]
  · rename_i wait m hdue
    have hd := Manual.dueCount_takeDue hdue
    have hlate : (w.modifyReactor fun _ => m).hub.backlog + 2 = w.hub.backlog := by
      simp only [World.modifyReactor, World.hub_setHub, Hub.backlog, Hub.overdue, hd.2]
      omega
    have hle := Hub.backlog_begin_le wait.callback (.ok ()) (w.modifyReactor fun _ => m).hub
    rw [← World.hub_begin] at hle
    have hs := World.scripted_congr (World.actors_begin wait (.ok ()) (w.modifyReactor fun _ => m))
    have hw : (w.modifyReactor fun _ => m).scripted = w.scripted := rfl
    split at h
    · rename_i w' hb
      simp only [Option.some.injEq] at h
      subst h
      rw [hb] at hle hs
      right
      simp only [size, late]
      simp only at hle hs
      omega
    · rename_i w' call hb
      simp only [Option.some.injEq] at h
      subst h
      rw [hb] at hle hs
      have hc := World.scripted_cue_le call w'
      have hh := World.hub_cue call w'
      simp only [Before, size, late, hh]
      simp only at hle hs
      simp
      omega

theorem before_of_step {c c' : Config} (h : c.step = some c') : Before c' c := by
  obtain ⟨w, ⟨activity, todo, entries⟩, below⟩ := c
  simp only [step] at h
  split at h
  · rename_i op todo
    have hp := World.scripted_perform_lt op w
    left
    split at h
    · rename_i hw
      rw [hw] at hp
      simp only [Option.some.injEq] at h
      subst h
      simp [size, Frame.push]
      simp [Effect.size] at hp
      omega
    · rename_i hw
      rw [hw] at hp
      simp only [Option.some.injEq] at h
      subst h
      simp [size]
      simp [Effect.size] at hp
      omega
  · split at h
    · simp at h
    · rename_i s
      have := World.scripted_congr (World.actors_leaveDispatch s w)
      left
      rw [size_close h]
      simp [size]
      omega
    · left
      rw [size_close h]
      simp [size, World.scripted, World.finishCall]
    · exact before_fire h
    · rename_i count records cue
      simp only [Option.some.injEq] at h
      subst h
      have := Hub.backlog_finish_le cue.call w.hub
      right
      refine ⟨rfl, ?_⟩
      simp only [late, World.finishCall, World.hub_setHub]
      omega

/-- Takes all steps that are left, and answers the world and what came of the operations. -/
def run (c : Config) : World × List Entry :=
  match _h : c.step with
  | none => (c.world, c.frame.entries.reverse)
  | some c' => c'.run
termination_by before_wellFounded.wrap c
decreasing_by exact before_of_step (by assumption)

theorem run_of_step_eq_none {c : Config} (h : c.step = none) :
    c.run = (c.world, c.frame.entries.reverse) := by
  rw [run]
  split <;> simp_all

theorem run_of_step_eq_some {c c' : Config} (h : c.step = some c') : c.run = c'.run := by
  rw [run]
  split <;> simp_all

end Config

namespace World

/-- The configuration in which operations are about to be performed outside of all callbacks. -/
def start (w : World) (ops : List Op) : Config := ⟨w, ⟨.outside, ops, []⟩, []⟩

/-- Performs operations outside of all callbacks, with all that they lead to. -/
def performAll (ops : List Op) (w : World) : World × List Entry := (w.start ops).run

/-- Performs operations and shows the world after each. -/
def showEach : List Op → World → List (Entry × Snapshot)
  | [], _ => []
  | op :: ops, w =>
    let before := w.hub.reactor.released.length
    let (w', entries) := w.performAll [op]
    entries.map (·, w'.snapshot before) ++ showEach ops w'

end World

/-- Plays a scenario from a fresh world. -/
def play (script : Script Op) (ops : List Op) : List (Entry × Snapshot) :=
  (World.initial script).showEach ops

end Wakeup.Scenario
