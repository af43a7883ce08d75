import Wakeup.Proofs.Ledger

/-! The roster of a hub: how long its strands, watchers and heartbeats last, and by what names a
reactor knows them. Interest, schedules and waits do not occur in it. -/
namespace Wakeup

section Modify
variable {α β : Type} {f : α → α} {g : α → β}

theorem map_modify (k : β → β) (h : ∀ a, g (f a) = k (g a)) (l : List α) (i : Nat) :
    (l.modify i f).map g = (l.map g).modify i k := by
  refine List.ext_getElem? fun j => ?_
  simp only [List.getElem?_map, List.getElem?_modify]
  cases l[j]? with
  | none => rfl
  | some a =>
    by_cases hij : i = j
    · simp [hij, h]
    · simp [hij]

end Modify

structure Roster where
  strands : List Presence
  watchers : List Presence
  heartbeats : List Presence
  /-- The registration and the strand of each watcher. -/
  watched : List (Registration × Nat)
  /-- The timer and the strand of each heartbeat. -/
  timed : List (Nat × Nat)
  nextId : Nat

namespace Hub

def roster (hub : Hub Manual) : Roster where
  strands := hub.strands
  watchers := hub.watchers.map (·.presence)
  heartbeats := hub.heartbeats.map (·.presence)
  watched := hub.watchers.map fun x => (x.registration, x.strand)
  timed := hub.heartbeats.map fun x => (x.timer, x.strand)
  nextId := hub.reactor.nextId

theorem roster_of_getElem? {hub : Hub Manual} {i : Nat} {x : Watcher}
    (hx : hub.watchers[i]? = some x) :
    hub.roster.watched[i]? = some (x.registration, x.strand) ∧
      hub.roster.watchers[i]? = some x.presence := by
  constructor
  · change (hub.watchers.map _)[i]? = _
    rw [List.getElem?_map, hx]
    rfl
  · change (hub.watchers.map _)[i]? = _
    rw [List.getElem?_map, hx]
    rfl

variable (hub : Hub Manual)

theorem roster_setReactor (m : Manual) (h : m.nextId = hub.reactor.nextId) :
    ({ hub with reactor := m } : Hub Manual).roster = hub.roster := by
  unfold roster
  rw [h]

@[simp] theorem roster_modifyEngine (e : Nat) (f : Presence → Presence) :
    (hub.modifyEngine e f).roster = hub.roster := rfl

theorem roster_modifyStrand (s : Nat) (f : Presence → Presence) :
    (hub.modifyStrand s f).roster =
      { hub.roster with strands := hub.roster.strands.modify s f } := rfl

theorem roster_newStrand : hub.newStrand.2.roster =
    { hub.roster with strands := hub.roster.strands ++ [{}] } := rfl

theorem roster_newWatcher {s i : Nat} {fd : Fd} {hub hub' : Hub Manual}
    (h : hub.newWatcher s fd = (.ok i, hub')) :
    i = hub.roster.watchers.length ∧ hub'.roster = { hub.roster with
      watchers := hub.roster.watchers ++ [{}]
      watched := hub.roster.watched ++ [(⟨hub.roster.nextId, fd⟩, s)]
      nextId := hub.roster.nextId + 1 } := by
  simp only [newWatcher, Reactor.register, Manual.register] at h
  split at h
  · cases h
  · rename_i r m hr
    cases h
    split at hr
    · cases hr
    · cases hr
      simp [roster]

theorem roster_newHeartbeat (s : Nat) : (hub.newHeartbeat s).2.roster = { hub.roster with
    heartbeats := hub.roster.heartbeats ++ [{}]
    timed := hub.roster.timed ++ [(hub.roster.nextId, s)]
    nextId := hub.roster.nextId + 1 } := by
  simp [roster, newHeartbeat, Reactor.newTimer, Manual.newTimer]

theorem roster_modifyWatcher (w : Nat) (k : Presence → Presence) :
    (hub.modifyWatcher w fun x => { x with presence := k x.presence }).roster =
      { hub.roster with watchers := hub.roster.watchers.modify w k } := by
  let f (x : Watcher) : Watcher := { x with presence := k x.presence }
  have hpresence := map_modify (f := f) (g := fun x => x.presence) k (fun _ => rfl)
    hub.watchers w
  have hwatched := map_modify_of_eq hub.watchers w f (fun x => (x.registration, x.strand))
    fun _ => rfl
  simp only [roster, modifyWatcher, hpresence, hwatched, f]

theorem roster_modifyHeartbeat (t : Nat) (k : Presence → Presence) :
    (hub.modifyHeartbeat t fun x => { x with presence := k x.presence }).roster =
      { hub.roster with heartbeats := hub.roster.heartbeats.modify t k } := by
  let f (x : Heartbeat) : Heartbeat := { x with presence := k x.presence }
  have hpresence := map_modify (f := f) (g := fun x => x.presence) k (fun _ => rfl)
    hub.heartbeats t
  have htimed := map_modify_of_eq hub.heartbeats t f (fun x => (x.timer, x.strand)) fun _ => rfl
  simp only [roster, modifyHeartbeat, hpresence, htimed, f]

@[simp] theorem roster_modifySide (w : Nat) (d : Direction) (f : Side → Side) :
    (hub.modifySide w d f).roster = hub.roster := by
  simp [roster, modifySide, modifyWatcher, map_modify_of_eq]

@[simp] theorem roster_armSide (w : Nat) (d : Direction) (e : Nat) :
    (hub.armSide w d e).roster = hub.roster := by
  unfold armSide
  split
  · rfl
  · split
    · rfl
    · exact (roster_setReactor _ _ rfl).trans (roster_modifySide hub w d _)

@[simp] theorem roster_setSide (w e : Nat) (d : Direction) (wanted : Bool) :
    (hub.setSide w e d wanted).roster = hub.roster := by
  unfold setSide
  cases wanted <;> simp

@[simp] theorem roster_setInterest (w e : Nat) (ev : Events) :
    (hub.setInterest w e ev).roster = hub.roster := by
  simp [setInterest, Direction.all]

@[simp] theorem roster_retire (w : Nat) : (hub.retire w).roster = hub.roster := by
  simp [retire, Direction.all]

@[simp] theorem roster_reapWatcher (w : Nat) : (hub.reapWatcher w).roster = hub.roster := by
  unfold reapWatcher
  split
  · rfl
  · split
    · rfl
    · exact roster_setReactor _ _ rfl

theorem roster_acquireWatcher (w : Nat) : (hub.acquireWatcher w).roster =
    { hub.roster with watchers := hub.roster.watchers.modify w .acquire } :=
  roster_modifyWatcher hub w _

theorem roster_releaseWatcher (w : Nat) : (hub.releaseWatcher w).roster =
    { hub.roster with watchers := hub.roster.watchers.modify w .release } := by
  unfold releaseWatcher
  rw [roster_reapWatcher]
  exact roster_modifyWatcher hub w _

theorem roster_dropWatcher (w : Nat) : (hub.dropWatcher w).roster =
    { hub.roster with watchers := hub.roster.watchers.modify w .disown } := by
  unfold dropWatcher
  rw [roster_reapWatcher]
  exact roster_modifyWatcher hub w _

@[simp] theorem roster_modifySchedule (t : Nat) (f : Schedule → Schedule) :
    (hub.modifySchedule t f).roster = hub.roster := by
  simp [roster, modifySchedule, modifyHeartbeat, map_modify_of_eq]

@[simp] theorem roster_cancelTimer (timer : Nat) :
    (hub.cancelTimer timer).roster = hub.roster :=
  roster_setReactor _ _ rfl

@[simp] theorem roster_armDeadline (t deadline e : Nat) :
    (hub.armDeadline t deadline e).roster = hub.roster := by
  unfold armDeadline
  split
  · rfl
  · exact roster_setReactor _ _ rfl

@[simp] theorem roster_setHeartbeat (t e : Nat) (interval : Interval) :
    (hub.setHeartbeat t e interval).roster = hub.roster := by
  unfold setHeartbeat
  split <;> simp

@[simp] theorem roster_stopHeartbeat (t : Nat) : (hub.stopHeartbeat t).roster = hub.roster := by
  unfold stopHeartbeat
  split <;> simp

@[simp] theorem roster_nextBeat (t generation e : Nat) :
    (hub.nextBeat t generation e).roster = hub.roster := by
  unfold nextBeat
  split
  · rfl
  · split
    · split <;> simp
    · rfl

@[simp] theorem roster_reapHeartbeat (t : Nat) : (hub.reapHeartbeat t).roster = hub.roster := by
  unfold reapHeartbeat
  split
  · rfl
  · split <;> simp

theorem roster_acquireHeartbeat (t : Nat) : (hub.acquireHeartbeat t).roster =
    { hub.roster with heartbeats := hub.roster.heartbeats.modify t .acquire } :=
  roster_modifyHeartbeat hub t _

theorem roster_releaseHeartbeat (t : Nat) : (hub.releaseHeartbeat t).roster =
    { hub.roster with heartbeats := hub.roster.heartbeats.modify t .release } := by
  unfold releaseHeartbeat
  rw [roster_reapHeartbeat]
  exact roster_modifyHeartbeat hub t _

theorem roster_dropHeartbeat (t : Nat) : (hub.dropHeartbeat t).roster =
    { hub.roster with heartbeats := hub.roster.heartbeats.modify t .disown } := by
  unfold dropHeartbeat
  rw [roster_reapHeartbeat]
  exact roster_modifyHeartbeat hub t _

@[simp] theorem roster_resume (call : Call) : (hub.resume call).roster = hub.roster := by
  unfold resume
  split
  · split <;> simp
  · simp
  · rfl

end Hub

namespace Roster

/-- Lets something be used once more, or once less. -/
def modifyOwner (o : Owner) (f : Presence → Presence) (R : Roster) : Roster :=
  match o with
  | .watcher w _ => { R with watchers := R.watchers.modify w f }
  | .heartbeat t _ => { R with heartbeats := R.heartbeats.modify t f }

/-- What a call does to the presence of its strand and its owner. -/
def modifyCall (call : Call) (f : Presence → Presence) (R : Roster) : Roster :=
  { R.modifyOwner call.owner f with strands := R.strands.modify call.strand f }

end Roster

namespace Hub
variable (hub : Hub Manual)

theorem roster_acquireOwner (o : Owner) :
    (hub.acquireOwner o).roster = hub.roster.modifyOwner o .acquire := by
  cases o with
  | watcher w d => exact roster_acquireWatcher hub w
  | heartbeat t generation => exact roster_acquireHeartbeat hub t

theorem roster_releaseOwner (o : Owner) :
    (hub.releaseOwner o).roster = hub.roster.modifyOwner o .release := by
  cases o with
  | watcher w d => exact roster_releaseWatcher hub w
  | heartbeat t generation => exact roster_releaseHeartbeat hub t

theorem roster_finish (call : Call) :
    (hub.finish call).roster = hub.roster.modifyCall call .release := by
  unfold finish leaveStrand
  rw [roster_releaseOwner, roster_modifyStrand, roster_modifyEngine, roster_resume]
  obtain ⟨owner, s, e, notice⟩ := call
  cases owner <;> rfl

theorem roster_startCall (call : Call) :
    (hub.startCall call).1.roster =
      match (hub.startCall call).2 with
      | none => hub.roster
      | some c => hub.roster.modifyCall c .acquire := by
  unfold startCall enterStrand
  split
  · dsimp only
    rw [roster_modifyEngine, roster_modifyStrand, roster_acquireOwner]
    obtain ⟨owner, s, e, notice⟩ := call
    cases owner <;> rfl
  · rfl

theorem roster_begin (c : Callback) (o : Outcome) :
    (hub.begin c o).1.roster =
      match (hub.begin c o).2 with
      | none => hub.roster
      | some call => hub.roster.modifyCall call .acquire := by
  cases c with
  | bare tag => rfl
  | ready w d e =>
    simp only [begin, beginReady]
    split
    · rfl
    · split
      · split
        · split
          · split
            · simpa using roster_startCall (hub.modifySide w d ({ · with pending := false })) _
            · simp
          · simp
          · simpa using roster_startCall (hub.modifySide w d ({ · with pending := false })) _
        · simp
      · rfl
  | beat t generation e =>
    simp only [begin, beginBeat]
    split
    · rfl
    · split
      · split
        · split
          · exact roster_startCall hub _
          · rfl
        · rfl
        · split
          · simpa using roster_startCall (hub.modifySchedule t ({ · with deadline := none })) _
          · rfl
      · rfl

end Hub
end Wakeup
