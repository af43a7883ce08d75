import Wakeup.Proofs.Scenes

/-! A call in which an engine does nothing. What it takes is given back when it ends, so that only
what it resumes is left of it. -/
namespace Wakeup

theorem modify_cancel {α : Type} {f g : α → α} (h : ∀ a, g (f a) = a) (l : List α) (i : Nat) :
    (l.modify i f).modify i g = l := by
  rw [List.modify_modify_eq]
  refine List.ext_getElem? fun j => ?_
  rw [List.getElem?_modify]
  cases l[j]? with
  | none => rfl
  | some a =>
    rw [Option.map_eq_map, Option.map_some, Option.some.injEq]
    split
    · exact h a
    · rfl

namespace Hub

section
variable {ρ : Type} (hub : Hub ρ)

theorem modifyEngine_cancel (e : Nat) :
    (hub.modifyEngine e .acquire).modifyEngine e .release = hub := by
  unfold modifyEngine
  dsimp only
  rw [modify_cancel Presence.release_acquire]

theorem leaveStrand_enterStrand (s : Nat) : (hub.enterStrand s).leaveStrand s = hub := by
  unfold leaveStrand enterStrand modifyStrand
  dsimp only
  rw [modify_cancel Presence.release_acquire]

/-- The deadline of a heartbeat that lasts is reached. -/
theorem begin_beat {t : Nat} {y : Heartbeat} (hy : hub.heartbeats[t]? = some y)
    (halive : y.presence.alive = true) (e : Nat) :
    hub.begin (.beat t y.schedule.generation e) (.ok ()) =
      if hub.strandAlive y.strand then
        hub.startCall ⟨.heartbeat t y.schedule.generation, y.strand, e, .heartbeat⟩
      else (hub, none) := by
  simp only [begin, beginBeat, hy, halive, Bool.true_and, Verdict.of, if_true]

end

section
variable {ρ : Type} [Reactor ρ] (hub : Hub ρ)

theorem releaseHeartbeat_acquireHeartbeat {t : Nat}
    (h : hub.heartbeats[t]?.any (·.presence.kept) = true) :
    (hub.acquireHeartbeat t).releaseHeartbeat t = hub := by
  have hcancel : (hub.acquireHeartbeat t).modifyHeartbeat t
      (fun x => { x with presence := x.presence.release }) = hub := by
    unfold acquireHeartbeat modifyHeartbeat
    dsimp only
    rw [modify_cancel fun x : Heartbeat => by rw [Presence.release_acquire]]
  obtain ⟨x, hx, hkept⟩ := (Option.any_eq_true ..).mp h
  unfold releaseHeartbeat reapHeartbeat
  rw [hcancel]
  simp only [hx, Presence.alive, hkept, Bool.true_or, if_true]

theorem nextBeat_taken (t s generation e : Nat) :
    (((hub.acquireHeartbeat t).enterStrand s).modifyEngine e .acquire).nextBeat t generation e =
      (((hub.nextBeat t generation e).acquireHeartbeat t).enterStrand s).modifyEngine e
        .acquire := by
  have hget : (((hub.acquireHeartbeat t).enterStrand s).modifyEngine e .acquire).heartbeats[t]? =
      hub.heartbeats[t]?.map fun x => { x with presence := x.presence.acquire } := by
    change (hub.heartbeats.modify t _)[t]? = _
    rw [List.getElem?_modify_eq]
    rfl
  unfold nextBeat
  rw [hget]
  cases hx : hub.heartbeats[t]? with
  | none => rfl
  | some x =>
    dsimp only [Option.map_some]
    split
    · rename_i deadline interval hdeadline hinterval
      split
      · rename_i hg
        have hget' : ((((hub.acquireHeartbeat t).enterStrand s).modifyEngine e
            .acquire).modifySchedule t ({ · with deadline := some (deadline + interval.length) })
            ).heartbeats[t]? = (hub.modifySchedule t
              ({ · with deadline := some (deadline + interval.length) })).heartbeats[t]?.map
                fun x => { x with presence := x.presence.acquire } := by
          change ((hub.heartbeats.modify t _).modify t _)[t]? = ((hub.heartbeats.modify t _)[t]?).map _
          simp only [List.getElem?_modify_eq, Option.map_eq_map, Option.map_map]
          rfl
        unfold armDeadline
        rw [hget']
        have hget'' : (hub.modifySchedule t
            ({ · with deadline := some (deadline + interval.length) })).heartbeats[t]? =
              some { x with schedule :=
                { x.schedule with deadline := some (deadline + interval.length) } } := by
          change (hub.heartbeats.modify t _)[t]? = _
          rw [List.getElem?_modify_eq, hx]
          rfl
        rw [hget'']
        simp only [Option.map_some, modifySchedule, modifyHeartbeat, acquireHeartbeat, enterStrand,
          modifyStrand, modifyEngine, List.modify_modify_eq]
        rfl
      · rfl
    · rfl

theorem any_kept_nextBeat (t generation e : Nat) :
    (hub.nextBeat t generation e).heartbeats[t]?.any (·.presence.kept) =
      hub.heartbeats[t]?.any (·.presence.kept) := by
  have harm (hub : Hub ρ) (deadline : Nat) :
      (hub.armDeadline t deadline e).heartbeats = hub.heartbeats := by
    unfold armDeadline
    split <;> rfl
  unfold nextBeat
  cases hy : hub.heartbeats[t]? with
  | none => rw [hy]
  | some y =>
    dsimp only
    split
    · split
      · rw [harm]
        change (hub.heartbeats.modify t _)[t]?.any _ = _
        rw [List.getElem?_modify_eq, hy]
        rfl
      · rw [hy]
    · rw [hy]

theorem nextBeat_eq {t e deadline : Nat} {y : Heartbeat} {interval : Interval}
    (hy : hub.heartbeats[t]? = some y) (hd : y.schedule.deadline = some deadline)
    (hi : y.schedule.interval = some interval) :
    hub.nextBeat t y.schedule.generation e = { hub with
      reactor := Reactor.schedule y.timer (deadline + interval.length)
        (.beat t y.schedule.generation e) hub.reactor
      heartbeats := hub.heartbeats.modify t fun y => { y with
        schedule := { y.schedule with deadline := some (deadline + interval.length) } } } := by
  unfold nextBeat
  simp only [hy, hd, hi, if_true, armDeadline, modifySchedule, modifyHeartbeat,
    List.getElem?_modify_eq, Option.map_eq_map, Option.map_some]

/-- A call for a beat in which nothing is done, of a heartbeat that is kept. -/
theorem finish_beat {t : Nat} (h : hub.heartbeats[t]?.any (·.presence.kept) = true)
    (s e generation : Nat) :
    (((hub.acquireHeartbeat t).enterStrand s).modifyEngine e .acquire).finish
      ⟨.heartbeat t generation, s, e, .heartbeat⟩ = hub.nextBeat t generation e := by
  change (((((((hub.acquireHeartbeat t).enterStrand s).modifyEngine e .acquire).nextBeat t
    generation e).modifyEngine e .release).leaveStrand s).releaseHeartbeat t) = _
  rw [nextBeat_taken, modifyEngine_cancel, leaveStrand_enterStrand,
    releaseHeartbeat_acquireHeartbeat _ ((any_kept_nextBeat hub t generation e).trans h)]

end

variable (hub : Hub Manual)

/-- Whether the owner of a call is kept, whatever calls there are. -/
def keeps : Owner → Bool
  | .watcher i _ => hub.watchers[i]?.any (·.presence.kept)
  | .heartbeat t _ => hub.heartbeats[t]?.any (·.presence.kept)

theorem releaseWatcher_acquireWatcher {i : Nat}
    (h : hub.watchers[i]?.any (·.presence.kept) = true) :
    (hub.acquireWatcher i).releaseWatcher i = hub := by
  have hcancel : (hub.acquireWatcher i).modifyWatcher i
      (fun x => { x with presence := x.presence.release }) = hub := by
    unfold acquireWatcher modifyWatcher
    dsimp only
    rw [modify_cancel fun x : Watcher => by rw [Presence.release_acquire]]
  obtain ⟨x, hx, hkept⟩ := (Option.any_eq_true ..).mp h
  unfold releaseWatcher
  rw [hcancel]
  exact reapWatcher_of_alive hx (by simp [Presence.alive, hkept])

theorem releaseOwner_acquireOwner {o : Owner} (h : hub.keeps o = true) :
    (hub.acquireOwner o).releaseOwner o = hub := by
  cases o with
  | watcher i d => exact hub.releaseWatcher_acquireWatcher h
  | heartbeat t generation => exact hub.releaseHeartbeat_acquireHeartbeat h

/-- Whether a direction of a watcher is waited for does not depend on the uses of anything. -/
theorem armSide_taken (i s e : Nat) (d : Direction) :
    (((hub.acquireWatcher i).enterStrand s).modifyEngine e .acquire).armSide i d e =
      (((hub.armSide i d e).acquireWatcher i).enterStrand s).modifyEngine e .acquire := by
  have hget : (((hub.acquireWatcher i).enterStrand s).modifyEngine e .acquire).watchers[i]? =
      hub.watchers[i]?.map fun x => { x with presence := x.presence.acquire } := by
    change (hub.watchers.modify i _)[i]? = _
    rw [List.getElem?_modify_eq]
    rfl
  unfold armSide
  rw [hget]
  cases hub.watchers[i]? with
  | none => rfl
  | some x =>
    cases hp : (x.sides.get d).pending with
    | true => simp only [Option.map_some, hp, if_true]
    | false =>
      simp only [Option.map_some, hp, Bool.false_eq_true, if_false]
      simp only [modifySide, modifyWatcher, acquireWatcher, enterStrand, modifyStrand, modifyEngine,
        List.modify_modify_eq]
      rfl

theorem resume_taken (call : Call) :
    (((hub.acquireOwner call.owner).enterStrand call.strand).modifyEngine call.engine
        .acquire).resume call =
      (((hub.resume call).acquireOwner call.owner).enterStrand call.strand).modifyEngine
        call.engine .acquire := by
  obtain ⟨owner, s, e, notice⟩ := call
  cases owner with
  | watcher i d =>
    cases notice with
    | heartbeat => rfl
    | waitError => rfl
    | process fd ev =>
      have hwants : (((hub.acquireWatcher i).enterStrand s).modifyEngine e .acquire).wants i d =
          hub.wants i d := by
        unfold wants
        change ((hub.watchers.modify i _)[i]?).any _ = _
        rw [List.getElem?_modify_eq]
        cases hub.watchers[i]? <;> rfl
      change (if (((hub.acquireWatcher i).enterStrand s).modifyEngine e .acquire).wants i d then _
        else _) = (((if hub.wants i d then hub.armSide i d e else hub).acquireWatcher
          i).enterStrand s).modifyEngine e .acquire
      rw [hwants]
      split
      · exact hub.armSide_taken i s e d
      · rfl
  | heartbeat t generation =>
    cases notice with
    | heartbeat => exact hub.nextBeat_taken t s generation e
    | process => rfl
    | waitError => rfl

theorem keeps_congr {hub hub' : Hub Manual} (h : hub'.roster = hub.roster) (o : Owner) :
    hub'.keeps o = hub.keeps o := by
  cases o with
  | watcher i d =>
    have hany := congrArg (·.watchers[i]?.any Presence.kept) h
    dsimp only [roster] at hany
    rwa [List.getElem?_map, List.getElem?_map, Option.any_map, Option.any_map] at hany
  | heartbeat t generation =>
    have hany := congrArg (·.heartbeats[t]?.any Presence.kept) h
    dsimp only [roster] at hany
    rwa [List.getElem?_map, List.getElem?_map, Option.any_map, Option.any_map] at hany

/-- A call in which nothing is done and whose owner is kept. -/
theorem serve_of_keeps {call : Call} (h : hub.keeps call.owner = true) :
    hub.serve call =
      if hub.engineAlive call.engine then (hub.resume call, some call) else (hub, none) := by
  unfold serve startCall
  cases hub.engineAlive call.engine with
  | false => rfl
  | true =>
    simp only [if_true, finish]
    rw [resume_taken, modifyEngine_cancel, leaveStrand_enterStrand,
      releaseOwner_acquireOwner _ ((keeps_congr (roster_resume hub call) call.owner).trans h)]

end Hub
end Wakeup
