import Wakeup.Proofs.Schedules

/-! Which waits for deadlines are scheduled and cancelled. -/
namespace Wakeup

namespace Hub

/-- The timer of a heartbeat. -/
def timer? (hub : Hub Manual) (t : Nat) : Option Nat := hub.roster.timed[t]?.map (·.1)

variable {hub hub' : Hub Manual} {t : Nat} {x : Heartbeat}

theorem timer?_of_getElem? (hx : hub.heartbeats[t]? = some x) : hub.timer? t = some x.timer := by
  change ((hub.heartbeats.map _)[t]?).map _ = _
  rw [List.getElem?_map, hx]
  rfl

theorem schedule?_of_getElem? (hx : hub.heartbeats[t]? = some x) :
    hub.schedule? t = some x.schedule := by
  unfold schedule?
  rw [hx]
  rfl

/-- Interest in descriptors leaves the waits for deadlines as they are. -/
theorem timed_armSide (hub : Hub Manual) (i : Nat) (d : Direction) (e : Nat) :
    (hub.armSide i d e).reactor.timed = hub.reactor.timed ∧
      (hub.armSide i d e).reactor.parked = hub.reactor.parked := by
  unfold armSide
  split
  · exact ⟨rfl, rfl⟩
  · split <;> exact ⟨rfl, rfl⟩

theorem timed_setSide (hub : Hub Manual) (i e : Nat) (d : Direction) (wanted : Bool) :
    (hub.setSide i e d wanted).reactor.timed = hub.reactor.timed ∧
      (hub.setSide i e d wanted).reactor.parked = hub.reactor.parked := by
  unfold setSide
  cases wanted with
  | false => exact ⟨rfl, rfl⟩
  | true => exact timed_armSide (hub.modifySide i d _) i d e

theorem timed_setInterest (hub : Hub Manual) (i e : Nat) (ev : Events) :
    (hub.setInterest i e ev).reactor.timed = hub.reactor.timed ∧
      (hub.setInterest i e ev).reactor.parked = hub.reactor.parked := by
  have hread := timed_setSide hub i e .read (ev.wants .read)
  have hwrite := timed_setSide (hub.setSide i e .read (ev.wants .read)) i e .write (ev.wants .write)
  exact ⟨hwrite.1.trans hread.1, hwrite.2.trans hread.2⟩

theorem ready_armSide {i : Nat} {d : Direction} {e : Nat} {r : ReadyWait}
    (h : r ∈ (hub.armSide i d e).reactor.ready) :
    r ∈ hub.reactor.ready ∨ r.wait.callback = .ready i d e := by
  unfold armSide at h
  split at h
  · exact Or.inl h
  · split at h
    · exact Or.inl h
    · rcases List.mem_append.mp h with h | h
      · exact Or.inl h
      · rw [List.mem_singleton.mp h]
        exact Or.inr rfl

/-- Setting a heartbeat cancels the wait of its timer and schedules another, for a generation that
begins. -/
theorem reactor_setHeartbeat (hx : hub.heartbeats[t]? = some x) (e : Nat) (interval : Interval) :
    (hub.setHeartbeat t e interval).reactor = (hub.reactor.cancel x.timer).schedule x.timer
      (hub.reactor.now + interval.length) (.beat t (x.schedule.generation + 1) e) := by
  simp only [setHeartbeat, hx, armDeadline, modifySchedule, modifyHeartbeat, cancelTimer,
    List.getElem?_modify_eq, Option.map_eq_map, Option.map_some]
  rfl

/-- Giving up a watcher ends its registration, or leaves the reactor as it is. -/
theorem reactor_reapWatcher (hub : Hub Manual) (i : Nat) :
    (hub.reapWatcher i).reactor = hub.reactor ∨
      ∃ r, (hub.reapWatcher i).reactor = hub.reactor.release r := by
  unfold reapWatcher
  split
  · exact Or.inl rfl
  · split
    · exact Or.inl rfl
    · exact Or.inr ⟨_, rfl⟩

/-- After a call for a watcher, it waits for readiness again or does not. -/
theorem resume_of_watcher {call : Call} {i : Nat} {d : Direction}
    (howner : call.owner = .watcher i d) :
    hub.resume call = hub ∨ hub.resume call = hub.armSide i d call.engine := by
  obtain ⟨owner, s, e, notice⟩ := call
  cases howner
  cases notice with
  | process =>
    simp only [resume]
    split
    · exact Or.inr rfl
    · exact Or.inl rfl
  | heartbeat => exact Or.inl rfl
  | waitError => exact Or.inl rfl

theorem reactor_releaseHeartbeat (hx : hub.heartbeats[t]? = some x) :
    (hub.releaseHeartbeat t).reactor =
      if x.presence.release.alive then hub.reactor else hub.reactor.cancel x.timer := by
  simp only [releaseHeartbeat, reapHeartbeat, modifyHeartbeat, List.getElem?_modify_eq, hx,
    Option.map_eq_map, Option.map_some]
  split <;> rfl

/-- Going on to the next deadline schedules the next beat of the current generation. -/
theorem reactor_nextBeat_of_deadline (hx : hub.heartbeats[t]? = some x) {deadline : Nat}
    {interval : Interval} (hd : x.schedule.deadline = some deadline)
    (hi : x.schedule.interval = some interval) (e : Nat) :
    (hub.nextBeat t x.schedule.generation e).reactor = hub.reactor.schedule x.timer
      (deadline + interval.length) (.beat t x.schedule.generation e) := by
  unfold nextBeat
  simp only [hx, hd, hi, if_true, armDeadline, modifySchedule, modifyHeartbeat,
    List.getElem?_modify_eq, Option.map_eq_map, Option.map_some]
  rfl

/-- Going on to the next deadline schedules the next beat, or leaves the reactor as it is. -/
theorem reactor_nextBeat (hx : hub.heartbeats[t]? = some x) (generation e : Nat) :
    (hub.nextBeat t generation e).reactor = hub.reactor ∨
      ∃ deadline interval, x.schedule.generation = generation ∧
        x.schedule.deadline = some deadline ∧ x.schedule.interval = some interval ∧
        (hub.nextBeat t generation e).reactor = hub.reactor.schedule x.timer
          (deadline + interval.length) (.beat t generation e) := by
  by_cases hset : x.schedule.generation = generation ∧ x.schedule.deadline.isSome ∧
      x.schedule.interval.isSome
  · obtain ⟨rfl, hd, hi⟩ := hset
    obtain ⟨deadline, hd⟩ := Option.isSome_iff_exists.mp hd
    obtain ⟨interval, hi⟩ := Option.isSome_iff_exists.mp hi
    exact Or.inr ⟨deadline, interval, rfl, hd, hi, reactor_nextBeat_of_deadline hx hd hi e⟩
  · left
    unfold nextBeat
    rw [hx]
    dsimp only
    split
    · rename_i hd hi
      rw [if_neg fun hg => hset ⟨hg, by rw [hd]; rfl, by rw [hi]; rfl⟩]
    · rfl

theorem getElem?_of_roster (h : hub'.roster = hub.roster) (hx : hub.heartbeats[t]? = some x) :
    ∃ y, hub'.heartbeats[t]? = some y ∧ y.timer = x.timer ∧ y.presence = x.presence := by
  have htimed : hub'.heartbeats.map (fun x => (x.timer, x.strand)) =
      hub.heartbeats.map fun x => (x.timer, x.strand) := congrArg Roster.timed h
  have hpresence : hub'.heartbeats.map (·.presence) = hub.heartbeats.map (·.presence) :=
    congrArg Roster.heartbeats h
  have ht := congrArg (·[t]?) htimed
  have hp := congrArg (·[t]?) hpresence
  simp only [List.getElem?_map, hx, Option.map_some] at ht hp
  obtain ⟨y, hy, heq⟩ := Option.map_eq_some_iff.mp ht
  rw [hy, Option.map_some] at hp
  exact ⟨y, hy, congrArg Prod.fst heq, Option.some.inj hp⟩

/-- The end of a call for a heartbeat that does not last any longer cancels the wait of its timer,
after what is done to wait again. -/
theorem reactor_finish_eq {call : Call} {generation : Nat}
    (howner : call.owner = .heartbeat t generation) (hx : hub.heartbeats[t]? = some x) :
    (hub.finish call).reactor = if x.presence.release.alive then (hub.resume call).reactor
      else (hub.resume call).reactor.cancel x.timer := by
  obtain ⟨y, hy, htimer, hpresence⟩ := getElem?_of_roster (roster_resume hub call) hx
  have hy' : (((hub.resume call).modifyEngine call.engine .release).leaveStrand
      call.strand).heartbeats[t]? = some y := hy
  unfold finish
  rw [howner]
  refine (reactor_releaseHeartbeat hy').trans ?_
  rw [htimer, hpresence]
  rfl

/-- The end of a call for a heartbeat schedules the next beat or does not, and if the heartbeat does
not last any longer cancels the wait of its timer. -/
theorem reactor_finish {call : Call} {generation : Nat}
    (howner : call.owner = .heartbeat t generation) (hx : hub.heartbeats[t]? = some x) :
    ∃ m, (hub.finish call).reactor = (if x.presence.release.alive then m else m.cancel x.timer) ∧
      (m = hub.reactor ∨ ∃ deadline interval, call.beat? = some ⟨t, generation, call.engine⟩ ∧
        x.schedule.generation = generation ∧ x.schedule.deadline = some deadline ∧
        x.schedule.interval = some interval ∧ m = hub.reactor.schedule x.timer
          (deadline + interval.length) (.beat t generation call.engine)) := by
  refine ⟨(hub.resume call).reactor, reactor_finish_eq howner hx, ?_⟩
  obtain ⟨owner, s, e, notice⟩ := call
  cases howner
  cases notice with
  | process => exact Or.inl rfl
  | waitError => exact Or.inl rfl
  | heartbeat =>
    refine (reactor_nextBeat hx generation e).imp id ?_
    rintro ⟨deadline, interval, hg, hd, hi, hr⟩
    exact ⟨deadline, interval, rfl, hg, hd, hi, hr⟩

theorem generation_finish {call : Call} {y z : Schedule} (hy : hub.schedule? t = some y)
    (hz : (hub.finish call).schedule? t = some z) : z.generation = y.generation := by
  rw [schedule?_finish] at hz
  split at hz
  · split at hz
    · rw [hy, Option.map_some] at hz
      rw [← Option.some.inj hz, Schedule.generation_next]
    · rw [hy] at hz
      rw [Option.some.inj hz]
  · rw [hy] at hz
    rw [Option.some.inj hz]

end Hub

namespace Manual
variable {m m' : Manual} {cancelled : Nat → Prop} {given : Wait → Prop} {fresh : TimedWait → Prop}

/-- From one reactor to the other, only the waits of some timers were cancelled. Others may have
been parked that were given elsewhere. -/
structure Retimes (cancelled : Nat → Prop) (given : Wait → Prop) (fresh : TimedWait → Prop)
    (m m' : Manual) : Prop where
  timed : ∀ w ∈ m'.timed, w ∈ m.timed ∧ ¬cancelled w.timer ∨ fresh w
  parked : ∀ w ∈ m'.parked,
    w ∈ m.parked ∨ (∃ x ∈ m.timed, cancelled x.timer ∧ x.wait = w) ∨ given w

theorem timed_register {fd : Fd} {result : Except Error Registration}
    (h : m.register fd = (result, m')) : m'.timed = m.timed ∧ m'.parked = m.parked := by
  cases result with
  | error err =>
    rw [register_error h]
    exact ⟨rfl, rfl⟩
  | ok r =>
    rw [(register_ok h).2]
    exact ⟨rfl, rfl⟩

namespace Retimes

theorem of_eq (ht : m'.timed = m.timed) (hp : m'.parked = m.parked) :
    Retimes (fun _ => False) given fresh m m' where
  timed := fun _ hw => Or.inl ⟨ht ▸ hw, not_false⟩
  parked := fun _ hw => Or.inl (hp ▸ hw)

theorem congr_left {m'' : Manual} (ht : m'.timed = m.timed) (hp : m'.parked = m.parked)
    (h : Retimes cancelled given fresh m' m'') : Retimes cancelled given fresh m m'' where
  timed := ht ▸ h.timed
  parked := ht ▸ hp ▸ h.parked

theorem cancel (t : Nat) (m : Manual) : Retimes (· = t) given fresh m (m.cancel t) where
  timed := by
    intro w hw
    obtain ⟨hmem, hne⟩ := List.mem_filter.mp hw
    exact Or.inl ⟨hmem, of_decide_eq_true hne⟩
  parked := by
    intro w hw
    rcases List.mem_append.mp hw with hw | hw
    · exact Or.inl hw
    · obtain ⟨x, hx, rfl⟩ := List.mem_map.mp hw
      obtain ⟨hmem, heq⟩ := List.mem_filter.mp hx
      exact Or.inr (Or.inl ⟨x, hmem, of_decide_eq_true heq, rfl⟩)

theorem schedule (t deadline : Nat) (c : Callback) (m : Manual) :
    Retimes (· = t) given (· = ⟨t, deadline, ⟨m.tickets, c⟩⟩) m (m.schedule t deadline c) where
  timed := by
    intro w hw
    rcases List.mem_append.mp hw with hw | hw
    · obtain ⟨hmem, hne⟩ := List.mem_filter.mp hw
      exact Or.inl ⟨hmem, of_decide_eq_true hne⟩
    · exact Or.inr (List.mem_singleton.mp hw)
  parked := (@cancel given (fun _ => False) t m).parked

/-- To cancel the wait of a timer before it is scheduled makes no difference. -/
theorem reschedule (t deadline : Nat) (c : Callback) (m : Manual) :
    Retimes (· = t) given (· = ⟨t, deadline, ⟨m.tickets, c⟩⟩) m
      ((m.cancel t).schedule t deadline c) where
  timed := by
    intro w hw
    rcases (@schedule given t deadline c (m.cancel t)).timed w hw with ⟨hmem, hne⟩ | hnew
    · exact Or.inl ⟨List.mem_of_mem_filter hmem, hne⟩
    · exact Or.inr hnew
  parked := by
    intro w hw
    rcases (@schedule given t deadline c (m.cancel t)).parked w hw with hw | ⟨x, hx, heq, -⟩ | hg
    · exact (@cancel given (fun _ => False) t m).parked w hw
    · exact absurd heq (of_decide_eq_true (List.mem_filter.mp hx).2)
    · exact Or.inr (Or.inr hg)

/-- A wait that was just scheduled is cancelled. -/
theorem unschedule (t deadline : Nat) (c : Callback) (m : Manual) :
    Retimes (· = t) (·.callback = c) fresh m ((m.schedule t deadline c).cancel t) where
  timed := by
    intro w hw
    obtain ⟨hmem, hne⟩ := List.mem_filter.mp hw
    rcases List.mem_append.mp hmem with hmem | hmem
    · exact Or.inl ⟨List.mem_of_mem_filter hmem, of_decide_eq_true hne⟩
    · rw [List.mem_singleton.mp hmem] at hne
      exact absurd rfl (of_decide_eq_true hne)
  parked := by
    intro w hw
    rcases List.mem_append.mp hw with hw | hw
    · exact (@cancel (·.callback = c) (fun _ => False) t m).parked w hw
    · obtain ⟨x, hx, rfl⟩ := List.mem_map.mp hw
      rcases List.mem_append.mp (List.mem_of_mem_filter hx) with hmem | hmem
      · obtain ⟨-, hne⟩ := List.mem_filter.mp hmem
        exact absurd (of_decide_eq_true (List.mem_filter.mp hx).2) (of_decide_eq_true hne)
      · rw [List.mem_singleton.mp hmem]
        exact Or.inr (Or.inr rfl)

/-- Ended registrations park waits for readiness. -/
theorem release (r : Registration) (m : Manual) :
    Retimes (fun _ => False) (fun w => ∃ x ∈ m.ready, x.wait = w) fresh m (m.release r) where
  timed := fun _ hw => Or.inl ⟨hw, not_false⟩
  parked := by
    intro w hw
    rcases List.mem_append.mp hw with hw | hw
    · exact Or.inl hw
    · obtain ⟨x, hx, rfl⟩ := List.mem_map.mp hw
      exact Or.inr (Or.inr ⟨x, List.mem_of_mem_filter hx, rfl⟩)

end Retimes
end Manual

end Wakeup
