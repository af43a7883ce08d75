import Wakeup.Proofs.Schedules

/-! Beats that a schedule still expects: those whose waits can be run, those that engines are being
told of, and those that were given up. Only to set a heartbeat makes it expect another. -/
namespace Wakeup

def Wait.isBeat (p : Beat → Bool) (w : Wait) : Bool := w.callback.beat?.any p

namespace Manual
variable {m m' : Manual} {p : Beat → Bool}

/-- How many beats of a kind the waits of a reactor are for. -/
def beats (p : Beat → Bool) (m : Manual) : Nat :=
  m.ready.countP (·.wait.isBeat p) + m.timed.countP (·.wait.isBeat p) +
    m.parked.countP (·.isBeat p)

theorem beats_eq (p : Beat → Bool) (m : Manual) : m.beats p = m.waits.countP (·.isBeat p) := by
  simp [beats, waits, Function.comp_def, Nat.add_assoc]

theorem beats_release (r : Registration) (m : Manual) : (m.release r).beats p = m.beats p := by
  have h := List.countP_eq_countP_filter_add m.ready (·.wait.isBeat p) (·.registration.id = r.id)
  simp only [beats, release, List.countP_append, List.countP_map, Function.comp_def, ne_eq,
    decide_not] at h ⊢
  omega

theorem beats_cancel (t : Nat) (m : Manual) : (m.cancel t).beats p = m.beats p := by
  have h := List.countP_eq_countP_filter_add m.timed (·.wait.isBeat p) (·.timer = t)
  simp only [beats, cancel, List.countP_append, List.countP_map, Function.comp_def, ne_eq,
    decide_not] at h ⊢
  omega

theorem beats_arm (r : Registration) (d : Direction) {c : Callback} (hc : c.beat? = none)
    (m : Manual) : (m.arm r d c).beats p = m.beats p := by
  simp [beats, arm, Wait.isBeat, hc]

theorem beats_schedule (t deadline : Nat) (c : Callback) (m : Manual) :
    (m.schedule t deadline c).beats p = m.beats p + if c.beat?.any p then 1 else 0 := by
  rw [← beats_cancel t m]
  simp only [beats, schedule, List.countP_append, List.countP_singleton, Wait.isBeat]
  omega

theorem beats_takeReady {fd : Fd} {d : Direction} {wait : Wait}
    (h : m.takeReady fd d = some (wait, m')) :
    m.beats p = m'.beats p + if wait.isBeat p then 1 else 0 := by
  obtain ⟨x, rs, rfl, hperm, rfl⟩ := takeReady_some h
  simp only [beats, hperm.countP_eq, List.countP_cons]
  omega

theorem beats_takeTimed {deadline : Nat} {wait : Wait}
    (h : m.takeTimed deadline = some (wait, m')) :
    m.beats p = m'.beats p + if wait.isBeat p then 1 else 0 := by
  obtain ⟨x, ts, rfl, hperm, rfl⟩ := takeTimed_some h
  simp only [beats, hperm.countP_eq, List.countP_cons]
  omega

end Manual

namespace Hub
variable {hub hub' : Hub Manual} {p : Beat → Bool}

theorem beats_armSide (hub : Hub Manual) (i : Nat) (d : Direction) (e : Nat) :
    (hub.armSide i d e).reactor.beats p = hub.reactor.beats p := by
  unfold armSide
  split
  · rfl
  · split
    · rfl
    · exact Manual.beats_arm _ d rfl _

theorem beats_setSide (hub : Hub Manual) (i e : Nat) (d : Direction) (wanted : Bool) :
    (hub.setSide i e d wanted).reactor.beats p = hub.reactor.beats p := by
  unfold setSide
  cases wanted with
  | false => rfl
  | true => exact beats_armSide (hub.modifySide i d _) i d e

theorem beats_setInterest (hub : Hub Manual) (i e : Nat) (ev : Events) :
    (hub.setInterest i e ev).reactor.beats p = hub.reactor.beats p :=
  (beats_setSide _ i e .write _).trans (beats_setSide hub i e .read _)

theorem beats_reapWatcher (hub : Hub Manual) (i : Nat) :
    (hub.reapWatcher i).reactor.beats p = hub.reactor.beats p := by
  unfold reapWatcher
  split
  · rfl
  · split
    · rfl
    · exact Manual.beats_release _ _

theorem beats_dropWatcher (hub : Hub Manual) (i : Nat) :
    (hub.dropWatcher i).reactor.beats p = hub.reactor.beats p :=
  beats_reapWatcher (hub.modifyWatcher i _) i

theorem beats_newWatcher {s i : Nat} {fd : Fd} (h : hub.newWatcher s fd = (.ok i, hub')) :
    hub'.reactor.beats p = hub.reactor.beats p := by
  obtain ⟨r, m, hr, -, rfl⟩ := newWatcher_ok h
  obtain ⟨-, rfl⟩ := Manual.register_ok hr
  rfl

/-- Waiting for a deadline expects a beat of the current generation. -/
theorem beats_armDeadline {t : Nat} {x : Schedule} (hx : hub.schedule? t = some x)
    (deadline e : Nat) : (hub.armDeadline t deadline e).reactor.beats p =
      hub.reactor.beats p + if p ⟨t, x.generation, e⟩ then 1 else 0 := by
  obtain ⟨y, hy, rfl⟩ := Option.map_eq_some_iff.mp hx
  unfold armDeadline
  rw [hy]
  exact Manual.beats_schedule y.timer deadline (.beat t y.schedule.generation e) hub.reactor

theorem beats_setHeartbeat {t : Nat} {x : Schedule} (hx : hub.schedule? t = some x) (e : Nat)
    (interval : Interval) : (hub.setHeartbeat t e interval).reactor.beats p =
      hub.reactor.beats p + if p ⟨t, x.generation + 1, e⟩ then 1 else 0 := by
  obtain ⟨y, hy, rfl⟩ := Option.map_eq_some_iff.mp hx
  unfold setHeartbeat
  rw [hy]
  dsimp only
  have hset := schedule?_modifySchedule (hub.cancelTimer y.timer) t
    (.start hub.reactor.now interval) t
  rw [if_pos rfl] at hset
  have hx' : (hub.cancelTimer y.timer).schedule? t = some y.schedule := hx
  rw [hx', Option.map_some] at hset
  have hcancel := Manual.beats_cancel (p := p) y.timer hub.reactor
  have harm := beats_armDeadline (p := p) hset (hub.reactor.now + interval.length) e
  exact harm.trans (congrArg (· + _) hcancel)

theorem beats_stopHeartbeat (hub : Hub Manual) (t : Nat) :
    (hub.stopHeartbeat t).reactor.beats p = hub.reactor.beats p := by
  unfold stopHeartbeat
  split
  · rfl
  · exact Manual.beats_cancel _ _

theorem beats_nextBeat {t : Nat} {x : Schedule} (hx : hub.schedule? t = some x)
    (generation e : Nat) : (hub.nextBeat t generation e).reactor.beats p =
      hub.reactor.beats p +
        if x.generation = generation ∧ x.deadline.isSome ∧ x.interval.isSome ∧
          p ⟨t, generation, e⟩ then 1 else 0 := by
  obtain ⟨y, hy, rfl⟩ := Option.map_eq_some_iff.mp hx
  unfold nextBeat
  rw [hy]
  dsimp only
  cases hd : y.schedule.deadline with
  | none => simp
  | some deadline =>
    cases hi : y.schedule.interval with
    | none => simp
    | some interval =>
      by_cases hg : y.schedule.generation = generation
      · have hset := schedule?_modifySchedule hub t
          ({ · with deadline := some (deadline + interval.length) }) t
        rw [if_pos rfl, hx, Option.map_some] at hset
        have harm := beats_armDeadline (p := p) hset (deadline + interval.length) e
        simp only [hg, if_true, true_and, Option.isSome_some] at harm ⊢
        exact harm
      · simp [hg]

theorem beats_reapHeartbeat (hub : Hub Manual) (t : Nat) :
    (hub.reapHeartbeat t).reactor.beats p = hub.reactor.beats p := by
  unfold reapHeartbeat
  split
  · rfl
  · split
    · rfl
    · exact Manual.beats_cancel _ _

theorem beats_dropHeartbeat (hub : Hub Manual) (t : Nat) :
    (hub.dropHeartbeat t).reactor.beats p = hub.reactor.beats p :=
  beats_reapHeartbeat (hub.modifyHeartbeat t _) t

theorem beats_releaseOwner (hub : Hub Manual) (o : Owner) :
    (hub.releaseOwner o).reactor.beats p = hub.reactor.beats p := by
  cases o with
  | watcher i d => exact beats_reapWatcher (hub.modifyWatcher i _) i
  | heartbeat t generation => exact beats_reapHeartbeat (hub.modifyHeartbeat t _) t

/-- After a call in which an engine was told of a beat, the next beat is expected if the schedule
was neither set nor stopped meanwhile, and has a deadline. -/
def rebeats (hub : Hub Manual) (call : Call) : Bool :=
  call.beat?.any fun b => (hub.schedule? b.heartbeat).any fun x =>
    x.generation == b.generation && x.deadline.isSome && x.interval.isSome

theorem beats_finish (hub : Hub Manual) (call : Call) :
    (hub.finish call).reactor.beats p = hub.reactor.beats p +
      if hub.rebeats call ∧ call.beat?.any p then 1 else 0 := by
  have hrelease : (hub.finish call).reactor.beats p = (hub.resume call).reactor.beats p :=
    beats_releaseOwner _ call.owner
  rw [hrelease]
  obtain ⟨owner, s, e, notice⟩ := call
  cases owner with
  | watcher i d =>
    cases notice with
    | process =>
      simp only [resume, Call.beat?, Option.any_none]
      split
      · simpa using beats_armSide hub i d e
      · simp
    | heartbeat => simp [resume, Call.beat?]
    | waitError => simp [resume, Call.beat?]
  | heartbeat t generation =>
    cases notice with
    | process => simp [resume, Call.beat?]
    | waitError => simp [resume, Call.beat?]
    | heartbeat =>
      simp only [resume]
      cases hx : hub.schedule? t with
      | none =>
        have hn : hub.heartbeats[t]? = none := Option.map_eq_none_iff.mp hx
        simp [nextBeat, rebeats, Call.beat?, hn, hx]
      | some x =>
        rw [beats_nextBeat hx]
        simp [rebeats, Call.beat?, hx, and_assoc]

end Hub

namespace Scenario

/-- A beat that was given up without an end of its schedule: its callback was thrown away, or told
that it was cancelled, or run when the engine had been dropped. -/
def Event.beat? : Event → Option Beat
  | .monitored .. => none
  | .negotiated .. => none
  | .completed w o served =>
    if Verdict.of o = .canceled ∨ Verdict.of o = .proceed ∧ served = false then w.callback.beat?
    else none
  | .discarded w => w.callback.beat?

/-- The engine and the interval that a handler accepted. -/
def Event.negotiates? (s : Nat) : Event → Option (Nat × Interval)
  | .negotiated s' e interval => if s' = s then some (e, interval) else none
  | _ => none

/-- The engine and the interval that a handler last accepted. -/
def lastNegotiated (s : Nat) (log : List Event) : Option (Nat × Interval) :=
  log.findSome? (·.negotiates? s)

theorem lastNegotiated_cons (s : Nat) {ev : Event} (h : ev.negotiates? s = none)
    (log : List Event) : lastNegotiated s (ev :: log) = lastNegotiated s log := by
  unfold lastNegotiated
  rw [List.findSome?_cons, h]

/-- Whether a beat is still expected after its callback was run. -/
def outlasts (hub : Hub Manual) (c : Callback) (o : Outcome) : Bool :=
  match Verdict.of o with
  | .proceed => !serves hub c || (hub.reaches c && hub.asks c o)
  | .canceled => true
  | .failed _ => false

/-- Where a beat goes whose callback is run: to the call, or to what was given up, or nowhere. -/
theorem beat?_begin (hub : Hub Manual) (wait : Wait) (o : Outcome) (p : Beat → Bool) :
    ((hub.begin wait.callback o).2.toList.countP (·.beat?.any p)) +
        (if (Event.completed wait o (serves hub wait.callback)).beat?.any p then 1 else 0) =
      if outlasts hub wait.callback o ∧ wait.isBeat p then 1 else 0 := by
  obtain ⟨ticket, c⟩ := wait
  unfold Wait.isBeat
  cases c with
  | bare tag => simp [Hub.begin, Event.beat?, Callback.beat?]
  | ready i d e =>
    have hcall : ∀ call ∈ (hub.begin (.ready i d e) o).2.toList, call.beat? = none := by
      intro call hmem
      have hpart := Hub.part_begin (Option.mem_toList.mp hmem)
      obtain ⟨owner, s, e', notice⟩ := call
      cases owner with
      | watcher => rfl
      | heartbeat => cases hpart
    have hzero : (hub.begin (.ready i d e) o).2.toList.countP (·.beat?.any p) = 0 := by
      rw [List.countP_eq_zero]
      intro call hmem
      simp [hcall call hmem]
    rw [hzero]
    simp [Event.beat?, Callback.beat?]
  | beat t generation e =>
    have hsome := hub.isSome_begin (.beat t generation e) o
    have hcall : ∀ call ∈ (hub.begin (.beat t generation e) o).2,
        call.beat? = if Verdict.of o = .proceed then some ⟨t, generation, e⟩ else none := by
      intro call hmem
      simp only [Hub.begin, Hub.beginBeat, Option.mem_def] at hmem
      repeat' split at hmem
      all_goals first
        | cases hmem
        | rename_i hv _; rw [← Hub.startCall_eq_some hmem, hv]; simp [Call.beat?]
    cases hv : Verdict.of o with
    | canceled =>
      have hasks : hub.asks (.beat t generation e) o = false := by
        rw [Hub.asks_beat, hv]
        rfl
      rw [hasks, Bool.and_false, Option.isSome_eq_false_iff, Option.isNone_iff_eq_none] at hsome
      simp [hsome, outlasts, Event.beat?, hv]
    | failed err =>
      have hzero : (hub.begin (.beat t generation e) o).2.toList.countP (·.beat?.any p) = 0 := by
        rw [List.countP_eq_zero]
        intro call hmem
        have hbeat := hcall call (Option.mem_toList.mp hmem)
        rw [hv, if_neg (by simp)] at hbeat
        simp [hbeat]
      rw [hzero]
      simp [outlasts, Event.beat?, hv]
    | proceed =>
      cases hb : (hub.begin (.beat t generation e) o).2 with
      | none =>
        rw [hb, Option.isSome_none] at hsome
        cases hserves : serves hub (.beat t generation e) with
        | false => simp [outlasts, Event.beat?, hv, hserves]
        | true =>
          rw [hserves, Bool.and_true, eq_comm] at hsome
          simp [outlasts, Event.beat?, hv, hserves, hsome]
      | some call =>
        rw [hb, Option.isSome_some, eq_comm] at hsome
        simp only [Bool.and_eq_true] at hsome
        have hbeat := hcall call hb
        rw [hv, if_pos rfl] at hbeat
        simp [outlasts, Event.beat?, Callback.beat?, hv, hbeat, hsome]

end Scenario
end Wakeup
