import Wakeup.Proofs.Calls

/-! What each operation does to the schedules of heartbeats. -/
namespace Wakeup

/-- A beat of a generation of a heartbeat, for an engine. -/
structure Beat where
  heartbeat : Nat
  generation : Nat
  engine : Nat
  deriving DecidableEq, Repr

/-- The beat that a callback is for. -/
def Callback.beat? : Callback → Option Beat
  | .beat t generation e => some ⟨t, generation, e⟩
  | _ => none

/-- The beat that an engine is being told of in a call. -/
def Call.beat? (call : Call) : Option Beat :=
  match call.owner, call.notice with
  | .heartbeat t generation, .heartbeat => some ⟨t, generation, call.engine⟩
  | _, _ => none

/-- A schedule after a beat of a generation was told. -/
def Schedule.next (generation : Nat) (s : Schedule) : Schedule :=
  match s.deadline, s.interval with
  | some deadline, some interval =>
    if s.generation = generation then { s with deadline := some (deadline + interval.length) }
    else s
  | _, _ => s

/-- A schedule that was set. -/
def Schedule.start (now : Nat) (interval : Interval) (s : Schedule) : Schedule :=
  ⟨some interval, some (now + interval.length), s.generation + 1⟩

/-- A schedule that was stopped. -/
def Schedule.halt (s : Schedule) : Schedule :=
  { s with deadline := none, generation := s.generation + 1 }

@[simp] theorem Schedule.generation_next (generation : Nat) (s : Schedule) :
    (s.next generation).generation = s.generation := by
  unfold next
  split
  · split <;> rfl
  · rfl

@[simp] theorem Schedule.interval_next (generation : Nat) (s : Schedule) :
    (s.next generation).interval = s.interval := by
  unfold next
  split
  · split <;> rfl
  · rfl

theorem Schedule.next_of_ne {generation : Nat} {s : Schedule} (h : s.generation ≠ generation) :
    s.next generation = s := by
  unfold next
  split
  · rw [if_neg h]
  · rfl

theorem Schedule.next_of_eq {s : Schedule} {deadline : Nat} {interval : Interval}
    (hd : s.deadline = some deadline) (hi : s.interval = some interval) :
    s.next s.generation = { s with deadline := some (deadline + interval.length) } := by
  unfold next
  rw [hd, hi]
  exact if_pos rfl

namespace Hub
variable {hub hub' : Hub Manual}

/-- When a heartbeat is due. -/
def schedule? (hub : Hub Manual) (t : Nat) : Option Schedule :=
  hub.heartbeats[t]?.map (·.schedule)

/-- Whether a completion ends the schedule of a heartbeat. -/
def fails (hub : Hub Manual) (c : Callback) (o : Outcome) (t : Nat) : Bool :=
  c.part? == some (.heartbeat t) && hub.reaches c && hub.asks c o && Verdict.of o != .proceed

theorem ne_length_of_schedule? {t : Nat} {x : Schedule} (h : hub.schedule? t = some x) :
    t ≠ hub.heartbeats.length := by
  obtain ⟨y, hy, -⟩ := Option.map_eq_some_iff.mp h
  exact (List.getElem?_eq_some_iff.mp hy).1.ne

theorem schedule?_congr (h : hub'.heartbeats = hub.heartbeats) (j : Nat) :
    hub'.schedule? j = hub.schedule? j := by
  unfold schedule?
  rw [h]

theorem schedule?_modifyHeartbeat {f : Heartbeat → Heartbeat}
    (hf : ∀ x, (f x).schedule = x.schedule) (hub : Hub Manual) (t j : Nat) :
    (hub.modifyHeartbeat t f).schedule? j = hub.schedule? j := by
  unfold schedule? modifyHeartbeat
  rw [List.getElem?_modify]
  cases hub.heartbeats[j]? with
  | none => rfl
  | some x => by_cases htj : t = j <;> simp [htj, hf]

theorem schedule?_modifySchedule (hub : Hub Manual) (t : Nat) (f : Schedule → Schedule)
    (j : Nat) : (hub.modifySchedule t f).schedule? j =
      if t = j then (hub.schedule? j).map f else hub.schedule? j := by
  unfold schedule? modifySchedule modifyHeartbeat
  dsimp only
  rw [List.getElem?_modify]
  cases hub.heartbeats[j]? with
  | none => simp
  | some x => by_cases htj : t = j <;> simp [htj]

theorem heartbeats_armDeadline (hub : Hub Manual) (t deadline e : Nat) :
    (hub.armDeadline t deadline e).heartbeats = hub.heartbeats := by
  unfold armDeadline
  split <;> rfl

theorem heartbeats_armSide (hub : Hub Manual) (i : Nat) (d : Direction) (e : Nat) :
    (hub.armSide i d e).heartbeats = hub.heartbeats := by
  unfold armSide
  split
  · rfl
  · split <;> rfl

theorem heartbeats_setSide (hub : Hub Manual) (i e : Nat) (d : Direction) (wanted : Bool) :
    (hub.setSide i e d wanted).heartbeats = hub.heartbeats := by
  unfold setSide
  cases wanted with
  | false => rfl
  | true => exact heartbeats_armSide (hub.modifySide i d _) i d e

theorem heartbeats_setInterest (hub : Hub Manual) (i e : Nat) (ev : Events) :
    (hub.setInterest i e ev).heartbeats = hub.heartbeats :=
  (heartbeats_setSide _ i e .write _).trans (heartbeats_setSide hub i e .read _)

theorem heartbeats_reapWatcher (hub : Hub Manual) (i : Nat) :
    (hub.reapWatcher i).heartbeats = hub.heartbeats := by
  unfold reapWatcher
  split
  · rfl
  · split <;> rfl

theorem heartbeats_dropWatcher (hub : Hub Manual) (i : Nat) :
    (hub.dropWatcher i).heartbeats = hub.heartbeats :=
  heartbeats_reapWatcher (hub.modifyWatcher i _) i

theorem heartbeats_releaseWatcher (hub : Hub Manual) (i : Nat) :
    (hub.releaseWatcher i).heartbeats = hub.heartbeats :=
  heartbeats_reapWatcher (hub.modifyWatcher i _) i

theorem heartbeats_newWatcher {s i : Nat} {fd : Fd} (h : hub.newWatcher s fd = (.ok i, hub')) :
    hub'.heartbeats = hub.heartbeats := by
  obtain ⟨r, m, -, -, rfl⟩ := newWatcher_ok h
  rfl

theorem schedule?_setHeartbeat (hub : Hub Manual) (t e : Nat) (interval : Interval) (j : Nat) :
    (hub.setHeartbeat t e interval).schedule? j =
      if t = j then (hub.schedule? j).map (.start hub.reactor.now interval)
      else hub.schedule? j := by
  unfold setHeartbeat
  split
  · rename_i hx
    by_cases htj : t = j
    · simp [← htj, schedule?, hx]
    · simp [htj]
  · rename_i x _
    dsimp only
    rw [schedule?_congr (heartbeats_armDeadline _ _ _ _), schedule?_modifySchedule]
    rfl

theorem schedule?_stopHeartbeat (hub : Hub Manual) (t j : Nat) :
    (hub.stopHeartbeat t).schedule? j =
      if t = j then (hub.schedule? j).map .halt else hub.schedule? j := by
  unfold stopHeartbeat
  split
  · rename_i hx
    by_cases htj : t = j
    · simp [← htj, schedule?, hx]
    · simp [htj]
  · rename_i x _
    exact schedule?_modifySchedule hub t .halt j

theorem schedule?_nextBeat (hub : Hub Manual) (t generation e j : Nat) :
    (hub.nextBeat t generation e).schedule? j =
      if t = j then (hub.schedule? j).map (.next generation) else hub.schedule? j := by
  unfold nextBeat
  cases hx : hub.heartbeats[t]? with
  | none =>
    by_cases htj : t = j
    · simp [← htj, schedule?, hx]
    · simp [htj]
  | some x =>
    have hsame (h : x.schedule.next generation = x.schedule) : hub.schedule? j =
        if t = j then (hub.schedule? j).map (.next generation) else hub.schedule? j := by
      by_cases htj : t = j
      · simp [← htj, schedule?, hx, h]
      · simp [htj]
    dsimp only
    split
    · rename_i deadline interval hd hi
      split
      · rename_i hg
        rw [schedule?_congr (heartbeats_armDeadline _ _ _ _), schedule?_modifySchedule]
        by_cases htj : t = j
        · simp [← htj, schedule?, hx, Schedule.next, hd, hi, hg]
        · simp [htj]
      · rename_i hg
        refine hsame ?_
        simp [Schedule.next, hd, hi, hg]
    · rename_i hn
      refine hsame ?_
      unfold Schedule.next
      split
      · rename_i deadline interval hd hi
        exact absurd hi (hn deadline interval hd)
      · rfl

theorem heartbeats_reapHeartbeat (hub : Hub Manual) (t : Nat) :
    (hub.reapHeartbeat t).heartbeats = hub.heartbeats := by
  unfold reapHeartbeat
  split
  · rfl
  · split <;> rfl

theorem schedule?_dropHeartbeat (hub : Hub Manual) (t j : Nat) :
    (hub.dropHeartbeat t).schedule? j = hub.schedule? j := by
  unfold dropHeartbeat
  rw [schedule?_congr (heartbeats_reapHeartbeat _ _), schedule?_modifyHeartbeat]
  exact fun _ => rfl

theorem schedule?_releaseHeartbeat (hub : Hub Manual) (t j : Nat) :
    (hub.releaseHeartbeat t).schedule? j = hub.schedule? j := by
  unfold releaseHeartbeat
  rw [schedule?_congr (heartbeats_reapHeartbeat _ _), schedule?_modifyHeartbeat]
  exact fun _ => rfl

theorem schedule?_newHeartbeat (hub : Hub Manual) (s j : Nat) :
    (hub.newHeartbeat s).2.schedule? j =
      if j = hub.heartbeats.length then some {} else hub.schedule? j := by
  unfold schedule? newHeartbeat
  dsimp only
  rw [List.getElem?_append]
  by_cases hlt : j < hub.heartbeats.length
  · rw [if_pos hlt, if_neg hlt.ne]
  · rw [if_neg hlt, List.getElem?_eq_none (not_lt.mp hlt), List.getElem?_singleton]
    by_cases hj : j = hub.heartbeats.length
    · simp [hj]
    · have hne : ¬j - hub.heartbeats.length = 0 := by omega
      simp [hj, hne]

theorem schedule?_startCall (hub : Hub Manual) (call : Call) (j : Nat) :
    (hub.startCall call).1.schedule? j = hub.schedule? j := by
  have howner : (hub.acquireOwner call.owner).schedule? j = hub.schedule? j := by
    cases call.owner with
    | watcher i d => rfl
    | heartbeat t generation =>
      let f (x : Heartbeat) : Heartbeat := { x with presence := x.presence.acquire }
      exact schedule?_modifyHeartbeat (f := f) (fun _ => rfl) hub t j
  unfold startCall
  split
  · exact howner
  · rfl

theorem asks_beat (hub : Hub Manual) (t generation e : Nat) (o : Outcome) :
    hub.asks (.beat t generation e) o =
      (Verdict.of o != .canceled && (hub.schedule? t).any (·.generation == generation)) := by
  unfold asks schedule?
  rw [Option.any_map]
  cases Verdict.of o <;> rfl

/-- The completion of a wait ends a schedule if the wait failed, is for the current generation of a
heartbeat that lasts, and the strand of it lasts. -/
theorem schedule?_begin (hub : Hub Manual) (c : Callback) (o : Outcome) (j : Nat) :
    (hub.begin c o).1.schedule? j =
      if hub.fails c o j then (hub.schedule? j).map ({ · with deadline := none })
      else hub.schedule? j := by
  cases c with
  | bare tag => simp [begin, fails, Callback.part?]
  | ready i d e =>
    have hneg : hub.fails (.ready i d e) o j = false := rfl
    rw [hneg, if_neg Bool.false_ne_true]
    simp only [begin, beginReady]
    repeat' split
    all_goals first
      | rfl
      | exact schedule?_startCall _ _ j
  | beat t generation e =>
    cases hx : hub.heartbeats[t]? with
    | none => simp [begin, beginBeat, fails, reaches, hx]
    | some x =>
      have hs : hub.schedule? t = some x.schedule := by simp [schedule?, hx]
      unfold fails
      rw [asks_beat]
      simp only [begin, beginBeat, Callback.part?, reaches, hx, hs, Option.any_some]
      cases (x.presence.alive && hub.strandAlive x.strand) with
      | false => simp
      | true =>
        simp only [if_true, Bool.and_true]
        cases hv : Verdict.of o with
        | canceled => simp
        | proceed =>
          simp only [bne_self_eq_false, Bool.and_false, Bool.false_eq_true, if_false]
          split
          · exact schedule?_startCall hub _ j
          · rfl
        | failed err =>
          by_cases hg : x.schedule.generation = generation
          · simp [hg, schedule?_startCall, schedule?_modifySchedule]
          · simp [hg]

/-- The end of a call in which an engine was told of a beat sets the next deadline. -/
theorem schedule?_finish (hub : Hub Manual) (call : Call) (j : Nat) :
    (hub.finish call).schedule? j =
      match call.beat? with
      | some b =>
        if b.heartbeat = j then (hub.schedule? j).map (.next b.generation) else hub.schedule? j
      | none => hub.schedule? j := by
  have hrelease : (hub.finish call).schedule? j = (hub.resume call).schedule? j := by
    unfold finish
    cases call.owner with
    | watcher i d => exact schedule?_congr (heartbeats_releaseWatcher _ i) j
    | heartbeat t generation => exact schedule?_releaseHeartbeat _ t j
  rw [hrelease]
  obtain ⟨owner, s, e, notice⟩ := call
  cases owner with
  | watcher i d =>
    cases notice with
    | process =>
      simp only [resume]
      split
      · exact schedule?_congr (heartbeats_armSide hub i d e) j
      · rfl
    | heartbeat => rfl
    | waitError => rfl
  | heartbeat t generation =>
    cases notice with
    | heartbeat => exact schedule?_nextBeat hub t generation e j
    | process => rfl
    | waitError => rfl

end Hub
end Wakeup
