import Wakeup.Proofs.Alarms
import Wakeup.Session.Run

/-! Settling a session with a heartbeat. Tasks that lost their slots complete and are gone, and the
one that holds its slot is spawned anew for each beat, until its deadline is to come. The order in
which scheduled tasks are polled does not matter. -/
namespace Wakeup

namespace Session
variable {m m' : Metronome} {s s' s'' : Session} {a a' : Option Alarm} {n n' id : Nat}
  {records records' : List Record}

def Record.isHeartbeat : Record → Bool
  | .heartbeat .. => true
  | _ => false

/-- A session whose engine does nothing in a heartbeat does what a metronome does. -/
structure Mirrors (m : Metronome) (s : Session) (a : Option Alarm) : Prop where
  hub : m.Mirrors Tasks.keeper s.handler s.hub a
  engine : s.engine = if m.engine then some 0 else none
  stays : s.closeOn = none ∧ s.renegotiateOn = none

/-- How many polls the tasks there are need, if none is spawned. A driver that does not know the
time yet may schedule all of them. -/
def load (s : Session) : Nat :=
  s.hub.reactor.tasks.length + s.hub.reactor.queue.length +
    if s.hub.reactor.turned = s.hub.reactor.now then 0 else s.hub.reactor.tasks.length

/-- A session makes some of the calls that a metronome has to catch up with, in a number of
polls. -/
structure Advances (m : Metronome) (s : Session) (n : Nat) (records : List Record) (m' : Metronome)
    (s' : Session) : Prop where
  counts : m.Counts (records.countP Record.isHeartbeat) m'
  tasks : s'.hub.reactor.tasks.length ≤ s.hub.reactor.tasks.length
  load : n + (s'.load + m'.lag) ≤ s.load + m.lag

theorem Advances.refl (m : Metronome) (s : Session) : Advances m s 0 [] m s :=
  ⟨.refl m, Nat.le_refl _, Nat.le_of_eq (Nat.zero_add _)⟩

theorem Advances.trans {m'' : Metronome} (h : Advances m s n records m' s')
    (h' : Advances m' s' n' records' m'' s'') :
    Advances m s (n + n') (records ++ records') m'' s'' := by
  have hload := h.load
  have hload' := h'.load
  refine ⟨?_, Nat.le_trans h'.tasks h.tasks, by omega⟩
  rw [List.countP_append]
  exact h.counts.trans h'.counts

/-- A poll, in which the driver learns nothing. -/
theorem Advances.of_poll (hcounts : m.Counts (records.countP Record.isHeartbeat) m')
    (hturned : s'.hub.reactor.turned = s.hub.reactor.turned)
    (hnow : s'.hub.reactor.now = s.hub.reactor.now)
    (htasks : s'.hub.reactor.tasks.length ≤ s.hub.reactor.tasks.length)
    (hless : s'.hub.reactor.tasks.length + s'.hub.reactor.queue.length + m'.lag <
      s.hub.reactor.tasks.length + s.hub.reactor.queue.length + m.lag) :
    Advances m s 1 records m' s' := by
  refine ⟨hcounts, htasks, ?_⟩
  unfold Session.load
  rw [hturned, hnow]
  split
  · omega
  · omega

/-- Scheduled tasks are polled in any order, and the driver has a turn whenever it likes. -/
inductive Polls (s : Session) : Nat → List Record → Session → Prop
  | refl : Polls s 0 [] s
  | poll {n : Nat} {records : List Record} {s' : Session} {id : Nat} (h : Polls s n records s')
    (hid : id ∈ s'.hub.reactor.queue) :
    Polls s (n + 1) (records ++ ((s'.modifyReactor (Tasks.dequeue id)).pollTask id).1)
      ((s'.modifyReactor (Tasks.dequeue id)).pollTask id).2
  | turn {n : Nat} {records : List Record} {s' : Session} (h : Polls s n records s') :
    Polls s n records (s'.modifyReactor Tasks.turn)

theorem Polls.trans (h : Polls s n records s') (h' : Polls s' n' records' s'') :
    Polls s (n + n') (records ++ records') s'' := by
  induction h' with
  | refl => simpa using h
  | poll _ hid ih =>
    rw [← List.append_assoc]
    exact ih.poll hid
  | turn _ ih => exact ih.turn

/-- No task is scheduled, and the driver schedules none in its turn. -/
def AtRest (s : Session) : Prop :=
  s.hub.reactor.queue = [] ∧ s.hub.reactor.turn = s.hub.reactor

/-- A session has made all calls that a metronome had to catch up with, and nothing happens any
more. -/
structure Settles (m : Metronome) (result : List Record × Session) : Prop where
  calls : result.1.countP Record.isHeartbeat = m.catchUp.1
  mirrors : ∃ a, Mirrors m.catchUp.2 result.2 a
  rest : result.2.AtRest

section Schedule

/-- The first of the scheduled tasks is polled each time. -/
theorem polls_poll (n : Nat) (s : Session) : ∃ k, Polls s k (s.poll n).1 (s.poll n).2 ∧
    (0 < n → s.hub.reactor.queue ≠ [] → 0 < k) := by
  induction n generalizing s with
  | zero => exact ⟨0, .refl, fun h => absurd h (Nat.lt_irrefl 0)⟩
  | succ n ih =>
    unfold Session.poll
    cases hq : s.hub.reactor.queue with
    | nil => exact ⟨0, .refl, fun _ h => absurd rfl h⟩
    | cons id queue =>
      have hfirst : s.modifyReactor (Tasks.dequeue id) =
          s.modifyReactor fun r => { r with queue := queue } := by
        unfold modifyReactor Tasks.dequeue Tasks.withQueue
        rw [hq, List.erase_cons_head]
      have hpoll := Polls.poll (.refl : Polls s 0 [] s)
        (hq ▸ List.mem_cons_self : id ∈ s.hub.reactor.queue)
      rw [hfirst] at hpoll
      obtain ⟨k, hrest, -⟩ :=
        ih ((s.modifyReactor fun r => { r with queue := queue }).pollTask id).2
      exact ⟨_, hpoll.trans hrest, fun _ _ => by omega⟩

private theorem polls_settleWithin (fuel : Nat) (s : Session) :
    ∃ k, Polls s k (settleWithin fuel s).1 (settleWithin fuel s).2 := by
  induction fuel generalizing s with
  | zero => exact ⟨0, .refl⟩
  | succ fuel ih =>
    obtain ⟨k, hround, -⟩ := s.polls_poll pollsPerTurn
    obtain ⟨k', hrest⟩ := ih s.round.2
    unfold settleWithin
    dsimp only
    split
    · exact ⟨k, hround.turn⟩
    · exact ⟨k + k', hround.turn.trans hrest⟩

theorem polls_settle (s : Session) : ∃ k, Polls s k s.settle.1 s.settle.2 :=
  polls_settleWithin s.budget s

/-- Nothing happens in a round. -/
theorem AtRest.round_eq_self (h : s.AtRest) : s.round = ([], s) := by
  have hpoll : s.poll pollsPerTurn = ([], s) := by
    unfold pollsPerTurn Session.poll
    rw [h.1]
  unfold Session.round
  rw [hpoll]
  unfold modifyReactor
  dsimp only
  rw [h.2]

end Schedule

/-- A heartbeat that is told that its wait was cancelled does nothing. -/
theorem complete_canceled (s : Session) {c : Callback}
    (hc : ∃ t generation e, c = .beat t generation e) :
    s.complete c (.error .canceled) = ([], s) := by
  obtain ⟨t, generation, e, rfl⟩ := hc
  have hbegin : s.hub.begin (.beat t generation e) (.error .canceled) = (s.hub, none) := by
    unfold Hub.begin Hub.beginBeat
    dsimp only
    split
    · rfl
    · split <;> rfl
  unfold complete
  dsimp only
  rw [hbegin]

private theorem react_heartbeat {call : Call} (hc : call.notice = .heartbeat)
    (hclose : s.closeOn = none) (hrenegotiate : s.renegotiateOn = none) :
    s.react call =
      (.heartbeat (s.beats + 1) s.hub.reactor.now, { s with beats := s.beats + 1 }) := by
  unfold react
  simp only [hc, hclose, hrenegotiate]
  rfl

namespace Mirrors

/-- Only the tasks change. -/
theorem withReactor (h : Mirrors m s a) {r : Tasks} (ha : r.Awaits a)
    (htimers : r.timers = s.hub.reactor.timers) (hnow : r.now = s.hub.reactor.now) :
    Mirrors m (s.modifyReactor fun _ => r) a := by
  refine ⟨h.hub.withReactor ha (fun t ht => ?_) m.now (hnow.trans h.hub.now), h.engine, h.stays⟩
  change t < r.timers.length
  rw [htimers]
  exact ht

/-- The deadline of the heartbeat is over. -/
theorem complete {x : Alarm} (h : Mirrors m s (some x)) {r : Tasks} (ha : r.Awaits none)
    (htimers : r.timers = s.hub.reactor.timers) (hnow : r.now = s.hub.reactor.now)
    (hdue : x.deadline ≤ m.now) (hc : ∃ t generation e, x.callback = .beat t generation e) :
    ∃ m' a' records s', (s.modifyReactor fun _ => r).complete x.callback (.ok ()) = (records, s') ∧
      Mirrors m' s' a' ∧ m.Counts (records.countP Record.isHeartbeat) m' ∧ m'.lag < m.lag ∧
      (s'.hub.reactor = r ∨
        ∃ deadline, s'.hub.reactor = r.schedule x.timer deadline x.callback) := by
  obtain ⟨t, generation, e, hc⟩ := hc
  obtain ⟨m', he, hlag, ⟨hcounts, hm, hbegin⟩ |
      ⟨hub', call, a', hcounts, hm, hbegin, -, hnotice, hreactor⟩⟩ :=
    h.hub.ring ha (fun t ht => by change t < r.timers.length; rw [htimers]; exact ht)
      (hnow.trans h.hub.now) hdue
  · refine ⟨m', none, [], s.modifyReactor fun _ => r, ?_, ⟨hm, he ▸ h.engine, h.stays⟩, hcounts,
      hlag, Or.inl rfl⟩
    rw [hc] at hbegin ⊢
    unfold Session.complete
    dsimp only [modifyReactor]
    rw [hbegin]
  · refine ⟨m', a', [.heartbeat (s.beats + 1) hub'.reactor.now],
      { s with beats := s.beats + 1, hub := hub'.finish call }, ?_, ⟨hm, he ▸ h.engine, h.stays⟩,
      hcounts, hlag, Or.inr hreactor⟩
    rw [hc] at hbegin ⊢
    unfold Session.complete
    dsimp only [modifyReactor]
    rw [hbegin]
    dsimp only
    rw [react_heartbeat (s := { s with hub := hub' }) hnotice h.stays.1 h.stays.2]

/-- A scheduled task is polled. -/
theorem pollTask (h : Mirrors m s a) (hid : id ∈ s.hub.reactor.queue) :
    ∃ m' a' records s', (s.modifyReactor (Tasks.dequeue id)).pollTask id = (records, s') ∧
      Mirrors m' s' a' ∧ Advances m s 1 records m' s' := by
  have hqueue : (s.hub.reactor.dequeue id).queue.length + 1 = s.hub.reactor.queue.length :=
    List.length_erase_add_one hid
  have hremove : ((s.hub.reactor.dequeue id).remove id).tasks.length <
      s.hub.reactor.tasks.length := by
    obtain ⟨τ, hτ, heq⟩ := h.hub.awaits.known id hid
    exact List.length_filter_lt_length_iff_exists.mpr ⟨τ, hτ, by simp [heq]⟩
  rcases h.hub.awaits.poll hid with
    ⟨x, hc, hpoll, hrest⟩ | ⟨hpoll, hrest⟩ | ⟨x, rfl, hdue, hc, hpoll, hrest⟩
  · refine ⟨m, a, [], s.modifyReactor fun r => (r.dequeue id).remove id, ?_,
      h.withReactor hrest rfl rfl, .of_poll (.refl m) rfl rfl (Nat.le_of_lt hremove) ?_⟩
    · unfold Session.pollTask
      dsimp only [modifyReactor]
      rw [hpoll]
      exact complete_canceled _ hc
    · change ((s.hub.reactor.dequeue id).remove id).tasks.length +
        (s.hub.reactor.dequeue id).queue.length + m.lag < _
      omega
  · refine ⟨m, a, [], s.modifyReactor fun r => r.dequeue id, ?_,
      h.withReactor hrest rfl rfl, .of_poll (.refl m) rfl rfl (Nat.le_refl _) ?_⟩
    · unfold Session.pollTask
      dsimp only [modifyReactor]
      rw [hpoll]
    · change s.hub.reactor.tasks.length + (s.hub.reactor.dequeue id).queue.length + m.lag < _
      omega
  · have hnow : s.hub.reactor.now = m.now := h.hub.now
    obtain ⟨m', a', records, s', hcomplete, hm, hcounts, hlag, hreactor⟩ :=
      h.complete hrest rfl rfl (hnow ▸ Nat.le_trans hdue h.hub.awaits.turned) hc
    refine ⟨m', a', records, s', ?_, hm, ?_⟩
    · unfold Session.pollTask
      dsimp only [modifyReactor]
      rw [hpoll]
      exact hcomplete
    · rcases hreactor with hreactor | ⟨deadline, hreactor⟩
      · have hqueue' : s'.hub.reactor.queue.length + 1 = s.hub.reactor.queue.length := by
          rw [hreactor]
          exact hqueue
        rw [← hreactor] at hremove
        exact .of_poll hcounts (by rw [hreactor]; rfl) (by rw [hreactor]; rfl)
          (Nat.le_of_lt hremove) (by omega)
      · -- a task is spawned for the one that is gone, and the next beat is less late
        rw [hrest.schedule_eq] at hreactor
        have htasks : s'.hub.reactor.tasks.length =
            ((s.hub.reactor.dequeue id).remove id).tasks.length + 1 := by
          rw [hreactor]
          exact List.length_append
        have hqueue' : s'.hub.reactor.queue.length = s.hub.reactor.queue.length := by
          rw [hreactor, ← hqueue]
          exact List.length_append
        exact .of_poll hcounts (by rw [hreactor]; rfl) (by rw [hreactor]; rfl) (by omega) (by omega)

/-- The driver has its turn. -/
theorem turn (h : Mirrors m s a) : Mirrors m (s.modifyReactor Tasks.turn) a ∧
    Advances m s 0 [] m (s.modifyReactor Tasks.turn) ∧
    (s.modifyReactor Tasks.turn).hub.reactor.turned =
      (s.modifyReactor Tasks.turn).hub.reactor.now := by
  obtain ⟨queue, hturn, hawaits⟩ := h.hub.awaits.turn
  have hm := h.withReactor hawaits (by rw [hturn]) (by rw [hturn])
  have hturned : s.hub.reactor.turn.turned = s.hub.reactor.turn.now := by rw [hturn]
  have htasks : s.hub.reactor.turn.tasks.length = s.hub.reactor.tasks.length := by rw [hturn]
  refine ⟨hm, ⟨.refl m, Nat.le_of_eq htasks, ?_⟩, hturned⟩
  by_cases hknown : s.hub.reactor.turned = s.hub.reactor.now
  · unfold load modifyReactor
    dsimp only
    rw [h.hub.awaits.turn_eq_self hknown, Nat.zero_add]
  · have hqueue := hawaits.length_queue_le
    unfold load modifyReactor
    dsimp only
    rw [if_pos hturned, if_neg hknown]
    omega

/-- Polls in any order make calls that a metronome has to catch up with, and there is an end to
them. -/
theorem polls (h : Mirrors m s a) (hp : Polls s n records s') :
    ∃ m' a', Mirrors m' s' a' ∧ Advances m s n records m' s' := by
  induction hp with
  | refl => exact ⟨m, a, h, .refl m s⟩
  | poll _ hid ih =>
    obtain ⟨m', a', hm, hadvances⟩ := ih
    obtain ⟨m'', a'', records', s'', hpoll, hm', hadvances'⟩ := hm.pollTask hid
    rw [hpoll]
    exact ⟨m'', a'', hm', hadvances.trans hadvances'⟩
  | turn _ ih =>
    obtain ⟨m', a', hm, hadvances⟩ := ih
    obtain ⟨hm', hadvances', -⟩ := hm.turn
    exact ⟨m', a', hm', by simpa using hadvances.trans hadvances'⟩

/-- In whichever order tasks are polled, all calls have been made when nothing happens any more. -/
theorem settles_of_polls (h : Mirrors m s a) (hp : Polls s n records s') (hrest : s'.AtRest) :
    Settles m (records, s') := by
  obtain ⟨m', a', hm, hadvances⟩ := h.polls hp
  have hturned := hm.turn.2.2
  have hlt := hm.hub.awaits.turned_lt hrest.1
  have hnow : s'.hub.reactor.now = m'.now := hm.hub.now
  change s'.hub.reactor.turn.turned = s'.hub.reactor.turn.now at hturned
  rw [hrest.2, hnow] at hturned
  rw [hturned] at hlt
  obtain ⟨hn, rfl⟩ := hadvances.counts.eq_catchUp (hm.hub.catchUp_eq hlt)
  exact ⟨hn, ⟨a', hm⟩, hrest⟩

theorem atRest (h : Mirrors m s a) (hturned : s.hub.reactor.turned = s.hub.reactor.now)
    (hq : s.hub.reactor.queue = []) : s.AtRest := ⟨hq, h.hub.awaits.turn_eq_self hturned⟩

/-- After a round the driver knows the time. -/
theorem round (h : Mirrors m s a) : ∃ m' a' n, Mirrors m' s.round.2 a' ∧
    Advances m s n s.round.1 m' s.round.2 ∧
    s.round.2.hub.reactor.turned = s.round.2.hub.reactor.now ∧
    (s.hub.reactor.queue ≠ [] → 0 < n) := by
  obtain ⟨n, hpoll, hpos⟩ := s.polls_poll pollsPerTurn
  obtain ⟨m', a', hm, hadvances⟩ := h.polls hpoll
  obtain ⟨hm', hadvances', hturned⟩ := hm.turn
  have hround := hadvances.trans hadvances'
  rw [Nat.add_zero, List.append_nil] at hround
  exact ⟨m', a', n, hm', hround, hturned, hpos (by decide)⟩

/-- A round, and those after it if a task is scheduled. -/
theorem atRest_of_round {fuel : Nat} (h : Mirrors m s.round.2 a)
    (hturned : s.round.2.hub.reactor.turned = s.round.2.hub.reactor.now)
    (hrest : s.round.2.hub.reactor.queue ≠ [] → (settleWithin fuel s.round.2).2.AtRest) :
    (settleWithin (fuel + 1) s).2.AtRest := by
  unfold settleWithin
  dsimp only
  split
  · rename_i hq
    exact h.atRest hturned (List.isEmpty_iff.mp hq)
  · rename_i hq
    exact hrest fun hnil => hq (List.isEmpty_iff.mpr hnil)

/-- Rounds in which the driver knows the time. -/
theorem atRest_settleWithin (fuel : Nat) (h : Mirrors m s a)
    (hturned : s.hub.reactor.turned = s.hub.reactor.now) (hfuel : s.load + m.lag < fuel) :
    (settleWithin fuel s).2.AtRest := by
  induction fuel generalizing m s a with
  | zero => exact absurd hfuel (Nat.not_lt_zero _)
  | succ fuel ih =>
    obtain ⟨m', a', n, hm, hadvances, hturned', hpos⟩ := h.round
    refine hm.atRest_of_round hturned' fun hq' => ih hm hturned' ?_
    have hq : s.hub.reactor.queue ≠ [] := by
      intro hq
      rw [(h.atRest hturned hq).round_eq_self] at hq'
      exact hq' hq
    have hload := hadvances.load
    have hn := hpos hq
    omega

/-- The budget is enough. -/
theorem atRest_settle (h : Mirrors m s a) : s.settle.2.AtRest := by
  obtain ⟨m', a', n, hm, hadvances, hturned, -⟩ := h.round
  obtain ⟨fuel, hbudget⟩ : ∃ fuel, s.budget = fuel + 1 := ⟨_, rfl⟩
  unfold Session.settle
  rw [hbudget]
  refine hm.atRest_of_round hturned fun _ => hm.atRest_settleWithin fuel hturned ?_
  -- the first round may schedule tasks, but no more than there are
  have htasks := hadvances.tasks
  have hlag := hadvances.counts.lag
  have hqueue := hm.hub.awaits.length_queue_le
  have hoverdue : m.lag ≤ total (fun y => y.schedule.overdue s.hub.reactor.now) s.hub.heartbeats :=
    h.hub.lag_le
  unfold budget at hbudget
  unfold load
  rw [if_pos hturned]
  omega

/-- Settling catches up with the time, and ends when nothing happens any more. -/
theorem settle (h : Mirrors m s a) : Settles m s.settle := by
  obtain ⟨k, hp⟩ := s.polls_settle
  exact h.settles_of_polls hp h.atRest_settle

end Mirrors

/-- The operation of a session for a move. -/
def Op.ofMove : Metronome.Move → Op
  | .negotiate seconds => .negotiate seconds
  | .close => .close
  | .advance elapsed => .advance elapsed
  | .dropEngine => .dropEngine
  | .dropHandler => .dropHandler

/-- The interval that the handler reports. -/
def heartbeatInterval (s : Session) : Option Interval := s.view.bind View.heartbeat

/-- The heartbeats of each move, and the interval reported after it. -/
def beatEach : List Metronome.Move → Session → List (Nat × Option Interval)
  | [], _ => []
  | move :: moves, s =>
    let (_, records, s) := s.perform (.ofMove move)
    (records.countP Record.isHeartbeat, s.heartbeatInterval) :: beatEach moves s

/-- The heartbeats of each move and the interval reported after it, when scheduled tasks are polled
in any order until nothing happens any more, whenever time has passed. -/
inductive Shows : Session → List Metronome.Move → List (Nat × Option Interval) → Prop
  | nil (s : Session) : Shows s [] []
  | advance {s s' : Session} {n elapsed : Nat} {records : List Record} {moves : List Metronome.Move}
    {shown : List (Nat × Option Interval)}
    (hp : Polls (s.performQuiet (.advance elapsed)).2 n records s') (hrest : s'.AtRest)
    (h : Shows s' moves shown) :
    Shows s (.advance elapsed :: moves)
      ((records.countP Record.isHeartbeat, s'.heartbeatInterval) :: shown)
  | quiet {s : Session} {move : Metronome.Move} {moves : List Metronome.Move}
    {shown : List (Nat × Option Interval)} (hmove : ∀ elapsed, move ≠ .advance elapsed)
    (h : Shows (s.performQuiet (.ofMove move)).2 moves shown) :
    Shows s (move :: moves)
      ((0, (s.performQuiet (.ofMove move)).2.heartbeatInterval) :: shown)

/-- The session after some moves. -/
def after (moves : List Metronome.Move) (s : Session) : Session :=
  moves.foldl (fun s move => (s.perform (.ofMove move)).2.2) s

namespace Mirrors

private theorem heartbeatInterval_eq (h : Mirrors m s a) : s.heartbeatInterval = m.interval := by
  rw [← h.hub.interval_eq]
  unfold heartbeatInterval view
  cases s.handler <;> rfl

theorem create (runtime : Runtime) (options : Options) :
    Mirrors {} (Session.create { runtime := runtime, options := options } none none) none := by
  have hempty : ({ runtime := runtime, options := options } : Tasks).Awaits none := by
    refine ⟨⟨List.nodup_nil, ?_, List.nodup_nil, ?_⟩, rfl, Nat.le_refl _, ?_, ?_, ?_⟩
    all_goals exact fun _ h => absurd h (by simp)
  refine ⟨⟨rfl, rfl, hempty.newTimer, ?_⟩, rfl, rfl, rfl⟩
  exact .held (y := ⟨0, 0, {}, {}⟩) rfl rfl rfl rfl rfl rfl rfl Nat.zero_lt_one rfl (.idle rfl)

theorem negotiate (h : Mirrors m s a) (seconds : Nat) :
    ∃ a', Mirrors (m.step (.negotiate seconds)).2 (s.performQuiet (.negotiate seconds)).2 a' := by
  have hm := h.hub
  simp only [Metronome.step, Session.performQuiet, h.engine]
  cases he : m.engine with
  | false => exact ⟨a, h⟩
  | true =>
    rw [hm.handler_eq]
    cases hh : s.handler with
    | none => exact ⟨a, h⟩
    | some g =>
      rw [hh] at hm
      obtain ⟨a', hm'⟩ := hm.negotiate seconds
      refine ⟨a', ?_⟩
      simp only [Session.negotiate, hh]
      exact ⟨hm', (m.engine_negotiate seconds).symm ▸ h.engine, h.stays⟩

theorem close (h : Mirrors m s a) :
    ∃ a', Mirrors (m.step .close).2 (s.performQuiet .close).2 a' := by
  have hm := h.hub
  simp only [Metronome.step, Session.performQuiet, h.engine]
  cases he : m.engine with
  | false => exact ⟨a, h⟩
  | true =>
    rw [hm.handler_eq]
    cases hh : s.handler with
    | none => exact ⟨a, h⟩
    | some g =>
      rw [hh] at hm
      refine ⟨none, ?_⟩
      simp only [Session.close, hh]
      exact ⟨hm.close, h.engine, h.stays⟩

theorem dropEngine (h : Mirrors m s a) :
    Mirrors (m.step .dropEngine).2 (s.performQuiet .dropEngine).2 a := by
  simp only [Metronome.step, Session.performQuiet, h.engine]
  cases he : m.engine with
  | false =>
    have hsame : { m with engine := false } = m := by rw [← he]
    exact hsame ▸ h
  | true => exact ⟨h.hub.dropEngine, rfl, h.stays⟩

theorem dropHandler (h : Mirrors m s a) :
    Mirrors (m.step .dropHandler).2 (s.performQuiet .dropHandler).2 none := by
  have hm := h.hub
  simp only [Metronome.step, Session.performQuiet]
  cases hh : s.handler with
  | none =>
    rw [hh] at hm
    exact ⟨by rw [hh]; exact hm.dropped, h.engine, h.stays⟩
  | some g =>
    rw [hh] at hm
    simp only [Session.dropHandler, hh]
    exact ⟨hm.drop, h.engine, h.stays⟩

theorem advance (h : Mirrors m s a) (elapsed : Nat) :
    Mirrors { m with now := m.now + elapsed }
      (s.modifyReactor fun r => { r with now := r.now + elapsed }) a := by
  have ha := h.hub.awaits
  have hnow : s.hub.reactor.now + elapsed = m.now + elapsed := congrArg (· + elapsed) h.hub.now
  have hlater : Tasks.Awaits { s.hub.reactor with now := s.hub.reactor.now + elapsed } a :=
    ⟨⟨ha.names, ha.fresh, ha.once, ha.known⟩, ha.events,
      Nat.le_trans ha.turned (Nat.le_add_right ..), ha.tends, ha.alarm, ha.asleep⟩
  exact ⟨h.hub.withReactor hlater (fun _ ht => ht) _ hnow, h.engine, h.stays⟩

/-- A move in which no time passes. -/
theorem quiet (h : Mirrors m s a) {move : Metronome.Move}
    (hmove : ∀ elapsed, move ≠ .advance elapsed) :
    (m.step move).1 = 0 ∧ ∃ a', Mirrors (m.step move).2 (s.performQuiet (.ofMove move)).2 a' := by
  cases move with
  | advance elapsed => exact absurd rfl (hmove elapsed)
  | negotiate seconds => exact ⟨rfl, h.negotiate seconds⟩
  | close => exact ⟨rfl, h.close⟩
  | dropEngine => exact ⟨rfl, a, h.dropEngine⟩
  | dropHandler => exact ⟨rfl, none, h.dropHandler⟩

private theorem perform (h : Mirrors m s a) (move : Metronome.Move) :
    ∃ a', Mirrors (m.step move).2 (s.perform (.ofMove move)).2.2 a' := by
  cases move with
  | advance elapsed => exact (h.advance elapsed).settle.mirrors
  | negotiate seconds => exact h.negotiate seconds
  | close => exact h.close
  | dropEngine => exact ⟨a, h.dropEngine⟩
  | dropHandler => exact ⟨none, h.dropHandler⟩

/-- What a session shows is what a metronome does, in whichever order tasks are polled. -/
theorem shows_eq {moves : List Metronome.Move} {shown : List (Nat × Option Interval)}
    (h : Mirrors m s a) (hs : Shows s moves shown) : shown = m.showEach moves := by
  induction hs generalizing m a with
  | nil => rfl
  | @advance s s' n elapsed records moves shown hp hrest _ ih =>
    have hsettles := (h.advance elapsed).settles_of_polls hp hrest
    obtain ⟨a', hm⟩ := hsettles.mirrors
    rw [hsettles.calls, hm.heartbeatInterval_eq, ih hm]
    rfl
  | quiet hmove _ ih =>
    obtain ⟨hbeats, a', hm⟩ := h.quiet hmove
    rw [hm.heartbeatInterval_eq, ih hm, ← hbeats]
    rfl

/-- The session polls in one of these orders. -/
theorem shows_beatEach (h : Mirrors m s a) (moves : List Metronome.Move) :
    Shows s moves (beatEach moves s) := by
  induction moves generalizing m s a with
  | nil => exact .nil s
  | cons move moves ih =>
    cases move with
    | advance elapsed =>
      have hlater : Mirrors _ (s.performQuiet (.advance elapsed)).2 a := h.advance elapsed
      obtain ⟨n, hp⟩ := (s.performQuiet (.advance elapsed)).2.polls_settle
      obtain ⟨a', hm⟩ := hlater.settle.mirrors
      have hrest := hlater.atRest_settle
      unfold beatEach Session.perform Op.ofMove
      dsimp only
      generalize (s.performQuiet (.advance elapsed)).2.settle = result at *
      exact .advance hp hrest (ih hm)
    | negotiate seconds =>
      obtain ⟨a', hm⟩ := h.negotiate seconds
      exact .quiet (fun _ => Metronome.Move.noConfusion) (ih hm)
    | close =>
      obtain ⟨a', hm⟩ := h.close
      exact .quiet (fun _ => Metronome.Move.noConfusion) (ih hm)
    | dropEngine => exact .quiet (fun _ => Metronome.Move.noConfusion) (ih h.dropEngine)
    | dropHandler => exact .quiet (fun _ => Metronome.Move.noConfusion) (ih h.dropHandler)

theorem beatEach_eq (h : Mirrors m s a) (moves : List Metronome.Move) :
    beatEach moves s = m.showEach moves := h.shows_eq (h.shows_beatEach moves)

/-- Nothing happens any more after the time has passed. -/
theorem round_after (h : Mirrors m s a) (moves : List Metronome.Move) (elapsed : Nat) :
    (s.after (moves ++ [.advance elapsed])).round =
      ([], s.after (moves ++ [.advance elapsed])) := by
  induction moves generalizing m s a with
  | nil => exact (h.advance elapsed).atRest_settle.round_eq_self
  | cons move moves ih =>
    obtain ⟨a', hm⟩ := h.perform move
    exact ih hm

end Mirrors
end Session
end Wakeup
