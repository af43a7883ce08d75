import Wakeup.Handler

/-! Heartbeats without a reactor. A metronome has one deadline at most, and beats at all that have
passed when time goes on. It tells what a handler does with its heartbeat on any reactor that keeps
the wait of one timer as it is asked to. -/
namespace Wakeup

structure Metronome where
  now : Nat := 0
  /-- The engine and the handler have not been dropped. -/
  engine : Bool := true
  handler : Bool := true
  /-- The interval that the handler reports. -/
  interval : Option Interval := none
  /-- The next deadline, and the time from each to the one after it. -/
  due : Option (Nat × Interval) := none

namespace Metronome

/-- What is done with a handler and its engine, and the time that passes. -/
inductive Move
  | negotiate (seconds : Nat)
  | close
  | advance (elapsed : Nat)
  | dropEngine
  | dropHandler
  deriving DecidableEq, Repr

/-- Waits for another deadline, or for none. -/
def await (due : Option (Nat × Interval)) (m : Metronome) : Metronome := { m with due := due }

/-- Beats at every deadline that has passed, and answers how many they are. Without an engine
there is no beat, and no deadline after the one that has passed. -/
def catchUp (m : Metronome) : Nat × Metronome :=
  match m.due with
  | none => (0, m)
  | some (deadline, interval) =>
    if deadline ≤ m.now then
      if m.engine then
        let n := (m.now - deadline) / interval.length + 1
        (n, m.await (some (deadline + n * interval.length, interval)))
      else (0, m.await none)
    else (0, m)

/-- Starts over with the first beat an interval from now. -/
def set (interval : Interval) (m : Metronome) : Metronome :=
  { m with interval := some interval, due := some (m.now + interval.length, interval) }

/-- At an interval of zero nothing changes. -/
def negotiate (seconds : Nat) (m : Metronome) : Metronome :=
  match Interval.ofSeconds? seconds with
  | none => m
  | some interval => m.set interval

def stop (m : Metronome) : Metronome := { m with interval := none, due := none }

/-- Answers the beats of a move too. Engines negotiate and close with handlers, so that nothing
comes of it without the one or the other. -/
def step (move : Move) (m : Metronome) : Nat × Metronome :=
  match move with
  | .negotiate seconds => (0, if m.engine && m.handler then m.negotiate seconds else m)
  | .close => (0, if m.engine && m.handler then m.stop else m)
  | .advance elapsed => catchUp { m with now := m.now + elapsed }
  | .dropEngine => (0, { m with engine := false })
  | .dropHandler => (0, { m.stop with handler := false })

/-- The beats of each move, and the interval reported after it. -/
def showEach : List Move → Metronome → List (Nat × Option Interval)
  | [], _ => []
  | move :: moves, m =>
    let (beats, m) := m.step move
    (beats, m.interval) :: showEach moves m

/-- By how much the next beat is late. -/
def lag (m : Metronome) : Nat :=
  match m.due with
  | none => 0
  | some (deadline, _) => m.now + 1 - deadline

variable {m : Metronome} {deadline : Nat} {interval : Interval}

theorem engine_negotiate (seconds : Nat) (m : Metronome) :
    (m.negotiate seconds).engine = m.engine := by
  unfold negotiate
  split <;> rfl

theorem catchUp_of_lt (h : ∀ deadline interval, m.due = some (deadline, interval) →
    m.now < deadline) : m.catchUp = (0, m) := by
  unfold catchUp
  split
  · rfl
  · rename_i deadline interval hdue
    rw [if_neg (Nat.not_le.mpr (h deadline interval hdue))]

/-- A deadline that has passed is one beat and leads to the next deadline. -/
theorem catchUp_of_le (h : m.due = some (deadline, interval)) (hle : deadline ≤ m.now)
    (he : m.engine = true) :
    m.catchUp = ((m.await (some (deadline + interval.length, interval))).catchUp.1 + 1,
      (m.await (some (deadline + interval.length, interval))).catchUp.2) := by
  have hpos := interval.length_pos
  by_cases hnext : deadline + interval.length ≤ m.now
  · have hdiv := Nat.div_eq_sub_div hpos (a := m.now - deadline) (by omega)
    rw [Nat.sub_sub] at hdiv
    have hsum (n : Nat) : deadline + (n + 1) * interval.length =
        deadline + interval.length + n * interval.length := by
      rw [Nat.add_mul, Nat.one_mul]
      omega
    simp only [catchUp, await, h, hle, hnext, he, if_true, hdiv, hsum]
  · have hdiv : (m.now - deadline) / interval.length = 0 := Nat.div_eq_of_lt (by omega)
    simp only [catchUp, await, h, hle, hnext, he, if_true, if_false, hdiv, Nat.zero_add,
      Nat.one_mul]

theorem catchUp_of_gone (h : m.due = some (deadline, interval)) (hle : deadline ≤ m.now)
    (he : m.engine = false) : m.catchUp = (m.await none).catchUp := by
  simp only [catchUp, await, h, hle, he, if_true, Bool.false_eq_true, if_false]

/-- Some of the beats that a metronome has to catch up with have been counted, and another one is
left with the rest. -/
structure Counts (m : Metronome) (beats : Nat) (m' : Metronome) : Prop where
  beats : beats + m'.catchUp.1 = m.catchUp.1
  rest : m'.catchUp.2 = m.catchUp.2
  now : m'.now = m.now
  lag : m'.lag ≤ m.lag

namespace Counts
variable {m' m'' : Metronome} {n n' : Nat}

theorem refl (m : Metronome) : m.Counts 0 m := ⟨Nat.zero_add _, rfl, rfl, Nat.le_refl _⟩

theorem trans (h : m.Counts n m') (h' : m'.Counts n' m'') : m.Counts (n + n') m'' :=
  ⟨by rw [Nat.add_assoc, h'.beats, h.beats], h'.rest.trans h.rest, h'.now.trans h.now,
    Nat.le_trans h'.lag h.lag⟩

/-- All beats have been counted. -/
theorem eq_catchUp (h : m.Counts n m') (hm : m'.catchUp = (0, m')) :
    n = m.catchUp.1 ∧ m' = m.catchUp.2 := by
  have hbeats := h.beats
  have hrest := h.rest
  rw [hm] at hbeats hrest
  exact ⟨hbeats, hrest⟩

end Counts

theorem lag_of_due (h : m.due = some (deadline, interval)) : m.lag = m.now + 1 - deadline := by
  unfold lag
  rw [h]

/-- One beat is counted at a deadline that has passed. -/
theorem counts_next (h : m.due = some (deadline, interval)) (hle : deadline ≤ m.now)
    (he : m.engine = true) :
    m.Counts 1 (m.await (some (deadline + interval.length, interval))) ∧
      (m.await (some (deadline + interval.length, interval))).lag < m.lag := by
  have hpos := interval.length_pos
  have hlag : (m.await (some (deadline + interval.length, interval))).lag < m.lag := by
    rw [lag_of_due h, lag_of_due rfl]
    change m.now + 1 - (deadline + interval.length) < _
    omega
  refine ⟨⟨?_, ?_, rfl, Nat.le_of_lt hlag⟩, hlag⟩
  · rw [catchUp_of_le h hle he, Nat.add_comm]
  · rw [catchUp_of_le h hle he]

theorem counts_none (h : m.due = some (deadline, interval)) (hle : deadline ≤ m.now)
    (he : m.engine = false) :
    m.Counts 0 (m.await none) ∧ (m.await none).lag < m.lag := by
  have hlag : (m.await none).lag < m.lag := by
    rw [lag_of_due h]
    exact Nat.sub_pos_of_lt (Nat.lt_succ_of_le hle)
  refine ⟨⟨?_, ?_, rfl, Nat.le_of_lt hlag⟩, hlag⟩
  · rw [catchUp_of_gone h hle he, Nat.zero_add]
  · rw [catchUp_of_gone h hle he]

end Metronome
end Wakeup
