import Wakeup.Proofs.Slots

/-! Polling for readiness as a whole. What is cached decides whether the operating system is asked,
and what it answers decides how the wait completes and what is cached afterwards. -/
namespace Wakeup

/-- What the operating system answers when no signal interrupts it any more. -/
def Inquiry.answer : Inquiry → Except IoError Condition
  | .interrupted next => next.answer
  | .answered result => result

theorem probe_eq (d : Direction) (q : Inquiry) : probe d q = q.answer.map (·.ready d) := by
  induction q with
  | interrupted next ih => exact ih
  | answered result => cases result <;> rfl

namespace Answers

/-- How a wait completes, if it does, by what is found of its direction. -/
def conclude : Except IoError Bool → Option Outcome
  | .ok true => some (.ok ())
  | .ok false => none
  | .error e => some (.error (.io e))

private theorem conclude_eq_none {v : Except IoError Bool} : conclude v = none ↔ v = .ok false := by
  match v with
  | .ok true => simp [conclude]
  | .ok false => simp [conclude]
  | .error e => simp [conclude]

private theorem conclude_eq_ok {v : Except IoError Bool} :
    conclude v = some (.ok ()) ↔ v = .ok true := by
  match v with
  | .ok true => simp [conclude]
  | .ok false => simp [conclude]
  | .error e => simp [conclude]

private theorem conclude_eq_io {v : Except IoError Bool} {e : IoError} :
    conclude v = some (.error (.io e)) ↔ v = .error e := by
  match v with
  | .ok true => simp [conclude]
  | .ok false => simp [conclude]
  | .error e => simp [conclude]

/-- The turns that are made until one concludes. -/
def concluding (d : Direction) : List Turn → List Turn
  | [] => []
  | turn :: turns =>
    match probe d turn.inquiry with
    | .ok false => turn :: concluding d turns
    | _ => [turn]

/-- What is cached with the events of turns. -/
def gather (turns : List Turn) (cache : Sides Bool) : Sides Bool :=
  turns.foldl (fun cache turn => cache.merge turn.arrivals) cache

private theorem get_gather (turns : List Turn) (cache : Sides Bool) (d : Direction) :
    (gather turns cache).get d = (cache.get d || turns.any (·.arrivals.get d)) := by
  induction turns generalizing cache with
  | nil => exact (Bool.or_false _).symm
  | cons turn turns ih =>
    have hrest : (gather (turn :: turns) cache).get d =
        ((cache.merge turn.arrivals).get d || turns.any (·.arrivals.get d)) := ih _
    rw [hrest, Sides.get_merge, List.any_cons, Bool.or_assoc]

section Poll
variable {d : Direction} {last : Inquiry} {turns : List Turn} {cache : Sides Bool}

private theorem pollReady_of_uncached (h : cache.get d = false) :
    pollReady d none last turns cache = (none, cache) := by
  cases turns <;> simp [pollReady, h]

/-- To poll for a direction that is cached, in closed form. -/
theorem pollReady_of_cached (h : cache.get d = true) :
    pollReady d none last turns cache =
      (conclude (verdict d (turns.map (·.inquiry) ++ [last])),
        if verdict d (turns.map (·.inquiry) ++ [last]) = .ok false then
          (gather (concluding d turns) cache).set d false
        else gather (concluding d turns) cache) := by
  induction turns generalizing cache with
  | nil =>
    unfold pollReady
    rw [h]
    simp only [List.map_nil, List.nil_append, verdict, concluding, if_true]
    cases probe d last with
    | error e => rfl
    | ok ready => cases ready <;> rfl
  | cons turn turns ih =>
    have hmerged : (cache.merge turn.arrivals).get d = true := by
      rw [Sides.get_merge, h, Bool.true_or]
    unfold pollReady
    rw [h]
    simp only [List.map_cons, List.cons_append, verdict, concluding, if_true]
    cases probe d turn.inquiry with
    | error e => rfl
    | ok ready =>
      cases ready with
      | true => rfl
      | false => exact ih hmerged

end Poll

variable (a : Answers) (d : Direction) (cache : Sides Bool)

/-- The inquiry that is made first, if any is. -/
def first : Inquiry := (a.turns.map (·.inquiry)).headD a.last

/-- The turns of a poll in which events arrive. -/
def passed : List Turn := if cache.get d then concluding d a.turns else []

/-- What there is to be found of a direction: what is found in the poll, in which inquiries are made
until one does not say that it is not ready, or if none is made, what one would find. -/
def finding : Except IoError Bool :=
  if cache.get d then verdict d a.inquiries else probe d a.first

/-- The operating system answers with a condition, if it answers and does not fail. -/
def Reports (c : Condition) : Prop := ∀ q ∈ a.inquiries, ∀ c', q.answer = .ok c' → c' = c

/-- The driver runs, and the operating system answers with a condition. -/
structure Tells (c : Condition) : Prop where
  runs : a.failure = none
  answers : ∀ q ∈ a.inquiries, q.answer = .ok c

/-- Cached readiness includes what the operating system reports. It may include more. -/
def Covers : Prop := ∀ d, probe d a.first = .ok true → cache.get d = true

variable {a : Answers} {d : Direction} {cache : Sides Bool} {c : Condition}

theorem Tells.reports (h : a.Tells c) : a.Reports c := by
  intro q hq c' hc
  rw [h.answers q hq] at hc
  exact (Except.ok.inj hc).symm

/-- What an inquiry finds is what is reported. -/
theorem Reports.ready_eq (h : a.Reports c) {q : Inquiry} (hq : q ∈ a.inquiries) {b : Bool}
    (hp : probe d q = .ok b) : c.ready d = b := by
  rw [probe_eq] at hp
  cases hanswer : q.answer with
  | error e =>
    rw [hanswer] at hp
    cases hp
  | ok c' =>
    rw [hanswer] at hp
    cases h q hq c' hanswer
    exact Except.ok.inj hp

theorem first_mem (a : Answers) : a.first ∈ a.inquiries := by
  unfold first inquiries
  cases a.turns with
  | nil => exact List.mem_singleton_self _
  | cons turn turns => exact List.mem_cons_self

/-- What inquiries come to is what one of them finds. -/
theorem exists_verdict (d : Direction) {qs : List Inquiry} (hne : qs ≠ []) :
    ∃ q ∈ qs, verdict d qs = probe d q := by
  induction qs with
  | nil => exact absurd rfl hne
  | cons q qs ih =>
    unfold verdict
    split
    · rename_i hprobe
      cases qs with
      | nil => exact ⟨q, List.mem_cons_self, hprobe.symm⟩
      | cons q' qs =>
        obtain ⟨p, hp, heq⟩ := ih (List.cons_ne_nil q' qs)
        exact ⟨p, List.mem_cons_of_mem q hp, heq⟩
    · exact ⟨q, List.mem_cons_self, rfl⟩

private theorem probe_of_verdict {qs : List Inquiry} (h : verdict d qs = .ok false) :
    ∀ q ∈ qs, probe d q = .ok false := by
  induction qs with
  | nil => exact fun q hq => absurd hq List.not_mem_nil
  | cons p qs ih =>
    unfold verdict at h
    split at h
    · rename_i hprobe
      intro q hq
      rcases List.mem_cons.mp hq with rfl | hq
      · exact hprobe
      · exact ih h q hq
    · rename_i hprobe
      exact absurd h hprobe

theorem inquiries_ne_nil (a : Answers) : a.inquiries ≠ [] :=
  List.append_ne_nil_of_right_ne_nil _ (List.cons_ne_nil _ _)

/-- What there is to be found is what one of the inquiries finds. -/
theorem exists_finding (a : Answers) (d : Direction) (cache : Sides Bool) :
    ∃ q ∈ a.inquiries, a.finding d cache = probe d q := by
  unfold finding
  split
  · exact exists_verdict d a.inquiries_ne_nil
  · exact ⟨_, a.first_mem, rfl⟩

private theorem Tells.finding (h : a.Tells c) : a.finding d cache = .ok (c.ready d) := by
  obtain ⟨q, hq, heq⟩ := a.exists_finding d cache
  rw [heq, probe_eq, h.answers q hq]
  rfl

theorem covers_of_ready (h : a.Reports c) (hc : ∀ d, c.ready d = true → cache.get d = true) :
    a.Covers cache := fun d hprobe => hc d (h.ready_eq a.first_mem hprobe)

private theorem poll_of_uncached (hf : a.failure = none) (h : cache.get d = false) :
    a.poll d cache = (none, cache) := by
  unfold poll
  rw [hf]
  exact pollReady_of_uncached h

private theorem poll_of_failure {e : IoError} (hf : a.failure = some e) :
    a.poll d cache = (some (.error (.io e)), cache) := by
  unfold poll
  rw [hf]
  cases a.turns <;> rfl

private theorem poll_of_cached (hf : a.failure = none) (h : cache.get d = true) :
    a.poll d cache = (conclude (a.finding d cache),
      if a.finding d cache = .ok false then (gather (a.passed d cache) cache).set d false
      else gather (a.passed d cache) cache) := by
  unfold poll finding passed
  rw [hf, h, pollReady_of_cached h]
  rfl

/-- A poll, whatever is cached and whatever else. -/
structure Settles (a : Answers) (d : Direction) (cache : Sides Bool) : Prop where
  /-- If the driver has shut down, the wait fails with its error. -/
  failed : ∀ e, a.failure = some e → a.poll d cache = (some (.error (.io e)), cache)
  /-- Otherwise it completes as ready if the operating system reports that it is, and only then. -/
  ready : a.failure = none →
    ((a.poll d cache).1 = some (.ok ()) ↔ a.finding d cache = .ok true)
  /-- It fails with the error of an inquiry that is made. -/
  io : a.failure = none → ∀ e, (a.poll d cache).1 = some (.error (.io e)) ↔
    cache.get d = true ∧ a.finding d cache = .error e
  /-- If the direction is not ready, it stays pending. -/
  pending : a.failure = none → a.finding d cache = .ok false → (a.poll d cache).1 = none
  /-- A wait that stays pending leaves nothing cached of its direction. -/
  cleared : (a.poll d cache).1 = none → (a.poll d cache).2.get d = false
  /-- What is cached is cleared only if an inquiry finds the direction not ready after all events. -/
  confirmed : (a.poll d cache).1 = none → cache.get d = true → probe d a.last = .ok false
  /-- The other direction is not touched, but for the events that arrive. -/
  other : ∀ d' ≠ d, a.failure = none → (a.poll d cache).2.get d' =
    (cache.get d' || (a.passed d cache).any (·.arrivals.get d'))
  /-- If the wait completes, its direction is not touched either. -/
  kept : (a.poll d cache).1 ≠ none → a.failure = none → (a.poll d cache).2.get d = true

private theorem settles_of_failure {e : IoError} (hf : a.failure = some e) : a.Settles d cache := by
  have hpoll : a.poll d cache = (some (.error (.io e)), cache) := poll_of_failure hf
  constructor
  · exact fun e' heq => Option.some.inj (hf.symm.trans heq) ▸ hpoll
  · exact fun heq => absurd (hf.symm.trans heq) (Option.some_ne_none e)
  · exact fun heq => absurd (hf.symm.trans heq) (Option.some_ne_none e)
  · exact fun heq => absurd (hf.symm.trans heq) (Option.some_ne_none e)
  · exact fun hnone => absurd ((congrArg Prod.fst hpoll).symm.trans hnone) (Option.some_ne_none _)
  · exact fun hnone => absurd ((congrArg Prod.fst hpoll).symm.trans hnone) (Option.some_ne_none _)
  · exact fun _ _ heq => absurd (hf.symm.trans heq) (Option.some_ne_none e)
  · exact fun _ heq => absurd (hf.symm.trans heq) (Option.some_ne_none e)

/-- Where nothing is cached nothing is asked, and nothing would be found. -/
theorem settles_of_uncached (h : a.Covers cache) (hf : a.failure = none)
    (hd : cache.get d = false) : a.Settles d cache := by
  have hpoll := poll_of_uncached hf hd
  have hfinding : a.finding d cache = probe d a.first := by
    rw [finding, hd]
    rfl
  have hpassed : a.passed d cache = [] := by
    rw [passed, hd]
    rfl
  constructor
  · exact fun e heq => absurd (heq.symm.trans hf) (Option.some_ne_none e)
  · intro _
    rw [hpoll, hfinding]
    refine iff_of_false (fun heq => Option.some_ne_none _ heq.symm) fun hready => ?_
    exact Bool.false_ne_true (hd.symm.trans (h d hready))
  · intro _ e
    rw [hpoll]
    exact iff_of_false (fun heq => Option.some_ne_none _ heq.symm)
      fun hboth => Bool.false_ne_true (hd.symm.trans hboth.1)
  · intro _ _
    rw [hpoll]
  · intro _
    rw [hpoll]
    exact hd
  · exact fun _ heq => absurd (hd.symm.trans heq) Bool.false_ne_true
  · intro d' _ _
    rw [hpoll, hpassed]
    exact (Bool.or_false _).symm
  · rw [hpoll]
    exact fun hne => absurd rfl hne

private theorem settles_of_cached (hf : a.failure = none) (hd : cache.get d = true) :
    a.Settles d cache := by
  have hpoll := poll_of_cached hf hd
  constructor
  · exact fun e heq => absurd (heq.symm.trans hf) (Option.some_ne_none e)
  · intro _
    rw [hpoll]
    exact conclude_eq_ok
  · intro _ e
    rw [hpoll]
    exact conclude_eq_io.trans (iff_and_self.mpr fun _ => hd)
  · intro _ hnot
    rw [hpoll]
    exact conclude_eq_none.mpr hnot
  · intro hnone
    rw [hpoll] at hnone ⊢
    dsimp only
    rw [if_pos (conclude_eq_none.mp hnone), Sides.get_set_self]
  · intro hnone _
    rw [hpoll] at hnone
    have hverdict := conclude_eq_none.mp hnone
    rw [finding, hd] at hverdict
    exact probe_of_verdict hverdict _ (List.mem_append_right _ (List.mem_singleton_self _))
  · intro d' hne _
    rw [hpoll, ← get_gather]
    dsimp only
    split
    · exact Sides.get_set_of_ne _ hne _
    · rfl
  · intro hsome _
    rw [hpoll] at hsome ⊢
    dsimp only
    rw [if_neg fun heq => hsome (conclude_eq_none.mpr heq), get_gather, hd, Bool.true_or]

theorem settles (h : a.Covers cache) : a.Settles d cache := by
  cases hf : a.failure with
  | some e => exact settles_of_failure hf
  | none =>
    cases hd : cache.get d with
    | false => exact settles_of_uncached h hf hd
    | true => exact settles_of_cached hf hd

/-- Whatever is cached, a wait completes as ready only if that is reported. -/
theorem ready_of_poll (h : a.Reports c) (hp : (a.poll d cache).1 = some (.ok ())) :
    c.ready d = true := by
  rcases outcome_pollReady hp with ⟨-, hverdict⟩ | ⟨e, heq, -⟩
  · obtain ⟨q, hq, hfound⟩ := exists_verdict d a.inquiries_ne_nil
    exact h.ready_eq hq (hfound.symm.trans hverdict)
  · cases heq

/-- What is reported stays cached. -/
theorem get_poll_of_ready (h : a.Reports c) (hc : ∀ d, c.ready d = true → cache.get d = true)
    {d' : Direction} (hd : c.ready d' = true) : (a.poll d cache).2.get d' = true := by
  have hsettles : a.Settles d cache := settles (covers_of_ready h hc)
  cases hf : a.failure with
  | some e =>
    rw [hsettles.failed e hf]
    exact hc d' hd
  | none =>
    by_cases heq : d' = d
    · subst heq
      refine hsettles.kept (fun hnone => ?_) hf
      have hlast := hsettles.confirmed hnone (hc d' hd)
      have hmem : a.last ∈ a.inquiries := List.mem_append_right _ (List.mem_singleton_self _)
      exact Bool.false_ne_true ((h.ready_eq hmem hlast).symm.trans hd)
    · rw [hsettles.other d' heq hf, hc d' hd, Bool.true_or]

/-- A poll while the driver runs and the operating system answers. -/
theorem poll_of_tells (h : a.Tells c) (hc : a.Covers cache) :
    ((a.poll d cache).1 = some (.ok ()) ↔ c.ready d = true) ∧
      ((a.poll d cache).1 = none ↔ c.ready d = false) ∧
      (c.failed = true ∨ c.hungUp = true → (a.poll d cache).1 = some (.ok ())) := by
  have hsettles : a.Settles d cache := settles hc
  have hready := hsettles.ready h.runs
  rw [h.finding] at hready
  refine ⟨hready.trans ⟨Except.ok.inj, congrArg _⟩, ⟨fun hnone => ?_, fun hnot => ?_⟩,
    fun hbad => ?_⟩
  · rw [← Bool.not_eq_true]
    intro hc
    exact Option.some_ne_none _ ((hready.mpr (congrArg _ hc)).symm.trans hnone)
  · refine hsettles.pending h.runs ?_
    rw [h.finding, hnot]
  · refine hready.mpr (congrArg _ ?_)
    -- the engine gets to see what went wrong, whichever direction it waits for
    rcases hbad with hbad | hbad <;> cases d <;> simp [Condition.ready, hbad]

end Answers
end Wakeup
