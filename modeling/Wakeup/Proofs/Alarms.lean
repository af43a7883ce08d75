import Wakeup.Proofs.Mirrors
import Wakeup.Proofs.Slots
import Wakeup.Reactor.Manual

/-! How reactors keep the wait of one timer: as the only entry of a list, or as a task that holds
its slot. Tasks of earlier waits may be left, which find out that they lost theirs. -/
namespace Wakeup

def TimedWait.alarm (x : TimedWait) : Alarm := ⟨x.timer, x.deadline, x.wait.callback⟩

namespace Manual
variable {m : Manual} {a : Option Alarm} {x : Alarm}

/-- One wait for a deadline is listed, or none. -/
def Awaits (m : Manual) (a : Option Alarm) : Prop := m.timed.map TimedWait.alarm = a.toList

theorem Awaits.cancel {timer : Nat} (h : m.Awaits a) (hat : ∀ x ∈ a, x.timer = timer) :
    (m.cancel timer).timed = [] := by
  unfold Manual.cancel
  refine List.filter_eq_nil_iff.mpr fun x hx => ?_
  have hmem : x.alarm ∈ a.toList := h ▸ List.mem_map_of_mem hx
  rw [decide_eq_true_iff, not_not]
  exact hat _ (Option.mem_toList.mp hmem)

def keeper : Keeper Manual where
  Awaits := Awaits
  Made := fun _ _ => True
  newTimer := fun h => ⟨h, trivial, rfl⟩
  cancel := fun h hat => ⟨congrArg _ (h.cancel hat), fun _ _ => trivial, rfl⟩
  schedule := fun {m timer} deadline t generation e h _ => by
    refine ⟨?_, trivial, rfl⟩
    change ((m.cancel timer).timed ++ [_]).map _ = _
    rw [h.cancel fun _ hx => absurd hx (Option.not_mem_none _)]
    rfl

/-- The wait is taken once its deadline is reached, and nothing is left. -/
theorem Awaits.takeDue (h : m.Awaits (some x)) (hdue : x.deadline ≤ m.now) :
    ∃ wait, wait.callback = x.callback ∧ m.takeDue = some (wait, { m with timed := [] }) := by
  obtain ⟨w, hw, rfl⟩ := List.map_eq_singleton_iff.mp h
  refine ⟨w.wait, rfl, ?_⟩
  have hdue' : w.deadline ≤ m.now := hdue
  simp [Manual.takeDue, earliest, takeTimed, hw, hdue']

theorem Awaits.takeDue_eq_none (h : m.Awaits a) (hdue : ∀ x ∈ a, m.now < x.deadline) :
    m.takeDue = none := by
  cases a with
  | none =>
    have hnil : m.timed = [] := List.map_eq_nil_iff.mp h
    simp [Manual.takeDue, earliest, hnil]
  | some x =>
    obtain ⟨w, hw, rfl⟩ := List.map_eq_singleton_iff.mp h
    have hdue' : m.now < w.deadline := hdue _ rfl
    simp [Manual.takeDue, earliest, hw, hdue']

end Manual

/-- A task waits for the deadline of a heartbeat. -/
structure Task.Tends (τ : Task) (x : Alarm) : Prop where
  awaited : τ.awaited = .deadline x.timer x.deadline
  callback : τ.callback = x.callback
  beat : ∃ t generation e, x.callback = .beat t generation e

theorem Task.Tends.eq {τ : Task} {x y : Alarm} (h : τ.Tends x) (h' : τ.Tends y) : x = y := by
  have hawaited := h.awaited.symm.trans h'.awaited
  have hcallback := h.callback.symm.trans h'.callback
  obtain ⟨timer, deadline, callback⟩ := x
  cases hawaited
  cases hcallback
  rfl

namespace Tasks
variable {r : Tasks} {a : Option Alarm} {x : Alarm} {τ : Task} {id : Nat}

/-- Other tasks are scheduled. -/
def withQueue (queue : List Nat) (r : Tasks) : Tasks := { r with queue := queue }

/-- Takes a scheduled task from the queue. -/
def dequeue (id : Nat) (r : Tasks) : Tasks := r.withQueue (r.queue.erase id)

/-- Tasks have names of their own, and those that are scheduled have not completed. -/
structure Listed (r : Tasks) : Prop where
  names : (r.tasks.map (·.id)).Nodup
  fresh : ∀ τ ∈ r.tasks, τ.id < r.spawned
  once : r.queue.Nodup
  known : ∀ id ∈ r.queue, ∃ τ ∈ r.tasks, τ.id = id

/-- The task of the one wait holds its slot. All others have lost theirs and are scheduled. -/
structure Awaits (r : Tasks) (a : Option Alarm) : Prop extends Listed r where
  events : r.events = []
  turned : r.turned ≤ r.now
  tends : ∀ τ ∈ r.tasks, ∃ x, τ.Tends x ∧ (r.timedHolder x.timer = some τ.id → a = some x)
  alarm : ∀ x ∈ a, ∃ τ ∈ r.tasks, τ.Tends x ∧ r.timedHolder x.timer = some τ.id
  /-- A task that is not scheduled was told that its deadline is to come. -/
  asleep : ∀ τ ∈ r.tasks, τ.id ∉ r.queue → ∃ x ∈ a, τ.Tends x ∧
    r.timedHolder x.timer = some τ.id ∧ r.turned < x.deadline

section Queue

/-- A task is scheduled once at most. -/
theorem wake_spec (id : Nat) (r : Tasks) : ∃ queue, r.wake id = r.withQueue queue ∧
    (r.queue.Nodup → queue.Nodup) ∧
    ∀ j, j ∈ queue ↔ j ∈ r.queue ∨ j = id ∧ ∃ τ ∈ r.tasks, τ.id = j := by
  unfold wake
  split
  · rename_i h
    refine ⟨r.queue, rfl, fun h => h, fun j => (or_iff_left_of_imp ?_).symm⟩
    rintro ⟨rfl, τ, hτ, hid⟩
    refine h.resolve_right fun hall => ?_
    exact of_decide_eq_true (List.all_eq_true.mp hall τ hτ) hid
  · rename_i h
    obtain ⟨hmem, hall⟩ := not_or.mp h
    refine ⟨_, rfl, fun hnodup => ?_, fun j => ?_⟩
    · exact List.nodup_append.mpr ⟨hnodup, List.nodup_singleton id, fun j hj k hk hjk =>
        hmem (List.mem_singleton.mp hk ▸ hjk ▸ hj)⟩
    · rw [List.mem_append, List.mem_singleton]
      refine or_congr_right (iff_self_and.mpr ?_)
      rintro rfl
      simpa using hall

theorem wakeHolder_spec (slot : Option Nat) (r : Tasks) : ∃ queue,
    r.wakeHolder slot = r.withQueue queue ∧ (r.queue.Nodup → queue.Nodup) ∧
    ∀ j, j ∈ queue ↔ j ∈ r.queue ∨ slot = some j ∧ ∃ τ ∈ r.tasks, τ.id = j := by
  cases slot with
  | none => exact ⟨r.queue, rfl, fun h => h, fun j => by simp⟩
  | some id =>
    obtain ⟨queue, hwake, hnodup, hmem⟩ := r.wake_spec id
    exact ⟨queue, hwake, hnodup, fun j => by rw [hmem, Option.some_inj, eq_comm]⟩

/-- Nothing happens to a task that is scheduled or gone. -/
theorem wake_eq_self (h : ∀ τ ∈ r.tasks, τ.id = id → id ∈ r.queue) : r.wake id = r := by
  refine if_pos ?_
  by_cases hmem : id ∈ r.queue
  · exact Or.inl hmem
  · exact Or.inr (List.all_eq_true.mpr fun τ hτ => decide_eq_true fun heq => hmem (h τ hτ heq))

theorem wakes_spec (l : List Task) (r : Tasks) (hl : ∀ τ ∈ l, τ ∈ r.tasks) : ∃ queue,
    l.foldl (fun r τ => r.wake τ.id) r = r.withQueue queue ∧
    (r.queue.Nodup → queue.Nodup) ∧ ∀ j, j ∈ queue ↔ j ∈ r.queue ∨ ∃ τ ∈ l, τ.id = j := by
  induction l generalizing r with
  | nil => exact ⟨r.queue, rfl, fun h => h, fun j => by simp⟩
  | cons τ l ih =>
    obtain ⟨queue, hwake, hnodup, hmem⟩ := r.wake_spec τ.id
    obtain ⟨queue', hwakes, hnodup', hmem'⟩ := ih (r.withQueue queue)
      fun υ hυ => hl υ (List.mem_cons_of_mem τ hυ)
    refine ⟨queue', ?_, fun h => hnodup' (hnodup h), fun j => ?_⟩
    · rw [List.foldl_cons, hwake, hwakes]
      rfl
    · rw [hmem']
      change j ∈ queue ∨ _ ↔ _
      rw [hmem, or_assoc]
      refine or_congr_right ?_
      rw [List.exists_mem_cons_iff]
      refine or_congr_left ⟨fun h => h.1.symm, fun h => ⟨h.symm, τ, hl τ List.mem_cons_self, h⟩⟩

theorem wakes_eq_self {l : List Task} (h : ∀ τ ∈ l, τ.id ∈ r.queue) :
    l.foldl (fun r τ => r.wake τ.id) r = r := by
  induction l with
  | nil => rfl
  | cons τ l ih =>
    rw [List.foldl_cons, wake_eq_self fun _ _ _ => h τ List.mem_cons_self]
    exact ih fun υ hυ => h υ (List.mem_cons_of_mem τ hυ)

end Queue

/-- The slot of a timer is given to another wait or cleared. -/
theorem timedHolder_modify (r : Tasks) (timer t : Nat) (slot : Option Nat) :
    { r with timers := r.timers.modify timer fun _ => slot }.timedHolder t =
      if timer = t then if timer < r.timers.length then slot else none else r.timedHolder t := by
  unfold timedHolder
  dsimp only
  rw [List.getElem?_modify]
  split
  · rename_i heq
    subst heq
    split
    · rename_i hlt
      rw [List.getElem?_eq_getElem hlt]
      rfl
    · rename_i hlt
      rw [List.getElem?_eq_none (Nat.le_of_not_lt hlt)]
      rfl
  · exact congrArg Option.join (Option.map_id_apply' ..)

namespace Listed

theorem eq_of_id (h : r.Listed) {υ : Task} (hτ : τ ∈ r.tasks) (hυ : υ ∈ r.tasks)
    (hid : τ.id = υ.id) : τ = υ := List.inj_on_of_nodup_map h.names hτ hυ hid

/-- No more tasks are scheduled than there are. -/
theorem length_queue_le (h : r.Listed) : r.queue.length ≤ r.tasks.length := by
  have hsub : r.queue ⊆ r.tasks.map (·.id) := fun id hid => List.mem_map.mpr (h.known id hid)
  simpa using (List.subperm_of_subset h.once hsub).length_le

theorem withQueue (h : r.Listed) {queue : List Nat} (hnodup : queue.Nodup)
    (hmem : ∀ id ∈ queue, id ∈ r.queue ∨ ∃ τ ∈ r.tasks, τ.id = id) : (r.withQueue queue).Listed :=
  ⟨h.names, h.fresh, hnodup, fun id hid => (hmem id hid).elim (h.known id) fun h => h⟩

theorem spawn (h : r.Listed) (awaited : Awaited) (c : Callback) : (r.spawn awaited c).Listed := by
  have hnew {τ : Task} (hτ : τ ∈ (r.spawn awaited c).tasks) :
      τ ∈ r.tasks ∨ τ = ⟨r.spawned, awaited, c⟩ :=
    (List.mem_append.mp hτ).imp_right List.mem_singleton.mp
  constructor
  · change ((r.tasks ++ [_]).map _).Nodup
    rw [List.map_append, List.nodup_append]
    refine ⟨h.names, List.nodup_singleton _, fun i hi j hj => ?_⟩
    obtain ⟨τ, hτ, rfl⟩ := List.mem_map.mp hi
    rw [List.mem_singleton.mp hj]
    exact (h.fresh τ hτ).ne
  · intro τ hτ
    change τ.id < r.spawned + 1
    rcases hnew hτ with hτ | rfl
    · exact Nat.lt_succ_of_lt (h.fresh τ hτ)
    · exact Nat.lt_succ_self _
  · refine List.nodup_append.mpr ⟨h.once, List.nodup_singleton _, fun i hi j hj => ?_⟩
    obtain ⟨τ, hτ, rfl⟩ := h.known i hi
    rw [List.mem_singleton.mp hj]
    exact (h.fresh τ hτ).ne
  · intro i hi
    rcases List.mem_append.mp hi with hi | hi
    · obtain ⟨τ, hτ, hid⟩ := h.known i hi
      exact ⟨τ, List.mem_append_left _ hτ, hid⟩
    · exact ⟨_, List.mem_append_right _ (List.mem_singleton_self _),
        (List.mem_singleton.mp hi).symm⟩

theorem remove (h : r.Listed) (hid : id ∉ r.queue) : (r.remove id).Listed := by
  refine ⟨h.names.sublist (List.filter_sublist.map _),
    fun τ hτ => h.fresh τ (List.mem_filter.mp hτ).1, h.once, fun i hi => ?_⟩
  obtain ⟨τ, hτ, rfl⟩ := h.known i hi
  refine ⟨τ, List.mem_filter.mpr ⟨hτ, decide_eq_true ?_⟩, rfl⟩
  rintro rfl
  exact hid hi

end Listed

namespace Awaits

/-- Without a wait every task is scheduled. -/
theorem mem_queue (h : r.Awaits none) (hτ : τ ∈ r.tasks) : τ.id ∈ r.queue := by
  by_contra hnot
  obtain ⟨x, hx, -⟩ := h.asleep τ hτ hnot
  exact Option.not_mem_none x hx

theorem newTimer (h : r.Awaits a) : r.newTimer.2.Awaits a := by
  have hholder (t : Nat) : r.newTimer.2.timedHolder t = r.timedHolder t := by
    change (r.timers ++ [none])[t]?.join = r.timers[t]?.join
    rcases Nat.lt_trichotomy t r.timers.length with hlt | heq | hgt
    · rw [List.getElem?_append_left hlt]
    · rw [heq, List.getElem?_concat_length, List.getElem?_eq_none (Nat.le_refl _)]
      rfl
    · rw [List.getElem?_eq_none (by simpa using Nat.succ_le_of_lt hgt),
        List.getElem?_eq_none (Nat.le_of_lt hgt)]
  refine ⟨⟨h.names, h.fresh, h.once, h.known⟩, h.events, h.turned, ?_, ?_, ?_⟩
  · intro τ hτ
    obtain ⟨x, hx, hheld⟩ := h.tends τ hτ
    exact ⟨x, hx, fun hholds => hheld (hholder _ ▸ hholds)⟩
  · intro x hx
    obtain ⟨τ, hτ, htends, hheld⟩ := h.alarm x hx
    exact ⟨τ, hτ, htends, (hholder _).trans hheld⟩
  · intro τ hτ hnot
    obtain ⟨x, hx, htends, hheld, hlt⟩ := h.asleep τ hτ hnot
    exact ⟨x, hx, htends, (hholder _).trans hheld, hlt⟩

/-- The task of the wait loses its slot and is scheduled. -/
theorem cancel {timer : Nat} (h : r.Awaits a) (hat : ∀ x ∈ a, x.timer = timer) :
    (r.cancel timer).Awaits none := by
  obtain ⟨queue, hwake, hnodup, hmem⟩ := wakeHolder_spec (r.timedHolder timer)
    { r with timers := r.timers.modify timer fun _ => none }
  have hcancel : r.cancel timer =
      { r with timers := r.timers.modify timer fun _ => none, queue := queue } := hwake
  have hholder (t : Nat) : (r.cancel timer).timedHolder t =
      if timer = t then none else r.timedHolder t := by
    rw [hcancel]
    exact (r.timedHolder_modify timer t none).trans (by rw [ite_self])
  have hlisted := h.toListed.withQueue (hnodup h.once) fun id hid =>
    ((hmem id).mp hid).imp_right And.right
  refine ⟨hcancel ▸ ⟨h.names, h.fresh, hlisted.once, hlisted.known⟩, hcancel ▸ h.events,
    hcancel ▸ h.turned, ?_, fun x hx => absurd hx (Option.not_mem_none x), ?_⟩
  · intro τ hτ
    obtain ⟨x, hx, hheld⟩ := h.tends τ (by rwa [hcancel] at hτ)
    refine ⟨x, hx, fun hholds => ?_⟩
    rw [hholder] at hholds
    split at hholds
    · cases hholds
    · rename_i hne
      exact absurd (hat x (hheld hholds)).symm hne
  · intro τ hτ hnot
    rw [hcancel] at hτ hnot
    -- a task that was asleep held the slot, and is woken
    obtain ⟨hnot, hslot⟩ := not_or.mp ((hmem τ.id).not.mp hnot)
    obtain ⟨x, hx, -, hheld, -⟩ := h.asleep τ hτ hnot
    exact absurd ⟨hat x hx ▸ hheld, τ, hτ, rfl⟩ hslot

/-- There is no task to be woken when a slot is taken. -/
theorem schedule_eq (h : r.Awaits none) (timer deadline : Nat) (c : Callback) :
    r.schedule timer deadline c =
      { r with timers := r.timers.modify timer fun _ => some r.spawned }.spawn
        (.deadline timer deadline) c := by
  let given : Tasks := { r with timers := r.timers.modify timer fun _ => some r.spawned }
  have hwake : given.wakeHolder (r.timedHolder timer) = given := by
    unfold wakeHolder
    split
    · rfl
    · exact wake_eq_self fun τ hτ hid => hid ▸ h.mem_queue hτ
  exact congrArg (spawn (.deadline timer deadline) c) hwake

/-- A new task holds the slot. -/
theorem schedule {timer : Nat} (h : r.Awaits none) (ht : timer < r.timers.length) (deadline : Nat)
    {c : Callback} (hc : ∃ t generation e, c = .beat t generation e) :
    (r.schedule timer deadline c).Awaits (some ⟨timer, deadline, c⟩) := by
  rw [h.schedule_eq]
  let given : Tasks := { r with timers := r.timers.modify timer fun _ => some r.spawned }
  have hholder (t : Nat) : given.timedHolder t =
      if timer = t then some r.spawned else r.timedHolder t :=
    (r.timedHolder_modify timer t _).trans (by rw [if_pos ht])
  have hlisted : given.Listed := ⟨h.names, h.fresh, h.once, h.known⟩
  have hnew : (⟨r.spawned, .deadline timer deadline, c⟩ : Task).Tends ⟨timer, deadline, c⟩ :=
    ⟨rfl, rfl, hc⟩
  have hmem : (⟨r.spawned, .deadline timer deadline, c⟩ : Task) ∈
      (given.spawn (.deadline timer deadline) c).tasks :=
    List.mem_append_right _ (List.mem_singleton_self _)
  refine ⟨hlisted.spawn _ c, h.events, h.turned, ?_, ?_, ?_⟩
  · intro τ hτ
    rcases List.mem_append.mp hτ with hτ | hτ
    · -- a task that was there before has lost its slot
      obtain ⟨x, hx, hheld⟩ := h.tends τ hτ
      refine ⟨x, hx, fun hholds => ?_⟩
      replace hholds := (hholder x.timer).symm.trans hholds
      split at hholds
      · exact absurd (Option.some.inj hholds) (h.fresh τ hτ).ne'
      · exact absurd (hheld hholds) (Option.some_ne_none x).symm
    · rw [List.mem_singleton.mp hτ]
      exact ⟨_, hnew, fun _ => rfl⟩
  · intro x hx
    rw [← Option.some.inj hx]
    exact ⟨_, hmem, hnew, (hholder timer).trans (if_pos rfl)⟩
  · intro τ hτ hasleep
    rcases List.mem_append.mp hτ with hτ | hτ
    · exact absurd (List.mem_append_left _ (h.mem_queue hτ)) hasleep
    · rw [List.mem_singleton.mp hτ] at hasleep
      exact absurd (List.mem_append_right _ (List.mem_singleton_self _)) hasleep

end Awaits

def keeper : Keeper Tasks where
  Awaits := Awaits
  Made := fun r t => t < r.timers.length
  newTimer := fun {r a} h => ⟨h.newTimer, by
    change r.timers.length < (r.timers ++ [none]).length
    rw [List.length_append]
    exact Nat.lt_succ_self _, rfl⟩
  cancel := fun {r a timer} h hat => by
    obtain ⟨queue, hwake⟩ := wakeHolder_eq (r.timedHolder timer)
      { r with timers := r.timers.modify timer fun _ => none }
    have hcancel : r.cancel timer =
      { r with timers := r.timers.modify timer fun _ => none, queue := queue } := hwake
    refine ⟨h.cancel hat, fun t ht => ?_, ?_⟩
    · change t < (r.cancel timer).timers.length
      rw [hcancel, List.length_modify]
      exact ht
    · change (r.cancel timer).now = r.now
      rw [hcancel]
  schedule := fun {r timer} deadline t generation e h ht => by
    refine ⟨h.schedule ht deadline ⟨t, generation, e, rfl⟩, ?_, ?_⟩
    · change timer < (r.schedule timer deadline _).timers.length
      rw [h.schedule_eq]
      change timer < (r.timers.modify timer _).length
      rwa [List.length_modify]
    · change (r.schedule timer deadline _).now = r.now
      rw [h.schedule_eq]
      rfl

/-- Polling a task that waits for the deadline of a heartbeat. -/
theorem Listed.pollTask_eq (h : r.Listed) (hτ : τ ∈ r.tasks) (hx : τ.Tends x) :
    r.pollTask τ.id =
      if r.timedHolder x.timer = some τ.id then
        if x.deadline ≤ r.turned then (some (x.callback, .ok ()), r.remove τ.id) else (none, r)
      else (some (x.callback, .error .canceled), r.remove τ.id) := by
  have hfind : r.tasks.find? (·.id == τ.id) = some τ := by
    cases hf : r.tasks.find? (·.id == τ.id) with
    | none => exact absurd (beq_self_eq_true τ.id) (List.find?_eq_none.mp hf τ hτ)
    | some υ =>
      have hid := List.find?_some hf
      exact congrArg some (h.eq_of_id (List.mem_of_find?_eq_some hf) hτ (beq_iff_eq.mp hid))
  have hpoll : r.poll (fun fd => .live (r.condition fd)) τ =
      if r.timedHolder x.timer = some τ.id then
        (if x.deadline ≤ r.turned then some (.ok ()) else none, r)
      else (some (.error .canceled), r) := by
    unfold poll
    rw [hx.awaited]
    rfl
  unfold pollTask pollWith
  rw [hfind]
  dsimp only
  rw [hpoll, hx.callback]
  by_cases hholds : r.timedHolder x.timer = some τ.id
  · rw [if_pos hholds, if_pos hholds]
    by_cases hdue : x.deadline ≤ r.turned
    · rw [if_pos hdue, if_pos hdue]
    · rw [if_neg hdue, if_neg hdue]
  · rw [if_neg hholds, if_neg hholds]

/-- The tasks whose deadlines are over are scheduled, if there are no events. -/
theorem turn_eq (r : Tasks) (h : r.events = []) : ∃ due : List Task,
    (∀ τ, τ ∈ due ↔ τ ∈ r.tasks ∧ ∃ timer deadline, τ.awaited = .deadline timer deadline ∧
      deadline ≤ r.now) ∧
    r.turn = due.foldl (fun r τ => r.wake τ.id) { r with turned := r.now } := by
  have hquiet : r.events.foldl (fun r i => notice i r) { r with events := [] } = r := by
    rw [h, List.foldl_nil, ← h]
  have hturn : r.turn = r.expire := congrArg expire hquiet
  rw [hturn]
  unfold expire
  dsimp only
  refine ⟨_, fun τ => ?_, rfl⟩
  rw [List.mem_filter]
  refine and_congr_right fun _ => ?_
  cases τ.awaited with
  | readiness => simp
  | deadline => simp

namespace Awaits

section Scheduled
variable {υ : Task}

theorem dequeue_listed (h : r.Awaits a) (id : Nat) :
    id ∉ (r.dequeue id).queue ∧ (r.dequeue id).Listed :=
  ⟨h.once.not_mem_erase,
    h.toListed.withQueue (h.once.erase id) fun _ hi => Or.inl (List.mem_of_mem_erase hi)⟩

/-- The other tasks when one is polled. -/
theorem asleep_of_dequeue (h : r.Awaits a) (hυ : υ ∈ r.tasks) (hne : υ.id ≠ id)
    (hnot : υ.id ∉ (r.dequeue id).queue) :
    ∃ x ∈ a, υ.Tends x ∧ r.timedHolder x.timer = some υ.id ∧ r.turned < x.deadline :=
  h.asleep υ hυ fun hmem => hnot ((List.mem_erase_of_ne hne).mpr hmem)

theorem mem_remove (hυ : υ ∈ ((r.dequeue id).remove id).tasks) : υ ∈ r.tasks ∧ υ.id ≠ id := by
  obtain ⟨hυ, hne⟩ := List.mem_filter.mp hυ
  exact ⟨hυ, of_decide_eq_true hne⟩

/-- A task that lost its slot is gone. -/
theorem remove_lost (h : r.Awaits a) (hτ : τ ∈ r.tasks) (hx : τ.Tends x)
    (hlost : r.timedHolder x.timer ≠ some τ.id) :
    ((r.dequeue τ.id).remove τ.id).Awaits a := by
  obtain ⟨hfresh, hlisted⟩ := h.dequeue_listed τ.id
  refine ⟨hlisted.remove hfresh, h.events, h.turned, fun υ hυ => h.tends υ (mem_remove hυ).1,
    fun y hy => ?_, fun υ hυ hnot => ?_⟩
  · obtain ⟨υ, hυ, hy', hheld⟩ := h.alarm y hy
    refine ⟨υ, List.mem_filter.mpr ⟨hυ, decide_eq_true fun heq => ?_⟩, hy', hheld⟩
    cases h.eq_of_id hυ hτ heq
    cases hx.eq hy'
    exact hlost hheld
  · obtain ⟨hυ, hne⟩ := mem_remove hυ
    exact h.asleep_of_dequeue hυ hne hnot

/-- With the task that holds its slot the wait is gone. -/
theorem remove_holder (h : r.Awaits (some x)) (hholds : r.timedHolder x.timer = some τ.id) :
    ((r.dequeue τ.id).remove τ.id).Awaits none := by
  obtain ⟨hfresh, hlisted⟩ := h.dequeue_listed τ.id
  have hsole {υ : Task} (hheld : r.timedHolder x.timer = some υ.id) : υ.id = τ.id :=
    Option.some.inj (hheld.symm.trans hholds)
  refine ⟨hlisted.remove hfresh, h.events, h.turned, fun υ hυ => ?_,
    fun y hy => absurd hy (Option.not_mem_none y), fun υ hυ hnot => ?_⟩
  · obtain ⟨hυ, hne⟩ := mem_remove hυ
    obtain ⟨y, hy, hheld⟩ := h.tends υ hυ
    refine ⟨y, hy, fun hholds => ?_⟩
    cases hheld hholds
    exact absurd (hsole hholds) hne
  · obtain ⟨hυ, hne⟩ := mem_remove hυ
    obtain ⟨y, hy, -, hheld, -⟩ := h.asleep_of_dequeue hυ hne hnot
    cases hy
    exact absurd (hsole hheld) hne

/-- A task whose deadline is to come goes to sleep. -/
theorem sleep (h : r.Awaits (some x)) (hτ : τ ∈ r.tasks) (hx : τ.Tends x)
    (hholds : r.timedHolder x.timer = some τ.id) (hlt : r.turned < x.deadline) :
    (r.dequeue τ.id).Awaits (some x) := by
  refine ⟨(h.dequeue_listed τ.id).2, h.events, h.turned, h.tends, h.alarm, fun υ hυ hnot => ?_⟩
  by_cases hid : υ.id = τ.id
  · cases h.eq_of_id hυ hτ hid
    exact ⟨x, rfl, hx, hholds, hlt⟩
  · exact h.asleep_of_dequeue hυ hid hnot

/-- A scheduled task lost its slot, or its deadline is to come, or it is over. -/
theorem poll (h : r.Awaits a) (hid : id ∈ r.queue) :
    (∃ x : Alarm, (∃ t generation e, x.callback = .beat t generation e) ∧
        (r.dequeue id).pollTask id =
          (some (x.callback, .error .canceled), (r.dequeue id).remove id) ∧
        ((r.dequeue id).remove id).Awaits a) ∨
      ((r.dequeue id).pollTask id = (none, r.dequeue id) ∧ (r.dequeue id).Awaits a) ∨
      ∃ x, a = some x ∧ x.deadline ≤ r.turned ∧
        (∃ t generation e, x.callback = .beat t generation e) ∧
        (r.dequeue id).pollTask id = (some (x.callback, .ok ()), (r.dequeue id).remove id) ∧
        ((r.dequeue id).remove id).Awaits none := by
  obtain ⟨τ, hτ, rfl⟩ := h.known id hid
  obtain ⟨x, hx, hheld⟩ := h.tends τ hτ
  have hpoll := (h.dequeue_listed τ.id).2.pollTask_eq hτ hx
  by_cases hholds : r.timedHolder x.timer = some τ.id
  · have ha := hheld hholds
    subst ha
    replace hpoll := hpoll.trans (if_pos hholds)
    by_cases hdue : x.deadline ≤ r.turned
    · exact Or.inr (Or.inr ⟨x, rfl, hdue, hx.beat, hpoll.trans (if_pos hdue),
        h.remove_holder hholds⟩)
    · exact Or.inr (Or.inl ⟨hpoll.trans (if_neg hdue),
        h.sleep hτ hx hholds (Nat.lt_of_not_le hdue)⟩)
  · exact Or.inl ⟨x, hx.beat, hpoll.trans (if_neg hholds), h.remove_lost hτ hx hholds⟩

end Scheduled

/-- The driver finds out whether the deadline is over. -/
theorem turn (h : r.Awaits a) :
    ∃ queue, r.turn = { r with queue := queue, turned := r.now } ∧ r.turn.Awaits a := by
  obtain ⟨due, hdue, hturn⟩ := r.turn_eq h.events
  obtain ⟨queue, hwakes, hnodup, hmem⟩ :=
    wakes_spec due { r with turned := r.now } fun τ hτ => ((hdue τ).mp hτ).1
  have heq : r.turn = { r with queue := queue, turned := r.now } := hturn.trans hwakes
  rw [heq]
  have hlisted := h.toListed.withQueue (hnodup h.once) fun id hid => by
    refine ((hmem id).mp hid).imp_right ?_
    rintro ⟨τ, hτ, hid⟩
    exact ⟨τ, ((hdue τ).mp hτ).1, hid⟩
  refine ⟨queue, rfl, ⟨hlisted.names, hlisted.fresh, hlisted.once, hlisted.known⟩, h.events,
    Nat.le_refl _, h.tends, h.alarm, fun τ hτ hnot => ?_⟩
  obtain ⟨hnot, hlate⟩ := not_or.mp ((hmem τ.id).not.mp hnot)
  obtain ⟨x, hx, htends, hheld, -⟩ := h.asleep τ hτ hnot
  refine ⟨x, hx, htends, hheld, Nat.lt_of_not_le fun hle => hlate ⟨τ, ?_, rfl⟩⟩
  exact (hdue τ).mpr ⟨hτ, x.timer, x.deadline, htends.awaited, hle⟩

/-- A second turn at the same time changes nothing. -/
theorem turn_eq_self (h : r.Awaits a) (hturned : r.turned = r.now) : r.turn = r := by
  obtain ⟨due, hdue, hturn⟩ := r.turn_eq h.events
  have hsame : { r with turned := r.now } = r :=
    congrArg (fun time => { r with turned := time }) hturned.symm
  rw [hturn, hsame]
  refine wakes_eq_self fun τ hτ => ?_
  obtain ⟨hτ, timer, deadline, hawaited, hle⟩ := (hdue τ).mp hτ
  by_contra hnot
  obtain ⟨x, hx, htends, -, hlt⟩ := h.asleep τ hτ hnot
  cases hawaited.symm.trans htends.awaited
  omega

/-- When no task is scheduled, the deadline is to come. -/
theorem turned_lt (h : r.Awaits a) (hq : r.queue = []) : ∀ x ∈ a, r.turned < x.deadline := by
  intro x hx
  obtain ⟨τ, hτ, -⟩ := h.alarm x hx
  obtain ⟨y, hy, -, -, hlt⟩ := h.asleep τ hτ (hq ▸ List.not_mem_nil)
  cases Option.mem_unique hx hy
  exact hlt

end Awaits

end Tasks
end Wakeup
