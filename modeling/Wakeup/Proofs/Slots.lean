import Mathlib.Data.List.Nodup
import Mathlib.Data.List.Perm.Basic
import Wakeup.Reactor.Tasks

/-! Waits that are tasks. A wait holds the slot of its direction until the slot is given to another
wait or cleared. Whatever the order in which tasks are polled, a wait that lost its slot completes as
cancelled, and no other does. -/
namespace Wakeup

namespace Answers
variable {d : Direction} {failure : Option IoError} {last : Inquiry} {turns : List Turn}
  {cache : Sides Bool}

/-- What it comes to if inquiries are made until one does not say that the direction is not ready. -/
def verdict (d : Direction) : List Inquiry → Except IoError Bool
  | [] => .ok false
  | q :: qs =>
    match probe d q with
    | .ok false => verdict d qs
    | answer => answer

/-- How a wait completes that was not cancelled: it is ready, or something failed. -/
theorem outcome_pollReady {o : Outcome}
    (h : (pollReady d failure last turns cache).1 = some o) :
    (o = .ok () ∧ verdict d (turns.map (·.inquiry) ++ [last]) = .ok true) ∨
      ∃ e, o = .error (.io e) ∧
        (failure = some e ∨ verdict d (turns.map (·.inquiry) ++ [last]) = .error e) := by
  induction turns generalizing cache failure with
  | nil =>
    unfold pollReady at h
    cases failure with
    | some e =>
      cases h
      exact Or.inr ⟨e, rfl, Or.inl rfl⟩
    | none =>
      dsimp only at h
      split at h
      · split at h
        · rename_i e hprobe
          cases h
          exact Or.inr ⟨e, rfl, Or.inr (by simp [verdict, hprobe])⟩
        · rename_i hprobe
          cases h
          exact Or.inl ⟨rfl, by simp [verdict, hprobe]⟩
        · cases h
      · cases h
  | cons turn turns ih =>
    unfold pollReady at h
    cases failure with
    | some e =>
      cases h
      exact Or.inr ⟨e, rfl, Or.inl rfl⟩
    | none =>
      dsimp only at h
      split at h
      · split at h
        · rename_i e hprobe
          cases h
          exact Or.inr ⟨e, rfl, Or.inr (by simp [verdict, hprobe])⟩
        · rename_i hprobe
          cases h
          exact Or.inl ⟨rfl, by simp [verdict, hprobe]⟩
        · -- readiness was not confirmed, and the next turn looks again
          rename_i hprobe
          have hnext : verdict d ((turn :: turns).map (·.inquiry) ++ [last]) =
              verdict d (turns.map (·.inquiry) ++ [last]) := by simp [verdict, hprobe]
          rw [hnext]
          exact ih h
      · cases h

end Answers

namespace Tasks

/-- What is done with the waits of a task reactor. -/
inductive Act
  | armed (wait : Task)
  | released (registration : Nat)
  /-- The task of a wait ran its callback. -/
  | invoked (wait : Task) (outcome : Outcome)

namespace Act

def armed? : Act → Option Task
  | .armed t => some t
  | _ => none

def invoked? : Act → Option Task
  | .invoked t _ => some t
  | _ => none

/-- Whether a task is that of a wait that was armed. -/
def isArmed (task : Nat) : Act → Bool
  | .armed t => t.id == task
  | _ => false

/-- Whether the slot of a direction was given to another wait or cleared. -/
def ends (i : Nat) (d : Direction) : Act → Bool
  | .armed t => t.awaited == .readiness i d
  | .released j => j == i
  | .invoked .. => false

end Act

/-- The waits that were armed, latest first. -/
def armed (log : List Act) : List Task := log.filterMap Act.armed?

/-- The waits whose callbacks were invoked, latest first. -/
def invoked (log : List Act) : List Task := log.filterMap Act.invoked?

/-- Whether since a wait was armed its direction was armed again or its registration released. -/
def lost (log : List Act) (task i : Nat) (d : Direction) : Bool :=
  (log.takeWhile (!·.isArmed task)).any (·.ends i d)

private theorem lost_cons_of_armed (log : List Act) (t : Task) (i : Nat) (d : Direction) :
    lost (.armed t :: log) t.id i d = false := by
  simp [lost, Act.isArmed]

theorem lost_cons {log : List Act} {task : Nat} {a : Act} (h : a.isArmed task = false) (i : Nat)
    (d : Direction) : lost (a :: log) task i d = (a.ends i d || lost log task i d) := by
  simp [lost, h]

/-- A registration that was made and not released. -/
def Live (r : Tasks) (x : Registration) : Prop :=
  ∃ s, r.sources[x.id]? = some s ∧ s.fd = x.fd ∧ s.released = false

end Tasks

/-- A registration without its cached readiness. -/
def Source.uncached (s : Source) : Source := { s with cache := .both false }

/-- What waits depend on in a task reactor. Sockets, cached readiness, what is scheduled and the
time do not occur in it. -/
structure Book where
  spawned : Nat
  tasks : List Task
  timers : List (Option Nat)
  sources : List Source

namespace Tasks
variable {r r' : Tasks} {log : List Act}

def book (r : Tasks) : Book := ⟨r.spawned, r.tasks, r.timers, r.sources.map Source.uncached⟩

section Books

theorem getElem?_book (r : Tasks) (i : Nat) :
    r.book.sources[i]? = r.sources[i]?.map Source.uncached := List.getElem?_map

theorem map_modify_uncached {f g : Source → Source}
    (h : ∀ s, (f s).uncached = g s.uncached) (l : List Source) (i : Nat) :
    (l.modify i f).map Source.uncached = (l.map Source.uncached).modify i g := by
  refine List.ext_getElem? fun j => ?_
  simp only [List.getElem?_map, List.getElem?_modify]
  by_cases hj : i = j
  · subst hj
    cases hs : l[i]? with
    | none => rfl
    | some s => simp [h]
  · simp [hj]

/-- To wake a task is to schedule it at most. -/
theorem wakeHolder_eq (slot : Option Nat) (r : Tasks) :
    ∃ queue, r.wakeHolder slot = { r with queue := queue } := by
  unfold wakeHolder
  split
  · exact ⟨_, rfl⟩
  · unfold wake
    split <;> exact ⟨_, rfl⟩

@[simp] theorem book_report (i : Nat) (r : Tasks) : (r.report i).book = r.book := by
  unfold report
  split <;> rfl

theorem book_modifySource_cache (i : Nat) (cache : Sides Bool) (r : Tasks) :
    (r.modifySource i ({ · with cache := cache })).book = r.book := by
  have hsame := map_modify_uncached (g := id)
    (f := fun s => { s with cache := cache }) (fun _ => rfl) r.sources i
  rw [List.modify_id] at hsame
  simp only [book, modifySource, hsame]

theorem book_setNonblocking {fd : Fd} {res : Except IoError Unit}
    (h : r.setNonblocking fd = (res, r')) : r'.book = r.book ∧ r'.sources = r.sources := by
  unfold setNonblocking at h
  repeat' split at h
  all_goals cases h
  all_goals exact ⟨rfl, rfl⟩

private theorem released_of_watchable {fd : Fd} (h : r.watchable fd = .ok ()) {s : Source}
    (hs : s ∈ r.sources) (hfd : s.fd = fd) : s.released = true := by
  unfold watchable at h
  split at h
  · cases h
  · split at h
    · cases h
    · split at h
      · cases h
      · rename_i hany
        by_contra hr
        exact hany (List.any_eq_true.mpr ⟨s, hs, by simp [hfd, hr]⟩)

/-- A descriptor is registered only if no registration of it is left. -/
theorem book_register (fd : Fd) (r : Tasks) : (r.register fd).2.book = r.book ∨
    (∀ s ∈ r.sources, s.fd = fd → s.released = true) ∧
      (r.register fd).2.book = { r.book with sources := r.book.sources ++ [{ fd := fd }] } := by
  unfold register
  split
  · exact Or.inl rfl
  · cases hn : r.setNonblocking fd with
    | mk res r' =>
      obtain ⟨hbook, hsources⟩ := book_setNonblocking hn
      cases res with
      | error e => exact Or.inl hbook
      | ok =>
        dsimp only
        cases hw : r'.watchable fd with
        | error e => exact Or.inl hbook
        | ok =>
          right
          refine ⟨fun s hs => released_of_watchable hw (hsources ▸ hs), ?_⟩
          rw [← hbook]
          dsimp only
          split
          · rw [book_report]
            simp [book, Source.uncached, Sides.both]
          · simp [book, Source.uncached, Sides.both]

/-- To arm a wait is to start a task and to give it the slot. -/
theorem arm_eq (x : Registration) (d : Direction) (c : Callback) (r : Tasks) :
    ∃ queue, r.arm x d c = { r with
      spawned := r.spawned + 1
      tasks := r.tasks ++ [⟨r.spawned, .readiness x.id d, c⟩]
      sources := r.sources.modify x.id fun s => { s with slots := s.slots.set d (some r.spawned) }
      queue := queue } := by
  obtain ⟨queue, hwake⟩ := wakeHolder_eq (r.readyHolder x.id d)
    (r.modifySource x.id fun s => { s with slots := s.slots.set d (some r.spawned) })
  unfold arm
  dsimp only
  rw [hwake]
  exact ⟨_, rfl⟩

theorem book_arm (x : Registration) (d : Direction) (c : Callback) (r : Tasks) :
    (r.arm x d c).book = { r.book with
      spawned := r.spawned + 1
      tasks := r.tasks ++ [⟨r.spawned, .readiness x.id d, c⟩]
      sources := r.book.sources.modify x.id fun s =>
        { s with slots := s.slots.set d (some r.spawned) } } := by
  let give (s : Source) : Source := { s with slots := s.slots.set d (some r.spawned) }
  have hsources := map_modify_uncached (f := give) (g := give) (fun _ => rfl) r.sources x.id
  obtain ⟨queue, harm⟩ := arm_eq x d c r
  rw [harm]
  exact congrArg (fun l => Book.mk _ _ _ l) hsources

/-- To release a registration is to clear its slots, and no wait is invoked. -/
theorem release_eq (x : Registration) (r : Tasks) :
    ∃ queue events, r.release x = { r with
      sources := r.sources.modify x.id fun s => { s with slots := .both none, released := true }
      queue := queue
      events := events } := by
  let cleared := r.modifySource x.id fun s => { s with slots := .both none, released := true }
  obtain ⟨queue, hread⟩ := wakeHolder_eq (r.readyHolder x.id .read) cleared
  obtain ⟨queue', hwrite⟩ :=
    wakeHolder_eq (r.readyHolder x.id .write) { cleared with queue := queue }
  unfold release
  dsimp only [Direction.all, List.foldl]
  rw [hread, hwrite]
  exact ⟨_, _, rfl⟩

theorem book_release (x : Registration) (r : Tasks) :
    (r.release x).book = { r.book with
      sources := r.book.sources.modify x.id fun s =>
        { s with slots := .both none, released := true } } := by
  let clear (s : Source) : Source := { s with slots := .both none, released := true }
  have hsources := map_modify_uncached (f := clear) (g := clear) (fun _ => rfl) r.sources x.id
  obtain ⟨queue, events, hrelease⟩ := release_eq x r
  rw [hrelease]
  exact congrArg (fun l => Book.mk _ _ _ l) hsources

theorem book_schedule (t deadline : Nat) (c : Callback) (r : Tasks) :
    (r.schedule t deadline c).book = { r.book with
      spawned := r.spawned + 1
      tasks := r.tasks ++ [⟨r.spawned, .deadline t deadline, c⟩]
      timers := r.timers.modify t fun _ => some r.spawned } := by
  obtain ⟨queue, hwake⟩ := wakeHolder_eq (r.timedHolder t)
    { r with timers := r.timers.modify t fun _ => some r.spawned }
  unfold schedule
  dsimp only
  rw [hwake]
  rfl

theorem book_cancel (t : Nat) (r : Tasks) :
    (r.cancel t).book = { r.book with timers := r.timers.modify t fun _ => none } := by
  obtain ⟨queue, hwake⟩ := wakeHolder_eq (r.timedHolder t)
    { r with timers := r.timers.modify t fun _ => none }
  unfold cancel
  rw [hwake]
  rfl

private theorem book_poll (answers : Fd → Answers) (t : Task) (r : Tasks) :
    (r.poll answers t).2.book = r.book := by
  unfold poll
  repeat' split
  all_goals first
    | rfl
    | exact book_modifySource_cache _ _ r

/-- A task that completes is gone, and nothing else changes for waits. -/
theorem book_pollWith (answers : Fd → Answers) (id : Nat) (r : Tasks) :
    (r.pollWith answers id).1 = none ∧ (r.pollWith answers id).2.book = r.book ∨
      ∃ t ∈ r.tasks, t.id = id ∧ ∃ o, (r.pollWith answers id).1 = some (t.callback, o) ∧
        (r.pollWith answers id).2.book =
          { r.book with tasks := r.tasks.filter (·.id ≠ id) } := by
  unfold pollWith
  cases hf : r.tasks.find? (·.id == id) with
  | none => exact Or.inl ⟨rfl, rfl⟩
  | some t =>
    dsimp only
    have hbook := r.book_poll answers t
    cases hp : r.poll answers t with
    | mk outcome r' =>
      rw [hp] at hbook
      cases outcome with
      | none => exact Or.inl ⟨rfl, hbook⟩
      | some o =>
        have hid : t.id = id := by simpa using List.find?_some hf
        refine Or.inr ⟨t, List.mem_of_find?_eq_some hf, hid, o, rfl, ?_⟩
        have htasks : r'.tasks = r.tasks := congrArg Book.tasks hbook
        rw [← hbook]
        simp only [book, remove, htasks]

@[simp] theorem book_wake (id : Nat) (r : Tasks) : (r.wake id).book = r.book := by
  unfold wake
  split <;> rfl

private theorem book_notice (i : Nat) (r : Tasks) : (r.notice i).book = r.book := by
  have hwake (s : Source) (l : List Direction) (r : Tasks) :
      (l.foldl (fun r d => r.wakeHolder (s.slots.get d)) r).book = r.book := by
    induction l generalizing r with
    | nil => rfl
    | cons d l ih =>
      obtain ⟨queue, hqueue⟩ := wakeHolder_eq (s.slots.get d) r
      rw [List.foldl_cons, ih, hqueue]
      rfl
  unfold notice
  split
  · rfl
  · exact (hwake ..).trans (book_modifySource_cache _ _ r)

private theorem book_expire (r : Tasks) : r.expire.book = r.book := by
  have hwake (l : List Task) (r : Tasks) :
      (l.foldl (fun r t => r.wake t.id) r).book = r.book := by
    induction l generalizing r with
    | nil => rfl
    | cons t l ih => rw [List.foldl_cons, ih, book_wake]
  exact hwake _ _

/-- The driver caches what is ready and schedules tasks, and waits are as they were. -/
theorem book_turn (r : Tasks) : r.turn.book = r.book := by
  have hnotice (l : List Nat) (r : Tasks) :
      (l.foldl (fun r i => notice i r) r).book = r.book := by
    induction l generalizing r with
    | nil => rfl
    | cons i l ih => rw [List.foldl_cons, ih, book_notice]
  exact (book_expire _).trans (hnotice _ _)

/-- What a peer does to a socket is no more than an event. -/
theorem book_disturb (i : Nat) (x : Socket) (r : Tasks) : (r.disturb i x).book = r.book := by
  unfold disturb
  dsimp only
  split
  · rfl
  · exact book_report ..

end Books

/-- What holds of the waits of a task reactor after some acts. -/
structure Sound (log : List Act) (b : Book) : Prop where
  /-- A wait that was armed is outstanding or was invoked. -/
  waits : (b.tasks ++ invoked log).Perm (armed log)
  names : (armed log).map (·.id) = (List.range b.spawned).reverse
  /-- A wait holds the slot of its direction as long as it is not lost. -/
  held : ∀ t ∈ b.tasks, ∀ i d, t.awaited = .readiness i d → ∃ s, b.sources[i]? = some s ∧
    (s.slots.get d = some t.id ↔ lost log t.id i d = false)
  slot_lt : ∀ (i : Nat) (s : Source), b.sources[i]? = some s →
    ∀ d id, s.slots.get d = some id → id < b.spawned
  cleared : ∀ (i : Nat) (s : Source), b.sources[i]? = some s → s.released = true →
    s.slots = .both none
  /-- A descriptor has one registration that is not released at most. -/
  single : ∀ (i j : Nat) (s s' : Source), b.sources[i]? = some s → b.sources[j]? = some s' →
    s.fd = s'.fd → s.released = false → s'.released = false → i = j

namespace Sound
variable {b : Book} {t : Task}

theorem nodup (h : Sound log b) : ((armed log).map (·.id)).Nodup := by
  rw [h.names]
  exact List.nodup_reverse.mpr List.nodup_range

theorem tasks_nodup (h : Sound log b) : (b.tasks.map (·.id)).Nodup := by
  have hall := (h.waits.map (·.id)).nodup_iff.mpr h.nodup
  rw [List.map_append] at hall
  exact hall.of_append_left

theorem id_lt (h : Sound log b) (ht : t ∈ b.tasks) : t.id < b.spawned := by
  have hmem : t.id ∈ (armed log).map (·.id) :=
    List.mem_map_of_mem (h.waits.subset (List.mem_append_left _ ht))
  rw [h.names] at hmem
  simpa using hmem

theorem eq_of_id (h : Sound log b) {u : Task} (ht : t ∈ b.tasks) (hu : u ∈ b.tasks)
    (hid : t.id = u.id) : t = u :=
  List.inj_on_of_nodup_map h.tasks_nodup ht hu hid

/-- Of the waits of one direction of a registration one at most is not lost. -/
theorem eq_of_kept (h : Sound log b) {u : Task} {i : Nat} {d : Direction} (ht : t ∈ b.tasks)
    (hu : u ∈ b.tasks) (hta : t.awaited = .readiness i d) (hua : u.awaited = .readiness i d)
    (htk : lost log t.id i d = false) (huk : lost log u.id i d = false) : t = u := by
  obtain ⟨s, hs, hheld⟩ := h.held t ht i d hta
  obtain ⟨s', hs', hheld'⟩ := h.held u hu i d hua
  cases hs.symm.trans hs'
  exact h.eq_of_id ht hu (Option.some.inj ((hheld.mpr htk).symm.trans (hheld'.mpr huk)))

theorem fresh : Sound [] ⟨0, [], [], []⟩ where
  waits := List.Perm.nil
  names := rfl
  held := by simp
  slot_lt := by simp
  cleared := by simp
  single := by simp

theorem timers (h : Sound log b) (l : List (Option Nat)) :
    Sound log { b with timers := l } where
  __ := h

theorem register (h : Sound log b) {fd : Fd}
    (hfree : ∀ s ∈ b.sources, s.fd = fd → s.released = true) :
    Sound log { b with sources := b.sources ++ [{ fd := fd }] } := by
  have hsplit {i : Nat} {s : Source} (hs : (b.sources ++ [({ fd := fd } : Source)])[i]? = some s) :
      b.sources[i]? = some s ∨ i = b.sources.length ∧ s = { fd := fd } := by
    rw [List.getElem?_append] at hs
    split at hs
    · exact Or.inl hs
    · obtain ⟨hi, heq⟩ := List.getElem?_eq_some_iff.mp hs
      simp only [List.length_singleton] at hi
      simp only [List.getElem_singleton] at heq
      exact Or.inr ⟨by omega, heq.symm⟩
  refine { h with held := ?_, slot_lt := ?_, cleared := ?_, single := ?_ }
  · intro t ht i d ha
    obtain ⟨s, hs, hheld⟩ := h.held t ht i d ha
    obtain ⟨hlt, -⟩ := List.getElem?_eq_some_iff.mp hs
    exact ⟨s, by rw [List.getElem?_append_left hlt, hs], hheld⟩
  · intro i s hs d id hslot
    rcases hsplit hs with hold | ⟨-, rfl⟩
    · exact h.slot_lt i s hold d id hslot
    · simp at hslot
  · intro i s hs hr
    rcases hsplit hs with hold | ⟨-, rfl⟩
    · exact h.cleared i s hold hr
    · rfl
  · intro i j s s' hs hs' hfd hr hr'
    rcases hsplit hs with hold | ⟨rfl, rfl⟩ <;> rcases hsplit hs' with hold' | ⟨rfl, rfl⟩
    · exact h.single i j s s' hold hold' hfd hr hr'
    · cases hr.symm.trans (hfree s (List.mem_of_getElem? hold) hfd)
    · cases hr'.symm.trans (hfree s' (List.mem_of_getElem? hold') hfd.symm)
    · rfl

/-- Registrations stay single if one is changed that keeps its descriptor, and no released one is
taken back. -/
theorem single_modify (h : Sound log b) (i : Nat) {f : Source → Source} (hfd : ∀ s, (f s).fd = s.fd)
    (hr : ∀ s, (f s).released = false → s.released = false) (j k : Nat) (s s' : Source)
    (hs : (b.sources.modify i f)[j]? = some s) (hs' : (b.sources.modify i f)[k]? = some s')
    (heq : s.fd = s'.fd) (hsr : s.released = false) (hsr' : s'.released = false) : j = k := by
  have hold {j : Nat} {s : Source} (hs : (b.sources.modify i f)[j]? = some s)
      (hsr : s.released = false) : ∃ t, b.sources[j]? = some t ∧ t.fd = s.fd ∧
        t.released = false := by
    rw [List.getElem?_modify] at hs
    obtain ⟨t, ht, rfl⟩ := Option.map_eq_some_iff.mp hs
    refine ⟨t, ht, ?_⟩
    split at hsr
    · rw [if_pos ‹_›, hfd]
      exact ⟨rfl, hr t hsr⟩
    · rw [if_neg ‹_›]
      exact ⟨rfl, hsr⟩
  obtain ⟨t, ht, hfdt, hrt⟩ := hold hs hsr
  obtain ⟨t', ht', hfdt', hrt'⟩ := hold hs' hsr'
  exact h.single j k t t' ht ht' (hfdt.trans (heq.trans hfdt'.symm)) hrt hrt'

/-- A wait that is armed counts, whatever it waits for. -/
theorem names_spawn (h : Sound log b) (awaited : Awaited) (c : Callback) :
    (armed (.armed ⟨b.spawned, awaited, c⟩ :: log)).map (·.id) =
      (List.range (b.spawned + 1)).reverse := by
  rw [List.range_succ, List.reverse_append]
  exact congrArg (b.spawned :: ·) h.names

theorem waits_spawn (h : Sound log b) (t : Task) :
    (b.tasks ++ [t] ++ invoked (.armed t :: log)).Perm (armed (.armed t :: log)) := by
  rw [List.append_assoc, List.singleton_append]
  exact List.perm_middle.trans (h.waits.cons t)

/-- What was armed before is not the wait that is armed now. -/
theorem isArmed_spawn (h : Sound log b) (ht : t ∈ b.tasks) (awaited : Awaited) (c : Callback) :
    (Act.armed ⟨b.spawned, awaited, c⟩).isArmed t.id = false := by
  have hne : b.spawned ≠ t.id := Nat.ne_of_gt (h.id_lt ht)
  simpa [Act.isArmed] using hne

/-- A wait that is armed gets the slot, and whoever held it is lost. -/
theorem arm (h : Sound log b) {i : Nat} {s : Source} (hs : b.sources[i]? = some s)
    (hr : s.released = false) (d : Direction) (c : Callback) :
    Sound (.armed ⟨b.spawned, .readiness i d, c⟩ :: log) { b with
      spawned := b.spawned + 1
      tasks := b.tasks ++ [⟨b.spawned, .readiness i d, c⟩]
      sources := b.sources.modify i fun s =>
        { s with slots := s.slots.set d (some b.spawned) } } where
  waits := h.waits_spawn _
  names := h.names_spawn _ c
  held := by
    intro t ht j d' ha
    simp only [List.getElem?_modify]
    rcases List.mem_append.mp ht with hold | hnew
    · obtain ⟨s', hs', hheld⟩ := h.held t hold j d' ha
      have hne : b.spawned ≠ t.id := Nat.ne_of_gt (h.id_lt hold)
      rw [lost_cons (h.isArmed_spawn hold _ c), hs']
      by_cases hj : i = j
      · subst hj
        by_cases hd : d' = d
        · -- the slot goes to the new wait
          subst hd
          exact ⟨_, rfl, by simp [Act.ends, hne]⟩
        · refine ⟨_, rfl, ?_⟩
          have hother : (d == d') = false := by simpa using Ne.symm hd
          simp [Act.ends, Sides.get_set_of_ne _ hd, hheld, Ne.symm hd]
      · exact ⟨s', by simp [hj], by simp [Act.ends, hj, hheld]⟩
    · cases List.mem_singleton.mp hnew
      cases ha
      rw [hs, lost_cons_of_armed]
      exact ⟨_, rfl, by simp⟩
  slot_lt := by
    intro j s' hs' d' id hslot
    rw [List.getElem?_modify] at hs'
    obtain ⟨s₀, hs₀, rfl⟩ := Option.map_eq_some_iff.mp hs'
    split at hslot
    · by_cases hd : d' = d
      · subst hd
        rw [Sides.get_set_self] at hslot
        cases hslot
        exact Nat.lt_succ_self _
      · rw [Sides.get_set_of_ne _ hd] at hslot
        exact Nat.lt_succ_of_lt (h.slot_lt j s₀ hs₀ d' id hslot)
    · exact Nat.lt_succ_of_lt (h.slot_lt j s₀ hs₀ d' id hslot)
  cleared := by
    intro j s' hs' hr'
    rw [List.getElem?_modify] at hs'
    obtain ⟨s₀, hs₀, rfl⟩ := Option.map_eq_some_iff.mp hs'
    split at hr'
    · rename_i hij
      subst hij
      cases hs.symm.trans hs₀
      cases hr.symm.trans hr'
    · rename_i hij
      rw [if_neg hij]
      exact h.cleared j s₀ hs₀ hr'
  single := h.single_modify i (fun _ => rfl) fun _ hr => hr

/-- A release clears the slots, and all waits of the registration are lost. -/
theorem release (h : Sound log b) (i : Nat) :
    Sound (.released i :: log) { b with
      sources := b.sources.modify i fun s => { s with slots := .both none, released := true } } where
  waits := h.waits
  names := h.names
  held := by
    intro t ht j d ha
    obtain ⟨s, hs, hheld⟩ := h.held t ht j d ha
    rw [lost_cons rfl]
    simp only [List.getElem?_modify, hs]
    by_cases hj : i = j
    · subst hj
      exact ⟨_, rfl, by simp [Act.ends]⟩
    · exact ⟨s, by simp [hj], by simp [Act.ends, hj, hheld]⟩
  slot_lt := by
    intro j s hs d id hslot
    rw [List.getElem?_modify] at hs
    obtain ⟨s₀, hs₀, rfl⟩ := Option.map_eq_some_iff.mp hs
    split at hslot
    · simp at hslot
    · exact h.slot_lt j s₀ hs₀ d id hslot
  cleared := by
    intro j s hs hr
    rw [List.getElem?_modify] at hs
    obtain ⟨s₀, hs₀, rfl⟩ := Option.map_eq_some_iff.mp hs
    split at hr
    · rw [if_pos ‹_›]
    · rw [if_neg ‹_›]
      exact h.cleared j s₀ hs₀ hr
  single := h.single_modify i (fun _ => rfl) fun _ hr => by cases hr

theorem schedule (h : Sound log b) (l : List (Option Nat)) (timer deadline : Nat) (c : Callback) :
    Sound (.armed ⟨b.spawned, .deadline timer deadline, c⟩ :: log) { b with
      spawned := b.spawned + 1
      tasks := b.tasks ++ [⟨b.spawned, .deadline timer deadline, c⟩]
      timers := l } where
  waits := h.waits_spawn _
  names := h.names_spawn _ c
  held := by
    intro t ht i d ha
    rcases List.mem_append.mp ht with hold | hnew
    · obtain ⟨s, hs, hheld⟩ := h.held t hold i d ha
      exact ⟨s, hs, by rw [lost_cons (h.isArmed_spawn hold _ c), hheld]; rfl⟩
    · cases List.mem_singleton.mp hnew
      cases ha
  slot_lt := fun i s hs d id hslot => Nat.lt_succ_of_lt (h.slot_lt i s hs d id hslot)
  cleared := h.cleared
  single := h.single

theorem invoke (h : Sound log b) (ht : t ∈ b.tasks) (o : Outcome) :
    Sound (.invoked t o :: log) { b with tasks := b.tasks.filter (·.id ≠ t.id) } where
  waits := by
    have hrest : b.tasks.filter (·.id ≠ t.id) = b.tasks.erase t := by
      rw [(h.tasks_nodup.of_map _).erase_eq_filter]
      refine List.filter_congr fun u hu => ?_
      by_cases hid : u.id = t.id
      · simp [h.eq_of_id hu ht hid]
      · have hne : u ≠ t := fun heq => hid (congrArg Task.id heq)
        simp [hid, hne]
    rw [hrest]
    exact (List.perm_middle.trans
      ((List.perm_cons_erase ht).symm.append_right (invoked log))).trans h.waits
  names := h.names
  held := by
    intro u hu i d ha
    rw [lost_cons rfl]
    exact h.held u (List.mem_of_mem_filter hu) i d ha
  slot_lt := h.slot_lt
  cleared := h.cleared
  single := h.single

end Sound

end Tasks
end Wakeup
