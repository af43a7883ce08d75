import Wakeup.Proofs.Slots

/-! The contract of waits that are tasks. A wait is invoked once at most, as cancelled if its
direction was armed again or its registration released before, and otherwise as the driver and the
operating system answer. Tasks are polled in any order. -/
namespace Wakeup
namespace Tasks
variable {r r' : Tasks} {log : List Act}

/-- What happens to a task reactor. Sockets and the driver may do anything in between that leaves
the waits as they are, and tasks are polled in any order. -/
inductive Step : Tasks → List Act → Tasks → Prop
  | idle {r r' : Tasks} (h : r'.book = r.book) : Step r [] r'
  | register (r : Tasks) (fd : Fd) : Step r [] (r.register fd).2
  | arm {r : Tasks} {x : Registration} (hx : r.Live x) (d : Direction) (c : Callback) :
    Step r [.armed ⟨r.spawned, .readiness x.id d, c⟩] (r.arm x d c)
  | release {r : Tasks} {x : Registration} (hx : r.Live x) : Step r [.released x.id] (r.release x)
  | newTimer (r : Tasks) : Step r [] r.newTimer.2
  | schedule (r : Tasks) (timer deadline : Nat) (c : Callback) :
    Step r [.armed ⟨r.spawned, .deadline timer deadline, c⟩] (r.schedule timer deadline c)
  | cancel (r : Tasks) (timer : Nat) : Step r [] (r.cancel timer)
  /-- A task is polled and does not complete. -/
  | poll {r : Tasks} {answers : Fd → Answers} {id : Nat} (h : (r.pollWith answers id).1 = none) :
    Step r [] (r.pollWith answers id).2
  /-- A task is polled and runs its callback. -/
  | invoke {r : Tasks} {answers : Fd → Answers} {t : Task} {o : Outcome} (ht : t ∈ r.tasks)
    (h : (r.pollWith answers t.id).1 = some (t.callback, o)) :
    Step r [.invoked t o] (r.pollWith answers t.id).2

/-- The runs of a task reactor that is new, with what was done with its waits, latest first. -/
inductive Run (runtime : Runtime) (options : Options) : List Act → Tasks → Prop
  | start : Run runtime options [] { runtime := runtime, options := options }
  | step {log acts : List Act} {r r' : Tasks} (h : Run runtime options log r)
    (hstep : Step r acts r') : Run runtime options (acts ++ log) r'

theorem Live.book {x : Registration} (h : r.Live x) :
    ∃ s, r.book.sources[x.id]? = some s ∧ s.fd = x.fd ∧ s.released = false := by
  obtain ⟨s, hs, hfd, hr⟩ := h
  exact ⟨s.uncached, by rw [getElem?_book, hs]; rfl, hfd, hr⟩

private theorem Step.sound {acts : List Act} (hstep : Step r acts r') (h : Sound log r.book) :
    Sound (acts ++ log) r'.book := by
  cases hstep with
  | idle hbook =>
    rw [hbook]
    exact h
  | register fd =>
    rcases book_register fd r with hbook | ⟨hfree, hbook⟩
    · rw [hbook]
      exact h
    · rw [hbook]
      refine h.register fun s hs hfd => ?_
      obtain ⟨s₀, hs₀, rfl⟩ := List.mem_map.mp hs
      exact hfree s₀ hs₀ hfd
  | arm hx d c =>
    obtain ⟨s, hs, -, hr⟩ := hx.book
    rw [book_arm]
    exact h.arm hs hr d c
  | release hx =>
    rw [book_release]
    exact h.release _
  | newTimer => exact h.timers _
  | schedule timer deadline c =>
    rw [book_schedule]
    exact h.schedule _ timer deadline c
  | cancel timer =>
    rw [book_cancel]
    exact h.timers _
  | @poll answers id hp =>
    rcases book_pollWith answers id r with ⟨-, hbook⟩ | ⟨t, -, -, o, ho, -⟩
    · rw [hbook]
      exact h
    · cases hp.symm.trans ho
  | @invoke answers t o ht hp =>
    rcases book_pollWith answers t.id r with ⟨hnone, -⟩ | ⟨u, -, -, o', -, hbook⟩
    · cases hp.symm.trans hnone
    · rw [hbook]
      exact h.invoke ht o

theorem Run.sound {runtime : Runtime} {options : Options} (h : Run runtime options log r) :
    Sound log r.book := by
  induction h with
  | start => exact Sound.fresh
  | step _ hstep ih => exact hstep.sound ih

theorem pollWith_of_find {t : Task} (hfind : r.tasks.find? (·.id == t.id) = some t)
    (answers : Fd → Answers) :
    (r.pollWith answers t.id).1 = (r.poll answers t).1.map (t.callback, ·) := by
  unfold pollWith
  rw [hfind]
  dsimp only
  cases r.poll answers t with
  | mk outcome r' => cases outcome <;> rfl

/-- A wait for readiness is answered if it holds the slot of a registration that is not released. -/
theorem poll_readiness {t : Task} {i : Nat} {d : Direction} {s : Source}
    (ha : t.awaited = .readiness i d) (hs : r.sources[i]? = some s) (answers : Fd → Answers) :
    (r.poll answers t).1 =
      if s.slots.get d = some t.id ∧ s.released = false then ((answers s.fd).poll d s.cache).1
      else some (.error .canceled) := by
  simp only [poll, ha, holder, readyHolder, hs, Option.bind_some]
  by_cases hslot : s.slots.get d = some t.id
  · cases hr : s.released <;> simp [hslot]
  · simp [hslot]

private theorem poll_deadline {t : Task} {timer time : Nat} (ha : t.awaited = .deadline timer time)
    (answers : Fd → Answers) :
    (r.poll answers t).1 =
      if r.timers[timer]?.join = some t.id then
        if time ≤ r.turned then some (.ok ()) else none
      else some (.error .canceled) := by
  simp only [poll, ha, holder, timedHolder]
  split <;> rfl

namespace Sound
variable {t : Task} {i : Nat} {d : Direction}

theorem find_task (h : Sound log r.book) (ht : t ∈ r.tasks) :
    r.tasks.find? (·.id == t.id) = some t := by
  obtain ⟨u, hu⟩ : ∃ u, r.tasks.find? (·.id == t.id) = some u :=
    Option.isSome_iff_exists.mp (List.find?_isSome.mpr ⟨t, ht, beq_self_eq_true _⟩)
  have hid : u.id = t.id := by simpa using List.find?_some hu
  rw [hu, h.eq_of_id (List.mem_of_find?_eq_some hu) ht hid]

theorem held_source (h : Sound log r.book) (ht : t ∈ r.tasks) (ha : t.awaited = .readiness i d) :
    ∃ s, r.sources[i]? = some s ∧ (s.slots.get d = some t.id ↔ lost log t.id i d = false) := by
  obtain ⟨s', hs', hheld⟩ := h.held t ht i d ha
  rw [getElem?_book] at hs'
  obtain ⟨s, hs, rfl⟩ := Option.map_eq_some_iff.mp hs'
  exact ⟨s, hs, hheld⟩

/-- A wait that is lost completes as cancelled as soon as its task is polled. -/
theorem pollWith_of_lost (h : Sound log r.book) (ht : t ∈ r.tasks)
    (ha : t.awaited = .readiness i d) (hl : lost log t.id i d = true) (answers : Fd → Answers) :
    (r.pollWith answers t.id).1 = some (t.callback, .error .canceled) := by
  obtain ⟨s, hs, hheld⟩ := h.held_source ht ha
  have hslot : s.slots.get d ≠ some t.id := fun hslot =>
    Bool.false_ne_true ((hheld.mp hslot).symm.trans hl)
  rw [pollWith_of_find (h.find_task ht), poll_readiness ha hs, if_neg fun hboth => hslot hboth.1]
  rfl

/-- A wait that is not lost completes as the driver and the operating system answer. -/
theorem pollWith_of_kept (h : Sound log r.book) (ht : t ∈ r.tasks)
    (ha : t.awaited = .readiness i d) (hk : lost log t.id i d = false) :
    ∃ s, r.sources[i]? = some s ∧ s.released = false ∧ ∀ answers,
      (r.pollWith answers t.id).1 = ((answers s.fd).poll d s.cache).1.map (t.callback, ·) := by
  obtain ⟨s, hs, hheld⟩ := h.held_source ht ha
  have hslot : s.slots.get d = some t.id := hheld.mpr hk
  have hr : s.released = false := by
    by_contra hr
    rw [Bool.not_eq_false] at hr
    have hclear : s.slots = .both none :=
      h.cleared i s.uncached (by rw [getElem?_book, hs]; rfl) hr
    rw [hclear, Sides.get_both] at hslot
    cases hslot
  refine ⟨s, hs, hr, fun answers => ?_⟩
  rw [pollWith_of_find (h.find_task ht), poll_readiness ha hs, if_pos ⟨hslot, hr⟩]

/-- To arm a wait takes the slot of its direction, and another wait finds its own as it was. -/
theorem poll_arm (h : Sound log r.book) (ht : t ∈ r.tasks) (x : Registration) (d : Direction)
    (c : Callback) (ha : t.awaited ≠ .readiness x.id d) (answers : Fd → Answers) :
    ((r.arm x d c).poll answers t).1 = (r.poll answers t).1 := by
  obtain ⟨queue, harm⟩ := arm_eq x d c r
  rw [harm]
  cases hta : t.awaited with
  | deadline timer time => rw [poll_deadline hta, poll_deadline hta]
  | readiness i d' =>
    obtain ⟨s, hs, -⟩ := h.held_source ht hta
    rw [poll_readiness hta hs]
    by_cases hi : x.id = i
    · subst hi
      have hd : d' ≠ d := fun heq => ha (by rw [hta, heq])
      rw [poll_readiness (s := { s with slots := s.slots.set d (some r.spawned) }) hta
        (by simp [hs])]
      simp only [Sides.get_set_of_ne _ hd]
    · rw [poll_readiness hta (by simpa [List.getElem?_modify, hi] using hs)]

private theorem pollWith_arm (h : Sound log r.book) (ht : t ∈ r.tasks) (x : Registration)
    (d : Direction) (c : Callback) (ha : t.awaited ≠ .readiness x.id d) (answers : Fd → Answers) :
    ((r.arm x d c).pollWith answers t.id).1 = (r.pollWith answers t.id).1 := by
  have hfind : (r.arm x d c).tasks.find? (·.id == t.id) = some t := by
    obtain ⟨queue, harm⟩ := arm_eq x d c r
    rw [harm, List.find?_append, h.find_task ht]
    rfl
  rw [pollWith_of_find hfind, pollWith_of_find (h.find_task ht), h.poll_arm ht x d c ha]

/-- A release leaves no registration of the descriptor. -/
theorem released_of_release (h : Sound log r.book) {x : Registration} (hx : r.Live x) {s : Source}
    (hs : s ∈ (r.release x).sources) (hfd : s.fd = x.fd) : s.released = true := by
  obtain ⟨queue, events, hrelease⟩ := release_eq x r
  rw [hrelease] at hs
  obtain ⟨i, hi⟩ := List.mem_iff_getElem?.mp hs
  rw [List.getElem?_modify] at hi
  obtain ⟨s₀, hs₀, rfl⟩ := Option.map_eq_some_iff.mp hi
  split at hfd
  · rw [if_pos ‹_›]
  · rename_i hne
    rw [if_neg hne]
    by_contra hr
    obtain ⟨s', hs', hfd', hr'⟩ := hx.book
    have hs₀' : r.book.sources[i]? = some s₀.uncached := by rw [getElem?_book, hs₀]; rfl
    exact hne (h.single _ _ _ _ hs' hs₀' (hfd'.trans hfd.symm) hr' (Bool.eq_false_iff.mpr hr))

end Sound

private theorem socket?_modifySocket {fd : Fd} {i : Nat} {s : Socket} (hs : r.socket? fd = some s)
    {f : Socket → Socket} (hf : ∀ s, (f s).closed = s.closed) :
    ∃ s', (r.modifySocket i f).socket? fd = some s' ∧ (s' = s ∨ s' = f s) := by
  obtain ⟨j, hj, hs⟩ := Option.bind_eq_some_iff.mp hs
  obtain ⟨hs, hopen⟩ := Option.filter_eq_some_iff.mp hs
  by_cases hij : i = j
  · subst hij
    exact ⟨f s, by simp [socket?, modifySocket, hj, hs, List.getElem?_modify, hf, hopen], Or.inr rfl⟩
  · exact ⟨s, by simp [socket?, modifySocket, hj, hs, List.getElem?_modify, hij, hopen], Or.inl rfl⟩

/-- An open socket without a registration can be registered. -/
theorem register_of_free {fd : Fd} {s : Socket} (hs : r.socket? fd = some s)
    (hkind : s.kind ≠ .file) (hfree : ∀ s ∈ r.sources, s.fd = fd → s.released = true) :
    (r.register fd).1 = .ok ⟨r.sources.length, fd⟩ := by
  obtain ⟨i, hi, -⟩ := Option.bind_eq_some_iff.mp hs
  have hfd : ¬ fd < 0 := by
    intro hneg
    have hplace : ¬ (3 : Int) ≤ fd := fun hle =>
      absurd (Int.lt_of_le_of_lt hle hneg) (by decide : ¬ (3 : Int) < 0)
    rw [Socket.place?, if_neg hplace] at hi
    cases hi
  have hset : ∃ r', r.setNonblocking fd = (.ok (), r') ∧ r'.sources = r.sources ∧
      ∃ s', r'.socket? fd = some s' ∧ s'.kind = s.kind := by
    unfold setNonblocking
    split
    · rw [hs, hi]
      obtain ⟨s', hs', rfl | rfl⟩ :=
        socket?_modifySocket (i := i) hs (f := ({ · with nonblocking := true })) fun _ => rfl
      · exact ⟨_, rfl, rfl, _, hs', rfl⟩
      · exact ⟨_, rfl, rfl, _, hs', rfl⟩
    · exact ⟨r, rfl, rfl, s, hs, rfl⟩
  obtain ⟨r', hset, hsources, s', hs', hkind'⟩ := hset
  have hany : (r'.sources.any fun x => x.fd == fd && !x.released) = false := by
    rw [hsources, List.any_eq_false]
    intro x hx
    by_cases hxfd : x.fd = fd
    · simp [hfree x hx hxfd]
    · simp [hxfd]
  have hwatchable : r'.watchable fd = .ok () := by
    simp [watchable, hs', hkind', hkind, hany]
  simp only [register, if_neg hfd, hset, hwatchable, hsources]

/-- An invocation is one of cancellation exactly if the wait was lost before. -/
theorem Step.told {acts : List Act} (hstep : Step r acts r') (h : Sound log r.book) :
    acts = [] ∨ ∃ a, acts = [a] ∧ ∀ t o, a = .invoked t o → ∀ i d, t.awaited = .readiness i d →
      (o = .error .canceled ↔ lost log t.id i d = true) := by
  cases hstep with
  | idle | register | newTimer | cancel | poll => exact Or.inl rfl
  | arm | release | schedule => exact Or.inr ⟨_, rfl, fun _ _ heq => by cases heq⟩
  | @invoke answers t o ht hp =>
    refine Or.inr ⟨_, rfl, fun t' o' heq i d ha => ?_⟩
    cases heq
    cases hl : lost log t.id i d with
    | true =>
      cases hp.symm.trans (h.pollWith_of_lost ht ha hl answers)
      exact iff_of_true rfl rfl
    | false =>
      obtain ⟨s, -, -, hpoll⟩ := h.pollWith_of_kept ht ha hl
      rw [hpoll] at hp
      obtain ⟨o, houtcome, heq⟩ := Option.map_eq_some_iff.mp hp
      cases heq
      refine iff_of_false (fun hc => ?_) Bool.false_ne_true
      rcases Answers.outcome_pollReady houtcome with ⟨ho, -⟩ | ⟨e, ho, -⟩
      · cases hc.symm.trans ho
      · cases hc.symm.trans ho

private theorem Run.told {runtime : Runtime} {options : Options} (h : Run runtime options log r)
    {later earlier : List Act} {t : Task} {o : Outcome} (hlog : log = later ++ .invoked t o :: earlier)
    {i : Nat} {d : Direction} (ha : t.awaited = .readiness i d) :
    o = .error .canceled ↔ lost earlier t.id i d = true := by
  induction h generalizing later with
  | start => simp at hlog
  | step hrun hstep ih =>
    rcases hstep.told hrun.sound with rfl | ⟨a, rfl, htold⟩
    · exact ih hlog
    · cases later with
      | nil =>
        cases hlog
        exact htold t o rfl i d ha
      | cons b later => exact ih (List.cons.inj hlog).2

/-- What holds of the waits of a task reactor, given what was done with them so far. -/
structure Contract (log : List Act) (r : Tasks) : Prop where
  /-- No wait is invoked twice, and none is lost sight of. -/
  once : ((armed log).map (·.id)).Nodup ∧ (r.tasks ++ invoked log).Perm (armed log)
  /-- Those that were invoked as cancelled are those that were replaced or whose registration was
  released before. -/
  told : ∀ later t o earlier, log = later ++ .invoked t o :: earlier →
    ∀ i d, t.awaited = .readiness i d → (o = .error .canceled ↔ lost earlier t.id i d = true)
  /-- Of the waits of a direction one at most is not cancelled. -/
  single : ∀ i d, ∀ t ∈ r.tasks, ∀ u ∈ r.tasks, t.awaited = .readiness i d →
    u.awaited = .readiness i d → lost log t.id i d = false → lost log u.id i d = false → t = u
  /-- A wait that was replaced or whose registration was released is invoked as cancelled in the
  next poll of its task, whatever the descriptor is. -/
  canceled : ∀ i d, ∀ t ∈ r.tasks, t.awaited = .readiness i d → lost log t.id i d = true →
    ∀ answers, (r.pollWith answers t.id).1 = some (t.callback, .error .canceled)
  /-- Any other wait is invoked as ready only if the operating system confirms it in that poll, and
  as failed only if the driver or the operating system fails. -/
  confirmed : ∀ i d, ∀ t ∈ r.tasks, t.awaited = .readiness i d → lost log t.id i d = false →
    ∃ fd, r.Live ⟨i, fd⟩ ∧ ∀ answers c o, (r.pollWith answers t.id).1 = some (c, o) →
      c = t.callback ∧
      (o = .ok () ∧ Answers.verdict d (answers fd).inquiries = .ok true ∨
        ∃ e, o = .error (.io e) ∧
          ((answers fd).failure = some e ∨ Answers.verdict d (answers fd).inquiries = .error e))
  /-- A task that completed is not polled again. -/
  done : ∀ id, (∀ t ∈ r.tasks, t.id ≠ id) → ∀ answers, r.pollWith answers id = (none, r)
  /-- To arm a direction cancels no wait of another. -/
  apart : ∀ x d c, ∀ t ∈ r.tasks, t.awaited ≠ .readiness x.id d → ∀ answers,
    ((r.arm x d c).pollWith answers t.id).1 = (r.pollWith answers t.id).1
  /-- A release frees the descriptor at once, though no task was polled. -/
  freed : ∀ x, r.Live x → (r.release x).tasks = r.tasks ∧
    (∀ s ∈ (r.release x).sources, s.fd = x.fd → s.released = true) ∧
    ∀ s, r.socket? x.fd = some s → s.kind ≠ .file →
      ((r.release x).register x.fd).1 = .ok ⟨r.sources.length, x.fd⟩

/-- Every run of a task reactor keeps the contract of its waits. -/
theorem Run.contract {runtime : Runtime} {options : Options} (h : Run runtime options log r) :
    Contract log r where
  once := ⟨h.sound.nodup, h.sound.waits⟩
  told := fun _ _ _ _ hlog _ _ ha => h.told hlog ha
  single := fun _ _ _ ht _ hu hta hua htk huk => h.sound.eq_of_kept ht hu hta hua htk huk
  canceled := fun _ _ _ ht ha hl answers => h.sound.pollWith_of_lost ht ha hl answers
  confirmed := by
    intro i d t ht ha hk
    obtain ⟨s, hs, hr, hpoll⟩ := h.sound.pollWith_of_kept ht ha hk
    refine ⟨s.fd, ⟨s, hs, rfl, hr⟩, fun answers c o ho => ?_⟩
    rw [hpoll] at ho
    obtain ⟨o, houtcome, heq⟩ := Option.map_eq_some_iff.mp ho
    cases heq
    exact ⟨rfl, Answers.outcome_pollReady houtcome⟩
  done := by
    intro id hid answers
    have hfind : r.tasks.find? (·.id == id) = none :=
      List.find?_eq_none.mpr fun t ht => by simpa using hid t ht
    rw [pollWith, hfind]
  apart := fun x d c _ ht ha answers => h.sound.pollWith_arm ht x d c ha answers
  freed := by
    intro x hx
    obtain ⟨queue, events, hrelease⟩ := release_eq x r
    refine ⟨by rw [hrelease], fun s hs hfd => h.sound.released_of_release hx hs hfd,
      fun s hs hkind => ?_⟩
    have hsocket : (r.release x).socket? x.fd = some s := by rw [hrelease]; exact hs
    rw [register_of_free hsocket hkind fun s hs hfd => h.sound.released_of_release hx hs hfd]
    simp [hrelease]

/-- A socket was registered and armed to read, to write and to read again, and then bytes came. -/
def rearmed : Tasks :=
  let x : Registration := ⟨0, 3⟩
  let r : Tasks := { runtime := ⟨0⟩, sockets := [{ kind := .pair }] }
  let r := (r.register 3).2.arm x .read (.bare ⟨"first"⟩)
  let r := (r.arm x .write (.bare ⟨"second"⟩)).arm x .read (.bare ⟨"third"⟩)
  (r.disturb 0 { kind := .pair, inbox := 1 }).turn

private theorem run_rearmed : Run ⟨0⟩ {}
    [.armed ⟨2, .readiness 0 .read, .bare ⟨"third"⟩⟩,
      .armed ⟨1, .readiness 0 .write, .bare ⟨"second"⟩⟩,
      .armed ⟨0, .readiness 0 .read, .bare ⟨"first"⟩⟩] rearmed := by
  have hsocket : Step { runtime := ⟨0⟩ } [] { runtime := ⟨0⟩, sockets := [{ kind := .pair }] } :=
    .idle rfl
  have hopen := Run.start.step hsocket
  have hregistered := hopen.step (.register _ 3)
  have hfirst := hregistered.step (.arm (x := ⟨0, 3⟩) ⟨_, rfl, rfl, rfl⟩ .read (.bare ⟨"first"⟩))
  have hsecond := hfirst.step (.arm (x := ⟨0, 3⟩) ⟨_, rfl, rfl, rfl⟩ .write (.bare ⟨"second"⟩))
  have hthird := hsecond.step (.arm (x := ⟨0, 3⟩) ⟨_, rfl, rfl, rfl⟩ .read (.bare ⟨"third"⟩))
  exact hthird.step (.idle ((book_turn _).trans (book_disturb _ _ _)))

theorem contract_rearmed :
    (rearmed.pollTask 0).1 = some (.bare ⟨"first"⟩, .error .canceled) ∧
      (rearmed.pollTask 2).1 = some (.bare ⟨"third"⟩, .ok ()) ∧
      ((rearmed.release ⟨0, 3⟩).register 3).1 = .ok ⟨1, 3⟩ :=
  ⟨run_rearmed.contract.canceled 0 .read ⟨0, .readiness 0 .read, .bare ⟨"first"⟩⟩ (by decide) rfl
      (by decide) _,
    by decide,
    (run_rearmed.contract.freed ⟨0, 3⟩ ⟨_, rfl, rfl, rfl⟩).2.2 { kind := .pair, inbox := 1 }
      (by decide) (by decide)⟩

end Tasks
end Wakeup
