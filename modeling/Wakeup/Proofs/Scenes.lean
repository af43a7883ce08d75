import Wakeup.Proofs.Engines
import Wakeup.Proofs.Releases

/-! What a hub shows of one descriptor, and what its operations do to that: those of the descriptor
do the same whatever else there is, and all others leave it alone. -/
namespace Wakeup

/-- The engine that a callback names. -/
def Callback.engine : Callback → Nat
  | .ready _ _ e => e
  | .beat _ _ e => e
  | .bare _ => 0

/-- The descriptor of which an engine is told. -/
def Notice.fd? : Notice → Option Fd
  | .process fd _ => some fd
  | .waitError fd _ => fd
  | .heartbeat => none

/-- What there is of one descriptor. Watchers, registrations and waits have no names in it. -/
structure Scene where
  /-- The directions of the watcher, if there is one. -/
  sides : Option (Sides Side)
  /-- Direction and engine of each wait, in the order of arming. -/
  waits : List (Direction × Nat)
  arms : Sides Nat
  /-- The number of registrations. -/
  live : Nat
  /-- The next registration fails. -/
  refused : Bool

namespace Scene

def modifySide (d : Direction) (f : Side → Side) (S : Scene) : Scene :=
  { S with sides := S.sides.map (·.modify d f) }

def arm (d : Direction) (e : Nat) (S : Scene) : Scene :=
  { S with waits := S.waits ++ [(d, e)], arms := S.arms.modify d (· + 1) }

def armSide (d : Direction) (e : Nat) (S : Scene) : Scene :=
  if S.sides.all fun s => (s.get d).pending then S
  else (S.modifySide d ({ · with pending := true })).arm d e

def setSide (e : Nat) (d : Direction) (wanted : Bool) (S : Scene) : Scene :=
  let S := S.modifySide d ({ · with wanted := wanted })
  if wanted then S.armSide d e else S

def setInterest (e : Nat) (ev : Events) (S : Scene) : Scene :=
  (S.setSide e .read (ev.wants .read)).setSide e .write (ev.wants .write)

/-- The descriptor is watched from now on. -/
def watch (S : Scene) : Scene := { S with sides := some (.both {}), live := S.live + 1 }

/-- The descriptor is not watched any longer. -/
def leave (S : Scene) : Scene := { S with sides := none, waits := [], live := S.live - 1 }

/-- Takes out the oldest wait for a direction, and answers its engine. -/
def take (d : Direction) (S : Scene) : Option (Nat × Scene) :=
  (S.waits.find? (·.1 == d)).map fun w => (w.2, { S with waits := S.waits.eraseP (·.1 == d) })

/-- A wait of the watcher completes, and its engine is told if it is alive. -/
def tell (fd : Fd) (d : Direction) (e : Nat) (alive : Bool) (o : Outcome) (S : Scene) :
    Scene × Option Notice :=
  let idle := S.modifySide d ({ · with pending := false })
  match Verdict.of o with
  | .canceled => (idle, none)
  | .failed err => (idle, if alive then some (.waitError (some fd) err) else none)
  | .proceed =>
    if alive && S.sides.any fun s => (s.get d).wanted then
      (idle.armSide d e, some (.process fd (Events.ofDirection d)))
    else (idle, none)

end Scene

namespace Hub

/-- The scene of a descriptor whose watcher is known. -/
def scene (fd : Fd) (k : Option Nat) (hub : Hub Manual) : Scene where
  sides := (k.bind (hub.watchers[·]?)).map (·.sides)
  waits := (hub.reactor.ready.filter (·.registration.fd = fd)).map fun x =>
    (x.direction, x.wait.callback.engine)
  arms := (hub.reactor.arms.get? fd).getD (.both 0)
  live := (hub.reactor.live.get? fd).getD 0
  refused := hub.reactor.refused.contains fd

/-- The descriptor of a watcher. -/
def fdOf? (hub : Hub Manual) (i : Nat) : Option Fd := hub.roster.watched[i]?.map (·.1.fd)

variable {hub hub' : Hub Manual} {fd : Fd} {k : Option Nat} {i : Nat} {x : Watcher}

theorem fdOf?_of_getElem? (hx : hub.watchers[i]? = some x) : hub.fdOf? i = some x.fd := by
  unfold fdOf?
  rw [(roster_of_getElem? hx).1]
  rfl

theorem exists_of_fdOf? (h : hub.fdOf? i = some fd) :
    ∃ x, hub.watchers[i]? = some x ∧ x.fd = fd := by
  cases hx : hub.watchers[i]? with
  | none => simp [fdOf?, roster, hx] at h
  | some x =>
    rw [fdOf?_of_getElem? hx, Option.some.injEq] at h
    exact ⟨x, rfl, h⟩

theorem fdOf?_congr (h : hub'.roster = hub.roster) (i : Nat) : hub'.fdOf? i = hub.fdOf? i := by
  unfold fdOf?
  rw [h]

section Front

/-- All that scenes depend on. -/
def front (hub : Hub Manual) :
    List Watcher × List ReadyWait × Table (Sides Nat) × Table Nat × List Fd :=
  (hub.watchers, hub.reactor.ready, hub.reactor.arms, hub.reactor.live, hub.reactor.refused)

theorem scene_of_front (h : hub'.front = hub.front) (fd : Fd) (k : Option Nat) :
    hub'.scene fd k = hub.scene fd k := by
  simp only [front, Prod.mk.injEq] at h
  obtain ⟨hwatchers, hready, harms, hlive, hrefused⟩ := h
  unfold scene
  rw [hwatchers, hready, harms, hlive, hrefused]

theorem front_armDeadline (hub : Hub Manual) (t deadline e : Nat) :
    (hub.armDeadline t deadline e).front = hub.front := by
  unfold armDeadline
  split <;> rfl

theorem front_setHeartbeat (hub : Hub Manual) (t e : Nat) (interval : Interval) :
    (hub.setHeartbeat t e interval).front = hub.front := by
  unfold setHeartbeat
  split
  · rfl
  · rename_i x _
    exact front_armDeadline ((hub.cancelTimer x.timer).modifySchedule t _) t _ e

theorem front_stopHeartbeat (hub : Hub Manual) (t : Nat) :
    (hub.stopHeartbeat t).front = hub.front := by
  unfold stopHeartbeat
  split <;> rfl

theorem front_nextBeat (hub : Hub Manual) (t generation e : Nat) :
    (hub.nextBeat t generation e).front = hub.front := by
  unfold nextBeat
  split
  · rfl
  · split
    · split
      · exact front_armDeadline (hub.modifySchedule t _) t _ e
      · rfl
    · rfl

theorem front_reapHeartbeat (hub : Hub Manual) (t : Nat) :
    (hub.reapHeartbeat t).front = hub.front := by
  unfold reapHeartbeat
  split
  · rfl
  · split <;> rfl

theorem front_dropHeartbeat (hub : Hub Manual) (t : Nat) :
    (hub.dropHeartbeat t).front = hub.front :=
  front_reapHeartbeat (hub.modifyHeartbeat t _) t

end Front

section Watchers

theorem scene_modifySide (hub : Hub Manual) (fd : Fd) (k : Option Nat) (i : Nat) (d : Direction)
    (f : Side → Side) : (hub.modifySide i d f).scene fd k =
      if k = some i then (hub.scene fd k).modifySide d f else hub.scene fd k := by
  cases k with
  | none => rfl
  | some j =>
    by_cases hij : i = j
    · subst hij
      rw [if_pos rfl]
      simp only [scene, modifySide, modifyWatcher, Option.bind_some, List.getElem?_modify_eq,
        Scene.modifySide, Option.map_map, Option.map_eq_map]
      rfl
    · have hne : ¬some j = some i := fun h => hij (Option.some.inj h).symm
      rw [if_neg hne]
      simp only [scene, modifySide, modifyWatcher, Option.bind_some,
        List.getElem?_modify_ne _ _ hij]

theorem scene_modifyPresence (hub : Hub Manual) (fd : Fd) (k : Option Nat) (i : Nat)
    (f : Presence → Presence) :
    (hub.modifyWatcher i fun x => { x with presence := f x.presence }).scene fd k =
      hub.scene fd k := by
  cases k with
  | none => rfl
  | some j =>
    simp only [scene, modifyWatcher, Option.bind_some, List.getElem?_modify]
    cases hub.watchers[j]? with
    | none => rfl
    | some x => split <;> rfl

theorem scene_arm (hub : Hub Manual) (fd : Fd) (k : Option Nat) (r : Registration) (d : Direction)
    (c : Callback) : ({ hub with reactor := hub.reactor.arm r d c } : Hub Manual).scene fd k =
      if r.fd = fd then (hub.scene fd k).arm d c.engine else hub.scene fd k := by
  simp only [scene, Scene.arm, Manual.arm, List.filter_append, List.map_append]
  by_cases hfd : r.fd = fd
  · subst hfd
    simp
  · simp [hfd, Table.get?_insert, Ne.symm hfd]

theorem scene_armSide (h : k = some i ↔ hub.fdOf? i = some fd) (d : Direction) (e : Nat) :
    (hub.armSide i d e).scene fd k =
      if k = some i then (hub.scene fd k).armSide d e else hub.scene fd k := by
  cases hx : hub.watchers[i]? with
  | none =>
    have hnone : hub.fdOf? i = none := by
      simp only [fdOf?, roster, List.getElem?_map, hx, Option.map_none]
    have hk : k ≠ some i := by
      rw [Ne, h, hnone]
      exact (Option.some_ne_none fd).symm
    rw [if_neg hk]
    simp only [armSide, hx]
  | some x =>
    rw [fdOf?_of_getElem? hx, Option.some.injEq] at h
    have harm := scene_arm (hub.modifySide i d ({ · with pending := true })) fd k x.registration d
      (.ready i d e)
    by_cases hk : k = some i
    · have hfd : x.registration.fd = fd := h.mp hk
      rw [if_pos hfd, scene_modifySide, if_pos hk] at harm
      rw [if_pos hk]
      have hsides : (hub.scene fd k).sides = some x.sides := by
        simp only [scene, hk, Option.bind_some, hx, Option.map_some]
      simp only [armSide, hx, Scene.armSide, hsides, Option.all_some]
      split
      · rfl
      · exact harm
    · have hfd : ¬x.registration.fd = fd := fun heq => hk (h.mpr heq)
      rw [if_neg hfd, scene_modifySide, if_neg hk] at harm
      rw [if_neg hk]
      simp only [armSide, hx]
      split
      · rfl
      · exact harm

theorem scene_setSide (h : k = some i ↔ hub.fdOf? i = some fd) (e : Nat) (d : Direction)
    (wanted : Bool) : (hub.setSide i e d wanted).scene fd k =
      if k = some i then (hub.scene fd k).setSide e d wanted else hub.scene fd k := by
  let hub' := hub.modifySide i d ({ · with wanted := wanted })
  have hside := scene_modifySide hub fd k i d ({ · with wanted := wanted })
  have h' : k = some i ↔ hub'.fdOf? i = some fd := by
    rwa [fdOf?_congr (roster_modifySide hub i d _)]
  unfold setSide Scene.setSide
  cases wanted with
  | false => exact hside
  | true =>
    refine (scene_armSide h' d e).trans ?_
    rw [hside]
    split <;> rfl

theorem scene_setInterest (h : k = some i ↔ hub.fdOf? i = some fd) (e : Nat) (ev : Events) :
    (hub.setInterest i e ev).scene fd k =
      if k = some i then (hub.scene fd k).setInterest e ev else hub.scene fd k := by
  have h' : k = some i ↔ (hub.setSide i e .read (ev.wants .read)).fdOf? i = some fd := by
    rwa [fdOf?_congr (roster_setSide hub i e .read _)]
  refine (scene_setSide h' e .write _).trans ?_
  rw [scene_setSide h]
  split <;> rfl

theorem reapWatcher_of_alive (hx : hub.watchers[i]? = some x) (ha : x.presence.alive = true) :
    hub.reapWatcher i = hub := by
  simp only [reapWatcher, hx, ha, if_true]

theorem scene_retire (hub : Hub Manual) (fd : Fd) (hk : k ≠ some i) :
    (hub.retire i).scene fd k = hub.scene fd k := by
  simp only [retire, Direction.all, List.foldl_cons, List.foldl_nil, scene_modifySide, if_neg hk]

/-- A registration ends whose waits are all those of its descriptor. -/
theorem scene_release {r : Registration} (hub : Hub Manual) (fd : Fd) (k : Option Nat)
    (hown : ∀ y ∈ hub.reactor.ready, y.registration.id = r.id ↔ y.registration.fd = r.fd) :
    ({ hub with reactor := hub.reactor.release r } : Hub Manual).scene fd k =
      if r.fd = fd then
        { hub.scene fd k with waits := [], live := (hub.scene fd k).live - 1 }
      else hub.scene fd k := by
  have hwaits : (hub.reactor.ready.filter (·.registration.id ≠ r.id)).filter
      (·.registration.fd = fd) =
        if r.fd = fd then [] else hub.reactor.ready.filter (·.registration.fd = fd) := by
    rw [List.filter_filter]
    split
    · rename_i hfd
      refine List.filter_eq_nil_iff.mpr fun y hy hboth => ?_
      rw [Bool.and_eq_true, decide_eq_true_eq, decide_eq_true_eq] at hboth
      exact hboth.2 ((hown y hy).mpr (hboth.1.trans hfd.symm))
    · rename_i hfd
      refine List.filter_congr fun y hy => ?_
      rw [Bool.and_eq_left_iff_imp, decide_eq_true_eq, decide_eq_true_eq]
      exact fun hy' hid => hfd (((hown y hy).mp hid).symm.trans hy')
  simp only [scene, Manual.release, hwaits, Manual.get?_forget]
  by_cases hfd : r.fd = fd
  · simp [hfd]
  · simp [hfd, Ne.symm hfd]

/-- A watcher is dropped that nothing uses, and its waits are all those of its descriptor. -/
theorem scene_leave (hx : hub.watchers[i]? = some x) (hu : x.presence.uses = 0)
    (hown : ∀ y ∈ hub.reactor.ready,
      y.registration.id = x.registration.id ↔ y.registration.fd = x.fd)
    (hk : k = some i ↔ x.fd = fd) :
    ((hub.retire i).dropWatcher i).scene fd (if x.fd = fd then none else k) =
      if x.fd = fd then (hub.scene fd k).leave else hub.scene fd k := by
  let k' := if x.fd = fd then none else k
  let hub' := (hub.retire i).modifyWatcher i fun x => { x with presence := x.presence.disown }
  have hx' : ∃ y, hub'.watchers[i]? = some y ∧ y.registration = x.registration ∧
      y.presence = x.presence.disown := by
    simp [hub', retire, Direction.all, modifySide, modifyWatcher, hx]
  obtain ⟨y, hy, hregistration, hpresence⟩ := hx'
  have hdead : y.presence.alive = false := by
    rw [hpresence, Presence.alive_disown]
    simp [Presence.inUse, hu]
  have hdrop : (hub.retire i).dropWatcher i =
      { hub' with reactor := hub.reactor.release x.registration } := by
    change hub'.reapWatcher i = _
    simp only [reapWatcher, hy, hdead, Bool.false_eq_true, if_false, hregistration]
    rfl
  have hk' : k' ≠ some i := by
    by_cases hfd : x.fd = fd
    · simp only [k', if_pos hfd]
      exact (Option.some_ne_none i).symm
    · simp only [k', if_neg hfd]
      exact fun h => hfd (hk.mp h)
  have hscene : hub'.scene fd k' = hub.scene fd k' :=
    (scene_modifyPresence (hub.retire i) fd k' i _).trans (scene_retire hub fd hk')
  change Hub.scene fd k' _ = _
  rw [hdrop]
  refine (scene_release hub' fd k' hown).trans ?_
  rw [hscene]
  change (if x.fd = fd then _ else _) = _
  by_cases hfd : x.fd = fd
  · simp only [if_pos hfd, k']
    rfl
  · simp only [if_neg hfd, k']

theorem scene_refuse (hub : Hub Manual) (fd fd' : Fd) (k : Option Nat) :
    ({ hub with reactor := hub.reactor.refuse fd' } : Hub Manual).scene fd k =
      if fd' = fd then { hub.scene fd k with refused := true } else hub.scene fd k := by
  simp only [scene, Manual.refuse, List.contains_cons]
  by_cases hfd : fd' = fd
  · simp [hfd]
  · simp [hfd, Ne.symm hfd]

/-- A registration that fails is not refused a second time. -/
theorem scene_refused (hub : Hub Manual) (fd fd' : Fd) (k : Option Nat) :
    ({ hub with reactor := { hub.reactor with
        refused := hub.reactor.refused.filter (· ≠ fd') } } : Hub Manual).scene fd k =
      if fd' = fd then { hub.scene fd k with refused := false } else hub.scene fd k := by
  have hmem : (hub.reactor.refused.filter (· ≠ fd')).contains fd =
      if fd' = fd then false else hub.reactor.refused.contains fd := by
    rw [Bool.eq_iff_iff, List.contains_iff_mem, List.mem_filter]
    split
    · rename_i hfd
      simp [hfd]
    · rename_i hfd
      simp [Ne.symm hfd]
  simp only [scene, hmem]
  split <;> rfl

/-- A descriptor is registered that is not refused. -/
theorem newWatcher_of_not_refused (hub : Hub Manual) (s : Nat) (h : fd ∉ hub.reactor.refused) :
    ∃ hub', hub.newWatcher s fd = (.ok hub.watchers.length, hub') ∧
      hub'.fdOf? hub.watchers.length = some fd ∧ hub'.engines = hub.engines := by
  simp only [newWatcher, Manual.reactor_register, Manual.register, h, if_false]
  refine ⟨_, rfl, ?_, rfl⟩
  exact fdOf?_of_getElem? (x := ⟨⟨hub.reactor.nextId, fd⟩, s, .both {}, {}⟩)
    (List.getElem?_concat_length ..)

/-- A watcher is made. -/
theorem scene_newWatcher {s : Nat} {fd' : Fd} (hn : hub.newWatcher s fd' = (.ok i, hub'))
    (hk : ∀ j ∈ k, j < hub.watchers.length) :
    hub'.scene fd (if fd' = fd then some i else k) =
      if fd' = fd then (hub.scene fd k).watch else hub.scene fd k := by
  obtain ⟨r, m, hr, rfl, rfl⟩ := newWatcher_ok hn
  obtain ⟨rfl, rfl⟩ := Manual.register_ok hr
  by_cases hfd : fd' = fd
  · simp [hfd, scene, Scene.watch]
  · have hsides : k.bind ((hub.watchers ++ [⟨⟨hub.reactor.nextId, fd'⟩, s, .both {}, {}⟩])[·]?) =
        k.bind (hub.watchers[·]?) := by
      cases k with
      | none => rfl
      | some j => exact List.getElem?_append_left (hk j rfl)
    simp only [if_neg hfd, scene, hsides, Table.get?_insert, if_neg (Ne.symm hfd)]

end Watchers

section Take

theorem filter_eraseP {α : Type} {p q : α → Bool} (l : List α) :
    (l.eraseP fun a => p a && q a).filter p = (l.filter p).eraseP q := by
  induction l with
  | nil => rfl
  | cons a l ih =>
    rw [List.eraseP_cons, List.filter_cons]
    cases hp : p a with
    | false => simp [hp, ih]
    | true => cases hq : q a <;> simp [hp, hq, ih]

theorem filter_eraseP_of_disjoint {α : Type} {p q : α → Bool} (h : ∀ a, q a = true → p a = false)
    (l : List α) : (l.eraseP q).filter p = l.filter p := by
  induction l with
  | nil => rfl
  | cons a l ih =>
    rw [List.eraseP_cons, List.filter_cons]
    cases hq : q a with
    | false => simp [List.filter_cons, ih]
    | true => simp [h a hq]

variable {d : Direction} {wait : Wait} {m : Manual}

theorem takeReady_eq_none (h : hub.reactor.takeReady fd d = none) (k : Option Nat) :
    (hub.scene fd k).take d = none := by
  unfold Manual.takeReady at h
  rw [Option.map_eq_none_iff, List.find?_eq_none] at h
  unfold Scene.take scene
  rw [Option.map_eq_none_iff, List.find?_eq_none]
  intro w hw
  obtain ⟨x, hx, rfl⟩ := List.mem_map.mp hw
  obtain ⟨hx, hfd⟩ := List.mem_filter.mp hx
  intro hd
  exact h x hx (Bool.and_eq_true_iff.mpr ⟨beq_iff_eq.mpr (of_decide_eq_true hfd), hd⟩)

/-- The oldest wait of a scene is the oldest wait of its descriptor. -/
theorem take_scene (h : hub.reactor.takeReady fd d = some (wait, m)) (k : Option Nat) :
    (hub.scene fd k).take d =
      some (wait.callback.engine, ({ hub with reactor := m } : Hub Manual).scene fd k) := by
  obtain ⟨x, hx, heq⟩ := Option.map_eq_some_iff.mp h
  cases heq
  have hmine : (fun y : ReadyWait => y.registration.fd == fd && y.direction == d) =
      fun y => decide (y.registration.fd = fd) && y.direction == d := rfl
  rw [hmine] at hx
  have hfind : (hub.reactor.ready.filter (·.registration.fd = fd)).find? (·.direction == d) =
      some x := by
    simpa only [List.find?_filter, Bool.decide_and, Bool.decide_eq_true] using hx
  have herase := filter_eraseP (p := fun y : ReadyWait => decide (y.registration.fd = fd))
    (q := fun y => y.direction == d) hub.reactor.ready
  unfold Scene.take scene
  rw [List.find?_map]
  simp only [Function.comp_def, hfind, Option.map_some, Option.some.injEq, Prod.mk.injEq, true_and,
    Scene.mk.injEq, and_true]
  rw [List.eraseP_map]
  exact congrArg (List.map _) herase.symm

theorem scene_takeReady_of_ne {fd' : Fd} (h : hub.reactor.takeReady fd' d = some (wait, m))
    (hfd : fd' ≠ fd) (k : Option Nat) :
    ({ hub with reactor := m } : Hub Manual).scene fd k = hub.scene fd k := by
  obtain ⟨x, -, heq⟩ := Option.map_eq_some_iff.mp h
  cases heq
  have herase := filter_eraseP_of_disjoint
    (p := fun y : ReadyWait => decide (y.registration.fd = fd))
    (q := fun y => y.registration.fd == fd' && y.direction == d) ?_ hub.reactor.ready
  · unfold scene
    dsimp only
    rw [herase]
  · intro y hy
    have hy' : y.registration.fd = fd' := beq_iff_eq.mp (Bool.and_eq_true_iff.mp hy).1
    simp [hy', hfd]

end Take

section Through

/-- A call, if its engine is alive, in which nothing else is done. -/
def serve (call : Call) (hub : Hub Manual) : Hub Manual × Option Call :=
  match hub.startCall call with
  | (hub, none) => (hub, none)
  | (hub, some call) => (hub.finish call, some call)

/-- A completion with a call in which nothing else is done. -/
def through (c : Callback) (o : Outcome) (hub : Hub Manual) : Hub Manual × Option Call :=
  match hub.begin c o with
  | (hub, none) => (hub, none)
  | (hub, some call) => (hub.finish call, some call)

theorem scene_finish {call : Call} {d : Direction} (hx : hub.watchers[i]? = some x)
    (hkept : x.presence.kept = true) (ho : call.owner = .watcher i d) :
    (hub.finish call).scene fd k = (hub.resume call).scene fd k := by
  obtain ⟨y, hy, -, hpresence⟩ := getElem?_of_resume hx call
  let hub' := ((hub.resume call).modifyEngine call.engine .release).leaveStrand call.strand
  let hub'' := hub'.modifyWatcher i fun x => { x with presence := x.presence.release }
  have hy'' : hub''.watchers[i]? = some { y with presence := y.presence.release } := by
    change (hub'.watchers.modify i _)[i]? = _
    rw [List.getElem?_modify_eq, show hub'.watchers[i]? = some y from hy]
    rfl
  have halive : y.presence.release.alive = true := by
    simp [hpresence, Presence.alive, Presence.release, hkept]
  have hfinish : hub.finish call = hub'' := by
    change hub'.releaseOwner call.owner = hub''
    rw [ho]
    exact reapWatcher_of_alive hy'' halive
  rw [hfinish]
  exact scene_modifyPresence hub' fd k i _

/-- A call of a watcher begins and ends. -/
theorem scene_call (call : Call) {d : Direction} (hx : hub.watchers[i]? = some x)
    (hkept : x.presence.kept = true) (ho : call.owner = .watcher i d)
    (h : k = some i ↔ x.fd = fd) :
    ((((hub.acquireOwner call.owner).enterStrand call.strand).modifyEngine call.engine
        .acquire).finish call).scene fd k =
      match call.notice with
      | .process .. =>
        if k = some i ∧ (x.sides.get d).wanted = true then (hub.scene fd k).armSide d call.engine
        else hub.scene fd k
      | _ => hub.scene fd k := by
  let hub' := ((hub.acquireOwner call.owner).enterStrand call.strand).modifyEngine call.engine
    .acquire
  have hx' : hub'.watchers[i]? = some { x with presence := x.presence.acquire } := by
    simp only [hub', ho]
    change (hub.watchers.modify i _)[i]? = _
    rw [List.getElem?_modify_eq, hx]
    rfl
  have hscene : hub'.scene fd k = hub.scene fd k := by
    simp only [hub', ho]
    exact scene_modifyPresence hub fd k i .acquire
  have hfd : k = some i ↔ hub'.fdOf? i = some fd := by
    rw [fdOf?_of_getElem? hx', Option.some.injEq]
    exact h
  rw [scene_finish hx' hkept ho]
  unfold resume
  rw [ho]
  split
  · rename_i w d' fd' ev heq hnotice
    cases heq
    rw [hnotice]
    have hwants : hub'.wants i d = (x.sides.get d).wanted := by
      simp only [wants, hx', Option.any_some]
    rw [hwants]
    cases hwanted : (x.sides.get d).wanted with
    | true =>
      rw [if_pos rfl, scene_armSide hfd, hscene]
      simp only [and_true]
    | false => simpa using hscene
  · rename_i heq _
    cases heq
  · rename_i hnotice _
    cases hn : call.notice with
    | process fd' ev => exact absurd hn (hnotice i d fd' ev rfl)
    | heartbeat => exact hscene
    | waitError fd' err => exact hscene

/-- A call of a watcher that wants it, if the engine is alive. -/
theorem scene_serve (call : Call) {d : Direction} (hx : hub.watchers[i]? = some x)
    (hkept : x.presence.kept = true) (ho : call.owner = .watcher i d)
    (h : k = some i ↔ x.fd = fd)
    (hwanted : ∀ fd ev, call.notice = .process fd ev → (x.sides.get d).wanted = true) :
    (hub.serve call).2 = (if hub.engineAlive call.engine then some call else none) ∧
    (hub.serve call).1.scene fd k =
      match call.notice with
      | .process .. => if k = some i ∧ hub.engineAlive call.engine = true then
          (hub.scene fd k).armSide d call.engine else hub.scene fd k
      | _ => hub.scene fd k := by
  have hcall := scene_call call hx hkept ho h
  unfold serve startCall
  cases ha : hub.engineAlive call.engine with
  | false =>
    refine ⟨rfl, ?_⟩
    simp only [Bool.false_eq_true, and_false, if_false]
    split <;> rfl
  | true =>
    refine ⟨rfl, hcall.trans ?_⟩
    cases hn : call.notice with
    | process fd' ev => simp only [hwanted fd' ev hn]
    | heartbeat => rfl
    | waitError fd' err => rfl

/-- What the completion of a wait of a watcher does. -/
theorem through_ready {d : Direction} {e : Nat} {o : Outcome} (hx : hub.watchers[i]? = some x)
    (ha : x.presence.alive = true) (hs : hub.strandAlive x.strand = true) :
    hub.through (.ready i d e) o =
      let idle := hub.modifySide i d ({ · with pending := false })
      match Verdict.of o with
      | .proceed => if (x.sides.get d).wanted then
          idle.serve ⟨.watcher i d, x.strand, e, .process x.fd (Events.ofDirection d)⟩
        else (idle, none)
      | .canceled => (idle, none)
      | .failed err => idle.serve ⟨.watcher i d, x.strand, e, .waitError (some x.fd) err⟩ := by
  have hs' : (hub.modifySide i d ({ · with pending := false })).strandAlive x.strand = true := hs
  unfold through serve
  simp only [begin, beginReady, hx, ha, hs', if_true]
  cases Verdict.of o with
  | canceled => rfl
  | failed err => rfl
  | proceed => cases (x.sides.get d).wanted <;> rfl

/-- A wait of a watcher that is kept completes. -/
theorem scene_through {d : Direction} {e : Nat} {o : Outcome} (hx : hub.watchers[i]? = some x)
    (hkept : x.presence.kept = true) (hs : hub.strandAlive x.strand = true)
    (h : k = some i ↔ x.fd = fd) :
    (hub.through (.ready i d e) o).1.scene fd k =
      (if k = some i then ((hub.scene fd k).tell fd d e (hub.engineAlive e) o).1
      else hub.scene fd k) ∧
    (∀ call ∈ (hub.through (.ready i d e) o).2, call.engine = e ∧ call.notice.fd? = some x.fd) ∧
    (k = some i → (hub.through (.ready i d e) o).2.map (·.notice) =
      ((hub.scene fd k).tell fd d e (hub.engineAlive e) o).2) := by
  let idle := hub.modifySide i d ({ · with pending := false })
  have hx' : idle.watchers[i]? =
      some { x with sides := x.sides.modify d ({ · with pending := false }) } := by
    change (hub.watchers.modify i _)[i]? = _
    rw [List.getElem?_modify_eq, hx]
    rfl
  have hwanted : ((x.sides.modify d ({ · with pending := false })).get d).wanted =
      (x.sides.get d).wanted := by
    unfold Sides.modify
    rw [Sides.get_set_self]
  have hscene : idle.scene fd k = if k = some i then
      (hub.scene fd k).modifySide d ({ · with pending := false }) else hub.scene fd k :=
    scene_modifySide hub fd k i d _
  have hwants (hk : k = some i) : (hub.scene fd k).sides.any (fun s => (s.get d).wanted) =
      (x.sides.get d).wanted := by
    simp only [scene, hk, Option.bind_some, hx, Option.map_some, Option.any_some]
  have halive : idle.engineAlive e = hub.engineAlive e := rfl
  have hlasts : x.presence.alive = true := by simp [Presence.alive, hkept]
  rw [through_ready hx hlasts hs]
  unfold Scene.tell
  cases Verdict.of o with
  | canceled => exact ⟨hscene, fun _ h => absurd h (Option.not_mem_none _), fun _ => rfl⟩
  | failed err =>
    obtain ⟨hcall, hserve⟩ := scene_serve
      ⟨.watcher i d, x.strand, e, .waitError (some x.fd) err⟩ hx' hkept rfl h
      fun _ _ hn => by cases hn
    dsimp only at hcall hserve ⊢
    rw [hcall, hserve, halive]
    refine ⟨hscene, ?_, fun hk => ?_⟩
    · cases hub.engineAlive e <;> simp [Notice.fd?]
    · cases hub.engineAlive e <;> simp [h.mp hk]
  | proceed =>
    dsimp only
    cases hw : (x.sides.get d).wanted with
    | false =>
      refine ⟨hscene.trans ?_, fun _ h => absurd h (Option.not_mem_none _), fun hk => ?_⟩
      · split
        · rename_i hk
          simp [hwants hk, hw]
        · rfl
      · simp [hwants hk, hw]
    | true =>
      obtain ⟨hcall, hserve⟩ := scene_serve
        ⟨.watcher i d, x.strand, e, .process x.fd (Events.ofDirection d)⟩ hx' hkept rfl h
        fun _ _ _ => hwanted.trans hw
      dsimp only at hcall hserve
      rw [if_pos rfl, hcall, hserve, hscene, halive]
      by_cases hk : k = some i
      · cases hub.engineAlive e <;> simp [hk, hk ▸ hwants hk, hw, h.mp hk, Notice.fd?]
      · cases hub.engineAlive e <;> simp [hk, Notice.fd?]

/-- A wait of a watcher that does not last any longer. -/
theorem through_of_dead {d : Direction} (hx : hub.watchers[i]? = some x)
    (ha : x.presence.alive = false) (e : Nat) (o : Outcome) :
    hub.through (.ready i d e) o = (hub, none) := by
  unfold through
  simp only [begin, beginReady, hx, ha, Bool.false_eq_true, if_false]

theorem engines_serve (hub : Hub Manual) (call : Call) :
    (hub.serve call).1.engines = hub.engines := by
  unfold serve startCall
  split
  · rename_i heq
    split at heq <;> cases heq
    rfl
  · rename_i heq
    split at heq <;> cases heq
    rw [engines_finish]
    change ((hub.acquireOwner call.owner).engines.modify call.engine _).modify call.engine _ = _
    rw [engines_acquireOwner]
    refine List.ext_getElem? fun e => ?_
    simp only [List.getElem?_modify]
    cases hub.engines[e]? with
    | none => rfl
    | some p => split <;> simp

theorem through_eq {c : Callback} {o : Outcome} (h : hub.begin c o = (hub', none) ∨
    ∃ call, hub.begin c o = hub'.startCall call) :
    hub.through c o = (hub', none) ∨ ∃ call, hub.through c o = hub'.serve call := by
  unfold through serve
  rcases h with h | ⟨call, h⟩
  · exact Or.inl (by rw [h])
  · exact Or.inr ⟨call, by rw [h]⟩

theorem engines_through (hub : Hub Manual) (c : Callback) (o : Outcome) :
    (hub.through c o).1.engines = hub.engines := by
  have hbegin : ∃ hub', hub'.engines = hub.engines ∧ (hub.begin c o = (hub', none) ∨
      ∃ call, hub.begin c o = hub'.startCall call) := by
    cases c with
    | bare tag => exact ⟨hub, rfl, Or.inl rfl⟩
    | ready i d e =>
      simp only [begin, beginReady]
      repeat' split
      all_goals first
        | exact ⟨hub, rfl, Or.inl rfl⟩
        | exact ⟨hub.modifySide i d _, rfl, Or.inl rfl⟩
        | exact ⟨hub.modifySide i d _, rfl, Or.inr ⟨_, rfl⟩⟩
    | beat t generation e =>
      simp only [begin, beginBeat]
      repeat' split
      all_goals first
        | exact ⟨hub, rfl, Or.inl rfl⟩
        | exact ⟨hub, rfl, Or.inr ⟨_, rfl⟩⟩
        | exact ⟨hub.modifySchedule t _, rfl, Or.inr ⟨_, rfl⟩⟩
  obtain ⟨hub', hengines, hcases⟩ := hbegin
  rcases through_eq hcases with h | ⟨call, h⟩
  · rw [h, hengines]
  · rw [h, engines_serve, hengines]

theorem serve_beat (hub : Hub Manual) (call : Call) {t generation : Nat}
    (ho : call.owner = .heartbeat t generation) :
    (hub.serve call).1.front = hub.front ∧ ∀ call' ∈ (hub.serve call).2, call' = call := by
  unfold serve startCall
  cases hub.engineAlive call.engine with
  | false => exact ⟨rfl, fun _ h => absurd h (Option.not_mem_none _)⟩
  | true =>
    refine ⟨?_, fun call' h => (Option.some.inj h).symm⟩
    simp only [if_true]
    unfold finish
    rw [ho]
    refine (front_reapHeartbeat _ t).trans ?_
    change (Hub.resume call _).front = _
    unfold resume
    rw [ho]
    split
    · rename_i heq _
      cases heq
    · exact front_nextBeat _ _ _ _
    · rfl

/-- What the completion of a wait of a heartbeat does. -/
theorem through_beat (hub : Hub Manual) (t generation e : Nat) (o : Outcome) :
    (hub.through (.beat t generation e) o).1.front = hub.front ∧
      ∀ call ∈ (hub.through (.beat t generation e) o).2, call.notice.fd? = none := by
  have hcall (hub' : Hub Manual) (notice : Notice) (s : Nat) (hn : notice.fd? = none)
      (hfront : hub'.front = hub.front)
      (hbegin : hub.begin (.beat t generation e) o =
        hub'.startCall ⟨.heartbeat t generation, s, e, notice⟩) :
      (hub.through (.beat t generation e) o).1.front = hub.front ∧
        ∀ call ∈ (hub.through (.beat t generation e) o).2, call.notice.fd? = none := by
    have hthrough : hub.through (.beat t generation e) o =
        hub'.serve ⟨.heartbeat t generation, s, e, notice⟩ := by
      unfold through serve
      rw [hbegin]
    obtain ⟨hserve, hsame⟩ := serve_beat hub' ⟨.heartbeat t generation, s, e, notice⟩ rfl
    rw [hthrough]
    refine ⟨hserve.trans hfront, fun call hmem => ?_⟩
    rw [hsame call hmem]
    exact hn
  have hnone (hbegin : hub.begin (.beat t generation e) o = (hub, none)) :
      (hub.through (.beat t generation e) o).1.front = hub.front ∧
        ∀ call ∈ (hub.through (.beat t generation e) o).2, call.notice.fd? = none := by
    unfold through
    rw [hbegin]
    exact ⟨rfl, fun _ h => absurd h (Option.not_mem_none _)⟩
  cases hx : hub.heartbeats[t]? with
  | none => exact hnone (by simp only [begin, beginBeat, hx])
  | some x =>
    by_cases hlasts : (x.presence.alive && hub.strandAlive x.strand) = true
    · by_cases hg : x.schedule.generation = generation
      · cases hv : Verdict.of o with
        | canceled => exact hnone (by simp only [begin, beginBeat, hx, hlasts, hv, if_true])
        | proceed =>
          exact hcall hub .heartbeat x.strand rfl rfl
            (by simp only [begin, beginBeat, hx, hlasts, hv, hg, if_true])
        | failed err =>
          exact hcall (hub.modifySchedule t ({ · with deadline := none })) (.waitError none err)
            x.strand rfl rfl (by simp only [begin, beginBeat, hx, hlasts, hv, hg, if_true])
      · refine hnone ?_
        simp only [begin, beginBeat, hx, hlasts, hg, if_true, if_false]
        cases Verdict.of o <;> rfl
    · refine hnone ?_
      simp only [begin, beginBeat, hx]
      rw [if_neg hlasts]

end Through

end Hub
end Wakeup
