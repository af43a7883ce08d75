import Wakeup.Proofs.Conservation
import Wakeup.Proofs.Lasting
import Wakeup.Proofs.Resuming

/-! Waits for deadlines: which of them comes first, and what its completion does. -/
namespace Wakeup

/-- The order in which waits complete: that of their deadlines, and for one deadline that of
arming. -/
def TimedWait.Before (x y : TimedWait) : Prop :=
  x.deadline < y.deadline ∨ x.deadline = y.deadline ∧ x.wait.ticket < y.wait.ticket

theorem TimedWait.Before.trans {x y z : TimedWait} (h : x.Before y) (h' : y.Before z) :
    x.Before z := by
  unfold Before at *
  omega

namespace Manual
variable {m m' : Manual} {wait : Wait}

theorem takeDue_eq_none (h : m.takeDue = none) : ∀ x ∈ m.timed, m.now < x.deadline := by
  intro x hx
  unfold takeDue at h
  cases hearliest : m.earliest with
  | none =>
    rw [earliest, List.min?_eq_none_iff, List.map_eq_nil_iff] at hearliest
    rw [hearliest] at hx
    exact absurd hx List.not_mem_nil
  | some deadline =>
    obtain ⟨hmem, hle⟩ := List.min?_eq_some_iff.mp hearliest
    have hle' := hle x.deadline (List.mem_map_of_mem hx)
    rw [hearliest, Option.bind_some] at h
    split at h
    · obtain ⟨y, hy, hdeadline⟩ := List.mem_map.mp hmem
      rw [takeTimed, Option.map_eq_none_iff] at h
      exact absurd (beq_iff_eq.mpr hdeadline) (List.find?_eq_none.mp h y hy)
    · omega

/-- The wait that is taken comes before all others. -/
theorem takeDue_some (h : m.takeDue = some (wait, m'))
    (hsorted : m.timed.Pairwise fun x y => x.wait.ticket < y.wait.ticket) :
    ∃ x l l', wait = x.wait ∧ m.timed = l ++ x :: l' ∧ m' = { m with timed := l ++ l' } ∧
      x.deadline ≤ m.now ∧ ∀ y ∈ l ++ l', x.Before y := by
  unfold takeDue at h
  obtain ⟨deadline, hearliest, h⟩ := Option.bind_eq_some_iff.mp h
  obtain ⟨-, hle⟩ := List.min?_eq_some_iff.mp hearliest
  split at h
  · rename_i hdue
    obtain ⟨x, hx, heq⟩ := Option.map_eq_some_iff.mp h
    cases heq
    obtain ⟨hdeadline, l, l', hl, hnot⟩ := List.find?_eq_some_iff_append.mp hx
    have hdeadline' : x.deadline = deadline := beq_iff_eq.mp hdeadline
    have hnot' : ∀ y ∈ l, y.deadline ≠ deadline := by
      intro y hy heq
      have hy' := hnot y hy
      rw [beq_iff_eq.mpr heq] at hy'
      cases hy'
    have herase : m.timed.eraseP (·.deadline == deadline) = l ++ l' := by
      have hhere : (x :: l').eraseP (·.deadline == deadline) = l' :=
        List.eraseP_cons_of_pos hdeadline
      rw [hl, List.eraseP_append_right _ fun y hy => by simpa using hnot' y hy, hhere]
    refine ⟨x, l, l', rfl, hl, by rw [herase], hdeadline' ▸ hdue, fun y hy => ?_⟩
    have hy' : y ∈ m.timed := by
      rw [hl]
      exact List.mem_append.mpr ((List.mem_append.mp hy).imp id (List.mem_cons_of_mem x))
    have hle' := hle y.deadline (List.mem_map_of_mem hy')
    rcases List.mem_append.mp hy with hy | hy
    · have hne := hnot' y hy
      left
      omega
    · -- the others with the deadline were armed later
      rw [hl] at hsorted
      have hticket := (List.pairwise_cons.mp (List.pairwise_append.mp hsorted).2.1).1 y hy
      unfold TimedWait.Before
      omega
  · cases h

end Manual

namespace Hub
variable (hub : Hub Manual)

/-- The call that a wait leads to when its deadline is reached. A heartbeat does not beat if its
strand or the engine is gone. -/
def beatCall? : Callback → Option Call
  | .beat t generation e => hub.heartbeats[t]?.bind fun y =>
    if hub.strandAlive y.strand && hub.engineAlive e then
      some ⟨.heartbeat t generation, y.strand, e, .heartbeat⟩
    else none
  | _ => none

/-- The interval after which a wait is armed again when its deadline is reached. -/
def period? : Callback → Option Interval
  | .beat t _ e => hub.heartbeats[t]?.bind fun y =>
    if hub.strandAlive y.strand && hub.engineAlive e then y.schedule.interval else none
  | _ => none

/-- The wait that follows one that completes. -/
def again? (x : TimedWait) : Option TimedWait :=
  (hub.period? x.wait.callback).map fun interval =>
    ⟨x.timer, x.deadline + interval.length, ⟨hub.reactor.tickets, x.wait.callback⟩⟩

/-- How many waits of its timer complete until none is due, from a given one on. -/
def firings (x : TimedWait) : Nat :=
  if x.deadline ≤ hub.reactor.now then
    match hub.period? x.wait.callback with
    | none => 1
    | some interval => (hub.reactor.now - x.deadline) / interval.length + 1
  else 0

/-- What fits a wait for a deadline: a wait on its own, or one for the deadline of a heartbeat. -/
inductive Awaits (x : TimedWait) : Prop
  | bare {tag : Tag} (hc : x.wait.callback = .bare tag)
  | beat {t e : Nat} {y : Heartbeat} {interval : Interval}
      (hc : x.wait.callback = .beat t y.schedule.generation e) (hy : hub.heartbeats[t]? = some y)
      (htimer : y.timer = x.timer) (hdeadline : y.schedule.deadline = some x.deadline)
      (hinterval : y.schedule.interval = some interval) (hkept : y.presence.kept = true)

/-- The waits for deadlines fit and are listed in the order of arming, and a timer has one at
most. -/
structure Orderly : Prop where
  awaits : ∀ x ∈ hub.reactor.timed, hub.Awaits x
  sorted : hub.reactor.timed.Pairwise fun x y => x.wait.ticket < y.wait.ticket
  fresh : ∀ x ∈ hub.reactor.timed, x.wait.ticket < hub.reactor.tickets
  single : (hub.reactor.timed.map (·.timer)).Nodup

/-- Other waits for deadlines. -/
def withTimed (timed : List TimedWait) : Hub Manual :=
  { hub with reactor := { hub.reactor with timed := timed } }

/-- The first of the due waits completes, and is armed again or not. -/
structure Fire (x : TimedWait) (hub hub' : Hub Manual) : Prop where
  due : x.deadline ≤ hub.reactor.now
  taken : ∃ l l', hub.reactor.timed = l ++ x :: l' ∧
    hub'.reactor.timed = l ++ l' ++ (hub.again? x).toList ∧ ∀ y ∈ l ++ l', x.Before y
  now : hub'.reactor.now = hub.reactor.now
  engines : hub'.engines = hub.engines
  period : hub'.period? = hub.period?
  call : hub'.beatCall? = hub.beatCall?
  orderly : hub'.Orderly

/-- Due waits complete one after the other until none is left. -/
inductive Fires : Hub Manual → List TimedWait → Hub Manual → Prop
  | nil {hub : Hub Manual} (h : ∀ x ∈ hub.reactor.timed, hub.reactor.now < x.deadline) :
      Fires hub [] hub
  | cons {hub hub' hub'' : Hub Manual} {x : TimedWait} {xs : List TimedWait}
      (h : Fire x hub hub') (hs : Fires hub' xs hub'') : Fires hub (x :: xs) hub''

variable {hub} {hub' : Hub Manual} {x y : TimedWait} {fired : List TimedWait}

theorem notice_of_beatCall? {c : Callback} {call : Call} (h : hub.beatCall? c = some call) :
    call.notice = .heartbeat := by
  unfold beatCall? at h
  split at h
  · obtain ⟨y, -, h⟩ := Option.bind_eq_some_iff.mp h
    split at h
    · cases h
      rfl
    · cases h
  · cases h

theorem beat_of_beatCall? {c : Callback} {call : Call} (h : hub.beatCall? c = some call) :
    ∃ t generation e, c = .beat t generation e ∧ call.owner = .heartbeat t generation := by
  unfold beatCall? at h
  split at h
  · obtain ⟨y, -, h⟩ := Option.bind_eq_some_iff.mp h
    split at h
    · cases h
      exact ⟨_, _, _, rfl, rfl⟩
    · cases h
  · cases h

section Step

/-- The deadline of a heartbeat is reached. -/
theorem through_beat_of_kept {t : Nat} {y : Heartbeat} (hy : hub.heartbeats[t]? = some y)
    (hkept : y.presence.kept = true) (e : Nat) :
    hub.through (.beat t y.schedule.generation e) (.ok ()) =
      if hub.strandAlive y.strand && hub.engineAlive e then
        (hub.nextBeat t y.schedule.generation e,
          some ⟨.heartbeat t y.schedule.generation, y.strand, e, .heartbeat⟩)
      else (hub, none) := by
  have halive : y.presence.alive = true := by simp [Presence.alive, hkept]
  have hkeeps : hub.keeps (.heartbeat t y.schedule.generation) = true := by
    simp only [keeps, hy, Option.any_some, hkept]
  have hthrough : hub.through (.beat t y.schedule.generation e) (.ok ()) =
      if hub.strandAlive y.strand then
        hub.serve ⟨.heartbeat t y.schedule.generation, y.strand, e, .heartbeat⟩
      else (hub, none) := by
    unfold through serve
    rw [hub.begin_beat hy halive]
    cases hub.strandAlive y.strand <;> rfl
  rw [hthrough, serve_of_keeps _ hkeeps]
  cases hub.strandAlive y.strand <;> rfl

/-- A wait goes on to fit when the schedule of another timer changes. -/
theorem Awaits.modify {t : Nat} {y₀ : Heartbeat} {f : Heartbeat → Heartbeat} {m : Manual}
    (h : hub.Awaits x) (hy : hub.heartbeats[t]? = some y₀) (hne : y₀.timer ≠ x.timer) :
    Awaits { hub with reactor := m, heartbeats := hub.heartbeats.modify t f } x := by
  cases h with
  | bare hc => exact .bare hc
  | @beat t' e y interval hc hy' htimer hdeadline hinterval hkept =>
    refine .beat hc ?_ htimer hdeadline hinterval hkept
    have htt : t ≠ t' := by
      rintro rfl
      cases hy.symm.trans hy'
      exact hne htimer
    change (hub.heartbeats.modify t f)[t']? = some y
    rw [List.getElem?_modify_ne _ _ htt, hy']

/-- The waits that are left when one is taken out. -/
theorem Orderly.withTimed {l l' : List TimedWait} (h : hub.Orderly)
    (hl : hub.reactor.timed = l ++ x :: l') : (hub.withTimed (l ++ l')).Orderly := by
  have hsub : (l ++ l').Sublist hub.reactor.timed := by
    rw [hl]
    exact (List.Sublist.refl l).append (List.sublist_cons_self x l')
  constructor
  · intro y hy
    cases h.awaits y (hsub.subset hy) with
    | bare hc => exact .bare hc
    | beat hc hy htimer hdeadline hinterval hkept =>
      exact .beat hc hy htimer hdeadline hinterval hkept
  · exact h.sorted.sublist hsub
  · exact fun y hy => h.fresh y (hsub.subset hy)
  · exact h.single.sublist (hsub.map _)

theorem Orderly.timer_ne {l l' : List TimedWait} (h : hub.Orderly)
    (hl : hub.reactor.timed = l ++ x :: l') (hy : y ∈ l ++ l') : y.timer ≠ x.timer := by
  have hsingle := h.single
  rw [hl, List.map_append, List.map_cons, List.nodup_middle, List.nodup_cons] at hsingle
  rw [← List.map_append] at hsingle
  exact fun heq => hsingle.1 (heq ▸ List.mem_map_of_mem hy)

/-- A due wait is not armed again. -/
theorem Orderly.fire_once {l l' : List TimedWait} (h : hub.Orderly)
    (hl : hub.reactor.timed = l ++ x :: l') (hdue : x.deadline ≤ hub.reactor.now)
    (hfirst : ∀ y ∈ l ++ l', x.Before y) (hnone : hub.period? x.wait.callback = none) :
    hub.Fire x (hub.withTimed (l ++ l')) := by
  refine ⟨hdue, ⟨l, l', hl, ?_, hfirst⟩, rfl, rfl, rfl, rfl, h.withTimed hl⟩
  rw [again?, hnone]
  exact (List.append_nil _).symm

section NextBeat
variable {t e deadline : Nat} {y : Heartbeat} {interval : Interval}

/-- What does not depend on deadlines is left as it is. -/
theorem bind_nextBeat {β : Type} (hy : hub.heartbeats[t]? = some y)
    (hd : y.schedule.deadline = some deadline) (hi : y.schedule.interval = some interval) (e : Nat)
    {F : Heartbeat → Option β}
    (hF : ∀ z d, F { z with schedule := { z.schedule with deadline := d } } = F z) (t' : Nat) :
    (hub.nextBeat t y.schedule.generation e).heartbeats[t']?.bind F =
      hub.heartbeats[t']?.bind F := by
  rw [nextBeat_eq _ hy hd hi]
  change (hub.heartbeats.modify t _)[t']?.bind F = _
  rw [List.getElem?_modify, Option.map_eq_map, Option.bind_map]
  refine congrArg _ (funext fun z => ?_)
  rw [Function.comp_apply]
  split
  · exact hF z _
  · rfl

theorem period?_nextBeat (hy : hub.heartbeats[t]? = some y)
    (hd : y.schedule.deadline = some deadline) (hi : y.schedule.interval = some interval)
    (e : Nat) : (hub.nextBeat t y.schedule.generation e).period? = hub.period? := by
  funext c
  cases c with
  | ready => rfl
  | bare => rfl
  | beat t' generation e' =>
    have hbind := bind_nextBeat hy hd hi e (F := fun z =>
      if hub.strandAlive z.strand && hub.engineAlive e' then z.schedule.interval else none)
      (fun _ _ => rfl) t'
    rw [nextBeat_eq _ hy hd hi] at hbind ⊢
    exact hbind

theorem beatCall?_nextBeat (hy : hub.heartbeats[t]? = some y)
    (hd : y.schedule.deadline = some deadline) (hi : y.schedule.interval = some interval)
    (e : Nat) : (hub.nextBeat t y.schedule.generation e).beatCall? = hub.beatCall? := by
  funext c
  cases c with
  | ready => rfl
  | bare => rfl
  | beat t' generation e' =>
    have hbind := bind_nextBeat (β := Call) hy hd hi e (F := fun z =>
      if hub.strandAlive z.strand && hub.engineAlive e' then
        some ⟨.heartbeat t' generation, z.strand, e', .heartbeat⟩ else none) (fun _ _ => rfl) t'
    rw [nextBeat_eq _ hy hd hi] at hbind ⊢
    exact hbind

/-- There is no wait of the timer that could be cancelled. -/
theorem timed_nextBeat (hy : hub.heartbeats[t]? = some y)
    (hd : y.schedule.deadline = some deadline) (hi : y.schedule.interval = some interval) (e : Nat)
    (hne : ∀ z ∈ hub.reactor.timed, z.timer ≠ y.timer) :
    (hub.nextBeat t y.schedule.generation e).reactor.timed = hub.reactor.timed ++
      [⟨y.timer, deadline + interval.length,
        ⟨hub.reactor.tickets, .beat t y.schedule.generation e⟩⟩] := by
  have hfilter : hub.reactor.timed.filter (·.timer ≠ y.timer) = hub.reactor.timed :=
    List.filter_eq_self.mpr fun z hz => decide_eq_true (hne z hz)
  rw [nextBeat_eq _ hy hd hi]
  change hub.reactor.timed.filter _ ++ _ = _
  rw [hfilter]
  rfl

/-- The waits stay in order when a heartbeat waits for its next deadline. -/
theorem Orderly.nextBeat (h : hub.Orderly) (hy : hub.heartbeats[t]? = some y)
    (hd : y.schedule.deadline = some deadline) (hi : y.schedule.interval = some interval)
    (hkept : y.presence.kept = true) (e : Nat)
    (hne : ∀ z ∈ hub.reactor.timed, z.timer ≠ y.timer) :
    (hub.nextBeat t y.schedule.generation e).Orderly := by
  have htimed := timed_nextBeat hy hd hi e hne
  constructor
  · intro z hz
    rw [htimed] at hz
    rw [nextBeat_eq _ hy hd hi]
    rcases List.mem_append.mp hz with hz | hz
    · exact (h.awaits z hz).modify hy (hne z hz).symm
    · rw [List.mem_singleton.mp hz]
      refine .beat (y := { y with schedule := { y.schedule with
        deadline := some (deadline + interval.length) } }) rfl ?_ rfl rfl hi hkept
      change (hub.heartbeats.modify t _)[t]? = _
      rw [List.getElem?_modify_eq, hy]
      rfl
  · rw [htimed, List.pairwise_append]
    refine ⟨h.sorted, List.pairwise_singleton _ _, fun z hz w hw => ?_⟩
    rw [List.mem_singleton.mp hw]
    exact h.fresh z hz
  · intro z hz
    rw [htimed] at hz
    rw [nextBeat_eq _ hy hd hi]
    change z.wait.ticket < hub.reactor.tickets + 1
    rcases List.mem_append.mp hz with hz | hz
    · exact Nat.lt_succ_of_lt (h.fresh z hz)
    · rw [List.mem_singleton.mp hz]
      exact Nat.lt_succ_self _
  · rw [htimed, List.map_append, List.nodup_append]
    refine ⟨h.single, List.nodup_singleton _, fun a ha b hb => ?_⟩
    obtain ⟨z, hz, rfl⟩ := List.mem_map.mp ha
    rw [List.mem_singleton.mp hb]
    exact hne z hz

end NextBeat

/-- A heartbeat waits for its next deadline. -/
theorem Orderly.fire_again {l l' : List TimedWait} (h : hub.Orderly)
    (hl : hub.reactor.timed = l ++ x :: l') (hdue : x.deadline ≤ hub.reactor.now)
    (hfirst : ∀ y ∈ l ++ l', x.Before y) {t e : Nat} {y : Heartbeat} {interval : Interval}
    (hc : x.wait.callback = .beat t y.schedule.generation e) (hy : hub.heartbeats[t]? = some y)
    (htimer : y.timer = x.timer) (hdeadline : y.schedule.deadline = some x.deadline)
    (hinterval : y.schedule.interval = some interval) (hkept : y.presence.kept = true)
    (hperiod : hub.period? x.wait.callback = some interval) :
    hub.Fire x ((hub.withTimed (l ++ l')).nextBeat t y.schedule.generation e) := by
  have hy' : (hub.withTimed (l ++ l')).heartbeats[t]? = some y := hy
  have hne : ∀ z ∈ l ++ l', z.timer ≠ y.timer := fun z hz => htimer ▸ h.timer_ne hl hz
  have hnext := nextBeat_eq _ hy' hdeadline hinterval (e := e)
  refine ⟨hdue, ⟨l, l', hl, ?_, hfirst⟩, by rw [hnext]; rfl, by rw [hnext]; rfl,
    period?_nextBeat hy' hdeadline hinterval e, beatCall?_nextBeat hy' hdeadline hinterval e,
    (h.withTimed hl).nextBeat hy' hdeadline hinterval hkept e hne⟩
  rw [timed_nextBeat hy' hdeadline hinterval e hne, again?, hperiod, htimer, hc]
  rfl

/-- What a due wait leads to. -/
theorem Orderly.fire {l l' : List TimedWait} (h : hub.Orderly)
    (hl : hub.reactor.timed = l ++ x :: l') (hdue : x.deadline ≤ hub.reactor.now)
    (hfirst : ∀ y ∈ l ++ l', x.Before y) :
    hub.Fire x ((hub.withTimed (l ++ l')).through x.wait.callback (.ok ())).1 ∧
      ((hub.withTimed (l ++ l')).through x.wait.callback (.ok ())).2 =
        hub.beatCall? x.wait.callback := by
  have hmem : x ∈ hub.reactor.timed := by
    rw [hl]
    exact List.mem_append_right l List.mem_cons_self
  cases h.awaits x hmem with
  | bare hc =>
    rw [hc]
    exact ⟨h.fire_once hl hdue hfirst (by rw [hc]; rfl), rfl⟩
  | @beat t e y interval hc hy htimer hdeadline hinterval hkept =>
    have hperiod : hub.period? x.wait.callback =
        if hub.strandAlive y.strand && hub.engineAlive e then some interval else none := by
      rw [hc]
      simp only [period?, hy, Option.bind_some, hinterval]
    have hcall : hub.beatCall? x.wait.callback =
        if hub.strandAlive y.strand && hub.engineAlive e then
          some ⟨.heartbeat t y.schedule.generation, y.strand, e, .heartbeat⟩ else none := by
      rw [hc]
      simp only [beatCall?, hy, Option.bind_some]
    have hthrough := @through_beat_of_kept (hub.withTimed (l ++ l')) t y hy hkept e
    change _ = if hub.strandAlive y.strand && hub.engineAlive e then _ else _ at hthrough
    rw [hcall, hc, hthrough]
    cases hlives : hub.strandAlive y.strand && hub.engineAlive e with
    | false =>
      rw [hlives] at hperiod
      exact ⟨h.fire_once hl hdue hfirst hperiod, rfl⟩
    | true =>
      rw [hlives] at hperiod
      exact ⟨h.fire_again hl hdue hfirst hc hy htimer hdeadline hinterval hkept hperiod, rfl⟩

end Step

section Fire

theorem again?_eq_some (h : hub.again? x = some y) : ∃ interval,
    hub.period? x.wait.callback = some interval ∧ y.timer = x.timer ∧
      y.deadline = x.deadline + interval.length ∧ y.wait.callback = x.wait.callback := by
  obtain ⟨interval, hperiod, rfl⟩ := Option.map_eq_some_iff.mp h
  exact ⟨interval, hperiod, rfl, rfl, rfl⟩

/-- A wait that is armed again is for later. -/
theorem before_of_again (h : hub.again? x = some y) : x.Before y := by
  obtain ⟨interval, -, -, hdeadline, -⟩ := again?_eq_some h
  have hpos := interval.length_pos
  exact Or.inl (by omega)

namespace Fire

theorem mem (h : hub.Fire x hub') : x ∈ hub.reactor.timed := by
  obtain ⟨l, l', hl, -, -⟩ := h.taken
  rw [hl]
  exact List.mem_append_right l List.mem_cons_self

/-- The waits afterwards are those before, but for the one that completed and the one that follows
it. -/
theorem mem_iff (h : hub.Fire x hub') (ho : hub.Orderly) : y ∈ hub'.reactor.timed ↔
    y ∈ hub.reactor.timed ∧ y.timer ≠ x.timer ∨ hub.again? x = some y := by
  obtain ⟨l, l', hl, hl', -⟩ := h.taken
  rw [hl', List.mem_append, Option.mem_toList]
  refine or_congr_left ⟨fun hy => ⟨?_, ho.timer_ne hl hy⟩, fun ⟨hy, hne⟩ => ?_⟩
  · rw [hl]
    exact List.mem_append.mpr ((List.mem_append.mp hy).imp id (List.mem_cons_of_mem x))
  · rw [hl] at hy
    refine List.mem_append.mpr ((List.mem_append.mp hy).imp id fun hy => ?_)
    exact (List.mem_cons.mp hy).resolve_left fun heq => hne (heq ▸ rfl)

/-- Every wait afterwards completes later. -/
theorem before (h : hub.Fire x hub') (hy : y ∈ hub'.reactor.timed) : x.Before y := by
  obtain ⟨l, l', -, hl', hfirst⟩ := h.taken
  rw [hl'] at hy
  rcases List.mem_append.mp hy with hy | hy
  · exact hfirst y hy
  · exact before_of_again (Option.mem_toList.mp hy)

theorem firings_eq (h : hub.Fire x hub') : hub'.firings = hub.firings := by
  funext y
  unfold firings
  rw [h.now, h.period]

end Fire

/-- One more wait of its timer completes than from the next one on. -/
theorem firings_of_due (hdue : x.deadline ≤ hub.reactor.now) :
    hub.firings x = total hub.firings (hub.again? x).toList + 1 := by
  unfold again?
  cases hperiod : hub.period? x.wait.callback with
  | none =>
    unfold firings
    rw [if_pos hdue, hperiod]
    rfl
  | some interval =>
    have hpos := interval.length_pos
    simp only [Option.map_some, Option.toList_some, total, firings, hdue, hperiod, if_true]
    split
    · rename_i hnext
      have hdiv := Nat.div_eq_sub_div hpos (a := hub.reactor.now - x.deadline) (by omega)
      rw [hdiv, Nat.sub_sub]
    · rename_i hnext
      rw [Nat.div_eq_of_lt (by omega)]

end Fire

section Fires

theorem Orderly.eq_of_timer (ho : hub.Orderly) (hx : x ∈ hub.reactor.timed)
    (hy : y ∈ hub.reactor.timed) (h : x.timer = y.timer) : x = y :=
  List.inj_on_of_nodup_map ho.single hx hy h

/-- What a wait for a heartbeat is for. -/
theorem Orderly.beat (ho : hub.Orderly) (hx : x ∈ hub.reactor.timed) {t generation e : Nat}
    (hc : x.wait.callback = .beat t generation e) : ∃ z interval, hub.heartbeats[t]? = some z ∧
      z.timer = x.timer ∧ z.schedule.interval = some interval := by
  cases ho.awaits x hx with
  | bare hc' =>
    rw [hc] at hc'
    cases hc'
  | beat hc' hz htimer hdeadline hinterval hkept =>
    rw [hc] at hc'
    cases hc'
    exact ⟨_, _, hz, htimer, hinterval⟩

/-- The waits of a heartbeat are for its timer. -/
theorem Orderly.timer_eq (ho : hub.Orderly) (hx : x ∈ hub.reactor.timed)
    (hy : y ∈ hub.reactor.timed) {t generation generation' e e' : Nat}
    (hcx : x.wait.callback = .beat t generation e)
    (hcy : y.wait.callback = .beat t generation' e') : x.timer = y.timer := by
  obtain ⟨z, -, hz, htimer, -⟩ := ho.beat hx hcx
  obtain ⟨z', -, hz', htimer', -⟩ := ho.beat hy hcy
  cases hz.symm.trans hz'
  exact htimer.symm.trans htimer'

theorem Orderly.filter_timer (ho : hub.Orderly) (hx : x ∈ hub.reactor.timed) :
    hub.reactor.timed.filter (·.timer = x.timer) = [x] := by
  obtain ⟨l, l', hl⟩ := List.append_of_mem hx
  have hnone {m : List TimedWait} (hm : ∀ y ∈ m, y ∈ l ++ l') :
      m.filter (·.timer = x.timer) = [] :=
    List.filter_eq_nil_iff.mpr fun y hy heq =>
      ho.timer_ne hl (hm y hy) (of_decide_eq_true heq)
  rw [hl, List.filter_append, List.filter_cons_of_pos (by simp),
    hnone fun y => List.mem_append_left l', hnone fun y => List.mem_append_right l, List.nil_append]

namespace Fires

theorem now (h : hub.Fires fired hub') : hub'.reactor.now = hub.reactor.now := by
  induction h with
  | nil => rfl
  | cons hfire _ ih => exact ih.trans hfire.now

theorem none_due (h : hub.Fires fired hub') :
    ∀ x ∈ hub'.reactor.timed, hub'.reactor.now < x.deadline := by
  induction h with
  | nil h => exact h
  | cons _ _ ih => exact ih

theorem due (h : hub.Fires fired hub') : ∀ x ∈ fired, x.deadline ≤ hub.reactor.now := by
  induction h with
  | nil => exact fun _ hx => absurd hx List.not_mem_nil
  | cons hfire _ ih =>
    intro y hy
    rcases List.mem_cons.mp hy with rfl | hy
    · exact hfire.due
    · exact hfire.now ▸ ih y hy

/-- A wait that completes or is left was armed for the timer and the callback of one at the
start. -/
theorem origin (h : hub.Fires fired hub') (ho : hub.Orderly)
    (hy : y ∈ fired ∨ y ∈ hub'.reactor.timed) :
    ∃ x ∈ hub.reactor.timed, x.timer = y.timer ∧ x.wait.callback = y.wait.callback ∧
      (x = y ∨ x.Before y) := by
  induction h with
  | nil => exact ⟨y, hy.resolve_left List.not_mem_nil, rfl, rfl, Or.inl rfl⟩
  | @cons hub hub₁ hub'' x xs hfire _ ih =>
    have hlater (hy : y ∈ xs ∨ y ∈ hub''.reactor.timed) : ∃ x ∈ hub.reactor.timed,
        x.timer = y.timer ∧ x.wait.callback = y.wait.callback ∧ (x = y ∨ x.Before y) := by
      obtain ⟨z, hz, htimer, hcb, hle⟩ := ih hfire.orderly hy
      rcases (hfire.mem_iff ho).mp hz with ⟨hz, -⟩ | hagain
      · exact ⟨z, hz, htimer, hcb, hle⟩
      · obtain ⟨interval, -, htimer', -, hcb'⟩ := again?_eq_some hagain
        have hbefore := before_of_again hagain
        exact ⟨x, hfire.mem, htimer'.symm.trans htimer, hcb'.symm.trans hcb,
          Or.inr (hle.elim (fun heq => heq ▸ hbefore) hbefore.trans)⟩
    rcases hy with hy | hy
    · rcases List.mem_cons.mp hy with rfl | hy
      · exact ⟨y, hfire.mem, rfl, rfl, Or.inl rfl⟩
      · exact hlater (Or.inl hy)
    · exact hlater (Or.inr hy)

/-- The order of the deadlines, and for one deadline that of arming. -/
theorem ordered (h : hub.Fires fired hub') (ho : hub.Orderly) :
    fired.Pairwise TimedWait.Before := by
  induction h with
  | nil => exact .nil
  | cons hfire hs ih =>
    refine .cons (fun y hy => ?_) (ih hfire.orderly)
    obtain ⟨z, hz, -, -, hle⟩ := hs.origin hfire.orderly (Or.inl hy)
    have hbefore := hfire.before hz
    exact hle.elim (fun heq => heq ▸ hbefore) hbefore.trans

/-- Of a timer without a wait, none completes and none is left. -/
theorem absent (h : hub.Fires fired hub') (ho : hub.Orderly) {a : Nat}
    (ha : ∀ x ∈ hub.reactor.timed, x.timer ≠ a) :
    fired.filter (·.timer = a) = [] ∧ hub'.reactor.timed.filter (·.timer = a) = [] := by
  have hne {y : TimedWait} (hy : y ∈ fired ∨ y ∈ hub'.reactor.timed) :
      ¬ decide (y.timer = a) = true := by
    obtain ⟨x, hx, htimer, -, -⟩ := h.origin ho hy
    rw [decide_eq_true_iff, ← htimer]
    exact ha x hx
  exact ⟨List.filter_eq_nil_iff.mpr fun _ hy => hne (Or.inl hy),
    List.filter_eq_nil_iff.mpr fun _ hy => hne (Or.inr hy)⟩

/-- A due wait that is not armed again completes once, and none of its timer is left. -/
theorem once (h : hub.Fires fired hub') (ho : hub.Orderly) (hx : x ∈ hub.reactor.timed)
    (hdue : x.deadline ≤ hub.reactor.now) (hperiod : hub.period? x.wait.callback = none) :
    fired.filter (·.timer = x.timer) = [x] ∧
      hub'.reactor.timed.filter (·.timer = x.timer) = [] := by
  induction h with
  | nil h => exact absurd (h x hx) (Nat.not_lt.mpr hdue)
  | @cons hub hub₁ hub'' z xs hfire hs ih =>
    by_cases htimer : z.timer = x.timer
    · cases ho.eq_of_timer hfire.mem hx htimer
      have hgone : ∀ y ∈ hub₁.reactor.timed, y.timer ≠ x.timer := by
        intro y hy
        rcases (hfire.mem_iff ho).mp hy with ⟨-, hne⟩ | hagain
        · exact hne
        · obtain ⟨interval, hsome, -⟩ := again?_eq_some hagain
          rw [hperiod] at hsome
          cases hsome
      obtain ⟨hnone, hleft⟩ := hs.absent hfire.orderly hgone
      refine ⟨?_, hleft⟩
      rw [List.filter_cons_of_pos (by simp), hnone]
    · have hx' := (hfire.mem_iff ho).mpr (Or.inl ⟨hx, Ne.symm htimer⟩)
      rw [List.filter_cons_of_neg (by simpa using htimer)]
      exact ih hfire.orderly hx' (hfire.now.symm ▸ hdue) (hfire.period ▸ hperiod)

/-- The waits of a heartbeat that beats complete at the multiples of its interval up to now, and one
is left for the next. -/
theorem series (h : hub.Fires fired hub') (ho : hub.Orderly) (hx : x ∈ hub.reactor.timed)
    {interval : Interval} (hperiod : hub.period? x.wait.callback = some interval) :
    (fired.filter (·.timer = x.timer)).map (·.deadline) =
        (List.range (hub.firings x)).map (x.deadline + · * interval.length) ∧
      ∃ next, hub'.reactor.timed.filter (·.timer = x.timer) = [next] ∧
        next.deadline = x.deadline + hub.firings x * interval.length ∧
        next.wait.callback = x.wait.callback := by
  induction h generalizing x with
  | @nil hub h =>
    have hzero : hub.firings x = 0 := if_neg (Nat.not_le.mpr (h x hx))
    rw [hzero]
    exact ⟨rfl, x, ho.filter_timer hx, by rw [Nat.zero_mul, Nat.add_zero], rfl⟩
  | @cons hub hub₁ hub'' z xs hfire hs ih =>
    by_cases htimer : z.timer = x.timer
    · cases ho.eq_of_timer hfire.mem hx htimer
      let next : TimedWait :=
        ⟨z.timer, z.deadline + interval.length, ⟨hub.reactor.tickets, z.wait.callback⟩⟩
      have hagain : hub.again? z = some next := by
        rw [again?, hperiod]
        rfl
      have hcount : hub.firings z = hub₁.firings next + 1 := by
        rw [firings_of_due hfire.due, hagain, hfire.firings_eq]
        rfl
      obtain ⟨hseries, last, hleft, hdeadline, hcb⟩ := ih hfire.orderly
        ((hfire.mem_iff ho).mpr (Or.inr hagain)) (hfire.period ▸ hperiod)
      change (xs.filter (·.timer = z.timer)).map _ = _ at hseries
      rw [hcount]
      refine ⟨?_, last, hleft, ?_, hcb⟩
      · rw [List.filter_cons_of_pos (by simp), List.map_cons, hseries, List.range_succ_eq_map,
          List.map_cons, List.map_map, Nat.zero_mul, Nat.add_zero]
        refine congrArg _ (List.map_congr_left fun k _ => ?_)
        rw [Function.comp_apply, Nat.succ_mul]
        change z.deadline + interval.length + _ = _
        omega
      · rw [hdeadline, Nat.succ_mul]
        change z.deadline + interval.length + _ = _
        omega
    · have hx' := (hfire.mem_iff ho).mpr (Or.inl ⟨hx, Ne.symm htimer⟩)
      rw [List.filter_cons_of_neg (by simpa using htimer), ← hfire.firings_eq]
      exact ih hfire.orderly hx' (hfire.period ▸ hperiod)

/-- Waits that are not due are left as they are. -/
theorem undue (h : hub.Fires fired hub') (ho : hub.Orderly) :
    hub.reactor.timed.filter (hub.reactor.now < ·.deadline) <+: hub'.reactor.timed := by
  induction h with
  | nil h =>
    rw [List.filter_eq_self.mpr fun x hx => decide_eq_true (h x hx)]
  | cons hfire hs ih =>
    refine List.IsPrefix.trans ?_ (ih hfire.orderly)
    obtain ⟨l, l', hl, hl', -⟩ := hfire.taken
    rw [hl, hl', hfire.now]
    have hnot := Nat.not_lt.mpr hfire.due
    simp only [List.filter_append, List.filter_cons, hnot, decide_false, Bool.false_eq_true,
      if_false]
    exact List.prefix_append _ _

/-- The calls for a heartbeat are those that the waits of its timer lead to. -/
theorem filter_calls (h : hub.Fires fired hub') (ho : hub.Orderly) (hx : x ∈ hub.reactor.timed)
    {t generation e : Nat} (hc : x.wait.callback = .beat t generation e) :
    (fired.filterMap fun y => hub.beatCall? y.wait.callback).filter (·.owner.isHeartbeat t) =
      (fired.filter (·.timer = x.timer)).filterMap fun _ => hub.beatCall? x.wait.callback := by
  rw [List.filter_filterMap, List.filterMap_filter]
  refine List.filterMap_congr fun y hy => ?_
  obtain ⟨z, hz, htimer, hcb, -⟩ := h.origin ho (Or.inl hy)
  rw [← hcb, ← htimer]
  cases hcall : hub.beatCall? z.wait.callback with
  | none =>
    split
    · rename_i heq
      rw [← ho.eq_of_timer hz hx (of_decide_eq_true heq), hcall]
      rfl
    · rfl
  | some call =>
    obtain ⟨t', generation', e', hz', howner⟩ := beat_of_beatCall? hcall
    have hiff : call.owner.isHeartbeat t = decide (z.timer = x.timer) := by
      rw [howner, Bool.eq_iff_iff, decide_eq_true_iff]
      change (t' == t) = true ↔ _
      rw [beq_iff_eq]
      constructor
      · rintro rfl
        exact ho.timer_eq hz hx hz' hc
      · intro heq
        rw [ho.eq_of_timer hz hx heq, hc] at hz'
        cases hz'
        rfl
    rw [Option.filter_some, hiff]
    split
    · rename_i heq
      rw [← ho.eq_of_timer hz hx (of_decide_eq_true heq), hcall]
    · rfl

/-- How many waits complete is the total over the waits at the start. -/
theorem length_eq (h : hub.Fires fired hub') :
    fired.length = total hub.firings hub.reactor.timed := by
  induction h with
  | @nil hub h =>
    have hzero : ∀ x ∈ hub.reactor.timed, hub.firings x = 0 :=
      fun x hx => if_neg (Nat.not_le.mpr (h x hx))
    exact (total_eq_zero hzero).symm
  | cons hfire hs ih =>
    obtain ⟨l, l', hl, hl', -⟩ := hfire.taken
    rw [List.length_cons, ih, hl, hl', hfire.firings_eq, total_append, total_append, total_append,
      total_cons, firings_of_due hfire.due]
    omega

end Fires
end Fires
end Hub
end Wakeup
