import Wakeup.Proofs.Waits

/-! A watcher has at most one outstanding wait for each direction, and a handler that is not being
called has exactly one registration for each descriptor that it watches. -/
namespace Wakeup

theorem countP_eq_of_index {α : Type} {p : α → Bool} {l : List α} {o : Option Nat}
    (h : ∀ i a, l[i]? = some a → (p a = true ↔ o = some i)) (ho : ∀ i ∈ o, i < l.length) :
    l.countP p = if o.isSome then 1 else 0 := by
  induction l generalizing o with
  | nil =>
    cases o with
    | none => rfl
    | some i => exact absurd (ho i rfl) (Nat.not_lt_zero i)
  | cons a l ih =>
    rw [List.countP_cons]
    by_cases hzero : o = some 0
    · have hnone : l.countP p = 0 := by
        rw [List.countP_eq_zero]
        intro b hb hp
        obtain ⟨i, hi⟩ := List.getElem?_of_mem hb
        have hsome := (h (i + 1) b (by simpa using hi)).mp hp
        rw [hzero] at hsome
        cases hsome
      have hp := (h 0 a rfl).mpr hzero
      simp [hnone, hp, hzero]
    · have hp : ¬p a = true := fun hp => hzero ((h 0 a rfl).mp hp)
      have htail : l.countP p = if (o.map (· - 1)).isSome then 1 else 0 := by
        refine ih ?_ ?_
        · intro i b hb
          rw [h (i + 1) b (by simpa using hb)]
          cases o with
          | none => simp
          | some j =>
            have hj : j ≠ 0 := fun hj => hzero (congrArg some hj)
            simp only [Option.map_some, Option.some.injEq]
            omega
        · intro i hi
          obtain ⟨j, hj, rfl⟩ := Option.mem_map.mp hi
          have hlt := ho j hj
          have hne : j ≠ 0 := fun hz => hzero (by rw [hz] at hj; exact hj)
          simp only [List.length_cons] at hlt
          omega
      rw [htail, if_neg hp, Option.isSome_map, Nat.add_zero]

namespace Hub

/-- Whether a callback tells a watcher of a strand. -/
def belongs (hub : Hub Manual) (s : Nat) : Callback → Bool
  | .ready i _ _ => hub.watchers[i]?.any (·.strand == s)
  | _ => false

end Hub

namespace Scenario

/-- How many waits for a direction of a watcher were thrown away. -/
def thrownAway (log : List Event) (i : Nat) (d : Direction) : Nat :=
  log.countP (·.discards i d)

namespace World
variable (w : World)

/-- How many waits for a direction of a watcher can still be run: those that are in the reactor's
list and those that were taken out of it and kept. -/
def unconsumed (i : Nat) (d : Direction) : Nat :=
  w.hub.reactor.ready.countP (·.wait.callback.claims i d) +
    w.slots.values.countP (·.callback.claims i d)

/-- How many registrations of a descriptor a handler holds through watchers that last. -/
def registrationsOf (h : Handler) (fd : Fd) : Nat :=
  w.hub.watchers.countP fun x => x.presence.alive && x.strand == h.strand && x.fd == fd

/-- How many waits of a handler for a direction of a descriptor are in the reactor. -/
def waitsOf (h : Handler) (fd : Fd) (d : Direction) : Nat :=
  w.hub.reactor.ready.countP fun r =>
    r.registration.fd == fd && r.direction == d && w.hub.belongs h.strand r.wait.callback

end World

namespace Config
variable {c : Config} {log : List Event}

private theorem unconsumed_add_thrownAway (w : World) (log : List Event) (i : Nat) (d : Direction) :
    w.unconsumed i d + thrownAway log i d = claims w.hub.reactor.ready ↑w.slots.values log i d := by
  unfold World.unconsumed thrownAway claims
  rw [Multiset.coe_countP]
  simp

theorem mem_live_of_get? {w : World} {n : Int} {h : Handler} (hh : w.handlers.get? n = some h) :
    h ∈ w.live :=
  List.mem_append.mpr (Or.inl (Table.mem_values.mpr ⟨n, hh⟩))

theorem strand_mem_handlers {h : Handler} (hh : h ∈ c.world.live) :
    h.strand ∈ (c.ledger log).handlers :=
  Multiset.mem_map_of_mem _ (World.mem_held.mpr hh)

theorem exists_of_mem_handlers {s : Nat} (hs : s ∈ (c.ledger log).handlers) :
    ∃ h ∈ c.world.live, h.strand = s := by
  have hmem : s ∈ c.world.held.map (·.strand) := hs
  obtain ⟨h, hh, heq⟩ := Multiset.mem_map.mp hmem
  exact ⟨h, World.mem_held.mp hh, heq⟩

/-- Handlers that are alive do not share strands. -/
theorem eq_of_strand (hr : Reached c log) {h h' : Handler} (hh : h ∈ c.world.live)
    (hh' : h' ∈ c.world.live) (hs : h.strand = h'.strand) : h = h' := by
  have hnodup : (c.world.held.map (·.strand)).Nodup :=
    hr.owned.nodup_handlers
  exact Multiset.inj_on_of_nodup_map hnodup h (World.mem_held.mpr hh) h' (World.mem_held.mpr hh') hs

theorem mem_watchers_of_get? (log : List Event) {h : Handler} (hh : h ∈ c.world.live) {fd : Fd}
    {i : Nat} (hget : h.watchers.get? fd = some i) :
    (some (h.strand, fd), i) ∈ (c.ledger log).watchers :=
  Multiset.mem_add.mpr (Or.inl (Multiset.mem_bind.mpr
    ⟨h, World.mem_held.mpr hh, mem_places.mpr ⟨rfl, hget⟩⟩))

theorem exists_of_mem_watchers {p : Nat × Fd} {i : Nat}
    (hmem : (some p, i) ∈ (c.ledger log).watchers) :
    ∃ h ∈ c.world.live, p.1 = h.strand ∧ h.watchers.get? p.2 = some i := by
  rcases Multiset.mem_add.mp hmem with hmem | hmem
  · obtain ⟨h, hh, hplace⟩ := Multiset.mem_bind.mp hmem
    exact ⟨h, World.mem_held.mp hh, mem_places.mp hplace⟩
  · obtain ⟨_, -, heq⟩ := Multiset.mem_map.mp hmem
    cases heq

theorem exists_of_mem_heartbeats {s t : Nat} (hmem : (some s, t) ∈ (c.ledger log).heartbeats) :
    ∃ h ∈ c.world.live, s = h.strand := by
  rcases Multiset.mem_add.mp hmem with hmem | hmem
  · obtain ⟨h, hh, hbeat⟩ := Multiset.mem_bind.mp hmem
    exact ⟨h, World.mem_held.mp hh, (mem_beats.mp hbeat).1⟩
  · obtain ⟨_, -, heq⟩ := Multiset.mem_map.mp hmem
    cases heq

/-- A watcher for a descriptor of a handler lasts if the handler watches the descriptor with it,
or a call of it is in progress. -/
theorem alive_iff (hr : Reached c log) {h : Handler} (hh : h ∈ c.world.live) {fd : Fd} {i : Nat}
    {x : Watcher} (hx : c.world.hub.watchers[i]? = some x) :
    (x.presence.alive = true ∧ x.strand = h.strand ∧ x.fd = fd) ↔
      h.watchers.get? fd = some i ∨
        x.strand = h.strand ∧ x.fd = fd ∧ c.calls.any (·.owner.isWatcher i) = true := by
  have ho := hr.owned
  obtain ⟨htitle, hpresence⟩ := Hub.roster_of_getElem? hx
  have hlast := Ledger.alive_watcher_iff ho hr.inUse i
  change c.world.hub.roster.watchers[i]?.any Presence.alive = true ↔ _ at hlast
  rw [hpresence, Option.any_some] at hlast
  constructor
  · rintro ⟨ha, hs, hfd⟩
    rcases hlast.mp ha with hheld | hcall
    · obtain ⟨⟨place, j⟩, hmem, hj⟩ := Multiset.mem_map.mp hheld
      have hj' : j = i := hj
      subst hj'
      cases place with
      | none =>
        refine absurd ?_ (ho.watchers.alone hmem _ htitle)
        rw [hs]
        exact strand_mem_handlers hh
      | some p =>
        obtain ⟨s', fd'⟩ := p
        obtain ⟨hfd', hs'⟩ := ho.watchers.placed hmem _ htitle
        obtain ⟨h', hh', hstrand, hget⟩ := exists_of_mem_watchers hmem
        have heq : h' = h := eq_of_strand hr hh' hh (hstrand.symm.trans (hs'.symm.trans hs))
        have hfd'' : fd' = fd := hfd'.symm.trans hfd
        left
        rw [← heq, ← hfd'']
        exact hget
    · right
      exact ⟨hs, hfd, List.any_eq_true.mpr hcall⟩
  · rintro (hget | ⟨hs, hfd, hcall⟩)
    · have hmem := mem_watchers_of_get? log hh hget
      obtain ⟨hfd, hs⟩ := ho.watchers.placed hmem _ htitle
      exact ⟨hlast.mpr (Or.inl (Multiset.mem_map_of_mem _ hmem)), hs, hfd⟩
    · exact ⟨hlast.mpr (Or.inr (List.any_eq_true.mp hcall)), hs, hfd⟩

theorem alive_iff_of_rest (hr : Reached c log) {h : Handler} (hh : h ∈ c.world.live) {fd : Fd}
    {i : Nat} {x : Watcher} (hx : c.world.hub.watchers[i]? = some x) (hrest : c.calls = []) :
    (x.presence.alive = true ∧ x.strand = h.strand ∧ x.fd = fd) ↔
      h.watchers.get? fd = some i := by
  rw [alive_iff hr hh hx, hrest]
  simp

theorem lt_of_get? (hr : Reached c log) {h : Handler} (hh : h ∈ c.world.live) {fd : Fd} {i : Nat}
    (hget : h.watchers.get? fd = some i) : i < c.world.hub.watchers.length := by
  have hmem := mem_watchers_of_get? log hh hget
  have hlt := hr.owned.watchers.holds.lt (Multiset.mem_map_of_mem _ hmem)
  change i < (c.world.hub.watchers.map _).length at hlt
  rwa [List.length_map] at hlt

private theorem registrationsOf_eq (hr : Reached c log) (hrest : c.calls = []) {h : Handler}
    (hh : h ∈ c.world.live) (fd : Fd) :
    c.world.registrationsOf h fd = if h.isWatching fd then 1 else 0 := by
  refine countP_eq_of_index ?_ ?_
  · intro i x hx
    rw [← alive_iff_of_rest hr hh hx hrest]
    simp only [Bool.and_eq_true, beq_iff_eq, and_assoc]
  · exact fun i hi => lt_of_get? hr hh hi

theorem claims_le_one (hr : Reached c log) (i : Nat) (d : Direction) {x : Watcher}
    (hx : c.world.hub.watchers[i]? = some x) (ha : x.presence.alive = true) :
    c.world.unconsumed i d + thrownAway log i d = if (x.sides.get d).pending then 1 else 0 := by
  rw [unconsumed_add_thrownAway, ← get_pendingSides]
  exact Waiting.claims_eq hr.waits (Hub.posts_of_getElem? hx) ha d

/-- A wait of a handler in the reactor is a wait of the watcher that it holds. -/
theorem claims_of_belongs (hr : Reached c log) (hrest : c.calls = []) {h : Handler}
    (hh : h ∈ c.world.live) {r : ReadyWait} (hmem : r ∈ c.world.hub.reactor.ready)
    (hb : c.world.hub.belongs h.strand r.wait.callback = true) :
    ∃ i, h.watchers.get? r.registration.fd = some i ∧
      r.wait.callback.claims i r.direction = true := by
  have hf := Waiting.ready hr.waits r hmem
  unfold Fits at hf
  cases hcb : r.wait.callback with
  | beat t generation e =>
    rw [hcb] at hf
    exact hf.elim
  | bare tag =>
    rw [hcb] at hb
    cases hb
  | ready i d e =>
    rw [hcb] at hf hb
    obtain ⟨rfl, p, hp, ha, hreg⟩ := hf
    change (c.world.hub.watchers.map _)[i]? = _ at hp
    rw [List.getElem?_map] at hp
    obtain ⟨x, hx, rfl⟩ := Option.map_eq_some_iff.mp hp
    rw [Hub.belongs, hx] at hb
    have hs : x.strand = h.strand := by simpa using hb
    refine ⟨i, (alive_iff_of_rest hr hh hx hrest).mp ⟨ha, hs, congrArg (·.fd) hreg⟩, ?_⟩
    exact (claims_ready e i r.direction i r.direction).mpr ⟨rfl, rfl⟩

/-- Single outstanding wait. Of each direction of a watcher that lasts, the side is pending just
when one wait can still be run or was thrown away, and there are never two; none is parked. When no
engine is being called, a handler holds one registration of each descriptor that it watches and of
no other, and has one wait at most for each direction of it. A reactor has no registrations but
those of watchers that last and those without a watcher. -/
theorem single_outstanding_wait (hr : Reached c log) :
    (∀ i x, c.world.hub.watchers[i]? = some x → x.presence.alive = true → ∀ d,
      c.world.unconsumed i d ≤ 1 ∧
      c.world.unconsumed i d + thrownAway log i d = (if (x.sides.get d).pending then 1 else 0) ∧
      ∀ w ∈ c.world.hub.reactor.parked, w.callback.claims i d = false) ∧
    (c.calls = [] → ∀ h ∈ c.world.live, ∀ fd,
      c.world.registrationsOf h fd = (if h.isWatching fd then 1 else 0) ∧
      ∀ d, c.world.waitsOf h fd d ≤ (if h.isWatching fd then 1 else 0)) ∧
    ∀ fd, (c.world.hub.reactor.live.get? fd).getD 0 =
      c.world.hub.watchers.countP (fun x => x.presence.alive && x.fd == fd) +
        c.world.registrations.values.countP (·.fd == fd) := by
  refine ⟨?_, ?_, ?_⟩
  · intro i x hx ha d
    have hclaims := claims_le_one hr i d hx ha
    refine ⟨?_, hclaims, ?_⟩
    · split_ifs at hclaims <;> omega
    · intro w hw
      by_contra hc
      obtain ⟨p, hp, hdead⟩ := Waiting.parked hr.waits w hw i d (by simpa using hc)
      have hpost := Hub.posts_of_getElem? hx
      change c.world.hub.posts[i]? = some p at hp
      rw [hpost] at hp
      cases hp
      have hdead' : x.presence.alive = false := hdead
      rw [ha] at hdead'
      cases hdead'
  · intro hrest h hh fd
    refine ⟨registrationsOf_eq hr hrest hh fd, ?_⟩
    intro d
    unfold Handler.isWatching Table.contains
    cases hget : h.watchers.get? fd with
    | none =>
      rw [Option.isSome_none, if_neg Bool.false_ne_true]
      refine (List.countP_eq_zero.mpr ?_).le
      intro r hmem hp
      simp only [Bool.and_eq_true, beq_iff_eq] at hp
      obtain ⟨i, hi, -⟩ := claims_of_belongs hr hrest hh hmem hp.2
      rw [hp.1.1, hget] at hi
      cases hi
    | some i =>
      rw [Option.isSome_some, if_pos rfl]
      have hlt := lt_of_get? hr hh hget
      have hx : c.world.hub.watchers[i]? = some c.world.hub.watchers[i] :=
        List.getElem?_eq_getElem hlt
      obtain ⟨ha, -, -⟩ := (alive_iff_of_rest hr hh hx hrest).mpr hget
      have hle : c.world.waitsOf h fd d ≤ c.world.unconsumed i d := by
        refine (List.countP_mono_left ?_).trans (Nat.le_add_right _ _)
        intro r hmem hp
        simp only [Bool.and_eq_true, beq_iff_eq] at hp
        obtain ⟨j, hj, hc⟩ := claims_of_belongs hr hrest hh hmem hp.2
        rw [hp.1.1, hget] at hj
        cases hj
        rw [← hp.1.2]
        exact hc
      have hclaims := claims_le_one hr i d hx ha
      split_ifs at hclaims <;> omega
  · intro fd
    have hlive := Waiting.live hr.waits fd
    change _ = (c.world.hub.watchers.map Post.ofWatcher).countP _ +
      (c.world.registrations.values : Multiset Registration).countP _ at hlive
    rw [List.countP_map, Multiset.coe_countP] at hlive
    refine hlive.trans (congrArg _ (List.countP_congr fun r _ => ?_))
    rw [decide_eq_true_iff, beq_iff_eq]

/-- An engine that is told that a descriptor can be read removes it and asks for it again, and the
wait of the new watcher is thrown away while that of the old one is being served. -/
def rewatching : List Op :=
  [.newHandler 0, .newEngine 0 { process := [[.monitor 0 0 5 .none, .monitor 0 0 5 .readable,
    .takeReady 5 .read 1, .discard 1]] } false, .monitor 0 0 5 ⟨3⟩, .complete 5 .read (.ok ())]

theorem single_outstanding_wait_rewatching :
    (sample rewatching 8).1.calls.length = 1 ∧
      (sample rewatching 8).1.world.unconsumed 1 .read +
        thrownAway (sample rewatching 8).2 1 .read = 1 ∧
      (sample rewatching 9).1.calls = [] ∧
      ∀ h ∈ (sample rewatching 9).1.world.live,
        (sample rewatching 9).1.world.registrationsOf h 5 = if h.isWatching 5 then 1 else 0 := by
  have hinside := single_outstanding_wait (reached_sample rewatching 8)
  have hrest := single_outstanding_wait (reached_sample rewatching 9)
  refine ⟨by decide, ?_, by decide, ?_⟩
  · exact (hinside.1 1 ⟨⟨2, 5⟩, 0, ⟨⟨true, true⟩, ⟨false, false⟩⟩, {}⟩ (by decide) (by decide)
      .read).2.1
  · exact fun h hh => (hrest.2.1 (by decide) h hh 5).1

end Config
end Scenario
end Wakeup
