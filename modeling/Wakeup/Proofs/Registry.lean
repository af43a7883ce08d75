import Mathlib.Data.Nat.Bitwise
import Wakeup.Proofs.Frames

/-! The law of the registry: a handler watches the descriptors for which it last accepted a mask
with bits, and its interest in a descriptor is what that mask asks for. -/
namespace Wakeup

namespace Events

/-- The mask without the bits that have no meaning. -/
def known (e : Events) : Events := ⟨e.bits &&& 3⟩

theorem ofSides_wants (e : Events) : ofSides ⟨e.wants .read, e.wants .write⟩ = e.known := by
  obtain ⟨bits⟩ := e
  have hread : (⟨bits⟩ : Events).wants .read = (bits.toNat % 2 == 1) := by
    have h : (bits &&& 1).toNat = bits.toNat % 2 := by
      rw [UInt32.toNat_and]
      exact Nat.and_one_is_mod _
    rw [Bool.eq_iff_iff, beq_iff_eq, ← h, wants, contains, beq_iff_eq, ← UInt32.toNat_inj]
    rfl
  have hwrite : (⟨bits⟩ : Events).wants .write = (bits.toNat / 2 % 2 == 1) := by
    have h : (bits &&& 2).toNat = bits.toNat / 2 % 2 * 2 := by
      rw [UInt32.toNat_and]
      refine (Nat.and_two_pow bits.toNat 1).trans ?_
      rw [Nat.toNat_testBit, Nat.pow_one]
    have h2 : (2 : UInt32).toNat = 2 := rfl
    rw [Bool.eq_iff_iff, beq_iff_eq, wants, contains, beq_iff_eq, ← UInt32.toNat_inj]
    change (bits &&& 2).toNat = (2 : UInt32).toNat ↔ _
    rw [h, h2]
    omega
  have hknown : (bits &&& 3).toNat = bits.toNat % 4 := by
    rw [UInt32.toNat_and]
    exact Nat.and_two_pow_sub_one_eq_mod bits.toNat 2
  rw [hread, hwrite, known, Events.mk.injEq, ← UInt32.toNat_inj, hknown]
  have hr : bits.toNat % 2 = 0 ∨ bits.toNat % 2 = 1 := by omega
  have hw : bits.toNat / 2 % 2 = 0 ∨ bits.toNat / 2 % 2 = 1 := by omega
  rcases hr with hr | hr <;> rcases hw with hw | hw <;> rw [hr, hw]
  · change 0 = _
    omega
  · change 2 = _
    omega
  · change 1 = _
    omega
  · change 3 = _
    omega

end Events

/-- What is held for a descriptor is what a mask asks for: a watcher if the mask has any bit, and
that wants the directions of the mask. -/
structure Hub.Follows (hub : Hub Manual) (held : Option Nat) (mask : Option Events) : Prop where
  isSome_eq : held.isSome = mask.any fun ev => !ev.isEmpty
  wants : ∀ i, held = some i → ∀ d, hub.wants i d = mask.any (·.wants d)

namespace Handler
variable {h h' : Handler} {e : Nat} {fd : Fd} {ev : Events}

/-- Being asked for interest can fail only when a descriptor is new, and then the reactor refused to
register it and nothing else happened. -/
theorem monitor_error {ρ : Type} [Reactor ρ] {hub hub' : Hub ρ} {err : Error}
    (hm : h.monitor e fd ev hub = (.error err, hub')) :
    h.isWatching fd = false ∧ ev.isEmpty = false ∧
      ∃ r, Reactor.register fd hub.reactor = (.error err, r) ∧
        hub' = { hub with reactor := r } := by
  unfold monitor at hm
  cases hi : h.watchers.get? fd with
  | some i =>
    rw [hi] at hm
    dsimp only at hm
    split at hm <;> cases hm
  | none =>
    rw [hi] at hm
    dsimp only at hm
    split at hm
    · cases hm
    · rename_i hev
      refine ⟨by simp [isWatching, Table.contains, hi], by simpa using hev, ?_⟩
      unfold Hub.newWatcher at hm
      split at hm
      · rename_i hn
        split at hn
        · rename_i hr
          cases hn
          cases hm
          exact ⟨_, hr, rfl⟩
        · cases hn
      · cases hm

/-- A mask that is accepted is what the handler follows from then on. The other descriptors, and
the watchers for them, are left alone. -/
theorem monitor_ok {hub hub' : Hub Manual} (hm : h.monitor e fd ev hub = (.ok h', hub'))
    (hlt : ∀ i, h.watchers.get? fd = some i → i < hub.watchers.length) :
    h'.strand = h.strand ∧ hub'.Follows (h'.watchers.get? fd) (some ev) ∧
      (∀ fd', fd' ≠ fd → h'.watchers.get? fd' = h.watchers.get? fd') ∧
      ∀ j < hub.watchers.length, h.watchers.get? fd ≠ some j → ∀ d,
        hub'.wants j d = hub.wants j d := by
  unfold monitor at hm
  cases hi : h.watchers.get? fd with
  | none =>
    rw [hi] at hm
    dsimp only at hm
    split at hm
    · rename_i hev
      cases hm
      refine ⟨rfl, ⟨?_, ?_⟩, fun _ _ => rfl, fun _ _ _ _ => rfl⟩
      · simp [hi, hev]
      · simp [hi]
    · rename_i hev
      cases hn : hub.newWatcher h.strand fd with
      | mk result hub₁ =>
        rw [hn] at hm
        cases result with
        | error err => cases hm
        | ok i =>
          cases hm
          obtain ⟨r, m, -, hlen, hhub⟩ := Hub.newWatcher_ok hn
          have hlt₁ : i < hub₁.watchers.length := by
            rw [hhub, hlen, List.length_append]
            exact Nat.lt_succ_self _
          refine ⟨rfl, ⟨?_, ?_⟩, ?_, ?_⟩
          · simpa using hev
          · intro j hj d
            rw [Table.get?_insert_self, Option.some.injEq] at hj
            subst hj
            exact Hub.wants_setInterest_self hub₁ d hlt₁ e ev
          · exact fun fd' hne => (Table.get?_insert ..).trans (if_neg hne)
          · intro j hj _ d
            have hne : i ≠ j := by omega
            rw [Hub.wants_setInterest_of_ne hub₁ d hne, Hub.wants_newWatcher_of_lt d hn hj]
  | some i =>
    rw [hi] at hm
    dsimp only at hm
    split at hm
    · rename_i hev
      cases hm
      refine ⟨rfl, ⟨?_, ?_⟩, ?_, ?_⟩
      · simp [hev]
      · simp
      · exact fun fd' hne => (Table.get?_erase ..).trans (if_neg hne)
      · intro j _ hj d
        have hne : i ≠ j := fun heq => hj (congrArg some heq)
        rw [Hub.wants_dropWatcher, Hub.wants_retire_of_ne hub d hne]
    · rename_i hev
      cases hm
      refine ⟨rfl, ⟨?_, ?_⟩, fun _ _ => rfl, ?_⟩
      · simpa [hi] using hev
      · intro j hj d
        rw [hi, Option.some.injEq] at hj
        subst hj
        exact Hub.wants_setInterest_self hub d (hlt i hi) e ev
      · intro j _ hj d
        exact Hub.wants_setInterest_of_ne hub d (fun heq => hj (congrArg some heq)) e ev

end Handler

namespace Scenario

theorem lastAsked_append {s : Nat} {fd : Fd} {new : List Event}
    (h : ∀ entry ∈ new, entry.asked? s fd = none) (log : List Event) :
    lastAsked s fd (new.reverse ++ log) = lastAsked s fd log := by
  have hnone : new.reverse.findSome? (·.asked? s fd) = none := by
    rw [List.findSome?_eq_none_iff]
    exact fun entry hmem => h entry (List.mem_reverse.mp hmem)
  unfold lastAsked
  rw [List.findSome?_append, hnone]
  rfl

namespace World
variable {w : World} {n e : Int} {fd : Fd} {ev : Events}

/-- Asking a handler for interest either is accepted, or leaves what handlers watch as it is. -/
theorem monitor_cases (w : World) (n e : Int) (fd : Fd) (ev : Events) :
    (KeepsRegistry w (w.monitor n e fd ev).1 ∧ w.events (.monitor n e fd ev) = []) ∨
    ∃ engine h h' hub', w.engines.get? e = some engine ∧ w.handlers.get? n = some h ∧
      h.monitor engine fd ev w.hub = (.ok h', hub') ∧
      w.monitor n e fd ev =
        ({ w with hub := hub', handlers := w.handlers.insert n h' }, .done) ∧
      w.events (.monitor n e fd ev) = [.monitored h.strand engine fd ev] := by
  simp only [World.monitor, World.events]
  cases he : w.engines.get? e with
  | none => exact Or.inl ⟨.of_watchers rfl rfl rfl, rfl⟩
  | some engine =>
    cases hh : w.handlers.get? n with
    | none => exact Or.inl ⟨.of_watchers rfl rfl rfl, rfl⟩
    | some h =>
      dsimp only
      cases hm : h.monitor engine fd ev w.hub with
      | mk result hub' =>
        cases result with
        | error err =>
          obtain ⟨-, -, m, -, rfl⟩ := Handler.monitor_error hm
          exact Or.inl ⟨.of_watchers rfl rfl rfl, rfl⟩
        | ok h' => exact Or.inr ⟨engine, h, h', hub', rfl, rfl, hm, rfl, rfl⟩

/-- Asking for interest fails only if the reactor refuses the descriptor, and then it only forgets
that it was to refuse it. -/
theorem monitor_failed {err : Error} (hf : (w.monitor n e fd ev).2 = .failed err) :
    (w.monitor n e fd ev).1 =
      w.modifyReactor fun m => { m with refused := m.refused.filter (· ≠ fd) } := by
  unfold World.monitor at hf ⊢
  cases he : w.engines.get? e with
  | none =>
    rw [he] at hf
    cases hf
  | some engine =>
    cases hh : w.handlers.get? n with
    | none =>
      rw [he, hh] at hf
      cases hf
    | some h =>
      rw [he, hh] at hf
      dsimp only at hf ⊢
      cases hm : h.monitor engine fd ev w.hub with
      | mk result hub' =>
        rw [hm] at hf
        cases result with
        | ok h' => cases hf
        | error err' =>
          obtain ⟨-, -, m, hr, rfl⟩ := Handler.monitor_error hm
          rw [Manual.register_error hr]
          rfl

end World

namespace Config
variable {c c' : Config} {log : List Event}

/-- A watcher is held once. -/
theorem eq_of_mem_watchers (hr : Reached c log) {p q : Option (Nat × Fd)} {i : Nat}
    (hp : (p, i) ∈ (c.ledger log).watchers) (hq : (q, i) ∈ (c.ledger log).watchers) : p = q := by
  have hnodup := hr.owned.watchers.holds.nodup
  have heq := Multiset.inj_on_of_nodup_map hnodup (p, i) hp (q, i) hq rfl
  exact congrArg Prod.fst heq

/-- What handlers watch is what they were last asked for, and handlers that are yet to be made were
not asked. -/
structure Recorded (c : Config) (log : List Event) : Prop where
  follows : ∀ h ∈ c.world.live, ∀ fd,
    c.world.hub.Follows (h.watchers.get? fd) (lastAsked h.strand fd log)
  strand_lt : ∀ entry ∈ log, ∀ s fd, entry.asked? s fd ≠ none →
    s < c.world.hub.strands.length

theorem strands_le (hr : Reached c log) (hs : c.step = some c') :
    c.world.hub.strands.length ≤ c'.world.hub.strands.length := by
  have hrun := Run.keeps (P := fun L => c.world.hub.strands.length ≤ L.hub.roster.strands.length)
    hr (Run.refl.step hs)
    (fun hm _ hle => hle.trans (Ledger.strands_of_makes hm.makes))
    (fun _ _ hle => hle.trans (Ledger.strands_of_makes (Ledger.makes_finish _ _ _)))
    (Nat.le_refl _)
  exact hrun

namespace Recorded

private theorem keep (hr : Reached c log) (h : Recorded c log) (hs : c.step = some c')
    (hw : c.world.KeepsRegistry c'.world)
    (hnone : ∀ entry ∈ c.events, ∀ s fd, entry.asked? s fd = none) :
    Recorded c' (c.events.reverse ++ log) := by
  constructor
  · intro g hg fd
    rw [lastAsked_append fun entry hmem => hnone entry hmem g.strand fd]
    rcases hw.live g hg with ⟨g', hg', hstrand, hwatchers⟩ | ⟨hstrand, hwatchers⟩
    · rw [hstrand, hwatchers]
      obtain ⟨hsome, hwants⟩ := h.follows g' hg' fd
      refine ⟨hsome, fun i hi d => ?_⟩
      rw [hw.wants i (lt_of_get? hr hg' hi) ?_ d, hwants i hi d]
      intro hmem
      -- a watcher of a handler is not on its own
      have hown : (none, i) ∈ (c.ledger log).watchers :=
        Multiset.mem_add.mpr (Or.inr (Multiset.mem_map_of_mem _ hmem))
      cases eq_of_mem_watchers hr (mem_watchers_of_get? log hg' hi) hown
    · have hlast : lastAsked g.strand fd log = none := by
        unfold lastAsked
        rw [List.findSome?_eq_none_iff]
        intro entry hmem
        by_contra hasked
        have hlt := h.strand_lt entry hmem _ _ hasked
        omega
      rw [hwatchers, hlast]
      exact ⟨rfl, nofun⟩
  · intro entry hmem s fd hasked
    rcases List.mem_append.mp hmem with hmem | hmem
    · exact absurd (hnone entry (List.mem_reverse.mp hmem) s fd) hasked
    · exact (h.strand_lt entry hmem s fd hasked).trans_le (strands_le hr hs)

private theorem monitor (hr : Reached c log) (h : Recorded c log) (hs : c.step = some c')
    {n : Int} {engine : Nat} {fd : Fd} {ev : Events} {x x' : Handler} {hub' : Hub Manual}
    (hx : c.world.handlers.get? n = some x)
    (hm : x.monitor engine fd ev c.world.hub = (.ok x', hub'))
    (hw : c'.world = { c.world with
      hub := hub', handlers := c.world.handlers.insert n x' })
    (he : c.events = [.monitored x.strand engine fd ev]) :
    Recorded c' (c.events.reverse ++ log) := by
  have hlive := mem_live_of_get? hx
  have hr' := hr.step hs
  obtain ⟨hstrand, hfollows, hothers, hwants⟩ :=
    Handler.monitor_ok hm fun i hi => lt_of_get? hr hlive hi
  have hheld : ∀ g ∈ c.world.live, ∀ fd' i, g.watchers.get? fd' = some i →
      (g.strand, fd') ≠ (x.strand, fd) → ∀ d, hub'.wants i d = c.world.hub.wants i d := by
    intro g hg fd' i hi hne d
    refine hwants i (lt_of_get? hr hg hi) (fun hxi => hne ?_) d
    exact Option.some.inj (eq_of_mem_watchers hr (mem_watchers_of_get? log hg hi)
      (mem_watchers_of_get? log hlive hxi))
  have hkept : ∀ g ∈ c.world.live, ∀ fd', (g.strand, fd') ≠ (x.strand, fd) →
      hub'.Follows (g.watchers.get? fd') (lastAsked g.strand fd' (c.events.reverse ++ log)) := by
    intro g hg fd' hne
    rw [he, lastAsked_append]
    · obtain ⟨hsome, hall⟩ := h.follows g hg fd'
      exact ⟨hsome, fun i hi d => (hheld g hg fd' i hi hne d).trans (hall i hi d)⟩
    · intro entry hmem
      rw [List.mem_singleton.mp hmem]
      exact asked?_of_ne fun heq => hne heq.symm
  have hx' : x' ∈ c'.world.live := by
    rw [hw]
    exact mem_live_of_get? (Table.get?_insert_self ..)
  have hhub : c'.world.hub = hub' := by rw [hw]
  constructor
  · intro g hg fd'
    rw [hhub]
    by_cases hgs : g.strand = x.strand
    · have hgx : g = x' := eq_of_strand hr' hg hx' (hgs.trans hstrand.symm)
      subst hgx
      by_cases hfd : fd' = fd
      · subst hfd
        have hlast : lastAsked g.strand fd' (c.events.reverse ++ log) = some ev := by
          rw [he, hstrand]
          simp [lastAsked, Event.asked?]
        rw [hlast]
        exact hfollows
      · have hne : (x.strand, fd') ≠ (x.strand, fd) := fun heq => hfd (Prod.mk.inj heq).2
        rw [hothers fd' hfd, hstrand]
        exact hkept x hlive fd' hne
    · have hlive' : g = x' ∨ g ∈ c.world.live := by
        refine World.mem_live_of_insert (w := c.world) (n := n) ?_ (fun g' hg' => ?_) hg
        · rw [hw]
        · rw [hw] at hg'
          exact List.mem_append.mpr (Or.inr hg')
      have hne : (g.strand, fd') ≠ (x.strand, fd) := fun heq => hgs (Prod.mk.inj heq).1
      refine hkept g (hlive'.resolve_left fun heq => hgs ?_) fd' hne
      rw [heq, hstrand]
  · intro entry hmem s fd' hasked
    refine Nat.lt_of_lt_of_le ?_ (strands_le hr hs)
    rcases List.mem_append.mp hmem with hmem | hmem
    · rw [he, List.reverse_singleton] at hmem
      rw [List.mem_singleton.mp hmem] at hasked
      have hsx : x.strand = s := by
        by_contra hne
        exact hasked (asked?_of_ne fun heq => hne (Prod.mk.inj heq).1)
      have hstrands : x.strand ∈ (c.ledger log).handlers := strand_mem_handlers hlive
      have hlt := hr.owned.strand_lt (Or.inl hstrands)
      rw [hsx] at hlt
      change s < (c.world.hub.strands).length at hlt
      exact hlt
    · exact h.strand_lt entry hmem s fd' hasked

private theorem step (hr : Reached c log) (h : Recorded c log) (hs : c.step = some c') :
    Recorded c' (c.events.reverse ++ log) := by
  by_cases hop : ∃ n e fd ev todo, c.frame.todo = .monitor n e fd ev :: todo
  · obtain ⟨n, e, fd, ev, todo, ht⟩ := hop
    have hstep := step_of_ended ht (rfl : c.world.perform (.monitor n e fd ev) =
      World.ended (c.world.monitor n e fd ev))
    have hworld : c'.world = (c.world.monitor n e fd ev).1 :=
      congrArg Config.world (Option.some.inj (hs.symm.trans hstep))
    have hevents : c.events = c.world.events (.monitor n e fd ev) := by
      unfold events
      rw [ht]
    rcases c.world.monitor_cases n e fd ev with ⟨hkeeps, hnone⟩ |
        ⟨engine, x, x', hub', -, hx, hm, hw, he⟩
    · refine h.keep hr hs (hworld ▸ hkeeps) fun entry hmem => ?_
      rw [hevents, hnone] at hmem
      exact absurd hmem List.not_mem_nil
    · exact h.monitor hr hs hx hm (hworld.trans (congrArg Prod.fst hw)) (hevents.trans he)
  · have hop' : ∀ n e fd ev todo, c.frame.todo ≠ .monitor n e fd ev :: todo :=
      fun n e fd ev todo ht => hop ⟨n, e, fd, ev, todo, ht⟩
    obtain ⟨hkeeps, hnone⟩ := keepsRegistry_step hs hop'
    exact h.keep hr hs hkeeps hnone

end Recorded

theorem Reached.recorded (hr : Reached c log) : Recorded c log := by
  obtain ⟨ops, hrun⟩ := hr
  induction hrun with
  | refl =>
    exact ⟨fun _ hh => absurd hh List.not_mem_nil, fun _ hmem => absurd hmem List.not_mem_nil⟩
  | step hrun hs ih => exact ih.step ⟨ops, hrun⟩ hs
  | more _ _ _ ih => exact ⟨ih.follows, ih.strand_lt⟩

/-- A handler watches a descriptor if it last accepted a mask with bits for it. -/
theorem isWatching_iff (hr : Reached c log) {h : Handler} (hh : h ∈ c.world.live) (fd : Fd) :
    h.isWatching fd = true ↔
      ∃ mask, lastAsked h.strand fd log = some mask ∧ mask.bits ≠ 0 := by
  have hsome := (hr.recorded.follows h hh fd).isSome_eq
  unfold Handler.isWatching Table.contains
  rw [hsome, Option.any_eq_true]
  simp only [Events.isEmpty, Bool.not_eq_true', beq_eq_false_iff_ne]

/-- The interest in a descriptor is the mask that was last accepted, if it has bits, without those
that have no meaning. -/
theorem interest_eq (hr : Reached c log) {h : Handler} (hh : h ∈ c.world.live) (fd : Fd) :
    h.interest fd c.world.hub =
      ((lastAsked h.strand fd log).filter (·.bits ≠ 0)).map Events.known := by
  obtain ⟨hsome, hwants⟩ := hr.recorded.follows h hh fd
  unfold Handler.interest
  cases hi : h.watchers.get? fd with
  | none =>
    rw [hi, Option.isSome_none, eq_comm, Option.any_eq_false] at hsome
    rw [Option.bind_none, eq_comm, Option.map_eq_none_iff, Option.filter_eq_none_iff]
    intro mask hmask
    simpa [Events.isEmpty] using hsome mask hmask
  | some i =>
    rw [hi, Option.isSome_some, eq_comm, Option.any_eq_true] at hsome
    obtain ⟨mask, hmask, hbits⟩ := hsome
    have hlt := lt_of_get? hr hh hi
    have hx : c.world.hub.watchers[i]? = some c.world.hub.watchers[i] :=
      List.getElem?_eq_getElem hlt
    have hside (d : Direction) :
        (c.world.hub.watchers[i].sides.get d).wanted = mask.wants d := by
      have hw := hwants i hi d
      rw [hmask, Hub.wants, hx] at hw
      exact hw
    have hinterest : c.world.hub.watchers[i].interest = mask.known := by
      rw [← Events.ofSides_wants, ← hside .read, ← hside .write]
      rfl
    have hne : mask.bits ≠ 0 := by simpa [Events.isEmpty] using hbits
    rw [Option.bind_some, hx, Option.map_some, hinterest, hmask, Option.filter_some]
    simp [hne]

/-- The law of the registry. At every point of every run, a handler that is alive watches the
descriptors for which the mask that it last accepted has any bit, known or not. Its interest in them
is that mask without unknown bits, in others it has none, and it counts them. Asking for interest
fails only without changing anything, but that the reactor forgets to refuse the descriptor. -/
theorem registry_law (hr : Reached c log) :
    (∀ h ∈ c.world.live,
      (∀ fd, (h.isWatching fd = true ↔
          ∃ mask, lastAsked h.strand fd log = some mask ∧ mask.bits ≠ 0) ∧
        h.interest fd c.world.hub =
          ((lastAsked h.strand fd log).filter (·.bits ≠ 0)).map Events.known) ∧
      ∃ fds : List Fd, fds.Nodup ∧ fds.length = h.watcherCount ∧ ∀ fd, fd ∈ fds ↔
        ∃ mask, lastAsked h.strand fd log = some mask ∧ mask.bits ≠ 0) ∧
    ∀ n e fd ev todo c' err, c.frame.todo = .monitor n e fd ev :: todo → c.step = some c' →
      c'.frame.entries = .mk (.failed err) [] :: c.frame.entries →
      c'.world = c.world.modifyReactor fun m =>
        { m with refused := m.refused.filter (· ≠ fd) } := by
  constructor
  · intro h hh
    refine ⟨fun fd => ⟨isWatching_iff hr hh fd, interest_eq hr hh fd⟩, ?_⟩
    refine ⟨h.watchers.toList.map (·.1), h.watchers.nodup_keys, List.length_map .., fun fd => ?_⟩
    rw [← isWatching_iff hr hh fd, Table.mem_keys, Handler.isWatching, Table.contains]
  · intro n e fd ev todo c' err ht hs hentries
    have hstep := step_of_ended ht (rfl : c.world.perform (.monitor n e fd ev) =
      World.ended (c.world.monitor n e fd ev))
    have heq := Option.some.inj (hs.symm.trans hstep)
    rw [heq] at hentries ⊢
    have hreply : (c.world.monitor n e fd ev).2 = .failed err :=
      (Entry.mk.inj (List.cons.inj hentries).1).1
    exact World.monitor_failed hreply

/-- An engine that is told of a descriptor removes it and asks for it with unknown bits only. Later
another descriptor is refused. -/
def refusing : List Op :=
  [.newHandler 0,
    .newEngine 0 { process := [[.monitor 0 0 5 .none, .monitor 0 0 5 ⟨12⟩]] } false,
    .monitor 0 0 5 ⟨9⟩, .complete 5 .read (.ok ()), .refuse 7, .monitor 0 0 7 .readable]

/-- In the call, the descriptor is watched without interest. The refusal changes nothing. -/
theorem registry_law_refusing :
    (sample refusing 6).1.calls.length = 1 ∧
      (∀ h ∈ (sample refusing 6).1.world.live, h.strand = 0 → h.isWatching 5 = true ∧
        h.interest 5 (sample refusing 6).1.world.hub = some .none) ∧
      (sample refusing 9).1.frame.entries.head? =
        some (.mk (.failed (.registration 7 (.ofKind .permissionDenied))) []) ∧
      (sample refusing 9).1.world = (sample refusing 8).1.world.modifyReactor fun m =>
        { m with refused := m.refused.filter (· ≠ 7) } := by
  refine ⟨rfl, ?_, rfl, ?_⟩
  · intro h hh hstrand
    obtain ⟨hwatching, hinterest⟩ := ((registry_law (reached_sample refusing 6)).1 h hh).1 5
    rw [hstrand] at hwatching hinterest
    exact ⟨hwatching.mpr ⟨⟨12⟩, rfl, by decide⟩, hinterest⟩
  · exact (registry_law (reached_sample refusing 8)).2 0 0 7 .readable [] _ _ rfl rfl rfl

end Config
end Scenario
end Wakeup
