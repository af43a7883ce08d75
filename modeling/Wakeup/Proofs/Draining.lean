import Wakeup.Proofs.Bindings
import Wakeup.Proofs.Bursts
import Wakeup.Proofs.Closing
import Wakeup.Proofs.Conservation
import Wakeup.Proofs.Departed
import Wakeup.Proofs.Dormant

/-! What is left of an engine that is dropped. Waits that were armed for it complete to no effect,
and none takes their place, until other engines ask for what it waited for. -/
namespace Wakeup

/-- Whether a wait is for an engine. -/
def Wait.isFor (e : Nat) (wait : Wait) : Bool := wait.callback.engine? == some e

theorem Wait.isFor_iff {e : Nat} {wait : Wait} :
    wait.isFor e = true ↔ wait.callback.engine? = some e := beq_iff_eq

/-- The waits that are armed one after the other. -/
theorem Manual.mem_ready_armEach {i e : Nat} {r : Registration} {d : Direction}
    {news : List (Direction × Nat)} (h : (d, e) ∈ news) (m : Manual) :
    ∃ ticket, m.tickets ≤ ticket ∧ ⟨r, d, ⟨ticket, .ready i d e⟩⟩ ∈ (m.armEach i r news).ready := by
  induction news generalizing m with
  | nil => exact absurd h List.not_mem_nil
  | cons new news ih =>
    have hkept (news : List (Direction × Nat)) (m : Manual) :
        ∀ x ∈ m.ready, x ∈ (m.armEach i r news).ready := by
      induction news generalizing m with
      | nil => exact fun _ hx => hx
      | cons new news ih => exact fun x hx => ih _ x (List.mem_append_left _ hx)
    rcases List.mem_cons.mp h with rfl | h
    · refine ⟨m.tickets, Nat.le_refl _, hkept news _ _ ?_⟩
      exact List.mem_append_right _ (List.mem_singleton_self _)
    · obtain ⟨ticket, hle, hmem⟩ := ih h (m.arm r new.1 (.ready i new.1 new.2))
      exact ⟨ticket, (Nat.le_succ _).trans hle, hmem⟩

namespace Scenario

/-- How many waits for an engine there are, in the reactor and out of it. -/
def World.boundTo (e : Nat) (w : World) : Nat := w.waits.countP (Wait.isFor e)

namespace Config
variable {c c' c₀ : Config} {log log' : List Event} {e : Nat}

theorem nodup_places (hr : Reached c log) :
    (log.filterMap Event.invoked? ++ c.world.waits).Nodup := by
  have hnodup := (Multiset.nodup_add.mp hr.balanced.waits_nodup).1
  change ((↑c.world.hub.reactor.waits + ↑c.world.slots.values : Multiset Wait) +
    ↑(log.filterMap Event.invoked?)).Nodup at hnodup
  rw [Multiset.add_comm, Multiset.coe_add, Multiset.coe_add] at hnodup
  exact hnodup

/-- A wait that is completed is gone for good. -/
theorem notMem_waits_of_completed (hr : Reached c log) {wait : Wait} {o : Outcome} {served : Bool}
    (h : .completed wait o served ∈ log) : wait ∉ c.world.waits :=
  List.disjoint_of_nodup_append (nodup_places hr) (List.mem_filterMap.mpr ⟨_, h, rfl⟩)

namespace Departed

/-- Nothing is armed for an engine that is gone, so that what completes was armed before. -/
theorem mem_waits_of_run (hr : Reached c log) (h : Departed e c) (hrun : Run c c' log')
    {wait : Wait} (hfor : wait.callback.engine? = some e)
    (hmem : wait ∈ log'.filterMap Event.invoked? ++ c'.world.waits) : wait ∈ c.world.waits := by
  induction hrun generalizing wait with
  | refl => exact hmem
  | @step c₁ c₂ log₁ hrun hs ih =>
    rw [List.filterMap_append, List.append_assoc] at hmem
    rcases List.mem_append.mp hmem with hmem | hmem
    · obtain ⟨ev, hev, hinvoked⟩ := List.mem_filterMap.mp hmem
      cases ev with
      | completed wait' o served =>
        cases hinvoked
        exact ih hfor (List.mem_append_right _ (mem_waits_of_completed (List.mem_reverse.mp hev)))
      | _ => cases hinvoked
    · rcases List.mem_append.mp hmem with hmem | hmem
      · exact ih hfor (List.mem_append_left _ hmem)
      · rcases binds_step hs wait hmem with hmem | hengages
        · exact ih hfor (List.mem_append_right _ hmem)
        · have hlater := h.run hr hrun
          rcases hengages e hfor with ⟨n, hn⟩ | ⟨call, hc, heq⟩
          · exact absurd hn (hlater.nameless n)
          · exact absurd heq (hlater.engine_ne (hr.run hrun) hc)
  | more ops _ _ ih => exact ih hfor hmem

/-- The waits for an engine that is gone become fewer by those that complete. -/
theorem boundTo_le (hr : Reached c log) (h : Departed e c) (hrun : Run c c' log') :
    c'.world.boundTo e + (log'.filterMap Event.invoked?).countP (Wait.isFor e) ≤
      c.world.boundTo e := by
  have hnodup := nodup_places (hr.run hrun)
  rw [List.filterMap_append] at hnodup
  have hplaces : (log'.filterMap Event.invoked? ++ c'.world.waits).Nodup :=
    hnodup.sublist ((List.sublist_append_left _ _).append (List.Sublist.refl _))
  have hsub : (log'.filterMap Event.invoked? ++ c'.world.waits).filter (Wait.isFor e) ⊆
      c.world.waits.filter (Wait.isFor e) := by
    intro wait hmem
    obtain ⟨hmem, hfor⟩ := List.mem_filter.mp hmem
    exact List.mem_filter.mpr ⟨h.mem_waits_of_run hr hrun (Wait.isFor_iff.mp hfor) hmem, hfor⟩
  have hle := (List.subperm_of_subset (hplaces.filter _) hsub).length_le
  rw [← List.countP_eq_length_filter, ← List.countP_eq_length_filter, List.countP_append] at hle
  unfold World.boundTo
  omega

end Departed

/-- The completion of a wait for an engine that is gone begins no call. -/
theorem calls_of_departed (h : Departed e c) (hs : c.step = some c') {wait : Wait} {o : Outcome}
    {served : Bool} (hmem : .completed wait o served ∈ c.events)
    (hfor : wait.callback.engine? = some e) : c'.calls = c.calls := by
  rcases calls_step hs with ⟨call, -, hnone⟩ | ⟨wait', o', call?, hone, hbegins, hc⟩ | ⟨hc, -⟩
  · rw [hnone] at hmem
    exact absurd hmem List.not_mem_nil
  · rw [hone, List.mem_singleton] at hmem
    injection hmem with hwait
    subst hwait
    have hserves : serves c.world.hub wait.callback = false := by
      cases hcb : wait.callback with
      | bare tag => rfl
      | ready i d e' =>
        rw [hcb] at hfor
        cases hfor
        exact h.dead
      | beat t generation e' =>
        rw [hcb] at hfor
        cases hfor
        exact h.dead
    have hsome := hbegins.isSome_eq
    rw [hserves, Bool.and_false, Bool.false_and] at hsome
    rw [Option.isSome_eq_false_iff, Option.isNone_iff_eq_none] at hsome
    rw [hc, hsome]
    rfl
  · exact hc

/-- The watcher that a handler holds for a descriptor. -/
theorem watcher_of_get? (hr : Reached c log) {h : Handler} (hh : h ∈ c.world.live) {fd : Fd}
    {i : Nat} (hi : h.watchers.get? fd = some i) :
    ∃ x, c.world.hub.watchers[i]? = some x ∧ x.presence.alive = true ∧ x.fd = fd := by
  have hlt := lt_of_get? hr hh hi
  have hx : c.world.hub.watchers[i]? = some c.world.hub.watchers[i] := List.getElem?_eq_getElem hlt
  obtain ⟨halive, -, hfd⟩ := (alive_iff hr hh hx).mpr (Or.inl hi)
  exact ⟨_, hx, halive, hfd⟩

/-- A direction for which a wait completes is idle, if the watcher is still held. -/
theorem idle_of_completed (hr : Reached c log) (hs : c.step = some c') {wait : Wait} {o : Outcome}
    {served : Bool} (hmem : .completed wait o served ∈ c.events) {i e : Nat} {d : Direction}
    (hcb : wait.callback = .ready i d e) {h : Handler} (hh : h ∈ c'.world.live) {fd : Fd}
    (hi : h.watchers.get? fd = some i) : c'.world.hub.isPending i d = false := by
  have hclaims : wait.callback.claims i d = true := by
    rw [hcb]
    exact (claims_ready e i d i d).mpr ⟨rfl, rfl⟩
  have hop : ∀ n a fd ev todo, c.frame.todo ≠ .monitor n a fd ev :: todo := by
    intro n a fd ev todo ht
    unfold events at hmem
    rw [ht] at hmem
    rcases World.op_of_completed hmem with ⟨_, _, heq⟩ | ⟨_, heq⟩ | heq <;> cases heq
  -- the watcher was held before, so that it lasts
  obtain ⟨hkeeps, -⟩ := keepsRegistry_step hs hop
  obtain ⟨g, hg, hgi⟩ : ∃ g ∈ c.world.live, g.watchers.get? fd = some i := by
    rcases hkeeps.live h hh with ⟨g, hg, -, heq⟩ | ⟨-, heq⟩
    · exact ⟨g, hg, heq ▸ hi⟩
    · rw [heq] at hi
      cases hi
  obtain ⟨x, hx, halive, -⟩ := watcher_of_get? hr hg hgi
  rcases calls_step hs with ⟨call, -, hnone⟩ | ⟨wait', o', call?, hone, hbegins, -⟩ | ⟨-, honly⟩
  · rw [hnone] at hmem
    exact absurd hmem List.not_mem_nil
  · rw [hone, List.mem_singleton] at hmem
    injection hmem with hwait
    subst hwait
    obtain ⟨m, -, hbegin⟩ := hbegins
    have hlast : c.world.hub.watchers[i]?.any (·.presence.alive) = true := by
      rw [hx, Option.any_some]
      exact halive
    have hside := Hub.side?_begin { c.world.hub with reactor := m } wait.callback o' i d
    rw [hbegin, if_pos ⟨hclaims, hlast⟩] at hside
    unfold Hub.isPending
    rw [hside, Option.any_map]
    cases Hub.side? { c.world.hub with reactor := m } i d <;> rfl
  · obtain ⟨-, hparked, -⟩ := honly wait o served hmem
    have hnot := (((single_outstanding_wait hr).1 i _ hx halive) d).2.2 wait hparked
    rw [hclaims] at hnot
    cases hnot

/-- A handler holds the watcher of a descriptor after a step that does not ask it for nothing. -/
theorem get?_step (hr : Reached c log) (hs : c.step = some c') {s i : Nat} {fd : Fd}
    (hlt : s < c.world.hub.strands.length)
    (hheld : ∀ g ∈ c.world.live, g.strand = s → g.watchers.get? fd = some i)
    (hnot : ∀ a mask, .monitored s a fd mask ∈ c.events → mask.isEmpty = false) {g : Handler}
    (hg : g ∈ c'.world.live) (hstrand : g.strand = s) : g.watchers.get? fd = some i := by
  have hkept (h : c.world.KeepsRegistry c'.world) : g.watchers.get? fd = some i := by
    rcases h.live g hg with ⟨g', hg', heq, hwatchers⟩ | ⟨heq, -⟩
    · rw [hwatchers]
      exact hheld g' hg' (heq.symm.trans hstrand)
    · omega
  by_cases hop : ∃ n a fd' ev todo, c.frame.todo = .monitor n a fd' ev :: todo
  · obtain ⟨n, a, fd', ev, todo, ht⟩ := hop
    have hstep := step_of_ended ht (rfl : c.world.perform (.monitor n a fd' ev) =
      World.ended (c.world.monitor n a fd' ev))
    have hworld : c'.world = (c.world.monitor n a fd' ev).1 :=
      congrArg Config.world (Option.some.inj (hs.symm.trans hstep))
    have hevents : c.events = c.world.events (.monitor n a fd' ev) := by
      unfold events
      rw [ht]
    rcases c.world.monitor_cases n a fd' ev with ⟨hkeeps, -⟩ |
        ⟨engine, x, x', hub', -, hx, hm, hw, he⟩
    · exact hkept (hworld ▸ hkeeps)
    · rw [hw] at hworld
      have hlive := mem_live_of_get? hx
      have hlive' : g = x' ∨ g ∈ c.world.live := by
        refine World.mem_live_of_insert (congrArg World.handlers hworld) (fun g' hg' => ?_) hg
        rw [hworld] at hg'
        exact List.mem_append.mpr (Or.inr hg')
      rcases hlive' with rfl | hg
      · obtain ⟨hsame, -, hothers, -⟩ :=
          Handler.monitor_ok hm fun i hi => lt_of_get? hr hlive hi
        have hxi := hheld x hlive (hsame.symm.trans hstrand)
        by_cases hfd : fd' = fd
        · subst hfd
          have hev : ev.isEmpty = false := by
            refine hnot engine ev ?_
            rw [hevents, he, ← hsame, hstrand]
            exact List.mem_singleton_self _
          rw [Handler.monitor, hxi] at hm
          simp only [hev, Bool.false_eq_true, if_false] at hm
          cases hm
          exact hxi
        · rw [hothers fd fun heq => hfd heq.symm]
          exact hxi
      · exact hheld g hg hstrand
  · exact hkept (keepsRegistry_step hs fun n a fd' ev todo ht => hop ⟨n, a, fd', ev, todo, ht⟩).1

/-- A handler holds the watcher of a descriptor until it is asked for nothing of it. -/
theorem get?_of_run (hr : Reached c log) {h : Handler} (hh : h ∈ c.world.live) {fd : Fd} {i : Nat}
    (hi : h.watchers.get? fd = some i) (hrun : Run c c' log')
    (hnot : ∀ a mask, .monitored h.strand a fd mask ∈ log' → mask.isEmpty = false) :
    ∀ g ∈ c'.world.live, g.strand = h.strand → g.watchers.get? fd = some i := by
  have hmem : h.strand ∈ (c.ledger log).handlers := strand_mem_handlers hh
  have hlt : h.strand < c.world.hub.strands.length := hr.owned.strand_lt (Or.inl hmem)
  have hall : h.strand < c'.world.hub.strands.length ∧
      ∀ g ∈ c'.world.live, g.strand = h.strand → g.watchers.get? fd = some i := by
    induction hrun with
    | refl => exact ⟨hlt, fun g hg hs => eq_of_strand hr hg hh hs ▸ hi⟩
    | step hrun hs ih =>
      have hr' := hr.run hrun
      obtain ⟨hlt', hheld⟩ := ih fun a mask hmem => hnot a mask (List.mem_append_right _ hmem)
      refine ⟨hlt'.trans_le (strands_le hr' hs), fun g hg hstrand => ?_⟩
      refine get?_step hr' hs hlt' hheld (fun a mask hmem => ?_) hg hstrand
      exact hnot a mask (List.mem_append_left _ (List.mem_reverse.mpr hmem))
    | more ops _ _ ih => exact ih hnot
  exact hall.2

/-- The reactor has a registration for each watcher that a handler holds. -/
theorem live_pos_of_get? (hr : Reached c log) {h : Handler} (hh : h ∈ c.world.live) {fd : Fd}
    {i : Nat} (hi : h.watchers.get? fd = some i) :
    0 < (c.world.hub.reactor.live.get? fd).getD 0 := by
  obtain ⟨x, hx, halive, hfd⟩ := watcher_of_get? hr hh hi
  rw [(single_outstanding_wait hr).2.2 fd]
  refine Nat.add_pos_left (List.countP_pos_iff.mpr ⟨_, List.mem_of_getElem? hx, ?_⟩) _
  rw [halive, hfd, beq_self_eq_true]
  rfl

/-- The interest in a descriptor stays until a handler is asked for another. -/
theorem interest_of_run (hr : Reached c log) {h g : Handler} (hh : h ∈ c.world.live)
    (hrun : Run c c' log') (hg : g ∈ c'.world.live) (hs : g.strand = h.strand) {fd : Fd}
    (hnone : lastAsked h.strand fd log' = none) :
    g.interest fd c'.world.hub = h.interest fd c.world.hub := by
  rw [interest_eq (hr.run hrun) hg, interest_eq hr hh, hs]
  unfold lastAsked at hnone ⊢
  rw [List.findSome?_append, hnone, Option.none_or]

/-- A direction that is idle is armed when it is asked for. -/
theorem armed_of_request (hr : Reached c log) {n a : Int} {h : Handler} {fd : Fd} {i engine : Nat}
    {d : Direction} {ev : Events} {todo : List Op}
    (ht : c.frame.todo = .monitor n a fd ev :: todo) (ha : c.world.engines.get? a = some engine)
    (hh : c.world.handlers.get? n = some h) (hi : h.watchers.get? fd = some i)
    (hidle : c.world.hub.isPending i d = false) (hev : ev.wants d = true) :
    ∃ c' x, c.step = some c' ∧ x ∈ c'.world.hub.reactor.ready ∧ x.registration.fd = fd ∧
      x.direction = d ∧ x.wait.callback = .ready i d engine ∧ x.wait ∉ c.world.waits := by
  have hlive := mem_live_of_get? hh
  obtain ⟨x, hx, -, hfd⟩ := watcher_of_get? hr hlive hi
  have hempty : ev.isEmpty = false := by
    rw [← Bool.not_eq_true]
    intro hc
    rw [Events.wants_of_isEmpty hc] at hev
    cases hev
  let q : Request := ⟨a, engine, ev⟩
  obtain ⟨hs, -⟩ := step_request (q := q) ht hh (.watched hi hx) ha hempty
  have hfresh : (d, engine) ∈ x.fresh engine ev := by
    unfold Hub.isPending Hub.side? at hidle
    rw [hx, Option.map_some, Option.any_some] at hidle
    refine List.mem_map.mpr ⟨d, List.mem_filter.mpr ⟨by cases d <;> decide, ?_⟩, rfl⟩
    rw [hev, hidle]
    rfl
  obtain ⟨ticket, hle, hmem⟩ := Manual.mem_ready_armEach (i := i)
    (r := x.registration) hfresh c.world.hub.reactor
  refine ⟨_, _, hs, hmem, hfd, rfl, rfl, fun hwait => ?_⟩
  have hwaits : (⟨ticket, .ready i d engine⟩ : Wait) ∈ (c.account log).waits := by
    refine Multiset.mem_add.mpr (Or.inl (Multiset.mem_add.mpr (Or.inl ?_)))
    exact hwait
  exact absurd (hr.balanced.ticket_lt hwaits) (Nat.not_lt.mpr hle)

/-- How an engine that is gone drains away, from one point of a run to a later one. -/
structure Drains (e : Nat) (c₀ c : Config) (log : List Event) : Prop where
  /-- The engine is not called. -/
  uncalled : ∀ call ∈ c.calls, call.engine ≠ e
  /-- No wait is armed for it. -/
  unarmed : ∀ wait ∈ c.world.waits, wait.callback.engine? = some e → wait ∈ c₀.world.waits
  /-- Its waits become fewer by those that complete. -/
  bound : c.world.boundTo e + (log.filterMap Event.invoked?).countP (Wait.isFor e) ≤
    c₀.world.boundTo e
  /-- The completion of a wait for it calls no engine, and the wait is gone for good. -/
  completion : ∀ wait o served c', wait.callback.engine? = some e → c.step = some c' →
    .completed wait o served ∈ c.events →
    wait ∈ c.world.waits ∧ c'.calls = c.calls ∧ c'.world.boundTo e < c.world.boundTo e ∧
      ∀ c'' log'', Run c' c'' log'' → wait ∉ c''.world.waits
  /-- The direction for which it waited is idle then, and stays so until it is asked for, unless an
  engine is being told of it. -/
  rest : ∀ wait o served c' i d, wait.callback = .ready i d e → c.step = some c' →
    .completed wait o served ∈ c.events → ∀ h ∈ c'.world.live, ∀ fd,
      h.watchers.get? fd = some i → c'.world.hub.isPending i d = false ∧
        ((∀ call ∈ c.calls, call.processes i d = false) → c'.Asleep h.strand fd i d)
  /-- Handlers hold their watchers, and the reactor has registrations for them, until they are asked
  for nothing of a descriptor. Interest stays until it is changed. -/
  held : ∀ h ∈ c₀.world.live, ∀ fd i, h.watchers.get? fd = some i →
    (∀ a mask, .monitored h.strand a fd mask ∈ log → mask.isEmpty = false) →
    ∀ g ∈ c.world.live, g.strand = h.strand →
      g.watchers.get? fd = some i ∧ 0 < (c.world.hub.reactor.live.get? fd).getD 0 ∧
        (lastAsked h.strand fd log = none →
          g.interest fd c.world.hub = h.interest fd c₀.world.hub)
  /-- A direction that is idle is armed, for another engine, when that asks for it. -/
  rearmed : ∀ n a h fd i engine d ev todo, c.frame.todo = .monitor n a fd ev :: todo →
    c.world.engines.get? a = some engine → c.world.handlers.get? n = some h →
    h.watchers.get? fd = some i → c.world.hub.isPending i d = false → ev.wants d = true →
    engine ≠ e ∧ ∃ c' x, c.step = some c' ∧ x ∈ c'.world.hub.reactor.ready ∧
      x.registration.fd = fd ∧ x.direction = d ∧ x.wait.callback = .ready i d engine ∧
        x.wait ∉ c.world.waits

private theorem Departed.drains (hr : Reached c₀ log) (h : Departed e c₀) (hrun : Run c₀ c log') :
    Drains e c₀ c log' := by
  have hr' := hr.run hrun
  have hlater := h.run hr hrun
  constructor
  · exact fun call hc => hlater.engine_ne hr' hc
  · exact fun wait hmem hfor => h.mem_waits_of_run hr hrun hfor (List.mem_append_right _ hmem)
  · exact h.boundTo_le hr hrun
  · intro wait o served c' hfor hs hmem
    refine ⟨mem_waits_of_completed hmem, calls_of_departed hlater hs hmem hfor, ?_, ?_⟩
    · have hle := hlater.boundTo_le hr' (Run.refl.step hs)
      have hpos :
          0 < ((c.events.reverse ++ []).filterMap Event.invoked?).countP (Wait.isFor e) := by
        refine List.countP_pos_iff.mpr ⟨wait, List.mem_filterMap.mpr ?_, Wait.isFor_iff.mpr hfor⟩
        exact ⟨_, List.mem_append_left _ (List.mem_reverse.mpr hmem), rfl⟩
      omega
    · intro c'' log'' hrun'
      have hlog : .completed wait o served ∈ log'' ++ (c.events.reverse ++ (log' ++ log)) :=
        List.mem_append_right _ (List.mem_append_left _ (List.mem_reverse.mpr hmem))
      exact notMem_waits_of_completed ((hr'.step hs).run hrun') hlog
  · intro wait o served c' i d hcb hs hmem g hg fd hi
    have hidle := idle_of_completed hr' hs hmem hcb hg hi
    refine ⟨hidle, fun huntold => ?_⟩
    have hcalls : c'.calls = c.calls :=
      calls_of_departed hlater hs hmem (hcb ▸ rfl)
    have hr'' := hr'.step hs
    refine asleep_of_dormant hr'' (stationed_of_get? hr'' hg hi) ⟨hidle, fun call hc => ?_⟩
    have hc' : call ∈ c'.calls := hc
    exact huntold call (hcalls ▸ hc')
  · intro x hx fd i hi hnot g hg hs
    have hgi := get?_of_run hr hx hi hrun hnot g hg hs
    exact ⟨hgi, live_pos_of_get? hr' hg hgi, interest_of_run hr hx hrun hg hs⟩
  · intro n a x fd i engine d ev todo ht ha hx hi hidle hev
    refine ⟨fun heq => hlater.nameless a (heq ▸ ha), ?_⟩
    exact armed_of_request hr' ht ha hx hi hidle hev

/-- A dropped engine drains away. To drop an engine that is not being called changes no wait, no
handler and no watcher. From then on, inside calls too, it is not called and no wait is armed for
it. Each wait for it that completes, with whatever outcome, calls no engine and is gone for good, so
that there are fewer and fewer. Watchers and interest stay as they are, and a direction that is idle
is armed when another engine asks for it. -/
theorem dropped_engine_drains (hr : Reached c log) {op : Op} {todo : List Op} {n : Int}
    (ht : c.frame.todo = op :: todo) (hop : op.Drops n) (hn : c.world.engines.get? n = some e)
    (hidle : ∀ call ∈ c.calls, call.engine ≠ e) :
    ∃ c₀, c.step = some c₀ ∧ c₀.world.waits = c.world.waits ∧
      c₀.world.handlers = c.world.handlers ∧ c₀.world.hub.watchers = c.world.hub.watchers ∧
      ∀ c₁ log₁ c₂ log₂, Run c₀ c₁ log₁ → Run c₁ c₂ log₂ → Drains e c₁ c₂ log₂ := by
  obtain ⟨w, hp, hsame⟩ : ∃ w, c.world.perform op = World.ended (w, .done) ∧
      w.waits = c.world.waits ∧ w.handlers = c.world.handlers ∧
        w.hub.watchers = c.world.hub.watchers := by
    cases hop with
    | dropped =>
      refine ⟨(c.world.dropEngine n).1, ?_, ?_⟩
      · simp only [World.perform, World.dropEngine, hn]
      · rw [World.dropEngine, hn]
        exact ⟨rfl, rfl, rfl⟩
    | replaced script plain =>
      refine ⟨c.world.newEngine n script plain, rfl, ?_⟩
      rw [World.newEngine, hn]
      exact ⟨rfl, rfl, rfl⟩
  have hs := step_of_ended ht hp
  obtain ⟨hwaits, hhandlers, hwatchers⟩ := hsame
  refine ⟨_, hs, hwaits, hhandlers, hwatchers, fun c₁ log₁ c₂ log₂ hrun hrun' => ?_⟩
  have hr' := hr.step hs
  exact ((departed_of_drops hr ht hop hn hidle hs).run hr' hrun).drains (hr'.run hrun) hrun'

/-- One engine waits for both directions of a descriptor and for a heartbeat when it is dropped. One
of its waits completes, and another engine asks for that direction. -/
def leaving : List Op :=
  [.newHandler 0, .newEngine 0 {} false, .newEngine 1 {} false, .monitor 0 0 5 ⟨3⟩,
    .negotiate 0 0 5, .dropEngine 0, .complete 5 .read (.ok ()), .monitor 0 1 5 .readable]

/-- The wait that completes is not followed by another before the other engine asks. -/
theorem dropped_engine_drains_leaving :
    (sample leaving 6).1.world.boundTo 0 = 3 ∧ (sample leaving 7).1.calls = [] ∧
      (sample leaving 7).1.world.boundTo 0 = 2 ∧
      (sample leaving 7).1.world.hub.isPending 0 .read = false ∧
      ∃ x ∈ (sample leaving 8).1.world.hub.reactor.ready, x.wait.callback = .ready 0 .read 1 := by
  obtain ⟨c₀, hs, -, -, -, hdrains⟩ := dropped_engine_drains (e := 0) (n := 0)
    (reached_sample leaving 5) rfl .dropped rfl (by decide)
  cases hs
  have hcompletes := hdrains _ [] _ [] .refl .refl
  have hrun : Run (sample leaving 6).1 (sample leaving 7).1
      ((sample leaving 6).1.events.reverse ++ []) := Run.refl.step rfl
  have hmem : .completed ⟨0, .ready 0 .read 0⟩ (.ok ()) false ∈ (sample leaving 6).1.events :=
    List.mem_singleton.mpr rfl
  obtain ⟨-, hcalls, -, -⟩ := hcompletes.completion _ _ _ (sample leaving 7).1 rfl rfl hmem
  have hlive : (⟨0, some 0, (∅ : Table Nat).insert 5 0⟩ : Handler) ∈
      (sample leaving 7).1.world.live := List.mem_singleton.mpr rfl
  obtain ⟨hidle, -⟩ :=
    hcompletes.rest _ _ _ (sample leaving 7).1 0 .read rfl rfl hmem _ hlive 5 rfl
  obtain ⟨-, c', x, hs, hx, -, -, hcb, -⟩ :=
    (hdrains _ [] _ _ .refl hrun).rearmed 0 1 _ 5 0 1 .read .readable [] rfl rfl rfl rfl hidle rfl
  cases hs
  exact ⟨by decide, hcalls, by decide, hidle, x, hx, hcb⟩

end Config
end Scenario
end Wakeup
