import Wakeup.Proofs.Granted
import Wakeup.Proofs.Teardown

/-! Only wanted readiness is forwarded. An engine is told that a descriptor is ready in a direction
that was in the mask that its handler last accepted, and once a descriptor was removed nothing comes
of it any more. -/
namespace Wakeup

/-- Removing a descriptor succeeds, and retires and drops the watcher for it if there is one. -/
theorem Handler.monitor_of_isEmpty (h : Handler) (e : Nat) (fd : Fd) {ev : Events}
    (hev : ev.isEmpty = true) (hub : Hub Manual) :
    ∃ (h' : Handler) (hub' : Hub Manual), h.monitor e fd ev hub = (.ok h', hub') ∧
      h'.strand = h.strand ∧
      ∀ i, h.watchers.get? fd = some i → hub' = (hub.retire i).dropWatcher i := by
  unfold monitor
  cases hi : h.watchers.get? fd with
  | none => exact ⟨h, hub, if_pos hev, rfl, nofun⟩
  | some i =>
    refine ⟨{ h with watchers := h.watchers.erase fd }, (hub.retire i).dropWatcher i, if_pos hev,
      rfl, ?_⟩
    rintro j ⟨⟩
    rfl

namespace Scenario.Config
open Ledger
variable {c c' c₁ c₂ : Config} {log log₁ : List Event} {fd : Fd} {ev : Events} {call : Call}

/-- A step in which an engine begins to be told that a descriptor is ready. -/
def ProcessBegins (c c' : Config) (call : Call) (fd : Fd) (ev : Events) : Prop :=
  c.step = some c' ∧ c'.calls = call :: c.calls ∧ call.notice = .process fd ev

/-- An engine is told of readiness only by a watcher that wants it. -/
theorem exists_watcher_of_process (h : ProcessBegins c c' call fd ev) :
    ∃ i d r, call.owner = .watcher i d ∧
      c.world.hub.roster.watched[i]? = some (r, call.strand) ∧ r.fd = fd ∧
      ev = .ofDirection d ∧ c.world.hub.wants i d = true := by
  obtain ⟨hs, hc, hn⟩ := h
  obtain ⟨wait, o, -, m, -, hbegin⟩ := begins_of_calls hs hc
  have hcall := @Hub.call_of_begin { c.world.hub with reactor := m } wait.callback o call
  rw [hbegin] at hcall
  rcases hcall rfl with ⟨i, d, x, hx, -, howner, hstrand, hnotice⟩ | ⟨t, x, -, -, -, -, hnotice⟩
  · rw [hn] at hnotice
    rcases hnotice with ⟨heq, hw⟩ | ⟨err, heq⟩
    · cases heq
      refine ⟨i, d, x.registration, howner, ?_, rfl, rfl, hw⟩
      rw [hstrand]
      exact (Hub.roster_of_getElem? hx).1
    · cases heq
  · rw [hn] at hnotice
    rcases hnotice with heq | ⟨err, heq⟩ <;> cases heq

theorem Reached.granted (hr : Reached c log) : (c.ledger log).Granted := by
  have hboth : (c.ledger log).Placed ∧ (c.ledger log).Granted :=
    hr.keeps (P := fun L => L.Placed ∧ L.Granted)
      (fun hm ho h => ⟨.move hm h.1, .move hm ho h.1 h.2⟩)
      (fun _ ho h => ⟨h.1, .finish ho h.2 _ _⟩) ⟨.empty, .empty⟩
  exact hboth.2

/-- A direction that a handler was last asked for without is not wanted. -/
theorem unwanted_of_lastAsked (hr : Reached c log) {h : Handler} (hh : h ∈ c.world.live)
    {mask : Events} {d : Direction} (hlast : lastAsked h.strand fd log = some mask)
    (hmask : mask.wants d = false) : Unwanted h.strand fd d (c.ledger log) := by
  intro i r hx hfd
  rw [← Bool.not_eq_true]
  intro hw
  obtain ⟨-, mask', hlast', hwants⟩ :=
    hr.granted i r h.strand d hx (strand_mem_handlers hh) hw
  rw [hfd] at hlast'
  have heq : mask' = mask := Option.some.inj (hlast'.symm.trans hlast)
  rw [heq, hmask] at hwants
  cases hwants

/-- Readiness in a direction that is not wanted is not forwarded before the handler is asked for
it. -/
theorem asks_of_processBegins (hr : Reached c log) {s : Nat} (hs : Private s false (c.ledger log))
    (hu : ∀ d, Unwanted s fd d (c.ledger log)) (hrun : Run c c₁ log₁)
    (hbegins : ProcessBegins c₁ c₂ call fd ev) (hstrand : call.strand = s) :
    ∃ d, ev = .ofDirection d ∧ ∃ entry ∈ log₁, entry.asks s fd d = true := by
  obtain ⟨i, d, r, -, hx, hfd, hev, hw⟩ := exists_watcher_of_process hbegins
  refine ⟨d, hev, ?_⟩
  by_contra hnot
  have hlater : Unwanted s fd d (c₁.ledger (log₁ ++ log)) := by
    refine Run.keeps_until (P := fun L => L.Placed ∧ Private s false L)
      (E := fun entry => entry.asks s fd d = true) hr hrun ?_ ?_ ⟨hr.placed, hs⟩ (hu d)
      fun entry hmem hasks => hnot ⟨entry, hmem, hasks⟩
    · intro L L' hm ho ⟨hp, hs⟩
      exact ⟨⟨.move hm hp, .makes hm.makes ho hs⟩, Unwanted.move hm ho hp hs⟩
    · intro L call cs _ ho ⟨hp, hs⟩
      exact ⟨⟨hp, .makes (makes_finish _ _ _) ho hs⟩, fun h => .finish ho h call cs⟩
  have hfalse := hlater i r (hstrand ▸ hx) hfd
  change c₁.world.hub.wants i d = false at hfalse
  rw [hw] at hfalse
  cases hfalse

/-- A watcher that was retired and given up forwards nothing and has no waits armed for it. -/
theorem retired_of_run (hr : Reached c log) {i : Nat} (hi : Retired i (c.ledger log))
    (hrun : Run c c₁ log₁) : Retired i (c₁.ledger (log₁ ++ log)) ∧
      Unarmed i c.world.hub.reactor.tickets (c₁.ledger (log₁ ++ log)) := by
  have hunarmed : Unarmed i c.world.hub.reactor.tickets (c.ledger log) :=
    fun w hw hn => absurd (hr.ticketed w hw) (Nat.not_lt_of_le hn)
  have hall := Run.keeps (P := fun L => L.Placed ∧ Retired i L ∧
      Unarmed i c.world.hub.reactor.tickets L) hr hrun
    (fun hm ho h => ⟨.move hm h.1, .move hm ho h.1 h.2.1, .move hm h.2.1 h.2.2⟩)
    (fun _ _ h => ⟨h.1, h.2.1.finish _ _, .finish h.2.1 h.2.2 _ _⟩)
    ⟨hr.placed, hi, hunarmed⟩
  exact hall.2

/-- A watcher that a handler removed is retired. -/
theorem retired_of_dropWatcher (hr : Reached c log) {hub : Hub Manual} {i : Nat}
    (hlt : i < hub.watchers.length) (hc : c.world.hub = (hub.retire i).dropWatcher i) :
    Retired i (c.ledger log) := by
  have hroster : c.world.hub.roster =
      { hub.roster with watchers := hub.roster.watchers.modify i .disown } := by
    rw [hc, Hub.roster_dropWatcher, Hub.roster_retire]
  constructor
  · change i < c.world.hub.roster.watched.length
    rw [hroster, Hub.roster, List.length_map]
    exact hlt
  · intro hmem
    have hkept := (hr.owned.watchers.holds.mem_iff i).mp hmem
    change (c.world.hub.roster.watchers[i]?).any _ = true at hkept
    rw [hroster, List.getElem?_modify_eq] at hkept
    obtain ⟨p, hp, hk⟩ := (Option.any_eq_true ..).mp hkept
    obtain ⟨q, -, rfl⟩ := Option.map_eq_some_iff.mp hp
    cases hk
  · intro d
    change c.world.hub.wants i d = false
    rw [hc, Hub.wants_congr (Hub.side?_dropWatcher _ _ _ _)]
    exact Hub.wants_retire hub i d

/-- The step that removes a descriptor of a handler. -/
theorem step_of_removal {n e : Int} {engine : Nat} {h : Handler} {todo : List Op}
    (he : c.world.engines.get? e = some engine) (hh : c.world.handlers.get? n = some h)
    (hev : ev.isEmpty = true) (ht : c.frame.todo = .monitor n e fd ev :: todo) :
    ∃ c' h', c.step = some c' ∧ c.events = [.monitored h.strand engine fd ev] ∧
      c'.frame = { c.frame with todo := todo, entries := .mk .done [] :: c.frame.entries } ∧
      h' ∈ c'.world.live ∧ h'.strand = h.strand ∧ ∀ i, h.watchers.get? fd = some i →
        c'.world.hub = (c.world.hub.retire i).dropWatcher i := by
  obtain ⟨h', hub', hmonitor, hstrand, hremoved⟩ :=
    h.monitor_of_isEmpty engine fd hev c.world.hub
  let w' : World := { c.world with hub := hub', handlers := c.world.handlers.insert n h' }
  have hp : c.world.perform (.monitor n e fd ev) = World.ended (w', .done) := by
    simp only [World.perform, World.monitor, he, hh, hmonitor]
    rfl
  have hevents : c.events = [.monitored h.strand engine fd ev] := by
    unfold events
    rw [ht]
    simp only [World.events, he, hh, hmonitor]
  have hlive : h' ∈ w'.live := mem_live_of_get? (Table.get?_insert_self _ n h')
  exact ⟨_, h', step_of_ended ht hp, hevents, rfl, hlive, hstrand, hremoved⟩

/-- Only wanted readiness is forwarded. A handler that is alive forwards readiness in one direction,
and that is in the mask that it last accepted for the descriptor. Removing a descriptor succeeds,
and from then on the watcher that was removed forwards nothing and has no waits armed for it, and
readiness of the descriptor is forwarded only in directions that were asked for since. -/
theorem only_wanted_readiness (hr : Reached c log) :
    (∀ c' call fd ev, ProcessBegins c c' call fd ev → ∀ h ∈ c.world.live,
      call.strand = h.strand → ∃ d mask, ev = .ofDirection d ∧
        lastAsked h.strand fd log = some mask ∧ mask.wants d = true) ∧
    ∀ (n e : Int) (fd : Fd) (ev : Events) (todo : List Op) (engine : Nat) (h : Handler),
      c.frame.todo = .monitor n e fd ev :: todo → c.world.engines.get? e = some engine →
      c.world.handlers.get? n = some h → ev.isEmpty = true →
      ∃ c', c.step = some c' ∧
        c'.frame = { c.frame with todo := todo, entries := .mk .done [] :: c.frame.entries } ∧
        ∀ c₁ log₁, Run c' c₁ log₁ →
          (∀ i, h.watchers.get? fd = some i →
            (∀ c₂ call fd' ev', ProcessBegins c₁ c₂ call fd' ev' →
              call.owner.part ≠ .watcher i) ∧
            ∀ wait ∈ c₁.world.waits, wait.callback.part? = some (.watcher i) →
              wait.ticket < c'.world.hub.reactor.tickets) ∧
          ∀ c₂ call ev', ProcessBegins c₁ c₂ call fd ev' → call.strand = h.strand →
            ∃ d, ev' = .ofDirection d ∧ ∃ entry ∈ log₁, entry.asks h.strand fd d = true := by
  constructor
  · intro c' call fd ev hbegins h hh hstrand
    obtain ⟨i, d, r, -, hx, hfd, hev, hw⟩ := exists_watcher_of_process hbegins
    obtain ⟨-, mask, hlast, hmask⟩ :=
      hr.granted i r h.strand d (hstrand ▸ hx) (strand_mem_handlers hh) hw
    exact ⟨d, mask, hev, hfd ▸ hlast, hmask⟩
  · intro n e fd ev todo engine h ht he hh hev
    obtain ⟨c', h', hs, hevents, hframe, hlive, hstrand, hremoved⟩ :=
      step_of_removal he hh hev ht
    have hr' := hr.step hs
    have hlast : lastAsked h'.strand fd (c.events.reverse ++ log) = some ev := by
      rw [hevents, hstrand]
      simp [lastAsked, Event.asked?]
    refine ⟨c', hs, hframe, fun c₁ log₁ hrun => ⟨fun i hi => ?_, ?_⟩⟩
    · have hlt := lt_of_get? hr (mem_live_of_get? hh) hi
      have hretired := retired_of_dropWatcher hr' hlt (hremoved i hi)
      obtain ⟨hretired₁, hunarmed⟩ := retired_of_run hr' hretired hrun
      constructor
      · intro c₂ call fd' ev' hbegins hpart
        obtain ⟨j, d, r, howner, -, -, -, hw⟩ := exists_watcher_of_process hbegins
        rw [howner] at hpart
        cases hpart
        have hfalse := hretired₁.unwanted d
        change c₁.world.hub.wants i d = false at hfalse
        rw [hw] at hfalse
        cases hfalse
      · intro wait hmem hpart
        by_contra hle
        exact hunarmed wait (World.mem_waits.mp hmem) (not_lt.mp hle) hpart
    · intro c₂ call ev' hbegins hstrand'
      rw [← hstrand] at hstrand' ⊢
      exact asks_of_processBegins hr' (private_of_live hr' hlive)
        (fun d => unwanted_of_lastAsked hr' hlive hlast (Events.wants_of_isEmpty hev d)) hrun
        hbegins hstrand'

/-- An engine that is told that a descriptor can be read removes it, and meanwhile the descriptor
can be written as well. -/
def unwatching : List Op :=
  [.newHandler 0,
    .newEngine 0 { process := [[.monitor 0 0 5 .none, .complete 5 .write (.ok ())]] } false,
    .monitor 0 0 5 ⟨3⟩, .complete 5 .read (.ok ())]

/-- Reading was asked for, and after the removal nothing is forwarded of the wait for writing. -/
theorem only_wanted_readiness_unwatching :
    (∃ mask, lastAsked 0 5 (sample unwatching 3).2 = some mask ∧ mask.wants .read = true) ∧
      (sample unwatching 5).1.frame.todo = [.complete 5 .write (.ok ())] ∧
      ∀ call ev, call.strand = 0 →
        ¬ProcessBegins (sample unwatching 5).1 (sample unwatching 6).1 call 5 ev := by
  refine ⟨?_, rfl, ?_⟩
  · have hbegins : ProcessBegins (sample unwatching 3).1 (sample unwatching 4).1
        ⟨.watcher 0 .read, 0, 0, .process 5 ⟨1⟩⟩ 5 ⟨1⟩ := ⟨rfl, rfl, rfl⟩
    have h := (only_wanted_readiness (reached_sample unwatching 3)).1 _ _ _ _ hbegins
      ⟨0, some 0, (∅ : Table Nat).insert 5 0⟩ (List.mem_singleton.mpr rfl) rfl
    obtain ⟨d, mask, hd, hlast, hmask⟩ := h
    cases d with
    | read => exact ⟨mask, hlast, hmask⟩
    | write => cases hd
  · intro call ev hstrand hbegins
    have h := (only_wanted_readiness (reached_sample unwatching 4)).2 0 0 5 .none
      [.complete 5 .write (.ok ())] 0 ⟨0, some 0, (∅ : Table Nat).insert 5 0⟩ rfl rfl rfl rfl
    obtain ⟨c', hs, -, hlater⟩ := h
    cases hs
    obtain ⟨d, -, entry, hmem, -⟩ := (hlater _ [] .refl).2 _ call ev hbegins hstrand
    exact absurd hmem List.not_mem_nil

end Scenario.Config
end Wakeup
