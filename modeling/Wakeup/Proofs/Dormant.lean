import Wakeup.Proofs.Enlisted
import Wakeup.Proofs.Private

/-! A direction of a watcher for which no wait is armed stays so until it is asked for. Then one is
armed. -/
namespace Wakeup.Scenario

namespace Ledger
variable {L L' : Ledger} {s i : Nat} {fd : Fd} {d : Direction}

/-- A watcher that can only be held for one descriptor of a handler. -/
structure Stationed (s : Nat) (fd : Fd) (i : Nat) (L : Ledger) : Prop where
  lt : i < L.hub.roster.watched.length
  placed : ∀ place, (place, i) ∈ L.watchers → place = some (s, fd)

namespace Stationed

private theorem makes (hm : Makes L L') (ho : Owned L) (h : Stationed s fd i L) :
    Stationed s fd i L' := by
  refine ⟨h.lt.trans_le (watched_of_makes hm).length_le, fun place hmem => ?_⟩
  rcases place_watcher_of_makes hm hmem with hmem | heq
  · exact h.placed place hmem
  · have hlt := h.lt
    rw [ho.watchers.length_eq] at hlt
    exact absurd heq hlt.ne

end Stationed

/-- No wait for a direction of a watcher is accounted for, and no engine is being told of it. -/
structure Dormant (i : Nat) (d : Direction) (L : Ledger) : Prop where
  idle : L.hub.isPending i d = false
  untold : ∀ call ∈ L.calls, call.processes i d = false

namespace Dormant

theorem of_same (h : Dormant i d L) (hs : L'.hub.side? i d = L.hub.side? i d)
    (hc : L'.calls = L.calls) : Dormant i d L' :=
  ⟨(Hub.isPending_congr hs).trans h.idle, hc ▸ h.untold⟩

private theorem newWatcher (h : Dormant i d L) {s j : Nat} {fd : Fd} {hub : Hub Manual}
    (hn : L.hub.newWatcher s fd = (.ok j, hub)) (ws : Multiset (Option (Nat × Fd) × Nat)) :
    Dormant i d { L with hub := hub, watchers := ws } := by
  refine ⟨?_, h.untold⟩
  have hidle := h.idle
  unfold Hub.isPending at hidle ⊢
  dsimp only
  rw [Hub.side?_newWatcher hn]
  split
  · rfl
  · exact hidle

/-- The direction is asked for, or it is left as it is. -/
theorem setInterest (h : Dormant i d L) (hst : Stationed s fd i L) {place : Option (Nat × Fd)}
    {j : Nat} (e : Nat) (ev : Events) (hmem : (place, j) ∈ L.watchers) :
    Dormant i d { L with hub := L.hub.setInterest j e ev, log := asked place e ev ++ L.log } ∨
      ∃ entry : Event, entry.asks s fd d = true ∧
        asked place e ev ++ L.log = entry :: L.log := by
  by_cases hj : j = i
  · subst hj
    cases hst.placed place hmem
    cases hev : ev.wants d with
    | true => exact Or.inr ⟨.monitored s e fd ev, by simp [Event.asks, hev], rfl⟩
    | false =>
      refine Or.inl ⟨?_, h.untold⟩
      have hidle := h.idle
      unfold Hub.isPending at hidle ⊢
      dsimp only
      rw [Hub.side?_setInterest, if_pos rfl, Option.any_map]
      simpa only [Function.comp_def, hev, Bool.or_false] using hidle
  · left
    exact h.of_same ((Hub.side?_setInterest ..).trans (if_neg hj)) rfl

private theorem retire (h : Dormant i d L) (j : Nat) :
    Dormant i d { L with hub := L.hub.retire j } := by
  refine ⟨?_, h.untold⟩
  have hidle := h.idle
  unfold Hub.isPending at hidle ⊢
  dsimp only
  rw [Hub.side?_retire]
  split
  · rwa [Option.any_map]
  · exact hidle

/-- No wait for the direction is left to complete. -/
theorem complete (h : Dormant i d L) (hwaits : Waits L) {wait : Wait} {ws : Multiset Wait}
    (o : Outcome) (hk : L.kept = wait ::ₘ ws) :
    Dormant i d { L with
      hub := (L.hub.begin wait.callback o).1
      kept := ws
      calls := (L.hub.begin wait.callback o).2.toList ++ L.calls
      log := .completed wait o (serves L.hub wait.callback) :: L.log } := by
  constructor
  · have hidle := h.idle
    unfold Hub.isPending at hidle ⊢
    dsimp only
    rw [Hub.side?_begin]
    split
    · rw [Option.any_map]
      cases L.hub.side? i d <;> rfl
    · exact hidle
  · intro call hmem
    rcases List.mem_append.mp hmem with hcall | hcall
    · rw [← Bool.not_eq_true]
      intro hp
      obtain ⟨howner, -⟩ := Call.processes_iff.mp hp
      have hcall' := Option.mem_toList.mp hcall
      rcases Hub.call_of_begin hcall' with ⟨j, d', x, hx, hcb, howner', -⟩ | ⟨t, x, -, -, howner', -⟩
      · rw [howner] at howner'
        cases howner'
        have hsome := Hub.isSome_begin L.hub wait.callback o
        rw [Option.mem_def.mp hcall', Option.isSome_some, hcb] at hsome
        have hreaches := (Bool.and_eq_true_iff.mp (Bool.and_eq_true_iff.mp hsome.symm).1).1
        simp only [Hub.reaches, hx, Option.any_some, Bool.and_eq_true] at hreaches
        -- a watcher that lasts has no wait for a direction that is not pending
        have hclaims := Waits.not_claims_of (i := i) (d := d) hwaits ?_ ?_
          (Or.inr (hk ▸ Multiset.mem_cons_self wait ws))
        · rw [hcb, (claims_ready call.engine i d i d).mpr ⟨rfl, rfl⟩] at hclaims
          cases hclaims
        · have hidle := h.idle
          unfold Hub.isPending Hub.side? at hidle
          rw [hx, Option.map_some, Option.any_some] at hidle
          rw [Waiting.claims_eq hwaits (Hub.posts_of_getElem? hx) hreaches.1 d]
          exact if_neg (by simp [Post.ofWatcher, get_pendingSides, hidle])
        · intro p hp'
          rw [Hub.posts_of_getElem? hx] at hp'
          rw [← Option.some.inj hp']
          exact hreaches.1
      · rw [howner] at howner'
        cases howner'
    · exact h.untold call hcall

theorem finish (h : Dormant i d L) {call : Call} {cs : List Call} (hc : L.calls = call :: cs) :
    Dormant i d (L.finish call cs) := by
  have huntold : call.processes i d = false := h.untold call (hc ▸ List.mem_cons_self)
  refine ⟨?_, fun call' hmem => h.untold call' (hc ▸ List.mem_cons_of_mem _ hmem)⟩
  refine (Hub.isPending_congr ((Hub.side?_finish L.hub call i d).trans (if_neg ?_))).trans h.idle
  rw [huntold]
  exact Bool.false_ne_true

/-- A direction stays dormant until it is asked for. -/
theorem move (hm : Move L L') (hwaits : Waits L) (hst : Stationed s fd i L) (h : Dormant i d L) :
    Dormant i d L' ∨ ∃ ev : Event, ev.asks s fd d = true ∧ L'.log = ev :: L.log := by
  cases hm with
  | newWatcher _ _ hn => exact Or.inl (h.newWatcher hn _)
  | setInterest e ev hmem => exact h.setInterest hst e ev hmem
  | retire => exact Or.inl (h.retire _)
  | dropWatcher => exact Or.inl (h.of_same (Hub.side?_dropWatcher ..) rfl)
  | setHeartbeat => exact Or.inl (h.of_same (Hub.side?_congr (Calm.setHeartbeat ..).watchers i d) rfl)
  | stopHeartbeat =>
    exact Or.inl (h.of_same (Hub.side?_congr (Calm.stopHeartbeat ..).watchers i d) rfl)
  | dropHeartbeat =>
    exact Or.inl (h.of_same (Hub.side?_congr (Calm.dropHeartbeat ..).watchers i d) rfl)
  | complete o hk => exact Or.inl (h.complete hwaits o hk)
  | _ => exact Or.inl (h.of_same rfl rfl)

end Dormant
end Ledger

namespace Config
open Ledger
variable {c c' : Config} {log log' : List Event} {s i : Nat} {fd : Fd} {d : Direction} {h : Handler}

theorem stationed_of_get? (hr : Reached c log) (hh : h ∈ c.world.live)
    (hget : h.watchers.get? fd = some i) : Stationed h.strand fd i (c.ledger log) := by
  have hmem := mem_watchers_of_get? log hh hget
  constructor
  · rw [hr.owned.watchers.length_eq]
    exact hr.owned.watchers.holds.lt (Multiset.mem_map_of_mem (·.2) hmem)
  · intro place hplace
    have heq := Multiset.inj_on_of_nodup_map hr.owned.watchers.holds.nodup _ hplace _ hmem rfl
    exact congrArg Prod.fst heq

private theorem dormant_of_run (hr : Reached c log) (hst : Stationed s fd i (c.ledger log))
    (hd : Dormant i d (c.ledger log)) (hrun : Run c c' log')
    (hnot : ∀ ev ∈ log', ev.asks s fd d = false) : Dormant i d (c'.ledger (log' ++ log)) := by
  refine Run.keeps_until (P := fun L => L.InUse ∧ L.Waits ∧ Stationed s fd i L)
    (E := fun ev => ev.asks s fd d = true) hr hrun ?_ ?_ ⟨hr.inUse, hr.waits, hst⟩ hd
    fun ev hmem hasks => Bool.false_ne_true ((hnot ev hmem).symm.trans hasks)
  · intro L L' hm ho ⟨hu, hw, hst⟩
    exact ⟨⟨.move hm ho hu, .move hm ho hw, .makes hm.makes ho hst⟩, fun h => Dormant.move hm hw hst h⟩
  · intro L call cs hc ho ⟨hu, hw, hst⟩
    exact ⟨⟨hu.finish hc, .finish ho hu hw hc, .makes (makes_finish _ _ _) ho hst⟩,
      fun h => h.finish hc⟩

/-- Of a direction of a watcher for which no wait is accounted for there is none to be run. -/
theorem unconsumed_of_dormant (hr : Reached c log) (hd : Dormant i d (c.ledger log)) {x : Watcher}
    (hx : c.world.hub.watchers[i]? = some x) (ha : x.presence.alive = true) :
    c.world.unconsumed i d = 0 ∧ thrownAway log i d = 0 := by
  have hclaims := claims_le_one hr i d hx ha
  have hidle : c.world.hub.isPending i d = false := hd.idle
  unfold Hub.isPending Hub.side? at hidle
  rw [hx, Option.map_some, Option.any_some] at hidle
  rw [hidle, if_neg Bool.false_ne_true] at hclaims
  omega

/-- A handler is asked for a direction for which no wait is accounted for. -/
theorem unconsumed_monitor (hr : Reached c log) (hd : Dormant i d (c.ledger log)) {n a : Int}
    {e : Nat} {ev : Events} {todo : List Op} (ht : c.frame.todo = .monitor n a fd ev :: todo)
    (ha : c.world.engines.get? a = some e) (hn : c.world.handlers.get? n = some h)
    (hget : h.watchers.get? fd = some i) (hev : ev.wants d = true) :
    ∃ c', c.step = some c' ∧ c'.world.unconsumed i d = 1 := by
  have hh := mem_live_of_get? hn
  have hlt := lt_of_get? hr hh hget
  have hx : c.world.hub.watchers[i]? = some c.world.hub.watchers[i] := List.getElem?_eq_getElem hlt
  have halive := ((alive_iff hr hh hx).mpr (Or.inl hget)).1
  obtain ⟨-, hthrown⟩ := unconsumed_of_dormant hr hd hx halive
  have hempty : ev.isEmpty = false := by
    rw [← Bool.not_eq_true]
    intro hc
    rw [Events.wants_of_isEmpty hc] at hev
    cases hev
  have hmonitor : h.monitor e fd ev c.world.hub = (.ok h, c.world.hub.setInterest i e ev) := by
    unfold Handler.monitor
    rw [hget]
    simp only [hempty, Bool.false_eq_true, if_false]
  have hperform : c.world.perform (.monitor n a fd ev) =
      World.ended ((c.world.monitor n a fd ev).1, .done) := by
    simp only [World.perform, World.monitor, ha, hn, hmonitor]
  have hs := step_of_ended ht hperform
  refine ⟨_, hs, ?_⟩
  have hr' := hr.step hs
  have hevents : c.events = [.monitored h.strand e fd ev] := by
    unfold events
    rw [ht]
    simp only [World.events, ha, hn, hmonitor]
  -- after the step the side is pending, and nothing was thrown away in it
  have hworld : (c.world.monitor n a fd ev).1.hub = c.world.hub.setInterest i e ev := by
    simp only [World.monitor, ha, hn, hmonitor]
  have hside := Hub.side?_setInterest c.world.hub i e ev i d
  rw [if_pos rfl, Hub.side?, Hub.side?, hx, Option.map_some, Option.map_some] at hside
  obtain ⟨y, hy, heq⟩ := Option.map_eq_some_iff.mp hside
  have hroster := congrArg (·.watchers[i]?) (Hub.roster_setInterest c.world.hub i e ev)
  rw [(Hub.roster_of_getElem? hy).2, (Hub.roster_of_getElem? hx).2] at hroster
  have hclaims := claims_le_one hr' i d (x := y) (by rw [← hy, ← hworld])
    ((congrArg Presence.alive (Option.some.inj hroster)).trans halive)
  rw [heq, hevents] at hclaims
  simp only [hev, Bool.or_true, if_true] at hclaims
  change _ + ([Event.monitored h.strand e fd ev] ++ log).countP _ = 1 at hclaims
  unfold thrownAway at hthrown
  rw [List.countP_append, hthrown] at hclaims
  exact hclaims

/-- As long as a handler is not asked for a direction, no wait for it can be run; and when it is
asked for it, one is armed. -/
def Asleep (s : Nat) (fd : Fd) (i : Nat) (d : Direction) (c : Config) : Prop :=
  ∀ c' log', Run c c' log' → (∀ ev ∈ log', ev.asks s fd d = false) →
    ∀ h ∈ c'.world.live, h.strand = s → h.watchers.get? fd = some i →
      c'.world.unconsumed i d = 0 ∧
      ∀ n a e ev todo, c'.frame.todo = .monitor n a fd ev :: todo →
        c'.world.engines.get? a = some e → c'.world.handlers.get? n = some h →
        ev.wants d = true → ∃ c'', c'.step = some c'' ∧ c''.world.unconsumed i d = 1

theorem asleep_of_dormant (hr : Reached c log) (hst : Stationed s fd i (c.ledger log))
    (hd : Dormant i d (c.ledger log)) : c.Asleep s fd i d := by
  intro c' log' hrun hnot h hh hs hget
  have hr' := hr.run hrun
  have hd' := dormant_of_run hr hst hd hrun hnot
  have hlt := lt_of_get? hr' hh hget
  have hx : c'.world.hub.watchers[i]? = some c'.world.hub.watchers[i] :=
    List.getElem?_eq_getElem hlt
  have halive := ((alive_iff hr' hh hx).mpr (Or.inl hget)).1
  refine ⟨(unconsumed_of_dormant hr' hd' hx halive).1, ?_⟩
  intro n a e ev todo ht ha hn hev
  exact unconsumed_monitor hr' hd' ht ha hn hget hev

end Config
end Wakeup.Scenario
