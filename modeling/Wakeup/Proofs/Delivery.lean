import Wakeup.Proofs.Closing
import Wakeup.Proofs.Enlisted
import Wakeup.Proofs.Registry

/-! Readiness goes to the engine that is enlisted: the one that last asked for the direction while
no wait for it was outstanding. -/
namespace Wakeup

/-- To ask for a direction is to set the interest of the watcher that the handler holds for the
descriptor, or of one that is made for it. -/
theorem Handler.monitor_of_wants {h h' : Handler} {e : Nat} {fd : Fd} {ev : Events}
    {d : Direction} {hub hub' : Hub Manual} (hm : h.monitor e fd ev hub = (.ok h', hub'))
    (hd : ev.wants d = true) :
    ∃ i hub₁, h'.strand = h.strand ∧ h'.watchers.get? fd = some i ∧
      hub' = hub₁.setInterest i e ev ∧
      (h.watchers.get? fd = some i ∧ hub₁ = hub ∨
        h.watchers.get? fd = none ∧ hub.newWatcher h.strand fd = (.ok i, hub₁)) := by
  have hev : ev.isEmpty = false := by
    rw [← Bool.not_eq_true]
    intro hev
    rw [Events.wants_of_isEmpty hev] at hd
    cases hd
  unfold monitor at hm
  cases hi : h.watchers.get? fd with
  | some i =>
    simp only [hi, hev, Bool.false_eq_true, if_false] at hm
    cases hm
    exact ⟨i, hub, rfl, hi, rfl, Or.inl ⟨rfl, rfl⟩⟩
  | none =>
    simp only [hi, hev, Bool.false_eq_true, if_false] at hm
    cases hn : hub.newWatcher h.strand fd with
    | mk result hub₁ =>
      rw [hn] at hm
      cases result with
      | error err => cases hm
      | ok i =>
        cases hm
        exact ⟨i, hub₁, rfl, Table.get?_insert_self .., rfl, Or.inr ⟨rfl, rfl⟩⟩

theorem Handler.exists_of_interest {h : Handler} {fd : Fd} {ev : Events} {d : Direction}
    {hub : Hub Manual} (hev : h.interest fd hub = some ev) (hd : ev.wants d = true) :
    ∃ i x, h.watchers.get? fd = some i ∧ hub.watchers[i]? = some x ∧
      (x.sides.get d).wanted = true := by
  obtain ⟨i, hi, hev⟩ := Option.bind_eq_some_iff.mp hev
  obtain ⟨x, hx, rfl⟩ := Option.map_eq_some_iff.mp hev
  refine ⟨i, x, hi, hx, ?_⟩
  rw [Watcher.interest, Events.wants_ofSides] at hd
  cases d <;> exact hd

namespace Scenario

private theorem Event.asks_iff {s : Nat} {fd : Fd} {d : Direction} {entry : Event} :
    entry.asks s fd d = true ↔ ∃ e ev, entry = .monitored s e fd ev ∧ ev.wants d = true := by
  constructor
  · intro h
    cases entry with
    | monitored s' e fd' ev =>
      simp only [asks, Bool.and_eq_true, beq_iff_eq] at h
      obtain ⟨⟨rfl, rfl⟩, hd⟩ := h
      exact ⟨e, ev, rfl, hd⟩
    | _ => cases h
  · rintro ⟨e, ev, rfl, hd⟩
    simp [asks, hd]

namespace Config
open Ledger
variable {c c' c₁ c₂ c₃ c₄ : Config} {log log₁ log₃ log₄ : List Event} {s e i : Nat} {fd : Fd}
  {d : Direction} {ev : Events}

/-- The step in which a handler accepts what an engine asks of a descriptor. -/
theorem step_of_monitored (hs : c.step = some c') (hmem : .monitored s e fd ev ∈ c.events) :
    ∃ n x x', c.world.engines.get? n = some e ∧ x ∈ c.world.live ∧ x.strand = s ∧
      x.monitor e fd ev c.world.hub = (.ok x', c'.world.hub) ∧ x' ∈ c'.world.live ∧
      c'.world.slots = c.world.slots := by
  have hasked : (Event.monitored s e fd ev).asked? s fd ≠ none := by simp [Event.asked?]
  obtain ⟨n, e', fd', ev', todo, ht⟩ :
      ∃ n e' fd' ev' todo, c.frame.todo = .monitor n e' fd' ev' :: todo := by
    by_contra hop
    exact hasked ((keepsRegistry_step hs fun n e' fd' ev' todo ht =>
      hop ⟨n, e', fd', ev', todo, ht⟩).2 _ hmem s fd)
  have hstep := step_of_ended ht (rfl : c.world.perform (.monitor n e' fd' ev') =
    World.ended (c.world.monitor n e' fd' ev'))
  have hworld : c'.world = (c.world.monitor n e' fd' ev').1 :=
    congrArg Config.world (Option.some.inj (hs.symm.trans hstep))
  have hevents : c.events = c.world.events (.monitor n e' fd' ev') := by
    unfold events
    rw [ht]
  rcases c.world.monitor_cases n e' fd' ev' with ⟨-, hnone⟩ |
      ⟨engine, x, x', hub', he, hx, hm, hw, hone⟩
  · rw [hevents, hnone] at hmem
    exact absurd hmem List.not_mem_nil
  · rw [hevents, hone, List.mem_singleton] at hmem
    cases hmem
    rw [hworld, hw]
    exact ⟨e', x, x', he, mem_live_of_get? hx, rfl, hm,
      mem_live_of_get? (Table.get?_insert_self ..), rfl⟩

/-- An engine asks a handler for a direction. The watcher for the descriptor was held before or is
new, and the engine for which its waits are armed stays enlisted if a wait was outstanding. If none
was, it is the engine that asks. -/
theorem enlisted_of_monitored (hr : Reached c log) (hs : c.step = some c')
    (hmem : .monitored s e fd ev ∈ c.events) (hd : ev.wants d = true) :
    ∃ i, (∀ j, (some (s, fd), j) ∈ (c'.ledger (c.events.reverse ++ log)).watchers → j = i) ∧
      (∀ j, (some (s, fd), j) ∈ (c.ledger log).watchers → j = i) ∧
      ((some (s, fd), i) ∈ (c.ledger log).watchers ∨ c.world.hub.watchers.length ≤ i) ∧
      ∀ e₀, (∀ w, (c.ledger log).HasWait w → w.callback.claims i d = true →
          w.callback = .ready i d e₀) → (c.world.hub.isPending i d = true ∨ e = e₀) →
        Enlisted i d e₀ (c'.ledger (c.events.reverse ++ log)) := by
  obtain ⟨-, x, x', -, hx, rfl, hm, hx', hslots⟩ := step_of_monitored hs hmem
  obtain ⟨i, hub₁, hstrand, hi, hhub, hor⟩ := Handler.monitor_of_wants hm hd
  have hr' := hr.step hs
  refine ⟨i, fun j hj => ?_, fun j hj => ?_, ?_, fun e₀ hbound hpending => ?_⟩
  · obtain ⟨y, hy, hys, hj'⟩ := exists_of_mem_watchers hj
    rw [eq_of_strand hr' hy hx' (hys.symm.trans hstrand.symm), hi] at hj'
    exact (Option.some.inj hj').symm
  · obtain ⟨y, hy, hys, hj'⟩ := exists_of_mem_watchers hj
    rw [eq_of_strand hr hy hx hys.symm] at hj'
    rcases hor with ⟨hi, -⟩ | ⟨hi, -⟩
    · exact Option.some.inj (hj'.symm.trans hi)
    · rw [hi] at hj'
      cases hj'
  · rcases hor with ⟨hi, -⟩ | ⟨-, hn⟩
    · exact Or.inl (mem_watchers_of_get? log hx hi)
    · obtain ⟨-, -, -, hlen, -⟩ := Hub.newWatcher_ok hn
      exact Or.inr hlen.ge
  · have hkept : (c'.ledger (c.events.reverse ++ log)).kept = (c.ledger log).kept :=
      congrArg (fun t : Table Wait => (t.values : Multiset Wait)) hslots
    rcases hor with ⟨hi, rfl⟩ | ⟨-, hn⟩
    · exact Enlisted.setInterest hbound (lt_of_get? hr hx hi) hd hpending hhub hkept
    · obtain ⟨r, m, hreg, hlen, hhub₁⟩ := Hub.newWatcher_ok hn
      obtain ⟨-, hm₁⟩ := Manual.register_ok hreg
      have hidle : c.world.hub.isPending i d = false := by
        rw [Hub.isPending, Hub.side?, hlen, List.getElem?_eq_none le_rfl]
        rfl
      have hlt : i < hub₁.watchers.length := by
        rw [hhub₁, hlen, List.length_append]
        exact Nat.lt_succ_self _
      have hbound₁ : ∀ w, HasWait { c.ledger log with hub := hub₁ } w →
          w.callback.claims i d = true → w.callback = .ready i d e₀ := by
        intro w hw
        refine hbound w (hw.imp (fun hw => ?_) id)
        rw [hhub₁, hm₁] at hw
        exact hw
      refine Enlisted.setInterest hbound₁ hlt hd (Or.inr ?_) hhub hkept
      exact hpending.resolve_left (by rw [hidle]; exact Bool.false_ne_true)

/-- A step in which a handler accepts that an engine asks for a direction of a descriptor for which
no wait is outstanding. A wait that was thrown away counts as outstanding. -/
def Enlists (s : Nat) (fd : Fd) (d : Direction) (e : Nat) (c c' : Config) : Prop :=
  c.step = some c' ∧ (∃ ev, .monitored s e fd ev ∈ c.events ∧ ev.wants d = true) ∧
    ∀ h ∈ c.world.live, h.strand = s → ∀ i, h.watchers.get? fd = some i →
      c.world.hub.isPending i d = false

/-- The runs from a configuration in which no step is of some kind. -/
inductive RunWithout (p : Config → Config → Prop) (c₀ : Config) : Config → List Event → Prop
  | refl : RunWithout p c₀ c₀ []
  | step {c c' : Config} {log : List Event} : RunWithout p c₀ c log → c.step = some c' →
      ¬p c c' → RunWithout p c₀ c' (c.events.reverse ++ log)
  | more {c : Config} {log : List Event} (ops : List Op) : RunWithout p c₀ c log →
      c.step = none → RunWithout p c₀ (c.world.start ops) log

theorem RunWithout.run {p : Config → Config → Prop} (h : RunWithout p c c' log) :
    Run c c' log := by
  induction h with
  | refl => exact .refl
  | step _ hs _ ih => exact ih.step hs
  | more ops _ hs ih => exact ih.more ops hs

/-- The engine that is enlisted is served from then on. -/
theorem serving_of_enlists (hr : Reached c log) (h : Enlists s fd d e c c') (i : Nat) :
    Serving s fd i d e (c'.ledger (c.events.reverse ++ log)) := by
  obtain ⟨hs, ⟨ev, hmem, hd⟩, hidle⟩ := h
  obtain ⟨n, x, x', he, -⟩ := step_of_monitored hs hmem
  obtain ⟨j, hone, -, hheld, henlisted⟩ := enlisted_of_monitored hr hs hmem hd
  have hwanes := Run.wanes hr (Run.refl.step hs)
  refine ⟨(hr.engine_lt he).trans_le hwanes.length_le, fun _ _ hi => ?_⟩
  rw [hone i hi]
  refine henlisted e (fun w hw hclaims => ?_) (Or.inr rfl)
  have hnone : w.callback.claims j d = false := by
    rcases hheld with hheld | hle
    · obtain ⟨y, hy, hys, hj⟩ := exists_of_mem_watchers hheld
      exact hr.waits.not_claims hr.owned hheld (hidle y hy hys.symm j hj) hw
    · exact hr.waits.not_claims_of_le hle hw
  rw [hnone] at hclaims
  cases hclaims

/-- It is served until another is enlisted, or a wait for the direction completes other than
ready. -/
theorem serving_step (hr : Reached c log) (hs : c.step = some c')
    (hnot : ∀ e', ¬Enlists s fd d e' c c') (hbreaks : ∀ ev ∈ c.events, ev.breaks i d = false)
    (h : Serving s fd i d e (c.ledger log)) :
    Serving s fd i d e (c'.ledger (c.events.reverse ++ log)) := by
  have hrun := Run.refl.step hs
  by_cases hasks : ∃ entry ∈ c.events, entry.asks s fd d = true
  · obtain ⟨entry, hmem, hasks⟩ := hasks
    obtain ⟨e', ev, rfl, hd⟩ := Event.asks_iff.mp hasks
    obtain ⟨j, hone, hunique, hheld, henlisted⟩ := enlisted_of_monitored hr hs hmem hd
    have hwanes := Run.wanes hr hrun
    -- the direction was asked for, so a wait was outstanding
    have hpending : c.world.hub.isPending j d = true := by
      rw [← Bool.not_eq_false]
      intro hidle
      refine hnot e' ⟨hs, ⟨ev, hmem, hd⟩, ?_⟩
      rintro y hy rfl k hk
      rw [hunique k (mem_watchers_of_get? log hy hk)]
      exact hidle
    have hheld' : (some (s, fd), j) ∈ (c.ledger log).watchers := by
      refine hheld.resolve_right fun hle => ?_
      rw [Hub.isPending, Hub.side?, List.getElem?_eq_none hle] at hpending
      cases hpending
    obtain ⟨y, hy, hys, -⟩ := exists_of_mem_watchers hheld'
    have hys' : s = y.strand := hys
    refine ⟨h.lt.trans_le hwanes.length_le, fun ha _ hi => ?_⟩
    rw [hone i hi]
    have hold := h.enlisted (hwanes.alive e h.lt ha) (hys' ▸ strand_mem_handlers hy)
      (hone i hi ▸ hheld')
    exact henlisted e (hone i hi ▸ hold.bound) (Or.inl hpending)
  · have hE : ∀ entry ∈ c.events.reverse ++ [],
        ¬(entry.asks s fd d = true ∨ entry.breaks i d = true) := by
      intro entry hmem hor
      rw [List.append_nil, List.mem_reverse] at hmem
      rcases hor with hor | hor
      · exact hasks ⟨entry, hmem, hor⟩
      · rw [hbreaks entry hmem] at hor
        cases hor
    have hkeeps := Run.keeps_until (P := fun L => L.InUse ∧ L.Waits) (B := Serving s fd i d e)
      (E := fun entry => entry.asks s fd d = true ∨ entry.breaks i d = true) hr hrun
      (fun hm ho h => ⟨⟨.move hm ho h.1, .move hm ho h.2⟩,
        fun hB => hB.move hm ho (.move hm ho h.2)⟩)
      (fun hc ho h => ⟨⟨h.1.finish hc, .finish ho h.1 h.2 hc⟩, fun hB => hB.finish hc⟩)
      ⟨hr.inUse, hr.waits⟩ h hE
    rwa [List.append_nil] at hkeeps

private theorem serving_of_run (hr : Reached c log) (he : Enlists s fd d e c c')
    (hrun : RunWithout (fun c c' => ∃ e', Enlists s fd d e' c c') c' c₁ log₁)
    (hbreaks : ∀ entry ∈ log₁, entry.breaks i d = false) :
    Serving s fd i d e (c₁.ledger (log₁ ++ (c.events.reverse ++ log))) := by
  have hr' := hr.step he.1
  induction hrun with
  | refl => exact serving_of_enlists hr he i
  | @step c₁ c₂ log₁ hrun hs hnot ih =>
    have hold := ih fun entry hmem => hbreaks entry (List.mem_append_right _ hmem)
    have hnew := serving_step (hr'.run hrun.run) hs (fun e' h => hnot ⟨e', h⟩)
      (fun entry hmem => hbreaks entry (List.mem_append_left _ (List.mem_reverse.mpr hmem))) hold
    rwa [List.append_assoc]
  | @more c₁ log₁ ops hrun hs ih =>
    obtain ⟨hc, hi⟩ := eq_outside_of_step_eq_none (hr'.run hrun.run).grounded hs
    have hold := ih hbreaks
    rw [Config.ledger, hc, hi] at hold
    exact hold

/-- A wait for a direction that is wanted completes ready: the engine that is enlisted is told of
it, and no other. -/
theorem calls_of_completed (hr : Reached c log) (hserving : Serving s fd i d e (c.ledger log))
    {h : Handler} (hh : h ∈ c.world.live) (hstrand : h.strand = s)
    (hi : h.watchers.get? fd = some i) {x : Watcher} (hx : c.world.hub.watchers[i]? = some x)
    (hwanted : (x.sides.get d).wanted = true) (he : c.world.hub.engineAlive e = true)
    (hs : c.step = some c') {wait : Wait} {o : Outcome} {served : Bool}
    (hmem : .completed wait o served ∈ c.events) (hclaims : wait.callback.claims i d = true)
    (hv : Verdict.of o = .proceed) :
    c'.calls = ⟨.watcher i d, s, e, .process fd (.ofDirection d)⟩ :: c.calls := by
  subst hstrand
  have ho := hr.owned
  have hstrand : h.strand ∈ (c.ledger log).handlers := strand_mem_handlers hh
  have hplace := mem_watchers_of_get? log hh hi
  have hcb := (hserving.enlisted he hstrand hplace).bound wait
    (World.mem_waits.mp (mem_waits_of_completed hmem)) hclaims
  rcases calls_step hs with ⟨-, -, hnone⟩ | ⟨wait', o', call?, hone, ⟨m, -, hbegin⟩, hc⟩ |
      ⟨-, hcanceled⟩
  · rw [hnone] at hmem
    exact absurd hmem List.not_mem_nil
  · rw [hone, List.mem_singleton] at hmem
    injection hmem with hw ho'
    subst hw ho'
    obtain ⟨y, hy, halive⟩ := Hub.alive_of_roster (Waits.alive_of_mem ho hplace)
    have hxy : y = x := Option.some.inj (hy.symm.trans hx)
    subst hxy
    obtain ⟨htitle, -⟩ := Hub.roster_of_getElem? hy
    obtain ⟨hfd, hs'⟩ := ho.watchers.placed hplace _ htitle
    have hfd' : y.fd = fd := hfd
    have hs'' : y.strand = h.strand := hs'
    have hlasts : c.world.hub.strandAlive y.strand = true := by
      rw [hs'']
      exact ho.strandAlive_of_mem hstrand
    have hcall := @Hub.begin_of_wanted { c.world.hub with reactor := m } i e d o y hx halive
      hlasts hv hwanted he
    rw [← hcb, hbegin] at hcall
    have hcall' : call? = some ⟨.watcher i d, y.strand, e, .process y.fd (.ofDirection d)⟩ := hcall
    rw [hc, hcall', hfd', hs'']
    rfl
  · rw [(hcanceled wait o served hmem).1] at hv
    cases hv

/-- A watcher that is not held in a place is never held in it later. -/
theorem notMem_watchers_of_run (hr : Reached c log) (hrun : Run c c₁ log₁)
    {place : Option (Nat × Fd)} (hlt : i < c.world.hub.watchers.length)
    (hnot : (place, i) ∉ (c.ledger log).watchers) :
    (place, i) ∉ (c₁.ledger (log₁ ++ log)).watchers := by
  have hkeep {L L' : Ledger} (hm : Makes L L') (ho : Owned L)
      (h : i < L.hub.roster.watched.length ∧ (place, i) ∉ L.watchers) :
      i < L'.hub.roster.watched.length ∧ (place, i) ∉ L'.watchers := by
    refine ⟨h.1.trans_le (watched_of_makes hm).length_le, fun hmem => ?_⟩
    have heq := (place_watcher_of_makes hm hmem).resolve_left h.2
    have hlt := h.1
    rw [ho.watchers.length_eq, heq] at hlt
    exact lt_irrefl _ hlt
  have hall := Run.keeps (P := fun L => i < L.hub.roster.watched.length ∧ (place, i) ∉ L.watchers)
    hr hrun (fun hm ho h => hkeep hm.makes ho h)
    (fun _ ho h => hkeep (makes_finish _ _ _) ho h) ⟨?_, hnot⟩
  · exact hall.2
  · change i < (c.world.hub.watchers.map _).length
    rwa [List.length_map]

/-- A call ends in which an engine was told of a direction that is still wanted, and the watcher is
the one that told it: a wait is outstanding. -/
theorem pending_of_return (hr : Reached c log) (hs : c.step = some c') {call : Call}
    (hc : c.calls = call :: c'.calls) (hp : call.processes i d = true) {x : Watcher}
    (hx : c'.world.hub.watchers[i]? = some x) (hwanted : (x.sides.get d).wanted = true) :
    (x.sides.get d).pending = true := by
  have hside : (c'.ledger (c.events.reverse ++ log)).hub.side? i d = some (x.sides.get d) := by
    change c'.world.hub.side? i d = _
    rw [Hub.side?, hx, Option.map_some]
  rw [ledger_of_return hr hs hc] at hside
  change ((c.ledger log).hub.finish call).side? i d = _ at hside
  rw [Hub.side?_finish, if_pos hp] at hside
  obtain ⟨y, -, hy⟩ := Option.map_eq_some_iff.mp hside
  rw [← hy] at hwanted ⊢
  have hwanted' : y.wanted = true := hwanted
  simp [hwanted']

/-- After the call returned, a wait for the direction is outstanding if the direction is still
wanted, unless one was thrown away. If the descriptor was removed and asked for again meanwhile, a
wait of the new watcher may have failed instead. -/
theorem outstanding_of_return (hr₁ : Reached c₁ log₁) {h : Handler} (hh : h ∈ c₁.world.live)
    (hi : h.watchers.get? fd = some i) {call : Call} (hp : call.processes i d = true)
    (hrun : Run c₁ c₃ log₃) (hc₃ : c₃.calls = call :: c₁.calls) (hs₃ : c₃.step = some c₄)
    (hc₄ : c₄.calls = c₁.calls) (hr₄ : Reached c₄ log₄) {h' : Handler} (hh' : h' ∈ c₄.world.live)
    (hstrand : h'.strand = h.strand) {ev : Events} (hev : h'.interest fd c₄.world.hub = some ev)
    (hd : ev.wants d = true) :
    ∃ j, h'.watchers.get? fd = some j ∧ (c₄.world.unconsumed j d = 1 ∨ 0 < thrownAway log₄ j d ∨
      j ≠ i ∧ ∃ wait o served, .completed wait o served ∈ sinceAsked h.strand fd d log₄ ∧
        wait.callback.claims j d = true ∧ (Verdict.of o ≠ .proceed ∨ served = false)) := by
  obtain ⟨j, x, hj, hx, hwanted⟩ := Handler.exists_of_interest hev hd
  refine ⟨j, hj, ?_⟩
  have hplace := mem_watchers_of_get? log₄ hh' hj
  rw [hstrand] at hplace
  have hlive : h.strand ∈ (c₄.ledger log₄).handlers := hstrand ▸ strand_mem_handlers hh'
  obtain ⟨y, hy, halive⟩ := Hub.alive_of_roster (Waits.alive_of_mem hr₄.owned hplace)
  have hyx : y = x := Option.some.inj (hy.symm.trans hx)
  subst hyx
  have hclaims := claims_le_one hr₄ j d hx halive
  have hor (hpending : (y.sides.get d).pending = true) :
      c₄.world.unconsumed j d = 1 ∨ 0 < thrownAway log₄ j d := by
    rw [hpending, if_pos rfl] at hclaims
    omega
  have hr₃ := hr₁.run hrun
  by_cases hji : j = i
  · subst hji
    have hpending := pending_of_return hr₃ hs₃ (hc₃.trans (by rw [hc₄])) hp hx hwanted
    exact (hor hpending).imp id Or.inl
  · have hside : (c₄.ledger log₄).hub.side? j d = some (y.sides.get d) := by
      change c₄.world.hub.side? j d = _
      rw [Hub.side?, hx, Option.map_some]
    rcases hr₄.awake _ _ j hplace hlive d _ hside hwanted with
      hpending | ⟨call', hcall', hp'⟩ | ⟨entry, hmem, hf⟩
    · exact (hor hpending).imp id Or.inl
    · -- the calls that are left are of watchers that there were before the call began
      have hcall₁ : call' ∈ (c₁.ledger log₁).calls := by
        change call' ∈ c₁.calls
        rw [← hc₄]
        exact hcall'
      obtain ⟨howner, -⟩ := Call.processes_iff.mp hp'
      have hlt : j < c₁.world.hub.watchers.length := by
        have hroster := hr₁.inUse.strandOf?_owner call' hcall₁
        rw [howner] at hroster
        obtain ⟨title, htitle, -⟩ := Option.map_eq_some_iff.mp hroster
        have hlt := (List.getElem?_eq_some_iff.mp htitle).1
        change j < (c₁.world.hub.watchers.map _).length at hlt
        rwa [List.length_map] at hlt
      have hnot : (some (h.strand, fd), j) ∉ (c₁.ledger log₁).watchers :=
        fun hmem => hji (hr₁.placed _ _ _ hmem (mem_watchers_of_get? log₁ hh hi))
      have hlater := notMem_watchers_of_run hr₁ (hrun.step hs₃) hlt hnot
      exact absurd hplace hlater
    · right
      right
      cases entry with
      | monitored => cases hf
      | negotiated => cases hf
      | discarded => cases hf
      | completed wait o served =>
        simp only [Event.fails, Bool.and_eq_true, Bool.or_eq_true, bne_iff_ne,
          Bool.not_eq_true'] at hf
        exact ⟨hji, wait, o, served, hmem, hf⟩

/-- Readiness goes to the engine that is enlisted. An engine asks a handler for a direction of a
descriptor while no wait for it is outstanding, and none is enlisted after it. When a wait of the
watcher for the direction completes ready, the direction is wanted and the engine is alive, then it
is told of it and no other, unless a wait for the direction completed other than ready meanwhile.
When it returns, a wait is outstanding again if the direction is still wanted, unless one was thrown
away, or failed for a watcher that took the place of this one. -/
theorem readiness_goes_to_enlisted (hr : Reached c log) (he : Enlists s fd d e c c')
    (hrun : RunWithout (fun c c' => ∃ e', Enlists s fd d e' c c') c' c₁ log₁)
    {h : Handler} (hh : h ∈ c₁.world.live) (hstrand : h.strand = s)
    (hi : h.watchers.get? fd = some i) (hev : h.interest fd c₁.world.hub = some ev)
    (hd : ev.wants d = true) (ha : c₁.world.hub.engineAlive e = true)
    (hready : ∀ wait o served, .completed wait o served ∈ log₁ →
      wait.callback.claims i d = true → Verdict.of o = .proceed)
    (hs : c₁.step = some c₂) {wait : Wait} {o : Outcome} {served : Bool}
    (hmem : .completed wait o served ∈ c₁.events) (hclaims : wait.callback.claims i d = true)
    (hv : Verdict.of o = .proceed) :
    c₂.calls = ⟨.watcher i d, s, e, .process fd (.ofDirection d)⟩ :: c₁.calls ∧
    ∀ c₃ log₃ c₄, Run c₂ c₃ log₃ → c₃.calls = c₂.calls → c₃.step = some c₄ →
      c₄.calls = c₁.calls → ∀ log₄, Reached c₄ log₄ → ∀ h' ∈ c₄.world.live, h'.strand = s →
      ∀ ev', h'.interest fd c₄.world.hub = some ev' → ev'.wants d = true →
      ∃ j, h'.watchers.get? fd = some j ∧ (c₄.world.unconsumed j d = 1 ∨ 0 < thrownAway log₄ j d ∨
        j ≠ i ∧ ∃ wait o served, .completed wait o served ∈ sinceAsked s fd d log₄ ∧
          wait.callback.claims j d = true ∧ (Verdict.of o ≠ .proceed ∨ served = false)) := by
  have hr₁ := (hr.step he.1).run hrun.run
  have hserving : Serving s fd i d e (c₁.ledger (log₁ ++ (c.events.reverse ++ log))) := by
    refine serving_of_run hr he hrun fun entry hmem => ?_
    rw [← Bool.not_eq_true]
    intro hbreaks
    cases entry with
    | completed w o served =>
      simp only [Event.breaks, Bool.and_eq_true, bne_iff_ne] at hbreaks
      exact hbreaks.2 (hready w o served hmem hbreaks.1)
    | _ => cases hbreaks
  obtain ⟨i', x, hi', hx, hwanted⟩ := Handler.exists_of_interest hev hd
  rw [hi] at hi'
  cases hi'
  have hcalls := calls_of_completed hr₁ hserving hh hstrand hi hx hwanted ha hs hmem hclaims hv
  refine ⟨hcalls, fun c₃ log₃ c₄ hrun₃ hc₃ hs₃ hc₄ log₄ hr₄ h' hh' hstrand' ev' hev' hd' => ?_⟩
  have hp : (Call.mk (.watcher i d) s e (.process fd (.ofDirection d))).processes i d = true :=
    Call.processes_iff.mpr ⟨rfl, _, _, rfl⟩
  subst hstrand
  exact outstanding_of_return hr₁ hh hi hp ((Run.refl.step hs).trans hrun₃) (hc₃.trans hcalls) hs₃
    hc₄ hr₄ hh' hstrand' hev' hd'

/-- An engine asks for a direction while a wait for it is outstanding that was armed for another
engine, and the wait completes. -/
def taking : List Op :=
  [.newHandler 0, .newEngine 0 {} false, .newEngine 1 {} false, .monitor 0 0 5 .readable,
    .monitor 0 1 5 .readable, .complete 5 .read (.ok ())]

/-- The other engine is told, although both are alive and the one that asked last is wanted. -/
theorem served_the_first :
    (sample taking 5).2 = [.monitored 0 1 5 .readable, .monitored 0 0 5 .readable] ∧
      (sample taking 5).1.world.hub.engineAlive 1 = true ∧
      (∀ h ∈ (sample taking 5).1.world.live, h.strand = 0 ∧ h.watchers.get? 5 = some 0 ∧
        h.interest 5 (sample taking 5).1.world.hub = some .readable) ∧
      (sample taking 5).1.step.isSome = true ∧
      (sample taking 5).1.events = [.completed ⟨0, .ready 0 .read 0⟩ (.ok ()) true] ∧
      (sample taking 6).1.calls = [⟨.watcher 0 .read, 0, 0, .process 5 .readable⟩] := by
  decide

/-- The descriptor is removed before another engine asks for it, and then the first asks again. -/
def retaking : List Op :=
  [.newHandler 0, .newEngine 0 {} false, .newEngine 1 {} false, .monitor 0 0 5 .readable,
    .monitor 0 0 5 .none, .monitor 0 1 5 .readable, .monitor 0 0 5 .readable,
    .complete 5 .read (.ok ())]

/-- The other engine is told, and afterwards a wait is outstanding. -/
theorem readiness_goes_to_enlisted_retaking :
    (sample retaking 8).1.calls = [⟨.watcher 1 .read, 0, 1, .process 5 .readable⟩] ∧
      (sample retaking 9).1.world.unconsumed 1 .read = 1 := by
  let h : Handler := ⟨0, some 0, (∅ : Table Nat).insert 5 1⟩
  have henlists : Enlists 0 5 .read 1 (sample retaking 5).1 (sample retaking 6).1 := by
    refine ⟨rfl, ⟨.readable, List.mem_singleton.mpr rfl, rfl⟩, fun x hx _ i hi => ?_⟩
    rw [List.mem_singleton.mp hx] at hi
    cases hi
  have hnot : ¬∃ e', Enlists 0 5 .read e' (sample retaking 6).1 (sample retaking 7).1 := by
    rintro ⟨e', -, -, hidle⟩
    cases hidle h (List.mem_singleton.mpr rfl) rfl 1 rfl
  have hrun : RunWithout (fun c c' => ∃ e', Enlists 0 5 .read e' c c') (sample retaking 6).1
      (sample retaking 7).1 _ := .step .refl rfl hnot
  have hinterest : h.interest 5 (sample retaking 7).1.world.hub = some .readable := rfl
  have hall := readiness_goes_to_enlisted (reached_sample retaking 5) henlists hrun (h := h)
    (List.mem_singleton.mpr rfl) rfl rfl hinterest (d := .read) rfl rfl
    (fun _ _ _ hmem => by cases List.mem_singleton.mp hmem) rfl
    (List.mem_singleton.mpr rfl) rfl rfl
  refine ⟨hall.1, ?_⟩
  have hinterest' : h.interest 5 (sample retaking 9).1.world.hub = some .readable := rfl
  obtain ⟨j, hj, hwait⟩ := hall.2 _ [] _ .refl rfl rfl rfl _ (reached_sample retaking 9) h
    (List.mem_singleton.mpr rfl) rfl _ hinterest' rfl
  cases hj
  rcases hwait with hone | hthrown | ⟨hne, -⟩
  · exact hone
  · exact absurd hthrown (by decide)
  · exact absurd rfl hne

end Config
end Scenario
end Wakeup
