import Wakeup.Proofs.Pledges
import Wakeup.Proofs.Teardown

/-! A handler has one heartbeat schedule. Of all waits for its heartbeats that can still be run, one
at most is current, and to run any other does nothing. -/
namespace Wakeup

/-- Whether a beat is current, and that of a heartbeat of a strand. -/
def Beat.isOf (hub : Hub Manual) (s : Nat) (b : Beat) : Bool :=
  b.current hub && hub.strandOf? (.heartbeat b.heartbeat) == some s

theorem Beat.isOf_iff {hub : Hub Manual} {s : Nat} {b : Beat} : b.isOf hub s = true ↔
    b.current hub = true ∧ hub.strandOf? (.heartbeat b.heartbeat) = some s := by
  rw [isOf, Bool.and_eq_true, beq_iff_eq]

/-- To run the callback for a beat that is not current does nothing, whatever the outcome. -/
theorem Hub.begin_of_stale {hub : Hub Manual} {c : Callback} {b : Beat} (hb : c.beat? = some b)
    (h : b.current hub = false) (o : Outcome) : hub.begin c o = (hub, none) := by
  cases c with
  | bare tag => cases hb
  | ready i d e => cases hb
  | beat t generation e =>
    cases hb
    simp only [begin, beginBeat]
    cases hx : hub.heartbeats[t]? with
    | none => rfl
    | some x =>
      have hg : ¬x.schedule.generation = generation := by
        simpa [Beat.current, schedule?, hx] using h
      simp only [hg, if_false]
      repeat' split
      all_goals rfl

namespace Scenario

namespace Ledger
variable {L : Ledger} {p q : Beat → Bool}

/-- If none of the beats of a kind is expected, no beat of that kind is. -/
theorem expected_eq_zero_of (h : ∀ b, p b = true → L.expected (· == b) = 0) :
    L.expected p = 0 := by
  have hnone {w : Option Beat} (hw : ∀ q : Beat → Bool, w.any q = true → 0 < L.expected q) :
      ¬w.any p = true := by
    intro hp
    cases w with
    | none => cases hp
    | some b =>
      have hpos := hw (· == b) (beq_self_eq_true b)
      have hzero := h b hp
      omega
  have hlist {α : Type} {f : α → Option Beat} {l : List α}
      (hle : ∀ q : Beat → Bool, (l.countP fun a => (f a).any q) ≤ L.expected q) :
      (l.countP fun a => (f a).any p) = 0 := by
    rw [List.countP_eq_zero]
    intro a ha
    refine hnone fun q hq => ?_
    exact (List.countP_pos_iff.mpr ⟨a, ha, hq⟩).trans_le (hle q)
  have hready := @hlist _ (fun x : ReadyWait => x.wait.callback.beat?) L.hub.reactor.ready
    fun q => by simp only [expected, Manual.beats, Wait.isBeat]; omega
  have htimed := @hlist _ (fun x : TimedWait => x.wait.callback.beat?) L.hub.reactor.timed
    fun q => by simp only [expected, Manual.beats, Wait.isBeat]; omega
  have hparked := @hlist _ (fun w : Wait => w.callback.beat?) L.hub.reactor.parked
    fun q => by simp only [expected, Manual.beats, Wait.isBeat]; omega
  have hcalls := @hlist _ Call.beat? L.calls fun q => by simp only [expected]; omega
  have hlog := @hlist _ Event.beat? L.log fun q => by simp only [expected]; omega
  have hkept : L.kept.countP (·.isBeat p = true) = 0 := by
    rw [Multiset.countP_eq_zero]
    intro w hw
    refine hnone fun q hq => ?_
    have hpos : 0 < L.kept.countP (·.isBeat q = true) :=
      Multiset.countP_pos.mpr ⟨w, hw, hq⟩
    unfold expected
    omega
  simp only [expected, Manual.beats, Wait.isBeat] at hkept ⊢
  omega

end Ledger

/-- How many waits that can still be run are for current beats of a strand. -/
def World.outstandingBeats (w : World) (s : Nat) : Nat :=
  w.waits.countP (·.isBeat (Beat.isOf w.hub s))

namespace Config
open Ledger
variable {c c' : Config} {log : List Event}

theorem mem_heartbeats_iff (hr : Reached c log) {h : Handler} (hh : h ∈ c.world.live) {t : Nat} :
    (some h.strand, t) ∈ (c.ledger log).heartbeats ↔ h.heartbeat = some t := by
  constructor
  · intro hmem
    rcases Multiset.mem_add.mp hmem with hmem | hmem
    · obtain ⟨h', hh', hbeat⟩ := Multiset.mem_bind.mp hmem
      obtain ⟨hs, ht⟩ := mem_beats.mp hbeat
      rw [eq_of_strand hr hh (World.mem_held.mp hh') hs]
      exact ht
    · obtain ⟨_, -, heq⟩ := Multiset.mem_map.mp hmem
      cases heq
  · intro ht
    exact Multiset.mem_add.mpr (Or.inl (Multiset.mem_bind.mpr
      ⟨h, World.mem_held.mpr hh, mem_beats.mpr ⟨rfl, ht⟩⟩))

/-- The beats of heartbeats that a handler has given up are not expected. -/
theorem due_eq_zero (hr : Reached c log) {h : Handler} (hh : h ∈ c.world.live) {t : Nat}
    (hs : c.world.hub.strandOf? (.heartbeat t) = some h.strand) (ht : h.heartbeat ≠ some t) :
    (c.ledger log).due t = 0 := by
  refine hr.paced.idle h.strand t hs (strand_mem_handlers hh) fun hheld => ht ?_
  exact (mem_heartbeats_iff hr hh).mp (hr.owned.mem_heartbeats hs (strand_mem_handlers hh) hheld)

/-- The heartbeat that a handler holds is that of its strand. -/
theorem strandOf?_of_heartbeat (hr : Reached c log) {h : Handler} (hh : h ∈ c.world.live) {t : Nat}
    (ht : h.heartbeat = some t) : c.world.hub.strandOf? (.heartbeat t) = some h.strand := by
  have hmem := (mem_heartbeats_iff hr hh).mpr ht
  obtain ⟨x, hx⟩ := schedule?_of_held hr.owned (Multiset.mem_map_of_mem (·.2) hmem)
  obtain ⟨y, hy, -⟩ := Option.map_eq_some_iff.mp hx
  have htitle : (c.ledger log).hub.roster.timed[t]? = some (y.timer, y.strand) := by
    change ((c.ledger log).hub.heartbeats.map _)[t]? = _
    rw [List.getElem?_map, hy]
    rfl
  have hstrand : y.strand = h.strand := hr.owned.heartbeats.placed hmem _ htitle
  exact Option.map_eq_some_iff.mpr ⟨y, hy, hstrand⟩

/-- Of the beats of the heartbeats of a handler, only those of the one that it holds are current. -/
theorem expected_isOf_and (hr : Reached c log) {h : Handler} (hh : h ∈ c.world.live)
    (q : Beat → Bool) :
    (c.ledger log).expected (fun b => b.isOf c.world.hub h.strand && q b) =
      h.heartbeat.elim 0 fun t =>
        (c.ledger log).expected fun b => b.isDue c.world.hub t && q b := by
  let p (b : Beat) : Bool := b.isOf c.world.hub h.strand && q b
  have hothers : (c.ledger log).expected (fun b => p b && h.heartbeat != some b.heartbeat) = 0 := by
    refine expected_eq_zero_of fun b hb => ?_
    rw [Bool.and_eq_true, bne_iff_ne, Bool.and_eq_true] at hb
    obtain ⟨hcurrent, hs⟩ := Beat.isOf_iff.mp hb.1.1
    have hzero := due_eq_zero hr hh hs hb.2
    have hle := expected_mono (p := (· == b)) (q := Beat.isDue c.world.hub b.heartbeat)
      (fun b' hb' => by
        rw [beq_iff_eq.mp hb']
        exact Beat.isDue_iff.mpr ⟨rfl, hcurrent⟩) (c.ledger log)
    exact Nat.le_zero.mp (hle.trans hzero.le)
  have hsplit := (c.ledger log).expected_split p fun b => h.heartbeat == some b.heartbeat
  change _ = _ + (c.ledger log).expected (fun b => p b && h.heartbeat != some b.heartbeat) at hsplit
  rw [hsplit, hothers, Nat.add_zero]
  cases hheld : h.heartbeat with
  | none => exact expected_eq_zero (fun b => Bool.and_false _) _
  | some t =>
    have hs := strandOf?_of_heartbeat hr hh hheld
    change _ = (c.ledger log).expected fun b => b.isDue c.world.hub t && q b
    congr 1
    funext b
    rw [Bool.eq_iff_iff, Bool.and_eq_true, Bool.and_eq_true, Beat.isOf_iff, Bool.and_eq_true,
      Beat.isDue_iff, beq_iff_eq, Option.some.injEq]
    constructor
    · exact fun ⟨⟨⟨hcurrent, _⟩, hq⟩, ht⟩ => ⟨⟨ht.symm, hcurrent⟩, hq⟩
    · rintro ⟨⟨rfl, hcurrent⟩, hq⟩
      exact ⟨⟨⟨hcurrent, hs⟩, hq⟩, rfl⟩

theorem expected_isOf (hr : Reached c log) {h : Handler} (hh : h ∈ c.world.live) :
    (c.ledger log).expected (Beat.isOf c.world.hub h.strand) =
      h.heartbeat.elim 0 fun t => (c.ledger log).due t := by
  have hand := expected_isOf_and hr hh fun _ => true
  simp only [Bool.and_true] at hand
  exact hand

theorem countP_kept (c : Config) (log : List Event) (p : Beat → Bool) :
    (c.ledger log).kept.countP (·.isBeat p = true) =
      c.world.slots.values.countP (·.isBeat p) := by
  change (c.world.slots.values : Multiset Wait).countP (·.isBeat p = true) = _
  rw [Multiset.coe_countP]
  simp

/-- How many waits that can still be run are for beats of a kind. -/
theorem countP_waits_le (c : Config) (log : List Event) (p : Beat → Bool) :
    c.world.waits.countP (·.isBeat p) ≤ (c.ledger log).expected p := by
  have hreactor := Manual.beats_eq p c.world.hub.reactor
  have hkept := countP_kept c log p
  unfold World.waits expected
  rw [List.countP_append, hkept]
  change _ ≤ c.world.hub.reactor.beats p + _ + _ + _
  omega

private theorem outstandingBeats_le_one (hr : Reached c log) {h : Handler} (hh : h ∈ c.world.live) :
    c.world.outstandingBeats h.strand ≤ 1 := by
  have hle := countP_waits_le c log (Beat.isOf c.world.hub h.strand)
  rw [expected_isOf hr hh] at hle
  refine hle.trans ?_
  cases h.heartbeat with
  | none => exact Nat.zero_le 1
  | some t => exact hr.paced.single t

/-- A step that runs a callback for a beat that is not current begins no call, changes no schedule
and arms nothing. -/
theorem step_of_stale (hs : c.step = some c') {wait : Wait} {b : Beat} {o : Outcome}
    {served : Bool} (hmem : .completed wait o served ∈ c.events)
    (hb : wait.callback.beat? = some b) (hstale : b.current c.world.hub = false) :
    c'.calls = c.calls ∧ c'.world.hub.heartbeats = c.world.hub.heartbeats ∧
      c'.world.hub.reactor.tickets = c.world.hub.reactor.tickets := by
  rcases calls_step hs with ⟨call, -, he⟩ | ⟨wait', o', call?, he, hbegins, hc⟩ | ⟨hc, honly⟩
  · rw [he] at hmem
    exact absurd hmem List.not_mem_nil
  · rw [he, List.mem_singleton] at hmem
    injection hmem with hw ho hserves
    subst hw ho
    obtain ⟨m, hm, hbegin⟩ := hbegins
    have hnone := @Hub.begin_of_stale { c.world.hub with reactor := m } wait.callback b hb hstale o
    rw [hnone] at hbegin
    obtain ⟨hhub, rfl⟩ := Prod.mk.inj hbegin
    rw [← hhub]
    exact ⟨hc, rfl, hm⟩
  · exact ⟨hc, (honly wait o served hmem).2.2⟩

/-- One heartbeat schedule. Of all waits for heartbeats of a handler that can still be run, one at
most is for a current beat. A wait that the reactor has for a heartbeat is that of its timer, for
its current generation and its deadline. To run the callback of any wait for a beat that is not
current, with whatever outcome, calls no engine, changes no schedule and arms nothing. -/
theorem one_heartbeat_schedule (hr : Reached c log) {h : Handler} (hh : h ∈ c.world.live) :
    c.world.outstandingBeats h.strand ≤ 1 ∧
    (∀ t x, c.world.hub.heartbeats[t]? = some x → ∀ w ∈ c.world.hub.reactor.timed,
      (w.timer = x.timer ∨ ∃ generation e, w.wait.callback = .beat t generation e) →
      w.timer = x.timer ∧ (∃ e, w.wait.callback = .beat t x.schedule.generation e) ∧
        x.schedule.deadline = some w.deadline) ∧
    ∀ (wait : Wait) (b : Beat), wait.callback.beat? = some b → b.current c.world.hub = false →
      (∀ o, c.world.begin wait o = (c.world, none)) ∧
      ∀ c' o served, c.step = some c' → .completed wait o served ∈ c.events →
        c'.calls = c.calls ∧ c'.world.hub.heartbeats = c.world.hub.heartbeats ∧
          c'.world.hub.reactor.tickets = c.world.hub.reactor.tickets := by
  have hpaced := hr.paced
  refine ⟨outstandingBeats_le_one hr hh, ?_, ?_⟩
  · intro t x hx w hw hfor
    have htimer := Hub.timer?_of_getElem? hx
    have htimely := hpaced.punctual.timed w hw
    unfold Timely at htimely
    split at htimely
    · exact htimely.elim
    · rename_i tag hcb
      rcases hfor with heq | ⟨generation, e, hcb'⟩
      · rw [heq] at htimely
        exact absurd htimely (timer?_notMem hr.owned htimer)
      · rw [hcb] at hcb'
        cases hcb'
    · rename_i t' generation e hcb
      obtain ⟨htimer', y, hy, hgen, hdeadline⟩ := htimely
      have ht : t' = t := by
        rcases hfor with heq | ⟨generation', e', hcb'⟩
        · rw [heq] at htimer'
          exact timer?_inj hr.owned htimer' htimer
        · rw [hcb] at hcb'
          cases hcb'
          rfl
      subst ht
      have hy' := Hub.schedule?_of_getElem? hx
      change c.world.hub.schedule? t' = some y at hy
      rw [hy'] at hy
      cases hy
      change c.world.hub.timer? t' = _ at htimer'
      rw [htimer] at htimer'
      exact ⟨(Option.some.inj htimer').symm, ⟨e, by rw [hcb, hgen]⟩, hdeadline⟩
  · intro wait b hb hstale
    refine ⟨fun o => ?_, fun c' o served hs hmem => step_of_stale hs hmem hb hstale⟩
    simp only [World.begin, Hub.begin_of_stale hb hstale o]
    rfl

/-- A wait for a heartbeat is taken out of the reactor, and the heartbeat is negotiated again. -/
def renegotiating : List Op :=
  [.newHandler 0, .newEngine 0 {} false, .negotiate 0 0 5, .takeTimed 1, .negotiate 0 0 7]

/-- The wait that is kept is of no consequence. -/
theorem one_heartbeat_schedule_renegotiating :
    (sample renegotiating 5).1.world.begin ⟨0, .beat 0 1 0⟩ (.ok ()) =
      ((sample renegotiating 5).1.world, none) := by
  let h : Handler := ⟨0, some 0, ∅⟩
  have hlive : h ∈ (sample renegotiating 5).1.world.live := List.mem_singleton.mpr rfl
  have hone := one_heartbeat_schedule (reached_sample renegotiating 5) hlive
  exact (hone.2.2 ⟨0, .beat 0 1 0⟩ _ rfl rfl).1 (.ok ())

end Config
end Scenario
end Wakeup
