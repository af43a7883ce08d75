import Wakeup.Proofs.OneSchedule

/-! What a handler was last told of its heartbeats is final. Once it was closed there are none until
the next negotiation, and then they go to the engine that negotiated. -/
namespace Wakeup

/-- A handler that is closed holds no heartbeat. -/
theorem Handler.close_fields {h h' : Handler} {hub hub' : Hub Manual}
    (hc : h.close hub = (h', hub')) : h'.strand = h.strand ∧ h'.heartbeat = none := by
  unfold close at hc
  split at hc
  · cases hc
    exact ⟨rfl, by assumption⟩
  · cases hc
    exact ⟨rfl, rfl⟩

/-- Negotiating sets the heartbeat that a handler holds, or one that is made for it. -/
theorem Handler.negotiate_of_interval {seconds : Nat} {interval : Interval}
    (hi : Interval.ofSeconds? seconds = some interval) (h : Handler) (e : Nat) (hub : Hub Manual) :
    ∃ (t : Nat) (hub₁ : Hub Manual), t = h.heartbeat.getD hub.heartbeats.length ∧
      hub₁.reactor.now = hub.reactor.now ∧ h.negotiate e seconds hub =
        (seconds, { h with heartbeat := some t }, hub₁.setHeartbeat t e interval) := by
  obtain ⟨strand, heartbeat, watchers⟩ := h
  unfold negotiate
  rw [hi]
  cases heartbeat with
  | some t => exact ⟨t, hub, rfl, rfl, rfl⟩
  | none => exact ⟨(hub.newHeartbeat strand).1, (hub.newHeartbeat strand).2, rfl, rfl, rfl⟩

/-- What setting a heartbeat leaves in the reactor. -/
theorem Hub.mem_timed_setHeartbeat {hub : Hub Manual} {t e : Nat} {interval : Interval}
    {y : Schedule} (hy : (hub.setHeartbeat t e interval).schedule? t = some y) :
    ∃ x ∈ (hub.setHeartbeat t e interval).reactor.timed,
      x.deadline = hub.reactor.now + interval.length ∧
        x.wait.callback = .beat t y.generation e := by
  rw [schedule?_setHeartbeat, if_pos rfl] at hy
  obtain ⟨z, hz, rfl⟩ := Option.map_eq_some_iff.mp hy
  obtain ⟨x, hx, rfl⟩ := Option.map_eq_some_iff.mp hz
  rw [reactor_setHeartbeat hx]
  exact ⟨_, List.mem_append_right _ (List.mem_singleton_self _), rfl, rfl⟩

/-- Of the elements of a kind of which there is one at most, each is the only one. -/
theorem filter_eq_singleton {α : Type} {l : List α} {p : α → Bool} {a : α} (hle : l.countP p ≤ 1)
    (ha : a ∈ l) (hp : p a = true) : l.filter p = [a] := by
  have hmem : a ∈ l.filter p := List.mem_filter.mpr ⟨ha, hp⟩
  rw [List.countP_eq_length_filter] at hle
  obtain ⟨b, hb⟩ := List.length_eq_one_iff.mp (le_antisymm hle (List.length_pos_of_mem hmem))
  rw [hb] at hmem ⊢
  rw [List.mem_singleton.mp hmem]

namespace Scenario

namespace Ledger
variable {L L' : Ledger} {s : Nat} {p : Beat → Bool}

/-- Of the current beats of a strand, none of a kind is expected. -/
def Barred (s : Nat) (p : Beat → Bool) (L : Ledger) : Prop :=
  L.expected (fun b => b.isOf L.hub s && p b) = 0

private theorem exists_strandOf? {t : Nat} {x : Schedule} (hx : L.hub.schedule? t = some x) :
    ∃ s, L.hub.strandOf? (.heartbeat t) = some s := by
  obtain ⟨y, hy, -⟩ := Option.map_eq_some_iff.mp hx
  exact ⟨y.strand, Option.map_eq_some_iff.mpr ⟨y, hy, rfl⟩⟩

/-- A heartbeat that is held and belongs to the strand of a handler is held by that. -/
theorem Private.place_eq (hp : Private s false L) (ho : Owned L) {place : Option Nat} {t : Nat}
    (hmem : (place, t) ∈ L.heartbeats) (hs : L.hub.strandOf? (.heartbeat t) = some s) :
    place = some s := by
  rw [Hub.strandOf?_heartbeat] at hs
  obtain ⟨x, hx, hxs⟩ := Option.map_eq_some_iff.mp hs
  cases place with
  | none => exact absurd hxs (hp.heartbeats _ hmem (Or.inl rfl) x hx)
  | some s' =>
    have hs' : x.2 = s' := ho.heartbeats.placed hmem x hx
    rw [← hxs, hs']

/-- What is barred stays so, unless the handler accepts an interval. -/
theorem Ages.keeps_barred (ha : Ages L L') (hm : Makes L L') (ho : Owned L) (hd : Dated L)
    (hp : Private s false L) (h : Barred s p L) :
    Barred s p L' ∨ ∃ e interval, L'.log = .negotiated s e interval :: L.log := by
  have hzero : L.expected (fun b => b.isOf L'.hub s && p b) = 0 := by
    refine Nat.le_zero.mp ((hd.expected_le fun b hdated hb => ?_).trans h.le)
    rw [Bool.and_eq_true, Beat.isOf_iff] at hb ⊢
    refine ⟨⟨ha.current hdated hb.1.1, ?_⟩, hb.2⟩
    -- the heartbeat of the beat was there before, in the same strand
    cases hx : L.hub.schedule? b.heartbeat with
    | none => simp [Beat.dated, hx] at hdated
    | some x =>
      obtain ⟨s', hs'⟩ := exists_strandOf? hx
      rw [← hb.1.2, strandOf?_heartbeat_of_makes hm hs', hs']
  rcases ha.le_or_sets with hle | ⟨place, t, e, interval, x, hx, hmem, -, hl, he⟩
  · exact Or.inl (Nat.le_zero.mp ((hle _).trans hzero.le))
  · obtain ⟨s', hs'⟩ := exists_strandOf? hx
    by_cases hs : s' = s
    · subst hs
      right
      have hplace := hp.place_eq ho hmem hs'
      subst hplace
      exact ⟨e, interval, hl⟩
    · left
      have hneg : (Beat.isOf L'.hub s ⟨t, x.generation + 1, e⟩ &&
          p ⟨t, x.generation + 1, e⟩) = false := by
        rw [← Bool.not_eq_true, Bool.and_eq_true, Beat.isOf_iff]
        rintro ⟨⟨-, hs''⟩, -⟩
        have hkept := strandOf?_heartbeat_of_makes hm hs'
        exact hs (Option.some.inj (hkept.symm.trans hs''))
      unfold Barred
      rw [he, hneg, hzero]
      rfl

end Ledger

/-- The waits of the reactor for heartbeats of a strand. -/
def World.heartbeatWaits (w : World) (s : Nat) : List TimedWait :=
  w.hub.reactor.timed.filter
    (·.wait.isBeat fun b => w.hub.strandOf? (.heartbeat b.heartbeat) == some s)

namespace Config
open Ledger
variable {c c' c₁ c₂ : Config} {log log₁ : List Event} {s : Nat} {p : Beat → Bool}

/-- A step in which a heartbeat begins for a strand, and an engine is told of it. -/
def HeartbeatBegins (c c' : Config) (s e : Nat) : Prop :=
  c.step = some c' ∧ ∃ call, c'.calls = call :: c.calls ∧ call.strand = s ∧ call.engine = e ∧
    call.notice = .heartbeat

/-- A callback that is run was that of a wait that could still be run. -/
theorem mem_waits_of_completed {wait : Wait} {o : Outcome} {served : Bool}
    (h : .completed wait o served ∈ c.events) : wait ∈ c.world.waits := by
  have hreactor {m : Manual}
      (ht : ∀ w, w ∈ c.world.hub.reactor.waits ↔ w = wait ∨ w ∈ m.waits) :
      wait ∈ c.world.waits :=
    List.mem_append.mpr (Or.inl ((ht wait).mpr (Or.inl rfl)))
  obtain ⟨w, ⟨activity, todo, entries⟩, below⟩ := c
  cases todo with
  | nil =>
    simp only [events] at h
    split at h
    · cases ht : w.hub.reactor.takeDue with
      | none => simp [ht] at h
      | some taken =>
        obtain ⟨wait', m⟩ := taken
        simp only [ht, List.mem_singleton] at h
        injection h with hw
        subst hw
        obtain ⟨deadline, htimed⟩ := Manual.takeTimed_of_takeDue ht
        exact hreactor (Manual.mem_waits_takeTimed htimed).2
    · exact absurd h List.not_mem_nil
  | cons op todo =>
    change _ ∈ w.events op at h
    rcases World.op_of_completed h with ⟨fd, d, rfl⟩ | ⟨slot, rfl⟩ | rfl
    · simp only [World.events] at h
      cases ht : w.hub.reactor.takeReady fd d with
      | none => simp [ht] at h
      | some taken =>
        obtain ⟨wait', m⟩ := taken
        simp only [ht, List.mem_singleton] at h
        injection h with hw
        subst hw
        exact hreactor (Manual.mem_waits_takeReady ht).2
    · obtain ⟨wait', hw, heq⟩ := List.mem_map.mp h
      injection heq with heq
      subst heq
      exact List.mem_append.mpr (Or.inr (Table.mem_values.mpr ⟨slot, Option.mem_toList.mp hw⟩))
    · obtain ⟨wait', hw, heq⟩ := List.mem_map.mp h
      injection heq with heq
      subst heq
      exact List.mem_append.mpr (Or.inl (List.mem_append.mpr (Or.inr hw)))

/-- A heartbeat begins only for a wait that can be run and is for a beat that is current. -/
theorem exists_wait_of_heartbeat {e : Nat} (h : HeartbeatBegins c c' s e) :
    ∃ wait ∈ c.world.waits, ∃ b, wait.callback.beat? = some b ∧ b.engine = e ∧
      b.isOf c.world.hub s = true := by
  obtain ⟨hs, call, hc, rfl, rfl, hn⟩ := h
  obtain ⟨wait, o, he, m, -, hbegin⟩ := begins_of_calls hs hc
  have hmem : .completed wait o (serves c.world.hub wait.callback) ∈ c.events := by
    rw [he]
    exact List.mem_singleton_self _
  have hcall := @Hub.call_of_begin { c.world.hub with reactor := m } wait.callback o call
  rw [hbegin] at hcall
  refine ⟨wait, mem_waits_of_completed hmem, ?_⟩
  rcases hcall rfl with ⟨i, d, x, -, -, -, -, hnotice⟩ | ⟨t, x, hx, hcb, -, hstrand, -⟩
  · rw [hn] at hnotice
    rcases hnotice with ⟨heq, -⟩ | ⟨err, heq⟩ <;> cases heq
  · rw [hcb]
    refine ⟨⟨t, x.schedule.generation, call.engine⟩, rfl, rfl, Beat.isOf_iff.mpr ⟨?_, ?_⟩⟩
    · exact (Beat.current_iff (Hub.schedule?_of_getElem? hx)).mpr rfl
    · exact Option.map_eq_some_iff.mpr ⟨x, hx, hstrand.symm⟩

/-- A heartbeat that begins is not for a beat that is barred. -/
theorem not_barred_of_heartbeat {e : Nat} (h : HeartbeatBegins c c' s e)
    (hb : Barred s p (c.ledger log)) : ∃ b : Beat, b.engine = e ∧ p b = false := by
  obtain ⟨wait, hmem, b, hbeat, hengine, hof⟩ := exists_wait_of_heartbeat h
  refine ⟨b, hengine, ?_⟩
  by_contra hp
  have hle := countP_waits_le c log fun b => b.isOf c.world.hub s && p b
  have hpos : 0 < c.world.waits.countP (·.isBeat fun b => b.isOf c.world.hub s && p b) := by
    refine List.countP_pos_iff.mpr ⟨wait, hmem, ?_⟩
    simpa [Wait.isBeat, hbeat, hof] using hp
  have hzero : (c.ledger log).expected (fun b => b.isOf c.world.hub s && p b) = 0 := hb
  omega

/-- What is barred stays so until the handler accepts an interval. -/
theorem barred_of_run (hr : Reached c log) (hp : Private s false (c.ledger log))
    (hb : Barred s p (c.ledger log)) (h : Run c c₁ log₁)
    (hn : lastNegotiated s log₁ = none) :
    Barred s p (c₁.ledger (log₁ ++ log)) := by
  have hkeeps {L L' : Ledger} (ha : Ages L L') (hm : Makes L L')
      (hL : L.Paced ∧ Private s false L) := ha.keeps_barred (p := p) hm hL.1.owned hL.1.dated hL.2
  refine Run.keeps_until (P := fun L => L.Paced ∧ Private s false L)
    (E := fun ev => (ev.negotiates? s).isSome) hr h ?_ ?_ ⟨hr.paced, hp⟩ hb ?_
  · intro L L' hm ho hL
    refine ⟨⟨hL.1.move hm, .makes hm.makes ho hL.2⟩, fun hb => ?_⟩
    refine (hkeeps (hm.ages ho) hm.makes hL hb).imp id fun h => ?_
    obtain ⟨e, interval, hlog⟩ := h
    exact ⟨_, by simp [Event.negotiates?], hlog⟩
  · intro L call cs hc ho hL
    have hm := makes_finish L call cs
    refine ⟨⟨hL.1.finish hc, .makes hm ho hL.2⟩, fun hb => ?_⟩
    refine (hkeeps (ages_finish hc) hm hL hb).resolve_right fun h => ?_
    obtain ⟨e, interval, hlog⟩ := h
    exact List.cons_ne_self _ _ hlog.symm
  · intro ev hmem
    rw [List.findSome?_eq_none_iff.mp hn ev hmem]
    exact Bool.false_ne_true

/-- A handler that holds no heartbeat has none that begins before it accepts an interval. -/
theorem not_heartbeatBegins (hr : Reached c log) {h : Handler} (hh : h ∈ c.world.live)
    (hnone : h.heartbeat = none) (hrun : Run c c₁ log₁)
    (hn : lastNegotiated h.strand log₁ = none) (e : Nat) :
    ¬HeartbeatBegins c₁ c₂ h.strand e := by
  intro hbegins
  have hbarred : Barred h.strand (fun _ => true) (c.ledger log) := by
    have heq := expected_isOf_and hr hh fun _ => true
    rw [hnone] at heq
    exact heq
  have hlater := barred_of_run hr (private_of_live hr hh) hbarred hrun hn
  obtain ⟨b, -, hb⟩ := not_barred_of_heartbeat hbegins hlater
  cases hb

/-- No beats are expected for another engine than that for which an interval was last accepted. -/
theorem barred_of_lastNegotiated (hr : Reached c log) {h : Handler} (hh : h ∈ c.world.live)
    {e : Nat} {interval : Interval} (hlast : lastNegotiated h.strand log = some (e, interval)) :
    Barred h.strand (·.engine != e) (c.ledger log) := by
  have heq := expected_isOf_and hr hh (·.engine != e)
  refine heq.trans ?_
  cases hheld : h.heartbeat with
  | none => rfl
  | some t =>
    have hpaced := hr.paced
    have hmem := (mem_heartbeats_iff hr hh).mpr hheld
    have hs : h.strand ∈ (c.ledger log).handlers := strand_mem_handlers hh
    obtain ⟨x, hx⟩ := schedule?_of_held hr.owned (Multiset.mem_map_of_mem (·.2) hmem)
    rw [Option.elim_some]
    cases hi : x.interval with
    | some interval' =>
      obtain ⟨e', hlast', hzero⟩ := hpaced.pledged h.strand t x interval' hmem hs hx hi
      have heq : some (e', interval') = some (e, interval) := hlast'.symm.trans hlast
      cases heq
      exact hzero
    | none =>
      -- a heartbeat that was never set has no deadline
      obtain ⟨hdue, hset⟩ := hpaced.balanced h.strand t x hmem hs hx
      have hdeadline : x.deadline.isSome = false := by
        rw [← Bool.not_eq_true]
        intro hd
        have hsome := hset hd
        rw [hi] at hsome
        cases hsome
      have hle := expected_mono (p := fun b => b.isDue c.world.hub t && b.engine != e)
        (q := Beat.isDue c.world.hub t) (fun b hb => (Bool.and_eq_true_iff.mp hb).1) (c.ledger log)
      have hzero : (c.ledger log).due t = 0 := by
        rw [hdue, hdeadline]
        rfl
      exact Nat.le_zero.mp (hle.trans hzero.le)

/-- The heartbeats of a handler go to the engine for which it last accepted an interval. -/
theorem engine_of_heartbeatBegins (hr : Reached c log) {h : Handler} (hh : h ∈ c.world.live)
    {e e' : Nat} {interval : Interval} (hlast : lastNegotiated h.strand log = some (e, interval))
    (hrun : Run c c₁ log₁) (hn : lastNegotiated h.strand log₁ = none)
    (hbegins : HeartbeatBegins c₁ c₂ h.strand e') : e' = e := by
  have hbarred := barred_of_lastNegotiated hr hh hlast
  have hlater := barred_of_run hr (private_of_live hr hh) hbarred hrun hn
  obtain ⟨b, hb, heq⟩ := not_barred_of_heartbeat hbegins hlater
  rw [← hb]
  simpa using heq

/-- Where one current beat of a kind at most is expected, the reactor has one wait at most for a
deadline of that kind. -/
theorem timed_eq_singleton (hr : Reached c log)
    (hle : (c.ledger log).expected (fun b => b.current c.world.hub && p b) ≤ 1) {x : TimedWait}
    (hx : x ∈ c.world.hub.reactor.timed) (hp : x.wait.isBeat p = true) :
    c.world.hub.reactor.timed.filter (·.wait.isBeat p) = [x] := by
  refine filter_eq_singleton (le_trans ?_ hle) hx hp
  have htimed : c.world.hub.reactor.timed.countP (·.wait.isBeat p) ≤
      c.world.hub.reactor.timed.countP
        (·.wait.isBeat fun b => b.current c.world.hub && p b) := by
    refine List.countP_mono_left fun w hw hbeat => ?_
    have htimely := hr.paced.punctual.timed w hw
    unfold Timely at htimely
    unfold Wait.isBeat at hbeat ⊢
    cases hcb : w.wait.callback with
    | ready => simp [hcb, Callback.beat?] at hbeat
    | bare => simp [hcb, Callback.beat?] at hbeat
    | beat t generation e =>
      rw [hcb] at htimely hbeat
      obtain ⟨-, y, hy, hgen, -⟩ := htimely
      exact Bool.and_eq_true_iff.mpr ⟨(Beat.current_iff hy).mpr hgen, hbeat⟩
  unfold expected Manual.beats
  change _ ≤ _ + c.world.hub.reactor.timed.countP _ + _ + _ + _ + _
  omega

/-- The reactor has one wait at most for the heartbeats of a handler. -/
theorem heartbeatWaits_eq_singleton (hr : Reached c log) {h : Handler} (hh : h ∈ c.world.live)
    {x : TimedWait} (hx : x ∈ c.world.heartbeatWaits h.strand) :
    c.world.heartbeatWaits h.strand = [x] := by
  obtain ⟨hmem, hbeat⟩ := List.mem_filter.mp hx
  refine timed_eq_singleton hr ?_ hmem hbeat
  change (c.ledger log).expected (Beat.isOf c.world.hub h.strand) ≤ 1
  rw [expected_isOf hr hh]
  cases h.heartbeat with
  | none => exact Nat.zero_le 1
  | some t => exact hr.paced.single t

/-- A handler that set its heartbeat has one wait for it in the reactor, an interval from now. -/
theorem heartbeatWaits_of_setHeartbeat (hr : Reached c log) {h : Handler} (hh : h ∈ c.world.live)
    {t e : Nat} {interval : Interval} {hub : Hub Manual} (ht : h.heartbeat = some t)
    (hc : c.world.hub = hub.setHeartbeat t e interval) :
    ∃ x, c.world.heartbeatWaits h.strand = [x] ∧
      x.deadline = hub.reactor.now + interval.length := by
  have hmem := (mem_heartbeats_iff hr hh).mpr ht
  obtain ⟨y, hy⟩ := schedule?_of_held hr.owned (Multiset.mem_map_of_mem (·.2) hmem)
  change c.world.hub.schedule? t = some y at hy
  rw [hc] at hy
  obtain ⟨x, hx, hdeadline, hcb⟩ := Hub.mem_timed_setHeartbeat hy
  rw [← hc] at hx
  have hwait : x ∈ c.world.heartbeatWaits h.strand := by
    refine List.mem_filter.mpr ⟨hx, ?_⟩
    rw [Wait.isBeat, hcb]
    exact beq_iff_eq.mpr (strandOf?_of_heartbeat hr hh ht)
  exact ⟨x, heartbeatWaits_eq_singleton hr hh hwait, hdeadline⟩

section Operations
variable {n e : Int} {engine : Nat} {h : Handler} {todo : List Op}

/-- The step that closes a handler. -/
theorem step_of_close (he : c.world.engines.get? e = some engine)
    (hh : c.world.handlers.get? n = some h) (ht : c.frame.todo = .close n e :: todo) :
    ∃ c' h', c.step = some c' ∧
      c'.frame = { c.frame with todo := todo, entries := .mk .done [] :: c.frame.entries } ∧
      h' ∈ c'.world.live ∧ h'.strand = h.strand ∧ h'.heartbeat = none := by
  obtain ⟨h', hub', hclose⟩ : ∃ h' hub', h.close c.world.hub = (h', hub') := ⟨_, _, rfl⟩
  let w' : World := { c.world with hub := hub', handlers := c.world.handlers.insert n h' }
  have hp : c.world.perform (.close n e) = World.ended (w', .done) := by
    simp only [World.perform, World.close, he, hh, hclose]
    rfl
  have hlive : h' ∈ w'.live := mem_live_of_get? (Table.get?_insert_self _ n h')
  exact ⟨_, h', step_of_ended ht hp, rfl, hlive, Handler.close_fields hclose⟩

/-- The step that negotiates an interval with a handler. -/
theorem step_of_negotiate (he : c.world.engines.get? e = some engine)
    (hh : c.world.handlers.get? n = some h) {seconds : Nat} {interval : Interval}
    (hi : Interval.ofSeconds? seconds = some interval)
    (ht : c.frame.todo = .negotiate n e seconds :: todo) :
    ∃ (c' : Config) (h' : Handler) (t : Nat) (hub : Hub Manual), c.step = some c' ∧
      c.events = [.negotiated h.strand engine interval] ∧
      c'.frame =
        { c.frame with todo := todo, entries := .mk (.number seconds) [] :: c.frame.entries } ∧
      h' ∈ c'.world.live ∧ h'.strand = h.strand ∧ h'.heartbeat = some t ∧
      c'.world.hub = hub.setHeartbeat t engine interval ∧
      hub.reactor.now = c.world.hub.reactor.now := by
  obtain ⟨t, hub, -, hnow, hnegotiate⟩ := h.negotiate_of_interval hi engine c.world.hub
  let h' : Handler := { h with heartbeat := some t }
  let w' : World := { c.world with
    hub := hub.setHeartbeat t engine interval, handlers := c.world.handlers.insert n h' }
  have hp : c.world.perform (.negotiate n e seconds) = World.ended (w', .number seconds) := by
    simp only [World.perform, World.negotiate, he, hh, hnegotiate]
    rfl
  have hevents : c.events = [.negotiated h.strand engine interval] := by
    unfold events
    rw [ht]
    simp only [World.events, he, hh, hi]
  have hlive : h' ∈ w'.live := mem_live_of_get? (Table.get?_insert_self _ n h')
  exact ⟨_, h', t, hub, step_of_ended ht hp, hevents, rfl, hlive, rfl, rfl, rfl, hnow⟩

end Operations

/-- Close is final until an interval is negotiated. Closing a handler succeeds, and then no
heartbeat begins for it before it accepts an interval. Negotiating zero answers zero and leaves the
world as it is. Negotiating more answers that, leaves one wait for the heartbeats of the handler in
the reactor, with the deadline in as many seconds, and until the handler accepts an interval again
all its heartbeats go to the engine that negotiated. -/
theorem close_is_final (hr : Reached c log) {n e : Int} {engine : Nat} {h : Handler}
    {todo : List Op} (he : c.world.engines.get? e = some engine)
    (hh : c.world.handlers.get? n = some h) :
    (c.frame.todo = .close n e :: todo → ∃ c', c.step = some c' ∧
      c'.frame = { c.frame with todo := todo, entries := .mk .done [] :: c.frame.entries } ∧
      ∀ c₁ log₁ c₂ e', Run c' c₁ log₁ → lastNegotiated h.strand log₁ = none →
        ¬HeartbeatBegins c₁ c₂ h.strand e') ∧
    (c.frame.todo = .negotiate n e 0 :: todo → c.step = some { c with
      frame := { c.frame with todo := todo, entries := .mk (.number 0) [] :: c.frame.entries } }) ∧
    ∀ seconds, 0 < seconds → c.frame.todo = .negotiate n e seconds :: todo →
      ∃ c', c.step = some c' ∧
        c'.frame = { c.frame with
          todo := todo, entries := .mk (.number seconds) [] :: c.frame.entries } ∧
        (∃ x, c'.world.heartbeatWaits h.strand = [x] ∧
          x.deadline = c.world.hub.reactor.now + seconds * 1000) ∧
        ∀ c₁ log₁ c₂ e', Run c' c₁ log₁ → lastNegotiated h.strand log₁ = none →
          HeartbeatBegins c₁ c₂ h.strand e' → e' = engine := by
  refine ⟨fun ht => ?_, fun ht => ?_, fun seconds hpos ht => ?_⟩
  · obtain ⟨c', h', hs, hframe, hlive, hstrand, hnone⟩ := step_of_close he hh ht
    refine ⟨c', hs, hframe, fun c₁ log₁ c₂ e' hrun hn => ?_⟩
    rw [← hstrand] at hn ⊢
    exact not_heartbeatBegins (hr.step hs) hlive hnone hrun hn e'
  · have hsame : c.world.negotiate n e 0 = (c.world, .number 0) := by
      simp only [World.negotiate, he, hh, Handler.negotiate, Interval.ofSeconds?, lt_irrefl,
        dite_false, Table.insert_of_get? hh]
    exact step_of_ended ht (congrArg World.ended hsame)
  · let interval : Interval := ⟨seconds, hpos⟩
    have hi : Interval.ofSeconds? seconds = some interval := dif_pos hpos
    obtain ⟨c', h', t, hub, hs, hevents, hframe, hlive, hstrand, hheld, hset, hnow⟩ :=
      step_of_negotiate he hh hi ht
    have hr' := hr.step hs
    rw [← hstrand]
    refine ⟨c', hs, hframe, ?_, fun c₁ log₁ c₂ e' hrun hn hbegins => ?_⟩
    · have hlength : interval.length = seconds * 1000 := rfl
      rw [← hnow, ← hlength]
      exact heartbeatWaits_of_setHeartbeat hr' hlive hheld hset
    · have hlast : lastNegotiated h'.strand (c.events.reverse ++ log) =
          some (engine, interval) := by
        rw [hevents, hstrand]
        simp [lastNegotiated, Event.negotiates?]
      exact engine_of_heartbeatBegins hr' hlive hlast hrun hn hbegins

/-- A wait for a heartbeat is taken out of the reactor, the handler is closed, and then the callback
of the wait is run. Later another engine negotiates. -/
def closing : List Op :=
  [.newHandler 0, .newEngine 0 {} false, .newEngine 1 {} false, .negotiate 0 0 5, .takeTimed 1,
    .close 0 0, .invoke 1 (.ok ()), .negotiate 0 1 7]

/-- No heartbeat begins when the callback is run, and after the negotiation one wait is left. -/
theorem close_is_final_closing :
    (∀ e, ¬HeartbeatBegins (sample closing 6).1 (sample closing 7).1 0 e) ∧
      ∃ x, (sample closing 8).1.world.heartbeatWaits 0 = [x] ∧ x.deadline = 7000 := by
  constructor
  · have h := @close_is_final _ _ (reached_sample closing 5) 0 0 0 ⟨0, some 0, ∅⟩
      [.invoke 1 (.ok ()), .negotiate 0 1 7] rfl rfl
    obtain ⟨c', hs, -, hnot⟩ := h.1 rfl
    cases hs
    exact fun e => hnot _ [] _ e .refl rfl
  · have h := @close_is_final _ _ (reached_sample closing 7) 0 1 1 ⟨0, none, ∅⟩ [] rfl rfl
    obtain ⟨c', hs, -, hone, -⟩ := h.2.2 7 (by decide) rfl
    cases hs
    exact hone

end Config
end Scenario
end Wakeup
