import Wakeup.Proofs.Standing

/-! Schedules that nothing disturbs. The deadlines of their waits follow one another at the
interval, whenever the waits are completed. -/
namespace Wakeup.Scenario

/-- A schedule as it was set: a generation of a heartbeat, the engine that is told, the interval,
and when it was set. -/
structure Cadence where
  heartbeat : Nat
  generation : Nat
  engine : Nat
  interval : Interval
  start : Nat

namespace Cadence
open Ledger
variable (r : Cadence)

def beat : Beat := ⟨r.heartbeat, r.generation, r.engine⟩

def callback : Callback := .beat r.heartbeat r.generation r.engine

/-- Whether a beat is of the schedule. -/
def owns : Beat → Bool := Beat.isIn r.heartbeat r.generation

/-- The deadline of the beat that follows a number of beats. -/
def deadline (n : Nat) : Nat := r.start + (n + 1) * r.interval.length

/-- The schedule after a number of beats. -/
def schedule (n : Nat) : Schedule := ⟨some r.interval, some (r.deadline n), r.generation⟩

theorem owns_beat : r.owns r.beat = true := Beat.isIn_iff.mpr ⟨rfl, rfl⟩

theorem deadline_succ (n : Nat) : r.deadline (n + 1) = r.deadline n + r.interval.length := by
  unfold deadline
  rw [Nat.succ_mul]
  omega

private theorem next_schedule (n : Nat) :
    (r.schedule n).next r.generation = r.schedule (n + 1) := by
  have hnext := Schedule.next_of_eq (s := r.schedule n) rfl rfl
  rw [← r.deadline_succ] at hnext
  exact hnext

/-- What is to hold of a ledger for the schedule to go on. -/
structure Steady (k : Nat) (L : Ledger) : Prop where
  generation : L.hub.generation? r.heartbeat = some r.generation
  reaches : L.hub.reaches r.callback = true
  engine : L.hub.engineAlive r.engine = true
  undisturbed : L.log.countP (·.disturbs r.owns) = k

/-- After a number of completions, the next wait can be run and was armed for its deadline, or the
engine is being told of the last beat. -/
inductive OnTime (armed : TimedWait → Prop) (L : Ledger) : Nat → Prop
  | awaits {n : Nat} {x : TimedWait} (hs : L.hub.schedule? r.heartbeat = some (r.schedule n))
      (ha : armed x) (hcb : x.wait.callback = r.callback) (hd : x.deadline = r.deadline n)
      (hx : x ∈ L.hub.reactor.timed ∨ x.wait ∈ L.kept) : OnTime armed L n
  | tells {n : Nat} {call : Call} (hs : L.hub.schedule? r.heartbeat = some (r.schedule n))
      (hmem : call ∈ L.calls) (hb : call.beat? = some r.beat) : OnTime armed L (n + 1)

variable {r} {L L' : Ledger} {armed armed' : TimedWait → Prop} {k n : Nat}

namespace Steady

theorem expected_le (h : r.Steady k L) (hs : Single L) : L.expected r.owns ≤ 1 :=
  hs.expected_isIn_le h.generation

theorem lasts (h : r.Steady k L) : L.hub.lasts (.heartbeat r.heartbeat) = true :=
  Hub.lasts_of_reaches rfl h.reaches

end Steady

namespace OnTime

theorem keep (h : r.OnTime armed L n)
    (hs : ∀ x, L.hub.schedule? r.heartbeat = some x → L'.hub.schedule? r.heartbeat = some x)
    (ht : ∀ x ∈ L.hub.reactor.timed, x.wait.callback = r.callback →
      x ∈ L'.hub.reactor.timed ∨ x.wait ∈ L'.kept)
    (hk : ∀ w ∈ L.kept, w.callback = r.callback → w ∈ L'.kept)
    (hc : ∀ call ∈ L.calls, call.beat? = some r.beat → call ∈ L'.calls) :
    r.OnTime armed L' n := by
  cases h with
  | awaits hx ha hcb hd hor =>
    refine .awaits (hs _ hx) ha hcb hd ?_
    rcases hor with hmem | hmem
    · exact ht _ hmem hcb
    · exact Or.inr (hk _ hmem hcb)
  | tells hx hmem hb => exact .tells (hs _ hx) (hc _ hmem hb) hb

theorem mono (h : r.OnTime armed L n) (ha : ∀ x, armed x → armed' x) : r.OnTime armed' L n := by
  cases h with
  | awaits hs hx hcb hd hor => exact .awaits hs (ha _ hx) hcb hd hor
  | tells hs hmem hb => exact .tells hs hmem hb

/-- A wait of the schedule that can be run is that of the next beat. -/
theorem awaits_of_hasWait (h : r.OnTime armed L n) (hone : L.expected r.owns ≤ 1) {w : Wait}
    (hw : L.HasWait w) (hb : w.isBeat r.owns = true) :
    w.callback = r.callback ∧ L.hub.schedule? r.heartbeat = some (r.schedule n) := by
  cases h with
  | @awaits _ x hs ha hcb hd hor =>
    have hx : L.HasWait x.wait := hor.elim hasWait_of_timed Or.inr
    rw [hw.eq hone hx hb (Wait.isBeat_of_callback hcb)]
    exact ⟨hcb, hs⟩
  | tells hs hmem hb' =>
    have hnot := hw.not_told hone hb hmem
    rw [hb', Option.any_some, r.owns_beat] at hnot
    cases hnot

/-- No wait of the schedule is completed. -/
theorem still (h : r.OnTime armed L n) (hm : Move L L') (hp : Paced L) (hs : r.Steady k L)
    (hs' : r.Steady k L')
    (hc : L'.log.countP (·.completes r.owns) = L.log.countP (·.completes r.owns)) :
    r.OnTime armed L' n := by
  have hu := hs'.undisturbed.trans hs.undisturbed.symm
  refine h.keep (fun x hx => ?_) (fun x hx hcb => ?_) (fun w hw hcb => ?_) fun call hcall _ =>
    hm.calls_suffix.subset hcall
  · have hgen : x.generation = r.generation := Hub.generation_eq_of hx hs.generation
    refine hm.schedule?_eq hx (hs'.generation.trans (congrArg some hgen.symm)) ?_
    rw [hgen]
    exact hu
  · exact hm.timed hp.owned hp.punctual hx hcb hs.generation hs'.generation hs'.lasts
  · have hbeat : w.isBeat r.owns = true := Wait.isBeat_of_callback hcb
    rcases hm.kept hw with hw | hlog | ⟨o, served, hlog⟩
    · exact hw
    · rw [hlog, List.countP_cons] at hu
      simp [Event.disturbs, hbeat] at hu
    · rw [hlog, List.countP_cons] at hu hc
      by_cases hv : Verdict.of o = .proceed
      · simp [Event.completes, hbeat, hv] at hc
      · simp [Event.disturbs, hbeat, hv] at hu

/-- When a wait of the schedule completes ready the engine is told, whatever the reactor has. -/
theorem countP_begin (h : r.OnTime armed L n) (hp : Paced L) (hs : r.Steady k L) {wait : Wait}
    (hw : L.HasWait wait) (hb : wait.isBeat r.owns = true) {o : Outcome}
    (hv : Verdict.of o = .proceed) (m : Manual) {p : Beat → Bool} (howns : p r.beat = true) :
    (({ L.hub with reactor := m } : Hub Manual).begin wait.callback o).2.toList.countP
      (·.beat?.any p) = 1 := by
  obtain ⟨hcb, hx⟩ := h.awaits_of_hasWait (hs.expected_le hp.single) hw hb
  have hasks : { L.hub with reactor := m }.asks wait.callback o = true := by
    change L.hub.asks wait.callback o = true
    rw [hcb, callback, Hub.asks_beat, hv, hx]
    simp [schedule]
  have hserves : serves { L.hub with reactor := m } wait.callback = true := by
    rw [hcb]
    exact hs.engine
  have hreaches : { L.hub with reactor := m }.reaches wait.callback = true := by
    rw [hcb]
    exact hs.reaches
  have hbegin := beat?_begin { L.hub with reactor := m } wait o p
  have hgiven : (Event.completed wait o true).beat? = none := by
    simp [Event.beat?, hv]
  have hmine : wait.isBeat p = true := by
    rw [Wait.isBeat, hcb]
    exact howns
  have houtlasts : outlasts { L.hub with reactor := m } wait.callback o = true := by
    simp [outlasts, hv, hreaches, hasks]
  rw [hserves, hgiven, hmine, houtlasts] at hbegin
  simpa using hbegin

/-- A wait of the schedule is completed. It was that of the next beat, and the engine is told. -/
theorem complete (h : r.OnTime armed L n) (hp : Paced L) (hs : r.Steady k L) {wait : Wait}
    {ws : Multiset Wait} {o : Outcome} (hk : L.kept = wait ::ₘ ws)
    (hb : wait.isBeat r.owns = true) (hv : Verdict.of o = .proceed) :
    r.OnTime armed { L with
      hub := (L.hub.begin wait.callback o).1
      kept := ws
      calls := (L.hub.begin wait.callback o).2.toList ++ L.calls
      log := .completed wait o (serves L.hub wait.callback) :: L.log } (n + 1) := by
  have hw : L.HasWait wait := Or.inr (hk ▸ Multiset.mem_cons_self _ _)
  obtain ⟨-, hx⟩ := h.awaits_of_hasWait (hs.expected_le hp.single) hw hb
  have hfails : L.hub.fails wait.callback o r.heartbeat = false := by
    simp [Hub.fails, hv]
  have hschedule := Hub.schedule?_begin L.hub wait.callback o r.heartbeat
  rw [hfails, if_neg Bool.false_ne_true] at hschedule
  have hone := h.countP_begin hp hs hw hb hv L.hub.reactor (p := (· == r.beat))
    (beq_self_eq_true r.beat)
  obtain ⟨call, hcall, hany⟩ := List.countP_pos_iff.mp (hone ▸ Nat.one_pos)
  obtain ⟨b, hbeat, heq⟩ := (Option.any_eq_true ..).mp hany
  rw [beq_iff_eq.mp heq] at hbeat
  exact .tells (hschedule.trans hx) (List.mem_append_left _ hcall) hbeat

/-- A call of another kind ends. -/
theorem finish_of_not (h : r.OnTime armed L n) (hp : Paced L) (hs : r.Steady k L)
    {call : Call} {cs : List Call} (hc : L.calls = call :: cs)
    (hs' : r.Steady k (L.finish call cs)) (hnot : call.beat?.any r.owns = false) :
    r.OnTime armed (L.finish call cs) n := by
  refine h.keep (fun x hx => ?_) (fun x hx hcb => Or.inl ?_) (fun w hw _ => hw)
    fun call' hcall hb => ?_
  · have hgen : x.generation = r.generation := Hub.generation_eq_of hx hs.generation
    refine (Hub.schedule?_finish L.hub call r.heartbeat).trans ?_
    rw [hx]
    cases hb : call.beat? with
    | none => rfl
    | some b =>
      dsimp only
      split
      · rename_i hbt
        have hne : x.generation ≠ b.generation := by
          intro heq
          rw [hb, Option.any_some] at hnot
          have howns : r.owns b = true := Beat.isIn_iff.mpr ⟨hbt, heq.symm.trans hgen⟩
          rw [howns] at hnot
          cases hnot
        rw [Option.map_some, Schedule.next_of_ne hne]
      · rfl
  · exact timed_finish hp hc hx hcb hs.generation hs'.lasts hnot
  · rw [hc] at hcall
    rcases List.mem_cons.mp hcall with rfl | hcall
    · rw [hb, Option.any_some, r.owns_beat] at hnot
      cases hnot
    · exact hcall

/-- The engine was told of a beat. The next wait is armed for the deadline after. -/
theorem finish_of_told (h : r.OnTime armed L n) (hp : Paced L) (hs : r.Steady k L)
    {call : Call} {cs : List Call} (hc : L.calls = call :: cs)
    (hs' : r.Steady k (L.finish call cs)) (hb : call.beat?.any r.owns = true) :
    r.OnTime (· ∈ (L.finish call cs).hub.reactor.timed) (L.finish call cs) n := by
  have hone := hs.expected_le hp.single
  cases h with
  | awaits hx ha hcb hd hor =>
    have hw : L.HasWait _ := hor.elim hasWait_of_timed Or.inr
    have hnot := hw.not_told hone (Wait.isBeat_of_callback hcb) (hc ▸ List.mem_cons_self)
    rw [hnot] at hb
    cases hb
  | @tells n call' hx hmem hb' =>
    have hany : call'.beat?.any r.owns = true := by
      rw [hb']
      exact r.owns_beat
    have heq := eq_of_told hone hc hb hmem hany
    subst heq
    have hnext := Hub.schedule?_finish L.hub call' r.heartbeat
    rw [hb'] at hnext
    simp only [beat, if_true, hx, Option.map_some, next_schedule] at hnext
    obtain ⟨y, hy, hys⟩ := Option.map_eq_some_iff.mp hx
    obtain ⟨howner, hnotice, hengine⟩ := Call.beat?_eq_some hb'
    have halive : y.presence.release.alive = true := by
      have hroster := congrArg Roster.heartbeats (Hub.roster_finish L.hub call')
      rw [Roster.modifyCall, howner] at hroster
      have hlasts := Hub.lasts_heartbeat_modify hy hroster r.heartbeat
      rw [if_pos rfl] at hlasts
      exact hlasts.symm.trans hs'.lasts
    have hreactor : (L.finish call' cs).hub.reactor =
        L.hub.reactor.schedule y.timer (r.deadline (n + 1)) r.callback := by
      have hresume : L.hub.resume call' = L.hub.nextBeat r.heartbeat r.generation r.engine := by
        unfold Hub.resume
        rw [howner, hnotice, hengine]
        rfl
      have harm := Hub.reactor_nextBeat_of_deadline hy (congrArg Schedule.deadline hys)
        (congrArg Schedule.interval hys) r.engine
      rw [hys, ← deadline_succ] at harm
      refine (Hub.reactor_finish_eq howner hy).trans ?_
      rw [if_pos halive, hresume]
      exact harm
    refine .awaits hnext (x := ⟨y.timer, _, ⟨L.hub.reactor.tickets, r.callback⟩⟩) ?_ rfl rfl
      (Or.inl ?_) <;>
    · rw [hreactor]
      exact List.mem_append_right _ (List.mem_singleton_self _)

end OnTime

/-- What a schedule keeps, whatever happens: it goes on as long as it is steady. -/
structure Follows (r : Cadence) (armed : TimedWait → Prop) (base k : Nat) (L : Ledger) : Prop where
  paced : Paced L
  generation_le : ∃ x, L.hub.schedule? r.heartbeat = some x ∧ r.generation ≤ x.generation
  engine_lt : r.engine < L.hub.engines.length
  disturbed_le : k ≤ L.log.countP (·.disturbs r.owns)
  onTime : r.Steady k L → ∃ n, L.log.countP (·.completes r.owns) = base + n ∧ r.OnTime armed L n

namespace Follows
variable {base : Nat}

theorem mono (h : r.Follows armed base k L) (ha : ∀ x, armed x → armed' x) :
    r.Follows armed' base k L where
  paced := h.paced
  generation_le := h.generation_le
  engine_lt := h.engine_lt
  disturbed_le := h.disturbed_le
  onTime := fun hs => (h.onTime hs).imp fun _ hn => ⟨hn.1, hn.2.mono ha⟩

/-- A schedule that is steady was steady before. -/
theorem steady (h : r.Follows armed base k L) (ha : Ages L L') (hm : Makes L L')
    (hw : Wanes L.hub.engines L'.hub.engines)
    (hr : Wanes L.hub.roster.strands L'.hub.roster.strands ∧
      Wanes L.hub.roster.heartbeats L'.hub.roster.heartbeats)
    (hlog : L.log <:+ L'.log) (hs : r.Steady k L') : r.Steady k L := by
  obtain ⟨x, hx, hle⟩ := h.generation_le
  obtain ⟨y, hy, hle'⟩ := ha.generation_le hx
  have hgen : y.generation = r.generation := Hub.generation_eq_of hy hs.generation
  constructor
  · have heq : x.generation = r.generation := by omega
    exact (Hub.generation?_eq hx).trans (congrArg some heq)
  · obtain ⟨z, hz, -⟩ := Option.map_eq_some_iff.mp hx
    exact reaches_of_wanes h.paced.owned hm hr (List.getElem?_eq_some_iff.mp hz).1 hs.reaches
  · exact hw.alive r.engine h.engine_lt hs.engine
  · have hcount := hlog.sublist.countP_le (p := (·.disturbs r.owns))
    have hk := h.disturbed_le
    have hk' := hs.undisturbed
    omega

/-- A schedule begins with its first wait. -/
theorem of_schedule (hp : Paced L) (he : r.engine < L.hub.engines.length)
    (hs : L.hub.schedule? r.heartbeat = some (r.schedule 0)) {x : TimedWait}
    (hx : x ∈ L.hub.reactor.timed) (hcb : x.wait.callback = r.callback)
    (hd : x.deadline = r.deadline 0) :
    r.Follows (· ∈ L.hub.reactor.timed) (L.log.countP (·.completes r.owns))
      (L.log.countP (·.disturbs r.owns)) L where
  paced := hp
  generation_le := ⟨_, hs, le_rfl⟩
  engine_lt := he
  disturbed_le := le_rfl
  onTime := fun _ => ⟨0, rfl, .awaits hs hx hcb hd (Or.inl hx)⟩

/-- What goes on after a change. -/
theorem of_step (h : r.Follows armed base k L) (hp : Paced L') (ha : Ages L L')
    (hw : Wanes L.hub.engines L'.hub.engines) (hlog : L.log <:+ L'.log)
    (hon : r.Steady k L' → ∃ n, L'.log.countP (·.completes r.owns) = base + n ∧
      r.OnTime armed' L' n) : r.Follows armed' base k L' where
  paced := hp
  generation_le := by
    obtain ⟨x, hx, hle⟩ := h.generation_le
    obtain ⟨y, hy, hle'⟩ := ha.generation_le hx
    exact ⟨y, hy, hle.trans hle'⟩
  engine_lt := h.engine_lt.trans_le hw.length_le
  disturbed_le := h.disturbed_le.trans (hlog.sublist.countP_le)
  onTime := hon

theorem steady_of_move (h : r.Follows armed base k L) (hm : Move L L') (hs : r.Steady k L') :
    r.Steady k L :=
  h.steady (hm.ages h.paced.owned) hm.makes hm.wanes (hm.wanes_roster h.paced.owned)
    hm.log_suffix hs

theorem steady_of_finish (h : r.Follows armed base k L) {call : Call} {cs : List Call}
    (hc : L.calls = call :: cs) (hs : r.Steady k (L.finish call cs)) : r.Steady k L :=
  h.steady (ages_finish hc) (makes_finish L call cs) (wanes_finish L call cs)
    (wanes_roster_finish L call cs) List.suffix_rfl hs

theorem move (hm : Move L L') (h : r.Follows armed base k L) : r.Follows armed base k L' := by
  refine h.of_step (.move hm h.paced) (hm.ages h.paced.owned) hm.wanes hm.log_suffix fun hs' => ?_
  have hs := h.steady_of_move hm hs'
  obtain ⟨n, hn, hon⟩ := h.onTime hs
  by_cases hc : L'.log.countP (·.completes r.owns) = L.log.countP (·.completes r.owns)
  · exact ⟨n, hc.trans hn, hon.still hm h.paced hs hs' hc⟩
  · -- a wait of the schedule is completed
    cases hm with
    | @complete wait ws o hk =>
      rw [List.countP_cons] at hc
      have hcompletes : (Event.completed wait o (serves L.hub wait.callback)).completes r.owns =
          true := by
        by_contra hnot
        exact hc (by rw [if_neg hnot]; rfl)
      rw [Event.completes, Bool.and_eq_true, beq_iff_eq] at hcompletes
      refine ⟨n + 1, ?_, hon.complete h.paced hs hk hcompletes.1 hcompletes.2⟩
      rw [List.countP_cons, Event.completes, hcompletes.1, hcompletes.2, hn]
      rfl
    | @setInterest place i e ev =>
      cases place with
      | none => exact absurd rfl hc
      | some p => exact absurd rfl hc
    | @setHeartbeat place t e interval =>
      cases place with
      | none => exact absurd rfl hc
      | some p => exact absurd rfl hc
    | _ => exact absurd rfl hc

theorem finish {call : Call} {cs : List Call} (hc : L.calls = call :: cs)
    (h : r.Follows armed base k L) :
    r.Follows (fun x => armed x ∨ x ∈ (L.finish call cs).hub.reactor.timed) base k
      (L.finish call cs) := by
  refine h.of_step (h.paced.finish hc) (ages_finish hc) (wanes_finish L call cs) List.suffix_rfl
    fun hs' => ?_
  have hs := h.steady_of_finish hc hs'
  obtain ⟨n, hn, hon⟩ := h.onTime hs
  refine ⟨n, hn, ?_⟩
  cases hb : call.beat?.any r.owns with
  | true => exact (hon.finish_of_told h.paced hs hc hs' hb).mono fun x => Or.inr
  | false => exact (hon.finish_of_not h.paced hs hc hs' hb).mono fun x => Or.inl

theorem advance (ha : Advance L L') (h : r.Follows armed base k L) :
    r.Follows (fun x => armed x ∨ x ∈ L'.hub.reactor.timed) base k L' ∧
      (r.Steady k L' → r.Steady k L) := by
  cases ha with
  | moves hm =>
    have hmoves := hm.preserves
      (P := fun L' => r.Follows armed base k L' ∧ (r.Steady k L' → r.Steady k L))
      (fun hm h => ⟨.move hm h.1, fun hs => h.2 (h.1.steady_of_move hm hs)⟩) ⟨h, id⟩
    exact ⟨hmoves.1.mono fun x => Or.inl, hmoves.2⟩
  | finish hc => exact ⟨h.finish hc, h.steady_of_finish hc⟩

end Follows
end Cadence

end Wakeup.Scenario
