import Wakeup.Proofs.Generations
import Wakeup.Proofs.Lasting

/-! Waits for beats stand until they are run. Of those of one generation there is one at most, and
neither it nor the schedule changes unless the heartbeat is set, stopped or gone. -/
namespace Wakeup

/-- Whether a beat is of a generation of a heartbeat. -/
def Beat.isIn (t generation : Nat) (b : Beat) : Bool :=
  b.heartbeat == t && b.generation == generation

theorem Beat.isIn_iff {t generation : Nat} {b : Beat} :
    b.isIn t generation = true ↔ b.heartbeat = t ∧ b.generation = generation := by
  rw [isIn, Bool.and_eq_true, beq_iff_eq, beq_iff_eq]

theorem Wait.isBeat_of_callback {w : Wait} {t generation e : Nat}
    (h : w.callback = .beat t generation e) : w.isBeat (Beat.isIn t generation) = true := by
  rw [isBeat, h]
  exact Beat.isIn_iff.mpr ⟨rfl, rfl⟩

/-- The beats of the current generation are those that are due. -/
theorem Beat.isDue_eq_isIn {hub : Hub Manual} {t generation : Nat}
    (h : hub.generation? t = some generation) : Beat.isDue hub t = Beat.isIn t generation := by
  obtain ⟨x, hx, rfl⟩ := Option.map_eq_some_iff.mp h
  funext b
  rw [Bool.eq_iff_iff, isDue_iff, isIn_iff]
  refine and_congr_right fun ht => ?_
  subst ht
  rw [current_iff hx, eq_comm]

theorem Call.beat?_eq_some {call : Call} {b : Beat} (h : call.beat? = some b) :
    call.owner = .heartbeat b.heartbeat b.generation ∧ call.notice = .heartbeat ∧
      call.engine = b.engine := by
  obtain ⟨owner, s, e, notice⟩ := call
  cases owner with
  | watcher i d => cases h
  | heartbeat t generation =>
    cases notice with
    | process => cases h
    | waitError => cases h
    | heartbeat =>
      cases h
      exact ⟨rfl, rfl, rfl⟩

namespace Scenario

namespace Event

/-- Whether a wait for a beat of a kind completed ready. -/
def completes (p : Beat → Bool) : Event → Bool
  | .completed w o _ => w.isBeat p && Verdict.of o == .proceed
  | _ => false

/-- Whether a wait for a beat of a kind failed or was cancelled, or was thrown away. -/
def disturbs (p : Beat → Bool) : Event → Bool
  | .completed w o _ => w.isBeat p && Verdict.of o != .proceed
  | .discarded w => w.isBeat p
  | _ => false

end Event

namespace Ledger
variable {L L' : Ledger} {p : Beat → Bool} {t generation e : Nat}

section Unique

theorem countP_hasWait (p : Beat → Bool) (L : Ledger) :
    ((L.hub.reactor.waits : Multiset Wait) + L.kept).countP (·.isBeat p = true) +
      L.calls.countP (·.beat?.any p) ≤ L.expected p := by
  have hreactor := Manual.beats_eq p L.hub.reactor
  have hcoe : (L.hub.reactor.waits : Multiset Wait).countP (·.isBeat p = true) =
      L.hub.reactor.waits.countP (·.isBeat p) := by
    rw [Multiset.coe_countP]
    simp
  rw [Multiset.countP_add, hcoe]
  unfold expected
  omega

theorem HasWait.mem {w : Wait} (h : L.HasWait w) :
    w ∈ (L.hub.reactor.waits : Multiset Wait) + L.kept :=
  Multiset.mem_add.mpr h

/-- Of the waits that can still be run, one at most is for a beat of a kind of which one at most is
expected. -/
theorem HasWait.eq (h : L.expected p ≤ 1) {w w' : Wait} (hw : L.HasWait w) (hw' : L.HasWait w')
    (hb : w.isBeat p = true) (hb' : w'.isBeat p = true) : w = w' := by
  let all : Multiset Wait := ↑L.hub.reactor.waits + L.kept
  have hmem : w ∈ all.filter (·.isBeat p = true) := Multiset.mem_filter.mpr ⟨hw.mem, hb⟩
  have hmem' : w' ∈ all.filter (·.isBeat p = true) := Multiset.mem_filter.mpr ⟨hw'.mem, hb'⟩
  have hcard : (all.filter (·.isBeat p = true)).card = 1 := by
    have hle := L.countP_hasWait p
    have hpos := Multiset.card_pos_iff_exists_mem.mpr ⟨w, hmem⟩
    rw [Multiset.countP_eq_card_filter] at hle
    change (all.filter _).card + _ ≤ _ at hle
    omega
  obtain ⟨a, ha⟩ := Multiset.card_eq_one.mp hcard
  rw [ha, Multiset.mem_singleton] at hmem hmem'
  rw [hmem, hmem']

/-- While a wait for such a beat can be run, no engine is being told of one. -/
theorem HasWait.not_told (h : L.expected p ≤ 1) {w : Wait} (hw : L.HasWait w)
    (hb : w.isBeat p = true) {call : Call} (hcall : call ∈ L.calls) :
    call.beat?.any p = false := by
  have hle := L.countP_hasWait p
  have hpos : 0 < ((L.hub.reactor.waits : Multiset Wait) + L.kept).countP (·.isBeat p = true) :=
    Multiset.countP_pos.mpr ⟨w, hw.mem, hb⟩
  have hzero : L.calls.countP (·.beat?.any p) = 0 := by omega
  rw [← Bool.not_eq_true]
  exact List.countP_eq_zero.mp hzero call hcall

/-- No two engines are being told of such beats. -/
theorem eq_of_told (h : L.expected p ≤ 1) {call call' : Call} {cs : List Call}
    (hc : L.calls = call :: cs) (hb : call.beat?.any p = true) (hcall : call' ∈ L.calls)
    (hb' : call'.beat?.any p = true) : call' = call := by
  have hle := L.countP_hasWait p
  rw [hc, List.countP_cons, if_pos hb] at hle
  have hzero : cs.countP (·.beat?.any p) = 0 := by omega
  rw [hc] at hcall
  refine (List.mem_cons.mp hcall).resolve_right fun hmem => ?_
  exact List.countP_eq_zero.mp hzero call' hmem hb'

end Unique

/-- Of the beats of a generation that is current, one at most is expected. -/
theorem Single.expected_isIn_le (hs : Single L) (hg : L.hub.generation? t = some generation) :
    L.expected (Beat.isIn t generation) ≤ 1 := by
  have hone := hs t
  unfold due at hone
  rwa [Beat.isDue_eq_isIn hg] at hone

section Timed
variable {x : TimedWait}

theorem hasWait_of_timed (hx : x ∈ L.hub.reactor.timed) : L.HasWait x.wait :=
  Or.inl (Manual.mem_waits.mpr (Or.inr (Or.inl ⟨x, hx, rfl⟩)))

theorem mem_timed_cancel {m : Manual} {a : Nat} (hx : x ∈ m.timed) (h : x.timer ≠ a) :
    x ∈ (m.cancel a).timed :=
  List.mem_filter.mpr ⟨hx, decide_eq_true h⟩

theorem mem_timed_schedule {m : Manual} {a : Nat} (hx : x ∈ m.timed) (h : x.timer ≠ a)
    (deadline : Nat) (c : Callback) : x ∈ (m.schedule a deadline c).timed :=
  List.mem_append_left _ (mem_timed_cancel hx h)

theorem timer_ne_of_ne (ho : Owned L) (hp : Punctual L) (hx : x ∈ L.hub.reactor.timed)
    (hcb : x.wait.callback = .beat t generation e) {j : Nat} {y : Heartbeat}
    (hy : L.hub.heartbeats[j]? = some y) (hj : j ≠ t) : x.timer ≠ y.timer := by
  intro heq
  have htimer : L.hub.timer? t = some x.timer :=
    hp.timer_eq hx (b := ⟨t, generation, e⟩) (by rw [hcb]; rfl)
  rw [heq] at htimer
  exact hj (timer?_inj ho (Hub.timer?_of_getElem? hy) htimer)

/-- The wait of a timer stays in the reactor until it is taken out, unless the heartbeat of the
timer is set, stopped or gone. -/
theorem Move.timed (hm : Move L L') (ho : Owned L) (hp : Punctual L)
    (hx : x ∈ L.hub.reactor.timed) (hcb : x.wait.callback = .beat t generation e)
    (hg : L.hub.generation? t = some generation) (hg' : L'.hub.generation? t = some generation)
    (hlasts : L'.hub.lasts (.heartbeat t) = true) :
    x ∈ L'.hub.reactor.timed ∨ x.wait ∈ L'.kept := by
  have hsame (h : L'.hub.reactor.timed = L.hub.reactor.timed) :
      x ∈ L'.hub.reactor.timed ∨ x.wait ∈ L'.kept := Or.inl (h ▸ hx)
  have hbare {a : Nat} (ha : a ∈ L.timers) : x.timer ≠ a := by
    rintro rfl
    exact timer?_notMem ho (hp.timer_eq hx (b := ⟨t, generation, e⟩) (by rw [hcb]; rfl)) ha
  have hheartbeat {place : Option Nat} {j : Nat} (hmem : (place, j) ∈ L.heartbeats) :
      ∃ y, L.hub.heartbeats[j]? = some y ∧ (j ≠ t → x.timer ≠ y.timer) := by
    obtain ⟨z, hz⟩ := schedule?_of_held ho (Multiset.mem_map_of_mem (·.2) hmem)
    obtain ⟨y, hy, -⟩ := Option.map_eq_some_iff.mp hz
    exact ⟨y, hy, timer_ne_of_ne ho hp hx hcb hy⟩
  cases hm with
  | refused hr => exact hsame (Manual.timed_register hr).1
  | newWatcher _ _ hn =>
    obtain ⟨r, m, hr, -, rfl⟩ := Hub.newWatcher_ok hn
    exact hsame (Manual.timed_register hr).1
  | setInterest e ev => exact hsame (Hub.timed_setInterest L.hub _ e ev).1
  | dropWatcher => exact hsame (Hub.timed_reapWatcher _ _)
  | @setHeartbeat place j e' interval hmem =>
    obtain ⟨y, hy, hne⟩ := hheartbeat hmem
    have hj : j ≠ t := by
      rintro rfl
      cases hg'.symm.trans (Hub.generation?_setHeartbeat hg e' interval)
    left
    change x ∈ (L.hub.setHeartbeat j e' interval).reactor.timed
    rw [Hub.reactor_setHeartbeat hy]
    exact mem_timed_schedule (mem_timed_cancel hx (hne hj)) (hne hj) _ _
  | @stopHeartbeat place j hmem =>
    obtain ⟨y, hy, hne⟩ := hheartbeat hmem
    have hj : j ≠ t := by
      rintro rfl
      cases hg'.symm.trans (Hub.generation?_stopHeartbeat hg)
    left
    simp only [Hub.stopHeartbeat, hy]
    exact mem_timed_cancel hx (hne hj)
  | @dropHeartbeat place j ts hb =>
    obtain ⟨y, hy, hne⟩ := hheartbeat (hb ▸ Multiset.mem_cons_self _ _)
    have hlasts' := Hub.lasts_heartbeat_modify hy
      (congrArg Roster.heartbeats (Hub.roster_dropHeartbeat L.hub j)) t
    left
    change x ∈ (L.hub.dropHeartbeat j).reactor.timed
    rw [Hub.reactor_dropHeartbeat hy]
    split
    · exact hx
    · rename_i hdead
      refine mem_timed_cancel hx (hne ?_)
      rintro rfl
      rw [if_pos rfl] at hlasts'
      exact hdead (hlasts'.symm.trans hlasts)
  | takeReady ht =>
    obtain ⟨-, -, -, -, rfl⟩ := Manual.takeReady_some ht
    exact Or.inl hx
  | takeTimed ht =>
    obtain ⟨y, ts, rfl, hperm, rfl⟩ := Manual.takeTimed_some ht
    rcases List.mem_cons.mp (hperm.mem_iff.mp hx) with rfl | hx
    · exact Or.inr (Multiset.mem_cons_self _ _)
    · exact Or.inl hx
  | complete o => exact hsame (congrArg Manual.timed (Hub.reactor_begin L.hub _ o))
  | register hr => exact hsame (Manual.timed_register hr).1
  | scheduleBare deadline tag ha => exact Or.inl (mem_timed_schedule hx (hbare ha) _ _)
  | cancelBare ha => exact Or.inl (mem_timed_cancel hx (hbare ha))
  | dropTimer ha => exact Or.inl (mem_timed_cancel hx (hbare (ha ▸ Multiset.mem_cons_self _ _)))
  | _ => exact Or.inl hx

/-- The end of a call for another generation leaves the wait in the reactor. -/
theorem timed_finish (hp : Paced L) {call : Call} {cs : List Call} (hc : L.calls = call :: cs)
    (hx : x ∈ L.hub.reactor.timed) (hcb : x.wait.callback = .beat t generation e)
    (hg : L.hub.generation? t = some generation)
    (hlasts : (L.finish call cs).hub.lasts (.heartbeat t) = true)
    (hnot : call.beat?.any (Beat.isIn t generation) = false) :
    x ∈ (L.finish call cs).hub.reactor.timed := by
  change x ∈ (L.hub.finish call).reactor.timed
  cases howner : call.owner with
  | watcher i d => rwa [Hub.timed_finish_of_watcher howner]
  | heartbeat j generation' =>
    obtain ⟨y, hy⟩ := hp.inUse.exists_heartbeat hc howner
    have hne := timer_ne_of_ne hp.owned hp.punctual hx hcb hy
    have hroster := congrArg Roster.heartbeats (Hub.roster_finish L.hub call)
    rw [Roster.modifyCall, howner] at hroster
    have hlasts' := Hub.lasts_heartbeat_modify hy hroster t
    obtain ⟨m, hreactor, hm⟩ := Hub.reactor_finish howner hy
    have hmem : x ∈ m.timed := by
      rcases hm with rfl | ⟨deadline, interval, hb, hgen, -, -, rfl⟩
      · exact hx
      · refine mem_timed_schedule hx (hne ?_) _ _
        rintro rfl
        have hsame : generation' = generation := by
          rw [← hgen]
          exact Hub.generation_eq_of (Hub.schedule?_of_getElem? hy) hg
        rw [hb, hsame] at hnot
        simp [Beat.isIn] at hnot
    rw [hreactor]
    split
    · exact hmem
    · rename_i hdead
      refine mem_timed_cancel hmem (hne ?_)
      rintro rfl
      rw [if_pos rfl] at hlasts'
      exact hdead (hlasts'.symm.trans hlasts)

end Timed

/-- A schedule stays as it is, unless it is set or stopped, a wait of it is disturbed, or an engine
was told of a beat. -/
theorem Move.schedule?_eq (hm : Move L L') {x : Schedule} (hx : L.hub.schedule? t = some x)
    (hg : L'.hub.generation? t = some x.generation)
    (hu : L'.log.countP (·.disturbs (Beat.isIn t x.generation)) =
      L.log.countP (·.disturbs (Beat.isIn t x.generation))) :
    L'.hub.schedule? t = some x := by
  have hsame (h : L'.hub.schedule? t = L.hub.schedule? t) : L'.hub.schedule? t = some x :=
    h.trans hx
  have hgx := Hub.generation?_eq hx
  cases hm with
  | newWatcher _ _ hn => exact hsame (Hub.schedule?_congr (Hub.heartbeats_newWatcher hn) t)
  | setInterest e ev => exact hsame (Hub.schedule?_congr (Hub.heartbeats_setInterest _ _ e ev) t)
  | dropWatcher => exact hsame (Hub.schedule?_congr (Hub.heartbeats_dropWatcher _ _) t)
  | newHeartbeat =>
    have hne := Hub.ne_length_of_schedule? hx
    exact hsame ((Hub.schedule?_newHeartbeat _ _ t).trans (if_neg hne))
  | @setHeartbeat place j e interval hmem =>
    have hj : j ≠ t := by
      rintro rfl
      have heq := Option.some.inj (hg.symm.trans (Hub.generation?_setHeartbeat hgx e interval))
      omega
    exact hsame ((Hub.schedule?_setHeartbeat _ j e interval t).trans (if_neg hj))
  | @stopHeartbeat place j hmem =>
    have hj : j ≠ t := by
      rintro rfl
      have heq := Option.some.inj (hg.symm.trans (Hub.generation?_stopHeartbeat hgx))
      omega
    exact hsame ((Hub.schedule?_stopHeartbeat _ j t).trans (if_neg hj))
  | dropHeartbeat => exact hsame (Hub.schedule?_dropHeartbeat _ _ t)
  | @complete wait ws o hk =>
    refine hsame ((Hub.schedule?_begin _ _ _ t).trans (if_neg fun hfails => ?_))
    -- a wait that ends the schedule disturbs it
    simp only [Hub.fails, Bool.and_eq_true, beq_iff_eq, bne_iff_ne] at hfails
    obtain ⟨⟨⟨hpart, -⟩, hasks⟩, hv⟩ := hfails
    have hbeat : wait.isBeat (Beat.isIn t x.generation) = true := by
      cases hcb : wait.callback with
      | bare tag => rw [hcb] at hpart; cases hpart
      | ready i d e => rw [hcb] at hpart; cases hpart
      | beat t' generation e =>
        rw [hcb] at hpart hasks
        cases hpart
        rw [Hub.asks_beat, hx, Option.any_some, Bool.and_eq_true, beq_iff_eq] at hasks
        rw [Wait.isBeat, hcb]
        exact Beat.isIn_iff.mpr ⟨rfl, hasks.2.symm⟩
    rw [List.countP_cons] at hu
    simp [Event.disturbs, hbeat, hv] at hu
  | _ => exact hx

/-- A wait that is kept stays kept until it is completed or thrown away. -/
theorem Move.kept (hm : Move L L') {w : Wait} (hw : w ∈ L.kept) :
    w ∈ L'.kept ∨ L'.log = .discarded w :: L.log ∨
      ∃ o served, L'.log = .completed w o served :: L.log := by
  cases hm with
  | takeReady => exact Or.inl (Multiset.mem_cons_of_mem hw)
  | takeTimed => exact Or.inl (Multiset.mem_cons_of_mem hw)
  | takeParked => exact Or.inl (Multiset.mem_add.mpr (Or.inr hw))
  | discard hk =>
    rcases Multiset.mem_cons.mp (hk ▸ hw) with rfl | hw
    · exact Or.inr (Or.inl rfl)
    · exact Or.inl hw
  | complete o hk =>
    rcases Multiset.mem_cons.mp (hk ▸ hw) with rfl | hw
    · exact Or.inr (Or.inr ⟨o, _, rfl⟩)
    · exact Or.inl hw
  | _ => exact Or.inl hw

end Ledger

end Scenario
end Wakeup
