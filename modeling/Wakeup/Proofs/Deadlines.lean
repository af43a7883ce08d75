import Wakeup.Proofs.Expected
import Wakeup.Proofs.Private
import Wakeup.Proofs.Timers
import Wakeup.Proofs.Waits

/-! The waits for deadlines that are in a reactor fit the schedules of heartbeats. -/
namespace Wakeup

namespace Scenario.Ledger
variable {L L' : Ledger}

/-- Whether a wait for a deadline is for the current generation and the deadline of a heartbeat, and
is the wait of its timer. -/
def Timely (L : Ledger) (w : TimedWait) : Prop :=
  match w.wait.callback with
  | .ready .. => False
  | .bare _ => w.timer ∈ L.timers
  | .beat t generation _ => L.hub.timer? t = some w.timer ∧
      ∃ x, L.hub.schedule? t = some x ∧ x.generation = generation ∧ x.deadline = some w.deadline

/-- Waits that were cancelled are not for the current generation of a heartbeat that is held. -/
structure Punctual (L : Ledger) : Prop where
  timed : ∀ w ∈ L.hub.reactor.timed, L.Timely w
  parked : ∀ w ∈ L.hub.reactor.parked, ∀ b ∈ w.callback.beat?,
    b.heartbeat ∈ L.heartbeats.map (·.2) → b.current L.hub = false

theorem timer?_inj (ho : Owned L) {t t' a : Nat} (h : L.hub.timer? t = some a)
    (h' : L.hub.timer? t' = some a) : t = t' := by
  have hnodup := (Multiset.nodup_add.mp (Multiset.nodup_add.mp ho.ids_nodup).2.1).1
  unfold Hub.timer? at h h'
  rw [← List.getElem?_map] at h h'
  obtain ⟨hlt, heq⟩ := List.getElem?_eq_some_iff.mp h
  obtain ⟨hlt', heq'⟩ := List.getElem?_eq_some_iff.mp h'
  exact (Multiset.coe_nodup.mp hnodup).getElem_inj_iff.mp (heq.trans heq'.symm)

/-- A timer of a heartbeat is not one on its own. -/
theorem timer?_notMem (ho : Owned L) {t a : Nat} (h : L.hub.timer? t = some a) :
    a ∉ L.timers := by
  have hdisjoint := (Multiset.nodup_add.mp (Multiset.nodup_add.mp ho.ids_nodup).2.1).2.2
  refine Multiset.disjoint_left.mp hdisjoint ?_
  unfold Hub.timer? at h
  rw [← List.getElem?_map] at h
  exact List.mem_of_getElem? h

theorem timer?_of_makes (hm : Makes L L') {t a : Nat} (h : L.hub.timer? t = some a) :
    L'.hub.timer? t = some a := by
  obtain ⟨p, hp, heq⟩ := Option.map_eq_some_iff.mp h
  exact Option.map_eq_some_iff.mpr ⟨p, getElem?_of_prefix (timed_of_makes hm) hp, heq⟩

/-- A heartbeat that is held was held before, or it is new. -/
theorem held_of_makes (hm : Makes L L') {t : Nat} (h : t ∈ L'.heartbeats.map (·.2)) :
    t ∈ L.heartbeats.map (·.2) ∨ L.hub.schedule? t = none := by
  cases hm with
  | strands _ _ _ _ _ _ hb => exact Or.inl (Multiset.map_subset_map hb h)
  | watcher _ _ _ _ _ _ _ hb => exact Or.inl (hb ▸ h)
  | heartbeat _ _ _ _ _ _ _ hb =>
    rw [hb, Multiset.map_cons, Multiset.mem_cons] at h
    rcases h with rfl | h
    · right
      simp [Hub.schedule?, Hub.roster]
    · exact Or.inl h

private theorem beats_pos_of_timed {w : TimedWait} {p : Beat → Bool} (hw : w ∈ L.hub.reactor.timed)
    (hp : w.wait.isBeat p = true) : 0 < L.hub.reactor.beats p := by
  have hpos : 0 < L.hub.reactor.timed.countP (·.wait.isBeat p) :=
    List.countP_pos_iff.mpr ⟨w, hw, hp⟩
  unfold Manual.beats
  omega

/-- A beat that a wait is for has begun. -/
theorem Dated.of_parked (h : Dated L) {w : Wait} {b : Beat} (hw : w ∈ L.hub.reactor.parked)
    (hb : b ∈ w.callback.beat?) : b.dated L.hub = true := by
  by_contra hc
  have hzero := h (· == b) fun b' hb' => by
    rw [beq_iff_eq.mp hb']
    simpa using hc
  have hpos : 0 < L.hub.reactor.parked.countP (·.isBeat (· == b)) := by
    refine List.countP_pos_iff.mpr ⟨w, hw, ?_⟩
    rw [Wait.isBeat, Option.mem_def.mp hb]
    simp
  simp only [expected, Manual.beats] at hzero
  omega

/-- Besides the current beat that a wait in the reactor is for, no other is expected. -/
theorem Single.expected_le (h : Single L) {w : TimedWait} {t generation e : Nat} {x : Schedule}
    (hw : w ∈ L.hub.reactor.timed) (hcb : w.wait.callback = .beat t generation e)
    (hx : L.hub.schedule? t = some x) (hxg : x.generation = generation) :
    L.due t ≤ L.hub.reactor.beats (Beat.isDue L.hub t) := by
  have hone := h t
  have hpos := beats_pos_of_timed (p := Beat.isDue L.hub t) hw (by
    simp [Wait.isBeat, hcb, Callback.beat?, Beat.isDue, Beat.current, hx, hxg])
  omega

/-- The schedule of a heartbeat with a wait in the reactor stays as it is, unless it is set or
stopped. -/
theorem Ages.schedule?_eq (ha : Ages L L') (hs : Single L) {w : TimedWait}
    {t generation e : Nat} {x : Schedule} (hw : w ∈ L.hub.reactor.timed)
    (hcb : w.wait.callback = .beat t generation e) (hx : L.hub.schedule? t = some x)
    (hxg : x.generation = generation)
    (hgen : ∀ y, L'.hub.schedule? t = some y → y.generation = x.generation) :
    L'.hub.schedule? t = some x := by
  have hle := hs.expected_le hw hcb hx hxg
  unfold due at hle
  cases ha with
  | same hs' _ => exact (hs' t).trans hx
  | makes hs' _ =>
    have ht := hs' t
    rw [if_neg (Hub.ne_length_of_schedule? hx)] at ht
    exact ht.trans hx
  | sets _ hs' _ =>
    have ht := hs' t
    split at ht
    · rw [hx, Option.map_some] at ht
      exact absurd (hgen _ ht) (Nat.succ_ne_self _)
    · exact ht.trans hx
  | stops hs' _ =>
    have ht := hs' t
    split at ht
    · rw [hx, Option.map_some] at ht
      exact absurd (hgen _ ht) (Nat.succ_ne_self _)
    · exact ht.trans hx
  | @runs wait o hs' _ hk =>
    have ht := hs' t
    split at ht
    · -- the wait that failed would be for another current beat
      rename_i hfails
      simp only [Hub.fails, Bool.and_eq_true, beq_iff_eq] at hfails
      obtain ⟨⟨⟨hpart, -⟩, hasks⟩, -⟩ := hfails
      cases hcb' : wait.callback with
      | bare => rw [hcb'] at hpart; cases hpart
      | ready => rw [hcb'] at hpart; cases hpart
      | beat t' generation' e' =>
        rw [hcb'] at hpart hasks
        cases hpart
        rw [Hub.asks_beat, hx, Option.any_some, Bool.and_eq_true, beq_iff_eq] at hasks
        have hlt := hk (Beat.isDue L.hub t) (by
          simp [Wait.isBeat, hcb', Callback.beat?, Beat.isDue, Beat.current, hx, hasks.2])
        omega
    · exact ht.trans hx
  | @ends call hs' _ hk =>
    have ht := hs' t
    split at ht
    · rename_i b hb
      split at ht
      · rename_i hbt
        have hbg : x.generation ≠ b.generation := by
          intro hbg
          have hlt := hk (Beat.isDue L.hub t) (by
            simp [hb, hbt, Beat.isDue, Beat.current, hx, hbg])
          omega
        rw [hx, Option.map_some, Schedule.next_of_ne hbg] at ht
        exact ht
      · exact ht.trans hx
    · exact ht.trans hx

namespace Punctual

/-- The waits of a ledger stay punctual if only the waits of some timers were cancelled, and among
the heartbeats with these timers those that are held begin another generation. -/
theorem step (h : Punctual L) (hd : Dated L) (hs : Single L) (ha : Ages L L') (hm : Makes L L')
    {cancelled : Nat → Prop} {given : Wait → Prop} {fresh : TimedWait → Prop}
    (hr : Manual.Retimes cancelled given fresh L.hub.reactor L'.hub.reactor)
    (htimers : ∀ a ∈ L.timers, ¬cancelled a → a ∈ L'.timers)
    (hgen : ∀ t x y, L.hub.schedule? t = some x → L'.hub.schedule? t = some y →
      (∀ a, L.hub.timer? t = some a → ¬cancelled a) → y.generation = x.generation)
    (hfresh : ∀ w, fresh w → L'.Timely w)
    (hcancelled : ∀ t a, L.hub.timer? t = some a → cancelled a →
      t ∈ L'.heartbeats.map (·.2) → ∀ x y, L.hub.schedule? t = some x →
        L'.hub.schedule? t = some y → y.generation ≠ x.generation)
    (hgiven : ∀ w, given w → ∀ b ∈ w.callback.beat?, b.heartbeat ∈ L'.heartbeats.map (·.2) →
      b.current L'.hub = false) : Punctual L' := by
  constructor
  · intro w hw
    rcases hr.timed w hw with ⟨hmem, hn⟩ | hnew
    · have htimely := h.timed w hmem
      unfold Timely at htimely ⊢
      split at htimely
      · exact htimely
      · exact htimers _ htimely hn
      · rename_i t generation e hcb
        obtain ⟨htimer, x, hx, hxg, hxd⟩ := htimely
        refine ⟨timer?_of_makes hm htimer, x, ?_, hxg, hxd⟩
        refine ha.schedule?_eq hs hmem hcb hx hxg fun y hy => ?_
        refine hgen t x y hx hy fun a ha => ?_
        rw [htimer] at ha
        cases ha
        exact hn
    · exact hfresh w hnew
  · intro w hw b hb hheld
    rcases hr.parked w hw with hw | ⟨x, hx, hcancel, rfl⟩ | hg
    · by_contra hc
      have hdated := hd.of_parked hw hb
      have hcurrent := ha.current hdated (by simpa using hc)
      rcases held_of_makes hm hheld with hheld | hnone
      · rw [h.parked w hw b hb hheld] at hcurrent
        cases hcurrent
      · simp [Beat.dated, hnone] at hdated
    · have htimely := h.timed x hx
      unfold Timely at htimely
      split at htimely
      · exact htimely.elim
      · rename_i hcb
        rw [hcb] at hb
        cases hb
      · rename_i t generation e hcb
        rw [hcb] at hb
        cases hb
        obtain ⟨htimer, y, hy, hyg, -⟩ := htimely
        obtain ⟨z, hz, -⟩ := ha.generation_le hy
        have hne := hcancelled t _ htimer hcancel hheld y z hy hz
        rw [← Bool.not_eq_true, Beat.current_iff hz]
        intro hzg
        exact hne (hzg.trans hyg.symm)
    · exact hgiven w hg b hb hheld

/-- The waits of the reactor for deadlines stay as they are, and so do the schedules. -/
theorem calm (h : Punctual L) (ho : Owned L) (hd : Dated L) (hs : Single L) (hm : Move L L')
    (given : Wait → Prop)
    (hr : Manual.Retimes (fun _ => False) given (fun _ => False) L.hub.reactor L'.hub.reactor)
    (htimers : L.timers ⊆ L'.timers) (hsame : ∀ j, L'.hub.schedule? j = L.hub.schedule? j)
    (hgiven : ∀ w, given w → w.callback.beat? = none) : Punctual L' := by
  refine h.step hd hs (hm.ages ho) hm.makes hr (fun a ha _ => htimers ha) ?_ (fun _ => False.elim)
    (fun _ _ _ => False.elim) ?_
  · intro t x y hx hy _
    rw [hsame, hx] at hy
    rw [Option.some.inj hy]
  · intro w hw b hb
    rw [hgiven w hw] at hb
    cases hb

theorem still (h : Punctual L) (ho : Owned L) (hd : Dated L) (hs : Single L) (hm : Move L L')
    (ht : L'.hub.reactor.timed = L.hub.reactor.timed)
    (hp : L'.hub.reactor.parked = L.hub.reactor.parked) (htimers : L.timers ⊆ L'.timers)
    (hsame : ∀ j, L'.hub.schedule? j = L.hub.schedule? j) : Punctual L' :=
  h.calm ho hd hs hm (fun _ => False) (.of_eq ht hp) htimers hsame fun _ => False.elim

/-- A timer on its own has no waits of heartbeats. -/
theorem cancelBare (h : Punctual L) (ho : Owned L) (hd : Dated L) (hs : Single L)
    (hm : Move L L') {a : Nat} (ha : a ∈ L.timers) {fresh : TimedWait → Prop}
    (hr : Manual.Retimes (· = a) (fun _ => False) fresh L.hub.reactor L'.hub.reactor)
    (htimers : ∀ a' ∈ L.timers, a' ≠ a → a' ∈ L'.timers)
    (hsame : ∀ j, L'.hub.schedule? j = L.hub.schedule? j) (hfresh : ∀ w, fresh w → L'.Timely w) :
    Punctual L' := by
  refine h.step hd hs (hm.ages ho) hm.makes hr htimers ?_ hfresh ?_ (fun _ => False.elim)
  · intro t x y hx hy _
    rw [hsame, hx] at hy
    rw [Option.some.inj hy]
  · rintro t _ ht rfl
    exact absurd ha (timer?_notMem ho ht)

/-- A heartbeat begins another generation, and the wait of its timer is cancelled. -/
theorem renew (h : Punctual L) (ho : Owned L) (hd : Dated L) (hs : Single L) (hm : Move L L')
    {t : Nat} {x : Heartbeat} (hx : L.hub.heartbeats[t]? = some x) {f : Schedule → Schedule}
    (hf : ∀ y, (f y).generation = y.generation + 1)
    (hset : ∀ j, L'.hub.schedule? j =
      if t = j then (L.hub.schedule? j).map f else L.hub.schedule? j)
    {fresh : TimedWait → Prop}
    (hr : Manual.Retimes (· = x.timer) (fun _ => False) fresh L.hub.reactor L'.hub.reactor)
    (htimers : L.timers ⊆ L'.timers) (hfresh : ∀ w, fresh w → L'.Timely w) : Punctual L' := by
  have htimer := Hub.timer?_of_getElem? hx
  refine h.step hd hs (hm.ages ho) hm.makes hr (fun a ha _ => htimers ha) ?_ hfresh ?_
    (fun _ => False.elim)
  · intro j y z hy hz hn
    have hj := hset j
    have htj : t ≠ j := by
      rintro rfl
      exact hn _ htimer rfl
    rw [if_neg htj, hy, hz] at hj
    rw [Option.some.inj hj]
  · rintro j _ hj rfl hheld y z hy hz
    have htj := timer?_inj ho htimer hj
    subst htj
    have ht := hset t
    rw [if_pos rfl, hy, hz, Option.map_some] at ht
    rw [Option.some.inj ht, hf]
    exact Nat.succ_ne_self _

private theorem setHeartbeat (h : Punctual L) (ho : Owned L) (hd : Dated L) (hs : Single L)
    {t e : Nat} {interval : Interval} {log : List Event}
    (hm : Move L { L with hub := L.hub.setHeartbeat t e interval, log := log }) :
    Punctual { L with hub := L.hub.setHeartbeat t e interval, log := log } := by
  have hset := Hub.schedule?_setHeartbeat L.hub t e interval
  cases hx : L.hub.heartbeats[t]? with
  | none =>
    have hsame : L.hub.setHeartbeat t e interval = L.hub := by
      unfold Hub.setHeartbeat
      rw [hx]
    rw [hsame]
    exact ⟨h.timed, h.parked⟩
  | some x =>
    let deadline := L.hub.reactor.now + interval.length
    let c : Callback := .beat t (x.schedule.generation + 1) e
    have hr : Manual.Retimes (· = x.timer) (fun _ => False)
        (· = ⟨x.timer, deadline, ⟨L.hub.reactor.tickets, c⟩⟩) L.hub.reactor
        (L.hub.setHeartbeat t e interval).reactor := by
      rw [Hub.reactor_setHeartbeat hx]
      exact .reschedule x.timer deadline c L.hub.reactor
    refine h.renew ho hd hs hm hx (fun _ => rfl) hset hr (Multiset.Subset.refl _) ?_
    rintro _ rfl
    have ht := hset t
    rw [if_pos rfl, Hub.schedule?_of_getElem? hx, Option.map_some] at ht
    exact ⟨timer?_of_makes hm.makes (Hub.timer?_of_getElem? hx), _, ht, rfl, rfl⟩

private theorem stopHeartbeat (h : Punctual L) (ho : Owned L) (hd : Dated L) (hs : Single L)
    {place : Option Nat} {t : Nat} (hmem : (place, t) ∈ L.heartbeats) :
    Punctual { L with hub := L.hub.stopHeartbeat t } := by
  cases hx : L.hub.heartbeats[t]? with
  | none =>
    have hsame : L.hub.stopHeartbeat t = L.hub := by
      unfold Hub.stopHeartbeat
      rw [hx]
    rw [hsame]
    exact h
  | some x =>
    have hr : Manual.Retimes (· = x.timer) (fun _ => False) (fun _ => False) L.hub.reactor
        (L.hub.stopHeartbeat t).reactor := by
      simp only [Hub.stopHeartbeat, hx]
      exact .cancel x.timer L.hub.reactor
    exact h.renew ho hd hs (.stopHeartbeat hmem) hx (fun _ => rfl)
      (Hub.schedule?_stopHeartbeat L.hub t) hr (Multiset.Subset.refl _) (fun _ => False.elim)

/-- A heartbeat that is not held any longer may lose its waits. -/
theorem unheld (h : Punctual L) (ho : Owned L) (hd : Dated L) (hs : Single L)
    (ha : Ages L L') (hm : Makes L L') {t : Nat} {x : Heartbeat}
    (hx : L.hub.heartbeats[t]? = some x) {given : Wait → Prop}
    (hr : Manual.Retimes (· = x.timer) given (fun _ => False) L.hub.reactor L'.hub.reactor)
    (htimers : L.timers ⊆ L'.timers) (hheld : t ∉ L'.heartbeats.map (·.2))
    (hgen : ∀ j x y, L.hub.schedule? j = some x → L'.hub.schedule? j = some y →
      y.generation = x.generation)
    (hgiven : ∀ w, given w → ∀ b ∈ w.callback.beat?, b.heartbeat = t) : Punctual L' := by
  refine h.step hd hs ha hm hr (fun a ha _ => htimers ha) (fun j x y hx hy _ => hgen j x y hx hy)
    (fun _ => False.elim) ?_ ?_
  · rintro j _ hj rfl hmem
    have htj := timer?_inj ho hj (Hub.timer?_of_getElem? hx)
    subst htj
    exact absurd hmem hheld
  · intro w hw b hb hmem
    rw [hgiven w hw b hb] at hmem
    exact absurd hmem hheld

private theorem dropHeartbeat (h : Punctual L) (ho : Owned L) (hd : Dated L) (hs : Single L)
    {place : Option Nat} {t : Nat} {ts : Multiset (Option Nat × Nat)}
    (hb : L.heartbeats = (place, t) ::ₘ ts)
    (hm : Move L { L with hub := L.hub.dropHeartbeat t, heartbeats := ts }) :
    Punctual { L with hub := L.hub.dropHeartbeat t, heartbeats := ts } := by
  have hsame := Hub.schedule?_dropHeartbeat L.hub t
  have hnot : t ∉ ts.map (·.2) := by
    have hnodup := ho.heartbeats.holds.nodup
    rw [hb, Multiset.map_cons] at hnodup
    exact (Multiset.nodup_cons.mp hnodup).1
  cases hx : L.hub.heartbeats[t]? with
  | none =>
    have hreactor : (L.hub.dropHeartbeat t).reactor = L.hub.reactor := by
      simp [Hub.dropHeartbeat, Hub.reapHeartbeat, Hub.modifyHeartbeat, hx]
    exact h.still ho hd hs hm (congrArg Manual.timed hreactor) (congrArg Manual.parked hreactor)
      (Multiset.Subset.refl _) hsame
  | some x =>
    have hreactor : (L.hub.dropHeartbeat t).reactor =
        if x.presence.disown.alive then L.hub.reactor else L.hub.reactor.cancel x.timer := by
      simp only [Hub.dropHeartbeat, Hub.reapHeartbeat, Hub.modifyHeartbeat,
        List.getElem?_modify_eq, hx, Option.map_eq_map, Option.map_some]
      split <;> rfl
    split at hreactor
    · exact h.still ho hd hs hm (congrArg Manual.timed hreactor) (congrArg Manual.parked hreactor)
        (Multiset.Subset.refl _) hsame
    · have hr : Manual.Retimes (· = x.timer) (fun _ => False) (fun _ => False) L.hub.reactor
          (L.hub.dropHeartbeat t).reactor := by
        rw [hreactor]
        exact .cancel x.timer L.hub.reactor
      refine h.unheld ho hd hs (hm.ages ho) hm.makes hx hr (Multiset.Subset.refl _) hnot ?_
        (fun _ => False.elim)
      intro j y z hy hz
      change (L.hub.dropHeartbeat t).schedule? j = _ at hz
      rw [hsame, hy] at hz
      rw [Option.some.inj hz]

/-- A wait for readiness is not for a beat. -/
theorem beat?_of_ready (hw : Waits L) {w : Wait} (h : ∃ x ∈ L.hub.reactor.ready, x.wait = w) :
    w.callback.beat? = none := by
  obtain ⟨x, hx, rfl⟩ := h
  have hfits := Waiting.ready hw x hx
  unfold Fits at hfits
  cases hcb : x.wait.callback with
  | ready => rfl
  | bare => rfl
  | beat =>
    rw [hcb] at hfits
    exact hfits.elim

private theorem dropWatcher (h : Punctual L) (ho : Owned L) (hw : Waits L) (hd : Dated L)
    (hs : Single L) {i : Nat} {ws : Multiset (Option (Nat × Fd) × Nat)}
    (hm : Move L { L with hub := L.hub.dropWatcher i, watchers := ws }) :
    Punctual { L with hub := L.hub.dropWatcher i, watchers := ws } := by
  have hsame := Hub.schedule?_congr (Hub.heartbeats_dropWatcher L.hub i)
  refine h.calm ho hd hs hm (fun w => ∃ x ∈ L.hub.reactor.ready, x.wait = w) ?_
    (Multiset.Subset.refl _) hsame fun w => beat?_of_ready hw
  unfold Hub.dropWatcher
  rcases Hub.reactor_reapWatcher (L.hub.modifyWatcher i _) i with heq | ⟨r, heq⟩
  · rw [heq]
    exact .of_eq rfl rfl
  · rw [heq]
    exact .release r L.hub.reactor

private theorem newHeartbeat (h : Punctual L) (ho : Owned L) (hd : Dated L) (hs : Single L)
    {s : Nat} {ts : Multiset (Option Nat × Nat)}
    (hm : Move L { L with hub := (L.hub.newHeartbeat s).2, heartbeats := ts }) :
    Punctual { L with hub := (L.hub.newHeartbeat s).2, heartbeats := ts } := by
  refine h.step hd hs (hm.ages ho) hm.makes (@Manual.Retimes.of_eq _ _ (fun _ => False)
    (fun _ => False) rfl rfl) (fun a ha _ => ha) ?_ (fun _ => False.elim)
    (fun _ _ _ => False.elim) (fun _ => False.elim)
  intro t x y hx hy _
  change (L.hub.newHeartbeat s).2.schedule? t = _ at hy
  rw [Hub.schedule?_newHeartbeat, if_neg (Hub.ne_length_of_schedule? hx), hx] at hy
  rw [Option.some.inj hy]

private theorem complete (h : Punctual L) (ho : Owned L) (hd : Dated L) (hs : Single L)
    {wait : Wait} {ws : Multiset Wait} (o : Outcome) (hk : L.kept = wait ::ₘ ws) :
    Punctual { L with
      hub := (L.hub.begin wait.callback o).1
      kept := ws
      calls := (L.hub.begin wait.callback o).2.toList ++ L.calls
      log := .completed wait o (serves L.hub wait.callback) :: L.log } := by
  have hm := Move.complete o hk
  have hreactor := Hub.reactor_begin L.hub wait.callback o
  refine h.step hd hs (hm.ages ho) hm.makes (@Manual.Retimes.of_eq _ _ (fun _ => False)
    (fun _ => False) (congrArg Manual.timed hreactor) (congrArg Manual.parked hreactor))
    (fun a ha _ => ha) ?_ (fun _ => False.elim) (fun _ _ _ => False.elim) (fun _ => False.elim)
  intro t x y hx hy _
  change (L.hub.begin wait.callback o).1.schedule? t = _ at hy
  rw [Hub.schedule?_begin, hx] at hy
  split at hy
  · rw [Option.map_some] at hy
    rw [← Option.some.inj hy]
  · rw [Option.some.inj hy]

theorem move (hm : Move L L') (ho : Owned L) (hw : Waits L) (hd : Dated L) (hs : Single L)
    (h : Punctual L) : Punctual L' := by
  have hsubset := Multiset.Subset.refl L.timers
  have hsame (j : Nat) : L.hub.schedule? j = L.hub.schedule? j := rfl
  cases hm with
  | advance => exact h.still ho hd hs (.advance _) rfl rfl hsubset hsame
  | refuse => exact h.still ho hd hs (.refuse _) rfl rfl hsubset hsame
  | @refused fd err m hr =>
    obtain ⟨ht, hp⟩ := Manual.timed_register hr
    exact h.still ho hd hs (.refused hr) ht hp hsubset hsame
  | newHandler => exact h.still ho hd hs .newHandler rfl rfl hsubset hsame
  | dropHandler hh => exact h.still ho hd hs (.dropHandler hh) rfl rfl hsubset hsame
  | newStrand => exact h.still ho hd hs .newStrand rfl rfl hsubset hsame
  | dropStrand hmem => exact h.still ho hd hs (.dropStrand hmem) rfl rfl hsubset hsame
  | newEngine => exact h.still ho hd hs .newEngine rfl rfl hsubset hsame
  | dropEngine e => exact h.still ho hd hs (.dropEngine e) rfl rfl hsubset hsame
  | @newWatcher place s fd i hub hp hf hn =>
    obtain ⟨r, m, hr, -, rfl⟩ := Hub.newWatcher_ok hn
    obtain ⟨ht, hpa⟩ := Manual.timed_register hr
    exact h.still ho hd hs (.newWatcher hp hf hn) ht hpa hsubset hsame
  | @setInterest place i e ev hmem =>
    obtain ⟨ht, hp⟩ := Hub.timed_setInterest L.hub i e ev
    exact h.still ho hd hs (.setInterest e ev hmem) ht hp hsubset
      (Hub.schedule?_congr (Hub.heartbeats_setInterest _ _ _ _))
  | retire hmem => exact h.still ho hd hs (.retire hmem) rfl rfl hsubset hsame
  | dropWatcher hmem hr => exact h.dropWatcher ho hw hd hs (.dropWatcher hmem hr)
  | unasked s e fd hev hf => exact h.still ho hd hs (.unasked s e fd hev hf) rfl rfl hsubset hsame
  | newHeartbeat hp hf => exact h.newHeartbeat ho hd hs (.newHeartbeat hp hf)
  | setHeartbeat e interval hmem hp =>
    exact h.setHeartbeat ho hd hs (.setHeartbeat e interval hmem hp)
  | stopHeartbeat hmem => exact h.stopHeartbeat ho hd hs hmem
  | dropHeartbeat hb hr => exact h.dropHeartbeat ho hd hs hb (.dropHeartbeat hb hr)
  | enter hmem => exact h.still ho hd hs (.enter hmem) rfl rfl hsubset hsame
  | leave hmem => exact h.still ho hd hs (.leave hmem) rfl rfl hsubset hsame
  | takeReady ht =>
    have hmove := Move.takeReady ht
    obtain ⟨x, rs, rfl, -, rfl⟩ := Manual.takeReady_some ht
    exact h.still ho hd hs hmove rfl rfl hsubset hsame
  | takeTimed ht =>
    have hmove := Move.takeTimed ht
    obtain ⟨x, ts, rfl, hperm, rfl⟩ := Manual.takeTimed_some ht
    refine h.calm ho hd hs hmove (fun _ => False) ⟨?_, fun w hw => Or.inl hw⟩ hsubset hsame
      fun _ => False.elim
    intro w hw
    exact Or.inl ⟨hperm.mem_iff.mpr (List.mem_cons_of_mem x hw), not_false⟩
  | takeParked =>
    exact h.calm ho hd hs .takeParked (fun _ => False)
      ⟨fun w hw => Or.inl ⟨hw, not_false⟩, nofun⟩ hsubset hsame fun _ => False.elim
  | discard hk => exact h.still ho hd hs (.discard hk) rfl rfl hsubset hsame
  | complete o hk => exact h.complete ho hd hs o hk
  | register hr =>
    obtain ⟨ht, hp⟩ := Manual.timed_register hr
    exact h.still ho hd hs (.register hr) ht hp hsubset hsame
  | armBare d tag hmem => exact h.still ho hd hs (.armBare d tag hmem) rfl rfl hsubset hsame
  | release hmem =>
    exact h.calm ho hd hs (.release hmem) _ (.release _ L.hub.reactor) hsubset hsame
      fun w => beat?_of_ready hw
  | newTimer => exact h.still ho hd hs .newTimer rfl rfl (Multiset.subset_cons _ _) hsame
  | scheduleBare deadline tag hmem =>
    exact h.cancelBare ho hd hs (.scheduleBare deadline tag hmem) hmem
      (.schedule _ deadline _ L.hub.reactor) (fun a ha _ => ha) hsame fun w hw => hw ▸ hmem
  | cancelBare hmem =>
    exact h.cancelBare ho hd hs (.cancelBare hmem) hmem
      (@Manual.Retimes.cancel _ (fun _ => False) _ L.hub.reactor) (fun a ha _ => ha) hsame
      fun _ => False.elim
  | @dropTimer t ts ht =>
    have hmem : t ∈ L.timers := ht ▸ Multiset.mem_cons_self _ _
    refine h.cancelBare ho hd hs (.dropTimer ht) hmem
      (@Manual.Retimes.cancel _ (fun _ => False) _ L.hub.reactor) ?_ hsame fun _ => False.elim
    intro a ha hne
    rw [ht] at ha
    exact (Multiset.mem_cons.mp ha).resolve_left hne

/-- While an engine is being told of a beat of the current generation, no wait of its timer is in
the reactor. -/
theorem timer_ne (h : Punctual L) (ho : Owned L) (hs : Single L) {call : Call} {cs : List Call}
    (hc : L.calls = call :: cs) {t generation : Nat} {x : Heartbeat}
    (hb : call.beat? = some ⟨t, generation, call.engine⟩) (hx : L.hub.heartbeats[t]? = some x)
    (hg : x.schedule.generation = generation) {w : TimedWait} (hw : w ∈ L.hub.reactor.timed) :
    w.timer ≠ x.timer := by
  intro heq
  have htimer := Hub.timer?_of_getElem? hx
  have hschedule := Hub.schedule?_of_getElem? hx
  have htimely := h.timed w hw
  unfold Timely at htimely
  split at htimely
  · exact htimely
  · rw [heq] at htimely
    exact timer?_notMem ho htimer htimely
  · rename_i t' generation' e hcb
    obtain ⟨htimer', y, hy, hyg, -⟩ := htimely
    rw [heq] at htimer'
    have htt := timer?_inj ho htimer htimer'
    subst htt
    have hle := hs.expected_le hw hcb hy hyg
    have hcount : 0 < L.calls.countP (·.beat?.any (Beat.isDue L.hub t)) := by
      refine List.countP_pos_iff.mpr ⟨call, hc ▸ List.mem_cons_self, ?_⟩
      simp [hb, Beat.isDue, Beat.current, hschedule, hg]
    unfold due expected at hle
    omega

private theorem finish_watcher (h : Punctual L) (hw : Waits L) (hd : Dated L) (hs : Single L)
    {call : Call} {cs : List Call} (hc : L.calls = call :: cs) {i : Nat} {d : Direction}
    (howner : call.owner = .watcher i d) : Punctual (L.finish call cs) := by
  obtain ⟨ht, hp, hready⟩ : (L.hub.resume call).reactor.timed = L.hub.reactor.timed ∧
      (L.hub.resume call).reactor.parked = L.hub.reactor.parked ∧
      ∀ r ∈ (L.hub.resume call).reactor.ready, r.wait.callback.beat? = none := by
    have hready : ∀ r ∈ L.hub.reactor.ready, r.wait.callback.beat? = none :=
      fun r hr => beat?_of_ready hw ⟨r, hr, rfl⟩
    rcases L.hub.resume_of_watcher howner with heq | heq
    · rw [heq]
      exact ⟨rfl, rfl, hready⟩
    · rw [heq]
      obtain ⟨ht, hp⟩ := Hub.timed_armSide L.hub i d call.engine
      refine ⟨ht, hp, fun r hr => ?_⟩
      rcases Hub.ready_armSide hr with hr | hcb
      · exact hready r hr
      · rw [hcb]
        rfl
  have hreap : (L.finish call cs).hub.reactor = (L.hub.resume call).reactor ∨
      ∃ r, (L.finish call cs).hub.reactor = (L.hub.resume call).reactor.release r := by
    unfold finish Hub.finish
    rw [howner]
    exact Hub.reactor_reapWatcher _ i
  have hr : Manual.Retimes (fun _ => False)
      (fun w => ∃ r ∈ (L.hub.resume call).reactor.ready, r.wait = w) (fun _ => False)
      L.hub.reactor (L.finish call cs).hub.reactor := by
    rcases hreap with heq | ⟨r, heq⟩
    · rw [heq]
      exact .of_eq ht hp
    · rw [heq]
      exact .congr_left ht hp (.release r _)
  refine h.step hd hs (ages_finish hc) (makes_finish L call cs) hr (fun a ha _ => ha)
    (fun t x y hx hy _ => Hub.generation_finish hx hy) (fun _ => False.elim)
    (fun _ _ _ => False.elim) ?_
  rintro _ ⟨r, hr, rfl⟩ b hb
  rw [hready r hr] at hb
  cases hb

private theorem finish_heartbeat (h : Punctual L) (ho : Owned L) (hu : InUse L) (hd : Dated L)
    (hs : Single L) {call : Call} {cs : List Call} (hc : L.calls = call :: cs)
    {t generation : Nat} (howner : call.owner = .heartbeat t generation) :
    Punctual (L.finish call cs) := by
  have ha := ages_finish hc
  have hm := makes_finish L call cs
  have hgen (j : Nat) (y z : Schedule) := @Hub.generation_finish L.hub j call y z
  obtain ⟨x, hx⟩ := hu.exists_heartbeat hc howner
  have htimer := Hub.timer?_of_getElem? hx
  have hschedule := Hub.schedule?_of_getElem? hx
  obtain ⟨m, hreactor, hm'⟩ := Hub.reactor_finish howner hx
  change (L.finish call cs).hub.reactor = _ at hreactor
  by_cases halive : x.presence.release.alive = true
  · rw [if_pos halive] at hreactor
    rcases hm' with rfl | ⟨deadline, interval, hb, hg, hdeadline, hinterval, rfl⟩
    · exact h.step hd hs ha hm (@Manual.Retimes.of_eq _ _ (fun _ => False) (fun _ => False)
        (congrArg Manual.timed hreactor) (congrArg Manual.parked hreactor)) (fun a ha _ => ha)
        (fun j y z hy hz _ => hgen j y z hy hz) (fun _ => False.elim) (fun _ _ _ => False.elim)
        (fun _ => False.elim)
    · -- the timer had no wait that could be cancelled
      have hne : ∀ w ∈ L.hub.reactor.timed, w.timer ≠ x.timer :=
        fun w hw => h.timer_ne ho hs hc hb hx hg hw
      let c : Callback := .beat t generation call.engine
      have hr₀ := @Manual.Retimes.schedule (fun _ => False) x.timer (deadline + interval.length) c
        L.hub.reactor
      have hr : Manual.Retimes (fun _ => False) (fun _ => False)
          (· = ⟨x.timer, deadline + interval.length, ⟨L.hub.reactor.tickets, c⟩⟩)
          L.hub.reactor (L.finish call cs).hub.reactor := by
        rw [hreactor]
        constructor
        · intro w hw
          exact (hr₀.timed w hw).imp (fun h => ⟨h.1, not_false⟩) id
        · intro w hw
          rcases hr₀.parked w hw with hw | ⟨y, hy, heq, -⟩ | hg
          · exact Or.inl hw
          · exact absurd heq (hne y hy)
          · exact hg.elim
      refine h.step hd hs ha hm hr (fun a ha _ => ha) (fun j y z hy hz _ => hgen j y z hy hz) ?_
        (fun _ _ _ => False.elim) (fun _ => False.elim)
      rintro _ rfl
      have hnext := Hub.schedule?_finish L.hub call t
      rw [hb, hschedule] at hnext
      simp only [if_true, Option.map_some] at hnext
      rw [← hg, Schedule.next_of_eq hdeadline hinterval] at hnext
      exact ⟨timer?_of_makes hm htimer, _, hnext, hg, rfl⟩
  · rw [if_neg halive] at hreactor
    have hnot : t ∉ (L.finish call cs).heartbeats.map (·.2) := by
      intro hmem
      have hkept := (ho.heartbeats.holds.mem_iff t).mp hmem
      change ((L.hub.heartbeats.map (·.presence))[t]?).any Presence.kept = true at hkept
      rw [List.getElem?_map, hx, Option.map_some, Option.any_some] at hkept
      apply halive
      simp [Presence.alive, hkept]
    have hr : Manual.Retimes (· = x.timer)
        (fun w => w.callback = .beat t generation call.engine) (fun _ => False) L.hub.reactor
        (L.finish call cs).hub.reactor := by
      rw [hreactor]
      rcases hm' with rfl | ⟨deadline, interval, -, -, -, -, rfl⟩
      · exact .cancel x.timer L.hub.reactor
      · exact .unschedule x.timer (deadline + interval.length) _ L.hub.reactor
    refine h.unheld ho hd hs ha hm hx hr (Multiset.Subset.refl _) hnot hgen ?_
    intro w hw b hb
    rw [hw] at hb
    cases hb
    rfl

theorem finish (h : Punctual L) (ho : Owned L) (hu : InUse L) (hw : Waits L) (hd : Dated L)
    (hs : Single L) {call : Call} {cs : List Call} (hc : L.calls = call :: cs) :
    Punctual (L.finish call cs) := by
  cases howner : call.owner with
  | watcher i d => exact h.finish_watcher hw hd hs hc howner
  | heartbeat t generation => exact h.finish_heartbeat ho hu hd hs hc howner

theorem empty : Punctual (({} : World).ledger [] [] []) where
  timed := nofun
  parked := nofun

end Punctual
end Scenario.Ledger
end Wakeup
