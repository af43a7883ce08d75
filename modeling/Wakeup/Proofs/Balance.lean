import Wakeup.Proofs.Deadlines

/-! A heartbeat of a handler that is alive has a deadline just when a beat of its current generation
is expected. -/
namespace Wakeup.Scenario

namespace Ledger
variable {L L' : Ledger} {s t : Nat}

/-- What a handler that is alive holds, it held before, or it is new. -/
theorem place_of_makes (hm : Makes L L') (ho : Owned L) (hmem : (some s, t) ∈ L'.heartbeats)
    (hs : s ∈ L'.handlers) :
    (some s, t) ∈ L.heartbeats ∧ s ∈ L.handlers ∨ L.hub.schedule? t = none := by
  cases hm with
  | strands _ hh _ _ _ _ hb =>
    have hheld := hb hmem
    refine Or.inl ⟨hheld, (hh s hs).resolve_right ?_⟩
    -- a strand that is new has no heartbeats yet
    rintro rfl
    have hlt := ho.heartbeats.holds.lt (Multiset.mem_map_of_mem (·.2) hheld)
    rw [← ho.heartbeats.length_eq] at hlt
    have hx := List.getElem?_eq_getElem hlt
    have hlt' := ho.heartbeats.strand_lt _ (List.mem_of_getElem? hx)
    rw [ho.heartbeats.placed hheld _ hx] at hlt'
    exact hlt'.false
  | watcher _ _ hh _ _ _ _ hb => exact Or.inl ⟨hb ▸ hmem, hh ▸ hs⟩
  | heartbeat _ _ hh _ _ _ _ hb =>
    rw [hb] at hmem
    rcases Multiset.mem_cons.mp hmem with heq | hmem
    · cases heq
      right
      simp [Hub.schedule?, Hub.roster]
    · exact Or.inl ⟨hmem, hh ▸ hs⟩

/-- A callback reaches a heartbeat of a handler that is alive. -/
theorem reaches_of_mem (ho : Owned L) (hmem : (some s, t) ∈ L.heartbeats) (hs : s ∈ L.handlers)
    (generation e : Nat) : L.hub.reaches (.beat t generation e) = true := by
  have hkept := (ho.heartbeats.holds.mem_iff t).mp (Multiset.mem_map_of_mem (·.2) hmem)
  change ((L.hub.heartbeats.map (·.presence))[t]?).any Presence.kept = true at hkept
  rw [List.getElem?_map] at hkept
  cases hx : L.hub.heartbeats[t]? with
  | none =>
    rw [hx] at hkept
    cases hkept
  | some x =>
    rw [hx, Option.map_some, Option.any_some] at hkept
    have htitle : L.hub.roster.timed[t]? = some (x.timer, x.strand) := by
      change (L.hub.heartbeats.map _)[t]? = _
      rw [List.getElem?_map, hx]
      rfl
    have hstrand : x.strand = s := ho.heartbeats.placed hmem _ htitle
    have halive : L.hub.strandAlive x.strand = true := hstrand ▸ ho.strandAlive_of_mem hs
    simp [Hub.reaches, hx, Presence.alive, hkept, halive]

/-- Whether the deadline of a schedule is set just when a beat of its generation is expected. -/
def Level (L : Ledger) (t : Nat) (x : Schedule) : Prop :=
  L.due t = (if x.deadline.isSome then 1 else 0) ∧ (x.deadline.isSome → x.interval.isSome)

/-- The deadlines of the heartbeats of handlers that are alive are set just when beats of their
current generations are expected. -/
def Balanced (L : Ledger) : Prop :=
  ∀ s t x, (some s, t) ∈ L.heartbeats → s ∈ L.handlers → L.hub.schedule? t = some x → L.Level t x

theorem due_congr {x y : Schedule} (hx : L.hub.schedule? t = some x)
    (hy : L'.hub.schedule? t = some y) (hg : y.generation = x.generation) :
    L'.due t = L'.expected (Beat.isDue L.hub t) := by
  unfold due
  rw [Beat.isDue_congr hx hy hg]

namespace Level

/-- The schedule stays as it is, and as many beats of its generation are expected. -/
theorem same {x : Schedule} (h : L.Level t x) (hx : L.hub.schedule? t = some x)
    (hy : L'.hub.schedule? t = some x)
    (he : L'.expected (Beat.isDue L.hub t) = L.expected (Beat.isDue L.hub t)) : L'.Level t x := by
  refine ⟨?_, h.2⟩
  rw [due_congr hx hy rfl, he]
  exact h.1

/-- The heartbeat is set, and a beat of the generation that begins is expected. -/
theorem sets {x : Schedule} {now e : Nat} {interval : Interval}
    (hy : L'.hub.schedule? t = some (x.start now interval))
    (hold : L.expected (Beat.isDue L'.hub t) = 0)
    (he : ∀ p, L'.expected p = L.expected p + if p ⟨t, x.generation + 1, e⟩ then 1 else 0) :
    L'.Level t (x.start now interval) := by
  have hnew : Beat.isDue L'.hub t ⟨t, x.generation + 1, e⟩ = true :=
    Beat.isDue_iff.mpr ⟨rfl, (Beat.current_iff hy).mpr rfl⟩
  refine ⟨?_, fun _ => rfl⟩
  unfold due
  rw [he, hold, hnew]
  rfl

/-- A beat of the schedule that is expected is that of a wait which is run. It outlasts that, unless
the schedule ends. -/
theorem outlasts_of_isBeat (hr : ∀ generation e, L.hub.reaches (.beat t generation e) = true)
    {wait : Wait} {o : Outcome} (hb : wait.isBeat (Beat.isDue L.hub t) = true)
    (hf : L.hub.fails wait.callback o t = false) : outlasts L.hub wait.callback o = true := by
  cases hcb : wait.callback with
  | bare tag =>
    rw [Wait.isBeat, hcb] at hb
    cases hb
  | ready i d e =>
    rw [Wait.isBeat, hcb] at hb
    cases hb
  | beat t' generation e =>
    rw [Wait.isBeat, hcb] at hb
    obtain ⟨ht, hcurrent⟩ := Beat.isDue_iff.mp hb
    have ht' : t' = t := ht
    subst ht'
    have hasks : L.hub.asks (.beat t' generation e) o = (Verdict.of o != .canceled) := by
      rw [Hub.asks_beat]
      have hany : (L.hub.schedule? t').any (·.generation == generation) = true := hcurrent
      rw [hany, Bool.and_true]
    rw [hcb] at hf
    simp only [Hub.fails, Callback.part?, beq_self_eq_true, hr, hasks, Bool.true_and] at hf
    unfold outlasts
    cases hv : Verdict.of o with
    | canceled => rfl
    | proceed => simp [hr, hasks, hv]
    | failed err => simp [hv] at hf

/-- The callback of a wait is run. -/
theorem runs (hr : ∀ generation e, L.hub.reaches (.beat t generation e) = true) {wait : Wait}
    {o : Outcome} {x y : Schedule} (h : L.Level t x) (hx : L.hub.schedule? t = some x)
    (hy : L'.hub.schedule? t = some y)
    (hs : L'.hub.schedule? t = if L.hub.fails wait.callback o t then
      (L.hub.schedule? t).map ({ · with deadline := none }) else L.hub.schedule? t)
    (he : ∀ p, L'.expected p + (if outlasts L.hub wait.callback o = false ∧ wait.isBeat p then 1
      else 0) = L.expected p)
    (hone : L.due t ≤ 1) : L'.Level t y := by
  have hp := he (Beat.isDue L.hub t)
  rw [hx] at hs
  cases hf : L.hub.fails wait.callback o t with
  | false =>
    rw [hf, if_neg Bool.false_ne_true, hy] at hs
    cases hs
    refine h.same hx hy ?_
    have hneg : ¬(outlasts L.hub wait.callback o = false ∧
        wait.isBeat (Beat.isDue L.hub t) = true) := by
      rintro ⟨ho, hb⟩
      rw [outlasts_of_isBeat hr hb hf] at ho
      cases ho
    rwa [if_neg hneg, Nat.add_zero] at hp
  | true =>
    rw [hf, if_pos rfl, hy] at hs
    cases hs
    -- the wait was for the beat that was expected
    have hzero : L'.expected (Beat.isDue L.hub t) = 0 := by
      simp only [Hub.fails, Bool.and_eq_true, beq_iff_eq, bne_iff_ne] at hf
      obtain ⟨⟨⟨hpart, -⟩, hasks⟩, hv⟩ := hf
      cases hcb : wait.callback with
      | bare tag => rw [hcb] at hpart; cases hpart
      | ready i d e => rw [hcb] at hpart; cases hpart
      | beat t' generation e =>
        rw [hcb] at hpart hasks
        cases hpart
        rw [Hub.asks_beat, Bool.and_eq_true, bne_iff_ne] at hasks
        have houtlasts : outlasts L.hub wait.callback o = false := by
          unfold outlasts
          cases hv' : Verdict.of o with
          | proceed => exact absurd hv' hv
          | canceled => exact absurd hv' hasks.1
          | failed err => rfl
        have hb : wait.isBeat (Beat.isDue L.hub t) = true := by
          rw [Wait.isBeat, hcb]
          exact Beat.isDue_iff.mpr ⟨rfl, hasks.2⟩
        rw [if_pos ⟨houtlasts, hb⟩] at hp
        unfold due at hone
        omega
    refine ⟨?_, fun hd => by cases hd⟩
    rw [due_congr hx hy rfl, hzero]
    rfl

/-- A call ends. If an engine was told of a beat that was expected, the next is. -/
theorem ends {call : Call} {x y : Schedule} (h : L.Level t x) (hx : L.hub.schedule? t = some x)
    (hy : L'.hub.schedule? t = some y)
    (hs : L'.hub.schedule? t = match call.beat? with
      | some b =>
        if b.heartbeat = t then (L.hub.schedule? t).map (.next b.generation)
        else L.hub.schedule? t
      | none => L.hub.schedule? t)
    (he : ∀ p, L'.expected p +
      (if L.hub.rebeats call = false ∧ call.beat?.any p then 1 else 0) = L.expected p)
    (hk : ∀ p, call.beat?.any p = true → L.hub.reactor.beats p < L.expected p) :
    L'.Level t y := by
  have hp := he (Beat.isDue L.hub t)
  have hsame (hnot : call.beat?.any (Beat.isDue L.hub t) = false) :
      L'.expected (Beat.isDue L.hub t) = L.expected (Beat.isDue L.hub t) := by
    rw [hnot, if_neg fun h => Bool.false_ne_true h.2, Nat.add_zero] at hp
    exact hp
  rw [hx, hy] at hs
  cases hb : call.beat? with
  | none =>
    rw [hb] at hs
    cases hs
    exact h.same hx hy (hsame (by rw [hb]; rfl))
  | some b =>
    rw [hb] at hs
    dsimp only at hs
    by_cases hbt : b.heartbeat = t
    · rw [if_pos hbt, Option.map_some] at hs
      cases hs
      by_cases hg : x.generation = b.generation
      · have hdue : Beat.isDue L.hub t b = true := by
          subst hbt
          exact Beat.isDue_iff.mpr ⟨rfl, (Beat.current_iff hx).mpr hg⟩
        have hany : call.beat?.any (Beat.isDue L.hub t) = true := by
          rw [hb]
          exact hdue
        have hlt : 0 < L.due t := (Nat.zero_le _).trans_lt (hk _ hany)
        have hdeadline : x.deadline.isSome = true := by
          by_contra hn
          rw [h.1, if_neg hn] at hlt
          exact hlt.false
        have hinterval := h.2 hdeadline
        have hrebeats : L.hub.rebeats call = true := by
          simp [Hub.rebeats, hb, hbt, hx, hg, hdeadline, hinterval]
        rw [hrebeats, if_neg fun h => Bool.true_eq_false.mp h.1, Nat.add_zero] at hp
        obtain ⟨deadline, hd⟩ := Option.isSome_iff_exists.mp hdeadline
        obtain ⟨interval, hi⟩ := Option.isSome_iff_exists.mp hinterval
        rw [← hg, Schedule.next_of_eq hd hi] at hy ⊢
        refine ⟨?_, fun _ => hinterval⟩
        rw [due_congr hx hy rfl, hp]
        change L.due t = _
        rw [h.1, hd]
        rfl
      · rw [Schedule.next_of_ne hg] at hy ⊢
        refine h.same hx hy (hsame ?_)
        rw [hb, ← Bool.not_eq_true]
        intro hdue
        subst hbt
        exact hg ((Beat.current_iff hx).mp (Beat.isDue_iff.mp hdue).2)
    · rw [if_neg hbt] at hs
      cases hs
      exact h.same hx hy (hsame (hb ▸ Beat.isDue_of_ne hbt))

end Level

/-- A schedule that is new is not set. -/
theorem Ages.eq_empty (ha : Ages L L') {y : Schedule} (hx : L.hub.schedule? t = none)
    (hy : L'.hub.schedule? t = some y) : y = {} := by
  cases ha with
  | same hs _ =>
    rw [hs, hx] at hy
    cases hy
  | makes hs _ _ =>
    rw [hs, hx] at hy
    split at hy <;> cases hy
    rfl
  | sets _ hs _ =>
    rw [hs, hx] at hy
    split at hy <;> cases hy
  | stops hs _ =>
    rw [hs, hx] at hy
    split at hy <;> cases hy
  | runs hs _ _ =>
    rw [hs, hx] at hy
    split at hy <;> cases hy
  | ends hs _ _ =>
    rw [hs, hx] at hy
    repeat' split at hy
    all_goals cases hy

/-- Of a schedule that is new no beat is expected. -/
theorem Level.of_new (ha : Ages L L') (hd : Dated L) {y : Schedule}
    (hx : L.hub.schedule? t = none) (hy : L'.hub.schedule? t = some y) : L'.Level t y := by
  have hempty := ha.eq_empty hx hy
  subst hempty
  have hold := hd.expected_eq_zero hy fun x hx' => by
    rw [hx] at hx'
    cases hx'
  refine ⟨?_, fun h => by cases h⟩
  rcases ha.keeps_or_sets with ⟨-, he⟩ | ⟨j, e, x, y, hj, -, -, hs, -⟩
  · exact Nat.le_zero.mp ((he _).trans hold.le)
  · have hne : t ≠ j := by
      rintro rfl
      rw [hx] at hj
      cases hj
    rw [hs t hne, hx] at hy
    cases hy

private theorem Ages.keeps_level (ha : Ages L L') (hd : Dated L) (hs : Single L)
    (hr : ∀ generation e, L.hub.reaches (.beat t generation e) = true) {x y : Schedule}
    (hx : L.hub.schedule? t = some x) (hy : L'.hub.schedule? t = some y) (h : L.Level t x) :
    L'.Level t y := by
  cases ha with
  | same hsame he =>
    have hy' := hy
    rw [hsame, hx] at hy'
    cases hy'
    exact h.same hx hy (he _)
  | makes hmakes he =>
    have hy' := hy
    rw [hmakes, if_neg (Hub.ne_length_of_schedule? hx), hx] at hy'
    cases hy'
    exact h.same hx hy (he _)
  | @sets place t' e interval z hz hset he =>
    have hy' := hy
    rw [hset, hx] at hy'
    split at hy'
    · rename_i ht
      subst ht
      rw [hx] at hz
      cases hz
      rw [Option.map_some] at hy'
      cases hy'
      have hold := hd.expected_eq_zero_of_lt hx hy (Nat.lt_succ_self _)
      exact .sets hy hold he
    · rename_i ht
      cases hy'
      refine h.same hx hy ?_
      have hneg : Beat.isDue L.hub t ⟨t', z.generation + 1, e⟩ = false := Beat.isDue_of_ne ht
      rw [he, hneg]
      rfl
  | stops hstop he =>
    have hy' := hy
    rw [hstop, hx] at hy'
    split at hy'
    · cases hy'
      have hold := hd.expected_eq_zero_of_lt hx hy (Nat.lt_succ_self _)
      refine ⟨?_, fun h => by cases h⟩
      unfold due
      rw [he, hold]
      rfl
    · cases hy'
      exact h.same hx hy (he _)
  | runs hrun he _ => exact h.runs hr hx hy (hrun t) he (hs t)
  | ends hend he hk => exact h.ends hx hy (hend t) he hk

theorem Ages.keeps_balanced (ha : Ages L L') (hm : Makes L L') (ho : Owned L) (hd : Dated L)
    (hs : Single L) (h : Balanced L) : Balanced L' := by
  intro s t y hmem hstrand hy
  cases hx : L.hub.schedule? t with
  | none => exact .of_new ha hd hx hy
  | some x =>
    rcases place_of_makes hm ho hmem hstrand with ⟨hheld, hs'⟩ | hnone
    · exact ha.keeps_level hd hs (reaches_of_mem ho hheld hs') hx hy (h s t x hheld hs' hx)
    · rw [hx] at hnone
      cases hnone

end Ledger

end Wakeup.Scenario
