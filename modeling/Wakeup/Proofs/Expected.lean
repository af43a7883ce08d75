import Wakeup.Proofs.Beats

/-! At every point of every run, at most one beat of the current generation of a heartbeat is
expected, and none of a generation to come. -/
namespace Wakeup

namespace Beat

/-- Whether the generation of a beat has begun. -/
def dated (hub : Hub Manual) (b : Beat) : Bool :=
  (hub.schedule? b.heartbeat).any fun x => b.generation ≤ x.generation

/-- Whether a beat is of the current generation of its heartbeat. -/
def current (hub : Hub Manual) (b : Beat) : Bool :=
  (hub.schedule? b.heartbeat).any fun x => x.generation == b.generation

/-- Whether a beat is of the current generation of a given heartbeat. -/
def isDue (hub : Hub Manual) (t : Nat) (b : Beat) : Bool := b.heartbeat == t && b.current hub

variable {hub hub' : Hub Manual} {b : Beat} {t : Nat} {x y : Schedule}

theorem isDue_iff : b.isDue hub t = true ↔ b.heartbeat = t ∧ b.current hub = true := by
  simp [isDue]

theorem isDue_of_ne (h : b.heartbeat ≠ t) : b.isDue hub t = false := by
  rw [← Bool.not_eq_true, isDue_iff]
  exact fun hdue => h hdue.1

theorem isDue_congr (hx : hub.schedule? t = some x) (hy : hub'.schedule? t = some y)
    (hg : y.generation = x.generation) : isDue hub' t = isDue hub t := by
  funext b
  rw [Bool.eq_iff_iff, isDue_iff, isDue_iff]
  refine and_congr_right fun hb => ?_
  subst hb
  simp [current, hx, hy, hg]

theorem dated_iff (hx : hub.schedule? b.heartbeat = some x) :
    b.dated hub = true ↔ b.generation ≤ x.generation := by
  simp [dated, hx]

theorem current_iff (hx : hub.schedule? b.heartbeat = some x) :
    b.current hub = true ↔ x.generation = b.generation := by
  simp [current, hx]

end Beat

namespace Scenario.Ledger
variable {L L' : Ledger} {p q : Beat → Bool}

/-- How many beats of a kind are expected. -/
def expected (p : Beat → Bool) (L : Ledger) : Nat :=
  L.hub.reactor.beats p + L.kept.countP (·.isBeat p = true) +
    L.calls.countP (·.beat?.any p) + L.log.countP (·.beat?.any p)

theorem any_and_not (o : Option Beat) (p q : Beat → Bool) :
    (o.any p && o.any q) = o.any (fun b => p b && q b) ∧
      (o.any p && !o.any q) = o.any (fun b => p b && !q b) := by
  cases o <;> exact ⟨rfl, rfl⟩

private theorem countP_split {α : Type} (f : α → Option Beat) (l : List α) (p q : Beat → Bool) :
    l.countP (fun a => (f a).any p) = l.countP (fun a => (f a).any fun b => p b && q b) +
      l.countP (fun a => (f a).any fun b => p b && !q b) := by
  rw [List.countP_eq_countP_filter_add l _ fun a => (f a).any q, List.countP_filter,
    List.countP_filter]
  simp only [any_and_not]

theorem expected_split (p q : Beat → Bool) (L : Ledger) : L.expected p =
    L.expected (fun b => p b && q b) + L.expected (fun b => p b && !q b) := by
  have hready := countP_split (fun x : ReadyWait => x.wait.callback.beat?) L.hub.reactor.ready p q
  have htimed := countP_split (fun x : TimedWait => x.wait.callback.beat?) L.hub.reactor.timed p q
  have hparked := countP_split (fun w : Wait => w.callback.beat?) L.hub.reactor.parked p q
  have hcalls := countP_split Call.beat? L.calls p q
  have hlog := countP_split Event.beat? L.log p q
  have hkept : L.kept.countP (·.isBeat p = true) =
      L.kept.countP (·.isBeat (fun b => p b && q b) = true) +
        L.kept.countP (·.isBeat (fun b => p b && !q b) = true) := by
    refine Quotient.inductionOn L.kept fun l => ?_
    have hl : l.countP (·.isBeat p) = l.countP (·.isBeat fun b => p b && q b) +
        l.countP (·.isBeat fun b => p b && !q b) :=
      countP_split (fun w : Wait => w.callback.beat?) l p q
    simpa using hl
  simp only [expected, Manual.beats, Wait.isBeat] at hkept ⊢
  omega

theorem expected_mono (h : ∀ b, p b = true → q b = true) (L : Ledger) :
    L.expected p ≤ L.expected q := by
  have hsplit := L.expected_split q p
  have heq : (fun b => q b && p b) = p := by
    funext b
    cases hp : p b with
    | false => simp
    | true => simp [h b hp]
  rw [heq] at hsplit
  omega

theorem expected_eq_zero (h : ∀ b, p b = false) (L : Ledger) : L.expected p = 0 := by
  have heq : p = fun _ => false := funext h
  rw [heq]
  simp [expected, Manual.beats, Wait.isBeat]

private theorem expected_log (p : Beat → Bool) (L : Ledger) {ev : Event} (h : ev.beat? = none) :
    expected p { L with log := ev :: L.log } = L.expected p := by
  simp [expected, h]

/-- What becomes of schedules, of the beats that are expected, and of what was last negotiated. -/
inductive Ages (L L' : Ledger) : Prop
  | same (hs : ∀ j, L'.hub.schedule? j = L.hub.schedule? j)
      (he : ∀ p, L'.expected p = L.expected p)
      (hl : ∀ s, lastNegotiated s L'.log = lastNegotiated s L.log)
  | makes (hs : ∀ j, L'.hub.schedule? j =
        if j = L.hub.heartbeats.length then some {} else L.hub.schedule? j)
      (he : ∀ p, L'.expected p = L.expected p)
      (hl : ∀ s, lastNegotiated s L'.log = lastNegotiated s L.log)
  | sets {place : Option Nat} {t e : Nat} {interval : Interval} {x : Schedule}
      (hx : L.hub.schedule? t = some x)
      (hs : ∀ j, L'.hub.schedule? j =
        if t = j then (L.hub.schedule? j).map (.start L.hub.reactor.now interval)
        else L.hub.schedule? j)
      (he : ∀ p, L'.expected p = L.expected p + if p ⟨t, x.generation + 1, e⟩ then 1 else 0)
      (hl : L'.log = agreed place e interval ++ L.log) (hmem : (place, t) ∈ L.heartbeats)
      (hb : L'.heartbeats = L.heartbeats) (hh : L'.handlers = L.handlers)
  | stops {t : Nat} (hs : ∀ j, L'.hub.schedule? j =
        if t = j then (L.hub.schedule? j).map .halt else L.hub.schedule? j)
      (he : ∀ p, L'.expected p = L.expected p)
      (hl : ∀ s, lastNegotiated s L'.log = lastNegotiated s L.log)
  /-- A callback is run. Its beat is expected no longer, unless it outlasts that. -/
  | runs {wait : Wait} {o : Outcome} (hs : ∀ j, L'.hub.schedule? j =
        if L.hub.fails wait.callback o j then
          (L.hub.schedule? j).map ({ · with deadline := none })
        else L.hub.schedule? j)
      (he : ∀ p, L'.expected p +
        (if outlasts L.hub wait.callback o = false ∧ wait.isBeat p then 1 else 0) = L.expected p)
      (hk : ∀ p, wait.isBeat p = true → L.hub.reactor.beats p < L.expected p)
      (hl : ∀ s, lastNegotiated s L'.log = lastNegotiated s L.log)
  /-- A call ends. Its beat is expected no longer, but for the next beat of the generation. -/
  | ends {call : Call} (hs : ∀ j, L'.hub.schedule? j =
        match call.beat? with
        | some b =>
          if b.heartbeat = j then (L.hub.schedule? j).map (.next b.generation)
          else L.hub.schedule? j
        | none => L.hub.schedule? j)
      (he : ∀ p, L'.expected p +
        (if L.hub.rebeats call = false ∧ call.beat?.any p then 1 else 0) = L.expected p)
      (hk : ∀ p, call.beat?.any p = true → L.hub.reactor.beats p < L.expected p)
      (hl : ∀ s, lastNegotiated s L'.log = lastNegotiated s L.log)

namespace Ages

/-- The waits of the reactor change, but not their beats. -/
theorem of_reactor (hs : ∀ j, L'.hub.schedule? j = L.hub.schedule? j)
    (hr : ∀ p, L'.hub.reactor.beats p = L.hub.reactor.beats p) (hk : L'.kept = L.kept)
    (hc : L'.calls = L.calls) (hl : L'.log = L.log) : Ages L L' := by
  refine .same hs (fun p => ?_) fun s => by rw [hl]
  unfold expected
  rw [hr, hk, hc, hl]

/-- A wait is taken out of the reactor and kept. -/
theorem of_take {m : Manual} {wait : Wait}
    (h : ∀ p, L.hub.reactor.beats p = m.beats p + if wait.isBeat p then 1 else 0) :
    Ages L { L.setReactor m with kept := wait ::ₘ L.kept } := by
  refine .same (fun _ => rfl) (fun p => ?_) fun _ => rfl
  have hp := h p
  simp only [expected, setReactor, Multiset.countP_cons]
  omega

/-- Only to set a heartbeat makes another beat expected. -/
theorem le_or_sets (h : Ages L L') : (∀ p, L'.expected p ≤ L.expected p) ∨
    ∃ (place : Option Nat) (t e : Nat) (interval : Interval) (x : Schedule),
      L.hub.schedule? t = some x ∧ (place, t) ∈ L.heartbeats ∧ L'.heartbeats = L.heartbeats ∧
      L'.log = agreed place e interval ++ L.log ∧
      ∀ p, L'.expected p = L.expected p + if p ⟨t, x.generation + 1, e⟩ then 1 else 0 := by
  cases h with
  | same _ he => exact Or.inl fun p => (he p).le
  | makes _ he => exact Or.inl fun p => (he p).le
  | sets hx _ he hl hmem hb => exact Or.inr ⟨_, _, _, _, _, hx, hmem, hb, hl, he⟩
  | stops _ he => exact Or.inl fun p => (he p).le
  | runs _ he => exact Or.inl fun p => (Nat.le_add_right _ _).trans (he p).le
  | ends _ he => exact Or.inl fun p => (Nat.le_add_right _ _).trans (he p).le

/-- Generations only advance, and a beat is expected anew only for a generation that begins. -/
theorem keeps_or_sets (h : Ages L L') :
    ((∀ t x, L.hub.schedule? t = some x →
        ∃ y, L'.hub.schedule? t = some y ∧ x.generation ≤ y.generation) ∧
      ∀ p, L'.expected p ≤ L.expected p) ∨
    ∃ (t e : Nat) (x y : Schedule), L.hub.schedule? t = some x ∧ L'.hub.schedule? t = some y ∧
      y.generation = x.generation + 1 ∧ (∀ j, j ≠ t → L'.hub.schedule? j = L.hub.schedule? j) ∧
      ∀ p, L'.expected p = L.expected p + if p ⟨t, x.generation + 1, e⟩ then 1 else 0 := by
  cases h with
  | same hs he => exact Or.inl ⟨fun t x hx => ⟨x, (hs t).trans hx, le_rfl⟩, fun p => (he p).le⟩
  | makes hs he =>
    refine Or.inl ⟨fun t x hx => ?_, fun p => (he p).le⟩
    obtain ⟨y, hy, -⟩ := Option.map_eq_some_iff.mp hx
    have hlt := (List.getElem?_eq_some_iff.mp hy).1
    have ht := hs t
    rw [if_neg hlt.ne] at ht
    exact ⟨x, ht.trans hx, le_rfl⟩
  | @sets place t e interval x hx hs he =>
    have ht := hs t
    rw [if_pos rfl, hx, Option.map_some] at ht
    refine Or.inr ⟨t, e, x, _, hx, ht, rfl, fun j hj => ?_, he⟩
    have hsame := hs j
    rwa [if_neg hj.symm] at hsame
  | @stops t hs he =>
    refine Or.inl ⟨fun j x hx => ?_, fun p => (he p).le⟩
    have hj := hs j
    rw [hx] at hj
    split at hj
    · exact ⟨_, hj, Nat.le_succ _⟩
    · exact ⟨x, hj, le_rfl⟩
  | runs hs he _ =>
    refine Or.inl ⟨fun j x hx => ?_, fun p => (Nat.le_add_right _ _).trans (he p).le⟩
    have hj := hs j
    rw [hx] at hj
    split at hj
    · exact ⟨_, hj, le_rfl⟩
    · exact ⟨x, hj, le_rfl⟩
  | ends hs he _ =>
    refine Or.inl ⟨fun j x hx => ?_, fun p => (Nat.le_add_right _ _).trans (he p).le⟩
    have hj := hs j
    rw [hx] at hj
    split at hj
    · split at hj
      · exact ⟨_, hj, by rw [Schedule.generation_next]⟩
      · exact ⟨x, hj, le_rfl⟩
    · exact ⟨x, hj, le_rfl⟩

theorem expected_le (h : Ages L L') (hp : ∀ b, p b = true → b.dated L.hub = true) :
    L'.expected p ≤ L.expected p := by
  rcases h.keeps_or_sets with ⟨-, he⟩ | ⟨t, e, x, y, hx, -, -, -, he⟩
  · exact he p
  · have hnew : p ⟨t, x.generation + 1, e⟩ = false := by
      by_contra hc
      have hdated := hp ⟨t, x.generation + 1, e⟩ (by simpa using hc)
      rw [Beat.dated_iff hx] at hdated
      simp only at hdated
      omega
    rw [he, hnew]
    simp

theorem generation_le (h : Ages L L') {t : Nat} {x : Schedule} (hx : L.hub.schedule? t = some x) :
    ∃ y, L'.hub.schedule? t = some y ∧ x.generation ≤ y.generation := by
  rcases h.keeps_or_sets with ⟨hs, -⟩ | ⟨t', e, x', y, hx', hy, hgen, hs, -⟩
  · exact hs t x hx
  · by_cases ht : t = t'
    · subst ht
      rw [hx] at hx'
      cases hx'
      exact ⟨y, hy, by omega⟩
    · exact ⟨x, (hs t ht).trans hx, le_rfl⟩

private theorem dated (h : Ages L L') {b : Beat} (hb : b.dated L.hub = true) :
    b.dated L'.hub = true := by
  cases hx : L.hub.schedule? b.heartbeat with
  | none => simp [Beat.dated, hx] at hb
  | some x =>
    obtain ⟨y, hy, hle⟩ := h.generation_le hx
    rw [Beat.dated_iff hx] at hb
    rw [Beat.dated_iff hy]
    exact hb.trans hle

/-- A beat whose generation has begun is of the current one afterwards only if it was before. -/
theorem current (h : Ages L L') {b : Beat} (hb : b.dated L.hub = true)
    (hc : b.current L'.hub = true) : b.current L.hub = true := by
  cases hx : L.hub.schedule? b.heartbeat with
  | none => simp [Beat.dated, hx] at hb
  | some x =>
    obtain ⟨y, hy, hle⟩ := h.generation_le hx
    rw [Beat.dated_iff hx] at hb
    rw [Beat.current_iff hy] at hc
    rw [Beat.current_iff hx]
    omega

end Ages

theorem schedule?_of_held (ho : Owned L) {t : Nat} (h : t ∈ L.heartbeats.map (·.2)) :
    ∃ x, L.hub.schedule? t = some x := by
  have hlt := ho.heartbeats.holds.lt h
  rw [Hub.roster, List.length_map] at hlt
  exact ⟨_, Option.map_eq_some_iff.mpr ⟨_, List.getElem?_eq_getElem hlt, rfl⟩⟩

theorem Move.ages (hm : Move L L') (ho : Owned L) : Ages L L' := by
  cases hm with
  | advance => exact .same (fun _ => rfl) (fun _ => rfl) fun _ => rfl
  | refuse => exact .same (fun _ => rfl) (fun _ => rfl) fun _ => rfl
  | refused hr =>
    rw [Manual.register_error hr]
    exact .same (fun _ => rfl) (fun _ => rfl) fun _ => rfl
  | newHandler => exact .same (fun _ => rfl) (fun _ => rfl) fun _ => rfl
  | dropHandler => exact .same (fun _ => rfl) (fun _ => rfl) fun _ => rfl
  | newStrand => exact .same (fun _ => rfl) (fun _ => rfl) fun _ => rfl
  | dropStrand => exact .same (fun _ => rfl) (fun _ => rfl) fun _ => rfl
  | newEngine => exact .same (fun _ => rfl) (fun _ => rfl) fun _ => rfl
  | dropEngine => exact .same (fun _ => rfl) (fun _ => rfl) fun _ => rfl
  | newWatcher hp hf hn =>
    exact .of_reactor (Hub.schedule?_congr (Hub.heartbeats_newWatcher hn))
      (fun _ => Hub.beats_newWatcher hn) rfl rfl rfl
  | @setInterest place i e ev hmem =>
    refine .same (Hub.schedule?_congr (Hub.heartbeats_setInterest _ _ _ _)) (fun p => ?_)
      fun s => ?_
    · have hr := Hub.beats_setInterest (p := p) L.hub i e ev
      have hasked : (asked place e ev).countP (·.beat?.any p) = 0 := by
        unfold asked
        cases place <;> rfl
      simp only [expected, List.countP_append, hasked, hr, Nat.zero_add]
    · cases place with
      | none => rfl
      | some p => exact lastNegotiated_cons s rfl L.log
  | retire => exact .same (fun _ => rfl) (fun _ => rfl) fun _ => rfl
  | dropWatcher =>
    exact .of_reactor (Hub.schedule?_congr (Hub.heartbeats_dropWatcher _ _))
      (fun _ => Hub.beats_dropWatcher _ _) rfl rfl rfl
  | unasked s e fd =>
    exact .same (fun _ => rfl) (fun p => expected_log p L rfl)
      fun _ => lastNegotiated_cons _ rfl L.log
  | @newHeartbeat place s hp =>
    exact .makes (Hub.schedule?_newHeartbeat L.hub s) (fun _ => rfl) fun _ => rfl
  | @setHeartbeat place t e interval hmem =>
    obtain ⟨x, hx⟩ := schedule?_of_held ho (Multiset.mem_map_of_mem (·.2) hmem)
    refine .sets (e := e) hx (Hub.schedule?_setHeartbeat _ _ e _) (fun p => ?_) rfl hmem rfl rfl
    have hagreed : (agreed place e interval).countP (·.beat?.any p) = 0 := by
      cases place <;> rfl
    have hr := Hub.beats_setHeartbeat (p := p) hx e interval
    simp only [expected, List.countP_append, hagreed, hr]
    omega
  | @stopHeartbeat place t hmem =>
    refine .stops (Hub.schedule?_stopHeartbeat L.hub t) (fun p => ?_) fun _ => rfl
    have hr := Hub.beats_stopHeartbeat (p := p) L.hub t
    simp only [expected, hr]
  | dropHeartbeat =>
    exact .of_reactor (Hub.schedule?_dropHeartbeat _ _) (fun _ => Hub.beats_dropHeartbeat _ _)
      rfl rfl rfl
  | enter => exact .same (fun _ => rfl) (fun _ => rfl) fun _ => rfl
  | leave => exact .same (fun _ => rfl) (fun _ => rfl) fun _ => rfl
  | takeReady ht => exact .of_take fun _ => Manual.beats_takeReady ht
  | takeTimed ht => exact .of_take fun _ => Manual.beats_takeTimed ht
  | takeParked =>
    refine .same (fun _ => rfl) (fun p => ?_) fun _ => rfl
    simp only [expected, setReactor, Manual.beats, Manual.takeParked, List.countP_nil,
      Multiset.countP_add, Multiset.coe_countP]
    simp
    omega
  | @discard wait ws hk =>
    refine .same (fun _ => rfl) (fun p => ?_) fun _ => lastNegotiated_cons _ rfl L.log
    have hbeat : (Event.discarded wait).beat?.any p = wait.isBeat p := rfl
    simp only [expected, hk, Multiset.countP_cons, List.countP_cons, hbeat]
    omega
  | @complete wait ws o hk =>
    refine .runs (Hub.schedule?_begin L.hub wait.callback o) (fun p => ?_) (fun p hp => ?_)
      fun _ => lastNegotiated_cons _ rfl L.log
    · have hb := beat?_begin L.hub wait o p
      simp only [expected, hk, Multiset.countP_cons, List.countP_cons, List.countP_append,
        Hub.reactor_begin]
      cases ho : outlasts L.hub wait.callback o <;> cases hw : wait.isBeat p <;>
        simp only [ho, hw, Bool.false_eq_true, Bool.true_eq_false, and_self, and_true, and_false,
          if_true, if_false] at hb ⊢ <;> omega
    · simp only [expected, hk, Multiset.countP_cons, hp, if_true]
      omega
  | register hr =>
    obtain ⟨-, rfl⟩ := Manual.register_ok hr
    exact .same (fun _ => rfl) (fun _ => rfl) fun _ => rfl
  | armBare d tag =>
    exact .of_reactor (fun _ => rfl) (fun _ => Manual.beats_arm _ d rfl _) rfl rfl rfl
  | release => exact .of_reactor (fun _ => rfl) (fun _ => Manual.beats_release _ _) rfl rfl rfl
  | newTimer => exact .same (fun _ => rfl) (fun _ => rfl) fun _ => rfl
  | scheduleBare deadline tag =>
    exact .of_reactor (fun _ => rfl) (fun _ => Manual.beats_schedule _ deadline _ _) rfl rfl rfl
  | cancelBare => exact .of_reactor (fun _ => rfl) (fun _ => Manual.beats_cancel _ _) rfl rfl rfl
  | dropTimer => exact .of_reactor (fun _ => rfl) (fun _ => Manual.beats_cancel _ _) rfl rfl rfl

theorem ages_finish {call : Call} {cs : List Call} (hc : L.calls = call :: cs) :
    Ages L (L.finish call cs) := by
  refine .ends (Hub.schedule?_finish L.hub call) (fun p => ?_) (fun p hp => ?_) fun _ => rfl
  · have hr := Hub.beats_finish (p := p) L.hub call
    simp only [expected, finish, hr, hc, List.countP_cons]
    cases hre : L.hub.rebeats call <;> cases hb : call.beat?.any p <;>
      simp only [Bool.false_eq_true, Bool.true_eq_false, and_self, and_true, and_false,
        if_true, if_false] <;> omega
  · simp only [expected, hc, List.countP_cons, hp, if_true]
    omega

/-- No beat is expected of a generation to come. -/
def Dated (L : Ledger) : Prop :=
  ∀ p : Beat → Bool, (∀ b, p b = true → b.dated L.hub = false) → L.expected p = 0

theorem Dated.expected_le (h : Dated L) (hpq : ∀ b, b.dated L.hub = true → p b = true →
    q b = true) : L.expected p ≤ L.expected q := by
  have hzero : L.expected (fun b => p b && !b.dated L.hub) = 0 := by
    refine h _ fun b hb => ?_
    simp only [Bool.and_eq_true, Bool.not_eq_true'] at hb
    exact hb.2
  have hle : L.expected (fun b => p b && b.dated L.hub) ≤ L.expected q := by
    refine expected_mono (fun b hb => ?_) L
    simp only [Bool.and_eq_true] at hb
    exact hpq b hb.2 hb.1
  have hsplit := L.expected_split p (·.dated L.hub)
  omega

/-- Of a generation that begins no beat was expected. -/
theorem Dated.expected_eq_zero (h : Dated L) {t : Nat} {y : Schedule}
    (hy : L'.hub.schedule? t = some y)
    (hg : ∀ x, L.hub.schedule? t = some x → x.generation < y.generation) :
    L.expected (Beat.isDue L'.hub t) = 0 := by
  refine h _ fun b hb => ?_
  obtain ⟨rfl, hcurrent⟩ := Beat.isDue_iff.mp hb
  rw [Beat.current_iff hy] at hcurrent
  cases hx : L.hub.schedule? b.heartbeat with
  | none => simp [Beat.dated, hx]
  | some x =>
    have hlt := hg x hx
    rw [← Bool.not_eq_true, Beat.dated_iff hx]
    omega

theorem Dated.expected_eq_zero_of_lt (h : Dated L) {t : Nat} {x y : Schedule}
    (hx : L.hub.schedule? t = some x) (hy : L'.hub.schedule? t = some y)
    (hg : x.generation < y.generation) : L.expected (Beat.isDue L'.hub t) = 0 := by
  refine h.expected_eq_zero hy fun w hw => ?_
  rw [hx] at hw
  cases hw
  exact hg

theorem Ages.keeps_dated (ha : Ages L L') (h : Dated L) : Dated L' := by
  intro p hp
  have hundated : ∀ b, p b = true → b.dated L.hub = false := by
    intro b hb
    by_contra hc
    have hdated := ha.dated (b := b) (by simpa using hc)
    rw [hp b hb] at hdated
    cases hdated
  have hzero := h p hundated
  rcases ha.keeps_or_sets with ⟨-, he⟩ | ⟨t, e, x, y, -, hy, hgen, -, he⟩
  · have hle := he p
    omega
  · have hnew : p ⟨t, x.generation + 1, e⟩ = false := by
      by_contra hc
      have hfalse := hp ⟨t, x.generation + 1, e⟩ (by simpa using hc)
      have hdated := (Beat.dated_iff (b := ⟨t, x.generation + 1, e⟩) hy).mpr hgen.ge
      rw [hfalse] at hdated
      cases hdated
    rw [he, hnew, hzero]
    simp

/-- How many beats of the current generation of a heartbeat are expected. -/
def due (t : Nat) (L : Ledger) : Nat :=
  L.expected (Beat.isDue L.hub t)

/-- At most one beat of the current generation of a heartbeat is expected. -/
def Single (L : Ledger) : Prop := ∀ t, L.due t ≤ 1

/-- Among the beats that were expected, those of the generation that is current afterwards were
current before. -/
theorem Ages.expected_isDue_and_le (ha : Ages L L') (hd : Dated L) (t : Nat) (q : Beat → Bool) :
    L.expected (fun b => b.isDue L'.hub t && q b) ≤
      L.expected (fun b => b.isDue L.hub t && q b) := by
  refine hd.expected_le fun b hdated hb => ?_
  rw [Bool.and_eq_true, Beat.isDue_iff] at hb ⊢
  exact ⟨⟨hb.1.1, ha.current hdated hb.1.2⟩, hb.2⟩

theorem Ages.expected_isDue_le (ha : Ages L L') (hd : Dated L) (t : Nat) :
    L.expected (Beat.isDue L'.hub t) ≤ L.due t := by
  have hand := ha.expected_isDue_and_le hd t fun _ => true
  simp only [Bool.and_true] at hand
  exact hand

theorem Ages.keeps_single (ha : Ages L L') (hd : Dated L) (h : Single L) : Single L' := by
  intro t
  have hone := h t
  have hcurrent := ha.expected_isDue_le hd t
  unfold due
  rcases ha.keeps_or_sets with ⟨-, he⟩ | ⟨t', e, x, y, hx, hy, hgen, -, he⟩
  · have hle := he (Beat.isDue L'.hub t)
    omega
  · rw [he]
    by_cases ht : t' = t
    · -- no beat was expected yet of the generation that begins
      subst ht
      have hzero := hd.expected_eq_zero_of_lt hx hy (hgen ▸ Nat.lt_succ_self _)
      split_ifs <;> omega
    · have hnew : Beat.isDue L'.hub t ⟨t', x.generation + 1, e⟩ = false := Beat.isDue_of_ne ht
      rw [hnew, if_neg Bool.false_ne_true]
      omega

theorem expected_empty (p : Beat → Bool) : (({} : World).ledger [] [] []).expected p = 0 := rfl

end Scenario.Ledger
end Wakeup
