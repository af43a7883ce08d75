import Wakeup.Proofs.Interest
import Wakeup.Proofs.Outstanding

/-! A side that is wanted is pending, or an engine is just being told that it is ready, or it was
given up since it was last asked for. So no wake-up is lost. -/
namespace Wakeup.Scenario

/-- Whether a handler accepted that an engine asked for a direction of a descriptor. -/
def Event.asks (s : Nat) (fd : Fd) (d : Direction) : Event → Bool
  | .monitored s' _ fd' ev => s' == s && fd' == fd && ev.wants d
  | _ => false

/-- Whether a wait for a direction of a watcher completed other than ready, or when the engine that
it was for had been dropped. -/
def Event.fails (i : Nat) (d : Direction) : Event → Bool
  | .completed w o served => w.callback.claims i d && (Verdict.of o != .proceed || !served)
  | _ => false

/-- What happened since a handler was last asked for a direction of a descriptor. -/
def sinceAsked (s : Nat) (fd : Fd) (d : Direction) (log : List Event) : List Event :=
  log.takeWhile fun ev => !ev.asks s fd d

theorem sinceAsked_cons {s : Nat} {fd : Fd} {d : Direction} {ev : Event}
    (h : ev.asks s fd d = false) (log : List Event) :
    sinceAsked s fd d (ev :: log) = ev :: sinceAsked s fd d log :=
  List.takeWhile_cons_of_pos (by simp [h])

namespace Ledger
variable {L L' : Ledger}

/-- No two watchers are held for one descriptor of a handler. -/
def Placed (L : Ledger) : Prop :=
  ∀ (p : Nat × Fd) (i j : Nat), (some p, i) ∈ L.watchers → (some p, j) ∈ L.watchers → i = j

theorem Placed.move (hm : Move L L') (h : Placed L) : Placed L' := by
  cases hm with
  | newWatcher hp hf hn =>
    intro p i j hi hj
    rcases Multiset.mem_cons.mp hi with heq | hi'
    · cases heq
      rcases Multiset.mem_cons.mp hj with heq | hj'
      · cases heq
        rfl
      · exact absurd hj' (hf rfl j)
    · rcases Multiset.mem_cons.mp hj with heq | hj'
      · cases heq
        exact absurd hi' (hf rfl i)
      · exact h p i j hi' hj'
  | dropWatcher hw =>
    intro p i j hi hj
    exact h p i j (hw ▸ Multiset.mem_cons_of_mem hi) (hw ▸ Multiset.mem_cons_of_mem hj)
  | _ => exact h

theorem Placed.empty : Placed (({} : World).ledger [] [] []) :=
  fun _ _ _ hmem => absurd hmem (Multiset.notMem_zero _)

/-- Why a side that is wanted will be heard of, or will not. -/
def Awaited (L : Ledger) (s : Nat) (fd : Fd) (i : Nat) (d : Direction) (x : Side) : Prop :=
  x.pending = true ∨ (∃ call ∈ L.calls, call.processes i d = true) ∨
    ∃ ev ∈ sinceAsked s fd d L.log, ev.fails i d = true

/-- Every side that is wanted of a handler that is alive is accounted for. -/
def Awake (L : Ledger) : Prop :=
  ∀ (s : Nat) (fd : Fd) (i : Nat), (some (s, fd), i) ∈ L.watchers → s ∈ L.handlers →
    ∀ d x, L.hub.side? i d = some x → x.wanted = true → L.Awaited s fd i d x

namespace Awake

theorem of_same (h : Awake L) (hw : L'.watchers ⊆ L.watchers) (hh : L'.handlers ⊆ L.handlers)
    (hs : ∀ i d, L'.hub.side? i d = L.hub.side? i d) (hc : L'.calls = L.calls)
    (hl : L'.log = L.log) : Awake L' := by
  intro s fd i hmem hstrand d x hx hwanted
  rw [hs] at hx
  unfold Awaited
  rw [hc, hl]
  exact h s fd i (hw hmem) (hh hstrand) d x hx hwanted

/-- What happened does not matter, unless a direction was asked for. -/
theorem logged (h : Awake L) {ev : Event} (hev : ∀ s fd d, ev.asks s fd d = false) :
    Awake { L with log := ev :: L.log } := by
  intro s fd i hmem hstrand d x hx hwanted
  rcases h s fd i hmem hstrand d x hx hwanted with hp | hcall | ⟨ev', hmem', hf⟩
  · exact Or.inl hp
  · exact Or.inr (Or.inl hcall)
  · refine Or.inr (Or.inr ⟨ev', ?_, hf⟩)
    rw [sinceAsked_cons (hev s fd d)]
    exact List.mem_cons_of_mem _ hmem'

private theorem newHandler (h : Awake L) (ho : Owned L) : Awake
    { L with hub := L.hub.newStrand.2, handlers := L.hub.newStrand.1 ::ₘ L.handlers } := by
  intro s fd i hmem hstrand
  refine h s fd i hmem ?_
  rcases Multiset.mem_cons.mp hstrand with rfl | hstrand
  · -- a strand that is new has no watchers yet
    have hlt := ho.watchers.holds.lt (Multiset.mem_map_of_mem (·.2) hmem)
    rw [← ho.watchers.length_eq] at hlt
    have hx := List.getElem?_eq_getElem hlt
    have hstrand := (ho.watchers.placed hmem _ hx).2
    have hlt' := ho.watchers.strand_lt _ (List.mem_of_getElem? hx)
    rw [hstrand] at hlt'
    exact absurd hlt' (lt_irrefl _)
  · exact hstrand

private theorem newWatcher (h : Awake L) {place : Option (Nat × Fd)} {s : Nat} {fd : Fd}
    {i : Nat} {hub : Hub Manual} (hn : L.hub.newWatcher s fd = (.ok i, hub)) :
    Awake { L with hub := hub, watchers := (place, i) ::ₘ L.watchers } := by
  intro s' fd' j hmem hstrand d x hx hwanted
  change hub.side? j d = some x at hx
  rw [Hub.side?_newWatcher hn] at hx
  split at hx
  · cases hx
    cases hwanted
  · rename_i hj
    rcases Multiset.mem_cons.mp hmem with heq | hmem
    · cases heq
      exact absurd rfl hj
    · exact h s' fd' j hmem hstrand d x hx hwanted

private theorem setInterest (h : Awake L) (hp : Placed L) {place : Option (Nat × Fd)}
    {i : Nat} (e : Nat) (ev : Events) (hmem : (place, i) ∈ L.watchers) :
    Awake { L with hub := L.hub.setInterest i e ev, log := asked place e ev ++ L.log } := by
  intro s fd j hj hstrand d x hx hwanted
  change (L.hub.setInterest i e ev).side? j d = some x at hx
  rw [Hub.side?_setInterest] at hx
  split at hx
  · -- what is asked for is pending at once
    obtain ⟨y, hy, rfl⟩ := Option.map_eq_some_iff.mp hx
    have hev : ev.wants d = true := hwanted
    left
    simp [hev]
  · rename_i hij
    rcases h s fd j hj hstrand d x hx hwanted with hpending | hcall | ⟨ev', hmem', hf⟩
    · exact Or.inl hpending
    · exact Or.inr (Or.inl hcall)
    · refine Or.inr (Or.inr ⟨ev', ?_, hf⟩)
      cases place with
      | none => exact hmem'
      | some p =>
        have hne : (s, fd) ≠ p := by
          rintro rfl
          exact hij (hp _ i j hmem hj)
        have hasks : (Event.monitored p.1 e p.2 ev).asks s fd d = false := by
          by_contra hc
          simp only [Event.asks, Bool.not_eq_false, Bool.and_eq_true, beq_iff_eq] at hc
          exact hne (Prod.ext hc.1.1.symm hc.1.2.symm)
        change ev' ∈ sinceAsked s fd d (.monitored p.1 e p.2 ev :: L.log)
        rw [sinceAsked_cons hasks]
        exact List.mem_cons_of_mem _ hmem'

private theorem retire (h : Awake L) (i : Nat) : Awake { L with hub := L.hub.retire i } := by
  intro s fd j hj hstrand d x hx hwanted
  change (L.hub.retire i).side? j d = some x at hx
  rw [Hub.side?_retire] at hx
  split at hx
  · obtain ⟨y, hy, rfl⟩ := Option.map_eq_some_iff.mp hx
    cases hwanted
  · exact h s fd j hj hstrand d x hx hwanted

theorem finish (h : Awake L) {call : Call} {cs : List Call} (hc : L.calls = call :: cs) :
    Awake (L.finish call cs) := by
  intro s fd i hmem hstrand d x hx hwanted
  change (L.hub.finish call).side? i d = some x at hx
  rw [Hub.side?_finish] at hx
  split at hx
  · -- the engine was told, and the side is armed again
    obtain ⟨y, hy, rfl⟩ := Option.map_eq_some_iff.mp hx
    have hy' : y.wanted = true := hwanted
    left
    simp [hy']
  · rename_i hcall
    rcases h s fd i hmem hstrand d x hx hwanted with hp | ⟨call', hmem', hcall'⟩ | hf
    · exact Or.inl hp
    · rw [hc] at hmem'
      rcases List.mem_cons.mp hmem' with rfl | hmem'
      · exact absurd hcall' hcall
      · exact Or.inr (Or.inl ⟨call', hmem', hcall'⟩)
    · exact Or.inr (Or.inr hf)

/-- A wait for a side that is wanted completes: an engine is told of it, or the side is given up. -/
theorem complete_claimed (ho : Owned L) {s : Nat} {fd : Fd} {i : Nat}
    (hmem : (some (s, fd), i) ∈ L.watchers) (hstrand : s ∈ L.handlers) {d : Direction} {x : Side}
    (hx : L.hub.side? i d = some x) (hwanted : x.wanted = true) (wait : Wait) (o : Outcome)
    (hclaims : wait.callback.claims i d = true) :
    (∃ call ∈ (L.hub.begin wait.callback o).2, call.processes i d = true) ∨
      (Event.completed wait o (serves L.hub wait.callback)).fails i d = true := by
  simp only [Event.fails, hclaims, Bool.true_and, Bool.or_eq_true, bne_iff_ne,
    Bool.not_eq_true']
  by_cases hv : Verdict.of o = .proceed
  · cases hserves : serves L.hub wait.callback with
    | false => exact Or.inr (Or.inr rfl)
    | true =>
      left
      cases hcb : wait.callback with
      | bare tag =>
        rw [hcb] at hclaims
        cases hclaims
      | beat t generation e =>
        rw [hcb] at hclaims
        cases hclaims
      | ready w d' e =>
        rw [hcb] at hclaims hserves
        obtain ⟨rfl, rfl⟩ := (claims_ready e w d' i d).mp hclaims
        obtain ⟨y, hy, halive⟩ := Hub.alive_of_roster (Waits.alive_of_mem ho hmem)
        obtain ⟨htitle, -⟩ := Hub.roster_of_getElem? hy
        obtain ⟨-, hs⟩ := ho.watchers.placed hmem _ htitle
        have hs' : y.strand = s := hs
        have hlasts : L.hub.strandAlive y.strand = true := by
          rw [hs']
          exact ho.strandAlive_of_mem hstrand
        have hside : (y.sides.get d').wanted = true := by
          have hx' := hx
          rw [Hub.side?, hy, Option.map_some] at hx'
          rw [Option.some.inj hx']
          exact hwanted
        exact ⟨_, Hub.begin_of_wanted hy halive hlasts hv hside hserves,
          Call.processes_iff.mpr ⟨rfl, _, _, rfl⟩⟩
  · exact Or.inr (Or.inl hv)

private theorem complete (h : Awake L) (ho : Owned L) {wait : Wait} {ws : Multiset Wait}
    (o : Outcome) :
    Awake { L with
      hub := (L.hub.begin wait.callback o).1
      kept := ws
      calls := (L.hub.begin wait.callback o).2.toList ++ L.calls
      log := .completed wait o (serves L.hub wait.callback) :: L.log } := by
  intro s fd i hmem hstrand d x hx hwanted
  let ev : Event := .completed wait o (serves L.hub wait.callback)
  have hsince : sinceAsked s fd d (ev :: L.log) = ev :: sinceAsked s fd d L.log :=
    sinceAsked_cons rfl L.log
  unfold Awaited
  dsimp only
  rw [hsince]
  change (L.hub.begin wait.callback o).1.side? i d = some x at hx
  rw [Hub.side?_begin] at hx
  split at hx
  · rename_i hc
    obtain ⟨y, hy, rfl⟩ := Option.map_eq_some_iff.mp hx
    rcases complete_claimed ho hmem hstrand hy hwanted wait o hc.1 with ⟨call, hcall, hp⟩ | hf
    · have hcall' := List.mem_append_left L.calls (Option.mem_toList.mpr hcall)
      exact Or.inr (Or.inl ⟨call, hcall', hp⟩)
    · exact Or.inr (Or.inr ⟨_, List.mem_cons_self, hf⟩)
  · rcases h s fd i hmem hstrand d x hx hwanted with hp | ⟨call, hcall, hp⟩ | ⟨ev, hev, hf⟩
    · exact Or.inl hp
    · exact Or.inr (Or.inl ⟨call, List.mem_append_right _ hcall, hp⟩)
    · exact Or.inr (Or.inr ⟨ev, List.mem_cons_of_mem _ hev, hf⟩)

theorem calm (h : Awake L) {hub : Hub Manual} (hw : hub.watchers = L.hub.watchers) :
    Awake { L with hub := hub } :=
  h.of_same (Multiset.Subset.refl _) (Multiset.Subset.refl _) (Hub.side?_congr hw) rfl rfl

theorem move (hm : Move L L') (ho : Owned L) (hp : Placed L) (h : Awake L) : Awake L' := by
  cases hm with
  | advance => exact h.calm rfl
  | refuse => exact h.calm rfl
  | refused hr => exact h.calm rfl
  | newHandler => exact h.newHandler ho
  | dropHandler hh =>
    have hsub := hh ▸ Multiset.subset_cons _ _
    exact h.of_same (Multiset.Subset.refl _) hsub (fun _ _ => rfl) rfl rfl
  | newStrand => exact h.calm rfl
  | dropStrand => exact h.calm rfl
  | newEngine => exact h.calm rfl
  | dropEngine => exact h.calm rfl
  | newWatcher _ _ hn => exact h.newWatcher hn
  | setInterest e ev hmem => exact h.setInterest hp e ev hmem
  | retire => exact h.retire _
  | dropWatcher hw =>
    exact h.of_same (hw ▸ Multiset.subset_cons _ _) (Multiset.Subset.refl _)
      (Hub.side?_dropWatcher _ _) rfl rfl
  | unasked s e fd hev =>
    refine h.logged fun s' fd' d => ?_
    simp [Event.asks, Events.wants_of_isEmpty hev]
  | newHeartbeat => exact h.calm rfl
  | @setHeartbeat place t e interval =>
    have hset : Awake { L with hub := L.hub.setHeartbeat t e interval } :=
      h.calm (Calm.setHeartbeat _ _ _ _).watchers
    cases place with
    | none => exact hset
    | some s => exact hset.logged fun _ _ _ => rfl
  | stopHeartbeat => exact h.calm (Calm.stopHeartbeat _ _).watchers
  | dropHeartbeat => exact h.calm (Calm.dropHeartbeat _ _).watchers
  | enter => exact h.calm rfl
  | leave => exact h.calm rfl
  | takeReady => exact h.calm rfl
  | takeTimed => exact h.calm rfl
  | takeParked => exact h.calm rfl
  | discard => exact h.logged fun _ _ _ => rfl
  | complete o => exact h.complete ho o
  | register => exact h.calm rfl
  | armBare => exact h.calm rfl
  | release => exact h.calm rfl
  | newTimer => exact h.calm rfl
  | scheduleBare => exact h.calm rfl
  | cancelBare => exact h.calm rfl
  | dropTimer => exact h.calm rfl

theorem empty : Awake (({} : World).ledger [] [] []) :=
  fun _ _ _ hmem => absurd hmem (Multiset.notMem_zero _)

end Awake
end Ledger

namespace Config
open Ledger
variable {c : Config} {log : List Event}

theorem Reached.placed (hr : Reached c log) : (c.ledger log).Placed :=
  hr.keeps (fun hm _ h => .move hm h) (fun _ _ h => h) .empty

theorem Reached.awake (hr : Reached c log) : (c.ledger log).Awake := by
  have hboth : (c.ledger log).Placed ∧ (c.ledger log).Awake :=
    hr.keeps (P := fun L => L.Placed ∧ L.Awake)
      (fun hm ho h => ⟨.move hm h.1, .move hm ho h.1 h.2⟩) (fun hc _ h => ⟨h.1, h.2.finish hc⟩)
      ⟨.empty, .empty⟩
  exact hboth.2

/-- No lost wake-up. When no engine is being called, each direction in the interest of a handler in
a descriptor has one wait that can still be run, of the watcher with which the handler watches the
descriptor. Otherwise a wait of it was thrown away, or since the direction was last asked for one
completed other than ready or when its engine had been dropped. -/
theorem no_lost_wakeup (hr : Reached c log) (hrest : c.calls = []) {h : Handler}
    (hh : h ∈ c.world.live) {fd : Fd} {ev : Events} (hev : h.interest fd c.world.hub = some ev)
    {d : Direction} (hd : ev.wants d = true) :
    ∃ i, h.watchers.get? fd = some i ∧ (c.world.unconsumed i d = 1 ∨ 0 < thrownAway log i d ∨
      ∃ wait o served, .completed wait o served ∈ sinceAsked h.strand fd d log ∧
        wait.callback.claims i d = true ∧ (Verdict.of o ≠ .proceed ∨ served = false)) := by
  obtain ⟨i, hi, hev⟩ := Option.bind_eq_some_iff.mp hev
  obtain ⟨x, hx, rfl⟩ := Option.map_eq_some_iff.mp hev
  refine ⟨i, hi, ?_⟩
  have hwanted : (x.sides.get d).wanted = true := by
    rw [Watcher.interest, Events.wants_ofSides] at hd
    cases d <;> exact hd
  have hside : c.world.hub.side? i d = some (x.sides.get d) := by
    unfold Hub.side?
    rw [hx]
    rfl
  have halive := ((alive_iff_of_rest hr hh hx hrest).mpr hi).1
  have hclaims := claims_le_one hr i d hx halive
  have hplace := mem_watchers_of_get? log hh hi
  rcases hr.awake _ _ i hplace (strand_mem_handlers hh) d _ hside hwanted with
    hpending | ⟨call, hcall, -⟩ | ⟨ev, hmem, hf⟩
  · rw [hpending, if_pos rfl] at hclaims
    omega
  · change call ∈ c.calls at hcall
    rw [hrest] at hcall
    cases hcall
  · right
    right
    cases ev with
    | monitored => cases hf
    | negotiated => cases hf
    | discarded => cases hf
    | completed wait o served =>
      simp only [Event.fails, Bool.and_eq_true, Bool.or_eq_true, bne_iff_ne,
        Bool.not_eq_true'] at hf
      exact ⟨wait, o, served, hmem, hf⟩

/-- A wait is taken out of the reactor and thrown away, and its direction is asked for again. -/
def discarding : List Op :=
  [.newHandler 0, .newEngine 0 {} false, .monitor 0 0 5 .readable, .takeReady 5 .read 1, .discard 1,
    .monitor 0 0 5 .readable]

/-- A wait that is kept is a wait that can still be run. -/
theorem no_lost_wakeup_discarding : (sample discarding 4).1.world.unconsumed 0 .read = 1 := by
  let h : Handler := ⟨0, some 0, (∅ : Table Nat).insert 5 0⟩
  have hinterest : h.interest 5 (sample discarding 4).1.world.hub = some .readable := rfl
  obtain ⟨i, hi, hwait⟩ := no_lost_wakeup (reached_sample discarding 4) rfl
    (List.mem_singleton.mpr rfl) hinterest (d := .read) rfl
  cases hi
  rcases hwait with hone | hthrown | ⟨wait, o, served, hmem, -⟩
  · exact hone
  · exact absurd hthrown (by decide)
  · exact absurd hmem List.not_mem_nil

/-- Once a wait was thrown away, to ask again for its direction makes no other. -/
theorem lost_by_discard :
    (sample discarding 6).1.calls = [] ∧ (sample discarding 6).1.world.live.length = 1 ∧
      (∀ h ∈ (sample discarding 6).1.world.live, h.strand = 0 ∧ h.watchers.get? 5 = some 0 ∧
        h.interest 5 (sample discarding 6).1.world.hub = some .readable) ∧
      (sample discarding 6).1.world.unconsumed 0 .read = 0 ∧
      sinceAsked 0 5 .read (sample discarding 6).2 = [] := by
  decide

end Config
end Wakeup.Scenario
