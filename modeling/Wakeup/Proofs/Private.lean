import Wakeup.Proofs.Arming

/-! The strand of a handler: nothing shares it that is on its own, and once the handler was dropped
nothing is made for it or holds it. -/
namespace Wakeup

/-- The strand of a watcher or a heartbeat. -/
def Hub.strandOf? (hub : Hub Manual) : Part → Option Nat
  | .watcher i => hub.watchers[i]?.map (·.strand)
  | .heartbeat t => hub.heartbeats[t]?.map (·.strand)

namespace Hub
variable {hub hub' : Hub Manual}

theorem strandOf?_watcher (hub : Hub Manual) (i : Nat) :
    hub.strandOf? (.watcher i) = hub.roster.watched[i]?.map (·.2) := by
  change _ = ((hub.watchers.map _)[i]?).map _
  rw [List.getElem?_map, Option.map_map]
  rfl

theorem strandOf?_heartbeat (hub : Hub Manual) (t : Nat) :
    hub.strandOf? (.heartbeat t) = hub.roster.timed[t]?.map (·.2) := by
  change _ = ((hub.heartbeats.map _)[t]?).map _
  rw [List.getElem?_map, Option.map_map]
  rfl

theorem strandOf?_congr (hw : hub'.roster.watched = hub.roster.watched)
    (ht : hub'.roster.timed = hub.roster.timed) (p : Part) :
    hub'.strandOf? p = hub.strandOf? p := by
  cases p with
  | watcher i => rw [strandOf?_watcher, strandOf?_watcher, hw]
  | heartbeat t => rw [strandOf?_heartbeat, strandOf?_heartbeat, ht]

theorem strandOf?_owner (hub : Hub Manual) (o : Owner) :
    hub.roster.strandOf? o = hub.strandOf? o.part := by
  cases o with
  | watcher i d => exact (strandOf?_watcher hub i).symm
  | heartbeat t generation => exact (strandOf?_heartbeat hub t).symm

end Hub

namespace Scenario
namespace Ledger
variable {L L' : Ledger}

/-- The heartbeat for which a call is in progress. -/
theorem InUse.exists_heartbeat (h : InUse L) {call : Call} {cs : List Call}
    (hc : L.calls = call :: cs) {t generation : Nat} (ho : call.owner = .heartbeat t generation) :
    ∃ x, L.hub.heartbeats[t]? = some x := by
  have hcall : call ∈ L.calls := hc ▸ List.mem_cons_self
  have hstrand := h.strandOf?_owner call hcall
  rw [ho, Hub.strandOf?_owner] at hstrand
  obtain ⟨x, hx, -⟩ := Option.map_eq_some_iff.mp hstrand
  exact ⟨x, hx⟩

/-- What is new in a ledger after a move: strands, or a watcher, or a heartbeat. -/
inductive Makes (L L' : Ledger) : Prop
  | strands (hlt : L.hub.roster.strands.length ≤ L'.hub.roster.strands.length)
      (hh : ∀ s ∈ L'.handlers, s ∈ L.handlers ∨ s = L.hub.roster.strands.length)
      (hs : ∀ s ∈ L'.strands, s ∈ L.strands ∨ s = L.hub.roster.strands.length)
      (hwatched : L'.hub.roster.watched = L.hub.roster.watched) (hw : L'.watchers ⊆ L.watchers)
      (htimed : L'.hub.roster.timed = L.hub.roster.timed) (hb : L'.heartbeats ⊆ L.heartbeats)
  | watcher {place : Option (Nat × Fd)} {s : Nat} {fd : Fd} {r : Registration}
      (hp : place = some (s, fd) ∧ s ∈ L.handlers ∨ place = none ∧ s ∈ L.strands)
      (hlen : L'.hub.roster.strands = L.hub.roster.strands) (hh : L'.handlers = L.handlers)
      (hs : L'.strands = L.strands)
      (hwatched : L'.hub.roster.watched = L.hub.roster.watched ++ [(r, s)])
      (hw : L'.watchers = (place, L.hub.roster.watchers.length) ::ₘ L.watchers)
      (htimed : L'.hub.roster.timed = L.hub.roster.timed) (hb : L'.heartbeats = L.heartbeats)
  | heartbeat {place : Option Nat} {s timer : Nat}
      (hp : place = some s ∧ s ∈ L.handlers ∨ place = none ∧ s ∈ L.strands)
      (hlen : L'.hub.roster.strands = L.hub.roster.strands) (hh : L'.handlers = L.handlers)
      (hs : L'.strands = L.strands) (hwatched : L'.hub.roster.watched = L.hub.roster.watched)
      (hw : L'.watchers = L.watchers)
      (htimed : L'.hub.roster.timed = L.hub.roster.timed ++ [(timer, s)])
      (hb : L'.heartbeats = (place, L.hub.roster.heartbeats.length) ::ₘ L.heartbeats)

namespace Makes

private theorem of_holdings (heq : L'.holdings = L.holdings) : Makes L L' := by
  obtain ⟨hr, hh, hs, hw, hb⟩ := fields_of_holdings heq
  refine .strands ?_ ?_ ?_ ?_ ?_ ?_ ?_
  · rw [hr]
  · exact fun s hmem => Or.inl (hh ▸ hmem)
  · exact fun s hmem => Or.inl (hs ▸ hmem)
  · rw [hr]
  · exact hw ▸ Multiset.Subset.refl _
  · rw [hr]
  · exact hb ▸ Multiset.Subset.refl _

theorem of_modifyCall {call : Call} {f : Presence → Presence}
    (heq : L'.holdings = (L.hub.roster.modifyCall call f, L.holdings.2)) : Makes L L' := by
  obtain ⟨hr, hh, hs, hw, hb⟩ := fields_of_holdings heq
  have htitles : (L.hub.roster.modifyCall call f).watched = L.hub.roster.watched ∧
      (L.hub.roster.modifyCall call f).timed = L.hub.roster.timed := by
    obtain ⟨owner, s, e, notice⟩ := call
    cases owner <;> exact ⟨rfl, rfl⟩
  refine .strands ?_ ?_ ?_ ?_ ?_ ?_ ?_
  · rw [hr, Roster.modifyCall, List.length_modify]
  · exact fun s hmem => Or.inl (hh ▸ hmem)
  · exact fun s hmem => Or.inl (hs ▸ hmem)
  · exact hr ▸ htitles.1
  · exact hw ▸ Multiset.Subset.refl _
  · exact hr ▸ htitles.2
  · exact hb ▸ Multiset.Subset.refl _

theorem of_strands {R : List Presence}
    (hr : L'.hub.roster = { L.hub.roster with strands := R })
    (hlt : L.hub.roster.strands.length ≤ R.length)
    (hh : ∀ s ∈ L'.handlers, s ∈ L.handlers ∨ s = L.hub.roster.strands.length)
    (hs : ∀ s ∈ L'.strands, s ∈ L.strands ∨ s = L.hub.roster.strands.length)
    (hw : L'.watchers = L.watchers) (hb : L'.heartbeats = L.heartbeats) : Makes L L' := by
  refine .strands ?_ hh hs ?_ ?_ ?_ ?_
  · rw [hr]
    exact hlt
  · rw [hr]
  · exact hw ▸ Multiset.Subset.refl _
  · rw [hr]
  · exact hb ▸ Multiset.Subset.refl _

private theorem of_modifyStrand {s : Nat} {f : Presence → Presence}
    (hr : L'.hub.roster = (L.hub.modifyStrand s f).roster)
    (hh : L'.handlers ⊆ L.handlers) (hs : L'.strands ⊆ L.strands)
    (hw : L'.watchers = L.watchers) (hb : L'.heartbeats = L.heartbeats) : Makes L L' := by
  refine of_strands (hr.trans (Hub.roster_modifyStrand _ _ _)) ?_ ?_ ?_ hw hb
  · rw [List.length_modify]
  · exact fun s hmem => Or.inl (hh hmem)
  · exact fun s hmem => Or.inl (hs hmem)

private theorem of_register {fd : Fd} {r : Registration} {m : Manual}
    (h : L.hub.reactor.register fd = (.ok r, m)) : Makes L { L.setReactor m with
      registrations := r ::ₘ L.registrations } := by
  obtain ⟨-, rfl⟩ := Manual.register_ok h
  exact .strands le_rfl (fun _ => Or.inl) (fun _ => Or.inl) rfl (Multiset.Subset.refl _) rfl
    (Multiset.Subset.refl _)

end Makes

theorem Move.makes (hm : Move L L') : Makes L L' := by
  cases hm with
  | advance => exact .of_holdings rfl
  | refuse => exact .of_holdings rfl
  | refused hr =>
    rw [Manual.register_error hr]
    exact .of_holdings rfl
  | newHandler =>
    refine .of_strands (Hub.roster_newStrand _) (by simp) ?_ (fun _ => Or.inl) rfl rfl
    exact fun s hmem => (Multiset.mem_cons.mp hmem).symm
  | dropHandler hh =>
    exact .of_modifyStrand rfl (hh ▸ Multiset.subset_cons _ _) (Multiset.Subset.refl _) rfl rfl
  | newStrand =>
    refine .of_strands (Hub.roster_newStrand _) (by simp) (fun _ => Or.inl) ?_ rfl rfl
    exact fun s hmem => (Multiset.mem_cons.mp hmem).symm
  | dropStrand hs =>
    exact .of_modifyStrand rfl (Multiset.Subset.refl _) (hs ▸ Multiset.subset_cons _ _) rfl rfl
  | newEngine => exact .of_holdings rfl
  | dropEngine => exact .of_holdings rfl
  | newWatcher hp hf hn =>
    obtain ⟨rfl, hr⟩ := Hub.roster_newWatcher hn
    exact .watcher hp (by rw [hr]) rfl rfl (by rw [hr]) rfl (by rw [hr]) rfl
  | setInterest => exact .of_holdings (by simp [holdings])
  | retire => exact .of_holdings (by simp [holdings])
  | @dropWatcher place i ws hw =>
    have hr := Hub.roster_dropWatcher L.hub i
    exact .strands (by rw [hr]) (fun _ => Or.inl) (fun _ => Or.inl) (by rw [hr])
      (hw ▸ Multiset.subset_cons _ _) (by rw [hr]) (Multiset.Subset.refl _)
  | unasked => exact .of_holdings rfl
  | @newHeartbeat place s hp =>
    have hr := Hub.roster_newHeartbeat L.hub s
    have ht : (L.hub.newHeartbeat s).1 = L.hub.roster.heartbeats.length := by
      simp [Hub.newHeartbeat, Hub.roster]
    exact .heartbeat hp (by rw [hr]) rfl rfl (by rw [hr]) rfl (by rw [hr]) (by rw [ht])
  | setHeartbeat => exact .of_holdings (by simp [holdings])
  | stopHeartbeat => exact .of_holdings (by simp [holdings])
  | @dropHeartbeat place t ts hb =>
    have hr := Hub.roster_dropHeartbeat L.hub t
    exact .strands (by rw [hr]) (fun _ => Or.inl) (fun _ => Or.inl) (by rw [hr])
      (Multiset.Subset.refl _) (by rw [hr]) (hb ▸ Multiset.subset_cons _ _)
  | enter =>
    exact .of_modifyStrand rfl (Multiset.Subset.refl _) (Multiset.Subset.refl _) rfl rfl
  | leave =>
    exact .of_modifyStrand rfl (Multiset.Subset.refl _) (Multiset.Subset.refl _) rfl rfl
  | takeReady ht =>
    obtain ⟨-, -, -, -, rfl⟩ := Manual.takeReady_some ht
    exact .of_holdings rfl
  | takeTimed ht =>
    obtain ⟨-, -, -, -, rfl⟩ := Manual.takeTimed_some ht
    exact .of_holdings rfl
  | takeParked => exact .of_holdings rfl
  | discard => exact .of_holdings rfl
  | @complete wait ws o hk =>
    have hr := Hub.roster_begin L.hub wait.callback o
    cases hcall : (L.hub.begin wait.callback o).2 with
    | none =>
      rw [hcall] at hr
      exact .of_holdings (by rw [holdings, hr]; rfl)
    | some call =>
      rw [hcall] at hr
      exact .of_modifyCall (by rw [holdings, hr]; rfl)
  | register hr => exact .of_register hr
  | armBare => exact .of_holdings rfl
  | release => exact .of_holdings rfl
  | newTimer =>
    exact .strands le_rfl (fun _ => Or.inl) (fun _ => Or.inl) rfl (Multiset.Subset.refl _) rfl
      (Multiset.Subset.refl _)
  | scheduleBare => exact .of_holdings rfl
  | cancelBare => exact .of_holdings rfl
  | dropTimer => exact .of_holdings rfl

theorem makes_finish (L : Ledger) (call : Call) (cs : List Call) : Makes L (L.finish call cs) :=
  .of_modifyCall (Owned.holdings_finish L call cs)

section Kept
variable {i s t : Nat}

theorem strands_of_makes (hm : Makes L L') :
    L.hub.roster.strands.length ≤ L'.hub.roster.strands.length := by
  cases hm with
  | strands hlt => exact hlt
  | watcher _ hlen => exact (congrArg List.length hlen).ge
  | heartbeat _ hlen => exact (congrArg List.length hlen).ge

/-- Watchers keep their registrations and their strands. -/
theorem watched_of_makes (hm : Makes L L') : L.hub.roster.watched <+: L'.hub.roster.watched := by
  cases hm with
  | strands _ _ _ hwatched _ _ _ => exact hwatched ▸ List.prefix_rfl
  | watcher _ _ _ _ hwatched _ _ _ => exact hwatched ▸ List.prefix_append _ _
  | heartbeat _ _ _ _ hwatched _ _ _ => exact hwatched ▸ List.prefix_rfl

/-- A watcher that is held was held in the same place before, or it is new. -/
theorem place_watcher_of_makes (hm : Makes L L') {place : Option (Nat × Fd)}
    (h : (place, i) ∈ L'.watchers) :
    (place, i) ∈ L.watchers ∨ i = L.hub.roster.watchers.length := by
  cases hm with
  | strands _ _ _ _ hw _ _ => exact Or.inl (hw h)
  | watcher _ _ _ _ _ hw _ _ =>
    rw [hw] at h
    exact (Multiset.mem_cons.mp h).symm.imp id fun heq => (Prod.mk.inj heq).2
  | heartbeat _ _ _ _ _ hw _ _ => exact Or.inl (hw ▸ h)

theorem watcher_of_makes (hm : Makes L L') (h : i ∈ L'.watchers.map (·.2)) :
    i ∈ L.watchers.map (·.2) ∨ i = L.hub.roster.watchers.length := by
  obtain ⟨⟨place, j⟩, hmem, rfl⟩ := Multiset.mem_map.mp h
  exact (place_watcher_of_makes hm hmem).imp (Multiset.mem_map_of_mem _) id

/-- A handler that is alive was so before, or its strand is new. -/
theorem handlers_of_makes (hm : Makes L L') (hs : s ∈ L'.handlers) :
    s ∈ L.handlers ∨ s = L.hub.roster.strands.length := by
  cases hm with
  | strands _ hh _ _ _ _ _ => exact hh s hs
  | watcher _ _ hh _ _ _ _ _ => exact Or.inl (hh ▸ hs)
  | heartbeat _ _ hh _ _ _ _ _ => exact Or.inl (hh ▸ hs)

/-- Heartbeats keep their timers and their strands. -/
theorem timed_of_makes (hm : Makes L L') : L.hub.roster.timed <+: L'.hub.roster.timed := by
  cases hm with
  | strands _ _ _ _ _ htimed _ => exact htimed ▸ List.prefix_rfl
  | watcher _ _ _ _ _ _ htimed _ => exact htimed ▸ List.prefix_rfl
  | heartbeat _ _ _ _ _ _ htimed _ => exact htimed ▸ List.prefix_append _ _

theorem strandOf?_heartbeat_of_makes (hm : Makes L L')
    (h : L.hub.strandOf? (.heartbeat t) = some s) : L'.hub.strandOf? (.heartbeat t) = some s := by
  rw [Hub.strandOf?_heartbeat] at h ⊢
  obtain ⟨x, hx, heq⟩ := Option.map_eq_some_iff.mp h
  exact Option.map_eq_some_iff.mpr ⟨x, getElem?_of_prefix (timed_of_makes hm) hx, heq⟩

end Kept

/-- Nothing that is on its own belongs to a strand, and once it is dropped nothing that is held. -/
def Foreign {P A : Type} (s : Nat) (dropped : Bool) (things : Multiset (Option P × Nat))
    (titles : List (A × Nat)) : Prop :=
  ∀ e ∈ things, e.1 = none ∨ dropped = true → ∀ x ∈ titles[e.2]?, x.2 ≠ s

theorem Foreign.push {P A : Type} {s s' : Nat} {dropped : Bool}
    {things : Multiset (Option P × Nat)} {titles : List (A × Nat)} {place : Option P} {a : A}
    {l : List Presence} (h : Foreign s dropped things titles) (hlen : titles.length = l.length)
    (hlt : ∀ e ∈ things, e.2 < l.length) (hs : place = none ∨ dropped = true → s' ≠ s) :
    Foreign s dropped ((place, l.length) ::ₘ things) (titles ++ [(a, s')]) := by
  intro e he hd x hx
  rcases Multiset.mem_cons.mp he with rfl | he
  · dsimp only at hx
    rw [← hlen, List.getElem?_concat_length] at hx
    cases hx
    exact hs hd
  · have hlt' := hlt e he
    rw [← hlen] at hlt'
    rw [List.getElem?_append_left hlt'] at hx
    exact h e he hd x hx

private theorem strand_of_push {A : Type} {s s' : Nat} {titles : List (A × Nat)} {a : A} {i : Nat}
    (h : (titles ++ [(a, s')])[i]?.map (·.2) = some s) (hs : s' ≠ s) :
    titles[i]?.map (·.2) = some s := by
  obtain ⟨x, hx, heq⟩ := Option.map_eq_some_iff.mp h
  rw [List.getElem?_append] at hx
  split at hx
  · exact Option.map_eq_some_iff.mpr ⟨x, hx, heq⟩
  · rw [List.getElem?_singleton] at hx
    split at hx
    · cases hx
      exact absurd heq hs
    · cases hx

/-- The strand of a handler: what is on its own does not share it, and nothing else does once the
handler was dropped. -/
structure Private (s : Nat) (dropped : Bool) (L : Ledger) : Prop where
  lt : s < L.hub.roster.strands.length
  strands : s ∉ L.strands
  handlers : dropped = true → s ∉ L.handlers
  watchers : Foreign s dropped L.watchers L.hub.roster.watched
  heartbeats : Foreign s dropped L.heartbeats L.hub.roster.timed

namespace Private
variable {s : Nat} {dropped : Bool}

/-- What is made for a strand is not made for one that no one has. -/
theorem ne_of_holder {P : Type} (h : Private s dropped L) {place : Option P} {p : P} {s' : Nat}
    (hp : place = some p ∧ s' ∈ L.handlers ∨ place = none ∧ s' ∈ L.strands)
    (hd : place = none ∨ dropped = true) : s' ≠ s := by
  rintro rfl
  rcases hp with ⟨rfl, hs⟩ | ⟨-, hs⟩
  · rcases hd with hd | hd
    · cases hd
    · exact h.handlers hd hs
  · exact h.strands hs

theorem makes (hm : Makes L L') (ho : Owned L) (h : Private s dropped L) :
    Private s dropped L' := by
  cases hm with
  | strands hlt hh hs hwatched hw htimed hb =>
    constructor
    · exact h.lt.trans_le hlt
    · intro hmem
      rcases hs s hmem with hmem | rfl
      · exact h.strands hmem
      · exact h.lt.false
    · intro hd hmem
      rcases hh s hmem with hmem | rfl
      · exact h.handlers hd hmem
      · exact h.lt.false
    · rw [hwatched]
      exact fun e he => h.watchers e (hw he)
    · rw [htimed]
      exact fun e he => h.heartbeats e (hb he)
  | watcher hp hlen hh hs hwatched hw htimed hb =>
    refine ⟨hlen ▸ h.lt, hs ▸ h.strands, hh ▸ h.handlers, ?_, htimed ▸ hb ▸ h.heartbeats⟩
    rw [hw, hwatched]
    refine h.watchers.push ho.watchers.length_eq ?_ (h.ne_of_holder hp)
    exact fun e he => ho.watchers.holds.lt (Multiset.mem_map_of_mem _ he)
  | heartbeat hp hlen hh hs hwatched hw htimed hb =>
    refine ⟨hlen ▸ h.lt, hs ▸ h.strands, hh ▸ h.handlers, hwatched ▸ hw ▸ h.watchers, ?_⟩
    rw [hb, htimed]
    refine h.heartbeats.push ho.heartbeats.length_eq ?_ (h.ne_of_holder hp)
    exact fun e he => ho.heartbeats.holds.lt (Multiset.mem_map_of_mem _ he)

/-- A handler that was dropped gets no new parts. -/
theorem strandOf?_of_makes (hm : Makes L L') (h : Private s true L) {p : Part}
    (hp : L'.hub.strandOf? p = some s) : L.hub.strandOf? p = some s := by
  cases hm with
  | strands hlt hh hs hwatched hw htimed hb => rwa [Hub.strandOf?_congr hwatched htimed] at hp
  | @watcher place s' fd r hplace hlen hh hs hwatched hw htimed hb =>
    cases p with
    | heartbeat t =>
      rw [Hub.strandOf?_heartbeat, htimed] at hp
      rwa [Hub.strandOf?_heartbeat]
    | watcher i =>
      rw [Hub.strandOf?_watcher, hwatched] at hp
      rw [Hub.strandOf?_watcher]
      exact strand_of_push hp (h.ne_of_holder hplace (Or.inr rfl))
  | @heartbeat place s' timer hplace hlen hh hs hwatched hw htimed hb =>
    cases p with
    | watcher i =>
      rw [Hub.strandOf?_watcher, hwatched] at hp
      rwa [Hub.strandOf?_watcher]
    | heartbeat t =>
      rw [Hub.strandOf?_heartbeat, htimed] at hp
      rw [Hub.strandOf?_heartbeat]
      exact strand_of_push hp (h.ne_of_holder hplace (Or.inr rfl))

/-- No part of a handler that was dropped is held. -/
theorem strandOf?_ne (h : Private s true L) {p : Part} (hp : p ∈ L.parts) :
    L.hub.strandOf? p ≠ some s := by
  intro hs
  rcases Multiset.mem_add.mp hp with hmem | hmem
  · obtain ⟨e, he, rfl⟩ := Multiset.mem_map.mp hmem
    rw [Hub.strandOf?_watcher] at hs
    obtain ⟨x, hx, heq⟩ := Option.map_eq_some_iff.mp hs
    exact h.watchers e he (Or.inr rfl) x hx heq
  · obtain ⟨e, he, rfl⟩ := Multiset.mem_map.mp hmem
    rw [Hub.strandOf?_heartbeat] at hs
    obtain ⟨x, hx, heq⟩ := Option.map_eq_some_iff.mp hs
    exact h.heartbeats e he (Or.inr rfl) x hx heq

end Private
end Ledger
end Scenario
end Wakeup
