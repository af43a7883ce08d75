import Wakeup.Proofs.Roster
import Wakeup.Proofs.Steps

/-! Whatever is kept is held once: by a handler, or on its own. A reactor never uses an id twice. -/
namespace Wakeup

namespace Presence

@[simp] theorem kept_acquire (p : Presence) : p.acquire.kept = p.kept := rfl

@[simp] theorem kept_release (p : Presence) : p.release.kept = p.kept := rfl

theorem any_alive_of_kept {o : Option Presence} (h : o.any kept = true) : o.any alive = true := by
  cases o with
  | none => cases h
  | some p =>
    rw [Option.any_some] at h
    simp [alive, h]

end Presence

/-- Names are held once each, and those held are the names of what is kept. -/
structure Holds (names : Multiset Nat) (l : List Presence) : Prop where
  nodup : names.Nodup
  mem_iff : ∀ i, i ∈ names ↔ l[i]?.any Presence.kept = true

namespace Holds
variable {names : Multiset Nat} {l : List Presence} {i : Nat}

theorem lt (h : Holds names l) (hi : i ∈ names) : i < l.length := by
  rw [h.mem_iff] at hi
  by_contra hlt
  rw [List.getElem?_eq_none (by omega)] at hi
  cases hi

theorem empty : Holds 0 [] :=
  ⟨Multiset.nodup_zero, fun i => ⟨fun hi => absurd hi (Multiset.notMem_zero i), nofun⟩⟩

theorem push (h : Holds names l) : Holds (l.length ::ₘ names) (l ++ [({} : Presence)]) := by
  have hnew : l.length ∉ names := fun hi => (h.lt hi).false
  refine ⟨Multiset.nodup_cons.mpr ⟨hnew, h.nodup⟩, ?_⟩
  intro j
  rw [Multiset.mem_cons, h.mem_iff, List.getElem?_append]
  split
  · rename_i hj
    constructor
    · rintro (rfl | hk)
      · omega
      · exact hk
    · exact Or.inr
  · rename_i hj
    rw [List.getElem?_eq_none (by omega)]
    constructor
    · rintro (rfl | hk)
      · simp
      · cases hk
    · intro hk
      by_cases heq : j = l.length
      · exact Or.inl heq
      · rw [List.getElem?_eq_none (by simp; omega)] at hk
        cases hk

theorem drop (h : Holds (i ::ₘ names) l) : Holds names (l.modify i .disown) := by
  obtain ⟨hnew, hnodup⟩ := Multiset.nodup_cons.mp h.nodup
  refine ⟨hnodup, ?_⟩
  intro j
  have hj := h.mem_iff j
  rw [Multiset.mem_cons] at hj
  rw [List.getElem?_modify]
  by_cases heq : i = j
  · subst heq
    cases l[i]? <;> simp [hnew, Presence.disown]
  · have hne : ¬j = i := fun hji => heq hji.symm
    simpa [heq, hne] using hj

theorem modify {f : Presence → Presence} (hf : ∀ p, (f p).kept = p.kept) (h : Holds names l)
    (i : Nat) : Holds names (l.modify i f) := by
  refine ⟨h.nodup, ?_⟩
  intro j
  rw [h.mem_iff, List.getElem?_modify]
  by_cases heq : i = j
  · subst heq
    cases l[i]? <;> simp [hf]
  · simp [heq]

end Holds

/-- Things are held once each, under a place that fits or on their own. What is on its own does not
belong to a handler. Each thing has a title, of which the second part is its strand. -/
structure Custody {P A : Type} (fits : P → A × Nat → Prop) (handlers : Multiset Nat) (strands : Nat)
    (things : Multiset (Option P × Nat)) (presences : List Presence) (titles : List (A × Nat)) :
    Prop where
  holds : Holds (things.map (·.2)) presences
  length_eq : titles.length = presences.length
  placed : ∀ {p : P} {i : Nat}, (some p, i) ∈ things → ∀ x ∈ titles[i]?, fits p x
  alone : ∀ {i : Nat}, (none, i) ∈ things → ∀ x ∈ titles[i]?, x.2 ∉ handlers
  strand_lt : ∀ x ∈ titles, x.2 < strands

namespace Custody
variable {P A : Type} {fits : P → A × Nat → Prop} {handlers : Multiset Nat} {strands : Nat}
  {things : Multiset (Option P × Nat)} {presences : List Presence} {titles : List (A × Nat)}
  {place : Option P} {i : Nat}

theorem empty : Custody fits handlers strands 0 [] [] where
  holds := .empty
  length_eq := rfl
  placed := fun hmem => absurd hmem (Multiset.notMem_zero _)
  alone := fun hmem => absurd hmem (Multiset.notMem_zero _)
  strand_lt := nofun

theorem push (h : Custody fits handlers strands things presences titles) {x : A × Nat}
    (hp : (∃ p, place = some p ∧ fits p x) ∨ place = none ∧ x.2 ∉ handlers) (hx : x.2 < strands) :
    Custody fits handlers strands ((place, presences.length) ::ₘ things)
      (presences ++ [({} : Presence)]) (titles ++ [x]) := by
  have hlast : ∀ y ∈ (titles ++ [x])[presences.length]?, y = x := by
    intro y hy
    rw [← h.length_eq, List.getElem?_concat_length] at hy
    exact (Option.some.inj hy).symm
  have hold : ∀ {p : Option P} {j : Nat}, (p, j) ∈ things → (titles ++ [x])[j]? = titles[j]? := by
    intro p j hmem
    have hlt := h.holds.lt (Multiset.mem_map_of_mem _ hmem)
    rw [← h.length_eq] at hlt
    exact List.getElem?_append_left hlt
  constructor
  · rw [Multiset.map_cons]
    exact h.holds.push
  · simp [h.length_eq]
  · intro p j hmem y hy
    rcases Multiset.mem_cons.mp hmem with heq | hmem
    · cases heq
      rw [hlast y hy]
      rcases hp with ⟨q, hq, hfits⟩ | ⟨hq, -⟩
      · cases hq
        exact hfits
      · cases hq
    · rw [hold hmem] at hy
      exact h.placed hmem y hy
  · intro j hmem y hy
    rcases Multiset.mem_cons.mp hmem with heq | hmem
    · cases heq
      rw [hlast y hy]
      rcases hp with ⟨q, hq, -⟩ | ⟨-, hx⟩
      · cases hq
      · exact hx
    · rw [hold hmem] at hy
      exact h.alone hmem y hy
  · intro y hy
    rcases List.mem_append.mp hy with hy | hy
    · exact h.strand_lt y hy
    · rw [List.mem_singleton.mp hy]
      exact hx

theorem drop (h : Custody fits handlers strands ((place, i) ::ₘ things) presences titles) :
    Custody fits handlers strands things (presences.modify i .disown) titles := by
  have hholds := h.holds
  rw [Multiset.map_cons] at hholds
  refine { h with
    holds := hholds.drop
    length_eq := ?_
    placed := fun hmem => h.placed (Multiset.mem_cons_of_mem hmem)
    alone := fun hmem => h.alone (Multiset.mem_cons_of_mem hmem) }
  rw [List.length_modify]
  exact h.length_eq

private theorem modify (h : Custody fits handlers strands things presences titles)
    {f : Presence → Presence} (hf : ∀ p, (f p).kept = p.kept) (i : Nat) :
    Custody fits handlers strands things (presences.modify i f) titles := by
  refine { h with holds := h.holds.modify hf i, length_eq := ?_ }
  rw [List.length_modify]
  exact h.length_eq

/-- Handlers may go, and strands may come. -/
theorem mono (h : Custody fits handlers strands things presences titles)
    {handlers' : Multiset Nat} {strands' : Nat} (hs : strands ≤ strands')
    (hh : ∀ s ∈ handlers', s < strands → s ∈ handlers) :
    Custody fits handlers' strands' things presences titles := by
  refine { h with alone := ?_, strand_lt := fun x hx => (h.strand_lt x hx).trans_le hs }
  intro j hmem x hx hmem'
  have hlt := h.strand_lt x (List.mem_of_getElem? hx)
  exact h.alone hmem x hx (hh x.2 hmem' hlt)

end Custody

namespace Scenario
open Config

namespace Ledger

/-- All ids that a reactor gave out, but for those whose holders were dropped. -/
def ids (L : Ledger) : Multiset Nat :=
  ↑(L.hub.roster.watched.map (·.1.id)) + L.registrations.map (·.id) +
    (↑(L.hub.roster.timed.map (·.1)) + L.timers)

/-- What there is of strands, watchers and heartbeats, and who holds it. -/
def holdings (L : Ledger) : Roster × Multiset Nat × Multiset Nat ×
    Multiset (Option (Nat × Fd) × Nat) × Multiset (Option Nat × Nat) :=
  (L.hub.roster, L.handlers, L.strands, L.watchers, L.heartbeats)

theorem fields_of_holdings {L L' : Ledger} {R : Roster} (h : L'.holdings = (R, L.holdings.2)) :
    L'.hub.roster = R ∧ L'.handlers = L.handlers ∧ L'.strands = L.strands ∧
      L'.watchers = L.watchers ∧ L'.heartbeats = L.heartbeats := by
  simpa only [holdings, Prod.mk.injEq] using h

structure Owned (L : Ledger) : Prop where
  strands : Holds (L.handlers + L.strands) L.hub.roster.strands
  watchers : Custody (fun p x => x.1.fd = p.2 ∧ x.2 = p.1) L.handlers L.hub.roster.strands.length
    L.watchers L.hub.roster.watchers L.hub.roster.watched
  heartbeats : Custody (fun p x => x.2 = p) L.handlers L.hub.roster.strands.length
    L.heartbeats L.hub.roster.heartbeats L.hub.roster.timed
  ids_nodup : L.ids.Nodup
  ids_lt : ∀ id ∈ L.ids, id < L.hub.roster.nextId

namespace Owned
variable {L L' : Ledger} {s : Nat}

/-- Interest, schedules and waits do not matter. -/
theorem of_holdings (h : Owned L) (heq : L'.holdings = L.holdings) (hids : L'.ids ≤ L.ids) :
    Owned L' := by
  obtain ⟨hr, hh, hs, hw, hb⟩ := fields_of_holdings heq
  constructor
  · rw [hh, hs, hr]
    exact h.strands
  · rw [hw, hr, hh]
    exact h.watchers
  · rw [hb, hr, hh]
    exact h.heartbeats
  · exact Multiset.nodup_of_le hids h.ids_nodup
  · rw [hr]
    exact fun id hid => h.ids_lt id (Multiset.mem_of_le hids hid)

theorem nodup_handlers (h : Owned L) : L.handlers.Nodup :=
  (Multiset.nodup_add.mp h.strands.nodup).1

theorem not_mem_handlers (h : Owned L) (hs : s ∈ L.strands) : s ∉ L.handlers :=
  fun hh => Multiset.disjoint_left.mp (Multiset.nodup_add.mp h.strands.nodup).2.2 hh hs

theorem strand_lt (h : Owned L) (hs : s ∈ L.handlers ∨ s ∈ L.strands) :
    s < L.hub.roster.strands.length :=
  h.strands.lt (Multiset.mem_add.mpr hs)

/-- The strand of a handler that is alive lasts. -/
theorem strandAlive_of_mem (h : Owned L) (hs : s ∈ L.handlers) :
    L.hub.strandAlive s = true :=
  Presence.any_alive_of_kept ((h.strands.mem_iff s).mp (Multiset.mem_add.mpr (Or.inl hs)))

theorem newHandler (h : Owned L) : Owned
    { L with hub := L.hub.newStrand.2, handlers := L.hub.newStrand.1 ::ₘ L.handlers } := by
  have hlt : L.hub.roster.strands.length ≤ L.hub.newStrand.2.roster.strands.length := by
    simp [Hub.roster_newStrand]
  have hold : ∀ s ∈ L.hub.newStrand.1 ::ₘ L.handlers, s < L.hub.roster.strands.length →
      s ∈ L.handlers := by
    intro s hs hlt
    rcases Multiset.mem_cons.mp hs with rfl | hs
    · exact absurd hlt (lt_irrefl _)
    · exact hs
  refine { h with
    strands := ?_
    watchers := h.watchers.mono hlt hold
    heartbeats := h.heartbeats.mono hlt hold }
  have hp := h.strands.push
  rw [← Multiset.cons_add] at hp
  exact hp

private theorem newStrand (h : Owned L) : Owned
    { L with hub := L.hub.newStrand.2, strands := L.hub.newStrand.1 ::ₘ L.strands } := by
  have hlt : L.hub.roster.strands.length ≤ L.hub.newStrand.2.roster.strands.length := by
    simp [Hub.roster_newStrand]
  refine { h with
    strands := ?_
    watchers := h.watchers.mono hlt fun s hs _ => hs
    heartbeats := h.heartbeats.mono hlt fun s hs _ => hs }
  have hp := h.strands.push
  rw [← Multiset.add_cons] at hp
  exact hp

private theorem dropHandler (h : Owned L) {hs : Multiset Nat} (hh : L.handlers = s ::ₘ hs) :
    Owned { L with hub := L.hub.dropStrand s, handlers := hs } := by
  have hle : L.hub.roster.strands.length ≤ (L.hub.dropStrand s).roster.strands.length := by
    rw [Hub.dropStrand, Hub.roster_modifyStrand, List.length_modify]
  have hsub : ∀ s ∈ hs, s < L.hub.roster.strands.length → s ∈ L.handlers := by
    intro s hs _
    rw [hh]
    exact Multiset.mem_cons_of_mem hs
  refine { h with
    strands := ?_
    watchers := h.watchers.mono hle hsub
    heartbeats := h.heartbeats.mono hle hsub }
  have hd := h.strands
  rw [hh, Multiset.cons_add] at hd
  exact hd.drop

private theorem dropStrand (h : Owned L) {ss : Multiset Nat} (hs : L.strands = s ::ₘ ss) :
    Owned { L with hub := L.hub.dropStrand s, strands := ss } := by
  have hle : L.hub.roster.strands.length ≤ (L.hub.dropStrand s).roster.strands.length := by
    rw [Hub.dropStrand, Hub.roster_modifyStrand, List.length_modify]
  refine { h with
    strands := ?_
    watchers := h.watchers.mono hle fun s hs _ => hs
    heartbeats := h.heartbeats.mono hle fun s hs _ => hs }
  have hd := h.strands
  rw [hs, Multiset.add_cons] at hd
  exact hd.drop

theorem coe_concat (l : List Nat) (a : Nat) : (↑(l ++ [a]) : Multiset Nat) = a ::ₘ ↑l := by
  rw [← Multiset.coe_add, Multiset.coe_singleton, Multiset.add_comm, Multiset.singleton_add]

/-- A reactor gives out the next id. -/
theorem ids_cons (h : Owned L) (L' : Ledger) (heq : L'.ids = L.hub.roster.nextId ::ₘ L.ids)
    (hnext : L'.hub.roster.nextId = L.hub.roster.nextId + 1) :
    L'.ids.Nodup ∧ ∀ id ∈ L'.ids, id < L'.hub.roster.nextId := by
  rw [heq, hnext]
  refine ⟨Multiset.nodup_cons.mpr ⟨fun hmem => (h.ids_lt _ hmem).false, h.ids_nodup⟩, ?_⟩
  intro id hid
  rcases Multiset.mem_cons.mp hid with rfl | hid
  · exact Nat.lt_succ_self _
  · exact Nat.lt_succ_of_lt (h.ids_lt id hid)

private theorem newWatcher (h : Owned L) {place : Option (Nat × Fd)} {fd : Fd} {i : Nat}
    {hub : Hub Manual}
    (hp : place = some (s, fd) ∧ s ∈ L.handlers ∨ place = none ∧ s ∈ L.strands)
    (hn : L.hub.newWatcher s fd = (.ok i, hub)) :
    Owned { L with hub := hub, watchers := (place, i) ::ₘ L.watchers } := by
  obtain ⟨hi, hr⟩ := Hub.roster_newWatcher hn
  have hs : s < L.hub.roster.strands.length := h.strand_lt (hp.imp (·.2) (·.2))
  obtain ⟨hnodup, hlt⟩ := h.ids_cons
    { L with hub := hub, watchers := (place, i) ::ₘ L.watchers }
    (by simp only [ids, hr, List.map_append, List.map_cons, List.map_nil, coe_concat,
      Multiset.cons_add])
    (by rw [hr])
  refine ⟨?_, ?_, ?_, hnodup, hlt⟩
  · rw [hr]
    exact h.strands
  · rw [hr, hi]
    refine h.watchers.push ?_ hs
    rcases hp with ⟨rfl, -⟩ | ⟨rfl, hs⟩
    · exact Or.inl ⟨_, rfl, rfl, rfl⟩
    · exact Or.inr ⟨rfl, h.not_mem_handlers hs⟩
  · rw [hr]
    exact h.heartbeats

private theorem dropWatcher (h : Owned L) {place : Option (Nat × Fd)} {i : Nat}
    {ws : Multiset (Option (Nat × Fd) × Nat)} (hw : L.watchers = (place, i) ::ₘ ws) :
    Owned { L with hub := L.hub.dropWatcher i, watchers := ws } := by
  have hr := Hub.roster_dropWatcher L.hub i
  have hids : ids { L with hub := L.hub.dropWatcher i, watchers := ws } = L.ids := by
    simp [ids, hr]
  constructor
  · rw [hr]
    exact h.strands
  · rw [hr]
    have hd := h.watchers
    rw [hw] at hd
    exact hd.drop
  · rw [hr]
    exact h.heartbeats
  · rw [hids]
    exact h.ids_nodup
  · rw [hids, hr]
    exact h.ids_lt

private theorem newHeartbeat (h : Owned L) {place : Option Nat}
    (hp : place = some s ∧ s ∈ L.handlers ∨ place = none ∧ s ∈ L.strands) :
    Owned { L with
      hub := (L.hub.newHeartbeat s).2
      heartbeats := (place, (L.hub.newHeartbeat s).1) ::ₘ L.heartbeats } := by
  have hr := Hub.roster_newHeartbeat L.hub s
  have ht : (L.hub.newHeartbeat s).1 = L.hub.roster.heartbeats.length := by
    simp [Hub.newHeartbeat, Hub.roster]
  have hs : s < L.hub.roster.strands.length := h.strand_lt (hp.imp (·.2) (·.2))
  obtain ⟨hnodup, hlt⟩ := h.ids_cons
    { L with
      hub := (L.hub.newHeartbeat s).2
      heartbeats := (place, (L.hub.newHeartbeat s).1) ::ₘ L.heartbeats }
    (by simp only [ids, hr, List.map_append, List.map_cons, List.map_nil, coe_concat,
      Multiset.cons_add, Multiset.add_cons])
    (by rw [hr])
  refine ⟨?_, ?_, ?_, hnodup, hlt⟩
  · rw [hr]
    exact h.strands
  · rw [hr]
    exact h.watchers
  · rw [hr, ht]
    refine h.heartbeats.push ?_ hs
    rcases hp with ⟨rfl, -⟩ | ⟨rfl, hs⟩
    · exact Or.inl ⟨_, rfl, rfl⟩
    · exact Or.inr ⟨rfl, h.not_mem_handlers hs⟩

private theorem dropHeartbeat (h : Owned L) {place : Option Nat} {t : Nat}
    {ts : Multiset (Option Nat × Nat)} (hb : L.heartbeats = (place, t) ::ₘ ts) :
    Owned { L with hub := L.hub.dropHeartbeat t, heartbeats := ts } := by
  have hr := Hub.roster_dropHeartbeat L.hub t
  have hids : ids { L with hub := L.hub.dropHeartbeat t, heartbeats := ts } = L.ids := by
    simp [ids, hr]
  constructor
  · rw [hr]
    exact h.strands
  · rw [hr]
    exact h.watchers
  · rw [hr]
    have hd := h.heartbeats
    rw [hb] at hd
    exact hd.drop
  · rw [hids]
    exact h.ids_nodup
  · rw [hids, hr]
    exact h.ids_lt

/-- Using a strand more or less does not matter. -/
theorem modifyStrand (h : Owned L) {f : Presence → Presence} (hf : ∀ p, (f p).kept = p.kept)
    (s : Nat) (ss : Multiset Nat) :
    Owned { L with hub := L.hub.modifyStrand s f, inside := ss } := by
  have hle : L.hub.roster.strands.length ≤ (L.hub.modifyStrand s f).roster.strands.length := by
    rw [Hub.roster_modifyStrand, List.length_modify]
  exact { h with
    strands := h.strands.modify hf s
    watchers := h.watchers.mono hle fun s hs _ => hs
    heartbeats := h.heartbeats.mono hle fun s hs _ => hs }

/-- Calls use their strands and their owners, which does not matter. -/
theorem of_modifyCall (h : Owned L) {call : Call} {f : Presence → Presence}
    (hf : ∀ p, (f p).kept = p.kept)
    (heq : L'.holdings = (L.hub.roster.modifyCall call f, L.holdings.2))
    (hre : L'.registrations = L.registrations) (ht : L'.timers = L.timers) : Owned L' := by
  obtain ⟨hr, hh, hs, hw, hb⟩ := fields_of_holdings heq
  have hstrands := h.strands.modify hf call.strand
  have hle : L.hub.roster.strands.length ≤
      (L.hub.roster.strands.modify call.strand f).length := by rw [List.length_modify]
  have hwatchers := h.watchers.mono hle fun s hs _ => hs
  have hheartbeats := h.heartbeats.mono hle fun s hs _ => hs
  have hids : L'.ids = L.ids ∧ L'.hub.roster.nextId = L.hub.roster.nextId := by
    unfold ids
    rw [hr, hre, ht]
    obtain ⟨owner, s, e, notice⟩ := call
    cases owner <;> exact ⟨rfl, rfl⟩
  constructor
  · rw [hr, hh, hs]
    exact hstrands
  · rw [hr, hh, hw]
    obtain ⟨owner, s, e, notice⟩ := call
    cases owner with
    | watcher i d => exact hwatchers.modify hf i
    | heartbeat t generation => exact hwatchers
  · rw [hr, hh, hb]
    obtain ⟨owner, s, e, notice⟩ := call
    cases owner with
    | watcher i d => exact hheartbeats
    | heartbeat t generation => exact hheartbeats.modify hf t
  · rw [hids.1]
    exact h.ids_nodup
  · rw [hids.1, hids.2]
    exact h.ids_lt

private theorem complete (h : Owned L) (wait : Wait) (o : Outcome) (ws : Multiset Wait)
    (log : List Event) :
    Owned { L with
      hub := (L.hub.begin wait.callback o).1
      kept := ws
      calls := (L.hub.begin wait.callback o).2.toList ++ L.calls
      log := log } := by
  have hr := Hub.roster_begin L.hub wait.callback o
  cases hcall : (L.hub.begin wait.callback o).2 with
  | none =>
    rw [hcall] at hr
    have hids : ids { L with hub := (L.hub.begin wait.callback o).1 } = L.ids := by
      unfold ids
      rw [hr]
    exact h.of_holdings (by rw [holdings, hr]; rfl) hids.le
  | some call =>
    rw [hcall] at hr
    exact h.of_modifyCall Presence.kept_acquire (by rw [holdings, hr]; rfl) rfl rfl

private theorem register (h : Owned L) {fd : Fd} {r : Registration} {m : Manual}
    (hr : L.hub.reactor.register fd = (.ok r, m)) :
    Owned { L.setReactor m with registrations := r ::ₘ L.registrations } := by
  obtain ⟨rfl, hm⟩ := Manual.register_ok hr
  have hnext : m.nextId = L.hub.reactor.nextId + 1 := by rw [hm]
  obtain ⟨hnodup, hlt⟩ := h.ids_cons
    { L.setReactor m with registrations := ⟨L.hub.reactor.nextId, fd⟩ ::ₘ L.registrations }
    (by
      unfold ids
      rw [Multiset.map_cons, Multiset.add_cons, Multiset.cons_add]
      rfl)
    hnext
  exact { h with ids_nodup := hnodup, ids_lt := hlt }

private theorem newTimer (h : Owned L) : Owned { L.setReactor L.hub.reactor.newTimer.2 with
    timers := L.hub.reactor.newTimer.1 ::ₘ L.timers } := by
  obtain ⟨hnodup, hlt⟩ := h.ids_cons
    { L.setReactor L.hub.reactor.newTimer.2 with
      timers := L.hub.reactor.newTimer.1 ::ₘ L.timers }
    (by
      unfold ids
      rw [Multiset.add_cons, Multiset.add_cons]
      rfl)
    rfl
  exact { h with ids_nodup := hnodup, ids_lt := hlt }

theorem move (hm : Move L L') (h : Owned L) : Owned L' := by
  cases hm with
  | advance => exact h.of_holdings rfl le_rfl
  | refuse => exact h.of_holdings rfl le_rfl
  | @refused fd err m hr =>
    rw [Manual.register_error hr]
    exact h.of_holdings rfl le_rfl
  | newHandler => exact h.newHandler
  | dropHandler hh => exact h.dropHandler hh
  | newStrand => exact h.newStrand
  | dropStrand hs => exact h.dropStrand hs
  | newEngine => exact h.of_holdings rfl le_rfl
  | dropEngine => exact h.of_holdings rfl le_rfl
  | newWatcher hp hf hn => exact h.newWatcher hp hn
  | setInterest => exact h.of_holdings (by simp [holdings]) (by simp [ids])
  | retire => exact h.of_holdings (by simp [holdings]) (by simp [ids])
  | dropWatcher hw => exact h.dropWatcher hw
  | unasked => exact h.of_holdings rfl le_rfl
  | newHeartbeat hp => exact h.newHeartbeat hp
  | setHeartbeat => exact h.of_holdings (by simp [holdings]) (by simp [ids])
  | stopHeartbeat => exact h.of_holdings (by simp [holdings]) (by simp [ids])
  | dropHeartbeat hb => exact h.dropHeartbeat hb
  | enter => exact h.modifyStrand Presence.kept_acquire _ _
  | leave => exact h.modifyStrand Presence.kept_release _ _
  | takeReady ht =>
    obtain ⟨-, -, -, -, rfl⟩ := Manual.takeReady_some ht
    exact h.of_holdings rfl le_rfl
  | takeTimed ht =>
    obtain ⟨-, -, -, -, rfl⟩ := Manual.takeTimed_some ht
    exact h.of_holdings rfl le_rfl
  | takeParked => exact h.of_holdings rfl le_rfl
  | discard => exact h.of_holdings rfl le_rfl
  | complete o => exact h.complete _ o _ _
  | register hr => exact h.register hr
  | armBare => exact h.of_holdings rfl le_rfl
  | @release r rs hr =>
    refine h.of_holdings rfl ?_
    unfold ids
    rw [hr, Multiset.map_cons, Multiset.add_cons, Multiset.cons_add]
    exact Multiset.le_cons_self _ _
  | newTimer => exact h.newTimer
  | scheduleBare => exact h.of_holdings rfl le_rfl
  | cancelBare => exact h.of_holdings rfl le_rfl
  | @dropTimer t ts ht =>
    refine h.of_holdings rfl ?_
    unfold ids
    rw [ht, Multiset.add_cons, Multiset.add_cons]
    exact Multiset.le_cons_self _ _

theorem holdings_finish (L : Ledger) (call : Call) (cs : List Call) :
    (L.finish call cs).holdings = (L.hub.roster.modifyCall call .release, L.holdings.2) :=
  congrArg (·, L.holdings.2) (Hub.roster_finish L.hub call)

theorem finish (h : Owned L) (call : Call) (cs : List Call) : Owned (L.finish call cs) :=
  h.of_modifyCall Presence.kept_release (holdings_finish L call cs) rfl rfl

theorem empty : Owned (({} : World).ledger [] [] []) where
  strands := .empty
  watchers := .empty
  heartbeats := .empty
  ids_nodup := Multiset.nodup_zero
  ids_lt := fun id hid => absurd hid (Multiset.notMem_zero id)

end Owned
end Ledger

namespace Config

/-- At every point of every run, what is kept is held once. -/
theorem Reached.owned {c : Config} {log : List Event} (h : Reached c log) :
    (c.ledger log).Owned :=
  h.preserves Ledger.Owned.nodup_handlers Ledger.Owned.move (fun _ h => h.finish _ _)
    Ledger.Owned.empty

/-- How a step advances its ledger. -/
theorem Reached.advance {c c' : Config} {log : List Event} (h : Reached c log)
    (hs : c.step = some c') :
    (c.ledger log).Advance (c'.ledger (c.events.reverse ++ log)) :=
  advance_step h.owned.newHandler.nodup_handlers hs

section Keeps
open Ledger
variable {P : Ledger → Prop} {c c' : Config} {log log' : List Event}

/-- What every move and every end of a call keeps when what is kept is held once, a run keeps. -/
theorem Run.keeps (hr : Reached c log) (h : Run c c' log')
    (hmove : ∀ {L L' : Ledger}, Move L L' → Owned L → P L → P L')
    (hfinish : ∀ {L : Ledger} {call : Call} {cs : List Call}, L.calls = call :: cs → Owned L →
      P L → P (L.finish call cs)) (hP : P (c.ledger log)) : P (c'.ledger (log' ++ log)) := by
  have hboth := Run.preserves (P := fun L => L.Owned ∧ P L) hr h (fun h => h.1.nodup_handlers)
    (fun hm h => ⟨.move hm h.1, hmove hm h.1 h.2⟩)
    (fun hc h => ⟨h.1.finish _ _, hfinish hc h.1 h.2⟩) ⟨hr.owned, hP⟩
  exact hboth.2

theorem Reached.keeps (h : Reached c log)
    (hmove : ∀ {L L' : Ledger}, Move L L' → Owned L → P L → P L')
    (hfinish : ∀ {L : Ledger} {call : Call} {cs : List Call}, L.calls = call :: cs → Owned L →
      P L → P (L.finish call cs)) (hP : P (({} : World).ledger [] [] [])) : P (c.ledger log) := by
  obtain ⟨ops, h⟩ := h
  have hempty : Reached (({} : World).start ops) [] := ⟨ops, .refl⟩
  have hrun := Run.keeps hempty h hmove hfinish hP
  rwa [List.append_nil] at hrun

/-- What moves and ends of calls keep until an event of some kind happens, a run keeps in which no
such event happens. -/
theorem Run.keeps_until {E : Event → Prop} {B : Ledger → Prop} (hr : Reached c log)
    (h : Run c c' log')
    (hmove : ∀ {L L' : Ledger}, Move L L' → Owned L → P L →
      P L' ∧ (B L → B L' ∨ ∃ ev, E ev ∧ L'.log = ev :: L.log))
    (hfinish : ∀ {L : Ledger} {call : Call} {cs : List Call}, L.calls = call :: cs → Owned L →
      P L → P (L.finish call cs) ∧ (B L → B (L.finish call cs)))
    (hP : P (c.ledger log)) (hB : B (c.ledger log)) (hnot : ∀ ev ∈ log', ¬E ev) :
    B (c'.ledger (log' ++ log)) := by
  have hrun := Run.keeps (P := fun L => P L ∧
    ∃ since, L.log = since ++ log ∧ ((∃ ev ∈ since, E ev) ∨ B L)) hr h ?_ ?_
    ⟨hP, [], rfl, Or.inr hB⟩
  · obtain ⟨-, since, hlog, hor⟩ := hrun
    have hsince : since = log' := (List.append_cancel_right hlog).symm
    subst hsince
    rcases hor with ⟨ev, hmem, hev⟩ | hB
    · exact absurd hev (hnot ev hmem)
    · exact hB
  · intro L L' hm ho ⟨hP, since, hlog, hor⟩
    obtain ⟨hP', hB'⟩ := hmove hm ho hP
    obtain ⟨new, hnew⟩ := hm.log_suffix
    refine ⟨hP', new ++ since, by rw [← hnew, hlog, List.append_assoc], ?_⟩
    rcases hor with ⟨ev, hmem, hev⟩ | hB
    · exact Or.inl ⟨ev, List.mem_append_right new hmem, hev⟩
    · rcases hB' hB with hB | ⟨ev, hev, heq⟩
      · exact Or.inr hB
      · have hlast : new = [ev] :=
          List.append_cancel_right (hnew.trans (heq.trans List.singleton_append.symm))
        exact Or.inl ⟨ev, List.mem_append_left _ (hlast ▸ List.mem_singleton_self ev), hev⟩
  · intro L call cs hc ho ⟨hP, since, hlog, hor⟩
    obtain ⟨hP', hB'⟩ := hfinish hc ho hP
    exact ⟨hP', since, hlog, hor.imp id hB'⟩

end Keeps

end Config
end Scenario
end Wakeup
