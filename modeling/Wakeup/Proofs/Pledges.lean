import Wakeup.Proofs.Balance
import Wakeup.Proofs.Deadlines

/-! What was negotiated last is kept. A handler has one heartbeat at most that runs, at the interval
and for the engine that it last accepted. -/
namespace Wakeup.Scenario

namespace Ledger
variable {L L' : Ledger} {s t : Nat}

/-- No two heartbeats are held for one handler. -/
def Lone (L : Ledger) : Prop :=
  ∀ s t t', (some s, t) ∈ L.heartbeats → (some s, t') ∈ L.heartbeats → t = t'

theorem Lone.move (hm : Move L L') (h : Lone L) : Lone L' := by
  cases hm with
  | newHeartbeat hp hf =>
    intro s t t' ht ht'
    rcases Multiset.mem_cons.mp ht with heq | hold
    · cases heq
      rcases Multiset.mem_cons.mp ht' with heq | hold'
      · cases heq
        rfl
      · exact absurd hold' (hf rfl t')
    · rcases Multiset.mem_cons.mp ht' with heq | hold'
      · cases heq
        exact absurd hold (hf rfl t)
      · exact h s t t' hold hold'
  | dropHeartbeat hb =>
    intro s t t' ht ht'
    exact h s t t' (hb ▸ Multiset.mem_cons_of_mem ht) (hb ▸ Multiset.mem_cons_of_mem ht')
  | _ => exact h

/-- A heartbeat of a handler that is alive is held by that handler, if it is held. -/
theorem Owned.mem_heartbeats (ho : Owned L) (hstrand : L.hub.strandOf? (.heartbeat t) = some s)
    (hs : s ∈ L.handlers) (hheld : t ∈ L.heartbeats.map (·.2)) : (some s, t) ∈ L.heartbeats := by
  obtain ⟨⟨place, t'⟩, hmem, ht⟩ := Multiset.mem_map.mp hheld
  have ht' : t' = t := ht
  subst ht'
  rw [Hub.strandOf?_heartbeat] at hstrand
  obtain ⟨x, hx, hxs⟩ := Option.map_eq_some_iff.mp hstrand
  cases place with
  | none => exact absurd hs (hxs ▸ ho.heartbeats.alone hmem x hx)
  | some s' =>
    have hs' : x.2 = s' := ho.heartbeats.placed hmem x hx
    rw [← hxs, hs']
    exact hmem

/-- A heartbeat of a handler that is alive was one before, or it is new and held. -/
theorem strandOf?_of_makes (hm : Makes L L') (ho : Owned L)
    (hstrand : L'.hub.strandOf? (.heartbeat t) = some s) (hs : s ∈ L'.handlers) :
    L.hub.strandOf? (.heartbeat t) = some s ∧ s ∈ L.handlers ∨
      t ∈ L'.heartbeats.map (·.2) := by
  rw [Hub.strandOf?_heartbeat] at hstrand ⊢
  cases hm with
  | strands _ hh _ _ _ htimed _ =>
    rw [htimed] at hstrand
    refine Or.inl ⟨hstrand, (hh s hs).resolve_right ?_⟩
    rintro rfl
    obtain ⟨x, hx, hxs⟩ := Option.map_eq_some_iff.mp hstrand
    have hlt := ho.heartbeats.strand_lt x (List.mem_of_getElem? hx)
    omega
  | watcher _ _ hh _ _ _ htimed _ => exact Or.inl ⟨htimed ▸ hstrand, hh ▸ hs⟩
  | @heartbeat place s' timer hp _ hh _ _ _ htimed hb =>
    by_cases ht : t = L.hub.roster.heartbeats.length
    · right
      rw [hb, Multiset.map_cons, ht]
      exact Multiset.mem_cons_self _ _
    · left
      rw [htimed] at hstrand
      obtain ⟨x, hx, hxs⟩ := Option.map_eq_some_iff.mp hstrand
      rw [← ho.heartbeats.length_eq] at ht
      have hlt := (List.getElem?_eq_some_iff.mp hx).1
      rw [List.length_append, List.length_singleton] at hlt
      rw [List.getElem?_append_left (by omega)] at hx
      exact ⟨Option.map_eq_some_iff.mpr ⟨x, hx, hxs⟩, hh ▸ hs⟩

/-- Of the heartbeats that a handler which is alive has given up, no beats are expected. -/
def Idle (L : Ledger) : Prop :=
  ∀ s t, L.hub.strandOf? (.heartbeat t) = some s → s ∈ L.handlers →
    t ∉ L.heartbeats.map (·.2) → L.due t = 0

/-- Nothing is expected anew of a heartbeat that is not held. -/
theorem Ages.due_le (ha : Ages L L') (hd : Dated L) (hn : t ∉ L'.heartbeats.map (·.2)) :
    L'.due t ≤ L.due t := by
  have hcurrent := ha.expected_isDue_le hd t
  have hle : L'.due t ≤ L.expected (Beat.isDue L'.hub t) := by
    unfold due
    rcases ha.le_or_sets with hle | ⟨place, t', e, interval, x, hx, hmem, hb, -, he⟩
    · exact hle _
    · have hne : t' ≠ t := by
        rintro rfl
        exact hn (Multiset.mem_map_of_mem (·.2) (hb ▸ hmem))
      have hneg : Beat.isDue L'.hub t ⟨t', x.generation + 1, e⟩ = false := Beat.isDue_of_ne hne
      rw [he, hneg]
      exact le_rfl
  exact hle.trans hcurrent

/-- A heartbeat that a handler which is alive gives up was stopped. -/
theorem Move.stopped (hm : Move L L') (hs : s ∈ L.handlers) (hmem : (some s, t) ∈ L.heartbeats)
    (hn : t ∉ L'.heartbeats.map (·.2)) {x : Schedule} (hx : L.hub.schedule? t = some x) :
    x.deadline = none := by
  cases hm with
  | @dropHeartbeat place t' ts hb hr =>
    rw [hb] at hmem
    rcases Multiset.mem_cons.mp hmem with heq | hmem
    · cases heq
      obtain ⟨y, hy, rfl⟩ := Option.map_eq_some_iff.mp hx
      exact hr s rfl hs y hy
    · exact absurd (Multiset.mem_map_of_mem (·.2) hmem) hn
  | newHeartbeat =>
    exact absurd (Multiset.mem_map_of_mem (·.2) (Multiset.mem_cons_of_mem hmem)) hn
  | _ => exact absurd (Multiset.mem_map_of_mem (·.2) hmem) hn

theorem Ages.keeps_idle (ha : Ages L L') (hm : Makes L L') (ho : Owned L) (hd : Dated L)
    (hb : Balanced L) (hstopped : ∀ s t x, s ∈ L.handlers → (some s, t) ∈ L.heartbeats →
      t ∉ L'.heartbeats.map (·.2) → L.hub.schedule? t = some x → x.deadline = none)
    (h : Idle L) : Idle L' := by
  intro s t hstrand hs hn
  have hle := ha.due_le hd hn
  have hzero : L.due t = 0 := by
    obtain ⟨hstrand', hs'⟩ := (strandOf?_of_makes hm ho hstrand hs).resolve_right hn
    by_cases hheld : t ∈ L.heartbeats.map (·.2)
    · have hmem := ho.mem_heartbeats hstrand' hs' hheld
      obtain ⟨x, hx⟩ := schedule?_of_held ho hheld
      rw [(hb s t x hmem hs' hx).1, hstopped s t x hs' hmem hn hx]
      rfl
    · exact h s t hstrand' hs' hheld
  omega

/-- A heartbeat that was set has the interval that was last negotiated, and its beats are for the
engine for which that was. -/
def Pledged (L : Ledger) : Prop :=
  ∀ s t x interval, (some s, t) ∈ L.heartbeats → s ∈ L.handlers → L.hub.schedule? t = some x →
    x.interval = some interval → ∃ e, lastNegotiated s L.log = some (e, interval) ∧
      L.expected (fun b => b.isDue L.hub t && b.engine != e) = 0

/-- A heartbeat that a handler holds keeps its interval, and what was last negotiated is as it was;
or the heartbeat is set. -/
theorem Ages.interval_or_sets (ha : Ages L L') (ho : Owned L) (hl : Lone L)
    (hheld : (some s, t) ∈ L.heartbeats) {x y : Schedule} (hx : L.hub.schedule? t = some x)
    (hy : L'.hub.schedule? t = some y) :
    (y.interval = x.interval ∧ lastNegotiated s L'.log = lastNegotiated s L.log ∧
      ∀ q : Beat → Bool, L'.expected (fun b => b.isDue L'.hub t && q b) ≤
        L.expected (fun b => b.isDue L'.hub t && q b)) ∨
    ∃ e interval, y.interval = some interval ∧ y.generation = x.generation + 1 ∧
      lastNegotiated s L'.log = some (e, interval) ∧
      ∀ p, L'.expected p = L.expected p + if p ⟨t, x.generation + 1, e⟩ then 1 else 0 := by
  have hs := hy
  cases ha with
  | same hsame he hlog =>
    rw [hsame, hx] at hs
    cases hs
    exact Or.inl ⟨rfl, hlog s, fun _ => (he _).le⟩
  | makes hmakes he hlog =>
    rw [hmakes, if_neg (Hub.ne_length_of_schedule? hx), hx] at hs
    cases hs
    exact Or.inl ⟨rfl, hlog s, fun _ => (he _).le⟩
  | stops hstop he hlog =>
    rw [hstop, hx] at hs
    split at hs <;> cases hs <;> exact Or.inl ⟨rfl, hlog s, fun _ => (he _).le⟩
  | runs hrun he _ hlog =>
    rw [hrun, hx] at hs
    have hle (p : Beat → Bool) := (Nat.le_add_right _ _).trans (he p).le
    split at hs <;> cases hs <;> exact Or.inl ⟨rfl, hlog s, fun _ => hle _⟩
  | @ends call hend he _ hlog =>
    have hle (p : Beat → Bool) := (Nat.le_add_right _ _).trans (he p).le
    refine Or.inl ⟨?_, hlog s, fun _ => hle _⟩
    rw [hend, hx] at hs
    split at hs
    · split at hs
      · cases hs
        exact Schedule.interval_next _ x
      · cases hs
        rfl
    · cases hs
      rfl
  | @sets place t' e interval z hz hset he hlog hmem _ _ =>
    rw [hset, hx] at hs
    by_cases ht : t' = t
    · -- the handler accepted the interval to which its heartbeat is set
      subst ht
      rw [if_pos rfl] at hs
      cases hs
      rw [hx] at hz
      cases hz
      have hplace : ((place, t') : Option Nat × Nat) = (some s, t') :=
        Multiset.inj_on_of_nodup_map ho.heartbeats.holds.nodup _ hmem _ hheld rfl
      cases hplace
      refine Or.inr ⟨e, interval, rfl, rfl, ?_, he⟩
      rw [hlog]
      simp [lastNegotiated, agreed, Event.negotiates?]
    · rw [if_neg ht] at hs
      cases hs
      refine Or.inl ⟨rfl, ?_, fun q => ?_⟩
      · rw [hlog]
        cases place with
        | none => rfl
        | some s' =>
          have hne : s' ≠ s := by
            rintro rfl
            exact ht (hl _ _ _ hmem hheld)
          have hnone : (Event.negotiated s' e interval).negotiates? s = none := if_neg hne
          exact lastNegotiated_cons s hnone L.log
      · have hneg : Beat.isDue L'.hub t ⟨t', z.generation + 1, e⟩ = false := Beat.isDue_of_ne ht
        rw [he, hneg]
        exact le_rfl

theorem Ages.keeps_pledged (ha : Ages L L') (hm : Makes L L') (ho : Owned L) (hd : Dated L)
    (hl : Lone L) (h : Pledged L) : Pledged L' := by
  intro s t y interval hmem hs hy hi
  cases hx : L.hub.schedule? t with
  | none =>
    rw [ha.eq_empty hx hy] at hi
    cases hi
  | some x =>
    obtain ⟨hheld, hs'⟩ := (place_of_makes hm ho hmem hs).resolve_right (by simp [hx])
    rcases ha.interval_or_sets ho hl hheld hx hy with
      ⟨hinterval, hlog, he⟩ | ⟨e, interval', hinterval, hgen, hlog, he⟩
    · obtain ⟨e, hlast, hzero⟩ := h s t x interval hheld hs' hx (hinterval ▸ hi)
      have hle := ha.expected_isDue_and_le hd t fun b => b.engine != e
      exact ⟨e, hlog.trans hlast, Nat.le_zero.mp ((he _).trans (hle.trans hzero.le))⟩
    · have heq : interval' = interval := Option.some.inj (hinterval.symm.trans hi)
      subst heq
      -- no beats of the generation that begins were expected before
      have hold := hd.expected_eq_zero_of_lt hx hy (hgen ▸ Nat.lt_succ_self _)
      have hle := expected_mono (p := fun b => b.isDue L'.hub t && b.engine != e)
        (q := Beat.isDue L'.hub t) (fun b hb => (Bool.and_eq_true_iff.mp hb).1) L
      refine ⟨e, hlog, ?_⟩
      rw [he]
      simp only [bne_self_eq_false, Bool.and_false, Bool.false_eq_true, if_false]
      omega

/-- What holds of the heartbeats of a ledger at every point of every run. -/
structure Paced (L : Ledger) : Prop where
  owned : Owned L
  inUse : InUse L
  waits : Waits L
  dated : Dated L
  single : Single L
  punctual : Punctual L
  balanced : Balanced L
  lone : Lone L
  idle : Idle L
  pledged : Pledged L

namespace Paced

theorem move (hm : Move L L') (h : Paced L) : Paced L' := by
  have ha := hm.ages h.owned
  constructor
  · exact .move hm h.owned
  · exact .move hm h.owned h.inUse
  · exact .move hm h.owned h.waits
  · exact ha.keeps_dated h.dated
  · exact ha.keeps_single h.dated h.single
  · exact .move hm h.owned h.waits h.dated h.single h.punctual
  · exact ha.keeps_balanced hm.makes h.owned h.dated h.single h.balanced
  · exact .move hm h.lone
  · exact ha.keeps_idle hm.makes h.owned h.dated h.balanced
      (fun _ _ _ hs hmem hn hx => hm.stopped hs hmem hn hx) h.idle
  · exact ha.keeps_pledged hm.makes h.owned h.dated h.lone h.pledged

theorem finish {call : Call} {cs : List Call} (hc : L.calls = call :: cs) (h : Paced L) :
    Paced (L.finish call cs) := by
  have ha := ages_finish hc
  have hm := makes_finish L call cs
  constructor
  · exact h.owned.finish call cs
  · exact h.inUse.finish hc
  · exact .finish h.owned h.inUse h.waits hc
  · exact ha.keeps_dated h.dated
  · exact ha.keeps_single h.dated h.single
  · exact h.punctual.finish h.owned h.inUse h.waits h.dated h.single hc
  · exact ha.keeps_balanced hm h.owned h.dated h.single h.balanced
  · exact h.lone
  · exact ha.keeps_idle hm h.owned h.dated h.balanced
      (fun _ _ _ _ hmem hn _ => absurd (Multiset.mem_map_of_mem (·.2) hmem) hn) h.idle
  · exact ha.keeps_pledged hm h.owned h.dated h.lone h.pledged

theorem empty : Paced (({} : World).ledger [] [] []) where
  owned := .empty
  inUse := .empty
  waits := .empty
  dated := fun p _ => expected_empty p
  single := fun _ => (expected_empty _).le.trans (Nat.zero_le 1)
  punctual := .empty
  balanced := fun _ _ _ hmem => absurd hmem (Multiset.notMem_zero _)
  lone := fun _ _ _ hmem => absurd hmem (Multiset.notMem_zero _)
  idle := fun _ _ _ hs => absurd hs (Multiset.notMem_zero _)
  pledged := fun _ _ _ _ hmem => absurd hmem (Multiset.notMem_zero _)

end Paced
end Ledger

theorem Config.Reached.paced {c : Config} {log : List Event} (hr : c.Reached log) :
    (c.ledger log).Paced :=
  hr.preserves (fun h => h.owned.nodup_handlers) .move .finish .empty

end Wakeup.Scenario
