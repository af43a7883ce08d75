import Wakeup.Proofs.Waits

/-! What each operation does to the sides of watchers: whether they are wanted, and whether they are
pending. -/
namespace Wakeup

/-- Whether an engine is being told in a call that a direction of a watcher is ready. -/
def Call.processes (i : Nat) (d : Direction) (call : Call) : Bool :=
  match call.owner, call.notice with
  | .watcher w d', .process .. => w == i && d' == d
  | _, _ => false

theorem Call.processes_iff {i : Nat} {d : Direction} {call : Call} :
    call.processes i d = true ↔
      call.owner = .watcher i d ∧ ∃ fd ev, call.notice = .process fd ev := by
  obtain ⟨owner, s, e, notice⟩ := call
  cases owner <;> cases notice <;> simp [processes]

namespace Hub
variable {hub hub' : Hub Manual}

/-- One direction of a watcher. -/
def side? (hub : Hub Manual) (i : Nat) (d : Direction) : Option Side :=
  hub.watchers[i]?.map fun x => x.sides.get d

theorem wants_eq (hub : Hub Manual) (i : Nat) (d : Direction) :
    hub.wants i d = (hub.side? i d).any (·.wanted) := by
  unfold wants side?
  rw [Option.any_map]

theorem side?_congr (h : hub'.watchers = hub.watchers) (i : Nat) (d : Direction) :
    hub'.side? i d = hub.side? i d := by
  unfold side?
  rw [h]

theorem side?_modifyWatcher {f : Watcher → Watcher} (hf : ∀ x, (f x).sides = x.sides)
    (hub : Hub Manual) (i j : Nat) (d : Direction) :
    (hub.modifyWatcher i f).side? j d = hub.side? j d := by
  unfold side? modifyWatcher
  rw [List.getElem?_modify]
  cases hub.watchers[j]? with
  | none => rfl
  | some x => by_cases hij : i = j <;> simp [hij, hf]

theorem side?_modifySide (hub : Hub Manual) (i : Nat) (d : Direction) (f : Side → Side) (j : Nat)
    (d' : Direction) : (hub.modifySide i d f).side? j d' =
      if i = j ∧ d = d' then (hub.side? j d').map f else hub.side? j d' := by
  unfold side? modifySide modifyWatcher
  dsimp only
  rw [List.getElem?_modify]
  cases hub.watchers[j]? with
  | none => simp
  | some x =>
    by_cases hij : i = j
    · by_cases hd : d = d'
      · simp [hij, hd, Sides.modify]
      · simp [hij, hd, Sides.modify, Sides.get_set]
    · simp [hij]

theorem side?_armSide (hub : Hub Manual) (i : Nat) (d : Direction) (e j : Nat) (d' : Direction) :
    (hub.armSide i d e).side? j d' =
      if i = j ∧ d = d' then (hub.side? j d').map ({ · with pending := true })
      else hub.side? j d' := by
  unfold armSide
  cases hx : hub.watchers[i]? with
  | none =>
    have hnone : hub.side? i d = none := by simp [side?, hx]
    dsimp only
    split
    · rename_i h
      rw [← h.1, ← h.2, hnone]
      rfl
    · rfl
  | some x =>
    dsimp only
    by_cases hp : (x.sides.get d).pending = true
    · rw [if_pos hp]
      split
      · rename_i h
        have hside : hub.side? i d = some (x.sides.get d) := by simp [side?, hx]
        rw [← h.1, ← h.2, hside, Option.map_some, ← hp]
      · rfl
    · rw [if_neg hp]
      exact side?_modifySide hub i d _ j d'

theorem side?_setSide (hub : Hub Manual) (i e : Nat) (d : Direction) (wanted : Bool) (j : Nat)
    (d' : Direction) : (hub.setSide i e d wanted).side? j d' =
      if i = j ∧ d = d' then (hub.side? j d').map fun x => ⟨wanted, x.pending || wanted⟩
      else hub.side? j d' := by
  unfold setSide
  cases wanted with
  | false =>
    refine (side?_modifySide hub i d _ j d').trans ?_
    simp only [Bool.or_false]
  | true =>
    refine (side?_armSide (hub.modifySide i d _) i d e j d').trans ?_
    rw [side?_modifySide]
    by_cases h : i = j ∧ d = d'
    · simp only [h, and_self, if_true, Option.map_map, Bool.or_true]
      rfl
    · simp only [h, if_false]

theorem side?_setInterest (hub : Hub Manual) (i e : Nat) (ev : Events) (j : Nat) (d : Direction) :
    (hub.setInterest i e ev).side? j d =
      if i = j then (hub.side? j d).map fun x => ⟨ev.wants d, x.pending || ev.wants d⟩
      else hub.side? j d := by
  refine (side?_setSide _ i e .write (ev.wants .write) j d).trans ?_
  rw [side?_setSide]
  by_cases hij : i = j
  · cases d <;> simp [hij]
  · simp [hij]

theorem side?_retire (hub : Hub Manual) (i j : Nat) (d : Direction) :
    (hub.retire i).side? j d =
      if i = j then (hub.side? j d).map ({ · with wanted := false }) else hub.side? j d := by
  refine (side?_modifySide _ i .write _ j d).trans ?_
  rw [side?_modifySide]
  by_cases hij : i = j
  · cases d <;> simp [hij]
  · simp [hij]

theorem side?_reapWatcher (hub : Hub Manual) (i j : Nat) (d : Direction) :
    (hub.reapWatcher i).side? j d = hub.side? j d := by
  unfold reapWatcher
  split
  · rfl
  · split <;> rfl

theorem side?_dropWatcher (hub : Hub Manual) (i j : Nat) (d : Direction) :
    (hub.dropWatcher i).side? j d = hub.side? j d := by
  unfold dropWatcher
  rw [side?_reapWatcher, side?_modifyWatcher]
  exact fun _ => rfl

theorem side?_releaseWatcher (hub : Hub Manual) (i j : Nat) (d : Direction) :
    (hub.releaseWatcher i).side? j d = hub.side? j d := by
  unfold releaseWatcher
  rw [side?_reapWatcher, side?_modifyWatcher]
  exact fun _ => rfl

theorem side?_newWatcher {s i : Nat} {fd : Fd} (h : hub.newWatcher s fd = (.ok i, hub'))
    (j : Nat) (d : Direction) :
    hub'.side? j d = if j = i then some {} else hub.side? j d := by
  obtain ⟨r, m, -, rfl, rfl⟩ := newWatcher_ok h
  unfold side?
  dsimp only
  rw [List.getElem?_append]
  by_cases hlt : j < hub.watchers.length
  · rw [if_pos hlt, if_neg hlt.ne]
  · rw [if_neg hlt, List.getElem?_eq_none (not_lt.mp hlt), List.getElem?_singleton]
    by_cases hj : j = hub.watchers.length
    · simp [hj]
    · have hne : ¬j - hub.watchers.length = 0 := by omega
      simp [hj, hne]

theorem side?_startCall (hub : Hub Manual) (call : Call) (j : Nat) (d : Direction) :
    (hub.startCall call).1.side? j d = hub.side? j d := by
  have howner : (hub.acquireOwner call.owner).side? j d = hub.side? j d := by
    cases call.owner with
    | watcher i d' =>
      let f (x : Watcher) : Watcher := { x with presence := x.presence.acquire }
      exact side?_modifyWatcher (f := f) (fun _ => rfl) hub i j d
    | heartbeat t generation => rfl
  unfold startCall
  split
  · exact howner
  · rfl

/-- The completion of a wait clears the side that the wait claims, of a watcher that lasts. -/
theorem side?_begin (hub : Hub Manual) (c : Callback) (o : Outcome) (j : Nat) (d : Direction) :
    (hub.begin c o).1.side? j d =
      if c.claims j d = true ∧ hub.watchers[j]?.any (·.presence.alive) = true then
        (hub.side? j d).map ({ · with pending := false })
      else hub.side? j d := by
  cases c with
  | bare tag => simp [begin, Callback.claims]
  | beat t generation e =>
    have hneg : (Callback.beat t generation e).claims j d = false := rfl
    simp only [hneg, Bool.false_eq_true, false_and, if_false, begin, beginBeat]
    repeat' split
    all_goals first
      | rfl
      | exact side?_startCall _ _ j d
  | ready i d' e =>
    simp only [Scenario.claims_ready]
    simp only [begin, beginReady]
    cases hx : hub.watchers[i]? with
    | none =>
      by_cases hij : i = j
      · simp [← hij, hx]
      · simp [hij]
    | some x =>
      dsimp only
      cases ha : x.presence.alive with
      | false =>
        by_cases hij : i = j
        · simp [← hij, hx, ha]
        · simp [hij]
      | true =>
        have hclear := side?_modifySide hub i d' ({ · with pending := false }) j d
        have hif : (if i = j ∧ d' = d then (hub.side? j d).map ({ · with pending := false })
            else hub.side? j d) =
            if (i = j ∧ d' = d) ∧ hub.watchers[j]?.any (·.presence.alive) = true then
              (hub.side? j d).map ({ · with pending := false })
            else hub.side? j d := by
          by_cases hij : i = j
          · simp [← hij, hx, ha]
          · simp [hij]
        rw [← hif, ← hclear, if_pos rfl]
        repeat' split
        all_goals first
          | rfl
          | exact side?_startCall _ _ j d

/-- An engine that is alive is told of a side that is ready and wanted, if the watcher and its
strand last. -/
theorem begin_of_wanted {i e : Nat} {d : Direction} {o : Outcome} {x : Watcher}
    (hx : hub.watchers[i]? = some x) (ha : x.presence.alive = true)
    (hs : hub.strandAlive x.strand = true) (hv : Verdict.of o = .proceed)
    (hw : (x.sides.get d).wanted = true) (he : hub.engineAlive e = true) :
    (hub.begin (.ready i d e) o).2 =
      some ⟨.watcher i d, x.strand, e, .process x.fd (Events.ofDirection d)⟩ := by
  have hs' : (hub.modifySide i d ({ · with pending := false })).strandAlive x.strand = true := hs
  have he' : (hub.modifySide i d ({ · with pending := false })).engineAlive e = true := he
  simp only [begin, beginReady, hx, ha, if_true, hs', hv, hw, startCall, he']

/-- The end of a call in which an engine was told of a direction leaves the side pending if it is
still wanted. -/
theorem side?_finish (hub : Hub Manual) (call : Call) (j : Nat) (d : Direction) :
    (hub.finish call).side? j d =
      if call.processes j d then (hub.side? j d).map fun x => { x with
        pending := x.pending || x.wanted }
      else hub.side? j d := by
  have hrelease : (hub.finish call).side? j d = (hub.resume call).side? j d := by
    unfold finish
    cases call.owner with
    | watcher i d' => exact side?_releaseWatcher _ i j d
    | heartbeat t generation => exact side?_congr (Calm.releaseHeartbeat _ t).watchers j d
  rw [hrelease]
  obtain ⟨owner, s, e, notice⟩ := call
  cases owner with
  | heartbeat t generation =>
    cases notice with
    | heartbeat => exact side?_congr (Calm.nextBeat hub t generation e).watchers j d
    | process => rfl
    | waitError => rfl
  | watcher i d' =>
    cases notice with
    | heartbeat => rfl
    | waitError => rfl
    | process fd ev =>
      simp only [resume, Call.processes, Bool.and_eq_true, beq_iff_eq, wants_eq]
      by_cases h : i = j ∧ d' = d
      · obtain ⟨rfl, rfl⟩ := h
        cases hx : hub.side? i d' with
        | none => simp [hx]
        | some x =>
          cases hw : x.wanted with
          | false =>
            obtain ⟨wanted, pending⟩ := x
            cases hw
            simp [hx]
          | true => simp [hx, hw, side?_armSide]
      · rw [if_neg h]
        split
        · rw [side?_armSide, if_neg h]
        · rfl

end Hub
end Wakeup
