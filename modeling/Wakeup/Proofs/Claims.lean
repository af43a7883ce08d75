import Wakeup.Proofs.Bookkeeping

/-! Waits claim the sides of watchers. A side of a watcher that lasts is pending just when a wait
claims it, and no two waits claim one side. -/
namespace Wakeup

/-- Whether a callback tells a watcher of a direction. -/
def Callback.claims (i : Nat) (d : Direction) : Callback → Bool
  | .ready w d' _ => w == i && d' == d
  | _ => false

/-- A wait that claims no side. -/
def Wait.Idle (w : Wait) : Prop := ∀ i d, w.callback.claims i d = false

/-- What waits depend on in a watcher. -/
structure Post where
  registration : Registration
  alive : Bool
  pending : Sides Bool

def pendingSides (s : Sides Side) : Sides Bool := ⟨s.read.pending, s.write.pending⟩

theorem get_pendingSides (s : Sides Side) (d : Direction) :
    (pendingSides s).get d = (s.get d).pending := by
  cases d <;> rfl

theorem pendingSides_set (s : Sides Side) (d : Direction) (a : Side) :
    pendingSides (s.set d a) = (pendingSides s).set d a.pending := by
  cases d <;> rfl

namespace Post

def ofWatcher (x : Watcher) : Post := ⟨x.registration, x.presence.alive, pendingSides x.sides⟩

def setPending (d : Direction) (b : Bool) (p : Post) : Post :=
  { p with pending := p.pending.set d b }

def finish (p : Post) : Post := { p with alive := false }

end Post

theorem Sides.get_set {α : Type} (s : Sides α) (d d' : Direction) (a : α) :
    (s.set d a).get d' = if d = d' then a else s.get d' := by
  by_cases h : d = d'
  · subst h
    simp
  · rw [if_neg h, Sides.get_set_of_ne s (fun h' => h h'.symm)]

section Count
variable {α : Type} {q : α → Bool} {f : α → α}

theorem countP_modify {l : List α} {i : Nat} {a : α} (ha : l[i]? = some a) :
    (l.modify i f).countP q + (if q a then 1 else 0) =
      l.countP q + if q (f a) then 1 else 0 := by
  induction l generalizing i with
  | nil => cases ha
  | cons b l ih =>
    cases i with
    | zero =>
      cases ha
      rw [List.modify_zero_cons, List.countP_cons, List.countP_cons]
      omega
    | succ i =>
      have hi := ih ha
      rw [List.modify_succ_cons, List.countP_cons, List.countP_cons]
      omega

end Count

namespace Manual

theorem get?_forget (fd fd' : Fd) (live : Table Nat) :
    ((forget fd live).get? fd').getD 0 =
      (live.get? fd').getD 0 - if fd' = fd then 1 else 0 := by
  unfold forget
  split
  · rename_i h
    by_cases heq : fd' = fd
    · subst heq
      simp [h]
    · simp [heq]
  · rename_i n h
    by_cases heq : fd' = fd
    · subst heq
      split
      · rw [Table.get?_erase_self, h]
        simp
        omega
      · rw [Table.get?_insert_self, h]
        simp
    · split
      · simp [Table.get?_erase, heq]
      · simp [Table.get?_insert, heq]

end Manual

namespace Scenario

/-- Whether a wait that claims a side was thrown away. -/
def Event.discards (i : Nat) (d : Direction) : Event → Bool
  | .discarded w => w.callback.claims i d
  | _ => false

/-- How many waits claim a side, in a reactor, kept or thrown away. -/
def claims (ready : List ReadyWait) (kept : Multiset Wait) (log : List Event) (i : Nat)
    (d : Direction) : Nat :=
  ready.countP (·.wait.callback.claims i d) + kept.countP (·.callback.claims i d = true) +
    log.countP (·.discards i d)

theorem claims_concat (ready : List ReadyWait) (r : ReadyWait) (kept : Multiset Wait)
    (log : List Event) (i : Nat) (d : Direction) : claims (ready ++ [r]) kept log i d =
      claims ready kept log i d + if r.wait.callback.claims i d then 1 else 0 := by
  unfold claims
  rw [List.countP_append, List.countP_singleton]
  omega

theorem claims_cons (ready : List ReadyWait) (w : Wait) (kept : Multiset Wait)
    (log : List Event) (i : Nat) (d : Direction) : claims ready (w ::ₘ kept) log i d =
      claims ready kept log i d + if w.callback.claims i d then 1 else 0 := by
  unfold claims
  rw [Multiset.countP_cons]
  omega

theorem claims_event (ready : List ReadyWait) (kept : Multiset Wait) (ev : Event)
    (log : List Event) (i : Nat) (d : Direction) : claims ready kept (ev :: log) i d =
      claims ready kept log i d + if ev.discards i d then 1 else 0 := by
  unfold claims
  rw [List.countP_cons]
  omega

theorem claims_ready (e i : Nat) (d : Direction) (j : Nat) (d' : Direction) :
    (Callback.ready i d e).claims j d' = true ↔ i = j ∧ d = d' := by
  simp [Callback.claims]

/-- A wait in a reactor is armed for a watcher that lasts, or without one for what is held. -/
def Fits (posts : List Post) (bare : Multiset Registration) (r : ReadyWait) : Prop :=
  match r.wait.callback with
  | .ready i d _ => d = r.direction ∧
      ∃ p, posts[i]? = some p ∧ p.alive = true ∧ p.registration = r.registration
  | .beat .. => False
  | .bare _ => r.registration ∈ bare

/-- The registrations of a descriptor: those of watchers that last, and those without a watcher. -/
def registered (posts : List Post) (bare : Multiset Registration) (fd : Fd) : Nat :=
  posts.countP (fun p => p.alive && p.registration.fd == fd) + bare.countP (·.fd = fd)

structure Waiting (posts : List Post) (m : Manual) (bare : Multiset Registration)
    (kept : Multiset Wait) (log : List Event) : Prop where
  claims_eq : ∀ {i : Nat} {p : Post}, posts[i]? = some p → p.alive = true →
    ∀ d, claims m.ready kept log i d = if p.pending.get d then 1 else 0
  claims_out : ∀ {i : Nat}, posts.length ≤ i → ∀ d, claims m.ready kept log i d = 0
  ready : ∀ r ∈ m.ready, Fits posts bare r
  timed : ∀ t ∈ m.timed, t.wait.Idle
  parked : ∀ w ∈ m.parked, ∀ i d, w.callback.claims i d = true →
    ∃ p, posts[i]? = some p ∧ p.alive = false
  live : ∀ fd, (m.live.get? fd).getD 0 = registered posts bare fd

namespace Waiting
variable {posts : List Post} {m m' : Manual} {bare bare' : Multiset Registration}
  {kept kept' : Multiset Wait} {log log' : List Event}

/-- Only the numbers of claims matter, and that nothing else waits for readiness. -/
theorem of_claims (h : Waiting posts m bare kept log)
    (hc : ∀ i d, (∀ p ∈ posts[i]?, p.alive = true) →
      claims m'.ready kept' log' i d = claims m.ready kept log i d)
    (hr : ∀ r ∈ m'.ready, Fits posts bare' r) (ht : ∀ t ∈ m'.timed, t.wait.Idle)
    (hp : ∀ w ∈ m'.parked, w ∈ m.parked ∨ w.Idle)
    (hl : ∀ fd, (m'.live.get? fd).getD 0 = registered posts bare' fd) :
    Waiting posts m' bare' kept' log' := by
  constructor
  · intro i p hi ha d
    rw [hc i d (fun q hq => by rw [hi] at hq; cases hq; exact ha)]
    exact h.claims_eq hi ha d
  · intro i hi d
    rw [hc i d (fun q hq => by rw [List.getElem?_eq_none hi] at hq; cases hq)]
    exact h.claims_out hi d
  · exact hr
  · exact ht
  · intro w hw i d hclaims
    rcases hp w hw with hw | hidle
    · exact h.parked w hw i d hclaims
    · rw [hidle i d] at hclaims
      cases hclaims
  · exact hl

theorem fits_setPending (i : Nat) (d : Direction) (b : Bool) {r : ReadyWait}
    (h : Fits posts bare r) : Fits (posts.modify i (.setPending d b)) bare r := by
  unfold Fits at h ⊢
  split at h
  · obtain ⟨hd, p, hp, ha, hr⟩ := h
    refine ⟨hd, ?_⟩
    rw [List.getElem?_modify, hp]
    split_ifs
    · exact ⟨p.setPending _ b, rfl, ha, hr⟩
    · exact ⟨p, rfl, ha, hr⟩
  · exact h
  · exact h

/-- One side of one watcher changes, and the number of its claims with it. -/
theorem setPending (h : Waiting posts m bare kept log) {i : Nat} {p : Post} {d : Direction}
    {b : Bool} (hi : posts[i]? = some p) (ha : p.alive = true)
    (hc : ∀ j d', claims m'.ready kept' log' j d' =
      if i = j ∧ d = d' then (if b then 1 else 0) else claims m.ready kept log j d')
    (hr : ∀ r ∈ m'.ready, Fits (posts.modify i (.setPending d b)) bare r)
    (ht : m'.timed = m.timed) (hp : m'.parked = m.parked) (hl : m'.live = m.live) :
    Waiting (posts.modify i (.setPending d b)) m' bare kept' log' := by
  obtain ⟨hlt, -⟩ := List.getElem?_eq_some_iff.mp hi
  constructor
  · intro j q hj hq d'
    rw [hc]
    rw [List.getElem?_modify] at hj
    by_cases heq : i = j
    · subst heq
      rw [hi] at hj
      simp only [if_true] at hj
      cases hj
      change _ = if (p.pending.set d b).get d' = true then 1 else 0
      rw [Sides.get_set]
      by_cases hd : d = d'
      · simp [hd]
      · simp [hd, h.claims_eq hi ha d']
    · have hj' : posts[j]? = some q := by simpa [heq] using hj
      simp [heq, h.claims_eq hj' hq d']
  · intro j hj d'
    rw [List.length_modify] at hj
    have hne : ¬i = j := by omega
    rw [hc]
    simp [hne, h.claims_out hj d']
  · exact hr
  · rw [ht]
    exact h.timed
  · intro w hw j d' hclaims
    rw [hp] at hw
    obtain ⟨q, hq, hdead⟩ := h.parked w hw j d' hclaims
    have hne : ¬i = j := by
      rintro rfl
      rw [hi] at hq
      cases hq
      rw [ha] at hdead
      cases hdead
    exact ⟨q, by simp [hne, hq], hdead⟩
  · intro fd
    rw [hl, h.live, registered, registered]
    have hcount := countP_modify (q := fun p => p.alive && p.registration.fd == fd)
      (f := .setPending d b) hi
    change _ + (if (p.alive && p.registration.fd == fd) = true then 1 else 0) =
      _ + (if (p.alive && p.registration.fd == fd) = true then 1 else 0) at hcount
    omega

/-- A side that is not pending is armed. -/
theorem arm (h : Waiting posts m bare kept log) {i : Nat} {p : Post} {d : Direction}
    (hi : posts[i]? = some p) (ha : p.alive = true) (hp : p.pending.get d = false) (e : Nat) :
    Waiting (posts.modify i (.setPending d true)) (m.arm p.registration d (.ready i d e)) bare
      kept log := by
  refine h.setPending hi ha ?_ ?_ rfl rfl rfl
  · intro j d'
    have hnone := h.claims_eq hi ha d
    rw [hp] at hnone
    rw [Manual.arm, claims_concat]
    simp only [claims_ready]
    split_ifs with heq
    · obtain ⟨rfl, rfl⟩ := heq
      simpa using hnone
    · rfl
  · intro r hr
    rcases List.mem_append.mp hr with hr | hr
    · exact fits_setPending i d _ (h.ready r hr)
    · rw [List.mem_singleton.mp hr]
      refine ⟨rfl, p.setPending d true, ?_, ha, rfl⟩
      rw [List.getElem?_modify, hi]
      simp

/-- A wait of a watcher that lasts is completed, and its side is not pending any more. -/
theorem clear {wait : Wait} (h : Waiting posts m bare (wait ::ₘ kept) log) {i : Nat} {p : Post}
    {d : Direction} {e : Nat} (hw : wait.callback = .ready i d e) (hi : posts[i]? = some p)
    (ha : p.alive = true) :
    Waiting (posts.modify i (.setPending d false)) m bare kept log := by
  refine h.setPending hi ha ?_ (fun r hr => fits_setPending i d _ (h.ready r hr)) rfl rfl rfl
  intro j d'
  have hone := h.claims_eq hi ha d
  rw [claims_cons, hw, if_pos ((claims_ready e i d i d).mpr ⟨rfl, rfl⟩)] at hone
  rw [claims_cons, hw]
  by_cases heq : i = j ∧ d = d'
  · obtain ⟨rfl, rfl⟩ := heq
    rw [if_pos ⟨rfl, rfl⟩, if_neg Bool.false_ne_true]
    split_ifs at hone with hp
    · omega
  · rw [if_neg heq, if_neg (fun hc => heq ((claims_ready e i d j d').mp hc))]
    rfl

/-- A wait that claims nothing of what lasts is completed. -/
theorem drop {wait : Wait} (h : Waiting posts m bare (wait ::ₘ kept) log)
    (hw : ∀ i d, (∀ p ∈ posts[i]?, p.alive = true) → wait.callback.claims i d = false) :
    Waiting posts m bare kept log := by
  refine h.of_claims ?_ h.ready h.timed (fun w hw => Or.inl hw) h.live
  intro i d ha
  rw [claims_cons, hw i d ha]
  rfl

/-- A wait that was kept is thrown away. -/
theorem discard {wait : Wait} (h : Waiting posts m bare (wait ::ₘ kept) log) :
    Waiting posts m bare kept (.discarded wait :: log) := by
  refine h.of_claims ?_ h.ready h.timed (fun w hw => Or.inl hw) h.live
  intro i d _
  rw [claims_event, claims_cons]
  rfl

/-- A wait for readiness is taken from the reactor. -/
theorem takeReady (h : Waiting posts m bare kept log) {fd : Fd} {d : Direction} {wait : Wait}
    (ht : m.takeReady fd d = some (wait, m')) : Waiting posts m' bare (wait ::ₘ kept) log := by
  obtain ⟨r, rs, rfl, hperm, rfl⟩ := Manual.takeReady_some ht
  have hsub : ∀ r' ∈ rs, r' ∈ m.ready := fun r' hr' =>
    hperm.mem_iff.mpr (List.mem_cons_of_mem _ hr')
  refine h.of_claims ?_ (fun r' hr' => h.ready r' (hsub r' hr')) h.timed
    (fun w hw => Or.inl hw) h.live
  intro i d' _
  have hcount := hperm.countP_eq (·.wait.callback.claims i d')
  rw [List.countP_cons] at hcount
  rw [claims_cons]
  unfold claims
  dsimp only
  omega

/-- A wait for a deadline is taken from the reactor. -/
theorem takeTimed (h : Waiting posts m bare kept log) {deadline : Nat} {wait : Wait}
    (ht : m.takeTimed deadline = some (wait, m')) :
    Waiting posts m' bare (wait ::ₘ kept) log := by
  obtain ⟨t, ts, rfl, hperm, rfl⟩ := Manual.takeTimed_some ht
  have hmem : t ∈ m.timed := hperm.mem_iff.mpr List.mem_cons_self
  have hsub : ∀ t' ∈ ts, t' ∈ m.timed := fun t' ht' =>
    hperm.mem_iff.mpr (List.mem_cons_of_mem _ ht')
  refine h.of_claims ?_ h.ready (fun t' ht' => h.timed t' (hsub t' ht'))
    (fun w hw => Or.inl hw) h.live
  intro i d _
  rw [claims_cons, h.timed t hmem i d]
  rfl

/-- The waits that were cancelled are taken from the reactor. -/
theorem takeParked (h : Waiting posts m bare kept log) :
    Waiting posts m.takeParked.2 bare (↑m.takeParked.1 + kept) log := by
  refine h.of_claims ?_ h.ready h.timed nofun h.live
  intro i d ha
  have hnone : (m.parked : Multiset Wait).countP (·.callback.claims i d = true) = 0 := by
    rw [Multiset.countP_eq_zero]
    intro w hw hclaims
    obtain ⟨p, hp, hdead⟩ := h.parked w hw i d hclaims
    rw [ha p hp] at hdead
    cases hdead
  unfold claims
  rw [Multiset.countP_add]
  change _ + ((m.parked : Multiset Wait).countP _ + _) + _ = _
  rw [hnone, zero_add]
  rfl

/-- A watcher without waits is new. -/
theorem push (h : Waiting posts m bare kept log) {p : Post} (hp : p.pending = .both false)
    (ha : p.alive = true) (hr : m'.ready = m.ready) (ht : m'.timed = m.timed)
    (hpa : m'.parked = m.parked)
    (hl : m'.live = m.live.insert p.registration.fd ((m.live.get? p.registration.fd).getD 0 + 1)) :
    Waiting (posts ++ [p]) m' bare kept log := by
  have hold : ∀ {i : Nat} {q : Post}, posts[i]? = some q → (posts ++ [p])[i]? = some q := by
    intro i q hq
    obtain ⟨hlt, -⟩ := List.getElem?_eq_some_iff.mp hq
    rw [List.getElem?_append_left hlt, hq]
  constructor
  · intro i q hi ha d
    rw [hr]
    by_cases hlt : i < posts.length
    · rw [List.getElem?_append_left hlt] at hi
      exact h.claims_eq hi ha d
    · rw [List.getElem?_append_right (by omega)] at hi
      have hq : q = p := by
        obtain ⟨_, hq⟩ := List.getElem?_eq_some_iff.mp hi
        simpa using hq.symm
      rw [h.claims_out (by omega), hq, hp, Sides.get_both, if_neg Bool.false_ne_true]
  · intro i hi d
    rw [hr]
    rw [List.length_append] at hi
    exact h.claims_out (by omega) d
  · intro r hmem
    rw [hr] at hmem
    have hf := h.ready r hmem
    unfold Fits at hf ⊢
    split at hf
    · obtain ⟨hd, q, hq, ha, hreg⟩ := hf
      exact ⟨hd, q, hold hq, ha, hreg⟩
    · exact hf
    · exact hf
  · rw [ht]
    exact h.timed
  · rw [hpa]
    intro w hw i d hclaims
    obtain ⟨q, hq, hdead⟩ := h.parked w hw i d hclaims
    exact ⟨q, hold hq, hdead⟩
  · intro fd
    have hold := h.live fd
    unfold registered at hold ⊢
    rw [hl, Table.get?_insert, List.countP_append, List.countP_singleton, ha]
    by_cases heq : fd = p.registration.fd
    · subst heq
      simp
      omega
    · have hne : ¬p.registration.fd = fd := fun h' => heq h'.symm
      simp [heq, hne, hold]

end Waiting

section Release
variable {posts : List Post} {m : Manual} {bare : Multiset Registration} {kept : Multiset Wait}
  {log : List Event}

theorem claims_filter {ready : List ReadyWait} {a i : Nat} {d : Direction}
    (h : ∀ r ∈ ready, r.registration.id = a → r.wait.callback.claims i d = false) :
    claims (ready.filter (·.registration.id ≠ a)) kept log i d = claims ready kept log i d := by
  unfold claims
  rw [List.countP_filter]
  congr 2
  apply List.countP_congr
  intro r hr
  by_cases heq : r.registration.id = a
  · simp [h r hr heq]
  · simp [heq]

/-- No two registrations of watchers have one id. -/
theorem index_of_id (hids : (posts.map (·.registration.id)).Nodup) {i j : Nat} {p q : Post}
    (hi : posts[i]? = some p) (hj : posts[j]? = some q)
    (heq : p.registration.id = q.registration.id) : i = j := by
  obtain ⟨hlt, -⟩ := List.getElem?_eq_some_iff.mp hi
  refine (List.getElem?_inj (by simpa using hlt) hids).mp ?_
  rw [List.getElem?_map, List.getElem?_map, hi, hj]
  exact congrArg some heq

namespace Waiting

/-- A wait of a released registration that claims a side claims one of its watcher. -/
theorem index_of_claims (h : Waiting posts m bare kept log)
    (hids : (posts.map (·.registration.id)).Nodup) {i : Nat} {p : Post} (hi : posts[i]? = some p)
    {r : ReadyWait} (hr : r ∈ m.ready) (hid : r.registration.id = p.registration.id) {j : Nat}
    {d : Direction} (hc : r.wait.callback.claims j d = true) : i = j := by
  have hf := h.ready r hr
  unfold Fits at hf
  cases hcb : r.wait.callback with
  | ready w d' e =>
    rw [hcb] at hf hc
    obtain ⟨rfl, rfl⟩ := (claims_ready e w d' j d).mp hc
    obtain ⟨-, q, hq, -, hreg⟩ := hf
    exact index_of_id hids hi hq (by rw [hreg, hid])
  | beat t generation e =>
    rw [hcb] at hc
    cases hc
  | bare tag =>
    rw [hcb] at hc
    cases hc

/-- A watcher ends, and its registration with it. -/
theorem finish (h : Waiting posts m bare kept log)
    (hids : (posts.map (·.registration.id)).Nodup) {i : Nat} {p : Post}
    (hi : posts[i]? = some p) (ha : p.alive = true) :
    Waiting (posts.modify i .finish) (m.release p.registration) bare kept log := by
  have hne : ∀ {j : Nat}, ¬i = j → (posts.modify i .finish)[j]? = posts[j]? := by
    intro j hij
    rw [List.getElem?_modify_ne _ _ hij]
  have hself : (posts.modify i .finish)[i]? = some p.finish := by
    rw [List.getElem?_modify_eq, hi]
    rfl
  have hdead : ∀ {j : Nat}, (∃ q, posts[j]? = some q ∧ q.alive = false) ∨ i = j →
      ∃ q, (posts.modify i .finish)[j]? = some q ∧ q.alive = false := by
    intro j hj
    by_cases hij : i = j
    · subst hij
      exact ⟨p.finish, hself, rfl⟩
    · obtain ⟨q, hq, hd⟩ := hj.resolve_right hij
      exact ⟨q, (hne hij).trans hq, hd⟩
  constructor
  · intro j q hj ha d
    have hij : ¬i = j := by
      rintro rfl
      rw [hself] at hj
      cases hj
      cases ha
    rw [hne hij] at hj
    change claims (m.ready.filter (·.registration.id ≠ p.registration.id)) kept log j d = _
    rw [claims_filter, h.claims_eq hj ha d]
    intro r hr hid
    by_contra hc
    exact hij (h.index_of_claims hids hi hr hid (by simpa using hc))
  · intro j hj d
    rw [List.length_modify] at hj
    have hij : ¬i = j := by
      rintro rfl
      rw [List.getElem?_eq_none hj] at hi
      cases hi
    change claims (m.ready.filter (·.registration.id ≠ p.registration.id)) kept log j d = _
    rw [claims_filter, h.claims_out hj d]
    intro r hr hid
    by_contra hc
    exact hij (h.index_of_claims hids hi hr hid (by simpa using hc))
  · intro r hr
    obtain ⟨hr, hid⟩ := List.mem_filter.mp hr
    have hf := h.ready r hr
    unfold Fits at hf ⊢
    split at hf
    · obtain ⟨hd, q, hq, ha, hreg⟩ := hf
      rename_i j d e _
      have hij : ¬i = j := by
        rintro rfl
        rw [hi] at hq
        cases hq
        simp [hreg] at hid
      exact ⟨hd, q, (hne hij).trans hq, ha, hreg⟩
    · exact hf
    · exact hf
  · exact h.timed
  · intro w hw j d hc
    apply hdead
    rcases List.mem_append.mp hw with hw | hw
    · exact Or.inl (h.parked w hw j d hc)
    · obtain ⟨r, hr, rfl⟩ := List.mem_map.mp hw
      obtain ⟨hr, hid⟩ := List.mem_filter.mp hr
      exact Or.inr (h.index_of_claims hids hi hr (by simpa using hid) hc)
  · intro fd
    have hold := h.live fd
    have hcount := countP_modify (q := fun p => p.alive && p.registration.fd == fd)
      (f := .finish) hi
    unfold registered at hold ⊢
    change ((Manual.forget p.registration.fd m.live).get? fd).getD 0 = _
    rw [Manual.get?_forget, hold]
    simp only [ha, Post.finish, Bool.true_and, Bool.false_and, beq_iff_eq, Bool.false_eq_true,
      if_false, eq_comm (a := fd)] at hcount ⊢
    omega

/-- A registration without a watcher ends. -/
theorem release {r₀ : Registration} (h : Waiting posts m (r₀ ::ₘ bare) kept log)
    (hids : ∀ p ∈ posts, p.registration.id ≠ r₀.id) :
    Waiting posts (m.release r₀) bare kept log := by
  have hidle : ∀ r ∈ m.ready, r.registration.id = r₀.id → r.wait.Idle := by
    intro r hr hid i d
    have hf := h.ready r hr
    unfold Fits at hf
    cases hcb : r.wait.callback with
    | ready w d' e =>
      rw [hcb] at hf
      obtain ⟨-, q, hq, -, hreg⟩ := hf
      exact absurd (by rw [hreg, hid]) (hids q (List.mem_of_getElem? hq))
    | beat t generation e => rfl
    | bare tag => rfl
  refine h.of_claims ?_ ?_ h.timed ?_ ?_
  · intro i d _
    exact claims_filter fun r hr hid => hidle r hr hid i d
  · intro r hr
    obtain ⟨hr, hid⟩ := List.mem_filter.mp hr
    have hf := h.ready r hr
    unfold Fits at hf ⊢
    split at hf
    · exact hf
    · exact hf
    · rcases Multiset.mem_cons.mp hf with heq | hmem
      · simp [heq] at hid
      · exact hmem
  · intro w hw
    rcases List.mem_append.mp hw with hw | hw
    · exact Or.inl hw
    · obtain ⟨r, hr, rfl⟩ := List.mem_map.mp hw
      obtain ⟨hr, hid⟩ := List.mem_filter.mp hr
      exact Or.inr (hidle r hr (by simpa using hid))
  · intro fd
    have hold := h.live fd
    unfold registered at hold ⊢
    rw [Multiset.countP_cons] at hold
    change ((Manual.forget r₀.fd m.live).get? fd).getD 0 = _
    rw [Manual.get?_forget, hold]
    simp only [eq_comm (a := fd)]
    omega

/-- A registration without a watcher is made. -/
theorem register {r : Registration} (h : Waiting posts m bare kept log)
    (hr : m'.ready = m.ready) (ht : m'.timed = m.timed) (hp : m'.parked = m.parked)
    (hl : m'.live = m.live.insert r.fd ((m.live.get? r.fd).getD 0 + 1)) :
    Waiting posts m' (r ::ₘ bare) kept log := by
  refine h.of_claims ?_ ?_ (ht ▸ h.timed) (hp ▸ fun w hw => Or.inl hw) ?_
  · intro i d _
    rw [hr]
  · rw [hr]
    intro r' hr'
    have hf := h.ready r' hr'
    unfold Fits at hf ⊢
    split at hf
    · exact hf
    · exact hf
    · exact Multiset.mem_cons_of_mem hf
  · intro fd
    have hold := h.live fd
    unfold registered at hold ⊢
    rw [hl, Table.get?_insert, Multiset.countP_cons]
    by_cases heq : fd = r.fd
    · subst heq
      simp
      omega
    · have hne : ¬r.fd = fd := fun h' => heq h'.symm
      simp [heq, hne, hold]

/-- A wait without a watcher is armed. -/
theorem armBare {r : Registration} (h : Waiting posts m bare kept log) (hr : r ∈ bare)
    (d : Direction) (tag : Tag) : Waiting posts (m.arm r d (.bare tag)) bare kept log := by
  refine h.of_claims ?_ ?_ h.timed (fun w hw => Or.inl hw) h.live
  · intro i d' _
    rw [Manual.arm, claims_concat]
    rfl
  · intro r' hr'
    rcases List.mem_append.mp hr' with hr' | hr'
    · exact h.ready r' hr'
    · rw [List.mem_singleton.mp hr']
      exact hr

end Waiting
end Release
end Scenario
end Wakeup
