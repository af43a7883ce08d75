import Mathlib.Algebra.GroupWithZero.Nat
import Mathlib.Data.Multiset.Range
import Wakeup.Proofs.Arming

/-! The account of a reactor: the waits that are in it and those that left it, with the registrations
and timers that are held by its users. No wait is lost and none is doubled, whatever users do with
what they hold. -/
namespace Wakeup

namespace Manual
variable {m m' : Manual}

section Waits

theorem coe_waits (m : Manual) : (m.waits : Multiset Wait) =
    (m.ready : Multiset ReadyWait).map (·.wait) + (m.timed : Multiset TimedWait).map (·.wait) +
      m.parked := by
  simp only [waits, Multiset.map_coe, Multiset.coe_add]

theorem coe_waits_arm (r : Registration) (d : Direction) (c : Callback) (m : Manual) :
    ((m.arm r d c).waits : Multiset Wait) = ⟨m.tickets, c⟩ ::ₘ m.waits := by
  rw [coe_waits, coe_waits]
  simp only [arm, ← Multiset.coe_add, Multiset.map_add, Multiset.coe_singleton,
    Multiset.map_singleton, ← Multiset.singleton_add]
  ac_rfl

theorem coe_waits_release (r : Registration) (m : Manual) :
    ((m.release r).waits : Multiset Wait) = m.waits := by
  have hready : (m.ready : Multiset ReadyWait) =
      ↑(m.ready.filter (·.registration.id = r.id)) + ↑(m.ready.filter (·.registration.id ≠ r.id)) :=
    (Multiset.filter_add_not (fun x : ReadyWait => x.registration.id = r.id) m.ready).symm
  rw [coe_waits, coe_waits, hready, Multiset.map_add]
  simp only [release, ← Multiset.coe_add, ← Multiset.map_coe]
  ac_rfl

theorem coe_waits_cancel (t : Nat) (m : Manual) :
    ((m.cancel t).waits : Multiset Wait) = m.waits := by
  have htimed : (m.timed : Multiset TimedWait) =
      ↑(m.timed.filter (·.timer = t)) + ↑(m.timed.filter (·.timer ≠ t)) :=
    (Multiset.filter_add_not (fun x : TimedWait => x.timer = t) m.timed).symm
  rw [coe_waits, coe_waits, htimed, Multiset.map_add]
  simp only [cancel, ← Multiset.coe_add, ← Multiset.map_coe]
  ac_rfl

theorem coe_waits_schedule (t deadline : Nat) (c : Callback) (m : Manual) :
    ((m.schedule t deadline c).waits : Multiset Wait) = ⟨m.tickets, c⟩ ::ₘ m.waits := by
  rw [← coe_waits_cancel t m, coe_waits, coe_waits]
  simp only [schedule, ← Multiset.coe_add, Multiset.map_add, Multiset.coe_singleton,
    Multiset.map_singleton, ← Multiset.singleton_add]
  ac_rfl

theorem coe_waits_takeReady {fd : Fd} {d : Direction} {wait : Wait}
    (h : m.takeReady fd d = some (wait, m')) : (m.waits : Multiset Wait) = wait ::ₘ m'.waits := by
  obtain ⟨x, rs, rfl, hperm, rfl⟩ := takeReady_some h
  rw [coe_waits, coe_waits, Multiset.coe_eq_coe.mpr hperm, ← Multiset.cons_coe]
  simp only [Multiset.map_cons, Multiset.cons_add]

theorem coe_waits_takeTimed {deadline : Nat} {wait : Wait}
    (h : m.takeTimed deadline = some (wait, m')) :
    (m.waits : Multiset Wait) = wait ::ₘ m'.waits := by
  obtain ⟨x, ts, rfl, hperm, rfl⟩ := takeTimed_some h
  rw [coe_waits, coe_waits, Multiset.coe_eq_coe.mpr hperm, ← Multiset.cons_coe]
  simp only [Multiset.map_cons, Multiset.cons_add, Multiset.add_cons]

theorem takeReady_sublist {fd : Fd} {d : Direction} {wait : Wait}
    (h : m.takeReady fd d = some (wait, m')) :
    ∃ rs, rs.Sublist m.ready ∧ m' = { m with ready := rs } := by
  obtain ⟨x, -, heq⟩ := Option.map_eq_some_iff.mp h
  exact ⟨_, List.eraseP_sublist, (congrArg Prod.snd heq).symm⟩

theorem takeTimed_sublist {deadline : Nat} {wait : Wait}
    (h : m.takeTimed deadline = some (wait, m')) :
    ∃ ts, ts.Sublist m.timed ∧ m' = { m with timed := ts } := by
  obtain ⟨x, -, heq⟩ := Option.map_eq_some_iff.mp h
  exact ⟨_, List.eraseP_sublist, (congrArg Prod.snd heq).symm⟩

theorem coe_waits_takeParked (m : Manual) :
    (m.waits : Multiset Wait) = m.takeParked.1 + (m.takeParked.2.waits : Multiset Wait) := by
  rw [coe_waits, coe_waits]
  simp only [takeParked, Multiset.coe_nil, add_zero]
  ac_rfl

end Waits

section Arms

/-- How many waits were ever armed. -/
def armed (m : Manual) : Nat :=
  (m.arms.values.map fun s => s.read + s.write).sum + m.timerArms

theorem armed_arm (r : Registration) (d : Direction) (c : Callback) (m : Manual) :
    (m.arm r d c).armed = m.armed + 1 := by
  have hsum (arms : Table (Sides Nat)) :
      (arms.values.map fun s => s.read + s.write).sum =
        ((arms.values : Multiset (Sides Nat)).map fun s => s.read + s.write).sum := by
    rw [Multiset.map_coe, Multiset.sum_coe]
  have hside (s : Sides Nat) :
      (s.modify d (· + 1)).read + (s.modify d (· + 1)).write = s.read + s.write + 1 := by
    cases d
    · exact Nat.add_right_comm ..
    · rfl
  unfold armed arm
  dsimp only
  rw [hsum, hsum, Table.coe_values_insert, Multiset.map_cons, Multiset.sum_cons, hside]
  cases h : m.arms.get? r.fd with
  | none =>
    rw [Table.erase_of_get?_eq_none h]
    change 0 + 0 + 1 + _ + _ = _
    omega
  | some s =>
    rw [Table.coe_values_of_get? h, Multiset.map_cons, Multiset.sum_cons, Option.getD_some]
    omega

end Arms

section Live

/-- A descriptor without registrations is not in the count. -/
theorem forget_ne_zero {live : Table Nat} (h : ∀ fd, live.get? fd ≠ some 0) (fd fd' : Fd) :
    (forget fd live).get? fd' ≠ some 0 := by
  unfold forget
  split
  · exact h fd'
  · split
    · rw [Table.get?_erase]
      split
      · exact Option.some_ne_none 0 |>.symm
      · exact h fd'
    · rename_i hne
      rw [Table.get?_insert]
      split
      · exact fun heq => hne (Option.some.inj heq)
      · exact h fd'

end Live

/-- Some waits are parked, and all others stay as they are, in the order of arming. -/
structure Parks (own : ReadyWait → Prop) (late : TimedWait → Prop) [DecidablePred own]
    [DecidablePred late] (m m' : Manual) : Prop where
  ready : m'.ready = m.ready.filter (¬own ·)
  timed : m'.timed = m.timed.filter (¬late ·)
  parked : m'.parked =
    m.parked ++ (m.ready.filter own).map (·.wait) ++ (m.timed.filter late).map (·.wait)

end Manual

/-- The waits of a reactor, and what its users hold of it. -/
structure Account where
  reactor : Manual := {}
  /-- Registrations that were not dropped. -/
  registrations : Multiset Registration := 0
  /-- Timers that were not dropped. -/
  timers : Multiset Nat := 0
  /-- Waits that were taken out of the reactor, and neither invoked nor thrown away. -/
  kept : Multiset Wait := 0
  invoked : Multiset Wait := 0
  discarded : Multiset Wait := 0

namespace Account

/-- What users can do with a reactor and the waits that they took out of it. -/
inductive Act (a : Account) : Account → Prop
  /-- The clock moves, or a registration is to fail or failed. -/
  | quiet (now : Nat) (refused : List Fd) :
    Act a { a with reactor := { a.reactor with now := now, refused := refused } }
  | register {fd : Fd} {r : Registration} {m : Manual}
    (h : a.reactor.register fd = (.ok r, m)) :
    Act a { a with reactor := m, registrations := r ::ₘ a.registrations }
  | arm {r : Registration} (h : r ∈ a.registrations) (d : Direction) (c : Callback) :
    Act a { a with reactor := a.reactor.arm r d c }
  | drop {r : Registration} {rs : Multiset Registration} (h : a.registrations = r ::ₘ rs) :
    Act a { a with reactor := a.reactor.release r, registrations := rs }
  | newTimer : Act a { a with
      reactor := a.reactor.newTimer.2, timers := a.reactor.newTimer.1 ::ₘ a.timers }
  | schedule {t : Nat} (h : t ∈ a.timers) (deadline : Nat) (c : Callback) :
    Act a { a with reactor := a.reactor.schedule t deadline c }
  | cancel {t : Nat} (h : t ∈ a.timers) : Act a { a with reactor := a.reactor.cancel t }
  | dropTimer {t : Nat} {ts : Multiset Nat} (h : a.timers = t ::ₘ ts) :
    Act a { a with reactor := a.reactor.cancel t, timers := ts }
  | takeReady {fd : Fd} {d : Direction} {wait : Wait} {m : Manual}
    (h : a.reactor.takeReady fd d = some (wait, m)) :
    Act a { a with reactor := m, kept := wait ::ₘ a.kept }
  | takeTimed {deadline : Nat} {wait : Wait} {m : Manual}
    (h : a.reactor.takeTimed deadline = some (wait, m)) :
    Act a { a with reactor := m, kept := wait ::ₘ a.kept }
  | takeParked : Act a { a with
      reactor := a.reactor.takeParked.2, kept := ↑a.reactor.takeParked.1 + a.kept }
  | invoke {wait : Wait} {ws : Multiset Wait} (h : a.kept = wait ::ₘ ws) :
    Act a { a with kept := ws, invoked := wait ::ₘ a.invoked }
  | discard {wait : Wait} {ws : Multiset Wait} (h : a.kept = wait ::ₘ ws) :
    Act a { a with kept := ws, discarded := wait ::ₘ a.discarded }

/-- Any number of acts. -/
abbrev Acts : Account → Account → Prop := Relation.ReflTransGen Act

/-- The waits of an account, wherever they are. -/
def waits (a : Account) : Multiset Wait :=
  ↑a.reactor.waits + a.kept + a.invoked + a.discarded

/-- What holds of all accounts. -/
structure Balanced (a : Account) : Prop where
  /-- Every wait that was ever armed is in one place. -/
  tickets : a.waits.map (·.ticket) = Multiset.range a.reactor.tickets
  armed : a.reactor.armed = a.reactor.tickets
  ready : ∀ x ∈ a.reactor.ready, x.registration ∈ a.registrations
  timed : ∀ x ∈ a.reactor.timed, x.timer ∈ a.timers
  /-- A timer has one wait at most. -/
  single : (a.reactor.timed.map (·.timer)).Nodup
  live : ∀ fd, (a.reactor.live.get? fd).getD 0 = a.registrations.countP (·.fd = fd)
  live_ne_zero : ∀ fd, a.reactor.live.get? fd ≠ some 0
  ready_sorted : a.reactor.ready.Pairwise fun x y => x.wait.ticket < y.wait.ticket
  timed_sorted : a.reactor.timed.Pairwise fun x y => x.wait.ticket < y.wait.ticket
  registrations_nodup : (a.registrations.map (·.id)).Nodup
  registration_lt : ∀ r ∈ a.registrations, r.id < a.reactor.nextId
  timers_nodup : a.timers.Nodup
  timer_lt : ∀ t ∈ a.timers, t < a.reactor.nextId

namespace Balanced
variable {a a' : Account} {r : Registration} {t : Nat}

theorem empty : Balanced {} where
  tickets := rfl
  armed := rfl
  ready := by simp
  timed := by simp
  single := List.nodup_nil
  live := fun _ => rfl
  live_ne_zero := by simp
  ready_sorted := List.Pairwise.nil
  timed_sorted := List.Pairwise.nil
  registrations_nodup := Multiset.nodup_zero
  registration_lt := by simp
  timers_nodup := Multiset.nodup_zero
  timer_lt := by simp

theorem ticket_lt (h : Balanced a) {w : Wait} (hw : w ∈ a.waits) :
    w.ticket < a.reactor.tickets := by
  have hmem := Multiset.mem_map_of_mem (·.ticket) hw
  rw [h.tickets] at hmem
  exact Multiset.mem_range.mp hmem

/-- No wait is in two places, or twice in one. -/
theorem waits_nodup (h : Balanced a) : a.waits.Nodup := by
  refine Multiset.Nodup.of_map (·.ticket) ?_
  rw [h.tickets]
  exact Multiset.nodup_range _

theorem ready_mem_waits {x : ReadyWait} (hx : x ∈ a.reactor.ready) : x.wait ∈ a.waits := by
  have hmem : x.wait ∈ a.reactor.waits := Manual.mem_waits.mpr (Or.inl ⟨x, hx, rfl⟩)
  unfold waits
  simp only [Multiset.mem_add, Multiset.mem_coe]
  exact Or.inl (Or.inl (Or.inl hmem))

theorem timed_mem_waits {x : TimedWait} (hx : x ∈ a.reactor.timed) : x.wait ∈ a.waits := by
  have hmem : x.wait ∈ a.reactor.waits := Manual.mem_waits.mpr (Or.inr (Or.inl ⟨x, hx, rfl⟩))
  unfold waits
  simp only [Multiset.mem_add, Multiset.mem_coe]
  exact Or.inl (Or.inl (Or.inl hmem))

/-- A wait that is armed is the latest. -/
theorem tickets_arm (h : Balanced a) {m : Manual} {c : Callback}
    (hw : (m.waits : Multiset Wait) = ⟨a.reactor.tickets, c⟩ ::ₘ a.reactor.waits)
    (ht : m.tickets = a.reactor.tickets + 1) :
    (waits { a with reactor := m }).map (·.ticket) = Multiset.range m.tickets := by
  have hwaits : waits { a with reactor := m } = ⟨a.reactor.tickets, c⟩ ::ₘ a.waits := by
    unfold waits
    dsimp only
    rw [hw, Multiset.cons_add, Multiset.cons_add, Multiset.cons_add]
  rw [hwaits, Multiset.map_cons, h.tickets, ht, Multiset.range_succ]

/-- A registration that is held is told from others by its id. -/
theorem eq_of_id (h : Balanced a) {r' : Registration} (hr : r ∈ a.registrations)
    (hr' : r' ∈ a.registrations) (hid : r'.id = r.id) : r' = r :=
  Multiset.inj_on_of_nodup_map h.registrations_nodup r' hr' r hr hid

/-- Whose waits are parked when a registration is dropped, which is told by its id. -/
theorem own_iff (h : Balanced a) (hr : r ∈ a.registrations) {x : ReadyWait}
    (hx : x ∈ a.reactor.ready) : x.registration.id = r.id ↔ x.registration = r :=
  ⟨h.eq_of_id hr (h.ready x hx), congrArg Registration.id⟩

/-- To drop a registration parks its own waits, and no other of the same descriptor. -/
theorem parks_release (h : Balanced a) (hr : r ∈ a.registrations) :
    Manual.Parks (·.registration = r) (fun _ => False) a.reactor (a.reactor.release r) := by
  have hown : a.reactor.ready.filter (·.registration.id = r.id) =
      a.reactor.ready.filter (·.registration = r) :=
    List.filter_congr fun x hx => decide_eq_decide.mpr (h.own_iff hr hx)
  constructor
  · exact List.filter_congr fun x hx => decide_eq_decide.mpr (h.own_iff hr hx).not
  · simp [Manual.release]
  · simp [Manual.release, hown]

/-- To cancel a timer parks its own waits. -/
theorem parks_cancel (m : Manual) (t : Nat) :
    Manual.Parks (fun _ => False) (·.timer = t) m (m.cancel t) := by
  constructor
  · simp [Manual.cancel]
  · rfl
  · simp [Manual.cancel]

section Steps

theorem register (h : Balanced a) {fd : Fd} {m : Manual}
    (hr : a.reactor.register fd = (.ok r, m)) :
    Balanced { a with reactor := m, registrations := r ::ₘ a.registrations } := by
  obtain ⟨rfl, rfl⟩ := Manual.register_ok hr
  refine { h with
    ready := fun x hx => Multiset.mem_cons_of_mem (h.ready x hx)
    live := fun fd' => ?_
    live_ne_zero := fun fd' => ?_
    registrations_nodup := ?_
    registration_lt := fun r' hr' => ?_
    timer_lt := fun t ht => Nat.lt_succ_of_lt (h.timer_lt t ht) }
  · dsimp only
    rw [Table.get?_insert, Multiset.countP_cons]
    split
    · rename_i heq
      rw [heq, Option.getD_some, h.live, if_pos rfl]
    · rename_i hne
      rw [h.live, if_neg (Ne.symm hne), Nat.add_zero]
  · rw [Table.get?_insert]
    split
    · simp
    · exact h.live_ne_zero fd'
  · rw [Multiset.map_cons, Multiset.nodup_cons]
    refine ⟨fun hmem => ?_, h.registrations_nodup⟩
    obtain ⟨r', hr', hid⟩ := Multiset.mem_map.mp hmem
    exact (h.registration_lt r' hr').ne hid
  · rcases Multiset.mem_cons.mp hr' with rfl | hr'
    · exact Nat.lt_succ_self _
    · exact Nat.lt_succ_of_lt (h.registration_lt r' hr')

theorem arm (h : Balanced a) (hr : r ∈ a.registrations) (d : Direction) (c : Callback) :
    Balanced { a with reactor := a.reactor.arm r d c } := by
  refine { h with
    tickets := h.tickets_arm (Manual.coe_waits_arm r d c _) rfl
    armed := (Manual.armed_arm r d c _).trans (congrArg Nat.succ h.armed)
    ready := fun x hx => ?_
    ready_sorted := ?_ }
  · rcases List.mem_append.mp hx with hx | hx
    · exact h.ready x hx
    · rw [List.mem_singleton.mp hx]
      exact hr
  · refine List.pairwise_append.mpr ⟨h.ready_sorted, List.pairwise_singleton .., ?_⟩
    intro x hx y hy
    rw [List.mem_singleton.mp hy]
    exact h.ticket_lt (ready_mem_waits hx)

theorem drop (h : Balanced a) {rs : Multiset Registration} (hr : a.registrations = r ::ₘ rs) :
    Balanced { a with reactor := a.reactor.release r, registrations := rs } := by
  have hmem : r ∈ a.registrations := hr ▸ Multiset.mem_cons_self r rs
  have hnodup := h.registrations_nodup
  rw [hr, Multiset.map_cons, Multiset.nodup_cons] at hnodup
  refine { h with
    tickets := ?_
    ready := fun x hx => ?_
    live := fun fd => ?_
    live_ne_zero := Manual.forget_ne_zero h.live_ne_zero r.fd
    ready_sorted := h.ready_sorted.sublist List.filter_sublist
    registrations_nodup := hnodup.2
    registration_lt := fun r' hr' => h.registration_lt r' (hr ▸ Multiset.mem_cons_of_mem hr') }
  · have htickets := h.tickets
    unfold waits at htickets ⊢
    rwa [Manual.coe_waits_release]
  · have hx' := List.mem_filter.mp hx
    have hheld := h.ready x hx'.1
    rw [hr, Multiset.mem_cons] at hheld
    exact hheld.resolve_left fun heq => of_decide_eq_true hx'.2 (congrArg Registration.id heq)
  · have hlive := h.live fd
    rw [hr, Multiset.countP_cons] at hlive
    change ((Manual.forget r.fd a.reactor.live).get? fd).getD 0 = _
    rw [Manual.get?_forget, hlive]
    by_cases hfd : r.fd = fd
    · simp [hfd]
    · simp [hfd, Ne.symm hfd]

theorem newTimer (h : Balanced a) : Balanced { a with
    reactor := a.reactor.newTimer.2, timers := a.reactor.newTimer.1 ::ₘ a.timers } := by
  refine { h with
    timed := fun x hx => Multiset.mem_cons_of_mem (h.timed x hx)
    registration_lt := fun r hr => Nat.lt_succ_of_lt (h.registration_lt r hr)
    timers_nodup := Multiset.nodup_cons.mpr ⟨fun hmem => (h.timer_lt _ hmem).ne rfl, h.timers_nodup⟩
    timer_lt := fun t ht => ?_ }
  rcases Multiset.mem_cons.mp ht with rfl | ht
  · exact Nat.lt_succ_self _
  · exact Nat.lt_succ_of_lt (h.timer_lt t ht)

theorem cancel (h : Balanced a) (t : Nat) :
    Balanced { a with reactor := a.reactor.cancel t } := by
  refine { h with
    tickets := ?_
    timed := fun x hx => h.timed x (List.mem_of_mem_filter hx)
    single := h.single.sublist (List.filter_sublist.map _)
    timed_sorted := h.timed_sorted.sublist List.filter_sublist }
  have htickets := h.tickets
  unfold waits at htickets ⊢
  rwa [Manual.coe_waits_cancel]

theorem schedule (h : Balanced a) (ht : t ∈ a.timers) (deadline : Nat) (c : Callback) :
    Balanced { a with reactor := a.reactor.schedule t deadline c } := by
  have hcancel := h.cancel t
  refine { hcancel with
    tickets := h.tickets_arm (Manual.coe_waits_schedule t deadline c _) rfl
    armed := congrArg Nat.succ h.armed
    timed := fun x hx => ?_
    single := ?_
    timed_sorted := ?_ }
  · rcases List.mem_append.mp hx with hx | hx
    · exact hcancel.timed x hx
    · rw [List.mem_singleton.mp hx]
      exact ht
  · simp only [Manual.schedule, List.map_append]
    rw [List.nodup_append_comm]
    refine List.nodup_cons.mpr ⟨fun hmem => ?_, hcancel.single⟩
    obtain ⟨x, hx, heq⟩ := List.mem_map.mp hmem
    exact of_decide_eq_true (List.mem_filter.mp hx).2 heq
  · refine List.pairwise_append.mpr ⟨hcancel.timed_sorted, List.pairwise_singleton .., ?_⟩
    intro x hx y hy
    rw [List.mem_singleton.mp hy]
    exact h.ticket_lt (timed_mem_waits (List.mem_of_mem_filter hx))

theorem dropTimer (h : Balanced a) {ts : Multiset Nat} (ht : a.timers = t ::ₘ ts) :
    Balanced { a with reactor := a.reactor.cancel t, timers := ts } := by
  have hcancel := h.cancel t
  refine { hcancel with
    timed := fun x hx => ?_
    timers_nodup := (Multiset.nodup_cons.mp (ht ▸ h.timers_nodup)).2
    timer_lt := fun t' ht' => h.timer_lt t' (ht ▸ Multiset.mem_cons_of_mem ht') }
  have hheld := hcancel.timed x hx
  change x.timer ∈ a.timers at hheld
  rw [ht, Multiset.mem_cons] at hheld
  exact hheld.resolve_left (of_decide_eq_true (List.mem_filter.mp hx).2)

/-- A wait that changes its place stays in the account. -/
theorem of_waits (h : Balanced a) (hw : a'.waits = a.waits)
    (hr : a'.reactor = { a.reactor with
      ready := a'.reactor.ready, timed := a'.reactor.timed, parked := a'.reactor.parked })
    (hready : a'.reactor.ready.Sublist a.reactor.ready)
    (htimed : a'.reactor.timed.Sublist a.reactor.timed)
    (hregistrations : a'.registrations = a.registrations) (htimers : a'.timers = a.timers) :
    Balanced a' where
  tickets := by rw [hw, h.tickets, hr]
  armed := by
    rw [hr]
    exact h.armed
  ready := fun x hx => hregistrations ▸ h.ready x (hready.subset hx)
  timed := fun x hx => htimers ▸ h.timed x (htimed.subset hx)
  single := h.single.sublist (htimed.map _)
  live := by
    rw [hr, hregistrations]
    exact h.live
  live_ne_zero := by
    rw [hr]
    exact h.live_ne_zero
  ready_sorted := h.ready_sorted.sublist hready
  timed_sorted := h.timed_sorted.sublist htimed
  registrations_nodup := hregistrations ▸ h.registrations_nodup
  registration_lt := by
    rw [hr, hregistrations]
    exact h.registration_lt
  timers_nodup := htimers ▸ h.timers_nodup
  timer_lt := by
    rw [hr, htimers]
    exact h.timer_lt

theorem act (h : Balanced a) (ha : Act a a') : Balanced a' := by
  cases ha with
  | quiet => exact { h with }
  | register hr => exact h.register hr
  | arm hr d c => exact h.arm hr d c
  | drop hr => exact h.drop hr
  | newTimer => exact h.newTimer
  | schedule ht deadline c => exact h.schedule ht deadline c
  | cancel ht => exact h.cancel _
  | dropTimer ht => exact h.dropTimer ht
  | takeReady ht =>
    have hw := Manual.coe_waits_takeReady ht
    obtain ⟨rs, hsub, rfl⟩ := Manual.takeReady_sublist ht
    refine h.of_waits ?_ rfl hsub (.refl _) rfl rfl
    simp only [waits, hw, Multiset.cons_add, Multiset.add_cons]
  | takeTimed ht =>
    have hw := Manual.coe_waits_takeTimed ht
    obtain ⟨ts, hsub, rfl⟩ := Manual.takeTimed_sublist ht
    refine h.of_waits ?_ rfl (.refl _) hsub rfl rfl
    simp only [waits, hw, Multiset.cons_add, Multiset.add_cons]
  | takeParked =>
    refine h.of_waits ?_ rfl (.refl _) (.refl _) rfl rfl
    simp only [waits, Manual.coe_waits_takeParked a.reactor]
    ac_rfl
  | invoke hk =>
    refine h.of_waits ?_ rfl (.refl _) (.refl _) rfl rfl
    simp only [waits, hk, Multiset.cons_add, Multiset.add_cons]
  | discard hk =>
    refine h.of_waits ?_ rfl (.refl _) (.refl _) rfl rfl
    simp only [waits, hk, Multiset.cons_add, Multiset.add_cons]

theorem acts (h : Balanced a) (ha : Acts a a') : Balanced a' := by
  induction ha with
  | refl => exact h
  | tail _ hact ih => exact ih.act hact

end Steps

section Places

/-- The waits that were ever armed, place by place. -/
theorem armed_eq (h : Balanced a) : a.reactor.armed = a.reactor.ready.length +
    a.reactor.timed.length + a.reactor.parked.length + a.kept.card + a.invoked.card +
    a.discarded.card := by
  have hcard := congrArg Multiset.card h.tickets
  rw [Multiset.card_map, Multiset.card_range] at hcard
  rw [h.armed, ← hcard]
  simp only [waits, Manual.waits, Multiset.card_add, Multiset.coe_card, List.length_append,
    List.length_map]

theorem invoked_nodup (h : Balanced a) : a.invoked.Nodup := by
  have hleft := (Multiset.nodup_add.mp h.waits_nodup).1
  exact (Multiset.nodup_add.mp hleft).2.1

/-- No callback that was called is parked. -/
theorem notMem_invoked (h : Balanced a) {w : Wait} (hw : w ∈ a.reactor.parked) :
    w ∉ a.invoked := by
  have hleft := (Multiset.nodup_add.mp h.waits_nodup).1
  have hmem : w ∈ a.reactor.waits := Manual.mem_waits.mpr (Or.inr (Or.inr hw))
  exact Multiset.disjoint_left.mp (Multiset.nodup_add.mp hleft).2.2
    (Multiset.mem_add.mpr (Or.inl (Multiset.mem_coe.mpr hmem)))

end Places
end Balanced

/-- What is withdrawn in an account is all that its owner waits for, and nothing else. -/
structure Withdraws (a : Account) : Prop where
  drop : ∀ r ∈ a.registrations, 0 < (a.reactor.live.get? r.fd).getD 0 ∧
    Manual.Parks (·.registration = r) (fun _ => False) a.reactor (a.reactor.release r)
  cancel : ∀ t ∈ a.timers,
    Manual.Parks (fun _ => False) (·.timer = t) a.reactor (a.reactor.cancel t)
  schedule : ∀ t ∈ a.timers, ∀ deadline c, ∃ m,
    Manual.Parks (fun _ => False) (·.timer = t) a.reactor m ∧
      a.reactor.schedule t deadline c = { m with
        tickets := a.reactor.tickets + 1
        timerArms := a.reactor.timerArms + 1
        timed := m.timed ++ [⟨t, deadline, ⟨a.reactor.tickets, c⟩⟩] }

theorem Balanced.withdraws {a : Account} (h : Balanced a) : a.Withdraws where
  drop := by
    intro r hr
    rw [h.live]
    exact ⟨Multiset.countP_pos_of_mem hr rfl, h.parks_release hr⟩
  cancel := fun t _ => parks_cancel a.reactor t
  schedule := fun t _ _ _ => ⟨a.reactor.cancel t, parks_cancel a.reactor t, rfl⟩

end Account
end Wakeup
