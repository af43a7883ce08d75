import Wakeup.Proofs.Contract
import Wakeup.Proofs.Polls

/-! Levels from edges. The driver hears of a descriptor only when something happens to it, yet waits
complete when it is ready and only then, whatever was read and written since. -/
namespace Wakeup.Tasks
variable {r r' : Tasks} {log acts : List Act} {i : Nat} {s : Source} {d : Direction}

theorem condition_congr (h : r'.sockets = r.sockets) (fd : Fd) :
    r'.condition fd = r.condition fd := by
  unfold condition socket?
  rw [h]

private theorem condition_eq (fd : Fd) (r : Tasks) : r.condition fd =
    (((Socket.place? fd).bind fun i => r.sockets[i]?).map Socket.condition).getD {} := by
  unfold condition socket?
  cases Socket.place? fd with
  | none => rfl
  | some i =>
    rw [Option.bind_some, Option.bind_some]
    cases r.sockets[i]? with
    | none => rfl
    | some x =>
      rw [Option.filter_some]
      cases hclosed : x.closed with
      | false => rfl
      | true =>
        -- what is closed reports nothing
        have hnone : x.condition = {} := if_pos hclosed
        rw [Option.map_some, hnone]
        rfl

/-- What happens to a socket matters to its own descriptor, if it changes what is reported. -/
theorem condition_modifySocket {fd : Fd} {f : Socket → Socket}
    (h : Socket.place? fd = some i → ∀ x, (f x).condition = x.condition) (r : Tasks) :
    (r.modifySocket i f).condition fd = r.condition fd := by
  rw [condition_eq, condition_eq]
  cases hp : Socket.place? fd with
  | none => rfl
  | some j =>
    change (((r.sockets.modify i f)[j]?).map Socket.condition).getD {} = _
    rw [List.getElem?_modify, Option.bind_some]
    cases r.sockets[j]? with
    | none => rfl
    | some x =>
      by_cases hij : i = j
      · have hsame := h (hij ▸ hp) x
        simp only [hij, if_true, Option.map_eq_map, Option.map_some, hsame]
      · simp only [hij, if_false, Option.map_eq_map, Option.map_some]

private theorem descriptor_of_place? {fd : Fd} (h : Socket.place? fd = some i) :
    fd = Socket.descriptor i := by
  unfold Socket.place? at h
  split at h
  · rename_i hle
    have hcast := Int.toNat_of_nonneg (Int.sub_nonneg_of_le hle)
    rw [Option.some.inj h] at hcast
    exact (Int.sub_add_cancel fd 3).symm.trans (congrArg (· + 3) hcast.symm)
  · cases h

private theorem condition_setNonblocking {fd fd' : Fd} {res : Except IoError Unit}
    (h : r.setNonblocking fd = (res, r')) : r'.condition fd' = r.condition fd' := by
  unfold setNonblocking at h
  repeat' split at h
  all_goals cases h
  · exact condition_modifySocket (f := ({ · with nonblocking := true })) (fun _ _ => rfl) r
  · rfl
  · rfl

/-- Cached readiness includes what the operating system reports, but for events that the driver has
not looked at. -/
def Covered (r : Tasks) : Prop :=
  ∀ (i : Nat) (s : Source), r.sources[i]? = some s → s.released = false →
    ∀ d, (r.condition s.fd).ready d = true → s.cache.get d = true ∨ i ∈ r.events

/-- Registrations are as they were, and no less is cached. -/
structure Widens (r r' : Tasks) : Prop where
  sockets : r'.sockets = r.sockets
  sources : ∀ (i : Nat) (s' : Source), r'.sources[i]? = some s' →
    ∃ s, r.sources[i]? = some s ∧ s'.fd = s.fd ∧ s'.released = s.released ∧
      ∀ d, s.cache.get d = true → s'.cache.get d = true

namespace Widens
variable {r'' : Tasks}

theorem of_sources (hsockets : r'.sockets = r.sockets) (hsources : r'.sources = r.sources) :
    Widens r r' :=
  ⟨hsockets, fun _ s' hs => ⟨s', hsources ▸ hs, rfl, rfl, fun _ => id⟩⟩

theorem refl (r : Tasks) : Widens r r := of_sources rfl rfl

theorem trans (h : Widens r r') (h' : Widens r' r'') : Widens r r'' := by
  refine ⟨h'.sockets.trans h.sockets, fun i s'' hs => ?_⟩
  obtain ⟨s', hs', hfd', hr', hcache'⟩ := h'.sources i s'' hs
  obtain ⟨s, hs, hfd, hr, hcache⟩ := h.sources i s' hs'
  exact ⟨s, hs, hfd'.trans hfd, hr'.trans hr, fun d hd => hcache' d (hcache d hd)⟩

theorem modifySource {f : Source → Source}
    (hf : ∀ s, r.sources[i]? = some s → (f s).fd = s.fd ∧ (f s).released = s.released ∧
      ∀ d, s.cache.get d = true → (f s).cache.get d = true) : Widens r (r.modifySource i f) := by
  refine ⟨rfl, fun j s' hs' => ?_⟩
  change (r.sources.modify i f)[j]? = some s' at hs'
  rw [List.getElem?_modify] at hs'
  obtain ⟨s, hs, rfl⟩ := Option.map_eq_some_iff.mp hs'
  by_cases hij : i = j
  · subst hij
    rw [if_pos rfl]
    exact ⟨s, hs, hf s hs⟩
  · rw [if_neg hij]
    exact ⟨s, hs, rfl, rfl, fun _ => id⟩

theorem wakeHolder (slot : Option Nat) (r : Tasks) : Widens r (r.wakeHolder slot) := by
  obtain ⟨queue, hqueue⟩ := wakeHolder_eq slot r
  rw [hqueue]
  exact of_sources rfl rfl

/-- What was covered still is. -/
theorem covered (h : Widens r r') (hc : Covered r) (he : ∀ i ∈ r.events, i ∈ r'.events) :
    Covered r' := by
  intro i s' hs' hr' d hd
  obtain ⟨s, hs, hfd, hr, hcache⟩ := h.sources i s' hs'
  rw [hfd, condition_congr h.sockets] at hd
  exact (hc i s hs (hr ▸ hr') d hd).imp (hcache d) (he i)

end Widens

theorem events_wakeHolder (slot : Option Nat) (r : Tasks) :
    (r.wakeHolder slot).events = r.events := by
  obtain ⟨queue, hqueue⟩ := wakeHolder_eq slot r
  rw [hqueue]

/-- An event is recorded, and nothing else. -/
theorem report_spec (i : Nat) (r : Tasks) : Widens r (r.report i) ∧
    i ∈ (r.report i).events ∧ ∀ j ∈ r.events, j ∈ (r.report i).events := by
  unfold report
  split
  · exact ⟨.refl r, ‹_›, fun _ => id⟩
  · refine ⟨.of_sources rfl rfl, ?_, fun j hj => List.mem_append_left _ hj⟩
    exact List.mem_append_right _ (List.mem_singleton_self i)

/-- When the driver looks at a registration, what is ready is cached. -/
theorem notice_spec (i : Nat) (r : Tasks) : Widens r (r.notice i) ∧
    (r.notice i).events = r.events ∧ ∀ s', (r.notice i).sources[i]? = some s' →
      ∀ d, (r.condition s'.fd).ready d = true → s'.cache.get d = true := by
  unfold notice
  cases hs : r.sources[i]? with
  | none =>
    refine ⟨.refl r, rfl, fun s' hs' => ?_⟩
    cases hs.symm.trans hs'
  | some s =>
    dsimp only
    let c := r.condition s.fd
    let cache := s.cache.merge ⟨c.ready .read, c.ready .write⟩
    have hwake (l : List Direction) (r : Tasks) : Widens r
        (l.foldl (fun r d => r.wakeHolder (s.slots.get d)) r) ∧
          (l.foldl (fun r d => r.wakeHolder (s.slots.get d)) r).events = r.events := by
      induction l generalizing r with
      | nil => exact ⟨.refl r, rfl⟩
      | cons d l ih =>
        obtain ⟨hwidens, hevents⟩ := ih (r.wakeHolder (s.slots.get d))
        exact ⟨(Widens.wakeHolder _ r).trans hwidens, hevents.trans (events_wakeHolder _ r)⟩
    have hmodify : Widens r (r.modifySource i ({ · with cache := cache })) := by
      refine .modifySource fun s₀ hs₀ => ⟨rfl, rfl, fun d hd => ?_⟩
      cases hs.symm.trans hs₀
      rw [Sides.get_merge, hd, Bool.true_or]
    obtain ⟨hwidens, hevents⟩ := hwake (Direction.all.filter c.ready)
      (r.modifySource i ({ · with cache := cache }))
    refine ⟨hmodify.trans hwidens, hevents, fun s' hs' d hd => ?_⟩
    obtain ⟨s₁, hs₁, hfd, -, hcache⟩ := hwidens.sources i s' hs'
    change (r.sources.modify i ({ · with cache := cache }))[i]? = some s₁ at hs₁
    rw [List.getElem?_modify_eq, hs] at hs₁
    cases hs₁
    refine hcache d ?_
    have hready : (Sides.mk (c.ready .read) (c.ready .write)).get d = c.ready d := by
      cases d <;> rfl
    have hd' : c.ready d = true := by
      rw [hfd] at hd
      exact hd
    rw [Sides.get_merge, hready, hd', Bool.or_true]

private theorem notices_spec (l : List Nat) (r : Tasks) :
    Widens r (l.foldl (fun r i => notice i r) r) ∧ ∀ i ∈ l, ∀ s',
      (l.foldl (fun r i => notice i r) r).sources[i]? = some s' →
      ∀ d, (r.condition s'.fd).ready d = true → s'.cache.get d = true := by
  induction l generalizing r with
  | nil => exact ⟨.refl r, fun i hi => absurd hi List.not_mem_nil⟩
  | cons j l ih =>
    obtain ⟨hfirst, -, hcached⟩ := r.notice_spec j
    obtain ⟨hrest, hall⟩ := ih (r.notice j)
    refine ⟨hfirst.trans hrest, fun i hi s' hs' d hd => ?_⟩
    rw [← condition_congr hfirst.sockets] at hd
    rcases List.mem_cons.mp hi with rfl | hi
    · obtain ⟨s, hs, hfd, -, hcache⟩ := hrest.sources i s' hs'
      rw [hfd, condition_congr hfirst.sockets] at hd
      exact hcache d (hcached s hs d hd)
    · exact hall i hi s' hs' d hd

private theorem expire_widens (r : Tasks) : Widens r r.expire ∧ r.expire.events = r.events := by
  have hwake (l : List Task) (r : Tasks) : Widens r (l.foldl (fun r t => r.wake t.id) r) ∧
      (l.foldl (fun r t => r.wake t.id) r).events = r.events := by
    induction l generalizing r with
    | nil => exact ⟨.refl r, rfl⟩
    | cons t l ih =>
      obtain ⟨hrest, hevents⟩ := ih (r.wake t.id)
      exact ⟨(Widens.wakeHolder (some t.id) r).trans hrest,
        hevents.trans (events_wakeHolder (some t.id) r)⟩
  have hturned : Widens r { r with turned := r.now } := .of_sources rfl rfl
  unfold expire
  exact ⟨hturned.trans (hwake _ _).1, (hwake _ _).2⟩

namespace Covered

theorem of_eq (h : Covered r) (hsockets : r'.sockets = r.sockets)
    (hsources : r'.sources = r.sources) (hevents : r'.events = r.events) : Covered r' :=
  (Widens.of_sources hsockets hsources).covered h fun _ hi => hevents ▸ hi

/-- The driver looks at all events. -/
theorem turn (h : Covered r) : Covered r.turn := by
  let r₀ : Tasks := { r with events := [] }
  obtain ⟨hnotices, hcached⟩ := notices_spec r.events r₀
  obtain ⟨hexpire, -⟩ := expire_widens (r.events.foldl (fun r i => notice i r) r₀)
  intro i s' hs' hr' d hd
  left
  obtain ⟨s₁, hs₁, hfd₁, hr₁, hcache₁⟩ := hexpire.sources i s' hs'
  obtain ⟨s, hs, hfd, hr, hcache⟩ := hnotices.sources i s₁ hs₁
  have hcondition : r.turn.condition s₁.fd = r.condition s₁.fd :=
    (condition_congr hexpire.sockets _).trans (condition_congr hnotices.sockets _)
  have hd₁ : (r.condition s₁.fd).ready d = true := by
    rw [← hcondition, ← hfd₁]
    exact hd
  have hd₀ : (r.condition s.fd).ready d = true := hfd ▸ hd₁
  rcases h i s hs (by rw [← hr, ← hr₁, hr']) d hd₀ with hmem | hmem
  · exact hcache₁ d (hcache d hmem)
  · exact hcache₁ d (hcached i hmem s₁ hs₁ d hd₁)

/-- What a peer does is an event. -/
theorem disturb (h : Covered r)
    (hsingle : ∀ (i j : Nat) (s s' : Source), r.sources[i]? = some s → r.sources[j]? = some s' →
      s.fd = s'.fd → s.released = false → s'.released = false → i = j) (k : Nat) (x : Socket) :
    Covered (r.disturb k x) := by
  let r₁ := r.modifySocket k fun _ => x
  have hothers : ∀ (i : Nat) (s : Source), r.sources[i]? = some s → s.released = false →
      s.fd ≠ Socket.descriptor k → ∀ d, (r₁.condition s.fd).ready d = true →
        s.cache.get d = true ∨ i ∈ r.events := by
    intro i s hs hr hfd d hd
    have hcondition : r₁.condition s.fd = r.condition s.fd :=
      condition_modifySocket (fun hp => absurd (descriptor_of_place? hp) hfd) r
    exact h i s hs hr d (hcondition ▸ hd)
  unfold Tasks.disturb
  dsimp only
  cases hfind : r₁.sources.findIdx? fun s => s.fd == Socket.descriptor k && !s.released with
  | none =>
    intro i s hs hr d hd
    refine hothers i s hs hr (fun hfd => ?_) d hd
    have hnone := List.findIdx?_eq_none_iff.mp hfind s (List.mem_of_getElem? hs)
    rw [hfd, hr, beq_self_eq_true] at hnone
    cases hnone
  | some j =>
    obtain ⟨hwidens, hmem, hkept⟩ := r₁.report_spec j
    intro i s' hs' hr' d hd
    obtain ⟨s, hs, hfd, hr, hcache⟩ := hwidens.sources i s' hs'
    have hr : s.released = false := hr.symm.trans hr'
    by_cases hk : s.fd = Socket.descriptor k
    · right
      obtain ⟨hj, hp, -⟩ := List.findIdx?_eq_some_iff_getElem.mp hfind
      have hboth := Bool.and_eq_true_iff.mp hp
      have hi : i = j := by
        refine hsingle i j s _ hs (List.getElem?_eq_getElem hj) ?_ hr ?_
        · exact hk.trans (beq_iff_eq.mp hboth.1).symm
        · rw [← Bool.not_eq_true]
          exact fun hr => Bool.false_ne_true ((congrArg (!·) hr).symm.trans hboth.2)
      exact hi ▸ hmem
    · rw [hfd, condition_congr hwidens.sockets] at hd
      exact (hothers i s hs hr hk d hd).imp (hcache d) (hkept i)

private theorem setNonblocking (h : Covered r) {fd : Fd} {res : Except IoError Unit} {r₁ : Tasks}
    (hn : r.setNonblocking fd = (res, r₁)) : Covered r₁ := by
  have hsources := (book_setNonblocking hn).2
  have hevents : r₁.events = r.events := by
    unfold Tasks.setNonblocking at hn
    repeat' split at hn
    all_goals cases hn
    all_goals rfl
  intro i s hs hr d hd
  rw [condition_setNonblocking hn] at hd
  rw [hevents]
  exact h i s (hsources ▸ hs) hr d hd

/-- A registration that is added may be ready without an event, and no other. -/
theorem append (h : Covered r) (fd : Fd) {i : Nat} {s : Source}
    (hs : (r.sources ++ [{ fd := fd }])[i]? = some s) (hr : s.released = false) (d : Direction)
    (hd : (r.condition s.fd).ready d = true) :
    (s.cache.get d = true ∨ i ∈ r.events) ∨ i = r.sources.length ∧ s.fd = fd := by
  rcases Nat.lt_trichotomy i r.sources.length with hlt | heq | hgt
  · have hs₁ : r.sources[i]? = some s := by
      rw [← hs]
      exact (List.getElem?_append_left hlt).symm
    exact Or.inl (h i s hs₁ hr d hd)
  · right
    subst heq
    cases hs.symm.trans List.getElem?_concat_length
    exact ⟨rfl, rfl⟩
  · have hnone : (r.sources ++ [{ fd := fd }])[i]? = none := by
      refine List.getElem?_eq_none ?_
      rw [List.length_append]
      exact hgt
    cases hs.symm.trans hnone

/-- A registration that is ready has an event at once. -/
theorem register (h : Covered r) (fd : Fd) : Covered (r.register fd).2 := by
  unfold Tasks.register
  split
  · exact h
  · cases hn : r.setNonblocking fd with
    | mk res r₁ =>
      have h₁ : Covered r₁ := h.setNonblocking hn
      cases res with
      | error e => exact h₁
      | ok =>
        dsimp only
        cases r₁.watchable fd with
        | error e => exact h₁
        | ok =>
          dsimp only
          let r₂ : Tasks := { r₁ with sources := r₁.sources ++ [{ fd := fd }] }
          split
          · obtain ⟨hwidens, hmem, hkept⟩ := r₂.report_spec r₁.sources.length
            intro i s' hs' hr' d hd
            obtain ⟨s, hs, hfd, hr, hcache⟩ := hwidens.sources i s' hs'
            rw [hfd, condition_congr hwidens.sockets] at hd
            rcases h₁.append fd hs (hr.symm.trans hr') d hd with hcovered | ⟨heq, -⟩
            · exact hcovered.imp (hcache d) (hkept i)
            · exact Or.inr (heq ▸ hmem)
          · rename_i hnot
            intro i s hs hr d hd
            rcases h₁.append fd hs hr d hd with hcovered | ⟨-, hfd⟩
            · exact hcovered
            · rw [hfd] at hd
              exact absurd (List.any_eq_true.mpr ⟨d, d.mem_all, hd⟩) hnot

private theorem arm (h : Covered r) (x : Registration) (d : Direction) (c : Callback) :
    Covered (r.arm x d c) := by
  let give (s : Source) : Source := { s with slots := s.slots.set d (some r.spawned) }
  have hgive : Widens r (r.modifySource x.id give) :=
    .modifySource fun _ _ => ⟨rfl, rfl, fun _ => id⟩
  have hwake := Widens.wakeHolder (r.readyHolder x.id d) (r.modifySource x.id give)
  have hspawn : Widens ((r.modifySource x.id give).wakeHolder (r.readyHolder x.id d))
      (r.arm x d c) := .of_sources rfl rfl
  refine ((hgive.trans hwake).trans hspawn).covered h fun i hi => ?_
  have hevents : (r.arm x d c).events = (r.modifySource x.id give).events :=
    events_wakeHolder _ _
  exact hevents ▸ hi

/-- A registration that is released has no more events. -/
theorem release (h : Covered r) (x : Registration) : Covered (r.release x) := by
  let clear (s : Source) : Source := { s with slots := .both none, released := true }
  let r₁ := r.modifySource x.id clear
  let r₂ := r₁.wakeHolder (r.readyHolder x.id .read)
  let r₃ := r₂.wakeHolder (r.readyHolder x.id .write)
  have hwidens : Widens r₁ r₃ := (Widens.wakeHolder _ r₁).trans (Widens.wakeHolder _ r₂)
  have hevents : r₃.events = r.events :=
    (events_wakeHolder _ r₂).trans (events_wakeHolder _ r₁)
  intro i s' hs' hr' d hd
  obtain ⟨s₁, hs₁, hfd₁, hr₁, hcache⟩ := hwidens.sources i s' hs'
  change (r.sources.modify x.id clear)[i]? = some s₁ at hs₁
  rw [List.getElem?_modify] at hs₁
  obtain ⟨s, hs, rfl⟩ := Option.map_eq_some_iff.mp hs₁
  by_cases hi : x.id = i
  · rw [if_pos hi] at hr₁
    cases hr₁.symm.trans hr'
  · rw [if_neg hi] at hfd₁ hr₁ hcache
    have hcondition : (r.release x).condition s'.fd = r.condition s.fd := by
      rw [hfd₁]
      exact condition_congr hwidens.sockets s.fd
    rw [hcondition] at hd
    refine (h i s hs (hr₁.symm.trans hr') d hd).imp (hcache d) fun hmem => ?_
    refine List.mem_filter.mpr ⟨?_, decide_eq_true fun heq => hi heq.symm⟩
    change i ∈ r₃.events
    rw [hevents]
    exact hmem

/-- A poll clears no readiness that is reported. -/
theorem poll (h : Covered r) {answers : Fd → Answers}
    (ha : ∀ s ∈ r.sources, s.released = false → (answers s.fd).Reports (r.condition s.fd))
    (t : Task) : Covered (r.poll answers t).2 := by
  unfold Tasks.poll
  split
  · split
    · exact h
    · rename_i i d _
      cases hs : r.sources[i]? with
      | none => exact h
      | some s =>
        dsimp only
        split
        · exact h
        · rename_i hr
          have hr : s.released = false := Bool.eq_false_iff.mpr hr
          have hreports := ha s (List.mem_of_getElem? hs) hr
          intro j s' hs' hr' d' hd
          change (r.sources.modify i _)[j]? = some s' at hs'
          rw [List.getElem?_modify] at hs'
          obtain ⟨s₀, hs₀, rfl⟩ := Option.map_eq_some_iff.mp hs'
          by_cases hij : i = j
          · subst hij
            cases hs.symm.trans hs₀
            rw [if_pos rfl] at hd ⊢
            by_cases hi : i ∈ r.events
            · exact Or.inr hi
            · left
              refine Answers.get_poll_of_ready hreports (fun d hd => ?_) hd
              exact (h i s hs hr d hd).resolve_right hi
          · rw [if_neg hij] at hr' hd ⊢
            exact h j s₀ hs₀ hr' d' hd
  · exact h

private theorem pollWith (h : Covered r) {answers : Fd → Answers}
    (ha : ∀ s ∈ r.sources, s.released = false → (answers s.fd).Reports (r.condition s.fd))
    (id : Nat) : Covered (r.pollWith answers id).2 := by
  unfold Tasks.pollWith
  cases r.tasks.find? (·.id == id) with
  | none => exact h
  | some t =>
    have hpoll := h.poll ha t
    dsimp only
    cases hp : r.poll answers t with
    | mk outcome r' =>
      rw [hp] at hpoll
      cases outcome with
      | none => exact hpoll
      | some o => exact hpoll.of_eq rfl rfl rfl

end Covered

/-- What happens to a task reactor, to its driver and to sockets. -/
inductive Change : Tasks → List Act → Tasks → Prop
  /-- The local ends of sockets are used, which makes none ready that is registered. -/
  | used {r : Tasks} {sockets : List Socket}
    (h : ∀ s ∈ r.sources, s.released = false → ∀ d,
      ({ r with sockets := sockets }.condition s.fd).ready d = true →
        (r.condition s.fd).ready d = true) : Change r [] { r with sockets := sockets }
  /-- A peer does anything to a socket. -/
  | disturbed (r : Tasks) (i : Nat) (x : Socket) : Change r [] (r.disturb i x)
  | turned (r : Tasks) : Change r [] r.turn
  | elapsed (r : Tasks) (now : Nat) : Change r [] { r with now := now }
  | queued (r : Tasks) (queue : List Nat) : Change r [] { r with queue := queue }
  | registered (r : Tasks) (fd : Fd) : Change r [] (r.register fd).2
  | armed {r : Tasks} {x : Registration} (hx : r.Live x) (d : Direction) (c : Callback) :
    Change r [.armed ⟨r.spawned, .readiness x.id d, c⟩] (r.arm x d c)
  | released {r : Tasks} {x : Registration} (hx : r.Live x) :
    Change r [.released x.id] (r.release x)
  | timed (r : Tasks) : Change r [] r.newTimer.2
  | scheduled (r : Tasks) (timer deadline : Nat) (c : Callback) :
    Change r [.armed ⟨r.spawned, .deadline timer deadline, c⟩] (r.schedule timer deadline c)
  | canceled (r : Tasks) (timer : Nat) : Change r [] (r.cancel timer)
  /-- A task is polled, and inquiries that do not fail report the condition of the descriptor. -/
  | polled {r : Tasks} {answers : Fd → Answers} {id : Nat}
    (h : ∀ s ∈ r.sources, s.released = false → (answers s.fd).Reports (r.condition s.fd))
    (hp : (r.pollWith answers id).1 = none) : Change r [] (r.pollWith answers id).2
  | completed {r : Tasks} {answers : Fd → Answers} {t : Task} {o : Outcome}
    (h : ∀ s ∈ r.sources, s.released = false → (answers s.fd).Reports (r.condition s.fd))
    (ht : t ∈ r.tasks) (hp : (r.pollWith answers t.id).1 = some (t.callback, o)) :
    Change r [.invoked t o] (r.pollWith answers t.id).2

private theorem Change.step (h : Change r acts r') : Step r acts r' := by
  cases h with
  | used => exact .idle rfl
  | disturbed i x => exact .idle (book_disturb i x r)
  | turned => exact .idle (book_turn r)
  | elapsed => exact .idle rfl
  | queued => exact .idle rfl
  | registered fd => exact .register r fd
  | armed hx d c => exact .arm hx d c
  | released hx => exact .release hx
  | timed => exact .newTimer r
  | scheduled timer deadline c => exact .schedule r timer deadline c
  | canceled timer => exact .cancel r timer
  | polled _ hp => exact .poll hp
  | completed _ ht hp => exact .invoke ht hp

private theorem Covered.change (hc : Covered r) (hsound : Sound log r.book) (h : Change r acts r') :
    Covered r' := by
  cases h with
  | used h => exact fun i s hs hr d hd => hc i s hs hr d (h s (List.mem_of_getElem? hs) hr d hd)
  | disturbed i x =>
    refine hc.disturb (fun j k s s' hs hs' hfd hr hr' => ?_) i x
    have hbook {j : Nat} {s : Source} (hs : r.sources[j]? = some s) :
        r.book.sources[j]? = some s.uncached := by
      rw [getElem?_book, hs]
      rfl
    exact hsound.single j k _ _ (hbook hs) (hbook hs') hfd hr hr'
  | turned => exact hc.turn
  | elapsed => exact hc.of_eq rfl rfl rfl
  | queued => exact hc.of_eq rfl rfl rfl
  | registered fd => exact hc.register fd
  | armed hx d c => exact hc.arm _ d c
  | released hx => exact hc.release _
  | timed => exact hc.of_eq rfl rfl rfl
  | scheduled timer deadline c =>
    obtain ⟨queue, hwake⟩ := wakeHolder_eq (r.timedHolder timer)
      { r with timers := r.timers.modify timer fun _ => some r.spawned }
    have hschedule : r.schedule timer deadline c =
        spawn (.deadline timer deadline) c { r with
          timers := r.timers.modify timer fun _ => some r.spawned
          queue := queue } := congrArg (spawn (.deadline timer deadline) c) hwake
    rw [hschedule]
    exact hc.of_eq rfl rfl rfl
  | canceled timer =>
    obtain ⟨queue, hwake⟩ := wakeHolder_eq (r.timedHolder timer)
      { r with timers := r.timers.modify timer fun _ => none }
    have hcancel : r.cancel timer = { r with
        timers := r.timers.modify timer fun _ => none
        queue := queue } := hwake
    rw [hcancel]
    exact hc.of_eq rfl rfl rfl
  | polled h => exact hc.pollWith h _
  | completed h => exact hc.pollWith h _

/-- What happens to a task reactor that is new, with what was done with its waits, latest first. -/
inductive Course (runtime : Runtime) (options : Options) : List Act → Tasks → Prop
  | start : Course runtime options [] { runtime := runtime, options := options }
  | change {log acts : List Act} {r r' : Tasks} (h : Course runtime options log r)
    (hchange : Change r acts r') : Course runtime options (acts ++ log) r'

namespace Course
variable {runtime : Runtime} {options : Options}

theorem run (h : Course runtime options log r) : Run runtime options log r := by
  induction h with
  | start => exact .start
  | change _ hchange ih => exact ih.step hchange.step

private theorem covered (h : Course runtime options log r) : Covered r := by
  induction h with
  | start =>
    intro i s hs
    cases hs
  | change h hchange ih => exact ih.change h.run.sound hchange

end Course

/-- What holds of the waits of a task reactor while sockets are read and written. -/
structure Levels (log : List Act) (r : Tasks) : Prop where
  /-- Cached readiness includes what is reported, but for events that are to be looked at. -/
  covered : Covered r
  /-- A wait that was not cancelled completes as ready only if its direction is ready, whatever is
  cached. -/
  confirmed : ∀ i d, ∀ t ∈ r.tasks, t.awaited = .readiness i d → lost log t.id i d = false →
    ∀ s, r.sources[i]? = some s → ∀ answers, (answers s.fd).Reports (r.condition s.fd) →
      (r.pollWith answers t.id).1 = some (t.callback, .ok ()) → (r.condition s.fd).ready d = true
  /-- If the driver has looked at all events, the wait completes when it is polled and its direction
  is ready. Otherwise it stays pending, nothing is cached of its direction any more, and nothing
  else changes but that other events may arrive. -/
  level : ∀ i d, ∀ t ∈ r.tasks, t.awaited = .readiness i d → lost log t.id i d = false →
    i ∉ r.events → ∃ s, r.sources[i]? = some s ∧ s.released = false ∧
      ∀ answers, (answers s.fd).Tells (r.condition s.fd) →
        ((r.pollWith answers t.id).1 = some (t.callback, .ok ()) ↔
          (r.condition s.fd).ready d = true) ∧
        ((r.condition s.fd).ready d = false → ∃ cache : Sides Bool,
          r.pollWith answers t.id = (none, r.modifySource i ({ · with cache := cache })) ∧
            cache.get d = false ∧ ∀ d' ≠ d, cache.get d' = (s.cache.get d' ||
              ((answers s.fd).passed d s.cache).any (·.arrivals.get d')))

/-- A wait that is not cancelled is polled by what is cached of its registration. -/
theorem pollWith_of_pending (h : Sound log r.book) {t : Task} (ht : t ∈ r.tasks)
    (ha : t.awaited = .readiness i d) (hk : lost log t.id i d = false) (hs : r.sources[i]? = some s)
    (hr : s.released = false) {answers : Fd → Answers}
    (hp : ((answers s.fd).poll d s.cache).1 = none) : r.pollWith answers t.id =
      (none, r.modifySource i ({ · with cache := ((answers s.fd).poll d s.cache).2 })) := by
  obtain ⟨s', hs', hheld⟩ := h.held_source ht ha
  cases hs.symm.trans hs'
  have hholder : r.holder (.readiness i d) = some t.id := by
    rw [holder, readyHolder, hs]
    exact hheld.mpr hk
  unfold Tasks.pollWith Tasks.poll
  rw [h.find_task ht]
  simp only [ha, hholder, if_true, hs, hr, Bool.false_eq_true, if_false]
  rw [hp]

private theorem Course.levels {runtime : Runtime} {options : Options}
    (h : Course runtime options log r) : Levels log r where
  covered := h.covered
  confirmed := by
    intro i d t ht ha hk s hs answers hreports hp
    obtain ⟨s', hs', -, hpoll⟩ := h.run.sound.pollWith_of_kept ht ha hk
    cases hs.symm.trans hs'
    rw [hpoll] at hp
    obtain ⟨o, ho, heq⟩ := Option.map_eq_some_iff.mp hp
    cases heq
    exact Answers.ready_of_poll hreports ho
  level := by
    intro i d t ht ha hk hi
    have hsound := h.run.sound
    obtain ⟨s, hs, hr, hpoll⟩ := hsound.pollWith_of_kept ht ha hk
    refine ⟨s, hs, hr, fun answers htells => ?_⟩
    have hcovers : (answers s.fd).Covers s.cache :=
      Answers.covers_of_ready htells.reports fun d hd => (h.covered i s hs hr d hd).resolve_right hi
    obtain ⟨hready, hpending, -⟩ := Answers.poll_of_tells (d := d) htells hcovers
    constructor
    · rw [hpoll, ← hready, Option.map_eq_some_iff]
      constructor
      · rintro ⟨o, ho, heq⟩
        cases heq
        exact ho
      · exact fun ho => ⟨_, ho, rfl⟩
    · intro hnot
      have hnone := hpending.mpr hnot
      have hsettles : (answers s.fd).Settles d s.cache := Answers.settles hcovers
      refine ⟨_, pollWith_of_pending hsound ht ha hk hs hr hnone, hsettles.cleared hnone, ?_⟩
      exact fun d' hne => hsettles.other d' hne htells.runs

/-- Level-triggered readiness from an edge cache. A poll ends, whatever is cached and however often
inquiries are interrupted. It completes the wait as ready if the operating system reports that it
is, fails with the error of the driver or of an inquiry, and otherwise clears what is cached of the
direction and of no other. So whatever happens to a reactor and to sockets, a wait completes only
while its direction is ready, and then it does. -/
theorem level_triggered :
    (∀ (a : Answers) (d : Direction) (cache : Sides Bool), a.Covers cache → a.Settles d cache) ∧
    (∀ (a : Answers) (c : Condition) (d : Direction) (cache : Sides Bool),
      a.Tells c → a.Covers cache →
        ((a.poll d cache).1 = some (.ok ()) ↔ c.ready d = true) ∧
          ((a.poll d cache).1 = none ↔ c.ready d = false) ∧
          (c.failed = true ∨ c.hungUp = true → (a.poll d cache).1 = some (.ok ()))) ∧
    ∀ (runtime : Runtime) (options : Options) (log : List Act) (r : Tasks),
      Course runtime options log r → Levels log r :=
  ⟨fun _ _ _ h => Answers.settles h, fun _ _ _ _ h hc => Answers.poll_of_tells h hc,
    fun _ _ _ _ h => h.levels⟩

/-- A socket that is armed to read gets a byte, of which the driver hears, and the byte is read
before the task is polled. -/
def drained : Tasks :=
  let r : Tasks := { runtime := ⟨0⟩, sockets := [{ kind := .pair }] }
  let r := ((r.register 3).2.arm ⟨0, 3⟩ .read (.bare ⟨"first"⟩)).turn
  { (r.disturb 0 { kind := .pair, inbox := 1 }).turn with sockets := [{ kind := .pair }] }

private theorem course_drained :
    Course ⟨0⟩ {} [.armed ⟨0, .readiness 0 .read, .bare ⟨"first"⟩⟩] drained := by
  have hopen : Change { runtime := ⟨0⟩ } [] { runtime := ⟨0⟩, sockets := [{ kind := .pair }] } :=
    .used fun s hs => absurd hs List.not_mem_nil
  have hregistered := (Course.start.change hopen).change (.registered _ 3)
  have harmed := hregistered.change (.armed (x := ⟨0, 3⟩) ⟨_, rfl, rfl, rfl⟩ .read
    (.bare ⟨"first"⟩))
  have hheard := ((harmed.change (.turned _)).change
    (.disturbed _ 0 { kind := .pair, inbox := 1 })).change (.turned _)
  refine hheard.change (.used fun s hs hr d hd => ?_)
  have hfd : s.fd = 3 := by
    cases hs with
    | head => rfl
    | tail _ hs => cases hs
  rw [hfd] at hd ⊢
  cases d with
  | read => cases hd
  | write => rfl

/-- A signal interrupts an inquiry, and an event arrives that means nothing. -/
def interrupted : Answers where
  turns := [⟨.interrupted (.answered (.ok { writable := true })), ⟨true, false⟩⟩]
  last := .answered (.ok { writable := true })

private theorem tells_interrupted : interrupted.Tells { writable := true } where
  runs := rfl
  answers := by
    intro q hq
    rcases List.mem_cons.mp hq with rfl | hq
    · rfl
    · rw [List.mem_singleton.mp hq]
      rfl

/-- Reading is cached still, but a wait for it stays pending. One for writing would complete. -/
theorem level_triggered_drained :
    drained.sources.map (·.cache) = [⟨true, true⟩] ∧
      (drained.pollWith (fun _ => interrupted) 0).1 = none ∧
      (interrupted.poll .write ⟨true, true⟩).1 = some (.ok ()) := by
  have hlevels := level_triggered.2.2 _ _ _ _ course_drained
  let t : Task := ⟨0, .readiness 0 .read, .bare ⟨"first"⟩⟩
  have ht : t ∈ drained.tasks := List.mem_singleton.mpr rfl
  obtain ⟨s, hs, -, hpoll⟩ := hlevels.level 0 .read t ht rfl rfl (by decide)
  have hcached : drained.sources = [⟨3, ⟨some 0, none⟩, ⟨true, true⟩, false⟩] := rfl
  rw [hcached] at hs
  cases hs
  obtain ⟨cache, hnone, -⟩ := (hpoll (fun _ => interrupted) tells_interrupted).2 rfl
  have hcovers : interrupted.Covers ⟨true, true⟩ := fun d _ => by cases d <;> rfl
  refine ⟨congrArg (List.map (·.cache)) hcached, congrArg Prod.fst hnone, ?_⟩
  exact (level_triggered.2.1 _ _ .write _ tells_interrupted hcovers).1.mpr rfl

end Wakeup.Tasks
