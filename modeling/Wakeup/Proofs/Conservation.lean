import Wakeup.Proofs.Accounts
import Wakeup.Proofs.Cancellations
import Wakeup.Proofs.Releases

/-! The account of a run. Whatever is done in it, inside calls too, comes down to what users can do
with a reactor, where the users are the watchers and heartbeats that last and a scenario itself. -/
namespace Wakeup

section Lasting
variable {α β : Type} {p : α → Presence} {name : α → β} {l : List α} {i : Nat} {x : α}

/-- The names of the things that last. -/
def lasting (p : α → Presence) (name : α → β) (l : List α) : Multiset β :=
  ((l : Multiset α).filter fun x => (p x).alive = true).map name

theorem mem_lasting (hx : l[i]? = some x) (ha : (p x).alive = true) :
    name x ∈ lasting p name l :=
  Multiset.mem_map_of_mem name
    (Multiset.mem_filter.mpr ⟨Multiset.mem_coe.mpr (List.mem_of_getElem? hx), ha⟩)

private theorem lasting_push (ha : (p x).alive = true) :
    lasting p name (l ++ [x]) = name x ::ₘ lasting p name l := by
  unfold lasting
  rw [← Multiset.coe_add, Multiset.coe_singleton, Multiset.add_comm, Multiset.singleton_add,
    Multiset.filter_cons_of_pos (p := fun x => (p x).alive = true) _ ha, Multiset.map_cons]

/-- A change of one thing leaves the others. -/
theorem exists_coe_modify (hx : l[i]? = some x) :
    ∃ m : Multiset α, (l : Multiset α) = x ::ₘ m ∧ ∀ f, (l.modify i f : Multiset α) = f x ::ₘ m := by
  obtain ⟨hi, hget⟩ := List.getElem?_eq_some_iff.mp hx
  refine ⟨↑(l.take i ++ l.drop (i + 1)), ?_, fun f => ?_⟩
  · rw [Multiset.cons_coe, Multiset.coe_eq_coe, ← hget]
    conv_lhs => rw [← List.take_append_drop i l, List.drop_eq_getElem_cons hi]
    exact List.perm_middle
  · rw [Multiset.cons_coe, Multiset.coe_eq_coe, List.modify_eq_take_cons_drop hi, hget]
    exact List.perm_middle

theorem lasting_modify (hx : l[i]? = some x) (ha : (p x).alive = true) {f : α → α}
    (hname : name (f x) = name x) : lasting p name l =
      if (p (f x)).alive then lasting p name (l.modify i f)
      else name x ::ₘ lasting p name (l.modify i f) := by
  obtain ⟨m, hl, hf⟩ := exists_coe_modify hx
  unfold lasting
  rw [hl, hf, Multiset.filter_cons_of_pos (p := fun x => (p x).alive = true) _ ha,
    Multiset.map_cons]
  split
  · rename_i halive
    rw [Multiset.filter_cons_of_pos (p := fun x => (p x).alive = true) _ halive,
      Multiset.map_cons, hname]
  · rename_i hdead
    rw [Multiset.filter_cons_of_neg (p := fun x => (p x).alive = true) _ hdead]

/-- What lasts depends on names and on which things last. -/
theorem lasting_congr {l' : List α} (hname : l'.map name = l.map name)
    (ha : ∀ i : Nat, l'[i]?.any (fun x => (p x).alive) = l[i]?.any fun x => (p x).alive) :
    lasting p name l' = lasting p name l := by
  have hlasting (l : List α) : lasting p name l =
      (((l.map name).zip (l.map fun x => (p x).alive) : Multiset (β × Bool)).filter
        fun x => x.2 = true).map (·.1) := by
    unfold lasting
    rw [List.zip_map', ← Multiset.map_coe, Multiset.filter_map, Multiset.map_map]
    rfl
  have hlen : l'.length = l.length := by simpa using congrArg List.length hname
  have halive : (l'.map fun x => (p x).alive) = l.map fun x => (p x).alive := by
    refine List.ext_getElem (by simp [hlen]) fun i hi hi' => ?_
    have hany := ha i
    rw [List.length_map] at hi hi'
    rw [List.getElem?_eq_getElem hi, List.getElem?_eq_getElem hi'] at hany
    simpa using hany
  rw [hlasting, hlasting, hname, halive]

end Lasting

namespace Hub
variable {hub hub' : Hub Manual} {i t : Nat} {x : Watcher} {y : Heartbeat}

/-- The registrations that watchers hold. -/
def tenants (hub : Hub Manual) : Multiset Registration :=
  lasting Watcher.presence Watcher.registration hub.watchers

/-- The timers that heartbeats hold. -/
def clocks (hub : Hub Manual) : Multiset Nat :=
  lasting Heartbeat.presence Heartbeat.timer hub.heartbeats

theorem heartbeat_of_roster (ha : hub.roster.heartbeats[t]?.any Presence.alive = true) :
    ∃ y, hub.heartbeats[t]? = some y ∧ y.presence.alive = true := by
  simp only [roster, List.getElem?_map] at ha
  cases hy : hub.heartbeats[t]? with
  | none =>
    rw [hy] at ha
    cases ha
  | some y =>
    rw [hy] at ha
    exact ⟨y, rfl, ha⟩

theorem tenants_congr (hw : hub'.roster.watched = hub.roster.watched)
    (hl : ∀ i, hub'.lasts (.watcher i) = hub.lasts (.watcher i)) : hub'.tenants = hub.tenants := by
  have hlasts (hub : Hub Manual) (i : Nat) :
      hub.lasts (.watcher i) = hub.watchers[i]?.any fun x => x.presence.alive := by
    rw [lasts_watcher, roster, List.getElem?_map, Option.any_map]
  refine lasting_congr ?_ fun i => ?_
  · have hmap := congrArg (List.map Prod.fst) hw
    simp only [roster, List.map_map] at hmap
    exact hmap
  · rw [← hlasts, ← hlasts, hl]

theorem clocks_congr (ht : hub'.roster.timed = hub.roster.timed)
    (hl : ∀ t, hub'.lasts (.heartbeat t) = hub.lasts (.heartbeat t)) :
    hub'.clocks = hub.clocks := by
  have hlasts (hub : Hub Manual) (t : Nat) :
      hub.lasts (.heartbeat t) = hub.heartbeats[t]?.any fun x => x.presence.alive := by
    rw [lasts_heartbeat, roster, List.getElem?_map, Option.any_map]
  refine lasting_congr ?_ fun t => ?_
  · have hmap := congrArg (List.map Prod.fst) ht
    simp only [roster, List.map_map] at hmap
    exact hmap
  · rw [← hlasts, ← hlasts, hl]

end Hub

namespace Scenario

/-- A wait whose callback was run. -/
def Event.invoked? : Event → Option Wait
  | .completed wait _ _ => some wait
  | _ => none

def Event.discarded? : Event → Option Wait
  | .discarded wait => some wait
  | _ => none

/-- The account of a hub, and of what is held apart from it. -/
def accountOf (hub : Hub Manual) (rs : Multiset Registration) (ts : Multiset Nat)
    (kept : Multiset Wait) (log : List Event) : Account where
  reactor := hub.reactor
  registrations := hub.tenants + rs
  timers := hub.clocks + ts
  kept := kept
  invoked := ↑(log.filterMap Event.invoked?)
  discarded := ↑(log.filterMap Event.discarded?)

section Acts
open Account
variable {hub hub' : Hub Manual} {rs : Multiset Registration} {ts : Multiset Nat}
  {kept : Multiset Wait} {log : List Event} {i t : Nat}

theorem acts_of_eq {a a' b : Account} (h : Act a a') (he : a' = b) : Acts a b :=
  .single (he ▸ h)

/-- An account depends on the roster and the reactor. -/
theorem accountOf_congr (hroster : hub'.roster = hub.roster) :
    accountOf hub' rs ts kept log =
      { accountOf hub rs ts kept log with reactor := hub'.reactor } := by
  have htenants : hub'.tenants = hub.tenants :=
    Hub.tenants_congr (congrArg Roster.watched hroster) fun _ => Hub.lasts_congr hroster _
  have hclocks : hub'.clocks = hub.clocks :=
    Hub.clocks_congr (congrArg Roster.timed hroster) fun _ => Hub.lasts_congr hroster _
  unfold accountOf
  rw [htenants, hclocks]

/-- What is no fate of a wait is not in the account. -/
theorem accountOf_append (hub : Hub Manual) (rs : Multiset Registration) (ts : Multiset Nat)
    (kept : Multiset Wait) (log : List Event) {log' : List Event}
    (hi : log'.filterMap Event.invoked? = []) (hd : log'.filterMap Event.discarded? = []) :
    accountOf hub rs ts kept (log' ++ log) = accountOf hub rs ts kept log := by
  simp only [accountOf, List.filterMap_append, hi, hd, List.nil_append]

theorem acts_of_same (hroster : hub'.roster = hub.roster) (hr : hub'.reactor = hub.reactor) :
    Acts (accountOf hub rs ts kept log) (accountOf hub' rs ts kept log) := by
  rw [accountOf_congr hroster, hr]
  exact .refl

/-- An act that changes the reactor only. -/
theorem acts_of_reactor (hroster : hub'.roster = hub.roster)
    (h : Act (accountOf hub rs ts kept log)
      { accountOf hub rs ts kept log with reactor := hub'.reactor }) :
    Acts (accountOf hub rs ts kept log) (accountOf hub' rs ts kept log) :=
  acts_of_eq h (accountOf_congr hroster).symm

theorem acts_armSide (ha : hub.roster.watchers[i]?.any Presence.alive = true) (d : Direction)
    (e : Nat) :
    Acts (accountOf hub rs ts kept log) (accountOf (hub.armSide i d e) rs ts kept log) := by
  obtain ⟨x, hx, halive⟩ := Hub.alive_of_roster ha
  cases hp : (x.sides.get d).pending with
  | true =>
    have hsame : hub.armSide i d e = hub := by simp only [Hub.armSide, hx, hp, if_true]
    rw [hsame]
  | false =>
    have hreactor : (hub.armSide i d e).reactor =
        hub.reactor.arm x.registration d (.ready i d e) := by
      simp only [Hub.armSide, hx, hp, Bool.false_eq_true, if_false]
      rfl
    refine acts_of_reactor (Hub.roster_armSide hub i d e) ?_
    rw [hreactor]
    exact .arm (Multiset.mem_add.mpr (Or.inl (mem_lasting hx halive))) d _

private theorem acts_setSide (ha : hub.roster.watchers[i]?.any Presence.alive = true) (e : Nat)
    (d : Direction) (wanted : Bool) :
    Acts (accountOf hub rs ts kept log) (accountOf (hub.setSide i e d wanted) rs ts kept log) := by
  have hside := Hub.roster_modifySide hub i d ({ · with wanted := wanted })
  have hset : Acts (accountOf hub rs ts kept log)
      (accountOf (hub.modifySide i d ({ · with wanted := wanted })) rs ts kept log) :=
    acts_of_same hside rfl
  unfold Hub.setSide
  cases wanted with
  | false => exact hset
  | true => exact hset.trans (acts_armSide (by rwa [hside]) d e)

private theorem acts_setInterest (ha : hub.roster.watchers[i]?.any Presence.alive = true) (e : Nat)
    (ev : Events) :
    Acts (accountOf hub rs ts kept log) (accountOf (hub.setInterest i e ev) rs ts kept log) :=
  (acts_setSide ha e .read _).trans (acts_setSide (by rwa [Hub.roster_setSide]) e .write _)

/-- The presence of a watcher changes that lasts. -/
theorem acts_reapWatcher (ha : hub.roster.watchers[i]?.any Presence.alive = true)
    (f : Presence → Presence) :
    Acts (accountOf hub rs ts kept log)
      (accountOf ((hub.modifyWatcher i fun x => { x with presence := f x.presence }).reapWatcher i)
        rs ts kept log) := by
  obtain ⟨x, hx, halive⟩ := Hub.alive_of_roster ha
  let hub' := hub.modifyWatcher i fun x => { x with presence := f x.presence }
  have hx' : hub'.watchers[i]? = some { x with presence := f x.presence } := by
    simp [hub', Hub.modifyWatcher, hx]
  have htenants : hub.tenants = if (f x.presence).alive then hub'.tenants
      else x.registration ::ₘ hub'.tenants :=
    lasting_modify (p := Watcher.presence) (f := fun x => { x with presence := f x.presence })
      hx halive rfl
  change Acts _ (accountOf (hub'.reapWatcher i) rs ts kept log)
  cases hf : (f x.presence).alive with
  | true =>
    have hreap : hub'.reapWatcher i = hub' := by simp only [Hub.reapWatcher, hx', hf, if_true]
    rw [hf, if_pos rfl] at htenants
    have hsame : accountOf hub rs ts kept log = accountOf hub' rs ts kept log := by
      unfold accountOf
      rw [htenants]
      rfl
    rw [hreap, hsame]
  | false =>
    have hreap : hub'.reapWatcher i =
        { hub' with reactor := hub.reactor.release x.registration } := by
      simp only [Hub.reapWatcher, hx', hf, Bool.false_eq_true, if_false]
      rfl
    rw [hf, if_neg Bool.false_ne_true] at htenants
    have hall : (accountOf hub rs ts kept log).registrations =
        x.registration ::ₘ (hub'.tenants + rs) := by
      change hub.tenants + rs = _
      rw [htenants, Multiset.cons_add]
    rw [hreap]
    exact acts_of_eq (.drop hall) rfl

/-- The presence of a heartbeat changes that lasts. -/
theorem acts_reapHeartbeat (ha : hub.roster.heartbeats[t]?.any Presence.alive = true)
    (f : Presence → Presence) :
    Acts (accountOf hub rs ts kept log)
      (accountOf ((hub.modifyHeartbeat t fun x => { x with presence := f x.presence }).reapHeartbeat
        t) rs ts kept log) := by
  obtain ⟨x, hx, halive⟩ := Hub.heartbeat_of_roster ha
  let hub' := hub.modifyHeartbeat t fun x => { x with presence := f x.presence }
  have hx' : hub'.heartbeats[t]? = some { x with presence := f x.presence } := by
    simp [hub', Hub.modifyHeartbeat, hx]
  have hclocks : hub.clocks = if (f x.presence).alive then hub'.clocks
      else x.timer ::ₘ hub'.clocks :=
    lasting_modify (p := Heartbeat.presence) (f := fun x => { x with presence := f x.presence })
      hx halive rfl
  change Acts _ (accountOf (hub'.reapHeartbeat t) rs ts kept log)
  cases hf : (f x.presence).alive with
  | true =>
    have hreap : hub'.reapHeartbeat t = hub' := by
      simp only [Hub.reapHeartbeat, hx', hf, if_true]
    rw [hf, if_pos rfl] at hclocks
    have hsame : accountOf hub rs ts kept log = accountOf hub' rs ts kept log := by
      unfold accountOf
      rw [hclocks]
      rfl
    rw [hreap, hsame]
  | false =>
    have hreap : hub'.reapHeartbeat t = { hub' with reactor := hub.reactor.cancel x.timer } := by
      simp only [Hub.reapHeartbeat, hx', hf, Bool.false_eq_true, if_false]
      rfl
    rw [hf, if_neg Bool.false_ne_true] at hclocks
    have hall : (accountOf hub rs ts kept log).timers = x.timer ::ₘ (hub'.clocks + ts) := by
      change hub.clocks + ts = _
      rw [hclocks, Multiset.cons_add]
    rw [hreap]
    exact acts_of_eq (.dropTimer hall) rfl

theorem acts_armDeadline (ha : hub.roster.heartbeats[t]?.any Presence.alive = true)
    (deadline e : Nat) :
    Acts (accountOf hub rs ts kept log) (accountOf (hub.armDeadline t deadline e) rs ts kept log) := by
  obtain ⟨x, hx, halive⟩ := Hub.heartbeat_of_roster ha
  have hreactor : (hub.armDeadline t deadline e).reactor =
      hub.reactor.schedule x.timer deadline (.beat t x.schedule.generation e) := by
    simp only [Hub.armDeadline, hx]
    rfl
  refine acts_of_reactor (Hub.roster_armDeadline hub t deadline e) ?_
  rw [hreactor]
  exact .schedule (Multiset.mem_add.mpr (Or.inl (mem_lasting hx halive))) deadline _

private theorem acts_cancelTimer {x : Heartbeat} (hx : hub.heartbeats[t]? = some x)
    (ha : x.presence.alive = true) :
    Acts (accountOf hub rs ts kept log) (accountOf (hub.cancelTimer x.timer) rs ts kept log) :=
  acts_of_reactor (Hub.roster_cancelTimer hub x.timer)
    (.cancel (Multiset.mem_add.mpr (Or.inl (mem_lasting hx ha))))

theorem acts_modifySchedule (hub : Hub Manual) (t : Nat) (f : Schedule → Schedule) :
    Acts (accountOf hub rs ts kept log) (accountOf (hub.modifySchedule t f) rs ts kept log) :=
  acts_of_same (Hub.roster_modifySchedule hub t f) rfl

private theorem acts_setHeartbeat (ha : hub.roster.heartbeats[t]?.any Presence.alive = true)
    (e : Nat) (interval : Interval) :
    Acts (accountOf hub rs ts kept log)
      (accountOf (hub.setHeartbeat t e interval) rs ts kept log) := by
  obtain ⟨x, hx, halive⟩ := Hub.heartbeat_of_roster ha
  unfold Hub.setHeartbeat
  rw [hx]
  exact (acts_cancelTimer hx halive).trans ((acts_modifySchedule _ t _).trans
    (acts_armDeadline (by simpa using ha) _ e))

private theorem acts_stopHeartbeat (ha : hub.roster.heartbeats[t]?.any Presence.alive = true) :
    Acts (accountOf hub rs ts kept log) (accountOf (hub.stopHeartbeat t) rs ts kept log) := by
  obtain ⟨x, hx, halive⟩ := Hub.heartbeat_of_roster ha
  have hreactor : (hub.stopHeartbeat t).reactor = hub.reactor.cancel x.timer := by
    simp only [Hub.stopHeartbeat, hx]
    rfl
  refine acts_of_reactor (Hub.roster_stopHeartbeat hub t) ?_
  rw [hreactor]
  exact .cancel (Multiset.mem_add.mpr (Or.inl (mem_lasting hx halive)))

private theorem acts_nextBeat (ha : hub.roster.heartbeats[t]?.any Presence.alive = true)
    (generation e : Nat) :
    Acts (accountOf hub rs ts kept log)
      (accountOf (hub.nextBeat t generation e) rs ts kept log) := by
  unfold Hub.nextBeat
  split
  · exact .refl
  · split
    · split
      · exact (acts_modifySchedule _ t _).trans (acts_armDeadline (by simpa using ha) _ e)
      · exact .refl
    · exact .refl

/-- The owner of a call waits again, if it does, while it lasts. -/
theorem acts_finish {call : Call} (ha : hub.lasts call.owner.part = true) :
    Acts (accountOf hub rs ts kept log) (accountOf (hub.finish call) rs ts kept log) := by
  obtain ⟨owner, s, e, notice⟩ := call
  let hub' := ((hub.resume ⟨owner, s, e, notice⟩).modifyEngine e .release).leaveStrand s
  have hresume : Acts (accountOf hub rs ts kept log) (accountOf hub' rs ts kept log) := by
    change Acts _ (accountOf (hub.resume ⟨owner, s, e, notice⟩) rs ts kept log)
    unfold Hub.resume
    dsimp only
    split
    · split
      · exact acts_armSide ha _ e
      · exact .refl
    · exact acts_nextBeat ha _ e
    · exact .refl
  have hroster : hub'.roster.watchers = hub.roster.watchers ∧
      hub'.roster.heartbeats = hub.roster.heartbeats := by
    have hr := Hub.roster_resume hub ⟨owner, s, e, notice⟩
    exact ⟨(congrArg Roster.watchers hr :), (congrArg Roster.heartbeats hr :)⟩
  refine hresume.trans ?_
  cases owner with
  | watcher i d => exact acts_reapWatcher (by rw [hroster.1]; exact ha) .release
  | heartbeat t generation => exact acts_reapHeartbeat (by rw [hroster.2]; exact ha) .release

end Acts

namespace Ledger
open Account
variable {L L' : Ledger}

def account (L : Ledger) : Account :=
  accountOf L.hub L.registrations L.timers L.kept L.log

private theorem acts_begin (L : Ledger) {wait : Wait} {ws : Multiset Wait} (o : Outcome)
    (hk : L.kept = wait ::ₘ ws) (calls : List Call) :
    Acts L.account (account { L with
      hub := (L.hub.begin wait.callback o).1
      kept := ws
      calls := calls
      log := .completed wait o (serves L.hub wait.callback) :: L.log }) := by
  let hub := (L.hub.begin wait.callback o).1
  have hlasts : ∀ p, hub.lasts p = L.hub.lasts p := Hub.lasts_begin L.hub wait.callback o
  have hroster := Hub.roster_begin L.hub wait.callback o
  have hnames : hub.roster.watched = L.hub.roster.watched ∧
      hub.roster.timed = L.hub.roster.timed := by
    rw [show hub.roster = _ from hroster]
    split
    · exact ⟨rfl, rfl⟩
    · rename_i call _
      unfold Roster.modifyCall Roster.modifyOwner
      cases call.owner <;> exact ⟨rfl, rfl⟩
  refine acts_of_eq (.invoke hk) ?_
  unfold account accountOf
  dsimp only
  rw [Hub.tenants_congr hnames.1 fun _ => hlasts _, Hub.clocks_congr hnames.2 fun _ => hlasts _,
    Hub.reactor_begin]
  rfl

private theorem Move.acts (hm : Move L L') (ho : Owned L) : Acts L.account L'.account := by
  have hwatcher {place : Option (Nat × Fd)} {i : Nat} (h : (place, i) ∈ L.watchers) :
      L.hub.roster.watchers[i]?.any Presence.alive = true := Waits.alive_of_mem ho h
  have hheartbeat {place : Option Nat} {t : Nat} (h : (place, t) ∈ L.heartbeats) :
      L.hub.roster.heartbeats[t]?.any Presence.alive = true :=
    Presence.any_alive_of_kept ((ho.heartbeats.holds.mem_iff t).mp (Multiset.mem_map_of_mem _ h))
  cases hm with
  | advance elapsed => exact acts_of_eq (.quiet _ _) rfl
  | refuse fd => exact acts_of_eq (.quiet _ _) rfl
  | refused hr =>
    rw [Manual.register_error hr]
    exact acts_of_eq (.quiet _ _) rfl
  | newHandler => exact .refl
  | dropHandler => exact .refl
  | newStrand => exact .refl
  | dropStrand => exact .refl
  | newEngine => exact .refl
  | dropEngine => exact .refl
  | newWatcher _ _ hn =>
    obtain ⟨r, m, hr, -, rfl⟩ := Hub.newWatcher_ok hn
    refine acts_of_eq (.register hr) ?_
    unfold account accountOf Hub.tenants
    dsimp only
    rw [lasting_push rfl, Multiset.cons_add]
    rfl
  | @setInterest place i e ev hmem =>
    unfold account
    dsimp only
    rw [accountOf_append _ _ _ _ _ (by cases place <;> rfl) (by cases place <;> rfl)]
    exact acts_setInterest (hwatcher hmem) e ev
  | @retire place i => exact acts_of_same (Hub.roster_retire L.hub i) rfl
  | dropWatcher hw =>
    exact acts_reapWatcher (hwatcher (hw ▸ Multiset.mem_cons_self _ _)) .disown
  | unasked => exact .refl
  | newHeartbeat =>
    refine acts_of_eq .newTimer ?_
    unfold account accountOf Hub.clocks Hub.newHeartbeat
    dsimp only
    rw [lasting_push rfl, Multiset.cons_add]
    rfl
  | @setHeartbeat place t e interval hmem =>
    unfold account
    dsimp only
    rw [accountOf_append _ _ _ _ _ (by cases place <;> rfl) (by cases place <;> rfl)]
    exact acts_setHeartbeat (hheartbeat hmem) e interval
  | stopHeartbeat hmem => exact acts_stopHeartbeat (hheartbeat hmem)
  | dropHeartbeat ht =>
    exact acts_reapHeartbeat (hheartbeat (ht ▸ Multiset.mem_cons_self _ _)) .disown
  | enter => exact .refl
  | leave => exact .refl
  | takeReady ht => exact acts_of_eq (.takeReady ht) rfl
  | takeTimed ht => exact acts_of_eq (.takeTimed ht) rfl
  | takeParked => exact acts_of_eq .takeParked rfl
  | discard hk => exact acts_of_eq (.discard hk) rfl
  | complete o hk => exact acts_begin L o hk _
  | register hr =>
    refine acts_of_eq (.register hr) ?_
    unfold account accountOf
    dsimp only [setReactor]
    rw [Multiset.add_cons]
    rfl
  | armBare d tag hmem =>
    exact acts_of_eq (.arm (Multiset.mem_add.mpr (Or.inr hmem)) d _) rfl
  | @release r rs hr =>
    have hall : L.account.registrations = r ::ₘ (L.hub.tenants + rs) := by
      unfold account accountOf
      rw [hr, Multiset.add_cons]
    exact acts_of_eq (.drop hall) rfl
  | newTimer =>
    refine acts_of_eq .newTimer ?_
    unfold account accountOf
    dsimp only [setReactor]
    rw [Multiset.add_cons]
    rfl
  | scheduleBare deadline tag hmem =>
    exact acts_of_eq (.schedule (Multiset.mem_add.mpr (Or.inr hmem)) deadline _) rfl
  | cancelBare hmem => exact acts_of_eq (.cancel (Multiset.mem_add.mpr (Or.inr hmem))) rfl
  | @dropTimer t ts ht =>
    have hall : L.account.timers = t ::ₘ (L.hub.clocks + ts) := by
      unfold account accountOf
      rw [ht, Multiset.add_cons]
    exact acts_of_eq (.dropTimer hall) rfl

private theorem account_finish (ho : Owned L) (hu : InUse L) {call : Call} {cs : List Call}
    (hc : L.calls = call :: cs) : Acts L.account (L.finish call cs).account := by
  refine acts_finish ?_
  have hmem : call ∈ L.calls := hc ▸ List.mem_cons_self
  cases howner : call.owner with
  | watcher i d => exact Waits.alive_of_call ho hu hmem i d howner
  | heartbeat t generation =>
    exact (alive_heartbeat_iff ho hu t).mpr (Or.inr ⟨call, hmem, by simp [howner, Owner.isHeartbeat]⟩)

end Ledger

/-- What does not depend on what is parked leaves it in place. -/
theorem World.parked_prefix {α : Type} {F : World → World × α}
    (hF : ∀ P w, F (prepark P w) = Prod.map (prepark P) id (F w)) (w : World) :
    w.parked <+: (F w).1.parked := by
  have h := hF w.parked (w.withParked [])
  rw [prepark_withParked, withParked_self] at h
  rw [h]
  exact List.prefix_append ..

namespace Config
open Account
variable {c c' : Config} {log log' : List Event}

/-- The account of a point in a run, in which `log` happened so far. -/
def account (c : Config) (log : List Event) : Account :=
  accountOf c.world.hub ↑c.world.registrations.values ↑c.world.timers.values
    ↑c.world.slots.values log

theorem Run.acts (hr : Reached c log) (h : Run c c' log') :
    Acts (c.account log) (c'.account (log' ++ log)) := by
  have hrun := Run.keeps (P := fun L => L.InUse ∧ Acts (c.account log) L.account) hr h
    (fun hm ho hP => ⟨.move hm ho hP.1, hP.2.trans (hm.acts ho)⟩)
    (fun hc ho hP => ⟨hP.1.finish hc, hP.2.trans (Ledger.account_finish ho hP.1 hc)⟩)
    ⟨hr.inUse, .refl⟩
  exact hrun.2

theorem Reached.balanced (h : Reached c log) : (c.account log).Balanced := by
  obtain ⟨ops, h⟩ := h
  have hacts := h.acts ⟨ops, .refl⟩
  rw [List.append_nil] at hacts
  exact Balanced.empty.acts hacts

theorem parked_close {w w' : World} {entry : Entry} {below : List Frame}
    (h : w.parked <+: w'.parked) (hs : close w' entry below = some c) :
    w.parked <+: c.world.parked := by
  unfold close at hs
  split at hs
  · cases hs
  · cases hs
    exact h

private theorem parked_fire {w : World} {count : Nat} {records : List Record} {below : List Frame}
    (hs : fire w count records below = some c) : w.parked <+: c.world.parked := by
  unfold fire at hs
  split at hs
  · exact parked_close List.prefix_rfl hs
  · rename_i wait m hdue
    obtain ⟨deadline, htimed⟩ := Manual.takeTimed_of_takeDue hdue
    obtain ⟨ts, -, rfl⟩ := Manual.takeTimed_sublist htimed
    let w' := w.modifyReactor fun _ => { w.hub.reactor with timed := ts }
    have hbegin : w.parked <+: (w'.begin wait (.ok ())).1.parked :=
      World.parked_prefix (F := fun w => w.begin wait (.ok ()))
        (fun P w => World.prepark_begin P w wait (.ok ())) w'
    split at hs
    · rename_i v hb
      rw [hb] at hbegin
      cases hs
      exact hbegin
    · rename_i v call hb
      rw [hb] at hbegin
      cases hs
      change w.hub.reactor.parked <+: (v.cue call).1.hub.reactor.parked
      rwa [World.hub_cue]

/-- What is parked stays parked until it is told so. -/
theorem parked_step (hs : c.step = some c') (hdeliver : c.frame.todo.head? ≠ some .deliverCanceled) :
    c.world.parked <+: c'.world.parked := by
  obtain ⟨w, ⟨activity, todo, entries⟩, below⟩ := c
  unfold step at hs
  cases todo with
  | cons op todo =>
    have hop : op ≠ .deliverCanceled := fun h => hdeliver (h ▸ rfl)
    have hperform := World.parked_prefix (F := World.perform op)
      (fun P w => World.prepark_perform P w hop) w
    dsimp only at hs
    cases hp : w.perform op with
    | mk w' effect =>
      rw [hp] at hs hperform
      cases effect <;> cases hs <;> exact hperform
  | nil =>
    have hfinish (call : Call) : w.parked <+: (w.finishCall call).parked :=
      World.parked_prefix (F := fun w => (w.finishCall call, ()))
        (fun P w => congrArg (·, ()) (World.prepark_finishCall P w call)) w
    cases activity with
    | outside => cases hs
    | inside s =>
      exact parked_close (World.parked_prefix (F := fun w => (w.leaveDispatch s, ()))
        (fun P w => congrArg (·, ()) (World.prepark_leaveDispatch P w s)) w) hs
    | completion cue reply => exact parked_close (hfinish cue.call) hs
    | firing count records current =>
      cases current with
      | none => exact parked_fire hs
      | some cue =>
        cases hs
        exact hfinish cue.call

/-- What is parked or was called does not escape, and what is parked is called with nothing but
that it was cancelled. -/
theorem told_step (hr : Reached c log) (hs : c.step = some c') {wait : Wait}
    (h : wait ∈ c.world.parked ∨ wait ∈ log.filterMap Event.invoked?) :
    (wait ∈ c'.world.parked ∨ wait ∈ (c.events.reverse ++ log).filterMap Event.invoked?) ∧
      ∀ o served, .completed wait o served ∈ c.events → o = .error .canceled := by
  have hbalanced := (hr.step hs).balanced
  have hnodup : ((c.events.reverse ++ log).filterMap Event.invoked?).Nodup :=
    hbalanced.invoked_nodup
  rw [List.filterMap_append] at hnodup ⊢
  by_cases hdeliver : c.frame.todo.head? = some .deliverCanceled
  · obtain ⟨todo, htodo⟩ := List.head?_eq_some_iff.mp hdeliver
    have hevents : c.events = c.world.parked.map (c.world.completed · (.error .canceled)) := by
      unfold events
      rw [htodo]
      rfl
    constructor
    · right
      refine List.mem_append.mpr (h.imp (fun hparked => ?_) id)
      refine List.mem_filterMap.mpr ⟨c.world.completed wait (.error .canceled), ?_, rfl⟩
      rw [hevents]
      exact List.mem_reverse.mpr (List.mem_map_of_mem hparked)
    · intro o served hmem
      rw [hevents] at hmem
      obtain ⟨wait', -, heq⟩ := List.mem_map.mp hmem
      cases heq
      rfl
  · have hparks := parked_step hs hdeliver
    refine ⟨h.imp (fun hparked => hparks.subset hparked) (List.mem_append_right _), ?_⟩
    intro o served hmem
    have hnew : wait ∈ c.events.reverse.filterMap Event.invoked? :=
      List.mem_filterMap.mpr ⟨_, List.mem_reverse.mpr hmem, rfl⟩
    rcases h with hparked | hcalled
    · -- a wait that is still parked was not called
      refine absurd ?_ (hbalanced.notMem_invoked (hparks.subset hparked))
      change wait ∈ (c.events.reverse ++ log).filterMap Event.invoked?
      rw [List.filterMap_append]
      exact List.mem_append_left _ hnew
    · exact absurd hcalled (List.disjoint_of_nodup_append hnodup hnew)

/-- A callback that was parked is only ever called with its cancellation. -/
theorem Run.told (hr : Reached c log) (h : Run c c' log') {wait : Wait}
    (hparked : wait ∈ c.world.parked) {o : Outcome} {served : Bool}
    (hmem : .completed wait o served ∈ log') : o = .error .canceled := by
  have hboth : (wait ∈ c'.world.parked ∨ wait ∈ (log' ++ log).filterMap Event.invoked?) ∧
      ∀ o served, .completed wait o served ∈ log' → o = .error .canceled := by
    clear hmem
    induction h with
    | refl => exact ⟨Or.inl hparked, nofun⟩
    | step hrun hs ih =>
      obtain ⟨hplace, hall⟩ := told_step (hr.run hrun) hs ih.1
      rw [List.append_assoc]
      refine ⟨hplace, fun o served hmem => ?_⟩
      rcases List.mem_append.mp hmem with hmem | hmem
      · exact hall o served (List.mem_reverse.mp hmem)
      · exact ih.2 o served hmem
    | more ops _ _ ih => exact ih
  exact hboth.2 o served hmem

/-- Wait callbacks are conserved. Between two points of a run, inside calls too, nothing happens to
them but acts of those who hold registrations and timers. In all accounts that acts lead to, each
wait is in one place, a withdrawal parks the waits of its owner alone, and waits that are parked are
called with nothing but that they were cancelled. -/
theorem conservation (hr : Reached c log) :
    (∀ c' log', Run c c' log' → Acts (c.account log) (c'.account (log' ++ log))) ∧
    (∀ a, Acts (c.account log) a → a.Balanced ∧ a.Withdraws) ∧
    c.world.hub.reactor.armed = c.world.hub.reactor.ready.length +
      c.world.hub.reactor.timed.length + c.world.hub.reactor.parked.length +
      c.world.slots.values.length + (log.filterMap Event.invoked?).length +
      (log.filterMap Event.discarded?).length ∧
    (log.filterMap Event.invoked?).Nodup ∧
    ∀ wait ∈ c.world.parked, ∀ c' log' o served, Run c c' log' →
      .completed wait o served ∈ log' → o = .error .canceled := by
  have hbalanced := hr.balanced
  refine ⟨fun _ _ h => h.acts hr, fun a ha => ?_, hbalanced.armed_eq, hbalanced.invoked_nodup, ?_⟩
  · exact ⟨hbalanced.acts ha, (hbalanced.acts ha).withdraws⟩
  · exact fun wait hparked c' log' o served h hmem => h.told hr hparked hmem

def parting : List Op :=
  [.newHandler 0, .newEngine 0 {} false, .monitor 0 0 5 (Events.ofDirection .read),
    .register 0 0 5, .armRegistration 0 .read ⟨"1"⟩, .takeReady 5 .read 0,
    .monitor 0 0 5 (Events.ofDirection .write), .monitor 0 0 5 (.ofSides (.both false)),
    .deliverCanceled]

/-- Of three waits for one descriptor, the first is in a slot, the second is for a registration that
is kept, and the third was parked together with the watcher. -/
theorem conservation_parting :
    (sample parting 8).1.world.slots.values.map (·.ticket) = [0] ∧
    (sample parting 8).1.world.hub.reactor.ready.map (·.wait.ticket) = [1] ∧
    (sample parting 8).1.world.parked = [⟨2, .ready 0 .write 0⟩] ∧
    (sample parting 8).1.world.hub.reactor.armed = 3 ∧
    ∀ o served, .completed ⟨2, .ready 0 .write 0⟩ o served ∈ (sample parting 8).1.events →
      o = .error .canceled := by
  obtain ⟨-, -, harmed, -, htold⟩ := conservation (reached_sample parting 8)
  refine ⟨rfl, rfl, rfl, harmed.trans rfl, fun o served hmem => ?_⟩
  have hrun : Run (sample parting 8).1 (sample parting 9).1
      ((sample parting 8).1.events.reverse ++ []) := Run.refl.step rfl
  refine htold _ List.mem_cons_self _ _ o served hrun ?_
  rw [List.append_nil]
  exact List.mem_reverse.mpr hmem

end Config
end Scenario
end Wakeup
