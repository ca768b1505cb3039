/-
This file proves when messages that are held back keep their order and can still
be released. A message is held while nine are in flight to its host, and an answer
for the host lets one go; so the count stays above zero as long as messages wait,
unless an answer clears it.
-/

import NetworkUnix.Bbnnet.Local.Counts

namespace NetworkUnix.Bbnnet.Local

/-! ### The messages of a host -/

/-- A data message for a host. -/
def Message.isFor (ifAddr a : Addr) (m : Message) : Bool :=
  decide (m.leader.iType = .data ∧ m.leader.dest ifAddr = a)

/-- The messages that are held for a host. -/
def heldFor (hosts : Hosts) (a : Addr) : List Message :=
  (hFind hosts a).elim [] fun hp => (hosts.getD hp Host.unused).hOutq

section Tables

variable {hosts other : Hosts} {count more : Nat → Nat} {a : Addr}

theorem getD_of_entry {hp : Nat} {h : Host} (entry : hosts[hp]? = some h) :
    hosts.getD hp Host.unused = h := by
  rw [List.getD_eq_getElem?_getD, entry]
  rfl

theorem heldFor_of_entry (balanced : Balanced hosts count) {hp : Nat} {h : Host}
    (entry : hosts[hp]? = some h) (nonzero : h.hAddr ≠ 0) : heldFor hosts h.hAddr = h.hOutq := by
  have found : hFind hosts h.hAddr = some hp := by
    refine hFind_eq_some entry rfl fun j h' earlier entry' same => ?_
    have apart := balanced.distinct j hp h' h entry' entry (same ▸ nonzero) same
    omega
  rw [heldFor, found]
  exact congrArg Host.hOutq (getD_of_entry entry)

theorem heldFor_nil (empty : ∀ (hp : Nat) (h : Host), hosts[hp]? = some h → h.hAddr = a → h.hOutq = []) :
    heldFor hosts a = [] := by
  unfold heldFor
  cases found : hFind hosts a with
  | none => rfl
  | some hp =>
    obtain ⟨h, entry, addr, _⟩ := hFind_some found
    exact (congrArg Host.hOutq (getD_of_entry entry)).trans (empty hp h entry addr)

theorem hFind_modify {change : Host → Host} (hp : Nat) (keeps : ∀ h, (change h).hAddr = h.hAddr) :
    hFind (hosts.modify hp change) a = hFind hosts a := by
  have address {i : Nat} {h : Host} (entry : (hosts.modify hp change)[i]? = some h) :
      ∃ b, hosts[i]? = some b ∧ h.hAddr = b.hAddr := by
    obtain ⟨b, old, rfl⟩ := entry_modify entry
    refine ⟨b, old, ?_⟩
    split
    · exact keeps b
    · rfl
  cases found : hFind hosts a with
  | some i =>
    obtain ⟨h, entry, addr, first⟩ := hFind_some found
    have changed : (hosts.modify hp change)[i]? = some (if hp = i then change h else h) := by
      rw [List.getElem?_modify, entry]
      rfl
    obtain ⟨b, old, same⟩ := address changed
    refine hFind_eq_some changed ?_ fun j h' earlier entry' => ?_
    · rw [same, ← Option.some_inj.mp (entry.symm.trans old), addr]
    · obtain ⟨b', old', same'⟩ := address entry'
      rw [same']
      exact first j b' earlier old'
  | none =>
    cases after : hFind (hosts.modify hp change) a with
    | none => rfl
    | some i =>
      obtain ⟨h, entry, addr, _⟩ := hFind_some after
      obtain ⟨b, old, same⟩ := address entry
      exact absurd (same.symm.trans addr) (hFind_none found old)

theorem heldFor_modify {change : Host → Host} {b : Addr} {hp : Nat} (found : hFind hosts b = some hp)
    (keeps : ∀ h, (change h).hAddr = h.hAddr) (a : Addr) :
    heldFor (hosts.modify hp change) a =
      if a = b then (change (hosts.getD hp Host.unused)).hOutq else heldFor hosts a := by
  obtain ⟨h, entry, addr, _⟩ := hFind_some found
  unfold heldFor
  rw [hFind_modify hp keeps]
  split
  · rename_i same
    rw [same, found, Option.elim_some, List.getD_eq_getElem?_getD, List.getElem?_modify, entry,
      getD_of_entry entry]
    simp
  · rename_i apart
    cases elsewhere : hFind hosts a with
    | none => rfl
    | some i =>
      obtain ⟨h', entry', addr', _⟩ := hFind_some elsewhere
      have different : hp ≠ i := by
        rintro rfl
        have same := Option.some_inj.mp (entry.symm.trans entry')
        exact apart (addr'.symm.trans (same ▸ addr))
      rw [Option.elim_some, Option.elim_some, List.getD_eq_getElem?_getD, List.getElem?_modify,
        entry', getD_of_entry entry']
      simp [different]

/-- Every entry of the other table is as before, or holds no messages and held none. -/
def Steady (hosts other : Hosts) : Prop :=
  other.length = hosts.length ∧ ∀ (hp : Nat) (h' : Host), other[hp]? = some h' →
    ∃ h, hosts[hp]? = some h ∧
      ((h'.hAddr = h.hAddr ∧ h'.hRfnm = h.hRfnm ∧ h'.hOutq = h.hOutq) ∨
        (h'.hRfnm ≤ 9 ∧ h'.hOutq = [] ∧ h.hOutq = []))

theorem Steady.refl (hosts : Hosts) : Steady hosts hosts :=
  ⟨rfl, fun _ h entry => ⟨h, entry, Or.inl ⟨rfl, rfl, rfl⟩⟩⟩

theorem Steady.trans {last : Hosts} (first : Steady hosts other) (second : Steady other last) :
    Steady hosts last := by
  refine ⟨second.1.trans first.1, fun hp h'' entry => ?_⟩
  obtain ⟨h', middle, later⟩ := second.2 hp h'' entry
  obtain ⟨h, old, before⟩ := first.2 hp h' middle
  refine ⟨h, old, ?_⟩
  rcases later with ⟨addr, rfnm, outq⟩ | ⟨few, none, nothing⟩
  · rcases before with ⟨addr', rfnm', outq'⟩ | ⟨few', none', nothing'⟩
    · exact Or.inl ⟨addr.trans addr', rfnm.trans rfnm', outq.trans outq'⟩
    · exact Or.inr ⟨rfnm ▸ few', outq.trans none', nothing'⟩
  · rcases before with ⟨_, _, outq'⟩ | ⟨_, _, nothing'⟩
    · exact Or.inr ⟨few, none, outq'.symm.trans nothing⟩
    · exact Or.inr ⟨few, none, nothing'⟩

theorem Steady.modify {hp : Nat} {change : Host → Host}
    (changes : ∀ h, hosts[hp]? = some h →
      ((change h).hAddr = h.hAddr ∧ (change h).hRfnm = h.hRfnm ∧ (change h).hOutq = h.hOutq) ∨
        ((change h).hRfnm ≤ 9 ∧ (change h).hOutq = [] ∧ h.hOutq = [])) :
    Steady hosts (hosts.modify hp change) := by
  refine ⟨List.length_modify _ _ _, fun i h' entry => ?_⟩
  obtain ⟨b, old, rfl⟩ := entry_modify entry
  refine ⟨b, old, ?_⟩
  split
  · rename_i same
    exact changes b (same ▸ old)
  · exact Or.inl ⟨rfl, rfl, rfl⟩

theorem Steady.set {hp : Nat} {made : Host} (few : made.hRfnm ≤ 9) (none : made.hOutq = [])
    (before : ∀ h, hosts[hp]? = some h → h.hOutq = []) : Steady hosts (hosts.set hp made) := by
  refine ⟨List.length_set, fun i h' entry => ?_⟩
  rcases entry_set entry with ⟨rfl, rfl⟩ | ⟨_, old⟩
  · have bound : i < hosts.length := by
      have inside := (List.getElem?_eq_some_iff.mp entry).1
      rwa [List.length_set] at inside
    exact ⟨hosts[i], List.getElem?_eq_getElem bound,
      Or.inr ⟨few, none, before _ (List.getElem?_eq_getElem bound)⟩⟩
  · exact ⟨h', old, Or.inl ⟨rfl, rfl, rfl⟩⟩

/-- The counts of the table: at most nine messages are in flight to a host, nine while messages
are held, and an unused entry holds none. -/
structure Window (hosts : Hosts) : Prop where
  rfnm : ∀ (hp : Nat) (h : Host), hosts[hp]? = some h → h.hRfnm ≤ 9 ∧ (h.hOutq ≠ [] → h.hRfnm = 9)
  free : ∀ (hp : Nat) (h : Host), hosts[hp]? = some h → h.hAddr = 0 → h.hOutq = []

theorem Window.steady (window : Window hosts) (steady : Steady hosts other) : Window other := by
  constructor
  · intro hp h' entry
    obtain ⟨h, old, ⟨_, rfnm, outq⟩ | ⟨few, none, _⟩⟩ := steady.2 hp h' entry
    · rw [rfnm, outq]
      exact window.rfnm hp h old
    · exact ⟨few, fun waits => absurd none waits⟩
  · intro hp h' entry zero
    obtain ⟨h, old, ⟨addr, _, outq⟩ | ⟨_, none, _⟩⟩ := steady.2 hp h' entry
    · rw [outq]
      exact window.free hp h old (addr ▸ zero)
    · exact none

theorem heldFor_steady (balanced : Balanced hosts count) (window : Window hosts)
    (after : Balanced other more) (steady : Steady hosts other) (a : Addr) :
    heldFor other a = heldFor hosts a := by
  by_cases waits : ∃ (hp : Nat) (h : Host), hosts[hp]? = some h ∧ h.hAddr = a ∧ h.hOutq ≠ []
  · obtain ⟨hp, h, entry, rfl, some⟩ := waits
    have nonzero : h.hAddr ≠ 0 := fun zero => some (window.free hp h entry zero)
    have bound : hp < other.length := steady.1 ▸ (List.getElem?_eq_some_iff.mp entry).1
    have entry' := List.getElem?_eq_getElem bound
    obtain ⟨b, old, same⟩ := steady.2 hp _ entry'
    obtain rfl : b = h := Option.some_inj.mp (old.symm.trans entry)
    rcases same with ⟨addr, _, outq⟩ | ⟨_, _, none⟩
    · have held := heldFor_of_entry after entry' (addr ▸ nonzero)
      rw [addr] at held
      rw [held, heldFor_of_entry balanced entry nonzero, outq]
    · exact absurd none some
  · have none {hp : Nat} {h : Host} (entry : hosts[hp]? = some h) (addr : h.hAddr = a) :
        h.hOutq = [] := by
      by_contra some
      exact waits ⟨hp, h, entry, addr, some⟩
    rw [heldFor_nil fun _ _ entry addr => none entry addr]
    refine heldFor_nil fun hp h' entry addr => ?_
    obtain ⟨h, old, ⟨addr', _, outq⟩ | ⟨_, none', _⟩⟩ := steady.2 hp h' entry
    · exact outq.trans (none old (addr'.symm.trans addr))
    · exact none'

end Tables

/-! ### Messages and answers -/

/-- What is sent and answered. -/
inductive Exchange
  | snd (mp : Message)
  | reply (p : Leader)

/-- The local network with the messages `imp_snd` has accepted so far. -/
structure Traffic where
  net : LocalNet
  accepted : List Message

/-- The effect of a message or an answer. -/
def exchange (env : Env) (s : Traffic) : Exchange → Traffic
  | .snd mp =>
    let sent := impSnd s.net mp
    ⟨sent.1, if sent.2 then s.accepted ++ [mp] else s.accepted⟩
  | .reply p => ⟨impRcv env s.net p, s.accepted⟩

/-- An answer of the IMP to a message. -/
def Leader.answers (p : Leader) : Prop :=
  p.iType = .rfnm ∨ p.iType = .incomp ∨ p.iType = .dead ∨ p.iType = .derror

/-- The step relation: the answers are those of the IMP. -/
def Exchanges (s : Traffic) (event : Env × Exchange) (next : Traffic) : Prop :=
  (∀ p, event.2 = .reply p → p.answers) ∧ next = exchange event.1 s event.2

/-- No answer clears the count of a host for which messages are held, no message makes a second
entry for a host, and none is for the host 0 of network 0. -/
def LeavesHeld (s : Traffic) (event : Env × Exchange) : Prop :=
  match event.2 with
  | .snd mp => MakesNoDouble s.net mp ∧ mp.leader.dest s.net.ifAddr ≠ 0
  | .reply p => (p.iType = .dead ∨ p.iType = .derror →
        heldFor s.net.hosts (p.source s.net.ifAddr) = []) ∧
      (p.iType = .dead → ∀ gp ∈ event.1.gateways, gp.gLocal ≠ 0)

/-- What was accepted for each host has been put on the output queue in that order, as far as it is
not held; and while messages are held for a host, some are in flight. -/
structure HeldInOrder (s : Traffic) : Prop where
  order : ∀ a, s.net.ifOutq.filter (Message.isFor s.net.ifAddr a) ++ heldFor s.net.hosts a =
    s.accepted.filter (Message.isFor s.net.ifAddr a)
  moving : ∀ (hp : Nat) (h : Host), s.net.hosts[hp]? = some h → h.hOutq ≠ [] → h.hRfnm ≠ 0

/-- What every run keeps. -/
structure Moving (s : Traffic) : Prop where
  accounted : Accounted s.net
  window : Window s.net.hosts
  up : s.net.ifAvail = false → ∀ (hp : Nat) (h : Host), s.net.hosts[hp]? = some h → h.hOutq = []
  order : ∀ a, s.net.ifOutq.filter (Message.isFor s.net.ifAddr a) ++ heldFor s.net.hosts a =
    s.accepted.filter (Message.isFor s.net.ifAddr a)

section Steps

variable {s : Traffic} {env : Env}

theorem Moving.steady (moving : Moving s) {next : LocalNet} {put : List Message}
    (accounted : Accounted next) (steady : Steady s.net.hosts next.hosts)
    (ifAddr : next.ifAddr = s.net.ifAddr) (ifAvail : next.ifAvail = s.net.ifAvail)
    (outq : ∀ a, next.ifOutq.filter (Message.isFor s.net.ifAddr a) =
      (s.net.ifOutq ++ put).filter (Message.isFor s.net.ifAddr a))
    (none : ∀ m ∈ put, m.leader.iType = .data →
      heldFor s.net.hosts (m.leader.dest s.net.ifAddr) = []) :
    Moving ⟨next, s.accepted ++ put⟩ := by
  refine ⟨accounted, moving.window.steady steady, fun down hp h' entry => ?_, fun a => ?_⟩
  · obtain ⟨h, old, ⟨_, _, same⟩ | ⟨_, nothing, _⟩⟩ := steady.2 hp h' entry
    · rw [same]
      exact moving.up (ifAvail ▸ down) hp h old
    · exact nothing
  · dsimp only
    rw [ifAddr, outq, List.filter_append, List.filter_append, ← moving.order a,
      heldFor_steady moving.accounted.balanced moving.window accounted.balanced steady,
      List.append_assoc, List.append_assoc]
    by_cases fits : put.filter (Message.isFor s.net.ifAddr a) = []
    · rw [fits, List.nil_append, List.append_nil]
    · obtain ⟨m, inside⟩ := List.exists_mem_of_ne_nil _ fits
      obtain ⟨inside, isFor⟩ := List.mem_filter.mp inside
      obtain ⟨data, dest⟩ := of_decide_eq_true isFor
      have nothing := none m inside data
      rw [dest] at nothing
      rw [nothing, List.nil_append, List.append_nil]

theorem Moving.quiet (moving : Moving s) {next : LocalNet} (accounted : Accounted next)
    (steady : Steady s.net.hosts next.hosts) (ifAddr : next.ifAddr = s.net.ifAddr)
    (ifAvail : next.ifAvail = s.net.ifAvail)
    (outq : ∀ a, next.ifOutq.filter (Message.isFor s.net.ifAddr a) =
      s.net.ifOutq.filter (Message.isFor s.net.ifAddr a)) : Moving ⟨next, s.accepted⟩ := by
  have moved := @Moving.steady s moving next [] accounted steady ifAddr ifAvail
    (fun a => by rw [List.append_nil]; exact outq a) fun m inside => absurd inside List.not_mem_nil
  rw [List.append_nil] at moved
  exact moved

theorem heldFor_found {hosts : Hosts} {a : Addr} {hp : Nat} (found : hFind hosts a = some hp) :
    heldFor hosts a = (hosts.getD hp Host.unused).hOutq := by
  rw [heldFor, found]
  rfl

theorem heldFor_absent {hosts : Hosts} {a : Addr} (absent : hFind hosts a = none) :
    heldFor hosts a = [] := by
  rw [heldFor, absent]
  rfl

theorem moving_snd (moving : Moving s) {mp : Message} (single : MakesNoDouble s.net mp)
    (nonzero : mp.leader.dest s.net.ifAddr ≠ 0) : Moving (exchange env s (.snd mp)) := by
  have accounted := moving.accounted.impSnd single
  have sent := impSnd_sent s.net mp
  unfold exchange
  dsimp only
  generalize impSnd s.net mp = result at accounted sent ⊢
  obtain ⟨next, accepted⟩ := result
  cases sent with
  | down _ | refused _ _ _ _ => exact moving
  | control _ control =>
    refine moving.steady accounted (Steady.refl _) rfl rfl (fun _ => rfl) fun m inside data => ?_
    rw [List.mem_singleton.mp inside] at data
    exact absurd data control
  | uncounted _ _ absent _ =>
    refine moving.steady accounted (Steady.refl _) rfl rfl (fun _ => rfl) fun m inside _ => ?_
    rw [List.mem_singleton.mp inside]
    exact heldFor_absent absent
  | @counted hp _ _ found room =>
    obtain ⟨entry, _⟩ := entry_of_found found
    have idle : (s.net.host hp).hOutq = [] := by
      by_contra waits
      have nine := (moving.window.rfnm hp _ entry).2 waits
      omega
    refine moving.steady accounted (Steady.modify fun h old => Or.inr ?_) rfl rfl (fun _ => rfl)
      fun m inside _ => ?_
    · obtain rfl : h = s.net.host hp := Option.some_inj.mp (old.symm.trans entry)
      refine ⟨?_, idle, idle⟩
      rw [Host.counted]
      dsimp only
      omega
    · rw [List.mem_singleton.mp inside, heldFor_found found]
      exact idle
  | @made hp _ _ absent unused =>
    obtain ⟨free, place, empty⟩ := hUnused_some unused
    have one : (Host.fresh (addr1822 (mp.leader.dest s.net.ifAddr)) true).counted.hRfnm ≤ 9 :=
      Nat.le_of_ble_eq_true rfl
    refine moving.steady accounted (Steady.set one rfl fun h old => ?_) rfl rfl (fun _ => rfl)
      fun m inside _ => ?_
    · obtain rfl : h = free := Option.some_inj.mp (old.symm.trans place)
      exact moving.window.free hp h place
        ((moving.accounted.balanced.used hp h place).mp empty)
    · rw [List.mem_singleton.mp inside]
      exact heldFor_absent absent
  | @held hp on data found busy =>
    obtain ⟨entry, addr⟩ := entry_of_found found
    refine ⟨accounted, ⟨fun i h' changed => ?_, fun i h' changed zero => ?_⟩,
      fun down => absurd (on.symm.trans down) (by decide), fun a => ?_⟩
    · obtain ⟨b, old, rfl⟩ := entry_modify changed
      split
      · rename_i same
        subst same
        obtain rfl : b = s.net.host hp := Option.some_inj.mp (old.symm.trans entry)
        have few := (moving.window.rfnm hp _ entry).1
        rw [Host.holding]
        exact ⟨few, fun _ => by dsimp only; omega⟩
      · exact moving.window.rfnm i b old
    · obtain ⟨b, old, rfl⟩ := entry_modify changed
      split at zero
      · rename_i same
        subst same
        obtain rfl : b = s.net.host hp := Option.some_inj.mp (old.symm.trans entry)
        exact absurd (addr.symm.trans zero) nonzero
      · rename_i other
        rw [if_neg other]
        exact moving.window.free i b old zero
    · have kept := @heldFor_modify _ (Host.holding mp) _ _ found (fun _ => rfl) a
      dsimp only [LocalNet.modifyHost]
      rw [if_pos rfl, List.filter_append, ← moving.order a, kept, List.append_assoc]
      by_cases here : a = mp.leader.dest s.net.ifAddr
      · have isFor : Message.isFor s.net.ifAddr a mp = true := decide_eq_true ⟨data, here.symm⟩
        rw [if_pos here, here, heldFor_found found, ← here, List.filter_cons_of_pos isFor]
        rfl
      · have other : ¬ Message.isFor s.net.ifAddr a mp = true := fun isFor =>
          here (of_decide_eq_true isFor).2.symm
        rw [if_neg here, List.filter_cons_of_neg other, List.filter_nil, List.append_nil]

theorem steady_hMake {hosts : Hosts} {count : Nat → Nat} (balanced : Balanced hosts count)
    (window : Window hosts) (np : Addr) : Steady hosts (hMake hosts np false).1 := by
  have made := hMake_made hosts np false
  generalize hMake hosts np false = result at made
  obtain ⟨after, slot⟩ := result
  cases made with
  | found _ _ =>
    refine Steady.modify fun h _ => Or.inl ?_
    unfold Host.referenced
    split <;> exact ⟨rfl, rfl, rfl⟩
  | @fresh i _ unused =>
    obtain ⟨free, place, empty⟩ := hUnused_some unused
    refine Steady.set (Nat.zero_le _) rfl fun h old => ?_
    obtain rfl : h = free := Option.some_inj.mp (old.symm.trans place)
    exact window.free i h place ((balanced.used i h place).mp empty)
  | full _ _ => exact Steady.refl _

theorem steady_hFree {hosts : Hosts} (window : Window hosts) {hp : Nat}
    (idle : ∀ h, hosts[hp]? = some h → h.hOutq = []) : Steady hosts (hFree hosts hp) := by
  refine Steady.modify fun h entry => Or.inr ?_
  have few := (window.rfnm hp h entry).1
  have none := idle h entry
  unfold Host.dropped
  dsimp only
  split
  · exact ⟨Nat.zero_le _, rfl, none⟩
  · exact ⟨few, none, none⟩

theorem steady_deadUcb {hosts : Hosts} {count : Nat → Nat} {up : Ucb} (p : Leader) {hp : Nat}
    (balanced : Balanced hosts fun i => count i + ref up.ucRoute i) (few : ∀ i, count i < 255)
    (window : Window hosts) (idle : ∀ h, hosts[hp]? = some h → h.hOutq = []) :
    Steady hosts (deadUcb env p hp hosts up).1 := by
  unfold deadUcb
  split
  · rename_i routed
    split
    · exact Steady.refl _
    · have moved : Steady hosts (ipReroute env hosts up hp).1 := by
        unfold ipReroute
        split
        · exact Steady.refl _
        · have freed : Balanced (hFreeRoute hosts up.ucRoute) count := balanced.hFreeRoute few
          rw [routed.2] at freed
          have first := steady_hFree window idle
          exact first.trans (steady_hMake freed (window.steady first) _)
      dsimp only
      split <;> exact moved
  · exact Steady.refl _

theorem steady_deadLoop {hosts : Hosts} {ucbs : List Ucb} {count : Nat → Nat} (p : Leader) {hp : Nat}
    (balanced : Balanced hosts fun i => count i + routes ucbs i)
    (few : ∀ i, count i + ucbs.length < 256) (gateways : ∀ gp ∈ env.gateways, gp.gLocal ≠ 0)
    (window : Window hosts) (idle : ∀ h, hosts[hp]? = some h → h.hOutq = []) :
    Steady hosts (deadLoop env p hp hosts ucbs).1 := by
  induction ucbs generalizing hosts count with
  | nil => exact Steady.refl _
  | cons up rest inductionHypothesis =>
    have apart : Balanced hosts fun i => (count i + routes rest i) + ref up.ucRoute i :=
      balanced.congr fun i => by rw [routes_cons]; omega
    have bound (i : Nat) : count i + routes rest i < 255 := by
      have bound := few i
      have references := routes_le rest i
      rw [List.length_cons] at bound
      omega
    have after := @Balanced.deadUcb _ env _ _ p hp apart bound gateways
    have first := @steady_deadUcb env _ _ _ p hp apart bound window idle
    rw [deadLoop]
    dsimp only
    generalize deadUcb env p hp hosts up = signalled at after first
    refine first.trans (@inductionHypothesis signalled.1
      (fun i => count i + ref signalled.2.ucRoute i) (after.congr fun i => by omega) (fun i => ?_)
      (window.steady first) fun h' entry => ?_)
    · have bound := few i
      have reference := ref_le signalled.2.ucRoute i
      rw [List.length_cons] at bound
      omega
    · obtain ⟨h, old, ⟨_, _, same⟩ | ⟨_, none, _⟩⟩ := first.2 hp h' entry
      · exact same.trans (idle h old)
      · exact none

theorem impDead_frame (n : LocalNet) (p : Leader) :
    (impDead env n p).ifAddr = n.ifAddr ∧ (impDead env n p).ifAvail = n.ifAvail ∧
      (impDead env n p).ifOutq = n.ifOutq := by
  unfold impDead
  split <;> exact ⟨rfl, rfl, rfl⟩

theorem moving_impDead (moving : Moving s) {p : Leader}
    (none : heldFor s.net.hosts (p.source s.net.ifAddr) = [])
    (gateways : ∀ gp ∈ env.gateways, gp.gLocal ≠ 0) : Moving ⟨impDead env s.net p, s.accepted⟩ := by
  have accounted := @Accounted.impDead _ env moving.accounted p gateways
  obtain ⟨ifAddr, ifAvail, outq⟩ := @impDead_frame env s.net p
  refine moving.quiet accounted ?_ ifAddr ifAvail fun a => by rw [outq]
  unfold impDead
  split
  · exact Steady.refl _
  rename_i hp found
  rw [heldFor_found found] at none
  obtain ⟨entry, _⟩ := entry_of_found found
  have idle : (s.net.host hp).hOutq = [] := none
  have first : Steady s.net.hosts (s.net.modifyHost hp Host.down).hosts := by
    refine Steady.modify fun h old => Or.inr ?_
    obtain rfl : h = s.net.host hp := Option.some_inj.mp (old.symm.trans entry)
    exact ⟨Nat.zero_le _, idle, idle⟩
  have down : Accounted (s.net.modifyHost hp Host.down) :=
    moving.accounted.modify hp (fun _ => ⟨rfl, rfl, rfl⟩) fun _ _ inside => inside
  have few := down.few
  dsimp only
  refine first.trans (@steady_deadLoop env _ _ (fun _ => 0) p hp
    (down.balanced.congr fun i => Nat.zero_add _) (fun i => by omega) gateways
    (moving.window.steady first) fun h' changed => ?_)
  obtain ⟨h, old, ⟨_, _, same⟩ | ⟨_, nothing, _⟩⟩ := first.2 hp h' changed
  · obtain rfl : h = s.net.host hp := Option.some_inj.mp (old.symm.trans entry)
    exact same.trans idle
  · exact nothing

theorem filter_noops (n : LocalNet) (a : Addr) :
    (impNoops env n).ifOutq.filter (Message.isFor n.ifAddr a) =
      n.ifOutq.filter (Message.isFor n.ifAddr a) := by
  unfold impNoops
  dsimp only
  generalize (List.range 3).take env.noopBufs = buffers
  generalize n.ifOutq = outq
  induction buffers generalizing outq with
  | nil => rfl
  | cons inx rest inductionHypothesis =>
    rw [List.foldl_cons, inductionHypothesis]
    refine List.filter_cons_of_neg ?_
    intro isFor
    exact absurd (of_decide_eq_true isFor).1 (by simp [noop])

theorem moving_impDerror (moving : Moving s) {p : Leader}
    (none : heldFor s.net.hosts (p.source s.net.ifAddr) = []) :
    Moving ⟨impNoops env (impDerror s.net p), s.accepted⟩ := by
  have cleared : Moving ⟨impDerror s.net p, s.accepted⟩ := by
    unfold impDerror
    split
    · exact moving
    rename_i hp found
    rw [heldFor_found found] at none
    obtain ⟨entry, _⟩ := entry_of_found found
    have idle : (s.net.host hp).hOutq = [] := none
    refine moving.quiet
      (moving.accounted.modify hp (fun _ => ⟨rfl, rfl, rfl⟩) fun _ _ inside => inside)
      (Steady.modify fun h old => Or.inr ?_) rfl rfl fun _ => rfl
    obtain rfl : h = s.net.host hp := Option.some_inj.mp (old.symm.trans entry)
    exact ⟨Nat.zero_le _, idle, idle⟩
  exact cleared.quiet cleared.accounted.impNoops (Steady.refl _) rfl rfl
    fun a => filter_noops _ a

theorem moving_impRfnm (moving : Moving s) (p : Leader) :
    Moving ⟨impRfnm s.net p, s.accepted⟩ := by
  have accounted := moving.accounted.impRfnm p
  have outcome := impRfnm_answered s.net p
  generalize impRfnm s.net p = next at accounted outcome ⊢
  have answered {hp : Nat} (found : hFind s.net.hosts (p.source s.net.ifAddr) = some hp)
      (idle : (s.net.host hp).hOutq = []) :
      Steady s.net.hosts (s.net.modifyHost hp Host.answered).hosts := by
    obtain ⟨entry, _⟩ := entry_of_found found
    refine Steady.modify fun h old => Or.inr ?_
    obtain rfl : h = s.net.host hp := Option.some_inj.mp (old.symm.trans entry)
    have few := (moving.window.rfnm hp _ entry).1
    refine ⟨?_, idle, idle⟩
    rw [Host.answered]
    dsimp only
    omega
  cases outcome with
  | unknown _ | early _ _ => exact moving
  | left found _ idle => exact moving.quiet accounted (answered found idle) rfl rfl fun _ => rfl
  | @deleted hp found _ idle _ =>
    have first := answered found idle
    refine moving.quiet accounted (first.trans ?_) rfl rfl fun _ => rfl
    refine steady_hFree (moving.window.steady first) fun h' changed => ?_
    have same := Option.some_inj.mp
      (changed.symm.trans (entry_modifyHost (entry_of_found found).1 Host.answered))
    rw [same]
    exact idle
  | @released hp m rest found some queue =>
    obtain ⟨entry, addr⟩ := entry_of_found found
    obtain ⟨data, dest⟩ := moving.accounted.waiting hp _ entry m (queue ▸ List.mem_cons_self)
    have waits : (s.net.host hp).hOutq ≠ [] := by
      rw [queue]
      exact List.cons_ne_nil _ _
    have nine : (s.net.host hp).hRfnm = 9 := (moving.window.rfnm hp _ entry).2 waits
    have on : s.net.ifAvail = true := by
      by_contra off
      exact waits (moving.up (by simpa using off) hp _ entry)
    have fromHost : m.leader.dest s.net.ifAddr = p.source s.net.ifAddr := dest.trans addr
    have sent : impSnd ((s.net.modifyHost hp Host.answered).modifyHost hp Host.unqueued) m =
        ((((s.net.modifyHost hp Host.answered).modifyHost hp Host.unqueued).modifyHost hp
          Host.counted).put m, true) := by
      refine impSnd_counted on data ?_ ?_
      · dsimp only [LocalNet.modifyHost]
        rw [@hFind_modify _ _ Host.unqueued hp fun _ => rfl, @hFind_modify _ _ Host.answered hp fun _ => rfl,
          fromHost]
        exact found
      · rw [host_of_entry (entry_modifyHost (entry_modifyHost entry Host.answered) Host.unqueued)]
        rw [Host.unqueued, Host.answered]
        dsimp only
        omega
    rw [sent] at accounted ⊢
    have hosts : ((((s.net.modifyHost hp Host.answered).modifyHost hp Host.unqueued).modifyHost hp
        Host.counted).put m).hosts =
        s.net.hosts.modify hp (Host.counted ∘ Host.unqueued ∘ Host.answered) := by
      dsimp only [LocalNet.modifyHost, LocalNet.put]
      rw [List.modify_modify_eq, List.modify_modify_eq]
      rfl
    refine ⟨accounted, ⟨fun i h' changed => ?_, fun i h' changed zero => ?_⟩,
      fun down => absurd (on.symm.trans down) (by decide), fun a => ?_⟩
    · rw [hosts] at changed
      obtain ⟨b, old, rfl⟩ := entry_modify changed
      split
      · rename_i same
        subst same
        obtain rfl : b = s.net.host hp := Option.some_inj.mp (old.symm.trans entry)
        have full : ((Host.counted ∘ Host.unqueued ∘ Host.answered) (s.net.host hp)).hRfnm = 9 := by
          dsimp only [Function.comp, Host.counted, Host.unqueued, Host.answered]
          omega
        rw [full]
        exact ⟨Nat.le_refl _, fun _ => rfl⟩
      · exact moving.window.rfnm i b old
    · rw [hosts] at changed
      obtain ⟨b, old, rfl⟩ := entry_modify changed
      split at zero
      · rename_i same
        subst same
        obtain rfl : b = s.net.host hp := Option.some_inj.mp (old.symm.trans entry)
        exact absurd (moving.window.free hp _ entry zero) waits
      · rename_i other
        rw [if_neg other]
        exact moving.window.free i b old zero
    · have kept := @heldFor_modify _ (Host.counted ∘ Host.unqueued ∘ Host.answered) _ _ found
        (fun _ => rfl) a
      rw [← hosts] at kept
      rw [kept]
      dsimp only [LocalNet.modifyHost, LocalNet.put]
      rw [← moving.order a, List.filter_append, List.append_assoc]
      by_cases here : a = p.source s.net.ifAddr
      · have isFor : Message.isFor s.net.ifAddr a m = true :=
          decide_eq_true ⟨data, fromHost.trans here.symm⟩
        rw [if_pos here, here, heldFor_found found, ← here, List.filter_cons_of_pos isFor]
        have first : (s.net.hosts.getD hp Host.unused).hOutq = m :: rest := queue
        rw [first]
        dsimp only [Function.comp, Host.counted, Host.unqueued, Host.answered]
        rw [first]
        rfl
      · have other : ¬ Message.isFor s.net.ifAddr a m = true := fun isFor =>
          here ((of_decide_eq_true isFor).2.symm.trans fromHost)
        rw [if_neg here, List.filter_cons_of_neg other, List.filter_nil, List.nil_append]

theorem exchange_moving {event : Exchange} (moving : Moving s)
    (answers : ∀ p, event = .reply p → p.answers) (leaves : LeavesHeld s (env, event)) :
    Moving (exchange env s event) := by
  cases event with
  | snd mp => exact moving_snd moving leaves.1 leaves.2
  | reply p =>
    rw [exchange]
    unfold impRcv
    split
    · exact moving
    rcases answers p rfl with type | type | type | type
    · rw [type]
      exact moving_impRfnm moving p
    · rw [type]
      exact moving_impRfnm moving p
    · have none := leaves.1 (Or.inl type)
      have gateways := leaves.2 type
      rw [type]
      exact moving_impDead moving none gateways
    · have none := leaves.1 (Or.inr type)
      rw [type]
      exact moving_impDerror moving none

end Steps

/-! ### Every run -/

/-- A host table in which nothing is in flight, as far as the accounts go back. -/
structure Idle (n : LocalNet) : Prop where
  accounted : Accounted n
  outq : n.ifOutq = []
  hosts : ∀ h ∈ n.hosts, h.hRfnm = 0 ∧ h.hOutq = []

/-- In every run whose answers clear no count while messages are held, messages are sent to each
host in the order in which they were accepted, and none is stranded. -/
theorem held_in_order (n : LocalNet) (idle : Idle n) (history : List (Env × Exchange)) (s : Traffic)
    (run : Transition.Run (Transition.Guarded Exchanges LeavesHeld) ⟨n, []⟩ history s) :
    HeldInOrder s := by
  have initially : Moving ⟨n, []⟩ := by
    have empty (hp : Nat) (h : Host) (entry : n.hosts[hp]? = some h) : h.hOutq = [] :=
      (idle.hosts h (List.mem_of_getElem? entry)).2
    refine ⟨idle.accounted, ⟨fun hp h entry => ?_, fun hp h entry _ => empty hp h entry⟩,
      fun _ => empty, fun a => ?_⟩
    · rw [(idle.hosts h (List.mem_of_getElem? entry)).1]
      exact ⟨Nat.zero_le _, fun waits => absurd (empty hp h entry) waits⟩
    · dsimp only
      rw [idle.outq, heldFor_nil fun hp h entry _ => empty hp h entry]
      rfl
  have moving : Moving s := by
    refine run.always Moving initially ?_
    rintro s ⟨env, event⟩ _ moving ⟨leaves, answers, rfl⟩
    exact exchange_moving moving answers leaves
  refine ⟨moving.order, fun hp h entry waits => ?_⟩
  have nine := (moving.window.rfnm hp h entry).2 waits
  omega

/-- The system with the interface of host 2 up. -/
def host2Up : LocalNet := { netinit 20 0x0500020a with ifAvail := true }

theorem host2Up_idle : Idle host2Up :=
  ⟨⟨(netinit_accounted 20 0x0500020a).balanced, (netinit_accounted 20 0x0500020a).waiting,
    (netinit_accounted 20 0x0500020a).few⟩, rfl, fun h inside => by
      rw [List.eq_of_mem_replicate inside]
      exact ⟨rfl, rfl⟩⟩

theorem follows_snd (env : Env) (s : Traffic) (mps : List Message) :
    Transition.Follows Exchanges (fun s event => exchange event.1 s event.2) s
      (mps.map fun mp => (env, .snd mp)) := by
  induction mps generalizing s with
  | nil => trivial
  | cons mp rest inductionHypothesis =>
    exact ⟨⟨fun _ other => (nomatch other), rfl⟩, inductionHypothesis _⟩

/-- A message and its answer. -/
theorem held_in_order_answered :
    HeldInOrder ([(quietEnv, .snd toHost1),
      (quietEnv, .reply { toHost1.leader with iType := .rfnm })].foldl
        (fun s event => exchange event.1 s event.2) ⟨host2Up, []⟩) :=
  held_in_order host2Up host2Up_idle _ _ (Transition.Run.start.follows
    ⟨⟨⟨impLeader_single _ _ ⟨0, 0, []⟩, by decide⟩, fun _ other => (nomatch other), rfl⟩,
      ⟨⟨fun clears => absurd clears (by decide), fun dead => (nomatch dead)⟩,
        fun p reply => by injection reply with same; exact same ▸ Or.inl rfl, rfl⟩, trivial⟩)

/-- Ten messages for a host that is dead: nine are in flight and one is held when the answer to
the first one clears the count. -/
theorem dead_strands_held :
    ¬ ∀ (n : LocalNet), Idle n → ∀ (history : List (Env × Exchange)) (s : Traffic),
      Transition.Run Exchanges ⟨n, []⟩ history s → HeldInOrder s := by
  intro kept
  have follows := @Transition.Follows.append _ _ Exchanges _ _ _
    [(quietEnv, .reply { toHost1.leader with iType := .dead })]
    (follows_snd quietEnv ⟨host2Up, []⟩ (List.replicate 10 toHost1))
    ⟨⟨fun p reply => by injection reply with same; exact same ▸ Or.inr (Or.inr (Or.inl rfl)), rfl⟩,
      trivial⟩
  have inOrder := kept host2Up host2Up_idle _ _ (Transition.Run.start.follows follows)
  refine inOrder.moving 0 ⟨0x0600010a, 0, 1, false, true, [toHost1]⟩ rfl (List.cons_ne_nil _ _) rfl

end NetworkUnix.Bbnnet.Local
