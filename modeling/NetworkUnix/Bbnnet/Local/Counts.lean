/-
This file proves when the reference counts of the host table are right: every
entry counts the connections whose route it is, and one more while it is
temporary. Each routine is shown to keep the balance between the table and the
references of the connections; a run of the system then keeps it as long as no
routine hands out or drops a reference that nobody accounts for.
-/

import NetworkUnix.Bbnnet.Local.Route

namespace NetworkUnix.Bbnnet.Local

/-! ### References -/

/-- The reference that a route holds. -/
def ref (route : Option Nat) (hp : Nat) : Nat := if route = some hp then 1 else 0

/-- The references to an entry that the connections hold. -/
def routes (ucbs : List Ucb) (hp : Nat) : Nat := ucbs.countP fun up => up.ucRoute = some hp

/-- The table and the references to it are in balance: `count` says how many references the
connections hold to an entry. -/
structure Balanced (hosts : Hosts) (count : Nat → Nat) : Prop where
  refct : ∀ (hp : Nat) (h : Host), hosts[hp]? = some h → h.hRefct = count hp + if h.hTemp then 1 else 0
  temp : ∀ (hp : Nat) (h : Host), hosts[hp]? = some h → h.hTemp = true → count hp = 0
  inside : ∀ hp, count hp ≠ 0 → hp < hosts.length
  used : ∀ (hp : Nat) (h : Host), hosts[hp]? = some h → (h.hRefct = 0 ↔ h.hAddr = 0)
  distinct : ∀ (i j : Nat) (hi hj : Host), hosts[i]? = some hi → hosts[j]? = some hj → hi.hAddr ≠ 0 →
    hi.hAddr = hj.hAddr → i = j

theorem ref_self (hp : Nat) : ref (some hp) hp = 1 := if_pos rfl

theorem ref_other {hp other : Nat} (apart : hp ≠ other) : ref (some hp) other = 0 :=
  if_neg fun same => apart (Option.some_inj.mp same)

theorem ref_le (route : Option Nat) (hp : Nat) : ref route hp ≤ 1 := by
  unfold ref
  split <;> omega

theorem routes_le (ucbs : List Ucb) (hp : Nat) : routes ucbs hp ≤ ucbs.length :=
  List.countP_le_length

theorem routes_cons (up : Ucb) (ucbs : List Ucb) (hp : Nat) :
    routes (up :: ucbs) hp = routes ucbs hp + ref up.ucRoute hp := by
  unfold routes ref
  rw [List.countP_cons]
  simp only [decide_eq_true_eq]

theorem routes_of_getElem {ucbs : List Ucb} {index : Nat} {up : Ucb} (entry : ucbs[index]? = some up)
    (hp : Nat) : routes ucbs hp = routes (ucbs.eraseIdx index) hp + ref up.ucRoute hp := by
  obtain ⟨bound, rfl⟩ := List.getElem?_eq_some_iff.mp entry
  rw [← routes_cons]
  exact ((List.getElem_cons_eraseIdx_perm bound).countP_eq _).symm

theorem routes_set {ucbs : List Ucb} {index : Nat} {up : Ucb} (entry : ucbs[index]? = some up)
    (other : Ucb) (hp : Nat) :
    routes (ucbs.set index other) hp = routes (ucbs.eraseIdx index) hp + ref other.ucRoute hp := by
  obtain ⟨bound, -⟩ := List.getElem?_eq_some_iff.mp entry
  rw [← routes_cons]
  exact (List.set_perm_cons_eraseIdx bound other).countP_eq _

/-! ### The routines of the table -/

section Table

variable {hosts : Hosts} {count : Nat → Nat}

section

variable (balanced : Balanced hosts count)
include balanced

theorem Balanced.congr {other : Nat → Nat} (same : ∀ hp, other hp = count hp) : Balanced hosts other :=
  (funext same : other = count) ▸ balanced

theorem Balanced.of_entries {other : Hosts}
    (long : other.length = hosts.length)
    (before : ∀ (i : Nat) (h : Host), other[i]? = some h → ∃ b, hosts[i]? = some b ∧
      h.hAddr = b.hAddr ∧ h.hRefct = b.hRefct ∧ h.hTemp = b.hTemp) : Balanced other count := by
  constructor
  · intro i h entry
    obtain ⟨b, inside, _, refct, temp⟩ := before i h entry
    rw [refct, temp]
    exact balanced.refct i b inside
  · intro i h entry marked
    obtain ⟨b, inside, _, _, temp⟩ := before i h entry
    exact balanced.temp i b inside (temp ▸ marked)
  · intro i counted
    rw [long]
    exact balanced.inside i counted
  · intro i h entry
    obtain ⟨b, inside, addr, refct, _⟩ := before i h entry
    rw [refct, addr]
    exact balanced.used i b inside
  · intro i j hi hj entryI entryJ nonzero same
    obtain ⟨bi, insideI, addrI, _⟩ := before i hi entryI
    obtain ⟨bj, insideJ, addrJ, _⟩ := before j hj entryJ
    exact balanced.distinct i j bi bj insideI insideJ (addrI ▸ nonzero) (addrI ▸ addrJ ▸ same)

theorem Balanced.modify (hp : Nat) {change : Host → Host}
    (keeps : ∀ h, (change h).hAddr = h.hAddr ∧ (change h).hRefct = h.hRefct ∧
      (change h).hTemp = h.hTemp) : Balanced (hosts.modify hp change) count := by
  refine balanced.of_entries (List.length_modify _ _ _) fun i h entry => ?_
  obtain ⟨b, inside, rfl⟩ := entry_modify entry
  refine ⟨b, inside, ?_⟩
  split
  · exact keeps b
  · exact ⟨rfl, rfl, rfl⟩

theorem Balanced.set {i : Nat} {made : Host}
    (unused : hUnused hosts = some i) (absent : hFind hosts made.hAddr = none)
    (nonzero : made.hAddr ≠ 0) (one : made.hRefct = 1) :
    Balanced (hosts.set i made) fun hp => count hp + if made.hTemp then 0 else ref (some i) hp := by
  obtain ⟨free, place, empty⟩ := hUnused_some unused
  have none : count i = 0 := by
    have counted := balanced.refct i free place
    omega
  have bound : i < hosts.length := (List.getElem?_eq_some_iff.mp place).1
  constructor
  · intro hp h entry
    rcases entry_set entry with ⟨rfl, rfl⟩ | ⟨apart, old⟩
    · rw [one, none, ref_self]
      split <;> rfl
    · rw [balanced.refct hp h old, ref_other (Ne.symm apart), ite_self, Nat.add_zero]
  · intro hp h entry marked
    rcases entry_set entry with ⟨rfl, rfl⟩ | ⟨apart, old⟩
    · rw [if_pos marked, none]
    · rw [ref_other (Ne.symm apart), ite_self, balanced.temp hp h old marked]
  · intro hp counted
    rw [List.length_set]
    by_cases same : hp = i
    · exact same ▸ bound
    · rw [ref_other (Ne.symm same), ite_self, Nat.add_zero] at counted
      exact balanced.inside hp counted
  · intro hp h entry
    rcases entry_set entry with ⟨rfl, rfl⟩ | ⟨apart, old⟩
    · exact ⟨fun zero => absurd (one.symm.trans zero) (by decide), fun zero => absurd zero nonzero⟩
    · exact balanced.used hp h old
  · intro j k hj hk entryJ entryK nonzero same
    rcases entry_set entryJ with ⟨rfl, rfl⟩ | ⟨apartJ, oldJ⟩
    · rcases entry_set entryK with ⟨rfl, rfl⟩ | ⟨_, oldK⟩
      · rfl
      · exact absurd same.symm (hFind_none absent oldK)
    · rcases entry_set entryK with ⟨rfl, rfl⟩ | ⟨_, oldK⟩
      · exact absurd same (hFind_none absent oldJ)
      · exact balanced.distinct j k hj hk oldJ oldK nonzero same

theorem Balanced.referenced {i : Nat} {n : Addr}
    (found : hFind hosts n = some i) (nonzero : n ≠ 0) (few : count i < 255) :
    Balanced (hosts.modify i Host.referenced) fun hp => count hp + ref (some i) hp := by
  obtain ⟨h, entry, addr, _⟩ := hFind_some found
  have used : h.hRefct ≠ 0 := fun zero => nonzero (addr ▸ (balanced.used i h entry).mp zero)
  have counted := balanced.refct i h entry
  have marked := balanced.temp i h entry
  have kept (h : Host) : h.referenced.hAddr = h.hAddr := by
    unfold Host.referenced
    split <;> rfl
  have itself : h.referenced.hRefct = count i + 1 ∧ h.referenced.hTemp = false := by
    unfold Host.referenced
    split
    · rename_i temp
      rw [if_pos temp] at counted
      exact ⟨counted, rfl⟩
    · rename_i permanent
      rw [if_neg permanent] at counted
      refine ⟨?_, by simpa using permanent⟩
      dsimp only
      omega
  have before {hp : Nat} {h' : Host} (changed : (hosts.modify i Host.referenced)[hp]? = some h') :
      (hp = i ∧ h' = h.referenced) ∨ (hp ≠ i ∧ hosts[hp]? = some h') := by
    obtain ⟨b, inside, rfl⟩ := entry_modify changed
    by_cases same : i = hp
    · subst same
      rw [entry] at inside
      rw [if_pos rfl, Option.some_inj.mp inside]
      exact Or.inl ⟨rfl, rfl⟩
    · rw [if_neg same]
      exact Or.inr ⟨Ne.symm same, inside⟩
  constructor
  · intro hp h' changed
    rcases before changed with ⟨rfl, rfl⟩ | ⟨apart, old⟩
    · rw [itself.1, itself.2, ref_self]
      rfl
    · rw [balanced.refct hp h' old, ref_other (Ne.symm apart), Nat.add_zero]
  · intro hp h' changed temp
    rcases before changed with ⟨rfl, rfl⟩ | ⟨apart, old⟩
    · rw [itself.2] at temp
      exact absurd temp (by decide)
    · rw [balanced.temp hp h' old temp, ref_other (Ne.symm apart)]
  · intro hp counted
    rw [List.length_modify]
    by_cases same : hp = i
    · exact same ▸ (List.getElem?_eq_some_iff.mp entry).1
    · rw [ref_other (Ne.symm same), Nat.add_zero] at counted
      exact balanced.inside hp counted
  · intro hp h' changed
    rcases before changed with ⟨rfl, rfl⟩ | ⟨_, old⟩
    · rw [itself.1, kept, addr]
      exact ⟨fun zero => absurd zero (by omega), fun zero => absurd zero nonzero⟩
    · exact balanced.used hp h' old
  · intro j k hj hk changedJ changedK nonzeroJ same
    have address {hp : Nat} {h' : Host} (changed : (hosts.modify i Host.referenced)[hp]? = some h') :
        ∃ b, hosts[hp]? = some b ∧ h'.hAddr = b.hAddr := by
      rcases before changed with ⟨rfl, rfl⟩ | ⟨_, old⟩
      · exact ⟨h, entry, kept h⟩
      · exact ⟨h', old, rfl⟩
    obtain ⟨bj, oldJ, addrJ⟩ := address changedJ
    obtain ⟨bk, oldK, addrK⟩ := address changedK
    exact balanced.distinct j k bj bk oldJ oldK (addrJ ▸ nonzeroJ) (addrJ ▸ addrK ▸ same)

theorem Balanced.hMake {np : Addr} (nonzero : addr1822 np ≠ 0)
    (few : ∀ hp, count hp < 255) :
    Balanced (hMake hosts np false).1 fun hp => count hp + ref (hMake hosts np false).2 hp := by
  have made := hMake_made hosts np false
  generalize Local.hMake hosts np false = result at made ⊢
  obtain ⟨after, entry⟩ := result
  cases made with
  | found _ found => exact balanced.referenced found nonzero (few _)
  | fresh absent unused => exact balanced.set unused (absent rfl) nonzero rfl
  | full _ _ => exact balanced

theorem Balanced.hFree {hp : Nat} {h : Host}
    (entry : hosts[hp]? = some h) (held : 1 ≤ h.hRefct) (few : h.hRefct ≤ 255)
    (last : h.hTemp = true → h.hRefct = 1) {left : Nat → Nat} (itself : left hp = h.hRefct - 1)
    (others : ∀ i, i ≠ hp → left i = count i) : Balanced (hFree hosts hp) left := by
  have down : (h.hRefct + 255) % 256 = h.hRefct - 1 := by omega
  have gone : h.hRefct = 1 → h.dropped = Host.unused := by
    intro one
    unfold Host.dropped
    dsimp only
    rw [down, if_pos (by omega)]
  have kept : h.hRefct ≠ 1 → h.dropped = { h with hRefct := h.hRefct - 1 } := by
    intro more
    unfold Host.dropped
    dsimp only
    rw [down, if_neg (by omega)]
  have before {i : Nat} {h' : Host} (changed : (Local.hFree hosts hp)[i]? = some h') :
      (i = hp ∧ h' = h.dropped) ∨ (i ≠ hp ∧ hosts[i]? = some h') := by
    obtain ⟨b, inside, rfl⟩ := entry_modify changed
    by_cases same : hp = i
    · subst same
      rw [entry] at inside
      rw [if_pos rfl, Option.some_inj.mp inside]
      exact Or.inl ⟨rfl, rfl⟩
    · rw [if_neg same]
      exact Or.inr ⟨Ne.symm same, inside⟩
  have used : h.hAddr ≠ 0 := fun zero => by
    have none := (balanced.used hp h entry).mpr zero
    omega
  constructor
  · intro i h' changed
    rcases before changed with ⟨rfl, rfl⟩ | ⟨apart, old⟩
    · by_cases one : h.hRefct = 1
      · rw [gone one, itself, one]
        rfl
      · rw [kept one, itself, if_neg fun temp => one (last temp)]
        rfl
    · rw [others i apart]
      exact balanced.refct i h' old
  · intro i h' changed temp
    rcases before changed with ⟨rfl, rfl⟩ | ⟨apart, old⟩
    · by_cases one : h.hRefct = 1
      · rw [itself, one]
      · rw [kept one] at temp
        exact absurd (last temp) one
    · rw [others i apart]
      exact balanced.temp i h' old temp
  · intro i counted
    rw [Local.hFree, List.length_modify]
    by_cases same : i = hp
    · exact same ▸ (List.getElem?_eq_some_iff.mp entry).1
    · rw [others i same] at counted
      exact balanced.inside i counted
  · intro i h' changed
    rcases before changed with ⟨rfl, rfl⟩ | ⟨_, old⟩
    · by_cases one : h.hRefct = 1
      · rw [gone one]
        exact ⟨fun _ => rfl, fun _ => rfl⟩
      · rw [kept one]
        exact ⟨fun zero => absurd zero (by dsimp only; omega), fun zero => absurd zero used⟩
    · exact balanced.used i h' old
  · intro j k hj hk changedJ changedK nonzero same
    have address {i : Nat} {h' : Host} (changed : (Local.hFree hosts hp)[i]? = some h')
        (nonzero : h'.hAddr ≠ 0) : ∃ b, hosts[i]? = some b ∧ h'.hAddr = b.hAddr := by
      rcases before changed with ⟨rfl, rfl⟩ | ⟨_, old⟩
      · by_cases one : h.hRefct = 1
        · rw [gone one] at nonzero
          exact absurd rfl nonzero
        · exact ⟨h, entry, by rw [kept one]⟩
      · exact ⟨h', old, rfl⟩
    obtain ⟨bj, oldJ, addrJ⟩ := address changedJ nonzero
    obtain ⟨bk, oldK, addrK⟩ := address changedK (same ▸ nonzero)
    exact balanced.distinct j k bj bk oldJ oldK (addrJ ▸ nonzero) (addrJ ▸ addrK ▸ same)

end

theorem Balanced.hFreeRoute {route : Option Nat}
    (balanced : Balanced hosts fun hp => count hp + ref route hp) (few : ∀ hp, count hp < 255) :
    Balanced (hFreeRoute hosts route) count := by
  cases route with
  | none => exact balanced.congr fun _ => rfl
  | some hp =>
    have inside : hp < hosts.length := by
      refine balanced.inside hp ?_
      rw [ref_self]
      omega
    have entry := List.getElem?_eq_getElem inside
    have permanent : ¬ hosts[hp].hTemp = true := fun temp => by
      have none := balanced.temp hp _ entry temp
      rw [ref_self] at none
      omega
    have refct := balanced.refct hp _ entry
    rw [if_neg permanent, ref_self] at refct
    have bound := few hp
    refine balanced.hFree entry (by omega) (by omega) (fun temp => absurd temp permanent) (by omega)
      fun i apart => ?_
    rw [ref_other (Ne.symm apart), Nat.add_zero]

theorem Balanced.hFree_temp (balanced : Balanced hosts count) {hp : Nat} {h : Host}
    (entry : hosts[hp]? = some h) (temp : h.hTemp = true) : Balanced (Local.hFree hosts hp) count := by
  have refct := balanced.refct hp h entry
  have none := balanced.temp hp h entry temp
  rw [if_pos temp, none] at refct
  exact balanced.hFree entry (by omega) (by omega) (fun _ => refct) (by omega) fun _ _ => rfl

theorem Balanced.hReset (balanced : Balanced hosts count) {net : Net}
    (permanent : ∀ h ∈ hosts, iptonet h.hAddr = net → h.hTemp = false) :
    Balanced (hReset hosts net) count := by
  unfold Local.hReset
  refine balanced.of_entries (List.length_map _) fun i h entry => ?_
  rw [List.getElem?_map] at entry
  obtain ⟨b, inside, rfl⟩ := Option.map_eq_some_iff.mp entry
  refine ⟨b, inside, ?_⟩
  split
  · rename_i same
    exact ⟨rfl, rfl, (permanent b (List.mem_of_getElem? inside) same).symm⟩
  · exact ⟨rfl, rfl, rfl⟩

end Table

/-! ### Messages that wait -/

/-- The messages held at an entry are data for its host. -/
def Waiting (ifAddr : Addr) (hosts : Hosts) : Prop :=
  ∀ (hp : Nat) (h : Host), hosts[hp]? = some h → ∀ m ∈ h.hOutq,
    m.leader.iType = .data ∧ m.leader.dest ifAddr = h.hAddr

section Waiting

variable {ifAddr : Addr} {hosts : Hosts}

section

variable (waiting : Waiting ifAddr hosts)
include waiting

theorem Waiting.modify (hp : Nat) {change : Host → Host}
    (keeps : ∀ h m, m ∈ (change h).hOutq → m ∈ h.hOutq ∧ (change h).hAddr = h.hAddr) :
    Waiting ifAddr (hosts.modify hp change) := by
  intro i h entry m inside
  obtain ⟨b, old, rfl⟩ := entry_modify entry
  split at inside
  · rename_i same
    obtain ⟨held, addr⟩ := keeps b m inside
    rw [if_pos same, addr]
    exact waiting i b old m held
  · rename_i other
    rw [if_neg other]
    exact waiting i b old m inside

theorem Waiting.set (hp : Nat) {made : Host} (none : made.hOutq = []) :
    Waiting ifAddr (hosts.set hp made) := by
  intro i h entry m inside
  rcases entry_set entry with ⟨rfl, rfl⟩ | ⟨_, old⟩
  · rw [none] at inside
    exact absurd inside List.not_mem_nil
  · exact waiting i h old m inside

theorem Waiting.hMake (np : Addr) (temp : Bool) :
    Waiting ifAddr (hMake hosts np temp).1 := by
  have made := hMake_made hosts np temp
  generalize Local.hMake hosts np temp = result at made ⊢
  obtain ⟨after, entry⟩ := result
  cases made with
  | found _ _ =>
    refine waiting.modify _ fun h m inside => ?_
    unfold Host.referenced at inside ⊢
    split at inside
    · rename_i temp
      rw [if_pos temp]
      exact ⟨inside, rfl⟩
    · rename_i permanent
      rw [if_neg permanent]
      exact ⟨inside, rfl⟩
  | fresh _ _ => exact waiting.set _ rfl
  | full _ _ => exact waiting

theorem Waiting.hFree (hp : Nat) : Waiting ifAddr (hFree hosts hp) := by
  refine waiting.modify hp fun h m inside => ?_
  unfold Host.dropped at inside ⊢
  dsimp only at inside ⊢
  split at inside
  · exact absurd inside List.not_mem_nil
  · rename_i left
    rw [if_neg left]
    exact ⟨inside, rfl⟩

theorem Waiting.hFreeRoute (route : Option Nat) :
    Waiting ifAddr (hFreeRoute hosts route) := by
  cases route with
  | none => exact waiting
  | some hp => exact waiting.hFree hp

theorem Waiting.hReset (net : Net) :
    Waiting ifAddr (hReset hosts net) := by
  intro i h entry m inside
  unfold Local.hReset at entry
  rw [List.getElem?_map] at entry
  obtain ⟨b, old, rfl⟩ := Option.map_eq_some_iff.mp entry
  split at inside
  · exact absurd inside List.not_mem_nil
  · rename_i other
    rw [if_neg other]
    exact waiting i b old m inside

end

end Waiting

/-! ### The local network -/

theorem impSnd_frame (n : LocalNet) (mp : Message) :
    (impSnd n mp).1.ucbs = n.ucbs ∧ (impSnd n mp).1.ifAddr = n.ifAddr := by
  have sent := impSnd_sent n mp
  generalize impSnd n mp = result at sent ⊢
  obtain ⟨after, accepted⟩ := result
  cases sent <;> exact ⟨rfl, rfl⟩

/-- A message that makes no second entry for a host: either its own address has an entry or the
address without the logical host has none. -/
def MakesNoDouble (n : LocalNet) (mp : Message) : Prop :=
  n.ifAvail = true → mp.leader.iType = .data → hFind n.hosts (mp.leader.dest n.ifAddr) = none →
    hFind n.hosts (addr1822 (mp.leader.dest n.ifAddr)) = none

section Net

variable {n : LocalNet} {count : Nat → Nat} {env : Env}

theorem Balanced.impSnd (balanced : Balanced n.hosts count) {mp : Message}
    (single : MakesNoDouble n mp) : Balanced (impSnd n mp).1.hosts count := by
  have sent := impSnd_sent n mp
  generalize Local.impSnd n mp = result at sent ⊢
  obtain ⟨after, accepted⟩ := result
  cases sent with
  | down _ | control _ _ | refused _ _ _ _ | uncounted _ _ _ _ => exact balanced
  | held _ _ _ _ | counted _ _ _ _ => exact balanced.modify _ fun h => ⟨rfl, rfl, rfl⟩
  | made on data absent unused =>
    have single := single on data
    have nonzero : addr1822 (mp.leader.dest n.ifAddr) ≠ 0 := by
      intro zero
      obtain ⟨free, place, empty⟩ := hUnused_some unused
      have address := (balanced.used _ free place).mp empty
      exact hFind_none (single absent) place (address.trans zero.symm)
    exact balanced.set unused (single absent) nonzero rfl

theorem Waiting.impSnd (waiting : Waiting n.ifAddr n.hosts) (mp : Message) :
    Waiting n.ifAddr (impSnd n mp).1.hosts := by
  have sent := impSnd_sent n mp
  generalize Local.impSnd n mp = result at sent ⊢
  obtain ⟨after, accepted⟩ := result
  cases sent with
  | down _ | control _ _ | refused _ _ _ _ | uncounted _ _ _ _ => exact waiting
  | counted _ _ _ _ => exact waiting.modify _ fun h m inside => ⟨inside, rfl⟩
  | made _ _ _ _ => exact waiting.set _ rfl
  | @held hp _ data found _ =>
    intro i h entry m inside
    obtain ⟨b, old, rfl⟩ := entry_modify entry
    split at inside
    · rename_i same
      subst same
      rw [if_pos rfl]
      obtain ⟨b', entry, addr, _⟩ := hFind_some found
      obtain rfl : b' = b := Option.some_inj.mp (entry.symm.trans old)
      rcases List.mem_append.mp inside with before | added
      · exact waiting hp b' old m before
      · rw [List.mem_singleton.mp added]
        exact ⟨data, addr.symm⟩
    · rename_i other
      rw [if_neg other]
      exact waiting i b old m inside

/-- The local network is accounted for: the counts are right, messages wait at the entry of their
host, and there are no more connections than a count can hold. -/
structure Accounted (n : LocalNet) : Prop where
  balanced : Balanced n.hosts (routes n.ucbs)
  waiting : Waiting n.ifAddr n.hosts
  few : n.ucbs.length ≤ 254

theorem Accounted.modify (accounted : Accounted n) (hp : Nat) {change : Host → Host}
    (keeps : ∀ h, (change h).hAddr = h.hAddr ∧ (change h).hRefct = h.hRefct ∧
      (change h).hTemp = h.hTemp)
    (less : ∀ h m, m ∈ (change h).hOutq → m ∈ h.hOutq) : Accounted (n.modifyHost hp change) :=
  ⟨accounted.balanced.modify hp keeps,
    accounted.waiting.modify hp fun h m inside => ⟨less h m inside, (keeps h).1⟩, accounted.few⟩

theorem Accounted.impSnd (accounted : Accounted n) {mp : Message} (single : MakesNoDouble n mp) :
    Accounted (impSnd n mp).1 := by
  obtain ⟨ucbs, ifAddr⟩ := impSnd_frame n mp
  exact ⟨ucbs ▸ accounted.balanced.impSnd single, ifAddr ▸ accounted.waiting.impSnd mp,
    ucbs ▸ accounted.few⟩

theorem Accounted.impNoops (accounted : Accounted n) : Accounted (impNoops env n) :=
  ⟨accounted.balanced, accounted.waiting, accounted.few⟩

theorem Accounted.impRfnm (accounted : Accounted n) (p : Leader) : Accounted (impRfnm n p) := by
  have answered (hp : Nat) : Accounted (n.modifyHost hp Host.answered) :=
    accounted.modify hp (fun _ => ⟨rfl, rfl, rfl⟩) fun _ _ inside => inside
  have outcome := impRfnm_answered n p
  generalize Local.impRfnm n p = next at outcome ⊢
  cases outcome with
  | unknown _ | early _ _ => exact accounted
  | left _ _ _ => exact answered _
  | @released hp m rest found _ queue =>
    have entry := entry_modifyHost (entry_of_found found).1 Host.answered
    have unqueued : Accounted ((n.modifyHost hp Host.answered).modifyHost hp Host.unqueued) :=
      (answered hp).modify hp (fun _ => ⟨rfl, rfl, rfl⟩) fun _ _ inside => List.mem_of_mem_tail inside
    refine unqueued.impSnd fun _ _ absent => ?_
    have dest := (accounted.waiting hp _ (entry_of_found found).1 m (queue ▸ List.mem_cons_self)).2
    exact (hFind_none absent (entry_modifyHost entry Host.unqueued) dest.symm).elim
  | @deleted hp found _ _ temp =>
    have entry := entry_modifyHost (entry_of_found found).1 Host.answered
    exact ⟨(answered hp).balanced.hFree_temp entry temp, (answered hp).waiting.hFree hp,
      (answered hp).few⟩

theorem Balanced.deadUcb {hosts : Hosts} {up : Ucb} (p : Leader) (hp : Nat)
    (balanced : Balanced hosts fun i => count i + ref up.ucRoute i) (few : ∀ i, count i < 255)
    (gateways : ∀ gp ∈ env.gateways, gp.gLocal ≠ 0) :
    Balanced (deadUcb env p hp hosts up).1
      fun i => count i + ref (deadUcb env p hp hosts up).2.ucRoute i := by
  unfold Local.deadUcb
  split
  · rename_i routed
    split
    · exact balanced
    · have moved : Balanced (ipReroute env hosts up hp).1
          fun i => count i + ref (ipReroute env hosts up hp).2.1.ucRoute i := by
        unfold ipReroute
        split
        · exact balanced
        · rename_i gp smart
          have freed : Balanced (Local.hFreeRoute hosts up.ucRoute) count := balanced.hFreeRoute few
          rw [routed.2] at freed
          exact freed.hMake (addr1822_ne_zero (gateways gp (List.mem_of_find?_eq_some smart))) few
      dsimp only
      split <;> exact moved
  · exact balanced

theorem deadUcb_length (p : Leader) (hp : Nat) (hosts : Hosts) (ucbs : List Ucb) :
    (deadLoop env p hp hosts ucbs).2.length = ucbs.length := by
  induction ucbs generalizing hosts with
  | nil => rfl
  | cons up rest inductionHypothesis =>
    rw [deadLoop, List.length_cons, List.length_cons, inductionHypothesis]

theorem Balanced.deadLoop {hosts : Hosts} {ucbs : List Ucb} (p : Leader) (hp : Nat)
    (balanced : Balanced hosts fun i => count i + routes ucbs i)
    (few : ∀ i, count i + ucbs.length < 256) (gateways : ∀ gp ∈ env.gateways, gp.gLocal ≠ 0) :
    Balanced (deadLoop env p hp hosts ucbs).1
      fun i => count i + routes (deadLoop env p hp hosts ucbs).2 i := by
  induction ucbs generalizing hosts count with
  | nil => exact balanced
  | cons up rest inductionHypothesis =>
    have first := @Balanced.deadUcb (fun i => count i + routes rest i) env hosts up p hp
      (balanced.congr fun i => by rw [routes_cons]; omega)
      (fun i => by
        have bound := few i
        have references := routes_le rest i
        rw [List.length_cons] at bound
        omega) gateways
    rw [Local.deadLoop]
    dsimp only
    generalize Local.deadUcb env p hp hosts up = signalled at first
    have more := @inductionHypothesis (fun i => count i + ref signalled.2.ucRoute i) signalled.1
      (first.congr fun i => by omega)
      (fun i => by
        have bound := few i
        have reference := ref_le signalled.2.ucRoute i
        rw [List.length_cons] at bound
        omega)
    exact more.congr fun i => by rw [routes_cons]; omega

theorem Waiting.deadLoop {ifAddr : Addr} {hosts : Hosts} (waiting : Waiting ifAddr hosts) (p : Leader)
    (hp : Nat) (ucbs : List Ucb) : Waiting ifAddr (deadLoop env p hp hosts ucbs).1 := by
  induction ucbs generalizing hosts with
  | nil => exact waiting
  | cons up rest inductionHypothesis =>
    have first : Waiting ifAddr (deadUcb env p hp hosts up).1 := by
      unfold deadUcb
      split
      · split
        · exact waiting
        · have moved : Waiting ifAddr (ipReroute env hosts up hp).1 := by
            unfold ipReroute
            split
            · exact waiting
            · exact (waiting.hFree hp).hMake _ _
          dsimp only
          split <;> exact moved
      · exact waiting
    rw [Local.deadLoop]
    exact inductionHypothesis first

theorem Accounted.impDead (accounted : Accounted n) (p : Leader)
    (gateways : ∀ gp ∈ env.gateways, gp.gLocal ≠ 0) : Accounted (impDead env n p) := by
  unfold Local.impDead
  split
  · exact accounted
  rename_i hp found
  dsimp only
  have down : Accounted (n.modifyHost hp Host.down) :=
    accounted.modify hp (fun _ => ⟨rfl, rfl, rfl⟩) fun _ _ inside => inside
  have few := down.few
  refine ⟨?_, down.waiting.deadLoop p hp _, ?_⟩
  · have balanced := @Balanced.deadLoop (fun _ => 0) env _ _ p hp
      (down.balanced.congr fun i => Nat.zero_add _) (fun i => by omega) gateways
    exact balanced.congr fun i => (Nat.zero_add _).symm
  · rw [deadUcb_length]
    exact few

/-- A message of the IMP keeps the counts right, unless it resets a network with temporary entries
or names a gateway without address. -/
theorem Accounted.impRcv (accounted : Accounted n) {p : Leader}
    (gateways : p.iType = .dead → ∀ gp ∈ env.gateways, gp.gLocal ≠ 0)
    (permanent : p.iType = .lerror → ∀ h ∈ n.hosts, iptonet h.hAddr = iptonet n.ifAddr →
      h.hTemp = false) : Accounted (impRcv env n p) := by
  unfold Local.impRcv
  split
  · exact accounted
  split
  · rename_i lerror
    have reset : Accounted { n with hosts := hReset n.hosts (iptonet n.ifAddr) } :=
      ⟨accounted.balanced.hReset (permanent lerror), accounted.waiting.hReset _, accounted.few⟩
    exact reset.impNoops
  · exact ⟨accounted.balanced, accounted.waiting, accounted.few⟩
  · refine ⟨accounted.balanced, fun hp h entry m inside => ?_, accounted.few⟩
    obtain ⟨data, dest⟩ := accounted.waiting hp h entry m inside
    refine ⟨data, ?_⟩
    rw [← dest]
    unfold Leader.dest
    dsimp only
    rw [Addr.at1822, neta_at1822]
    rfl
  · exact accounted.impRfnm p
  · exact accounted.impRfnm p
  · rename_i dead
    exact accounted.impDead p (gateways dead)
  · refine Accounted.impNoops ?_
    unfold impDerror
    split
    · exact accounted
    · exact accounted.modify _ (fun _ => ⟨rfl, rfl, rfl⟩) fun _ _ inside => inside
  · exact accounted
  · exact accounted
  · exact accounted
  · exact accounted

end Net

/-! ### The routines that store and drop a route -/

/-- The local network with the same connections, and a table in balance with `count`. -/
structure Kept (n : LocalNet) (count : Nat → Nat) (next : LocalNet) : Prop where
  balanced : Balanced next.hosts count
  waiting : Waiting next.ifAddr next.hosts
  ucbs : next.ucbs = n.ucbs

section Routes

variable {n : LocalNet} {count : Nat → Nat} {env : Env}

theorem impLeader_single (n : LocalNet) (ap : Addr) (frag : Fragment) :
    MakesNoDouble n ⟨impLeader ap frag.len frag.link, frag.text⟩ := by
  intro _ _ absent
  have same : addr1822 ((impLeader ap frag.len frag.link).dest n.ifAddr) =
      (impLeader ap frag.len frag.link).dest n.ifAddr := addr1822_at1822 _ _ _
  rw [same]
  exact absent

theorem Kept.ifSend {next : LocalNet} (kept : Kept n count next) (ap : Addr) (frags : List Fragment) :
    Kept n count (ifSend next ap frags) := by
  unfold Local.ifSend
  induction frags generalizing next with
  | nil => exact kept
  | cons frag rest inductionHypothesis =>
    rw [List.foldl_cons]
    obtain ⟨ucbs, ifAddr⟩ := impSnd_frame next ⟨impLeader ap frag.len frag.link, frag.text⟩
    exact inductionHypothesis ⟨kept.balanced.impSnd (impLeader_single next ap frag),
      ifAddr ▸ kept.waiting.impSnd _, ucbs.trans kept.ucbs⟩

theorem kept_ipSendUcb {up : Ucb} {src dst : Addr} {frags : List Fragment}
    (balanced : Balanced n.hosts fun hp => count hp + ref up.ucRoute hp)
    (waiting : Waiting n.ifAddr n.hosts) (few : ∀ hp, count hp < 255)
    (nonzero : up.ucRoute = none → ipRoute env src dst ≠ some 0) :
    Kept n (fun hp => count hp + ref (ipSendUcb env n up src dst frags).2.ucRoute hp)
      (ipSendUcb env n up src dst frags).1 := by
  have routed : Balanced (ipSendRoute env n.hosts up src dst).1
        (fun hp => count hp + ref (ipSendRoute env n.hosts up src dst).2.1.ucRoute hp) ∧
      Waiting n.ifAddr (ipSendRoute env n.hosts up src dst).1 := by
    unfold ipSendRoute
    split
    · exact ⟨balanced, waiting⟩
    · rename_i none
      split
      · exact ⟨balanced, waiting⟩
      · rename_i ap route
        have clear : Balanced n.hosts count := balanced.congr fun hp => by rw [none]; rfl
        have address : ap ≠ 0 := fun zero => nonzero none (zero ▸ route)
        exact ⟨clear.hMake (addr1822_ne_zero address) few, waiting.hMake _ _⟩
  unfold ipSendUcb
  dsimp only
  generalize ipSendRoute env n.hosts up src dst = result at routed
  have kept : Kept n (fun hp => count hp + ref result.2.1.ucRoute hp) { n with hosts := result.1 } :=
    ⟨routed.1, routed.2, rfl⟩
  split
  · exact kept
  · exact kept.ifSend _ _

theorem Kept.freed {next : LocalNet} {route : Option Nat}
    (kept : Kept n (fun hp => count hp + ref route hp) next) (few : ∀ hp, count hp < 255) :
    Kept n count { next with hosts := hFreeRoute next.hosts route } :=
  ⟨kept.balanced.hFreeRoute few, kept.waiting.hFreeRoute route, kept.ucbs⟩

end Routes

/-! ### Every run -/

/-- The event accounts for every reference it hands out or drops: no entry is made for nobody, no
raw datagram with a header of the user gets a route or loses one without a new one, no connection
block with a route is released without giving it back, no block starts with the route of an earlier
one, no reset of a network finds a temporary entry, no message makes a second entry for a host, and
there are fewer than 255 connection blocks. -/
def Accounts (n : LocalNet) (event : Env × NetEvent) : Prop :=
  match event.2 with
  | .netopen up => up.ucRoute = none ∧ n.ucbs.length < 254
  | .ipSend index src dst _ => ∀ up, n.ucbs[index]? = some up → up.ucRoute = none →
      ipRoute event.1 src dst ≠ some 0
  | .ipRaw index src dst _ => ∀ up, n.ucbs[index]? = some up →
      (ipRoute event.1 src dst = none ∧ up.ucRoute = none) ∨
      (ipRoute event.1 src dst ≠ none ∧ hUnused (hFreeRoute n.hosts up.ucRoute) = none)
  | .tcpReset src dst _ => ipRoute event.1 src dst ≠ some 0
  | .netclose index => ∀ up, n.ucbs[index]? = some up →
      (if up.utcp then up.ucTcb = false else up.raw = false) → up.ucRoute = none
  | .netRoute _ addr => addr ≠ some 0
  | .redirect _ gaddr => gaddr ≠ 0
  | .impSnd mp => MakesNoDouble n mp
  | .impRcv p => (p.iType = .dead → ∀ gp ∈ event.1.gateways, gp.gLocal ≠ 0) ∧
      (p.iType = .lerror → ∀ h ∈ n.hosts, iptonet h.hAddr = iptonet n.ifAddr → h.hTemp = false)
  | .netreset => ∀ h ∈ n.hosts, iptonet h.hAddr = iptonet n.ifAddr → h.hTemp = false
  | .forget _ | .tClose _ _ | .ifUp => True

/-- The counts of the host table are right. -/
structure CountsRight (n : LocalNet) : Prop where
  refct : ∀ (hp : Nat) (h : Host), n.hosts[hp]? = some h →
    h.hRefct = routes n.ucbs hp + if h.hTemp then 1 else 0
  distinct : ∀ (i j : Nat) (hi hj : Host), n.hosts[i]? = some hi → n.hosts[j]? = some hj →
    hi.hRefct ≠ 0 → hj.hRefct ≠ 0 → hi.hAddr = hj.hAddr → i = j
  live : ∀ up ∈ n.ucbs, ∀ hp, up.ucRoute = some hp → ∃ h, n.hosts[hp]? = some h ∧ h.hRefct ≠ 0
  reclaimed : ∀ (hp : Nat) (h : Host), n.hosts[hp]? = some h → routes n.ucbs hp = 0 →
    h.hTemp = false → h.hRefct = 0 ∧ h.hAddr = 0

section Events

variable {n : LocalNet} {env : Env} {index : Nat} {up : Ucb}

/-- The references of the other connections. -/
abbrev others (n : LocalNet) (index : Nat) : Nat → Nat := routes (n.ucbs.eraseIdx index)

section

variable (accounted : Accounted n) (entry : n.ucbs[index]? = some up)
include accounted entry

theorem Accounted.others :
    Balanced n.hosts (fun hp => Local.others n index hp + ref up.ucRoute hp) ∧
      ∀ hp, Local.others n index hp < 254 := by
  refine ⟨accounted.balanced.congr fun hp => (routes_of_getElem entry hp).symm, fun hp => ?_⟩
  have bound := routes_le (n.ucbs.eraseIdx index) hp
  have inside : index < n.ucbs.length := (List.getElem?_eq_some_iff.mp entry).1
  have few := accounted.few
  rw [List.length_eraseIdx_of_lt inside] at bound
  have here : Local.others n index hp = routes (n.ucbs.eraseIdx index) hp := rfl
  omega

theorem Accounted.setUcb {other : Ucb}
    {next : LocalNet} (kept : Kept n (fun hp => Local.others n index hp + ref other.ucRoute hp) next) :
    Accounted (next.setUcb index other) := by
  refine ⟨?_, kept.waiting, ?_⟩
  · refine kept.balanced.congr fun hp => ?_
    rw [LocalNet.setUcb, kept.ucbs]
    exact routes_set entry other hp
  · rw [LocalNet.setUcb, List.length_set, kept.ucbs]
    exact accounted.few

theorem Accounted.eraseUcb (none : up.ucRoute = none) : Accounted (n.eraseUcb index) := by
  refine ⟨?_, accounted.waiting, ?_⟩
  · refine accounted.balanced.congr fun hp => ?_
    rw [LocalNet.eraseUcb, routes_of_getElem entry hp, none]
    rfl
  · have shorter := List.length_eraseIdx_le n.ucbs index
    have few := accounted.few
    rw [LocalNet.eraseUcb]
    dsimp only
    omega

theorem Accounted.freeRoute {like : Ucb} (route : like.ucRoute = up.ucRoute) : Accounted (n.freeRoute index like) := by
  obtain ⟨balanced, few⟩ := accounted.others entry
  have kept : Kept n (fun hp => Local.others n index hp + ref up.ucRoute hp) n :=
    ⟨balanced, accounted.waiting, rfl⟩
  have freed := kept.freed fun hp => Nat.lt_succ_of_lt (few hp)
  rw [LocalNet.freeRoute, route]
  exact accounted.setUcb entry freed

end

theorem entry_setUcb (entry : n.ucbs[index]? = some up) (other : Ucb) :
    (n.setUcb index other).ucbs[index]? = some other := by
  rw [LocalNet.setUcb, List.getElem?_set_self (List.getElem?_eq_some_iff.mp entry).1]

section

variable (accounted : Accounted n)
include accounted

theorem Accounted.ipSend (entry : n.ucbs[index]? = some up) {src dst : Addr}
    (frags : List Fragment) (nonzero : up.ucRoute = none → ipRoute env src dst ≠ some 0) :
    Accounted (ipSend env n index up src dst frags) := by
  obtain ⟨balanced, few⟩ := accounted.others entry
  exact accounted.setUcb entry
    (kept_ipSendUcb balanced accounted.waiting (fun hp => Nat.lt_succ_of_lt (few hp)) nonzero)

theorem Accounted.tcpReset {src dst : Addr} (frags : List Fragment)
    (nonzero : ipRoute env src dst ≠ some 0) : Accounted (tcpReset env n src dst frags) := by
  have few (hp : Nat) : routes n.ucbs hp < 255 := by
    have bound := routes_le n.ucbs hp
    have few := accounted.few
    omega
  have sent := @kept_ipSendUcb n (routes n.ucbs) env ⟨true, dst, src, false, false, false, none, 0, 0⟩
    src dst frags (accounted.balanced.congr fun _ => rfl) accounted.waiting few fun _ => nonzero
  have freed := sent.freed few
  exact ⟨freed.ucbs ▸ freed.balanced, freed.waiting, freed.ucbs ▸ accounted.few⟩

section

variable (entry : n.ucbs[index]? = some up)
include entry

theorem Accounted.netRoute {addr : Option Addr} (nonzero : addr ≠ some 0) : Accounted (netRoute n index up addr) := by
  obtain ⟨balanced, few⟩ := accounted.others entry
  have made : ∀ made : Hosts × Option Nat,
      made = addr.elim (n.hosts, none) (fun addr => hMake n.hosts addr false) →
      Balanced made.1 (fun hp => Local.others n index hp + ref up.ucRoute hp + ref made.2 hp) ∧
        Waiting n.ifAddr made.1 := by
    rintro made rfl
    cases addr with
    | none => exact ⟨balanced, accounted.waiting⟩
    | some addr =>
      have address : addr ≠ 0 := fun zero => nonzero (zero ▸ rfl)
      refine ⟨balanced.hMake (addr1822_ne_zero address) fun hp => ?_, accounted.waiting.hMake _ _⟩
      have bound := few hp
      have reference := ref_le up.ucRoute hp
      omega
  unfold Local.netRoute
  dsimp only
  obtain ⟨balanced, waiting⟩ := made _ rfl
  generalize addr.elim (n.hosts, none) (fun addr => hMake n.hosts addr false) = made at balanced waiting
  have kept : Kept n (fun hp => (Local.others n index hp + ref made.2 hp) + ref up.ucRoute hp)
      { n with hosts := made.1 } := ⟨balanced.congr fun hp => by omega, waiting, rfl⟩
  refine accounted.setUcb entry (kept.freed fun hp => ?_)
  have bound := few hp
  have reference := ref_le made.2 hp
  omega

theorem Accounted.redirect {gaddr : Addr}
    (nonzero : gaddr ≠ 0) : Accounted (redirect n index up gaddr) := by
  obtain ⟨balanced, few⟩ := accounted.others entry
  have few (hp : Nat) := Nat.lt_succ_of_lt (few hp)
  have freed := balanced.hFreeRoute few
  have waiting := accounted.waiting.hFreeRoute up.ucRoute
  exact accounted.setUcb entry
    ⟨freed.hMake (addr1822_ne_zero nonzero) few, waiting.hMake _ _, rfl⟩

theorem Accounted.ipRaw {src dst : Addr}
    (frags : List Fragment)
    (nothing : (ipRoute env src dst = none ∧ up.ucRoute = none) ∨
      (ipRoute env src dst ≠ none ∧ hUnused (hFreeRoute n.hosts up.ucRoute) = none)) :
    Accounted (ipRaw env n index up src dst frags) := by
  obtain ⟨balanced, few⟩ := accounted.others entry
  have few (hp : Nat) := Nat.lt_succ_of_lt (few hp)
  unfold Local.ipRaw ipRawRoute
  rcases nothing with ⟨route, none⟩ | ⟨route, full⟩
  · rw [route, none]
    have kept : Kept n (fun hp => Local.others n index hp + ref up.ucRoute hp) n :=
      ⟨balanced, accounted.waiting, rfl⟩
    exact accounted.setUcb entry kept
  · obtain ⟨ap, found⟩ := Option.ne_none_iff_exists'.mp route
    rw [found]
    dsimp only
    have made := hMake_made (hFreeRoute n.hosts up.ucRoute) ap true
    generalize hMake (hFreeRoute n.hosts up.ucRoute) ap true = result at made
    obtain ⟨after, slot⟩ := result
    cases made with
    | found permanent => exact absurd permanent (by decide)
    | fresh _ unused => exact absurd (unused.symm.trans full) (by simp)
    | full _ _ =>
      have kept : Kept n (fun hp => Local.others n index hp + ref none hp)
          { n with hosts := hFreeRoute n.hosts up.ucRoute } :=
        ⟨balanced.hFreeRoute few, accounted.waiting.hFreeRoute _, rfl⟩
      exact accounted.setUcb entry kept

theorem Accounted.tClose (usrAbort : Bool) : Accounted (tClose n index up usrAbort) := by
  have freed := @Accounted.freeRoute n index up accounted entry { up with ucTcb := false } rfl
  unfold Local.tClose
  dsimp only
  split
  · exact freed.eraseUcb (entry_setUcb entry _) rfl
  · exact freed

theorem Accounted.netclose (given : (if up.utcp then up.ucTcb = false else up.raw = false) → up.ucRoute = none) :
    Accounted (netclose n index up) := by
  unfold Local.netclose
  split
  · rename_i tcp
    rw [if_pos tcp] at given
    split
    · exact accounted
    · rename_i gone
      exact accounted.eraseUcb entry (given (by simpa using gone))
  · rename_i other
    rw [if_neg other] at given
    split
    · have freed := @Accounted.freeRoute n index up accounted entry up rfl
      exact freed.eraseUcb (entry_setUcb entry _) rfl
    · rename_i control
      exact accounted.eraseUcb entry (given (by simpa using control))

end

end

end Events

theorem netStep_accounted {n : LocalNet} {env : Env} {event : NetEvent} (accounted : Accounted n)
    (accounts : Accounts n (env, event)) : Accounted (netStep env n event) := by
  have each {index : Nat} {act : Ucb → LocalNet}
      (acts : ∀ up, n.ucbs[index]? = some up → Accounted (act up)) :
      Accounted (n.ucbs[index]?.elim n act) := by
    cases entry : n.ucbs[index]? with
    | none => exact accounted
    | some up => exact acts up entry
  cases event with
  | netopen up =>
    refine ⟨accounted.balanced.congr fun hp => ?_, accounted.waiting, ?_⟩
    · rw [netStep, routes_cons, accounts.1]
      rfl
    · rw [netStep, List.length_cons]
      exact accounts.2
  | ipSend index src dst frags =>
    exact each fun up entry => accounted.ipSend entry frags (accounts up entry)
  | ipRaw index src dst frags =>
    exact each fun up entry => accounted.ipRaw entry frags (accounts up entry)
  | tcpReset src dst frags => exact accounted.tcpReset frags accounts
  | forget index => exact each fun up entry => accounted.freeRoute entry rfl
  | tClose index usrAbort => exact each fun up entry => accounted.tClose entry usrAbort
  | netclose index => exact each fun up entry => accounted.netclose entry (accounts up entry)
  | netRoute index addr => exact each fun up entry => accounted.netRoute entry accounts
  | redirect index gaddr => exact each fun up entry => accounted.redirect entry accounts
  | impSnd mp => exact accounted.impSnd accounts
  | impRcv p => exact accounted.impRcv accounts.1 accounts.2
  | ifUp => exact ⟨accounted.balanced, accounted.waiting, accounted.few⟩
  | netreset => exact ⟨accounted.balanced.hReset accounts, accounted.waiting.hReset _, accounted.few⟩

theorem netinit_accounted (nhost : Nat) (ifAddr : Addr) : Accounted (netinit nhost ifAddr) := by
  have unused {hp : Nat} {h : Host} (entry : (List.replicate nhost Host.unused)[hp]? = some h) :
      h = Host.unused := List.eq_of_mem_replicate (List.mem_of_getElem? entry)
  refine ⟨⟨?_, ?_, ?_, ?_, ?_⟩, ?_, Nat.zero_le _⟩
  · intro hp h entry
    rw [unused entry]
    rfl
  · intro hp h entry temp
    rw [unused entry] at temp
    exact absurd temp (by decide)
  · intro hp counted
    exact absurd rfl counted
  · intro hp h entry
    rw [unused entry]
    exact ⟨fun _ => rfl, fun _ => rfl⟩
  · intro i j hi hj entry _ nonzero _
    rw [unused entry] at nonzero
    exact absurd rfl nonzero
  · intro hp h entry m inside
    rw [unused entry] at inside
    exact absurd inside List.not_mem_nil

theorem Accounted.countsRight {n : LocalNet} (accounted : Accounted n) : CountsRight n := by
  have balanced := accounted.balanced
  refine ⟨balanced.refct, fun i j hi hj entryI entryJ usedI usedJ same => ?_,
    fun up inside hp route => ?_, fun hp h entry none permanent => ?_⟩
  · exact balanced.distinct i j hi hj entryI entryJ
      (fun zero => usedI ((balanced.used i hi entryI).mpr zero)) same
  · have counted : 0 < routes n.ucbs hp := List.countP_pos_iff.mpr ⟨up, inside, by simpa using route⟩
    have bound := balanced.inside hp (by omega)
    refine ⟨n.hosts[hp], List.getElem?_eq_getElem bound, ?_⟩
    have refct := balanced.refct hp _ (List.getElem?_eq_getElem bound)
    omega
  · have refct := balanced.refct hp h entry
    rw [none, if_neg (by simpa using permanent)] at refct
    exact ⟨refct, (balanced.used hp h entry).mp refct⟩

/-- In every run whose events account for their references the counts of the host table are
right. -/
theorem counts_right (nhost : Nat) (ifAddr : Addr) (history : List (Env × NetEvent)) (n : LocalNet)
    (run : Transition.Run (Transition.Guarded NetStep Accounts) (netinit nhost ifAddr) history n) :
    CountsRight n := by
  have accounted : Accounted n := by
    refine run.always Accounted (netinit_accounted nhost ifAddr) ?_
    rintro n ⟨env, event⟩ _ accounted ⟨accounts, rfl⟩
    exact netStep_accounted accounted accounts
  exact accounted.countsRight

/-- A kernel with the interface of host 2 on IMP 5 of network 10, and no gateways. -/
def quietEnv : Env := ⟨[⟨0x0500020a, true, 1019⟩], [], 3⟩

/-- A message of a user for host 1 on IMP 6, with a leader the system makes. -/
def toHost1 : Message := ⟨impLeader 0x0600010a 0 0, []⟩

/-- A message leaves a temporary entry, which its answer deletes. -/
theorem counts_right_answered :
    CountsRight ([(quietEnv, .ifUp), (quietEnv, .impSnd toHost1),
      (quietEnv, .impRcv { toHost1.leader with iType := .rfnm })].foldl
        (fun n event => netStep event.1 n event.2) (netinit 20 0x0500020a)) :=
  counts_right 20 0x0500020a _ _ (Transition.Run.start.follows
    ⟨⟨trivial, rfl⟩, ⟨impLeader_single _ _ ⟨0, 0, []⟩, rfl⟩,
      ⟨⟨fun dead => (nomatch dead), fun lerror => (nomatch lerror)⟩, rfl⟩, trivial⟩)

/-- After a reset of the interface a temporary entry is marked permanent, and nobody holds the
reference it counts. -/
theorem reset_loses_entry :
    ¬ ∀ (nhost : Nat) (ifAddr : Addr) (history : List (Env × NetEvent)) (n : LocalNet),
      Transition.Run NetStep (netinit nhost ifAddr) history n → CountsRight n := by
  intro right
  have follows : Transition.Follows NetStep (fun n event => netStep event.1 n event.2)
      (netinit 20 0x0500020a)
      [(quietEnv, .ifUp), (quietEnv, .impSnd toHost1), (quietEnv, .netreset)] :=
    ⟨rfl, rfl, rfl, trivial⟩
  have refct := (right 20 0x0500020a _ _ (Transition.Run.start.follows follows)).refct 0
    ((Host.fresh 0x0600010a true).counted.reset) rfl
  exact absurd refct (by decide)

end NetworkUnix.Bbnnet.Local
