/-
This file models the host table: a fixed array of entries, each with the address
of a host on a local network, the number of messages the network has not yet
answered, a reference count, status flags, and the messages that wait.
-/

import NetworkUnix.Bbnnet.Net
import NetworkUnix.Bbnnet.Mbuf

namespace NetworkUnix.Bbnnet.Local

/-! ### Messages -/

/-- The types of IMP messages: a message of a host, the errors and answers of the IMP, and what
is no legal type. -/
inductive ImpType
  | data | lerror | down | nop | rfnm | hstat | dead | derror | incomp | reset
  | illegal (code : BitVec 8)
deriving DecidableEq

/-- The leader of an IMP message. -/
structure Leader where
  iNff : BitVec 8
  iType : ImpType
  iHost : BitVec 8
  iImp : BitVec 16
  iLink : BitVec 8
  iStype : BitVec 8
  iMlen : BitVec 16
deriving DecidableEq

/-- A message: its leader and the mbufs of its text. -/
structure Message where
  leader : Leader
  text : Chain

/-! ### The table -/

/-- A host table entry. The flags of `h_stat` are apart: the host is up, and the entry goes away
when the network has answered everything. -/
structure Host where
  hAddr : Addr
  hRfnm : Nat
  hRefct : Nat
  hUp : Bool
  hTemp : Bool
  hOutq : List Message

namespace Host

/-- An entry that nobody uses, as in the cleared table. -/
def unused : Host := ⟨0, 0, 0, false, false, []⟩

/-- An entry that has just been made, with a count of one. -/
def fresh (n : Addr) (temp : Bool) : Host := ⟨n, 0, 1, true, temp, []⟩

/-- The reference that is taken to an existing entry: a temporary one is made permanent, otherwise
the count, a byte, goes up. -/
def referenced (h : Host) : Host :=
  if h.hTemp then { h with hTemp := false } else { h with hRefct := (h.hRefct + 1) % 256 }

/-- The entry with its count, a byte, taken down, and cleared when nothing is left. -/
def dropped (h : Host) : Host :=
  let count := (h.hRefct + 255) % 256
  if count = 0 then unused else { h with hRefct := count }

/-- The entry with its status reset. -/
def reset (h : Host) : Host := { h with hRfnm := 0, hUp := false, hTemp := false, hOutq := [] }

end Host

/-- The host table. -/
abbrev Hosts := List Host

/-- Find an entry in the host table. -/
def hFind (hosts : Hosts) (np : Addr) : Option Nat := hosts.findIdx? fun h => h.hAddr = np

/-- Find an unused entry. -/
def hUnused (hosts : Hosts) : Option Nat := hosts.findIdx? fun h => h.hRefct = 0

/-- Make an entry in the host table: for entries that are not temporary, look for an existing
one first. The second component is the entry, if there was room. -/
def hMake (hosts : Hosts) (np : Addr) (temp : Bool) : Hosts × Option Nat :=
  let n := addr1822 np
  match if temp then none else hFind hosts n with
  | some i => (hosts.modify i Host.referenced, some i)
  | none =>
    match hUnused hosts with
    | some i => (hosts.set i (Host.fresh n temp), some i)
    | none => (hosts, none)

/-- Free an entry in the host table: decrement the reference count and delete it if zero. -/
def hFree (hosts : Hosts) (hp : Nat) : Hosts := hosts.modify hp Host.dropped

/-- Free the entry of a route, if there is one. -/
def hFreeRoute (hosts : Hosts) (route : Option Nat) : Hosts := route.elim hosts (hFree hosts)

/-- Reset the host status for a given network. -/
def hReset (hosts : Hosts) (net : Net) : Hosts :=
  hosts.map fun h => if iptonet h.hAddr = net then h.reset else h

/-! ### What the routines find and change -/

section Entries

variable {hosts : Hosts} {i j : Nat} {h : Host}

theorem hFind_some {np : Addr} (found : hFind hosts np = some i) :
    ∃ h, hosts[i]? = some h ∧ h.hAddr = np ∧ ∀ j h', j < i → hosts[j]? = some h' → h'.hAddr ≠ np := by
  obtain ⟨bound, here, before⟩ := List.findIdx?_eq_some_iff_getElem.mp found
  refine ⟨hosts[i], List.getElem?_eq_getElem bound, by simpa using here, fun j h' earlier entry => ?_⟩
  have inside : j < hosts.length := by omega
  rw [List.getElem?_eq_getElem inside] at entry
  have other := before j earlier
  rw [Option.some_inj.mp entry] at other
  simpa using other

theorem hFind_none {np : Addr} (absent : hFind hosts np = none) (entry : hosts[i]? = some h) :
    h.hAddr ≠ np := by
  have other := List.findIdx?_eq_none_iff.mp absent h (List.mem_of_getElem? entry)
  simpa using other

theorem hFind_eq_some {np : Addr} (entry : hosts[i]? = some h) (same : h.hAddr = np)
    (first : ∀ j h', j < i → hosts[j]? = some h' → h'.hAddr ≠ np) : hFind hosts np = some i := by
  obtain ⟨bound, rfl⟩ := List.getElem?_eq_some_iff.mp entry
  refine List.findIdx?_eq_some_iff_getElem.mpr ⟨bound, by simpa using same, fun j earlier => ?_⟩
  have other := first j _ earlier (List.getElem?_eq_getElem (by omega))
  simpa using other

theorem hUnused_some (found : hUnused hosts = some i) : ∃ h, hosts[i]? = some h ∧ h.hRefct = 0 := by
  obtain ⟨bound, here, _⟩ := List.findIdx?_eq_some_iff_getElem.mp found
  exact ⟨hosts[i], List.getElem?_eq_getElem bound, by simpa using here⟩

theorem entry_modify {change : Host → Host} (entry : (hosts.modify j change)[i]? = some h) :
    ∃ before, hosts[i]? = some before ∧ h = if j = i then change before else before := by
  rw [List.getElem?_modify] at entry
  obtain ⟨before, inside, rfl⟩ := Option.map_eq_some_iff.mp entry
  exact ⟨before, inside, rfl⟩

theorem entry_set {made : Host} (entry : (hosts.set j made)[i]? = some h) :
    (i = j ∧ h = made) ∨ (i ≠ j ∧ hosts[i]? = some h) := by
  rw [List.getElem?_set] at entry
  split at entry
  · rename_i same
    split at entry
    · exact Or.inl ⟨same.symm, (Option.some_inj.mp entry).symm⟩
    · exact absurd entry (by simp)
  · rename_i other
    exact Or.inr ⟨fun same => other same.symm, entry⟩

end Entries

/-- What `h_make` does for the address without logical host: it takes a reference to the entry it
finds, makes one in an unused place, or finds no room. -/
inductive Made (hosts : Hosts) (n : Addr) (temp : Bool) : Hosts → Option Nat → Prop
  | found {i : Nat} (permanent : temp = false) (found : hFind hosts n = some i) :
      Made hosts n temp (hosts.modify i Host.referenced) (some i)
  | fresh {i : Nat} (absent : temp = false → hFind hosts n = none) (unused : hUnused hosts = some i) :
      Made hosts n temp (hosts.set i (Host.fresh n temp)) (some i)
  | full (absent : temp = false → hFind hosts n = none) (full : hUnused hosts = none) :
      Made hosts n temp hosts none

theorem hMake_made (hosts : Hosts) (np : Addr) (temp : Bool) :
    Made hosts (addr1822 np) temp (hMake hosts np temp).1 (hMake hosts np temp).2 := by
  have absent (none : (if temp then Option.none else hFind hosts (addr1822 np)) = Option.none)
      (permanent : temp = false) : hFind hosts (addr1822 np) = Option.none := by
    rw [permanent] at none
    exact none
  unfold hMake
  dsimp only
  split
  · rename_i found
    cases temp with
    | false => exact .found rfl found
    | true => exact absurd found (by simp)
  · rename_i none
    split
    · rename_i unused
      exact .fresh (absent none) unused
    · rename_i full
      exact .full (absent none) full

end NetworkUnix.Bbnnet.Local
