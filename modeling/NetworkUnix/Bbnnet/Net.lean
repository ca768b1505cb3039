/-
This file models internet addresses as the kernel looks at them: the word, the
bytes it overlays, the network part, and the address without its logical host.
-/

import Mathlib.Init

namespace NetworkUnix.Bbnnet

/-- An internet address, as the word `s_addr`. -/
abbrev Addr := BitVec 32

namespace Addr

/-- `s_neta`: the first byte, the network of a class A address. -/
def neta (x : Addr) : BitVec 8 := x.setWidth 8

/-- `s_host`: the host on an IMP. -/
def host (x : Addr) : BitVec 8 := x.extractLsb' 8 8

/-- `s_imp`: the IMP field, logical host and IMP number. -/
def imp (x : Addr) : BitVec 16 := x.extractLsb' 16 16

/-- `s_impno`: the IMP number. -/
def impno (x : Addr) : BitVec 8 := x.extractLsb' 24 8

/-- An address on the network of another, with host and IMP field of its own. -/
def at1822 (base : Addr) (host : BitVec 8) (imp : BitVec 16) : Addr := imp ++ host ++ base.neta

end Addr

/-- A network number. -/
abbrev Net := BitVec 32

/-- `iptonet`: the network part of an address of class A, B or C. -/
def iptonet (x : Addr) : Net :=
  if x.getLsbD 7 = false then x &&& 0xff
  else if x.getLsbD 6 = false then x &&& 0xffff
  else if x.getLsbD 5 = false then (x.extractLsb' 0 24).signExtend 32
  else -1

/-- A network interface, as far as it takes part in routing and segment sizes. -/
structure Ifcb where
  ifAddr : Addr
  ifAvail : Bool
  ifMtu : Int
deriving DecidableEq

/-- `addr_1822`: on the ARPANET the logical host byte is left out. -/
def addr1822 (address : Addr) : Addr :=
  if address.setWidth 8 = 10#8 ∨ address.setWidth 8 = 3#8 then address &&& 0xff00ffff else address

/-! ### Addresses without logical host -/

theorem addr1822_ne_zero {x : Addr} (nonzero : x ≠ 0) : addr1822 x ≠ 0 := by
  unfold addr1822
  split
  · rename_i arpa
    intro zero
    have low := congrArg (BitVec.setWidth 8) zero
    rw [BitVec.setWidth_and] at low
    rcases arpa with ten | three
    · rw [ten] at low
      exact absurd low (by decide)
    · rw [three] at low
      exact absurd low (by decide)
  · exact nonzero

theorem addr1822_at1822 (base : Addr) (host impno : BitVec 8) :
    addr1822 (base.at1822 host (impno ++ (0 : BitVec 8))) =
      base.at1822 host (impno ++ (0 : BitVec 8)) := by
  have mask : (0xff00ffff : BitVec 32) =
      (BitVec.allOnes 8 ++ (0 : BitVec 8)) ++ BitVec.allOnes 8 ++ BitVec.allOnes 8 := by decide
  unfold addr1822 Addr.at1822
  split
  · rw [mask, BitVec.and_append, BitVec.and_append, BitVec.and_append, BitVec.and_allOnes,
      BitVec.and_allOnes, BitVec.and_allOnes]
    rfl
  · rfl

theorem neta_at1822 (base : Addr) (host : BitVec 8) (imp : BitVec 16) :
    (base.at1822 host imp).neta = base.neta := by
  unfold Addr.at1822 Addr.neta
  rw [BitVec.setWidth_append, dif_pos (Nat.le_refl 8), BitVec.setWidth_eq]

end NetworkUnix.Bbnnet
