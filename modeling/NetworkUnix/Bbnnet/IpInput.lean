/-
This file models the routine that takes packets from the local nets: it removes
padding, merges a fragment into the reassembly chain of its datagram, and passes
a datagram up that is complete.

The header is taken as `ip_from_net` leaves it, and the outcome of its checksum
as given. The time to live of a chain and the lock of the list are left out.
-/

import NetworkUnix.Bbnnet.Mbuf

namespace NetworkUnix.Bbnnet.IpInput

/-! ### Headers, fragments and chains -/

/-- The header of a datagram or fragment. `ip_mff` stands over `ip_tos`, and `ip_end` over
`ip_sum`. -/
structure Ip where
  ipHl : BitVec 4
  ipMff : Bool
  ipLen : BitVec 16
  ipId : BitVec 16
  ipOff : BitVec 16
  ipP : BitVec 8
  ipEnd : BitVec 16
  ipSrc : BitVec 32
  ipDst : BitVec 32
deriving DecidableEq

/-- More fragments flag. -/
def ipMf : BitVec 16 := 0x2000

/-- The size of a header without options. -/
def sizeofIp : Nat := 20

/-- The length of the header, in bytes. -/
def Ip.hlen (ip : Ip) : Nat := ip.ipHl.toNat * 4

/-- What tells the fragments of one datagram from those of another. -/
def Ip.datagram (ip : Ip) : BitVec 32 × BitVec 32 × BitVec 16 × BitVec 8 :=
  (ip.ipSrc, ip.ipDst, ip.ipId, ip.ipP)

/-- A fragment on a reassembly chain: its header, and the mbufs that hold its data. Those of a
first fragment also hold the header. -/
structure Frag where
  ip : Ip
  mp : Chain

/-- A reassembly chain with its header. -/
structure Ipq where
  iqh : Ip
  chain : List Frag

/-- The protocol that a datagram is passed up to. -/
inductive Next
  | tcp
  | ggp
  | icmp
  | raw
deriving DecidableEq

/-- A datagram that is passed up. -/
structure Passed where
  next : Next
  ip : Ip
  mp : Chain

/-- The bytes behind the header. -/
def Passed.data (d : Passed) : List Byte := (chainData d.mp).drop sizeofIp

/-- Call the next level by the protocol number. -/
def ipNext (p : BitVec 8) : Next :=
  if p = 6 then .tcp else if p = 3 then .ggp else if p = 1 then .icmp else .raw

/-- Does fragment reassembly chain with this header exist? -/
def ipFindf (p : Ip) (nIp : List Ipq) : Option Nat :=
  nIp.findIdx? fun fp => p.datagram = fp.iqh.datagram

/-- Process ip options: they are taken out of the first mbuf. The address past them lies in the
same mbuf, since the local nets put the header right behind their leader. -/
def ipOpt (hlen : Nat) : Chain → Chain
  | [] => []
  | m :: rest =>
    let i := hlen - sizeofIp
    let p := m.mOff + sizeofIp
    let q := p + i
    { m with mDat := Memory.copy m.mDat q m.mDat p (m.mOff + m.mLen - q), mLen := m.mLen - i } :: rest

/-- Options are processed when there are any. -/
def ipOptions (hlen : Nat) (mp : Chain) : Chain := if hlen > sizeofIp then ipOpt hlen mp else mp

/-- Merge mbufs of fragments of completed datagram. -/
def ipMergef (chain : List Chain) : Chain := chain.flatten.filter fun m => m.mLen ≠ 0

/-- The message length without any padding. -/
def unpad (mp : Chain) (ipLen : Nat) : Chain :=
  match mp.getLast? with
  | none => mp
  | some n =>
    let i : Int := chainLen mp - ipLen
    if i ≠ 0 then
      if i > n.mLen then mAdj mp (-i)
      else mp.dropLast ++ [{ n with mLen := ((n.mLen - i) % 256).toNat }]
    else mp

/-! ### The merge of a fragment -/

/-- The fragment with its first `i` bytes cut off. -/
def Frag.cutHead (f : Frag) (i : Nat) : Frag where
  ip := { f.ip with
    ipOff := f.ip.ipOff + BitVec.ofNat 16 i, ipLen := f.ip.ipLen - BitVec.ofNat 16 i }
  mp := mAdj f.mp i

/-- The fragment with its last `i` bytes cut off. -/
def Frag.cutTail (f : Frag) (i : Nat) : Frag where
  ip := { f.ip with
    ipLen := f.ip.ipLen - BitVec.ofNat 16 i, ipEnd := f.ip.ipEnd - BitVec.ofNat 16 i }
  mp := mAdj f.mp (-(i : Int))

/-- The fragment marked as duplicated. -/
def Frag.duplicated (f : Frag) : Frag := { f with ip := { f.ip with ipLen := 0 } }

/-- The bytes of the first fragment from the first byte of the second on. -/
def overlap (f q : Frag) : Nat := f.ip.ipEnd.toNat + 1 - q.ip.ipOff.toNat

/-- New overlaps at beginning of successor frags: the successors that are left, and what is left
of the new fragment. -/
def ipSuccessors : List Frag → Frag → List Frag × Frag
  | [], f => ([], f)
  | q :: rest, f =>
    if f.ip.ipLen ≠ 0 ∧ q.ip.ipOff < f.ip.ipEnd then
      if q.ip.ipEnd ≤ f.ip.ipEnd then ipSuccessors rest f
      else if overlap f q < f.ip.ipLen.toNat then (q :: rest, f.cutTail (overlap f q))
      else (q :: rest, f.duplicated)
    else (q :: rest, f)

/-- Enqueue whatever is left of new before successors. -/
def ipEnqueue (left : List Frag × Frag) : List Frag :=
  if left.2.ip.ipLen ≠ 0 then left.2 :: left.1 else left.1

/-- Merge fragment into the reassembly chain. -/
def ipMerge : List Frag → Frag → List Frag
  | [], f => [f]
  | q :: rest, f =>
    if f.ip.ipOff > q.ip.ipEnd then q :: ipMerge rest f
    else if f.ip.ipEnd < q.ip.ipOff then f :: q :: rest
    else if f.ip.ipEnd < q.ip.ipEnd then
      if overlap f q < f.ip.ipLen.toNat then f.cutTail (overlap f q) :: q :: rest else q :: rest
    else if f.ip.ipOff ≤ q.ip.ipOff then ipEnqueue (ipSuccessors rest f)
    else if overlap q f < f.ip.ipLen.toNat then
      q :: ipEnqueue (ipSuccessors rest (f.cutHead (overlap q f)))
    else q :: ipEnqueue (ipSuccessors rest f.duplicated)

/-- The walk of `ip_done` along neighbours that meet exactly. -/
def ipDoneFrom : Frag → List Frag → Nat
  | q, [] => if q.ip.ipMff then 0 else q.ip.ipEnd.toNat + 1
  | q, next :: rest =>
    if next.ip.ipOff.toNat = q.ip.ipEnd.toNat + 1 then ipDoneFrom next rest else 0

/-- Check to see if fragment reassembly is complete: the total data length, or zero. -/
def ipDone : List Frag → Nat
  | [] => 0
  | q :: rest => if q.ip.ipOff ≠ 0 then 0 else ipDoneFrom q rest

/-- The completed datagram: the header of its first fragment, with the addresses that the links of
the chain stood over. -/
def completed (fp : Ipq) (i : Nat) : List Frag → Option Passed
  | [] => none
  | p :: rest => some {
      next := ipNext p.ip.ipP
      ip := { p.ip with
        ipLen := BitVec.ofNat 16 i, ipSrc := fp.iqh.ipSrc, ipDst := fp.iqh.ipDst }
      mp := ipMergef (ipOptions p.ip.hlen p.mp :: rest.map Frag.mp) }

/-- Merge a fragment into the chain at index `k`, and pass a datagram up that is complete. -/
def reassemble (nIp : List Ipq) (k : Nat) (fp : Ipq) (f : Frag) : List Ipq × Option Passed :=
  let chain := ipMerge fp.chain f
  let i := ipDone chain
  if i > 0 then (nIp.eraseIdx k, completed fp i chain)
  else (nIp.set k { fp with chain := chain }, none)

/-- A packet that a local net gives to `ip_input`. `sum` tells whether its checksum is right, and
`mGet` whether `m_get` gives a buffer. -/
structure Packet where
  ip : Ip
  mp : Chain
  sum : Bool
  mGet : Bool

/-- The header as the routine sets it: `ip_len` is the length of data, and `ip_off` counts
bytes. -/
def Packet.header (a : Packet) : Ip := { a.ip with
  ipLen := a.ip.ipLen - BitVec.ofNat 16 a.ip.hlen
  ipMff := a.ip.ipOff &&& ipMf ≠ 0
  ipOff := a.ip.ipOff <<< 3 }

/-- The packet as a fragment: the mbufs without padding, beyond the header if it is not the first
fragment. -/
def Packet.frag (a : Packet) : Frag :=
  let mp := unpad a.mp a.ip.ipLen.toNat
  { ip := { a.header with ipEnd := a.header.ipOff + a.header.ipLen - 1 }
    mp := if a.header.ipOff ≠ 0 then
        match mp with
        | [] => []
        | m :: rest => m.cutFront a.ip.hlen :: rest
      else mp }

/-- Not fragmented. -/
def Packet.whole (a : Packet) : Bool := !a.header.ipMff && a.header.ipOff = 0

/-- Free existing reassembly chain. -/
def ipDiscard (nIp : List Ipq) : Option Nat → List Ipq
  | none => nIp
  | some k => nIp.eraseIdx k

/-- IP level input routine. -/
def ipInput (nIp : List Ipq) (a : Packet) : List Ipq × Option Passed :=
  if a.ip.hlen > (a.mp.head?.map Mbuf.mLen).getD 0 then (nIp, none)
  else if a.sum = false then (nIp, none)
  else if a.whole then
    (ipDiscard nIp (ipFindf a.ip nIp), some {
      next := ipNext a.ip.ipP
      ip := a.header
      mp := ipOptions a.ip.hlen (unpad a.mp a.ip.ipLen.toNat) })
  else
    match ipFindf a.ip nIp with
    | none =>
      if a.mGet then
        reassemble (nIp ++ [⟨a.header, []⟩]) nIp.length ⟨a.header, []⟩ a.frag
      else (nIp, none)
    | some k =>
      match nIp[k]? with
      | none => (nIp, none)
      | some fp => reassemble nIp k fp a.frag

end NetworkUnix.Bbnnet.IpInput
