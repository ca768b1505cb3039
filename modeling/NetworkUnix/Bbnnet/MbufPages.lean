/-
This file models the allocator of message buffers: pages of eight buffers on a
circular list, with the number of free buffers and the place of one of them kept
for each page, and the number of all free buffers kept beside.

The links between buffers are left out: a chain is given as the list of its
buffers. The table of pages is kept field by field.
-/

import NetworkUnix.Lib.Ring

namespace NetworkUnix.Bbnnet.Pages

open Ring

/-! ### The pool -/

/-- Number of mbufs in a page. -/
abbrev nmbpg : Nat := 8

/-- Maximum number of net pages. -/
abbrev nnetpages : Nat := 256

/-- The `m_off` of a free mbuf. -/
abbrev freeMark : Nat := 0xff

/-- An mbuf: the index of its page, and its index in the page. -/
structure Mb where
  page : Nat
  index : Nat
deriving DecidableEq

/-- The free page table, the offsets of the mbufs, the map of the pages in use, and the counts of
`netcb`. -/
structure Pool where
  pFree : Nat → Nat
  pOff : Nat → Nat
  pNext : Nat → Nat
  pPrev : Nat → Nat
  mOff : Mb → Nat
  netmap : Nat → Bool
  nFree : Nat
  nPages : Int
  nBufs : Int

inductive Panic
  | badFreelist
  | noFree
  | alreadyFree
deriving DecidableEq

/-- An allocator of page indices: it gives out runs of pages that are not in use. -/
structure Rmalloc where
  pick : (Nat → Bool) → Nat → Option Nat
  correct : ∀ netmap n i, pick netmap n = some i →
    0 < i ∧ 0 < n ∧ i + n ≤ nnetpages ∧ ∀ page, i ≤ page → page < i + n → netmap page = false

/-! ### Pages -/

/-- The pages `i` to `i + n - 1` made ready: every mbuf is free, and they are linked together. -/
def fresh (p : Pool) (i n : Nat) : Pool :=
  let here := fun page => decide (i ≤ page ∧ page < i + n)
  { p with
    pFree := fun page => if here page then nmbpg else p.pFree page
    pOff := fun page => if here page then 0 else p.pOff page
    pNext := fun page => if here page ∧ n > 1 then page + 1 else p.pNext page
    pPrev := fun page => if here page ∧ n > 1 then page - 1 else p.pPrev page
    mOff := fun m => if here m.page then freeMark else p.mOff m
    netmap := fun page => here page || p.netmap page }

/-- Insert the pages from `i` to `j` after the top of the free list. -/
def linkRun (p : Pool) (i j : Nat) : Pool :=
  let k := p.pNext p.nFree
  { p with
    pNext := Function.update (Function.update p.pNext j k) p.nFree i
    pPrev := Function.update (Function.update p.pPrev i p.nFree) k j }

/-- Allocate page frames and add to freelist. -/
def pgAlloc (rmalloc : Rmalloc) (p : Pool) (n : Nat) : Option Pool :=
  match rmalloc.pick p.netmap n with
  | none => none
  | some i => some { linkRun (fresh p i n) i (i + n - 1) with
      nPages := p.nPages + n, nBufs := p.nBufs + n * nmbpg }

/-- Unlink the entry. -/
def unlinked (p : Pool) (i : Nat) : Pool := { p with
  pNext := Function.update p.pNext (p.pPrev i) (p.pNext i)
  pPrev := Function.update p.pPrev (p.pNext i) (p.pPrev i) }

/-- Release page at `ndx`. Page zero cannot be freed. -/
def pgRelse (p : Pool) (ndx : Nat) : Pool :=
  if ndx = 0 then p
  else
    { unlinked p ndx with
      netmap := Function.update p.netmap ndx false
      nFree := if p.nFree = ndx then p.pNext ndx else p.nFree
      nPages := p.nPages - 1
      nBufs := p.nBufs - nmbpg }

/-- Put a free page entry at the top of the freelist. -/
def mInsert (p : Pool) (i : Nat) : Pool :=
  if i ≠ p.nFree ∧ p.pFree (p.pPrev i) ≠ nmbpg ∧ p.pFree (p.pNext i) ≠ nmbpg then
    linkRun (unlinked p i) i i
  else if p.pFree (p.pNext i) = nmbpg then { p with nFree := i }
  else p

/-! ### Buffers -/

/-- Mark an mbuf as free. -/
def marked (p : Pool) (m : Mb) : Pool := { p with
  mOff := Function.update p.mOff m freeMark
  pOff := Function.update p.pOff m.page m.index
  pFree := Function.update p.pFree m.page (p.pFree m.page + 1)
  nBufs := p.nBufs + 1 }

/-- Mbuf free. -/
def mFree (p : Pool) (m : Mb) : Except Panic Pool :=
  if p.mOff m = freeMark then .error .alreadyFree
  else
    let p := marked p m
    if p.pFree m.page ≥ nmbpg then
      if p.pFree m.page > nmbpg then .error .badFreelist else .ok (mInsert p m.page)
    else .ok p

/-- Free mbuf chain. -/
def mFreem (p : Pool) : List Mb → Except Panic Pool
  | [] => .ok p
  | m :: rest =>
    match mFree p m with
    | .error panic => .error panic
    | .ok p => mFreem p rest

/-- The search for the next free mbuf in a page. -/
def nextOff (p : Pool) (page : Nat) : Nat → Nat → Option Nat
  | 0, _ => none
  | tries + 1, j =>
    if p.mOff ⟨page, (j + 1) % nmbpg⟩ = freeMark then some ((j + 1) % nmbpg)
    else nextOff p page tries ((j + 1) % nmbpg)

/-- The free mbuf at the top of the freelist. -/
def topMb (p : Pool) : Mb := ⟨p.nFree, p.pOff p.nFree⟩

/-- Mark it as allocated. -/
def allocated (p : Pool) : Pool := { p with
  mOff := Function.update p.mOff (topMb p) 0
  pFree := Function.update p.pFree p.nFree (p.pFree p.nFree - 1) }

/-- Take the mbuf at the top, and find the next free one. -/
def mTake (p : Pool) : Except Panic (Pool × Mb) :=
  let m := topMb p
  let p := allocated p
  if p.pFree p.nFree ≠ 0 then
    match nextOff p p.nFree (nmbpg - 1) m.index with
    | some next => .ok ({ p with pOff := Function.update p.pOff p.nFree next }, m)
    | none => .error .badFreelist
  else
    match seek p.pNext (fun page => p.pFree page ≠ 0) nnetpages (p.pNext p.nFree) p.nFree with
    | some page => .ok ({ p with nFree := page }, m)
    | none => .error .noFree

/-! ### Growing and shrinking -/

/-- A queue that the pool may take buffers back from: a reassembly chain with its header, or the
unacked messages of a connection. -/
structure Holder where
  chains : List (List Mb)
  header : List Mb

def Holder.bufs (h : Holder) : List Mb := h.chains.flatten ++ h.header

/-- Steal back the mbufs of queues, as long as there is need. -/
def steal : List Holder → Pool → Int → Except Panic (Pool × Int × List Mb)
  | [], p, need => .ok (p, need, [])
  | h :: rest, p, need =>
    if need > 0 then
      match mFreem p h.bufs with
      | .error panic => .error panic
      | .ok p =>
        match steal rest p (need - h.chains.flatten.length) with
        | .error panic => .error panic
        | .ok (p, need, freed) => .ok (p, need, h.bufs ++ freed)
    else .ok (p, need, [])

/-- Allocate pages singly: the pool, the need that is left, and whether a page could not be had. -/
def singly (rmalloc : Rmalloc) (needp : Int) : Nat → Pool → Int → Pool × Int × Bool
  | 0, p, need => (p, need, false)
  | tries + 1, p, need =>
    if needp = 1 then (p, need, true)
    else
      match pgAlloc rmalloc p 1 with
      | none => (p, need, true)
      | some p => singly rmalloc needp tries p (need - nmbpg)

/-- What a call finds around the pool: the map of pages, the high water mark, the reassembly
chains and the connections, from the last one on. -/
structure Around where
  rmalloc : Rmalloc
  nHiwat : Int
  nIp : List Holder
  nTcb : List Holder

/-- Expand the free list: the pool, whether it has grown, and the mbufs stolen back. -/
def mExpand (around : Around) (p : Pool) : Except Panic (Pool × Bool × List Mb) :=
  let needs := around.nHiwat - p.nBufs
  let needp := needs / nmbpg
  match pgAlloc around.rmalloc p needp.toNat with
  | some p => .ok (p, true, [])
  | none =>
    match singly around.rmalloc needp needp.toNat p needs with
    | (p, need, false) => .ok (p, need < needs, [])
    | (p, need, true) =>
      match steal around.nIp p need with
      | .error panic => .error panic
      | .ok (p, need, first) =>
        match steal around.nTcb p need with
        | .error panic => .error panic
        | .ok (p, need, second) => .ok (p, need < needs, first ++ second)

/-- Simple mbuf allocator: the pool, the mbuf, and what had to be stolen for it. -/
def mGet (around : Around) (type : Nat) (p : Pool) :
    Except Panic (Pool × Option Mb × List Mb) :=
  let p : Pool := { p with nBufs := p.nBufs - 1 }
  if p.nBufs ≤ 0 then
    let p : Pool := { p with nBufs := 0 }
    if type = 0 then .ok (p, none, [])
    else
      match mExpand around p with
      | .error panic => .error panic
      | .ok (p, false, freed) => .ok (p, none, freed)
      | .ok (p, true, freed) =>
        match mTake p with
        | .error panic => .error panic
        | .ok (p, m) => .ok (p, some m, freed)
  else
    match mTake p with
    | .error panic => .error panic
    | .ok (p, m) => .ok (p, some m, [])

/-- The loop of `m_relse` over the pages behind the top. -/
def relseLoop : Nat → Pool → Int → Nat → Pool
  | 0, p, _, _ => p
  | fuel + 1, p, free, i =>
    if free > 0 ∧ i ≠ p.nFree ∧ p.pFree i = nmbpg then
      if i > 0 then relseLoop fuel (pgRelse p i) (free - 1) (p.pNext i)
      else relseLoop fuel p free (p.pNext i)
    else p

/-- Return excess free pages to system. -/
def mRelse (nHiwat : Int) (p : Pool) : Pool :=
  relseLoop nnetpages p ((p.nBufs - nHiwat) / nmbpg) (p.pNext p.nFree)

/-- Page zero, as `mbufinit` sets it up before it allocates three more. -/
def pageZero : Pool where
  pFree := fun page => if page = 0 then nmbpg else 0
  pOff := fun _ => 0
  pNext := fun _ => 0
  pPrev := fun _ => 0
  mOff := fun m => if m.page = 0 then freeMark else 0
  netmap := fun page => page = 0
  nFree := 0
  nPages := 0
  nBufs := 0

/-- Initialize network buffer management system. -/
def mbufinit (rmalloc : Rmalloc) : Pool :=
  { (pgAlloc rmalloc pageZero 3).getD pageZero with nPages := 4, nBufs := 32 }

end NetworkUnix.Bbnnet.Pages
