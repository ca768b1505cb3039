/-
This file models the raw message facility of the network kernel: the tables of
the host and message ranges that raw files have claimed for reading and for
writing, the open, close and clean-up of raw files, and the parts of the file
table and the inode table that they use. A call is not interrupted by another,
since none of them sleeps once it has begun to look at the tables.
-/

import Mathlib.Data.Fintype.Basic
import Mathlib.Data.List.FinRange
import Mathlib.Logic.Function.Basic

namespace NetworkUnix.Ncpkernel

/-- RAWTSIZE -/
def rawtsize : Nat := 16

/-- The range of messages usable for raw messages, with the NCP open and without it. -/
def ncplomsg : Int := 72 * 16

def rawlomsg : Int := 0

def himsg : Int := 255 * 16 + 15

/-- The message number whose reader gets anything that no others do. -/
def elsemsg : Int := 255 * 16 + 15

/-- The sizes of the file table and of the inode table. -/
def nfile : Nat := 90

def ninode : Nat := 130

/-- A host: its network, the host on the imp, and the imp with the logical host. -/
abbrev Host := BitVec 32

/-- A long host for a short one. -/
def stolhost (localnet : BitVec 8) (ac : BitVec 8) : Host :=
  if ac = 0 then 0 else localnet ++ (ac >>> 6) ++ (0 : BitVec 8) ++ (ac &&& 0x3f)

/-- An entry of a table; it is in use if it names a socket. -/
structure RawEntry where
  host : Host
  lomsg : Int
  himsg : Int
  rawskt : Option Nat

/-- The entry has this host and this range. -/
def RawEntry.same (entry : RawEntry) (host : Host) (lo hi : Int) : Bool :=
  decide (entry.host = host) && decide (entry.lomsg = lo) && decide (entry.himsg = hi)

/-- The hosts may be the same, and the ranges overlap. -/
def RawEntry.meets (entry : RawEntry) (host : Host) (lo hi : Int) : Bool :=
  (decide (entry.host = host) || decide (entry.host = 0) || decide (host = 0)) &&
    decide (entry.lomsg ≤ hi) && decide (lo ≤ entry.himsg)

abbrev RawTab := Fin rawtsize → RawEntry

/-- What `getrawtab` returns: no entry, a marker for an overlap, or an entry. -/
inductive Found
  | absent
  | overlap
  | entry (rp : Fin rawtsize)
  deriving DecidableEq

/-- The last parameter of `getrawtab`: none, the marker for an unused entry, or a socket. -/
inductive Riptr
  | none
  | unused
  | skt (ip : Nat)

/-- The first entry with this socket. -/
def RawTab.owned (tab : RawTab) (riptr : Option Nat) : Option (Fin rawtsize) :=
  (List.finRange rawtsize).find? fun rp => decide ((tab rp).rawskt = riptr)

/-- The first entry in use that has the range or overlaps with it. -/
def RawTab.claimed (tab : RawTab) (host : Host) (lo hi : Int) : Option Found :=
  (List.finRange rawtsize).findSome? fun rp =>
    if (tab rp).rawskt = none then none
    else if (tab rp).same host lo hi then some (.entry rp)
    else if (tab rp).meets host lo hi then some .overlap
    else none

/-- getrawtab, for the table of a mode -/
def getrawtab (lomsg : Int) (tab : RawTab) (host : Host) (lo hi : Int) : Riptr → Found
  | .none =>
    if lo < lomsg ∨ himsg < hi then .overlap else (tab.claimed host lo hi).getD .absent
  | .unused => ((tab.owned none).map Found.entry).getD .absent
  | .skt ip => ((tab.owned (some ip)).map Found.entry).getD .absent

/-- A socket for raw messages: whether it is open, and the messages on its queue with their total.
-/
structure RawSkt where
  isOpen : Bool
  bytes : Int
  msgq : List (List (BitVec 8))
  qtotal : Int

structure Inode where
  count : Nat
  skt : RawSkt

/-- An inode that is not used. -/
def Inode.cleared : Inode := ⟨0, false, 0, [], 0⟩

/-- A file: the processes that have it, whether it is a raw file, and its sockets for reading and
for writing. -/
structure NetFile where
  count : Nat
  raw : Bool
  netnode : Bool → Option Nat

/-- The state: which of the kernels is open, LOMSG, the tables for reading (`false`) and for writing
(`true`), elseentry, the file table and the inode table. -/
structure Rmi where
  ncpopnstate : Int
  lomsg : Int
  tab : Bool → RawTab
  elseentry : Option (Fin rawtsize)
  file : Nat → NetFile
  inode : Nat → Inode

/-- The parameters of an open as the user gives them; whether the file is /dev/net/rawmsg, whether
the user has a free file descriptor, and the local network. -/
structure RawOpen where
  isRaw : Bool
  hasFd : Bool
  localnet : BitVec 8
  mode : Int
  host : Host
  lomsg : Int
  himsg : Int

namespace RawOpen

/-- The host in its long form, without the logical host. -/
def longHost (asked : RawOpen) : Host :=
  (if asked.host.extractLsb' 24 8 = 0 ∧ asked.host ≠ 0 then
    stolhost asked.localnet (asked.host.extractLsb' 0 8) else asked.host) &&& 0xffff00ff

/-- The mode as in the flags of a file. -/
def fmode (asked : RawOpen) : Int := asked.mode.tmod 3 + 1

/-- The ends that are to be opened. -/
def ends (asked : RawOpen) (write : Bool) : Bool :=
  decide (asked.fmode = 3) || decide (asked.fmode = if write then 2 else 1)

def high (asked : RawOpen) : Int := if asked.himsg = 0 then asked.lomsg else asked.himsg

/-- The check of the parameters. -/
def bad (asked : RawOpen) (lomsg : Int) : Bool :=
  decide (asked.fmode < 1) || decide (3 < asked.fmode) || asked.longHost.msb ||
    decide (asked.lomsg < lomsg) || decide (asked.high < asked.lomsg) || decide (Ncpkernel.himsg < asked.high)

end RawOpen

/-- What `rawopen` returns. -/
inductive Opened
  | notRaw
  | failed
  | opened (fp : Nat)
  deriving DecidableEq

namespace Rmi

def setFile (s : Rmi) (fp : Nat) (file : NetFile) : Rmi :=
  { s with file := Function.update s.file fp file }

def setInode (s : Rmi) (ip : Nat) (inode : Inode) : Rmi :=
  { s with inode := Function.update s.inode ip inode }

def setEntry (s : Rmi) (mode : Bool) (rp : Fin rawtsize) (entry : RawEntry) : Rmi :=
  { s with tab := Function.update s.tab mode (Function.update (s.tab mode) rp entry) }

/-- An entry is filled in; a new one for all other messages is elseentry. -/
def enter (mode : Bool) (rp : Fin rawtsize) (entry : RawEntry) (s : Rmi) : Rmi :=
  let made := s.setEntry mode rp entry
  if mode = false ∧ entry.host = 0 ∧ entry.lomsg = entry.himsg ∧ entry.lomsg = elsemsg then
    { made with elseentry := some rp }
  else made

/-- putrawtab; there is no result if the entry cannot be made. -/
def putrawtab (mode : Bool) (host : Host) (lo hi : Int) (riptr : Nat) (s : Rmi) : Option Rmi :=
  if getrawtab s.lomsg (s.tab mode) host lo hi .none = .absent then
    match getrawtab s.lomsg (s.tab mode) 0 0 0 .unused with
    | .entry rp => some (s.enter mode rp ⟨host, lo, hi, some riptr⟩)
    | _ => none
  else none

/-- rmrawtab -/
def rmrawtab (mode : Bool) (rp : Fin rawtsize) (s : Rmi) : Rmi :=
  let s := if mode = false ∧ s.elseentry = some rp then { s with elseentry := none } else s
  s.setEntry mode rp { s.tab mode rp with rawskt := none }

/-- rawinode: the inode that it finds and initializes -/
def rawinode (s : Rmi) : Option (Nat × Rmi) :=
  match (List.range ninode).find? fun ip => decide ((s.inode ip).count = 0) with
  | some ip => some (ip, s.setInode ip ⟨2, true, 0, [], 0⟩)
  | none => none

/-- The entry of a socket, if it has one, is removed. -/
def rmSkt (mode : Bool) (ip : Nat) (s : Rmi) : Rmi :=
  match getrawtab s.lomsg (s.tab mode) 0 0 0 (.skt ip) with
  | .entry rp => s.rmrawtab mode rp
  | _ => s

/-- The part of `rawrel` for one end of a file. -/
def relEnd (fp : Nat) (mode : Bool) (s : Rmi) : Rmi :=
  match (s.file fp).netnode mode with
  | none => s
  | some ip =>
    let s := s.rmSkt mode ip
    (s.setFile fp { s.file fp with
      netnode := Function.update (s.file fp).netnode mode none }).setInode ip .cleared

/-- rawrel -/
def rawrel (fp : Nat) (s : Rmi) : Rmi := (s.relEnd fp false).relEnd fp true

/-- The structure of a file is released. -/
def freeFile (fp : Nat) (s : Rmi) : Rmi := s.setFile fp { s.file fp with count := 0, raw := false }

/-- falloc -/
def falloc (hasFd : Bool) (s : Rmi) : Option Nat :=
  if hasFd then (List.range nfile).find? fun fp => decide ((s.file fp).count = 0) else none

/-- A socket is an end of a file. -/
def attach (fp : Nat) (mode : Bool) (ip : Nat) (s : Rmi) : Rmi :=
  s.setFile fp { s.file fp with netnode := Function.update (s.file fp).netnode mode (some ip) }

/-- One end of a file is opened; the result says whether it was. -/
def openEnd (asked : RawOpen) (fp : Nat) (mode : Bool) (s : Rmi) : Bool × Rmi :=
  if asked.ends mode then
    match s.rawinode with
    | none => (false, s)
    | some (ip, s) =>
      let s := s.attach fp mode ip
      if getrawtab s.lomsg (s.tab mode) asked.longHost asked.lomsg asked.high .none ≠ .absent then
        (false, s)
      else
        match s.putrawtab mode asked.longHost asked.lomsg asked.high ip with
        | none => (false, s)
        | some s => (true, s)
  else (true, s)

/-- Both ends are opened, unless the first fails. -/
def openEnds (asked : RawOpen) (fp : Nat) (s : Rmi) : Bool × Rmi :=
  match s.openEnd asked fp false with
  | (true, s) => s.openEnd asked fp true
  | (false, s) => (false, s)

/-- LOMSG as `rawopen` sets it. -/
def openLomsg (s : Rmi) : Int := if 0 < s.ncpopnstate then ncplomsg else rawlomsg

/-- The part of `rawopen` that has checked the parameters. -/
def openFile (asked : RawOpen) (s : Rmi) : Opened × Rmi :=
  match s.falloc asked.hasFd with
  | none => (.failed, s)
  | some fp =>
    match (s.setFile fp ⟨2, true, fun _ => none⟩).openEnds asked fp with
    | (true, s) => (.opened fp, s)
    | (false, s) => (.failed, (s.rawrel fp).freeFile fp)

/-- rawopen -/
def rawopen (asked : RawOpen) (s : Rmi) : Opened × Rmi :=
  if !asked.isRaw then (if s.ncpopnstate < 0 then .failed else .notRaw, s)
  else if s.ncpopnstate = 0 then (.failed, s)
  else
    let s := { s with lomsg := s.openLomsg }
    if asked.bad s.lomsg then (.failed, s) else s.openFile asked

/-- rawclose -/
def rawclose (fp : Nat) (s : Rmi) : Rmi :=
  if (s.file fp).raw then
    if 2 < (s.file fp).count then
      s.setFile fp { s.file fp with count := (s.file fp).count - 1 }
    else (s.rawrel fp).freeFile fp
  else s

/-- rawclean -/
def rawclean (s : Rmi) : Rmi :=
  (List.range nfile).foldl
    (fun s fp => if (s.file fp).count ≠ 0 ∧ (s.file fp).raw then s.rawrel fp else s) s

end Rmi

end NetworkUnix.Ncpkernel
