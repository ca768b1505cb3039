/-
This file models how `submit` takes the text of a message: the components of its headers one
after another, the check of the names in the From and Sender components against the password
file, the addresses that may be taken from other components, and the body. A message that is not
taken is cleared away. The routines of the libraries are parameters, and so is the look-up of an
address, which may find it or not, give the message up, or never come back. The options that name
a network the mail comes from are left out.
-/

import NetworkUnix.Mmdf.Submit.Control
import Mathlib.Data.List.DropRight

namespace NetworkUnix.Mmdf.Submit

def atSign : Byte := 0x40

def percent : Byte := 0x25

def nameSender : List Byte := ascii ['S', 'e', 'n', 'd', 'e', 'r']

def nameFrom : List Byte := ascii ['F', 'r', 'o', 'm']

/-- The letter in the lower case. -/
def lower (c : Byte) : Byte := if 0x41 ≤ c ∧ c ≤ 0x5a then c + 0x20 else c

/-- strequ: the same string without regard to case. -/
def strequ (name other : List Byte) : Bool := name.map lower == other.map lower

/-- What comes of looking an address up. -/
inductive Answer where
  | found
  | unknown
  | aborts
  | never
  deriving DecidableEq

/-- What `submit` runs on: routines of the libraries, the name of the local host, the login names
of the password file, and what happens to stand in variables that were never set. -/
structure Site where
  lwsp : Byte → Bool
  compress : List Byte → List Byte
  isAt : Byte → Byte → Bool
  locname : List Byte
  logins : List (List Byte)
  strayHost : List Byte
  strayMbox : List Byte
  strayChar : Byte
  compress_nil : compress [] = []

theorem unblanked_nil :
    (([] : List Byte).dropWhile (· = blank)).rdropWhile (· = blank) = [] := rfl

/-- What the look-ups of addresses and address files come to, by how many were done before. -/
structure Lookups extends Site where
  chkadr : Nat → List Byte → Answer
  addrfil : Nat → List Byte → Answer

/-- passfrom -/
inductive Passfrom where
  | check
  | flgfrom
  | okfrom
  deriving DecidableEq

/-- The options of the message. -/
structure Options where
  passfrom : Passfrom
  sourcetxt : Option (List Byte)
  vrfyflg : Bool
  bldadrs : Bool
  adrcmpt : List (List Byte)

variable (h : Site) (o : Options)

/-! ### The name of the sender -/

/-- Back over the space before a place. -/
def skipBack (adrline : List Byte) : Nat → Nat
  | 0 => 0
  | place + 1 => if h.lwsp (adrline.getD (place + 1) 0) then skipBack adrline place else place + 1

/-- The search of `ghostpart`, back from a place: where the separator starts, and where the
character after it was seen. -/
def separator (adrline : List Byte) : Nat → Option Nat → Option (Nat × Option Nat)
  | 0, _ => none
  | place + 1, hostptr =>
    let c := adrline.getD (place + 1) 0
    if c = atSign ∨ c = percent then some (place + 1, hostptr)
    else if c = blank ∨ c = tab then
      let before := skipBack h adrline place
      let d := adrline.getD before 0
      if d = atSign ∨ d = percent then some (before, hostptr)
      else if 0 < before ∧ h.isAt (adrline.getD (before - 1) 0) d then some (before - 1, hostptr)
      else none
    else separator adrline place (some (place + 1))

/-- ghostpart: the place before the separator, which `chksndr` takes for the length of the
mailbox, and the name of the host. -/
def ghostpart (adrline : List Byte) : Option (Int × List Byte) :=
  let text := adrline.rdropWhile h.lwsp
  match separator h adrline (text.length - 1) none with
  | none => none
  | some (place, some hostptr) => some ((place : Int) - 1, h.compress (cstring (text.drop hostptr)))
  | some (place, none) => some ((place : Int) - 1, h.strayHost)

/-- passrch: whether a login name of the password file is this name. The buffer holds 19
characters of a login name. -/
def passrch (name : List Byte) : Bool := h.logins.any fun login => strequ name (login.take 19)

/-- What `chksndr` returns: NOTOK, FALSE or TRUE. -/
inductive Check where
  | notok
  | no
  | yes
  deriving DecidableEq

/-- The value as a condition. -/
def Check.truth : Check → Bool
  | .no => false
  | _ => true

/-- The check of `chksndr` on a line without its end. -/
def checkName (line : List Byte) : Check :=
  match ghostpart h line with
  | none => .notok
  | some (ptr, hostr) =>
    let mbox := if 0 ≤ ptr then h.compress (cstring (line.take ptr.toNat)) else h.strayMbox
    if strequ hostr h.locname && passrch h mbox then .yes else .no

/-- chksndr -/
def chksndr (s : State) : Check × State :=
  let (line, read) := cntlin nltrm s
  if line = [] then (.no, read) else (checkName h line.dropLast, read.fwrite line)

/-! ### Lines that are passed on -/

/-- The loop of `cntline2mfil`, with the last character that was read. -/
def restOfLine : Loop (Option Byte × State) Unit State where
  body := fun (last, s) =>
    if s.msgend = true ∨ last = some newline then .inr s
    else .inl ((), (cntlin nltrm s).1.getLast?, (cntlin nltrm s).2.fwrite (cntlin nltrm s).1)
  join _ s := s
  measure := fun (_, s) => s.left
  lowers := by
    rintro ⟨last, s⟩ item ⟨_, next⟩ taken
    dsimp only at taken
    split at taken
    · cases taken
    next goes =>
      cases taken
      exact cntlin_left_lt nltrm s (.inl (Bool.eq_false_iff.mpr (not_or.mp goes).1))

/-- cntline2mfil: the rest of the line that ends with this character so far. -/
def cntline2mfil (last : Option Byte) (s : State) : State := restOfLine.run (last, s)

/-- The loop of `dobody`, with the last character of the text. -/
def restOfText : Loop (Byte × State) Unit State where
  body := fun (c, s) =>
    let (line, read) := cntlin nultrm s
    if s.msgend = true then .inr (if c = newline then s else s.fwrite [newline])
    else if line = [] then .inr (if c = newline then read else read.fwrite [newline])
    else
      let text := if line.getLast? = some 0 ∧ 1 < line.length then line.dropLast else line
      .inl ((), text.getLast?.getD 0, read.fwrite text)
  join _ s := s
  measure := fun (_, s) => s.left
  lowers := by
    rintro ⟨c, s⟩ item ⟨_, next⟩ taken
    dsimp only at taken
    split at taken
    · cases taken
    next goes =>
      split at taken
      · cases taken
      · cases taken
        exact cntlin_left_lt nultrm s (.inl (Bool.eq_false_iff.mpr goes))

/-- dobody -/
def dobody (s : State) : State := restOfText.run (h.strayChar, s)

/-! ### Addresses in components -/

/-- rmcmnt: the address without its comments, and whether they were closed. -/
def rmcmnt : List Byte → (inlit : Bool) → (incom : Nat) → List Byte × Bool
  | [], inlit, incom => ([], !inlit && incom == 0)
  | c :: rest, inlit, incom =>
    let copy (inlit : Bool) :=
      if incom = 0 then (c :: (rmcmnt rest inlit incom).1, (rmcmnt rest inlit incom).2)
      else rmcmnt rest inlit incom
    if c = 0x5c then
      match rest with
      | [] => if 0 < incom then ([], !inlit && incom == 0) else ([c], !inlit && incom == 0)
      | d :: rest =>
        if 0 < incom then rmcmnt rest inlit incom
        else (c :: d :: (rmcmnt rest inlit incom).1, (rmcmnt rest inlit incom).2)
    else if c = 0x22 then copy (!inlit)
    else if c = 0x28 ∧ inlit = false then rmcmnt rest inlit (incom + 1)
    else if c = 0x29 ∧ inlit = false then
      if incom = 0 then (c :: rest, false)
      else if incom = 1 then (blank :: (rmcmnt rest inlit 0).1, (rmcmnt rest inlit 0).2)
      else rmcmnt rest inlit (incom - 1)
    else copy inlit

/-- cmpntin: the next address of the component, empty where there is none. The line of the next
component is left in `moreline`. -/
def cmpntin (s : State) : List Byte × State :=
  let (line, read) := cntlin (if s.morcmpnt then moretrm else lstnultrm) s
  if line = [] ∨ read.msgend = true ∨ line.head? = some 0 then ([], read)
  else if s.morcmpnt = true then
    if line.head? ≠ some blank ∧ line.head? ≠ some tab then
      ([], { read.fwrite line with morcmpnt := false, moreline := some (cstring line) })
    else ((cstring line).dropWhile h.lwsp, read.fwrite line)
  else (cstring line, { read.fwrite line with morcmpnt := line.getLast? == some newline })

/-- How the reading of addresses, or of a message, ends. -/
inductive Outcome where
  | done (s : State)
  | aborted (s : State)
  | stuck
  deriving DecidableEq

/-- suckup: what is left of the stream is read, line by line, where the text has not ended. -/
def suckup (s : State) : State := if s.msgend then s else { s with input := [] }

/-- msgabrt, as far as the control stream goes. -/
def msgabrt (s : State) : Outcome := .aborted (suckup s)

/-- One address of a component. -/
def address (k : Lookups) (adrline : List Byte) (s : State) : (Unit × State) ⊕ Outcome :=
  let (text, closed) := rmcmnt adrline.dropLast false 0
  if closed = false ∧ o.vrfyflg = false then .inr (msgabrt s)
  else
    match k.compress text with
    | [] => .inl ((), s)
    | c :: rest =>
      let after := { s with looked := s.looked + 1 }
      if c = 0x3c then
        match k.addrfil s.looked (rest.dropWhile k.lwsp) with
        | .never => .inr .stuck
        | .aborts => .inr (msgabrt after)
        | _ => .inl ((), after)
      else
        match k.chkadr s.looked (c :: rest) with
        | .never => .inr .stuck
        | .aborts => .inr (msgabrt after)
        | .found => .inl ((), after)
        | .unknown => if o.vrfyflg then .inl ((), after) else .inr (msgabrt after)

/-! ### The end of the text comes nearer -/

theorem cntlin_input_lt {brkset : Byte → Bool} {s : State} (some : (cntlin brkset s).1 ≠ []) :
    (cntlin brkset s).2.input.length < s.input.length := by
  have shorter := cntlin_length brkset s
  have line := List.length_pos_iff.mpr some
  omega

theorem cmpntin_some {s : State} (some : (cmpntin h s).1 ≠ []) :
    (cmpntin h s).2.input.length < s.input.length := by
  unfold cmpntin at *
  generalize (if s.morcmpnt = true then moretrm else lstnultrm) = brkset at *
  dsimp only at *
  split at some
  · exact absurd rfl some
  next line =>
    have less := cntlin_input_lt (not_or.mp line).1
    rw [if_neg line]
    split
    · split <;> exact less
    · exact less

theorem address_again (k : Lookups) {adrline : List Byte} {s next : State} {item : Unit}
    (again : address o k adrline s = .inl (item, next)) :
    next.input = s.input ∧ next.msgend = s.msgend ∧ next.moreline = s.moreline := by
  unfold address at again
  dsimp only at again
  repeat' split at again
  all_goals first | (cases again; exact ⟨rfl, rfl, rfl⟩) | cases again

/-- adrlst, on the addresses of a component. -/
def adrlst (k : Lookups) : Loop State Unit Outcome where
  body := fun s =>
    let (adrline, read) := cmpntin k.toSite s
    if adrline = [] then .inr (.done read) else address o k adrline read
  join _ outcome := outcome
  measure s := s.input.length
  lowers := by
    intro s item next taken
    dsimp only at taken
    split at taken
    · cases taken
    next some =>
      rw [(address_again o k taken).1]
      exact cmpntin_some k.toSite some

end NetworkUnix.Mmdf.Submit
