/-
This file models a whole run of `submit`: the option line of a message, its return address, the
list of addresses with the aliases and the address files they lead to, and the text, message after
message. A step is a trip through the loop that is running. The loops that are open are on a
stack: `adrlst` is entered again for an alias and for an address file. Contents of the address
file of the queue and options that nothing here reads are left out; how an address is routed and
which files can be opened are parameters, but no more than `nofile` files are open at a time.
-/

import NetworkUnix.Mmdf.Submit.Stormsg

namespace NetworkUnix.Mmdf.Submit

/-! ### Options -/

/-- The options of a message; `trustflg` outlives it. -/
structure Settings extends Options where
  trustflg : Bool
  rtn2sndr : Bool
  takadrs : Bool
  vianet : Option (List Byte)

/-- getparm: a parameter, and what follows it. -/
def getparm (str : List Byte) : List Byte × List Byte :=
  let within (c : Byte) := c != 0x2a && c != comma && c != newline
  (str.takeWhile within, str.dropWhile within)

/-- The character that ends a parameter of `f`, `g` and `i` is passed over. -/
def passEnd (str : List Byte) : List Byte :=
  if str.head? = some comma ∨ str.head? = some 0x2a then str.tail else str

/-- The component names of `x`, of which there is room for so many. -/
def cmpntNames : Nat → List Byte → List (List Byte) × List Byte
  | 0, str => ([], str)
  | room + 1, str =>
    let (name, rest) := getparm str
    if rest.head? = some comma then
      (name :: (cmpntNames room rest.tail).1, (cmpntNames room rest.tail).2)
    else if rest.head? = some 0x2a then ([name], rest.tail)
    else ([name], rest)

theorem getparm_length (str : List Byte) : (getparm str).2.length ≤ str.length :=
  (List.dropWhile_sublist _).length_le

theorem passEnd_length (str : List Byte) : (passEnd str).length ≤ str.length := by
  unfold passEnd
  split
  · rw [List.length_tail]
    exact Nat.sub_le _ _
  · exact Nat.le_refl _

theorem cmpntNames_length (room : Nat) (str : List Byte) :
    (cmpntNames room str).2.length ≤ str.length := by
  induction room generalizing str with
  | zero => exact Nat.le_refl _
  | succ room inductionHypothesis =>
    have shorter := getparm_length str
    have tail := List.length_tail (l := (getparm str).2)
    unfold cmpntNames
    dsimp only
    split
    · have rest := inductionHypothesis (getparm str).2.tail
      dsimp only
      omega
    · split
      · dsimp only
        omega
      · exact shorter

/-- parmset: an option letter, and its parameters. -/
def parmset : Loop (List Byte × Settings) Unit Settings where
  body := fun (ptr, set) =>
    match ptr with
    | [] => .inr set
    | c :: rest =>
      if c = newline then .inr set
      else if c = 0x66 then
        .inl ((), passEnd (getparm rest).2, { set with sourcetxt := some (getparm rest).1 })
      else if c = 0x67 then
        .inl ((), passEnd (getparm rest).2,
          { set with takadrs := true, vianet := some (getparm rest).1 })
      else if c = 0x69 then
        .inl ((), passEnd (getparm rest).2, { set with vianet := some (getparm rest).1 })
      else if c = 0x72 then .inl ((), rest, { set with rtn2sndr := true })
      else if c = 0x74 then .inl ((), rest, { set with trustflg := true })
      else if c = 0x75 then .inl ((), rest, { set with passfrom := .flgfrom })
      else if c = 0x76 then .inl ((), rest, { set with vrfyflg := true })
      else if c = 0x78 then
        let (names, after) := cmpntNames (10 - set.adrcmpt.length) rest
        .inl ((), after, { set with bldadrs := true, adrcmpt := set.adrcmpt ++ names })
      else .inl ((), rest, set)
  join _ set := set
  measure := fun (ptr, _) => ptr.length
  lowers := by
    rintro ⟨ptr, set⟩ item ⟨after, next⟩ taken
    dsimp only at taken
    cases ptr with
    | nil => cases taken
    | cons c rest =>
      have parm := getparm_length rest
      have ends := passEnd_length (getparm rest).2
      have names := cmpntNames_length (10 - set.adrcmpt.length) rest
      dsimp only at taken
      repeat' split at taken
      all_goals cases taken
      all_goals
        dsimp only
        rw [List.length_cons]
        omega

/-- The options before the option line is read. -/
def Settings.cleared (set : Settings) : Settings where
  passfrom := .check
  sourcetxt := none
  vrfyflg := false
  bldadrs := false
  adrcmpt := []
  trustflg := set.trustflg
  rtn2sndr := false
  takadrs := false
  vianet := none

/-- parminit, where `owner` says whether the user is one who is trusted. -/
def parminit (owner : Bool) (str : List Byte) (set : Settings) : Settings :=
  let read := parmset.run (cstring str, set)
  if read.trustflg then
    { read with passfrom := if owner = true ∨ read.vianet ≠ none then .okfrom else .flgfrom }
  else read

/-! ### The state of a run -/

/-- What `chkadr` makes of an address by its host. -/
inductive Route where
  | found
  | unknown
  | mailbox (name : List Byte)

/-- What `submit` runs on, with the alias table, where an address goes, and the address files that
can be opened, by how many were opened before. -/
structure World extends Site where
  aliases : List (List Byte × List Byte)
  route : List Byte → Route
  fopen : Nat → List Byte → Option (List Byte)
  nofile : Nat
  owner : Bool

/-- A loop of `adrlst` within another: over the rest of an alias, with what `aliasrch` restores
after it, or over an address file. -/
inductive Frame where
  | aliasin (abufpos : List Byte) (oldpos : List (List Byte × List Byte)) (oldalias : Bool)
  | filin (errabrt : Bool)

/-- Where the run is: at the top of the loop of `main`, in the loop of `queueinit`, in `adrlst`,
called from `main` or from `stormsg`, in the loop of `stormsg`, or at its end. -/
inductive Mode where
  | top
  | echo
  | adrs (frames : List Frame) (back : Option Verdict)
  | text (v : Verdict)
  | exit

/-- What became of a message. -/
inductive Result where
  | queued
  | rejected
  deriving DecidableEq

/-- The state of a run. `table` is what follows the position in the alias table, and `infil` is the
rest of the address file that `infilfd` stands for, if it is open. -/
structure Session where
  ctl : State
  useprot : Bool
  set : Settings
  curalias : Bool
  table : List (List Byte × List Byte)
  infil : Option (List Byte)
  opened : Nat
  started : Nat
  results : List Result
  mode : Mode

namespace Session

/-- msgabrt -/
def msgabrt (m : Session) : Session := { m with
  ctl := suckup m.ctl
  results := m.results ++ [.rejected]
  mode := if m.useprot then .top else .exit }

/-- sysabrt -/
def sysabrt (m : Session) : Session := { m with
  ctl := suckup m.ctl
  results := m.results ++ [.rejected]
  mode := .exit }

/-- The message is moved to the queue. -/
def queue (m : Session) (ctl : State) : Session := { m with
  ctl := ctl
  results := m.results ++ [.queued]
  mode := .top }

/-- The end of `stormsg`. -/
def close (m : Session) : Outcome → Session
  | .done ctl => m.queue ctl
  | .aborted ctl => { m with ctl := ctl }.msgabrt
  | .stuck => m

/-! ### Steps -/

variable (w : World)

/-- The start of `stormsg`; mail from the ARPANET is taken as it is. -/
def stormsgs (m : Session) : Session :=
  let o := m.set.toOptions
  let ctl := { m.ctl with
    mfil := if o.passfrom = .flgfrom ∨ o.sourcetxt ≠ none then dosrcinfo o else [] }
  if m.set.vianet.bind List.head? = some 0x61 then m.queue (dobody w.toSite ctl)
  else { m with ctl := ctl, mode := .text o.verdict }

/-- After the list of addresses. -/
def afterAdrs (m : Session) : Session := if m.ctl.msgend then m.sysabrt else m.stormsgs w

/-- After the return address. -/
def afterEcho (m : Session) : Session :=
  if m.set.takadrs = true ∨ m.set.bldadrs = false then { m with mode := .adrs [] none }
  else m.afterAdrs w

/-- queueinit, up to its loop. -/
def queueinit (m : Session) : Session :=
  let started := { m with started := m.started + 1 }
  if m.set.rtn2sndr then started.afterEcho w else { started with mode := .echo }

/-- loopinit and switchinit. The loop that frees the names of components stays at the first. -/
def atTop (m : Session) : Session :=
  let looped := { m with ctl := { m.ctl with msgend := false } }
  if m.ctl.eofhit = true then { m with mode := .exit }
  else if m.useprot = false then looped.queueinit w
  else if m.set.adrcmpt ≠ [] then looped
  else
    let (line, ctl) := cntlin nltrm looped.ctl
    if line = [] then { m with ctl := ctl, set := m.set.cleared, mode := .exit }
    else { m with ctl := ctl, set := parminit w.owner line m.set.cleared }.queueinit w

/-- echochar, in the loop of `queueinit`. -/
def echochar (m : Session) : Session :=
  match m.ctl.input with
  | [] => { m with ctl := { m.ctl with msgend := true, eofhit := true } }
  | c :: rest =>
    let read := { m with ctl := { m.ctl with input := rest } }
    if 0 < c.toInt then if c = newline then read.afterEcho w else read
    else { m with ctl := { m.ctl with
      input := rest
      msgend := true
      eofhit := m.ctl.eofhit || c == 0xff } }

/-- The address files that are open. -/
def files (frames : List Frame) : Nat :=
  frames.countP fun
    | .filin _ => true
    | .aliasin .. => false

/-- aliasrch: the entry of the name that comes next in the table. -/
def aliasrch (mbox : List Byte) :
    List (List Byte × List Byte) → Option (List Byte × List (List Byte × List Byte))
  | [] => none
  | (name, text) :: rest => if strequ mbox name then some (cstring text, rest) else aliasrch mbox rest

/-- An address that was not found. -/
def unknown (m : Session) (errabrt : Bool) (frames : List Frame) (back : Option Verdict) : Session :=
  if errabrt = true ∧ m.set.vrfyflg = false then m.msgabrt
  else { m with mode := .adrs frames back }

/-- chkadr -/
def chkadr (m : Session) (adr : List Byte) (errabrt : Bool) (frames : List Frame)
    (back : Option Verdict) : Session :=
  match w.route adr with
  | .found => { m with mode := .adrs frames back }
  | .unknown => m.unknown errabrt frames back
  | .mailbox mbox =>
    let oldpos := if m.curalias then m.table else w.aliases
    match aliasrch mbox m.table with
    | some (text, rest) => { m with
        curalias := true
        table := rest
        mode := .adrs (.aliasin text oldpos m.curalias :: frames) back }
    | none =>
      if passrch w.toSite mbox then { m with table := oldpos, mode := .adrs frames back }
      else { m with table := oldpos }.unknown errabrt frames back

/-- addrfil, up to its loop. -/
def addrfil (m : Session) (name : List Byte) (errabrt : Bool) (frames : List Frame)
    (back : Option Verdict) : Session :=
  let opens := { m with opened := m.opened + 1 }
  if w.nofile ≤ files frames then opens.msgabrt
  else
    match w.fopen m.opened name with
    | none => opens.msgabrt
    | some text => { opens with
        infil := some text
        mode := .adrs (.filin errabrt :: frames) back }

/-- What `adrlst` does with an address. -/
def address (m : Session) (adrline : List Byte) (errabrt : Bool) (frames : List Frame)
    (back : Option Verdict) : Session :=
  let (text, closed) := rmcmnt adrline false 0
  if closed = false ∧ errabrt = true ∧ m.set.vrfyflg = false then m.msgabrt
  else
    match w.compress text with
    | [] => { m with mode := .adrs frames back }
    | c :: rest =>
      if c = 0x3c then m.addrfil w (rest.dropWhile w.lwsp) errabrt frames back
      else m.chkadr w (c :: rest) errabrt frames back

/-- primeadrs: the next address of the list, empty at its end. -/
def primeadrs (s : State) : List Byte × State :=
  let (line, read) := cntlin lstnultrm s
  if line = [] ∨ line.take 2 = [0x21, newline] ∨ read.msgend = true then ([], read)
  else (line, read)

/-- A trip through the first loop of `adrlst`. -/
def firstAdr (m : Session) (back : Option Verdict) : Session :=
  match back with
  | none =>
    let (adrline, ctl) := primeadrs m.ctl
    let read := { m with ctl := ctl }
    if adrline = [] then read.afterAdrs w
    else read.address w (cstring adrline.dropLast) true [] back
  | some v =>
    let (adrline, ctl) := cmpntin w.toSite m.ctl
    let read := { m with ctl := ctl }
    if adrline = [] then
      if ctl.moreline = none then read.close (afterHeaders w.toSite v ctl)
      else { read with mode := .text v }
    else read.address w adrline.dropLast true [] back

/-- A trip through a loop of `adrlst` over an alias; the position stays at the comma. -/
def aliasAdr (m : Session) (abufpos : List Byte) (oldpos : List (List Byte × List Byte))
    (oldalias : Bool) (under : List Frame) (back : Option Verdict) : Session :=
  if abufpos = [] then { m with
    curalias := oldalias
    table := oldpos
    mode := .adrs under back }
  else
    m.address w (abufpos.takeWhile fun c => !lstnultrm c) false
      (.aliasin (abufpos.dropWhile fun c => !lstnultrm c) oldpos oldalias :: under) back

/-- A trip through a loop of `adrlst` over an address file. After another file was opened within
it `infilfd` does not stand for this one any more. -/
def fileAdr (m : Session) (errabrt : Bool) (under : List Frame) (back : Option Verdict) : Session :=
  match m.infil with
  | none => { m with mode := .adrs under back }
  | some text =>
    let (line, rest) := gcread lstnultrm lineSize text
    if line = [] then { m with infil := none, mode := .adrs under back }
    else
      { m with infil := some rest }.address w (cstring line.dropLast) errabrt
        (.filin errabrt :: under) back

/-- doviareply: what it writes after the name of the author. -/
def doviareply (name : List Byte) : List Byte :=
  let within (c : Byte) := c != blank && c != tab && c != atSign
  ascii ['R', 'e', 'p', 'l', 'y', '-', 't', 'o', ':', ' '] ++
    (name.dropWhile w.lwsp).takeWhile within ++ ascii [' ', 'a', 't', ' '] ++ w.locname ++ [newline]

/-- A trip through the loop of `stormsg`. -/
def textTrip (m : Session) (v : Verdict) : Session :=
  match nextName m.ctl with
  | (none, read) => m.close (afterHeaders w.toSite v read)
  | (some line, read) =>
    let which := kind w.toSite m.set.toOptions line
    if which = .addresses then { m with ctl := read, mode := .adrs [] (some v) }
    else
      match handle w.toSite line v read which with
      | .inr outcome => m.close outcome
      | .inl (_, next, ctl) =>
        let value := (cntlin nltrm read).1
        let name := if value = [] then w.compress (cstring line.dropLast) else cstring value.dropLast
        if which = .author ∧ m.set.vianet ≠ none then
          { m with ctl := ctl.fwrite (doviareply w name), mode := .text next }
        else { m with ctl := ctl, mode := .text next }

/-- A step of the run. -/
def next (m : Session) : Session :=
  match m.mode with
  | .top => m.atTop w
  | .echo => m.echochar w
  | .adrs [] back => m.firstAdr w back
  | .adrs (.aliasin abufpos oldpos oldalias :: under) back =>
    m.aliasAdr w abufpos oldpos oldalias under back
  | .adrs (.filin errabrt :: under) back => m.fileAdr w errabrt under back
  | .text v => m.textTrip w v
  | .exit => m

/-- The start of a run: the control stream, and the options of the arguments. -/
def start (w : World) (useprot : Bool) (set : Settings) (input : List Byte) : Session where
  ctl := {
    input := input
    msgend := false
    eofhit := false
    morcmpnt := false
    moreline := none
    mfil := []
    looked := 0 }
  useprot := useprot
  set := set
  curalias := false
  table := w.aliases
  infil := none
  opened := 0
  started := 0
  results := []
  mode := .top

end Session

end NetworkUnix.Mmdf.Submit
