/-
This file models how MMDF cuts data into messages, in a buffer that is kept from call to call,
and proves that the data come through whole, whatever the calls. The one exception is the
first transfer of the process, if it has no bytes: then the buffer has never been set up.
-/

import NetworkUnix.Mmdf.Grave
import Mathlib.Data.List.TakeDrop

namespace NetworkUnix.Mmdf

/-- MAXMESG -/
def maxmesg : Nat := 128

/-- DATA -/
def dataCode : Byte := 0x31

/-- EOT -/
def eotCode : Byte := 0x32

/-- EUSER -/
def euser : Int := -2

/-- `d_buffo`, with what was passed to `d_sndmsg` and how often a character was stored through the
null pointer. -/
structure Buffo where
  msgbuff : List Byte
  loadpt : Option Nat
  numleft : Nat
  sent : List (Byte × List Byte)
  wild : Nat
  deriving DecidableEq

namespace Buffo

/-- Static storage is zero. -/
def start : Buffo where
  msgbuff := List.replicate maxmesg 0
  loadpt := none
  numleft := 0
  sent := []
  wild := 0

/-- Characters are stored where `b_loadpt` points. -/
def store (s : Buffo) (values : List Byte) : Buffo :=
  match s.loadpt with
  | some place =>
    { s with msgbuff := s.msgbuff.take place ++ values ++ s.msgbuff.drop (place + values.length) }
  | none => { s with wild := s.wild + 1 }

/-- The inner loop of `dlbuffo`, with the characters that are left. -/
def fill : Buffo → List Byte → Buffo × List Byte
  | s, [] => (s, [])
  | s, b :: rest =>
    if s.numleft = 0 then (s, b :: rest)
    else if s.numleft < (dTograve b).length then
      ({ s.store (dTograve b) with numleft := 0 }, b :: rest)
    else
      fill { s.store (dTograve b) with
        numleft := s.numleft - (dTograve b).length
        loadpt := s.loadpt.map (· + (dTograve b).length) } rest

variable (sndmsg : Nat → Int) (linelgh : Nat)

/-- The line is ended, and `d_sndmsg(DATA, b_msgbuff)` is called; `sndmsg` gives its results. -/
def ship (s : Buffo) : Buffo × Int :=
  ({ s.store [0] with
      loadpt := some 0
      numleft := linelgh - headlngh
      sent := s.sent ++ [(dataCode, cstring (s.store [0]).msgbuff)] }, sndmsg s.sent.length)

/-- dlflush -/
def dlflush (s : Buffo) : Buffo × Int :=
  if s.numleft < linelgh - headlngh then s.ship sndmsg linelgh else (s, 0)

/-- `d_sndmsg(EOT, 0)` -/
def eot (s : Buffo) : Buffo × Int :=
  ({ s with sent := s.sent ++ [(eotCode, [])] }, sndmsg s.sent.length)

/-- The outer loop of `dlbuffo`, which can make `fuel` rounds. -/
def assemble : Nat → Buffo → List Byte → Int → Option (Buffo × Int)
  | 0, _, _, _ => none
  | fuel + 1, s, bytes, nbytes =>
    let filled := s.fill bytes
    if filled.1.numleft = 0 then
      let shipped := filled.1.ship sndmsg linelgh
      if shipped.2 < 0 then some shipped else assemble fuel shipped.1 filled.2 nbytes
    else some (filled.1, nbytes - filled.2.length)

/-- The check before the loop. -/
def startUp (s : Buffo) : Buffo :=
  if s.numleft = 0 then { s with numleft := linelgh - headlngh, loadpt := some 0 } else s

/-- dlbuffo -/
def dlbuffo (s : Buffo) (buffer : List Byte) (nbytes : Int) : Option (Buffo × Int) :=
  if nbytes < 0 then some (s, euser)
  else if nbytes = 0 then
    let flushed := s.dlflush sndmsg linelgh
    some (if flushed.2 < 0 then flushed else flushed.1.eot sndmsg)
  else
    assemble sndmsg linelgh (nbytes.toNat + 2) (s.startUp linelgh) (buffer.take nbytes.toNat) nbytes

/-- A transfer: the calls for each piece, and `dlbuffo(x, 0)`. -/
def transfer : Buffo → List (List Byte) → Option (Buffo × List Int)
  | s, [] => (s.dlbuffo sndmsg linelgh [] 0).map fun out => (out.1, [out.2])
  | s, piece :: rest =>
    (s.dlbuffo sndmsg linelgh piece piece.length).bind fun out =>
      (transfer out.1 rest).map fun others => (others.1, out.2 :: others.2)

/-- One transfer after another. -/
def transfers : Buffo → List (List (List Byte)) → Option Buffo
  | s, [] => some s
  | s, pieces :: others =>
    (s.transfer sndmsg linelgh pieces).bind fun out => transfers out.1 others

end Buffo

/-! ### What is promised -/

/-- A text for a DATA message: there is something in it, it fits into a line, and it is made of
whole codes of printable characters without '@' and '^'. -/
structure DataText (linelgh : Nat) (text : List Byte) : Prop where
  some : text ≠ []
  fits : text.length + headlngh ≤ linelgh
  plain : ∀ c ∈ text, graveChar c = true
  whole : wholePairs text = true

/-- Every call returns its count, the messages are DATA messages and one EOT, and what `dlread`
makes of them is what was to be sent. -/
def Transparent (linelgh : Nat) (pieces : List (List Byte)) (before : Buffo)
    (after : Option (Buffo × List Int)) : Prop :=
  ∃ (s : Buffo) (texts parts : List (List Byte)),
    after = some (s, pieces.map (fun piece => (piece.length : Int)) ++ [0]) ∧
    s.sent = before.sent ++ texts.map (fun text => (dataCode, text)) ++ [(eotCode, [])] ∧
    (∀ text ∈ texts, DataText linelgh text) ∧
    texts.map (fun text => dlread (.message dataCode text)) =
      parts.map (fun part => some (dataCode, part)) ∧
    parts.flatten = pieces.flatten

/-! ### The buffer -/

namespace Buffo

/-- The bytes that wait are in the buffer in their code, and fit into a line. -/
structure Loaded (linelgh : Nat) (s : Buffo) (bytes : List Byte) : Prop where
  loadpt : s.loadpt = some (bytes.flatMap dTograve).length
  fits : (bytes.flatMap dTograve).length ≤ linelgh - headlngh
  text : s.msgbuff.take (bytes.flatMap dTograve).length = bytes.flatMap dTograve
  size : s.msgbuff.length = maxmesg

/-- Between two calls, `b_numleft` also counts what is left of the line, and something is. -/
structure Ready (linelgh : Nat) (s : Buffo) (bytes : List Byte) : Prop extends
    Loaded linelgh s bytes where
  numleft : (bytes.flatMap dTograve).length + s.numleft = linelgh - headlngh
  left : 0 < s.numleft

/-- The bytes were cut, and each cut sent as one message. -/
structure Sends (linelgh : Nat) (s t : Buffo) (cuts : List (List Byte)) : Prop where
  sent : t.sent = s.sent ++ cuts.map fun cut => (dataCode, cut.flatMap dTograve)
  some : ∀ cut ∈ cuts, cut ≠ []
  fits : ∀ cut ∈ cuts, (cut.flatMap dTograve).length ≤ linelgh - headlngh

variable {linelgh : Nat} {s : Buffo} {bytes : List Byte}

theorem store_eq {place : Nat} (loadpt : s.loadpt = some place) (values : List Byte) :
    s.store values = { s with
      msgbuff := s.msgbuff.take place ++ values ++ s.msgbuff.drop (place + values.length) } := by
  unfold store
  rw [loadpt]

@[simp] theorem store_sent (values : List Byte) : (s.store values).sent = s.sent := by
  unfold store
  split <;> rfl

@[simp] theorem store_loadpt (values : List Byte) : (s.store values).loadpt = s.loadpt := by
  unfold store
  split <;> rfl

theorem store_fits {place : Nat} (loadpt : s.loadpt = some place) {values : List Byte}
    (size : s.msgbuff.length = maxmesg) (fits : place + values.length ≤ maxmesg) :
    (s.store values).msgbuff.length = maxmesg ∧
      (s.store values).msgbuff.take (place + values.length) = s.msgbuff.take place ++ values := by
  rw [store_eq loadpt]
  have front : (s.msgbuff.take place).length = place :=
    List.length_take_of_le (by omega)
  constructor
  · show (s.msgbuff.take place ++ values ++ s.msgbuff.drop (place + values.length)).length = _
    rw [List.length_append, List.length_append, front, List.length_drop]
    omega
  · show (s.msgbuff.take place ++ values ++ _).take _ = _
    rw [List.take_left' (by rw [List.length_append, front])]

/-- After the messages the EOT was sent. -/
structure Finishes (linelgh : Nat) (s t : Buffo) (cuts : List (List Byte)) : Prop where
  sent : t.sent =
    s.sent ++ cuts.map (fun cut => (dataCode, cut.flatMap dTograve)) ++ [(eotCode, [])]
  some : ∀ cut ∈ cuts, cut ≠ []
  fits : ∀ cut ∈ cuts, (cut.flatMap dTograve).length ≤ linelgh - headlngh

theorem Sends.refl (linelgh : Nat) (s : Buffo) : Sends linelgh s s [] where
  sent := (List.append_nil _).symm
  some := fun _ member => absurd member List.not_mem_nil
  fits := fun _ member => absurd member List.not_mem_nil

theorem Sends.trans {s t u : Buffo} {cuts more : List (List Byte)} (first : Sends linelgh s t cuts)
    (second : Sends linelgh t u more) : Sends linelgh s u (cuts ++ more) where
  sent := by rw [second.sent, first.sent, List.map_append, List.append_assoc]
  some := fun cut member => (List.mem_append.mp member).elim (first.some cut) (second.some cut)
  fits := fun cut member => (List.mem_append.mp member).elim (first.fits cut) (second.fits cut)

theorem Sends.finishes {s t u : Buffo} {cuts more : List (List Byte)}
    (first : Sends linelgh s t cuts) (second : Finishes linelgh t u more) :
    Finishes linelgh s u (cuts ++ more) where
  sent := by rw [second.sent, first.sent, List.map_append, List.append_assoc s.sent]
  some := fun cut member => (List.mem_append.mp member).elim (first.some cut) (second.some cut)
  fits := fun cut member => (List.mem_append.mp member).elim (first.fits cut) (second.fits cut)

theorem Loaded.cstring (loaded : Loaded linelgh s bytes) :
    cstring (s.store [0]).msgbuff = bytes.flatMap dTograve := by
  rw [store_eq loaded.loadpt, loaded.text]
  show List.takeWhile _ (bytes.flatMap dTograve ++ [0] ++ _) = _
  rw [List.append_assoc, List.takeWhile_append_of_pos, List.singleton_append,
    List.takeWhile_cons_of_neg (by simp), List.append_nil]
  intro c member
  exact decide_eq_true (not_null_of_graveChar (graveChar_flatMap bytes c member))

variable {sndmsg : Nat → Int}

section

variable (loaded : Loaded linelgh s bytes) (most : linelgh ≤ maxmesg) (room : headlngh < linelgh)
include loaded most room

theorem Loaded.ship (some : bytes ≠ []) :
    Ready linelgh (s.ship sndmsg linelgh).1 [] ∧ Sends linelgh s (s.ship sndmsg linelgh).1 [bytes] := by
  have fits := loaded.fits
  have small : headlngh ≤ maxmesg := by decide
  have one : 1 ≤ headlngh := by decide
  have stored := @store_fits s _ loaded.loadpt [0] loaded.size (by
    rw [List.length_singleton]
    omega)
  refine ⟨{
    loadpt := rfl
    fits := Nat.zero_le _
    text := List.take_zero
    size := stored.1
    numleft := Nat.zero_add _
    left := Nat.sub_pos_of_lt room }, {
    sent := ?_
    some := fun cut member => ?_
    fits := fun cut member => ?_ }⟩
  · show s.sent ++ [(dataCode, Mmdf.cstring (s.store [0]).msgbuff)] = _
    rw [loaded.cstring]
    rfl
  · rw [List.mem_singleton.mp member]
    exact some
  · rw [List.mem_singleton.mp member]
    exact fits

theorem Loaded.push {b : Byte}
    (fits : (bytes.flatMap dTograve).length + (dTograve b).length ≤ linelgh - headlngh) (numleft : Nat) :
    Loaded linelgh { s.store (dTograve b) with
      numleft := numleft
      loadpt := s.loadpt.map (· + (dTograve b).length) } (bytes ++ [b]) := by
  have stored := @store_fits s _ loaded.loadpt (dTograve b) loaded.size (by omega)
  have more : (bytes ++ [b]).flatMap dTograve = bytes.flatMap dTograve ++ dTograve b := by
    rw [List.flatMap_append, List.flatMap_singleton]
  constructor
  · rw [more, List.length_append, loaded.loadpt]
    rfl
  · rw [more, List.length_append]
    exact fits
  · rw [more, List.length_append]
    exact stored.2.trans (congrArg (· ++ dTograve b) loaded.text)
  · exact stored.1

theorem Loaded.overrun (b : Byte) :
    Loaded linelgh { s.store (dTograve b) with numleft := 0 } bytes := by
  have fits := loaded.fits
  have length := length_dTograve b
  have small : headlngh = 6 := rfl
  have stored := @store_fits s _ loaded.loadpt (dTograve b) loaded.size (by omega)
  constructor
  · exact (store_loadpt _).trans loaded.loadpt
  · exact fits
  · have front := congrArg (List.take (bytes.flatMap dTograve).length) stored.2
    rw [List.take_take, Nat.min_eq_left (Nat.le_add_right _ _), loaded.text,
      List.take_left' rfl] at front
    exact front
  · exact stored.1

end

/-! ### The loops -/

/-- What the inner loop leaves: all bytes are taken, or the line is full. -/
structure Filled (linelgh : Nat) (s t : Buffo) (bytes took rest : List Byte) : Prop where
  loaded : Loaded linelgh t (bytes ++ took)
  sent : t.sent = s.sent
  full : t.numleft = 0 → bytes ++ took ≠ []
  all : t.numleft ≠ 0 → rest = [] ∧
    ((bytes ++ took).flatMap dTograve).length + t.numleft = linelgh - headlngh
  moves : 2 ≤ s.numleft → took ≠ [] ∨ rest = []

theorem fill_fills {input : List Byte} (loaded : Loaded linelgh s bytes)
    (numleft : (bytes.flatMap dTograve).length + s.numleft = linelgh - headlngh)
    (least : 32 ≤ linelgh) (most : linelgh ≤ maxmesg) :
    ∃ took, input = took ++ (s.fill input).2 ∧
      Filled linelgh s (s.fill input).1 bytes took (s.fill input).2 := by
  have six : headlngh = 6 := rfl
  have ended : s.numleft = 0 → bytes ≠ [] := by
    rintro full rfl
    rw [List.flatMap_nil, List.length_nil] at numleft
    omega
  induction input generalizing s bytes with
  | nil =>
    refine ⟨[], rfl, ?_⟩
    rw [show s.fill [] = (s, []) from rfl]
    exact {
      loaded := by rw [List.append_nil]; exact loaded
      sent := rfl
      full := by rw [List.append_nil]; exact ended
      all := fun _ => by rw [List.append_nil]; exact ⟨rfl, numleft⟩
      moves := fun _ => .inr rfl }
  | cons b rest inductionHypothesis =>
    by_cases full : s.numleft = 0
    · refine ⟨[], ?_, ?_⟩
      · rw [fill, if_pos full]
        rfl
      · rw [fill, if_pos full]
        exact {
          loaded := by rw [List.append_nil]; exact loaded
          sent := rfl
          full := by rw [List.append_nil]; exact ended
          all := fun some => absurd full some
          moves := fun two => by omega }
    · by_cases longer : s.numleft < (dTograve b).length
      · have length := length_dTograve b
        have some : bytes ≠ [] := by
          rintro rfl
          rw [List.flatMap_nil, List.length_nil] at numleft
          omega
        refine ⟨[], ?_, ?_⟩
        · rw [fill, if_neg full, if_pos longer]
          rfl
        · rw [fill, if_neg full, if_pos longer]
          exact {
            loaded := by rw [List.append_nil]; exact loaded.overrun most (by omega) b
            sent := store_sent _
            full := fun _ => by rw [List.append_nil]; exact some
            all := fun some => absurd rfl some
            moves := fun two => by omega }
      · have code : ((bytes ++ [b]).flatMap dTograve).length =
            (bytes.flatMap dTograve).length + (dTograve b).length := by
          rw [List.flatMap_append, List.flatMap_singleton, List.length_append]
        have pushed := loaded.push most (by omega) (b := b) (by omega)
          (s.numleft - (dTograve b).length)
        obtain ⟨took, split, filled⟩ := inductionHypothesis pushed
          (by rw [code]; dsimp only; omega) (fun _ => by simp)
        refine ⟨b :: took, ?_, ?_⟩
        · rw [fill, if_neg full, if_neg longer, List.cons_append, ← split]
        · have joined : bytes ++ b :: took = bytes ++ [b] ++ took := by
            rw [List.append_assoc, List.singleton_append]
          rw [fill, if_neg full, if_neg longer]
          exact {
            loaded := by rw [joined]; exact filled.loaded
            sent := filled.sent.trans (store_sent _)
            full := by rw [joined]; exact filled.full
            all := by rw [joined]; exact filled.all
            moves := fun _ => .inl (List.cons_ne_nil _ _) }

theorem assemble_ready (least : 32 ≤ linelgh) (most : linelgh ≤ maxmesg)
    (succeeds : ∀ call, sndmsg call = 0) {fuel : Nat} {input : List Byte} (nbytes : Int)
    (ready : Ready linelgh s bytes) (enough : input.length + (if s.numleft < 2 then 2 else 1) ≤ fuel) :
    ∃ t cuts waiting, assemble sndmsg linelgh fuel s input nbytes = some (t, nbytes) ∧
      Sends linelgh s t cuts ∧ Ready linelgh t waiting ∧
      cuts.flatten ++ waiting = bytes ++ input := by
  induction fuel generalizing s bytes input with
  | zero =>
    split at enough <;> omega
  | succ fuel inductionHypothesis =>
    obtain ⟨took, split, filled⟩ :=
      @fill_fills linelgh s bytes input ready.toLoaded ready.numleft least most
    have lengths := congrArg List.length split
    rw [List.length_append] at lengths
    unfold assemble
    dsimp only
    by_cases full : (s.fill input).1.numleft = 0
    · have six : headlngh = 6 := rfl
      obtain ⟨shipped, sends⟩ := @Loaded.ship linelgh _ _ sndmsg filled.loaded most (by omega)
        (filled.full full)
      rw [if_pos full, if_neg (by
        show ¬ sndmsg _ < 0
        rw [succeeds]
        exact Int.lt_irrefl 0)]
      have room := shipped.numleft
      rw [List.flatMap_nil, List.length_nil] at room
      have left := ready.left
      obtain ⟨t, cuts, waiting, done, more, last, whole⟩ := @inductionHypothesis _ _ (s.fill input).2
        shipped (by
          rw [if_neg (by omega)]
          by_cases two : s.numleft < 2
          · rw [if_pos two] at enough
            omega
          · rw [if_neg two] at enough
            rcases filled.moves (by omega) with some | none
            · have := List.length_pos_iff.mpr some
              omega
            · rw [none] at split ⊢
              rw [List.append_nil] at split
              have some : took ≠ [] := by
                rintro rfl
                rw [split] at full
                exact absurd full (show s.numleft ≠ 0 by omega)
              have := List.length_pos_iff.mpr some
              rw [none, List.length_nil] at lengths
              rw [List.length_nil]
              omega)
      have before : Sends linelgh s ((s.fill input).1.ship sndmsg linelgh).1 [bytes ++ took] :=
        { sends with sent := by rw [sends.sent, filled.sent] }
      refine ⟨t, (bytes ++ took) :: cuts, waiting, done, before.trans more, last, ?_⟩
      rw [List.flatten_cons, List.append_assoc, whole, List.nil_append, List.append_assoc, ← split]
    · obtain ⟨none, count⟩ := filled.all full
      rw [if_neg full]
      rw [none] at split ⊢
      rw [List.append_nil] at split
      refine ⟨(s.fill input).1, [], bytes ++ took, ?_, ?_, ?_, ?_⟩
      · rw [List.length_nil]
        show some (_, nbytes - 0) = _
        rw [Int.sub_zero]
      · exact { Sends.refl linelgh s with sent := by rw [filled.sent]; exact (List.append_nil _).symm }
      · exact { filled.loaded with numleft := count, left := Nat.pos_of_ne_zero full }
      · rw [← split]
        rfl

/-! ### The calls -/

/-- The buffer between two calls, or before the first. -/
def Open (linelgh : Nat) (s : Buffo) (bytes : List Byte) : Prop :=
  Ready linelgh s bytes ∨ bytes = [] ∧ s.numleft = 0 ∧ s.msgbuff.length = maxmesg

theorem Open.startUp (held : Open linelgh s bytes) (room : headlngh < linelgh) :
    Ready linelgh (s.startUp linelgh) bytes ∧ (s.startUp linelgh).sent = s.sent := by
  unfold Buffo.startUp
  rcases held with ready | ⟨rfl, none, size⟩
  · rw [if_neg (Nat.ne_of_gt ready.left)]
    exact ⟨ready, rfl⟩
  · rw [if_pos none]
    exact ⟨{
      loadpt := rfl
      fits := Nat.zero_le _
      text := List.take_zero
      size := size
      numleft := Nat.zero_add _
      left := Nat.sub_pos_of_lt room }, rfl⟩

theorem Open.dlbuffo (held : Open linelgh s bytes) (least : 32 ≤ linelgh) (most : linelgh ≤ maxmesg)
    (succeeds : ∀ call, sndmsg call = 0) {piece : List Byte} (some : piece ≠ []) :
    ∃ t cuts waiting, s.dlbuffo sndmsg linelgh piece piece.length = .some (t, (piece.length : Int)) ∧
      Sends linelgh s t cuts ∧ Ready linelgh t waiting ∧ cuts.flatten ++ waiting = bytes ++ piece := by
  have six : headlngh = 6 := rfl
  have positive := List.length_pos_iff.mpr some
  obtain ⟨ready, same⟩ := held.startUp (by omega)
  obtain ⟨t, cuts, waiting, done, sends, last, whole⟩ := assemble_ready least most succeeds
    piece.length ready (show piece.length + _ ≤ piece.length + 2 by split <;> omega)
  refine ⟨t, cuts, waiting, ?_, { sends with sent := by rw [sends.sent, same] }, last, whole⟩
  unfold Buffo.dlbuffo
  rw [if_neg (by omega), if_neg (by omega), Int.toNat_natCast, List.take_length]
  exact done

theorem eot_eq (succeeds : ∀ call, sndmsg call = 0) (t : Buffo) :
    t.eot sndmsg = ({ t with sent := t.sent ++ [(eotCode, [])] }, 0) := by
  unfold Buffo.eot
  rw [succeeds]

theorem dlbuffo_flush (succeeds : ∀ call, sndmsg call = 0)
    (flushed : (s.dlflush sndmsg linelgh).2 = 0) : s.dlbuffo sndmsg linelgh [] 0 =
      some ({ (s.dlflush sndmsg linelgh).1 with
        sent := (s.dlflush sndmsg linelgh).1.sent ++ [(eotCode, [])] }, 0) := by
  unfold Buffo.dlbuffo
  rw [if_neg (Int.lt_irrefl 0), if_pos rfl]
  dsimp only
  rw [flushed, if_neg (Int.lt_irrefl 0), eot_eq succeeds]

theorem Ready.finish (ready : Ready linelgh s bytes) (least : 32 ≤ linelgh)
    (most : linelgh ≤ maxmesg) (succeeds : ∀ call, sndmsg call = 0) :
    ∃ (t : Buffo) (cuts : List (List Byte)), s.dlbuffo sndmsg linelgh [] 0 = some (t, 0) ∧
      Ready linelgh t [] ∧ Finishes linelgh s t cuts ∧ cuts.flatten = bytes := by
  have six : headlngh = 6 := rfl
  by_cases some : bytes = []
  · rw [some] at ready ⊢
    have numleft := ready.numleft
    rw [List.flatMap_nil, List.length_nil, Nat.zero_add] at numleft
    have flush : s.dlflush sndmsg linelgh = (s, 0) := if_neg (by omega)
    have done := dlbuffo_flush succeeds (congrArg Prod.snd flush)
    rw [flush] at done
    refine ⟨_, [], done, { ready with }, ?_, rfl⟩
    exact {
      sent := by rw [List.map_nil, List.append_nil]
      some := fun _ member => absurd member List.not_mem_nil
      fits := fun _ member => absurd member List.not_mem_nil }
  · obtain ⟨shipped, sends⟩ :=
      @Loaded.ship linelgh s bytes sndmsg ready.toLoaded most (by omega) some
    have numleft := ready.numleft
    have code : 0 < (bytes.flatMap dTograve).length := by
      obtain ⟨b, rest, rfl⟩ := List.exists_cons_of_ne_nil some
      have := length_dTograve b
      rw [List.flatMap_cons, List.length_append]
      omega
    have flush : s.dlflush sndmsg linelgh = s.ship sndmsg linelgh := if_pos (by omega)
    have done := dlbuffo_flush succeeds ((congrArg Prod.snd flush).trans (succeeds _))
    rw [flush] at done
    refine ⟨_, [bytes], done, { shipped with }, ?_, List.append_nil _⟩
    exact { sends with sent := by rw [sends.sent] }

theorem Ready.transfer (ready : Ready linelgh s bytes) (least : 32 ≤ linelgh)
    (most : linelgh ≤ maxmesg) (succeeds : ∀ call, sndmsg call = 0) {pieces : List (List Byte)}
    (counts : ∀ piece ∈ pieces, piece ≠ []) :
    ∃ (t : Buffo) (cuts : List (List Byte)), s.transfer sndmsg linelgh pieces =
        some (t, pieces.map (fun piece => (piece.length : Int)) ++ [0]) ∧
      Ready linelgh t [] ∧ Finishes linelgh s t cuts ∧ cuts.flatten = bytes ++ pieces.flatten := by
  induction pieces generalizing s bytes with
  | nil =>
    obtain ⟨t, cuts, done, last, finishes, whole⟩ := ready.finish least most succeeds
    refine ⟨t, cuts, ?_, last, finishes, ?_⟩
    · rw [Buffo.transfer, done]
      rfl
    · rw [whole]
      exact (List.append_nil _).symm
  | cons piece rest inductionHypothesis =>
    obtain ⟨t, cuts, waiting, done, sends, next, whole⟩ := Open.dlbuffo (.inl ready) least most
      succeeds (counts piece List.mem_cons_self)
    obtain ⟨u, more, others, last, finishes, all⟩ := inductionHypothesis next
      fun other member => counts other (List.mem_cons_of_mem piece member)
    refine ⟨u, cuts ++ more, ?_, last, sends.finishes finishes, ?_⟩
    · rw [Buffo.transfer, done]
      show (Buffo.transfer sndmsg linelgh t rest).map _ = _
      rw [others]
      rfl
    · rw [List.flatten_append, all, ← List.append_assoc, whole, List.append_assoc,
        List.flatten_cons]

theorem Open.transfer_startUp (held : Open linelgh s bytes) (room : headlngh < linelgh)
    {pieces : List (List Byte)} (counts : ∀ piece ∈ pieces, piece ≠ []) (some : pieces ≠ []) :
    s.transfer sndmsg linelgh pieces = (s.startUp linelgh).transfer sndmsg linelgh pieces := by
  obtain ⟨ready, _⟩ := held.startUp room
  obtain ⟨piece, rest, rfl⟩ := List.exists_cons_of_ne_nil some
  have positive := List.length_pos_iff.mpr (counts piece List.mem_cons_self)
  have again : (s.startUp linelgh).startUp linelgh = s.startUp linelgh :=
    if_neg (Nat.ne_of_gt ready.left)
  have same : s.dlbuffo sndmsg linelgh piece piece.length =
      (s.startUp linelgh).dlbuffo sndmsg linelgh piece piece.length := by
    unfold Buffo.dlbuffo
    rw [if_neg (by omega), if_neg (by omega), if_neg (by omega), if_neg (by omega), again]
  rw [Buffo.transfer, Buffo.transfer, same]

theorem start_transfer_nil (least : 32 ≤ linelgh) (succeeds : ∀ call, sndmsg call = 0) :
    ∃ t, start.transfer sndmsg linelgh [] = some (t, [0]) ∧ Ready linelgh t [] ∧
      t.sent = [(dataCode, []), (eotCode, [])] := by
  have six : headlngh = 6 := rfl
  have flush : start.dlflush sndmsg linelgh = start.ship sndmsg linelgh :=
    if_pos (by show 0 < _; omega)
  have done := dlbuffo_flush succeeds ((congrArg Prod.snd flush).trans (succeeds _))
  rw [flush] at done
  refine ⟨{ (start.ship sndmsg linelgh).1 with
    sent := (start.ship sndmsg linelgh).1.sent ++ [(eotCode, [])] }, ?_, ?_, ?_⟩
  · rw [Buffo.transfer, done]
    rfl
  · exact {
      loadpt := rfl
      fits := Nat.zero_le _
      text := rfl
      size := List.length_replicate
      numleft := Nat.zero_add _
      left := by show 0 < linelgh - headlngh; omega }
  · have text : cstring (start.store [0]).msgbuff = [] := by decide
    show [] ++ [(dataCode, cstring (start.store [0]).msgbuff)] ++ [(eotCode, [])] = _
    rw [text]
    rfl

theorem start_not_transparent (least : 32 ≤ linelgh) (succeeds : ∀ call, sndmsg call = 0) :
    ¬ Transparent linelgh [] start (start.transfer sndmsg linelgh []) := by
  rintro ⟨t, texts, parts, result, sent, good, _⟩
  obtain ⟨u, first, _, messages⟩ := start_transfer_nil least succeeds
  rw [first] at result
  have same : u = t := congrArg Prod.fst (Option.some.inj result)
  rw [← same, messages] at sent
  have message : texts.map (fun text => (dataCode, text)) = [(dataCode, [])] :=
    (List.append_cancel_right (sent.trans rfl : [(dataCode, [])] ++ [(eotCode, [])] = _)).symm
  obtain ⟨text, rest, rfl⟩ := List.exists_cons_of_ne_nil (l := texts) (by
    rintro rfl
    cases message)
  have empty : text = [] := congrArg Prod.snd (List.cons.inj message).1
  exact (good text List.mem_cons_self).some empty

theorem open_start (linelgh : Nat) : Open linelgh start [] :=
  .inr ⟨rfl, rfl, List.length_replicate⟩

/-- The messages for a text that is cut in this way. -/
def messagesOf (cuts : List (List Byte)) : List (Byte × List Byte) :=
  cuts.map (fun cut => (dataCode, cut.flatMap dTograve)) ++ [(eotCode, [])]

/-- A transfer sends the messages of its text, also the first of the process when it is empty. -/
theorem transfer_messages (isStart : s = start ∨ Ready linelgh s []) (least : 32 ≤ linelgh)
    (most : linelgh ≤ maxmesg) (succeeds : ∀ call, sndmsg call = 0) {pieces : List (List Byte)}
    (counts : ∀ piece ∈ pieces, piece ≠ []) :
    ∃ t results cuts, s.transfer sndmsg linelgh pieces = some (t, results) ∧ Ready linelgh t [] ∧
      t.sent = s.sent ++ messagesOf cuts ∧ cuts.flatten = pieces.flatten := by
  have six : headlngh = 6 := rfl
  rcases isStart with rfl | ready
  · by_cases none : pieces = []
    · rw [none]
      obtain ⟨t, done, ready, sent⟩ := start_transfer_nil least succeeds
      exact ⟨t, _, [[]], done, ready, sent, rfl⟩
    · have held := open_start linelgh
      obtain ⟨ready, same⟩ := held.startUp (by omega)
      obtain ⟨t, cuts, done, last, finishes, whole⟩ := ready.transfer least most succeeds counts
      rw [held.transfer_startUp (by omega) counts none]
      refine ⟨t, _, cuts, done, last, ?_, whole⟩
      rw [finishes.sent, same, List.append_assoc]
      rfl
  · obtain ⟨t, cuts, done, last, finishes, whole⟩ := ready.transfer least most succeeds counts
    exact ⟨t, _, cuts, done, last, finishes.sent.trans (List.append_assoc _ _ _), whole⟩

theorem transfers_messages (least : 32 ≤ linelgh) (most : linelgh ≤ maxmesg)
    (succeeds : ∀ call, sndmsg call = 0) {files : List (List (List Byte))}
    (counts : ∀ pieces ∈ files, ∀ piece ∈ pieces, piece ≠ [])
    (isStart : s = start ∨ Ready linelgh s []) :
    ∃ (t : Buffo) (cutss : List (List (List Byte))), s.transfers sndmsg linelgh files = some t ∧
      (files = [] ∧ t = s ∨ Ready linelgh t []) ∧
      t.sent = s.sent ++ cutss.flatMap messagesOf ∧
      cutss.map List.flatten = files.map List.flatten := by
  induction files generalizing s with
  | nil => exact ⟨s, [], rfl, .inl ⟨rfl, rfl⟩, (List.append_nil _).symm, rfl⟩
  | cons pieces others inductionHypothesis =>
    obtain ⟨t, results, cuts, done, ready, sent, whole⟩ := transfer_messages isStart least most
      succeeds (counts pieces List.mem_cons_self)
    obtain ⟨u, cutss, last, which, all, wholes⟩ := inductionHypothesis
      (fun other member => counts other (List.mem_cons_of_mem pieces member)) (.inr ready)
    refine ⟨u, cuts :: cutss, ?_, .inr ?_, ?_, ?_⟩
    · rw [transfers, done]
      exact last
    · rcases which with ⟨_, rfl⟩ | ready'
      · exact ready
      · exact ready'
    · rw [all, sent, List.flatMap_cons, List.append_assoc]
    · rw [List.map_cons, List.map_cons, whole, wholes]

theorem transfers_ready (least : 32 ≤ linelgh) (most : linelgh ≤ maxmesg)
    (succeeds : ∀ call, sndmsg call = 0) {earlier : List (List (List Byte))}
    (counts : ∀ pieces ∈ earlier, ∀ piece ∈ pieces, piece ≠ [])
    (isStart : s = start ∨ Ready linelgh s []) :
    ∃ t, s.transfers sndmsg linelgh earlier = some t ∧
      (earlier = [] ∧ t = s ∨ Ready linelgh t []) := by
  obtain ⟨t, _, done, which, -⟩ := transfers_messages least most succeeds counts isStart
  exact ⟨t, done, which⟩

theorem Finishes.transparent {t : Buffo} {cuts pieces : List (List Byte)}
    (finishes : Finishes linelgh s t cuts) (least : 32 ≤ linelgh)
    (whole : cuts.flatten = pieces.flatten)
    (seven : ∀ piece ∈ pieces, ∀ b ∈ piece, b < 0o200) :
    Transparent linelgh pieces s
      (Option.some (t, pieces.map (fun piece => (piece.length : Int)) ++ [0])) := by
  have six : headlngh = 6 := rfl
  refine ⟨t, cuts.map (·.flatMap dTograve), cuts, rfl, ?_, ?_, ?_, whole⟩
  · rw [finishes.sent, List.map_map]
    rfl
  · intro text member
    obtain ⟨cut, inside, rfl⟩ := List.mem_map.mp member
    have fits := finishes.fits cut inside
    refine {
      some := ?_
      fits := by omega
      plain := graveChar_flatMap cut
      whole := wholePairs_flatMap cut }
    obtain ⟨b, rest, rfl⟩ := List.exists_cons_of_ne_nil (finishes.some cut inside)
    have := length_dTograve b
    rw [List.flatMap_cons]
    refine List.ne_nil_of_length_pos ?_
    rw [List.length_append]
    omega
  · rw [List.map_map]
    refine List.map_congr_left fun cut inside => ?_
    show Option.some (dataCode, dFromgrave (cut.flatMap dTograve)) = _
    rw [dFromgrave_flatMap]
    have same : cut.map (· &&& 0o177) = cut.map id := List.map_congr_left fun b member => by
      have all : b ∈ pieces.flatten := by
        rw [← whole]
        exact List.mem_flatten_of_mem inside member
      obtain ⟨piece, isPiece, isByte⟩ := List.mem_flatten.mp all
      exact seven_bits (seven piece isPiece b isByte)
    rw [same, List.map_id]

/-- A transfer is transparent, unless it is the first of the process and has no bytes. -/
theorem transfer_transparent_iff (least : 32 ≤ linelgh) (most : linelgh ≤ 128)
    (succeeds : ∀ call, sndmsg call = 0) (earlier : List (List (List Byte)))
    (counts : ∀ pieces ∈ earlier, ∀ piece ∈ pieces, piece ≠ []) (pieces : List (List Byte))
    (count : ∀ piece ∈ pieces, piece ≠ []) (seven : ∀ piece ∈ pieces, ∀ b ∈ piece, b < 0o200) :
    ∃ s, start.transfers sndmsg linelgh earlier = some s ∧
      (Transparent linelgh pieces s (s.transfer sndmsg linelgh pieces) ↔
        earlier ≠ [] ∨ pieces ≠ []) := by
  have six : headlngh = 6 := rfl
  obtain ⟨s, done, which⟩ := transfers_ready (s := start) least most succeeds counts (.inl rfl)
  refine ⟨s, done, ?_⟩
  have transparent : Ready linelgh s [] →
      Transparent linelgh pieces s (s.transfer sndmsg linelgh pieces) := by
    intro ready
    obtain ⟨t, cuts, result, _, finishes, whole⟩ := ready.transfer least most succeeds count
    rw [result]
    exact finishes.transparent least whole seven
  rcases which with ⟨rfl, rfl⟩ | ready
  · by_cases none : pieces = []
    · rw [none]
      exact iff_of_false (start_not_transparent least succeeds) (fun either =>
        either.elim (fun differs => differs rfl) fun differs => differs rfl)
    · refine iff_of_true ?_ (.inr none)
      have held := open_start linelgh
      obtain ⟨ready, sent⟩ := held.startUp (by omega)
      rw [held.transfer_startUp (by omega) count none]
      obtain ⟨t, cuts, result, _, finishes, whole⟩ := ready.transfer least most succeeds count
      rw [result]
      have finishes : Finishes linelgh start t cuts :=
        { finishes with sent := by rw [finishes.sent, sent] }
      exact finishes.transparent least whole seven
  · refine iff_of_true (transparent ready) ?_
    by_cases none : earlier = []
    · rw [none] at done
      have same : start = s := Option.some.inj done
      rw [← same] at ready
      cases ready.loadpt
    · exact .inl none

/-- Three calls, of which the second leaves one place in the line for a pair. -/
theorem transfer_transparent_iff_pieces :
    ∃ s, start.transfers (fun _ => 0) 32 [] = some s ∧
      (Transparent 32 [[0x61], List.replicate 24 0x62, [0o12, 0o140, 0]] s
          (s.transfer (fun _ => 0) 32 [[0x61], List.replicate 24 0x62, [0o12, 0o140, 0]]) ↔
        ([] : List (List (List Byte))) ≠ [] ∨ [[0x61], List.replicate 24 0x62, [0o12, 0o140, (0 : Byte)]] ≠ []) :=
  transfer_transparent_iff (by decide) (by decide) (fun _ => rfl) [] (by decide) _ (by decide)
    (by decide)

theorem first_transfer_empty : ∃ s, start.transfers (fun _ => 0) 32 [] = some s ∧
    ¬ Transparent 32 [] s (s.transfer (fun _ => 0) 32 []) :=
  ⟨start, rfl, start_not_transparent (by decide) fun _ => rfl⟩

end Buffo

end NetworkUnix.Mmdf
