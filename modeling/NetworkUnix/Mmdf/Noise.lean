/-
This file proves what noise on the line does to `d_getmsg`. A line that is no well-formed message is
passed over, whatever the station is doing and wherever it comes in, unless it has more printable
characters than a line may have: then `d_getline` returns 0, as at the end of the input, and the
call ends. A line that `d_sndmsg` has built is accepted by the station that waits for it.
-/

import NetworkUnix.Mmdf.Lines

namespace NetworkUnix.Mmdf

variable {linelgh : Nat}

/-- A line is a message: it is neither too short nor too long, and its checksum is right. -/
def WellFormed (linelgh : Nat) (raw : List Byte) : Prop :=
  let kept := raw.filter printable
  headlngh ≤ kept.length ∧ kept.length ≤ linelgh ∧ (kept.take 4).all dIshex = true ∧
    checksum (kept.drop 4) = dAtoh (kept.take 4)

/-- A line that one read returns, with its newline, and that is no message. -/
def Noise (linelgh : Nat) (raw : List Byte) : Prop :=
  raw.length < 256 ∧ ¬ WellFormed linelgh raw

/-- Lines of noise, of a certain kind, are inserted between the lines that arrive. -/
inductive Inserted (linelgh : Nat) (kind : List Byte → Prop) :
    List (List Byte) → List (List Byte) → Prop
  | none : Inserted linelgh kind [] []
  | line {lines noisy : List (List Byte)} (raw : List Byte) :
      Inserted linelgh kind lines noisy → Inserted linelgh kind (raw :: lines) (raw :: noisy)
  | noise {lines noisy : List (List Byte)} {raw : List Byte} :
      kind raw → Noise linelgh raw → Inserted linelgh kind lines noisy →
      Inserted linelgh kind lines (raw :: noisy)

namespace Station

/-- `d_getmsg` with the lines that arrive: it reads until it returns. -/
def getmsg (s : Station linelgh) : List (List Byte) → Station linelgh × List Byte
  | [] => (s, [])
  | raw :: rest =>
    if s.phase = .idle then (s, [])
    else ((getmsg (s.hear raw).1 rest).1, (s.hear raw).2 ++ (getmsg (s.hear raw).1 rest).2)

/-- The station waits for a message with this code and number. -/
def Expects (s : Station linelgh) (code : Byte) (seqno : Nat) : Prop :=
  if code = ackCode then s.ackonly = true ∧ s.transeq = seqno
  else s.phase = .getting ∧ s.rcvseq = seqno

end Station

/-- Every line that `d_sndmsg` builds, with the interrupt flag or without it, is heard as it was
sent, and the station that waits for it accepts it. -/
def Brings (linelgh : Nat) : Prop :=
  ∀ seqno code text, seqno < 16 → (code :: text).all printable = true →
    text.length + headlngh ≤ linelgh →
    ∃ raw, rawLines (lineOf seqno code text) = [raw] ∧
      heard linelgh raw = .message (seqno % 8) (decide (seqno / 8 % 2 = 1)) code text ∧
      ∀ s : Station linelgh, s.Expects code (seqno % 8) → (s.hear raw).1.phase = .idle

theorem heard_noise {raw : List Byte} (noise : ¬ WellFormed linelgh raw)
    (short : (raw.filter printable).length ≤ linelgh) : heard linelgh raw = .ignored := by
  unfold heard
  dsimp only
  rw [if_neg (by omega)]
  split
  · rename_i a b c d seq code text kept
    refine if_neg fun good => noise ?_
    unfold WellFormed
    rw [kept] at short ⊢
    exact ⟨Nat.le_add_left _ _, short, good.1, good.2⟩
  · rfl

theorem comesBack_idle (s : Station linelgh) (got : Got) : (s.comesBack got).phase = .idle := by
  unfold Station.comesBack
  split <;> first | assumption | rfl

theorem hear_expected {s : Station linelgh} {raw text : List Byte} {code : Byte} {seqno : Nat}
    {intrflag : Bool} (expects : s.Expects code seqno)
    (brought : heard linelgh raw = .message seqno intrflag code text) :
    (s.hear raw).1.phase = .idle := by
  unfold Station.Expects at expects
  unfold Station.hear
  rw [brought]
  dsimp only
  split at expects
  · rename_i isAck
    rw [if_pos isAck, if_pos ⟨expects.2.symm, expects.1⟩]
    exact comesBack_idle _ _
  · rename_i notAck
    have waits : ¬ s.ackonly = true := by
      unfold Station.ackonly
      rw [expects.1]
      exact Bool.false_ne_true
    rw [if_neg notAck, if_pos expects.2.symm, if_neg waits]
    exact comesBack_idle _ _

theorem brings (linelgh : Nat) : Brings linelgh := by
  intro seqno code text hex plain fits
  have same : cstring text = text := by
    rw [List.all_cons, Bool.and_eq_true] at plain
    exact cstring_plain plain.2
  have whole : (code :: cstring text).all printable = true := by rw [same]; exact plain
  have brought : heard linelgh _ = _ := heard_bare hex whole (by rw [same]; exact fits)
  rw [same] at brought
  exact ⟨_, rawLines_lineOf seqno whole, brought, fun s expects => hear_expected expects brought⟩

theorem getmsg_idle {s : Station linelgh} (idle : s.phase = .idle) (lines : List (List Byte)) :
    s.getmsg lines = (s, []) := by
  cases lines with
  | nil => rfl
  | cons raw rest => exact if_pos idle

theorem getmsg_noise {kind : List Byte → Prop} {lines noisy : List (List Byte)}
    (short : ∀ raw, kind raw → Noise linelgh raw → (raw.filter printable).length ≤ linelgh)
    (inserted : Inserted linelgh kind lines noisy) (s : Station linelgh) :
    s.getmsg noisy = s.getmsg lines := by
  induction inserted generalizing s with
  | none => rfl
  | line raw _ inductionHypothesis =>
    unfold Station.getmsg
    rw [inductionHypothesis]
  | @noise _ noisy raw isKind noise _ inductionHypothesis =>
    by_cases idle : s.phase = .idle
    · rw [getmsg_idle idle, getmsg_idle idle]
    · have passed : s.hear raw = (s, []) := by
        unfold Station.hear
        rw [heard_noise noise.2 (short raw isKind noise)]
      rw [Station.getmsg, if_neg idle, passed]
      exact inductionHypothesis s

theorem getmsg_long {raw : List Byte} (long : linelgh < (raw.filter printable).length)
    (s : Station linelgh) : (s.getmsg [raw]).1.phase = .idle := by
  have eof : heard linelgh raw = .eof := if_pos long
  by_cases idle : s.phase = .idle
  · rw [getmsg_idle idle]
    exact idle
  · rw [Station.getmsg, if_neg idle]
    unfold Station.hear
    rw [eof]
    exact comesBack_idle _ _

/-- Noise is ignored when it is short enough. Lines of a certain kind that are no messages change
nothing, wherever and in whatever state they are inserted, if and only if none of them has more
printable characters than a line may have; and every line that `d_sndmsg` builds is accepted by the
station that expects it. -/
theorem noise_ignored_iff (linelgh : Nat) (kind : List Byte → Prop) :
    ((∀ (s : Station linelgh) (lines noisy : List (List Byte)),
        Inserted linelgh kind lines noisy → s.getmsg noisy = s.getmsg lines) ∧ Brings linelgh) ↔
      ∀ raw, kind raw → Noise linelgh raw → (raw.filter printable).length ≤ linelgh := by
  constructor
  · intro claimed raw isKind noise
    by_contra long
    have same := claimed.1 { Station.start with phase := .getting } [] [raw]
      (.noise isKind noise .none)
    have ended := getmsg_long (Nat.lt_of_not_le long)
      ({ Station.start with phase := .getting } : Station linelgh)
    rw [same] at ended
    cases ended
  · intro short
    exact ⟨fun s _ _ inserted => getmsg_noise short inserted s, brings linelgh⟩

/-- Between two lines of at most 64 characters comes one of 65 blanks. -/
theorem noise_heard :
    ¬ ∀ (s : Station 64) (lines noisy : List (List Byte)),
      Inserted 64 (fun _ => True) lines noisy → s.getmsg noisy = s.getmsg lines := by
  intro claimed
  have same := claimed { Station.start with phase := .getting } [] [List.replicate 65 0x20]
    (.noise trivial ⟨by decide +kernel, fun good => absurd good.2.1 (by decide +kernel)⟩ .none)
  have ended : ({ Station.start with phase := .getting } : Station 64).phase = .idle := by
    rw [show ({ Station.start with phase := .getting } : Station 64) = _ from
      (congrArg Prod.fst same).symm]
    decide +kernel
  cases ended

end NetworkUnix.Mmdf
