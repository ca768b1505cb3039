/-
This file follows the host-host commands of a message through the kernel to the
daemon. Both take a message apart by the same lengths, so that the parser of the
daemon finds again the commands that the kernel passed on: every command of a sound
message is handed to a socket, dropped, or handled by the daemon, once and in order.
-/

import NetworkUnix.Ncpk.HostHost
import NetworkUnix.Ncpd.Decode

namespace NetworkUnix.Ncpk.HostHost

open Kerbuf Commands

theorem hostHost_eq : hostHost = Ncpd.Decode.hostHost := by
  have sizes : ∀ op : BitVec 8, hostHost.size op = Ncpd.Decode.hostHost.size op := by decide +kernel
  have size := funext sizes
  cases first : hostHost
  cases second : Ncpd.Decode.hostHost
  rw [first, second] at size
  cases size
  rfl

/-- The commands of a message are shared out: the sockets are handed theirs, and from the message
for the daemon the parser calls the handlers for those that are passed, and sends an error for what
is left of the message. -/
def SharedOut (t : Contab) (host : BitVec 8) (body : List (BitVec 8))
    (result : Except Halt (Decoded × Ncp)) : Prop :=
  ∃ decoded last commands rest, result = .ok (decoded, last) ∧ Split hostHost body commands rest ∧
    decoded.handed = commands.filterMap (fun command => (wanted t host command).toHand command) ∧
    ∀ krBuf krBytes, Ncpd.Decode.bytesFrom krBuf 0 krBytes = decoded.passed →
      ∀ (State : Type) (hrProc : BitVec 8 → Nat → State → State)
        (qupPro : List (BitVec 8) → State → State) (d : State),
        (Ncpd.Decode.hrDcode hrProc qupPro krBuf krBytes d).1 =
          (Ncpd.Decode.outcome hrProc qupPro 0
            (commands.filter fun command => wanted t host command = .passed) rest d).1

theorem split_filter {body : List (BitVec 8)} {commands : List (List (BitVec 8))}
    {rest : List (BitVec 8)} (split : Split hostHost body commands rest)
    (kept : List (BitVec 8) → Bool) :
    Split Ncpd.Decode.hostHost ((commands.filter kept).flatten ++ rest) (commands.filter kept)
      rest := by
  rw [← hostHost_eq]
  exact ⟨rfl, fun command inside => split.whole command (List.mem_of_mem_filter inside),
    split.stuck⟩

/-- The commands of a sound message are shared out between the sockets and the daemon. -/
theorem commands_shared_out {netBSize : Nat} (size : 0 < netBSize) (bHyster : Nat)
    (getblk : Getblk) (t : Contab) (host : BitVec 8) (nrcv : List (BitVec 8)) (toncp : Nat → Bool)
    (hhproto : Vector (BitVec 8) 15) {ncp : Ncp} {free body queue : List Nat} {msgs : List Msg}
    {impiMsg : Nat}
    (ok : Ok ncp.pool free ((some impiMsg, body) :: (ncp.ncpirq, queue) :: msgs))
    (fits : Fits netBSize ncp.pool body) (solid : Solid ncp.pool body)
    (plain : Plain t host (content ncp.pool body)) (hosted : Hosted host (content ncp.pool body)) :
    hh1 netBSize bHyster getblk t host nrcv toncp (some impiMsg) hhproto ncp =
        .error (.stopped .asleep) ∨
      SharedOut t host (content ncp.pool body)
        (hh1 netBSize bHyster getblk t host nrcv toncp (some impiMsg) hhproto ncp) := by
  have okAll := ok.cons_nil.perm (List.Perm.swap _ _ _)
  have fitsNil : Fits netBSize ncp.pool [] := fun _ inside => absurd inside List.not_mem_nil
  have enough : (content ncp.pool body).length < mostBufs * netBSize + 1 := by
    refine Nat.lt_succ_of_le (Nat.le_trans (length_content_le fits) ?_)
    exact Nat.mul_le_mul_right _ ok.length_msg
  refine (filters_of_decodes size bHyster getblk t host nrcv toncp (loops_of_trips size bHyster
    getblk t host nrcv toncp _ hhproto.length_toList okAll fits fitsNil solid
      enough)).imp_right fun filters => ?_
  obtain ⟨decoded, last, isOk, ⟨commands, rest, tail, split, passed, handed, ending⟩, -⟩ :=
    filters.mpr ⟨plain, hosted⟩
  obtain rfl : tail = rest := by
    rcases ending with same | ⟨-, cut⟩
    · exact same
    · exact absurd cut (plain commands rest split).1
  refine ⟨decoded, last, commands, tail, isOk, split, handed, ?_⟩
  intro krBuf krBytes received State hrProc qupPro d
  have again := split_filter split fun command => wanted t host command = .passed
  rw [← passed, ← received] at again
  exact congrArg Prod.fst (Ncpd.Decode.run_eq ⟨0, krBytes, d⟩ _ _ again)

/-- An interrupt for a connection goes to its socket, and nothing to the daemon. -/
theorem commands_shared_out_interrupted :
    hh1 60 3 Getblk.above nine 5 [1, 2, 3, 4, 5] (fun _ => false) (some 0) (Vector.replicate 15 99)
        interrupted = .error (.stopped .asleep) ∨
      SharedOut nine 5 [7, 9, 0]
        (hh1 60 3 Getblk.above nine 5 [1, 2, 3, 4, 5] (fun _ => false) (some 0)
          (Vector.replicate 15 99) interrupted) := by
  have ok := pair_ok.fields pair.bLen pair.bEom interrupted.pool.bData fun _ _ => rfl
  have split : Split hostHost [7, 9, 0] [[7, 9], [0]] [] :=
    (split_nil.cons ⟨0, [], rfl, by decide⟩).cons ⟨7, [9], rfl, by decide⟩
  refine commands_shared_out (show 0 < 60 by decide) 3 Getblk.above nine 5 [1, 2, 3, 4, 5]
    (fun _ => false) (Vector.replicate 15 99)
    (show Ok interrupted.pool _ [(some 0, [0]), (some 1, [1])] from ok)
    (List.forall_mem_singleton.mpr (by decide))
    (List.forall_mem_singleton.mpr (by decide)) (fun commands rest other => ?_)
    fun _ _ _ zero => absurd zero (by decide)
  obtain ⟨rfl, rfl⟩ := split.unique other
  refine ⟨?_, fun command inside zero => absurd zero ?_⟩
  · rintro ⟨op, more, n, some, -⟩
    exact absurd some (List.cons_ne_nil op more).symm
  · revert command
    decide

end NetworkUnix.Ncpk.HostHost
