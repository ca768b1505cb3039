/-
This file proves that the groups of socket numbers follow the files. A bit of the
socket number map is clear exactly when a file in use has the group, and no two
files that were assigned a group have the same one. An open that takes a group and
fails afterwards gives it back, except for a direct init, which is checked and made
after its group has been taken.
-/

import NetworkUnix.Ncpd.Runs

namespace NetworkUnix.Ncpd

open Function

/-! ### Groups and bases -/

theorem mask_bits : ∀ i : Fin 16, (~~~7 : BitVec 16).getLsbD i = decide (3 ≤ i.val) := by decide

theorem masked_toNat (x : BitVec 16) : (x &&& (~~~7 : BitVec 16)).toNat = x.toNat / 8 * 8 := by
  have shifts : x &&& (~~~7 : BitVec 16) = (x >>> 3) <<< 3 := by
    apply BitVec.eq_of_getLsbD_eq
    intro i small
    rw [BitVec.getLsbD_and, BitVec.getLsbD_shiftLeft, mask_bits ⟨i, small⟩]
    by_cases low : i < 3
    · simp [low, Nat.not_le.mpr low]
    · have back : 3 + (i - 3) = i := by omega
      rw [BitVec.getLsbD_ushiftRight, back]
      simp [low, small, Nat.not_lt.mp low]
  have small := x.isLt
  rw [shifts, BitVec.toNat_shiftLeft, BitVec.toNat_ushiftRight, Nat.shiftRight_eq_div_pow,
    Nat.shiftLeft_eq]
  omega

theorem aligned_toNat {sbase : BitVec 16} (aligned : Aligned sbase) :
    sbase.toNat % 8 = 0 ∨ sbase = 0xffff := by
  rcases aligned with masked | isCode
  · left
    have low : (sbase &&& 7).toNat = sbase.toNat % 8 := by
      rw [BitVec.toNat_and]
      exact Nat.and_two_pow_sub_one_eq_mod sbase.toNat 3
    rw [← low, masked]
    rfl
  · exact Or.inr isCode

theorem groupOf_some {sbase : BitVec 16} {n : Nat} (group : groupOf sbase = some n) :
    Daemon.sktBase ≤ sbase.toNat ∧ sbase.toNat < Daemon.sktBase + 8 * Daemon.sktMpsz ∧
      n = (sbase.toNat - Daemon.sktBase) / 8 ∧ n < Daemon.sktMpsz := by
  unfold groupOf at group
  split at group
  next within =>
    have isN := Option.some.inj group
    unfold Daemon.sktBase Daemon.sktMpsz at *
    omega
  next => cases group

theorem groupOf_code : groupOf 0xffff = none := by decide

theorem group_base {x y : BitVec 16} {n : Nat} (alignedX : Aligned x) (alignedY : Aligned y)
    (groupX : groupOf x = some n) (groupY : groupOf y = some n) : x = y := by
  have inX := groupOf_some groupX
  have inY := groupOf_some groupY
  unfold Daemon.sktBase Daemon.sktMpsz at inX inY
  rcases aligned_toNat alignedX with evenX | rfl
  · rcases aligned_toNat alignedY with evenY | rfl
    · apply BitVec.eq_of_toNat_eq
      omega
    · cases groupOf_code.symm.trans groupY
  · cases groupOf_code.symm.trans groupX

theorem shared_group {base l : BitVec 16} (aligned : Aligned base) (small : l.toNat ≤ 7) :
    groupOf ((base + l) &&& ~~~7) = groupOf base := by
  rcases aligned_toNat aligned with even | rfl
  · have same : (base + l) &&& ~~~7 = base := by
      apply BitVec.eq_of_toNat_eq
      rw [masked_toNat, BitVec.toNat_add]
      have bound := base.isLt
      omega
    rw [same]
  · rw [groupOf_code]
    refine if_neg fun within => ?_
    rw [masked_toNat, BitVec.toNat_add] at within
    have isCode : (0xffff : BitVec 16).toNat = 65535 := rfl
    rw [isCode] at within
    unfold Daemon.sktBase Daemon.sktMpsz at within
    omega

/-! ### The groups of the files -/

/-- A file in use has a group. -/
def Board.Has (b : Board) (f : FileNo) (n : Nat) : Prop :=
  (b.entries f).state ≠ .null ∧ groupOf (b.entries f).sbase = some n

/-- The map and the files agree about the groups; of the files that are marked no two have the same
group. -/
structure Board.Grouped (marked : FileNo → Prop) (b : Board) : Prop where
  taken : ∀ n, n < Daemon.sktMpsz → (b.map n = false ↔ ∃ f, b.Has f n)
  aligned : ∀ f, (b.entries f).state ≠ .null → Aligned (b.entries f).sbase
  apart : ∀ f h n, marked f → marked h → f ≠ h → b.Has f n → ¬ b.Has h n

/-- No group is lost, and no file that is marked shares one. -/
def Guards.grouped (marked : FileNo → Prop) : Guards :=
  { Guards.all with
    group := fun b map => map = b.map, share := fun f => ¬ marked f, still := fun _ => rfl }

theorem Guards.grouped_lax (marked : FileNo → Prop) : (Guards.grouped marked).Lax :=
  ⟨fun _ _ => trivial, fun _ => trivial⟩

section Moves

variable {b : Board} {marked : FileNo → Prop}

theorem Board.Grouped.same {next : Board} (grouped : b.Grouped marked) (map : next.map = b.map)
    (used : ∀ f, (next.entries f).state ≠ .null ↔ (b.entries f).state ≠ .null)
    (sbase : ∀ f, (b.entries f).state ≠ .null → (next.entries f).sbase = (b.entries f).sbase) :
    next.Grouped marked := by
  have has : ∀ f n, next.Has f n ↔ b.Has f n := by
    intro f n
    constructor
    · rintro ⟨usedN, group⟩
      have usedB := (used f).mp usedN
      exact ⟨usedB, sbase f usedB ▸ group⟩
    · rintro ⟨usedB, group⟩
      exact ⟨(used f).mpr usedB, (sbase f usedB).symm ▸ group⟩
  refine ⟨fun n small => ?_, fun f usedN => ?_, fun f h n markedF markedH apart hasF hasH => ?_⟩
  · rw [map, grouped.taken n small]
    exact exists_congr fun f => (has f n).symm
  · have usedB := (used f).mp usedN
    rw [sbase f usedB]
    exact grouped.aligned f usedB
  · exact grouped.apart f h n markedF markedH apart ((has f n).mp hasF) ((has h n).mp hasH)

variable {f : FileNo} {map : Nat → Bool} {last : Int} {sbase : BitVec 16}

theorem grouped_setEntry {e : Entry} (grouped : b.Grouped marked)
    (used : e.state ≠ .null ↔ (b.entries f).state ≠ .null)
    (sbase : (b.entries f).state ≠ .null → e.sbase = (b.entries f).sbase) :
    (b.setEntry f e).Grouped marked := by
  refine grouped.same rfl (fun h => ?_) fun h usedH => ?_
  · by_cases here : h = f
    · subst here
      rw [setEntry_self]
      exact used
    · rw [setEntry_other here]
  · by_cases here : h = f
    · subst here
      rw [setEntry_self]
      exact sbase usedH
    · rw [setEntry_other here]

theorem has_other {h : FileNo} {n : Nat} {e : Entry} (apart : h ≠ f) :
    (b.setEntry f e).Has h n ↔ b.Has h n := by
  unfold Board.Has
  rw [setEntry_other apart]

theorem has_null {h : FileNo} {n : Nat} (free : (b.entries f).state = .null) (has : b.Has h n) :
    h ≠ f := fun same => has.1 (same ▸ free)

theorem grouped_release (grouped : b.Grouped marked) (used : (b.entries f).state ≠ .null)
    (released : b.Released f map) :
    (b.release f map).Grouped marked := by
  have gone : ∀ n, ¬ (b.release f map).Has f n := by
    rintro n ⟨usedF, -⟩
    refine usedF ?_
    show ((b.setEntry f { b.entries f with state := .null }).entries f).state = .null
    rw [setEntry_self]
  have other : ∀ {h n}, h ≠ f → ((b.release f map).Has h n ↔ b.Has h n) := fun apart =>
    has_other (b := b) apart
  have mapOf : (b.release f map).map = if b.lasktn < 0 then fun _ => true else map := rfl
  refine ⟨fun n small => ?_, fun h usedH => ?_, fun h k n markedH markedK apart hasH hasK => ?_⟩
  · have others : (∃ h, (b.release f map).Has h n) ↔ ∃ h, h ≠ f ∧ b.Has h n := by
      constructor
      · rintro ⟨h, has⟩
        have apart : h ≠ f := fun same => gone n (same ▸ has)
        exact ⟨h, apart, (other apart).mp has⟩
      · rintro ⟨h, apart, has⟩
        exact ⟨h, (other apart).mpr has⟩
    have before := grouped.taken n small
    rw [others]
    have keeps (isMap : map = b.sktMap) (still : ∀ n, b.Has f n → ∃ h, h ≠ f ∧ b.Has h n) :
        (b.release f map).map n = false ↔ ∃ h, h ≠ f ∧ b.Has h n := by
      rw [mapOf, isMap]
      refine before.trans ⟨?_, fun ⟨h, _, has⟩ => ⟨h, has⟩⟩
      rintro ⟨h, has⟩
      by_cases here : h = f
      · exact still n (here ▸ has)
      · exact ⟨h, here, has⟩
    rcases released with ⟨isMap, h, apart, usedH, sbase⟩ | ⟨isMap, none⟩ | ⟨m, group, isMap, alone⟩
    · exact keeps isMap fun n has => ⟨h, apart, usedH, sbase.symm ▸ has.2⟩
    · exact keeps isMap fun n has => absurd (none.symm.trans has.2) (Option.some_ne_none n).symm
    · have single : ∀ h, h ≠ f → ¬ b.Has h m := fun h apart has =>
        alone h apart has.1 (group_base (grouped.aligned h has.1) (grouped.aligned f used) has.2 group)
      have inBounds := (groupOf_some group).2.2.2
      have clear : b.map m = false := (grouped.taken m inBounds).mpr ⟨f, used, group⟩
      have started : ¬ b.lasktn < 0 := by
        intro unset
        rw [Board.map, if_pos unset] at clear
        cases clear
      rw [Board.map, if_neg started] at before
      rw [mapOf, if_neg started, isMap]
      by_cases here : n = m
      · subst here
        rw [update_self]
        exact ⟨fun absurdly => Bool.noConfusion absurdly, fun ⟨h, apart, has⟩ =>
          absurd has (single h apart)⟩
      · rw [update_of_ne here, before]
        refine ⟨?_, fun ⟨h, _, has⟩ => ⟨h, has⟩⟩
        rintro ⟨h, has⟩
        refine ⟨h, fun same => here ?_, has⟩
        rw [same] at has
        exact Option.some.inj (has.2.symm.trans group)
  · have apart : h ≠ f := by
      rintro rfl
      refine usedH ?_
      show ((b.setEntry h { b.entries h with state := .null }).entries h).state = .null
      rw [setEntry_self]
    have entry : (b.release f map).entries h = b.entries h := setEntry_other apart _
    rw [entry] at usedH ⊢
    exact grouped.aligned h usedH
  · have apartH : h ≠ f := fun same => gone n (same ▸ hasH)
    have apartK : k ≠ f := fun same => gone n (same ▸ hasK)
    exact grouped.apart h k n markedH markedK apart ((other apartH).mp hasH) ((other apartK).mp hasK)

theorem assigned_base {share : Prop} (grouped : b.Grouped marked)
    (assigned : Assigned share b sbase map last) :
    Aligned sbase ∧ ∀ n, groupOf sbase = some n →
      (share ∧ ∃ h, b.Has h n) ∨ ∀ h, ¬ b.Has h n := by
  cases assigned with
  | own none aligned map last same =>
    exact ⟨aligned, fun n group => absurd (none.symm.trans group) (Option.some_ne_none n).symm⟩
  | shared ok h used l small base =>
    rw [base]
    refine ⟨aligned_masked _, fun n group => Or.inl ⟨ok, h, used, ?_⟩⟩
    rw [← shared_group (grouped.aligned h used) small]
    exact group
  | new n bound free base =>
    obtain ⟨-, -, even, -, -, group⟩ := baseOf_blocks ⟨n, bound⟩
    have isBase : sbase = baseOf n := base
    rw [isBase]
    refine ⟨?_, fun m isM => Or.inr fun h has => ?_⟩
    · rw [← even]
      exact aligned_masked _
    · have isN : n = m := Option.some.inj (group.symm.trans isM)
      subst isN
      have clear : b.map n = false := (grouped.taken n bound).mpr ⟨h, has⟩
      exact Bool.noConfusion (free.symm.trans clear)

theorem assigned_map {share : Prop} (grouped : b.Grouped marked)
    (assigned : Assigned share b sbase map last) (n : Nat) (small : n < Daemon.sktMpsz) :
    (if last < 0 then fun _ => true else map) n = false ↔
      groupOf sbase = some n ∨ ∃ h, b.Has h n := by
  have before := grouped.taken n small
  cases assigned with
  | own none aligned map last same =>
    have isMap : (if last < 0 then fun _ => true else map) = b.map := by
      rcases same with ⟨rfl, rfl⟩ | ⟨rfl, started⟩
      · rfl
      · exact if_neg (Int.not_lt.mpr started)
    rw [isMap, before, none]
    exact ⟨Or.inr, fun either => either.resolve_left (Option.some_ne_none n).symm⟩
  | shared ok h used l few base =>
    have isMap : (if b.lasktn < 0 then fun _ => true else b.sktMap) = b.map := rfl
    rw [isMap, before, base, shared_group (grouped.aligned h used) few]
    refine ⟨Or.inr, ?_⟩
    rintro (group | has)
    · exact ⟨h, used, group⟩
    · exact has
  | new m bound free base =>
    obtain ⟨-, -, -, -, -, group⟩ := baseOf_blocks ⟨m, bound⟩
    have isBase : sbase = baseOf m := base
    have started : ¬ ((m : Int) + 1 < 0) := by omega
    rw [if_neg started, isBase, group]
    by_cases here : n = m
    · subst here
      rw [update_self]
      exact ⟨fun _ => Or.inl rfl, fun _ => rfl⟩
    · rw [update_of_ne here, before]
      refine ⟨Or.inr, fun either => either.resolve_left fun same => here ?_⟩
      exact (Option.some.inj same).symm

theorem grouped_make {st : FileState} {n nsLeft nfLeft : Int} (grouped : b.Grouped marked)
    (free : (b.entries f).state = .null) (used : st ≠ .null)
    (assigned : Assigned (¬ marked f) b sbase map last) :
    ({ b.setEntry f ⟨st, sbase, fun _ => none, 0, n⟩ with
      nsLeft := nsLeft, nfLeft := nfLeft, sktMap := map, lasktn := last } : Board).Grouped marked := by
  generalize isNext : ({ b.setEntry f ⟨st, sbase, fun _ => none, 0, n⟩ with
    nsLeft := nsLeft, nfLeft := nfLeft, sktMap := map, lasktn := last } : Board) = next
  have self : next.entries f = ⟨st, sbase, fun _ => none, 0, n⟩ := by
    rw [← isNext]
    exact setEntry_self f _
  have other : ∀ h, h ≠ f → next.entries h = b.entries h := by
    intro h apart
    rw [← isNext]
    exact setEntry_other apart _
  have hasF : ∀ m, next.Has f m ↔ groupOf sbase = some m := by
    intro m
    unfold Board.Has
    rw [self]
    exact ⟨fun has => has.2, fun group => ⟨used, group⟩⟩
  have hasH : ∀ h m, h ≠ f → (next.Has h m ↔ b.Has h m) := by
    intro h m apart
    unfold Board.Has
    rw [other h apart]
  have mapOf : next.map = if last < 0 then fun _ => true else map := by
    rw [← isNext]
    rfl
  obtain ⟨aligned, origin⟩ := assigned_base grouped assigned
  have alone : ∀ h m, marked f → h ≠ f → next.Has f m → ¬ next.Has h m := by
    intro h m isMarked apart has hasOther
    rcases origin m ((hasF m).mp has) with ⟨notMarked, -⟩ | none
    · exact notMarked isMarked
    · exact none h ((hasH h m apart).mp hasOther)
  refine ⟨fun m small => ?_, fun h usedH => ?_, fun h k m markedH markedK apart hasHm hasKm => ?_⟩
  · rw [mapOf, assigned_map grouped assigned m small]
    constructor
    · rintro (group | ⟨h, has⟩)
      · exact ⟨f, (hasF m).mpr group⟩
      · exact ⟨h, (hasH h m (has_null free has)).mpr has⟩
    · rintro ⟨h, has⟩
      by_cases here : h = f
      · subst here
        exact Or.inl ((hasF m).mp has)
      · exact Or.inr ⟨h, (hasH h m here).mp has⟩
  · by_cases here : h = f
    · subst here
      rw [self]
      exact aligned
    · rw [other h here] at usedH ⊢
      exact grouped.aligned h usedH
  · by_cases hereH : h = f
    · subst hereH
      exact alone k m markedH (Ne.symm apart) hasHm hasKm
    · by_cases hereK : k = f
      · subst hereK
        exact alone h m markedK hereH hasKm hasHm
      · exact grouped.apart h k m markedH markedK apart ((hasH h m hereH).mp hasHm)
          ((hasH k m hereK).mp hasKm)

theorem Proceeds.before {old st : FileState} (proceeds : Proceeds old st) : old ≠ .null := by
  cases proceeds <;> decide

theorem move_grouped {next : Board} (ok : b.Ok) (grouped : b.Grouped marked)
    (move : Move (Guards.grouped marked) b next) : next.Grouped marked := by
  have kept {f : FileNo} {e : Entry} (used : (b.entries f).state ≠ .null) (still : e.state ≠ .null)
      (sbase : e.sbase = (b.entries f).sbase) : (b.setEntry f e).Grouped marked :=
    grouped_setEntry grouped ⟨fun _ => used, fun _ => still⟩ fun _ => sbase
  have set {next : Board} (grouped : next.Grouped marked) {later : Board}
      (entries : later.entries = next.entries) (map : later.map = next.map) :
      later.Grouped marked :=
    grouped.same map (fun f => by rw [entries]) fun f _ => by rw [entries]
  cases move with
  | adopt i r f asks =>
    exact set (kept (e := (b.entries f).attach r.sinx i) asks.used asks.used rfl) rfl rfl
  | create i r f asks =>
    exact set (kept (e := (b.entries f).attach r.sinx i) asks.used asks.used rfl) rfl rfl
  | giveBack i f ms ncp ends filep =>
    have used := (ok.owned i f ends.used filep).1
    exact set (kept (e := (b.entries f).giveBack (b.cells i).sinx) used (Daemon.gone_null used) rfl) rfl rfl
  | release f map used empty released => exact grouped_release grouped used released
  | proceed f st proceeds =>
    exact kept proceeds.before proceeds.used rfl
  | make f st n sbase map last free used unopened room left even assigned =>
    exact grouped_make grouped free used assigned
  | idle f e free still =>
    exact grouped_setEntry grouped ⟨fun used => absurd still used, fun used => absurd free used⟩
      fun used => absurd free used
  | group map last started permitted =>
    have isMap : map = b.map := permitted
    refine set grouped rfl ?_
    show (if last < 0 then fun _ => true else map) = b.map
    rw [if_neg (Int.not_lt.mpr started), isMap]
  | _ => exact set grouped rfl rfl

end Moves

end NetworkUnix.Ncpd
