/-
This file proves that the tables of raw messages are sound in every run of opens,
closes and clean-ups: no message is claimed twice, every entry in use belongs to
a socket of one open raw file, which has no other entry, and the entry for all
other messages is known exactly while it is in use. An open that fails leaves
everything that is in use as it was.
-/

import NetworkUnix.Lib.Run
import NetworkUnix.Ncpkernel.Rawtable

namespace NetworkUnix.Ncpkernel

open Function

/-- An entry claims a message number of a host; host 0 stands for all hosts. -/
def RawEntry.claims (entry : RawEntry) (host : Host) (msg : Int) : Prop :=
  (entry.host = 0 ∨ entry.host = host) ∧ entry.lomsg ≤ msg ∧ msg ≤ entry.himsg

/-- The entry for all messages that no other claims. -/
def RawEntry.isElse (entry : RawEntry) : Prop :=
  entry.host = 0 ∧ entry.lomsg = elsemsg ∧ entry.himsg = elsemsg

theorem RawEntry.claims_meets {one other : RawEntry} {host : Host} {msg : Int}
    (first : one.claims host msg) (second : other.claims host msg) :
    one.meets other.host other.lomsg other.himsg = true := by
  obtain ⟨host₁, low₁, high₁⟩ := first
  obtain ⟨host₂, low₂, high₂⟩ := second
  simp only [RawEntry.meets, Bool.and_eq_true, Bool.or_eq_true, decide_eq_true_eq]
  refine ⟨⟨?_, by omega⟩, by omega⟩
  rcases host₁ with zero | same
  · exact .inl (.inr zero)
  · rcases host₂ with zero | same'
    · exact .inr zero
    · exact .inl (.inl (same.trans same'.symm))

theorem RawEntry.meets_comm (one other : RawEntry) :
    one.meets other.host other.lomsg other.himsg = other.meets one.host one.lomsg one.himsg := by
  rw [Bool.eq_iff_iff]
  simp only [RawEntry.meets, Bool.and_eq_true, Bool.or_eq_true, decide_eq_true_eq]
  constructor <;> rintro ⟨⟨hosts, low⟩, high⟩ <;> refine ⟨⟨?_, high⟩, low⟩ <;>
    rcases hosts with (same | zero) | zero <;> simp_all

/-! ### The searches -/

variable {tab : RawTab}

theorem RawTab.owned_some {riptr : Option Nat} {rp : Fin rawtsize}
    (found : tab.owned riptr = some rp) : (tab rp).rawskt = riptr := by
  have := List.find?_some found
  simpa using this

theorem RawTab.owned_none {riptr : Option Nat} (absent : tab.owned riptr = none)
    (rp : Fin rawtsize) : (tab rp).rawskt ≠ riptr := by
  have := List.find?_eq_none.mp absent rp (List.mem_finRange rp)
  simpa using this

theorem RawTab.claimed_none {host : Host} {lo hi : Int}
    (absent : (tab.claimed host lo hi).getD .absent = .absent) (rp : Fin rawtsize)
    (used : (tab rp).rawskt ≠ none) : (tab rp).meets host lo hi = false := by
  have none : tab.claimed host lo hi = none := by
    cases found : tab.claimed host lo hi with
    | none => rfl
    | some result =>
      obtain ⟨other, -, isResult⟩ := List.exists_of_findSome?_eq_some found
      rw [found, Option.getD_some] at absent
      subst absent
      split_ifs at isResult <;> cases isResult
  have here := List.findSome?_eq_none_iff.mp none rp (List.mem_finRange rp)
  rw [if_neg used] at here
  split_ifs at here with same meets
  simpa using meets

/-! ### What a release does -/

namespace Rmi

variable {s : Rmi} {fp : Nat}

/-- A socket of a file has at most one entry. -/
def Single (s : Rmi) (fp : Nat) : Prop :=
  ∀ mode rp rp' ip, (s.file fp).netnode mode = some ip → (s.tab mode rp).rawskt = some ip →
    (s.tab mode rp').rawskt = some ip → rp = rp'

/-- An entry is that of an end of a file. -/
def Ours (s : Rmi) (fp : Nat) (mode : Bool) (rp : Fin rawtsize) : Prop :=
  ∃ ip, (s.file fp).netnode mode = some ip ∧ (s.tab mode rp).rawskt = some ip

/-- What the release of some ends of a file leaves. -/
structure Released (s : Rmi) (fp : Nat) (which : Bool → Prop) (after : Rmi) : Prop where
  lomsg : after.lomsg = s.lomsg
  state : after.ncpopnstate = s.ncpopnstate
  ours : ∀ mode rp, which mode → s.Ours fp mode rp →
    after.tab mode rp = { s.tab mode rp with rawskt := none }
  others : ∀ mode rp, ¬ (which mode ∧ s.Ours fp mode rp) → after.tab mode rp = s.tab mode rp
  elseentry : ∀ rp, after.elseentry = some rp ↔
    s.elseentry = some rp ∧ ¬ (which false ∧ s.Ours fp false rp)
  file : ∀ other, other ≠ fp → after.file other = s.file other
  count : (after.file fp).count = (s.file fp).count
  raw : (after.file fp).raw = (s.file fp).raw
  gone : ∀ mode, which mode → (after.file fp).netnode mode = none
  kept : ∀ mode, ¬ which mode → (after.file fp).netnode mode = (s.file fp).netnode mode
  cleared : ∀ ip, (∃ mode, which mode ∧ (s.file fp).netnode mode = some ip) →
    after.inode ip = .cleared
  inode : ∀ ip, ¬ (∃ mode, which mode ∧ (s.file fp).netnode mode = some ip) →
    after.inode ip = s.inode ip

/-- The entry of a socket is removed. -/
structure Dropped (s : Rmi) (mode : Bool) (ip : Nat) (after : Rmi) : Prop where
  lomsg : after.lomsg = s.lomsg
  state : after.ncpopnstate = s.ncpopnstate
  file : after.file = s.file
  inode : after.inode = s.inode
  ours : ∀ rp, (s.tab mode rp).rawskt = some ip →
    after.tab mode rp = { s.tab mode rp with rawskt := none }
  others : ∀ other rp, ¬ (other = mode ∧ (s.tab other rp).rawskt = some ip) →
    after.tab other rp = s.tab other rp
  elseentry : ∀ rp, after.elseentry = some rp ↔
    s.elseentry = some rp ∧ ¬ (mode = false ∧ (s.tab false rp).rawskt = some ip)

theorem setEntry_tab (s : Rmi) (mode : Bool) (rp : Fin rawtsize) (entry : RawEntry) (other : Bool)
    (rp' : Fin rawtsize) : (s.setEntry mode rp entry).tab other rp' =
      if other = mode ∧ rp' = rp then entry else s.tab other rp' := by
  unfold setEntry
  dsimp only
  by_cases isMode : other = mode
  · subst isMode
    rw [update_self, update_apply]
    simp
  · rw [update_of_ne isMode, if_neg (by simp [isMode])]

theorem rmrawtab_kept (mode : Bool) (rp : Fin rawtsize) (s : Rmi) :
    (s.rmrawtab mode rp).lomsg = s.lomsg ∧ (s.rmrawtab mode rp).ncpopnstate = s.ncpopnstate ∧
      (s.rmrawtab mode rp).file = s.file ∧ (s.rmrawtab mode rp).inode = s.inode := by
  unfold rmrawtab
  by_cases isElse : mode = false ∧ s.elseentry = some rp
  · rw [if_pos isElse]
    exact ⟨rfl, rfl, rfl, rfl⟩
  · rw [if_neg isElse]
    exact ⟨rfl, rfl, rfl, rfl⟩

theorem rmrawtab_tab (mode : Bool) (rp : Fin rawtsize) (s : Rmi) (other : Bool)
    (rp' : Fin rawtsize) : (s.rmrawtab mode rp).tab other rp' =
      if other = mode ∧ rp' = rp then { s.tab mode rp with rawskt := none } else s.tab other rp' := by
  unfold rmrawtab
  by_cases isElse : mode = false ∧ s.elseentry = some rp
  · rw [if_pos isElse, setEntry_tab]
  · rw [if_neg isElse, setEntry_tab]

theorem rmrawtab_elseentry (mode : Bool) (rp : Fin rawtsize) (s : Rmi) :
    (s.rmrawtab mode rp).elseentry =
      if mode = false ∧ s.elseentry = some rp then none else s.elseentry := by
  unfold rmrawtab
  by_cases isElse : mode = false ∧ s.elseentry = some rp
  · rw [if_pos isElse, if_pos isElse]
    rfl
  · rw [if_neg isElse, if_neg isElse]
    rfl

variable {ip : Nat} {mode : Bool} {after : Rmi}

theorem dropped
    (single : ∀ rp rp', (s.tab mode rp).rawskt = some ip → (s.tab mode rp').rawskt = some ip →
      rp = rp') :
    Dropped s mode ip (s.rmSkt mode ip) := by
  unfold rmSkt
  have search : getrawtab s.lomsg (s.tab mode) 0 0 0 (.skt ip) =
      (((s.tab mode).owned (some ip)).map Found.entry).getD .absent := rfl
  rw [search]
  cases found : (s.tab mode).owned (some ip) with
  | none =>
    have notOurs := RawTab.owned_none found
    refine ⟨rfl, rfl, rfl, rfl, fun rp ours => absurd ours (notOurs rp), fun _ _ _ => rfl, ?_⟩
    intro rp
    refine ⟨fun isElse => ⟨isElse, ?_⟩, And.left⟩
    rintro ⟨rfl, ours⟩
    exact notOurs rp ours
  | some rp =>
    have here := RawTab.owned_some found
    have only : ∀ other, (s.tab mode other).rawskt = some ip ↔ other = rp := by
      intro other
      constructor
      · intro ours
        exact single other rp ours here
      · rintro rfl
        exact here
    obtain ⟨lomsg, state, file, inode⟩ := rmrawtab_kept mode rp s
    refine ⟨lomsg, state, file, inode, fun rp' ours => ?_, fun other rp' notOurs => ?_,
      fun rp' => ?_⟩
    · obtain rfl := (only rp').mp ours
      exact (rmrawtab_tab mode rp' s mode rp').trans (if_pos ⟨rfl, rfl⟩)
    · refine (rmrawtab_tab mode rp s other rp').trans (if_neg ?_)
      rintro ⟨rfl, rfl⟩
      exact notOurs ⟨rfl, here⟩
    · show (s.rmrawtab mode rp).elseentry = some rp' ↔ _
      rw [rmrawtab_elseentry]
      cases mode with
      | true => simp
      | false =>
        rw [only rp']
        by_cases isElse : s.elseentry = some rp
        · simp only [isElse, and_self, if_true, Option.some.injEq, true_and]
          constructor
          · intro impossible
            cases impossible
          · rintro ⟨rfl, other⟩
            exact absurd rfl other
        · simp only [isElse, and_false, if_false, true_and]
          constructor
          · intro isRp
            refine ⟨isRp, ?_⟩
            rintro rfl
            exact isElse isRp
          · exact And.left

theorem relEnd_released (single : s.Single fp) (mode : Bool) :
    Released s fp (· = mode) (s.relEnd fp mode) := by
  unfold relEnd
  cases node : (s.file fp).netnode mode with
  | none =>
    have notOurs : ∀ rp, ¬ s.Ours fp mode rp := by
      rintro rp ⟨ip, isNode, -⟩
      rw [node] at isNode
      cases isNode
    refine ⟨rfl, rfl, ?_, fun _ _ _ => rfl, ?_, fun _ _ => rfl, rfl, rfl, ?_, fun _ _ => rfl, ?_,
      fun _ _ => rfl⟩
    · rintro _ rp rfl ours
      exact absurd ours (notOurs rp)
    · intro rp
      refine ⟨fun isElse => ⟨isElse, ?_⟩, And.left⟩
      rintro ⟨rfl, ours⟩
      exact notOurs rp ours
    · rintro _ rfl
      exact node
    · rintro ip ⟨_, rfl, isNode⟩
      rw [node] at isNode
      cases isNode
  | some ip =>
    have ours_iff : ∀ rp, s.Ours fp mode rp ↔ (s.tab mode rp).rawskt = some ip := by
      intro rp
      unfold Ours
      rw [node]
      simp
    have drop := dropped fun rp rp' => single mode rp rp' ip node
    dsimp only
    revert drop
    generalize s.rmSkt mode ip = base
    intro drop
    have isNode : ∀ other, (∃ m, m = mode ∧ (s.file fp).netnode m = some other) ↔ ip = other := by
      intro other
      simp [node]
    refine ⟨drop.lomsg, drop.state, ?_, ?_, ?_, ?_, ?_, ?_, ?_, ?_, ?_, ?_⟩
    · rintro _ rp rfl ours
      exact drop.ours rp ((ours_iff rp).mp ours)
    · intro other rp notOurs
      refine drop.others other rp ?_
      rintro ⟨rfl, ours⟩
      exact notOurs ⟨rfl, (ours_iff rp).mpr ours⟩
    · intro rp
      refine (drop.elseentry rp).trans (and_congr_right fun _ => not_congr ?_)
      constructor
      · rintro ⟨rfl, ours⟩
        exact ⟨rfl, (ours_iff rp).mpr ours⟩
      · rintro ⟨rfl, ours⟩
        exact ⟨rfl, (ours_iff rp).mp ours⟩
    · intro other apart
      show Function.update base.file fp _ other = _
      rw [update_of_ne apart, drop.file]
    · show (Function.update base.file fp _ fp : NetFile).count = _
      rw [update_self, drop.file]
    · show (Function.update base.file fp _ fp : NetFile).raw = _
      rw [update_self, drop.file]
    · rintro end_ rfl
      show (Function.update base.file fp _ fp : NetFile).netnode end_ = _
      rw [update_self]
      exact update_self _ _ _
    · intro other apart
      show (Function.update base.file fp _ fp : NetFile).netnode other = _
      rw [update_self, drop.file]
      exact update_of_ne apart _ _
    · intro other isIp
      obtain rfl := (isNode other).mp isIp
      exact update_self _ _ _
    · intro other notIp
      show Function.update base.inode ip _ other = _
      rw [update_of_ne fun same => notIp ((isNode other).mpr same.symm), drop.inode]

theorem rawrel_released (single : s.Single fp) :
    Released s fp (fun _ => True) (s.rawrel fp) := by
  have first := relEnd_released single false
  have still : (s.relEnd fp false).Single fp := by
    intro mode rp rp' ip node isOurs isOurs'
    cases mode with
    | false =>
      rw [first.gone false rfl] at node
      cases node
    | true =>
      rw [first.kept true Bool.noConfusion] at node
      rw [first.others true rp fun both => Bool.noConfusion both.1] at isOurs
      rw [first.others true rp' fun both => Bool.noConfusion both.1] at isOurs'
      exact single true rp rp' ip node isOurs isOurs'
  have second := relEnd_released still true
  have sameOurs : ∀ rp, (s.relEnd fp false).Ours fp true rp ↔ s.Ours fp true rp := by
    intro rp
    unfold Ours
    rw [first.kept true Bool.noConfusion,
      first.others true rp fun both => Bool.noConfusion both.1]
  refine ⟨second.lomsg.trans first.lomsg, second.state.trans first.state, ?_, ?_, ?_, ?_,
    second.count.trans first.count, second.raw.trans first.raw, ?_,
    fun mode no => absurd trivial no, ?_, ?_⟩
  · intro mode rp _ ours
    cases mode with
    | false =>
      exact (second.others false rp fun both => Bool.noConfusion both.1).trans
        (first.ours false rp rfl ours)
    | true =>
      refine (second.ours true rp rfl ((sameOurs rp).mpr ours)).trans ?_
      rw [first.others true rp fun both => Bool.noConfusion both.1]
  · intro mode rp notOurs
    cases mode with
    | false =>
      exact (second.others false rp fun both => Bool.noConfusion both.1).trans
        (first.others false rp fun both => notOurs ⟨trivial, both.2⟩)
    | true =>
      refine (second.others true rp fun both => notOurs ⟨trivial, (sameOurs rp).mp both.2⟩).trans ?_
      exact first.others true rp fun both => Bool.noConfusion both.1
  · intro rp
    rw [show s.rawrel fp = (s.relEnd fp false).relEnd fp true from rfl, second.elseentry,
      first.elseentry]
    simp
  · intro other apart
    exact (second.file other apart).trans (first.file other apart)
  · intro mode _
    cases mode with
    | false => exact (second.kept false Bool.noConfusion).trans (first.gone false rfl)
    | true => exact second.gone true rfl
  · rintro ip ⟨mode, -, node⟩
    by_cases again : (s.file fp).netnode true = some ip
    · refine second.cleared ip ⟨true, rfl, ?_⟩
      exact (first.kept true Bool.noConfusion).trans again
    · have isFalse : mode = false := by
        cases mode with
        | false => rfl
        | true => exact absurd node again
      subst isFalse
      refine (second.inode ip ?_).trans (first.cleared ip ⟨false, rfl, node⟩)
      rintro ⟨_, rfl, isNode⟩
      exact again ((first.kept true Bool.noConfusion).symm.trans isNode)
  · intro ip notNode
    refine (second.inode ip ?_).trans (first.inode ip ?_)
    · rintro ⟨_, rfl, isNode⟩
      exact notNode ⟨true, trivial, (first.kept true Bool.noConfusion).symm.trans isNode⟩
    · rintro ⟨_, rfl, isNode⟩
      exact notNode ⟨false, trivial, isNode⟩

/-! ### Sound tables -/

/-- The entry is in use. -/
def Used (s : Rmi) (mode : Bool) (rp : Fin rawtsize) : Prop := (s.tab mode rp).rawskt ≠ none

/-- What holds of the tables: an entry in use names a socket of a raw file; a socket of a raw file
is open and has one entry; two ends do not share a socket; entries in use do not overlap; and
elseentry is the entry for all other messages, if that is in use. -/
structure Sound (s : Rmi) : Prop where
  count : ∀ fp, (s.file fp).raw = true → (s.file fp).count ≠ 0
  named : ∀ mode rp ip, (s.tab mode rp).rawskt = some ip →
    ∃ fp, (s.file fp).raw = true ∧ (s.file fp).netnode mode = some ip
  entered : ∀ fp mode ip, (s.file fp).raw = true → (s.file fp).netnode mode = some ip →
    (s.inode ip).count ≠ 0 ∧ (s.inode ip).skt.isOpen = true ∧
      ∃ rp, (s.tab mode rp).rawskt = some ip
  once : ∀ mode rp rp' ip, (s.tab mode rp).rawskt = some ip → (s.tab mode rp').rawskt = some ip →
    rp = rp'
  owner : ∀ fp fp' mode mode' ip, (s.file fp).raw = true → (s.file fp').raw = true →
    (s.file fp).netnode mode = some ip → (s.file fp').netnode mode' = some ip →
      fp = fp' ∧ mode = mode'
  apart : ∀ mode rp rp', rp ≠ rp' → s.Used mode rp → s.Used mode rp' →
    (s.tab mode rp).meets (s.tab mode rp').host (s.tab mode rp').lomsg (s.tab mode rp').himsg =
      false
  elseentry : ∀ rp, s.elseentry = some rp ↔ s.Used false rp ∧ (s.tab false rp).isElse

theorem Sound.single (sound : s.Sound) (fp : Nat) : s.Single fp :=
  fun mode rp rp' ip _ ours ours' => sound.once mode rp rp' ip ours ours'

theorem Sound.rawrel (sound : s.Sound) (raw : (s.file fp).raw = true) : (s.rawrel fp).Sound := by
  have released := rawrel_released (sound.single fp)
  have fileOf : ∀ other, ((s.rawrel fp).file other).raw = (s.file other).raw ∧
      ((s.rawrel fp).file other).count = (s.file other).count := by
    intro other
    by_cases same : other = fp
    · subst same
      exact ⟨released.raw, released.count⟩
    · rw [released.file other same]
      exact ⟨rfl, rfl⟩
  have nodeOf : ∀ other mode ip, ((s.rawrel fp).file other).netnode mode = some ip →
      other ≠ fp ∧ (s.file other).netnode mode = some ip := by
    intro other mode ip node
    by_cases same : other = fp
    · subst same
      rw [released.gone mode trivial] at node
      cases node
    · rw [released.file other same] at node
      exact ⟨same, node⟩
  have entryOf : ∀ mode rp ip, ((s.rawrel fp).tab mode rp).rawskt = some ip →
      ¬ s.Ours fp mode rp ∧ (s.rawrel fp).tab mode rp = s.tab mode rp := by
    intro mode rp ip isIp
    have notOurs : ¬ s.Ours fp mode rp := by
      intro ours
      rw [released.ours mode rp trivial ours] at isIp
      cases isIp
    exact ⟨notOurs, released.others mode rp fun both => notOurs both.2⟩
  refine ⟨fun other isRaw => ?_, fun mode rp ip isIp => ?_, fun other mode ip isRaw node => ?_,
    fun mode rp rp' ip isIp isIp' => ?_, fun other other' mode mode' ip isRaw isRaw' node node' => ?_,
    fun mode rp rp' differ used used' => ?_, fun rp => ?_⟩
  · rw [(fileOf other).2]
    exact sound.count other ((fileOf other).1 ▸ isRaw)
  · obtain ⟨notOurs, same⟩ := entryOf mode rp ip isIp
    rw [same] at isIp
    obtain ⟨other, isRaw, node⟩ := sound.named mode rp ip isIp
    have apart : other ≠ fp := by
      rintro rfl
      exact notOurs ⟨ip, node, isIp⟩
    refine ⟨other, (fileOf other).1 ▸ isRaw, ?_⟩
    rw [released.file other apart]
    exact node
  · obtain ⟨apart, before⟩ := nodeOf other mode ip node
    have wasRaw : (s.file other).raw = true := (fileOf other).1 ▸ isRaw
    obtain ⟨count, isOpen, rp, isIp⟩ := sound.entered other mode ip wasRaw before
    have notNode : ¬ ∃ end_, True ∧ (s.file fp).netnode end_ = some ip := by
      rintro ⟨end_, -, isEnd⟩
      exact apart (sound.owner other fp mode end_ ip wasRaw raw before isEnd).1
    have notOurs : ¬ s.Ours fp mode rp := by
      rintro ⟨ip', isEnd, isIp'⟩
      rw [isIp] at isIp'
      cases isIp'
      exact notNode ⟨mode, trivial, isEnd⟩
    rw [released.inode ip notNode]
    refine ⟨count, isOpen, rp, ?_⟩
    rw [released.others mode rp fun both => notOurs both.2]
    exact isIp
  · rw [(entryOf mode rp ip isIp).2] at isIp
    rw [(entryOf mode rp' ip isIp').2] at isIp'
    exact sound.once mode rp rp' ip isIp isIp'
  · exact sound.owner other other' mode mode' ip ((fileOf other).1 ▸ isRaw)
      ((fileOf other').1 ▸ isRaw') (nodeOf other mode ip node).2 (nodeOf other' mode' ip node').2
  · obtain ⟨ip, isIp⟩ := Option.ne_none_iff_exists'.mp used
    obtain ⟨ip', isIp'⟩ := Option.ne_none_iff_exists'.mp used'
    unfold Used at used used'
    rw [(entryOf mode rp ip isIp).2] at used ⊢
    rw [(entryOf mode rp' ip' isIp').2] at used' ⊢
    exact sound.apart mode rp rp' differ used used'
  · rw [released.elseentry, sound.elseentry]
    unfold Used
    by_cases ours : s.Ours fp false rp
    · rw [released.ours false rp trivial ours]
      simp [ours]
    · rw [released.others false rp fun both => ours both.2]
      simp [ours]

theorem Sound.freeFile (sound : s.Sound) (empty : ∀ mode, (s.file fp).netnode mode = none) :
    (s.freeFile fp).Sound := by
  have fileOf : ∀ other, ((s.freeFile fp).file other).raw = true →
      (s.file other).raw = true ∧ ((s.freeFile fp).file other) = s.file other := by
    intro other isRaw
    change (Function.update s.file fp _ other : NetFile).raw = true at isRaw
    by_cases same : other = fp
    · subst same
      rw [update_self] at isRaw
      cases isRaw
    · rw [update_of_ne same] at isRaw
      exact ⟨isRaw, update_of_ne same _ _⟩
  refine ⟨fun other isRaw => ?_, fun mode rp ip isIp => ?_, fun other mode ip isRaw node => ?_,
    sound.once, fun other other' mode mode' ip isRaw isRaw' node node' => ?_, sound.apart,
    sound.elseentry⟩
  · obtain ⟨wasRaw, same⟩ := fileOf other isRaw
    rw [same]
    exact sound.count other wasRaw
  · obtain ⟨other, isRaw, node⟩ := sound.named mode rp ip isIp
    have apart : other ≠ fp := by
      rintro rfl
      rw [empty mode] at node
      cases node
    refine ⟨other, ?_, ?_⟩ <;>
      rw [show (s.freeFile fp).file other = s.file other from update_of_ne apart _ _]
    · exact isRaw
    · exact node
  · obtain ⟨wasRaw, same⟩ := fileOf other isRaw
    rw [same] at node
    exact sound.entered other mode ip wasRaw node
  · obtain ⟨wasRaw, same⟩ := fileOf other isRaw
    obtain ⟨wasRaw', same'⟩ := fileOf other' isRaw'
    rw [same] at node
    rw [same'] at node'
    exact sound.owner other other' mode mode' ip wasRaw wasRaw' node node'

/-! ### One end is opened -/

/-- A new socket is an end of a file, and has no entry yet. -/
def loose (fp : Nat) (mode : Bool) (ip : Nat) (s : Rmi) : Rmi :=
  (s.setInode ip ⟨2, true, 0, [], 0⟩).attach fp mode ip

theorem loose_file (fp : Nat) (mode : Bool) (ip : Nat) (s : Rmi) (other : Nat) :
    (s.loose fp mode ip).file other =
      if other = fp then
        { s.file fp with netnode := Function.update (s.file fp).netnode mode (some ip) }
      else s.file other := by
  show Function.update s.file fp _ other = _
  rw [update_apply]
  rfl

theorem loose_node (fp : Nat) (mode : Bool) (ip : Nat) (s : Rmi) :
    ((s.loose fp mode ip).file fp).netnode mode = some ip := by
  rw [loose_file, if_pos rfl]
  exact update_self _ _ _

theorem loose_inode (fp : Nat) (mode : Bool) (ip : Nat) (s : Rmi) (other : Nat) :
    (s.loose fp mode ip).inode other =
      if other = ip then ⟨2, true, 0, [], 0⟩ else s.inode other := by
  show Function.update s.inode ip _ other = _
  rw [update_apply]

theorem enter_kept (mode : Bool) (rp : Fin rawtsize) (entry : RawEntry) (s : Rmi) :
    (s.enter mode rp entry).file = s.file ∧ (s.enter mode rp entry).inode = s.inode := by
  unfold enter
  dsimp only
  split <;> exact ⟨rfl, rfl⟩

theorem enter_tab (mode : Bool) (rp : Fin rawtsize) (entry : RawEntry) (s : Rmi) (other : Bool)
    (rp' : Fin rawtsize) : (s.enter mode rp entry).tab other rp' =
      if other = mode ∧ rp' = rp then entry else s.tab other rp' := by
  unfold enter
  dsimp only
  split <;> exact setEntry_tab s mode rp entry other rp'

theorem enter_elseentry (mode : Bool) (rp : Fin rawtsize) (entry : RawEntry) (s : Rmi) :
    mode = false ∧ entry.isElse ∧ (s.enter mode rp entry).elseentry = some rp ∨
      ¬ (mode = false ∧ entry.isElse) ∧ (s.enter mode rp entry).elseentry = s.elseentry := by
  unfold enter RawEntry.isElse
  dsimp only
  split
  next isElse =>
    obtain ⟨isRead, host, same, low⟩ := isElse
    exact .inl ⟨isRead, ⟨host, low, same ▸ low⟩, rfl⟩
  next notElse =>
    refine .inr ⟨?_, rfl⟩
    rintro ⟨isRead, host, low, high⟩
    exact notElse ⟨isRead, host, low.trans high.symm, low⟩

/-- An end of a file that is to be opened: there is no inode, or the range is refused, or the entry
is made in a place that was free. -/
inductive End (asked : RawOpen) (fp : Nat) (mode : Bool) (s : Rmi) : Bool × Rmi → Prop
  | noInode : End asked fp mode s (false, s)
  | refused (ip : Nat) (free : (s.inode ip).count = 0) :
      End asked fp mode s (false, s.loose fp mode ip)
  | entered (ip : Nat) (free : (s.inode ip).count = 0) (rp : Fin rawtsize)
      (unused : (s.tab mode rp).rawskt = none)
      (apart : ∀ rp', s.Used mode rp' →
        (s.tab mode rp').meets asked.longHost asked.lomsg asked.high = false) :
      End asked fp mode s (true,
        (s.loose fp mode ip).enter mode rp ⟨asked.longHost, asked.lomsg, asked.high, some ip⟩)

theorem openEnd_end {asked : RawOpen} (wanted : asked.ends mode = true) :
    End asked fp mode s (s.openEnd asked fp mode) := by
  unfold openEnd rawinode
  rw [if_pos wanted]
  cases found : (List.range ninode).find? fun ip => decide ((s.inode ip).count = 0) with
  | none => exact .noInode
  | some ip =>
    have free : (s.inode ip).count = 0 := by
      have := List.find?_some found
      simpa using this
    have isLoose : (s.setInode ip ⟨2, true, 0, [], 0⟩).attach fp mode ip = s.loose fp mode ip := rfl
    dsimp only
    rw [isLoose]
    split
    · exact .refused ip free
    next notClaimed =>
      have absent : getrawtab (s.loose fp mode ip).lomsg ((s.loose fp mode ip).tab mode)
          asked.longHost asked.lomsg asked.high .none = .absent := by simpa using notClaimed
      unfold putrawtab
      rw [if_pos absent]
      have search : getrawtab (s.loose fp mode ip).lomsg ((s.loose fp mode ip).tab mode) 0 0 0
          .unused = (((s.tab mode).owned none).map Found.entry).getD .absent := rfl
      rw [search]
      cases unused : (s.tab mode).owned none with
      | none => exact .refused ip free
      | some rp =>
        refine .entered ip free rp (RawTab.owned_some unused) fun rp' used => ?_
        unfold getrawtab at absent
        dsimp only at absent
        split at absent
        · cases absent
        · exact RawTab.claimed_none absent rp' used

/-! ### What is in use is as it was -/

/-- The entries, files and inodes that are in use are as they were, and no others are in use. -/
structure Same (s after : Rmi) : Prop where
  entries : ∀ mode rp, (after.tab mode rp).rawskt = (s.tab mode rp).rawskt
  kept : ∀ mode rp, s.Used mode rp → after.tab mode rp = s.tab mode rp
  elseentry : after.elseentry = s.elseentry
  files : ∀ fp, (after.file fp).count = (s.file fp).count
  raw : ∀ fp, (after.file fp).raw = true → (s.file fp).raw = true
  file : ∀ fp, (s.file fp).count ≠ 0 → after.file fp = s.file fp
  sockets : ∀ ip, (after.inode ip).count = (s.inode ip).count
  inode : ∀ ip, (s.inode ip).count ≠ 0 → after.inode ip = s.inode ip

/-- What an open has added to a state before it is finished. -/
structure Extra (s after : Rmi) (fp : Nat) : Prop where
  tab : ∀ mode rp, after.tab mode rp = s.tab mode rp ∨
    (s.tab mode rp).rawskt = none ∧ after.Ours fp mode rp
  elseentry : after.elseentry = s.elseentry ∨
    s.elseentry = none ∧ ∃ rp, after.elseentry = some rp ∧ after.Ours fp false rp
  file : ∀ other, other ≠ fp → after.file other = s.file other
  nodes : ∀ mode ip, (after.file fp).netnode mode = some ip →
    (s.inode ip).count = 0 ∧ (after.inode ip).count ≠ 0
  inode : ∀ ip, (∀ mode, (after.file fp).netnode mode ≠ some ip) → after.inode ip = s.inode ip
  single : after.Single fp

theorem Sound.unnamed (sound : s.Sound) (free : (s.inode ip).count = 0) (mode : Bool)
    (rp : Fin rawtsize) : (s.tab mode rp).rawskt ≠ some ip := by
  intro isIp
  obtain ⟨fp, isRaw, node⟩ := sound.named mode rp ip isIp
  exact (sound.entered fp mode ip isRaw node).1 free

theorem Extra.unnamed (extra : Extra s after fp) (sound : s.Sound)
    (free : (after.inode ip).count = 0) (mode : Bool) (rp : Fin rawtsize) :
    (after.tab mode rp).rawskt ≠ some ip := by
  have notNode : ∀ end_, (after.file fp).netnode end_ ≠ some ip := fun end_ node =>
    (extra.nodes end_ ip node).2 free
  have wasFree : (s.inode ip).count = 0 := by rw [← extra.inode ip notNode, free]
  rcases extra.tab mode rp with same | ⟨-, ip', node, isIp'⟩
  · rw [same]
    exact sound.unnamed wasFree mode rp
  · rw [isIp']
    rintro ⟨⟩
    exact notNode mode node

theorem extra_start (s : Rmi) (fp : Nat) :
    Extra s (s.setFile fp ⟨2, true, fun _ => none⟩) fp := by
  have node : ∀ end_, ((s.setFile fp ⟨2, true, fun _ => none⟩).file fp).netnode end_ = none := by
    intro end_
    show (Function.update s.file fp _ fp : NetFile).netnode end_ = none
    rw [update_self]
  refine ⟨fun _ _ => .inl rfl, .inl rfl, fun other apart => update_of_ne apart _ _,
    fun end_ ip isIp => ?_, fun _ _ => rfl, fun end_ rp rp' ip isIp => ?_⟩
  · rw [node end_] at isIp
    cases isIp
  · rw [node end_] at isIp
    cases isIp

theorem isElse_meets {one other : RawEntry} (first : one.isElse) (second : other.isElse) :
    one.meets other.host other.lomsg other.himsg = true :=
  RawEntry.claims_meets (show one.claims 0 elsemsg from
      ⟨.inl first.1, first.2.1.le, first.2.2.ge⟩)
    ⟨.inl second.1, second.2.1.le, second.2.2.ge⟩

theorem Extra.enter {rp : Fin rawtsize} {host : Host} {lo hi : Int} (extra : Extra s after fp)
    (sound : s.Sound) (unused : (after.tab mode rp).rawskt = none)
    (apart : ∀ rp', after.Used mode rp' → (after.tab mode rp').meets host lo hi = false)
    (node : (after.file fp).netnode mode = some ip)
    (unnamed : ∀ rp', (after.tab mode rp').rawskt ≠ some ip) :
    Extra s (after.enter mode rp ⟨host, lo, hi, some ip⟩) fp := by
  obtain ⟨file, inode⟩ := enter_kept mode rp ⟨host, lo, hi, some ip⟩ after
  have tab := enter_tab mode rp ⟨host, lo, hi, some ip⟩ after
  have wasUnused : (s.tab mode rp).rawskt = none := by
    rcases extra.tab mode rp with same | ⟨none, -⟩
    · rw [← same]
      exact unused
    · exact none
  have newOurs : (after.enter mode rp ⟨host, lo, hi, some ip⟩).Ours fp mode rp := by
    refine ⟨ip, by rw [file]; exact node, ?_⟩
    rw [tab, if_pos ⟨rfl, rfl⟩]
  have stillOurs : ∀ end_ rp', after.Ours fp end_ rp' →
      (after.enter mode rp ⟨host, lo, hi, some ip⟩).Ours fp end_ rp' := by
    rintro end_ rp' ⟨ip', isNode, isIp'⟩
    refine ⟨ip', by rw [file]; exact isNode, ?_⟩
    rw [tab, if_neg ?_]
    · exact isIp'
    · rintro ⟨rfl, rfl⟩
      rw [unused] at isIp'
      cases isIp'
  refine ⟨fun end_ rp' => ?_, ?_, fun other differ => ?_, fun end_ ip' isNode => ?_,
    fun ip' notNode => ?_, fun end_ one other ip' isNode isIp isIp' => ?_⟩
  · by_cases here : end_ = mode ∧ rp' = rp
    · obtain ⟨rfl, rfl⟩ := here
      exact .inr ⟨wasUnused, newOurs⟩
    · rw [tab, if_neg here]
      exact (extra.tab end_ rp').imp id (And.imp id (stillOurs end_ rp'))
  · rcases enter_elseentry mode rp ⟨host, lo, hi, some ip⟩ after with
      ⟨rfl, isElse, now⟩ | ⟨-, same⟩
    · refine .inr ⟨?_, rp, now, newOurs⟩
      cases before : s.elseentry with
      | none => rfl
      | some other =>
        obtain ⟨used, wasElse⟩ := (sound.elseentry other).mp before
        have still : after.tab false other = s.tab false other := by
          rcases extra.tab false other with same | ⟨none, -⟩
          · exact same
          · exact absurd none used
        have refused := apart other (by unfold Used; rw [still]; exact used)
        rw [still, show (s.tab false other).meets host lo hi = true from
          isElse_meets wasElse isElse] at refused
        cases refused
    · rw [same]
      exact extra.elseentry.imp id (And.imp id fun ⟨other, isElse, ours⟩ =>
        ⟨other, isElse, stillOurs false other ours⟩)
  · rw [file]
    exact extra.file other differ
  · rw [file] at isNode
    rw [inode]
    exact extra.nodes end_ ip' isNode
  · rw [file] at notNode
    rw [inode]
    exact extra.inode ip' notNode
  · rw [file] at isNode
    rw [tab] at isIp isIp'
    split at isIp <;> split at isIp'
    next first second => rw [first.2, second.2]
    next first second =>
      obtain ⟨rfl, rfl⟩ := first
      cases isIp
      exact absurd isIp' (unnamed other)
    next first second =>
      obtain ⟨rfl, rfl⟩ := second
      cases isIp'
      exact absurd isIp (unnamed one)
    next => exact extra.single end_ one other ip' isNode isIp isIp'

theorem Extra.openEnd (asked : RawOpen) (sound : s.Sound) (extra : Extra s after fp)
    (unset : (after.file fp).netnode mode = none) :
    Extra s (after.openEnd asked fp mode).2 fp := by
  by_cases wanted : asked.ends mode = true
  · have attached : ∀ ip, (after.inode ip).count = 0 → Extra s (after.loose fp mode ip) fp := by
      intro ip free
      have notNode : ∀ end_, (after.file fp).netnode end_ ≠ some ip := fun end_ node =>
        (extra.nodes end_ ip node).2 free
      have unnamed := extra.unnamed sound free
      have nodeOf : ∀ end_, ((after.loose fp mode ip).file fp).netnode end_ =
          if end_ = mode then some ip else (after.file fp).netnode end_ := by
        intro end_
        rw [loose_file, if_pos rfl]
        exact update_apply _ _ _ _
      have stillOurs : ∀ end_ rp, after.Ours fp end_ rp → (after.loose fp mode ip).Ours fp end_ rp := by
        rintro end_ rp ⟨ip', node, isIp'⟩
        refine ⟨ip', ?_, isIp'⟩
        rw [nodeOf, if_neg ?_]
        · exact node
        · rintro rfl
          rw [unset] at node
          cases node
      refine ⟨fun end_ rp => (extra.tab end_ rp).imp id (And.imp id (stillOurs end_ rp)),
        extra.elseentry.imp id (And.imp id fun ⟨rp, isElse, ours⟩ => ⟨rp, isElse, stillOurs _ rp ours⟩),
        fun other apart => ?_, fun end_ ip' node => ?_, fun ip' notIp => ?_, ?_⟩
      · rw [loose_file, if_neg apart]
        exact extra.file other apart
      · rw [nodeOf] at node
        rw [loose_inode]
        split at node
        · cases node
          exact ⟨by rw [← extra.inode ip notNode, free], by simp⟩
        · have apart : ip' ≠ ip := by
            rintro rfl
            exact notNode end_ node
          rw [if_neg apart]
          exact extra.nodes end_ ip' node
      · have apart : ip' ≠ ip := by
          rintro rfl
          exact notIp mode (by rw [nodeOf, if_pos rfl])
        rw [loose_inode, if_neg apart]
        refine extra.inode ip' fun end_ node => notIp end_ ?_
        rw [nodeOf, if_neg ?_]
        · exact node
        · rintro rfl
          rw [unset] at node
          cases node
      · intro end_ rp rp' ip' node isIp isIp'
        rw [nodeOf] at node
        split at node
        · cases node
          exact absurd isIp (unnamed end_ rp)
        · exact extra.single end_ rp rp' ip' node isIp isIp'
    have ended : End asked fp mode after (after.openEnd asked fp mode) := openEnd_end wanted
    generalize after.openEnd asked fp mode = result at ended ⊢
    cases ended with
    | noInode => exact extra
    | refused ip free => exact attached ip free
    | entered ip free rp unused apart =>
      have loosened := attached ip free
      exact loosened.enter sound unused apart (loose_node fp mode ip after)
        fun rp' => extra.unnamed sound free mode rp'
  · have kept : after.openEnd asked fp mode = (true, after) := by
      unfold Rmi.openEnd
      rw [if_neg wanted]
    rw [kept]
    exact extra

theorem Extra.undone (extra : Extra s after fp) (sound : s.Sound) (free : (s.file fp).count = 0) :
    Same s ((after.rawrel fp).freeFile fp) := by
  have released := rawrel_released extra.single
  have ours : ∀ mode rp, after.Ours fp mode rp → (s.tab mode rp).rawskt = none := by
    rintro mode rp ⟨ip, node, isIp⟩
    rcases extra.tab mode rp with same | ⟨none, -⟩
    · rw [same] at isIp
      exact absurd isIp (sound.unnamed (extra.nodes mode ip node).1 mode rp)
    · exact none
  have others : ∀ mode rp, ¬ after.Ours fp mode rp →
      (after.rawrel fp).tab mode rp = s.tab mode rp := by
    intro mode rp notOurs
    rw [released.others mode rp fun both => notOurs both.2]
    exact (extra.tab mode rp).resolve_right fun both => notOurs both.2
  have noNode : ∀ ip, (s.inode ip).count ≠ 0 →
      ∀ mode, (after.file fp).netnode mode ≠ some ip :=
    fun ip used mode node => used (extra.nodes mode ip node).1
  refine ⟨fun mode rp => ?_, fun mode rp used => ?_, ?_, fun other => ?_, fun other isRaw => ?_,
    fun other used => ?_, fun ip => ?_, fun ip used => ?_⟩
  · show ((after.rawrel fp).tab mode rp).rawskt = _
    by_cases isOurs : after.Ours fp mode rp
    · rw [released.ours mode rp trivial isOurs, ours mode rp isOurs]
    · rw [others mode rp isOurs]
  · exact others mode rp fun isOurs => used (ours mode rp isOurs)
  · show (after.rawrel fp).elseentry = s.elseentry
    refine Option.ext fun rp => ?_
    rw [released.elseentry]
    rcases extra.elseentry with same | ⟨none, other, isElse, isOurs⟩
    · rw [same]
      refine ⟨And.left, fun isElse => ⟨isElse, ?_⟩⟩
      rintro ⟨-, isOurs⟩
      exact ((sound.elseentry rp).mp isElse).1 (ours false rp isOurs)
    · rw [none]
      constructor
      · rintro ⟨isRp, notOurs⟩
        rw [isElse] at isRp
        cases isRp
        exact absurd ⟨trivial, isOurs⟩ notOurs
      · intro impossible
        cases impossible
  · show (Function.update (after.rawrel fp).file fp _ other : NetFile).count = _
    by_cases same : other = fp
    · subst same
      rw [update_self, free]
    · rw [update_of_ne same, released.file other same, extra.file other same]
  · change (Function.update (after.rawrel fp).file fp _ other : NetFile).raw = true at isRaw
    by_cases same : other = fp
    · subst same
      rw [update_self] at isRaw
      cases isRaw
    · rw [update_of_ne same, released.file other same, extra.file other same] at isRaw
      exact isRaw
  · have same : other ≠ fp := by
      rintro rfl
      exact used free
    show (Function.update (after.rawrel fp).file fp _ other : NetFile) = _
    rw [update_of_ne same, released.file other same, extra.file other same]
  · show ((after.rawrel fp).inode ip).count = _
    by_cases node : ∃ mode, True ∧ (after.file fp).netnode mode = some ip
    · rw [released.cleared ip node]
      obtain ⟨mode, -, isIp⟩ := node
      exact (extra.nodes mode ip isIp).1.symm
    · rw [released.inode ip node]
      rw [extra.inode ip fun mode isIp => node ⟨mode, trivial, isIp⟩]
  · show (after.rawrel fp).inode ip = _
    rw [released.inode ip fun ⟨mode, _, isIp⟩ => noNode ip used mode isIp]
    exact extra.inode ip (noNode ip used)

theorem Sound.newFile (sound : s.Sound) (free : (s.file fp).count = 0) :
    (s.setFile fp ⟨2, true, fun _ => none⟩).Sound := by
  have notRaw : (s.file fp).raw = false := by
    cases isRaw : (s.file fp).raw with
    | false => rfl
    | true => exact absurd free (sound.count fp isRaw)
  have fileOf : ∀ other, (s.setFile fp ⟨2, true, fun _ => none⟩).file other =
      if other = fp then ⟨2, true, fun _ => none⟩ else s.file other :=
    fun other => update_apply _ _ _ _
  have nodeOf : ∀ other mode ip,
      ((s.setFile fp ⟨2, true, fun _ => none⟩).file other).raw = true →
      ((s.setFile fp ⟨2, true, fun _ => none⟩).file other).netnode mode = some ip →
        (s.file other).raw = true ∧ (s.file other).netnode mode = some ip := by
    intro other mode ip isRaw node
    rw [fileOf] at isRaw node
    split at node
    · cases node
    next apart =>
      rw [if_neg apart] at isRaw
      exact ⟨isRaw, node⟩
  refine ⟨fun other isRaw => ?_, fun mode rp ip isIp => ?_, fun other mode ip isRaw node => ?_,
    sound.once, fun other other' mode mode' ip isRaw isRaw' node node' => ?_, sound.apart,
    sound.elseentry⟩
  · rw [fileOf] at isRaw ⊢
    split at isRaw
    next same =>
      rw [if_pos same]
      exact Nat.succ_ne_zero 1
    next apart =>
      rw [if_neg apart]
      exact sound.count other isRaw
  · obtain ⟨other, isRaw, node⟩ := sound.named mode rp ip isIp
    have apart : other ≠ fp := by
      rintro rfl
      rw [notRaw] at isRaw
      cases isRaw
    refine ⟨other, ?_, ?_⟩ <;> rw [fileOf, if_neg apart]
    · exact isRaw
    · exact node
  · obtain ⟨wasRaw, before⟩ := nodeOf other mode ip isRaw node
    exact sound.entered other mode ip wasRaw before
  · obtain ⟨wasRaw, before⟩ := nodeOf other mode ip isRaw node
    obtain ⟨wasRaw', before'⟩ := nodeOf other' mode' ip isRaw' node'
    exact sound.owner other other' mode mode' ip wasRaw wasRaw' before before'

/-- An end of a raw file has got a socket and an entry. -/
theorem Sound.entry (sound : s.Sound) {rp : Fin rawtsize} {host : Host} {lo hi : Int}
    (raw : (s.file fp).raw = true) (unset : (s.file fp).netnode mode = none)
    (free : (s.inode ip).count = 0) (unused : (s.tab mode rp).rawskt = none)
    (apart : ∀ rp', s.Used mode rp' → (s.tab mode rp').meets host lo hi = false) :
    ((s.loose fp mode ip).enter mode rp ⟨host, lo, hi, some ip⟩).Sound := by
  obtain ⟨file, inode⟩ := enter_kept mode rp ⟨host, lo, hi, some ip⟩ (s.loose fp mode ip)
  have tab := enter_tab mode rp ⟨host, lo, hi, some ip⟩ (s.loose fp mode ip)
  have unnamed := fun end_ rp' => sound.unnamed free end_ rp'
  have rawOf : ∀ other, ((s.loose fp mode ip).file other).raw = (s.file other).raw ∧
      ((s.loose fp mode ip).file other).count = (s.file other).count := by
    intro other
    rw [loose_file]
    split
    next same =>
      subst same
      exact ⟨rfl, rfl⟩
    next => exact ⟨rfl, rfl⟩
  have nodeOf : ∀ other end_ ip', ((s.loose fp mode ip).file other).netnode end_ = some ip' →
      other = fp ∧ end_ = mode ∧ ip' = ip ∨ (s.file other).netnode end_ = some ip' := by
    intro other end_ ip' node
    rw [loose_file] at node
    split at node
    next same =>
      subst same
      change Function.update (s.file other).netnode mode (some ip) end_ = some ip' at node
      rw [update_apply] at node
      split at node
      next isMode =>
        cases node
        exact .inl ⟨rfl, isMode, rfl⟩
      next => exact .inr node
    next => exact .inr node
  have stillNode : ∀ other end_ ip', (s.file other).netnode end_ = some ip' →
      ((s.loose fp mode ip).file other).netnode end_ = some ip' := by
    intro other end_ ip' node
    rw [loose_file]
    split
    next same =>
      subst same
      refine (update_of_ne ?_ _ _).trans node
      rintro rfl
      rw [unset] at node
      cases node
    next => exact node
  have tabOf : ∀ end_ rp' ip', (((s.loose fp mode ip).enter mode rp
      ⟨host, lo, hi, some ip⟩).tab end_ rp').rawskt = some ip' →
        end_ = mode ∧ rp' = rp ∧ ip' = ip ∨ (s.tab end_ rp').rawskt = some ip' := by
    intro end_ rp' ip' isIp
    rw [tab] at isIp
    split at isIp
    next here =>
      cases isIp
      exact .inl ⟨here.1, here.2, rfl⟩
    next => exact .inr isIp
  have stillEntry : ∀ end_ rp', s.Used end_ rp' → ((s.loose fp mode ip).enter mode rp
      ⟨host, lo, hi, some ip⟩).tab end_ rp' = s.tab end_ rp' := by
    intro end_ rp' used
    rw [tab, if_neg ?_]
    · rfl
    · rintro ⟨rfl, rfl⟩
      exact used unused
  have usedOf : ∀ end_ rp', ((s.loose fp mode ip).enter mode rp
      ⟨host, lo, hi, some ip⟩).Used end_ rp' → end_ = mode ∧ rp' = rp ∨ s.Used end_ rp' := by
    intro end_ rp' used
    unfold Used at used
    rw [tab] at used
    split at used
    next here => exact .inl here
    next => exact .inr used
  have here : ((s.loose fp mode ip).enter mode rp ⟨host, lo, hi, some ip⟩).tab mode rp =
      ⟨host, lo, hi, some ip⟩ := by
    rw [tab, if_pos ⟨rfl, rfl⟩]
  refine ⟨fun other isRaw => ?_, fun end_ rp' ip' isIp => ?_, fun other end_ ip' isRaw node => ?_,
    fun end_ one other ip' isIp isIp' => ?_,
    fun one other end_ end_' ip' isRaw isRaw' node node' => ?_,
    fun end_ one other differ used used' => ?_, fun rp' => ?_⟩
  · rw [file] at isRaw ⊢
    rw [(rawOf other).2]
    exact sound.count other ((rawOf other).1 ▸ isRaw)
  · rw [file]
    rcases tabOf end_ rp' ip' isIp with ⟨rfl, -, rfl⟩ | before
    · exact ⟨fp, (rawOf fp).1.trans raw, loose_node fp end_ ip' s⟩
    · obtain ⟨other, isRaw, node⟩ := sound.named end_ rp' ip' before
      exact ⟨other, (rawOf other).1.trans isRaw, stillNode other end_ ip' node⟩
  · rw [file] at isRaw node
    rw [inode, loose_inode]
    rcases nodeOf other end_ ip' node with ⟨-, rfl, rfl⟩ | before
    · rw [if_pos rfl]
      exact ⟨Nat.succ_ne_zero 1, rfl, rp, by rw [here]⟩
    · obtain ⟨count, isOpen, rp', isIp⟩ :=
        sound.entered other end_ ip' ((rawOf other).1 ▸ isRaw) before
      have differ : ip' ≠ ip := by
        rintro rfl
        exact count free
      rw [if_neg differ]
      refine ⟨count, isOpen, rp', ?_⟩
      rw [stillEntry end_ rp' (by unfold Used; rw [isIp]; exact Option.some_ne_none ip')]
      exact isIp
  · rcases tabOf end_ one ip' isIp with ⟨rfl, rfl, rfl⟩ | before <;>
      rcases tabOf end_ other ip' isIp' with ⟨isMode, rfl, isNew⟩ | before'
    · rfl
    · exact absurd before' (unnamed _ _)
    · subst isNew
      exact absurd before (unnamed _ _)
    · exact sound.once end_ one other ip' before before'
  · rw [file] at isRaw isRaw' node node'
    have old : ∀ f e, (s.file f).raw = true → (s.file f).netnode e = some ip → False :=
      fun f e isRaw node => (sound.entered f e ip isRaw node).1 free
    rcases nodeOf one end_ ip' node with ⟨rfl, rfl, rfl⟩ | before <;>
      rcases nodeOf other end_' ip' node' with ⟨rfl, rfl, isNew⟩ | before'
    · exact ⟨rfl, rfl⟩
    · exact (old other end_' ((rawOf other).1 ▸ isRaw') before').elim
    · subst isNew
      exact (old one end_ ((rawOf one).1 ▸ isRaw) before).elim
    · exact sound.owner one other end_ end_' ip' ((rawOf one).1 ▸ isRaw)
        ((rawOf other).1 ▸ isRaw') before before'
  · rcases usedOf end_ one used with ⟨rfl, rfl⟩ | before <;>
      rcases usedOf end_ other used' with ⟨isMode, rfl⟩ | before'
    · exact absurd rfl differ
    · rw [here, stillEntry end_ other before', RawEntry.meets_comm]
      exact apart other before'
    · subst isMode
      rw [here, stillEntry end_ one before]
      exact apart one before
    · rw [stillEntry end_ one before, stillEntry end_ other before']
      exact sound.apart end_ one other differ before before'
  · rcases enter_elseentry mode rp ⟨host, lo, hi, some ip⟩ (s.loose fp mode ip) with
      ⟨rfl, isElse, now⟩ | ⟨notElse, same⟩
    · rw [now]
      constructor
      · rintro ⟨⟩
        unfold Used
        rw [here]
        exact ⟨Option.some_ne_none ip, isElse⟩
      · rintro ⟨used, alsoElse⟩
        rcases usedOf false rp' used with ⟨-, rfl⟩ | before
        · rfl
        · rw [stillEntry false rp' before] at alsoElse
          have refused := apart rp' before
          rw [show (s.tab false rp').meets host lo hi = true from isElse_meets alsoElse isElse]
            at refused
          cases refused
    · rw [same, show (s.loose fp mode ip).elseentry = s.elseentry from rfl, sound.elseentry]
      constructor
      · rintro ⟨used, isElse⟩
        unfold Used
        rw [stillEntry false rp' used]
        exact ⟨used, isElse⟩
      · rintro ⟨used, isElse⟩
        rcases usedOf false rp' used with ⟨rfl, rfl⟩ | before
        · rw [here] at isElse
          exact absurd ⟨rfl, isElse⟩ notElse
        · rw [stillEntry false rp' before] at isElse
          exact ⟨before, isElse⟩

theorem Sound.openEnd (sound : s.Sound) (asked : RawOpen) (raw : (s.file fp).raw = true)
    (unset : (s.file fp).netnode mode = none) (done : (s.openEnd asked fp mode).1 = true) :
    (s.openEnd asked fp mode).2.Sound ∧ ((s.openEnd asked fp mode).2.file fp).raw = true ∧
      ∀ other, other ≠ mode →
        ((s.openEnd asked fp mode).2.file fp).netnode other = (s.file fp).netnode other := by
  by_cases wanted : asked.ends mode = true
  · have ended : End asked fp mode s (s.openEnd asked fp mode) := openEnd_end wanted
    generalize s.openEnd asked fp mode = result at ended done ⊢
    cases ended with
    | noInode => cases done
    | refused ip free => cases done
    | entered ip free rp unused apart =>
      refine ⟨sound.entry raw unset free unused apart, ?_, fun other differ => ?_⟩
      · rw [(enter_kept _ _ _ _).1, loose_file, if_pos rfl]
        exact raw
      · rw [(enter_kept _ _ _ _).1, loose_file, if_pos rfl]
        exact update_of_ne differ _ _
  · have kept : s.openEnd asked fp mode = (true, s) := by
      unfold Rmi.openEnd
      rw [if_neg wanted]
    rw [kept]
    exact ⟨sound, raw, fun _ _ => rfl⟩

theorem openEnd_node {asked : RawOpen} {other : Bool} (differ : other ≠ mode) :
    ((s.openEnd asked fp mode).2.file fp).netnode other = (s.file fp).netnode other := by
  by_cases wanted : asked.ends mode = true
  · have ended : End asked fp mode s (s.openEnd asked fp mode) := openEnd_end wanted
    generalize s.openEnd asked fp mode = result at ended ⊢
    cases ended with
    | noInode => rfl
    | refused ip free =>
      rw [loose_file, if_pos rfl]
      exact update_of_ne differ _ _
    | entered ip free rp unused apart =>
      rw [(enter_kept _ _ _ _).1, loose_file, if_pos rfl]
      exact update_of_ne differ _ _
  · have kept : s.openEnd asked fp mode = (true, s) := by
      unfold Rmi.openEnd
      rw [if_neg wanted]
    rw [kept]

theorem Same.refl (s : Rmi) : Same s s :=
  ⟨fun _ _ => rfl, fun _ _ _ => rfl, rfl, fun _ => rfl, fun _ => id, fun _ _ => rfl, fun _ => rfl,
    fun _ _ => rfl⟩

theorem Sound.withLomsg (sound : s.Sound) (lomsg : Int) : { s with lomsg }.Sound :=
  ⟨sound.count, sound.named, sound.entered, sound.once, sound.owner, sound.apart, sound.elseentry⟩

theorem Same.withLomsg {lomsg : Int} (same : Same { s with lomsg } after) :
    Same s after :=
  ⟨same.entries, same.kept, same.elseentry, same.files, same.raw, same.file, same.sockets,
    same.inode⟩

section

variable (sound : s.Sound)
include sound

theorem Sound.openFile (asked : RawOpen) :
    (∃ fp, (s.openFile asked).1 = .opened fp ∧ (s.openFile asked).2.Sound) ∨
      (∀ fp, (s.openFile asked).1 ≠ .opened fp) ∧ Same s (s.openFile asked).2 := by
  unfold Rmi.openFile
  cases allocated : s.falloc asked.hasFd with
  | none => exact .inr ⟨fun _ => Opened.noConfusion, Same.refl s⟩
  | some fp =>
    have free : (s.file fp).count = 0 := by
      unfold falloc at allocated
      split at allocated
      · have := List.find?_some allocated
        simpa using this
      · cases allocated
    have newFile := sound.newFile free
    have extra := extra_start s fp
    have isFile : (s.setFile fp ⟨2, true, fun _ => none⟩).file fp = ⟨2, true, fun _ => none⟩ :=
      update_self _ _ _
    dsimp only
    generalize s.setFile fp ⟨2, true, fun _ => none⟩ = t at newFile extra isFile ⊢
    have raw : (t.file fp).raw = true := by rw [isFile]
    have unset : ∀ mode, (t.file fp).netnode mode = none := fun mode => by rw [isFile]
    have first := extra.openEnd asked sound (unset false)
    have stillUnset : ((t.openEnd asked fp false).2.file fp).netnode true = none :=
      (openEnd_node Bool.noConfusion).trans (unset true)
    have second := first.openEnd asked sound stillUnset
    have opened := newFile.openEnd asked raw (unset false)
    unfold openEnds
    revert first stillUnset second opened
    rcases t.openEnd asked fp false with ⟨done, after⟩
    intro first stillUnset second opened
    cases done with
    | false => exact .inr ⟨fun _ => Opened.noConfusion, first.undone sound free⟩
    | true =>
      obtain ⟨soundAfter, rawAfter, -⟩ := opened rfl
      have both := soundAfter.openEnd asked rawAfter stillUnset
      dsimp only
      revert second both
      rcases after.openEnd asked fp true with ⟨done, final⟩
      intro second both
      cases done with
      | false => exact .inr ⟨fun _ => Opened.noConfusion, second.undone sound free⟩
      | true => exact .inl ⟨fp, rfl, (both rfl).1⟩

theorem Sound.rawopen (asked : RawOpen) :
    (∃ fp, (s.rawopen asked).1 = .opened fp ∧ (s.rawopen asked).2.Sound) ∨
      (∀ fp, (s.rawopen asked).1 ≠ .opened fp) ∧ Same s (s.rawopen asked).2 := by
  unfold Rmi.rawopen
  split
  · refine .inr ⟨fun fp => ?_, Same.refl s⟩
    dsimp only
    split <;> exact Opened.noConfusion
  split
  · exact .inr ⟨fun _ => Opened.noConfusion, Same.refl s⟩
  dsimp only
  split
  · exact .inr ⟨fun _ => Opened.noConfusion, Same.withLomsg (Same.refl _)⟩
  · exact ((sound.withLomsg s.openLomsg).openFile asked).imp id (And.imp id Same.withLomsg)

theorem Sound.same (same : Same s after) : after.Sound := by
  have usedOf : ∀ mode rp, after.Used mode rp ↔ s.Used mode rp := by
    intro mode rp
    unfold Used
    rw [same.entries]
  have fileOf : ∀ fp, (after.file fp).raw = true →
      (s.file fp).raw = true ∧ after.file fp = s.file fp := by
    intro fp isRaw
    have wasRaw := same.raw fp isRaw
    exact ⟨wasRaw, same.file fp (sound.count fp wasRaw)⟩
  refine ⟨fun fp isRaw => ?_, fun mode rp ip isIp => ?_, fun fp mode ip isRaw node => ?_,
    fun mode rp rp' ip isIp isIp' => ?_, fun fp fp' mode mode' ip isRaw isRaw' node node' => ?_,
    fun mode rp rp' differ used used' => ?_, fun rp => ?_⟩
  · rw [same.files]
    exact sound.count fp (same.raw fp isRaw)
  · rw [same.entries] at isIp
    obtain ⟨fp, isRaw, node⟩ := sound.named mode rp ip isIp
    refine ⟨fp, ?_, ?_⟩ <;> rw [same.file fp (sound.count fp isRaw)]
    · exact isRaw
    · exact node
  · obtain ⟨wasRaw, isSame⟩ := fileOf fp isRaw
    rw [isSame] at node
    obtain ⟨count, isOpen, rp, isIp⟩ := sound.entered fp mode ip wasRaw node
    rw [same.inode ip count]
    exact ⟨count, isOpen, rp, (same.entries mode rp).trans isIp⟩
  · rw [same.entries] at isIp isIp'
    exact sound.once mode rp rp' ip isIp isIp'
  · obtain ⟨wasRaw, isSame⟩ := fileOf fp isRaw
    obtain ⟨wasRaw', isSame'⟩ := fileOf fp' isRaw'
    rw [isSame] at node
    rw [isSame'] at node'
    exact sound.owner fp fp' mode mode' ip wasRaw wasRaw' node node'
  · rw [usedOf] at used used'
    rw [same.kept mode rp used, same.kept mode rp' used']
    exact sound.apart mode rp rp' differ used used'
  · rw [same.elseentry, sound.elseentry, usedOf]
    refine and_congr_right fun used => ?_
    rw [same.kept false rp used]

theorem Sound.setFile {file : NetFile} (raw : file.raw = (s.file fp).raw)
    (kept : file.raw = true → file.count ≠ 0 ∧ file.netnode = (s.file fp).netnode) :
    (s.setFile fp file).Sound := by
  have fileOf : ∀ other, ((s.setFile fp file).file other).raw = (s.file other).raw ∧
      (((s.setFile fp file).file other).raw = true →
        ((s.setFile fp file).file other).count ≠ 0 ∧
          ((s.setFile fp file).file other).netnode = (s.file other).netnode) := by
    intro other
    by_cases same : other = fp
    · subst same
      rw [show (s.setFile other file).file other = file from update_self _ _ _]
      exact ⟨raw, kept⟩
    · rw [show (s.setFile fp file).file other = s.file other from update_of_ne same _ _]
      exact ⟨rfl, fun isRaw => ⟨sound.count other isRaw, rfl⟩⟩
  refine ⟨fun other isRaw => ((fileOf other).2 isRaw).1, fun mode rp ip isIp => ?_,
    fun other mode ip isRaw node => ?_, sound.once,
    fun other other' mode mode' ip isRaw isRaw' node node' => ?_, sound.apart, sound.elseentry⟩
  · obtain ⟨other, isRaw, node⟩ := sound.named mode rp ip isIp
    have still := (fileOf other).1.trans isRaw
    exact ⟨other, still, by rw [((fileOf other).2 still).2]; exact node⟩
  · rw [((fileOf other).2 isRaw).2] at node
    exact sound.entered other mode ip ((fileOf other).1 ▸ isRaw) node
  · rw [((fileOf other).2 isRaw).2] at node
    rw [((fileOf other').2 isRaw').2] at node'
    exact sound.owner other other' mode mode' ip ((fileOf other).1 ▸ isRaw)
      ((fileOf other').1 ▸ isRaw') node node'

theorem Sound.setInode {inode : Inode}
    (kept : ∀ mode rp, (s.tab mode rp).rawskt = some ip →
      inode.count ≠ 0 ∧ inode.skt.isOpen = true) : (s.setInode ip inode).Sound := by
  refine ⟨sound.count, sound.named, fun fp mode ip' isRaw node => ?_, sound.once, sound.owner,
    sound.apart, sound.elseentry⟩
  obtain ⟨count, isOpen, rp, isIp⟩ := sound.entered fp mode ip' isRaw node
  by_cases same : ip' = ip
  · subst same
    rw [show (s.setInode ip' inode).inode ip' = inode from update_self _ _ _]
    exact ⟨(kept mode rp isIp).1, (kept mode rp isIp).2, rp, isIp⟩
  · rw [show (s.setInode ip inode).inode ip' = s.inode ip' from update_of_ne same _ _]
    exact ⟨count, isOpen, rp, isIp⟩

theorem Sound.rawclose (fp : Nat) : (s.rawclose fp).Sound := by
  unfold Rmi.rawclose
  split
  next raw =>
    split
    next many =>
      refine sound.setFile rfl fun _ => ⟨?_, rfl⟩
      show (s.file fp).count - 1 ≠ 0
      omega
    next =>
      have released := rawrel_released (sound.single fp)
      exact (sound.rawrel raw).freeFile fun mode => released.gone mode trivial
  next => exact sound

theorem Sound.rawclean : s.rawclean.Sound := by
  unfold Rmi.rawclean
  generalize List.range nfile = files
  induction files generalizing s with
  | nil => exact sound
  | cons fp rest inductionHypothesis =>
    rw [List.foldl_cons]
    refine inductionHypothesis ?_
    split
    next isRaw => exact sound.rawrel isRaw.2
    next => exact sound

end

end Rmi

/-! ### Runs -/

/-- What can happen: the calls of the facility; another process gets a raw file; one of the kernels
is opened or closed; a file that is not raw, or an inode that is not the socket of one, is used or
freed; and data goes to or from a socket. -/
inductive RawEvent
  | rawopen (asked : RawOpen)
  | rawclose (fp : Nat)
  | rawclean
  | dup (fp : Nat)
  | kernelOpen (state : Int)
  | kernelClose
  | file (fp : Nat) (file : NetFile)
  | inode (ip : Nat) (inode : Inode)
  | transfer (ip : Nat) (skt : RawSkt)

namespace Rmi

/-- An inode has an entry in one of the tables. -/
def hasEntry (s : Rmi) (ip : Nat) : Bool :=
  decide (∃ mode rp, (s.tab mode rp).rawskt = some ip)

/-- What must be so for an event to happen. -/
def can (s : Rmi) : RawEvent → Bool
  | .dup fp => (s.file fp).raw
  | .kernelOpen state => decide (s.ncpopnstate = 0) && (decide (state = 1) || decide (state = -1))
  | .file fp file => !(s.file fp).raw && !file.raw
  | .inode ip _ => !s.hasEntry ip
  | .transfer ip skt => s.hasEntry ip && skt.isOpen
  | _ => true

/-- The effect of an event. -/
def does (s : Rmi) : RawEvent → Rmi
  | .rawopen asked => (s.rawopen asked).2
  | .rawclose fp => s.rawclose fp
  | .rawclean => s.rawclean
  | .dup fp => s.setFile fp { s.file fp with count := (s.file fp).count + 1 }
  | .kernelOpen state => { s with ncpopnstate := state }
  | .kernelClose => { s.rawclean with ncpopnstate := 0 }
  | .file fp file => s.setFile fp file
  | .inode ip inode => s.setInode ip inode
  | .transfer ip skt => s.setInode ip { s.inode ip with skt }

def act (s : Rmi) (event : RawEvent) : Option Rmi := if s.can event then some (s.does event) else none

/-- The start: nothing is open, and no file is raw. -/
def start (file : Nat → NetFile) (inode : Nat → Inode) : Rmi where
  ncpopnstate := 0
  lomsg := 0
  tab _ _ := ⟨0, 0, 0, none⟩
  elseentry := none
  file fp := { file fp with raw := false }
  inode

theorem start_sound (file : Nat → NetFile) (inode : Nat → Inode) : (start file inode).Sound where
  count _ isRaw := Bool.noConfusion isRaw
  named _ _ _ isIp := by cases isIp
  entered _ _ _ isRaw := Bool.noConfusion isRaw
  once _ _ _ _ isIp := by cases isIp
  owner _ _ _ _ _ isRaw := Bool.noConfusion isRaw
  apart _ _ _ _ used := absurd rfl used
  elseentry _ := Iff.intro (fun isElse => (by cases isElse)) fun used => absurd rfl used.1

theorem Sound.withState {s : Rmi} (sound : s.Sound) (ncpopnstate : Int) :
    { s with ncpopnstate }.Sound :=
  ⟨sound.count, sound.named, sound.entered, sound.once, sound.owner, sound.apart, sound.elseentry⟩

theorem does_sound {s : Rmi} {event : RawEvent} (sound : s.Sound) (can : s.can event = true) :
    (s.does event).Sound := by
  cases event with
  | rawopen asked =>
    rcases sound.rawopen asked with ⟨fp, -, opened⟩ | ⟨-, same⟩
    · exact opened
    · exact sound.same same
  | rawclose fp => exact sound.rawclose fp
  | rawclean => exact sound.rawclean
  | dup fp => exact sound.setFile rfl fun _ => ⟨Nat.succ_ne_zero _, rfl⟩
  | kernelOpen state => exact sound.withState state
  | kernelClose => exact sound.rawclean.withState 0
  | file fp file =>
    simp only [Rmi.can, Bool.and_eq_true, Bool.not_eq_true'] at can
    refine sound.setFile (can.2.trans can.1.symm) fun isRaw => ?_
    rw [can.2] at isRaw
    cases isRaw
  | inode ip inode =>
    simp only [Rmi.can, hasEntry, Bool.not_eq_true', decide_eq_false_iff_not] at can
    exact sound.setInode fun mode rp isIp => absurd ⟨mode, rp, isIp⟩ can
  | transfer ip skt =>
    simp only [Rmi.can, hasEntry, Bool.and_eq_true, decide_eq_true_eq] at can
    refine sound.setInode fun mode rp isIp => ⟨?_, can.2⟩
    obtain ⟨fp, isRaw, node⟩ := sound.named mode rp ip isIp
    exact (sound.entered fp mode ip isRaw node).1

/-- In every run no two entries in use claim the same message of the same host; an entry in use
names the open socket of exactly one end of one raw file, and the socket of an end of a raw file
has exactly one entry; elseentry is the entry for all other messages while that is in use; and an
open that does not return a file leaves the entries, elseentry, the files and the sockets in use as
they were. -/
theorem raw_tables_sound {file : Nat → NetFile} {inode : Nat → Inode} {events : List RawEvent}
    {s : Rmi} (run : Transition.Run (Transition.Takes Rmi.act) (start file inode) events s) :
    (∀ mode rp rp' host msg, rp ≠ rp' → s.Used mode rp → s.Used mode rp' →
      (s.tab mode rp).claims host msg → ¬ (s.tab mode rp').claims host msg) ∧
    (∀ mode rp ip, (s.tab mode rp).rawskt = some ip →
      (s.inode ip).count ≠ 0 ∧ (s.inode ip).skt.isOpen = true ∧
        ∃! end_ : Nat × Bool, (s.file end_.1).raw = true ∧ (s.file end_.1).count ≠ 0 ∧
          (s.file end_.1).netnode end_.2 = some ip) ∧
    (∀ fp mode ip, (s.file fp).raw = true → (s.file fp).netnode mode = some ip →
      ∃! entry : Bool × Fin rawtsize, (s.tab entry.1 entry.2).rawskt = some ip) ∧
    (∀ rp, s.elseentry = some rp ↔ s.Used false rp ∧ (s.tab false rp).isElse) ∧
    ∀ asked, (∀ fp, (s.rawopen asked).1 ≠ .opened fp) → Same s (s.rawopen asked).2 := by
  have sound : s.Sound := by
    refine run.always Rmi.Sound (start_sound file inode) ?_
    intro before event after sound taken
    unfold Transition.Takes act at taken
    split at taken
    next can =>
      cases taken
      exact does_sound sound can
    next => cases taken
  refine ⟨fun mode rp rp' host msg differ used used' first second => ?_, fun mode rp ip isIp => ?_,
    fun fp mode ip isRaw node => ?_, sound.elseentry, fun asked failed => ?_⟩
  · have refused := sound.apart mode rp rp' differ used used'
    rw [RawEntry.claims_meets first second] at refused
    cases refused
  · obtain ⟨fp, isRaw, node⟩ := sound.named mode rp ip isIp
    obtain ⟨count, isOpen, -⟩ := sound.entered fp mode ip isRaw node
    refine ⟨count, isOpen, (fp, mode), ⟨isRaw, sound.count fp isRaw, node⟩, ?_⟩
    rintro ⟨other, mode'⟩ ⟨isRaw', -, node'⟩
    obtain ⟨rfl, rfl⟩ := sound.owner other fp mode' mode ip isRaw' isRaw node' node
    rfl
  · obtain ⟨-, -, rp, isIp⟩ := sound.entered fp mode ip isRaw node
    refine ⟨(mode, rp), isIp, ?_⟩
    rintro ⟨mode', rp'⟩ isIp'
    obtain ⟨other, isRaw', node'⟩ := sound.named mode' rp' ip isIp'
    obtain ⟨-, rfl⟩ := sound.owner other fp mode' mode ip isRaw' isRaw node' node
    rw [sound.once mode' rp' rp ip isIp' isIp]
  · rcases sound.rawopen asked with ⟨fp, opened, -⟩ | ⟨-, same⟩
    · exact absurd opened (failed fp)
    · exact same

/-- The tables after an open for reading and writing, an open for all other messages, an open that
is refused since it overlaps, and a close of the first. -/
theorem try_tables_sound :
    let ask : Int → Host → Int → Int → RawOpen := fun mode host lomsg himsg =>
      ⟨true, true, 10, mode, host, lomsg, himsg⟩
    let s := Transition.last act (start (fun _ => ⟨0, false, fun _ => none⟩) fun _ => .cleared)
      [.kernelOpen 1, .rawopen (ask 2 5 2000 2010), .rawopen (ask 0 0 elsemsg 0),
        .rawopen (ask 1 0 2005 2006), .rawclose 0]
    let second : Fin rawtsize := ⟨1, by decide⟩
    s.elseentry = some second ∧ s.Used false second ∧ (s.tab false second).isElse := by
  intro ask s second
  have isElse : s.elseentry = some second := by decide +kernel
  have claims := raw_tables_sound (s := s) (Transition.run_all (by decide +kernel))
  exact ⟨isElse, (claims.2.2.2.1 second).mp isElse⟩

end Rmi

end NetworkUnix.Ncpkernel
