/-
This file proves when the count of a host table entry covers the messages in
flight to its host and stays within the window of eight. The count is kept in an
entry that can be deleted and made again, and several kinds of answer clear it, so
each of these has to find that no other message is unanswered.
-/

import NetworkUnix.Bbnnet.Local.Held

namespace NetworkUnix.Bbnnet.Local

/-! ### Counts that cover -/

/-- Each address but 0 has one entry, no message is held, and the count of an entry covers what is
unanswered and is at most eight. -/
structure Covered (hosts : Hosts) (unanswered : Addr → Nat) : Prop where
  distinct : ∀ (i j : Nat) (hi hj : Host), hosts[i]? = some hi → hosts[j]? = some hj →
    hi.hAddr ≠ 0 → hi.hAddr = hj.hAddr → i = j
  idle : ∀ (hp : Nat) (h : Host), hosts[hp]? = some h → h.hOutq = []
  covers : ∀ (hp : Nat) (h : Host), hosts[hp]? = some h →
    unanswered h.hAddr ≤ h.hRfnm ∧ h.hRfnm ≤ 8
  nobody : unanswered 0 = 0

section Tables

variable {hosts : Hosts} {unanswered : Addr → Nat}

section

variable (covered : Covered hosts unanswered)
include covered

theorem Covered.mapped {after : List Host} (before : ∀ (i : Nat) h', after[i]? = some h' →
      ∃ h, hosts[i]? = some h ∧ (h'.hAddr = h.hAddr ∨ h'.hAddr = 0) ∧ h'.hOutq = [] ∧
        unanswered h'.hAddr ≤ h'.hRfnm ∧ h'.hRfnm ≤ 8) : Covered after unanswered := by
  refine ⟨fun i j hi hj entryI entryJ nonzero same => ?_, fun i h entry => ?_, fun i h entry => ?_,
    covered.nobody⟩
  · obtain ⟨bi, oldI, addrI, _⟩ := before i hi entryI
    obtain ⟨bj, oldJ, addrJ, _⟩ := before j hj entryJ
    have sameI := addrI.resolve_right nonzero
    have sameJ := addrJ.resolve_right (same ▸ nonzero)
    exact covered.distinct i j bi bj oldI oldJ (sameI ▸ nonzero) (sameI ▸ sameJ ▸ same)
  · obtain ⟨_, _, _, idle, _⟩ := before i h entry
    exact idle
  · obtain ⟨_, _, _, _, covers⟩ := before i h entry
    exact covers

theorem Covered.modify {hp : Nat} {change : Host → Host}
    (changes : ∀ h, hosts[hp]? = some h →
      ((change h).hAddr = h.hAddr ∨ (change h).hAddr = 0) ∧ (change h).hOutq = [] ∧
        unanswered (change h).hAddr ≤ (change h).hRfnm ∧ (change h).hRfnm ≤ 8) :
    Covered (hosts.modify hp change) unanswered := by
  refine covered.mapped fun i h' entry => ?_
  obtain ⟨b, old, rfl⟩ := entry_modify entry
  refine ⟨b, old, ?_⟩
  split
  · rename_i same
    exact changes b (same ▸ old)
  · exact ⟨Or.inl rfl, covered.idle i b old, covered.covers i b old⟩

theorem Covered.set {hp : Nat} {made : Host}
    (absent : hFind hosts made.hAddr = none) (idle : made.hOutq = [])
    (covers : unanswered made.hAddr ≤ made.hRfnm ∧ made.hRfnm ≤ 8) :
    Covered (hosts.set hp made) unanswered := by
  refine ⟨fun i j hi hj entryI entryJ nonzero same => ?_, fun i h entry => ?_, fun i h entry => ?_,
    covered.nobody⟩
  · rcases entry_set entryI with ⟨rfl, rfl⟩ | ⟨_, oldI⟩
    · rcases entry_set entryJ with ⟨rfl, rfl⟩ | ⟨_, oldJ⟩
      · rfl
      · exact absurd same.symm (hFind_none absent oldJ)
    · rcases entry_set entryJ with ⟨rfl, rfl⟩ | ⟨_, oldJ⟩
      · exact absurd same (hFind_none absent oldI)
      · exact covered.distinct i j hi hj oldI oldJ nonzero same
  · rcases entry_set entry with ⟨rfl, rfl⟩ | ⟨_, old⟩
    · exact idle
    · exact covered.idle i h old
  · rcases entry_set entry with ⟨rfl, rfl⟩ | ⟨_, old⟩
    · exact covers
    · exact covered.covers i h old

theorem Covered.fewer {fewer : Addr → Nat}
    (less : ∀ a, fewer a ≤ unanswered a) : Covered hosts fewer := by
  refine ⟨covered.distinct, covered.idle, fun hp h entry => ?_, ?_⟩
  · obtain ⟨covers, bound⟩ := covered.covers hp h entry
    have less := less h.hAddr
    omega
  · have less := less 0
    have nobody := covered.nobody
    omega

theorem Covered.recount {a : Addr} {hp : Nat}
    (found : hFind hosts a = some hp) (nonzero : a ≠ 0) {change : Host → Host} {after : Addr → Nat}
    (keeps : ∀ h, (change h).hAddr = h.hAddr ∧ (change h).hOutq = h.hOutq)
    (covers : ∀ h, hosts[hp]? = some h → after a ≤ (change h).hRfnm ∧ (change h).hRfnm ≤ 8)
    (others : ∀ b, b ≠ a → after b = unanswered b) : Covered (hosts.modify hp change) after := by
  obtain ⟨h, entry, addr, _⟩ := hFind_some found
  have before {i : Nat} {h' : Host} (changed : (hosts.modify hp change)[i]? = some h') :
      (i = hp ∧ h' = change h) ∨ (i ≠ hp ∧ hosts[i]? = some h') := by
    obtain ⟨b, old, rfl⟩ := entry_modify changed
    by_cases same : hp = i
    · subst same
      rw [if_pos rfl, Option.some_inj.mp (old.symm.trans entry)]
      exact Or.inl ⟨rfl, rfl⟩
    · rw [if_neg same]
      exact Or.inr ⟨Ne.symm same, old⟩
  have address {i : Nat} {h' : Host} (changed : (hosts.modify hp change)[i]? = some h') :
      ∃ b, hosts[i]? = some b ∧ h'.hAddr = b.hAddr ∧ h'.hOutq = b.hOutq := by
    rcases before changed with ⟨rfl, rfl⟩ | ⟨_, old⟩
    · exact ⟨h, entry, keeps h⟩
    · exact ⟨h', old, rfl, rfl⟩
  refine ⟨fun i j hi hj changedI changedJ some same => ?_, fun i h' changed => ?_,
    fun i h' changed => ?_, (others 0 (Ne.symm nonzero)).trans covered.nobody⟩
  · obtain ⟨bi, oldI, sameI, _⟩ := address changedI
    obtain ⟨bj, oldJ, sameJ, _⟩ := address changedJ
    exact covered.distinct i j bi bj oldI oldJ (sameI ▸ some) (sameI ▸ sameJ ▸ same)
  · obtain ⟨b, old, _, outq⟩ := address changed
    exact outq.trans (covered.idle i b old)
  · rcases before changed with ⟨rfl, rfl⟩ | ⟨apart, old⟩
    · rw [(keeps h).1, addr]
      exact covers h entry
    · rw [others h'.hAddr fun same => ?_]
      · exact covered.covers i h' old
      · refine apart (covered.distinct i hp h' h old entry ?_ (same.trans addr.symm))
        rw [same]
        exact nonzero

theorem Covered.unseen {a : Addr} (absent : hFind hosts a = none)
    (nonzero : a ≠ 0) {after : Addr → Nat} (others : ∀ b, b ≠ a → after b = unanswered b) :
    Covered hosts after := by
  refine ⟨covered.distinct, covered.idle, fun hp h entry => ?_,
    (others 0 (Ne.symm nonzero)).trans covered.nobody⟩
  rw [others h.hAddr (hFind_none absent entry)]
  exact covered.covers hp h entry

theorem Covered.hFree (hp : Nat) :
    Covered (hFree hosts hp) unanswered := by
  refine covered.modify fun h entry => ?_
  have none := covered.nobody
  unfold Host.dropped
  dsimp only
  split
  · exact ⟨Or.inr rfl, rfl, Nat.le_of_eq none, Nat.zero_le _⟩
  · exact ⟨Or.inl rfl, covered.idle hp h entry, covered.covers hp h entry⟩

end

/-- An entry that `h_make` makes is for a host that has none, and no message to it is
unanswered. -/
def MakesClean (hosts : Hosts) (unanswered : Addr → Nat) (np : Addr) (temp : Bool) : Prop :=
  (temp = true ∨ hFind hosts (addr1822 np) = none) → hUnused hosts ≠ none →
    hFind hosts (addr1822 np) = none ∧ unanswered (addr1822 np) = 0

theorem Covered.hMake (covered : Covered hosts unanswered) {np : Addr} {temp : Bool}
    (clean : MakesClean hosts unanswered np temp) : Covered (hMake hosts np temp).1 unanswered := by
  have made := hMake_made hosts np temp
  generalize Local.hMake hosts np temp = result at made ⊢
  obtain ⟨after, slot⟩ := result
  cases made with
  | found _ _ =>
    refine covered.modify fun h entry => ?_
    have same : h.referenced.hAddr = h.hAddr ∧ h.referenced.hOutq = h.hOutq ∧
        h.referenced.hRfnm = h.hRfnm := by
      unfold Host.referenced
      split <;> exact ⟨rfl, rfl, rfl⟩
    rw [same.1, same.2.1, same.2.2]
    exact ⟨Or.inl rfl, covered.idle _ h entry, covered.covers _ h entry⟩
  | fresh absent unused =>
    have asked : temp = true ∨ hFind hosts (addr1822 np) = none := by
      cases temp with
      | true => exact Or.inl rfl
      | false => exact Or.inr (absent rfl)
    obtain ⟨none, answered⟩ := clean asked (by rw [unused]; exact Option.some_ne_none _)
    exact covered.set none rfl ⟨Nat.le_of_eq answered, Nat.zero_le _⟩
  | full _ _ => exact covered

/-- The entries made while the connections to a dead entry are signalled are clean. -/
def DeadClean (env : Env) (p : Leader) (hp : Nat) (unanswered : Addr → Nat) : Hosts → List Ucb → Prop
  | _, [] => True
  | hosts, up :: rest =>
    (up.ucProc = true ∧ up.ucRoute = some hp → ∀ gp,
      smartGateway env (hosts.getD hp Host.unused) = some gp →
        MakesClean (hFree hosts hp) unanswered gp.gLocal false) ∧
      DeadClean env p hp unanswered (deadUcb env p hp hosts up).1 rest

theorem deadClean_fewer {env : Env} {p : Leader} {hp : Nat} {ucbs : List Ucb} {fewer : Addr → Nat}
    (less : ∀ a, fewer a ≤ unanswered a) (clean : DeadClean env p hp unanswered hosts ucbs) :
    DeadClean env p hp fewer hosts ucbs := by
  induction ucbs generalizing hosts with
  | nil => trivial
  | cons up rest inductionHypothesis =>
    refine ⟨fun routed gp smart asked room => ?_, inductionHypothesis clean.2⟩
    obtain ⟨none, answered⟩ := clean.1 routed gp smart asked room
    have bound := less (addr1822 gp.gLocal)
    exact ⟨none, by omega⟩

theorem Covered.deadLoop {env : Env} {p : Leader} {hp : Nat} {ucbs : List Ucb}
    (covered : Covered hosts unanswered) (clean : DeadClean env p hp unanswered hosts ucbs) :
    Covered (deadLoop env p hp hosts ucbs).1 unanswered := by
  induction ucbs generalizing hosts with
  | nil => exact covered
  | cons up rest inductionHypothesis =>
    have first : Covered (deadUcb env p hp hosts up).1 unanswered := by
      have clean := clean.1
      unfold deadUcb
      split
      · rename_i routed
        split
        · exact covered
        · have moved : Covered (ipReroute env hosts up hp).1 unanswered := by
            unfold ipReroute
            split
            · exact covered
            · rename_i gp smart
              exact (covered.hFree hp).hMake (clean routed gp smart)
          dsimp only
          split <;> exact moved
      · exact covered
    rw [Local.deadLoop]
    exact inductionHypothesis first clean.2

end Tables

/-! ### Messages in flight -/

/-- The local network with the number of answers each host has given. -/
structure Flight where
  net : LocalNet
  answered : Addr → Nat

/-- The data messages for a host that have been put on the output queue. -/
def sentTo (n : LocalNet) (a : Addr) : Nat := n.ifOutq.countP (Message.isFor n.ifAddr a)

/-- The data messages for a host that have not been answered. -/
def Flight.unanswered (s : Flight) (a : Addr) : Nat := sentTo s.net a - s.answered a

/-- What happens to the counts: messages, what the IMP sends, and entries that the rest of the
kernel makes and frees while its connections come and go. -/
inductive TableEvent
  | snd (mp : Message)
  | rcv (p : Leader)
  | make (np : Addr) (temp : Bool)
  | free (hp : Nat)
  | connect (ucbs : List Ucb)
  | ifUp

instance (p : Leader) : Decidable p.answers := inferInstanceAs (Decidable (_ ∨ _))

/-- The IMP answers a message: the leader is in the format that `imp_rcv` takes. -/
def Leader.isAnswer (p : Leader) : Prop := p.iNff = impNff ∧ p.answers

instance (p : Leader) : Decidable p.isAnswer := inferInstanceAs (Decidable (_ ∧ _))

/-- The answers given when one more comes from a host. -/
def oneMore (answered : Addr → Nat) (a b : Addr) : Nat := if b = a then answered b + 1 else answered b

/-- The effect of an event. -/
def fly (env : Env) (s : Flight) : TableEvent → Flight
  | .snd mp => ⟨(impSnd s.net mp).1, s.answered⟩
  | .rcv p => ⟨impRcv env s.net p,
      if p.isAnswer then oneMore s.answered (p.source s.net.ifAddr) else s.answered⟩
  | .make np temp => ⟨{ s.net with hosts := (hMake s.net.hosts np temp).1 }, s.answered⟩
  | .free hp => ⟨{ s.net with hosts := hFree s.net.hosts hp }, s.answered⟩
  | .connect ucbs => ⟨{ s.net with ucbs := ucbs }, s.answered⟩
  | .ifUp => ⟨{ s.net with ifAvail := true }, s.answered⟩

/-- The step relation: the IMP answers each message at most once. -/
def Flies (s : Flight) (event : Env × TableEvent) (next : Flight) : Prop :=
  (∀ p, event.2 = .rcv p → p.isAnswer → 0 < s.unanswered (p.source s.net.ifAddr)) ∧
    next = fly event.1 s event.2

/-- The event keeps the window: no data message comes for a host with eight in flight or for the
host 0 of network 0, an entry is made only for a host that has none and has answered everything, a
count is cleared by the answer to the only message in flight, and a network is reset when
everything on it is answered. -/
def KeepsWindow (s : Flight) (event : Env × TableEvent) : Prop :=
  match event.2 with
  | .snd mp => s.net.ifAvail = true → mp.leader.iType = .data →
      mp.leader.dest s.net.ifAddr ≠ 0 ∧
      (∀ hp, hFind s.net.hosts (mp.leader.dest s.net.ifAddr) = some hp → (s.net.host hp).hRfnm ≠ 8) ∧
      (hFind s.net.hosts (mp.leader.dest s.net.ifAddr) = none →
        MakesClean s.net.hosts s.unanswered (mp.leader.dest s.net.ifAddr) true)
  | .rcv p => p.iNff = impNff →
      (p.iType = .lerror → ∀ h ∈ s.net.hosts, iptonet h.hAddr = iptonet s.net.ifAddr →
        s.unanswered h.hAddr = 0) ∧
      (p.iType = .dead ∨ p.iType = .derror →
        hFind s.net.hosts (p.source s.net.ifAddr) ≠ none →
        s.unanswered (p.source s.net.ifAddr) = 1) ∧
      (p.iType = .dead → ∀ hp, hFind s.net.hosts (p.source s.net.ifAddr) = some hp →
        DeadClean event.1 p hp s.unanswered (s.net.hosts.modify hp Host.down) s.net.ucbs)
  | .make np temp => MakesClean s.net.hosts s.unanswered np temp
  | .free _ | .connect _ | .ifUp => True

section Steps

variable {s : Flight} {env : Env}

theorem sentTo_put (n : LocalNet) (mp : Message) (a : Addr) :
    sentTo (n.put mp) a = sentTo n a + if Message.isFor n.ifAddr a mp then 1 else 0 := by
  unfold sentTo LocalNet.put
  rw [List.countP_append, List.countP_singleton]

theorem sentTo_noops (n : LocalNet) (a : Addr) : sentTo (impNoops env n) a = sentTo n a := by
  have same := @filter_noops env n a
  unfold sentTo
  rw [List.countP_eq_length_filter, List.countP_eq_length_filter]
  exact congrArg List.length same

theorem sentTo_put_other {n : LocalNet} {mp : Message} {b : Addr}
    (other : b ≠ mp.leader.dest n.ifAddr) : sentTo (n.put mp) b = sentTo n b := by
  rw [sentTo_put, if_neg, Nat.add_zero]
  intro isFor
  exact other (of_decide_eq_true isFor).2.symm

theorem sentTo_put_le (n : LocalNet) (mp : Message) (a : Addr) :
    sentTo (n.put mp) a ≤ sentTo n a + 1 := by
  rw [sentTo_put]
  split <;> omega

theorem covered_snd (covered : Covered s.net.hosts s.unanswered) {mp : Message}
    (keeps : KeepsWindow s (env, .snd mp)) :
    Covered (fly env s (.snd mp)).net.hosts (fly env s (.snd mp)).unanswered := by
  have sent := impSnd_sent s.net mp
  rw [fly]
  dsimp only
  generalize impSnd s.net mp = result at sent
  obtain ⟨next, accepted⟩ := result
  have one (n : LocalNet) (a : Addr) :
      Flight.unanswered ⟨n.put mp, s.answered⟩ a ≤ Flight.unanswered ⟨n, s.answered⟩ a + 1 := by
    have more := sentTo_put_le n mp a
    unfold Flight.unanswered
    dsimp only
    omega
  have others (n : LocalNet) (ifAddr : n.ifAddr = s.net.ifAddr) (outq : n.ifOutq = s.net.ifOutq)
      (b : Addr) (other : b ≠ mp.leader.dest s.net.ifAddr) :
      Flight.unanswered ⟨n.put mp, s.answered⟩ b = s.unanswered b := by
    unfold Flight.unanswered
    dsimp only
    rw [sentTo_put_other (ifAddr ▸ other), sentTo, sentTo, ifAddr, outq]
  cases sent with
  | down _ | refused _ _ _ _ => exact covered
  | control _ control =>
    have none (a : Addr) : Flight.unanswered ⟨s.net.put mp, s.answered⟩ a = s.unanswered a := by
      unfold Flight.unanswered
      dsimp only
      rw [sentTo_put, if_neg fun isFor => control (of_decide_eq_true isFor).1, Nat.add_zero]
    exact covered.fewer fun a => Nat.le_of_eq (none a)
  | @held hp on data found busy =>
    have bound := (covered.covers hp _ (entry_of_found found).1).2
    omega
  | uncounted on data absent _ =>
    exact covered.unseen absent (keeps on data).1 (others s.net rfl rfl)
  | @counted hp on data found room =>
    obtain ⟨entry, addr⟩ := entry_of_found found
    obtain ⟨nonzero, full, _⟩ := keeps on data
    have full := full hp found
    have covers := (covered.covers hp _ entry).1
    refine covered.recount found nonzero (fun h => ⟨rfl, rfl⟩) (fun h old => ?_)
      (others (s.net.modifyHost hp Host.counted) rfl rfl)
    obtain rfl : h = s.net.host hp := Option.some_inj.mp (old.symm.trans entry)
    have more := one (s.net.modifyHost hp Host.counted) (mp.leader.dest s.net.ifAddr)
    have same : Flight.unanswered ⟨s.net.modifyHost hp Host.counted, s.answered⟩
        (mp.leader.dest s.net.ifAddr) = s.unanswered (mp.leader.dest s.net.ifAddr) := rfl
    rw [addr] at covers
    have count : (s.net.host hp).counted.hRfnm = ((s.net.host hp).hRfnm + 1) % 256 := rfl
    refine ⟨Nat.le_trans more ?_, ?_⟩ <;>
    · rw [count]
      omega
  | @made hp on data absent unused =>
    obtain ⟨nonzero, _, clean⟩ := keeps on data
    obtain ⟨single, answered⟩ := clean absent (Or.inl rfl) (by rw [unused]; exact Option.some_ne_none _)
    have seen := covered.unseen absent nonzero
      (others (s.net.setHost hp (Host.fresh (addr1822 (mp.leader.dest s.net.ifAddr)) true).counted)
        rfl rfl)
    refine seen.set single rfl ⟨?_, Nat.le_of_ble_eq_true rfl⟩
    have more := one
      (s.net.setHost hp (Host.fresh (addr1822 (mp.leader.dest s.net.ifAddr)) true).counted)
      (addr1822 (mp.leader.dest s.net.ifAddr))
    exact Nat.le_trans more (Nat.succ_le_succ (Nat.le_of_eq answered))

theorem unanswered_oneMore (s : Flight) (a b : Addr) :
    Flight.unanswered ⟨s.net, oneMore s.answered a⟩ b =
      if b = a then s.unanswered b - 1 else s.unanswered b := by
  unfold Flight.unanswered oneMore
  dsimp only
  split <;> omega

theorem Covered.answered (covered : Covered s.net.hosts s.unanswered) (a : Addr) :
    Covered s.net.hosts (Flight.unanswered ⟨s.net, oneMore s.answered a⟩) := by
  refine covered.fewer fun b => ?_
  rw [unanswered_oneMore]
  split <;> omega

theorem covered_impRfnm (covered : Covered s.net.hosts s.unanswered) (p : Leader)
    (some : 0 < s.unanswered (p.source s.net.ifAddr)) :
    Covered (impRfnm s.net p).hosts
      (Flight.unanswered ⟨impRfnm s.net p, oneMore s.answered (p.source s.net.ifAddr)⟩) := by
  have nonzero : p.source s.net.ifAddr ≠ 0 := by
    intro zero
    rw [zero, covered.nobody] at some
    exact absurd some (Nat.lt_irrefl 0)
  have outcome := impRfnm_answered s.net p
  generalize impRfnm s.net p = next at outcome ⊢
  have left {hp : Nat} (found : hFind s.net.hosts (p.source s.net.ifAddr) = Option.some hp) :
      Covered (s.net.modifyHost hp Host.answered).hosts
        (Flight.unanswered ⟨s.net, oneMore s.answered (p.source s.net.ifAddr)⟩) := by
    obtain ⟨entry, addr⟩ := entry_of_found found
    obtain ⟨covers, bound⟩ := covered.covers hp _ entry
    rw [addr] at covers
    refine covered.recount found nonzero (fun h => ⟨rfl, rfl⟩) (fun h old => ?_) fun b other => ?_
    · obtain rfl : h = s.net.host hp := Option.some_inj.mp (old.symm.trans entry)
      rw [unanswered_oneMore, if_pos rfl, Host.answered]
      dsimp only
      omega
    · rw [unanswered_oneMore, if_neg other]
  cases outcome with
  | unknown _ | early _ _ => exact covered.answered _
  | left found _ _ => exact left found
  | deleted found _ _ _ => exact (left found).hFree _
  | @released hp m rest found _ queue =>
    rw [covered.idle hp _ (entry_of_found found).1] at queue
    exact absurd queue (by simp)

theorem covered_clears (covered : Covered s.net.hosts s.unanswered) {p : Leader}
    (some : 0 < s.unanswered (p.source s.net.ifAddr)) {change : Host → Host}
    (clears : ∀ h, (change h).hAddr = h.hAddr ∧ (change h).hOutq = h.hOutq ∧ (change h).hRfnm = 0)
    {hp : Nat} (found : hFind s.net.hosts (p.source s.net.ifAddr) = Option.some hp)
    (last : s.unanswered (p.source s.net.ifAddr) = 1) :
    Covered (s.net.hosts.modify hp change)
      (Flight.unanswered ⟨s.net, oneMore s.answered (p.source s.net.ifAddr)⟩) := by
  have nonzero : p.source s.net.ifAddr ≠ 0 := by
    intro zero
    rw [zero, covered.nobody] at some
    exact absurd some (Nat.lt_irrefl 0)
  refine covered.recount found nonzero (fun h => ⟨(clears h).1, (clears h).2.1⟩) (fun h _ => ?_)
    fun b other => ?_
  · rw [unanswered_oneMore, if_pos rfl, last, (clears h).2.2]
    exact ⟨Nat.le_refl 0, Nat.zero_le 8⟩
  · rw [unanswered_oneMore, if_neg other]

theorem covered_hReset (covered : Covered s.net.hosts s.unanswered) {net : Net}
    (answered : ∀ h ∈ s.net.hosts, iptonet h.hAddr = net → s.unanswered h.hAddr = 0) :
    Covered (hReset s.net.hosts net) s.unanswered := by
  refine covered.mapped fun i h' entry => ?_
  unfold hReset at entry
  rw [List.getElem?_map] at entry
  obtain ⟨b, old, rfl⟩ := Option.map_eq_some_iff.mp entry
  refine ⟨b, old, ?_⟩
  split
  · rename_i same
    exact ⟨.inl rfl, rfl, Nat.le_of_eq (answered b (List.mem_of_getElem? old) same), Nat.zero_le 8⟩
  · exact ⟨.inl rfl, covered.idle i b old, covered.covers i b old⟩

theorem unanswered_nop (s : Flight) (p : Leader) :
    Flight.unanswered ⟨{ s.net with ifAddr := s.net.ifAddr.at1822 p.iHost p.iImp }, s.answered⟩ =
      s.unanswered := by
  have same (a : Addr) : Message.isFor (s.net.ifAddr.at1822 p.iHost p.iImp) a =
      Message.isFor s.net.ifAddr a := by
    funext m
    unfold Message.isFor Leader.dest
    rw [Addr.at1822, neta_at1822]
    rfl
  funext a
  unfold Flight.unanswered sentTo
  dsimp only
  rw [same]

theorem unanswered_noops (net : LocalNet) (answered : Addr → Nat) :
    Flight.unanswered ⟨impNoops env net, answered⟩ = Flight.unanswered ⟨net, answered⟩ := by
  funext a
  unfold Flight.unanswered
  dsimp only
  rw [sentTo_noops]

theorem covered_impDead (covered : Covered s.net.hosts s.unanswered) {p : Leader}
    (some : 0 < s.unanswered (p.source s.net.ifAddr))
    (last : hFind s.net.hosts (p.source s.net.ifAddr) ≠ none → s.unanswered (p.source s.net.ifAddr) = 1)
    (clean : ∀ hp, hFind s.net.hosts (p.source s.net.ifAddr) = Option.some hp →
      DeadClean env p hp s.unanswered (s.net.hosts.modify hp Host.down) s.net.ucbs) :
    Covered (impDead env s.net p).hosts
      (Flight.unanswered ⟨impDead env s.net p, oneMore s.answered (p.source s.net.ifAddr)⟩) := by
  have same : Flight.unanswered ⟨impDead env s.net p, oneMore s.answered (p.source s.net.ifAddr)⟩ =
      Flight.unanswered ⟨s.net, oneMore s.answered (p.source s.net.ifAddr)⟩ := by
    obtain ⟨ifAddr, _, outq⟩ := @impDead_frame env s.net p
    funext a
    unfold Flight.unanswered sentTo
    dsimp only
    rw [ifAddr, outq]
  have less (a : Addr) :
      Flight.unanswered ⟨s.net, oneMore s.answered (p.source s.net.ifAddr)⟩ a ≤ s.unanswered a := by
    rw [unanswered_oneMore]
    split <;> omega
  rw [same]
  unfold impDead
  split
  · exact covered.answered _
  rename_i hp found
  have down := @covered_clears s covered p some Host.down (fun h => ⟨rfl, rfl, rfl⟩) hp found
    (last (by rw [found]; exact Option.some_ne_none _))
  exact down.deadLoop (deadClean_fewer less (clean hp found))

theorem covered_rcv (covered : Covered s.net.hosts s.unanswered) {p : Leader}
    (once : p.isAnswer → 0 < s.unanswered (p.source s.net.ifAddr)) (keeps : KeepsWindow s (env, .rcv p)) :
    Covered (fly env s (.rcv p)).net.hosts (fly env s (.rcv p)).unanswered := by
  rw [fly]
  dsimp only
  by_cases leader : p.iNff = impNff
  · obtain ⟨reset, last, clean⟩ := keeps leader
    unfold impRcv
    rw [if_neg (not_not_intro leader)]
    by_cases answer : p.answers
    · have isAnswer : p.isAnswer := ⟨leader, answer⟩
      have some := once isAnswer
      rw [if_pos isAnswer]
      rcases answer with type | type | type | type
      · rw [type]
        exact covered_impRfnm covered p some
      · rw [type]
        exact covered_impRfnm covered p some
      · have last := last (Or.inl type)
        have clean := clean type
        rw [type]
        exact covered_impDead covered some last clean
      · have last := last (Or.inr type)
        rw [type]
        dsimp only
        rw [unanswered_noops]
        unfold impDerror
        split
        · exact covered.answered _
        · rename_i hp found
          exact @covered_clears s covered p some Host.cleared (fun h => ⟨rfl, rfl, rfl⟩) hp found
            (last (by rw [found]; exact Option.some_ne_none _))
    · have other : ¬ p.isAnswer := fun isAnswer => answer isAnswer.2
      rw [if_neg other]
      split
      · rename_i type
        rw [unanswered_noops]
        exact covered_hReset covered (reset type)
      · exact covered
      · rw [unanswered_nop]
        exact covered
      · rename_i type
        exact absurd (Or.inl type) answer
      · rename_i type
        exact absurd (Or.inr (Or.inl type)) answer
      · rename_i type
        exact absurd (Or.inr (Or.inr (Or.inl type))) answer
      · rename_i type
        exact absurd (Or.inr (Or.inr (Or.inr type))) answer
      all_goals exact covered
  · have other : ¬ p.isAnswer := fun isAnswer => leader isAnswer.1
    rw [if_neg other]
    unfold impRcv
    rw [if_pos leader]
    exact covered

theorem fly_covered {event : TableEvent} (covered : Covered s.net.hosts s.unanswered)
    (once : ∀ p, event = .rcv p → p.isAnswer → 0 < s.unanswered (p.source s.net.ifAddr))
    (keeps : KeepsWindow s (env, event)) :
    Covered (fly env s event).net.hosts (fly env s event).unanswered := by
  cases event with
  | snd mp => exact covered_snd covered keeps
  | rcv p => exact covered_rcv covered (once p rfl) keeps
  | make np temp => exact covered.hMake keeps
  | free hp => exact covered.hFree hp
  | connect ucbs => exact covered
  | ifUp => exact covered

end Steps

/-! ### Every run -/

/-- Before anything is sent. -/
def quietFlight (nhost : Nat) (ifAddr : Addr) : Flight := ⟨netinit nhost ifAddr, fun _ => 0⟩

theorem quietFlight_covered (nhost : Nat) (ifAddr : Addr) :
    Covered (quietFlight nhost ifAddr).net.hosts (quietFlight nhost ifAddr).unanswered := by
  have unused {hp : Nat} {h : Host} (entry : (List.replicate nhost Host.unused)[hp]? = some h) :
      h = Host.unused := List.eq_of_mem_replicate (List.mem_of_getElem? entry)
  refine ⟨fun i j hi hj entry _ nonzero _ => ?_, fun hp h entry => ?_, fun hp h entry => ?_, rfl⟩
  · rw [unused entry] at nonzero
    exact absurd rfl nonzero
  · rw [unused entry]
    rfl
  · rw [unused entry]
    exact ⟨Nat.le_refl 0, Nat.zero_le 8⟩

/-- In every run whose events keep the window, the count of an entry covers the messages to its host
that are not answered, and neither is more than eight. -/
theorem window_kept (nhost : Nat) (ifAddr : Addr) (history : List (Env × TableEvent)) (s : Flight)
    (run : Transition.Run (Transition.Guarded Flies KeepsWindow) (quietFlight nhost ifAddr) history s)
    (hp : Nat) (h : Host) (entry : s.net.hosts[hp]? = some h) :
    s.unanswered h.hAddr ≤ h.hRfnm ∧ h.hRfnm ≤ 8 := by
  have covered : Covered s.net.hosts s.unanswered := by
    refine run.always (fun s => Covered s.net.hosts s.unanswered) (quietFlight_covered nhost ifAddr) ?_
    rintro s ⟨env, event⟩ _ covered ⟨keeps, once, rfl⟩
    exact fly_covered covered once keeps
  exact covered.covers hp h entry

/-- The interface comes up and a message is sent. -/
def oneSent : Flight :=
  [(quietEnv, .ifUp), (quietEnv, .snd toHost1)].foldl (fun s event => fly event.1 s event.2)
    (quietFlight 20 0x0500020a)

/-- A message in flight. -/
theorem window_kept_one :
    oneSent.unanswered 0x0600010a ≤ 1 ∧ (1 : Nat) ≤ 8 :=
  window_kept 20 0x0500020a _ oneSent
    (Transition.Run.start.follows ⟨⟨trivial, fun _ other => (nomatch other), rfl⟩,
      ⟨fun _ _ => ⟨by decide, fun hp found => (Option.some_ne_none hp (found.symm.trans (by decide))).elim,
          fun _ _ _ => ⟨by decide, by decide⟩⟩,
        fun _ other => (nomatch other), rfl⟩, trivial⟩)
    0 (Host.fresh 0x0600010a true).counted rfl

theorem flies_snd (env : Env) (s : Flight) (mps : List Message) :
    Transition.Follows Flies (fun s event => fly event.1 s event.2) s
      (mps.map fun mp => (env, .snd mp)) := by
  induction mps generalizing s with
  | nil => trivial
  | cons mp rest inductionHypothesis =>
    exact ⟨⟨fun _ other => (nomatch other), rfl⟩, inductionHypothesis _⟩

/-- Nine messages are in flight to a host when nine have been given to `imp_snd`. -/
theorem nine_in_flight :
    ¬ ∀ (nhost : Nat) (ifAddr : Addr) (history : List (Env × TableEvent)) (s : Flight),
      Transition.Run Flies (quietFlight nhost ifAddr) history s →
      ∀ (hp : Nat) (h : Host), s.net.hosts[hp]? = some h →
        s.unanswered h.hAddr ≤ h.hRfnm ∧ h.hRfnm ≤ 8 := by
  intro kept
  have run : Transition.Run Flies (quietFlight 20 0x0500020a) [(quietEnv, .ifUp)]
      (fly quietEnv (quietFlight 20 0x0500020a) .ifUp) :=
    Transition.Run.start.step ⟨fun _ other => (nomatch other), rfl⟩
  have bound := (kept 20 0x0500020a _ _
    (run.follows (flies_snd quietEnv _ (List.replicate 9 toHost1))) 0
    ⟨0x0600010a, 9, 1, true, true, []⟩ rfl).2
  exact absurd bound (by decide)

end NetworkUnix.Bbnnet.Local
