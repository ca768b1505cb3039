/-
This file models how a script of MMDF watches for a string on the line: the matcher that reads
characters and pushes them back when they do not match, and the loop around it that drops a
character and tries again. A timeout and an error of the port are negative values that go through
the same tests as a string that is not there; the file says for which streams the answer is right
all the same.
-/

import NetworkUnix.Mmdf.Rml

namespace NetworkUnix.Mmdf.Dlopen

/-! ### The line -/

/-- PUSHBACK -/
def pushback : Nat := 64

def ok : Int := 0
def esystem : Int := -1
def euser : Int := -2
def etimeout : Int := -4

/-- What ends the stream: the alarm in a read, or the port, of which every later read fails too. -/
inductive Ending
  | alarm
  | failure
  deriving DecidableEq

/-- What `d_rawgetc` returns then. -/
def Ending.code : Ending → Int
  | .alarm => etimeout
  | .failure => esystem

/-- The characters pushed back, the last one first, and those that the line still gives; `most` is
the greatest number that were pushed back at a time. -/
structure Line where
  inque : List Byte
  input : List Byte
  most : Nat
  deriving DecidableEq

namespace Line

/-- The characters that are read next. -/
def chars (line : Line) : List Byte := line.inque ++ line.input

/-- d_rawgetc, which returns nothing where the stream has ended. -/
def rawgetc (line : Line) : Option (Byte × Line) :=
  match line.inque, line.input with
  | c :: inque, _ => some (c, { line with inque })
  | [], c :: input => some (c, { line with input })
  | [], [] => none

/-- und_rawgetc -/
def unRawgetc (c : Byte) (line : Line) : Line :=
  { line with inque := c :: line.inque, most := max line.most (line.inque.length + 1) }

variable (ending : Ending)

/-- d_match -/
def dMatch : List Byte → Line → Int × Line
  | [], line => (1, line)
  | a :: string, line =>
    match line.rawgetc with
    | none => (ending.code, line)
    | some (c, line) =>
      if c = a then
        let result := dMatch string line
        if result.1 < 0 then (result.1, result.2.unRawgetc c) else (1, result.2)
      else (-1, line.unRawgetc c)

/-! ### The matcher -/

variable {ending : Ending}

theorem rawgetc_none {line : Line} (none : line.rawgetc = none) : line.chars = [] := by
  obtain ⟨inque, input, most⟩ := line
  cases inque <;> cases input <;> simp [rawgetc, chars] at none ⊢

theorem rawgetc_some {line after : Line} {c : Byte} (some : line.rawgetc = some (c, after)) :
    line.chars = c :: after.chars ∧ after.inque.length ≤ line.inque.length - 1 ∧
      after.most = line.most := by
  obtain ⟨inque, input, most⟩ := line
  cases inque with
  | nil =>
    cases input with
    | nil => cases some
    | cons c' input =>
      cases some
      exact ⟨rfl, Nat.le_refl _, rfl⟩
  | cons c' inque =>
    cases some
    exact ⟨rfl, Nat.le_refl _, rfl⟩

theorem ending_neg : ending.code < 0 := by cases ending <;> decide

/-- What `d_match` does: it eats the string where it comes next, and otherwise reads nothing in the
end, with the failure of the stream where that ends within the string. -/
structure Matched (ending : Ending) (string : List Byte) (line : Line) (result : Int × Line) :
    Prop where
  found : string <+: line.chars → result.1 = 1 ∧ line.chars = string ++ result.2.chars
  missed : ¬ string <+: line.chars → result.2.chars = line.chars ∧
    result.1 = if line.chars <+: string then ending.code else -1
  inque : result.2.inque.length ≤ max line.inque.length string.length
  most : result.2.most ≤ max line.most (max line.inque.length string.length)

theorem dMatch_matched (string : List Byte) (line : Line) :
    Matched ending string line (dMatch ending string line) := by
  induction string generalizing line with
  | nil =>
    exact ⟨fun _ => ⟨rfl, rfl⟩, fun missed => absurd (List.nil_prefix) missed,
      Nat.le_max_left _ _, Nat.le_max_left _ _⟩
  | cons a string inductionHypothesis =>
    unfold dMatch
    cases read : line.rawgetc with
    | none =>
      have empty := rawgetc_none read
      refine ⟨fun found => ?_, fun _ => ⟨rfl, ?_⟩, Nat.le_max_left _ _, Nat.le_max_left _ _⟩
      · rw [empty] at found
        exact absurd (List.prefix_nil.mp found) (List.cons_ne_nil a string)
      · rw [empty, if_pos List.nil_prefix]
    | some taken =>
      obtain ⟨c, after⟩ := taken
      obtain ⟨chars, fewer, most⟩ := rawgetc_some read
      dsimp only
      by_cases same : c = a
      · subst same
        rw [if_pos rfl]
        have rest := inductionHypothesis after
        by_cases found : string <+: after.chars
        · obtain ⟨value, eaten⟩ := rest.found found
          rw [if_neg (by rw [value]; decide)]
          refine ⟨fun _ => ⟨rfl, ?_⟩, fun missed => absurd ?_ missed, ?_, ?_⟩
          · rw [chars, eaten]
            rfl
          · rw [chars]
            exact (List.prefix_cons_inj c).mpr found
          · have inque := rest.inque
            simp only [List.length_cons]
            omega
          · have less := rest.most
            simp only [List.length_cons]
            omega
        · obtain ⟨kept, value⟩ := rest.missed found
          have negative : (dMatch ending string after).1 < 0 := by
            rw [value]
            split_ifs
            · exact ending_neg
            · decide
          rw [if_pos negative]
          refine ⟨fun found' => absurd ?_ found, fun _ => ⟨?_, ?_⟩, ?_, ?_⟩
          · rw [chars] at found'
            exact (List.prefix_cons_inj c).mp found'
          · rw [chars, ← kept]
            rfl
          · rw [chars]
            simp only [List.prefix_cons_inj]
            exact value
          · have inque := rest.inque
            simp only [unRawgetc, List.length_cons]
            omega
          · have less := rest.most
            have inque := rest.inque
            simp only [unRawgetc, List.length_cons]
            omega
      · rw [if_neg same]
        refine ⟨fun found => ?_, fun _ => ⟨?_, ?_⟩, ?_, ?_⟩
        · rw [chars, List.cons_prefix_cons] at found
          exact absurd found.1.symm same
        · rw [chars]
          rfl
        · rw [chars, if_neg fun inside => same (List.cons_prefix_cons.mp inside).1]
        · simp only [unRawgetc, List.length_cons]
          omega
        · simp only [unRawgetc, List.length_cons]
          omega

/-! ### The loop -/

theorem Matched.dropped {string : List Byte} {line : Line} {result : Int × Line}
    (matched : Matched ending string line result) (value : result.1 = -1) :
    ¬ string <+: line.chars ∧ result.2.chars = line.chars := by
  have missed : ¬ string <+: line.chars := fun found => by
    rw [(matched.found found).1] at value
    exact absurd value (by decide)
  exact ⟨missed, (matched.missed missed).1⟩

variable (ending)

/-- The loop of d_strwatch. -/
def watch (string : List Byte) (line : Line) : Int × Line :=
  if _ : (dMatch ending string line).1 = -1 then
    match _ : (dMatch ending string line).2.rawgetc with
    | none => (euser, (dMatch ending string line).2)
    | some (_, after) => watch string after
  else if (dMatch ending string line).1 = -2 then (euser, (dMatch ending string line).2)
  else (ok, (dMatch ending string line).2)
termination_by line.chars.length
decreasing_by
  rename_i value _ read
  rw [← ((dMatch_matched string line).dropped value).2, (rawgetc_some read).1]
  exact Nat.lt_succ_self _

/-- d_strwatch -/
def strwatch (string : List Byte) (line : Line) : Int × Line :=
  if pushback < string.length then (euser, line) else watch ending string line

/-- What is left when the first occurrence of a string has been read. -/
def FirstAt (string chars rest : List Byte) : Prop :=
  ∃ before, chars = before ++ string ++ rest ∧
    ∀ early, early ++ string <+: chars → before.length ≤ early.length

/-- The answer of `d_strwatch` is right: it is OK when the string comes, with what is behind its
first occurrence left to read, and negative when it does not; the characters pushed back have had
room. -/
structure Watches (string : List Byte) (line : Line) (result : Int × Line) : Prop where
  ok_iff : result.1 = ok ↔ string <:+: line.chars
  eaten : string <:+: line.chars → FirstAt string line.chars result.2.chars
  negative : ¬ string <:+: line.chars → result.1 < 0
  room : result.2.most ≤ pushback

/-- What the loop does. -/
structure Watched (string : List Byte) (line : Line) (result : Int × Line) : Prop where
  found : string <:+: line.chars →
    result.1 = ok ∧ FirstAt string line.chars result.2.chars
  missed : ¬ string <:+: line.chars → result.1 = if ending = .alarm then ok else euser
  most : result.2.most ≤ max line.most (max line.inque.length string.length)

variable {ending}

theorem FirstAt.cons {string chars rest : List Byte} (first : FirstAt string chars rest) {c : Byte}
    (missed : ¬ string <+: c :: chars) : FirstAt string (c :: chars) rest := by
  obtain ⟨before, split, least⟩ := first
  refine ⟨c :: before, by rw [split]; rfl, fun early inside => ?_⟩
  cases early with
  | nil => exact absurd inside missed
  | cons c' early =>
    exact Nat.succ_le_succ (least early (List.cons_prefix_cons.mp inside).2)

theorem watch_watched (string : List Byte) (line : Line) :
    Watched ending string line (watch ending string line) := by
  fun_induction watch ending string line with
  | case1 line value read =>
    have matched : Matched ending string line _ := dMatch_matched string line
    obtain ⟨missed, kept⟩ := matched.dropped value
    have empty : line.chars = [] := kept.symm.trans (rawgetc_none read)
    rw [(matched.missed missed).2, empty, if_pos List.nil_prefix] at value
    have failure : ending ≠ .alarm := by
      rintro rfl
      exact absurd value (by decide)
    refine ⟨fun found => absurd ?_ missed, fun _ => (if_neg failure).symm, matched.most⟩
    rw [empty] at found ⊢
    exact List.prefix_nil.mpr (List.infix_nil.mp found)
  | case2 line value c after read inductionHypothesis =>
    have matched : Matched ending string line _ := dMatch_matched string line
    obtain ⟨missed, kept⟩ := matched.dropped value
    obtain ⟨chars, fewer, most⟩ := rawgetc_some read
    rw [kept] at chars
    rw [chars] at missed
    have infix_iff : string <:+: line.chars ↔ string <:+: after.chars := by
      rw [chars, List.infix_cons_iff, or_iff_right missed]
    refine ⟨fun found => ?_, fun absent => ?_, ?_⟩
    · obtain ⟨value, first⟩ := inductionHypothesis.found (infix_iff.mp found)
      refine ⟨value, ?_⟩
      rw [chars]
      exact first.cons missed
    · exact inductionHypothesis.missed (mt infix_iff.mpr absent)
    · have := inductionHypothesis.most
      have := matched.most
      have := matched.inque
      omega
  | case3 line value user =>
    exfalso
    have matched : Matched ending string line _ := dMatch_matched string line
    by_cases found : string <+: line.chars
    · rw [(matched.found found).1] at user
      exact absurd user (by decide)
    · rw [(matched.missed found).2] at user
      split_ifs at user
      · cases ending <;> exact absurd user (by decide)
      · exact absurd user (by decide)
  | case4 line value user =>
    have matched : Matched ending string line _ := dMatch_matched string line
    by_cases found : string <+: line.chars
    · obtain ⟨_, eaten⟩ := matched.found found
      exact ⟨fun _ => ⟨rfl, [], eaten, fun _ _ => Nat.zero_le _⟩,
        fun absent => absurd found.isInfix absent, matched.most⟩
    · have isCode := (matched.missed found).2
      split_ifs at isCode with inside
      · have alarm : ending = .alarm := by
          cases ending with
          | alarm => rfl
          | failure => exact absurd isCode value
        refine ⟨fun infixed => absurd ?_ found, fun _ => (if_pos alarm).symm, matched.most⟩
        have same := inside.eq_of_length (Nat.le_antisymm inside.length_le infixed.length_le)
        exact same ▸ List.prefix_rfl
      · exact absurd isCode value

/-- The answer of `d_strwatch` is right exactly when the string comes or it is the port that ends
the stream. -/
theorem strwatch_iff {string : List Byte} {line : Line} (short : string.length ≤ pushback)
    (queue : line.inque.length ≤ pushback) (most : line.most ≤ pushback) :
    Watches string line (strwatch ending string line) ↔
      string <:+: line.chars ∨ ending = .failure := by
  have watched : Watched ending string line _ := watch_watched string line
  unfold strwatch
  rw [if_neg (Nat.not_lt.mpr short)]
  constructor
  · intro watches
    by_contra neither
    obtain ⟨absent, alarm⟩ := not_or.mp neither
    have negative := watches.negative absent
    rw [watched.missed absent, if_pos (by cases ending <;> first | rfl | exact absurd rfl alarm)]
      at negative
    exact absurd negative (by decide)
  · intro either
    have missed (absent : ¬ string <:+: line.chars) : (watch ending string line).1 = euser := by
      rw [watched.missed absent, if_neg]
      rw [either.resolve_left absent]
      exact Ending.noConfusion
    refine ⟨⟨fun isOk => ?_, fun found => (watched.found found).1⟩,
      fun found => (watched.found found).2, fun absent => ?_, ?_⟩
    · by_contra absent
      rw [missed absent] at isOk
      exact absurd isOk (by decide)
    · rw [missed absent]
      decide
    · have := watched.most
      omega

/-- A string that comes behind another character. -/
theorem strwatch_iff_login : Watches [0x6C, 0x6F] ⟨[], [0x20, 0x6C, 0x6F, 0x67], 0⟩
    (strwatch .alarm [0x6C, 0x6F] ⟨[], [0x20, 0x6C, 0x6F, 0x67], 0⟩) :=
  (strwatch_iff (by decide) (by decide) (by decide)).mpr (.inl ⟨[0x20], [0x67], rfl⟩)

/-- Nothing comes until the alarm, and the answer is OK. -/
theorem strwatch_late : ¬ Watches [0x6C] ⟨[], [], 0⟩ (strwatch .alarm [0x6C] ⟨[], [], 0⟩) := by
  intro watches
  have isOk : (strwatch .alarm [0x6C] ⟨[], [], 0⟩).1 = ok := by
    unfold strwatch watch
    rfl
  exact absurd (watches.ok_iff.mp isOk).length_le (by decide)

end Line

end NetworkUnix.Mmdf.Dlopen
