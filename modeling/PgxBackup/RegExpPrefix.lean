import PgxBackup.StorageObject

/-!
# The prefix of a regular expression

`regExpPrefix` reads an expression up to its first special character, so that
an object store is only asked for names that begin with what was read. It does
not ask what the special character says about the character before it.

An expression is given by its syntax, from which its text follows. What an
expression matches depends on where in the string it is tried, since `^` and
`$` match at the ends only.
-/

namespace PgxBackup

open List

/-- How often an element is repeated. -/
inductive EreDup
  | star
  | plus
  | question
  | interval (text : Str) (min : ℕ) (max : Option ℕ)

/-- The characters that are not ordinary in an expression. -/
def ereSpecial : Str := ['^', '.', '[', '$', '(', ')', '|', '*', '+', '?', '{', '\\']

mutual

/-- An extended regular expression: one or more branches. -/
inductive Ere
  | branch (branch : EreBranch)
  | alt (branch : EreBranch) (rest : Ere)

/-- A branch: elements one after the other. -/
inductive EreBranch
  | nil
  | cons (atom : EreAtom) (dup : Option EreDup) (rest : EreBranch)

/-- An element. A bracket expression is given by its text and the characters
that it stands for. -/
inductive EreAtom
  | chr (c : Char) (hordinary : c ∉ ereSpecial)
  | escape (c : Char)
  | any
  | bracket (text : Str) (chars : Char → Bool)
  | bol
  | eol
  | group (ere : Ere)

end

/-! ## Text -/

def EreDup.text : EreDup → Str
  | star => ['*']
  | plus => ['+']
  | question => ['?']
  | interval text _ _ => '{' :: text ++ ['}']

mutual

def Ere.text : Ere → Str
  | .branch branch => branch.text
  | .alt branch rest => branch.text ++ '|' :: rest.text

def EreBranch.text : EreBranch → Str
  | .nil => []
  | .cons atom dup rest => atom.text ++ ((dup.map EreDup.text).getD [] ++ rest.text)

def EreAtom.text : EreAtom → Str
  | .chr c _ => [c]
  | .escape c => ['\\', c]
  | .any => ['.']
  | .bracket text _ => '[' :: text ++ [']']
  | .bol => ['^']
  | .eol => ['$']
  | .group ere => '(' :: ere.text ++ [')']

end

/-! ## Matches -/

/-- What a part of an expression matches: a word, with what is before and after
it in the string. -/
abbrev EreMatch := Str → Str → Str → Prop

/-- A number of matches one after the other. -/
def EreMatch.times (once : EreMatch) : ℕ → EreMatch
  | 0 => fun _ word _ => word = []
  | n + 1 => fun before word after => ∃ first rest, word = first ++ rest ∧
      once before first (rest ++ after) ∧ once.times n (before ++ first) rest after

/-- Is an element matched this often? -/
def EreDup.Allows : EreDup → ℕ → Prop
  | star, _ => True
  | plus, n => 1 ≤ n
  | question, n => n ≤ 1
  | interval _ min max, n => min ≤ n ∧ ∀ bound ∈ max, n ≤ bound

def EreMatch.repeated (once : EreMatch) : Option EreDup → EreMatch
  | none => once
  | some dup => fun before word after => ∃ n, dup.Allows n ∧ once.times n before word after

mutual

def Ere.Matches : Ere → EreMatch
  | .branch branch => branch.Matches
  | .alt branch rest => fun before word after =>
      branch.Matches before word after ∨ rest.Matches before word after

def EreBranch.Matches : EreBranch → EreMatch
  | .nil => fun _ word _ => word = []
  | .cons atom dup rest => fun before word after => ∃ first last, word = first ++ last ∧
      EreMatch.repeated atom.Matches dup before first (last ++ after) ∧
      rest.Matches (before ++ first) last after

def EreAtom.Matches : EreAtom → EreMatch
  | .chr c _ => fun _ word _ => word = [c]
  | .escape c => fun _ word _ => word = [c]
  | .any => fun _ word _ => ∃ c, word = [c]
  | .bracket _ chars => fun _ word _ => ∃ c, chars c = true ∧ word = [c]
  | .bol => fun before word _ => before = [] ∧ word = []
  | .eol => fun _ word after => after = [] ∧ word = []
  | .group ere => ere.Matches

end

/-- **`regexec` without flags**: a part of the string is matched. -/
def Ere.Search (ere : Ere) (s : Str) : Prop :=
  ∃ before word after, s = before ++ word ++ after ∧ ere.Matches before word after

/-! ## The prefix -/

theorem regExpPrefix_eq_some {expression : Option Str} {p : Str}
    (h : regExpPrefix expression = some p) :
    ∃ chars, expression = some ('^' :: chars) ∧ p = chars.takeWhile (fun c => c ∉ regExpPrefixEnd) ∧
      p ≠ [] := by
  unfold regExpPrefix at h
  split at h
  · rename_i chars
    dsimp only at h
    split at h
    · cases h
    · rename_i hne
      split at h
      · cases h
      · rw [← Option.some.inj h]
        exact ⟨chars, rfl, rfl, hne⟩
  · cases h

/-- An element may be matched no times. -/
def EreDup.optional : EreDup → Bool
  | star | question => true
  | plus => false
  | interval _ min _ => decide (min = 0)

/-- **The character before the one that ends the prefix must be there.** -/
def EreBranch.kept : EreBranch → Bool
  | .cons (.chr c _) none rest => decide (c ∈ regExpPrefixEnd) || rest.kept
  | .cons (.chr c _) (some dup) _ => decide (c ∈ regExpPrefixEnd) || !dup.optional
  | _ => true

theorem prefixEnd_dup (dup : EreDup) : ∃ c rest, dup.text = c :: rest ∧ c ∈ regExpPrefixEnd := by
  cases dup <;> exact ⟨_, _, rfl, by decide⟩

/-- The text of an element that is not an ordinary character ends the prefix. -/
theorem prefixEnd_atom (atom : EreAtom) :
    (∃ c hordinary, atom = .chr c hordinary) ∨
      ∃ c rest, atom.text = c :: rest ∧ c ∈ regExpPrefixEnd := by
  cases atom with
  | chr c hordinary => exact .inl ⟨c, hordinary, rfl⟩
  | escape | any | bracket | bol | eol | group =>
    rw [EreAtom.text]
    exact .inr ⟨_, _, rfl, by decide⟩

theorem takeWhile_prefixEnd {c : Char} (hend : c ∈ regExpPrefixEnd) {text rest : Str}
    (htext : text = c :: rest) (more : Str) :
    (text ++ more).takeWhile (fun c => c ∉ regExpPrefixEnd) = [] := by
  rw [htext, cons_append]
  exact takeWhile_cons_of_neg (by simpa using hend)

theorem EreMatch.repeated_first {once : EreMatch} {dup : EreDup} (hdup : dup.optional = false)
    {before word after : Str} (h : EreMatch.repeated once (some dup) before word after) :
    ∃ first rest, word = first ++ rest ∧ once before first (rest ++ after) := by
  obtain ⟨n, hallows, htimes⟩ := h
  have hpos : n ≠ 0 := by
    rintro rfl
    cases dup with
    | star | question => cases hdup
    | plus => exact absurd hallows (Nat.not_succ_le_zero 0)
    | interval text min max =>
      exact of_decide_eq_false hdup (Nat.le_zero.mp hallows.1)
  obtain ⟨n, rfl⟩ := Nat.exists_eq_succ_of_ne_zero hpos
  obtain ⟨first, rest, hword, honce, -⟩ := htimes
  exact ⟨first, rest, hword, honce⟩

/-- **What a branch matches begins with its ordinary characters.** The
induction is on the branch, up to the first element that ends the prefix. -/
theorem EreBranch.takeWhile_isPrefix (branch : EreBranch) (hkept : branch.kept = true)
    {before word after : Str} (h : branch.Matches before word after) :
    branch.text.takeWhile (fun c => c ∉ regExpPrefixEnd) <+: word := by
  match branch with
  | .nil =>
    rw [EreBranch.text]
    exact nil_prefix
  | .cons atom dup rest =>
    rw [EreBranch.text]
    rcases prefixEnd_atom atom with ⟨c, hordinary, rfl⟩ | ⟨c, more, htext, hend⟩
    · by_cases hend : c ∈ regExpPrefixEnd
      · rw [EreAtom.text, takeWhile_prefixEnd hend rfl]
        exact nil_prefix
      · rw [EreBranch.Matches] at h
        obtain ⟨first, last, rfl, hfirst, hlast⟩ := h
        rw [EreAtom.text, singleton_append, takeWhile_cons_of_pos (by simpa using hend)]
        cases dup with
        | none =>
          have hrest : rest.kept = true := by
            rwa [EreBranch.kept, decide_eq_false hend] at hkept
          rw [EreMatch.repeated, EreAtom.Matches] at hfirst
          rw [hfirst]
          exact (prefix_cons_inj c).mpr (rest.takeWhile_isPrefix hrest hlast)
        | some dup =>
          have hdup : dup.optional = false := by
            rwa [EreBranch.kept, decide_eq_false hend, Bool.false_or, Bool.not_eq_true'] at hkept
          obtain ⟨one, more, rfl, hone⟩ := EreMatch.repeated_first hdup hfirst
          rw [EreAtom.Matches] at hone
          obtain ⟨d, text, hdtext, hdend⟩ := prefixEnd_dup dup
          show c :: (dup.text ++ rest.text).takeWhile _ <+: _
          rw [takeWhile_prefixEnd hdend hdtext, hone]
          exact ⟨more ++ last, rfl⟩
    · rw [takeWhile_prefixEnd hend htext]
      exact nil_prefix

/-- **Is the prefix of an expression always there?** The expression has one
branch, and what ends the prefix does not make the character before it
optional. -/
def Ere.kept : Ere → Bool
  | .branch (.cons .bol _ rest) => rest.kept
  | .branch _ => true
  | .alt _ _ => false

/-- **The prefix of an expression** is found at the beginning of every string
that the expression matches, if it is always there. -/
theorem regExpPrefix_sound (ere : Ere) (hkept : ere.kept = true) {p s : Str}
    (hread : regExpPrefix (some ere.text) = some p) (hsearch : ere.Search s) : p <+: s := by
  obtain ⟨chars, htext, rfl, hne⟩ := regExpPrefix_eq_some hread
  replace htext := Option.some.inj htext
  obtain ⟨before, word, after, rfl, hmatch⟩ := hsearch
  cases ere with
  | alt => cases hkept
  | branch branch =>
    rw [Ere.text] at htext
    rw [Ere.Matches] at hmatch
    cases branch with
    | nil =>
      rw [EreBranch.text] at htext
      cases htext
    | cons atom dup rest =>
      rw [EreBranch.text] at htext
      cases atom with
      | bol =>
        rw [EreAtom.text, singleton_append, cons.injEq] at htext
        cases dup with
        | none =>
          rw [EreBranch.Matches] at hmatch
          obtain ⟨first, last, rfl, hfirst, hlast⟩ := hmatch
          rw [EreMatch.repeated, EreAtom.Matches] at hfirst
          obtain ⟨rfl, rfl⟩ := hfirst
          rw [← htext.2]
          exact (rest.takeWhile_isPrefix hkept hlast).trans ⟨after, rfl⟩
        | some dup =>
          obtain ⟨c, text, hdup, hend⟩ := prefixEnd_dup dup
          rw [← htext.2] at hne
          exact absurd (takeWhile_prefixEnd hend hdup _) hne
      | chr c hordinary =>
        rw [EreAtom.text, singleton_append, cons.injEq] at htext
        rw [htext.1] at hordinary
        exact absurd (by decide) hordinary
      | escape | any | bracket | eol | group =>
        rw [EreAtom.text] at htext
        exact absurd (cons.inj htext).1 (by decide)

/-- `^AB` with the last character repeated. -/
def ereAB (dup : EreDup) : Ere :=
  .branch (.cons .bol none (.cons (.chr 'A' (by decide)) none
    (.cons (.chr 'B' (by decide)) (some dup) .nil)))

/-- `^AB+` matches `ABB`, which begins with the prefix. -/
theorem regExpPrefix_sound_plus : "AB".toList <+: "ABB".toList := by
  refine regExpPrefix_sound (ereAB .plus) rfl (by decide) ⟨[], "ABB".toList, [], rfl, ?_⟩
  simp only [ereAB, Ere.Matches, EreBranch.Matches, EreAtom.Matches, EreMatch.repeated]
  exact ⟨[], _, rfl, ⟨trivial, rfl⟩, ['A'], _, rfl, rfl, "BB".toList, [], rfl,
    ⟨2, Nat.le_succ 1, ['B'], ['B'], rfl, rfl, ['B'], [], rfl, rfl, rfl⟩, rfl⟩

/-- **`^AB?` matches `A`**, which does not begin with the prefix. -/
theorem regExpPrefix_question : ¬ ∀ (ere : Ere) (p s : Str),
    regExpPrefix (some ere.text) = some p → ere.Search s → p <+: s := by
  intro h
  refine absurd (h (ereAB .question) "AB".toList ['A'] rfl ⟨[], ['A'], [], rfl, ?_⟩) (by decide)
  simp only [ereAB, Ere.Matches, EreBranch.Matches, EreAtom.Matches, EreMatch.repeated]
  exact ⟨[], _, rfl, ⟨trivial, rfl⟩, ['A'], _, rfl, rfl, [], [], rfl, ⟨0, Nat.zero_le 1, rfl⟩, rfl⟩

end PgxBackup
