/-
  Regular expressions with word boundaries.

  An expression matches a word between the characters before and after it, of
  which it sees whether they belong to a word.  `run` tries the ways to match
  from a position, the preferred one first; `matchString` searches a text.

  `mem_run` and `matchString_iff` say what they compute.  A match in a part of a
  text is one in the whole text if the cut on the left follows no character of
  a word (`matchString_append_left`), and unless it ends at the cut on the right
  where that divides a word (`matchString_append_right`).  Whether what follows a
  match matters can be read off the expression (`steady`).
-/
import Mathlib.Tactic
import Mathlib.Data.List.Basic

namespace HomeLab

/-- An expression; repetitions are of single characters. -/
inductive Regex where
  | empty
  | one (p : Char → Bool)
  | repeats (p : Char → Bool) (least : ℕ) (most : Option ℕ)
  | seq (r s : Regex)
  | alt (r s : Regex)
  | boundary

namespace Regex

/-- ASCII letters, digits and the underscore. -/
def isWord (c : Char) : Bool := c.isAlphanum || c = '_'

def wordAt (c : Option Char) : Bool := c.any isWord

/-! ## Searching -/

/-- Between `least` and `most` characters, as many as there are first. -/
def repetitions (p : Char → Bool) (least : ℕ) (most : Option ℕ) (before : Option Char)
    (rest : List Char) : List (Option Char × List Char) :=
  (match rest with
    | [] => []
    | c :: cs =>
      if p c = true ∧ most ≠ some 0 then
        repetitions p (least - 1) (most.map (· - 1)) (some c) cs
      else []) ++
  if least = 0 then [(before, rest)] else []

/-- The positions after a match at the given one: the character before and what follows. -/
def run : Regex → Option Char → List Char → List (Option Char × List Char)
  | empty, before, rest => [(before, rest)]
  | one _, _, [] => []
  | one p, _, c :: cs => if p c then [(some c, cs)] else []
  | repeats p least most, before, rest => repetitions p least most before rest
  | seq r s, before, rest => (r.run before rest).flatMap fun x => s.run x.1 x.2
  | alt r s, before, rest => r.run before rest ++ s.run before rest
  | boundary, before, rest => if wordAt before ≠ wordAt rest.head? then [(before, rest)] else []

def search (r : Regex) : Option Char → List Char → Bool
  | before, [] => !(r.run before []).isEmpty
  | before, c :: cs => !(r.run before (c :: cs)).isEmpty || r.search (some c) cs

def matchString (r : Regex) (text : List Char) : Bool := r.search none text

/-- Replace the matches from left to right; `n` bounds the length of the text. -/
def replaceFrom (r : Regex) (new : List Char) : ℕ → Option Char → List Char → List Char
  | 0, _, rest => rest
  | _ + 1, _, [] => []
  | n + 1, before, c :: cs =>
    match (r.run before (c :: cs)).head? with
    | none => c :: r.replaceFrom new n (some c) cs
    | some x => new ++ r.replaceFrom new n x.1 x.2

def replaceAllString (r : Regex) (text new : List Char) : List Char :=
  r.replaceFrom new text.length none text

/-! ## Writing expressions -/

/-- The ASCII character that a character is taken for if case does not matter, in
    lower case.  The Kelvin sign and the long s fold to ASCII letters. -/
def fold (c : Char) : Char :=
  if c.isUpper then c.toLower
  else if c = '\u212a' then 'k'
  else if c = '\u017f' then 's'
  else c

/-- A class of characters, whatever their case; it is given in lower case. -/
def caseless (p : Char → Bool) (c : Char) : Bool := p (fold c)

/-- A text, character by character. -/
def literal (same : Char → Char → Bool) (text : String) : Regex :=
  text.toList.foldr (fun c r => seq (one (same c)) r) empty

def exactText (text : String) : Regex := literal (fun c d => d = c) text

def caselessText (text : String) : Regex := literal (fun c d => fold d = c) text

def sequence (rs : List Regex) : Regex := rs.foldr seq empty

def anyOf : List Regex → Regex
  | [] => repeats (fun _ => false) 1 none
  | [r] => r
  | r :: s :: rs => alt r (anyOf (s :: rs))

/-- The expression or nothing. -/
def optional (r : Regex) : Regex := alt r empty

def isSpace (c : Char) : Bool := c = ' ' || c = '\t' || c = '\n' || c = '\x0c' || c = '\r'

/-- `[^\s/@:]`, a user name before a host -/
def userChar (c : Char) : Bool := !(isSpace c || c = '/' || c = '@' || c = ':')

/-- `[^\s/@]`, a password before a host -/
def passwordChar (c : Char) : Bool := !(isSpace c || c = '/' || c = '@')

/-- `name[_-]?key`, whatever its case -/
def keyName (name : String) : Regex :=
  sequence [caselessText name, optional (one fun c => c = '_' || c = '-'), caselessText "key"]

/-! ## Matches -/

/-- The expression matches the word between the characters before and after it. -/
def Matches : Regex → Option Char → List Char → Option Char → Prop
  | empty, _, w, _ => w = []
  | one p, _, w, _ => ∃ c, w = [c] ∧ p c = true
  | repeats p least most, _, w, _ =>
    (∀ c ∈ w, p c = true) ∧ least ≤ w.length ∧ ∀ n ∈ most, w.length ≤ n
  | seq r s, before, w, after => ∃ u v, w = u ++ v ∧ r.Matches before u (v.head?.or after) ∧
      s.Matches (u.getLast?.or before) v after
  | alt r s, before, w, after => r.Matches before w after ∨ s.Matches before w after
  | boundary, before, w, after => w = [] ∧ wordAt before ≠ wordAt after

theorem getLast?_cons_or {c : Char} (w : List Char) (before : Option Char) :
    (c :: w).getLast?.or before = w.getLast?.or (some c) := by
  rw [List.getLast?_cons]
  cases w.getLast? <;> rfl

theorem mem_repetitions {p : Char → Bool} {least : ℕ} {most : Option ℕ} {before b : Option Char}
    {rest t : List Char} :
    (b, t) ∈ repetitions p least most before rest ↔
      ∃ w, rest = w ++ t ∧ b = w.getLast?.or before ∧ (repeats p least most).Matches before w t.head? := by
  have hstop : (b, t) ∈ (if least = 0 then [(before, rest)] else []) ↔
      least = 0 ∧ b = before ∧ t = rest := by
    by_cases h : least = 0 <;> simp [h]
  induction rest generalizing least most before with
  | nil =>
    rw [repetitions, List.nil_append, hstop]
    constructor
    · rintro ⟨rfl, rfl, rfl⟩
      exact ⟨[], rfl, rfl, by simp [Matches]⟩
    · rintro ⟨w, hw, rfl, -, hleast, -⟩
      obtain ⟨rfl, rfl⟩ := List.append_eq_nil_iff.1 hw.symm
      exact ⟨Nat.le_zero.1 hleast, rfl, rfl⟩
  | cons c cs ih =>
    rw [repetitions, List.mem_append, hstop]
    constructor
    · rintro (h | ⟨rfl, rfl, rfl⟩)
      · split_ifs at h with hc
        · obtain ⟨w, rfl, rfl, hall, hleast, hmost⟩ := (ih (by
            by_cases h : least - 1 = 0 <;> simp [h])).1 h
          refine ⟨c :: w, rfl, (getLast?_cons_or w before).symm,
            List.forall_mem_cons.2 ⟨hc.1, hall⟩, by simp only [List.length_cons]; omega, ?_⟩
          intro n hn
          have hn' := hmost (n - 1) (by rw [Option.mem_def.1 hn]; rfl)
          have hn0 : n ≠ 0 := fun h0 => hc.2 (by rw [Option.mem_def.1 hn, h0])
          simp only [List.length_cons]
          omega
        · cases h
      · exact ⟨[], rfl, rfl, by simp [Matches]⟩
    · rintro ⟨w, hw, rfl, hall, hleast, hmost⟩
      cases w with
      | nil => exact Or.inr ⟨Nat.le_zero.1 hleast, rfl, hw.symm⟩
      | cons d w =>
        obtain ⟨rfl, rfl⟩ := List.cons.inj hw
        obtain ⟨hd, hall⟩ := List.forall_mem_cons.1 hall
        simp only [List.length_cons] at hleast hmost
        refine Or.inl ?_
        rw [if_pos ⟨hd, fun h0 => by have := hmost 0 h0; omega⟩]
        refine (ih (by by_cases h : least - 1 = 0 <;> simp [h])).2
          ⟨w, rfl, getLast?_cons_or w before, hall, by omega, ?_⟩
        intro n hn
        obtain ⟨m, hm, rfl⟩ := Option.map_eq_some_iff.1 hn
        have := hmost m hm
        omega

/-- **What `run` finds.** -/
theorem mem_run {r : Regex} {before b : Option Char} {rest t : List Char} :
    (b, t) ∈ r.run before rest ↔
      ∃ w, rest = w ++ t ∧ b = w.getLast?.or before ∧ r.Matches before w t.head? := by
  induction r generalizing before b rest t with
  | empty => simp [run, Matches, eq_comm, and_comm]
  | one p =>
    cases rest with
    | nil => simp [run, Matches]
    | cons c cs =>
      by_cases hc : p c = true
      · simp only [run, hc, if_true, List.mem_singleton, Prod.mk.injEq, Matches]
        constructor
        · rintro ⟨rfl, rfl⟩
          exact ⟨[c], rfl, rfl, c, rfl, hc⟩
        · rintro ⟨-, heq, rfl, d, rfl, -⟩
          obtain ⟨rfl, rfl⟩ := List.cons.inj heq
          exact ⟨rfl, rfl⟩
      · simp only [run, hc, Bool.false_eq_true, if_false, List.not_mem_nil, Matches, false_iff]
        rintro ⟨-, heq, -, d, rfl, hd⟩
        obtain ⟨rfl, -⟩ := List.cons.inj heq
        exact hc hd
  | repeats p least most => exact mem_repetitions
  | seq r s ihr ihs =>
    simp only [run, List.mem_flatMap, Prod.exists, Matches]
    constructor
    · rintro ⟨b', t', hr, hs⟩
      obtain ⟨u, rfl, rfl, hu⟩ := ihr.1 hr
      obtain ⟨v, rfl, rfl, hv⟩ := ihs.1 hs
      refine ⟨u ++ v, (List.append_assoc u v t).symm, ?_, u, v, rfl, ?_, hv⟩
      · rw [List.getLast?_append, Option.or_assoc]
      · rw [List.head?_append] at hu
        exact hu
    · rintro ⟨-, rfl, rfl, u, v, rfl, hu, hv⟩
      refine ⟨u.getLast?.or before, v ++ t, ihr.2 ⟨u, List.append_assoc u v t, rfl, ?_⟩,
        ihs.2 ⟨v, rfl, ?_, hv⟩⟩
      · rw [List.head?_append]
        exact hu
      · rw [List.getLast?_append, Option.or_assoc]
  | alt r s ihr ihs =>
    simp only [run, List.mem_append, ihr, ihs, Matches]
    constructor
    · rintro (⟨w, h1, h2, h3⟩ | ⟨w, h1, h2, h3⟩)
      · exact ⟨w, h1, h2, Or.inl h3⟩
      · exact ⟨w, h1, h2, Or.inr h3⟩
    · rintro ⟨w, h1, h2, h3 | h3⟩
      · exact Or.inl ⟨w, h1, h2, h3⟩
      · exact Or.inr ⟨w, h1, h2, h3⟩
  | boundary =>
    simp only [run, Matches]
    constructor
    · intro h
      split_ifs at h with hword
      · obtain ⟨rfl, rfl⟩ := Prod.mk.inj (List.mem_singleton.1 h)
        exact ⟨[], rfl, rfl, rfl, hword⟩
      · cases h
    · rintro ⟨-, rfl, rfl, rfl, hword⟩
      rw [List.nil_append, if_pos hword]
      exact List.mem_singleton_self _

theorem run_isEmpty {r : Regex} {before : Option Char} {rest : List Char} :
    (!(r.run before rest).isEmpty) = true ↔
      ∃ w v, rest = w ++ v ∧ r.Matches before w v.head? := by
  rw [Bool.not_eq_true', List.isEmpty_eq_false_iff_exists_mem]
  constructor
  · rintro ⟨⟨b, v⟩, hmem⟩
    obtain ⟨w, hw, -, hmatch⟩ := mem_run.1 hmem
    exact ⟨w, v, hw, hmatch⟩
  · rintro ⟨w, v, hw, hmatch⟩
    exact ⟨(_, v), mem_run.2 ⟨w, hw, rfl, hmatch⟩⟩

theorem search_iff {r : Regex} {before : Option Char} {text : List Char} :
    r.search before text = true ↔
      ∃ u w v, text = u ++ (w ++ v) ∧ r.Matches (u.getLast?.or before) w v.head? := by
  induction text generalizing before with
  | nil =>
    rw [search, run_isEmpty]
    constructor
    · rintro ⟨w, v, hw, hmatch⟩
      exact ⟨[], w, v, hw, hmatch⟩
    · rintro ⟨u, w, v, htext, hmatch⟩
      obtain ⟨rfl, hw⟩ := List.append_eq_nil_iff.1 htext.symm
      exact ⟨w, v, hw.symm, hmatch⟩
  | cons c cs ih =>
    rw [search, Bool.or_eq_true, run_isEmpty, ih]
    constructor
    · rintro (⟨w, v, hw, hmatch⟩ | ⟨u, w, v, rfl, hmatch⟩)
      · exact ⟨[], w, v, hw, hmatch⟩
      · exact ⟨c :: u, w, v, rfl, (getLast?_cons_or u before).symm ▸ hmatch⟩
    · rintro ⟨u, w, v, htext, hmatch⟩
      cases u with
      | nil => exact Or.inl ⟨w, v, htext, hmatch⟩
      | cons d u =>
        obtain ⟨rfl, rfl⟩ := List.cons.inj htext
        exact Or.inr ⟨u, w, v, rfl, getLast?_cons_or u before ▸ hmatch⟩

theorem matchString_iff {r : Regex} {text : List Char} :
    r.matchString text = true ↔
      ∃ u w v, text = u ++ (w ++ v) ∧ r.Matches u.getLast? w v.head? := by
  simp only [matchString, search_iff, Option.or_none]

/-! ## Parts of texts -/

/-- Only whether the character before belongs to a word matters. -/
theorem Matches.before {r : Regex} {b b' after : Option Char} {w : List Char}
    (h : r.Matches b w after) (hb : wordAt b = wordAt b') : r.Matches b' w after := by
  induction r generalizing b b' after w with
  | empty | one | repeats => exact h
  | seq r s ihr ihs =>
    obtain ⟨u, v, rfl, hr, hs⟩ := h
    refine ⟨u, v, rfl, ihr hr hb, ihs hs ?_⟩
    cases u.getLast? with
    | none => exact hb
    | some c => rfl
  | alt r s ihr ihs => exact h.imp (ihr · hb) (ihs · hb)
  | boundary => exact ⟨h.1, hb ▸ h.2⟩

/-- The character after matters only if there is a boundary at the end of the word. -/
theorem Matches.after {r : Regex} {before a a' : Option Char} {w : List Char}
    (h : r.Matches before w a)
    (ha : wordAt (w.getLast?.or before) ≠ wordAt a → wordAt (w.getLast?.or before) ≠ wordAt a') :
    r.Matches before w a' := by
  induction r generalizing before a a' w with
  | empty | one | repeats => exact h
  | seq r s ihr ihs =>
    obtain ⟨u, v, rfl, hr, hs⟩ := h
    rw [List.getLast?_append, Option.or_assoc] at ha
    refine ⟨u, v, rfl, ihr hr ?_, ihs hs ha⟩
    cases v with
    | nil => exact ha
    | cons c v => exact id
  | alt r s ihr ihs => exact h.imp (ihr · ha) (ihs · ha)
  | boundary =>
    obtain ⟨rfl, hword⟩ := h
    exact ⟨rfl, ha hword⟩

/-- **A match after a cut is one in the whole text**, unless the cut follows a character of
    a word. -/
theorem matchString_append_left {r : Regex} {u text : List Char} (hu : wordAt u.getLast? = false)
    (h : r.matchString text = true) : r.matchString (u ++ text) = true := by
  obtain ⟨x, w, v, rfl, hmatch⟩ := matchString_iff.1 h
  refine matchString_iff.2 ⟨u ++ x, w, v, (List.append_assoc u x (w ++ v)).symm, ?_⟩
  rw [List.getLast?_append]
  refine hmatch.before ?_
  cases x.getLast? with
  | none => exact hu.symm
  | some c => rfl

/-- **A match before a cut is one in the whole text**, unless it ends at the cut, which divides a
    word. -/
theorem matchString_append_right {r : Regex} {text : List Char} (v : List Char)
    (h : r.matchString text = true) :
    r.matchString (text ++ v) = true ∨ ∃ u w, text = u ++ w ∧ r.Matches u.getLast? w none ∧
      wordAt (w.getLast?.or u.getLast?) = true ∧ wordAt v.head? = true := by
  obtain ⟨x, w, y, rfl, hmatch⟩ := matchString_iff.1 h
  have hwhole (hnext : r.Matches x.getLast? w (y ++ v).head?) :
      r.matchString (x ++ (w ++ y) ++ v) = true :=
    matchString_iff.2 ⟨x, w, y ++ v, by simp only [List.append_assoc], hnext⟩
  cases y with
  | cons c y => exact Or.inl (hwhole hmatch)
  | nil =>
    by_cases hcut : wordAt (w.getLast?.or x.getLast?) = true ∧ wordAt v.head? = true
    · exact Or.inr ⟨x, w, by rw [List.append_nil], hmatch, hcut⟩
    · refine Or.inl (hwhole (hmatch.after fun hend => ?_))
      have hlast : wordAt (w.getLast?.or x.getLast?) = true := by simpa [wordAt] using hend
      rw [List.nil_append, hlast]
      exact fun hword => hcut ⟨hlast, hword.symm⟩

/-! ## What follows a match -/

/-- The expression matches no empty word. -/
def consumes : Regex → Bool
  | one _ => true
  | repeats _ least _ => 0 < least
  | seq r s => r.consumes || s.consumes
  | alt r s => r.consumes && s.consumes
  | _ => false

/-- What follows a match does not matter. -/
def steady : Regex → Bool
  | boundary => false
  | seq r s => s.steady && (r.steady || s.consumes)
  | alt r s => r.steady && s.steady
  | _ => true

theorem Matches.ne_nil {r : Regex} {before after : Option Char} {w : List Char}
    (h : r.Matches before w after) (hr : r.consumes = true) : w ≠ [] := by
  induction r generalizing before after w with
  | empty => cases hr
  | one p =>
    obtain ⟨c, rfl, -⟩ := h
    exact List.cons_ne_nil c []
  | repeats p least most =>
    rintro rfl
    exact absurd (h.2.1.trans_lt' (of_decide_eq_true hr)) (Nat.lt_irrefl _)
  | seq r s ihr ihs =>
    obtain ⟨u, v, rfl, hu, hv⟩ := h
    rcases Bool.or_eq_true_iff.1 hr with hr | hr
    · exact fun hnil => ihr hu hr (List.append_eq_nil_iff.1 hnil).1
    · exact fun hnil => ihs hv hr (List.append_eq_nil_iff.1 hnil).2
  | alt r s ihr ihs =>
    obtain ⟨hr, hs⟩ := Bool.and_eq_true_iff.1 hr
    exact h.elim (ihr · hr) (ihs · hs)
  | boundary => cases hr

theorem Matches.steady {r : Regex} {before a : Option Char} {w : List Char}
    (h : r.Matches before w a) (hr : r.steady = true) (a' : Option Char) :
    r.Matches before w a' := by
  induction r generalizing before a a' w with
  | empty | one | repeats => exact h
  | seq r s ihr ihs =>
    obtain ⟨u, v, rfl, hu, hv⟩ := h
    obtain ⟨hs, hr⟩ := Bool.and_eq_true_iff.1 hr
    refine ⟨u, v, rfl, ?_, ihs hv hs a'⟩
    rcases Bool.or_eq_true_iff.1 hr with hr | hr
    · exact ihr hu hr _
    · -- the second expression takes a character, which is all that the first sees
      cases v with
      | nil => exact absurd rfl (hv.ne_nil hr)
      | cons c v => exact hu
  | alt r s ihr ihs =>
    obtain ⟨hr, hs⟩ := Bool.and_eq_true_iff.1 hr
    exact h.imp (ihr · hr a') (ihs · hs a')
  | boundary => cases hr

theorem matches_anyOf {rs : List Regex} {before after : Option Char} {w : List Char} :
    (anyOf rs).Matches before w after ↔ ∃ r ∈ rs, r.Matches before w after := by
  induction rs with
  | nil =>
    simp only [anyOf, Matches, List.not_mem_nil, false_and, exists_false, iff_false]
    rintro ⟨hall, hlen, -⟩
    cases w with
    | nil => exact absurd hlen (by decide)
    | cons c w => exact absurd (hall c List.mem_cons_self) (by decide)
  | cons r rs ih =>
    cases rs with
    | nil => simp [anyOf]
    | cons s rs =>
      rw [List.exists_mem_cons_iff, ← ih]
      rfl

end Regex

end HomeLab
