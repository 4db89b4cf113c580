/-
  Classes of characters, and the words of a text.

  `fields` divides a text at runs of white space; joined again with single
  spaces it has no character that the text did not have (`mem_joinFields`) and
  is not longer (`length_encode_joinFields`).
-/
import Mathlib.Tactic
import HomeLab.Lib.Utf8

namespace HomeLab

namespace Unicode

/-! ## Classes -/

/-- The category Cc. -/
def isControl (c : Char) : Bool := c.toNat < 0x20 || 0x7f ≤ c.toNat && c.toNat < 0xa0

/-- The property White_Space. -/
def isSpace (c : Char) : Bool :=
  let n := c.toNat
  9 ≤ n && n ≤ 13 || n = 0x20 || n = 0x85 || n = 0xa0 || n = 0x1680 || 0x2000 ≤ n && n ≤ 0x200a ||
    n = 0x2028 || n = 0x2029 || n = 0x202f || n = 0x205f || n = 0x3000

/-- The ranges of the category Cf. -/
def formatRanges : List (ℕ × ℕ) :=
  [(0xad, 0xad), (0x600, 0x605), (0x61c, 0x61c), (0x6dd, 0x6dd), (0x70f, 0x70f), (0x890, 0x891),
   (0x8e2, 0x8e2), (0x180e, 0x180e), (0x200b, 0x200f), (0x202a, 0x202e), (0x2060, 0x2064),
   (0x2066, 0x206f), (0xfeff, 0xfeff), (0xfff9, 0xfffb), (0x110bd, 0x110bd), (0x110cd, 0x110cd),
   (0x13430, 0x1343f), (0x1bca0, 0x1bca3), (0x1d173, 0x1d17a), (0xe0001, 0xe0001),
   (0xe0020, 0xe007f)]

def isFormat (c : Char) : Bool :=
  formatRanges.any fun r => r.1 ≤ c.toNat && c.toNat ≤ r.2

/-! ## Words -/

/-- The words of a text whose first word begins with `word`. -/
def fieldsFrom (word : List Char) : List Char → List (List Char)
  | [] => if word = [] then [] else [word]
  | c :: cs =>
    if isSpace c then
      if word = [] then fieldsFrom [] cs else word :: fieldsFrom [] cs
    else fieldsFrom (word ++ [c]) cs

/-- The words between runs of white space. -/
def fields (text : List Char) : List (List Char) := fieldsFrom [] text

/-- Words with a space between any two. -/
def join : List (List Char) → List Char
  | [] => []
  | [w] => w
  | w :: v :: ws => w ++ ' ' :: join (v :: ws)

/-- The text with every run of white space as one space, and none at its ends. -/
def joinFields (text : List Char) : List Char := join (fields text)

theorem join_cons (w : List Char) (ws : List (List Char)) :
    join (w :: ws) = w ++ if ws = [] then [] else ' ' :: join ws := by
  cases ws with
  | nil | cons => simp [join]

theorem mem_join_fieldsFrom {word text : List Char} {c : Char}
    (h : c ∈ join (fieldsFrom word text)) : c ∈ word ∨ c ∈ text ∨ c = ' ' := by
  induction text generalizing word with
  | nil =>
    rw [fieldsFrom] at h
    split_ifs at h with hword
    · cases h
    · exact Or.inl h
  | cons d ds ih =>
    rw [fieldsFrom] at h
    split_ifs at h with hspace hword
    · rcases ih h with h | h | h
      · cases h
      · exact Or.inr (Or.inl (List.mem_cons_of_mem d h))
      · exact Or.inr (Or.inr h)
    · rw [join_cons, List.mem_append] at h
      rcases h with h | h
      · exact Or.inl h
      · split_ifs at h with hrest
        · cases h
        · rcases List.mem_cons.1 h with h | h
          · exact Or.inr (Or.inr h)
          · rcases ih h with h | h | h
            · cases h
            · exact Or.inr (Or.inl (List.mem_cons_of_mem d h))
            · exact Or.inr (Or.inr h)
    · rcases ih h with h | h | h
      · rcases List.mem_append.1 h with h | h
        · exact Or.inl h
        · exact Or.inr (Or.inl (List.mem_singleton.1 h ▸ List.mem_cons_self ..))
      · exact Or.inr (Or.inl (List.mem_cons_of_mem d h))
      · exact Or.inr (Or.inr h)

theorem mem_joinFields {text : List Char} {c : Char} (h : c ∈ joinFields text) :
    c ∈ text ∨ c = ' ' :=
  (mem_join_fieldsFrom h).resolve_left List.not_mem_nil

theorem length_join_fieldsFrom (word text : List Char) :
    (Utf8.encode (join (fieldsFrom word text))).length ≤
      (Utf8.encode word).length + (Utf8.encode text).length := by
  have hone (d : Char) : 1 ≤ (Json.utf8 d.toNat).length :=
    List.length_pos_iff.2 (Utf8.utf8_ne_nil _)
  induction text generalizing word with
  | nil =>
    rw [fieldsFrom]
    split_ifs with hword
    · exact Nat.zero_le _
    · exact Nat.le_add_right _ _
  | cons d ds ih =>
    have hd := hone d
    rw [fieldsFrom, Utf8.encode_cons, List.length_append]
    split_ifs with hspace hword
    · have := ih []
      simp only [Utf8.encode_nil, List.length_nil] at this
      omega
    · have := ih []
      simp only [Utf8.encode_nil, List.length_nil] at this
      rw [join_cons, Utf8.encode_append, List.length_append]
      split_ifs with hrest
      · simp only [Utf8.encode_nil, List.length_nil]
        omega
      · rw [Utf8.encode_cons, List.length_append]
        have hspace : (Json.utf8 (' ' : Char).toNat).length = 1 := rfl
        omega
    · have := ih (word ++ [d])
      rw [Utf8.encode_append, List.length_append, Utf8.encode_cons, List.length_append] at this
      simp only [Utf8.encode_nil, List.length_nil] at this
      omega

/-- **Joining the words of a text does not lengthen it.** -/
theorem length_encode_joinFields (text : List Char) :
    (Utf8.encode (joinFields text)).length ≤ (Utf8.encode text).length := by
  have := length_join_fieldsFrom [] text
  rwa [Utf8.encode_nil, List.length_nil, Nat.zero_add] at this

end Unicode

end HomeLab
