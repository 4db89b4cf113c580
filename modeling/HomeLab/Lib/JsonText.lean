/-
  JSON as text.

  A value whose strings are texts prints to a text (`valid_render`): the escapes
  replace single characters, and everything else that is printed is ASCII.
-/
import HomeLab.Lib.Utf8

namespace HomeLab

namespace Utf8

theorem valid_append {a b : Bytes} (ha : valid a = true) (hb : valid b = true) :
    valid (a ++ b) = true := by
  obtain ⟨cs, rfl⟩ := valid_iff.1 ha
  obtain ⟨ds, rfl⟩ := valid_iff.1 hb
  exact valid_iff.2 ⟨cs ++ ds, encode_append cs ds⟩

theorem valid_cons {b : UInt8} {bs : Bytes} (hb : b < 128) (h : valid bs = true) :
    valid (b :: bs) = true := by
  refine valid_append (a := [b]) (valid_iff.2 ⟨[Char.ofNat b.toNat], ?_⟩) h
  have hlt : b.toNat < 128 := hb
  have hchar : (Char.ofNat b.toNat).toNat = b.toNat := toNat_ofNat (Or.inl (by omega))
  simp only [encode_cons, encode_nil, List.append_nil, hchar, Json.utf8, hlt, if_true,
    Nat.toUInt8_eq, UInt8.ofNat_toNat]

/-- ASCII is text. -/
theorem valid_of_lt {bs : Bytes} (h : ∀ b ∈ bs, b < 128) : valid bs = true := by
  induction bs with
  | nil => rfl
  | cons b bs ih =>
    obtain ⟨hb, hbs⟩ := List.forall_mem_cons.1 h
    exact valid_cons hb (ih hbs)

/-- Dates and times are text. -/
theorem valid_of_digit_or_mark {bs : Bytes}
    (h : ∀ b ∈ bs, isDigit b = true ∨ b ∈ ascii "-:.TZ") : valid bs = true := by
  have hmark : ∀ c ∈ ascii "-:.TZ", c < 128 := by decide
  refine valid_of_lt fun b hb => ?_
  rcases h b hb with hdigit | hb
  · simp only [isDigit, Bool.and_eq_true, decide_eq_true_eq] at hdigit
    exact UInt8.lt_iff_toNat_lt.2 (lt_of_le_of_lt hdigit.2 (by decide))
  · exact hmark b hb

/-- Hexadecimal digits after an ASCII tag are text. -/
theorem valid_tagged_hex {tag rest : Bytes} (htag : ∀ b ∈ tag, b < 128)
    (hhex : rest.all hexByte = true) : valid (tag ++ rest) = true := by
  refine valid_of_lt fun b hb => ?_
  rcases List.mem_append.1 hb with hb | hb
  · exact htag b hb
  · have := List.all_eq_true.1 hhex b hb
    simp only [hexByte, Bool.or_eq_true, Bool.and_eq_true, decide_eq_true_eq] at this
    rcases this with ⟨-, h⟩ | ⟨-, h⟩
    · exact lt_of_le_of_lt h (by decide)
    · exact lt_of_le_of_lt h (by decide)

end Utf8

namespace Json

theorem escapeByte_lt : ∀ n < 128, ∀ b ∈ escapeByte n.toUInt8, b < 128 := by decide +kernel

theorem escapeByte_ge : ∀ n < 256, 128 ≤ n → escapeByte n.toUInt8 = [n.toUInt8] := by
  decide +kernel

/-- Escaping leaves a text a text. -/
theorem valid_escape {s : Bytes} (h : Utf8.valid s = true) :
    Utf8.valid (s.flatMap escapeByte) = true := by
  obtain ⟨cs, rfl⟩ := Utf8.valid_iff.1 h
  clear h
  induction cs with
  | nil => rfl
  | cons c cs ih =>
    rw [Utf8.encode_cons, List.flatMap_append]
    refine Utf8.valid_append ?_ ih
    have hbyte (b : UInt8) : b.toNat.toUInt8 = b := by simp
    by_cases hsmall : ∃ b ∈ utf8 c.toNat, b < 128
    · obtain ⟨b, hb, hlt⟩ := hsmall
      rw [Utf8.utf8_of_mem hb (Utf8.toNat_lt c) hlt]
      refine Utf8.valid_of_lt fun d hd => ?_
      rw [List.flatMap_singleton, ← hbyte b] at hd
      exact escapeByte_lt b.toNat hlt d hd
    · have hsame : (utf8 c.toNat).flatMap escapeByte = utf8 c.toNat := by
        have hall : ∀ b ∈ utf8 c.toNat, escapeByte b = [b] := by
          intro b hb
          have hge : 128 ≤ b.toNat := by
            by_contra hlt
            exact hsmall ⟨b, hb, UInt8.lt_iff_toNat_lt.2 (Nat.lt_of_not_le hlt)⟩
          have := escapeByte_ge b.toNat b.toNat_lt hge
          rwa [hbyte b] at this
        generalize utf8 c.toNat = bs at hall
        induction bs with
        | nil => rfl
        | cons b bs ih =>
          obtain ⟨hb, hbs⟩ := List.forall_mem_cons.1 hall
          rw [List.flatMap_cons, hb, ih hbs]
          rfl
      rw [hsame]
      exact Utf8.valid_iff.2 ⟨[c], by simp⟩

theorem valid_renderString {s : Bytes} (h : Utf8.valid s = true) :
    Utf8.valid (renderString s) = true :=
  Utf8.valid_cons (by decide)
    (Utf8.valid_append (valid_escape h) (Utf8.valid_cons (by decide) rfl))

mutual

/-- Values whose strings are texts. -/
def Textual : Json → Prop
  | null => True
  | bool _ => True
  | num _ => True
  | str s => Utf8.valid s = true
  | arr xs => TextualElems xs
  | obj fs => TextualFields fs

def TextualElems : List Json → Prop
  | [] => True
  | x :: xs => Textual x ∧ TextualElems xs

def TextualFields : List (Bytes × Json) → Prop
  | [] => True
  | (k, v) :: fs => Utf8.valid k = true ∧ Textual v ∧ TextualFields fs

end

theorem textual_arr {xs : List Json} : (arr xs).Textual ↔ ∀ x ∈ xs, x.Textual := by
  show TextualElems xs ↔ _
  induction xs with
  | nil => simp [TextualElems]
  | cons x xs ih => simp [TextualElems, ih]

theorem textual_obj {fs : List (Bytes × Json)} :
    (obj fs).Textual ↔ ∀ f ∈ fs, Utf8.valid f.1 = true ∧ f.2.Textual := by
  show TextualFields fs ↔ _
  induction fs with
  | nil => simp [TextualFields]
  | cons f fs ih => simp [TextualFields, ih, and_assoc]

theorem lt_of_isNumberByte : ∀ n < 256, isNumberByte n.toUInt8 = true → n < 128 := by
  decide +kernel

mutual

/-- **A value whose strings are texts prints to a text.** -/
theorem valid_render : ∀ v : Json, v.WellFormed → v.Textual → Utf8.valid v.render = true
  | null, _, _ => by decide
  | bool true, _, _ => by decide
  | bool false, _, _ => by decide
  | num lit, hv, _ => by
    refine Utf8.valid_of_lt fun b hb => ?_
    have hnumber := List.all_eq_true.1 hv.1 b (by rwa [render] at hb)
    have hbyte : b.toNat.toUInt8 = b := by simp
    rw [← hbyte] at hnumber
    exact UInt8.lt_iff_toNat_lt.2 (lt_of_isNumberByte b.toNat b.toNat_lt hnumber)
  | str s, _, h => by
    rw [render]
    exact valid_renderString h
  | arr [], _, _ => by decide
  | arr (x :: xs), hv, h => by
    rw [render]
    exact Utf8.valid_cons (by decide)
      (Utf8.valid_append (valid_render x hv.1 h.1) (valid_renderElems xs hv.2 h.2))
  | obj [], _, _ => by decide
  | obj ((k, v) :: fs), hv, h => by
    rw [render]
    exact Utf8.valid_cons (by decide) (Utf8.valid_append (valid_renderString h.1)
      (Utf8.valid_cons (by decide)
        (Utf8.valid_append (valid_render v hv.1 h.2.1) (valid_renderFields fs hv.2 h.2.2))))

theorem valid_renderElems : ∀ xs : List Json, WellFormedElems xs → TextualElems xs →
    Utf8.valid (renderElems xs) = true
  | [], _, _ => by decide
  | x :: xs, hv, h => by
    rw [renderElems]
    exact Utf8.valid_cons (by decide)
      (Utf8.valid_append (valid_render x hv.1 h.1) (valid_renderElems xs hv.2 h.2))

theorem valid_renderFields : ∀ fs : List (Bytes × Json), WellFormedFields fs →
    TextualFields fs → Utf8.valid (renderFields fs) = true
  | [], _, _ => by decide
  | (k, v) :: fs, hv, h => by
    rw [renderFields]
    exact Utf8.valid_cons (by decide) (Utf8.valid_append (valid_renderString h.1)
      (Utf8.valid_cons (by decide)
        (Utf8.valid_append (valid_render v hv.1 h.2.1) (valid_renderFields fs hv.2 h.2.2))))

end

end Json

end HomeLab
