/-
  JSON texts.

  `Json.render` prints a value without white space, as a marshaller does, and
  `Json.parse` reads any JSON text.  Strings are byte strings; a byte outside
  ASCII is passed through in both directions.  Numbers keep their literal.

  `parse_render`: a value whose numbers are literals of the grammar
  (`Json.WellFormed`) is read back from its text, whatever follows it.
-/
import Mathlib.Data.List.TakeWhile
import HomeLab.Lib.Bytes

namespace HomeLab

inductive Json where
  | null
  | bool (b : Bool)
  | num (lit : Bytes)
  | str (s : Bytes)
  | arr (xs : List Json)
  | obj (fs : List (Bytes × Json))
  deriving Repr

namespace Json

/-! ## Printing -/

def hexDigit (n : ℕ) : UInt8 := if n % 16 < 10 then digit (n % 16) else (87 + n % 16).toUInt8

/-- A byte of a string: quotes, backslashes, control bytes and the characters
    special to HTML are escaped. -/
def escapeByte (b : UInt8) : Bytes :=
  if b = 34 then [92, 34]
  else if b = 92 then [92, 92]
  else if b = 8 then [92, 98]
  else if b = 12 then [92, 102]
  else if b = 10 then [92, 110]
  else if b = 13 then [92, 114]
  else if b = 9 then [92, 116]
  else if b < 32 ∨ b = 60 ∨ b = 62 ∨ b = 38 then
    [92, 117, 48, 48, hexDigit (b.toNat / 16), hexDigit b.toNat]
  else [b]

def renderString (s : Bytes) : Bytes := 34 :: (s.flatMap escapeByte ++ [34])

mutual

def render : Json → Bytes
  | null => ascii "null"
  | bool true => ascii "true"
  | bool false => ascii "false"
  | num lit => lit
  | str s => renderString s
  | arr [] => [91, 93]
  | arr (x :: xs) => 91 :: (render x ++ renderElems xs)
  | obj [] => [123, 125]
  | obj ((k, v) :: fs) => 123 :: (renderString k ++ 58 :: (render v ++ renderFields fs))

/-- The elements after the first, up to the closing bracket. -/
def renderElems : List Json → Bytes
  | [] => [93]
  | x :: xs => 44 :: (render x ++ renderElems xs)

/-- The fields after the first, up to the closing brace. -/
def renderFields : List (Bytes × Json) → Bytes
  | [] => [125]
  | (k, v) :: fs => 44 :: (renderString k ++ 58 :: (render v ++ renderFields fs))

end

/-! ## Reading scalars -/

def isSpace (b : UInt8) : Bool := b = 32 || b = 9 || b = 10 || b = 13

def skip (bs : Bytes) : Bytes := bs.dropWhile isSpace

def hexVal (b : UInt8) : Option ℕ :=
  if isDigit b then some (digitVal b)
  else if 97 ≤ b ∧ b ≤ 102 then some (b.toNat - 87)
  else if 65 ≤ b ∧ b ≤ 70 then some (b.toNat - 55)
  else none

/-- The UTF-16 code unit of four hexadecimal digits. -/
def hex4 (a b c d : UInt8) : Option ℕ := do
  let a ← hexVal a
  let b ← hexVal b
  let c ← hexVal c
  let d ← hexVal d
  return ((a * 16 + b) * 16 + c) * 16 + d

/-- The UTF-8 bytes of a code point. -/
def utf8 (r : ℕ) : Bytes :=
  if r < 0x80 then [r.toUInt8]
  else if r < 0x800 then [(0xC0 + r / 64).toUInt8, (0x80 + r % 64).toUInt8]
  else if r < 0x10000 then
    [(0xE0 + r / 4096).toUInt8, (0x80 + r / 64 % 64).toUInt8, (0x80 + r % 64).toUInt8]
  else
    [(0xF0 + r / 262144).toUInt8, (0x80 + r / 4096 % 64).toUInt8, (0x80 + r / 64 % 64).toUInt8,
      (0x80 + r % 64).toUInt8]

/-- The byte of a one-letter escape. -/
def unescape (e : UInt8) : Option UInt8 :=
  if e = 34 ∨ e = 92 ∨ e = 47 then some e
  else if e = 98 then some 8
  else if e = 102 then some 12
  else if e = 110 then some 10
  else if e = 114 then some 13
  else if e = 116 then some 9
  else none

/-- Read a string up to and including its closing quote.  An escaped surrogate
    without its partner becomes U+FFFD. -/
def readString : Bytes → Option (Bytes × Bytes)
  | [] => none
  | b :: bs =>
    if b = 34 then some ([], bs)
    else if b = 92 then
      match bs with
      | 117 :: h₁ :: h₂ :: h₃ :: h₄ :: bs =>
        match hex4 h₁ h₂ h₃ h₄ with
        | none => none
        | some u =>
          if u < 0xD800 ∨ 0xDFFF < u then
            (readString bs).map fun r => (utf8 u ++ r.1, r.2)
          else
            match bs with
            | 92 :: 117 :: l₁ :: l₂ :: l₃ :: l₄ :: bs' =>
              match hex4 l₁ l₂ l₃ l₄ with
              | none => none
              | some l =>
                if u < 0xDC00 ∧ 0xDC00 ≤ l ∧ l ≤ 0xDFFF then
                  (readString bs').map fun r =>
                    (utf8 (0x10000 + (u - 0xD800) * 1024 + (l - 0xDC00)) ++ r.1, r.2)
                else
                  (readString (92 :: 117 :: l₁ :: l₂ :: l₃ :: l₄ :: bs')).map fun r =>
                    (utf8 0xFFFD ++ r.1, r.2)
            | bs => (readString bs).map fun r => (utf8 0xFFFD ++ r.1, r.2)
      | e :: bs =>
        match unescape e with
        | none => none
        | some c => (readString bs).map fun r => (c :: r.1, r.2)
      | [] => none
    else if b < 32 then none
    else (readString bs).map fun r => (b :: r.1, r.2)
termination_by structural bs => bs

def isNumberByte (b : UInt8) : Bool :=
  isDigit b || b = 43 || b = 45 || b = 46 || b = 101 || b = 69

/-- An optional exponent and nothing else. -/
def validExponent : Bytes → Bool
  | [] => true
  | e :: bs =>
    let ds := match bs with
      | 43 :: ds | 45 :: ds => ds
      | ds => ds
    (e = 101 || e = 69) && ds ≠ [] && ds.all isDigit

/-- An optional fraction, an optional exponent and nothing else. -/
def validTail : Bytes → Bool
  | 46 :: bs => bs.takeWhile isDigit ≠ [] && validExponent (bs.dropWhile isDigit)
  | bs => validExponent bs

/-- The literals of the number grammar. -/
def validNumber (lit : Bytes) : Bool :=
  let bs := if lit.head? = some 45 then lit.tail else lit
  let ds := bs.takeWhile isDigit
  ds ≠ [] && (ds.head? ≠ some 48 || ds.length = 1) && validTail (bs.dropWhile isDigit)

def readNumber (bs : Bytes) : Option (Json × Bytes) :=
  let lit := bs.takeWhile isNumberByte
  if validNumber lit then some (num lit, bs.dropWhile isNumberByte) else none

def readLiteral (lit : Bytes) (v : Json) (bs : Bytes) : Option (Json × Bytes) :=
  if lit.isPrefixOf bs then some (v, bs.drop lit.length) else none

/-! ## Reading values -/

/-- A field name and its colon. -/
def readName (bs : Bytes) : Option (Bytes × Bytes) :=
  match skip bs with
  | 34 :: bs => do
    let (k, bs) ← readString bs
    match skip bs with
    | 58 :: bs => some (k, bs)
    | _ => none
  | _ => none

mutual

/-- Read a value; the fuel bounds its nesting and length. -/
def readValue : ℕ → Bytes → Option (Json × Bytes)
  | 0, _ => none
  | n + 1, bs =>
    match skip bs with
    | 123 :: bs =>
      match skip bs with
      | 125 :: bs => some (obj [], bs)
      | bs => do
        let (k, bs) ← readName bs
        let (v, bs) ← readValue n bs
        let (fs, bs) ← readFields n bs
        return (obj ((k, v) :: fs), bs)
    | 91 :: bs =>
      match skip bs with
      | 93 :: bs => some (arr [], bs)
      | bs => do
        let (x, bs) ← readValue n bs
        let (xs, bs) ← readElems n bs
        return (arr (x :: xs), bs)
    | 34 :: bs => (readString bs).map fun r => (str r.1, r.2)
    | 116 :: bs => readLiteral (ascii "true") (bool true) (116 :: bs)
    | 102 :: bs => readLiteral (ascii "false") (bool false) (102 :: bs)
    | 110 :: bs => readLiteral (ascii "null") null (110 :: bs)
    | bs => readNumber bs

/-- Read the elements after the first. -/
def readElems : ℕ → Bytes → Option (List Json × Bytes)
  | 0, _ => none
  | n + 1, bs =>
    match skip bs with
    | 93 :: bs => some ([], bs)
    | 44 :: bs => do
      let (x, bs) ← readValue n bs
      let (xs, bs) ← readElems n bs
      return (x :: xs, bs)
    | _ => none

/-- Read the fields after the first. -/
def readFields : ℕ → Bytes → Option (List (Bytes × Json) × Bytes)
  | 0, _ => none
  | n + 1, bs =>
    match skip bs with
    | 125 :: bs => some ([], bs)
    | 44 :: bs => do
      let (k, bs) ← readName bs
      let (v, bs) ← readValue n bs
      let (fs, bs) ← readFields n bs
      return ((k, v) :: fs, bs)
    | _ => none

end

/-- Read one value and nothing after it but white space. -/
def parse (bs : Bytes) : Option Json :=
  match readValue (bs.length + 1) bs with
  | some (v, rest) => if skip rest = [] then some v else none
  | none => none

/-! ## Objects as records -/

def lower (b : UInt8) : UInt8 := if 65 ≤ b ∧ b ≤ 90 then b + 32 else b

/-- Field names are compared without regard to case. -/
def sameName (a b : Bytes) : Bool := a.map lower = b.map lower

def isNull : Json → Bool
  | null => true
  | _ => false

/-- The values an object assigns to a field, in order; `null` assigns nothing. -/
def assigned (name : Bytes) (fs : List (Bytes × Json)) : List Json :=
  (fs.filter fun f => sameName name f.1 && !f.2.isNull).map (·.2)

/-- A string field: the last value counts, and every value has to be a string. -/
def stringField (name : Bytes) (fs : List (Bytes × Json)) : Option Bytes :=
  (assigned name fs).foldlM (fun _ v => match v with
    | str s => some s
    | _ => none) []

/-- An unsigned integer field below `bound`. -/
def natField (bound : ℕ) (name : Bytes) (fs : List (Bytes × Json)) : Option ℕ :=
  (assigned name fs).foldlM (fun _ v => match v with
    | num lit => if lit.all isDigit ∧ numeral lit < bound then some (numeral lit) else none
    | _ => none) 0

/-- No field but those named. -/
def knownFields (names : List Bytes) (fs : List (Bytes × Json)) : Bool :=
  fs.all fun f => names.any (sameName · f.1)

theorem natField_of_assigned {bound n : ℕ} {name : Bytes} {fs : List (Bytes × Json)}
    (h : assigned name fs = [num (decimal n)]) (hn : n < bound) :
    natField bound name fs = some n := by
  simpa [natField, h, hn] using fun b hb => isDigit_of_mem_decimal hb

/-! ## The round trip -/

/-- A string that is printed without escapes. -/
def PlainString (s : Bytes) : Prop :=
  ∀ b ∈ s, 32 ≤ b ∧ b ≠ 34 ∧ b ≠ 92 ∧ b ≠ 60 ∧ b ≠ 62 ∧ b ≠ 38

instance (s : Bytes) : Decidable (PlainString s) := by unfold PlainString; infer_instance

mutual

/-- Values whose numbers are literals of the grammar. -/
def WellFormed : Json → Prop
  | null => True
  | bool _ => True
  | num lit => lit.all isNumberByte ∧ validNumber lit
  | str _ => True
  | arr xs => WellFormedElems xs
  | obj fs => WellFormedFields fs

def WellFormedElems : List Json → Prop
  | [] => True
  | x :: xs => WellFormed x ∧ WellFormedElems xs

def WellFormedFields : List (Bytes × Json) → Prop
  | [] => True
  | (_, v) :: fs => WellFormed v ∧ WellFormedFields fs

end

theorem wellFormed_arr {xs : List Json} : (arr xs).WellFormed ↔ ∀ x ∈ xs, x.WellFormed := by
  show WellFormedElems xs ↔ _
  induction xs with
  | nil => simp [WellFormedElems]
  | cons x xs ih => simp [WellFormedElems, ih]

theorem wellFormed_obj {fs : List (Bytes × Json)} :
    (obj fs).WellFormed ↔ ∀ f ∈ fs, f.2.WellFormed := by
  show WellFormedFields fs ↔ _
  induction fs with
  | nil => simp [WellFormedFields]
  | cons f fs ih => simp [WellFormedFields, ih]

theorem wellFormed_str (s : Bytes) : (str s).WellFormed := trivial

/-- What follows a value does not continue a number. -/
def Delimited (rest : Bytes) : Prop := ∀ b ∈ rest.head?, isNumberByte b = false

theorem escapeByte_plain {b : UInt8}
    (h : 32 ≤ b ∧ b ≠ 34 ∧ b ≠ 92 ∧ b ≠ 60 ∧ b ≠ 62 ∧ b ≠ 38) : escapeByte b = [b] := by
  obtain ⟨h32, h34, h92, h60, h62, h38⟩ := h
  have hb : 32 ≤ b.toNat := h32
  have ne : ∀ c : UInt8, c.toNat < 32 → b ≠ c := fun c hc h => by subst h; omega
  have hlt : ¬ b < 32 := by rw [UInt8.not_lt]; exact h32
  simp [escapeByte, h34, h92, h60, h62, h38, hlt, ne 8 (by decide), ne 12 (by decide),
    ne 10 (by decide), ne 13 (by decide), ne 9 (by decide)]

theorem flatMap_escapeByte {s : Bytes} (h : PlainString s) : s.flatMap escapeByte = s := by
  induction s with
  | nil => rfl
  | cons b s ih =>
    have hb := h b (List.mem_cons_self ..)
    have hs := ih fun c hc => h c (List.mem_cons_of_mem _ hc)
    rw [List.flatMap_cons, escapeByte_plain hb, hs]; rfl

theorem renderString_plain {s : Bytes} (h : PlainString s) :
    renderString s = 34 :: (s ++ [34]) := by
  rw [renderString, flatMap_escapeByte h]

theorem hex4_escape : ∀ n < 128, hex4 48 48 (hexDigit (n / 16)) (hexDigit n) = some n ∧
    utf8 n = [n.toUInt8] := by
  decide

/-- A byte of a string is read back from its text. -/
theorem readString_escapeByte (b : UInt8) (bs : Bytes) :
    readString (escapeByte b ++ bs) = (readString bs).map fun r => (b :: r.1, r.2) := by
  unfold escapeByte
  split_ifs with h34 h92 h8 h12 h10 h13 h9 hcode
  case pos | pos | pos | pos | pos | pos | pos =>
    subst_vars
    simp only [List.cons_append, List.nil_append]
    rw [readString.eq_def]
    simp [unescape]
  · have hlt : b.toNat < 128 := by
      rcases hcode with h | rfl | rfl | rfl
      · have : b.toNat < 32 := h
        omega
      all_goals decide
    obtain ⟨hhex, hutf⟩ := hex4_escape b.toNat hlt
    simp only [List.cons_append, List.nil_append]
    rw [readString.eq_def]
    simp [hhex, hutf, show b.toNat < 0xD800 by omega]
  · push Not at hcode
    rw [List.singleton_append, readString.eq_def]
    simp only [if_neg h34, if_neg h92, if_neg (UInt8.not_lt.2 hcode.1)]

theorem readString_escape (s rest : Bytes) :
    readString (s.flatMap escapeByte ++ 34 :: rest) = some (s, rest) := by
  induction s with
  | nil => rw [List.flatMap_nil, List.nil_append, readString.eq_def]; simp only [if_true]
  | cons b s ih => rw [List.flatMap_cons, List.append_assoc, readString_escapeByte, ih, Option.map_some]

theorem readName_render (k rest : Bytes) :
    readName (renderString k ++ 58 :: rest) = some (k, rest) := by
  simp [renderString, readName, skip, isSpace, readString_escape]

theorem takeWhile_isNumberByte {lit rest : Bytes} (h : lit.all isNumberByte)
    (hr : Delimited rest) :
    (lit ++ rest).takeWhile isNumberByte = lit ∧ (lit ++ rest).dropWhile isNumberByte = rest := by
  induction lit with
  | nil =>
    cases rest with
    | nil => exact ⟨rfl, rfl⟩
    | cons b rest => simp [hr b rfl]
  | cons b lit ih =>
    rw [List.all_cons, Bool.and_eq_true] at h
    simp [h.1, ih h.2]

theorem readNumber_plain {lit rest : Bytes} (h : lit.all isNumberByte) (hv : validNumber lit)
    (hr : Delimited rest) : readNumber (lit ++ rest) = some (num lit, rest) := by
  obtain ⟨ht, hd⟩ := takeWhile_isNumberByte h hr
  simp [readNumber, ht, hd, hv]

/-- A literal starts with a digit or a minus sign. -/
theorem validNumber_head {lit : Bytes} (hv : validNumber lit) :
    ∃ b t, lit = b :: t ∧ (isDigit b ∨ b = 45) := by
  cases lit with
  | nil => simp [validNumber] at hv
  | cons b t =>
    refine ⟨b, t, rfl, ?_⟩
    by_cases hb : b = 45
    · exact Or.inr hb
    · left
      by_contra hd
      simp [validNumber, hb, hd] at hv

theorem readValue_number {n : ℕ} {b : UInt8} {t : Bytes} (hb : isDigit b ∨ b = 45) :
    readValue (n + 1) (b :: t) = readNumber (b :: t) := by
  have hne : b ≠ 123 ∧ b ≠ 91 ∧ b ≠ 34 ∧ b ≠ 116 ∧ b ≠ 102 ∧ b ≠ 110 ∧ isSpace b = false := by
    rcases hb with hb | rfl
    · have hd : 48 ≤ b.toNat ∧ b.toNat ≤ 57 := by
        simpa [isDigit, UInt8.le_iff_toNat_le] using hb
      have ne : ∀ c : UInt8, c.toNat < 48 ∨ 57 < c.toNat → b ≠ c :=
        fun c hc h => by subst h; omega
      simp [isSpace, ne]
    · decide
  obtain ⟨h1, h2, h3, h4, h5, h6, hs⟩ := hne
  have hskip : skip (b :: t) = b :: t := by simp [skip, hs]
  rw [readValue, hskip]
  split <;> simp_all

theorem delimited_renderElems (xs : List Json) (rest : Bytes) :
    Delimited (renderElems xs ++ rest) := by
  cases xs <;> simp [renderElems, Delimited] <;> decide

theorem delimited_renderFields (fs : List (Bytes × Json)) (rest : Bytes) :
    Delimited (renderFields fs ++ rest) := by
  cases fs <;> simp [renderFields, Delimited] <;> decide

/-- The text of a value starts neither with white space nor with a bracket
    that closes an array. -/
theorem render_head {v : Json} (hv : v.WellFormed) :
    ∃ b t, render v = b :: t ∧ isSpace b = false ∧ b ≠ 93 := by
  cases v with
  | null => exact ⟨_, _, rfl, by decide, by decide⟩
  | bool b => cases b <;> exact ⟨_, _, rfl, by decide, by decide⟩
  | num lit =>
    obtain ⟨b, t, rfl, hb⟩ := validNumber_head hv.2
    refine ⟨b, t, by simp [render], ?_⟩
    rcases hb with hb | rfl
    · have hd : 48 ≤ b.toNat ∧ b.toNat ≤ 57 := by
        simpa [isDigit, UInt8.le_iff_toNat_le] using hb
      have ne : ∀ c : UInt8, c.toNat < 48 ∨ 57 < c.toNat → b ≠ c :=
        fun c hc h => by subst h; omega
      simp [isSpace, ne]
    · decide
  | str s => exact ⟨34, _, by rw [render, renderString], by decide, by decide⟩
  | arr xs =>
    cases xs with
    | nil | cons => exact ⟨91, _, by rw [render], by decide, by decide⟩
  | obj fs =>
    cases fs with
    | nil | cons => exact ⟨123, _, by rw [render], by decide, by decide⟩

/-- **The round trip**, by induction on the fuel: a text no longer than the
    fuel is read back. -/
theorem read_render (n : ℕ) :
    (∀ v rest, v.WellFormed → Delimited rest → (render v).length ≤ n →
      readValue n (render v ++ rest) = some (v, rest)) ∧
    (∀ xs rest, WellFormedElems xs → (renderElems xs).length ≤ n →
      readElems n (renderElems xs ++ rest) = some (xs, rest)) ∧
    (∀ fs rest, WellFormedFields fs → (renderFields fs).length ≤ n →
      readFields n (renderFields fs ++ rest) = some (fs, rest)) := by
  induction n with
  | zero =>
    refine ⟨fun v rest hv _ hn => ?_, fun xs rest _ hn => ?_, fun fs rest _ hn => ?_⟩
    · obtain ⟨b, t, ht, -⟩ := render_head hv
      simp [ht] at hn
    · cases xs <;> simp [renderElems] at hn
    · cases fs <;> simp [renderFields] at hn
  | succ n ih =>
    obtain ⟨ihv, ihe, ihf⟩ := ih
    refine ⟨fun v rest hv hr hn => ?_, fun xs rest hxs hn => ?_, fun fs rest hfs hn => ?_⟩
    · cases v with
      | null => simp [render, readValue, ascii, skip, isSpace, readLiteral]
      | bool b => cases b <;> simp [render, readValue, ascii, skip, isSpace, readLiteral]
      | num lit =>
        obtain ⟨b, t, rfl, hb⟩ := validNumber_head hv.2
        rw [render, List.cons_append, readValue_number hb, ← List.cons_append,
          readNumber_plain hv.1 hv.2 hr]
      | str s => simp [render, renderString, readValue, skip, isSpace, readString_escape]
      | arr xs =>
        cases xs with
        | nil => simp [render, readValue, skip, isSpace]
        | cons x xs =>
          obtain ⟨hx, hxs⟩ : x.WellFormed ∧ WellFormedElems xs := hv
          simp only [render, List.length_cons, List.length_append] at hn
          have h1 := ihv x (renderElems xs ++ rest) hx (delimited_renderElems xs rest) (by omega)
          have h2 := ihe xs rest hxs (by omega)
          obtain ⟨b, t, ht, hb, hb93⟩ := render_head hx
          rw [ht, List.cons_append] at h1
          have hskip : skip (b :: (t ++ (renderElems xs ++ rest))) =
              b :: (t ++ (renderElems xs ++ rest)) := by simp [skip, hb]
          have h91 : skip (91 :: (b :: (t ++ (renderElems xs ++ rest)))) =
              91 :: b :: (t ++ (renderElems xs ++ rest)) := by simp [skip, isSpace]
          simp [render, ht, readValue, h91, hskip, hb93, h1, h2]
      | obj fs =>
        cases fs with
        | nil => simp [render, readValue, skip, isSpace]
        | cons f fs =>
          obtain ⟨k, w⟩ := f
          obtain ⟨hw, hfs⟩ : w.WellFormed ∧ WellFormedFields fs := hv
          simp only [render, List.length_cons, List.length_append] at hn
          have h0 := readName_render k (render w ++ (renderFields fs ++ rest))
          have h1 := ihv w (renderFields fs ++ rest) hw (delimited_renderFields fs rest) (by omega)
          have h2 := ihf fs rest hfs (by omega)
          simp only [renderString, List.cons_append, List.append_assoc, List.nil_append] at h0
          simp [render, renderString, readValue, skip, isSpace, h0, h1, h2]
    · cases xs with
      | nil => simp [renderElems, readElems, skip, isSpace]
      | cons x xs =>
        obtain ⟨hx, hxs⟩ : x.WellFormed ∧ WellFormedElems xs := hxs
        simp only [renderElems, List.length_cons, List.length_append] at hn
        have h1 := ihv x (renderElems xs ++ rest) hx (delimited_renderElems xs rest) (by omega)
        have h2 := ihe xs rest hxs (by omega)
        simp [renderElems, readElems, skip, isSpace, h1, h2]
    · cases fs with
      | nil => simp [renderFields, readFields, skip, isSpace]
      | cons f fs =>
        obtain ⟨k, w⟩ := f
        obtain ⟨hw, hfs⟩ : w.WellFormed ∧ WellFormedFields fs := hfs
        simp only [renderFields, List.length_cons, List.length_append] at hn
        have h0 := readName_render k (render w ++ (renderFields fs ++ rest))
        have h1 := ihv w (renderFields fs ++ rest) hw (delimited_renderFields fs rest) (by omega)
        have h2 := ihf fs rest hfs (by omega)
        simp [renderFields, readFields, skip, isSpace, h0, h1, h2]

theorem parse_render {v : Json} (hv : v.WellFormed) : parse (render v) = some v := by
  have hr : Delimited [] := by simp [Delimited]
  have h := (read_render ((render v).length + 1)).1 v [] hv hr (by omega)
  rw [List.append_nil] at h
  simp [parse, h, skip]

theorem wellFormed_decimal (n : ℕ) : (num (decimal n)).WellFormed := by
  have hd : ∀ b ∈ decimal n, isDigit b = true := fun b hb => isDigit_of_mem_decimal hb
  have ht : (decimal n).takeWhile isDigit = decimal n := List.takeWhile_eq_self_iff.2 hd
  have hdrop : (decimal n).dropWhile isDigit = [] := List.dropWhile_eq_nil_iff.2 hd
  refine ⟨?_, ?_⟩
  · rw [List.all_eq_true]
    intro b hb
    simp [isNumberByte, hd b hb]
  · have hsign : (decimal n).head? ≠ some 45 := by
      intro h
      have := hd 45 (List.mem_of_mem_head? h)
      revert this; decide
    have hzero : (decimal n).head? = some 48 → (decimal n).length = 1 :=
      fun h => by rw [decimal_head h]; rfl
    simp [validNumber, hsign, ht, hdrop, decimal_ne_nil, validTail, validExponent]
    exact or_iff_not_imp_left.2 fun h => hzero (not_not.1 h)

theorem render_injective {v w : Json} (hv : v.WellFormed) (hw : w.WellFormed) (h : render v = render w) :
    v = w := by
  have hparse := parse_render hv
  rw [h, parse_render hw] at hparse
  exact (Option.some.inj hparse).symm

theorem plain_of_hexByte {s : Bytes} (h : s.all hexByte) : PlainString s := by
  intro b hb
  have hx := List.all_eq_true.1 h b hb
  simp only [hexByte, Bool.or_eq_true, Bool.and_eq_true, decide_eq_true_eq,
    UInt8.le_iff_toNat_le] at hx
  have ne : ∀ c : UInt8, c.toNat < 48 ∨ (57 < c.toNat ∧ c.toNat < 97) → b ≠ c := by
    rintro c hc rfl
    simp at hx
    omega
  refine ⟨?_, ne 34 ?_, ne 92 ?_, ne 60 ?_, ne 62 ?_, ne 38 ?_⟩ <;> try decide
  rw [UInt8.le_iff_toNat_le]
  simp at hx ⊢
  omega

/-! ## Lengths -/

theorem length_renderString_plain {s : Bytes} (h : PlainString s) :
    (renderString s).length = s.length + 2 := by
  rw [renderString_plain h]
  simp

theorem length_escapeByte (b : UInt8) : (escapeByte b).length ≤ 6 := by
  unfold escapeByte
  split_ifs <;> simp

theorem length_renderString_le (s : Bytes) : (renderString s).length ≤ 6 * s.length + 2 := by
  have h : (s.flatMap escapeByte).length ≤ 6 * s.length := by
    induction s with
    | nil => simp
    | cons b s ih =>
      have := length_escapeByte b
      rw [List.flatMap_cons, List.length_append, List.length_cons]
      omega
  simp only [renderString, List.length_cons, List.length_append, List.length_nil]
  omega

theorem length_renderElems (vs : List Json) :
    (renderElems vs).length = 1 + (vs.map fun v => (render v).length + 1).sum := by
  induction vs with
  | nil => simp [renderElems]
  | cons v vs ih =>
    simp only [renderElems, List.length_cons, List.length_append, ih, List.map_cons, List.sum_cons]
    omega

theorem length_render_arr {vs : List Json} (hne : vs ≠ []) :
    (render (arr vs)).length = 1 + (vs.map fun v => (render v).length + 1).sum := by
  cases vs with
  | nil => exact absurd rfl hne
  | cons v vs =>
    simp only [render, List.length_cons, List.length_append, length_renderElems, List.map_cons,
      List.sum_cons]
    omega

theorem length_renderFields (fs : List (Bytes × Json)) :
    (renderFields fs).length =
      1 + (fs.map fun f => (renderString f.1).length + (render f.2).length + 2).sum := by
  induction fs with
  | nil => simp [renderFields]
  | cons f fs ih =>
    obtain ⟨k, v⟩ := f
    simp only [renderFields, List.length_cons, List.length_append, ih, List.map_cons, List.sum_cons]
    omega

theorem length_render_obj {names : List Bytes} {values : List Json} (hne : names ≠ [])
    (h : names.length = values.length) :
    (render (obj (names.zip values))).length =
      (names.map fun k => (renderString k).length).sum +
        (values.map fun v => (render v).length).sum + 2 * names.length + 1 := by
  have hsum : ∀ (ks : List Bytes) (vs : List Json), ks.length = vs.length →
      ((ks.zip vs).map fun f => (renderString f.1).length + (render f.2).length + 2).sum =
        (ks.map fun k => (renderString k).length).sum + (vs.map fun v => (render v).length).sum +
          2 * ks.length := by
    intro ks
    induction ks with
    | nil => intro vs hlen; cases vs with
      | nil => rfl
      | cons v vs => cases hlen
    | cons k ks ih =>
      intro vs hlen
      cases vs with
      | nil => cases hlen
      | cons v vs =>
        have := ih vs (Nat.succ.inj hlen)
        simp only [List.zip_cons_cons, List.map_cons, List.sum_cons, List.length_cons] at this ⊢
        omega
  cases names with
  | nil => exact absurd rfl hne
  | cons k ks =>
    cases values with
    | nil => cases h
    | cons v vs =>
      have := hsum ks vs (Nat.succ.inj h)
      simp only [List.zip_cons_cons, render, List.length_cons, List.length_append,
        length_renderFields, List.map_cons, List.sum_cons] at this ⊢
      omega

end Json

/-! ## Hexadecimal text -/

/-- A text of hexadecimal digits. -/
def hexValue (s : Bytes) (length : ℕ) : Bool := s.length = length && s.all hexByte

/-- The hexadecimal text of a digest. -/
def hexText (bs : Bytes) : Bytes :=
  bs.flatMap fun b => [Json.hexDigit (b.toNat / 16), Json.hexDigit b.toNat]

theorem hexByte_hexDigit (n : ℕ) : hexByte (Json.hexDigit n) = true := by
  have h : ∀ m < 16, hexByte (Json.hexDigit m) = true := by decide
  have hmod : Json.hexDigit n = Json.hexDigit (n % 16) := by simp [Json.hexDigit]
  rw [hmod]
  exact h _ (Nat.mod_lt _ (by decide))

theorem hexText_form (bs : Bytes) :
    (hexText bs).length = 2 * bs.length ∧ (hexText bs).all hexByte = true := by
  induction bs with
  | nil => exact ⟨rfl, rfl⟩
  | cons b bs ih =>
    rw [hexText, List.flatMap_cons]
    constructor
    · rw [List.length_append, List.length_cons]
      have := ih.1
      rw [hexText] at this
      simp only [List.length_cons, List.length_nil]
      omega
    · rw [List.all_append, Bool.and_eq_true]
      refine ⟨?_, ih.2⟩
      simp [hexByte_hexDigit]

end HomeLab
