/-
  Codecs of records.

  A codec prints the values of a type as JSON and reads them back.  It carries
  its laws: what is read is good, and a good value is read back from what it
  prints to.  Records are objects with exactly the named fields, in any order;
  they are printed in the order of their names.
-/
import Mathlib.Logic.Equiv.Defs
import Mathlib.Data.List.Nodup
import HomeLab.Lib.Json

namespace HomeLab

structure Codec (α : Type) where
  toJson : α → Json
  ofJson : Json → Option α
  Good : α → Prop
  wellFormed : ∀ a, (toJson a).WellFormed
  decoded : ∀ {v a}, ofJson v = some a → Good a
  encoded : ∀ {a}, Good a → ofJson (toJson a) = some a

namespace Codec

variable {α β : Type}

/-- The value that is printed after reading. -/
def canonical (c : Codec α) (v : Json) : Option Json := (c.ofJson v).map c.toJson

theorem canonical_eq_some {c : Codec α} {v w : Json} :
    c.canonical v = some w ↔ ∃ a, c.ofJson v = some a ∧ c.toJson a = w := Option.map_eq_some_iff

/-! ## Scalars -/

/-- A string; `null` leaves it empty. -/
def string : Codec Bytes where
  toJson := .str
  ofJson
    | .str s => some s
    | .null => some []
    | _ => none
  Good _ := True
  wellFormed _ := trivial
  decoded _ := trivial
  encoded _ := rfl

/-- An integer of 63 bits; `null` leaves it zero. -/
def integer : Codec ℤ where
  toJson n := .num (decimal n.toNat)
  ofJson
    | .num lit => if lit.all isDigit ∧ numeral lit < 2 ^ 63 then some (numeral lit) else none
    | .null => some 0
    | _ => none
  Good n := 0 ≤ n ∧ n < 2 ^ 63
  wellFormed n := Json.wellFormed_decimal n.toNat
  decoded {v n} h := by
    split at h
    · split_ifs at h with hlit
      cases h
      exact ⟨Int.natCast_nonneg _, by exact_mod_cast hlit.2⟩
    · cases h
      decide
    · cases h
  encoded {n} h := by
    have hdigits : (decimal n.toNat).all isDigit = true :=
      List.all_eq_true.2 fun b hb => isDigit_of_mem_decimal hb
    have hlt : n.toNat < 2 ^ 63 := by omega
    simp only [hdigits, numeral_decimal, hlt, and_self, if_true, Int.toNat_of_nonneg h.1]

/-- The decimal text of a number of 63 bits. -/
def decimalText : Codec ℤ where
  toJson n := .str (decimal n.toNat)
  ofJson v := (string.ofJson v).bind fun s =>
    if decimal (numeral s) = s ∧ numeral s < 2 ^ 63 then some (numeral s : ℤ) else none
  Good n := 0 ≤ n ∧ n < 2 ^ 63
  wellFormed _ := trivial
  decoded {v n} h := by
    obtain ⟨s, -, h⟩ := Option.bind_eq_some_iff.1 h
    split_ifs at h with hs
    cases h
    exact ⟨Int.natCast_nonneg _, by exact_mod_cast hs.2⟩
  encoded {n} h := by
    have hlt : n.toNat < 2 ^ 63 := by omega
    simp only [string, Option.bind_some, numeral_decimal, hlt, and_self, if_true,
      Int.toNat_of_nonneg h.1]

/-- A number of 64 bits; `null` leaves it zero. -/
def natural : Codec ℕ where
  toJson n := .num (decimal n)
  ofJson
    | .num lit => if lit.all isDigit ∧ numeral lit < 2 ^ 64 then some (numeral lit) else none
    | .null => some 0
    | _ => none
  Good n := n < 2 ^ 64
  wellFormed n := Json.wellFormed_decimal n
  decoded {v n} h := by
    split at h
    · split_ifs at h with hlit
      cases h
      exact hlit.2
    · cases h
      decide
    · cases h
  encoded {n} h := by
    have hdigits : (decimal n).all isDigit = true :=
      List.all_eq_true.2 fun b hb => isDigit_of_mem_decimal hb
    simp only [hdigits, numeral_decimal, h, and_self, if_true]

/-- A truth value; `null` leaves it false. -/
def boolean : Codec Bool where
  toJson := .bool
  ofJson
    | .bool b => some b
    | .null => some false
    | _ => none
  Good _ := True
  wellFormed _ := trivial
  decoded _ := trivial
  encoded _ := rfl

/-- One of the listed values, by its text. -/
def enumeration (text : α → Bytes) (all : List α)
    (h : ∀ a ∈ all, ∀ b ∈ all, text a = text b → a = b := by decide +kernel) : Codec α where
  toJson a := .str (text a)
  ofJson v := (string.ofJson v).bind fun s => all.find? fun a => text a = s
  Good a := a ∈ all
  wellFormed _ := trivial
  decoded {v a} hread := by
    obtain ⟨s, -, hfind⟩ := Option.bind_eq_some_iff.1 hread
    exact List.mem_of_find?_eq_some hfind
  encoded {a} ha := by
    cases hfind : all.find? (fun b => text b = text a) with
    | none =>
      have hne := List.find?_eq_none.1 hfind a ha
      simp at hne
    | some b =>
      have htext : text b = text a := by simpa using List.find?_some hfind
      exact hfind.trans (congrArg some (h b (List.mem_of_find?_eq_some hfind) a ha htext))

/-- Only `null`, which stands for one value. -/
def unit (b : β) : Codec β where
  toJson _ := .null
  ofJson v := if v.isNull then some b else none
  Good c := c = b
  wellFormed _ := trivial
  decoded {v c} h := by
    split_ifs at h
    exact (Option.some.inj h).symm
  encoded {c} h := by
    subst h
    rfl

/-! ## Restrictions and changes of type -/

/-- Only values that pass a check are read. -/
def check (valid : α → Bool) (c : Codec α) : Codec α where
  toJson := c.toJson
  ofJson v := (c.ofJson v).filter valid
  Good a := c.Good a ∧ valid a = true
  wellFormed := c.wellFormed
  decoded h := by
    obtain ⟨hread, hvalid⟩ := Option.filter_eq_some_iff.1 h
    exact ⟨c.decoded hread, hvalid⟩
  encoded h := Option.filter_eq_some_iff.2 ⟨c.encoded h.1, h.2⟩

/-- The codec does not print `null`. -/
def Solid (c : Codec α) : Prop := ∀ a, (c.toJson a).isNull = false

theorem string_solid : string.Solid := fun _ => rfl

/-- `null` is refused. -/
def present (c : Codec α) (hc : c.Solid := by exact fun _ => rfl) : Codec α where
  toJson := c.toJson
  ofJson v := if v.isNull then none else c.ofJson v
  Good := c.Good
  wellFormed := c.wellFormed
  decoded {v a} h := by
    split_ifs at h
    exact c.decoded h
  encoded {a} h := by
    rw [if_neg (by rw [hc a]; decide)]
    exact c.encoded h

/-- `null` stands for no value. -/
def nullable (c : Codec α) (hc : c.Solid := by exact fun _ => rfl) : Codec (Option α) where
  toJson
    | none => .null
    | some a => c.toJson a
  ofJson v := if v.isNull then some none else (c.ofJson v).map some
  Good o := ∀ a ∈ o, c.Good a
  wellFormed
    | none => trivial
    | some a => c.wellFormed a
  decoded {v o} h := by
    split_ifs at h
    · cases h
      exact nofun
    · obtain ⟨a, hread, rfl⟩ := Option.map_eq_some_iff.1 h
      intro b hb
      cases hb
      exact c.decoded hread
  encoded {o} h := by
    cases o with
    | none => rfl
    | some a => simp [hc a, c.encoded (h a rfl)]

/-- Values of another type, by a partial inverse. -/
def embed (c : Codec α) (into : α → β) (back : β → Option α)
    (h : ∀ a, back (into a) = some a := by exact fun _ => rfl) : Codec β where
  toJson b := ((back b).map c.toJson).getD .null
  ofJson v := (c.ofJson v).map into
  Good b := ∃ a, c.Good a ∧ into a = b
  wellFormed b := by
    cases back b with
    | none => trivial
    | some a => exact c.wellFormed a
  decoded {v b} hread := by
    obtain ⟨a, ha, rfl⟩ := Option.map_eq_some_iff.1 hread
    exact ⟨a, c.decoded ha, rfl⟩
  encoded {b} hb := by
    obtain ⟨a, ha, rfl⟩ := hb
    simp [h a, c.encoded ha]

/-! ## Arrays -/

theorem mapM_encoded {c : Codec α} {xs : List α} (h : ∀ x ∈ xs, c.Good x) :
    (xs.map c.toJson).mapM c.ofJson = some xs := by
  induction xs with
  | nil => rfl
  | cons x xs ih =>
    obtain ⟨hx, hxs⟩ := List.forall_mem_cons.1 h
    simp [c.encoded hx, ih hxs]

theorem mapM_decoded {c : Codec α} {vs : List Json} {xs : List α}
    (h : vs.mapM c.ofJson = some xs) : ∀ x ∈ xs, c.Good x := by
  induction vs generalizing xs with
  | nil =>
    cases h
    exact fun _ hx => absurd hx List.not_mem_nil
  | cons v vs ih =>
    simp only [List.mapM_cons, Option.bind_eq_bind, Option.bind_eq_some_iff, Option.pure_def,
      Option.some.injEq] at h
    obtain ⟨y, hy, ys, hys, rfl⟩ := h
    exact List.forall_mem_cons.2 ⟨c.decoded hy, ih hys⟩

/-- An array; `null` is refused. -/
def list (c : Codec α) : Codec (List α) where
  toJson xs := .arr (xs.map c.toJson)
  ofJson
    | .arr vs => vs.mapM c.ofJson
    | _ => none
  Good xs := ∀ x ∈ xs, c.Good x
  wellFormed xs := Json.wellFormed_arr.2 fun v hv => by
    obtain ⟨x, -, rfl⟩ := List.mem_map.1 hv
    exact c.wellFormed x
  decoded {v xs} h := by
    cases v with
    | arr vs => exact mapM_decoded h
    | _ => cases h
  encoded h := mapM_encoded h

end Codec

/-! ## Records -/

/-- The values of the named fields, of a list with exactly these fields. -/
def lookupFields {α : Type} (names : List Bytes) (fs : List (Bytes × α)) : Option (List α) :=
  if fs.length = names.length then lookups fs names else none
where
  lookups (fs : List (Bytes × α)) : List Bytes → Option (List α)
    | [] => some []
    | name :: names => do
      let v ← fs.lookup name
      let vs ← lookups fs names
      return v :: vs

def Json.objectFields (names : List Bytes) : Json → Option (List Json)
  | .obj fs => lookupFields names fs
  | _ => none

section
variable {α : Type}

theorem lookups_cons_of_not_mem {name : Bytes} {v : α} {fs : List (Bytes × α)}
    {names : List Bytes} (h : name ∉ names) :
    lookupFields.lookups ((name, v) :: fs) names = lookupFields.lookups fs names := by
  induction names with
  | nil => rfl
  | cons n names ih =>
    obtain ⟨hne, hmem⟩ := not_or.1 (mt List.mem_cons.2 h)
    rw [lookupFields.lookups, lookupFields.lookups, ih hmem, List.lookup_cons,
      beq_false_of_ne (Ne.symm hne)]

theorem lookups_zip {names : List Bytes} {vs : List α} (hn : names.Nodup)
    (hlen : vs.length = names.length) :
    lookupFields.lookups (names.zip vs) names = some vs := by
  induction names generalizing vs with
  | nil =>
    cases List.length_eq_zero_iff.1 hlen
    rfl
  | cons name names ih =>
    cases vs with
    | nil => cases hlen
    | cons v vs =>
      obtain ⟨hmem, hn⟩ := List.nodup_cons.1 hn
      rw [List.zip_cons_cons, lookupFields.lookups, lookups_cons_of_not_mem hmem,
        ih hn (Nat.succ.inj hlen)]
      simp

/-- A record is read back from its fields. -/
theorem lookupFields_zip {names : List Bytes} {vs : List α} (hn : names.Nodup)
    (hlen : vs.length = names.length) : lookupFields names (names.zip vs) = some vs := by
  rw [lookupFields, if_pos (by rw [List.length_zip, hlen, Nat.min_self]), lookups_zip hn hlen]

end

/-- Codecs of the fields of a record, in order. -/
structure Fields (names : List Bytes) (β : Type) where
  toValues : β → List Json
  ofValues : List Json → Option β
  Good : β → Prop
  /-- A constructor with the fields as its arguments. -/
  Maker : Type → Type
  make : ∀ {α}, Maker α → β → α
  length : ∀ b, (toValues b).length = names.length
  wellFormed : ∀ b, ∀ v ∈ toValues b, v.WellFormed
  decoded : ∀ {vs b}, ofValues vs = some b → Good b
  encoded : ∀ {b}, Good b → ofValues (toValues b) = some b

namespace Fields

variable {α β : Type} {names : List Bytes}

def nil : Fields [] Unit where
  toValues _ := []
  ofValues
    | [] => some ()
    | _ => none
  Good _ := True
  Maker γ := γ
  make mk _ := mk
  length _ := rfl
  wellFormed _ _ h := absurd h List.not_mem_nil
  decoded _ := trivial
  encoded _ := rfl

def field (name : String) (c : Codec α) (fs : Fields names β) :
    Fields (ascii name :: names) (α × β) where
  toValues p := c.toJson p.1 :: fs.toValues p.2
  ofValues
    | [] => none
    | v :: vs => (c.ofJson v).bind fun a => (fs.ofValues vs).map fun b => (a, b)
  Good p := c.Good p.1 ∧ fs.Good p.2
  Maker γ := α → fs.Maker γ
  make mk p := fs.make (mk p.1) p.2
  length p := congrArg Nat.succ (fs.length p.2)
  wellFormed p := List.forall_mem_cons.2 ⟨c.wellFormed p.1, fs.wellFormed p.2⟩
  decoded {vs p} h := by
    cases vs with
    | nil => cases h
    | cons v vs =>
      obtain ⟨a, ha, h⟩ := Option.bind_eq_some_iff.1 h
      obtain ⟨b, hb, rfl⟩ := Option.map_eq_some_iff.1 h
      exact ⟨c.decoded ha, fs.decoded hb⟩
  encoded {p} h := by simp [c.encoded h.1, fs.encoded h.2]

/-- A last field whose codec depends on the fields before it. -/
def dependent (name : String) (fs : Fields names α) (c : α → Codec β) :
    Fields (names ++ [ascii name]) (α × β) where
  toValues p := fs.toValues p.1 ++ [(c p.1).toJson p.2]
  ofValues vs := (fs.ofValues vs.dropLast).bind fun a =>
    vs.getLast?.bind fun v => ((c a).ofJson v).map fun b => (a, b)
  Good p := fs.Good p.1 ∧ (c p.1).Good p.2
  Maker γ := fs.Maker (β → γ)
  make mk p := fs.make mk p.1 p.2
  length p := by simp [fs.length]
  wellFormed p v hv := by
    rcases List.mem_append.1 hv with hv | hv
    · exact fs.wellFormed p.1 v hv
    · rw [List.mem_singleton.1 hv]
      exact (c p.1).wellFormed p.2
  decoded {vs p} h := by
    obtain ⟨a, ha, h⟩ := Option.bind_eq_some_iff.1 h
    obtain ⟨v, -, h⟩ := Option.bind_eq_some_iff.1 h
    obtain ⟨b, hb, rfl⟩ := Option.map_eq_some_iff.1 h
    exact ⟨fs.decoded ha, (c a).decoded hb⟩
  encoded {p} h := by simp [fs.encoded h.1, (c p.1).encoded h.2]

end Fields

/-- A record with the given fields: `row` takes it apart and `mk` makes it. -/
def Codec.record {α β : Type} {names : List Bytes} (fs : Fields names β) (row : α → β)
    (mk : fs.Maker α) (hmk : ∀ a, fs.make mk (row a) = a := by exact fun _ => rfl)
    (hrow : ∀ b, row (fs.make mk b) = b := by exact fun _ => rfl)
    (hn : names.Nodup := by decide +kernel) : Codec α where
  toJson a := .obj (names.zip (fs.toValues (row a)))
  ofJson v := (v.objectFields names).bind fun vs => (fs.ofValues vs).map (fs.make mk)
  Good a := fs.Good (row a)
  wellFormed a := Json.wellFormed_obj.2 fun f hf =>
    fs.wellFormed (row a) f.2 (List.of_mem_zip hf).2
  decoded {v a} h := by
    obtain ⟨vs, -, h⟩ := Option.bind_eq_some_iff.1 h
    obtain ⟨b, hb, rfl⟩ := Option.map_eq_some_iff.1 h
    rw [hrow]
    exact fs.decoded hb
  encoded {a} h := by
    rw [Json.objectFields, lookupFields_zip hn (fs.length _), Option.bind_some, fs.encoded h,
      Option.map_some, hmk]

end HomeLab
