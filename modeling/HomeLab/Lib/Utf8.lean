/-
  UTF-8.

  `encode` prints characters as bytes (`Json.utf8`), and `decode` reads bytes
  as characters; it fails on a text that no characters print to
  (`decode_eq_some`).  A text is cut at a byte below 128 into two texts
  (`valid_append_cons`).
-/
import HomeLab.Lib.Json

namespace HomeLab

namespace Utf8

def encode (cs : List Char) : Bytes := cs.flatMap fun c => Json.utf8 c.toNat

/-- Read a character.  The first byte tells the number of bytes; only the bytes
    that the character prints to are read. -/
def readRune (bs : Bytes) : Option (Char × Bytes) :=
  let b (i : ℕ) : ℕ := (bs.getD i 0).toNat
  let rest (i : ℕ) : ℕ := b i - 0x80
  if b 0 < 0x80 then check 1 (b 0)
  else if b 0 < 0xE0 then check 2 ((b 0 - 0xC0) * 64 + rest 1)
  else if b 0 < 0xF0 then check 3 ((b 0 - 0xE0) * 4096 + rest 1 * 64 + rest 2)
  else check 4 ((b 0 - 0xF0) * 262144 + rest 1 * 4096 + rest 2 * 64 + rest 3)
where
  check (n r : ℕ) : Option (Char × Bytes) :=
    if Json.utf8 r = bs.take n ∧ r.isValidChar then some (Char.ofNat r, bs.drop n) else none

/-- Read at most `n` characters, up to the end of the text. -/
def decodeRunes : ℕ → Bytes → Option (List Char)
  | _, [] => some []
  | 0, _ :: _ => none
  | n + 1, b :: bs =>
    (readRune (b :: bs)).bind fun r => (decodeRunes n r.2).map fun cs => r.1 :: cs

def decode (bs : Bytes) : Option (List Char) := decodeRunes bs.length bs

def valid (bs : Bytes) : Bool := (decode bs).isSome

@[simp] theorem encode_nil : encode [] = [] := rfl

@[simp] theorem encode_cons (c : Char) (cs : List Char) :
    encode (c :: cs) = Json.utf8 c.toNat ++ encode cs := rfl

theorem encode_append (cs ds : List Char) : encode (cs ++ ds) = encode cs ++ encode ds :=
  List.flatMap_append

theorem utf8_ne_nil (r : ℕ) : Json.utf8 r ≠ [] := by
  unfold Json.utf8
  split_ifs <;> simp

/-! ## One character -/

theorem toNat_lt (c : Char) : c.toNat < 0x110000 := by
  rcases c.valid with h | h
  · exact h.trans (by decide)
  · exact h.2

theorem toNat_ofNat {r : ℕ} (h : r.isValidChar) : (Char.ofNat r).toNat = r := by
  rw [Char.ofNat, dif_pos h]
  rfl

theorem check_utf8 {c : Char} {rest : Bytes} {r n : ℕ} (hr : r = c.toNat)
    (hn : (Json.utf8 c.toNat).length = n) :
    readRune.check (Json.utf8 c.toNat ++ rest) n r = some (c, rest) := by
  subst hr hn
  rw [readRune.check, if_pos ⟨List.take_left.symm, c.valid⟩, List.drop_left, Char.ofNat_toNat]

theorem readRune_utf8 (c : Char) (rest : Bytes) :
    readRune (Json.utf8 c.toNat ++ rest) = some (c, rest) := by
  have hlt := toNat_lt c
  have hcheck := @check_utf8 c rest
  unfold readRune
  generalize c.toNat = r at *
  unfold Json.utf8 at hcheck ⊢
  split_ifs at hcheck ⊢ with h1 h2 h3 <;>
    simp only [List.cons_append, List.nil_append, List.getD_cons_zero, List.getD_cons_succ,
      Nat.toUInt8_eq, UInt8.toNat_ofNat'] at hcheck ⊢
  · rw [if_pos (by omega)]
    exact hcheck (by omega) rfl
  · rw [if_neg (by omega), if_pos (by omega)]
    exact hcheck (by omega) rfl
  · rw [if_neg (by omega), if_neg (by omega), if_pos (by omega)]
    exact hcheck (by omega) rfl
  · rw [if_neg (by omega), if_neg (by omega), if_neg (by omega)]
    exact hcheck (by omega) rfl

theorem eq_of_readRune {bs rest : Bytes} {c : Char} (h : readRune bs = some (c, rest)) :
    bs = Json.utf8 c.toNat ++ rest := by
  have hcheck : ∀ {n r : ℕ}, readRune.check bs n r = some (c, rest) →
      bs = Json.utf8 c.toNat ++ rest := by
    intro n r h
    rw [readRune.check] at h
    split_ifs at h with hbytes
    cases h
    rw [toNat_ofNat hbytes.2, hbytes.1, List.take_append_drop]
  unfold readRune at h
  dsimp only at h
  split_ifs at h <;> exact hcheck h

/-! ## Texts -/

theorem decodeRunes_encode {n : ℕ} {cs : List Char} (h : cs.length ≤ n) :
    decodeRunes n (encode cs) = some cs := by
  induction cs generalizing n with
  | nil => cases n <;> rfl
  | cons c cs ih =>
    obtain ⟨n, rfl⟩ : ∃ m, n = m + 1 := ⟨n - 1, by simp at h; omega⟩
    have hread := readRune_utf8 c (encode cs)
    rw [encode_cons]
    cases hbytes : Json.utf8 c.toNat ++ encode cs with
    | nil => exact absurd (List.append_eq_nil_iff.1 hbytes).1 (utf8_ne_nil _)
    | cons b bs =>
      rw [hbytes] at hread
      rw [decodeRunes, hread, Option.bind_some, ih (by simpa using h), Option.map_some]

theorem length_le_encode (cs : List Char) : cs.length ≤ (encode cs).length := by
  induction cs with
  | nil => simp
  | cons c cs ih =>
    have := List.length_pos_iff.2 (utf8_ne_nil c.toNat)
    rw [encode_cons, List.length_append, List.length_cons]
    omega

theorem encode_of_decodeRunes {n : ℕ} {bs : Bytes} {cs : List Char}
    (h : decodeRunes n bs = some cs) : encode cs = bs := by
  induction n generalizing bs cs with
  | zero =>
    cases bs with
    | nil => cases h; rfl
    | cons b bs => cases h
  | succ n ih =>
    cases bs with
    | nil => cases h; rfl
    | cons b bs =>
      obtain ⟨r, hr, h⟩ := Option.bind_eq_some_iff.1 h
      obtain ⟨ds, hds, rfl⟩ := Option.map_eq_some_iff.1 h
      rw [encode_cons, ih hds, eq_of_readRune hr]

theorem decode_eq_some {bs : Bytes} {cs : List Char} : decode bs = some cs ↔ encode cs = bs := by
  constructor
  · exact encode_of_decodeRunes
  · rintro rfl
    exact decodeRunes_encode (length_le_encode cs)

theorem valid_iff {bs : Bytes} : valid bs = true ↔ ∃ cs, encode cs = bs := by
  rw [valid, Option.isSome_iff_exists]
  exact exists_congr fun cs => decode_eq_some

theorem encode_injective {cs ds : List Char} (h : encode cs = encode ds) : cs = ds :=
  Option.some.inj ((decode_eq_some.2 rfl).symm.trans (decode_eq_some.2 h.symm))

/-! ## Cutting -/

/-- A byte below 128 is a character of its own. -/
theorem utf8_of_mem {r : ℕ} {b : UInt8} (h : b ∈ Json.utf8 r) (hr : r < 0x110000) (hb : b < 128) :
    Json.utf8 r = [b] := by
  have hb' : b.toNat < 128 := hb
  unfold Json.utf8 at h ⊢
  split_ifs at h ⊢ <;>
    simp only [List.mem_cons, List.not_mem_nil, or_false] at h
  · rw [h]
  all_goals
    exfalso
    rcases h with rfl | h
    · simp only [Nat.toUInt8_eq, UInt8.toNat_ofNat'] at hb'
      omega
    · rcases h with rfl | rfl | rfl <;> simp only [Nat.toUInt8_eq, UInt8.toNat_ofNat'] at hb' <;> omega

theorem exists_of_mem_encode {cs : List Char} {b : UInt8} (h : b ∈ encode cs) (hb : b < 128) :
    ∃ c ∈ cs, c.toNat = b.toNat := by
  obtain ⟨c, hc, hbc⟩ := List.mem_flatMap.1 h
  refine ⟨c, hc, ?_⟩
  have hone := utf8_of_mem hbc (toNat_lt c) hb
  unfold Json.utf8 at hone
  split_ifs at hone
  · rw [← (List.cons.inj hone).1]
    simp only [Nat.toUInt8_eq, UInt8.toNat_ofNat']
    omega
  all_goals
    have := congrArg List.length hone
    simp at this

theorem exists_of_encode_eq {cs : List Char} {a rest : Bytes} {b : UInt8} (hb : b < 128)
    (h : encode cs = a ++ b :: rest) :
    ∃ ds es, encode ds = a ∧ encode es = rest := by
  induction cs generalizing a with
  | nil => simp at h
  | cons c cs ih =>
    rw [encode_cons] at h
    rcases List.append_eq_append_iff.1 h with ⟨a', rfl, hrest⟩ | ⟨a', hc, hrest⟩
    · obtain ⟨ds, es, rfl, hes⟩ := ih hrest
      exact ⟨c :: ds, es, rfl, hes⟩
    · cases a' with
      | nil =>
        obtain ⟨ds, es, hds, hes⟩ := ih (a := []) hrest.symm
        exact ⟨[c], es, by simpa using hc, hes⟩
      | cons b' a' =>
        obtain ⟨rfl, htail⟩ := List.cons.inj hrest
        have hone := utf8_of_mem (hc ▸ List.mem_append_right a (List.mem_cons_self ..)) (toNat_lt c) hb
        have hlen := congrArg List.length (hone.symm.trans hc)
        simp only [List.length_append, List.length_cons, List.length_nil] at hlen
        obtain rfl : a = [] := List.length_eq_zero_iff.1 (by omega)
        obtain rfl : a' = [] := List.length_eq_zero_iff.1 (by omega)
        exact ⟨[], cs, rfl, htail.symm⟩

/-- **A text is cut at a byte below 128 into two texts.** -/
theorem valid_append_cons {a rest : Bytes} {b : UInt8} (hb : b < 128)
    (h : valid (a ++ b :: rest) = true) : valid a = true ∧ valid rest = true := by
  obtain ⟨cs, hcs⟩ := valid_iff.1 h
  obtain ⟨ds, es, hds, hes⟩ := exists_of_encode_eq hb hcs
  exact ⟨valid_iff.2 ⟨ds, hds⟩, valid_iff.2 ⟨es, hes⟩⟩

end Utf8

end HomeLab
