/-
  The texts of a workload projection.

  `display` turns the name of a process, of a container or of an image into the
  text that is uploaded; `textValid` is the check that the text has to pass
  before it leaves.  The text is searched for secrets before it is cut to its
  length, and again by the check.

  A cut in the middle of a word makes a word boundary, and with it a match, that
  was not there before (`display_cut_matches`).  Two expressions end in such a
  boundary, and they are the only reason why a displayed text does not pass the
  check (`display_textValid`).
-/
import Mathlib.Data.List.DropRight
import HomeLab.Lib.Regex
import HomeLab.Lib.Unicode

namespace HomeLab

namespace Workload

open Regex Unicode

/-! ## Sensitive texts -/

/-- `[A-Za-z0-9_-]` -/
def tokenChar : Char → Bool :=
  caseless fun c => c.isLower || c.isDigit || c = '_' || c = '-'

/-- `\d{1,3}` -/
def octet : Regex := repeats Char.isDigit 1 (some 3)

/-- `10\.\d{1,3}|192\.168|172\.(1[6-9]|2\d|3[01])` -/
def privateNetwork : Regex :=
  anyOf [
    sequence [exactText "10.", octet],
    exactText "192.168",
    sequence [exactText "172.", anyOf [
      sequence [exactText "1", one fun c => '6' ≤ c && c ≤ '9'],
      sequence [exactText "2", one Char.isDigit],
      sequence [exactText "3", one fun c => c = '0' || c = '1']]]]

/-- `[0-9a-f:]` -/
def addressChar : Char → Bool :=
  caseless fun c => c.isDigit || 'a' ≤ c && c ≤ 'f' || c = ':'

/-- `\bAKIA[0-9A-Z]{16}` -/
def accessKey : Regex :=
  sequence [boundary, caselessText "akia",
    repeats (caseless fun c => c.isDigit || c.isLower) 16 (some 16)]

/-- `\b(10\.\d{1,3}|192\.168|172\.(1[6-9]|2\d|3[01]))\.\d{1,3}\.\d{1,3}` -/
def privateAddress : Regex :=
  sequence [boundary, privateNetwork, exactText ".", octet, exactText ".", octet]

/-- Credentials, addresses and the like, whatever their case. -/
def secrets : List Regex :=
  [sequence [caselessText "hl", one (caseless fun c => c = 'e' || c = 'c'), exactText "_",
     repeats tokenChar 43 (some 43)],
   sequence [caselessText "eyj", repeats tokenChar 1 none, exactText ".",
     repeats tokenChar 1 none, exactText ".", repeats tokenChar 1 none],
   sequence [one (caseless Char.isLower),
     repeats (caseless fun c => c.isLower || c.isDigit || c = '+' || c = '.' || c = '-') 0 none,
     exactText "://"],
   sequence [boundary, repeats userChar 1 none, exactText ":", repeats passwordChar 1 none,
     exactText "@"],
   sequence [boundary,
     repeats (caseless fun c => c.isLower || c.isDigit || c = '.' || c = '_' || c = '%' ||
       c = '+' || c = '-') 1 none,
     exactText "@",
     repeats (caseless fun c => c.isLower || c.isDigit || c = '.' || c = '-') 1 none,
     exactText ".", repeats (caseless Char.isLower) 2 none],
   sequence [boundary, anyOf [caselessText "token", caselessText "password",
     caselessText "passwd", caselessText "secret", keyName "api", keyName "access"],
     one fun c => c = '=' || c = ':'],
   sequence [boundary, caselessText "bearer", repeats Regex.isSpace 1 none],
   sequence [boundary, caselessText "gh",
     one (caseless fun c => c = 'p' || c = 'o' || c = 'u' || c = 's' || c = 'r'), exactText "_",
     repeats (caseless fun c => c.isLower || c.isDigit) 20 none],
   sequence [boundary, caselessText "github_pat_",
     repeats (caseless fun c => c.isLower || c.isDigit || c = '_') 20 none],
   sequence [accessKey, boundary],
   sequence [privateAddress, boundary],
   sequence [exactText "[", repeats addressChar 1 none, exactText ":", repeats addressChar 1 none,
     exactText "]"]]

def sensitive : Regex := anyOf secrets

/-! ## Displayed texts -/

/-- Format characters are dropped, control characters become spaces. -/
def mapRune (c : Char) : Option Char :=
  if isFormat c then none else if isControl c then some ' ' else some c

/-- The text as one line. -/
def oneLine (text : List Char) : List Char := joinFields (text.filterMap mapRune)

/-- What follows the last slash; a backslash counts as one. -/
def baseName (value : List Char) : List Char :=
  (value.map fun c => if c = '\\' then '/' else c).rtakeWhile (· ≠ '/')

/-- Drop the first of the characters, which are the last of the text, until the rest fits. -/
def dropRunes (maxBytes : ℕ) : List Char → List Char
  | [] => []
  | c :: cs =>
    if (Utf8.encode (c :: cs).reverse).length ≤ maxBytes then c :: cs else dropRunes maxBytes cs

def cut (maxBytes : ℕ) (value : List Char) : List Char := (dropRunes maxBytes value.reverse).reverse

/-- The text of a name before it is cut. -/
def uncut (basename : Bool) (text : List Char) : List Char :=
  if basename then baseName (oneLine text) else oneLine text

def display (raw : Bytes) (maxBytes : ℕ) (basename : Bool) : Option Bytes :=
  if 1024 < raw.length then none
  else (Utf8.decode raw).map fun text =>
    if sensitive.matchString (oneLine text) then ascii "[REDACTED]"
    else
      let value := cut maxBytes (uncut basename text)
      if value = [] then ascii "unknown" else Utf8.encode value

def textValid (v : Bytes) (limit : ℕ) : Bool :=
  v ≠ [] && v.length ≤ limit &&
    (Utf8.decode v).any fun text =>
      !sensitive.matchString text && text.all fun c => !(isControl c || isFormat c)

/-- UTF-8 of at most 1024 bytes. -/
def Admissible (text : Bytes) : Prop := Utf8.valid text = true ∧ text.length ≤ 1024

/-- What is shown of an admissible text. -/
def shown (raw : Bytes) (maxBytes : ℕ) (basename : Bool) : Bytes :=
  (display raw maxBytes basename).getD []

/-- The cut makes a secret: the text has none, but what is kept of it ends in an access key or a
    private address, within a word. -/
def CutsSecret (raw : Bytes) (maxBytes : ℕ) (basename : Bool) : Prop :=
  ∃ text, Utf8.decode raw = some text ∧ sensitive.matchString (oneLine text) = false ∧
    ∃ u w v, uncut basename text = u ++ w ++ v ∧ cut maxBytes (uncut basename text) = u ++ w ∧
      (∃ key ∈ [accessKey, privateAddress], key.Matches u.getLast? w none) ∧
      wordAt w.getLast? = true ∧ wordAt v.head? = true

/-! ## Cleaning and cutting -/

theorem isControl_space : isControl ' ' = false := by decide

theorem isFormat_space : isFormat ' ' = false := by decide

/-- Neither control nor format characters. -/
def Clean (text : List Char) : Prop := ∀ c ∈ text, isControl c = false ∧ isFormat c = false

variable {text value : List Char} {maxBytes : ℕ} {raw : Bytes}

theorem clean_of_all (h : text.all (fun c => !isControl c && !isFormat c) = true) : Clean text := by
  intro c hc
  simpa using List.all_eq_true.1 h c hc

theorem oneLine_clean (text : List Char) : Clean (oneLine text) := by
  intro c hc
  rcases mem_joinFields hc with hc | rfl
  · obtain ⟨d, -, hd⟩ := List.mem_filterMap.1 hc
    unfold mapRune at hd
    split_ifs at hd with hformat hcontrol
    · cases hd
      exact ⟨isControl_space, isFormat_space⟩
    · cases hd
      exact ⟨by simpa using hcontrol, by simpa using hformat⟩
  · exact ⟨isControl_space, isFormat_space⟩

theorem length_utf8_mapRune {c d : Char} (h : mapRune c = some d) :
    (Json.utf8 d.toNat).length ≤ (Json.utf8 c.toNat).length := by
  unfold mapRune at h
  split_ifs at h
  · cases h
    exact List.length_pos_iff.2 (Utf8.utf8_ne_nil _)
  · cases h
    exact le_rfl

theorem length_encode_filterMap (text : List Char) :
    (Utf8.encode (text.filterMap mapRune)).length ≤ (Utf8.encode text).length := by
  induction text with
  | nil => exact le_rfl
  | cons c cs ih =>
    rw [Utf8.encode_cons, List.length_append, List.filterMap_cons]
    cases hc : mapRune c with
    | none => exact ih.trans (Nat.le_add_left _ _)
    | some d =>
      rw [Utf8.encode_cons, List.length_append]
      exact Nat.add_le_add (length_utf8_mapRune hc) ih

theorem length_encode_oneLine (text : List Char) :
    (Utf8.encode (oneLine text)).length ≤ (Utf8.encode text).length :=
  (length_encode_joinFields _).trans (length_encode_filterMap text)

/-- A base name is the end of the text after its last slash or backslash. -/
theorem baseName_eq (value : List Char) :
    baseName value = value.rtakeWhile fun c => c ≠ '/' && c ≠ '\\' := by
  induction value using List.reverseRecOn with
  | nil => rfl
  | append_singleton cs c ih =>
    rw [baseName] at ih ⊢
    rw [List.map_append, List.map_singleton, List.rtakeWhile_concat, List.rtakeWhile_concat, ih]
    by_cases hslash : c = '/'
    · simp [hslash]
    · by_cases hback : c = '\\'
      · simp [hback]
      · simp [hslash, hback]

theorem baseName_suffix (value : List Char) :
    ∃ u, value = u ++ baseName value ∧ wordAt u.getLast? = false := by
  refine ⟨value.rdropWhile fun c => c ≠ '/' && c ≠ '\\', ?_, ?_⟩
  · rw [baseName_eq]
    exact List.rdropWhile_append_rtakeWhile.symm
  · cases hlast : (value.rdropWhile fun c => c ≠ '/' && c ≠ '\\').getLast? with
    | none => rfl
    | some c =>
      have hne : value.rdropWhile (fun c => c ≠ '/' && c ≠ '\\') ≠ [] := by
        intro hnil
        rw [hnil] at hlast
        cases hlast
      have hc := Option.some.inj ((List.getLast?_eq_some_getLast hne).symm.trans hlast)
      have hstop := List.rdropWhile_last_not (fun c => c ≠ '/' && c ≠ '\\') value hne
      rw [hc] at hstop
      have hor : c = '/' ∨ c = '\\' := by
        by_contra hno
        push Not at hno
        exact hstop (by simp [hno.1, hno.2])
      rcases hor with rfl | rfl <;> decide

theorem mem_baseName {c : Char} (h : c ∈ baseName value) :
    c ≠ '/' ∧ c ≠ '\\' := by
  rw [baseName_eq] at h
  simpa using List.mem_rtakeWhile_imp h

theorem dropRunes_spec (maxBytes : ℕ) (cs : List Char) :
    ∃ dropped, cs = dropped ++ dropRunes maxBytes cs ∧
      (Utf8.encode (dropRunes maxBytes cs).reverse).length ≤ maxBytes := by
  induction cs with
  | nil => exact ⟨[], rfl, Nat.zero_le _⟩
  | cons c cs ih =>
    rw [dropRunes]
    split_ifs with hfits
    · exact ⟨[], rfl, hfits⟩
    · obtain ⟨dropped, heq, hlen⟩ := ih
      exact ⟨c :: dropped, congrArg (c :: ·) heq, hlen⟩

theorem length_encode_cut (maxBytes : ℕ) (value : List Char) :
    (Utf8.encode (cut maxBytes value)).length ≤ maxBytes := by
  obtain ⟨-, -, hlen⟩ := dropRunes_spec maxBytes value.reverse
  exact hlen

theorem cut_append_drop (maxBytes : ℕ) (value : List Char) :
    cut maxBytes value ++ value.drop (cut maxBytes value).length = value := by
  obtain ⟨dropped, heq, -⟩ := dropRunes_spec maxBytes value.reverse
  have hvalue : value = cut maxBytes value ++ dropped.reverse := by
    rw [cut, ← List.reverse_append, ← heq, List.reverse_reverse]
  have hdrop : value.drop (cut maxBytes value).length = dropped.reverse := by
    conv_lhs => rw [hvalue]
    exact List.drop_left' (congrArg (fun v => (cut maxBytes v).length) hvalue)
  rw [hdrop, ← hvalue]

theorem cut_eq_self (h : (Utf8.encode value).length ≤ maxBytes) : cut maxBytes value = value := by
  rw [cut]
  cases hrev : value.reverse with
  | nil => rw [List.reverse_eq_nil_iff.1 hrev]; rfl
  | cons c cs =>
    rw [dropRunes, ← hrev, List.reverse_reverse, if_pos h, List.reverse_reverse]

/-! ## What is displayed -/

theorem uncut_suffix (basename : Bool) (text : List Char) :
    ∃ u, oneLine text = u ++ uncut basename text ∧ wordAt u.getLast? = false := by
  cases basename with
  | false => exact ⟨[], rfl, rfl⟩
  | true => exact baseName_suffix (oneLine text)

theorem Clean.uncut (basename : Bool) (text : List Char) : Clean (uncut basename text) := by
  obtain ⟨u, hu, -⟩ := uncut_suffix basename text
  intro c hc
  exact oneLine_clean text c (hu ▸ List.mem_append_right u hc)

theorem Clean.cut (h : Clean value) (maxBytes : ℕ) :
    Clean (cut maxBytes value) := by
  intro c hc
  exact h c (cut_append_drop maxBytes value ▸ List.mem_append_left _ hc)

theorem textValid_iff {limit : ℕ} :
    textValid (Utf8.encode text) limit = true ↔
      text ≠ [] ∧ (Utf8.encode text).length ≤ limit ∧ sensitive.matchString text = false ∧
        Clean text := by
  have hne : Utf8.encode text ≠ [] ↔ text ≠ [] := by
    rw [ne_eq, ne_eq, not_iff_not]
    exact ⟨fun h => Utf8.encode_injective (h.trans Utf8.encode_nil.symm), fun h => h ▸ rfl⟩
  simp only [textValid, Utf8.decode_eq_some.2 rfl, Option.any_some, Bool.and_eq_true,
    decide_eq_true_eq, Bool.not_eq_true', List.all_eq_true, Bool.or_eq_false_iff, hne, Clean,
    and_assoc]

/-- What follows a secret matters only if it is an access key or a private address. -/
theorem secrets_steady : ∀ r ∈ secrets, r.steady = true ∨
    ∃ key ∈ [accessKey, privateAddress], r = sequence [key, boundary] := by
  simp only [secrets, List.forall_mem_cons]
  refine ⟨Or.inl rfl, Or.inl rfl, Or.inl rfl, Or.inl rfl, Or.inl rfl, Or.inl rfl, Or.inl rfl,
    Or.inl rfl, Or.inl rfl, Or.inr ⟨accessKey, by simp, rfl⟩,
    Or.inr ⟨privateAddress, by simp, rfl⟩, Or.inl rfl, by simp⟩

theorem sensitive_of_key {key : Regex} (hkey : key ∈ [accessKey, privateAddress])
    {u w : List Char} (h : key.Matches u.getLast? w none) (hlast : wordAt w.getLast? = true) :
    sensitive.matchString (u ++ w) = true := by
  have hmem : sequence [key, boundary] ∈ secrets := by
    rcases List.mem_pair.1 hkey with rfl | rfl <;> simp [secrets]
  refine matchString_iff.2 ⟨u, w, [], by rw [List.append_nil],
    matches_anyOf.2 ⟨_, hmem, w, [], (List.append_nil w).symm, h, [], [], rfl, ⟨rfl, ?_⟩, rfl⟩⟩
  cases hw : w.getLast? with
  | none => rw [hw] at hlast; cases hlast
  | some c =>
    rw [hw] at hlast
    exact fun heq => absurd (hlast.symm.trans heq) (by decide)

/-- A cut makes a secret only by dividing a word after a key. -/
theorem key_of_sensitive {text v : List Char} (h : sensitive.matchString text = true)
    (hwhole : sensitive.matchString (text ++ v) = false) :
    ∃ u w, text = u ++ w ∧ (∃ key ∈ [accessKey, privateAddress], key.Matches u.getLast? w none) ∧
      wordAt w.getLast? = true ∧ wordAt v.head? = true := by
  rcases matchString_append_right v h with hmatch | ⟨u, w, rfl, hmatch, hlast, hnext⟩
  · rw [hmatch] at hwhole
    cases hwhole
  obtain ⟨r, hr, hmatch⟩ := matches_anyOf.1 hmatch
  rcases secrets_steady r hr with hsteady | ⟨key, hkey, rfl⟩
  · have : sensitive.matchString (u ++ w ++ v) = true := matchString_iff.2
      ⟨u, w, v, List.append_assoc u w v, matches_anyOf.2 ⟨r, hr, hmatch.steady hsteady _⟩⟩
    rw [this] at hwhole
    cases hwhole
  · obtain ⟨x, y, rfl, hx, z, z', rfl, ⟨rfl, -⟩, rfl⟩ := hmatch
    rw [List.append_nil, List.append_nil] at hlast ⊢
    have hconsumes : key.consumes = true := by
      rcases List.mem_pair.1 hkey with rfl | rfl <;> rfl
    refine ⟨u, x, rfl, ⟨key, hkey, hx⟩, ?_, hnext⟩
    cases hw : x.getLast? with
    | none => exact absurd (List.getLast?_eq_none_iff.1 hw) (hx.ne_nil hconsumes)
    | some c =>
      rw [hw] at hlast
      exact hlast

/-- The texts that stand for one that is not shown. -/
theorem placeholder_textValid {limit : ℕ} (h : 10 ≤ limit) {w : String}
    (hw : w ∈ ["[REDACTED]", "unknown"]) : textValid (ascii w) limit = true := by
  have hall : ∀ w ∈ ["[REDACTED]", "unknown"], ascii w = Utf8.encode w.toList ∧ w.toList ≠ [] ∧
      (Utf8.encode w.toList).length ≤ 10 ∧ sensitive.matchString w.toList = false ∧
      (w.toList.all fun c => !isControl c && !isFormat c) = true := by
    decide +kernel
  obtain ⟨heq, hne, hlen, hsens, hclean⟩ := hall w hw
  rw [heq, textValid_iff]
  exact ⟨hne, hlen.trans h, hsens, clean_of_all hclean⟩

theorem Admissible.display (h : Admissible raw) (maxBytes : ℕ) (basename : Bool) :
    display raw maxBytes basename = some (shown raw maxBytes basename) := by
  obtain ⟨text, htext⟩ := Option.isSome_iff_exists.1 h.1
  rw [shown, Workload.display, if_neg (by have := h.2; omega), htext]
  rfl

theorem eq_shown {v : Bytes} {basename : Bool} (h : display raw maxBytes basename = some v) :
    v = shown raw maxBytes basename := by
  rw [shown, h]
  rfl

/-- **What is displayed passes the check** exactly if the cut makes no secret. -/
theorem display_textValid {v : Bytes} {basename : Bool} (hmax : 10 ≤ maxBytes)
    (h : display raw maxBytes basename = some v) :
    textValid v maxBytes = true ↔ ¬ CutsSecret raw maxBytes basename := by
  rw [display] at h
  split_ifs at h with hlen
  obtain ⟨text, htext, rfl⟩ := Option.map_eq_some_iff.1 h
  obtain ⟨x, hx, hword⟩ := uncut_suffix basename text
  have hcut := cut_append_drop maxBytes (uncut basename text)
  -- the texts that stand for one that is not shown are valid
  have hquiet (hno : sensitive.matchString (oneLine text) = true ∨
      cut maxBytes (uncut basename text) = []) : ¬ CutsSecret raw maxBytes basename := by
    rintro ⟨text', htext', hsens, u, w, v, -, hkept, -, hlast, -⟩
    obtain rfl := Option.some.inj (htext.symm.trans htext')
    rcases hno with hno | hno
    · rw [hno] at hsens
      cases hsens
    · rw [(List.append_eq_nil_iff.1 (hkept.symm.trans hno)).2] at hlast
      cases hlast
  dsimp only
  split_ifs with hsens hempty
  · exact iff_of_true (placeholder_textValid hmax (by simp)) (hquiet (Or.inl hsens))
  · exact iff_of_true (placeholder_textValid hmax (by simp)) (hquiet (Or.inr hempty))
  · rw [textValid_iff]
    constructor
    · rintro ⟨-, -, hclear, -⟩ ⟨text', htext', -, u, w, v, -, hkept, ⟨key, hkey, hmatch⟩, hlast, -⟩
      obtain rfl := Option.some.inj (htext.symm.trans htext')
      rw [hkept, sensitive_of_key hkey hmatch hlast] at hclear
      cases hclear
    · intro hno
      refine ⟨hempty, length_encode_cut _ _, ?_, (Clean.uncut basename text).cut maxBytes⟩
      by_contra hmatch
      have hwhole : sensitive.matchString (uncut basename text) = false := by
        by_contra hmatch
        have := matchString_append_left hword (by simpa using hmatch)
        exact hsens (hx ▸ this)
      rw [← hcut] at hwhole
      obtain ⟨u, w, hkept, hkey, hlast, hnext⟩ := key_of_sensitive (by simpa using hmatch) hwhole
      exact hno ⟨text, htext, by simpa using hsens, u, w, _, hkept ▸ hcut.symm, hkept, hkey, hlast,
        hnext⟩

/-- The base name has neither slash nor backslash. -/
theorem display_basename {v : Bytes} (h : display raw maxBytes true = some v) :
    ∀ b ∈ v, b ≠ 47 ∧ b ≠ 92 := by
  rw [display] at h
  split_ifs at h with hlen
  obtain ⟨text, -, rfl⟩ := Option.map_eq_some_iff.1 h
  dsimp only
  split_ifs with hsens hempty
  · decide
  · decide
  · intro b hb
    have hmem {c : Char} (hc : c ∈ cut maxBytes (uncut true text)) : c ≠ '/' ∧ c ≠ '\\' :=
      mem_baseName (cut_append_drop maxBytes (baseName (oneLine text)) ▸ List.mem_append_left _ hc)
    constructor <;> rintro rfl
    · obtain ⟨c, hc, heq⟩ := Utf8.exists_of_mem_encode hb (by decide)
      exact (hmem hc).1 (Char.ext (UInt32.toNat_inj.1 heq))
    · obtain ⟨c, hc, heq⟩ := Utf8.exists_of_mem_encode hb (by decide)
      exact (hmem hc).2 (Char.ext (UInt32.toNat_inj.1 heq))

theorem not_cutsSecret (h : raw.length ≤ maxBytes) : ¬ CutsSecret raw maxBytes false := by
  rintro ⟨text, htext, -, u, w, v, hvalue, hkept, -, -, hnext⟩
  have hfits : (Utf8.encode (uncut false text)).length ≤ maxBytes :=
    (length_encode_oneLine text).trans (Utf8.decode_eq_some.1 htext ▸ h)
  rw [cut_eq_self hfits, hvalue] at hkept
  obtain rfl : v = [] := by simpa using hkept
  cases hnext

/-- A name of 129 bytes whose last word has one character more than an access key. -/
def overlongKey : List Char := List.replicate 108 '#' ++ "AKIAAAAAAAAAAAAAAAAAA".toList

/-- A cut in a word can make a match: what is displayed is then refused by the check. -/
theorem display_cut_matches (basename : Bool) :
    ∃ v, display (Utf8.encode overlongKey) 128 basename = some v ∧ textValid v 128 = false := by
  have hline : oneLine overlongKey = overlongKey := by decide +kernel
  have hbase : baseName overlongKey = overlongKey := by decide +kernel
  have huncut : uncut basename overlongKey = overlongKey := by
    rw [uncut, hline, hbase, ite_self]
  have hcut : cut 128 overlongKey = overlongKey.dropLast := by decide +kernel
  have hwhole : sensitive.matchString overlongKey = false := by decide +kernel
  have hpart : sensitive.matchString overlongKey.dropLast = true := by decide +kernel
  refine ⟨Utf8.encode overlongKey.dropLast, ?_, ?_⟩
  · rw [display, if_neg (by decide +kernel), Utf8.decode_eq_some.2 rfl, Option.map_some, hline,
      huncut, hwhole, hcut]
    rfl
  · rw [← Bool.not_eq_true, textValid_iff, hpart]
    rintro ⟨-, -, hfalse, -⟩
    cases hfalse

end Workload

end HomeLab
