/-
  Objects with raw values.

  A value of an object may be kept as it stands in the text.  `rawFields` reads
  an object so, and `renderRaw` prints one; a raw value that is a printed value
  is read back (`rawFields_renderRaw`).
-/
import HomeLab.Lib.Json

namespace HomeLab

namespace Json

/-- A value as it stands in the text, without the white space around it. -/
def readRaw (n : ℕ) (bs : Bytes) : Option (Bytes × Bytes) :=
  (readValue n bs).map fun r => ((skip bs).take ((skip bs).length - r.2.length), r.2)

/-- The fields after the first, up to the closing brace. -/
def readRawFields : ℕ → Bytes → Option (List (Bytes × Bytes) × Bytes)
  | 0, _ => none
  | n + 1, bs =>
    match skip bs with
    | 125 :: bs => some ([], bs)
    | 44 :: bs => do
      let (k, bs) ← readName bs
      let (v, bs) ← readRaw n bs
      let (fs, bs) ← readRawFields n bs
      return ((k, v) :: fs, bs)
    | _ => none

/-- Read an object, and nothing after it but white space. -/
def rawFields (bs : Bytes) : Option (List (Bytes × Bytes)) :=
  match skip bs with
  | 123 :: rest =>
    match skip rest with
    | 125 :: rest => if skip rest = [] then some [] else none
    | rest => do
      let (k, rest) ← readName rest
      let (v, rest) ← readRaw bs.length rest
      let (fs, rest) ← readRawFields bs.length rest
      if skip rest = [] then some ((k, v) :: fs) else none
  | _ => none

def renderRawFields : List (Bytes × Bytes) → Bytes
  | [] => [125]
  | (k, v) :: fs => 44 :: (renderString k ++ 58 :: (v ++ renderRawFields fs))

/-- Print an object; its values are printed as they are. -/
def renderRaw : List (Bytes × Bytes) → Bytes
  | [] => [123, 125]
  | (k, v) :: fs => 123 :: (renderString k ++ 58 :: (v ++ renderRawFields fs))

/-- The fields of an object with printed values. -/
def printed (fs : List (Bytes × Json)) : List (Bytes × Bytes) := fs.map fun f => (f.1, render f.2)

theorem renderRawFields_printed (fs : List (Bytes × Json)) :
    renderRawFields (printed fs) = renderFields fs := by
  induction fs with
  | nil => rw [printed, List.map_nil, renderRawFields, renderFields]
  | cons f fs ih =>
    obtain ⟨k, v⟩ := f
    rw [renderFields, ← ih]
    rfl

theorem renderRaw_printed (fs : List (Bytes × Json)) : renderRaw (printed fs) = render (obj fs) := by
  cases fs with
  | nil => rw [printed, List.map_nil, renderRaw, render]
  | cons f fs =>
    obtain ⟨k, v⟩ := f
    rw [render, ← renderRawFields_printed]
    rfl

theorem renderFields_concat (fs : List (Bytes × Json)) (k : Bytes) (v : Json) :
    ∃ head, renderFields (fs ++ [(k, v)]) = head ++ 58 :: (render v ++ [125]) := by
  induction fs with
  | nil => exact ⟨44 :: renderString k, by simp [renderFields]⟩
  | cons f fs ih =>
    obtain ⟨k', w⟩ := f
    obtain ⟨head, h⟩ := ih
    exact ⟨44 :: (renderString k' ++ 58 :: (render w ++ head)), by simp [renderFields, h]⟩

/-- The last value of an object stands between a colon and the closing brace. -/
theorem render_obj_concat (fs : List (Bytes × Json)) (k : Bytes) (v : Json) :
    ∃ head, render (obj (fs ++ [(k, v)])) = head ++ 58 :: (render v ++ [125]) := by
  cases fs with
  | nil => exact ⟨123 :: renderString k, by simp [render, renderFields]⟩
  | cons f fs =>
    obtain ⟨k', w⟩ := f
    obtain ⟨head, h⟩ := renderFields_concat fs k v
    exact ⟨123 :: (renderString k' ++ 58 :: (render w ++ head)), by simp [render, h]⟩

theorem skip_render {v : Json} (hv : v.WellFormed) (rest : Bytes) :
    skip (render v ++ rest) = render v ++ rest := by
  obtain ⟨b, t, ht, hb, -⟩ := render_head hv
  simp [ht, skip, hb]

theorem readRaw_render {n : ℕ} {v : Json} {rest : Bytes} (hv : v.WellFormed) (hr : Delimited rest)
    (hn : (render v).length ≤ n) : readRaw n (render v ++ rest) = some (render v, rest) := by
  rw [readRaw, (read_render n).1 v rest hv hr hn, Option.map_some, skip_render hv]
  simp

theorem readRawFields_render {n : ℕ} {fs : List (Bytes × Json)} {rest : Bytes}
    (hfs : WellFormedFields fs) (hn : (renderFields fs).length ≤ n) :
    readRawFields n (renderFields fs ++ rest) = some (printed fs, rest) := by
  induction fs generalizing n with
  | nil =>
    cases n with
    | zero => simp [renderFields] at hn
    | succ n => simp [renderFields, readRawFields, skip, isSpace, printed]
  | cons f fs ih =>
    obtain ⟨k, v⟩ := f
    obtain ⟨hv, hfs⟩ : v.WellFormed ∧ WellFormedFields fs := hfs
    cases n with
    | zero => simp [renderFields] at hn
    | succ n =>
      simp only [renderFields, List.length_cons, List.length_append] at hn
      have h0 := readName_render k (render v ++ (renderFields fs ++ rest))
      have h1 : readRaw n (render v ++ (renderFields fs ++ rest)) = _ :=
        readRaw_render hv (delimited_renderFields fs rest) (by omega)
      have h2 := ih hfs (n := n) (by omega)
      simp [renderFields, readRawFields, skip, isSpace, h0, h1, h2, printed]

/-- **Printed values are read back as they stand in the text.** -/
theorem rawFields_renderRaw {fs : List (Bytes × Json)} (hfs : (obj fs).WellFormed) :
    rawFields (renderRaw (printed fs)) = some (printed fs) := by
  rw [renderRaw_printed]
  cases fs with
  | nil => simp [render, rawFields, skip, isSpace, printed]
  | cons f fs =>
    obtain ⟨k, v⟩ := f
    obtain ⟨hv, hfs⟩ : v.WellFormed ∧ WellFormedFields fs := hfs
    have h0 := readName_render k (render v ++ renderFields fs)
    have hlen : (render v).length ≤ (render (obj ((k, v) :: fs))).length ∧
        (renderFields fs).length ≤ (render (obj ((k, v) :: fs))).length := by
      simp only [render, List.length_cons, List.length_append]
      omega
    have h1 : readRaw (render (obj ((k, v) :: fs))).length (render v ++ renderFields fs) = _ :=
      readRaw_render hv (by simpa using delimited_renderFields fs []) hlen.1
    have h2 := @readRawFields_render _ fs [] hfs hlen.2
    rw [List.append_nil] at h2
    rw [rawFields]
    generalize (render (obj ((k, v) :: fs))).length = n at h1 h2 ⊢
    simp only [renderString, List.cons_append, List.append_assoc, List.nil_append] at h0
    simp [render, renderString, skip, isSpace, h0, h1, h2, printed]

end Json

end HomeLab
