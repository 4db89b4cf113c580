/-
  Slices of arrays that are written in place.

  A memory is a list of arrays; the address of an array is its position.  A
  slice variable is nil or holds the address of the array with its elements.
  Appending to a nil slice allocates an array; appending to another one writes
  its array, or allocates a new one when the array is full.

  `Owned`: the arrays of an earlier memory are unchanged, and the slice has an
  array that was allocated since.
-/
import Mathlib.Data.List.Infix
import Mathlib.Data.Nat.Notation

namespace HomeLab

abbrev Arrays (α : Type) := List (List α)

namespace Arrays

variable {α : Type}

/-- The elements of a slice. -/
def contents (m : Arrays α) : Option ℕ → List α
  | none => []
  | some a => m.getD a []

/-- Write the elements of a slice. -/
def write (m : Arrays α) (a : ℕ) (l : List α) : Arrays α := m.set a l

/-- Append an element; `full` tells at which lengths an array has no room left. -/
def append (full : ℕ → Bool) (m : Arrays α) (out : Option ℕ) (x : α) : Arrays α × Option ℕ :=
  match out with
  | none => (m ++ [[x]], some m.length)
  | some a =>
    let l := m.contents (some a)
    if full l.length then (m ++ [l ++ [x]], some m.length) else (m.write a (l ++ [x]), some a)

/-- Overwrite the last element of a slice. -/
def setLast (m : Arrays α) (out : Option ℕ) (x : α) : Arrays α :=
  match out with
  | none => m
  | some a => m.write a ((m.contents (some a)).dropLast ++ [x])

/-- A slice with elements `l` in an array that is not one of `m₀`. -/
structure Owned (m₀ m : Arrays α) (out : Option ℕ) (l : List α) : Prop where
  kept : m₀ <+: m
  fresh : ∀ a ∈ out, m₀.length ≤ a ∧ a < m.length
  elements : m.contents out = l

variable {m₀ m : Arrays α} {out : Option ℕ} {l : List α} {x : α}

theorem Owned.nil (m : Arrays α) : Owned m m none [] :=
  ⟨List.prefix_rfl, nofun, rfl⟩

theorem contents_of_prefix {r : Option ℕ} (h : m₀ <+: m) (hr : ∀ a ∈ r, a < m₀.length) :
    m.contents r = m₀.contents r := by
  obtain ⟨t, rfl⟩ := h
  cases r with
  | none => rfl
  | some a => simp [contents, List.getElem?_append_left (hr a rfl)]

theorem Owned.allocate (h : m₀ <+: m) (l : List α) :
    Owned m₀ (m ++ [l]) (some m.length) l where
  kept := h.trans (List.prefix_append _ _)
  fresh a ha := by
    cases ha
    exact ⟨h.length_le, by simp⟩
  elements := by simp [contents]

theorem Owned.write {a : ℕ} (h : Owned m₀ m (some a) l) (l' : List α) :
    Owned m₀ (m.write a l') (some a) l' where
  kept := by
    obtain ⟨t, rfl⟩ := h.kept
    rw [Arrays.write, List.set_append_right _ _ (h.fresh a rfl).1]
    exact List.prefix_append _ _
  fresh b hb := by
    cases hb
    rw [Arrays.write, List.length_set]
    exact h.fresh a rfl
  elements := by
    simp [contents, Arrays.write, (h.fresh a rfl).2]

theorem Owned.append (full : ℕ → Bool) (h : Owned m₀ m out l) (x : α) :
    Owned m₀ (m.append full out x).1 (m.append full out x).2 (l ++ [x]) := by
  cases out with
  | none =>
    obtain rfl : [] = l := h.elements
    exact .allocate h.kept [x]
  | some a =>
    obtain rfl := h.elements
    rw [Arrays.append]
    split_ifs
    · exact .allocate h.kept _
    · exact h.write _

theorem Owned.setLast (h : Owned m₀ m out l) (hne : l ≠ []) (x : α) :
    Owned m₀ (m.setLast out x) out (l.dropLast ++ [x]) := by
  cases out with
  | none => exact absurd h.elements.symm hne
  | some a =>
    obtain rfl := h.elements
    exact h.write _

theorem Owned.contents {r : Option ℕ} (h : Owned m₀ m out l) (hr : ∀ a ∈ r, a < m₀.length) :
    m.contents r = m₀.contents r :=
  contents_of_prefix h.kept hr

theorem Owned.trans {m₁ : Arrays α} (h : Owned m₁ m out l) (hkept : m₀ <+: m₁) :
    Owned m₀ m out l :=
  ⟨hkept.trans h.kept, fun a ha => ⟨hkept.length_le.trans (h.fresh a ha).1, (h.fresh a ha).2⟩,
    h.elements⟩

end Arrays

end HomeLab
