/-
  The first elements of a stable order.

  `ranked` sorts a list by falling keys and keeps the order of elements with
  equal keys (`Ranked`).  Who keeps only the first `n`
  elements, and ranks them together with what comes later, keeps the first `n`
  of everything (`take_ranked_append`).
-/
import Mathlib.Data.List.Induction
import Mathlib.Data.List.Sort

namespace HomeLab

section
variable {α K : Type} [LinearOrder K] (key : α → K)

/-- The elements by falling keys; equal keys in the order of the list. -/
def ranked (l : List α) : List α := l.insertionSort fun a b => key b ≤ key a

/-- Put an element behind all elements whose keys are not smaller. -/
def insertAfter (y : α) : List α → List α
  | [] => [y]
  | z :: l => if key z < key y then y :: z :: l else z :: insertAfter y l

/-- `out` has the elements of `l` by falling keys, and those with one key in the
    order of `l`. -/
structure Ranked (l out : List α) : Prop where
  perm : out.Perm l
  sorted : out.Pairwise fun a b => key b ≤ key a
  stable : ∀ k, (out.filter fun a => key a = k) = l.filter fun a => key a = k

variable {key}

theorem filter_orderedInsert (x : α) (l : List α) (k : K) :
    ((l.orderedInsert (fun a b => key b ≤ key a) x).filter fun a => key a = k) =
      (x :: l).filter fun a => key a = k := by
  induction l with
  | nil => rfl
  | cons z l ih =>
    rw [List.orderedInsert_cons]
    split_ifs with h
    · rfl
    · -- `x` moves past `z`, which has another key
      rw [List.filter_cons, ih]
      by_cases hx : key x = k
      · have hz : ¬key z = k := fun hz => h (hz.trans hx.symm).le
        simp [hx, hz]
      · simp [hx, List.filter_cons]

theorem ranked_ranked (key : α → K) (l : List α) : Ranked key l (ranked key l) where
  perm := List.perm_insertionSort _ l
  sorted := by
    have : Std.Total fun a b : α => key b ≤ key a := ⟨fun a b => le_total _ _⟩
    have : IsTrans α fun a b : α => key b ≤ key a := ⟨fun _ _ _ h h' => h'.trans h⟩
    exact List.pairwise_insertionSort _ l
  stable := by
    intro k
    induction l with
    | nil => rfl
    | cons x l ih =>
      rw [ranked, List.insertionSort_cons, filter_orderedInsert, List.filter_cons, List.filter_cons]
      have ih' : ((l.insertionSort fun a b => key b ≤ key a).filter fun a => key a = k) =
        l.filter fun a => key a = k := ih
      rw [ih']

theorem insertAfter_orderedInsert (x y : α) (l : List α) :
    (insertAfter key y l).orderedInsert (fun a b => key b ≤ key a) x =
      insertAfter key y (l.orderedInsert (fun a b => key b ≤ key a) x) := by
  induction l with
  | nil =>
    rw [insertAfter, List.orderedInsert_cons, List.orderedInsert_nil, insertAfter]
    by_cases h : key y ≤ key x
    · rw [if_pos h, if_neg (not_lt.2 h), insertAfter]
    · rw [if_neg h, if_pos (not_le.1 h)]
  | cons z l ih =>
    rw [insertAfter, List.orderedInsert_cons]
    by_cases hy : key z < key y
    · rw [if_pos hy, List.orderedInsert_cons, List.orderedInsert_cons]
      by_cases hx : key z ≤ key x
      · rw [if_pos hx, insertAfter, insertAfter, if_pos hy]
        by_cases hxy : key y ≤ key x
        · rw [if_pos hxy, if_neg (not_lt.2 hxy)]
        · rw [if_neg hxy, if_pos (not_le.1 hxy)]
      · have hxy : ¬key y ≤ key x := fun h => hx (hy.le.trans h)
        rw [if_neg hx, if_neg hxy, insertAfter, if_pos hy]
    · rw [if_neg hy, List.orderedInsert_cons, ih]
      by_cases hx : key z ≤ key x
      · have hxy : ¬key x < key y := not_lt.2 ((not_lt.1 hy).trans hx)
        rw [if_pos hx, if_pos hx, insertAfter, if_neg hxy, insertAfter, if_neg hy]
      · rw [if_neg hx, if_neg hx, insertAfter, if_neg hy]

/-- One more element is ranked behind its equals. -/
theorem ranked_concat (l : List α) (y : α) :
    ranked key (l ++ [y]) = insertAfter key y (ranked key l) := by
  induction l with
  | nil => rfl
  | cons x l ih =>
    rw [List.cons_append, ranked, List.insertionSort_cons, ← ranked.eq_1, ih,
      insertAfter_orderedInsert]
    rfl

theorem take_insertAfter (n : ℕ) (y : α) (l : List α) :
    (insertAfter key y (l.take n)).take n = (insertAfter key y l).take n := by
  induction l generalizing n with
  | nil => rw [List.take_nil]
  | cons z l ih =>
    cases n with
    | zero => rfl
    | succ n =>
      rw [List.take_succ_cons, insertAfter, insertAfter]
      split_ifs
      · cases n with
        | zero => rfl
        | succ n => simp [List.take_succ_cons, List.take_take]
      · rw [List.take_succ_cons, List.take_succ_cons, ih]

/-- **Nothing is lost by keeping the first elements only.** -/
theorem take_ranked_append (n : ℕ) (l l' : List α) :
    (ranked key ((ranked key l).take n ++ l')).take n = (ranked key (l ++ l')).take n := by
  induction l' using List.reverseRecOn with
  | nil =>
    have hself : ∀ {m : List α}, m.Pairwise (fun a b => key b ≤ key a) → ranked key m = m :=
      fun hm => hm.insertionSort_eq
    have hsorted := (ranked_ranked key l).sorted
    rw [List.append_nil, List.append_nil, hself (hsorted.sublist (List.take_sublist _ _)),
      List.take_take, min_self]
  | append_singleton l' y ih =>
    rw [← List.append_assoc, ← List.append_assoc, ranked_concat, ranked_concat,
      ← take_insertAfter, ih, take_insertAfter]

end

end HomeLab
