/-
  Lists sorted by a key.

  A table in the order of its primary key is a list whose keys increase
  strictly (`Sorted`).  Rows are inserted at their place, modified under their
  key and erased by key; each operation comes with its effect on membership,
  counts, images and concatenated images (`flatMap`).
-/
import Mathlib.Data.List.Sort
import Mathlib.Tactic

namespace HomeLab

namespace Keyed

variable {K α β : Type} [LinearOrder K] (key : α → K)

def Sorted (l : List α) : Prop := l.Pairwise fun a b => key a < key b

def insert (a : α) (l : List α) : List α := l.orderedInsert (fun a b => key a ≤ key b) a

def modify (k : K) (f : α → α) (l : List α) : List α := l.map fun a => if key a = k then f a else a

def erase (k : K) (l : List α) : List α := l.filter fun a => key a ≠ k

def find (k : K) (l : List α) : Option α := l.find? fun a => key a = k

variable {key}

/-! ## Lookup -/

variable {l : List α} {a b : α} {k : K} {c : β → K} {f : α → α}

theorem Sorted.eq_of_key (hl : Sorted key l) (ha : a ∈ l) (hb : b ∈ l) (h : key a = key b) :
    a = b := by
  by_contra hne
  have hlt := List.Pairwise.forall_of_forall_of_flip (R := fun a b => a ≠ b → key a ≠ key b)
    (fun x _ hx => absurd rfl hx) (hl.imp fun h _ => h.ne)
    (hl.imp fun h _ => h.ne') ha hb
  exact hlt hne h

theorem Sorted.ext {l' : List α} (hl : Sorted key l) (hl' : Sorted key l') (h : ∀ a, a ∈ l ↔ a ∈ l') :
    l = l' := by
  have : Std.Irrefl fun a b : α => key a < key b := ⟨fun a => lt_irrefl (key a)⟩
  have : Std.Antisymm fun a b : α => key a < key b := ⟨fun a b h h' => absurd h h'.not_gt⟩
  exact List.Pairwise.eq_of_mem_iff hl hl' fun {a} => h a

theorem mem_of_find (h : find key k l = some a) : a ∈ l :=
  List.mem_of_find?_eq_some h

theorem key_of_find (h : find key k l = some a) : key a = k := by
  simpa using List.find?_some h

theorem find_eq_none : find key k l = none ↔ ∀ a ∈ l, key a ≠ k := by
  simp [find]

theorem Sorted.find_eq_some (hl : Sorted key l) :
    find key k l = some a ↔ a ∈ l ∧ key a = k := by
  constructor
  · exact fun h => ⟨mem_of_find h, key_of_find h⟩
  · rintro ⟨ha, hk⟩
    cases hf : find key k l with
    | none => exact absurd hk (find_eq_none.1 hf a ha)
    | some b =>
      rw [hl.eq_of_key (mem_of_find hf) ha ((key_of_find hf).trans hk.symm)]

theorem Sorted.filter_key (hl : Sorted key l) (k : K) :
    (l.filter fun a => key a = k) = (find key k l).toList := by
  induction l with
  | nil => rfl
  | cons a l ih =>
    obtain ⟨ha, hl⟩ := List.pairwise_cons.1 hl
    by_cases hk : key a = k
    · have hrest : (l.filter fun b => key b = k) = [] := by
        rw [List.filter_eq_nil_iff]
        intro b hb h
        exact (ha b hb).ne (hk.trans (of_decide_eq_true h).symm)
      simp [find, hk, hrest]
    · rw [List.filter_cons_of_neg (by simpa using hk), ih hl]
      simp [find, hk]

theorem Sorted.countP_key_le (hl : Sorted key l) (k : K) :
    (l.countP fun a => key a = k) ≤ 1 := by
  rw [List.countP_eq_length_filter, hl.filter_key]
  cases find key k l <;> simp

theorem countP_le_add {α : Type} {l : List α} {p q r : α → Bool}
    (h : ∀ a ∈ l, p a = true → q a = true ∨ r a = true) : l.countP p ≤ l.countP q + l.countP r := by
  induction l with
  | nil => simp
  | cons a l ih =>
    have ha := h a (List.mem_cons_self ..)
    have := ih fun b hb => h b (List.mem_cons_of_mem _ hb)
    simp only [List.countP_cons]
    split_ifs with h1 h2 h3 <;> first | omega | simp_all

/-- A predicate that holds in addition at one key counts at most one more. -/
theorem Sorted.countP_le_succ (hl : Sorted key l) (k : K) {p q : α → Bool}
    (h : ∀ a ∈ l, p a = true → q a = true ∨ key a = k) : l.countP p ≤ l.countP q + 1 := by
  have hle : l.countP p ≤ l.countP q + l.countP fun a => key a = k :=
    countP_le_add fun a ha hp => (h a ha hp).imp_right decide_eq_true
  exact hle.trans (Nat.add_le_add_left (hl.countP_key_le k) _)

/-! ## Insertion -/

@[simp] theorem mem_insert : b ∈ insert key a l ↔ b = a ∨ b ∈ l :=
  List.mem_orderedInsert _

theorem sorted_insert (hl : Sorted key l) (ha : ∀ b ∈ l, key b ≠ key a) :
    Sorted key (insert key a l) := by
  induction l with
  | nil => exact List.pairwise_singleton _ _
  | cons b l ih =>
    obtain ⟨hb, hl'⟩ := List.pairwise_cons.1 hl
    have hne := ha b (List.mem_cons_self ..)
    rw [insert, List.orderedInsert_cons]
    split_ifs with hle
    · have hlt : key a < key b := lt_of_le_of_ne hle hne.symm
      refine List.pairwise_cons.2 ⟨fun c hc => ?_, hl⟩
      rcases List.mem_cons.1 hc with rfl | hc
      · exact hlt
      · exact hlt.trans (hb c hc)
    · refine List.pairwise_cons.2
        ⟨fun c hc => ?_, ih hl' fun c hc => ha c (List.mem_cons_of_mem _ hc)⟩
      rcases (List.mem_orderedInsert _).1 hc with rfl | hc
      · exact lt_of_not_ge hle
      · exact hb c hc

theorem length_insert (a : α) (l : List α) : (insert key a l).length = l.length + 1 :=
  List.orderedInsert_length _ l a

theorem countP_insert (p : α → Bool) (a : α) (l : List α) :
    (insert key a l).countP p = l.countP p + if p a then 1 else 0 := by
  rw [insert, (List.perm_orderedInsert _ a l).countP_eq, List.countP_cons]

theorem map_insert (g : α → β) (hg : ∀ a, c (g a) = key a) (a : α) (l : List α) :
    (insert key a l).map g = insert c (g a) (l.map g) := by
  induction l with
  | nil => rfl
  | cons b l ih =>
    simp only [insert, List.orderedInsert_cons, List.map_cons, hg] at ih ⊢
    split_ifs
    · rfl
    · rw [List.map_cons, ih]

theorem flatMap_insert_nil {f : α → List β} (ha : f a = []) (l : List α) :
    (insert key a l).flatMap f = l.flatMap f := by
  induction l with
  | nil => simp [insert, ha]
  | cons b l ih =>
    simp only [insert, List.orderedInsert_cons] at ih ⊢
    split_ifs
    · rw [List.flatMap_cons, ha, List.nil_append]
    · rw [List.flatMap_cons, ih, List.flatMap_cons]

/-! ## Modification -/

theorem sorted_modify (hl : Sorted key l) (hf : ∀ a, key a = k → key (f a) = k) :
    Sorted key (modify key k f l) := by
  have hkey : ∀ a, key (if key a = k then f a else a) = key a := by
    intro a
    split_ifs with h
    · rw [hf a h, h]
    · rfl
  refine List.pairwise_map.2 (hl.imp fun h => ?_)
  rw [hkey, hkey]; exact h

@[simp] theorem length_modify (k : K) (f : α → α) (l : List α) :
    (modify key k f l).length = l.length :=
  List.length_map _

theorem Sorted.mem_modify (hl : Sorted key l) (ha : a ∈ l) :
    b ∈ modify key (key a) f l ↔ b = f a ∨ b ∈ l ∧ key b ≠ key a := by
  rw [modify, List.mem_map]
  constructor
  · rintro ⟨c, hc, rfl⟩
    split_ifs with h
    · rw [hl.eq_of_key hc ha h]; exact Or.inl rfl
    · exact Or.inr ⟨hc, h⟩
  · rintro (rfl | ⟨hb, hne⟩)
    · exact ⟨a, ha, if_pos rfl⟩
    · exact ⟨b, hb, if_neg hne⟩

theorem modify_of_forall_ne (h : ∀ a ∈ l, key a ≠ k) :
    modify key k f l = l := by
  rw [modify]
  conv_rhs => rw [← List.map_id l]
  exact List.map_congr_left fun a ha => if_neg (h a ha)

theorem Sorted.countP_modify (hl : Sorted key l) (ha : a ∈ l) (f : α → α) (p : α → Bool) :
    (modify key (key a) f l).countP p + (if p a then 1 else 0) =
      l.countP p + if p (f a) then 1 else 0 := by
  induction l with
  | nil => cases ha
  | cons b l ih =>
    obtain ⟨hb, hl'⟩ := List.pairwise_cons.1 hl
    rcases List.mem_cons.1 ha with rfl | ha'
    · have hrest : modify key (key a) f l = l :=
        modify_of_forall_ne fun c hc => (hb c hc).ne'
      simp only [modify, List.map_cons, if_true, List.countP_cons] at hrest ⊢
      rw [hrest]
      omega
    · have hne : key b ≠ key a := (hb a ha').ne
      have := ih hl' ha'
      simp only [modify, List.map_cons, if_neg hne, List.countP_cons] at this ⊢
      omega

theorem map_modify (g : α → β) (hg : ∀ a, key a = k → g (f a) = g a) (l : List α) :
    (modify key k f l).map g = l.map g := by
  rw [modify, List.map_map]
  refine List.map_congr_left fun a _ => ?_
  simp only [Function.comp_apply]
  split_ifs with h
  · exact hg a h
  · rfl

/-- Inserting an element at its place in a concatenation modifies the part it
    falls into, where the parts before it lie below and those after it above. -/
theorem Sorted.orderedInsert_flatMap (hl : Sorted key l) (ha : a ∈ l) {g : α → List β}
    {le : β → β → Prop} [DecidableRel le] {x : β}
    (hlo : ∀ b ∈ l, key b < key a → ∀ y ∈ g b, ¬ le x y)
    (hhi : ∀ b ∈ l, key a < key b → ∀ y ∈ g b, le x y)
    (hat : ∀ rest, (∀ y ∈ rest, le x y) → (g a ++ rest).orderedInsert le x = g (f a) ++ rest) :
    (l.flatMap g).orderedInsert le x = (modify key (key a) f l).flatMap g := by
  have hskip : ∀ (pre rest : List β), (∀ y ∈ pre, ¬ le x y) →
      (pre ++ rest).orderedInsert le x = pre ++ rest.orderedInsert le x := by
    intro pre rest hpre
    induction pre with
    | nil => rfl
    | cons y pre ih =>
      rw [List.cons_append, List.orderedInsert_cons, if_neg (hpre y (List.mem_cons_self ..)),
        ih fun z hz => hpre z (List.mem_cons_of_mem _ hz), List.cons_append]
  induction l with
  | nil => cases ha
  | cons b l ih =>
    obtain ⟨hb, hl'⟩ := List.pairwise_cons.1 hl
    rcases List.mem_cons.1 ha with rfl | ha'
    · have hrest : modify key (key a) f l = l :=
        modify_of_forall_ne fun c hc => (hb c hc).ne'
      have hall : ∀ y ∈ l.flatMap g, le x y := by
        intro y hy
        obtain ⟨c, hc, hy⟩ := List.mem_flatMap.1 hy
        exact hhi c (List.mem_cons_of_mem _ hc) (hb c hc) y hy
      rw [List.flatMap_cons, hat _ hall]
      simp only [modify, List.map_cons, if_true, List.flatMap_cons] at hrest ⊢
      rw [hrest]
    · have hlt : key b < key a := hb a ha'
      rw [List.flatMap_cons, hskip _ _ (hlo b (List.mem_cons_self ..) hlt),
        ih hl' ha' (fun c hc => hlo c (List.mem_cons_of_mem _ hc))
          fun c hc => hhi c (List.mem_cons_of_mem _ hc)]
      simp only [modify, List.map_cons, if_neg hlt.ne, List.flatMap_cons]

/-! ## Erasure -/

theorem sorted_erase (hl : Sorted key l) (k : K) : Sorted key (erase key k l) :=
  List.Pairwise.filter _ hl

@[simp] theorem mem_erase :
    a ∈ erase key k l ↔ a ∈ l ∧ key a ≠ k := by
  simp [erase]

theorem map_erase (g : α → β) (hg : ∀ a, c (g a) = key a) (k : K) (l : List α) :
    (erase key k l).map g = erase c k (l.map g) := by
  simp only [erase, List.filter_map, Function.comp_def, hg]

theorem filter_flatMap {α β : Type} {p : α → Bool} {q : β → Bool} {g : α → List β} {l : List α}
    (h : ∀ a ∈ l, ∀ y ∈ g a, q y = p a) : (l.flatMap g).filter q = (l.filter p).flatMap g := by
  induction l with
  | nil => rfl
  | cons a l ih =>
    have ha := h a (List.mem_cons_self ..)
    rw [List.flatMap_cons, List.filter_append, ih fun b hb => h b (List.mem_cons_of_mem _ hb)]
    cases hp : p a with
    | true =>
      have hall : (g a).filter q = g a :=
        List.filter_eq_self.2 fun y hy => (ha y hy).trans hp
      rw [List.filter_cons_of_pos hp, List.flatMap_cons, hall]
    | false =>
      have hnil : (g a).filter q = [] :=
        List.filter_eq_nil_iff.2 fun y hy => by simp [ha y hy, hp]
      rw [List.filter_cons_of_neg (by simp [hp]), hnil, List.nil_append]

theorem flatMap_erase {g : α → List β} (hg : ∀ a, ∀ y ∈ g a, c y = key a) (k : K) (l : List α) :
    (erase key k l).flatMap g = erase c k (l.flatMap g) :=
  (filter_flatMap fun a _ y hy => by rw [hg a y hy]).symm

end Keyed

end HomeLab
