/-
  Tallies of timed values.

  A tally keeps the number of the values it stands for, their sum, and the
  latest of them with its time.  `Describes` relates a tally to the values, and
  `Holds` a table of rows to what its rows stand for together, so that rows can
  be merged, added and selected without losing a value or counting it twice.
-/
import Mathlib.Algebra.BigOperators.Group.List.Basic
import Mathlib.Data.List.Forall2
import Mathlib.Data.List.Perm.Basic
import Mathlib.Tactic

namespace HomeLab

/-! ## Tallies -/

structure Tally (T M : Type) where
  count : ℕ
  total : M
  lastAt : T
  last : M

namespace Tally

variable {T M β : Type} [LinearOrder T] [AddCommMonoid M] {time : β → T} {value : β → M}

/-- `d` is the tally of the values `g`. -/
structure Describes (time : β → T) (value : β → M) (d : Tally T M) (g : List β) : Prop where
  count : d.count = g.length
  total : d.total = (g.map value).sum
  last : ∃ y ∈ g, time y = d.lastAt ∧ value y = d.last
  latest : ∀ y ∈ g, time y ≤ d.lastAt

/-- `r` takes its last value from the later of `d` and `e`. -/
def TakesLater (d e r : Tally T M) : Prop :=
  (e.lastAt ≤ d.lastAt ∧ r.lastAt = d.lastAt ∧ r.last = d.last) ∨
  (d.lastAt ≤ e.lastAt ∧ r.lastAt = e.lastAt ∧ r.last = e.last)

theorem Describes.ne_nil {d : Tally T M} {g : List β} (h : Describes time value d g) :
    g ≠ [] := by
  obtain ⟨y, hy, -⟩ := h.last
  exact List.ne_nil_of_mem hy

theorem Describes.one_le {d : Tally T M} {g : List β} (h : Describes time value d g) :
    1 ≤ d.count := by
  rw [h.count]
  exact List.length_pos_iff.2 h.ne_nil

theorem describes_singleton (time : β → T) (value : β → M) (y : β) :
    Describes time value ⟨1, value y, time y, value y⟩ [y] where
  count := rfl
  total := by simp
  last := ⟨y, List.mem_singleton_self y, rfl, rfl⟩
  latest := fun z hz => (congrArg time (List.mem_singleton.1 hz)).le

theorem Describes.merge {d e r : Tally T M} {g h : List β} (hd : Describes time value d g)
    (he : Describes time value e h) (hcount : r.count = d.count + e.count)
    (htotal : r.total = d.total + e.total) (hlast : TakesLater d e r) :
    Describes time value r (g ++ h) := by
  refine ⟨?_, ?_, ?_, ?_⟩
  · rw [hcount, hd.count, he.count, List.length_append]
  · rw [htotal, hd.total, he.total, List.map_append, List.sum_append]
  · rcases hlast with ⟨-, hat, hval⟩ | ⟨-, hat, hval⟩
    · obtain ⟨y, hy, h1, h2⟩ := hd.last
      exact ⟨y, List.mem_append_left _ hy, h1.trans hat.symm, h2.trans hval.symm⟩
    · obtain ⟨y, hy, h1, h2⟩ := he.last
      exact ⟨y, List.mem_append_right _ hy, h1.trans hat.symm, h2.trans hval.symm⟩
  · intro y hy
    rcases hlast with ⟨hle, hat, -⟩ | ⟨hle, hat, -⟩
    · rw [hat]
      rcases List.mem_append.1 hy with hy | hy
      · exact hd.latest y hy
      · exact (he.latest y hy).trans hle
    · rw [hat]
      rcases List.mem_append.1 hy with hy | hy
      · exact (hd.latest y hy).trans hle
      · exact he.latest y hy

theorem Describes.perm {d : Tally T M} {g h : List β} (hd : Describes time value d g)
    (hp : g.Perm h) : Describes time value d h := by
  obtain ⟨y, hy, hyd⟩ := hd.last
  exact ⟨hd.count.trans hp.length_eq, hd.total.trans (hp.map value).sum_eq,
    ⟨y, hp.subset hy, hyd⟩, fun z hz => hd.latest z (hp.symm.subset hz)⟩

theorem Describes.unique {d e : Tally T M} {g : List β}
    (hg : ∀ y ∈ g, ∀ z ∈ g, time y = time z → value y = value z)
    (hd : Describes time value d g) (he : Describes time value e g) : d = e := by
  obtain ⟨y, hy, hyt, hyv⟩ := hd.last
  obtain ⟨z, hz, hzt, hzv⟩ := he.last
  have hat : d.lastAt = e.lastAt :=
    le_antisymm (hyt ▸ he.latest y hy) (hzt ▸ hd.latest z hz)
  have hval : d.last = e.last := by
    rw [← hyv, ← hzv]
    exact hg y hy z hz (by rw [hyt, hzt, hat])
  have hcount := hd.count.trans he.count.symm
  have htotal := hd.total.trans he.total.symm
  cases d
  cases e
  simp_all

end Tally

/-! ## Tables of rows that stand for values -/

/-- The rows stand for `contents` together: each row is `ok` with its share. -/
def Holds {α β : Type} (ok : α → List β → Prop) (rows : List α) (contents : List β) : Prop :=
  ∃ shares : List (List β), List.Forall₂ ok rows shares ∧ shares.flatten.Perm contents

namespace Holds

variable {α β K : Type} {ok : α → List β → Prop} {rows rows' : List α} {contents new : List β}

theorem nil : Holds ok [] [] := ⟨[], .nil, .refl _⟩

theorem singletons {ok : β → List β → Prop} {l : List β} (h : ∀ y ∈ l, ok y [y]) :
    Holds ok l l := by
  refine ⟨l.map fun y => [y], ?_, ?_⟩
  · rw [List.forall₂_map_right_iff]
    exact List.forall₂_same.2 h
  · rw [← List.flatMap_def, List.flatMap_singleton']

/-- What holds of all values holds in each share. -/
theorem and_forall {Q : β → Prop} (h : Holds ok rows contents) (hQ : ∀ y ∈ contents, Q y) :
    Holds (fun a g => ok a g ∧ ∀ y ∈ g, Q y) rows contents := by
  obtain ⟨shares, hs, hp⟩ := h
  refine ⟨shares, ?_, hp⟩
  have hshares : ∀ y ∈ shares.flatten, Q y := fun y hy => hQ y (hp.subset hy)
  clear hp
  induction hs with
  | nil => exact .nil
  | @cons a share rows shares ha _ ih =>
    simp only [List.flatten_cons, List.mem_append] at hshares
    exact .cons ⟨ha, fun y hy => hshares y (Or.inl hy)⟩ (ih fun y hy => hshares y (Or.inr hy))

/-- What holds of all rows may be asked of each row. -/
theorem and_rows {Q : α → Prop} (h : Holds ok rows contents) (hQ : ∀ a ∈ rows, Q a) :
    Holds (fun a g => ok a g ∧ Q a) rows contents := by
  obtain ⟨shares, hs, hp⟩ := h
  refine ⟨shares, ?_, hp⟩
  clear hp
  induction hs with
  | nil => exact .nil
  | cons ha _ ih =>
    exact .cons ⟨ha, hQ _ (List.mem_cons_self ..)⟩ (ih fun b hb => hQ b (List.mem_cons_of_mem _ hb))

theorem forall_rows {Q : α → Prop} (h : Holds ok rows contents) (hQ : ∀ a g, ok a g → Q a) :
    ∀ a ∈ rows, Q a := by
  obtain ⟨shares, hs, -⟩ := h
  induction hs with
  | nil => simp
  | cons ha _ ih => exact List.forall_mem_cons.2 ⟨hQ _ _ ha, ih⟩

theorem imp {ok' : α → List β → Prop} (h : Holds ok rows contents) (himp : ∀ a g, ok a g → ok' a g) :
    Holds ok' rows contents := by
  obtain ⟨shares, hs, hp⟩ := h
  exact ⟨shares, hs.imp fun {a g} => himp a g, hp⟩

theorem perm (h : Holds ok rows contents) (hp : contents.Perm new) : Holds ok rows new := by
  obtain ⟨shares, hs, hc⟩ := h
  exact ⟨shares, hs, hc.trans hp⟩

theorem map {γ : Type} {ok' : γ → List β → Prop} {f : α → γ} (h : Holds ok rows contents)
    (hf : ∀ a g, ok a g → ok' (f a) g) : Holds ok' (rows.map f) contents := by
  obtain ⟨shares, hs, hc⟩ := h
  exact ⟨shares, List.forall₂_map_left_iff.2 (hs.imp fun {a g} => hf a g), hc⟩

theorem append (h : Holds ok rows contents) (h' : Holds ok rows' new) :
    Holds ok (rows ++ rows') (contents ++ new) := by
  obtain ⟨shares, hs, hc⟩ := h
  obtain ⟨shares', hs', hc'⟩ := h'
  refine ⟨shares ++ shares', List.rel_append hs hs', ?_⟩
  rw [List.flatten_append]
  exact hc.append hc'

theorem perm_rows (h : Holds ok rows contents) (hp : rows'.Perm rows) : Holds ok rows' contents := by
  obtain ⟨shares, hs, hc⟩ := h
  obtain ⟨shares', hs', hp'⟩ := List.perm_comp_forall₂ hp hs
  exact ⟨shares', hs', hp'.flatten.trans hc⟩

theorem add (h : Holds ok rows contents) {a : α} (ha : ok a new) (hp : rows'.Perm (a :: rows)) :
    Holds ok rows' (contents ++ new) := by
  have hone : Holds ok [a] new := ⟨[new], .cons ha .nil, by simp⟩
  exact ((hone.append h).perm List.perm_append_comm).perm_rows hp

theorem modify {key : α → K} {k : K} {f : α → α} (h : Holds ok rows contents)
    (hrows : rows.Pairwise fun a b => key a ≠ key b) (hk : ∃ a ∈ rows, key a = k)
    (hf : ∀ a g, key a = k → ok a g → ok (f a) (g ++ new)) (hne : ∀ a, key a ≠ k → f a = a) :
    Holds ok (rows.map f) (contents ++ new) := by
  obtain ⟨shares, hs, hc⟩ := h
  suffices hmain : ∃ shares' : List (List β),
      List.Forall₂ ok (rows.map f) shares' ∧ shares'.flatten.Perm (shares.flatten ++ new) by
    obtain ⟨shares', hs', hc'⟩ := hmain
    exact ⟨shares', hs', hc'.trans (hc.append_right new)⟩
  clear hc
  induction hs with
  | nil => obtain ⟨a, ha, -⟩ := hk; cases ha
  | @cons a g rows shares hag hs ih =>
    obtain ⟨hdistinct, hrows⟩ := List.pairwise_cons.1 hrows
    by_cases hak : key a = k
    · -- the other rows have other keys
      have hrest : rows.map f = rows := by
        conv_rhs => rw [← List.map_id rows]
        exact List.map_congr_left fun b hb => hne b fun h => hdistinct b hb (hak.trans h.symm)
      refine ⟨(g ++ new) :: shares, ?_, ?_⟩
      · rw [List.map_cons, hrest]
        exact .cons (hf a g hak hag) hs
      · simp only [List.flatten_cons, List.append_assoc]
        exact List.perm_append_comm.append_left g
    · have hk' : ∃ b ∈ rows, key b = k := by
        obtain ⟨b, hb, hbk⟩ := hk
        rcases List.mem_cons.1 hb with rfl | hb
        · exact absurd hbk hak
        · exact ⟨b, hb, hbk⟩
      obtain ⟨shares', hs', hc'⟩ := ih hrows hk'
      refine ⟨g :: shares', ?_, ?_⟩
      · rw [List.map_cons, hne a hak]
        exact .cons hag hs'
      · simp only [List.flatten_cons, List.append_assoc]
        exact hc'.append_left g

theorem filter {p : α → Bool} {q : β → Bool} (h : Holds ok rows contents)
    (hq : ∀ a g, ok a g → ∀ y ∈ g, q y = p a) : Holds ok (rows.filter p) (contents.filter q) := by
  obtain ⟨shares, hs, hc⟩ := h
  suffices hmain : ∃ shares' : List (List β), List.Forall₂ ok (rows.filter p) shares' ∧
      shares'.flatten = shares.flatten.filter q by
    obtain ⟨shares', hs', hc'⟩ := hmain
    exact ⟨shares', hs', hc' ▸ hc.filter q⟩
  clear hc
  induction hs with
  | nil => exact ⟨[], .nil, rfl⟩
  | @cons a g rows shares hag hs ih =>
    obtain ⟨shares', hs', hc'⟩ := ih
    cases hp : p a with
    | true =>
      have hg : g.filter q = g := List.filter_eq_self.2 fun y hy => (hq a g hag y hy).trans hp
      refine ⟨g :: shares', ?_, ?_⟩
      · rw [List.filter_cons_of_pos hp]
        exact .cons hag hs'
      · rw [List.flatten_cons, List.flatten_cons, List.filter_append, hg, hc']
    | false =>
      have hg : g.filter q = [] :=
        List.filter_eq_nil_iff.2 fun y hy => by simp [hq a g hag y hy, hp]
      refine ⟨shares', ?_, ?_⟩
      · rw [List.filter_cons_of_neg (by simp [hp])]
        exact hs'
      · rw [List.flatten_cons, List.filter_append, hg, hc', List.nil_append]

/-- What holds of nothing, and is kept by each row with its share, holds of the
    whole table. -/
theorem foldl {S : Type} {op : S → α → S} {P : S → List β → Prop}
    (hperm : ∀ s g g', P s g → g.Perm g' → P s g')
    (hstep : ∀ s g a share, P s g → ok a share → P (op s a) (g ++ share))
    (h : Holds ok rows contents) {s : S} {g : List β} (hs : P s g) :
    P (rows.foldl op s) (g ++ contents) := by
  obtain ⟨shares, hr, hc⟩ := h
  refine hperm _ _ _ ?_ (hc.append_left g)
  clear hc
  induction hr generalizing s g with
  | nil => simpa using hs
  | @cons a share rows shares ha _ ih =>
    rw [List.foldl_cons, List.flatten_cons, ← List.append_assoc]
    exact ih (hstep s g a share hs ha)

end Holds

end HomeLab
