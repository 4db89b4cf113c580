/-
  Labelled half-open intervals.

  A list of segments assigns a label to some instants of a linear order.  The
  segments of an ordered list are proper and follow each other, so each instant
  lies in at most one of them (`Ordered.unique`) and `lookup` gives its label.

  `push` appends a segment and joins it with the last one where they touch and
  agree; `clip` cuts a segment to a window.
-/
import Mathlib.Tactic
import Mathlib.Order.MinMax

namespace HomeLab

/-- The instants from `start` up to, but not including, `stop`. -/
structure Segment (T L : Type) where
  start : T
  stop : T
  label : L
  deriving DecidableEq, Repr

namespace Segment

variable {T L : Type} [LinearOrder T]

/-- The segment contains the instant. -/
def Contains (s : Segment T L) (t : T) : Prop := s.start ≤ t ∧ t < s.stop

instance (s : Segment T L) (t : T) : Decidable (s.Contains t) := inferInstanceAs (Decidable (_ ∧ _))

/-- The label of the segment that contains the instant. -/
def lookup (l : List (Segment T L)) (t : T) : Option L :=
  (l.find? fun s => decide (s.Contains t)).map label

/-- Proper segments, each one after those before it. -/
structure Ordered (l : List (Segment T L)) : Prop where
  proper : ∀ s ∈ l, s.start < s.stop
  apart : l.Pairwise fun a b => a.stop ≤ b.start

/-! ## Lookup -/

variable {l : List (Segment T L)} {s s' : Segment T L} {t t' : T}

theorem Contains.proper (h : s.Contains t) : s.start < s.stop := lt_of_le_of_lt h.1 h.2

theorem lookup_eq_none : lookup l t = none ↔ ∀ s ∈ l, ¬s.Contains t := by
  simp [lookup]

theorem exists_of_lookup {x : L} (h : lookup l t = some x) : ∃ s ∈ l, s.Contains t ∧ s.label = x := by
  obtain ⟨s, hs, hx⟩ := Option.map_eq_some_iff.1 h
  have ht := List.find?_some (p := fun s : Segment T L => decide (s.Contains t)) hs
  exact ⟨s, List.mem_of_find?_eq_some hs, of_decide_eq_true ht, hx⟩

theorem Ordered.before_or_after (h : Ordered l) (hs : s ∈ l) (hs' : s' ∈ l) (hne : s ≠ s') :
    s.stop ≤ s'.start ∨ s'.stop ≤ s.start := by
  have : Std.Symm fun a b : Segment T L => a.stop ≤ b.start ∨ b.stop ≤ a.start :=
    ⟨fun _ _ => Or.symm⟩
  exact (h.apart.imp (S := fun a b => a.stop ≤ b.start ∨ b.stop ≤ a.start) Or.inl).forall hs hs' hne

theorem Ordered.unique (h : Ordered l) (hs : s ∈ l) (hs' : s' ∈ l) (ht : s.Contains t)
    (ht' : s'.Contains t) : s = s' := by
  by_contra hne
  rcases h.before_or_after hs hs' hne with hle | hle
  · exact absurd (lt_of_lt_of_le ht.2 (hle.trans ht'.1)) (lt_irrefl _)
  · exact absurd (lt_of_lt_of_le ht'.2 (hle.trans ht.1)) (lt_irrefl _)

theorem Ordered.lookup_eq (h : Ordered l) (hs : s ∈ l) (ht : s.Contains t) :
    lookup l t = some s.label := by
  cases hl : lookup l t with
  | none => exact absurd ht (lookup_eq_none.1 hl s hs)
  | some x =>
    obtain ⟨s', hs', ht', rfl⟩ := exists_of_lookup hl
    rw [h.unique hs hs' ht ht']

theorem lookup_append (l l' : List (Segment T L)) (t : T) :
    lookup (l ++ l') t = (lookup l t).or (lookup l' t) := by
  simp [lookup, List.find?_append, Option.map_or]

theorem lookup_singleton (s : Segment T L) (t : T) :
    lookup [s] t = if s.Contains t then some s.label else none := by
  by_cases h : s.Contains t <;> simp [lookup, h]

theorem lookup_cons (s : Segment T L) (l : List (Segment T L)) (t : T) :
    lookup (s :: l) t = if s.Contains t then some s.label else lookup l t := by
  by_cases h : s.Contains t <;> simp [lookup, h]

theorem lookup_congr (h : ∀ s ∈ l, s.Contains t ↔ s.Contains t') : lookup l t = lookup l t' := by
  induction l with
  | nil => rfl
  | cons s l ih =>
    have hs : s.Contains t ↔ s.Contains t' := h s (by simp)
    simp only [lookup_cons, hs, ih fun a ha => h a (by simp [ha])]

variable {hi lo : T} {l' : List (Segment T L)}

/-- No bound of the segment separates the instants. -/
theorem contains_congr (hstart : s.start ≤ lo ∨ hi ≤ s.start) (hstop : s.stop ≤ lo ∨ hi ≤ s.stop)
    (hlo : lo ≤ t) (hhi : t < hi) :
    s.Contains t ↔ s.Contains lo := by
  have hlt : lo < hi := hlo.trans_lt hhi
  constructor
  · rintro ⟨h1, h2⟩
    refine ⟨hstart.resolve_right fun h => absurd (h1.trans_lt hhi) (not_lt.2 h), ?_⟩
    exact hlt.trans_le (hstop.resolve_left fun h => absurd (hlo.trans_lt h2) (not_lt.2 h))
  · rintro ⟨h1, h2⟩
    exact ⟨h1.trans hlo, hhi.trans_le (hstop.resolve_left (not_le.2 h2))⟩

/-- The segments that stop by `t` do not matter at `t`. -/
theorem lookup_eq_none_of_stop_le (h : ∀ s ∈ l, s.stop ≤ t) : lookup l t = none :=
  lookup_eq_none.2 fun s hs hc => absurd hc.2 (not_lt.2 (h s hs))

/-! ## Ordered lists -/

theorem Ordered.nil : Ordered ([] : List (Segment T L)) := ⟨by simp, by simp⟩

theorem Ordered.tail (h : Ordered (s :: l)) : Ordered l :=
  ⟨fun a ha => h.proper a (by simp [ha]), h.apart.of_cons⟩

theorem Ordered.sublist (h : Ordered l) (hl : l'.Sublist l) :
    Ordered l' :=
  ⟨fun a ha => h.proper a (hl.subset ha), h.apart.sublist hl⟩

theorem Ordered.concat (h : Ordered l) (hs : s.start < s.stop) (hl : ∀ a ∈ l, a.stop ≤ s.start) :
    Ordered (l ++ [s]) := by
  refine ⟨fun a ha => ?_, List.pairwise_append.2 ⟨h.apart, by simp, ?_⟩⟩
  · rcases List.mem_append.1 ha with ha | ha
    · exact h.proper a ha
    · rwa [List.mem_singleton.1 ha]
  · intro a ha b hb
    rw [List.mem_singleton.1 hb]
    exact hl a ha

theorem Ordered.sorted (h : Ordered l) : l.Pairwise fun a b => a.start < b.start :=
  h.apart.imp_of_mem fun ha _ hle => (h.proper _ ha).trans_le hle

/-! ## Clip -/

/-- The part of a segment in the window from `lo` to `hi`. -/
def clip (lo hi : T) (s : Segment T L) : Segment T L :=
  { s with start := max s.start lo, stop := min s.stop hi }

theorem contains_clip : (s.clip lo hi).Contains t ↔ s.Contains t ∧ lo ≤ t ∧ t < hi := by
  simp only [clip, Contains, max_le_iff, lt_min_iff]
  tauto

/-! ## Trim -/

/-- Let one segment start later. -/
def trim [DecidableEq L] (s : Segment T L) (u : T) (l : List (Segment T L)) :
    List (Segment T L) :=
  l.map fun a => if a = s then { a with start := u } else a

theorem mem_trim [DecidableEq L] {u : T} {a : Segment T L} (hs : s ∈ l) :
    a ∈ trim s u l ↔ a = { s with start := u } ∨ a ∈ l ∧ a ≠ s := by
  rw [trim, List.mem_map]
  constructor
  · rintro ⟨b, hb, rfl⟩
    split_ifs with h
    · rw [h]; exact Or.inl rfl
    · exact Or.inr ⟨hb, h⟩
  · rintro (rfl | ⟨ha, hne⟩)
    · exact ⟨s, hs, if_pos rfl⟩
    · exact ⟨a, ha, if_neg hne⟩

theorem Ordered.trim [DecidableEq L] (h : Ordered l) {u : T} (hu : s.start ≤ u)
    (hstop : u < s.stop) : Ordered (trim s u l) := by
  have hstart : ∀ a : Segment T L, a.start ≤ (if a = s then { a with start := u } else a).start :=
    fun a => by
      split_ifs with ha
      · rw [ha]; exact hu
      · exact le_rfl
  have hend : ∀ a : Segment T L, (if a = s then { a with start := u } else a).stop = a.stop :=
    fun a => by split_ifs <;> rfl
  refine ⟨fun a ha => ?_, List.pairwise_map.2 (h.apart.imp fun {a b} hab => ?_)⟩
  · obtain ⟨b, hb, rfl⟩ := List.mem_map.1 ha
    split_ifs with hbs
    · rw [hbs]; exact hstop
    · exact h.proper b hb
  · rw [hend]
    exact hab.trans (hstart b)

/-! ## Coalesced lists -/

/-- Neighbours that touch have different labels. -/
def Coalesced (l : List (Segment T L)) : Prop :=
  l.IsChain fun a b => a.stop = b.start → a.label ≠ b.label

theorem Ordered.lookup_of_lt (h : Ordered (s :: l)) (ht : t < s.start) :
    lookup (s :: l) t = none := by
  refine lookup_eq_none.2 fun a ha hc => ?_
  rcases List.mem_cons.1 ha with rfl | ha
  · exact absurd hc.1 (not_le.2 ht)
  · have hle : s.start ≤ a.start := ((List.pairwise_cons.1 h.sorted).1 a ha).le
    exact absurd (hle.trans hc.1) (not_le.2 ht)

/-- Where the first segment of a coalesced list stops, its label stops. -/
theorem Ordered.lookup_stop_ne (h : Ordered (s :: l)) (hc : Coalesced (s :: l)) :
    lookup (s :: l) s.stop ≠ some s.label := by
  have hself : ¬s.Contains s.stop := fun hcontains => lt_irrefl _ hcontains.2
  rw [lookup_cons, if_neg hself]
  cases l with
  | nil => simp [lookup]
  | cons a l =>
    have hle : s.stop ≤ a.start := (List.pairwise_cons.1 h.apart).1 a (by simp)
    rcases hle.lt_or_eq with hlt | heq
    · rw [h.tail.lookup_of_lt hlt]
      exact (Option.some_ne_none _).symm
    · have ha : a.Contains s.stop := ⟨heq.ge, heq ▸ h.proper a (by simp)⟩
      rw [lookup_cons, if_pos ha, ne_eq, Option.some.injEq]
      exact fun hlabel => (List.isChain_cons_cons.1 hc).1 heq hlabel.symm

/-- Lists with the same labels start with the same segment. -/
theorem Ordered.head_eq (h : Ordered (s :: l)) (hc : Coalesced (s :: l)) (h' : Ordered (s' :: l'))
    (hc' : Coalesced (s' :: l')) (heq : ∀ t, lookup (s :: l) t = lookup (s' :: l') t) : s = s' := by
  have hstarts : ∀ {s s' : Segment T L} {l l' : List (Segment T L)}, Ordered (s :: l) →
      Ordered (s' :: l') → (∀ t, lookup (s :: l) t = lookup (s' :: l') t) → s'.start ≤ s.start := by
    intro s s' l l' h h' heq
    by_contra hlt
    have hin : s.Contains s.start := ⟨le_rfl, h.proper s (by simp)⟩
    have := h.lookup_eq (by simp) hin
    rw [heq, h'.lookup_of_lt (not_le.1 hlt)] at this
    cases this
  have hstart : s.start = s'.start :=
    le_antisymm (hstarts h' h fun t => (heq t).symm) (hstarts h h' heq)
  have hlabel : s.label = s'.label := by
    have hin : s.Contains s.start := ⟨le_rfl, h.proper s (by simp)⟩
    have hin' : s'.Contains s.start := ⟨hstart.ge, hstart ▸ h'.proper s' (by simp)⟩
    have := heq s.start
    rw [h.lookup_eq (by simp) hin, h'.lookup_eq (by simp) hin'] at this
    exact Option.some.inj this
  -- the list whose first segment stops first has no label there, or another one
  have hstops : ∀ {s s' : Segment T L} {l l' : List (Segment T L)}, Ordered (s :: l) →
      Coalesced (s :: l) → Ordered (s' :: l') → s.start = s'.start → s.label = s'.label →
      (∀ t, lookup (s :: l) t = lookup (s' :: l') t) → s'.stop ≤ s.stop := by
    intro s s' l l' h hc h' hstart hlabel heq
    by_contra hlt
    have hin' : s'.Contains s.stop :=
      ⟨hstart ▸ (h.proper s (by simp)).le, not_le.1 hlt⟩
    refine h.lookup_stop_ne hc ?_
    rw [heq, h'.lookup_eq (by simp) hin', hlabel]
  have hstop : s.stop = s'.stop :=
    le_antisymm (hstops h' hc' h hstart.symm hlabel.symm fun t => (heq t).symm)
      (hstops h hc h' hstart hlabel heq)
  cases s
  cases s'
  simp only [Segment.mk.injEq]
  exact ⟨hstart, hstop, hlabel⟩

/-- **Coalesced lists are determined by their labels.** -/
theorem Ordered.eq_of_lookup (h : Ordered l) (hc : Coalesced l) (h' : Ordered l')
    (hc' : Coalesced l') (heq : ∀ t, lookup l t = lookup l' t) : l = l' := by
  have hempty : ∀ {s : Segment T L} {l : List (Segment T L)}, Ordered (s :: l) →
      ¬∀ t, lookup (s :: l) t = lookup [] t := by
    intro s l h heq
    have := heq s.start
    rw [h.lookup_eq (by simp) ⟨le_rfl, h.proper s (by simp)⟩] at this
    cases this
  induction l generalizing l' with
  | nil =>
    cases l' with
    | nil => rfl
    | cons s' l' => exact absurd (fun t => (heq t).symm) (hempty h')
  | cons s l ih =>
    cases l' with
    | nil => exact absurd heq (hempty h)
    | cons s' l' =>
      obtain rfl := h.head_eq hc h' hc' heq
      have htail : ∀ t, lookup l t = lookup l' t := by
        intro t
        have := heq t
        rw [lookup_cons, lookup_cons] at this
        by_cases ht : s.Contains t
        · have hnone : ∀ {m : List (Segment T L)}, Ordered (s :: m) → lookup m t = none :=
            fun hm => lookup_eq_none.2 fun a ha hta =>
              absurd (ht.2.trans_le (((List.pairwise_cons.1 hm.apart).1 a ha).trans hta.1))
                (lt_irrefl _)
          rw [hnone h, hnone h']
        · rwa [if_neg ht, if_neg ht] at this
      rw [ih h.tail hc.tail h'.tail hc'.tail htail]

/-- The label of a segment of a coalesced list stops where the segment does. -/
theorem Ordered.lookup_stop_of_mem (h : Ordered l) (hc : Coalesced l) (hs : s ∈ l) :
    lookup l s.stop ≠ some s.label := by
  induction l with
  | nil => exact absurd hs List.not_mem_nil
  | cons a l ih =>
    rcases List.mem_cons.1 hs with rfl | hs'
    · exact h.lookup_stop_ne hc
    · have hlater : a.stop ≤ s.stop :=
        ((List.pairwise_cons.1 h.apart).1 s hs').trans (h.proper s hs).le
      rw [lookup_cons, if_neg fun hin => absurd hin.2 (not_lt.2 hlater)]
      exact ih h.tail hc.tail hs'

/-- An interval with one label lies in one segment of a coalesced list. -/
theorem Ordered.exists_of_interval (h : Ordered l) (hc : Coalesced l) {x : L} (hlt : lo < hi)
    (hall : ∀ t, lo ≤ t → t < hi → lookup l t = some x) :
    ∃ s ∈ l, s.label = x ∧ s.start ≤ lo ∧ hi ≤ s.stop := by
  obtain ⟨s, hs, hin, rfl⟩ := exists_of_lookup (hall lo le_rfl hlt)
  refine ⟨s, hs, rfl, hin.1, not_lt.1 fun hstop => ?_⟩
  exact h.lookup_stop_of_mem hc hs (hall s.stop hin.2.le hstop)

/-! ## Push -/

/-- Append a segment, or extend the last one by it. -/
def push [DecidableEq L] (l : List (Segment T L)) (s : Segment T L) : List (Segment T L) :=
  match l.getLast? with
  | some last =>
    if last.stop = s.start ∧ last.label = s.label then
      l.dropLast ++ [{ last with stop := s.stop }]
    else l ++ [s]
  | none => l ++ [s]

variable [DecidableEq L]

/-- What `push` does: it appends, or it extends the last segment. -/
theorem push_cases (l : List (Segment T L)) (s : Segment T L) :
    push l s = l ++ [s] ∨
    ∃ l' last, l = l' ++ [last] ∧ last.stop = s.start ∧ last.label = s.label ∧
      push l s = l' ++ [⟨last.start, s.stop, last.label⟩] := by
  cases l using List.reverseRecOn with
  | nil => exact Or.inl rfl
  | append_singleton l' last =>
    rw [push, List.getLast?_concat]
    dsimp only
    split_ifs with h
    · exact Or.inr ⟨l', last, rfl, h.1, h.2, by rw [List.dropLast_concat]⟩
    · exact Or.inl rfl

theorem Ordered.push (h : Ordered l) (hs : s.start < s.stop) (hl : ∀ a ∈ l, a.stop ≤ s.start) :
    Ordered (push l s) := by
  rcases push_cases l s with hp | ⟨l', last, rfl, hstop, hlabel, hp⟩
  · rw [hp]
    exact h.concat hs hl
  · rw [hp]
    have hlast : last.start < last.stop := h.proper last (by simp)
    refine (h.sublist (List.sublist_append_left l' [last])).concat ?_ ?_
    · exact hlast.trans (hstop ▸ hs)
    · intro a ha
      exact (List.pairwise_append.1 h.apart).2.2 a ha last (by simp)

theorem lookup_push (h : Ordered l) (hs : s.start < s.stop) (hl : ∀ a ∈ l, a.stop ≤ s.start)
    (t : T) : lookup (push l s) t = if s.Contains t then some s.label else lookup l t := by
  have hbefore : ∀ {a}, a ∈ l → s.Contains t → ¬a.Contains t := fun ha ht hta =>
    absurd (lt_of_lt_of_le hta.2 ((hl _ ha).trans ht.1)) (lt_irrefl _)
  rcases push_cases l s with hp | ⟨l', last, rfl, hstop, hlabel, hp⟩
  · rw [hp, lookup_append, lookup_singleton]
    split_ifs with ht
    · rw [lookup_eq_none.2 fun a ha => hbefore ha ht, Option.none_or]
    · exact Option.or_none
  · have hlast : last.start < last.stop := h.proper last (by simp)
    rw [hp, lookup_append, lookup_append, lookup_singleton, lookup_singleton]
    by_cases ht : s.Contains t
    · have hnone : lookup l' t = none :=
        lookup_eq_none.2 fun a ha => hbefore (by simp [ha]) ht
      have hin : (⟨last.start, s.stop, last.label⟩ : Segment T L).Contains t :=
        ⟨hlast.le.trans (hstop.le.trans ht.1), ht.2⟩
      rw [hnone, if_pos hin, if_pos ht, Option.none_or, hlabel]
    · have hiff : (⟨last.start, s.stop, last.label⟩ : Segment T L).Contains t ↔ last.Contains t := by
        constructor
        · rintro ⟨h1, h2⟩
          exact ⟨h1, hstop ▸ not_le.1 fun hle => ht ⟨hle, h2⟩⟩
        · rintro ⟨h1, h2⟩
          exact ⟨h1, h2.trans (hstop ▸ hs)⟩
      simp only [hiff, if_neg ht]

/-- Where the segments of a pushed list come from. -/
theorem mem_push {P : T → T → L → Prop} (hl : ∀ a ∈ l, P a.start a.stop a.label)
    (hs : P s.start s.stop s.label)
    (hjoin : ∀ a ∈ l, a.stop = s.start → a.label = s.label → P a.start s.stop a.label) :
    ∀ a ∈ push l s, P a.start a.stop a.label := by
  intro a ha
  rcases push_cases l s with hp | ⟨l', last, rfl, hstop, hlabel, hp⟩
  · rw [hp] at ha
    rcases List.mem_append.1 ha with ha | ha
    · exact hl a ha
    · rwa [List.mem_singleton.1 ha]
  · rw [hp] at ha
    rcases List.mem_append.1 ha with ha | ha
    · exact hl a (by simp [ha])
    · rw [List.mem_singleton.1 ha]
      exact hjoin last (by simp) hstop hlabel

theorem Coalesced.push (h : Coalesced l) : Coalesced (push l s) := by
  cases l using List.reverseRecOn with
  | nil => exact List.isChain_singleton s
  | append_singleton l' last =>
    rw [Segment.push, List.getLast?_concat]
    dsimp only
    obtain ⟨hl, -, hlast⟩ := List.isChain_append.1 h
    split_ifs with hjoin
    · rw [List.dropLast_concat]
      refine List.isChain_append.2 ⟨hl, List.isChain_singleton _, fun a ha b hb => ?_⟩
      rw [List.head?_cons, Option.mem_some_iff] at hb
      rw [← hb]
      exact hlast a ha last rfl
    · refine List.isChain_append.2 ⟨h, List.isChain_singleton _, fun a ha b hb => ?_⟩
      rw [List.getLast?_concat, Option.mem_some_iff] at ha
      rw [List.head?_cons, Option.mem_some_iff] at hb
      rw [← ha, ← hb]
      exact fun hstop hlabel => hjoin ⟨hstop, hlabel⟩

end Segment

end HomeLab
