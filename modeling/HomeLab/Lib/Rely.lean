/-
  Rely and guarantee for programs that share a state.

  A discipline says what holds of the shared state at all times (`inv`), what a
  thread may rely on while the others run (`rely`), and what must hold when a
  call is made (`pre`).  A program is `Guarded` if each of its calls keeps the
  discipline, from an assertion about the shared state to the next one, and the
  assertions between the calls are stable.  It is proved along the program
  (`Guarded.call`, `Guarded.bind`), and a pool of guarded programs stays one,
  whichever thread runs and whichever dies (`Pool.Disciplined`).
-/
import HomeLab.Lib.Interaction

namespace HomeLab

/-- How threads share a state; `alive` says which of them still run. -/
structure Discipline (I : Interface) (S L : Type) where
  inv : S → Prop
  alive : L → S → Prop
  rely : L → S → S → Prop
  pre : L → S → I.Call → Prop

namespace Discipline

variable {I : Interface} {S L : Type}

/-- The other threads do not invalidate the assertion. -/
def Stable (D : Discipline I S L) (me : L) (P : S → Prop) : Prop :=
  ∀ s s', D.inv s → D.rely me s s' → P s → P s'

section
variable {D : Discipline I S L} {me : L}

theorem stable_true : D.Stable me fun _ => True := fun _ _ _ _ _ => trivial

theorem Stable.and {P Q : S → Prop} (hP : D.Stable me P) (hQ : D.Stable me Q) :
    D.Stable me fun s => P s ∧ Q s :=
  fun s s' hs hr h => ⟨hP s s' hs hr h.1, hQ s s' hs hr h.2⟩

theorem Stable.imp {p : Prop} {P : S → Prop} (hP : D.Stable me P) :
    D.Stable me fun s => p → P s :=
  fun s s' hs hr h hp => hP s s' hs hr (h hp)

theorem Stable.exists {ι : Type} {P : ι → S → Prop} (hP : ∀ i, D.Stable me (P i)) :
    D.Stable me fun s => ∃ i, P i s :=
  fun s s' hs hr ⟨i, h⟩ => ⟨i, hP i s s' hs hr h⟩

end

/-- A call of `me` that leads from `s` to `s'` keeps the discipline. -/
structure Keeps (D : Discipline I S L) (me : L) (s s' : S) : Prop where
  inv : D.inv s'
  rely : ∀ u, u ≠ me → D.alive u s → D.rely u s s'
  alive : ∀ u, D.alive u s' → D.alive u s

end Discipline

namespace Prog

variable {I : Interface} {S L E α β : Type} {D : Discipline I S L} {h : Handler I S L E} {me : L}

/-- From the assertion `P` the program keeps the discipline, and what it returns satisfies
    `post`. -/
def Guarded (D : Discipline I S L) (h : Handler I S L E) (me : L) (post : α → S → Prop) :
    (S → Prop) → Prog I α → Prop
  | P, ret a => ∀ s, D.inv s → P s → post a s
  | P, call c k => ∀ e s, D.inv s → D.alive me s → P s →
      D.pre me s c ∧ (h c e s me).2.1 = me ∧ D.Keeps me s (h c e s me).1 ∧
      ∃ P', P' (h c e s me).1 ∧ D.Stable me P' ∧ Guarded D h me post P' (k (h c e s me).2.2)

theorem Guarded.weaken {post : α → S → Prop} {P P' : S → Prop} {p : Prog I α}
    (hp : Guarded D h me post P p) (hP : ∀ s, D.inv s → P' s → P s) :
    Guarded D h me post P' p := by
  cases p with
  | ret a => exact fun s hs hP' => hp s hs (hP s hs hP')
  | call c k => exact fun e s hs ha hP' => hp e s hs ha (hP s hs hP')

theorem Guarded.bind {mid : α → S → Prop} {post : β → S → Prop} {P : S → Prop} {p : Prog I α}
    {f : α → Prog I β} (hp : Guarded D h me mid P p)
    (hf : ∀ a, Guarded D h me post (mid a) (f a)) : Guarded D h me post P (p >>= f) := by
  induction p generalizing P with
  | ret a => exact (hf a).weaken hp
  | call c k ih =>
    intro e s hs ha hP
    obtain ⟨hpre, hme, hkeeps, P', hP', hstable, hk⟩ := hp e s hs ha hP
    exact ⟨hpre, hme, hkeeps, P', hP', hstable, ih _ hk⟩

/-- One call, from `P` to what its answer makes of it. -/
theorem guarded_ask {P : S → Prop} {c : I.Call} {Q : I.Answer c → S → Prop}
    (hpre : ∀ s, D.inv s → P s → D.pre me s c)
    (hstep : ∀ e s, D.inv s → D.alive me s → P s → (h c e s me).2.1 = me ∧
      D.Keeps me s (h c e s me).1 ∧ Q (h c e s me).2.2 (h c e s me).1)
    (hstable : ∀ x, D.Stable me (Q x)) : Guarded D h me Q P (ask c) := by
  intro e s hs ha hP
  obtain ⟨hme, hkeeps, hQ⟩ := hstep e s hs ha hP
  exact ⟨hpre s hs hP, hme, hkeeps, _, hQ, hstable _, fun s _ hQ => hQ⟩

end Prog

namespace Pool

variable {I : Interface} {S L E α : Type} {D : Discipline I S L} {h : Handler I S L E}
  {p : Pool I S L α}

/-- Perform the pending call of a thread, if it is alive. -/
def proceed (p : Pool I S L α) (h : Handler I S L E) (alive : L → S → Bool) (i : ℕ) (e : E) :
    Pool I S L α :=
  match p.threads[i]? with
  | none => p
  | some t => if alive t.loc p.shared then p.advance h i e else p

/-- Every thread that is alive runs a guarded program from an assertion that holds. -/
structure Disciplined (D : Discipline I S L) (h : Handler I S L E) (p : Pool I S L α) : Prop where
  inv : D.inv p.shared
  thread : ∀ (i : ℕ) (t : Thread I L α), p.threads[i]? = some t → D.alive t.loc p.shared →
    ∃ P, P p.shared ∧ D.Stable t.loc P ∧ t.prog.Guarded D h t.loc (fun _ _ => True) P
  apart : ∀ (i j : ℕ) (t u : Thread I L α), i ≠ j → p.threads[i]? = some t →
    p.threads[j]? = some u → t.loc ≠ u.loc

theorem Disciplined.empty {s : S} (hs : D.inv s) : Disciplined D h (⟨s, []⟩ : Pool I S L α) where
  inv := hs
  thread := fun i t ht => by simp at ht
  apart := fun i j t u _ ht => by simp at ht

/-- What must hold when a thread makes its pending call. -/
theorem Disciplined.pre (hp : Disciplined D h p) [Inhabited E] {i : ℕ} {loc : L} {c : I.Call}
    {k : I.Answer c → Prog I α} (hi : p.threads[i]? = some ⟨loc, .call c k⟩)
    (ha : D.alive loc p.shared) : D.pre loc p.shared c := by
  obtain ⟨P, hP, -, hg⟩ := hp.thread i _ hi ha
  exact (hg default p.shared hp.inv ha hP).1

theorem Disciplined.outside (hp : Disciplined D h p) {f : S → S} (hinv : D.inv (f p.shared))
    (hrely : ∀ u, D.alive u (f p.shared) →
      D.alive u p.shared ∧ D.rely u p.shared (f p.shared)) :
    Disciplined D h (p.outside f) where
  inv := hinv
  thread := by
    intro i t ht ha
    obtain ⟨ha', hr⟩ := hrely t.loc ha
    obtain ⟨P, hP, hstable, hg⟩ := hp.thread i t ht ha'
    exact ⟨P, hstable _ _ hp.inv hr hP, hstable, hg⟩
  apart := hp.apart

theorem Disciplined.spawn (hp : Disciplined D h p) {t : Thread I L α} {P : S → Prop}
    (hP : P p.shared) (hstable : D.Stable t.loc P)
    (hg : t.prog.Guarded D h t.loc (fun _ _ => True) P)
    (hapart : ∀ u ∈ p.threads, t.loc ≠ u.loc) : Disciplined D h (p.spawn t) where
  inv := hp.inv
  thread := by
    intro i u hu ha
    rcases getElem?_concat_eq hu with hu | ⟨-, rfl⟩
    · exact hp.thread i u hu ha
    · exact ⟨P, hP, hstable, hg⟩
  apart := by
    intro i j u v hij hu hv
    rcases getElem?_concat_eq hu with hu' | ⟨hi, rfl⟩
    · rcases getElem?_concat_eq hv with hv' | ⟨-, rfl⟩
      · exact hp.apart i j u v hij hu' hv'
      · exact (hapart u (List.mem_of_getElem? hu')).symm
    · rcases getElem?_concat_eq hv with hv' | ⟨hj, -⟩
      · exact hapart v (List.mem_of_getElem? hv')
      · exact absurd (hi.trans hj.symm) hij

/-- One call of a thread that is alive keeps the discipline. -/
theorem Disciplined.advance (hp : Disciplined D h p) {i : ℕ} {t : Thread I L α}
    (hi : p.threads[i]? = some t) (ha : D.alive t.loc p.shared) (e : E) :
    Disciplined D h (p.advance h i e) := by
  rcases p.advance_cases h i e with heq | ⟨loc, c, k, hi', heq⟩
  · rw [heq]
    exact hp
  rw [heq]
  obtain rfl : t = ⟨loc, .call c k⟩ := Option.some.inj (hi.symm.trans hi')
  obtain ⟨P, hP, -, hg⟩ := hp.thread i _ hi ha
  obtain ⟨-, hme, hkeeps, P', hP', hstable, hk⟩ := hg e p.shared hp.inv ha hP
  have hlt := (List.getElem?_eq_some_iff.1 hi).1
  have hmine {j : ℕ} {u : Thread I L α}
      (hu : (p.threads.set i ⟨(h c e p.shared loc).2.1, k (h c e p.shared loc).2.2⟩)[j]? = some u) :
      (j = i ∧ u = ⟨(h c e p.shared loc).2.1, k (h c e p.shared loc).2.2⟩) ∨
        (j ≠ i ∧ p.threads[j]? = some u) := by
    by_cases hji : j = i
    · subst hji
      rw [List.getElem?_set_self hlt] at hu
      exact Or.inl ⟨rfl, (Option.some.inj hu).symm⟩
    · rw [List.getElem?_set_ne (Ne.symm hji)] at hu
      exact Or.inr ⟨hji, hu⟩
  refine ⟨hkeeps.inv, ?_, ?_⟩
  · intro j u hu hau
    rcases hmine hu with ⟨-, rfl⟩ | ⟨hji, hu'⟩
    · rw [hme]
      exact ⟨P', hP', hstable, hk⟩
    · obtain ⟨R, hR, hRstable, hRg⟩ := hp.thread j u hu' (hkeeps.alive _ hau)
      have hrely := hkeeps.rely _ (hp.apart j i u _ hji hu' hi) (hkeeps.alive _ hau)
      exact ⟨R, hRstable _ _ hp.inv hrely hR, hRstable, hRg⟩
  · intro j l u v hjl hu hv
    rcases hmine hu with ⟨hj, rfl⟩ | ⟨hji, hu'⟩
    · rcases hmine hv with ⟨hl, rfl⟩ | ⟨hli, hv'⟩
      · exact absurd (hj.trans hl.symm) hjl
      · rw [hme]
        exact hp.apart i l ⟨loc, .call c k⟩ v (Ne.symm hli) hi hv'
    · rcases hmine hv with ⟨-, rfl⟩ | ⟨hli, hv'⟩
      · rw [hme]
        exact hp.apart j i u ⟨loc, .call c k⟩ hji hu' hi
      · exact hp.apart j l u v hjl hu' hv'

theorem Disciplined.proceed (hp : Disciplined D h p) {alive : L → S → Bool}
    (halive : ∀ u s, alive u s = true → D.alive u s) (i : ℕ) (e : E) :
    Disciplined D h (p.proceed h alive i e) := by
  rw [Pool.proceed]
  cases hi : p.threads[i]? with
  | none => exact hp
  | some t =>
    dsimp only
    split
    · rename_i ha
      exact hp.advance hi (halive _ _ ha) e
    · exact hp

end Pool

end HomeLab
