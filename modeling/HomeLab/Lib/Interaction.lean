/-
  Programs that make calls, and pools of them.

  A program of an interface returns a value or makes a call and goes on with
  the answer.  A handler performs the calls of a program on a state that is
  shared and on one that is the program's own; what the outside world decides
  is an argument of the handler.  A pool runs any number of programs on one
  shared state, one call of one of them at a time.

  A protocol says which calls a program may make in which phase.  `Follows` is
  checked on the program alone; `Pool.Inv` then carries an invariant through
  every interleaving from what a single call does in a single phase.
-/
import Mathlib.Tactic
import Mathlib.Data.List.Basic

namespace HomeLab

/-- Calls, and the type of the answers to each. -/
structure Interface where
  Call : Type
  Answer : Call → Type

/-- What becomes of a `COMMIT`: it succeeds, it fails, or it reports a failure
    although the transaction is durable. -/
inductive Commit where
  | done
  | lost
  | uncertain
  deriving DecidableEq

/-! ## Programs -/

/-- A program of the interface `I` that returns an `α`. -/
inductive Prog (I : Interface) (α : Type) : Type where
  | ret (a : α)
  | call (c : I.Call) (k : I.Answer c → Prog I α)

namespace Prog

variable {I : Interface} {α β : Type}

def bind : Prog I α → (α → Prog I β) → Prog I β
  | ret a, f => f a
  | call c k, f => call c fun x => (k x).bind f

instance : Monad (Prog I) where
  pure := ret
  bind := bind

/-- Make one call and return its answer. -/
def ask (c : I.Call) : Prog I (I.Answer c) := call c ret

/-- What a program that has ended returned. -/
def result : Prog I α → Option α
  | ret a => some a
  | call _ _ => none

theorem eq_ret_of_result {p : Prog I α} {a : α} (h : p.result = some a) : p = ret a := by
  cases p with
  | ret b => exact congrArg ret (Option.some.inj h)
  | call c k => cases h

/-! ## Protocols -/

/-- In phase `q` the program makes only calls that `next` allows, whatever they
    are answered, and returns only what `post` allows in the phase reached. -/
def Follows {Q : Type} (next : Q → (c : I.Call) → I.Answer c → Option Q) (post : Q → α → Prop) :
    Q → Prog I α → Prop
  | q, ret a => post q a
  | q, call c k => ∀ x, ∃ q', next q c x = some q' ∧ Follows next post q' (k x)

section
variable {Q : Type} {next : Q → (c : I.Call) → I.Answer c → Option Q} {post : Q → α → Prop} {q : Q}

theorem Follows.stay {c : I.Call} {k : I.Answer c → Prog I α} (hq : ∀ x, next q c x = some q)
    (hk : ∀ x, Follows next post q (k x)) : Follows next post q (call c k) :=
  fun x => ⟨q, hq x, hk x⟩

theorem Follows.mono {p : Prog I α} {post' : Q → α → Prop} (hp : Follows next post q p)
    (h : ∀ q a, post q a → post' q a) : Follows next post' q p := by
  induction p generalizing q with
  | ret a => exact h q a hp
  | call c k ih =>
    intro x
    obtain ⟨q', hq', hk⟩ := hp x
    exact ⟨q', hq', ih x hk⟩

theorem Follows.bind {p : Prog I α} {f : α → Prog I β} {post' : Q → β → Prop}
    (hp : Follows next post q p) (hf : ∀ q a, post q a → Follows next post' q (f a)) :
    Follows next post' q (p >>= f) := by
  induction p generalizing q with
  | ret a => exact hf q a hp
  | call c k ih =>
    intro x
    obtain ⟨q', hq', hk⟩ := hp x
    exact ⟨q', hq', ih x hk⟩

end

/-! ## Executions -/

section
variable {S E Q : Type}

/-- Perform the next call of a program; `E` is what the outside world decides. -/
def perform (h : (c : I.Call) → E → S → S × I.Answer c) (s : S) (p : Prog I α) (e : E) :
    S × Prog I α :=
  match p with
  | ret a => (s, ret a)
  | call c k => ((h c e s).1, k (h c e s).2)

/-- Perform one call of a program after the other. -/
def exec (h : (c : I.Call) → E → S → S × I.Answer c) (s : S) (p : Prog I α) (es : List E) :
    S × Prog I α :=
  es.foldl (fun x e => perform h x.1 x.2 e) (s, p)

/-- Perform all calls of a program, undisturbed. -/
def finish (h : (c : I.Call) → S → S × I.Answer c) : S → Prog I α → S × α
  | s, ret a => (s, a)
  | s, call c k => finish h (h c s).1 (k (h c s).2)

theorem finish_bind (h : (c : I.Call) → S → S × I.Answer c) (s : S) (p : Prog I α)
    (f : α → Prog I β) :
    finish h s (p >>= f) = finish h (finish h s p).1 (f (finish h s p).2) := by
  induction p generalizing s with
  | ret a => rfl
  | call c k ih => exact ih _ _

variable {next : Q → (c : I.Call) → I.Answer c → Option Q} {post : Q → α → Prop}
  {h : (c : I.Call) → E → S → S × I.Answer c} {T : S → Q → Prop}

/-- One call keeps a relation between the state and the phase of the protocol. -/
theorem Follows.perform {s : S} {q : Q} {p : Prog I α} (hf : Follows next post q p) (hT : T s q)
    {e : E} (hstep : ∀ c q', next q c (h c e s).2 = some q' → T (h c e s).1 q') :
    ∃ q', T (Prog.perform h s p e).1 q' ∧ Follows next post q' (Prog.perform h s p e).2 := by
  cases p with
  | ret a => exact ⟨q, hT, hf⟩
  | call c k =>
    obtain ⟨q', hq', hk⟩ := hf (h c e s).2
    exact ⟨q', hstep c q' hq', hk⟩

/-- If every call keeps the relation, so does every execution. -/
theorem Follows.exec {p : Prog I α} {s : S} {q : Q} (hf : Follows next post q p) (hT : T s q)
    (es : List E)
    (hstep : ∀ e ∈ es, ∀ s q c q', T s q → next q c (h c e s).2 = some q' → T (h c e s).1 q') :
    ∃ q', T (Prog.exec h s p es).1 q' ∧ Follows next post q' (Prog.exec h s p es).2 := by
  induction es generalizing s q p with
  | nil => exact ⟨q, hT, hf⟩
  | cons e es ih =>
    obtain ⟨q', hT', hf'⟩ := hf.perform hT fun c q' hq' => hstep e (by simp) s q c q' hT hq'
    exact ih hf' hT' fun e' he' => hstep e' (by simp [he'])

end

end Prog

/-! ## Pools -/

/-- A program with the state of its own. -/
structure Thread (I : Interface) (L α : Type) where
  loc : L
  prog : Prog I α

/-- Programs that share a state. -/
structure Pool (I : Interface) (S L α : Type) where
  shared : S
  threads : List (Thread I L α)

/-- How a call changes the shared state and the caller's own, and its answer;
    `E` is what the outside world decides. -/
abbrev Handler (I : Interface) (S L E : Type) := (c : I.Call) → E → S → L → S × L × I.Answer c

theorem getElem?_concat_eq {α : Type} {l : List α} {t u : α} {i : ℕ}
    (h : (l ++ [t])[i]? = some u) : l[i]? = some u ∨ i = l.length ∧ u = t := by
  rw [List.getElem?_append] at h
  split_ifs at h with hi
  · exact Or.inl h
  · obtain ⟨hlt, hu⟩ := List.getElem?_eq_some_iff.1 h
    have hlt' : i - l.length < 1 := hlt
    refine Or.inr ⟨by omega, ?_⟩
    rw [← hu]
    simp

namespace Pool

variable {I : Interface} {S L E α : Type}

/-- Perform the pending call of one thread. -/
def advance (h : Handler I S L E) (p : Pool I S L α) (i : ℕ) (e : E) : Pool I S L α :=
  match p.threads[i]? with
  | some ⟨loc, .call c k⟩ =>
    let r := h c e p.shared loc
    ⟨r.1, p.threads.set i ⟨r.2.1, k r.2.2⟩⟩
  | _ => p

/-- Add a thread. -/
def spawn (p : Pool I S L α) (t : Thread I L α) : Pool I S L α := ⟨p.shared, p.threads ++ [t]⟩

/-- Change the shared state from outside. -/
def outside (p : Pool I S L α) (f : S → S) : Pool I S L α := ⟨f p.shared, p.threads⟩

/-- Either nothing happens or one thread performs its pending call. -/
theorem advance_cases (h : Handler I S L E) (p : Pool I S L α) (i : ℕ) (e : E) :
    p.advance h i e = p ∨
    ∃ loc c k, p.threads[i]? = some ⟨loc, .call c k⟩ ∧
      p.advance h i e = ⟨(h c e p.shared loc).1,
        p.threads.set i ⟨(h c e p.shared loc).2.1, k (h c e p.shared loc).2.2⟩⟩ := by
  rw [advance]
  split
  · rename_i loc c k hi
    exact Or.inr ⟨loc, c, k, hi, rfl⟩
  · exact Or.inl rfl

theorem advance_shared {h : Handler I S L E} {p : Pool I S L α} {i : ℕ} {e : E} {loc : L}
    {c : I.Call} {k : I.Answer c → Prog I α} (hi : p.threads[i]? = some ⟨loc, .call c k⟩) :
    (p.advance h i e).shared = (h c e p.shared loc).1 := by
  rw [advance, hi]

variable {Q : Type} {next : Q → (c : I.Call) → I.Answer c → Option Q} {post : Q → α → Prop}

/-- The shared state satisfies `I`, every thread follows the protocol from a
    phase that its own state and the shared one allow, and any two threads are
    apart. -/
structure Inv (next : Q → (c : I.Call) → I.Answer c → Option Q) (post : Q → α → Prop)
    (G : S → Prop) (T : S → L → Q → Prop) (Apart : L → L → Prop) (p : Pool I S L α) : Prop where
  shared : G p.shared
  thread : ∀ (i : ℕ) (t : Thread I L α), p.threads[i]? = some t →
    ∃ q, T p.shared t.loc q ∧ t.prog.Follows next post q
  apart : ∀ (i j : ℕ) (t u : Thread I L α), i ≠ j → p.threads[i]? = some t →
    p.threads[j]? = some u → Apart t.loc u.loc

variable {G : S → Prop} {T T' : S → L → Q → Prop} {Apart : L → L → Prop} {p : Pool I S L α}

theorem Inv.empty {s : S} (hs : G s) : Inv next post G T Apart (⟨s, []⟩ : Pool I S L α) where
  shared := hs
  thread := fun i t h => by simp at h
  apart := fun i j t u _ h => by simp at h

theorem Inv.outside (h : p.Inv next post G T Apart) {f : S → S} (hG : G (f p.shared))
    (hT : ∀ loc q, T p.shared loc q → T' (f p.shared) loc q) :
    (p.outside f).Inv next post G T' Apart where
  shared := hG
  thread := fun i t ht => by
    obtain ⟨q, hq, hf⟩ := h.thread i t ht
    exact ⟨q, hT _ _ hq, hf⟩
  apart := h.apart

theorem Inv.mono (h : p.Inv next post G T Apart)
    (hT : ∀ loc q, T p.shared loc q → T' p.shared loc q) : p.Inv next post G T' Apart :=
  h.outside (f := id) h.shared hT

theorem Inv.spawn (h : p.Inv next post G T Apart) {t : Thread I L α} {q : Q}
    (hq : T p.shared t.loc q) (hf : t.prog.Follows next post q)
    (hapart : ∀ u ∈ p.threads, Apart t.loc u.loc ∧ Apart u.loc t.loc) :
    (p.spawn t).Inv next post G T Apart where
  shared := h.shared
  thread := by
    intro i u hu
    rcases getElem?_concat_eq hu with hu | ⟨-, rfl⟩
    · exact h.thread i u hu
    · exact ⟨q, hq, hf⟩
  apart := by
    intro i j u v hij hu hv
    rcases getElem?_concat_eq hu with hu' | ⟨hi, rfl⟩
    · rcases getElem?_concat_eq hv with hv' | ⟨-, rfl⟩
      · exact h.apart i j u v hij hu' hv'
      · exact (hapart u (List.mem_of_getElem? hu')).2
    · rcases getElem?_concat_eq hv with hv' | ⟨hj, -⟩
      · exact (hapart v (List.mem_of_getElem? hv')).1
      · exact absurd (hi.trans hj.symm) hij

/-- What one call must achieve: the caller reaches the next phase of the
    protocol, and every thread apart from it stays in its own. -/
structure Moves (G : S → Prop) (T T' : S → L → Q → Prop) (Apart : L → L → Prop) (s : S) (loc : L)
    (s' : S) (loc' : L) (q' : Q) : Prop where
  shared : G s'
  caller : T' s' loc' q'
  others : ∀ other r, Apart loc other → Apart other loc → T s other r →
    T' s' other r ∧ Apart loc' other ∧ Apart other loc'

/-- One call of one thread keeps the invariant. -/
theorem Inv.advance (h : p.Inv next post G T Apart) (hd : Handler I S L E) (i : ℕ) (e : E)
    (hidle : p.advance hd i e = p → ∀ loc q, T p.shared loc q → T' p.shared loc q)
    (hstep : ∀ loc c k q q', p.threads[i]? = some ⟨loc, .call c k⟩ → T p.shared loc q →
      next q c (hd c e p.shared loc).2.2 = some q' →
      Moves G T T' Apart p.shared loc (hd c e p.shared loc).1 (hd c e p.shared loc).2.1 q') :
    (p.advance hd i e).Inv next post G T' Apart := by
  rcases p.advance_cases hd i e with heq | ⟨loc, c, k, hi, heq⟩
  · rw [heq]
    exact h.mono (hidle heq)
  rw [heq]
  obtain ⟨q, hq, hf⟩ := h.thread i _ hi
  obtain ⟨q', hq', hf'⟩ := hf (hd c e p.shared loc).2.2
  have hmoves := hstep loc c k q q' hi hq hq'
  have hlt := (List.getElem?_eq_some_iff.1 hi).1
  have hother : ∀ {j u}, j ≠ i → p.threads[j]? = some u →
      (∃ r, T' (hd c e p.shared loc).1 u.loc r ∧ u.prog.Follows next post r) ∧
        Apart (hd c e p.shared loc).2.1 u.loc ∧ Apart u.loc (hd c e p.shared loc).2.1 := by
    intro j u hj hu
    obtain ⟨r, hr, hfr⟩ := h.thread j u hu
    have := hmoves.others u.loc r (h.apart i j _ u hj.symm hi hu) (h.apart j i u _ hj hu hi) hr
    exact ⟨⟨r, this.1, hfr⟩, this.2⟩
  refine ⟨hmoves.shared, ?_, ?_⟩
  · intro j u hu
    by_cases hji : j = i
    · subst hji
      rw [List.getElem?_set_self hlt] at hu
      obtain rfl := Option.some.inj hu
      exact ⟨q', hmoves.caller, hf'⟩
    · rw [List.getElem?_set_ne (Ne.symm hji)] at hu
      exact (hother hji hu).1
  · intro j l u v hjl hu hv
    by_cases hji : j = i
    · subst hji
      rw [List.getElem?_set_self hlt] at hu
      rw [List.getElem?_set_ne hjl] at hv
      obtain rfl := Option.some.inj hu
      exact (hother hjl.symm hv).2.1
    · rw [List.getElem?_set_ne (Ne.symm hji)] at hu
      by_cases hli : l = i
      · subst hli
        rw [List.getElem?_set_self hlt] at hv
        obtain rfl := Option.some.inj hv
        exact (hother hji hu).2.2
      · rw [List.getElem?_set_ne (Ne.symm hli)] at hv
        exact h.apart j l u v hjl hu hv

end Pool

end HomeLab
