/-
  Crash conditions for programs.

  A program that runs alone may be stopped after any of its calls.  `Endures`
  says that every state it can be stopped in satisfies a crash condition, and
  that it returns only what the postcondition allows, whatever the outside world
  decides within its limits.  It is proved along the program (`Endures.bind`)
  and then holds of every execution (`Endures.exec`), and of the ones that are
  left to return (`Endures.complete`).
-/
import HomeLab.Lib.Interaction

namespace HomeLab

namespace Prog

variable {I : Interface} {S E α β : Type} {h : (c : I.Call) → E → S → S × I.Answer c}
  {ok : E → Prop} {C : S → Prop}

/-- Wherever the program is stopped the state satisfies `C`, and what it returns satisfies
    `post`; `ok` says what the outside world may decide. -/
def Endures (h : (c : I.Call) → E → S → S × I.Answer c) (ok : E → Prop) (C : S → Prop)
    (post : S → α → Prop) : S → Prog I α → Prop
  | s, ret a => post s a
  | s, call c k => ∀ e, ok e → C (h c e s).1 ∧ Endures h ok C post (h c e s).1 (k (h c e s).2)

variable {p : Prog I α} {s : S} {post : S → α → Prop}

theorem Endures.bind {mid : S → α → Prop} {post : S → β → Prop} {f : α → Prog I β}
    (hp : Endures h ok C mid s p) (hf : ∀ s a, mid s a → Endures h ok C post s (f a)) :
    Endures h ok C post s (p >>= f) := by
  induction p generalizing s with
  | ret a => exact hf s a hp
  | call c k ih => exact fun e he => ⟨(hp e he).1, ih _ (hp e he).2⟩

theorem Endures.mono {post' : S → α → Prop} (hp : Endures h ok C post s p)
    (hpost : ∀ s a, post s a → post' s a) :
    Endures h ok C post' s p := by
  induction p generalizing s with
  | ret a => exact hpost s a hp
  | call c k ih => exact fun e he => ⟨(hp e he).1, ih _ (hp e he).2⟩

/-- Every execution ends in a state that satisfies the crash condition, and what it returns
    satisfies the postcondition. -/
theorem Endures.exec (hp : Endures h ok C post s p) (hs : C s) (es : List E) (hes : ∀ e ∈ es, ok e) :
    C (Prog.exec h s p es).1 ∧
      ∀ a, (Prog.exec h s p es).2.result = some a → post (Prog.exec h s p es).1 a := by
  induction es generalizing s p with
  | nil =>
    refine ⟨hs, fun a ha => ?_⟩
    have hp' : p = ret a := eq_ret_of_result ha
    subst hp'
    exact hp
  | cons e es ih =>
    have hrest : ∀ e' ∈ es, ok e' := fun e' he' => hes e' (List.mem_cons_of_mem _ he')
    cases p with
    | ret a => exact ih (p := ret a) hp hs hrest
    | call c k =>
      obtain ⟨hc, hk⟩ := hp e (hes e (List.mem_cons_self ..))
      exact ih hk hc hrest

/-- Perform all calls of a program; the `i`-th one is decided by `e i`. -/
def complete (h : (c : I.Call) → E → S → S × I.Answer c) : (ℕ → E) → S → Prog I α → S × α
  | _, s, ret a => (s, a)
  | e, s, call c k => complete h (fun i => e (i + 1)) (h c (e 0) s).1 (k (h c (e 0) s).2)

theorem Endures.complete (hp : Endures h ok C post s p) {e : ℕ → E} (he : ∀ i, ok (e i)) :
    post (Prog.complete h e s p).1 (Prog.complete h e s p).2 := by
  induction p generalizing s e with
  | ret a => exact hp
  | call c k ih => exact ih _ (hp (e 0) (he 0)).2 fun i => he (i + 1)

end Prog

end HomeLab
