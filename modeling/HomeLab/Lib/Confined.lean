/-
  Programs that each use a cell of their own.

  Threads share a store of cells.  If every thread reads and writes only its
  own cell, and no two threads have the same one, then the order of their calls
  does not matter: each thread returns what it would return if it ran alone from
  the first store (`Pool.drain_run`, `Pool.drain_spec`).
-/
import HomeLab.Lib.Interaction

namespace HomeLab

variable {I : Interface} {κ V α : Type}

/-- A handler of calls on a store; `cell` tells the cell that a call uses. -/
structure Cellwise (h : (c : I.Call) → (κ → V) → (κ → V) × I.Answer c)
    (cell : I.Call → Option κ) : Prop where
  frame : ∀ c s b, cell c ≠ some b → (h c s).1 b = s b
  answer : ∀ c s s', (∀ a, cell c = some a → s a = s' a) → (h c s).2 = (h c s').2
  write : ∀ c s s' a, cell c = some a → s a = s' a → (h c s).1 a = (h c s').1 a

variable {h : (c : I.Call) → (κ → V) → (κ → V) × I.Answer c} {cell : I.Call → Option κ}

namespace Prog

/-- All the calls of the program that use a cell use the given one. -/
def Confined (cell : I.Call → Option κ) (a : κ) : Prog I α → Prop
  | ret _ => True
  | call c k => (∀ b, cell c = some b → b = a) ∧ ∀ x, (k x).Confined cell a

variable {p : Prog I α} {a b : κ} {s s' : κ → V}

theorem Confined.bind {β : Type} {f : α → Prog I β} (hp : p.Confined cell a)
    (hf : ∀ x, (f x).Confined cell a) : (p >>= f).Confined cell a := by
  induction p with
  | ret x => exact hf x
  | call c k ih => exact ⟨hp.1, fun x => ih x (hp.2 x)⟩

/-- What the program returns, and leaves in its cell, depends on that cell only. -/
theorem Confined.congr (hh : Cellwise h cell) (hp : p.Confined cell a) (hs : s a = s' a) :
    (finish h s p).2 = (finish h s' p).2 ∧ (finish h s p).1 a = (finish h s' p).1 a := by
  induction p generalizing s s' with
  | ret x => exact ⟨rfl, hs⟩
  | call c k ih =>
    have hanswer : (h c s).2 = (h c s').2 :=
      hh.answer c s s' fun b hb => by rw [hp.1 b hb]; exact hs
    have hcell : (h c s).1 a = (h c s').1 a := by
      by_cases hc : cell c = some a
      · exact hh.write c s s' a hc hs
      · rw [hh.frame c s a hc, hh.frame c s' a hc, hs]
    rw [finish, finish, hanswer]
    exact ih _ (hp.2 _) hcell

theorem Confined.frame (hh : Cellwise h cell) (hp : p.Confined cell a) (hb : b ≠ a) :
    (finish h s p).1 b = s b := by
  induction p generalizing s with
  | ret x => rfl
  | call c k ih =>
    rw [finish, ih _ (hp.2 _)]
    exact hh.frame c s b fun hc => hb (hp.1 b hc)

/-- A call on another cell may as well come first. -/
theorem Confined.commute (hh : Cellwise h cell) (hp : p.Confined cell a) {c : I.Call}
    (hc : cell c ≠ some a) :
    (finish h (h c s).1 p).2 = (finish h s p).2 ∧
      h c (finish h s p).1 = ((finish h (h c s).1 p).1, (h c s).2) := by
  obtain ⟨hresult, hcell⟩ := hp.congr hh (hh.frame c s a hc)
  refine ⟨hresult, Prod.ext (funext fun b => ?_) ?_⟩
  · by_cases hb : b = a
    · subst hb
      exact (hh.frame c _ b hc).trans hcell.symm
    · refine Eq.trans ?_ (hp.frame hh hb).symm
      by_cases hcb : cell c = some b
      · exact hh.write c _ s b hcb (hp.frame hh hb)
      · rw [hh.frame c _ b hcb, hh.frame c _ b hcb, hp.frame hh hb]
  · exact hh.answer c _ s fun b hb => hp.frame hh fun heq => hc (heq ▸ hb)

end Prog

namespace Pool

open Prog

/-- The handler of a pool whose threads know their cell. -/
def cellHandler (h : (c : I.Call) → (κ → V) → (κ → V) × I.Answer c) : Handler I (κ → V) κ Unit :=
  fun c _ s loc => ((h c s).1, loc, (h c s).2)

/-- The threads make the calls that are left, one thread after the other. -/
def drain (h : (c : I.Call) → (κ → V) → (κ → V) × I.Answer c) :
    (κ → V) → List (Thread I κ α) → (κ → V) × List α
  | s, [] => (s, [])
  | s, t :: ts =>
    let r := finish h s t.prog
    let rest := drain h r.1 ts
    (rest.1, r.2 :: rest.2)

/-- Every thread uses a cell of its own. -/
def Separate (cell : I.Call → Option κ) (ts : List (Thread I κ α)) : Prop :=
  (ts.map Thread.loc).Nodup ∧ ∀ t ∈ ts, t.prog.Confined cell t.loc

variable {ts : List (Thread I κ α)} {t : Thread I κ α}

theorem separate_cons : Separate cell (t :: ts) ↔
    ((∀ u ∈ ts, u.loc ≠ t.loc) ∧ t.prog.Confined cell t.loc) ∧ Separate cell ts := by
  simp only [Separate, List.map_cons, List.nodup_cons, List.mem_map, not_exists, not_and,
    List.forall_mem_cons]
  tauto

/-- **Every thread returns what it would return alone**, and leaves that in its cell. -/
theorem drain_spec (hh : Cellwise h cell) (hts : Separate cell ts) (s : κ → V) :
    (drain h s ts).2 = ts.map (fun t => (finish h s t.prog).2) ∧
      (∀ t ∈ ts, (drain h s ts).1 t.loc = (finish h s t.prog).1 t.loc) ∧
      ∀ b, b ∉ ts.map Thread.loc → (drain h s ts).1 b = s b := by
  induction ts generalizing s with
  | nil => exact ⟨rfl, fun t ht => absurd ht List.not_mem_nil, fun _ _ => rfl⟩
  | cons t ts ih =>
    obtain ⟨⟨hne, hconfined⟩, hts⟩ := separate_cons.1 hts
    obtain ⟨hresults, hcells, hrest⟩ := ih hts (finish h s t.prog).1
    -- the thread that ends first does not disturb the others
    have hsame : ∀ u ∈ ts, (finish h (finish h s t.prog).1 u.prog).2 = (finish h s u.prog).2 ∧
        (finish h (finish h s t.prog).1 u.prog).1 u.loc = (finish h s u.prog).1 u.loc :=
      fun u hu => (hts.2 u hu).congr hh (hconfined.frame hh (hne u hu))
    refine ⟨congrArg₂ List.cons rfl (hresults.trans ?_), List.forall_mem_cons.2 ⟨?_, ?_⟩, ?_⟩
    · exact List.map_congr_left fun u hu => (hsame u hu).1
    · refine hrest t.loc fun hmem => ?_
      obtain ⟨u, hu, heq⟩ := List.mem_map.1 hmem
      exact hne u hu heq
    · exact fun u hu => (hcells u hu).trans (hsame u hu).2
    · intro b hb
      rw [List.map_cons, List.mem_cons, not_or] at hb
      exact (hrest b hb.2).trans (hconfined.frame hh hb.1)

/-- A call that one thread makes first changes nothing in the end. -/
theorem drain_set (hh : Cellwise h cell) (hts : Separate cell ts) {i : ℕ} {loc : κ} {c : I.Call}
    {k : I.Answer c → Prog I α} (hi : ts[i]? = some ⟨loc, .call c k⟩) (s : κ → V) :
    Separate cell (ts.set i ⟨loc, k (h c s).2⟩) ∧
      drain h (h c s).1 (ts.set i ⟨loc, k (h c s).2⟩) = drain h s ts := by
  induction ts generalizing i s with
  | nil => cases hi
  | cons t ts ih =>
    obtain ⟨⟨hne, hconfined⟩, hrest⟩ := separate_cons.1 hts
    cases i with
    | zero =>
      obtain rfl := Option.some.inj hi
      exact ⟨separate_cons.2 ⟨⟨hne, hconfined.2 _⟩, hrest⟩, rfl⟩
    | succ i =>
      have hi : ts[i]? = some ⟨loc, .call c k⟩ := hi
      have hmem := List.mem_of_getElem? hi
      have hcell : cell c ≠ some t.loc := fun hc => hne _ hmem ((hrest.2 _ hmem).1 _ hc).symm
      obtain ⟨hresult, hcommute⟩ := hconfined.commute hh hcell (s := s)
      obtain ⟨-, hdrain⟩ := ih hrest hi (finish h s t.prog).1
      rw [hcommute] at hdrain
      refine ⟨separate_cons.2 ⟨⟨fun u hu => ?_, hconfined⟩, (ih hrest hi s).1⟩, ?_⟩
      · rcases List.mem_or_eq_of_mem_set hu with hu | rfl
        · exact hne u hu
        · exact hne ⟨loc, .call c k⟩ hmem
      · rw [List.set_cons_succ, drain, drain, hresult, hdrain]

theorem drain_advance (hh : Cellwise h cell) {p : Pool I (κ → V) κ α}
    (hp : Separate cell p.threads) (i : ℕ) :
    Separate cell (p.advance (cellHandler h) i ()).threads ∧
      drain h (p.advance (cellHandler h) i ()).shared (p.advance (cellHandler h) i ()).threads =
        drain h p.shared p.threads := by
  rcases p.advance_cases (cellHandler h) i () with heq | ⟨loc, c, k, hi, heq⟩
  · rw [heq]
    exact ⟨hp, rfl⟩
  · rw [heq]
    exact drain_set hh hp hi p.shared

/-- **The order of the calls does not matter.** -/
theorem drain_run (hh : Cellwise h cell) {p : Pool I (κ → V) κ α} (hp : Separate cell p.threads)
    (moves : List ℕ) :
    drain h (moves.foldl (fun p i => p.advance (cellHandler h) i ()) p).shared
      (moves.foldl (fun p i => p.advance (cellHandler h) i ()) p).threads =
        drain h p.shared p.threads := by
  induction moves generalizing p with
  | nil => rfl
  | cons i moves ih =>
    obtain ⟨hseparate, hdrain⟩ := drain_advance hh hp i
    exact (ih hseparate).trans hdrain

end Pool

end HomeLab
