/-
  When a stop request may report success.

  Only the holder of the lock changes the record, and it knows which record is in
  place (`Place`).  So while a requester waits, its record disappears either
  because the endpoint that published it was closed or because `New` removed it:
  to replace what an abandoned endpoint left, or to withdraw what it published
  itself.  In the second case `requestStop` reports a clean stop that never
  happened.
-/
import HomeLab.Lifecycle.Endpoint

namespace HomeLab

namespace Lifecycle

open Prog

/-! ## The protocol of the parties -/

/-- How far a party has come. -/
inductive Phase where
  /-- An endpoint without the lock. -/
  | outside
  | locked
  | cleared
  | drawn (nonce : Bytes)
  | staged (nonce : Bytes)
  | published (nonce : Bytes)
  | closing (nonce : Bytes)
  /-- An endpoint that removed its record. -/
  | removed
  | gone
  /-- A requester that has read nothing. -/
  | idle
  | waiting (nonce : Bytes)
  | stopped (nonce : Bytes)
  deriving DecidableEq

/-- The phase of a requester after its first read. -/
def Read.phase : Read → Phase
  | .found nonce => .waiting nonce
  | _ => .idle

/-- The phase reached by an operation, if the operation is allowed. -/
def next : Phase → (c : Call) → c.Answer → Option Phase
  | q, .prepare, _ | q, .poll, _ | q, .absent _, _ | q, .read .request, _
  | q, .cleanupTemp .request, _ | q, .remove .request _, _ | q, .create .request _, _
  | q, .rename .request, _ | q, .discard .request, _ => some q
  | .outside, .lock, x => some (if x then .locked else .outside)
  | .locked, .cleanupTemp .record, _ => some .locked
  | .locked, .read .record, x => some (if x = .missing then .cleared else .locked)
  | .locked, .remove .record .replace, x => some (if x then .cleared else .locked)
  | .cleared, .random, x => some (x.elim .cleared .drawn)
  | .drawn nonce, .create .record n, x =>
    if n = nonce then some (if x = .written then .staged nonce else .drawn nonce) else none
  | .drawn nonce, .discard .record, _ | .staged nonce, .discard .record, _ => some (.drawn nonce)
  | .staged nonce, .rename .record, x => some (if x then .published nonce else .staged nonce)
  | .published nonce, .read .record, _ => some (.published nonce)
  | .published nonce, .remove .record .withdraw, x =>
    some (if x then .removed else .published nonce)
  | .published nonce, .wait, x =>
    some (if x = .ended .close then .closing nonce else .published nonce)
  | .closing nonce, .read .record, _ => some (.closing nonce)
  | .closing nonce, .remove .record .own, x => some (if x then .removed else .closing nonce)
  | .idle, .read .record, x => some x.phase
  | .waiting nonce, .read .record, x =>
    some (if x = .missing then .stopped nonce else .waiting nonce)
  | .locked, .unlock, _ | .cleared, .unlock, _ | .drawn _, .unlock, _ | .published _, .unlock, _
  | .closing _, .unlock, _ | .removed, .unlock, _ => some .gone
  | _, _, _ => none

/-- Success is reported only by a requester that found its record missing. -/
def Returns (q : Phase) (o : Outcome) : Prop := o = .stopped → ∃ nonce, q = .stopped nonce

abbrev Conforms (q : Phase) (p : Prog calls Outcome) : Prop := Follows (I := calls) next Returns q p

/-- The program ends in a phase that the returned value allows. -/
abbrev Leads {α : Type} (q : Phase) (p : Prog calls α) (post : Phase → α → Prop) : Prop :=
  Follows (I := calls) next post q p

variable {c : Call} {nonce n : Bytes} {why : Removal} {a : Bool} {e : Answers} {p : Parties}

theorem leads_call {α : Type} {post : Phase → α → Prop} {q : Phase} {k : c.Answer → Prog calls α}
    (h : ∀ x, ∃ q', next q c x = some q' ∧ Leads q' (k x) post) :
    Leads q (query c >>= k) post := h

/-- Writing the request changes nothing that the protocol tracks. -/
theorem leads_writeAtomic_request {q : Phase} :
    Leads q (writeAtomic .request nonce) fun q' _ => q' = q := by
  refine leads_call fun x => ⟨q, rfl, ?_⟩
  cases x with
  | refused => rfl
  | broken => exact leads_call fun _ => ⟨q, rfl, rfl⟩
  | written =>
    refine leads_call fun absent => ⟨q, rfl, ?_⟩
    cases absent with
    | false => exact leads_call fun _ => ⟨q, rfl, rfl⟩
    | true =>
      refine leads_call fun renamed => ⟨q, rfl, ?_⟩
      cases renamed with
      | false => exact leads_call fun _ => ⟨q, rfl, rfl⟩
      | true => rfl

theorem leads_writeAtomic_record :
    Leads (.drawn nonce) (writeAtomic .record nonce) fun q' done =>
      q' = if done then .published nonce else .drawn nonce := by
  refine leads_call fun x => ⟨if x = .written then .staged nonce else .drawn nonce, ?_, ?_⟩
  · simp [next]
  cases x with
  | refused => rfl
  | broken => exact leads_call fun _ => ⟨.drawn nonce, rfl, rfl⟩
  | written =>
    refine leads_call fun absent => ⟨.staged nonce, rfl, ?_⟩
    cases absent with
    | false => exact leads_call fun _ => ⟨.drawn nonce, rfl, rfl⟩
    | true =>
      refine leads_call fun renamed => ⟨if renamed then .published nonce else .staged nonce, rfl, ?_⟩
      cases renamed with
      | false => exact leads_call fun _ => ⟨.drawn nonce, rfl, rfl⟩
      | true => rfl

theorem leads_replace_request {q : Phase} :
    Leads q (replace .request) fun q' _ => q' = q := by
  refine leads_call fun x => ⟨q, rfl, ?_⟩
  cases x with
  | found n => exact leads_call fun _ => ⟨q, rfl, rfl⟩
  | missing | failed => rfl

theorem leads_replace_record :
    Leads .locked (replace .record) fun q' done => q' = if done then .cleared else .locked := by
  refine leads_call fun x => ⟨if x = .missing then .cleared else .locked, rfl, ?_⟩
  cases x with
  | found n => exact leads_call fun removed => ⟨if removed then .cleared else .locked, rfl, rfl⟩
  | missing | failed => rfl

theorem leads_removeOwn_request {q : Phase} :
    Leads q (removeOwn .request nonce why) fun q' _ => q' = q := by
  refine leads_call fun x => ⟨q, rfl, ?_⟩
  cases x with
  | found n =>
    dsimp only
    split_ifs
    · rfl
    · exact leads_call fun _ => ⟨q, rfl, rfl⟩
  | missing | failed => rfl

/-- An endpoint that removes its record stays in a phase in which it may unlock. -/
theorem leads_removeOwn_record {q : Phase} (hread : ∀ x, next q (.read .record) x = some q) (hremove
      : ∀ x, ∃ q', next q (.remove .record why) x = some q' ∧ next q' .unlock () = some .gone)
    (hunlock : next q .unlock () = some .gone) :
    Leads q (removeOwn .record nonce why) fun q' _ => next q' .unlock () = some .gone := by
  refine leads_call fun x => ⟨q, hread x, ?_⟩
  cases x with
  | found n =>
    dsimp only
    split_ifs
    · exact hunlock
    · refine leads_call fun removed => ?_
      obtain ⟨q', hq', hu⟩ := hremove removed
      exact ⟨q', hq', hu⟩
  | missing | failed => exact hunlock

theorem leads_newLocked {configured : Duration} :
    Leads .locked (newLocked configured) fun q made =>
      match made with
      | some nonce => q = .published nonce
      | none => next q .unlock () = some .gone := by
  refine leads_call fun cleaned => ⟨.locked, rfl, ?_⟩
  cases cleaned with
  | false => rfl
  | true =>
  refine leads_call fun cleaned => ⟨.locked, rfl, ?_⟩
  cases cleaned with
  | false => rfl
  | true =>
  refine Follows.bind leads_replace_record ?_
  rintro q replaced rfl
  cases replaced with
  | false => rfl
  | true =>
  refine Follows.bind leads_replace_request ?_
  rintro q replaced rfl
  cases replaced with
  | false => rfl
  | true =>
  refine leads_call fun x => ⟨x.elim .cleared .drawn, rfl, ?_⟩
  cases x with
  | none => rfl
  | some nonce =>
  refine Follows.bind leads_writeAtomic_record ?_
  rintro q written rfl
  cases written with
  | false => rfl
  | true =>
  simp only [Bool.not_true, Bool.false_eq_true, if_false, if_true]
  split_ifs
  · refine Follows.bind (leads_removeOwn_record (fun _ => rfl)
      (fun x => ⟨if x then .removed else .published nonce, rfl, ?_⟩) rfl) fun q _ hq => hq
    cases x <;> rfl
  · rfl

theorem leads_new {configured : Duration} :
    Leads .outside (new configured) fun q made =>
      ∀ nonce, made = some nonce → q = .published nonce := by
  refine leads_call fun prepared => ⟨.outside, rfl, ?_⟩
  cases prepared with
  | false => exact nofun
  | true =>
  refine leads_call fun locked => ⟨if locked then .locked else .outside, rfl, ?_⟩
  cases locked with
  | false => exact nofun
  | true =>
  refine Follows.bind leads_newLocked ?_
  intro q made hq
  cases made with
  | some nonce =>
    intro n hn
    cases hn
    exact hq
  | none => exact leads_call fun _ => ⟨.gone, hq, nofun⟩

theorem leads_watch (n : ℕ) : ∀ signalled,
    Leads (.published nonce) (watch nonce signalled n) fun q how =>
      q = if how = some .close then .closing nonce else .published nonce := by
  induction n with
  | zero => exact fun _ => rfl
  | succ n ih =>
    intro signalled
    refine leads_call fun wake =>
      ⟨if wake = .ended .close then .closing nonce else .published nonce, rfl, ?_⟩
    cases wake with
    | ended how => cases how <;> rfl
    | tick =>
    dsimp only
    cases signalled with
    | true => exact ih true
    | false =>
    refine leads_call fun x => ⟨.published nonce, rfl, ?_⟩
    cases x with
    | found r =>
      dsimp only
      split_ifs
      · exact ih false
      · refine leads_call fun removed => ⟨.published nonce, rfl, ?_⟩
        cases removed with
        | false => exact ih false
        | true => exact ih true
    | missing | failed => exact ih false

theorem leads_finish {how : Ending} :
    Leads (if some how = some .close then .closing nonce else .published nonce)
      (finish nonce how) fun _ _ => True := by
  cases how with
  | abandon => exact leads_call fun _ => ⟨.gone, rfl, trivial⟩
  | close =>
    refine Follows.bind leads_removeOwn_request ?_
    rintro q removed rfl
    refine Follows.bind (leads_removeOwn_record (fun _ => rfl)
      (fun x => ⟨if x then .removed else .closing nonce, rfl, ?_⟩) rfl) ?_
    · cases x <;> rfl
    · exact fun q _ hq => leads_call fun _ => ⟨.gone, hq, trivial⟩

theorem conforms_endpoint (configured : Duration) (wakes : ℕ) :
    Conforms .outside (endpoint configured wakes) := by
  refine Follows.bind leads_new fun q made hq => ?_
  cases made with
  | none => exact nofun
  | some nonce =>
  obtain rfl := hq nonce rfl
  refine Follows.bind (leads_watch wakes false) ?_
  rintro q how rfl
  cases how with
  | none => exact nofun
  | some how => exact Follows.bind leads_finish fun q _ _ h => nomatch h

theorem leads_publish {q : Phase} :
    Leads q (publish nonce) fun q' _ => q' = q := by
  refine leads_call fun x => ⟨q, rfl, ?_⟩
  cases x with
  | found | failed => rfl
  | missing =>
    refine leads_call fun cleaned => ⟨q, rfl, ?_⟩
    cases cleaned with
    | false => rfl
    | true => exact leads_writeAtomic_request

theorem conforms_await (n : ℕ) : Conforms (.waiting nonce) (await nonce n) := by
  induction n with
  | zero => exact nofun
  | succ n ih =>
    refine leads_call fun live => ⟨.waiting nonce, rfl, ?_⟩
    cases live with
    | false => exact nofun
    | true =>
    refine leads_call fun x =>
      ⟨if x = .missing then .stopped nonce else .waiting nonce, rfl, ?_⟩
    cases x with
    | missing => exact fun _ => ⟨nonce, rfl⟩
    | failed => exact nofun
    | found current =>
      show Conforms (.waiting nonce) (if current ≠ nonce then pure .failed else await nonce n)
      split_ifs
      · exact nofun
      · exact ih

theorem conforms_requestStop (polls : ℕ) : Conforms .idle (requestStop polls) := by
  refine leads_call fun live => ⟨.idle, rfl, ?_⟩
  cases live with
  | false => exact nofun
  | true =>
  refine leads_call fun prepared => ⟨.idle, rfl, ?_⟩
  cases prepared with
  | false => exact nofun
  | true =>
  refine leads_call fun x => ⟨x.phase, rfl, ?_⟩
  cases x with
  | missing | failed => exact nofun
  | found nonce =>
  refine Follows.bind leads_publish ?_
  rintro q published rfl
  cases published with
  | false => exact nofun
  | true => exact conforms_await polls

/-! ## Where the parties stand -/

/-- An endpoint that drew the nonce and was ended by `Close`. -/
def Party.Closed (x : Party) (nonce : Bytes) : Prop :=
  x.requester = false ∧ x.nonce = some nonce ∧ x.ended = some .close

/-- What a phase means; the requester `j` is followed as long as `W`, and `C` are the nonces
    whose endpoints were closed. -/
def Place (j : ℕ) (W : Prop) (C : Bytes → Prop) (d : Directory) (x : Party) : Phase → Prop
  | .outside => x.requester = false ∧ d.lock ≠ some x.id ∧ x.ended = none
  | .locked => x.requester = false ∧ d.lock = some x.id ∧ x.ended = none
  | .cleared =>
    x.requester = false ∧ d.lock = some x.id ∧ x.ended = none ∧ d.file .record = none
  | .drawn nonce => x.requester = false ∧ d.lock = some x.id ∧ x.ended = none ∧
    d.file .record = none ∧ x.nonce = some nonce
  | .staged nonce => x.requester = false ∧ d.lock = some x.id ∧ x.ended = none ∧
    d.file .record = none ∧ x.nonce = some nonce ∧ d.temp .record = some nonce
  | .published nonce => x.requester = false ∧ d.lock = some x.id ∧ x.ended ≠ some .close ∧
    d.file .record = some nonce ∧ x.nonce = some nonce
  | .closing nonce => x.requester = false ∧ d.lock = some x.id ∧ x.ended = some .close ∧
    d.file .record = some nonce ∧ x.nonce = some nonce
  | .removed => x.requester = false ∧ d.lock = some x.id
  | .gone => x.requester = false ∧ d.lock ≠ some x.id
  | .idle => x.requester = true ∧ d.lock ≠ some x.id ∧ x.nonce = none
  | .waiting nonce => x.requester = true ∧ d.lock ≠ some x.id ∧ x.nonce = some nonce ∧
    (x.id = j → W → d.file .record = some nonce ∨ C nonce)
  | .stopped nonce => x.requester = true ∧ d.lock ≠ some x.id ∧ x.nonce = some nonce ∧
    (x.id = j → C nonce)

/-- What a party can tell about the directory is the same in both. -/
structure Same (d d' : Directory) : Prop where
  lock : d'.lock = d.lock
  record : d'.file .record = d.file .record
  temp : d'.temp .record = d.temp .record

variable {j : ℕ} {W W' : Prop} {C C' : Bytes → Prop} {d d' : Directory} {x y : Party} {q q' r : Phase}

theorem Same.refl : Same d d := ⟨rfl, rfl, rfl⟩

theorem Place.same (h : Place j W C d x q) (hd : Same d d')
    (hW : x.id = j → x.requester = true → ∀ n, x.nonce = some n → W' → W) (hC : ∀ n, C n → C' n) :
    Place j W' C' d' x q := by
  cases q <;> simp only [Place, hd.lock, hd.record, hd.temp] at h ⊢
  case waiting n =>
    obtain ⟨hreq, hlock, hn, hfollow⟩ := h
    exact ⟨hreq, hlock, hn, fun hj hw => (hfollow hj (hW hj hreq n hn hw)).imp id (hC n)⟩
  case stopped n => exact ⟨h.1, h.2.1, h.2.2.1, fun hj => hC n (h.2.2.2 hj)⟩
  all_goals exact h

/-- A party without the lock stays in its place while the holder of the lock changes the
    directory, if a record that is followed does not disappear. -/
theorem Place.bystander (h : Place j W C d x q) (hlock : d.lock ≠ some x.id)
    (hlock' : d'.lock ≠ some x.id) (hW : x.id = j → W' → W) (hC : ∀ n, C n → C' n)
    (hrecord : ∀ n, W → d.file .record = some n → d'.file .record = some n ∨ C' n) :
    Place j W' C' d' x q := by
  cases q <;> simp only [Place] at h ⊢
  case outside => exact ⟨h.1, hlock', h.2.2⟩
  case gone => exact ⟨h.1, hlock'⟩
  case removed => exact absurd h.2 hlock
  case idle => exact ⟨h.1, hlock', h.2.2⟩
  case waiting n =>
    obtain ⟨hreq, -, hn, hfollow⟩ := h
    refine ⟨hreq, hlock', hn, fun hj hw => ?_⟩
    rcases hfollow hj (hW hj hw) with hr | hr
    · exact hrecord n (hW hj hw) hr
    · exact Or.inr (hC n hr)
  case stopped n => exact ⟨h.1, hlock', h.2.2.1, fun hj => hC n (h.2.2.2 hj)⟩
  all_goals exact absurd h.2.1 hlock

/-! ## One operation -/

/-- The operations that concern no record. -/
def Call.Aside : Call → Prop
  | .prepare | .poll | .absent _ | .read .request | .cleanupTemp .request | .remove .request _
  | .create .request _ | .rename .request | .discard .request => True
  | _ => False

theorem next_aside (hc : c.Aside) (a : c.Answer) : next q c a = some q := by
  cases c with
  | prepare | poll | absent => rfl
  | read f | cleanupTemp f | remove f | create f | rename f | discard f =>
    cases f with
    | request => rfl
    | record => cases hc
  | lock | unlock | random | wait => cases hc

theorem handler_aside (hc : c.Aside) (e : Answers) :
    Same d (handler c e d x).1 ∧ (handler c e d x).2.1 = x := by
  cases c with
  | prepare | poll | absent => exact ⟨Same.refl, rfl⟩
  | lock | unlock | random | wait => cases hc
  | read f =>
    cases f with
    | record => cases hc
    | request =>
      refine ⟨Same.refl, ?_⟩
      cases hr : d.read e.ok .request <;> simp [handler, Party.reads, hr]
  | cleanupTemp f | remove f | create f | rename f =>
    cases f with
    | record => cases hc
    | request =>
      simp only [handler]
      split_ifs <;> exact ⟨⟨rfl, rfl, rfl⟩, rfl⟩
  | discard f =>
    cases f with
    | record => cases hc
    | request =>
      refine ⟨⟨rfl, rfl, ?_⟩, rfl⟩
      simp only [handler]
      split_ifs <;> rfl

/-- An operation that concerns no record, or one of the others. -/
@[elab_as_elim] theorem Call.cases_record {motive : Call → Prop}
    (aside : ∀ c, c.Aside → motive c) (lock : motive .lock) (unlock : motive .unlock)
    (random : motive .random) (wait : motive .wait) (read : motive (.read .record))
    (cleanupTemp : motive (.cleanupTemp .record)) (create : ∀ n, motive (.create .record n))
    (discard : motive (.discard .record)) (rename : motive (.rename .record))
    (remove : ∀ why, motive (.remove .record why)) (c : Call) : motive c := by
  cases c with
  | read f | cleanupTemp f | remove f | create f | rename f | discard f =>
    cases f with
    | request => exact aside _ trivial
    | record => first | assumption | exact create _ | exact remove _
  | _ => first | assumption | exact aside _ trivial

theorem next_lock (h : next q .lock a = some q') :
    q = .outside ∧ q' = if a then .locked else .outside := by
  cases q <;> simp_all [next]

theorem next_random {a : Option Bytes} (h : next q .random a = some q') :
    q = .cleared ∧ q' = a.elim .cleared .drawn := by
  cases q <;> cases h
  exact ⟨rfl, rfl⟩

theorem next_wait {a : Wake} (h : next q .wait a = some q') :
    ∃ n, q = .published n ∧ q' = if a = .ended .close then .closing n else .published n := by
  cases q <;> simp_all [next]

theorem next_cleanupTemp (h : next q (.cleanupTemp .record) a = some q') :
    q = .locked ∧ q' = .locked := by
  cases q <;> simp_all [next]

theorem next_create {a : Staging} (h : next q (.create .record n) a = some q') :
    q = .drawn n ∧ q' = if a = .written then .staged n else .drawn n := by
  cases q <;> simp_all [next]

theorem next_discard {a : Unit} (h : next q (.discard .record) a = some q') :
    ∃ n, (q = .drawn n ∨ q = .staged n) ∧ q' = .drawn n := by
  cases q <;> cases h <;> simp

theorem next_rename (h : next q (.rename .record) a = some q') :
    ∃ n, q = .staged n ∧ q' = if a then .published n else .staged n := by
  cases q <;> simp_all [next]

theorem next_remove (h : next q (.remove .record why) a = some q') :
    (why = .replace ∧ q = .locked ∧ q' = if a then .cleared else .locked) ∨
    (∃ n, why = .withdraw ∧ q = .published n ∧ q' = if a then .removed else .published n) ∨
    ∃ n, why = .own ∧ q = .closing n ∧ q' = if a then .removed else .closing n := by
  cases q <;> cases why <;> simp_all [next]

theorem next_read {a : Read} (h : next q (.read .record) a = some q') :
    (q = .locked ∧ q' = if a = .missing then .cleared else .locked) ∨
    (q' = q ∧ ((∃ n, q = .published n) ∨ ∃ n, q = .closing n)) ∨
    (q = .idle ∧ q' = a.phase) ∨
    ∃ n, q = .waiting n ∧ q' = if a = .missing then .stopped n else .waiting n := by
  cases q <;> cases h <;> simp

theorem Place.unlock {a : Unit} (h : Place j W C d x q) (hnext : next q .unlock a = some q') :
    x.requester = false ∧ q' = .gone := by
  cases q <;> simp_all [next, Place]

/-- Only the holder of the lock changes the record or its temporary file. -/
theorem Place.holds {a : c.Answer} (h : Place j W C d x q) (hnext : next q c a = some q') (hc : c =
      .cleanupTemp .record ∨ (∃ nonce, c = .create .record nonce) ∨ c = .discard .record ∨ c =
      .rename .record ∨ ∃ why, c = .remove .record why) :
    d.lock = some x.id := by
  rcases hc with rfl | ⟨nonce, rfl⟩ | rfl | rfl | ⟨why, rfl⟩
  · obtain ⟨rfl, -⟩ := next_cleanupTemp hnext
    exact h.2.1
  · obtain ⟨rfl, -⟩ := next_create hnext
    exact h.2.1
  · obtain ⟨n, rfl | rfl, -⟩ := next_discard hnext <;> exact h.2.1
  · obtain ⟨n, rfl, -⟩ := next_rename hnext
    exact h.2.1
  · obtain ⟨-, rfl, -⟩ | ⟨n, -, rfl, -⟩ | ⟨n, -, rfl, -⟩ := next_remove hnext <;> exact h.2.1

/-- An operation of the party that takes or holds the lock leaves the others in their places. -/
theorem Place.others (h : Place j W C d x q) (hnext : next q c (handler c e d x).2.2 = some q')
    (hy : Place j W C d y r) (hid : y.id ≠ x.id) (hW : y.id = j → W' → W) (hC : ∀ n, C n → C' n)
    (hclosed : ∀ n, x.Closed n → C' n) (hsafe : ∀ why, c = .remove .record why → why ≠ .own → ¬ W) :
    Place j W' C' (handler c e d x).1 y r := by
  have hne : d.lock = some x.id → d.lock ≠ some y.id := by
    intro hlock
    rw [hlock]
    exact fun heq => hid (Option.some.inj heq).symm
  have hW' : y.id = j → y.requester = true → ∀ n, y.nonce = some n → W' → W :=
    fun hj _ _ _ => hW hj
  induction c using Call.cases_record with
  | aside c haside => exact hy.same (handler_aside haside e).1 hW' hC
  | lock =>
    simp only [handler]
    split_ifs with hok
    · simp only [Bool.and_eq_true, Option.isNone_iff_eq_none] at hok
      refine hy.bystander (by rw [hok.2]; exact nofun)
        (fun heq => hid (Option.some.inj heq).symm) hW hC fun n _ hn => Or.inl hn
    · exact hy.same Same.refl hW' hC
  | unlock =>
    by_cases hlock : d.lock = some x.id
    · refine hy.bystander (hne hlock) ?_ hW hC fun n _ hn => Or.inl hn
      simp [handler, hlock]
    · refine hy.same ⟨?_, rfl, rfl⟩ hW' hC
      simp [handler, hlock]
  | random =>
    simp only [handler]
    split_ifs <;> exact hy.same Same.refl hW' hC
  | wait =>
    simp only [handler]
    split <;> exact hy.same Same.refl hW' hC
  | read => exact hy.same Same.refl hW' hC
  | cleanupTemp | create nonce =>
    -- only the temporary file changes
    have hlock := hne (h.holds hnext (by simp))
    refine hy.bystander hlock ?_ hW hC fun n _ hn => Or.inl ?_ <;> simp only [handler] <;>
      split_ifs <;> assumption
  | discard =>
    have hlock := hne (h.holds hnext (by simp))
    exact hy.bystander hlock hlock hW hC fun n _ hn => Or.inl hn
  | rename =>
    have hlock := hne (h.holds hnext (by simp))
    refine hy.bystander hlock ?_ hW hC fun n _ hn => ?_
    · simp only [handler]
      split_ifs <;> exact hlock
    · obtain ⟨m, rfl, -⟩ := next_rename hnext
      rw [h.2.2.2.1] at hn
      cases hn
  | remove why =>
    have hlock := hne (h.holds hnext (by simp))
    refine hy.bystander hlock ?_ hW hC fun n hw hfile => ?_
    · simp only [handler]
      split_ifs <;> exact hlock
    · obtain ⟨rfl, -, -⟩ | ⟨m, rfl, -, -⟩ | ⟨m, rfl, rfl, -⟩ := next_remove hnext
      · exact (hsafe .replace rfl (by decide) hw).elim
      · exact (hsafe .withdraw rfl (by decide) hw).elim
      · -- the record is the caller's own, and the caller is being closed
        obtain ⟨hx, -, hended, hrecord, hnonce⟩ := h
        rw [hrecord] at hfile
        rw [← Option.some.inj hfile]
        exact Or.inr (hclosed _ ⟨hx, hnonce, hended⟩)

theorem Place.read (h : Place j W C d x q)
    (hnext : next q (.read .record) (d.read e.ok .record) = some q')
    (hW : x.id = j → x.requester = true → ∀ n, x.nonce = some n → W) (hC : ∀ n, C n → C' n) :
    Place j W' C' d (x.reads .record (d.read e.ok .record)) q' := by
  have hmissing : d.read e.ok .record = .missing → d.file .record = none := by
    intro hr
    rw [Directory.read] at hr
    split_ifs at hr
    cases hf : d.file .record with
    | none => rfl
    | some n => rw [hf] at hr; cases hr
  have hfound : ∀ n, d.read e.ok .record = .found n → d.file .record = some n := by
    intro n hr
    rw [Directory.read] at hr
    split_ifs at hr
    cases hf : d.file .record with
    | none => rw [hf] at hr; cases hr
    | some m => rw [hf] at hr; cases hr; rfl
  have hendpoint : x.requester = false → x.reads .record (d.read e.ok .record) = x := by
    intro hx
    cases d.read e.ok .record <;> simp [Party.reads, hx]
  have hread : ∀ n, x.nonce = some n → x.reads .record (d.read e.ok .record) = x := by
    intro n hn
    cases d.read e.ok .record <;> simp [Party.reads, hn]
  obtain ⟨rfl, rfl⟩ | ⟨rfl, hq⟩ | ⟨rfl, rfl⟩ | ⟨n, rfl, rfl⟩ := next_read hnext
  · rw [hendpoint h.1]
    split_ifs with hr
    · exact ⟨h.1, h.2.1, h.2.2, hmissing hr⟩
    · exact h
  · have hx : x.requester = false := by
      obtain ⟨n, rfl⟩ | ⟨n, rfl⟩ := hq <;> exact h.1
    rw [hendpoint hx]
    obtain ⟨n, rfl⟩ | ⟨n, rfl⟩ := hq <;> exact h
  · obtain ⟨hx, hlock, hnone⟩ := h
    cases hr : d.read e.ok .record with
    | missing | failed => exact ⟨hx, hlock, hnone⟩
    | found n =>
      have hreads : x.reads .record (.found n) = { x with nonce := some n } := by
        simp [Party.reads, hx, hnone]
      rw [hreads]
      exact ⟨hx, hlock, rfl, fun _ _ => Or.inl (hfound n hr)⟩
  · obtain ⟨hx, hlock, hn, hfollow⟩ := h
    rw [hread n hn]
    split_ifs with hr
    · refine ⟨hx, hlock, hn, fun hj => ?_⟩
      rcases hfollow hj (hW hj hx n hn) with hf | hc
      · rw [hmissing hr] at hf
        cases hf
      · exact hC n hc
    · exact ⟨hx, hlock, hn, fun hj _ => (hfollow hj (hW hj hx n hn)).imp id (hC n)⟩

/-- The caller reaches the place of the next phase. -/
theorem Place.caller (h : Place j W C d x q) (hnext : next q c (handler c e d x).2.2 = some q')
    (hW : x.id = j → x.requester = true → ∀ n, x.nonce = some n → W) (hC : ∀ n, C n → C' n) :
    Place j W' C' (handler c e d x).1 (handler c e d x).2.1 q' := by
  induction c using Call.cases_record with
  | aside c haside =>
    rw [next_aside haside] at hnext
    obtain rfl := Option.some.inj hnext
    -- what does not concern the record leaves the caller where it is
    obtain ⟨hsame, hx⟩ := handler_aside (d := d) (x := x) haside e
    rw [hx]
    exact h.same hsame (fun hj hreq n hn _ => hW hj hreq n hn) hC
  | lock =>
    obtain ⟨rfl, rfl⟩ := next_lock hnext
    obtain ⟨hx, hlock, hended⟩ := h
    by_cases hok : (e.ok && d.lock.isNone) = true
    · rw [show handler .lock e d x = ({ d with lock := some x.id }, x, true) from if_pos hok]
      exact ⟨hx, rfl, hended⟩
    · rw [show handler .lock e d x = (d, x, false) from if_neg hok]
      exact ⟨hx, hlock, hended⟩
  | unlock =>
    obtain ⟨hx, rfl⟩ := h.unlock hnext
    refine ⟨hx, ?_⟩
    simp only [handler]
    split_ifs with hlock
    · exact nofun
    · exact hlock
  | random =>
    obtain ⟨rfl, rfl⟩ := next_random hnext
    obtain ⟨hx, hlock, hended, hnone⟩ := h
    by_cases hok : e.ok = true
    · rw [show handler .random e d x = (d, { x with nonce := some e.random }, some e.random) from
        if_pos hok]
      exact ⟨hx, hlock, hended, hnone, rfl⟩
    · rw [show handler .random e d x = (d, x, none) from if_neg hok]
      exact ⟨hx, hlock, hended, hnone⟩
  | wait =>
    obtain ⟨n, rfl, rfl⟩ := next_wait hnext
    obtain ⟨hx, hlock, hended, hrecord, hnonce⟩ := h
    cases hw : e.wake with
    | tick =>
      rw [show handler .wait e d x = (d, x, .tick) by simp only [handler, hw]]
      exact ⟨hx, hlock, hended, hrecord, hnonce⟩
    | ended how =>
      rw [show handler .wait e d x = (d, { x with ended := some how }, .ended how) by
        simp only [handler, hw]]
      cases how with
      | close => exact ⟨hx, hlock, rfl, hrecord, hnonce⟩
      | abandon =>
        refine ⟨hx, hlock, ?_, hrecord, hnonce⟩
        exact (by decide : some Ending.abandon ≠ some .close)
  | read =>
    exact h.read hnext hW hC
  | cleanupTemp =>
    obtain ⟨rfl, rfl⟩ := next_cleanupTemp hnext
    simp only [handler]
    split_ifs <;> exact h
  | create nonce =>
    obtain ⟨rfl, rfl⟩ := next_create hnext
    obtain ⟨hx, hlock, hended, hnone, hnonce⟩ := h
    by_cases hok : (decide (e.staging = .refused) || (d.temp .record).isSome) = true
    · rw [show handler (.create .record nonce) e d x = (d, x, .refused) from if_pos hok]
      exact ⟨hx, hlock, hended, hnone, hnonce⟩
    · rw [show handler (.create .record nonce) e d x =
        ({ d with temp := put d.temp .record (some nonce) }, x, e.staging) from if_neg hok]
      dsimp only
      split_ifs
      · exact ⟨hx, hlock, hended, hnone, hnonce, rfl⟩
      · exact ⟨hx, hlock, hended, hnone, hnonce⟩
  | discard =>
    obtain ⟨n, rfl | rfl, rfl⟩ := next_discard hnext
    · exact h
    · exact ⟨h.1, h.2.1, h.2.2.1, h.2.2.2.1, h.2.2.2.2.1⟩
  | rename =>
    obtain ⟨n, rfl, rfl⟩ := next_rename hnext
    obtain ⟨hx, hlock, hended, hnone, hnonce, htemp⟩ := h
    by_cases hok : (e.ok && (d.temp .record).isSome) = true
    · rw [show handler (.rename .record) e d x = ({ d with
        file := put d.file .record (d.temp .record), temp := put d.temp .record none }, x, true)
        from if_pos hok]
      refine ⟨hx, hlock, ?_, htemp, hnonce⟩
      rw [hended]
      exact nofun
    · rw [show handler (.rename .record) e d x = (d, x, false) from if_neg hok]
      exact ⟨hx, hlock, hended, hnone, hnonce, htemp⟩
  | remove why =>
    by_cases hok : (e.ok && (d.file .record).isSome) = true
    · rw [show handler (.remove .record why) e d x =
        ({ d with file := put d.file .record none }, x, true) from if_pos hok] at hnext ⊢
      obtain ⟨-, rfl, rfl⟩ | ⟨n, -, rfl, rfl⟩ | ⟨n, -, rfl, rfl⟩ := next_remove hnext
      · exact ⟨h.1, h.2.1, h.2.2, rfl⟩
      · exact ⟨h.1, h.2.1⟩
      · exact ⟨h.1, h.2.1⟩
    · rw [show handler (.remove .record why) e d x = (d, x, false) from if_neg hok] at hnext ⊢
      obtain ⟨-, rfl, rfl⟩ | ⟨n, -, rfl, rfl⟩ | ⟨n, -, rfl, rfl⟩ := next_remove hnext <;> exact h

/-- A closed endpoint stays one. -/
theorem Place.closed (h : Place j W C d x q) (hnext : next q c (handler c e d x).2.2 = some q')
    (hx : x.Closed n) :
    (handler c e d x).2.1.Closed n := by
  by_cases haside : c.Aside
  · rw [(handler_aside haside e).2]
    exact hx
  cases c with
  | prepare | poll | absent => exact absurd trivial haside
  | random =>
    obtain ⟨rfl, -⟩ := next_random hnext
    have hended : x.ended = none := h.2.2.1
    rw [hx.2.2] at hended
    cases hended
  | wait =>
    obtain ⟨m, rfl, -⟩ := next_wait hnext
    exact absurd hx.2.2 h.2.2.1
  | read f =>
    have hreads : x.reads f (d.read e.ok f) = x := by
      cases d.read e.ok f <;> simp [Party.reads, hx.1]
    rw [show (handler (.read f) e d x).2.1 = x from hreads]
    exact hx
  | unlock | discard f => exact hx
  | lock | cleanupTemp f | create f nonce | rename f | remove f why =>
    simp only [handler]
    split_ifs <;> exact hx

/-! ## Runs -/

/-- Some endpoint that drew the nonce was ended by `Close`. -/
def Closed (p : Parties) (nonce : Bytes) : Prop := ∃ t ∈ p.threads, t.loc.Closed nonce

/-- The requester has read the record and has not returned. -/
def Waits (j : ℕ) (p : Parties) : Prop :=
  ∃ t, p.threads[j]? = some t ∧ t.loc.requester = true ∧ t.loc.nonce.isSome = true ∧
    t.prog.result = none

/-- Every party is in its place, and the parties are numbered. -/
structure Placed (j : ℕ) (p : Parties) : Prop where
  place : Pool.Inv (I := calls) next Returns (fun _ => True) (Place j (Waits j p) (Closed p))
    (fun x y => x.id ≠ y.id) p
  id : ∀ (i : ℕ) (t : Thread calls Party Outcome), p.threads[i]? = some t → t.loc.id = i
  holder : ∀ i, p.shared.lock = some i → i < p.threads.length

/-- The move removes the record in `New`. -/
def replaces (p : Parties) : Move → Bool
  | .advance i _ =>
    match p.threads[i]? with
    | some ⟨_, .call (.remove .record why) _⟩ => why ≠ .own
    | _ => false
  | _ => false

/-- While the requester waits, `New` removes no record. -/
def Undisturbed (j : ℕ) (ms : List Move) : Prop :=
  ∀ before m after, ms = before ++ m :: after → Waits j (run before) → replaces (run before) m = false

theorem placed_nil {j : ℕ} : Placed j (run []) :=
  ⟨Pool.Inv.empty trivial, nofun, nofun⟩

theorem closed_spawn {t : Thread calls Party Outcome} (h : Closed p n) : Closed (p.spawn t) n := by
  obtain ⟨u, hu, hn⟩ := h
  exact ⟨u, List.mem_append_left _ hu, hn⟩

theorem waits_spawn {t : Thread calls Party Outcome} (ht : t.loc.nonce = none)
    (h : Waits j (p.spawn t)) : Waits j p := by
  obtain ⟨u, hu, hreq, hn, hresult⟩ := h
  rcases getElem?_concat_eq hu with hu | ⟨-, rfl⟩
  · exact ⟨u, hu, hreq, hn, hresult⟩
  · rw [ht] at hn
    cases hn

theorem Placed.spawn (h : Placed j p) {x : Party} {prog : Prog calls Outcome} {q : Phase}
    (hid : x.id = p.threads.length) (hnonce : x.nonce = none)
    (hplace : Place j (Waits j p) (Closed p) p.shared x q) (hprog : Conforms q prog) :
    Placed j (p.spawn ⟨x, prog⟩) := by
  refine ⟨?_, ?_, fun i hi => ?_⟩
  · refine Pool.Inv.mono (Pool.Inv.spawn h.place hplace hprog fun u hu => ?_) fun y r hy =>
      hy.same Same.refl (fun _ _ _ _ => waits_spawn hnonce) fun n hn => closed_spawn hn
    obtain ⟨i, hi, rfl⟩ := List.mem_iff_getElem.1 hu
    have := h.id i _ (List.getElem?_eq_getElem hi)
    rw [hid, this]
    exact ⟨by omega, by omega⟩
  · intro i t ht
    rcases getElem?_concat_eq ht with ht | ⟨hi, rfl⟩
    · exact h.id i t ht
    · rw [hi]
      exact hid
  · have hlt := h.holder i hi
    simp only [Pool.spawn, List.length_append]
    omega

theorem handler_lock (c : Call) (e : Answers) (d : Directory) (x : Party) {i : ℕ}
    (h : (handler c e d x).1.lock = some i) : d.lock = some i ∨ i = x.id := by
  cases c with
  | lock =>
    simp only [handler] at h
    split_ifs at h
    · exact Or.inr (Option.some.inj h).symm
    · exact Or.inl h
  | unlock =>
    simp only [handler] at h
    split_ifs at h
    exact Or.inl h
  | wait =>
    simp only [handler] at h
    split at h <;> exact Or.inl h
  | prepare | poll | absent | read | discard => exact Or.inl h
  | random | cleanupTemp | create | rename | remove =>
    simp only [handler] at h
    split_ifs at h <;> exact Or.inl h

theorem handler_id (c : Call) (e : Answers) (d : Directory) (x : Party) :
    (handler c e d x).2.1.id = x.id ∧ (handler c e d x).2.1.requester = x.requester := by
  cases c with
  | read f =>
    show (x.reads f (d.read e.ok f)).id = _ ∧ (x.reads f (d.read e.ok f)).requester = _
    cases d.read e.ok f with
    | found n =>
      simp only [Party.reads]
      split_ifs <;> exact ⟨rfl, rfl⟩
    | missing | failed => exact ⟨rfl, rfl⟩
  | wait =>
    simp only [handler]
    cases e.wake <;> exact ⟨rfl, rfl⟩
  | prepare | poll | absent | unlock | discard => exact ⟨rfl, rfl⟩
  | lock | random | cleanupTemp | create | rename | remove =>
    simp only [handler]
    split_ifs <;> exact ⟨rfl, rfl⟩

/-- One operation of one party keeps everyone in place. -/
theorem Placed.advance (h : Placed j p) (i : ℕ) (e : Answers)
    (hsafe : Waits j p → replaces p (.advance i e) = false) : Placed j (p.advance handler i e) := by
  rcases p.advance_cases handler i e with heq | ⟨x, c, k, hi, heq⟩
  · rw [heq]
    exact h
  have hlt : i < p.threads.length := (List.getElem?_eq_some_iff.1 hi).1
  have hxid : x.id = i := h.id i _ hi
  -- the other threads are the same, and the caller stays closed if it is
  have hother : ∀ {l u}, l ≠ i → (p.advance handler i e).threads[l]? = some u →
      p.threads[l]? = some u := by
    intro l u hl hu
    rw [heq, List.getElem?_set_ne (Ne.symm hl)] at hu
    exact hu
  have hclosed : ∀ n, Closed p n → Closed (p.advance handler i e) n := by
    rintro n ⟨u, hu, hn⟩
    obtain ⟨l, hl, rfl⟩ := List.mem_iff_getElem.1 hu
    rw [heq]
    by_cases hli : l = i
    · subst hli
      obtain ⟨q, hq, hf⟩ := h.place.thread l _ hi
      obtain ⟨q', hq', -⟩ := hf (handler c e p.shared x).2.2
      have hx : p.threads[l] = ⟨x, .call c k⟩ :=
        Option.some.inj ((List.getElem?_eq_getElem hl).symm.trans hi)
      rw [hx] at hn
      refine ⟨_, List.mem_of_getElem? (List.getElem?_set_self hlt), hq.closed hq' hn⟩
    · refine ⟨_, List.mem_of_getElem? (i := l) ?_, hn⟩
      rw [List.getElem?_set_ne (Ne.symm hli), List.getElem?_eq_getElem hl]
  have hwaits : ∀ l, l ≠ i → l = j → Waits j (p.advance handler i e) → Waits j p := by
    rintro l hl rfl ⟨u, hu, hrest⟩
    exact ⟨u, hother hl hu, hrest⟩
  refine ⟨?_, ?_, fun l hl => ?_⟩
  · refine Pool.Inv.advance h.place handler i e (fun hidle y r hy => ?_) ?_
    · rw [hidle]
      exact hy
    · intro y c' k' q q' hi' hq hq'
      obtain ⟨rfl, hprog⟩ := Thread.mk.inj (Option.some.inj (hi'.symm.trans hi))
      obtain ⟨rfl, -⟩ := Prog.call.inj hprog
      have hwaiting : y.id = j → y.requester = true → ∀ n, y.nonce = some n → Waits j p := by
        intro hj hreq n hn
        refine ⟨_, (hxid.symm.trans hj) ▸ hi, hreq, ?_, rfl⟩
        rw [hn]
        rfl
      refine ⟨trivial, hq.caller hq' hwaiting hclosed, fun z r hyz hzy hz => ⟨?_, ?_, ?_⟩⟩
      · refine hq.others hq' hz hzy (fun hj => hwaits j (by rw [← hj, ← hxid]; exact hzy) rfl) hclosed
          (fun n hn => hclosed n ⟨_, List.mem_of_getElem? hi, hn⟩) ?_
        · rintro why rfl hwhy hw
          have hkept := hsafe hw
          rw [replaces, hi] at hkept
          exact hwhy (by simpa using hkept)
      · rw [(handler_id c' e p.shared y).1]
        exact hyz
      · rw [(handler_id c' e p.shared y).1]
        exact hzy
  · intro l u hu
    by_cases hli : l = i
    · subst hli
      rw [heq, List.getElem?_set_self hlt] at hu
      obtain rfl := Option.some.inj hu
      exact (handler_id c e p.shared x).1.trans hxid
    · exact h.id l u (hother hli hu)
  · rw [heq] at hl ⊢
    simp only [List.length_set]
    rcases handler_lock c e p.shared x hl with hl | rfl
    · exact h.holder l hl
    · rw [hxid]
      exact hlt

theorem placed_run {ms : List Move} (h : Undisturbed j ms) : Placed j (run ms) := by
  induction ms using List.reverseRecOn with
  | nil => exact placed_nil
  | append_singleton ms m ih =>
    have hms : Placed j (run ms) := by
      refine ih fun before m' after heq => h before m' (after ++ [m]) ?_
      rw [heq, List.append_assoc, List.cons_append]
    have hlock : (run ms).shared.lock ≠ some (run ms).threads.length :=
      fun heq => lt_irrefl _ (hms.holder _ heq)
    rw [run_concat]
    cases m with
    | endpoint configured wakes =>
      exact hms.spawn (q := .outside) rfl rfl ⟨rfl, hlock, rfl⟩ (conforms_endpoint configured wakes)
    | requestStop polls =>
      exact hms.spawn (q := .idle) rfl rfl ⟨rfl, hlock, rfl⟩ (conforms_requestStop polls)
    | advance i e => exact hms.advance i e (h ms _ [] rfl)

/-- **A stop request reports success only for a clean stop, unless `New` removes the record while
    it waits.**  If `requestStop` returns `nil`, the endpoint whose nonce it read was ended by
    `Close`. -/
theorem stopped_was_closed (ms : List Move) (j : ℕ) (t : Thread calls Party Outcome)
    (hwait : Undisturbed j ms) (ht : (run ms).threads[j]? = some t)
    (hstopped : t.prog.result = some .stopped) :
    ∃ nonce, t.loc.requester = true ∧ t.loc.nonce = some nonce ∧
      ∃ u ∈ (run ms).threads, u.loc.requester = false ∧ u.loc.nonce = some nonce ∧
        u.loc.ended = some .close := by
  have hplaced := placed_run hwait
  obtain ⟨q, hq, hf⟩ := hplaced.place.thread j t ht
  rw [eq_ret_of_result hstopped] at hf
  obtain ⟨nonce, rfl⟩ := hf rfl
  obtain ⟨hreq, -, hnonce, hclosed⟩ := hq
  exact ⟨nonce, hreq, hnonce, hclosed (hplaced.id j t ht)⟩

/-! ## Two runs -/

def steps (i n : ℕ) : List Move := List.replicate n (.advance i { random := [97] })

/-- An endpoint publishes its record, and a requester reads it and publishes its request. -/
def requested : List Move :=
  .endpoint 0 1 :: steps 0 10 ++ .requestStop 1 :: steps 1 8

/-- The endpoint is closed, and the requester polls. -/
def closedMoves : List Move :=
  requested ++ .advance 0 { wake := .ended .close } :: steps 0 5 ++ steps 1 2

/-- The endpoint is abandoned, the next one removes what it left, and the requester polls. -/
def abandonedMoves : List Move :=
  requested ++ .advance 0 { wake := .ended .abandon } :: steps 0 1 ++ .endpoint 0 0 :: steps 2 6 ++
    steps 1 2

theorem undisturbed_of_all {j : ℕ} {ms : List Move}
    (h : (List.range ms.length).all (fun k => !(ms[k]?.any (replaces (run (ms.take k))))) = true) :
    Undisturbed j ms := by
  rintro before m after rfl -
  have := List.all_eq_true.1 h before.length (by simp)
  simpa using this

theorem closedMoves_stopped :
    ∃ t nonce, (run closedMoves).threads[1]? = some t ∧ t.prog.result = some .stopped ∧
      t.loc.nonce = some nonce ∧ ∃ u ∈ (run closedMoves).threads, u.loc.nonce = some nonce ∧
        u.loc.ended = some .close := by
  have hresult : (run closedMoves).threads[1]?.any (fun t => t.prog.result = some .stopped) = true := by
    decide
  obtain ⟨t, ht, hstopped⟩ := (Option.any_eq_true _ _).1 hresult
  obtain ⟨nonce, -, hnonce, u, hu, -, hrest⟩ := stopped_was_closed closedMoves 1 t
    (undisturbed_of_all (by decide)) ht (of_decide_eq_true hstopped)
  exact ⟨t, nonce, ht, of_decide_eq_true hstopped, hnonce, u, hu, hrest⟩

/-- The requester reports success although the only endpoint that drew the nonce was abandoned. -/
theorem abandonedMoves_stopped :
    ¬ ∀ (ms : List Move) (j : ℕ) (t : Thread calls Party Outcome) (nonce : Bytes),
      (run ms).threads[j]? = some t → t.loc.requester = true → t.loc.nonce = some nonce →
      t.prog.result = some .stopped →
      ∃ u ∈ (run ms).threads, u.loc.requester = false ∧ u.loc.nonce = some nonce ∧
        u.loc.ended = some .close := by
  intro h
  have hresult : (run abandonedMoves).threads[1]?.any (fun t => t.loc.requester &&
      t.loc.nonce = some [97] && t.prog.result = some .stopped) = true := by decide
  have hnone : (run abandonedMoves).threads.all (fun u => u.loc.ended ≠ some .close) = true := by
    decide
  obtain ⟨t, ht, hstopped⟩ := (Option.any_eq_true _ _).1 hresult
  simp only [Bool.and_eq_true, decide_eq_true_eq] at hstopped
  obtain ⟨u, hu, -, -, hclosed⟩ := h abandonedMoves 1 t [97] ht hstopped.1.1 hstopped.1.2 hstopped.2
  exact of_decide_eq_true (List.all_eq_true.1 hnone u hu) hclosed

end Lifecycle

end HomeLab
