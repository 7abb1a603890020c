import Mathlib.Algebra.GroupWithZero.Nat
import Mathlib.Logic.Function.Basic
import Mathlib.Logic.Relation
import Mathlib.Tactic.Common
import TapeMachine.Store.Lock

/-!
# Histories of locks

What has happened to the locks is a history of grants, of grants given back and of time that passed.
A grant is current (`LockEvent.Current`) from the moment it is made until it is given back or its
term is over. That is said about the history alone.

A kind of locks (`Locker`) is lawful if it keeps track of the holder of each key. What lawful locks
promise after every history is `Locker.Guards`: a lock is granted exactly when no grant for its key
is current, no two current grants have the same key, and a grant given back late or twice changes
nothing (`Locker.Lawful.guards`).
-/

namespace TapeMachine

/-! ## Histories -/

/-- What happens to locks: one is granted, for so many seconds or without end, one is given back, or
time passes. -/
inductive LockEvent where
  | granted (g : Grant) (term : Option ℕ)
  | returned (g : Grant)
  | elapsed (seconds : ℕ)
deriving DecidableEq

namespace LockEvent

/-- The time an event takes. -/
def seconds : LockEvent → ℕ
  | .elapsed n => n
  | _ => 0

/-- The time a history takes. -/
def duration (es : List LockEvent) : ℕ := (es.map seconds).sum

/-- A grant lasts after a history, latest event first, if it was not given back since it was made
and its term is not over; `left` is what is left of the term. -/
def Lasts (es : List LockEvent) (g : Grant) (left : Option ℕ) : Prop :=
  ∃ after term before, es = after ++ .granted g term :: before ∧ .returned g ∉ after ∧
    (∀ n ∈ term, duration after < n) ∧ left = term.map (· - duration after)

/-- A grant that lasts. -/
def Current (es : List LockEvent) (g : Grant) : Prop := ∃ left, Lasts es g left

/-- What is left of a term after some time, if it is not over. -/
def age (seconds : ℕ) : Option ℕ → Option (Option ℕ)
  | none => some none
  | some n => if n ≤ seconds then none else some (some (n - seconds))

variable {es : List LockEvent} {g h : Grant} {term left : Option ℕ}

/-- After a lock was granted, the new grant lasts, and so does every grant that lasted. -/
lemma lasts_granted (hterm : ∀ n ∈ term, 0 < n) :
    Lasts (.granted g term :: es) h left ↔ (h = g ∧ left = term) ∨ Lasts es h left := by
  constructor
  · rintro ⟨after, term', before, heq, hreturned, hleft, rfl⟩
    rcases List.cons_eq_append_iff.mp heq with ⟨rfl, hcons⟩ | ⟨after', rfl, rfl⟩
    · cases hcons
      exact .inl ⟨rfl, by cases term <;> rfl⟩
    · have hduration : duration (.granted g term :: after') = duration after' := Nat.zero_add _
      rw [hduration] at hleft ⊢
      exact .inr ⟨after', term', before, rfl, fun hmem => hreturned (.tail _ hmem), hleft, rfl⟩
  · rintro (⟨rfl, rfl⟩ | ⟨after, term', before, rfl, hreturned, hleft, rfl⟩)
    · exact ⟨[], left, es, rfl, List.not_mem_nil, hterm, by cases left <;> rfl⟩
    · have hduration : duration (.granted g term :: after) = duration after := Nat.zero_add _
      refine ⟨.granted g term :: after, term', before, rfl, by simpa using hreturned, ?_, ?_⟩
      · rwa [hduration]
      · rw [hduration]

/-- A grant that was given back does not last; every other one does that lasted. -/
lemma lasts_returned : Lasts (.returned g :: es) h left ↔ h ≠ g ∧ Lasts es h left := by
  have hduration : ∀ after, duration (.returned g :: after) = duration after :=
    fun after => Nat.zero_add _
  constructor
  · rintro ⟨after, term, before, heq, hreturned, hleft, rfl⟩
    rcases List.cons_eq_append_iff.mp heq with ⟨-, hcons⟩ | ⟨after', rfl, rfl⟩
    · cases hcons
    · rw [hduration] at hleft ⊢
      refine ⟨?_, after', term, before, rfl, fun hmem => hreturned (.tail _ hmem), hleft, rfl⟩
      rintro rfl
      exact hreturned (.head _)
  · rintro ⟨hne, after, term, before, rfl, hreturned, hleft, rfl⟩
    refine ⟨.returned g :: after, term, before, rfl, ?_, by rwa [hduration], by rw [hduration]⟩
    simpa [hne] using hreturned

/-- After some time those grants last that lasted and whose term was not over in it. -/
lemma lasts_elapsed {n : ℕ} :
    Lasts (.elapsed n :: es) h left ↔ ∃ l, Lasts es h l ∧ age n l = some left := by
  have hduration : ∀ after, duration (.elapsed n :: after) = n + duration after := fun _ => rfl
  constructor
  · rintro ⟨after, term, before, heq, hreturned, hleft, rfl⟩
    rcases List.cons_eq_append_iff.mp heq with ⟨-, hcons⟩ | ⟨after', rfl, rfl⟩
    · cases hcons
    · rw [hduration] at hleft ⊢
      refine ⟨term.map (· - duration after'), ⟨after', term, before, rfl,
        fun hmem => hreturned (.tail _ hmem), ?_, rfl⟩, ?_⟩
      · intro m hm
        have := hleft m hm
        omega
      · cases term with
        | none => rfl
        | some m =>
          have hm := hleft m rfl
          simp only [Option.map_some, age]
          rw [if_neg (by omega), Nat.sub_sub, Nat.add_comm]
  · rintro ⟨l, ⟨after, term, before, rfl, hreturned, hleft, rfl⟩, hage⟩
    refine ⟨.elapsed n :: after, term, before, rfl, by simpa using hreturned, ?_, ?_⟩
    · intro m hm
      cases hm
      simp only [Option.map_some, age] at hage
      split at hage
      · cases hage
      · rw [hduration]
        omega
    · rw [hduration]
      cases term with
      | none =>
        cases hage
        rfl
      | some m =>
        simp only [Option.map_some, age] at hage
        split at hage
        · cases hage
        · cases hage
          rw [Nat.sub_sub, Nat.add_comm]
          rfl

end LockEvent

/-! ## Holders

Who holds the lock on each key is a map that changes with the history. -/

open LockEvent

/-- Who holds the lock on each key, and for how many seconds more. -/
abbrev Holders := Bytes → Option (Grant × Option ℕ)

namespace Holders

variable {o : Holders} {es : List LockEvent} {g h : Grant} {term left : Option ℕ} {key : Bytes}

/-- A grant has been made. -/
def grant (o : Holders) (g : Grant) (term : Option ℕ) : Holders :=
  Function.update o g.key (some (g, term))

/-- A grant has been given back. -/
def giveBack (o : Holders) (g : Grant) : Holders := fun key => (o key).filter (·.1 ≠ g)

/-- Some time has passed. -/
def pass (o : Holders) (seconds : ℕ) : Holders :=
  fun key => (o key).bind fun x => (age seconds x.2).map (x.1, ·)

/-- The holder of each key is the one grant for it that lasts. -/
def Tell (o : Holders) (es : List LockEvent) : Prop :=
  ∀ key g left, o key = some (g, left) ↔ g.key = key ∧ Lasts es g left

/-- A key whose lock is free has no current grant. -/
lemma Tell.eq_none_iff (ho : o.Tell es) : o key = none ↔ ∀ g, g.key = key → ¬ Current es g := by
  rw [Option.eq_none_iff_forall_ne_some]
  constructor
  · rintro hnone g hg ⟨left, hlasts⟩
    exact hnone (g, left) ((ho key g left).mpr ⟨hg, hlasts⟩)
  · rintro hfree ⟨g, left⟩ hsome
    obtain ⟨hg, hlasts⟩ := (ho key g left).mp hsome
    exact hfree g hg ⟨left, hlasts⟩

/-- Two current grants for one key are the same. -/
lemma Tell.eq_of_current (ho : o.Tell es) (hg : Current es g) (hh : Current es h)
    (hkey : g.key = h.key) : g = h := by
  obtain ⟨left, hlasts⟩ := hg
  obtain ⟨left', hlasts'⟩ := hh
  have hsome := (ho h.key g left).mpr ⟨hkey, hlasts⟩
  have hsome' := (ho h.key h left').mpr ⟨rfl, hlasts'⟩
  rw [hsome] at hsome'
  cases hsome'
  rfl

/-- Before the first event no key has a holder. -/
lemma tell_nil : Tell (fun _ => none) [] := by
  intro key g left
  constructor
  · intro h
    cases h
  · rintro ⟨-, after, term, before, heq, -⟩
    simp at heq

/-- A grant for a free key makes its owner the holder of the key. -/
lemma Tell.grant (ho : o.Tell es) (hfree : o g.key = none) (hterm : ∀ n ∈ term, 0 < n) :
    (o.grant g term).Tell (.granted g term :: es) := by
  intro key h left
  rw [lasts_granted hterm, Holders.grant, Function.update_apply]
  by_cases hkey : key = g.key
  · subst hkey
    rw [if_pos rfl]
    constructor
    · intro hsome
      cases hsome
      exact ⟨rfl, .inl ⟨rfl, rfl⟩⟩
    · rintro ⟨hk, ⟨rfl, rfl⟩ | hlasts⟩
      · rfl
      · exact absurd ⟨left, hlasts⟩ (ho.eq_none_iff.mp hfree h hk)
  · rw [if_neg hkey, ho]
    constructor
    · rintro ⟨hk, hlasts⟩
      exact ⟨hk, .inr hlasts⟩
    · rintro ⟨hk, ⟨rfl, -⟩ | hlasts⟩
      · exact absurd hk.symm hkey
      · exact ⟨hk, hlasts⟩

/-- A grant that is given back holds no key any more. -/
lemma Tell.giveBack (ho : o.Tell es) (g : Grant) : (o.giveBack g).Tell (.returned g :: es) := by
  intro key h left
  rw [lasts_returned, Holders.giveBack, Option.filter_eq_some_iff, ho]
  simp only [decide_eq_true_eq]
  tauto

/-- A holder whose term is over holds no key any more. -/
lemma Tell.pass (ho : o.Tell es) (n : ℕ) : (o.pass n).Tell (.elapsed n :: es) := by
  intro key h left
  rw [lasts_elapsed, Holders.pass, Option.bind_eq_some_iff]
  constructor
  · rintro ⟨⟨g, l⟩, hsome, hage⟩
    obtain ⟨left', hleft, hpair⟩ := Option.map_eq_some_iff.mp hage
    cases hpair
    obtain ⟨hk, hlasts⟩ := (ho key g l).mp hsome
    exact ⟨hk, l, hlasts, hleft⟩
  · rintro ⟨hk, l, hlasts, hage⟩
    refine ⟨(h, l), (ho key h l).mpr ⟨hk, hlasts⟩, ?_⟩
    rw [hage]
    rfl

/-- A grant that is not current holds nothing that could be given back. -/
lemma Tell.giveBack_of_not_current (ho : o.Tell es) (hg : ¬ Current es g) : o.giveBack g = o := by
  funext key
  rw [Holders.giveBack]
  cases hkey : o key with
  | none => rfl
  | some x =>
    obtain ⟨-, hlasts⟩ := (ho key x.1 x.2).mp hkey
    have hne : x.1 ≠ g := fun h => hg ⟨x.2, h ▸ hlasts⟩
    rw [Option.filter_some, if_pos (decide_eq_true hne)]

/-- A current grant that is given back leaves its key free. -/
lemma Tell.giveBack_key (ho : o.Tell es) (hg : Current es g) : o.giveBack g g.key = none := by
  obtain ⟨left, hlasts⟩ := hg
  have hsome := (ho g.key g left).mpr ⟨rfl, hlasts⟩
  rw [Holders.giveBack, hsome]
  simp

/-- Giving back a grant leaves the holders of other keys alone. -/
lemma Tell.giveBack_of_ne (ho : o.Tell es) (hkey : key ≠ g.key) : o.giveBack g key = o key := by
  rw [Holders.giveBack]
  cases hsome : o key with
  | none => rfl
  | some x =>
    obtain ⟨hx, -⟩ := (ho key x.1 x.2).mp hsome
    have hne : x.1 ≠ g := fun h => hkey (hx.symm.trans (congrArg Grant.key h))
    rw [Option.filter_some, if_pos (decide_eq_true hne)]

end Holders

/-! ## Lockers -/

/-- A kind of locks. A caller asks for the lock on a key with a token and for so many seconds. -/
structure Locker (σ : Type) where
  lock : σ → Caller → Bytes → ℕ → ℕ → Option (Except LockError (σ × Grant))
  unlock : σ → Caller → Grant → Except Redis.Error σ
  pass : σ → ℕ → σ
  /-- The term of a lock that is asked for so many seconds. -/
  term : ℕ → Option ℕ
  /-- Whose requests are looked at. -/
  Serves : Caller → Prop
  /-- What stands under a key. -/
  under : σ → Bytes → List Redis.Slot

attribute [ext] Grant

/-- What stands for a grant. -/
def Grant.slot (g : Grant) (left : Option ℕ) : Redis.Slot :=
  ⟨.text (Redis.tokenText g.token), left⟩

/-- The texts of different tokens are different. -/
lemma Redis.tokenText_inj {a b : ℕ} : tokenText a = tokenText b ↔ a = b := by
  refine ⟨fun h => ?_, congrArg _⟩
  have hdigits : Nat.toDigits 10 a = Nat.toDigits 10 b := by
    have hchars := congrArg String.toList h
    simpa [tokenText, Nat.repr] using hchars
  calc
    a = Nat.ofDigitChars 10 (Nat.toDigits 10 a) 0 := Nat.ofDigitChars_ten_toDigits.symm
    _ = Nat.ofDigitChars 10 (Nat.toDigits 10 b) 0 := by rw [hdigits]
    _ = b := Nat.ofDigitChars_ten_toDigits

/-- Grants stand apart by their tokens. -/
lemma Grant.slot_inj {g h : Grant} {left left' : Option ℕ} :
    g.slot left = h.slot left' ↔ g.token = h.token ∧ left = left' := by
  simp [Grant.slot, Redis.tokenText_inj]

namespace Locker

variable {σ : Type} {K : Locker σ} {s s' : σ} {es es' : List LockEvent} {o : Holders}
  {caller : Caller} {key : Bytes} {token life : ℕ} {g : Grant}

/-- No grant of a history has the token. -/
def Fresh (es : List LockEvent) (token : ℕ) : Prop :=
  ∀ g term, .granted g term ∈ es → g.token ≠ token

/-- One step of any client, or of time. Only locks that are granted and grants that are given back
are steps: a request that fails has no new state. -/
inductive Step (K : Locker σ) : σ × List LockEvent → σ × List LockEvent → Prop where
  | lock {s s' : σ} {es : List LockEvent} {caller : Caller} {key : Bytes} {token life : ℕ}
      {g : Grant} (fresh : Fresh es token)
      (granted : K.lock s caller key token life = some (.ok (s', g))) :
      Step K (s, es) (s', .granted g (K.term life) :: es)
  | unlock {s s' : σ} {es : List LockEvent} {caller : Caller} {g : Grant} {term : Option ℕ}
      (made : .granted g term ∈ es) (returned : K.unlock s caller g = .ok s') :
      Step K (s, es) (s', .returned g :: es)
  | pass (s : σ) (es : List LockEvent) (n : ℕ) : Step K (s, es) (K.pass s n, .elapsed n :: es)

/-- What is reached from a state in which no lock was granted yet. -/
def Reaches (K : Locker σ) (start s : σ) (es : List LockEvent) : Prop :=
  Relation.ReflTransGen K.Step (start, []) (s, es)

/-- The holders are what stands under the keys. -/
def Holds (K : Locker σ) (s : σ) (o : Holders) : Prop :=
  ∀ key, K.under s key = (o key).toList.map fun x => x.1.slot x.2

/-- What a kind of locks has to do with the holders. `Ready` is what else is true of a state and its
history. -/
structure Lawful (K : Locker σ) (Ready : σ → List LockEvent → Prop) : Prop where
  term_pos : ∀ life, ∀ n ∈ K.term life, 0 < n
  lock_iff : ∀ {s es o}, Ready s es → K.Holds s o → ∀ caller key token life,
    (∃ s' g, K.lock s caller key token life = some (.ok (s', g))) ↔ K.Serves caller ∧ o key = none
  lock : ∀ {s es o}, Ready s es → K.Holds s o → ∀ {caller key token life s' g}, Fresh es token →
    K.lock s caller key token life = some (.ok (s', g)) →
    g.key = key ∧ Fresh es g.token ∧ K.Holds s' (o.grant g (K.term life)) ∧
      Ready s' (.granted g (K.term life) :: es)
  unlock_iff : ∀ {s es o}, Ready s es → K.Holds s o → ∀ caller g,
    (∃ s', K.unlock s caller g = .ok s') ↔ K.Serves caller
  unlock : ∀ {s es o}, Ready s es → K.Holds s o → o.Tell es → ∀ {caller g term s'},
    .granted g term ∈ es → K.unlock s caller g = .ok s' →
    K.Holds s' (o.giveBack g) ∧ (o.giveBack g = o → s' = s) ∧ Ready s' (.returned g :: es)
  pass : ∀ {s es o}, Ready s es → K.Holds s o → o.Tell es → ∀ n,
    K.Holds (K.pass s n) (o.pass n) ∧ Ready (K.pass s n) (.elapsed n :: es)

/-- Lawful locks keep exactly the grants that last. -/
theorem Lawful.exists_holders {Ready : σ → List LockEvent → Prop} (hK : K.Lawful Ready) {start : σ}
    (hready : Ready start []) (hfree : ∀ key, K.under start key = [])
    (hs : K.Reaches start s es) : ∃ o : Holders, o.Tell es ∧ K.Holds s o ∧ Ready s es := by
  -- The induction is on the steps; each kind of step changes the holders in its own way.
  suffices h : ∀ x, Relation.ReflTransGen K.Step (start, []) x →
      ∃ o : Holders, o.Tell x.2 ∧ K.Holds x.1 o ∧ Ready x.1 x.2 from h _ hs
  intro x hx
  induction hx with
  | refl => exact ⟨_, Holders.tell_nil, hfree, hready⟩
  | tail _ step ih =>
    obtain ⟨o, htell, hholds, hready⟩ := ih
    cases step with
    | @lock s s' es caller key token life g hfresh hgranted =>
      have hnone := ((hK.lock_iff hready hholds caller key token life).mp ⟨s', g, hgranted⟩).2
      obtain ⟨rfl, -, hholds', hready'⟩ := hK.lock hready hholds hfresh hgranted
      exact ⟨_, htell.grant hnone (hK.term_pos life), hholds', hready'⟩
    | unlock hmade hreturned =>
      obtain ⟨hholds', -, hready'⟩ := hK.unlock hready hholds htell hmade hreturned
      exact ⟨_, htell.giveBack _, hholds', hready'⟩
    | pass s es n =>
      obtain ⟨hholds', hready'⟩ := hK.pass hready hholds htell n
      exact ⟨_, htell.pass n, hholds', hready'⟩

/-- What locks promise after a history. -/
structure Guards (K : Locker σ) (s : σ) (es : List LockEvent) : Prop where
  /-- A lock is granted exactly when no grant for its key is current. -/
  granted_iff : ∀ caller key token life,
    (∃ s' g, K.lock s caller key token life = some (.ok (s', g))) ↔
      K.Serves caller ∧ ∀ g, g.key = key → ¬ Current es g
  /-- It is a new grant, and no other key is affected. -/
  grant : ∀ {caller key token life s' g}, Fresh es token →
    K.lock s caller key token life = some (.ok (s', g)) →
    g.key = key ∧ Fresh es g.token ∧ ∀ other ≠ key, K.under s' other = K.under s other
  /-- At most one grant for a key is current. -/
  exclusive : ∀ {g h}, Current es g → Current es h → g.key = h.key → g = h
  /-- Every grant can be given back, at any time and any number of times. -/
  returned_iff : ∀ {g term}, .granted g term ∈ es → ∀ caller,
    (∃ s', K.unlock s caller g = .ok s') ↔ K.Serves caller
  /-- A grant that is not current is given back in vain. -/
  stale : ∀ {caller g term s'}, .granted g term ∈ es → ¬ Current es g →
    K.unlock s caller g = .ok s' → s' = s
  /-- A current grant that is given back leaves its key free and no other key affected. -/
  own : ∀ {caller g term s'}, .granted g term ∈ es → Current es g →
    K.unlock s caller g = .ok s' →
    K.under s' g.key = [] ∧ ∀ other ≠ g.key, K.under s' other = K.under s other

/-- Nothing stands under the keys that no one holds. -/
lemma Holds.eq_none_iff (h : K.Holds s o) : o key = none ↔ K.under s key = [] := by
  rw [h key, List.map_eq_nil_iff, Option.toList_eq_nil_iff]

/-- What stands under a key depends on its holder only. -/
lemma Holds.under_eq {o' : Holders} (h : K.Holds s o) (h' : K.Holds s' o') (hkey : o' key = o key) :
    K.under s' key = K.under s key := by
  rw [h key, h' key, hkey]

/-- Lawful locks keep what locks promise. -/
theorem Lawful.guards {Ready : σ → List LockEvent → Prop} (hK : K.Lawful Ready) {start : σ}
    (hready : Ready start []) (hfree : ∀ key, K.under start key = [])
    (hs : K.Reaches start s es) : K.Guards s es := by
  obtain ⟨o, htell, hholds, hready⟩ := hK.exists_holders hready hfree hs
  constructor
  case granted_iff =>
    intro caller key token life
    rw [hK.lock_iff hready hholds, htell.eq_none_iff]
  case grant =>
    intro caller key token life s' g hfresh hgranted
    obtain ⟨rfl, hnew, hholds', -⟩ := hK.lock hready hholds hfresh hgranted
    refine ⟨rfl, hnew, fun other hother => hholds.under_eq hholds' ?_⟩
    exact Function.update_of_ne hother _ _
  case exclusive =>
    intro g h hg hh hkey
    exact htell.eq_of_current hg hh hkey
  case returned_iff =>
    intro g term hmade caller
    exact hK.unlock_iff hready hholds caller g
  case stale =>
    intro caller g term s' hmade hg hreturned
    obtain ⟨-, hsame, -⟩ := hK.unlock hready hholds htell hmade hreturned
    exact hsame (htell.giveBack_of_not_current hg)
  case own =>
    intro caller g term s' hmade hg hreturned
    obtain ⟨hholds', -, -⟩ := hK.unlock hready hholds htell hmade hreturned
    constructor
    · rw [hholds' g.key, htell.giveBack_key hg]
      rfl
    · intro other hother
      exact hholds.under_eq hholds' (htell.giveBack_of_ne hother)

end Locker

end TapeMachine
