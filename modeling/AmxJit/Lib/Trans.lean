import Mathlib

/-!
# Runs of a transition relation

* `Path R n s t`    a run of exactly `n` steps;
* `Until R P Q s`   every run from `s` reaches `Q`, through states with `P`: from each state on the
                    way there is a step, and all steps lead on;
* `Must R Q s`      the same without `P`;
* `Until.lift`      the same for a relation that takes the same steps;
* `Until.run`       such a run exists;
* `Until.invariant` being on the way is an invariant, if the states in `Q` are on their way again;
* `Until.along`     so it is for the runs of a smaller relation;
* `Until.ends`      a run to a terminal state ends in `Q`, if `Q` has terminal states alone;
* `Unless R B Q s`  every run from `s` reaches `Q`, or takes a step with `B` on the way;
* `Ends R T Q s`    every run from `s` to a state in `T` ends in `Q`; nothing is said of the others;
* `Before T R`      the steps from states without `T`: the runs up to the first state in `T`.
-/

namespace Trans

variable {σ : Type} {R : σ → σ → Prop}

inductive Path (R : σ → σ → Prop) : Nat → σ → σ → Prop where
  | nil (s : σ) : Path R 0 s s
  | cons {n : Nat} {s t u : σ} : R s t → Path R n t u → Path R (n + 1) s u

theorem Path.reach {n : Nat} {s t : σ} (h : Path R n s t) : Relation.ReflTransGen R s t := by
  induction h with
  | nil s => exact .refl
  | cons h _ ih => exact .head h ih

theorem Path.of_reach {s t : σ} (h : Relation.ReflTransGen R s t) : ∃ n, Path R n s t := by
  induction h using Relation.ReflTransGen.head_induction_on with
  | refl => exact ⟨0, .nil t⟩
  | head h _ ih =>
    obtain ⟨n, hn⟩ := ih
    exact ⟨n + 1, .cons h hn⟩

def Terminal (R : σ → σ → Prop) (t : σ) : Prop := ∀ u, ¬ R t u

inductive Until (R : σ → σ → Prop) (P Q : σ → Prop) : σ → Prop where
  | now {s : σ} : Q s → Until R P Q s
  | next {s : σ} : P s → (∃ t, R s t) → (∀ t, R s t → Until R P Q t) → Until R P Q s

abbrev Must (R : σ → σ → Prop) (Q : σ → Prop) (s : σ) : Prop := Until R (fun _ => True) Q s

section
variable {P P' Q Q' : σ → Prop} {s t : σ}

theorem Until.mono (h : Until R P Q s) (hP : ∀ t, P t → P' t) (hQ : ∀ t, Q t → Q' t) :
    Until R P' Q' s := by
  induction h with
  | now h => exact .now (hQ _ h)
  | next hp he _ ih => exact .next (hP _ hp) he ih

theorem Until.must (h : Until R P Q s) : Must R Q s := h.mono (fun _ _ => trivial) fun _ h => h

theorem Until.imp (h : Until R P Q s) (hQ : ∀ t, Q t → Q' t) : Until R P Q' s :=
  h.mono (fun _ => id) hQ

/-- composition: reach `Q`, and from there `Q'` -/
theorem Until.bind (h : Until R P Q s) (hQ : ∀ t, Q t → Until R P Q' t) : Until R P Q' s := by
  induction h with
  | now h => exact hQ _ h
  | next hp he _ ih => exact .next hp he ih

/-- a step without choice -/
theorem Until.det (hp : P s) (hR : ∀ u, R s u ↔ u = t) (h : Until R P Q t) : Until R P Q s := by
  refine .next hp ⟨t, (hR t).mpr rfl⟩ fun u hu => ?_
  rw [(hR u).mp hu]
  exact h

/-- Another relation takes the same steps, without choice. -/
theorem Until.lift {R' : σ → σ → Prop} (h : Until R P Q s)
    (hR : ∀ a b, R a b → ∀ c, R' a c ↔ c = b) : Until R' P Q s := by
  induction h with
  | now h => exact .now h
  | next hp he _ ih =>
    obtain ⟨t, ht⟩ := he
    exact .det hp (hR _ _ ht) (ih t ht)

theorem Until.run (h : Until R P Q s) : ∃ t, Relation.ReflTransGen R s t ∧ Q t := by
  induction h with
  | now h => exact ⟨_, .refl, h⟩
  | next _ he _ ih =>
    obtain ⟨t, ht⟩ := he
    obtain ⟨u, hu, hQ⟩ := ih t ht
    exact ⟨u, .head ht hu, hQ⟩

theorem Until.or (h : Until R P Q s) : Q s ∨ P s := by
  cases h with
  | now h => exact .inl h
  | next hp _ _ => exact .inr hp

theorem Until.reached (h : Until R P Q s) :
    Until R P (fun t => Q t ∧ Relation.ReflTransGen R s t) s := by
  induction h with
  | now h => exact .now ⟨h, .refl⟩
  | next hp he _ ih =>
    refine .next hp he fun t ht => (ih t ht).imp fun u hu => ?_
    exact ⟨hu.1, .head ht hu.2⟩

/-- Two properties of a run: the first is met before the second. -/
theorem Until.meet (h : Until R P Q s) (h' : Until R P' Q' s) (hP : ∀ t, P t → ¬ Q' t) :
    ∃ t, Q t ∧ Until R P' Q' t := by
  induction h with
  | now h => exact ⟨_, h, h'⟩
  | next hp he _ ih =>
    cases h' with
    | now hq => exact absurd hq (hP _ hp)
    | next _ _ hn =>
      obtain ⟨t, ht⟩ := he
      exact ih t ht (hn t ht)

/-- Being on the way to `Q` is an invariant of runs with steps of `R` alone, if such a step from a
state in `Q` leads on the way again. -/
theorem Until.along {R' : σ → σ → Prop} (h : Until R P Q s) (hR : ∀ a b, R' a b → R a b)
    (hQ : ∀ a b, Q a → R' a b → Until R P Q b) (hr : Relation.ReflTransGen R' s t) :
    Until R P Q t := by
  induction hr with
  | refl => exact h
  | tail _ hab ih =>
    cases ih with
    | now hq => exact hQ _ _ hq hab
    | next _ _ hn => exact hn _ (hR _ _ hab)

theorem Until.invariant (h : Until R P Q s) (hQ : ∀ a b, Q a → R a b → Until R P Q b)
    (hr : Relation.ReflTransGen R s t) : Until R P Q t := h.along (fun _ _ => id) hQ hr

/-- Where a terminal state is all that `Q` allows, every run to a terminal state ends in `Q`. -/
theorem Until.ends (h : Until R P Q s) (hr : Relation.ReflTransGen R s t) (ht : Terminal R t)
    (hQ : ∀ q, Q q → Terminal R q) : Q t := by
  cases h.invariant (fun a b ha hab => absurd hab (hQ a ha b)) hr with
  | now hq => exact hq
  | next _ he _ =>
    obtain ⟨u, hu⟩ := he
    exact absurd hu (ht u)

end

/-! ## up to a step that nothing is promised of -/

inductive Unless (R B : σ → σ → Prop) (Q : σ → Prop) : σ → Prop where
  | now {s : σ} : Q s → Unless R B Q s
  | next {s : σ} : (∃ t, R s t) → (∀ t, R s t → ¬ B s t → Unless R B Q t) → Unless R B Q s

section
variable {B : σ → σ → Prop} {P Q Q' : σ → Prop} {s : σ}

theorem Until.unless (h : Until R P Q s) : Unless R B Q s := by
  induction h with
  | now h => exact .now h
  | next _ he _ ih => exact .next he fun t ht _ => ih t ht

theorem Unless.bind (h : Unless R B Q s) (hQ : ∀ t, Q t → Unless R B Q' t) : Unless R B Q' s := by
  induction h with
  | now h => exact hQ _ h
  | next he _ ih => exact .next he ih

theorem Unless.imp (h : Unless R B Q s) (hQ : ∀ t, Q t → Q' t) : Unless R B Q' s :=
  h.bind fun t ht => .now (hQ t ht)

end

/-! ## partial correctness -/

def Ends (R : σ → σ → Prop) (T Q : σ → Prop) (s : σ) : Prop :=
  ∀ t, Relation.ReflTransGen R s t → T t → Q t

section
variable {P Q T : σ → Prop} {s : σ}

theorem Ends.step (hs : ¬ T s) (h : ∀ t, R s t → Ends R T Q t) : Ends R T Q s := by
  intro t hr ht
  rcases Relation.ReflTransGen.cases_head hr with rfl | ⟨u, hu, hr⟩
  · exact absurd ht hs
  · exact h u hu t hr ht

theorem Ends.now (hs : Terminal R s) (h : T s → Q s) : Ends R T Q s := by
  intro t hr ht
  rcases Relation.ReflTransGen.cases_head hr with rfl | ⟨u, hu, -⟩
  · exact h ht
  · exact absurd hu (hs u)

/-- what is on the way to states that end in `Q` ends in `Q` itself -/
theorem Until.leads (h : Until R P (Ends R T Q) s) (hP : ∀ t, P t → ¬ T t) : Ends R T Q s := by
  induction h with
  | now h => exact h
  | next hp _ _ ih => exact .step (hP _ hp) ih

theorem Ends.imp {Q' : σ → Prop} (h : Ends R T Q s) (hQ : ∀ t, Q t → Q' t) : Ends R T Q' s :=
  fun t hr ht => hQ t (h t hr ht)

end

/-! ## up to the first state with a property -/

/-- the steps from states without `T` -/
def Before (T : σ → Prop) (R : σ → σ → Prop) (s t : σ) : Prop := ¬ T s ∧ R s t

theorem Before.reach {T : σ → Prop} {s t : σ} (h : Relation.ReflTransGen (Before T R) s t) :
    Relation.ReflTransGen R s t := by
  induction h with
  | refl => exact .refl
  | tail _ hab ih => exact ih.tail hab.2

section
variable {P Q T : σ → Prop} {s : σ}

theorem Until.before (h : Until R P Q s) (hP : ∀ t, P t → ¬ T t) : Until (Before T R) P Q s := by
  induction h with
  | now h => exact .now h
  | next hp he _ ih =>
    obtain ⟨t, ht⟩ := he
    exact .next hp ⟨t, hP _ hp, ht⟩ fun u hu => ih u hu.2

/-- the first state with `T` -/
theorem Ends.first (hs : T s) (h : Q s) : Ends (Before T R) T Q s :=
  .now (fun _ ht => ht.1 hs) fun _ => h

/-- what is on the way to a state from which the first state with `T` is in `Q` -/
theorem Until.firsts (h : Until R P (Ends (Before T R) T Q) s) (hP : ∀ t, P t → ¬ T t) :
    Ends (Before T R) T Q s :=
  (h.before hP).leads hP

end

end Trans
