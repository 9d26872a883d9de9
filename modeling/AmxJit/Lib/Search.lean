import Mathlib

/-!
# Binary search for the first element that fails a predicate

`lowerBound p xs first len` halves the range of `len` elements from `first` on, as
`std::lower_bound` does.  On a list in which the elements with `p` come first it finds the first
element without `p` (`lowerBound_find`).
-/

namespace Search

variable {α : Type}

def lowerBound (p : α → Bool) (xs : List α) (first len : Nat) : Nat :=
  if len = 0 then first
  else
    let half := len / 2
    if (xs[first + half]?).any p then lowerBound p xs (first + half + 1) (len - half - 1)
    else lowerBound p xs first half
termination_by len
decreasing_by all_goals omega

/-- the elements with `p` come first -/
def Partitioned (p : α → Bool) (xs : List α) : Prop :=
  xs.Pairwise fun a b => p b = true → p a = true

section
variable {p : α → Bool} {xs : List α}

theorem Partitioned.get (h : Partitioned p xs) {i j : Nat} {a b : α} (hij : i ≤ j)
    (ha : xs[i]? = some a) (hb : xs[j]? = some b) (hp : p b = true) : p a = true := by
  rcases Nat.lt_or_eq_of_le hij with hlt | rfl
  · obtain ⟨hi, rfl⟩ := List.getElem?_eq_some_iff.mp ha
    obtain ⟨hj, rfl⟩ := List.getElem?_eq_some_iff.mp hb
    exact List.pairwise_iff_getElem.mp h i j hi hj hlt hp
  · rw [ha] at hb
    cases hb
    exact hp

/-- Every element below `k` has `p`, no element from `k` on has it. -/
def Splits (p : α → Bool) (xs : List α) (k : Nat) : Prop :=
  (∀ i a, i < k → xs[i]? = some a → p a = true) ∧ ∀ i a, k ≤ i → xs[i]? = some a → p a = false

/-- the range stays around the splitting point -/
theorem lowerBound_splits (hpart : Partitioned p xs) (first len : Nat)
    (hlen : first + len ≤ xs.length)
    (hlo : ∀ i a, i < first → xs[i]? = some a → p a = true)
    (hhi : ∀ i a, first + len ≤ i → xs[i]? = some a → p a = false) :
    Splits p xs (lowerBound p xs first len) := by
  induction first, len using lowerBound.induct p xs with
  | case1 first =>
    unfold lowerBound
    rw [if_pos rfl]
    exact ⟨hlo, hhi⟩
  | case2 first len h0 half hany ih =>
    unfold lowerBound
    rw [if_neg h0, if_pos hany]
    obtain ⟨b, hb, hp⟩ : ∃ b, xs[first + half]? = some b ∧ p b = true := by
      cases hb : xs[first + half]? with
      | none => rw [hb] at hany; cases hany
      | some b => rw [hb] at hany; exact ⟨b, rfl, hany⟩
    refine ih (by omega) (fun i a hi ha => ?_) (fun i a hi ha => hhi i a (by omega) ha)
    exact hpart.get (by omega) ha hb hp
  | case3 first len h0 half hany ih =>
    unfold lowerBound
    rw [if_neg h0, if_neg hany]
    refine ih (by omega) hlo fun i a hi ha => ?_
    have hm : first + half < xs.length := by omega
    have hb : p xs[first + half] = false := by
      rw [List.getElem?_eq_getElem hm, Option.any_some] at hany
      exact Bool.eq_false_iff.mpr hany
    rw [← Bool.not_eq_true]
    intro hp
    rw [hpart.get hi (List.getElem?_eq_getElem hm) ha hp] at hb
    cases hb

theorem Splits.find {k : Nat} (h : Splits p xs k) : xs[k]? = xs.find? fun a => !p a := by
  induction xs generalizing k with
  | nil => rfl
  | cons x xs ih =>
    cases k with
    | zero =>
      have hx : p x = false := h.2 0 x (le_refl 0) rfl
      rw [List.find?_cons_of_pos (by rw [hx]; rfl)]
      rfl
    | succ k =>
      have hx : p x = true := h.1 0 x (by omega) rfl
      rw [List.find?_cons_of_neg (by rw [hx]; simp), List.getElem?_cons_succ]
      exact ih ⟨fun i a hi ha => h.1 (i + 1) a (by omega) (by rwa [List.getElem?_cons_succ]),
        fun i a hi ha => h.2 (i + 1) a (by omega) (by rwa [List.getElem?_cons_succ])⟩

/-- **The search finds the first element without `p`.** -/
theorem lowerBound_find (hpart : Partitioned p xs) :
    xs[lowerBound p xs 0 xs.length]? = xs.find? fun a => !p a := by
  refine (lowerBound_splits hpart 0 xs.length (by omega) (by omega) fun i a hi ha => ?_).find
  rw [List.getElem?_eq_none (by omega)] at ha
  cases ha

end

end Search
