import Mathlib.Data.List.Basic
import Mathlib.Logic.Basic

/-!
# Runs with a history

* `Run R s h t`     a run of steps `R s e t` with the events `e`; `h` is its history, oldest first;
* `Run.invariant`   what holds at first and is kept by every step holds along a run;
* `Since p q h`     an event in `p` has happened, and none in `q` after it;
* `Each I h`        every event `e` of the history meets `I x e`, where `x` is what was before it.
-/

namespace Trans

variable {σ ε : Type} {R : σ → ε → σ → Prop} {s t : σ}

inductive Run (R : σ → ε → σ → Prop) (s : σ) : List ε → σ → Prop where
  | nil : Run R s [] s
  | snoc {h : List ε} {t u : σ} {e : ε} : Run R s h t → R t e u → Run R s (h ++ [e]) u

theorem Run.invariant {I : List ε → σ → Prop} {h : List ε} (hr : Run R s h t) (h0 : I [] s)
    (hI : ∀ h t e u, I h t → R t e u → I (h ++ [e]) u) : I h t := by
  induction hr with
  | nil => exact h0
  | snoc _ hstep ih => exact hI _ _ _ _ ih hstep

theorem Run.append {h k : List ε} {u : σ} (hr : Run R s h t) (hk : Run R t k u) :
    Run R s (h ++ k) u := by
  induction hk with
  | nil =>
    rw [List.append_nil]
    exact hr
  | snoc _ hstep ih =>
    rw [← List.append_assoc]
    exact .snoc ih hstep

section
variable {p q : ε → Prop} {h x y : List ε} {e : ε}

def Since (p q : ε → Prop) (h : List ε) : Prop := ∃ x e y, h = x ++ e :: y ∧ p e ∧ ∀ d ∈ y, ¬ q d

theorem not_since_nil : ¬ Since p q [] := by
  rintro ⟨x, e, y, h, -⟩
  exact absurd h (by simp)

theorem since_snoc : Since p q (h ++ [e]) ↔ p e ∨ Since p q h ∧ ¬ q e := by
  constructor
  · rintro ⟨x, d, y, heq, hp, hq⟩
    rcases List.eq_nil_or_concat y with rfl | ⟨y, e', rfl⟩
    · obtain ⟨rfl, h1⟩ := List.append_inj' heq rfl
      cases h1
      exact .inl hp
    · have heq' : h ++ [e] = (x ++ d :: y) ++ [e'] := by
        rw [heq]
        simp
      obtain ⟨rfl, h1⟩ := List.append_inj' heq' rfl
      cases h1
      exact .inr ⟨⟨x, d, y, rfl, hp, fun c hc => hq c (by simp [hc])⟩, hq e (by simp)⟩
  · rintro (hp | ⟨⟨x, d, y, rfl, hp, hq⟩, hqe⟩)
    · exact ⟨h, e, [], rfl, hp, by simp⟩
    · refine ⟨x, d, y ++ [e], by simp, hp, fun c hc => ?_⟩
      rcases List.mem_append.mp hc with hc | hc
      · exact hq c hc
      · rw [List.mem_singleton.mp hc]
        exact hqe

/-- an event in neither does not matter -/
theorem since_other (hp : ¬ p e) (hq : ¬ q e) : Since p q (h ++ [e]) ↔ Since p q h := by
  rw [since_snoc]
  constructor
  · rintro (h' | h')
    · exact absurd h' hp
    · exact h'.1
  · exact fun h' => .inr ⟨h', hq⟩

def Each (I : List ε → ε → Prop) (h : List ε) : Prop := ∀ x e y, h = x ++ e :: y → I x e

theorem each_nil {I : List ε → ε → Prop} : Each I [] := by
  intro x e y h
  exact absurd h (by simp)

theorem Each.snoc {I : List ε → ε → Prop} (hI : Each I h) (he : I h e) : Each I (h ++ [e]) := by
  intro x d y heq
  rcases List.eq_nil_or_concat y with rfl | ⟨y, e', rfl⟩
  · obtain ⟨rfl, h1⟩ := List.append_inj' heq rfl
    cases h1
    exact he
  · have heq' : h ++ [e] = (x ++ d :: y) ++ [e'] := by
      rw [heq]
      simp
    exact hI x d y (List.append_inj' heq' rfl).1

end

end Trans
