/-
Loops that need not return. A pass of a loop returns a result or goes on from another
state, and `run` makes a given number of passes.

`Terminates` asks for a number of passes that is enough. It is shown by a measure that every
pass makes smaller, refuted by an invariant under which every pass goes on, and
`terminates_iff_never` puts the two together: where a pass makes the measure smaller unless
the state is stuck, and a stuck state stays stuck, the loop returns if it never gets stuck and
only then.
-/
import Mathlib.Logic.Relation
import Mathlib.Order.WellFounded

set_option autoImplicit false

namespace AtlasWebServer.Looping

variable {σ ρ : Type} (pass : σ → ρ ⊕ σ)

def run : ℕ → σ → Option ρ
  | 0, _ => none
  | n + 1, s =>
      match pass s with
      | .inl r => some r
      | .inr s' => run n s'

def Returns (s : σ) (r : ρ) : Prop := ∃ n, run pass n s = some r

def Terminates (s : σ) : Prop := ∃ r, Returns pass s r

def Reaches : σ → σ → Prop := Relation.ReflTransGen fun s s' => pass s = .inr s'

variable {pass} {s s' t : σ} {r : ρ}

theorem run_inl (h : pass s = .inl r) (n : ℕ) : run pass (n + 1) s = some r := by
  rw [run, h]

theorem run_inr (h : pass s = .inr s') (n : ℕ) : run pass (n + 1) s = run pass n s' := by
  rw [run, h]

theorem returns_inl (h : pass s = .inl r) : Returns pass s r := ⟨1, run_inl h 0⟩

theorem returns_inr (h : pass s = .inr s') : Returns pass s r ↔ Returns pass s' r := by
  constructor
  · rintro ⟨n, hn⟩
    cases n with
    | zero => contradiction
    | succ n => exact ⟨n, run_inr h n ▸ hn⟩
  · rintro ⟨n, hn⟩
    exact ⟨n + 1, (run_inr h n).trans hn⟩

theorem returns_iff : Returns pass s r ↔ ∃ t, Reaches pass s t ∧ pass t = .inl r := by
  constructor
  · rintro ⟨n, hn⟩
    induction n generalizing s with
    | zero => contradiction
    | succ n ih =>
      cases hpass : pass s with
      | inl r' =>
        rw [run_inl hpass] at hn
        cases hn
        exact ⟨s, .refl, hpass⟩
      | inr s' =>
        rw [run_inr hpass] at hn
        obtain ⟨t, ht, hr⟩ := ih hn
        exact ⟨t, .head hpass ht, hr⟩
  · rintro ⟨t, ht, hr⟩
    induction ht using Relation.ReflTransGen.head_induction_on with
    | refl => exact returns_inl hr
    | head hpass _ ih => exact (returns_inr hpass).mpr ih

theorem Reaches.same_result (h : Reaches pass s t) : Returns pass s r ↔ Returns pass t r := by
  induction h with
  | refl => exact Iff.rfl
  | tail _ hstep ih => exact ih.trans (returns_inr hstep)

theorem Reaches.eq_of_inl (h : Reaches pass s t) (hs : pass s = .inl r) : t = s := by
  rcases h.cases_head with rfl | ⟨s', hs', -⟩
  · rfl
  · exact absurd (hs.symm.trans hs') (by simp)

theorem Reaches.invariant {P : σ → Prop} (hpass : ∀ s s', P s → pass s = .inr s' → P s')
    (h : Reaches pass s t) (hs : P s) : P t := by
  induction h with
  | refl => exact hs
  | tail _ hstep ih => exact hpass _ _ ih hstep

/-- **Divergence.** Every pass goes on. -/
theorem not_terminates {P : σ → Prop} (hpass : ∀ s, P s → ∃ s', pass s = .inr s' ∧ P s')
    (hs : P s) : ¬ Terminates pass s := by
  rintro ⟨r, n, hn⟩
  induction n generalizing s with
  | zero => contradiction
  | succ n ih =>
    obtain ⟨s', hs', hP⟩ := hpass s hs
    rw [run_inr hs'] at hn
    exact ih hP hn

/-- **Termination.** Every pass that goes on makes `μ` smaller, unless the state is bad; so a
loop that comes to no bad state returns. -/
theorem terminates_of_measure {P B : σ → Prop} (μ : σ → ℕ)
    (hpass : ∀ s s', P s → ¬ B s → pass s = .inr s' → P s' ∧ μ s' < μ s) (hs : P s)
    (hnever : ∀ t, Reaches pass s t → ¬ B t) : Terminates pass s := by
  -- by induction on the measure of the state the loop is in
  generalize hn : μ s = n
  induction n using Nat.strong_induction_on generalizing s with
  | _ n ih =>
    cases hs' : pass s with
    | inl r => exact ⟨r, returns_inl hs'⟩
    | inr s' =>
      obtain ⟨hP, hlt⟩ := hpass s s' hs (hnever s .refl) hs'
      obtain ⟨r, hr⟩ := ih (μ s') (hn ▸ hlt) hP (fun t ht => hnever t (.head hs' ht)) rfl
      exact ⟨r, (returns_inr hs').mpr hr⟩

/-- **A loop returns if it never gets stuck, and only then.** -/
theorem terminates_iff_never {P stuck : σ → Prop} (μ : σ → ℕ)
    (hpass : ∀ s s', P s → ¬ stuck s → pass s = .inr s' → P s' ∧ μ s' < μ s)
    (hstuck : ∀ s, stuck s → ∃ s', pass s = .inr s' ∧ stuck s') (hs : P s) :
    Terminates pass s ↔ ∀ t, Reaches pass s t → ¬ stuck t := by
  constructor
  · rintro ⟨r, hr⟩ t ht hbad
    exact not_terminates hstuck hbad ⟨r, ht.same_result.mp hr⟩
  · exact terminates_of_measure μ hpass hs

end AtlasWebServer.Looping
