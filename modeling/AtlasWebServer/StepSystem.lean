/-
The **interleaving layer**: labelled step systems, their runs, and the two
induction rules every concurrency result of the development is an instance of.

A step system is a set of initial states and one partial step function. All
nondeterminism sits in the label -- which thread moves, what a clock or a
database answered, whether a weak compare-and-swap failed spuriously -- so a
run is a list of labels, a run can be *executed*, and a counterexample is a
list that evaluates to a bad state.

A result of the form "if no step of the run takes the bad branch, the
invariant holds" restricts the runs by a predicate `ok s l` on the state
before a step and the label of that step. `Reachable` is the case `ok = True`.

Nothing here names this repository.
-/
import Mathlib.Data.List.Basic
import Mathlib.Logic.Basic

set_option autoImplicit false

namespace AtlasWebServer.StepSystem

open List Option

/-- A labelled transition system with a partial step function. -/
structure System (σ ℓ : Type*) where
  init : σ → Prop
  step : σ → ℓ → Option σ

section Runs

variable {σ ℓ : Type*} (sys : System σ ℓ)

/-- Run a list of labels; `none` as soon as one of them is not enabled. -/
def System.exec : σ → List ℓ → Option σ
  | s, [] => some s
  | s, l :: ls => (sys.step s l).bind fun s' => System.exec s' ls

/-- The states of the runs all of whose steps satisfy `ok`. -/
inductive System.ReachableVia (ok : σ → ℓ → Prop) : σ → Prop
  | init {s : σ} : sys.init s → System.ReachableVia ok s
  | step {s s' : σ} {l : ℓ} :
      System.ReachableVia ok s → ok s l → sys.step s l = some s' →
        System.ReachableVia ok s'

def System.Reachable (s : σ) : Prop := sys.ReachableVia (fun _ _ => True) s

/-! ## Executing a list of labels -/

@[simp] theorem System.exec_nil (s : σ) : sys.exec s [] = some s := rfl

@[simp] theorem System.exec_cons (s : σ) (l : ℓ) (ls : List ℓ) :
    sys.exec s (l :: ls) = (sys.step s l).bind fun s' => sys.exec s' ls := rfl

/-- Every step of the run satisfies `ok`, read in the state before the step. -/
def System.Along (ok : σ → ℓ → Prop) : σ → List ℓ → Prop
  | _, [] => True
  | s, l :: ls => ok s l ∧ ∀ s', sys.step s l = some s' → System.Along ok s' ls

variable {P : σ → Prop} {ok : σ → ℓ → Prop} {s s' : σ}

theorem System.exec_induction (hstep : ∀ s l s', ok s l → P s → sys.step s l = some s' → P s') :
    ∀ (ls : List ℓ) (s s' : σ), sys.Along ok s ls → P s → sys.exec s ls = some s' → P s' := by
  intro ls
  induction ls with
  | nil =>
    intro s s' _ hs hrun
    rw [System.exec_nil] at hrun
    cases hrun
    exact hs
  | cons l ls ih =>
    rintro s s' ⟨hok, hrest_ok⟩ hs hrun
    rw [System.exec_cons, bind_eq_some_iff] at hrun
    obtain ⟨s₁, hl, hrest⟩ := hrun
    exact ih s₁ s' (hrest_ok s₁ hl) (hstep s l s₁ hok hs hl) hrest

theorem System.along_of_forall (ls : List ℓ) (h : ∀ l ∈ ls, ∀ s, ok s l) :
    ∀ s, sys.Along ok s ls := by
  induction ls with
  | nil => exact fun _ => trivial
  | cons l ls ih =>
    rw [forall_mem_cons] at h
    exact fun s => ⟨h.1 s, fun s' _ => ih h.2 s'⟩

theorem System.along_true (s : σ) (ls : List ℓ) : sys.Along (fun _ _ => True) s ls :=
  sys.along_of_forall ls (fun _ _ _ => trivial) s

theorem System.ReachableVia.exec (hs : sys.ReachableVia ok s) (ls : List ℓ)
    (hok : sys.Along ok s ls) (hrun : sys.exec s ls = some s') : sys.ReachableVia ok s' :=
  sys.exec_induction (fun _ _ _ hl ht hstep => .step ht hl hstep) ls s s' hok hs hrun

theorem System.Reachable.exec (hs : sys.Reachable s) (ls : List ℓ)
    (hrun : sys.exec s ls = some s') :
    sys.Reachable s' :=
  System.ReachableVia.exec sys hs ls (sys.along_true s ls) hrun

/-- **Executing a run.** A run from an initial state whose last state passes a
test exhibits a reachable state that passes it. -/
theorem System.Reachable.of_run (hs : sys.init s) (ls : List ℓ) (p : σ → Bool)
    (hrun : (sys.exec s ls).any p = true) : ∃ s', sys.Reachable s' ∧ p s' = true := by
  obtain ⟨s', hexec, hp⟩ := (any_eq_true p _).mp hrun
  exact ⟨s', System.Reachable.exec sys (.init hs) ls hexec, hp⟩

theorem System.Reachable.of_getD {d : σ} (hs : sys.init s) {ls : List ℓ}
    (hrun : (sys.exec s ls).isSome = true) : sys.Reachable ((sys.exec s ls).getD d) := by
  obtain ⟨s', hs'⟩ := isSome_iff_exists.mp hrun
  rw [hs', getD_some]
  exact System.Reachable.exec sys (.init hs) ls hs'

/-! ## The invariant rule -/

/-- **Invariants of restricted runs.** What holds initially, and is preserved
by every step that satisfies `ok`, holds in every state such a run reaches. -/
theorem System.ReachableVia.invariant (hinit : ∀ s, sys.init s → P s)
    (hstep : ∀ s l s', ok s l → P s → sys.step s l = some s' → P s') (hs : sys.ReachableVia ok s) :
    P s := by
  induction hs with
  | init h => exact hinit _ h
  | step _ hok hl ih => exact hstep _ _ _ hok ih hl

theorem System.ReachableVia.mono {ok' : σ → ℓ → Prop} (h : ∀ s l, ok s l → ok' s l)
    (hs : sys.ReachableVia ok s) : sys.ReachableVia ok' s := by
  induction hs with
  | init hinit => exact .init hinit
  | step _ hok hl ih => exact .step ih (h _ _ hok) hl

/-- **Exact conditions on runs.** From states that satisfy `P`, a step that satisfies `ok`
is good and leads to a state that satisfies `P`, and one that does not is not good. Then
the runs all of whose steps are good are those whose steps satisfy `ok`. -/
theorem System.along_steps_iff {good : σ → ℓ → σ → Prop}
    (henabled : ∀ s l, sys.step s l = none → ok s l)
    (hkeep : ∀ s l s', P s → sys.step s l = some s' → ok s l → P s' ∧ good s l s')
    (hbreak : ∀ s l s', P s → sys.step s l = some s' → good s l s' → ok s l) (ls : List ℓ) (s : σ)
    (hs : P s) :
    sys.Along (fun s l => ∀ s', sys.step s l = some s' → good s l s') s ls ↔ sys.Along ok s ls := by
  induction ls generalizing s with
  | nil => exact Iff.rfl
  | cons l ls ih =>
    constructor
    · rintro ⟨hgood, hrest⟩
      have hok : ok s l := by
        cases hl : sys.step s l with
        | none => exact henabled s l hl
        | some s' => exact hbreak s l s' hs hl (hgood s' hl)
      refine ⟨hok, fun s' hl => ?_⟩
      exact (ih s' (hkeep s l s' hs hl hok).1).mp (hrest s' hl)
    · rintro ⟨hok, hrest⟩
      refine ⟨fun s' hl => (hkeep s l s' hs hl hok).2, fun s' hl => ?_⟩
      exact (ih s' (hkeep s l s' hs hl hok).1).mpr (hrest s' hl)

theorem System.along_good_iff {good : σ → Prop} (henabled : ∀ s l, sys.step s l = none → ok s l)
    (hkeep : ∀ s l s', P s → sys.step s l = some s' → ok s l → P s' ∧ good s')
    (hbreak : ∀ s l s', P s → sys.step s l = some s' → good s' → ok s l) (ls : List ℓ) (s : σ)
    (hs : P s) :
    sys.Along (fun s l => ∀ s', sys.step s l = some s' → good s') s ls ↔ sys.Along ok s ls :=
  sys.along_steps_iff henabled hkeep hbreak ls s hs

theorem System.Reachable.invariant (hinit : ∀ s, sys.init s → P s)
    (hstep : ∀ s l s', P s → sys.step s l = some s' → P s') (hs : sys.Reachable s) : P s :=
  System.ReachableVia.invariant sys hinit (fun s l s' _ => hstep s l s') hs

/-! ## Counting the steps of one kind along a run

`occurrences bad` counts the steps of a run that satisfy `bad`. A run has no bad
step exactly when the count is zero, so an invariant that carries the count
settles both what good runs guarantee and what bad runs break. -/

/-- The number of steps of the run that satisfy `bad`. -/
def System.occurrences (bad : σ → ℓ → Bool) : σ → List ℓ → ℕ
  | _, [] => 0
  | s, l :: ls =>
      (bad s l).toNat + ((sys.step s l).elim 0 fun s' => System.occurrences bad s' ls)

theorem System.occurrences_eq_zero_iff (bad : σ → ℓ → Bool) (ls : List ℓ) (s : σ) :
    sys.occurrences bad s ls = 0 ↔ sys.Along (fun s l => bad s l = false) s ls := by
  induction ls generalizing s with
  | nil => simp only [System.occurrences, System.Along]
  | cons l ls ih =>
    unfold System.occurrences System.Along
    rw [Nat.add_eq_zero_iff, Bool.toNat_eq_zero]
    refine and_congr_right fun _ => ?_
    cases hl : sys.step s l with
    | none => simp
    | some s₁ => simpa using ih s₁

theorem System.occurrences_not_iff (ok : σ → ℓ → Prop) [∀ s l, Decidable (ok s l)] (ls : List ℓ)
    (s : σ) : sys.occurrences (fun s l => !decide (ok s l)) s ls = 0 ↔ sys.Along ok s ls := by
  rw [sys.occurrences_eq_zero_iff]
  simp only [Bool.not_eq_false', decide_eq_true_eq]

theorem System.ReachableVia.of_run (ok : σ → ℓ → Prop) [∀ s l, Decidable (ok s l)] (hs : sys.init s)
    (ls : List ℓ) (hok : sys.occurrences (fun s l => !decide (ok s l)) s ls = 0) (test : σ → Bool)
    (hrun : (sys.exec s ls).any test = true) :
    ∃ s', sys.exec s ls = some s' ∧ sys.ReachableVia ok s' ∧ test s' = true := by
  rw [sys.occurrences_not_iff] at hok
  obtain ⟨s', hs', htest⟩ := (any_eq_true _ _).mp hrun
  exact ⟨s', hs', .exec sys (.init hs) ls hok hs', htest⟩

/-- **Invariants that carry a count.** `P n s` holds initially with `n = 0`, and a
bad step adds one to `n`. -/
theorem System.exec_count_induction {bad : σ → ℓ → Bool} {P : ℕ → σ → Prop}
    (hstep : ∀ n s l s', P n s → sys.step s l = some s' → P (n + (bad s l).toNat) s') :
    ∀ (ls : List ℓ) (n : ℕ) (s s' : σ), P n s → sys.exec s ls = some s' →
      P (n + sys.occurrences bad s ls) s' := by
  intro ls
  induction ls with
  | nil =>
    intro n s s' hs hrun
    rw [System.exec_nil] at hrun
    cases hrun
    exact hs
  | cons l ls ih =>
    intro n s s' hs hrun
    rw [System.exec_cons, bind_eq_some_iff] at hrun
    obtain ⟨s₁, hl, hrest⟩ := hrun
    have h₁ := ih _ s₁ s' (hstep n s l s₁ hs hl) hrest
    unfold System.occurrences
    rw [hl, elim_some, ← Nat.add_assoc]
    exact h₁

end Runs

/-! ## Threads in a list

The threads of a system are a list of local states; a step of thread `i`
replaces entry `i`, a new thread is appended. What the invariants count --
tokens held, calls in flight -- is a `countP` over that list, and one step
moves the count by the difference between the old and the new local state. -/

section Threads

variable {τ : Type*}

/-- The indicator of a Boolean predicate, the unit the counts below move by. -/
def one (p : τ → Bool) (x : τ) : ℕ := if p x then 1 else 0

theorem countP_set_add (p : τ → Bool) (l : List τ) (i : ℕ) (x y : τ)
    (hi : l[i]? = some x) :
    (l.set i y).countP p + one p x = l.countP p + one p y := by
  induction l generalizing i with
  | nil => simp at hi
  | cons a l ih =>
    cases i with
    | zero =>
      simp only [getElem?_cons_zero] at hi
      cases hi
      simp only [set_cons_zero, countP_cons, one]
      omega
    | succ i =>
      have h := ih i (by simpa using hi)
      simp only [set_cons_succ, countP_cons]
      omega

theorem countP_append_singleton (p : τ → Bool) (l : List τ) (y : τ) :
    (l ++ [y]).countP p = l.countP p + one p y := by
  simp only [countP_append, countP_cons, countP_nil, one]
  omega

variable {l : List τ} {i j : ℕ} {x y z : τ}

theorem getElem?_set_cases (hi : l[i]? = some x) (hj : (l.set i y)[j]? = some z) :
    (j = i ∧ z = y) ∨ (j ≠ i ∧ l[j]? = some z) := by
  have hlt : i < l.length := (List.getElem?_eq_some_iff.mp hi).1
  by_cases hji : j = i
  · subst hji
    rw [getElem?_set_self hlt, some.injEq] at hj
    exact .inl ⟨rfl, hj.symm⟩
  · rw [getElem?_set_ne (fun h => hji h.symm)] at hj
    exact .inr ⟨hji, hj⟩

theorem getElem?_append_cases (hj : (l ++ [y])[j]? = some z) :
    (j = l.length ∧ z = y) ∨ l[j]? = some z := by
  rcases Nat.lt_or_ge j l.length with hlt | hge
  · rw [getElem?_append_left hlt] at hj
    exact .inr hj
  rw [List.getElem?_append_right hge] at hj
  obtain ⟨h0, hz⟩ := List.getElem?_eq_some_iff.mp hj
  simp only [List.length_singleton] at h0
  have hjl : j = l.length := by omega
  subst hjl
  simp only [Nat.sub_self, getElem_cons_zero] at hz
  exact .inl ⟨rfl, hz.symm⟩

theorem forall_mem_set {P : τ → Prop} (h : ∀ z ∈ l, P z) (hy : P y) : ∀ z ∈ l.set i y, P z :=
  fun _ hz => (mem_or_eq_of_mem_set hz).elim (h _) fun heq => heq ▸ hy

theorem exists_mem_set {P : τ → Prop} (hi : l[i]? = some x) (hstep : P x → P y) (h : ∃ z ∈ l, P z) :
    ∃ z ∈ l.set i y, P z := by
  obtain ⟨z, hz, hP⟩ := h
  obtain ⟨j, hj⟩ := List.mem_iff_getElem?.mp hz
  have hlt : i < l.length := (List.getElem?_eq_some_iff.mp hi).1
  by_cases hji : j = i
  · subst hji
    obtain rfl : x = z := some.inj (hi.symm.trans hj)
    exact ⟨y, mem_set hlt y, hstep hP⟩
  · refine ⟨z, mem_iff_getElem?.mpr ⟨j, ?_⟩, hP⟩
    rw [getElem?_set_ne fun hij => hji hij.symm]
    exact hj

end Threads

/-! ## Calls that run alone

A call is a partial step on its own point and what it shares. Run alone it makes its
steps one after the other until it has none left. -/

section Alone

variable {σ : Type*}

def run_alone (f : σ → Option σ) : ℕ → σ → σ
  | 0, s => s
  | fuel + 1, s =>
      match f s with
      | none => s
      | some s' => run_alone f fuel s'

variable {f : σ → Option σ} {s : σ}

theorem run_alone_of_step {s' : σ} (h : f s = some s') (fuel : ℕ) :
    run_alone f (fuel + 1) s = run_alone f fuel s' := by
  rw [run_alone, h]

theorem run_alone_of_end (h : f s = none) (fuel : ℕ) : run_alone f fuel s = s := by
  cases fuel with
  | zero => rfl
  | succ fuel => rw [run_alone, h]

end Alone

/-! ## Machines that answer

A machine takes an input to its next state and an output. Two machines give the same
outputs on every input of a list if a relation between their states is kept, input by
input, and forces equal outputs. -/

section Machines

variable {σ τ ι ο : Type*}

def outputs (f : σ → ι → σ × ο) : σ → List ι → List ο
  | _, [] => []
  | s, i :: is => (f s i).2 :: outputs f (f s i).1 is

/-- Every input satisfies `ok` in the state it meets. -/
def AlongInputs (f : σ → ι → σ × ο) (ok : σ → ι → Prop) : σ → List ι → Prop
  | _, [] => True
  | s, i :: is => ok s i ∧ AlongInputs f ok (f s i).1 is

theorem outputs_eq_of_simulation {f : σ → ι → σ × ο} {g : τ → ι → τ × ο} {R : σ → τ → Prop}
    {ok : τ → ι → Prop}
    (hstep : ∀ s t i, R s t → ok t i → (f s i).2 = (g t i).2 ∧ R (f s i).1 (g t i).1)
    (is : List ι) : ∀ s t, R s t → AlongInputs g ok t is → outputs f s is = outputs g t is := by
  induction is with
  | nil => exact fun _ _ _ _ => rfl
  | cons i is ih =>
    rintro s t hR ⟨hok, hrest⟩
    obtain ⟨hout, hnext⟩ := hstep s t i hR hok
    rw [outputs, outputs, hout, ih _ _ hnext hrest]

end Machines

end AtlasWebServer.StepSystem
