/-
The accounts of `connection_pool`: where the connections and the permits are while
calls are under way.

Three counters, a list and a semaphore are updated in separate sections, so none of
the equations between them holds at every step. They hold once the calls in flight
are counted in:

* a call between its wait and its pop has a permit and no connection yet, and a call
  between its push and its post has put its connection back and not the permit, so
  the free connections are the permits and the calls at these two points;
* `m_CurConn` counts the calls from the pop to the push, or to the section that gives
  the connection up;
* a slot is lost by a call that can neither use its connection nor open another one.
  `slots_run` says how many slots are left: as many as there were, less one for each
  failed `create_connection` of the run. Nothing ever brings one back.
-/
import AtlasWebServer.ConnectionPool
import Mathlib.Data.List.Nodup

set_option autoImplicit false

namespace AtlasWebServer.ConnectionPool

open StepSystem List Option

variable {fail : Bool} {c' : Call} {i : ℕ}

variable {live : List MYSQL} {s s' : Pool} {e : Event} {c call : Call} {n lost : ℕ} {w : World}

/-! ## The accounts -/

def at_pop : Call → Bool
  | .get .pop => true
  | _ => false

/-- A connection put back whose permit is still to be posted. -/
def at_post : Call → Bool
  | .release .post => true
  | _ => false

def in_use : Call → Bool
  | .get (.health _) => true
  | .get .drop => true
  | .get (.stamp _) => true
  | .get (.returned con) => con.isSome
  | .release (.health _) => true
  | .release .drop => true
  | .release (.push _) => true
  | _ => false

/-- The same without the calls that have lost their connection. -/
def has_slot : Call → Bool
  | .get .drop => false
  | .release .drop => false
  | call => in_use call

/-- The step that loses a slot: `create_connection` fails. -/
def fails_pc (e : Event) : HealthPc → Bool
  | .create => e.created.isNone
  | _ => false

def fails_call (e : Event) : Call → Bool
  | .get (.health pc) => fails_pc e pc
  | .release (.health pc) => fails_pc e pc
  | _ => false

def fails (w : World) : Label → Bool
  | .step i e => (w.calls[i]?).any (fails_call e)
  | _ => false

def holds (con : MYSQL) (call : Call) : Bool := decide (call.held = some con)

/-- What one step of a call moves between the accounts. -/
structure Moves (fail : Bool) (s : Pool) (c : Call) (s' : Pool) (c' : Call) : Prop where
  free : s'.m_FreeConn + s.connList.length = s.m_FreeConn + s'.connList.length
  permits : s'.reserve + one at_pop c' + one at_post c' + s.connList.length =
    s.reserve + one at_pop c + one at_post c + s'.connList.length
  used : s'.m_CurConn + one in_use c = s.m_CurConn + one in_use c'
  total : s'.m_MaxConn + s.m_FreeConn + s.m_CurConn = s.m_MaxConn + s'.m_FreeConn + s'.m_CurConn
  slots : s'.connList.length + one has_slot c' + fail.toNat = s.connList.length + one has_slot c

/-- The accounts of a pool of `n` slots that has lost `lost` of them. -/
structure Accounts (n lost : ℕ) (w : World) : Prop where
  free : w.pool.m_FreeConn = w.pool.connList.length
  permits : w.pool.reserve + w.calls.countP at_pop + w.calls.countP at_post =
    w.pool.connList.length
  used : w.pool.m_CurConn = w.calls.countP in_use
  total : w.pool.m_MaxConn = w.pool.m_FreeConn + w.pool.m_CurConn
  slots : w.pool.connList.length + w.calls.countP has_slot + lost = n

def Owned (w : World) : Prop :=
  ∀ con, w.pool.connList.count con + w.calls.countP (holds con) ≤ 1

/-! ## One step of a call -/

/-- The health check touches nothing but `m_connLastActive`. -/
structure SameAccounts (s s' : Pool) : Prop where
  connList : s'.connList = s.connList
  max : s'.m_MaxConn = s.m_MaxConn
  cur : s'.m_CurConn = s.m_CurConn
  free : s'.m_FreeConn = s.m_FreeConn
  reserve : s'.reserve = s.reserve

theorem SameAccounts.refl (s : Pool) : SameAccounts s s := ⟨rfl, rfl, rfl, rfl, rfl⟩

theorem sameAccounts_stamp (s : Pool) (con : MYSQL) (now : ℤ) : SameAccounts s (s.stamp con now) :=
  ⟨rfl, rfl, rfl, rfl, rfl⟩

/-- **What a health check does.** It keeps the accounts, goes on with the connection it
has or with a handle that was not live, and ends without one exactly when
`create_connection` has failed. -/
theorem health_step_spec {pc : HealthPc} {r : Pool × HealthPc}
    (hr : health_step live s e pc = some r) :
    SameAccounts s r.1 ∧ (∀ con, r.2.held = some con → pc.held = some con ∨ con ∉ live) ∧
      (r.2 = .answer none ↔ fails_pc e pc = true) := by
  cases pc with
  | look con =>
    rw [health_step] at hr
    split at hr
    · cases hr
      exact ⟨sameAccounts_stamp _ _ _, fun _ h => .inl h, by simp [fails_pc]⟩
    split at hr
    all_goals
      cases hr
      exact ⟨.refl s, fun _ h => .inl h, by simp [fails_pc]⟩
  | ping con now =>
    cases hr
    refine ⟨.refl s, fun _ h => .inl ?_, ?_⟩
    · cases hping : e.ping <;> simpa [hping, HealthPc.held] using h
    · cases e.ping <;> simp [fails_pc]
  | forget con =>
    cases hr
    exact ⟨⟨rfl, rfl, rfl, rfl, rfl⟩, fun _ h => .inl h, by simp [fails_pc]⟩
  | close con =>
    cases hr
    exact ⟨.refl s, nofun, by simp [fails_pc]⟩
  | create =>
    rw [health_step] at hr
    split at hr
    · rename_i hcreated
      cases hr
      exact ⟨.refl s, nofun, by simp [fails_pc, hcreated]⟩
    rename_i con hcreated
    split at hr
    · contradiction
    rename_i hfresh
    cases hr
    refine ⟨.refl s, fun con' h => .inr ?_, by simp [fails_pc, hcreated]⟩
    cases h
    exact hfresh
  | answer con => contradiction
  | _ =>
    cases hr
    exact ⟨sameAccounts_stamp _ _ _, fun _ h => .inl h, by simp [fails_pc]⟩

theorem after_cases {pc : HealthPc} {c : Call}
    (hc : c = .get (after_get pc) ∨ c = .release (after_release pc)) :
    c.held = pc.held ∧ at_pop c = false ∧ at_post c = false ∧ in_use c = true ∧
      has_slot c = !decide (pc = .answer none) := by
  rcases hc with rfl | rfl <;> rcases pc with _ | _ | _ | _ | _ | _ | _ | _ | _ <;>
    simp [after_get, after_release, Call.held, HealthPc.held, at_pop, at_post, in_use, has_slot]

theorem SameAccounts.moves (h : SameAccounts s s') (hpop : at_pop c' = at_pop c)
    (hpost : at_post c' = at_post c) (huse : in_use c' = in_use c)
    (hslot : one has_slot c' + fail.toNat = one has_slot c) : Moves fail s c s' c' where
  free := by rw [h.free, h.connList]
  permits := by rw [h.reserve, h.connList, one, one, one, one, hpop, hpost]
  used := by rw [h.cur, one, one, huse]
  total := by rw [h.max, h.free, h.cur]
  slots := by rw [h.connList, Nat.add_assoc, hslot]

theorem one_has_slot {pc : HealthPc} (hslot : has_slot c = !decide (pc = .answer none))
    (hfail : pc = .answer none ↔ fail = true) :
    one has_slot c + fail.toNat = 1 := by
  cases fail with
  | true => simp [one, hslot, hfail.mpr rfl]
  | false => simp [one, hslot, mt hfail.mp Bool.false_ne_true]

theorem get_step_moves {pc : GetPc} {r : Pool × GetPc} (hr : get_step live s e pc = some r)
    (hpop : at_pop (.get pc) = true → s.connList ≠ []) :
    Moves (fails_call e (.get pc)) s (.get pc) r.1 (.get r.2) := by
  cases pc with
  | wait =>
    rw [get_step] at hr
    split at hr
    · cases hr
      constructor <;> simp [one, at_pop, at_post, in_use, has_slot, fails_call]
      omega
    · contradiction
  | pop =>
    rw [get_step] at hr
    split at hr
    · rename_i hnil
      exact absurd hnil (hpop rfl)
    · rename_i con rest hcons
      cases hr
      constructor <;> simp [one, at_pop, at_post, in_use, has_slot, fails_call, hcons] <;> omega
  | health pc =>
    obtain ⟨r', hr', rfl⟩ := map_eq_some_iff.mp hr
    obtain ⟨hsame, -, hfail⟩ := health_step_spec hr'
    obtain ⟨-, hp, hq, hu, hs⟩ := after_cases (.inl rfl : _ = Call.get (after_get r'.2) ∨ _)
    exact hsame.moves hp hq hu (one_has_slot hs hfail)
  | drop =>
    cases hr
    constructor <;> simp [one, at_pop, at_post, in_use, has_slot, fails_call, Pool.drop_slot]
    omega
  | stamp con =>
    cases hr
    exact (sameAccounts_stamp s con e.now).moves rfl rfl rfl rfl
  | returned con => contradiction

theorem release_step_moves {pc : ReleasePc} {r : Pool × ReleasePc}
    (hr : release_step live s e pc = some r) :
    Moves (fails_call e (.release pc)) s (.release pc) r.1 (.release r.2) := by
  cases pc with
  | health pc =>
    obtain ⟨r', hr', rfl⟩ := map_eq_some_iff.mp hr
    obtain ⟨hsame, -, hfail⟩ := health_step_spec hr'
    obtain ⟨-, hp, hq, hu, hs⟩ := after_cases (.inr rfl : _ ∨ _ = Call.release (after_release r'.2))
    exact hsame.moves hp hq hu (one_has_slot hs hfail)
  | drop =>
    cases hr
    constructor <;> simp [one, at_pop, at_post, in_use, has_slot, fails_call, Pool.drop_slot]
    omega
  | push con =>
    cases hr
    constructor <;> simp [one, at_pop, at_post, in_use, has_slot, fails_call, Pool.stamp] <;> omega
  | post =>
    cases hr
    constructor <;> simp [one, at_pop, at_post, in_use, has_slot, fails_call]
  | returned ok => contradiction

theorem call_step_moves {r : Pool × Call} (hr : call_step live s e call = some r)
    (hpop : at_pop call = true → s.connList ≠ []) :
    Moves (fails_call e call) s call r.1 r.2 := by
  cases call with
  | get pc =>
    obtain ⟨r', hr', rfl⟩ := map_eq_some_iff.mp hr
    exact get_step_moves hr' hpop
  | release pc =>
    obtain ⟨r', hr', rfl⟩ := map_eq_some_iff.mp hr
    exact release_step_moves hr'

theorem call_step_owns {r : Pool × Call} (hr : call_step live s e call = some r) (con : MYSQL) :
    r.1.connList.count con + one (holds con) r.2 ≤ s.connList.count con + one (holds con) call ∨
      con ∉ live ∧ r.1.connList = s.connList := by
  -- the health check is the only place where a handle comes from nowhere
  have hhealth : ∀ {s' : Pool} {c c' : Call} {pc pc' : HealthPc}, SameAccounts s s' →
      (∀ con, pc'.held = some con → pc.held = some con ∨ con ∉ live) → c.held = pc.held →
      c'.held = pc'.held →
      s'.connList.count con + one (holds con) c' ≤ s.connList.count con + one (holds con) c ∨
        con ∉ live ∧ s'.connList = s.connList := by
    intro s' c c' pc pc' hsame hheld hc hc'
    by_cases hpc : pc'.held = some con
    · refine (hheld con hpc).imp (fun hold => ?_) fun hfresh => ⟨hfresh, hsame.connList⟩
      simp [one, holds, hc, hc', hpc, hold, hsame.connList]
    · refine .inl ?_
      simp [one, holds, hc', hpc, hsame.connList]
  cases call with
  | get pc =>
    obtain ⟨r', hr', rfl⟩ := map_eq_some_iff.mp hr
    cases pc with
    | wait =>
      rw [get_step] at hr'
      split at hr' <;> cases hr'
      exact .inl (Nat.le_refl _)
    | pop =>
      rw [get_step] at hr'
      split at hr' <;> cases hr'
      · exact .inl (Nat.le_refl _)
      · rename_i con' rest hcons
        refine .inl ?_
        simp [one, holds, Call.held, HealthPc.held, hcons, count_cons]
    | health pc =>
      obtain ⟨r'', hr'', rfl⟩ := map_eq_some_iff.mp hr'
      obtain ⟨hsame, hheld, -⟩ := health_step_spec hr''
      exact hhealth hsame hheld rfl (after_cases (.inl rfl)).1
    | returned con' => contradiction
    | _ => cases hr'; exact .inl (Nat.le_refl _)
  | release pc =>
    obtain ⟨r', hr', rfl⟩ := map_eq_some_iff.mp hr
    cases pc with
    | health pc =>
      obtain ⟨r'', hr'', rfl⟩ := map_eq_some_iff.mp hr'
      obtain ⟨hsame, hheld, -⟩ := health_step_spec hr''
      exact hhealth hsame hheld rfl (after_cases (.inr rfl)).1
    | push con' =>
      cases hr'
      refine .inl ?_
      simp [one, holds, Call.held, count_append, count_cons]
    | returned ok => contradiction
    | _ => cases hr'; exact .inl (Nat.le_refl _)

/-! ## One step of the system -/

theorem Accounts.set (h : Accounts n lost w) (hi : w.calls[i]? = some c)
    (hm : Moves fail w.pool c s' c') :
    Accounts n (lost + fail.toNat) ⟨s', w.calls.set i c'⟩ := by
  have hpop := countP_set_add at_pop w.calls i c c' hi
  have hpost := countP_set_add at_post w.calls i c c' hi
  have huse := countP_set_add in_use w.calls i c c' hi
  have hslot := countP_set_add has_slot w.calls i c c' hi
  obtain ⟨hfree, hpermits, hused, htotal, hslots⟩ := h
  obtain ⟨mfree, mpermits, mused, mtotal, mslots⟩ := hm
  constructor
  all_goals
    dsimp only
    omega

theorem Owned.set (h : Owned w) (hi : w.calls[i]? = some c)
    (hown : ∀ con, s'.connList.count con + one (holds con) c' ≤
        w.pool.connList.count con + one (holds con) c ∨
      con ∉ w.live ∧ s'.connList = w.pool.connList) :
    Owned ⟨s', w.calls.set i c'⟩ := by
  intro con
  have hcount := countP_set_add (holds con) w.calls i c c' hi
  have hcon := h con
  dsimp only
  rcases hown con with hle | ⟨hfresh, hlist⟩
  · omega
  -- a handle that is not live is in no place, so it is now in the call's only
  rw [World.live, mem_append, not_or] at hfresh
  have hnone : w.calls.countP (holds con) = 0 := by
    rw [countP_eq_zero]
    intro call hcall hholds
    exact hfresh.2 (mem_filterMap.mpr ⟨call, hcall, of_decide_eq_true hholds⟩)
  have hone : one (holds con) c' ≤ 1 := by
    rw [one]
    split <;> omega
  rw [hlist, count_eq_zero.mpr hfresh.1]
  omega

theorem Accounts.connList_ne_nil (h : Accounts n lost w) (hi : w.calls[i]? = some c)
    (hpop : at_pop c = true) :
    w.pool.connList ≠ [] := by
  have hpos : 0 < w.calls.countP at_pop :=
    countP_pos_iff.mpr ⟨c, mem_of_getElem? hi, hpop⟩
  have hpermits := h.permits
  apply ne_nil_of_length_pos
  omega

theorem release_moves (s : Pool) (con : MYSQL) :
    Moves false s (.get (.returned (some con))) s (.release (.health (.look con))) :=
  (SameAccounts.refl s).moves rfl rfl rfl rfl

theorem accounts_step {w' : World} {l : Label} (h : Accounts n lost w ∧ Owned w)
    (hstep : step w l = some w') : Accounts n (lost + (fails w l).toNat) w' ∧ Owned w' := by
  obtain ⟨hacc, hown⟩ := h
  cases l with
  | get_connection =>
    cases hstep
    constructor
    · obtain ⟨hfree, hpermits, hused, htotal, hslots⟩ := hacc
      constructor <;>
        simpa [countP_append_singleton, one, at_pop, at_post, in_use, has_slot, fails]
    · intro con
      simpa [countP_append_singleton, one, holds, Call.held] using hown con
  | release_connection i =>
    rw [step] at hstep
    split at hstep
    · rename_i con hi
      cases hstep
      exact ⟨hacc.set hi (release_moves w.pool con), hown.set hi fun _ => .inl (Nat.le_refl _)⟩
    · contradiction
  | step i e =>
    rw [step] at hstep
    split at hstep
    · contradiction
    rename_i call hi
    obtain ⟨r, hr, rfl⟩ := map_eq_some_iff.mp hstep
    rw [fails, hi, any_some]
    exact ⟨hacc.set hi (call_step_moves hr (hacc.connList_ne_nil hi)),
      hown.set hi (call_step_owns hr)⟩

/-! ## `init` -/

theorem init_slots {slots : List (List (Option MYSQL) × ℤ)} (h : slots.foldlM init_slot s = some s')
    (hfree : s.m_FreeConn = s.connList.length) (hcur : s.m_CurConn = 0) :
    s'.m_FreeConn = s'.connList.length ∧ s'.m_CurConn = 0 ∧
      s'.connList.length = s.connList.length + slots.length := by
  induction slots generalizing s with
  | nil =>
    cases h
    exact ⟨hfree, hcur, rfl⟩
  | cons slot slots ih =>
    rw [foldlM_cons, bind_eq_bind, bind_eq_some_iff] at h
    obtain ⟨s₁, hslot, hrest⟩ := h
    obtain ⟨con, -, rfl⟩ := map_eq_some_iff.mp hslot
    obtain ⟨h₁, h₂, h₃⟩ := ih hrest (by simp [hfree]) hcur
    refine ⟨h₁, h₂, ?_⟩
    rw [h₃, length_append, length_singleton, length_cons]
    omega

theorem accounts_init (h : (system n).init w) : Accounts n 0 w ∧ Owned w := by
  obtain ⟨hcalls, hnodup, idle_timeout, slots, hn, hinit⟩ := h
  obtain ⟨s, hs, hpool⟩ := map_eq_some_iff.mp hinit
  obtain ⟨hfree, hcur, hlen⟩ := init_slots hs rfl rfl
  rw [hn, constructed, length_nil, Nat.zero_add] at hlen
  constructor
  · constructor <;> simp [← hpool, hcalls, hfree, hcur, hlen]
  · intro con
    simpa [← hpool, hcalls] using nodup_iff_count_le_one.mp hnodup con

theorem accounts_run {start : World} {ls : List Label} (h : (system n).init start)
    (hrun : (system n).exec start ls = some w) :
    Accounts n ((system n).occurrences fails start ls) w ∧ Owned w := by
  have hind := (system n).exec_count_induction (P := fun lost w => Accounts n lost w ∧ Owned w)
    (fun _ _ _ _ hw hl => accounts_step hw hl) ls 0 start w (accounts_init h) hrun
  rwa [Nat.zero_add] at hind

/-! ## Pools at rest -/

def in_progress : Call → Bool
  | .get (.returned _) => false
  | .release (.returned _) => false
  | _ => true

def Quiet (w : World) : Prop := ∀ call ∈ w.calls, in_progress call = false

/-- `con` is checked out: some call has returned it, and it was not released. -/
def checked_out (w : World) (con : MYSQL) : Prop := .get (.returned (some con)) ∈ w.calls

theorem Quiet.countP_eq_zero (h : Quiet w) {p : Call → Bool}
    (hp : ∀ call, p call = true → in_progress call = true) : w.calls.countP p = 0 := by
  rw [List.countP_eq_zero]
  intro call hcall hpc
  exact absurd (hp call hpc) (Bool.not_eq_true _ ▸ h call hcall)

theorem quiet_of_eq (hcalls : w.calls = [call]) (hdone : in_progress call = false) : Quiet w := by
  intro call' hcall
  rw [hcalls, mem_singleton] at hcall
  rw [hcall, hdone]

theorem not_checked_out_of_eq (hcalls : w.calls = [call])
    (hcall : ∀ con, call ≠ .get (.returned (some con))) (con : MYSQL) : ¬ checked_out w con := by
  intro hcon
  rw [checked_out, hcalls, mem_singleton] at hcon
  exact hcall con hcon.symm

theorem in_progress_of_at_pop (call : Call) (h : at_pop call = true) : in_progress call = true := by
  cases call with
  | get pc => cases pc <;> first | rfl | exact absurd h Bool.false_ne_true
  | release pc => exact absurd h Bool.false_ne_true

theorem in_progress_of_at_post (call : Call) (h : at_post call = true) :
    in_progress call = true := by
  cases call with
  | get pc => exact absurd h Bool.false_ne_true
  | release pc => cases pc <;> first | rfl | exact absurd h Bool.false_ne_true

theorem Accounts.reserve_eq (h : Accounts n lost w) (hq : Quiet w) :
    w.pool.reserve = w.pool.connList.length := by
  have hpermits := h.permits
  rwa [hq.countP_eq_zero in_progress_of_at_pop,
    hq.countP_eq_zero in_progress_of_at_post] at hpermits

theorem Accounts.slots_eq (h : Accounts n lost w) (hq : Quiet w)
    (hout : ∀ con, ¬ checked_out w con) :
    w.pool.reserve + lost = n := by
  have hslot : w.calls.countP has_slot = 0 := by
    rw [countP_eq_zero]
    intro call hcall hs
    have hdone := hq call hcall
    cases call with
    | get pc =>
      cases pc with
      | returned con =>
        cases con with
        | none => exact absurd hs Bool.false_ne_true
        | some con => exact hout con hcall
      | _ => exact absurd hdone.symm Bool.false_ne_true
    | release pc =>
      cases pc with
      | returned ok => exact absurd hs Bool.false_ne_true
      | _ => exact absurd hdone.symm Bool.false_ne_true
  have hslots := h.slots
  rw [hslot, Nat.add_zero] at hslots
  rw [h.reserve_eq hq, hslots]

/-- **Pool accounting.** -/
theorem pool_accounting {n : ℕ} {w : World} (h : (system n).Reachable w) :
    (∀ call ∈ w.calls, call = .get .pop → w.pool.connList ≠ []) ∧
      (Quiet w →
        (w.pool.connList.length : ℤ) = w.pool.m_FreeConn ∧
        w.pool.m_FreeConn = w.pool.reserve ∧
        w.pool.m_FreeConn + w.pool.m_CurConn = w.pool.m_MaxConn ∧
        w.pool.connList.Nodup ∧
        ∀ con, checked_out w con → con ∉ w.pool.connList) := by
  obtain ⟨lost, hacc, hown⟩ : ∃ lost, Accounts n lost w ∧ Owned w := by
    refine System.Reachable.invariant (system n) (P := fun w => ∃ lost, Accounts n lost w ∧ Owned w)
      (fun w hw => ⟨0, accounts_init hw⟩) ?_ h
    rintro w l w' ⟨lost, hw⟩ hl
    exact ⟨_, accounts_step hw hl⟩
  constructor
  · rintro call hcall rfl
    obtain ⟨i, hi⟩ := mem_iff_getElem?.mp hcall
    exact hacc.connList_ne_nil hi rfl
  intro hq
  refine ⟨hacc.free.symm, ?_, hacc.total.symm, ?_, ?_⟩
  · rw [hacc.free, hacc.reserve_eq hq]
  · exact nodup_iff_count_le_one.mpr fun con => Nat.le_of_add_right_le (hown con)
  · intro con hout hmem
    have hcount : 0 < w.pool.connList.count con := count_pos_iff.mpr hmem
    have hheld : 0 < w.calls.countP (holds con) :=
      countP_pos_iff.mpr ⟨_, hout, decide_eq_true rfl⟩
    have := hown con
    omega

def started (n : ℕ) : World where
  pool := (init 60 ((List.range n).map fun con => ([some con], 0))).getD (constructed 60)
  calls := []

theorem started_one : (system 1).init (started 1) :=
  ⟨rfl, List.nodup_singleton 0, 60, [([some 0], 0)], rfl, rfl⟩

/-- The clock stands at `now`, and the database answers. -/
def up (now : ℤ) : Event := ⟨now, true, none⟩

/-- The clock stands at `now`, and the database cannot be reached. -/
def down (now : ℤ) : Event := ⟨now, false, none⟩

theorem one_checkout_accounts :
    ∃ w, (system 1).Reachable w ∧ Quiet w ∧ checked_out w 0 ∧ w.pool.m_CurConn = 1 ∧
      w.pool.connList.Nodup ∧ 0 ∉ w.pool.connList := by
  obtain ⟨w, hw, htest⟩ := System.Reachable.of_run (system 1) started_one
    (.get_connection :: List.replicate 4 (.step 0 (up 1)))
    (fun w => decide (w.calls = [.get (.returned (some 0))] ∧ w.pool.m_CurConn = 1))
    (by decide +kernel)
  obtain ⟨hcalls, hcur⟩ := of_decide_eq_true htest
  have hq : Quiet w := quiet_of_eq hcalls rfl
  have hout : checked_out w 0 := by
    rw [checked_out, hcalls]
    exact mem_singleton_self _
  obtain ⟨-, -, -, hnodup, hdisjoint⟩ := (pool_accounting hw).2 hq
  exact ⟨w, hw, hq, hout, hcur, hnodup, hdisjoint 0 hout⟩

/-! ## Permits that do not come back -/

/-- A `GetConnection` that starts now and runs alone, while the database answers,
returns a connection. -/
def Served (w : World) : Prop :=
  ∀ e : Event, e.ping = true →
    ∃ con, (run_alone (fun r => get_step w.live r.1 e r.2) 6 (w.pool, .wait)).2 =
      .returned (some con)

theorem not_served (h : w.pool.reserve = 0) : ¬ Served w := by
  intro hserved
  obtain ⟨con, hcon⟩ := hserved (up 0) rfl
  rw [run_alone_of_end (by simp [get_step, h])] at hcon
  contradiction

theorem served_of_permit (h : 0 < w.pool.reserve) (hlist : w.pool.connList ≠ []) : Served w := by
  intro e hping
  obtain ⟨con, rest, hcons⟩ := exists_cons_of_ne_nil hlist
  refine ⟨con, ?_⟩
  rw [run_alone_of_step (by rw [get_step, if_pos h]),
    run_alone_of_step (by simp only [get_step, hcons]; rfl)]
  cases hlast : w.pool.m_connLastActive con with
  | none =>
    rw [run_alone_of_step (by simp only [get_step, health_step, hlast]; rfl)]
    rfl
  | some last =>
    by_cases hidle : e.now - last < w.pool.m_idleTimeout
    · rw [run_alone_of_step (by simp only [get_step, health_step, hlast, if_pos hidle]; rfl)]
      rfl
    · rw [run_alone_of_step (by simp only [get_step, health_step, hlast, if_neg hidle]; rfl)]
      rw [run_alone_of_step (by simp only [get_step, health_step, hping, if_true]; rfl)]
      rfl

/-- **Permits of a pool at rest.** With nothing checked out there is a permit, and the
next `GetConnection` is served once the database answers, exactly when fewer calls
have failed to open a connection than the pool had slots. -/
theorem permit_left_iff {n : ℕ} {start w : World} {ls : List Label}
    (hinit : (system n).init start) (hrun : (system n).exec start ls = some w) (hq : Quiet w)
    (hout : ∀ con, ¬ checked_out w con) :
    (1 ≤ w.pool.reserve ↔ (system n).occurrences fails start ls < n) ∧
      (Served w ↔ (system n).occurrences fails start ls < n) := by
  have hacc := (accounts_run hinit hrun).1
  have hleft := hacc.slots_eq hq hout
  refine ⟨by omega, ?_⟩
  rcases Nat.eq_zero_or_pos w.pool.reserve with hzero | hpos
  · exact iff_of_false (not_served hzero) (by omega)
  · refine iff_of_true (served_of_permit hpos ?_) (by omega)
    apply ne_nil_of_length_pos
    rwa [← hacc.reserve_eq hq]

/-- One checkout and its release, with the database up. -/
def healthy_run : List Label :=
  .get_connection :: List.replicate 4 (.step 0 (up 1)) ++
    .release_connection 0 :: List.replicate 3 (.step 0 (up 1))

theorem healthy_run_permit :
    ∃ w, (system 1).exec (started 1) healthy_run = some w ∧ 1 ≤ w.pool.reserve ∧ Served w := by
  obtain ⟨w, hrun, htest⟩ := (any_eq_true
    (fun w : World => decide (w.calls = [.release (.returned true)])) _).mp
    (show ((system 1).exec (started 1) healthy_run).any _ = true by decide +kernel)
  have hcalls := of_decide_eq_true htest
  have hq : Quiet w := quiet_of_eq hcalls rfl
  have hout : ∀ con, ¬ checked_out w con := not_checked_out_of_eq hcalls nofun
  have hlost : (system 1).occurrences fails (started 1) healthy_run < 1 := by decide +kernel
  obtain ⟨hpermit, hserved⟩ := permit_left_iff started_one hrun hq hout
  exact ⟨w, hrun, hpermit.mpr hlost, hserved.mpr hlost⟩

/-- One outage, met by one call of a pool with one slot: the connection is idle for too
long, the ping fails and so does the reconnect. -/
theorem outage_locks_pool :
    ∃ w, (system 1).Reachable w ∧ Quiet w ∧ (∀ con, ¬ checked_out w con) ∧
      w.pool.reserve = 0 ∧ ¬ Served w := by
  obtain ⟨w, hw, htest⟩ := System.Reachable.of_run (system 1) started_one
    (.get_connection :: List.replicate 8 (.step 0 (down 60)))
    (fun w => decide (w.calls = [.get (.returned none)] ∧ w.pool.reserve = 0))
    (by decide +kernel)
  obtain ⟨hcalls, hzero⟩ := of_decide_eq_true htest
  have hout : ∀ con, ¬ checked_out w con := not_checked_out_of_eq hcalls nofun
  exact ⟨w, hw, quiet_of_eq hcalls rfl, hout, hzero, not_served hzero⟩

end AtlasWebServer.ConnectionPool
