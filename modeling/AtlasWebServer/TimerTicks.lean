/-
What a `tick` fires and how long the reactor sleeps (`HeapTimer::tick` and
`get_next_timeout_ms` of `infra/timer/heap_timer.cpp`, `scan_timeout` and `refresh_timer` of
`app/webserver_sub_reactor.cpp`).

The loop of `tick` runs until the front of the heap is not due at the clock that `tick` read,
and the callback may arm the socket it is called for again. A callback that does so for a time
that is still to come takes nothing from what is due, so the due nodes become fewer with every
pass and each of them is fired once, the earliest first.
-/
import AtlasWebServer.HeapTimer
import AtlasWebServer.Looping
import AtlasWebServer.ResponseWriter

set_option autoImplicit false

namespace AtlasWebServer.Timers

open StepSystem List

/-! ## `tick` -/

/-- What the callback calls: the calls it makes when it is called as often before, for a
socket. -/
abbrev Callback := ℕ → ℤ → List Call

/-- The loop of `tick`, with the nodes whose sockets it has called back for. -/
structure Ticking where
  timer : HeapTimer
  fired : List TimerNode

def tick_pass (on_expire : Callback) (now : ℤ) (t : Ticking) :
    (HeapTimer × List TimerNode) ⊕ Ticking :=
  match expired now t.timer with
  | none => .inl (t.timer, t.fired)
  | some (node, timer) =>
      .inr ⟨(on_expire t.fired.length node.sockfd).foldl Call.apply timer, t.fired ++ [node]⟩

/-- `tick` in at most `fuel` passes: the timer it leaves and the nodes it fired. -/
def tick (fuel : ℕ) (on_expire : Option Callback) (now : ℤ) (h : HeapTimer) :
    Option (HeapTimer × List TimerNode) :=
  match on_expire with
  | none => some (h, [])
  | some on_expire => Looping.run (tick_pass on_expire now) fuel ⟨h, []⟩

/-- A call for `s` that arms it, if it does, for a time after `now`. -/
def Call.Rearms (now s : ℤ) : Call → Prop
  | .add_or_update sockfd timeout clock => sockfd = s ∧ 0 < timeout ∧ now ≤ clock
  | .remove sockfd => sockfd = s

/-- A callback that arms no socket but the one it is called for, with a positive timeout and a
clock that has not run back since `tick` read it. -/
def Rearms (now : ℤ) (on_expire : Callback) : Prop :=
  ∀ k s, ∀ c ∈ on_expire k s, c.Rearms now s

def Call.leaves : Call → Option TimerNode
  | .add_or_update sockfd timeout clock => some ⟨sockfd, clock + timeout⟩
  | .remove _ => none

/-- The node the last of a callback's calls leaves. -/
def armed (calls : List Call) : Option TimerNode := calls.getLast?.bind Call.leaves

def rearmed (on_expire : Callback) (fired : List TimerNode) : Multiset TimerNode :=
  (fired.zipIdx.flatMap fun p => (armed (on_expire p.2 p.1.sockfd)).toList : List TimerNode)

/-! ### `scan_timeout` -/

/-- What the callback of `scan_timeout` sees: the connection, and the clock it reads for it
and the one `add_or_update` reads. -/
structure Seen where
  is_open : Bool
  last_active : ℤ
  clock : ℤ
  armed_at : ℤ

/-- The callback of `scan_timeout`; a connection it closes makes no call. -/
def scan_timeout (conn_timeout : ℤ) (users : ℕ → ℤ → Seen) : Callback := fun k sockfd =>
  let user := users k sockfd
  if !user.is_open then []
  else if user.clock - user.last_active < conn_timeout then
    [.add_or_update sockfd conn_timeout user.armed_at]
  else []

variable {conn_timeout now : ℤ} {h : HeapTimer} {s : State}

theorem scan_timeout_rearms {users : ℕ → ℤ → Seen} (hpos : 0 < conn_timeout)
    (hclock : ∀ k s, now ≤ (users k s).armed_at) :
    Rearms now (scan_timeout conn_timeout users) := by
  intro k s c hc
  unfold scan_timeout at hc
  dsimp only at hc
  split_ifs at hc
  · exact absurd hc not_mem_nil
  · obtain rfl := mem_singleton.mp hc
    exact ⟨rfl, hpos, hclock k s⟩
  · exact absurd hc not_mem_nil

/-! ### One pass -/

section Pass

variable {s : ℤ} {on_expire : Callback}

variable {c : Call} {t : Ticking}

theorem Call.apply_spec (hv : Inv h) {M : Multiset TimerNode} {o : Option TimerNode}
    (hc : c.Rearms now s) (hM : ∀ n ∈ M, n.sockfd ≠ s) (ho : ∀ n ∈ o, n.sockfd = s)
    (hnodes : h.nodes = (o.toList : Multiset TimerNode) + M) :
    Inv (c.apply h) ∧ (c.apply h).nodes = (c.leaves.toList : Multiset TimerNode) + M := by
  -- whatever the socket's node was, the others stay
  have hothers : h.nodes.filter (·.sockfd ≠ s) = M := by
    rw [hnodes, Multiset.filter_add, Multiset.filter_eq_self.mpr hM,
      Multiset.filter_eq_nil.mpr, zero_add]
    intro n hn hne
    exact hne (ho n (Option.mem_toList.mp hn))
  cases c with
  | add_or_update sockfd timeout clock =>
    obtain ⟨rfl, -, -⟩ := hc
    obtain ⟨hinv, hadd⟩ := hv.add_or_update sockfd timeout clock
    exact ⟨hinv, hadd.trans (by rw [hothers]; rfl)⟩
  | remove sockfd =>
    obtain rfl : sockfd = s := hc
    obtain ⟨hinv, hremove⟩ := hv.remove sockfd
    exact ⟨hinv, hremove.trans (by rw [hothers]; exact (zero_add M).symm)⟩

theorem Call.leaves_rearms (hc : c.Rearms now s) :
    ∀ n ∈ c.leaves, n.sockfd = s ∧ now < n.expire := by
  cases c with
  | add_or_update sockfd timeout clock =>
    rintro n hn
    cases hn
    exact ⟨hc.1, show now < clock + timeout by have := hc.2; omega⟩
  | remove sockfd => exact nofun

theorem armed_rearms {calls : List Call} (hcalls : ∀ c ∈ calls, c.Rearms now s) :
    ∀ n ∈ armed calls, n.sockfd = s ∧ now < n.expire := by
  intro n hn
  obtain ⟨c, hc, hn⟩ := Option.bind_eq_some_iff.mp hn
  exact Call.leaves_rearms (hcalls c (mem_of_getLast? hc)) n hn

theorem calls_spec (hv : Inv h) (hother : ∀ n ∈ h.nodes, n.sockfd ≠ s) (calls : List Call)
    (hcalls : ∀ c ∈ calls, c.Rearms now s) :
    Inv (calls.foldl Call.apply h) ∧
      (calls.foldl Call.apply h).nodes = ((armed calls).toList : Multiset TimerNode) + h.nodes := by
  induction calls using reverseRecOn with
  | nil => exact ⟨hv, (zero_add _).symm⟩
  | append_singleton calls c ih =>
    have hinit : ∀ c ∈ calls, c.Rearms now s :=
      fun c hc => hcalls c (mem_append_left _ hc)
    obtain ⟨hinv, hnodes⟩ := ih hinit
    rw [foldl_append, armed, getLast?_concat]
    exact Call.apply_spec hinv (hcalls c (by simp)) hother
      (fun n hn => (armed_rearms hinit n hn).1) hnodes

theorem rearmed_append (on_expire : Callback) (fired : List TimerNode) (n : TimerNode) :
    rearmed on_expire (fired ++ [n]) =
      rearmed on_expire fired +
        ((armed (on_expire fired.length n.sockfd)).toList : Multiset TimerNode) := by
  simp [rearmed, zipIdx_append]

/-- What the loop keeps: the fired nodes and those still due are those that were due, the
nodes that are not due are those that were not and those armed again, and what was fired is
in order and before what was not. -/
structure Fired (h : HeapTimer) (on_expire : Callback) (now : ℤ) (t : Ticking) : Prop where
  inv : Inv t.timer
  due : (t.fired : Multiset TimerNode) + t.timer.nodes.filter (·.expire ≤ now) =
    h.nodes.filter (·.expire ≤ now)
  waiting : t.timer.nodes.filter (now < ·.expire) =
    h.nodes.filter (now < ·.expire) + rearmed on_expire t.fired
  sorted : t.fired.Pairwise (·.expire ≤ ·.expire)
  before : ∀ n ∈ t.fired, ∀ m ∈ t.timer.nodes, n.expire ≤ m.expire

theorem Fired.start (hv : Inv h) : Fired h on_expire now ⟨h, []⟩ where
  inv := hv
  due := zero_add _
  waiting := (add_zero _).symm
  sorted := .nil
  before := fun _ hn => absurd hn List.not_mem_nil

theorem Fired.pass (hcb : Rearms now on_expire) {t' : Ticking} (ht : Fired h on_expire now t)
    (hpass : tick_pass on_expire now t = .inr t') :
    Fired h on_expire now t' ∧
      (t'.timer.nodes.filter (·.expire ≤ now)).card <
        (t.timer.nodes.filter (·.expire ≤ now)).card := by
  unfold tick_pass at hpass
  split at hpass
  · contradiction
  rename_i n timer he
  obtain rfl := Sum.inr.inj hpass
  obtain ⟨hinv, hnodes, hdue, hmin⟩ := ht.inv.expired he
  -- the fired node was the only one of its socket
  have hother : ∀ m ∈ timer.nodes, m.sockfd ≠ n.sockfd := by
    rw [ht.inv.indexed.filter_ne hnodes]
    exact fun m hm => (Multiset.mem_filter.mp hm).2
  have hcalls := hcb t.fired.length n.sockfd
  obtain ⟨hinv', hnodes'⟩ := calls_spec hinv hother _ hcalls
  have harmed := armed_rearms hcalls
  have hlate : ∀ m ∈ ((armed (on_expire t.fired.length n.sockfd)).toList : Multiset TimerNode),
      now < m.expire := fun m hm => (harmed m (Option.mem_toList.mp hm)).2
  have hdue' : (Multiset.filter (·.expire ≤ now)
      ((on_expire t.fired.length n.sockfd).foldl Call.apply timer).nodes) =
        timer.nodes.filter (·.expire ≤ now) := by
    rw [hnodes', Multiset.filter_add,
      Multiset.filter_eq_nil.mpr fun m hm => not_le.mpr (hlate m hm),
      zero_add]
  have hsplit : t.timer.nodes.filter (·.expire ≤ now) =
      n ::ₘ timer.nodes.filter (·.expire ≤ now) := by
    rw [hnodes, Multiset.filter_cons_of_pos (p := fun m : TimerNode => m.expire ≤ now) _ hdue]
  refine ⟨⟨hinv', ?_, ?_, ?_, ?_⟩, ?_⟩
  · rw [hdue', ← ht.due, hsplit, ← Multiset.coe_add, Multiset.coe_singleton, add_assoc,
      Multiset.singleton_add]
  · rw [hnodes', Multiset.filter_add, Multiset.filter_eq_self.mpr hlate, rearmed_append,
      ← add_assoc, ← ht.waiting, hnodes,
      Multiset.filter_cons_of_neg (p := fun m : TimerNode => now < m.expire) _
        (not_lt.mpr hdue), add_comm]
  · rw [pairwise_append]
    refine ⟨ht.sorted, pairwise_singleton _ _, fun m hm m' hm' => ?_⟩
    obtain rfl := mem_singleton.mp hm'
    exact ht.before m hm m' (hnodes ▸ Multiset.mem_cons_self _ _)
  · intro m hm m' hm'
    -- what was fired was due, so that it is before what was armed again
    have hfired : m.expire ≤ now ∧ ∀ m' ∈ timer.nodes, m.expire ≤ m'.expire := by
      have hsub : ∀ m' ∈ timer.nodes, m' ∈ t.timer.nodes :=
        fun m' hm' => hnodes ▸ Multiset.mem_cons_of_mem hm'
      rcases mem_append.mp hm with hm | hm
      · have hmem : m ∈ h.nodes.filter (·.expire ≤ now) :=
          ht.due ▸ Multiset.mem_add.mpr (.inl hm)
        exact ⟨(Multiset.mem_filter.mp hmem).2, fun m' hm' => ht.before m hm m' (hsub m' hm')⟩
      · obtain rfl := mem_singleton.mp hm
        exact ⟨hdue, fun m' hm' => hmin m' (hsub m' hm')⟩
    rw [hnodes'] at hm'
    rcases Multiset.mem_add.mp hm' with hm' | hm'
    · exact hfired.1.trans (hlate m' hm').le
    · exact hfired.2 m' hm'
  · rw [hdue', hsplit, Multiset.card_cons]
    exact Nat.lt_succ_self _

theorem Fired.result {r : HeapTimer × List TimerNode} (ht : Fired h on_expire now t)
    (hpass : tick_pass on_expire now t = .inl r) :
    (r.2 : Multiset TimerNode) = h.nodes.filter (·.expire ≤ now) ∧
      r.2.Pairwise (·.expire ≤ ·.expire) ∧
      r.1.nodes = h.nodes.filter (now < ·.expire) + rearmed on_expire r.2 ∧ Inv r.1 := by
  unfold tick_pass at hpass
  split at hpass
  · rename_i he
    obtain rfl := Sum.inl.inj hpass
    have hlate := ht.inv.expired_none he
    have hdue := ht.due
    rw [Multiset.filter_eq_nil.mpr fun n hn => not_le.mpr (hlate n hn), add_zero] at hdue
    have hwaiting := ht.waiting
    rw [Multiset.filter_eq_self.mpr hlate] at hwaiting
    exact ⟨hdue, ht.sorted, hwaiting, ht.inv⟩
  · contradiction

end Pass

/-- **A `tick` returns**, after it has called back once for every socket that was due when it
began and for no other, the earliest deadline first; it leaves the nodes that were not due and
those the callbacks armed again. -/
theorem tick_fires_due {h : HeapTimer} {now : ℤ} {on_expire : Callback} (hv : Inv h)
    (hcb : Rearms now on_expire) :
    ∃ fuel h' fired, tick fuel (some on_expire) now h = some (h', fired) ∧
      (fired : Multiset TimerNode) = h.nodes.filter (·.expire ≤ now) ∧
      (fired.map TimerNode.sockfd).Nodup ∧ fired.Pairwise (·.expire ≤ ·.expire) ∧
      h'.nodes = h.nodes.filter (now < ·.expire) + rearmed on_expire fired ∧ Inv h' := by
  obtain ⟨⟨h', fired⟩, hreturns⟩ :
      Looping.Terminates (tick_pass on_expire now) ⟨h, []⟩ :=
    Looping.terminates_of_measure (P := Fired h on_expire now) (B := fun _ => False)
      (fun t => (t.timer.nodes.filter (·.expire ≤ now)).card)
      (fun t t' ht _ hpass => ht.pass hcb hpass) (.start hv) (fun _ _ => id)
  obtain ⟨t, hreach, hpass⟩ := Looping.returns_iff.mp hreturns
  have ht := hreach.invariant (fun t t' ht hpass => (ht.pass hcb hpass).1) (Fired.start hv)
  obtain ⟨hdue, hsorted, hnodes, hinv⟩ := ht.result hpass
  obtain ⟨fuel, hrun⟩ := hreturns
  refine ⟨fuel, h', fired, hrun, hdue, ?_, hsorted, hnodes, hinv⟩
  -- the sockets of the heap are distinct, and the fired nodes are some of its nodes
  rw [← Multiset.coe_nodup, ← Multiset.map_coe, hdue]
  exact Multiset.nodup_of_le (Multiset.map_le_map (Multiset.filter_le _ _))
    (Multiset.coe_nodup.mpr hv.indexed.distinct)

/-- Two sockets that are due at 103, and one that is not. -/
def three_timers : HeapTimer :=
  add_or_update (add_or_update (add_or_update .empty 5 3 100) 4 30 100) 3 2 100

/-- The connection of socket 5 has been active, that of socket 3 has not. -/
def one_active : ℕ → ℤ → Seen := fun _ sockfd => ⟨true, if sockfd = 5 then 102 else 80, 103, 104⟩

theorem three_timers_inv : Inv three_timers :=
  (((Inv.empty.add_or_update 5 3 100).1.add_or_update 4 30 100).1.add_or_update 3 2 100).1

theorem scan_timeout_fires_two :
    ∃ fuel h' fired, tick fuel (some (scan_timeout 15 one_active)) 103 three_timers =
        some (h', fired) ∧
      (fired : Multiset TimerNode) = {⟨3, 102⟩, ⟨5, 103⟩} ∧
      h'.nodes = {⟨4, 130⟩} + rearmed (scan_timeout 15 one_active) fired := by
  have hclock : ∀ k s, (103 : ℤ) ≤ (one_active k s).armed_at := fun k s => by
    show (103 : ℤ) ≤ 104
    decide
  obtain ⟨fuel, h', fired, hrun, hdue, -, -, hnodes, -⟩ :=
    tick_fires_due three_timers_inv (scan_timeout_rearms (show (0 : ℤ) < 15 by decide) hclock)
  have hfilter : three_timers.nodes.filter (·.expire ≤ 103) = {⟨3, 102⟩, ⟨5, 103⟩} ∧
      three_timers.nodes.filter (103 < ·.expire) = {⟨4, 130⟩} := by
    decide +kernel
  exact ⟨fuel, h', fired, hrun, hdue.trans hfilter.1, hfilter.2 ▸ hnodes⟩

/-! ### A `tick` is a run -/

theorem reachable_calls {ticking : Option ℤ} (calls : List Call)
    (hreach : timer_system.Reachable ⟨h, ticking⟩) :
    timer_system.Reachable ⟨calls.foldl Call.apply h, ticking⟩ := by
  induction calls generalizing h with
  | nil => exact hreach
  | cons c calls ih => exact ih (.step (l := .call c) hreach trivial rfl)

/-- What a `tick` leaves is what a run leaves. -/
theorem tick_reachable {h' : HeapTimer} {fuel : ℕ} {on_expire : Option Callback}
    {fired : List TimerNode} (hreach : timer_system.Reachable ⟨h, none⟩)
    (htick : tick fuel on_expire now h = some (h', fired)) : timer_system.Reachable ⟨h', none⟩ := by
  cases on_expire with
  | none =>
    obtain ⟨rfl, -⟩ := Prod.mk.inj (Option.some.inj htick)
    exact hreach
  | some on_expire =>
    obtain ⟨t, hloop, hlast⟩ := Looping.returns_iff.mp ⟨fuel, htick⟩
    have ht : timer_system.Reachable ⟨t.timer, some now⟩ := by
      apply hloop.invariant (P := fun t => timer_system.Reachable ⟨t.timer, some now⟩)
      · intro t t' ht hpass
        unfold tick_pass at hpass
        split at hpass
        · contradiction
        rename_i n timer he
        obtain rfl := Sum.inr.inj hpass
        apply reachable_calls
        exact .step (l := .pass) ht trivial (by simp [timer_system, step, he])
      · exact .step (l := .tick now) hreach trivial rfl
    unfold tick_pass at hlast
    split at hlast
    · rename_i he
      obtain ⟨rfl, -⟩ := Prod.mk.inj (Sum.inl.inj hlast)
      exact .step (l := .pass) ht trivial (by simp [timer_system, step, he])
    · contradiction

theorem tick_after_timeout :
    (tick 2 (some fun _ _ => []) 120 (add_or_update .empty 7 15 100)).elim False
      fun r => timer_system.Reachable ⟨r.1, none⟩ :=
  tick_reachable (.step (l := .call (.add_or_update 7 15 100)) (.init rfl) trivial rfl)
    (rfl : tick 2 (some fun _ _ => []) 120 (add_or_update .empty 7 15 100) = some (_, [⟨7, 115⟩]))

/-! ## How long the reactor sleeps -/

def get_next_timeout_ms (h : HeapTimer) (now : ℤ) : ℤ :=
  match h.m_heap with
  | [] => -1
  | front :: _ =>
      if front.expire ≤ now then 0 else Http.to_int ((front.expire - now) * 1000)

/-- `m_conn_timeout`, from the configuration. -/
def m_conn_timeout (conn_timeout : ℤ) : ℤ := if conn_timeout > 0 then conn_timeout else 15

/-- A step that arms timers with this timeout only. -/
def Label.Uses (timeout : ℤ) : Label → Prop
  | .call (.add_or_update _ timeout' _) => timeout' = timeout
  | _ => True

/-- `epoll_wait` with this timeout wakes when the first timer is due: it waits for ever if
there is none, not at all if one is due, and else for the time left in milliseconds. -/
structure WakesInTime (nodes : Multiset TimerNode) (now timeout_ms : ℤ) : Prop where
  none : timeout_ms = -1 ↔ nodes = 0
  due : (∃ n ∈ nodes, n.expire ≤ now) → timeout_ms = 0
  waiting : nodes ≠ 0 → (∀ n ∈ nodes, now < n.expire) →
    ∃ n ∈ nodes, (∀ m ∈ nodes, n.expire ≤ m.expire) ∧ timeout_ms = (n.expire - now) * 1000

theorem Inv.wakes_iff (hv : Inv h) (now : ℤ) :
    WakesInTime h.nodes now (get_next_timeout_ms h now) ↔
      h.nodes = 0 ∨ ∃ n ∈ h.nodes, (n.expire - now) * 1000 ≤ Http.INT_MAX := by
  unfold get_next_timeout_ms
  split
  · rename_i hheap
    have hnone : h.nodes = 0 := by simp [HeapTimer.nodes, hheap]
    refine iff_of_true ⟨iff_of_true rfl hnone, ?_, fun hne => absurd hnone hne⟩ (.inl hnone)
    rintro ⟨n, hn, -⟩
    rw [hnone] at hn
    exact absurd hn (Multiset.notMem_zero n)
  rename_i front rest hheap
  obtain ⟨-, hmem, hmin⟩ := hv.front hheap
  have hne : h.nodes ≠ 0 := fun h0 => absurd (h0 ▸ hmem) (Multiset.notMem_zero front)
  split_ifs with hdue
  · refine iff_of_true ⟨iff_of_false (by decide) hne, fun _ => rfl, fun _ hlate => ?_⟩
      (.inr ⟨front, hmem, ?_⟩)
    · exact absurd (hlate front hmem) (not_lt.mpr hdue)
    · omega
  have hlate : ∀ n ∈ h.nodes, now < n.expire := fun n hn => (not_le.mp hdue).trans_le (hmin n hn)
  have hpos : 0 ≤ (front.expire - now) * 1000 := by omega
  constructor
  · intro hwakes
    obtain ⟨n, hn, hfirst, heq⟩ := hwakes.waiting hne hlate
    have hsame : n.expire = front.expire := le_antisymm (hfirst front hmem) (hmin n hn)
    rw [hsame] at heq
    exact .inr ⟨front, hmem, (Http.to_int_eq_iff hpos).mp heq⟩
  intro hfits
  obtain ⟨n, hn, hle⟩ := hfits.resolve_left hne
  have hfront := hmin n hn
  have hexact := (Http.to_int_eq_iff hpos).mpr (by omega)
  rw [hexact]
  refine ⟨iff_of_false (by omega) hne, ?_, fun _ _ => ⟨front, hmem, hmin, rfl⟩⟩
  rintro ⟨m, hm, hle⟩
  exact absurd (hlate m hm) (not_lt.mpr hle)

/-- **The reactor wakes in time** if there is no timer or one has at most `INT_MAX`
milliseconds left, and only then. -/
theorem next_timeout_wakes_iff {conn_timeout : ℤ} {s : State}
    (h : timer_system.ReachableVia (fun _ l => l.Uses (m_conn_timeout conn_timeout)) s) (now : ℤ) :
    WakesInTime s.timer.nodes now (get_next_timeout_ms s.timer now) ↔
      s.timer.nodes = 0 ∨ ∃ n ∈ s.timer.nodes, (n.expire - now) * 1000 ≤ Http.INT_MAX :=
  (reachable_inv (System.ReachableVia.mono _ (fun _ _ _ => trivial) h)).wakes_iff now

/-- One connection, with the given timeout in the configuration. -/
def one_connection (conn_timeout : ℤ) : State :=
  ⟨add_or_update .empty 7 (m_conn_timeout conn_timeout) 100, none⟩

theorem one_connection_reachable (conn_timeout : ℤ) :
    timer_system.ReachableVia (fun _ l => l.Uses (m_conn_timeout conn_timeout))
      (one_connection conn_timeout) :=
  .step (l := .call (.add_or_update 7 (m_conn_timeout conn_timeout) 100)) (.init rfl) rfl rfl

theorem default_timeout_wakes :
    WakesInTime (one_connection 15).timer.nodes 105
      (get_next_timeout_ms (one_connection 15).timer 105) := by
  apply (next_timeout_wakes_iff (one_connection_reachable 15) 105).mpr
  exact .inr ⟨⟨7, 115⟩, by decide, by decide⟩

/-- A connection that may stay 2147484 seconds: the time left is negative, and `epoll_wait`
waits for ever. -/
theorem long_timeout_never_wakes :
    timer_system.ReachableVia (fun _ l => l.Uses (m_conn_timeout 2147484))
      (one_connection 2147484) ∧
    (one_connection 2147484).timer.nodes = {⟨7, 2147584⟩} ∧
    get_next_timeout_ms (one_connection 2147484).timer 100 = -2147483296 ∧
    ¬ WakesInTime (one_connection 2147484).timer.nodes 100
      (get_next_timeout_ms (one_connection 2147484).timer 100) := by
  have hnodes : (one_connection 2147484).timer.nodes = {⟨7, 2147584⟩} := by decide
  have hms : get_next_timeout_ms (one_connection 2147484).timer 100 = -2147483296 := by decide
  refine ⟨one_connection_reachable _, hnodes, hms, fun hwakes => ?_⟩
  obtain ⟨n, hn, -, heq⟩ := hwakes.waiting (by decide) (by decide)
  rw [Multiset.mem_singleton.mp hn] at heq
  exact absurd heq (by decide)

/-! ### A timeout of at most 2147483 seconds -/

theorem expire_le_of_reachable {timeout : ℤ}
    (h : timer_system.ReachableVia (fun _ l => ∀ sockfd timeout' clock,
      l = .call (.add_or_update sockfd timeout' clock) → timeout' = timeout ∧ clock ≤ now) s) :
    Inv s.timer ∧ ∀ n ∈ s.timer.nodes, n.expire ≤ now + timeout := by
  refine System.ReachableVia.invariant
    (P := fun s => Inv s.timer ∧ ∀ n ∈ s.timer.nodes, n.expire ≤ now + timeout) _ ?_ ?_ h
  · rintro s rfl
    exact ⟨.empty, fun n hn => absurd hn (Multiset.notMem_zero n)⟩
  rintro s l s' hok ⟨hv, hle⟩ hstep
  refine ⟨hv.step hstep, fun n hn => ?_⟩
  cases l with
  | call c =>
    cases hstep
    cases c with
    | add_or_update sockfd timeout' clock =>
      obtain ⟨rfl, hclock⟩ := hok sockfd timeout' clock rfl
      have hn' : n ∈ (add_or_update s.timer sockfd timeout' clock).nodes := hn
      rw [(hv.add_or_update sockfd timeout' clock).2, Multiset.mem_cons] at hn'
      rcases hn' with rfl | hn'
      · exact add_le_add_left hclock timeout'
      · exact hle n (Multiset.mem_of_mem_filter hn')
    | remove sockfd =>
      have hn' : n ∈ (remove s.timer sockfd).nodes := hn
      rw [(hv.remove sockfd).2] at hn'
      exact hle n (Multiset.mem_of_mem_filter hn')
  | tick now' =>
    simp only [timer_system, step] at hstep
    split_ifs at hstep
    cases hstep
    exact hle n hn
  | pass =>
    simp only [timer_system, step, Option.map_eq_some_iff] at hstep
    obtain ⟨now', -, rfl⟩ := hstep
    split at hn
    · exact hle n hn
    · rename_i he
      exact hle n ((hv.expired he).2.1 ▸ Multiset.mem_cons_of_mem hn)

/-- **With a timeout of at most 2147483 seconds and a clock that does not run back, the reactor
wakes in time.** -/
theorem next_timeout_wakes (hshort : conn_timeout ≤ 2147483)
    (h : timer_system.ReachableVia (fun _ l => ∀ sockfd timeout clock,
      l = .call (.add_or_update sockfd timeout clock) →
        timeout = m_conn_timeout conn_timeout ∧ clock ≤ now) s) :
    WakesInTime s.timer.nodes now (get_next_timeout_ms s.timer now) := by
  obtain ⟨hv, hle⟩ := expire_le_of_reachable h
  apply (hv.wakes_iff now).mpr
  rcases Multiset.empty_or_exists_mem s.timer.nodes with hnone | ⟨n, hn⟩
  · exact .inl hnone
  have hexpire := hle n hn
  have htimeout : m_conn_timeout conn_timeout ≤ 2147483 := by
    unfold m_conn_timeout
    split_ifs <;> omega
  refine .inr ⟨n, hn, ?_⟩
  show (n.expire - now) * 1000 ≤ 2147483647
  omega

theorem short_timeout_wakes :
    WakesInTime (one_connection 60).timer.nodes 105
      (get_next_timeout_ms (one_connection 60).timer 105) := by
  apply next_timeout_wakes (show (60 : ℤ) ≤ 2147483 by decide)
  refine .step (l := .call (.add_or_update 7 (m_conn_timeout 60) 100)) (.init rfl) ?_ rfl
  rintro _ _ _ ⟨⟩
  decide

end AtlasWebServer.Timers
