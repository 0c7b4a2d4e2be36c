/-
The timers of a reactor (`infra/timer/heap_timer.cpp`): a binary heap of deadlines with a table
that says at which place of the heap each socket's timer is.

`swap_node` is the only function that moves a node of the heap to another place, and it keeps
the table in step; the sifts are those of `BinaryHeap`, over a state that holds both. What the
functions do is said of the bag of nodes (`nodes`): `add_or_update` replaces the node of one
socket, `remove` takes it out, and where the nodes lie in the heap shows in `Inv` only.

A `tick` calls its callback in the middle of its loop and the callback may call back, so a run
of the timer is a run of `timer_system`: the loop of `tick` makes its passes one by one, and
any call may come between two of them.

A `time_t` is an integer here: it has 64 bits, and no clock reading and `int` sum to more.
-/
import AtlasWebServer.BinaryHeap
import AtlasWebServer.StepSystem
import Mathlib.Data.List.Perm.Basic
import Mathlib.Data.Multiset.Filter
import Mathlib.Data.Int.Basic

set_option autoImplicit false

namespace AtlasWebServer.Timers

open StepSystem List Option Function

/-! ## The timer -/

structure TimerNode where
  sockfd : ℤ
  expire : ℤ
deriving Repr, DecidableEq

/-- `HeapTimer`. The `unordered_map` is the function that `find` is. -/
structure HeapTimer where
  m_heap : List TimerNode
  m_index : ℤ → Option ℕ

/-- `m_heap[index]`. No function of the timer reads past the end (`Indexed.index_lt`). -/
def HeapTimer.node (h : HeapTimer) (index : ℕ) : TimerNode := h.m_heap.getD index ⟨0, 0⟩

def swap_node (h : HeapTimer) (lhs rhs : ℕ) : HeapTimer :=
  let m_heap := h.m_heap.swap lhs rhs
  let moved : HeapTimer := ⟨m_heap, h.m_index⟩
  { m_heap
    m_index :=
      update (update h.m_index (moved.node lhs).sockfd (some lhs))
        (moved.node rhs).sockfd (some rhs) }

def ops : BinaryHeap.Ops HeapTimer ℤ where
  size h := h.m_heap.length
  key h index := (h.node index).expire
  swap := swap_node

def sift_up (h : HeapTimer) (index : ℕ) : HeapTimer × Bool := ops.sift_up h index

def sift_down (h : HeapTimer) (index : ℕ) : HeapTimer := ops.sift_down h index

/-- `if (!sift_up(index)) sift_down(index);` -/
def settle (h : HeapTimer) (index : ℕ) : HeapTimer := ops.settle h index

/-- `m_index.erase(sockfd); m_heap.pop_back();` -/
def pop_back (h : HeapTimer) (sockfd : ℤ) : HeapTimer :=
  { m_heap := h.m_heap.dropLast, m_index := update h.m_index sockfd none }

/-- `if (index != last) swap_node(index, last);` -/
def to_back (h : HeapTimer) (index : ℕ) : HeapTimer :=
  let last := h.m_heap.length - 1
  if index ≠ last then swap_node h index last else h

def delete_at (h : HeapTimer) (index : ℕ) : HeapTimer :=
  let sockfd := (h.node index).sockfd
  let h := pop_back (to_back h index) sockfd
  if index ≥ h.m_heap.length then h else settle h index

/-- `add_or_update`, where `time(nullptr)` is `clock`. -/
def add_or_update (h : HeapTimer) (sockfd timeout clock : ℤ) : HeapTimer :=
  let expire := clock + timeout
  match h.m_index sockfd with
  | none =>
      let index := h.m_heap.length
      (sift_up ⟨h.m_heap ++ [⟨sockfd, expire⟩],
        update h.m_index sockfd (some index)⟩ index).1
  | some index =>
      settle { h with m_heap := h.m_heap.set index { h.node index with expire } } index

def remove (h : HeapTimer) (sockfd : ℤ) : HeapTimer :=
  match h.m_index sockfd with
  | none => h
  | some index => delete_at h index

/-- A pass of the loop of `tick` up to the callback: the front of the heap, if it is due, and
the timer without it. -/
def expired (now : ℤ) (h : HeapTimer) : Option (TimerNode × HeapTimer) :=
  match h.m_heap with
  | [] => none
  | node :: _ => if node.expire > now then none else some (node, delete_at h 0)

/-- A call of one of the functions that a callback of `tick` may call too. -/
inductive Call where
  | add_or_update (sockfd timeout clock : ℤ)
  | remove (sockfd : ℤ)
deriving Repr, DecidableEq

def Call.apply (h : HeapTimer) : Call → HeapTimer
  | .add_or_update sockfd timeout clock => Timers.add_or_update h sockfd timeout clock
  | .remove sockfd => Timers.remove h sockfd

/-! ## Runs -/

/-- The timer, and the clock of the `tick` that is going on. -/
structure State where
  timer : HeapTimer
  ticking : Option ℤ

inductive Label where
  /-- A call, from the callback where a `tick` is going on. -/
  | call (c : Call)
  /-- `tick` reads the clock. -/
  | tick (now : ℤ)
  /-- The loop of `tick` makes a pass. -/
  | pass
deriving Repr, DecidableEq

def step (s : State) : Label → Option State
  | .call c => some { s with timer := c.apply s.timer }
  | .tick now => if s.ticking = none then some { s with ticking := some now } else none
  | .pass =>
      s.ticking.map fun now =>
        match expired now s.timer with
        | none => { s with ticking := none }
        | some (_, timer) => { s with timer }

def HeapTimer.empty : HeapTimer := ⟨[], fun _ => none⟩

def timer_system : System State Label where
  init s := s = ⟨.empty, none⟩
  step := step

/-! ## The representation -/

def HeapTimer.nodes (h : HeapTimer) : Multiset TimerNode := h.m_heap

def HeapTimer.socket (h : HeapTimer) (index : ℕ) : Option ℤ := h.m_heap[index]?.map TimerNode.sockfd

/-- The table has the sockets of the heap, each at its place. -/
def HeapTimer.Indexed (h : HeapTimer) : Prop :=
  ∀ sockfd index, h.m_index sockfd = some index ↔ h.socket index = some sockfd

/-- What holds of a timer between two calls. -/
structure Inv (h : HeapTimer) : Prop where
  heap : ops.IsHeap h
  indexed : h.Indexed

section Places

variable {h : HeapTimer} {i j k : ℕ} {s : ℤ}

theorem HeapTimer.socket_of_lt (hi : i < h.m_heap.length) :
    h.socket i = some (h.node i).sockfd := by
  simp [socket, node, hi]

theorem HeapTimer.lt_of_socket (hs : h.socket i = some s) : i < h.m_heap.length := by
  by_contra hge
  simp [socket, getElem?_eq_none (not_lt.mp hge)] at hs

variable {n : TimerNode}

theorem HeapTimer.exists_node (hn : n ∈ h.nodes) : ∃ i, i < h.m_heap.length ∧ h.node i = n := by
  obtain ⟨i, hi, rfl⟩ := getElem_of_mem (Multiset.mem_coe.mp hn)
  exact ⟨i, hi, by simp [node, hi]⟩

theorem HeapTimer.Indexed.injective (hx : h.Indexed) (hi : h.socket i = some s)
    (hj : h.socket j = some s) : i = j := by
  rw [← hx] at hi hj
  exact some.inj (hi.symm.trans hj)

theorem HeapTimer.Indexed.distinct (hx : h.Indexed) : (h.m_heap.map TimerNode.sockfd).Nodup := by
  rw [nodup_iff_injective_getElem]
  rintro ⟨i, hi⟩ ⟨j, hj⟩ heq
  apply Fin.ext
  rw [length_map] at hi hj
  apply hx.injective (h.socket_of_lt hi)
  rw [h.socket_of_lt hj]
  simpa [node, hi, hj] using heq.symm

theorem HeapTimer.Indexed.index_lt (hx : h.Indexed) (hs : h.m_index s = some i) :
    i < h.m_heap.length ∧ (h.node i).sockfd = s := by
  have hi := (hx s i).mp hs
  have hlt := h.lt_of_socket hi
  rw [h.socket_of_lt hlt] at hi
  exact ⟨hlt, some.inj hi⟩

theorem HeapTimer.Indexed.not_mem (hx : h.Indexed) (hs : h.m_index s = none) :
    ∀ n ∈ h.nodes, n.sockfd ≠ s := by
  rintro n hn rfl
  obtain ⟨i, hi, rfl⟩ := h.exists_node hn
  rw [(hx _ i).mpr (h.socket_of_lt hi)] at hs
  contradiction

theorem HeapTimer.Indexed.filter_ne (hx : h.Indexed) {M : Multiset TimerNode}
    (hM : h.nodes = n ::ₘ M) : M = h.nodes.filter (·.sockfd ≠ n.sockfd) := by
  have hnodup : (h.nodes.map TimerNode.sockfd).Nodup := Multiset.coe_nodup.mpr hx.distinct
  rw [hM, Multiset.map_cons, Multiset.nodup_cons] at hnodup
  rw [hM, Multiset.filter_cons_of_neg _ (by simp)]
  symm
  rw [Multiset.filter_eq_self]
  rintro m hm heq
  exact hnodup.1 (heq ▸ Multiset.mem_map_of_mem _ hm)

end Places

/-! ## An exchange of two places -/

section Swap

variable {h : HeapTimer} {i j : ℕ}

theorem getElem?_swap {α : Type*} {xs : List α} (hi : i < xs.length) (hj : j < xs.length)
    (k : ℕ) : (xs.swap i j)[k]? = xs[Equiv.swap i j k]? := by
  by_cases hk : k < xs.length
  · grind
  · grind

theorem swap_node_node (hi : i < h.m_heap.length) (hj : j < h.m_heap.length) (k : ℕ) :
    (swap_node h i j).node k = h.node (Equiv.swap i j k) := by
  simp only [HeapTimer.node, swap_node, getD_eq_getElem?_getD, getElem?_swap hi hj]

theorem swap_node_socket (hi : i < h.m_heap.length) (hj : j < h.m_heap.length) (k : ℕ) :
    (swap_node h i j).socket k = h.socket (Equiv.swap i j k) := by
  simp only [HeapTimer.socket, swap_node, getElem?_swap hi hj]

@[simp] theorem swap_node_length (h : HeapTimer) (i j : ℕ) :
    (swap_node h i j).m_heap.length = h.m_heap.length := length_swap

@[simp] theorem swap_node_nodes (h : HeapTimer) (i j : ℕ) : (swap_node h i j).nodes = h.nodes :=
  Multiset.coe_eq_coe.mpr (swap_perm _ _ _)

theorem ops_lawful : ops.Lawful where
  size_swap := swap_node_length
  key_swap _ _ _ hi hj := funext fun k => congrArg TimerNode.expire (swap_node_node hi hj k)

theorem swap_node_index (hi : i < h.m_heap.length) (hj : j < h.m_heap.length) :
    (swap_node h i j).m_index =
      update (update h.m_index (h.node j).sockfd (some i))
        (h.node i).sockfd (some j) := by
  have hleft := swap_node_node hi hj i
  have hright := swap_node_node hi hj j
  rw [Equiv.swap_apply_left] at hleft
  rw [Equiv.swap_apply_right] at hright
  rw [← hleft, ← hright]
  rfl

theorem swap_node_indexed (hx : h.Indexed) (hi : i < h.m_heap.length) (hj : j < h.m_heap.length) :
    (swap_node h i j).Indexed := by
  intro s k
  rw [swap_node_socket hi hj, ← hx, swap_node_index hi hj]
  have hsi := (hx _ i).mpr (h.socket_of_lt hi)
  have hsj := (hx _ j).mpr (h.socket_of_lt hj)
  have hne : ∀ k, k < h.m_heap.length → s ≠ (h.node k).sockfd → h.m_index s ≠ some k :=
    fun k hk hs heq => hs (hx.index_lt heq).2.symm
  by_cases hs : s = (h.node i).sockfd
  · rw [hs, update_self, hsi, some.injEq, some.injEq, eq_comm (a := i),
      Equiv.swap_apply_eq_iff, Equiv.swap_apply_left, eq_comm]
  rw [update_of_ne hs]
  by_cases hs' : s = (h.node j).sockfd
  · rw [hs', update_self, hsj, some.injEq, some.injEq, eq_comm (a := j),
      Equiv.swap_apply_eq_iff, Equiv.swap_apply_right, eq_comm]
  rw [update_of_ne hs', Equiv.swap_apply_def]
  -- another socket is at neither place
  split_ifs with hki hkj
  · simp only [hki, hne i hi hs, hne j hj hs']
  · simp only [hkj, hne i hi hs, hne j hj hs']
  · exact Iff.rfl

end Swap

/-! ## What the functions do to the nodes -/

section Functions

variable {h : HeapTimer} {i : ℕ} {s : ℤ}

theorem stable_indexed (M : Multiset TimerNode) : ops.Stable fun h => h.Indexed ∧ h.nodes = M :=
  ⟨fun h i j hi hj hP => ⟨swap_node_indexed hP.1 hi hj, (swap_node_nodes h i j).trans hP.2⟩⟩

theorem sift_up_spec (hx : h.Indexed) (hi : i < h.m_heap.length)
    (ho : BinaryHeap.UpOrdered (ops.key h) (ops.size h) i) :
    Inv (sift_up h i).1 ∧ (sift_up h i).1.nodes = h.nodes := by
  obtain ⟨hindexed, hnodes⟩ :=
    BinaryHeap.Ops.sift_up_preserves ops_lawful (stable_indexed h.nodes) hi ⟨hx, rfl⟩
  exact ⟨⟨BinaryHeap.Ops.sift_up_isHeap ops_lawful hi ho, hindexed⟩, hnodes⟩

theorem settle_spec (hx : h.Indexed) (hi : i < h.m_heap.length)
    (ho : BinaryHeap.Displaced (ops.key h) (ops.size h) i) :
    Inv (settle h i) ∧ (settle h i).nodes = h.nodes := by
  obtain ⟨hindexed, hnodes⟩ :=
    BinaryHeap.Ops.settle_preserves ops_lawful (stable_indexed h.nodes) hi ⟨hx, rfl⟩
  exact ⟨⟨BinaryHeap.Ops.settle_isHeap ops_lawful hi ho, hindexed⟩, hnodes⟩

/-! ### A new node -/

theorem push_socket (h : HeapTimer) (n : TimerNode) (m_index : ℤ → Option ℕ) (k : ℕ) :
    HeapTimer.socket ⟨h.m_heap ++ [n], m_index⟩ k =
      if k = h.m_heap.length then some n.sockfd else h.socket k := by
  simp only [HeapTimer.socket]
  rcases lt_trichotomy k h.m_heap.length with hk | rfl | hk
  · rw [getElem?_append_left hk, if_neg hk.ne]
  · simp
  · rw [if_neg hk.ne', getElem?_eq_none (by simp; omega), getElem?_eq_none hk.le]

theorem push_indexed (hx : h.Indexed) (n : TimerNode) (hs : h.m_index n.sockfd = none) :
    HeapTimer.Indexed ⟨h.m_heap ++ [n],
      update h.m_index n.sockfd (some h.m_heap.length)⟩ := by
  intro s k
  rw [push_socket]
  have hlast : h.m_index s ≠ some h.m_heap.length :=
    fun heq => lt_irrefl _ (hx.index_lt heq).1
  dsimp only
  by_cases hsn : s = n.sockfd
  · subst hsn
    split_ifs with hk
    · simp [hk]
    · rw [← hx, hs]
      simp [eq_comm, hk]
  rw [update_of_ne hsn]
  split_ifs with hk
  · rw [hk, some.injEq, eq_comm (a := n.sockfd)]
    exact iff_of_false hlast hsn
  · exact hx s k

theorem push_nodes (h : HeapTimer) (n : TimerNode) (m_index : ℤ → Option ℕ) :
    HeapTimer.nodes ⟨h.m_heap ++ [n], m_index⟩ = n ::ₘ h.nodes :=
  Multiset.coe_eq_coe.mpr perm_append_comm

variable {k : ℕ}

theorem push_node (h : HeapTimer) (n : TimerNode) (m_index : ℤ → Option ℕ)
    (hk : k < h.m_heap.length) : HeapTimer.node ⟨h.m_heap ++ [n], m_index⟩ k = h.node k := by
  simp [HeapTimer.node, getElem?_append_left hk]

/-! ### A new deadline -/

theorem set_socket (h : HeapTimer) (hi : i < h.m_heap.length) (expire : ℤ) (k : ℕ) :
    HeapTimer.socket { h with m_heap := h.m_heap.set i { h.node i with expire } } k =
      h.socket k := by
  simp only [HeapTimer.socket, getElem?_set]
  split_ifs with hik
  · subst hik
    simp [HeapTimer.node, hi]
  · rfl

theorem set_node (h : HeapTimer) (n : TimerNode) (hk : k ≠ i) :
    HeapTimer.node { h with m_heap := h.m_heap.set i n } k = h.node k := by
  simp [HeapTimer.node, getElem?_set_ne hk.symm]

theorem set_nodes (h : HeapTimer) (hi : i < h.m_heap.length) (n : TimerNode) :
    ∃ M, h.nodes = h.node i ::ₘ M ∧
      HeapTimer.nodes { h with m_heap := h.m_heap.set i n } = n ::ₘ M := by
  refine ⟨h.m_heap.eraseIdx i, ?_, ?_⟩
  · apply Multiset.coe_eq_coe.mpr
    have hperm := getElem_cons_eraseIdx_perm hi
    simpa [HeapTimer.node, hi] using hperm.symm
  · exact Multiset.coe_eq_coe.mpr (set_perm_cons_eraseIdx hi n)

theorem Inv.add_or_update (hv : Inv h) (s timeout clock : ℤ) :
    Inv (add_or_update h s timeout clock) ∧
      (Timers.add_or_update h s timeout clock).nodes =
        ⟨s, clock + timeout⟩ ::ₘ h.nodes.filter (·.sockfd ≠ s) := by
  unfold Timers.add_or_update
  cases hs : h.m_index s with
  | none =>
    have hlast : h.m_heap.length < (h.m_heap ++ [TimerNode.mk s (clock + timeout)]).length := by
      simp
    obtain ⟨hinv, hnodes⟩ := sift_up_spec (push_indexed hv.indexed ⟨s, clock + timeout⟩ hs)
      hlast (by
        have hpush := hv.heap.push fun k hk =>
          congrArg TimerNode.expire (push_node h ⟨s, clock + timeout⟩
            (update h.m_index s (some h.m_heap.length)) hk)
        simpa [ops] using hpush)
    refine ⟨hinv, hnodes.trans ?_⟩
    rw [push_nodes, Multiset.filter_eq_self.mpr (hv.indexed.not_mem hs)]
  | some i =>
    obtain ⟨hi, rfl⟩ := hv.indexed.index_lt hs
    have hindexed : HeapTimer.Indexed
        { h with m_heap := h.m_heap.set i { h.node i with expire := clock + timeout } } :=
      fun s k => (hv.indexed s k).trans (by rw [set_socket h hi])
    obtain ⟨hinv, hnodes⟩ := settle_spec hindexed (by simpa using hi) (by
      have hreplace := hv.heap.replace hi fun k _ hk =>
        congrArg TimerNode.expire
          (set_node h { h.node i with expire := clock + timeout } hk)
      simpa [ops] using hreplace)
    obtain ⟨M, hM, hM'⟩ := set_nodes h hi { h.node i with expire := clock + timeout }
    refine ⟨hinv, hnodes.trans ?_⟩
    rw [hM', ← hv.indexed.filter_ne hM]

/-! ### A node that goes -/

theorem to_back_spec (hx : h.Indexed) (hi : i < h.m_heap.length) :
    (to_back h i).Indexed ∧ (to_back h i).nodes = h.nodes ∧
      (to_back h i).m_heap.length = h.m_heap.length ∧
      (to_back h i).node (h.m_heap.length - 1) = h.node i ∧
      ∀ k < h.m_heap.length - 1, k ≠ i → (to_back h i).node k = h.node k := by
  have hlast : h.m_heap.length - 1 < h.m_heap.length := by omega
  unfold to_back
  by_cases heq : i = h.m_heap.length - 1
  · rw [if_neg (not_not.mpr heq), ← heq]
    exact ⟨hx, rfl, rfl, rfl, fun _ _ _ => rfl⟩
  rw [if_pos heq]
  refine ⟨swap_node_indexed hx hi hlast, swap_node_nodes _ _ _, swap_node_length _ _ _, ?_, ?_⟩
  · rw [swap_node_node hi hlast, Equiv.swap_apply_right]
  · intro k hk hki
    rw [swap_node_node hi hlast, Equiv.swap_apply_of_ne_of_ne hki hk.ne]

theorem pop_back_socket (h : HeapTimer) (s : ℤ) (k : ℕ) :
    (pop_back h s).socket k = if k < h.m_heap.length - 1 then h.socket k else none := by
  simp only [HeapTimer.socket, pop_back, getElem?_dropLast]
  split_ifs <;> rfl

theorem pop_back_node (h : HeapTimer) (s : ℤ) (hk : k < h.m_heap.length - 1) :
    (pop_back h s).node k = h.node k := by
  simp only [HeapTimer.node, pop_back, getD_eq_getElem?_getD, getElem?_dropLast, hk, if_true]

theorem pop_back_indexed (hx : h.Indexed) (hpos : 0 < h.m_heap.length) :
    (pop_back h (h.node (h.m_heap.length - 1)).sockfd).Indexed := by
  intro s k
  have hlast := h.socket_of_lt (Nat.sub_one_lt_of_lt hpos)
  rw [pop_back_socket]
  show update h.m_index _ none s = some k ↔ _
  by_cases hs : s = (h.node (h.m_heap.length - 1)).sockfd
  · rw [hs, update_self]
    split_ifs with hk
    · -- its socket is at the last place only
      refine iff_of_false (by simp) fun hk' => ?_
      exact hk.ne (hx.injective hk' hlast)
    · exact iff_of_false (by simp) (by simp)
  rw [update_of_ne hs, hx]
  split_ifs with hk
  · exact Iff.rfl
  refine iff_of_false (fun hk' => ?_) (by simp)
  have hlt := h.lt_of_socket hk'
  obtain rfl : k = h.m_heap.length - 1 := by omega
  exact hs (some.inj (hk'.symm.trans hlast))

theorem pop_back_nodes (h : HeapTimer) (s : ℤ) (hpos : 0 < h.m_heap.length) :
    h.nodes = h.node (h.m_heap.length - 1) ::ₘ (pop_back h s).nodes := by
  have hne : h.m_heap ≠ [] := ne_nil_of_length_pos hpos
  have hlast : h.node (h.m_heap.length - 1) = h.m_heap.getLast hne := by
    rw [getLast_eq_getElem]
    simp [HeapTimer.node, Nat.sub_one_lt_of_lt hpos]
  have hperm : h.m_heap.Perm (h.m_heap.getLast hne :: h.m_heap.dropLast) := by
    conv_lhs => rw [← dropLast_append_getLast hne]
    exact perm_append_comm
  rw [hlast]
  exact Multiset.coe_eq_coe.mpr hperm

theorem Inv.delete_at (hv : Inv h) (hi : i < h.m_heap.length) :
    Inv (delete_at h i) ∧ h.nodes = h.node i ::ₘ (Timers.delete_at h i).nodes := by
  obtain ⟨hindexed, hnodes, hlength, hlast, hothers⟩ := to_back_spec hv.indexed hi
  have hpos : 0 < (to_back h i).m_heap.length := by omega
  rw [← hlength] at hlast hothers
  have hpop := pop_back_indexed hindexed hpos
  have hpopped := pop_back_nodes (to_back h i) (h.node i).sockfd hpos
  have hsize : (pop_back (to_back h i) (h.node i).sockfd).m_heap.length =
      h.m_heap.length - 1 := by
    rw [← hlength]
    exact length_dropLast
  have hkey : ∀ k < h.m_heap.length - 1, k ≠ i →
      (pop_back (to_back h i) (h.node i).sockfd).node k = h.node k := by
    intro k hk hki
    rw [← hlength] at hk
    rw [pop_back_node _ _ hk, hothers k hk hki]
  have hshort := hv.heap.mono (Nat.sub_le h.m_heap.length 1)
  rw [hlast] at hpop hpopped
  rw [hnodes] at hpopped
  unfold Timers.delete_at
  dsimp only
  generalize pop_back (to_back h i) (h.node i).sockfd = h' at *
  split_ifs with hge
  · -- the last place: what is left was in order
    refine ⟨⟨fun k hkpos hk => ?_, hpop⟩, hpopped⟩
    have hk' : k < h.m_heap.length - 1 := hsize ▸ hk
    have hup := BinaryHeap.parent_lt hkpos
    show (h'.node _).expire ≤ (h'.node k).expire
    rw [hkey k hk' (by omega), hkey _ (by omega) (by omega)]
    exact hshort k hkpos hk'
  · have hi' : i < h.m_heap.length - 1 := by omega
    obtain ⟨hinv, hsame⟩ := settle_spec hpop (not_le.mp hge) (by
      have hreplace := hshort.replace hi' fun k hk hki => congrArg TimerNode.expire (hkey k hk hki)
      rwa [← hsize] at hreplace)
    exact ⟨hinv, by rw [hsame]; exact hpopped⟩

theorem Inv.remove (hv : Inv h) (s : ℤ) :
    Inv (remove h s) ∧ (Timers.remove h s).nodes = h.nodes.filter (·.sockfd ≠ s) := by
  unfold Timers.remove
  cases hs : h.m_index s with
  | none => exact ⟨hv, (Multiset.filter_eq_self.mpr (hv.indexed.not_mem hs)).symm⟩
  | some i =>
    obtain ⟨hi, rfl⟩ := hv.indexed.index_lt hs
    obtain ⟨hinv, hnodes⟩ := hv.delete_at hi
    exact ⟨hinv, hv.indexed.filter_ne hnodes⟩

end Functions

/-! ## Every run -/

theorem Inv.empty : Inv .empty where
  heap := fun _ _ hj => absurd hj (Nat.not_lt_zero _)
  indexed := fun _ _ => iff_of_false (by rintro ⟨⟩) (by rintro ⟨⟩)

variable {h : HeapTimer} {now : ℤ} {s : State}

theorem Inv.call (hv : Inv h) (c : Call) : Inv (c.apply h) := by
  cases c with
  | add_or_update sockfd timeout clock => exact (hv.add_or_update sockfd timeout clock).1
  | remove sockfd => exact (hv.remove sockfd).1

theorem Inv.front {front : TimerNode} {rest : List TimerNode} (hv : Inv h)
    (hheap : h.m_heap = front :: rest) :
    h.node 0 = front ∧ front ∈ h.nodes ∧ ∀ m ∈ h.nodes, front.expire ≤ m.expire := by
  have hfront : h.node 0 = front := by simp [HeapTimer.node, hheap]
  refine ⟨hfront, by simp [HeapTimer.nodes, hheap], fun m hm => ?_⟩
  obtain ⟨i, hi, rfl⟩ := h.exists_node hm
  rw [← hfront]
  exact hv.heap.root_le i hi

theorem Inv.expired {h' : HeapTimer} {n : TimerNode} (hv : Inv h)
    (he : expired now h = some (n, h')) :
    Inv h' ∧ h.nodes = n ::ₘ h'.nodes ∧ n.expire ≤ now ∧ ∀ m ∈ h.nodes, n.expire ≤ m.expire := by
  unfold Timers.expired at he
  split at he
  · contradiction
  rename_i front rest hheap
  split_ifs at he with hdue
  have hpos : 0 < h.m_heap.length := by simp [hheap]
  obtain ⟨hfront, -, hmin⟩ := hv.front hheap
  obtain ⟨rfl, rfl⟩ := he
  obtain ⟨hinv, hnodes⟩ := hv.delete_at hpos
  rw [hfront] at hnodes
  exact ⟨hinv, hnodes, not_lt.mp hdue, hmin⟩

theorem Inv.expired_none (hv : Inv h) (he : Timers.expired now h = none) :
    ∀ n ∈ h.nodes, now < n.expire := by
  intro n hn
  unfold Timers.expired at he
  split at he
  · rename_i hheap
    simp [HeapTimer.nodes, hheap] at hn
  · rename_i front rest hheap
    split_ifs at he with hdue
    exact lt_of_lt_of_le hdue ((hv.front hheap).2.2 n hn)

theorem Inv.step {s' : State} {l : Label} (hv : Inv s.timer) (hstep : step s l = some s') :
    Inv s'.timer := by
  cases l with
  | call c =>
    cases hstep
    exact hv.call c
  | tick now =>
    simp only [Timers.step] at hstep
    split_ifs at hstep
    cases hstep
    exact hv
  | pass =>
    simp only [Timers.step, map_eq_some_iff] at hstep
    obtain ⟨now, -, rfl⟩ := hstep
    split
    · exact hv
    · rename_i he
      exact (hv.expired he).1

theorem reachable_inv (h : timer_system.Reachable s) : Inv s.timer := by
  refine System.Reachable.invariant (P := fun s => Inv s.timer) _ ?_ ?_ h
  · rintro s rfl
    exact .empty
  · exact fun s s' l hv hstep => hv.step hstep

/-- **The representation.** After any run, between two calls and between two passes of a
`tick`, the heap is in order, its sockets are distinct and the table has each of them at its
place; `add_or_update` replaces the node of one socket and `remove` takes it out. -/
theorem heap_timer_represents {s : State} (h : timer_system.Reachable s) :
    (∀ i, 0 < i → i < s.timer.m_heap.length →
      (s.timer.node ((i - 1) / 2)).expire ≤ (s.timer.node i).expire) ∧
    (s.timer.m_heap.map TimerNode.sockfd).Nodup ∧
    (∀ sockfd i, s.timer.m_index sockfd = some i ↔
      ∃ n, s.timer.m_heap[i]? = some n ∧ n.sockfd = sockfd) ∧
    (∀ sockfd timeout now, (add_or_update s.timer sockfd timeout now).nodes =
      ⟨sockfd, now + timeout⟩ ::ₘ s.timer.nodes.filter (·.sockfd ≠ sockfd)) ∧
    ∀ sockfd, (remove s.timer sockfd).nodes = s.timer.nodes.filter (·.sockfd ≠ sockfd) := by
  have hv := reachable_inv h
  refine ⟨hv.heap, hv.indexed.distinct, fun sockfd i => ?_, ?_, ?_⟩
  · rw [hv.indexed sockfd i, HeapTimer.socket, map_eq_some_iff]
  · exact fun sockfd timeout now => (hv.add_or_update sockfd timeout now).2
  · exact fun sockfd => (hv.remove sockfd).2

/-- Three sockets, of which a `tick` fires two and whose callback arms one again. -/
def sample_run : List Label :=
  [.call (.add_or_update 5 30 100), .call (.add_or_update 3 2 100), .call (.add_or_update 4 1 100),
    .call (.add_or_update 5 0 100), .tick 102, .pass, .call (.add_or_update 5 15 102), .pass]

def sample_state : State := (timer_system.exec ⟨.empty, none⟩ sample_run).getD ⟨.empty, none⟩

theorem sample_run_represents :
    (sample_state.timer.m_heap.map TimerNode.sockfd).Nodup ∧
      sample_state.timer.m_heap = [⟨3, 102⟩, ⟨5, 117⟩] ∧
      (remove sample_state.timer 3).nodes = {⟨5, 117⟩} := by
  have hreach : timer_system.Reachable sample_state :=
    System.Reachable.of_getD _ rfl (by decide +kernel)
  obtain ⟨-, hdistinct, -, -, hremove⟩ := heap_timer_represents hreach
  have hheap : sample_state.timer.m_heap = [⟨3, 102⟩, ⟨5, 117⟩] := by decide +kernel
  refine ⟨hdistinct, hheap, ?_⟩
  rw [hremove, HeapTimer.nodes, hheap]
  decide

end AtlasWebServer.Timers
