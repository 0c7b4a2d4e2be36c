/-
How an accepted connection reaches its sub-reactor.

`dispatch` pushes the descriptor and then writes to an eventfd; `handle_notify` reads the eventfd
until `EAGAIN` and empties the queue after every read. An edge may stand for many writes, and no
order of the steps leaves a descriptor behind (`handed_over`): what is queued is announced by a
write to come, by the counter or by the reactor's own loop, and a counter that is not zero has an
edge or a reactor that will read it.
-/
import AtlasWebServer.StepSystem
import Mathlib.Data.Int.Notation

set_option autoImplicit false

namespace AtlasWebServer.SubReactor

open StepSystem List

/-! ## The code -/

/-- The reactor is in `epoll_wait`, before a `read` of `handle_notify`, or in its inner loop. -/
inductive Pc
  | wait
  | read
  | drain
  deriving DecidableEq

/-- `writing` are the calls of `dispatch` that have pushed and not written, `dispatched` and
`registered` the descriptors pushed so far and those passed to `register_connection`. -/
structure World where
  m_pending_connections : List ℤ
  counter : ℕ
  edge : Bool
  writing : List ℤ
  m_stop : Bool
  pc : Pc
  dispatched : List ℤ
  registered : List ℤ

/-- A write may succeed; one to a counter that is not zero may still give an edge (`again`). -/
inductive Label
  | push (connfd : ℤ)
  | write (i : ℕ) (ok again : Bool)
  | epoll_wait
  | read
  | pop

/-- `dispatch` after its write. A write that was interrupted is repeated. -/
def written (w : World) (connfd : ℤ) (ok again : Bool) : World :=
  if ok then { w with counter := w.counter + 1, edge := w.edge || again || w.counter = 0 }
  else if w.m_pending_connections.getLast? = some connfd then
    { w with m_pending_connections := w.m_pending_connections.dropLast }
  else w

def step (w : World) : Label → Option World
  | .push connfd => some { w with
      m_pending_connections := w.m_pending_connections ++ [connfd]
      writing := w.writing ++ [connfd]
      dispatched := w.dispatched ++ [connfd] }
  | .write i ok again => w.writing[i]?.map fun connfd =>
      { written w connfd ok again with writing := w.writing.eraseIdx i }
  | .epoll_wait =>
      if w.pc = .wait ∧ w.edge then some { w with edge := false, pc := .read } else none
  | .read =>
      if w.pc ≠ .read then none
      else if w.counter = 0 then some { w with pc := .wait }
      else some { w with counter := 0, pc := if w.m_stop then .wait else .drain }
  | .pop =>
      if w.pc ≠ .drain then none
      else
        match w.m_pending_connections with
        | [] => some { w with pc := .read }
        | connfd :: rest => some { w with
            m_pending_connections := rest
            registered := if connfd > 0 then w.registered ++ [connfd] else w.registered }

def system : System World Label where
  init w := w = ⟨[], 0, false, [], false, .wait, [], []⟩
  step := step

def fails : Label → Bool
  | .write _ ok _ => !ok
  | _ => false

/-- Descriptors are registered once and in order, and none is left to a reactor that sleeps. -/
structure HandedOver (w : World) : Prop where
  order : w.registered ++ w.m_pending_connections.filter (0 < ·) = w.dispatched.filter (0 < ·)
  asleep : w.pc = .wait → w.edge = false → w.writing = [] → w.m_pending_connections = []

/-! ## Who announces what -/

structure Inv (w : World) : Prop where
  running : w.m_stop = false
  order : w.registered ++ w.m_pending_connections.filter (0 < ·) = w.dispatched.filter (0 < ·)
  announced : w.m_pending_connections ≠ [] → w.writing ≠ [] ∨ 0 < w.counter ∨ w.pc = .drain
  woken : 0 < w.counter → w.edge = true ∨ w.pc ≠ .wait

theorem Inv.step {w w' : World} {l : Label} (h : Inv w) (hl : fails l = false)
    (hstep : step w l = some w') : Inv w' := by
  obtain ⟨hrunning, horder, hannounced, hwoken⟩ := h
  cases l with
  | push connfd =>
    cases hstep
    refine ⟨hrunning, ?_, fun _ => .inl (by simp), hwoken⟩
    rw [filter_append, filter_append, ← append_assoc, horder]
  | write i ok again =>
    obtain ⟨connfd, -, rfl⟩ := Option.map_eq_some_iff.mp hstep
    obtain rfl : ok = true := by simpa [fails] using hl
    refine ⟨hrunning, horder, fun _ => .inr (.inl (Nat.succ_pos _)), fun _ => ?_⟩
    -- the first write to the eventfd gives an edge, and a later one finds it or a reader
    rcases Nat.eq_zero_or_pos w.counter with hzero | hpos
    · simp [written, hzero]
    · rcases hwoken hpos with hedge | hpc
      · simp [written, hedge]
      · exact .inr hpc
  | epoll_wait =>
    obtain ⟨⟨hpc, -⟩, ⟨⟩⟩ := Option.ite_none_right_eq_some.mp hstep
    refine ⟨hrunning, horder, fun hne => ?_, fun _ => .inr (by simp)⟩
    simpa [hpc] using hannounced hne
  | read =>
    obtain ⟨hpc, hstep⟩ := Option.ite_none_left_eq_some.mp hstep
    rw [not_not] at hpc
    split at hstep
    · rename_i hzero
      cases hstep
      refine ⟨hrunning, horder, fun hne => ?_, fun hpos => absurd hzero (Nat.ne_of_gt hpos)⟩
      simpa [hpc] using hannounced hne
    · cases hstep
      refine ⟨hrunning, horder, fun _ => .inr (.inr ?_), nofun⟩
      simp [hrunning]
  | pop =>
    obtain ⟨hpc, hstep⟩ := Option.ite_none_left_eq_some.mp hstep
    rw [not_not] at hpc
    split at hstep
    · rename_i hqueue
      cases hstep
      exact ⟨hrunning, horder, fun hne => absurd hqueue hne, fun _ => .inr (by simp)⟩
    · rename_i connfd rest hqueue
      cases hstep
      refine ⟨hrunning, ?_, fun _ => .inr (.inr hpc), fun _ => .inr (by simp [hpc])⟩
      rw [← horder, hqueue]
      by_cases hconn : 0 < connfd <;> simp [hconn]

/-- **Connections are handed over exactly once**, whatever the order of the steps. -/
theorem handed_over {w : World} (h : system.ReachableVia (fun _ l => fails l = false) w) :
    HandedOver w := by
  have hinv : Inv w := by
    apply System.ReachableVia.invariant system _ _ h
    · rintro _ rfl
      exact ⟨rfl, rfl, fun hne => absurd rfl hne, nofun⟩
    · exact fun _ _ _ hl hw => hw.step hl
  refine ⟨hinv.order, fun hpc hedge hwriting => ?_⟩
  by_contra hne
  rcases hinv.announced hne with hw | hpos | hdrain
  · exact hw hwriting
  · simpa [hpc, hedge] using hinv.woken hpos
  · cases hpc.symm.trans hdrain

def two_connections : List Label :=
  [.push 5, .push 6, .write 0 true false, .write 0 true false, .epoll_wait, .read, .pop, .pop,
    .pop, .read]

theorem two_connections_handed_over :
    ∃ w, system.exec ⟨[], 0, false, [], false, .wait, [], []⟩ two_connections = some w ∧
      w.registered = [5, 6] ∧ w.pc = .wait ∧ HandedOver w := by
  obtain ⟨w, hrun, hw, htest⟩ := System.ReachableVia.of_run system (fun _ l => fails l = false) rfl
    two_connections (by decide) (fun w => w.registered = [5, 6] ∧ w.pc = .wait) (by decide)
  obtain ⟨hregistered, hpc⟩ := of_decide_eq_true htest
  exact ⟨w, hrun, hregistered, hpc, handed_over hw⟩

end AtlasWebServer.SubReactor
