/-
Safety of `threadpool::bounded_mpmc_queue` over every interleaving.

The invariant is stated over a **window** of `m_capacity` tickets that starts at
the dequeue position. The window meets every cell exactly once, and the cell of
a ticket `p` in it is in one of three situations: free for `p` (its sequence
number is `p`), published with `p` (it is `p + 1`), or still held by the
dequeuer of the previous round (it is `p - m_capacity + 1`, and `p` is not handed
out yet). The last case never needs to know which call holds the cell, which is
what keeps the invariant free of existentials over calls.

The one arithmetic fact behind it is that two tickets less than `m_capacity`
apart never share a cell, so with at least two cells a free cell and a published
one are told apart by their sequence numbers alone. With one cell they are not:
`p + 1` would then mean both "published with `p`" and "free for `p + 1`".
-/
import AtlasWebServer.MpmcQueue

set_option autoImplicit false

namespace AtlasWebServer.MpmcQueue

open StepSystem List Option

variable {j k max_requests : ℕ} {pc : EnqueuePc} {tickets : List ℕ} {spurious : Bool}

variable {α : Type}

/-! ## Cells of tickets -/

section Slots

variable {q : Queue α}

/-- A power of two, with at least two cells. -/
def Queue.Even (q : Queue α) : Prop := ∃ k, q.m_capacity = 2 ^ (k + 1)

theorem Queue.Even.two_le (hq : q.Even) : 2 ≤ q.m_capacity := by
  obtain ⟨k, hk⟩ := hq
  have : 0 < 2 ^ k := by positivity
  omega

theorem Queue.Even.slot_eq (hq : q.Even) (pos : ℕ) : q.slot pos = pos % q.m_capacity := by
  obtain ⟨k, hk⟩ := hq
  rw [Queue.slot, Queue.m_mask, hk, Nat.and_two_pow_sub_one_eq_mod]

theorem Queue.Even.slot_round (hq : q.Even) (pos : ℕ) :
    q.slot (pos + q.m_capacity) = q.slot pos := by
  rw [hq.slot_eq, hq.slot_eq, Nat.add_mod_right]

theorem Queue.Even.slot_inj (hq : q.Even) {p p' : ℕ} (h : q.slot p = q.slot p')
    (hlt : p' < p + q.m_capacity) (hlt' : p < p' + q.m_capacity) : p = p' := by
  rw [hq.slot_eq, hq.slot_eq] at h
  rcases Nat.le_total p p' with hle | hle
  · have hd := Nat.sub_mod_eq_zero_of_mod_eq h.symm
    rw [Nat.mod_eq_of_lt (by omega)] at hd
    omega
  · have hd := Nat.sub_mod_eq_zero_of_mod_eq h
    rw [Nat.mod_eq_of_lt (by omega)] at hd
    omega

theorem Queue.Even.slot_succ_ne (hq : q.Even) (p : ℕ) : q.slot (p + 1) ≠ q.slot p := by
  intro h
  have := hq.two_le
  have := hq.slot_inj h (by omega) (by omega)
  omega

theorem Queue.Even.mask_succ (hq : q.Even) (pos : ℕ) : pos + q.m_mask + 1 = pos + q.m_capacity := by
  have := hq.two_le
  rw [Queue.m_mask]
  omega

end Slots

/-! ## Reading a cell after one update -/

section Updates

variable (q : Queue α) (pos p seq : ℕ) (value : α)

theorem current_set_payload :
    (q.set_payload pos value).current p
      = if q.slot p = q.slot pos then { q.current pos with payload := value } else q.current p :=
  Function.update_apply q.m_buffer (q.slot pos) _ (q.slot p)

theorem current_store_sequence :
    (q.store_sequence pos seq).current p
      = if q.slot p = q.slot pos then { q.current pos with sequence := seq } else q.current p :=
  Function.update_apply q.m_buffer (q.slot pos) _ (q.slot p)

theorem sequence_set_payload :
    ((q.set_payload pos value).current p).sequence = (q.current p).sequence := by
  rw [current_set_payload]
  split_ifs with h
  · rw [Queue.current, Queue.current, h]
  · rfl

theorem payload_set_payload :
    ((q.set_payload pos value).current p).payload
      = if q.slot p = q.slot pos then value else (q.current p).payload := by
  rw [current_set_payload]
  split_ifs <;> rfl

theorem sequence_store_sequence :
    ((q.store_sequence pos seq).current p).sequence
      = if q.slot p = q.slot pos then seq else (q.current p).sequence := by
  rw [current_store_sequence]
  split_ifs <;> rfl

theorem payload_store_sequence :
    ((q.store_sequence pos seq).current p).payload = (q.current p).payload := by
  rw [current_store_sequence]
  split_ifs with h
  · rw [Queue.current, Queue.current, h]
  · rfl

end Updates

/-! ## The invariant -/

/-- Ticket `p` was taken by an `enqueue(value)` call that has returned `true`. -/
def Published (w : World α) (p : ℕ) (value : α) : Prop :=
  ∃ j : ℕ, w.enqueue_tickets[p]? = some j ∧ w.calls[j]? = some (.enq value (.returned true))

/-- What each program point of an `enqueue` call knows. -/
def EnqueueOk (w : World α) (i : ℕ) (value : α) : EnqueuePc → Prop
  | .load_pos => True
  | .load_seq pos => pos ≤ w.queue.m_enqueue_pos
  | .cas pos => pos ≤ w.queue.m_enqueue_pos ∧
      (pos = w.queue.m_enqueue_pos → (w.queue.current pos).sequence = pos)
  | .write pos => w.queue.m_dequeue_pos ≤ pos ∧ (w.queue.current pos).sequence = pos ∧
      w.enqueue_tickets[pos]? = some i
  | .store pos => w.queue.m_dequeue_pos ≤ pos ∧ (w.queue.current pos).sequence = pos ∧
      w.enqueue_tickets[pos]? = some i ∧ (w.queue.current pos).payload = value
  | .returned _ => True

/-- What each program point of a `dequeue` call knows. -/
def DequeueOk (w : World α) (i : ℕ) : DequeuePc α → Prop
  | .load_pos => True
  | .load_seq pos => pos ≤ w.queue.m_dequeue_pos
  | .cas pos => pos ≤ w.queue.m_dequeue_pos ∧
      (pos = w.queue.m_dequeue_pos → (w.queue.current pos).sequence = pos + 1)
  | .copy pos => (w.queue.current pos).sequence = pos + 1 ∧
      w.dequeue_tickets[pos]? = some i ∧ Published w pos (w.queue.current pos).payload
  | .store pos value => (w.queue.current pos).sequence = pos + 1 ∧
      w.dequeue_tickets[pos]? = some i ∧ Published w pos value
  | .returned none => True
  | .returned (some value) => ∃ k, w.dequeue_tickets[k]? = some i ∧ Published w k value

def CallOk (w : World α) (i : ℕ) : Call α → Prop
  | .enq value pc => EnqueueOk w i value pc
  | .deq pc => DequeueOk w i pc

/-- The calls that may own enqueue ticket `k`. -/
def OwnsEnqueue (k : ℕ) : Call α → Prop
  | .enq _ (.write pos) => pos = k
  | .enq _ (.store pos) => pos = k
  | .enq _ (.returned true) => True
  | _ => False

/-- The calls that may own dequeue ticket `k`. -/
def OwnsDequeue (k : ℕ) : Call α → Prop
  | .deq (.copy pos) => pos = k
  | .deq (.store pos _) => pos = k
  | .deq (.returned (some _)) => True
  | _ => False

def CellOk (w : World α) (p : ℕ) : Prop :=
  (w.queue.current p).sequence = p ∨
  ((w.queue.current p).sequence = p + 1 ∧ Published w p (w.queue.current p).payload) ∨
  ((w.queue.current p).sequence + w.queue.m_capacity = p + 1 ∧ w.queue.m_enqueue_pos ≤ p)

/-- The inductive invariant of the ring. -/
structure Inv (w : World α) : Prop where
  even : w.queue.Even
  enqueue_length : w.enqueue_tickets.length = w.queue.m_enqueue_pos
  dequeue_length : w.dequeue_tickets.length = w.queue.m_dequeue_pos
  dequeue_le : w.queue.m_dequeue_pos ≤ w.queue.m_enqueue_pos
  enqueue_le : w.queue.m_enqueue_pos ≤ w.queue.m_dequeue_pos + w.queue.m_capacity
  window : ∀ p, w.queue.m_dequeue_pos ≤ p → p < w.queue.m_dequeue_pos + w.queue.m_capacity →
    CellOk w p
  calls : ∀ i c, w.calls[i]? = some c → CallOk w i c
  enqueue_owner : ∀ k i, w.enqueue_tickets[k]? = some i →
    ∃ c, w.calls[i]? = some c ∧ OwnsEnqueue k c
  dequeue_owner : ∀ k i, w.dequeue_tickets[k]? = some i →
    ∃ c, w.calls[i]? = some c ∧ OwnsDequeue k c
  enqueue_nodup : w.enqueue_tickets.Nodup
  dequeue_nodup : w.dequeue_tickets.Nodup

/-! ## What a step of call `i` leaves to the other calls

Six effects are possible: none, a won position on either side, a written
payload, a published sequence number, a released one. `Frame i w w'` lists what
each of them must leave alone for the other calls to keep what they know, and
`Frame.callOk` is the only place where the program points are gone through. -/

/-- `w'` came from `w` by a step of call `i`. -/
structure Frame (i : ℕ) (w w' : World α) : Prop where
  enqueue_pos : w.queue.m_enqueue_pos ≤ w'.queue.m_enqueue_pos
  dequeue_pos : w.queue.m_dequeue_pos ≤ w'.queue.m_dequeue_pos
  enqueue_tickets : ∀ k j : ℕ, w.enqueue_tickets[k]? = some j → w'.enqueue_tickets[k]? = some j
  dequeue_tickets : ∀ k j : ℕ, w.dequeue_tickets[k]? = some j → w'.dequeue_tickets[k]? = some j
  published : ∀ p v, Published w p v → Published w' p v
  enqueue_cas : ∀ pos, pos ≤ w.queue.m_enqueue_pos →
    (pos = w.queue.m_enqueue_pos → (w.queue.current pos).sequence = pos) →
    pos = w'.queue.m_enqueue_pos → (w'.queue.current pos).sequence = pos
  enqueue_hold : ∀ pos j, j ≠ i → w.queue.m_dequeue_pos ≤ pos →
    (w.queue.current pos).sequence = pos → w.enqueue_tickets[pos]? = some j →
    w'.queue.m_dequeue_pos ≤ pos ∧ w'.queue.current pos = w.queue.current pos
  dequeue_cas : ∀ pos, pos ≤ w.queue.m_dequeue_pos →
    (pos = w.queue.m_dequeue_pos → (w.queue.current pos).sequence = pos + 1) →
    pos = w'.queue.m_dequeue_pos → (w'.queue.current pos).sequence = pos + 1
  dequeue_hold : ∀ pos j, j ≠ i → (w.queue.current pos).sequence = pos + 1 →
    w.dequeue_tickets[pos]? = some j → w'.queue.current pos = w.queue.current pos

theorem Frame.refl (i : ℕ) (w : World α) : Frame i w w where
  enqueue_pos := le_refl _
  dequeue_pos := le_refl _
  enqueue_tickets _ _ hk := hk
  dequeue_tickets _ _ hk := hk
  published _ _ hp := hp
  enqueue_cas _ _ hs he := hs he
  enqueue_hold _ _ _ hd _ _ := ⟨hd, rfl⟩
  dequeue_cas _ _ hs he := hs he
  dequeue_hold _ _ _ _ _ := rfl

variable {i p : ℕ} {w w' : World α} {v : α} {c c' : Call α} {calls : List (Call α)}
  {Owns : ℕ → Call α → Prop} {r : Queue α × EnqueuePc} {q : Queue α}

theorem Frame.enqueueOk (hf : Frame i w w') (hji : j ≠ i) (h : EnqueueOk w j v pc) :
    EnqueueOk w' j v pc := by
  cases pc with
  | load_seq pos => exact le_trans h hf.enqueue_pos
  | cas pos => exact ⟨le_trans h.1 hf.enqueue_pos, hf.enqueue_cas pos h.1 h.2⟩
  | write pos =>
    obtain ⟨hd, hs, ht⟩ := h
    obtain ⟨hd', hc⟩ := hf.enqueue_hold pos j hji hd hs ht
    exact ⟨hd', by rw [hc]; exact hs, hf.enqueue_tickets pos j ht⟩
  | store pos =>
    obtain ⟨hd, hs, ht, hp⟩ := h
    obtain ⟨hd', hc⟩ := hf.enqueue_hold pos j hji hd hs ht
    exact ⟨hd', by rw [hc]; exact hs, hf.enqueue_tickets pos j ht, by rw [hc]; exact hp⟩
  | _ => trivial

theorem Frame.dequeueOk {pc : DequeuePc α} (hf : Frame i w w') (hji : j ≠ i)
    (h : DequeueOk w j pc) :
    DequeueOk w' j pc := by
  cases pc with
  | load_pos => trivial
  | load_seq pos => exact le_trans h hf.dequeue_pos
  | cas pos => exact ⟨le_trans h.1 hf.dequeue_pos, hf.dequeue_cas pos h.1 h.2⟩
  | copy pos =>
    obtain ⟨hs, ht, hp⟩ := h
    have hc := hf.dequeue_hold pos j hji hs ht
    exact ⟨by rw [hc]; exact hs, hf.dequeue_tickets pos j ht, by rw [hc]; exact hf.published _ _ hp⟩
  | store pos value =>
    obtain ⟨hs, ht, hp⟩ := h
    have hc := hf.dequeue_hold pos j hji hs ht
    exact ⟨by rw [hc]; exact hs, hf.dequeue_tickets pos j ht, hf.published _ _ hp⟩
  | returned result =>
    cases result with
    | none => trivial
    | some value =>
      obtain ⟨k, hk, hp⟩ := h
      exact ⟨k, hf.dequeue_tickets k j hk, hf.published _ _ hp⟩

theorem Frame.callOk (hf : Frame i w w') (hji : j ≠ i) (h : CallOk w j c) : CallOk w' j c := by
  cases c with
  | enq v pc => exact hf.enqueueOk hji h
  | deq pc => exact hf.dequeueOk hji h

theorem published_step (w' : World α) (hi : w.calls[i]? = some c)
    (hc : ∀ v, c ≠ .enq v (.returned true)) (hcalls : w'.calls = w.calls.set i c')
    (htickets : ∀ k j : ℕ, w.enqueue_tickets[k]? = some j → w'.enqueue_tickets[k]? = some j)
    (p : ℕ) (v : α) : Published w p v → Published w' p v := by
  rintro ⟨j, hj, hjc⟩
  refine ⟨j, htickets p j hj, ?_⟩
  have hji : i ≠ j := by
    rintro rfl
    rw [hi, some.injEq] at hjc
    exact hc v hjc
  rw [hcalls, getElem?_set_ne hji]
  exact hjc

theorem getElem?_append_of_some {l : List ℕ} {x : ℕ} (h : l[k]? = some j) :
    (l ++ [x])[k]? = some j := by
  rw [List.getElem?_append_left (List.getElem?_eq_some_iff.mp h).1]
  exact h

theorem Inv.enqueue_ticket_lt (h : Inv w) (hk : w.enqueue_tickets[k]? = some j) :
    k < w.queue.m_enqueue_pos := by
  rw [← h.enqueue_length]
  exact (List.getElem?_eq_some_iff.mp hk).1

theorem Inv.dequeue_ticket_lt (h : Inv w) (hk : w.dequeue_tickets[k]? = some j) :
    k < w.queue.m_dequeue_pos := by
  rw [← h.dequeue_length]
  exact (List.getElem?_eq_some_iff.mp hk).1

theorem Inv.slot_ne_of_sequence (h : Inv w) {p' : ℕ} (hp : (w.queue.current p).sequence = p)
    (hp' : (w.queue.current p').sequence = p' + 1) : w.queue.slot p ≠ w.queue.slot p' := by
  intro hs
  rw [Queue.current] at hp hp'
  rw [hs, hp'] at hp
  rw [← hp] at hs
  exact h.even.slot_succ_ne p' hs

/-! ## The owners after a step -/

theorem owner_step (hi : calls[i]? = some c) (hown : ∀ k, Owns k c → Owns k c')
    (h : ∀ k j, tickets[k]? = some j → ∃ d, calls[j]? = some d ∧ Owns k d) :
    ∀ k j, tickets[k]? = some j → ∃ d, (calls.set i c')[j]? = some d ∧ Owns k d := by
  intro k j hk
  obtain ⟨d, hd, ho⟩ := h k j hk
  by_cases hji : i = j
  · subst hji
    rw [hi] at hd
    cases hd
    exact ⟨c', List.getElem?_set_self (List.getElem?_eq_some_iff.mp hi).1, hown k ho⟩
  · exact ⟨d, by rw [List.getElem?_set_ne hji]; exact hd, ho⟩

theorem owner_append (hi : calls[i]? = some c) (hown : Owns tickets.length c)
    (h : ∀ k j, tickets[k]? = some j → ∃ d, calls[j]? = some d ∧ Owns k d) :
    ∀ k j, (tickets ++ [i])[k]? = some j → ∃ d, calls[j]? = some d ∧ Owns k d := by
  intro k j hk
  rcases getElem?_append_cases hk with ⟨rfl, rfl⟩ | hk'
  · exact ⟨c, hi, hown⟩
  · exact h k j hk'

theorem nodup_append (hi : calls[i]? = some c) (hown : ∀ k, ¬ Owns k c)
    (h : ∀ k j, tickets[k]? = some j → ∃ d, calls[j]? = some d ∧ Owns k d) (hnd : tickets.Nodup) :
    (tickets ++ [i]).Nodup := by
  rw [← concat_eq_append]
  refine List.Nodup.concat ?_ hnd
  intro hmem
  obtain ⟨k, hk⟩ := mem_iff_getElem?.mp hmem
  obtain ⟨d, hd, ho⟩ := h k i hk
  rw [hi] at hd
  cases hd
  exact hown k (ho)

/-! ## The effects -/

section Effects

theorem Inv.calls_step (h : Inv w) (hi : w.calls[i]? = some c) (hf : Frame i w w')
    (hcalls : w'.calls = w.calls.set i c') (hc' : CallOk w' i c') :
    ∀ j d, w'.calls[j]? = some d → CallOk w' j d := by
  intro j d hj
  rw [hcalls] at hj
  rcases getElem?_set_cases hi hj with ⟨rfl, rfl⟩ | ⟨hji, hj'⟩
  · exact hc'
  · exact hf.callOk hji (h.calls j d hj')

theorem CellOk.keep (h : CellOk w p) (hpub : ∀ p v, Published w p v → Published w' p v)
    (hcap : w'.queue.m_capacity = w.queue.m_capacity)
    (hpos : w'.queue.m_enqueue_pos = w.queue.m_enqueue_pos)
    (hcur : w'.queue.current p = w.queue.current p) : CellOk w' p := by
  rw [CellOk, hcap, hpos, hcur]
  rcases h with h | ⟨h, hv⟩ | h
  · exact .inl h
  · exact .inr (.inl ⟨h, hpub _ _ hv⟩)
  · exact .inr (.inr h)

theorem Inv.stutter (h : Inv w) (hi : w.calls[i]? = some c)
    (hret : ∀ v, c ≠ .enq v (.returned true)) (hE : ∀ k, OwnsEnqueue k c → OwnsEnqueue k c')
    (hD : ∀ k, OwnsDequeue k c → OwnsDequeue k c')
    (hc' : CallOk { w with calls := w.calls.set i c' } i c') :
    Inv { w with calls := w.calls.set i c' } := by
  have hpub := published_step { w with calls := w.calls.set i c' } hi hret rfl fun _ _ hk => hk
  have hf : Frame i w { w with calls := w.calls.set i c' } :=
    { Frame.refl _ w with published := hpub }
  exact
    { h with
      window := fun p hp hp' => (h.window p hp hp').keep hpub rfl rfl rfl
      calls := h.calls_step hi hf rfl hc'
      enqueue_owner := owner_step hi hE h.enqueue_owner
      dequeue_owner := owner_step hi hD h.dequeue_owner }

theorem Inv.stutter_free (h : Inv w) (hi : w.calls[i]? = some c) (hE : ∀ k, ¬ OwnsEnqueue k c)
    (hD : ∀ k, ¬ OwnsDequeue k c) (hc' : CallOk { w with calls := w.calls.set i c' } i c') :
    Inv { w with calls := w.calls.set i c' } := by
  refine h.stutter hi ?_ (fun k hk => absurd hk (hE k)) (fun k hk => absurd hk (hD k)) hc'
  rintro v rfl
  exact hE 0 trivial

theorem Inv.enqueue_pos_lt (h : Inv w)
    (hs : (w.queue.current w.queue.m_enqueue_pos).sequence = w.queue.m_enqueue_pos) :
    w.queue.m_enqueue_pos < w.queue.m_dequeue_pos + w.queue.m_capacity := by
  have h2 := h.even.two_le
  have hle := h.enqueue_le
  by_contra hge
  have he : w.queue.m_enqueue_pos = w.queue.m_dequeue_pos + w.queue.m_capacity := by omega
  rw [he, Queue.current, h.even.slot_round] at hs
  rcases h.window w.queue.m_dequeue_pos (le_refl _) (by omega) with h1 | ⟨h1, -⟩ | h1 <;>
    rw [Queue.current, hs] at h1 <;> omega

theorem Inv.enqueue_win (h : Inv w)
    (hi : w.calls[i]? = some (.enq v (.cas w.queue.m_enqueue_pos))) :
    Inv { queue := { w.queue with m_enqueue_pos := w.queue.m_enqueue_pos + 1 }
          calls := w.calls.set i (.enq v (.write w.queue.m_enqueue_pos))
          enqueue_tickets := w.enqueue_tickets ++ [i]
          dequeue_tickets := w.dequeue_tickets } := by
  have hlt : i < w.calls.length := (List.getElem?_eq_some_iff.mp hi).1
  have hseq : (w.queue.current w.queue.m_enqueue_pos).sequence = w.queue.m_enqueue_pos :=
    (h.calls i _ hi).2 rfl
  have hroom := h.enqueue_pos_lt hseq
  have hticket : (w.enqueue_tickets ++ [i])[w.queue.m_enqueue_pos]? = some i := by
    rw [← h.enqueue_length, getElem?_concat_length]
  set w' : World α :=
    { queue := { w.queue with m_enqueue_pos := w.queue.m_enqueue_pos + 1 }
      calls := w.calls.set i (.enq v (.write w.queue.m_enqueue_pos))
      enqueue_tickets := w.enqueue_tickets ++ [i]
      dequeue_tickets := w.dequeue_tickets } with hw'
  have hpub := published_step w' hi (by simp) rfl fun _ _ hk => getElem?_append_of_some hk
  have hf : Frame i w w' :=
    { Frame.refl i w with
      enqueue_pos := Nat.le_succ _
      enqueue_tickets := fun _ _ hk => getElem?_append_of_some hk
      published := hpub
      enqueue_cas := fun pos hpos _ he => absurd (he ▸ hpos) (Nat.not_succ_le_self _) }
  exact
    { h with
      enqueue_length := by simp [hw', h.enqueue_length]
      dequeue_le := Nat.le_succ_of_le h.dequeue_le
      enqueue_le := hroom
      window := by
        intro p hp hp'
        rcases h.window p hp hp' with h1 | ⟨h1, hv⟩ | ⟨h1, hle⟩
        · exact .inl h1
        · exact .inr (.inl ⟨h1, hpub _ _ hv⟩)
        · -- the cell won is free, so it is not one of those still held
          have hne : p ≠ w.queue.m_enqueue_pos := by
            rintro rfl
            have := h.even.two_le
            omega
          have hlt' : w.queue.m_enqueue_pos + 1 ≤ p := by omega
          exact .inr (.inr ⟨h1, hlt'⟩)
      calls := h.calls_step hi hf rfl ⟨h.dequeue_le, hseq, hticket⟩
      enqueue_owner :=
        owner_append (getElem?_set_self hlt) h.enqueue_length.symm
          (owner_step hi (fun _ => False.elim) h.enqueue_owner)
      dequeue_owner := owner_step hi (fun _ => False.elim) h.dequeue_owner
      enqueue_nodup := nodup_append hi (fun _ => id) h.enqueue_owner h.enqueue_nodup }

variable {pos : ℕ}

theorem Inv.enqueue_write (h : Inv w) (hi : w.calls[i]? = some (.enq v (.write pos))) :
    Inv { w with
      queue := w.queue.set_payload pos v, calls := w.calls.set i (.enq v (.store pos)) } := by
  obtain ⟨hd, hseq, hticket⟩ : _ ∧ _ ∧ _ := h.calls i _ hi
  set w' : World α :=
    { w with queue := w.queue.set_payload pos v, calls := w.calls.set i (.enq v (.store pos)) }
    with hw'
  have hpub := published_step w' hi (by simp) rfl fun _ _ hk => hk
  have hsame : ∀ p, (w'.queue.current p).sequence = (w.queue.current p).sequence :=
    fun p => sequence_set_payload w.queue pos p v
  have hother : ∀ p, w.queue.slot p ≠ w.queue.slot pos →
      w'.queue.current p = w.queue.current p := fun p hp => by
    rw [hw', current_set_payload, if_neg hp]
  have hf : Frame i w w' :=
    { Frame.refl i w with
      published := hpub
      enqueue_cas := fun p _ hs he => (hsame p).trans (hs he)
      enqueue_hold := by
        intro p j hji hdp hs ht
        refine ⟨hdp, hother p fun hslot => hji ?_⟩
        -- the same cell shows one number, so the two tickets are one
        have hp : p = pos := by rw [← hs, ← hseq, Queue.current, hslot]; rw [Queue.current]
        rw [hp, hticket, some.injEq] at ht
        exact ht.symm
      dequeue_cas := fun p _ hs he => (hsame p).trans (hs he)
      dequeue_hold := fun p j _ hs _ =>
        hother p fun hslot => h.slot_ne_of_sequence hseq hs hslot.symm }
  exact
    { h with
      window := by
        intro p hp hp'
        rcases h.window p hp hp' with h1 | ⟨h1, h2⟩ | h1
        · exact .inl ((hsame p).trans h1)
        · have hc := hother p fun hslot => h.slot_ne_of_sequence hseq h1 hslot.symm
          exact .inr (.inl ⟨(hsame p).trans h1, by rw [hc]; exact hpub _ _ h2⟩)
        · exact .inr (.inr (by rw [hsame p]; exact h1))
      calls := h.calls_step hi hf rfl
        ⟨hd, (hsame pos).trans hseq, hticket, by rw [hw', payload_set_payload, if_pos rfl]⟩
      enqueue_owner := owner_step hi (fun _ => id) h.enqueue_owner
      dequeue_owner := owner_step hi (fun _ => False.elim) h.dequeue_owner }

theorem Inv.enqueue_publish (h : Inv w) (hi : w.calls[i]? = some (.enq v (.store pos))) :
    Inv { w with queue := w.queue.store_sequence pos (pos + 1)
                 calls := w.calls.set i (.enq v (.returned true)) } := by
  obtain ⟨hd, hseq, hticket, hpay⟩ : _ ∧ _ ∧ _ ∧ _ := h.calls i _ hi
  have hlt : i < w.calls.length := (List.getElem?_eq_some_iff.mp hi).1
  set w' : World α :=
    { w with queue := w.queue.store_sequence pos (pos + 1)
             calls := w.calls.set i (.enq v (.returned true)) } with hw'
  have hpub := published_step w' hi (by simp) rfl fun _ _ hk => hk
  have hother : ∀ p, w.queue.slot p ≠ w.queue.slot pos →
      w'.queue.current p = w.queue.current p := fun p hp => by
    rw [hw', current_store_sequence, if_neg hp]
  have hown : Published w' pos v := ⟨i, hticket, getElem?_set_self hlt⟩
  -- a cell with the number of the ticket being published is the ticket's own
  have hfree : ∀ p, (w.queue.current p).sequence = p → w.queue.slot p = w.queue.slot pos →
      p = pos := fun p hs hslot => by
    rw [← hs, ← hseq, Queue.current, hslot, Queue.current]
  have hf : Frame i w w' :=
    { Frame.refl i w with
      published := hpub
      enqueue_cas := by
        intro p _ hs he
        rw [hother p]
        · exact hs he
        intro hslot
        have hp := hfree p (hs he) hslot
        have := h.enqueue_ticket_lt hticket
        rw [← hp, he] at this
        exact absurd this (Nat.lt_irrefl _)
      enqueue_hold := by
        intro p j hji hdp hs ht
        refine ⟨hdp, hother p fun hslot => hji ?_⟩
        rw [hfree p hs hslot, hticket, some.injEq] at ht
        exact ht.symm
      dequeue_cas := fun p _ hs he => by
        rw [hother p fun hslot => h.slot_ne_of_sequence hseq (hs he) hslot.symm]
        exact hs he
      dequeue_hold := fun p j _ hs _ =>
        hother p fun hslot => h.slot_ne_of_sequence hseq hs hslot.symm }
  exact
    { h with
      window := by
        intro p (hp : w.queue.m_dequeue_pos ≤ p)
          (hp' : p < w.queue.m_dequeue_pos + w.queue.m_capacity)
        by_cases hslot : w.queue.slot p = w.queue.slot pos
        · -- the published cell: `pos` lies in the window too, so `p` is `pos`
          have hposlt : pos < w.queue.m_dequeue_pos + w.queue.m_capacity :=
            lt_of_lt_of_le (h.enqueue_ticket_lt hticket) h.enqueue_le
          have hppos : p = pos := h.even.slot_inj hslot (by omega) (by omega)
          subst hppos
          refine .inr (.inl ⟨?_, ?_⟩)
          · rw [hw', sequence_store_sequence, if_pos rfl]
          · rw [hw', payload_store_sequence, hpay]
            exact hown
        · exact (h.window p hp hp').keep hpub rfl rfl (hother p hslot)
      calls := h.calls_step hi hf rfl trivial
      enqueue_owner := owner_step hi (fun _ _ => trivial) h.enqueue_owner
      dequeue_owner := owner_step hi (fun _ => False.elim) h.dequeue_owner }

theorem Inv.dequeue_win (h : Inv w)
    (hi : w.calls[i]? = some (.deq (.cas w.queue.m_dequeue_pos))) :
    Inv { queue := { w.queue with m_dequeue_pos := w.queue.m_dequeue_pos + 1 }
          calls := w.calls.set i (.deq (.copy w.queue.m_dequeue_pos))
          enqueue_tickets := w.enqueue_tickets
          dequeue_tickets := w.dequeue_tickets ++ [i] } := by
  have hlt : i < w.calls.length := (List.getElem?_eq_some_iff.mp hi).1
  have h2 := h.even.two_le
  have hseq : (w.queue.current w.queue.m_dequeue_pos).sequence = w.queue.m_dequeue_pos + 1 :=
    (h.calls i _ hi).2 rfl
  have hhead : Published w w.queue.m_dequeue_pos
    (w.queue.current w.queue.m_dequeue_pos).payload := by
    rcases h.window w.queue.m_dequeue_pos (le_refl _) (by omega) with h1 | ⟨-, h1⟩ | h1
    · omega
    · exact h1
    · omega
  have hticket : (w.dequeue_tickets ++ [i])[w.queue.m_dequeue_pos]? = some i := by
    rw [← h.dequeue_length, getElem?_concat_length]
  set w' : World α :=
    { queue := { w.queue with m_dequeue_pos := w.queue.m_dequeue_pos + 1 }
      calls := w.calls.set i (.deq (.copy w.queue.m_dequeue_pos))
      enqueue_tickets := w.enqueue_tickets
      dequeue_tickets := w.dequeue_tickets ++ [i] } with hw'
  have hpub := published_step w' hi (by simp) rfl fun _ _ hk => hk
  have hf : Frame i w w' :=
    { Frame.refl i w with
      dequeue_pos := Nat.le_succ _
      dequeue_tickets := fun _ _ hk => getElem?_append_of_some hk
      published := hpub
      enqueue_hold := by
        intro p j _ hdp hs _
        refine ⟨?_, rfl⟩
        -- the head is published, so a ticket still being written is past it
        rcases Nat.lt_or_eq_of_le hdp with hlt | heq
        · exact hlt
        · rw [heq] at hseq
          omega
      dequeue_cas := fun pos hpos _ he => absurd (he ▸ hpos) (Nat.not_succ_le_self _) }
  exact
    { h with
      dequeue_length := by simp [hw', h.dequeue_length]
      dequeue_le := by
        obtain ⟨j, hj, -⟩ := hhead
        exact h.enqueue_ticket_lt hj
      enqueue_le := le_trans h.enqueue_le (by simp only [hw']; omega)
      window := by
        intro p hp hp'
        simp only [hw'] at hp hp'
        rcases Nat.lt_or_ge p (w.queue.m_dequeue_pos + w.queue.m_capacity) with hin | hout
        · exact (h.window p (by omega) hin).keep hpub rfl rfl rfl
        have hpe : p = w.queue.m_dequeue_pos + w.queue.m_capacity := by omega
        have hc : (w.queue.current p).sequence = w.queue.m_dequeue_pos + 1 := by
          rw [hpe, Queue.current, h.even.slot_round]
          exact hseq
        have hsum : (w.queue.current p).sequence + w.queue.m_capacity = p + 1 := by omega
        exact .inr (.inr ⟨hsum, hpe ▸ h.enqueue_le⟩)
      calls := h.calls_step hi hf rfl ⟨hseq, hticket, hpub _ _ hhead⟩
      enqueue_owner := owner_step hi (fun _ => False.elim) h.enqueue_owner
      dequeue_owner :=
        owner_append (getElem?_set_self hlt) h.dequeue_length.symm
          (owner_step hi (fun _ => False.elim) h.dequeue_owner)
      dequeue_nodup := nodup_append hi (fun _ => id) h.dequeue_owner h.dequeue_nodup }

theorem Inv.dequeue_release (h : Inv w) (hi : w.calls[i]? = some (.deq (.store pos v))) :
    Inv { w with queue := w.queue.store_sequence pos (pos + w.queue.m_mask + 1)
                 calls := w.calls.set i (.deq (.returned (some v))) } := by
  obtain ⟨hseq, hticket, hread⟩ : _ ∧ _ ∧ _ := h.calls i _ hi
  have hposlt := h.dequeue_ticket_lt hticket
  rw [h.even.mask_succ]
  set w' : World α :=
    { w with queue := w.queue.store_sequence pos (pos + w.queue.m_capacity)
             calls := w.calls.set i (.deq (.returned (some v))) } with hw'
  have hpub := published_step w' hi (by simp) rfl fun _ _ hk => hk
  have hother : ∀ p, w.queue.slot p ≠ w.queue.slot pos →
      w'.queue.current p = w.queue.current p := fun p hp => by
    rw [hw', current_store_sequence, if_neg hp]
  -- a cell that reads as published with `p` is the released one only if `p` is `pos`
  have hfull : ∀ p, (w.queue.current p).sequence = p + 1 → w.queue.slot p = w.queue.slot pos →
      p = pos := fun p hs hslot => by
    have : p + 1 = pos + 1 := by rw [← hs, ← hseq, Queue.current, hslot, Queue.current]
    omega
  have hf : Frame i w w' :=
    { Frame.refl i w with
      published := hpub
      enqueue_cas := fun p _ hs he => by
        rw [hother p (h.slot_ne_of_sequence (hs he) hseq)]
        exact hs he
      enqueue_hold := fun p j _ hdp hs _ =>
        ⟨hdp, hother p (h.slot_ne_of_sequence hs hseq)⟩
      dequeue_cas := by
        intro p _ hs he
        rw [hother p]
        · exact hs he
        intro hslot
        have hp := hfull p (hs he) hslot
        rw [← hp, he] at hposlt
        exact absurd hposlt (Nat.lt_irrefl _)
      dequeue_hold := by
        intro p j hji hs ht
        refine hother p fun hslot => hji ?_
        rw [hfull p hs hslot, hticket, some.injEq] at ht
        exact ht.symm }
  exact
    { h with
      window := by
        intro p (hp : w.queue.m_dequeue_pos ≤ p)
          (hp' : p < w.queue.m_dequeue_pos + w.queue.m_capacity)
        by_cases hslot : w.queue.slot p = w.queue.slot pos
        · have hcur : (w.queue.current p).sequence = pos + 1 := by
            rw [← hseq, Queue.current, hslot, Queue.current]
          rcases h.window p hp hp' with h1 | ⟨h1, -⟩ | h1
          · exact absurd hslot (h.slot_ne_of_sequence h1 hseq)
          · have := hfull p h1 hslot
            omega
          · refine .inl ?_
            rw [hw', sequence_store_sequence, if_pos hslot]
            omega
        · exact (h.window p hp hp').keep hpub rfl rfl (hother p hslot)
      calls := h.calls_step hi hf rfl ⟨pos, hticket, hpub _ _ hread⟩
      enqueue_owner := owner_step hi (fun _ => False.elim) h.enqueue_owner
      dequeue_owner := owner_step hi (fun _ _ => trivial) h.dequeue_owner }

end Effects

/-! ## Every run -/

theorem inv_init (hmax : 2 ≤ max_requests) (w : World α) (hw : (system α max_requests).init w) :
    Inv w := by
  obtain ⟨garbage, rfl⟩ := hw
  have heven : (Queue.fresh max_requests garbage).Even := normalize_capacity_even hmax
  exact
    { even := heven
      enqueue_length := rfl
      dequeue_length := rfl
      dequeue_le := le_refl _
      enqueue_le := Nat.zero_le _
      window := by
        intro p _ hp
        refine .inl ?_
        change (Queue.fresh max_requests garbage).slot p = p
        rw [heven.slot_eq]
        exact Nat.mod_eq_of_lt (by simpa [Queue.fresh] using hp)
      calls := by simp
      enqueue_owner := by simp
      dequeue_owner := by simp
      enqueue_nodup := nodup_nil
      dequeue_nodup := nodup_nil }

theorem Inv.start (h : Inv w) (hc : ∀ u : World α, CallOk u w.calls.length c) :
    Inv { w with calls := w.calls ++ [c] } := by
  have hcalls : ∀ j d, w.calls[j]? = some d → (w.calls ++ [c])[j]? = some d := fun j d hj => by
    rw [getElem?_append_left (getElem?_eq_some_iff.mp hj).1]
    exact hj
  have hpub : ∀ p v, Published w p v → Published { w with calls := w.calls ++ [c] } p v := by
    rintro p v ⟨j, hj, hd⟩
    exact ⟨j, hj, hcalls j _ hd⟩
  -- the frame of a call that is not in the list yet
  have hf : Frame w.calls.length w { w with calls := w.calls ++ [c] } :=
    { Frame.refl _ w with published := hpub }
  exact
    { h with
      window := fun p hp hp' => (h.window p hp hp').keep hpub rfl rfl rfl
      calls := by
        intro j d hj
        rcases getElem?_append_cases hj with ⟨rfl, rfl⟩ | hj'
        · exact hc _
        · exact hf.callOk (Nat.ne_of_lt (List.getElem?_eq_some_iff.mp hj').1) (h.calls j d hj')
      enqueue_owner := fun k j hk => by
        obtain ⟨d, hd, ho⟩ := h.enqueue_owner k j hk
        exact ⟨d, hcalls j d hd, ho⟩
      dequeue_owner := fun k j hk => by
        obtain ⟨d, hd, ho⟩ := h.dequeue_owner k j hk
        exact ⟨d, hcalls j d hd, ho⟩ }

theorem Inv.enqueue_call (h : Inv w) (hi : w.calls[i]? = some (.enq v pc))
    (hr : enqueue_step w.queue v spurious pc = some r) :
    Inv { w with
      queue := r.1
      calls := w.calls.set i (.enq v r.2)
      enqueue_tickets := record i w.enqueue_tickets (enqueue_won r.2) } := by
  have hk := h.calls i _ hi
  cases pc with
  | load_pos =>
    cases hr
    exact h.stutter_free hi (fun _ => id) (fun _ => id) (le_refl _)
  | load_seq pos =>
    simp only [enqueue_step] at hr
    split_ifs at hr with h0 h1
    · cases hr
      refine h.stutter_free hi (fun _ => id) (fun _ => id) ⟨hk, fun _ => ?_⟩
      change (w.queue.current pos).sequence = pos
      omega
    all_goals
      cases hr
      exact h.stutter_free hi (fun _ => id) (fun _ => id) trivial
  | cas pos =>
    simp only [enqueue_step] at hr
    split_ifs at hr with hwin
    · obtain ⟨rfl, -⟩ := hwin
      cases hr
      exact h.enqueue_win hi
    · cases hr
      exact h.stutter_free hi (fun _ => id) (fun _ => id) (le_refl _)
  | write pos => cases hr; exact h.enqueue_write hi
  | store pos => cases hr; exact h.enqueue_publish hi
  | returned ok => cases hr

theorem Inv.dequeue_call {pc : DequeuePc α} {r : Queue α × DequeuePc α} (h : Inv w)
    (hi : w.calls[i]? = some (.deq pc)) (hr : dequeue_step w.queue spurious pc = some r) :
    Inv { w with
      queue := r.1
      calls := w.calls.set i (.deq r.2)
      dequeue_tickets := record i w.dequeue_tickets (dequeue_won r.2) } := by
  have hk := h.calls i _ hi
  cases pc with
  | load_pos =>
    cases hr
    exact h.stutter_free hi (fun _ => id) (fun _ => id) (le_refl _)
  | load_seq pos =>
    simp only [dequeue_step] at hr
    split_ifs at hr with h0 h1
    · cases hr
      refine h.stutter_free hi (fun _ => id) (fun _ => id) ⟨hk, fun _ => ?_⟩
      change (w.queue.current pos).sequence = pos + 1
      omega
    all_goals
      cases hr
      exact h.stutter_free hi (fun _ => id) (fun _ => id) trivial
  | cas pos =>
    simp only [dequeue_step] at hr
    split_ifs at hr with hwin
    · obtain ⟨rfl, -⟩ := hwin
      cases hr
      exact h.dequeue_win hi
    · cases hr
      exact h.stutter_free hi (fun _ => id) (fun _ => id) (le_refl _)
  | copy pos =>
    cases hr
    obtain ⟨hs, ht, hp⟩ : _ ∧ _ ∧ _ := hk
    refine h.stutter hi (by simp) (fun _ => id) (fun _ => id) ⟨hs, ht, ?_⟩
    exact published_step { w with calls := _ } hi (by simp) rfl (fun _ _ => id) _ _ hp
  | store pos value => cases hr; exact h.dequeue_release hi
  | returned result => cases hr

theorem Inv.step {l : Label α} (h : Inv w) (hl : step w l = some w') : Inv w' := by
  cases l with
  | step i spurious =>
    simp only [MpmcQueue.step] at hl
    split at hl
    · cases hl
    · rename_i value pc hi
      obtain ⟨r, hr, rfl⟩ := map_eq_some_iff.mp hl
      exact h.enqueue_call hi hr
    · rename_i pc hi
      obtain ⟨r, hr, rfl⟩ := map_eq_some_iff.mp hl
      exact h.dequeue_call hi hr
  | _ => cases hl; exact h.start fun _ => trivial

theorem inv_of_reachable (hmax : 2 ≤ max_requests) (hw : (system α max_requests).Reachable w) :
    Inv w :=
  System.Reachable.invariant _ (inv_init hmax) (fun _ _ _ h hl => h.step hl) hw


theorem enqueue_step_capacity (hr : enqueue_step q v spurious pc = some r) :
    r.1.m_capacity = q.m_capacity := by
  cases pc <;> simp only [enqueue_step] at hr <;> (try split_ifs at hr) <;> cases hr <;> rfl

theorem dequeue_step_capacity {pc : DequeuePc α} {r : Queue α × DequeuePc α}
    (hr : dequeue_step q spurious pc = some r) : r.1.m_capacity = q.m_capacity := by
  cases pc <;> simp only [dequeue_step] at hr <;> (try split_ifs at hr) <;> cases hr <;> rfl

theorem capacity_of_reachable (hw : (system α max_requests).Reachable w) :
    w.queue.m_capacity = normalize_capacity max_requests := by
  refine System.Reachable.invariant _
    (P := fun w : World α => w.queue.m_capacity = normalize_capacity max_requests) ?_ ?_ hw
  · rintro w ⟨garbage, rfl⟩
    rfl
  intro w l w' h hl
  rw [← h]
  cases l with
  | step i spurious =>
    simp only [system, MpmcQueue.step] at hl
    split at hl
    · cases hl
    · obtain ⟨r, hr, rfl⟩ := map_eq_some_iff.mp hl
      exact enqueue_step_capacity hr
    · obtain ⟨r, hr, rfl⟩ := map_eq_some_iff.mp hl
      exact dequeue_step_capacity hr
  | _ => cases hl; rfl

/-! ## What the ring is for -/

section Delivery

theorem ticket_unique (hnd : tickets.Nodup) {k' : ℕ} (hk : tickets[k]? = some i)
    (hk' : tickets[k']? = some i) : k = k' :=
  (List.getElem?_inj (List.getElem?_eq_some_iff.mp hk).1 hnd).mp (hk.trans hk'.symm)

theorem Inv.returned (h : Inv w) (hi : w.calls[i]? = some (.deq (.returned (some v)))) :
    ∃ k, w.dequeue_tickets[k]? = some i ∧ Published w k v := h.calls i _ hi

theorem Inv.unreleased (h : Inv w) (hseq : (w.queue.current k).sequence = k + 1)
    (hk : k < w.queue.m_dequeue_pos) :
    w.queue.m_enqueue_pos ≤ k + w.queue.m_capacity := by
  have h2 := h.even.two_le
  -- the ticket of the window that has the cell of `k`, `rounds` rounds later
  set rounds := w.queue.m_capacity * ((w.queue.m_dequeue_pos - 1 - k) / w.queue.m_capacity)
    with hrounds
  have hdiv := Nat.div_add_mod (w.queue.m_dequeue_pos - 1 - k) w.queue.m_capacity
  have hmod := Nat.mod_lt (w.queue.m_dequeue_pos - 1 - k) (by omega : 0 < w.queue.m_capacity)
  have hround : (w.queue.current (k + rounds + w.queue.m_capacity)).sequence = k + 1 := by
    rw [Queue.current, h.even.slot_round, h.even.slot_eq, hrounds, Nat.add_mul_mod_self_left,
      ← h.even.slot_eq]
    exact hseq
  rcases h.window (k + rounds + w.queue.m_capacity) (by omega) (by omega) with
    h1 | ⟨h1, -⟩ | ⟨h1, h3⟩
  · omega
  · omega
  · omega

theorem Inv.drained (h : Inv w) (hk : k + w.queue.m_capacity < w.enqueue_tickets.length) :
    ∃ i v, w.dequeue_tickets[k]? = some i ∧ w.calls[i]? = some (.deq (.returned (some v))) := by
  rw [h.enqueue_length] at hk
  have hle := h.enqueue_le
  have hkd : k < w.queue.m_dequeue_pos := by omega
  have hkl : k < w.dequeue_tickets.length := by rw [h.dequeue_length]; exact hkd
  have hticket : w.dequeue_tickets[k]? = some w.dequeue_tickets[k] := getElem?_eq_getElem hkl
  obtain ⟨c, hc, hown⟩ := h.dequeue_owner k _ hticket
  have hcall := h.calls _ c hc
  rcases c with ⟨_, pc⟩ | pc
  · exact hown.elim
  rcases pc with _ | _ | _ | pos | ⟨pos, _⟩ | _ | v
  case copy | store =>
    -- the cell of a call that has not returned is not free for the next lap
    obtain rfl : pos = k := hown
    have := h.unreleased hcall.1 hkd
    omega
  case returned.some => exact ⟨_, v, hticket, hc⟩
  all_goals exact hown.elim

end Delivery

/-- No position and no sequence number has wrapped. -/
def Unwrapped (w : World α) : Prop :=
  w.queue.m_enqueue_pos < 2 ^ 64 ∧ w.queue.m_dequeue_pos < 2 ^ 64 ∧
    ∀ p, w.queue.m_dequeue_pos ≤ p → p < w.queue.m_dequeue_pos + w.queue.m_capacity →
      (w.queue.current p).sequence < 2 ^ 64

theorem Inv.unwrapped (h : Inv w) (hk : w.enqueue_tickets.length + w.queue.m_capacity < 2 ^ 64) :
    Unwrapped w := by
  rw [h.enqueue_length] at hk
  have hle := h.dequeue_le
  refine ⟨by omega, by omega, fun p hlow hhigh => ?_⟩
  rcases h.window p hlow hhigh with hseq | ⟨hseq, -⟩ | ⟨hseq, -⟩ <;> omega

/-- **No task is lost or duplicated.** In every state of every run of a ring
built for at least two requests:

* the `dequeue` calls that returned a value map injectively to `enqueue` calls
  that returned `true` and had been passed that value;
* the call that made the `k`-th successful `dequeue` exchange returns the value
  passed to the call that made the `k`-th successful `enqueue` exchange;
* no call copies a payload out of a cell another call is about to write;
* at most `normalize_capacity max_requests` values are outstanding: tickets
  further back than that have not only been taken but returned;
* no `size_t` has wrapped before the ring has handed out `2 ^ 64` tickets, less its size. -/
theorem no_task_lost_or_duplicated {max_requests : ℕ} (hmax : 2 ≤ max_requests) {w : World α}
    (hw : (system α max_requests).Reachable w) :
    (∃ source : ℕ → ℕ,
      (∀ (i : ℕ) (v : α), w.calls[i]? = some (.deq (.returned (some v))) →
        w.calls[source i]? = some (.enq v (.returned true))) ∧
      Set.InjOn source {i : ℕ | ∃ v, w.calls[i]? = some (.deq (.returned (some v)))}) ∧
    (∀ (k i : ℕ) (v : α), w.dequeue_tickets[k]? = some i →
    w.calls[i]? = some (.deq (.returned (some v))) →
      ∃ j, w.enqueue_tickets[k]? = some j ∧ w.calls[j]? = some (.enq v (.returned true))) ∧
    (∀ (i j : ℕ) (v : α) (pos pos' : ℕ), w.calls[i]? = some (.deq (.copy pos)) →
      w.calls[j]? = some (.enq v (.write pos')) → w.queue.slot pos ≠ w.queue.slot pos') ∧
    w.dequeue_tickets.length ≤ w.enqueue_tickets.length ∧
    w.enqueue_tickets.length ≤ w.dequeue_tickets.length + normalize_capacity max_requests ∧
    (∀ k, k + normalize_capacity max_requests < w.enqueue_tickets.length →
      ∃ i v, w.dequeue_tickets[k]? = some i ∧ w.calls[i]? = some (.deq (.returned (some v)))) ∧
    (w.enqueue_tickets.length + normalize_capacity max_requests < 2 ^ 64 → Unwrapped w) := by
  have h := inv_of_reachable hmax hw
  have hcap := capacity_of_reachable hw
  refine ⟨⟨fun i => (w.enqueue_tickets[w.dequeue_tickets.idxOf i]?).getD 0, ?_, ?_⟩, ?_, ?_, ?_,
    ?_, ?_, ?_⟩
  · intro i v hi
    obtain ⟨k, hk, j, hj, hjc⟩ := h.returned hi
    have hidx : w.dequeue_tickets.idxOf i = k := by
      refine ticket_unique h.dequeue_nodup ?_ hk
      exact getElem?_idxOf (mem_of_getElem? hk)
    simp only [hidx, hj, getD_some]
    exact hjc
  · rintro i ⟨v, hi⟩ i' ⟨v', hi'⟩ hsrc
    obtain ⟨k, hk, j, hj, -⟩ := h.returned hi
    obtain ⟨k', hk', j', hj', -⟩ := h.returned hi'
    have hidx : w.dequeue_tickets.idxOf i = k :=
      ticket_unique h.dequeue_nodup (getElem?_idxOf (mem_of_getElem? hk)) hk
    have hidx' : w.dequeue_tickets.idxOf i' = k' :=
      ticket_unique h.dequeue_nodup (getElem?_idxOf (mem_of_getElem? hk')) hk'
    simp only [hidx, hidx', hj, hj', getD_some] at hsrc
    subst hsrc
    have hkk := ticket_unique h.enqueue_nodup hj hj'
    subst hkk
    rw [hk, some.injEq] at hk'
    exact hk'
  · intro k i v hk hi
    obtain ⟨k', hk', j, hj, hjc⟩ := h.returned hi
    rw [ticket_unique h.dequeue_nodup hk hk']
    exact ⟨j, hj, hjc⟩
  · intro i j v pos pos' hi hj hslot
    have hread : (w.queue.current pos).sequence = pos + 1 := (h.calls i _ hi).1
    have hwrite : (w.queue.current pos').sequence = pos' := (h.calls j _ hj).2.1
    exact h.slot_ne_of_sequence hwrite hread hslot.symm
  · rw [h.enqueue_length, h.dequeue_length]
    exact h.dequeue_le
  · rw [h.enqueue_length, h.dequeue_length, ← hcap]
    exact h.enqueue_le
  · intro k hk
    rw [← hcap] at hk
    exact h.drained hk
  · intro hk
    rw [← hcap] at hk
    exact h.unwrapped hk

/-- One value through the smallest ring: call 0 enqueues it, call 1 gets it. -/
theorem one_value_delivered :
    ∃ w : World ℕ, (system ℕ 2).Reachable w ∧
      w.calls = [.enq 7 (.returned true), .deq (.returned (some 7))] ∧
      ∃ j : ℕ, w.enqueue_tickets[0]? = some j ∧ w.calls[j]? = some (.enq 7 (.returned true)) := by
  obtain ⟨w, hw, hp⟩ := System.Reachable.of_run (system ℕ 2)
    (s := ⟨Queue.fresh 2 (fun _ => 0), [], [], []⟩) ⟨fun _ => 0, rfl⟩
    (.enqueue 7 :: .dequeue ::
      (replicate 5 (.step 0 false) ++ replicate 5 (.step 1 false)))
    (fun w => decide (w.calls = [.enq 7 (.returned true), .deq (.returned (some 7))] ∧
      w.dequeue_tickets = [1])) (by decide)
  obtain ⟨hcalls, htickets⟩ := of_decide_eq_true hp
  exact ⟨w, hw, hcalls, (no_task_lost_or_duplicated (by decide) hw).2.1 0 1 7
    (by rw [htickets]; rfl) (by rw [hcalls]; rfl)⟩

end AtlasWebServer.MpmcQueue
