/-
Sending a scheduled response: `write` (`http/core/runtime.cpp`), `ring_send` and
`send_file_over_tls` (`http/core/io.cpp`).

The head of a response is in the write ring, its file is open. `write` sends the ring
stretch by stretch, then the file: with `sendfile` on a plain connection, through
`m_file_send_buf` under TLS. It returns whenever the socket would block, and is called
again later. A **step** is what happens between one system call and the next: it takes
the answer of the call that was pending (`Answer`) up to the next call. So every way the
kernel can cut the response is a run, and so is every way it can interrupt it.

What is still to be sent is the ring, then `unsent`. Together with the bytes already on
the wire that is the response at every step (`Counts`), and the two counters are the
lengths of the two halves. Answers that are failures end the run, with bytes left.
-/
import AtlasWebServer.ResponseWriter
import AtlasWebServer.StepSystem

set_option autoImplicit false

namespace AtlasWebServer.ResponseSending

open Bytes CString RingBuffer StepSystem List

open AtlasWebServer.Http (Ring to_int to_int_of_lt)

/-! ## `write` -/

/-- The answer of a system call: a count, or `-1` with an error number. -/
inductive Answer
  | count (n : ℕ)
  | EINTR
  | EAGAIN
  | error

/-- Where a connection stands: outside `write`, at a system call of it, in
`finish_write_cycle`, or behind a `write` that returned false. `spinning` is the loop of
`write` with nothing to send from, `initialised` the `init` for an empty response. -/
inductive Point
  | outside
  | ring_send
  | sendfile
  | read_file
  | tls_send
  | finish_write_cycle
  | failed
  | initialised
  | spinning
  deriving DecidableEq

/-- What `write` reads and changes. An open file is its content; `position` is where `read`
goes on, and `wire` is what the socket was handed. -/
structure Sender where
  m_https_enabled : Bool
  m_write_ring : Ring
  bytes_to_send : ℤ
  bytes_have_send : ℤ
  m_header_bytes_sent : ℤ
  m_filefd : Option Bytes
  m_file_offset : ℕ
  st_size : ℕ
  position : ℕ
  m_file_send_buf : Bytes
  m_file_send_offset : ℕ
  m_file_send_size : ℕ
  point : Point
  wire : Bytes

namespace Sender

def close_file (c : Sender) : Sender := { c with m_filefd := none }

def fail (c : Sender) : Sender := { c.close_file with point := .failed }

def wait (c : Sender) : Sender := { c with point := .outside }

/-- `finish_write_cycle`, up to what it does with `m_linger`. -/
def finish_write_cycle (c : Sender) : Sender :=
  { c.close_file with point := .finish_write_cycle }

def hand_over (c : Sender) (out : Bytes) : Sender :=
  { c with
    wire := c.wire ++ out
    bytes_have_send := to_int (c.bytes_have_send + out.length)
    bytes_to_send := to_int (c.bytes_to_send - out.length) }

/-- The loop of `send_file_over_tls`, up to its next system call. -/
def send_file_over_tls (c : Sender) : Sender :=
  if c.m_file_send_offset ≥ c.m_file_send_size then { c with point := .read_file }
  else { c with point := .tls_send }

/-- The loop of `write`, up to its next system call. -/
def write_loop (c : Sender) : Sender :=
  if c.m_write_ring.size > 0 then { c with point := .ring_send }
  else if c.m_filefd.isSome then
    if c.m_https_enabled then c.send_file_over_tls else { c with point := .sendfile }
  else if c.bytes_to_send ≤ 0 then c.finish_write_cycle
  else { c with point := .spinning }

def write (c : Sender) : Sender :=
  if c.bytes_to_send = 0 then { c with point := .initialised } else c.write_loop

/-- The end of the loop of `write`, after some bytes went out. -/
def next (c : Sender) : Sender :=
  if c.bytes_to_send ≤ 0 then c.finish_write_cycle else c.write_loop

def send_ring (c : Sender) (n : ℕ) : Sender :=
  { c.hand_over (c.m_write_ring.front.take n) with
    m_write_ring := c.m_write_ring.advance n
    m_header_bytes_sent := to_int (c.m_header_bytes_sent + n) }

def ring_sent (c : Sender) : Answer → Option Sender
  | .EINTR => some c.write_loop
  | .EAGAIN => some c.wait
  | .error => some c.fail
  | .count n =>
      if n > c.m_write_ring.front.length then none
      else if n = 0 then some c.fail
      else some (c.send_ring n).next

/-- The file goes out from `m_file_offset` on. -/
def send_file (c : Sender) (content : Bytes) (n : ℕ) : Sender :=
  { c.hand_over ((content.drop c.m_file_offset).take n) with
    m_file_offset := c.m_file_offset + n }

def file_sent (c : Sender) (content : Bytes) : Answer → Option Sender
  | .EINTR => some c.write_loop
  | .EAGAIN => some c.wait
  | .error => some c.fail
  | .count n =>
      if (n : ℤ) > c.bytes_to_send ∨ n > (content.drop c.m_file_offset).length then none
      else if n = 0 then
        if c.bytes_to_send ≤ 0 ∨ c.m_file_offset ≥ c.st_size then
          some (write_loop { c with bytes_to_send := 0 })
        else some c.wait
      else some (c.send_file content n).next

/-- `m_file_send_buf` is filled from the file. -/
def fill (c : Sender) (content : Bytes) (n : ℕ) : Sender :=
  { c with
    m_file_send_buf := (content.drop c.position).take n ++ c.m_file_send_buf.drop n
    position := c.position + n
    m_file_send_offset := 0
    m_file_send_size := n
    point := .tls_send }

/-- `send_file_over_tls` after `read`, which gives nothing only at the end of the file. -/
def file_read (c : Sender) (content : Bytes) : Answer → Option Sender
  | .EINTR => some c.send_file_over_tls
  | .EAGAIN => some c.fail
  | .error => some c.fail
  | .count n =>
      let ahead := content.drop c.position
      if n > c.m_file_send_buf.length ∨ n > ahead.length ∨ n = 0 ∧ ahead ≠ [] then none
      else if n = 0 then
        some (if c.bytes_to_send > 0 then c.close_file.wait else c.finish_write_cycle)
      else some (c.fill content n)

/-- The part of `m_file_send_buf` that is to be sent. -/
def window (c : Sender) : Bytes :=
  (c.m_file_send_buf.drop c.m_file_send_offset).take (c.m_file_send_size - c.m_file_send_offset)

/-- The start of the window goes out; a buffer that is used up starts over. -/
def send_window (c : Sender) (n : ℕ) : Sender :=
  let sent := c.hand_over (c.window.take n)
  if c.m_file_send_offset + n ≥ c.m_file_send_size then
    { sent with m_file_send_offset := 0, m_file_send_size := 0 }
  else { sent with m_file_send_offset := c.m_file_send_offset + n }

/-- `send_file_over_tls` after `socket_send`, and `write` after it. -/
def tls_sent (c : Sender) : Answer → Option Sender
  | .EINTR => some c.send_file_over_tls
  | .EAGAIN => some c.wait
  | .error => some c.fail
  | .count n =>
      if n > c.window.length then none
      else if n = 0 then some c.fail
      else
        let c := c.send_window n
        some (if c.bytes_to_send ≤ 0 then c.finish_write_cycle else c.send_file_over_tls)

end Sender

/-- `write` is called, or its pending system call answers. -/
inductive Label
  | write
  | answer (a : Answer)

def step (c : Sender) : Label → Option Sender
  | .write => if c.point = .outside then some c.write else none
  | .answer a =>
      match c.point with
      | .ring_send => c.ring_sent a
      | .sendfile => c.m_filefd.bind fun content => c.file_sent content a
      | .read_file => c.m_filefd.bind fun content => c.file_read content a
      | .tls_send => c.tls_sent a
      | _ => none

/-- What `process_write` leaves for a head and a file, and `init` for the rest. -/
structure Start (h f : Bytes) (c : Sender) : Prop where
  point : c.point = .outside
  ring : c.m_write_ring.contents = h
  bytes_to_send : c.bytes_to_send = to_int (h.length + f.length)
  bytes_have_send : c.bytes_have_send = 0
  file : f ≠ [] → c.m_filefd = some f
  st_size : c.st_size = f.length
  m_file_offset : c.m_file_offset = 0
  position : c.position = 0
  m_file_send_offset : c.m_file_send_offset = 0
  m_file_send_size : c.m_file_send_size = 0
  m_file_send_buf : 0 < c.m_file_send_buf.length
  wire : c.wire = []

/-- A response of head `h` and file `f` is sent. -/
def system (h f : Bytes) : System Sender Label where
  init := Start h f
  step := step

/-! ## What is on the wire and what is left -/

/-- The part of the file that is to be sent. -/
def Sender.unsent (f : Bytes) (c : Sender) : Bytes :=
  if c.m_https_enabled then c.window ++ f.drop c.position else f.drop c.m_file_offset

/-- The wire and the rest are the response, and the counters count them. -/
structure Counts (h f : Bytes) (c : Sender) : Prop where
  split : c.wire ++ (c.m_write_ring.contents ++ c.unsent f) = h ++ f
  to_send : c.bytes_to_send = (c.m_write_ring.contents ++ c.unsent f).length
  have_send : c.bytes_have_send = c.wire.length
  send_size : c.m_file_send_size ≤ c.m_file_send_buf.length
  send_buf : 0 < c.m_file_send_buf.length
  st_size : c.st_size = f.length

def AtPoint (c : Sender) : Prop :=
  match c.point with
  | .outside => 0 < c.bytes_to_send
  | .ring_send => 0 < c.m_write_ring.size
  | .sendfile => c.m_write_ring.size = 0 ∧ c.m_https_enabled = false ∧ 0 < c.bytes_to_send
  | .read_file => c.m_write_ring.size = 0 ∧ c.m_https_enabled = true ∧
      c.m_file_send_size ≤ c.m_file_send_offset ∧ 0 < c.bytes_to_send
  | .tls_send => c.m_write_ring.size = 0 ∧ c.m_https_enabled = true ∧
      c.m_file_send_offset < c.m_file_send_size
  | .finish_write_cycle => c.bytes_to_send = 0
  | .failed => 0 < c.bytes_to_send
  | .initialised => False
  | .spinning => False

/-- The file is open while bytes of it are to be sent. -/
def Open (f : Bytes) (c : Sender) : Prop := c.unsent f ≠ [] → c.m_filefd = some f

structure Inv (h f : Bytes) (c : Sender) : Prop where
  counts : Counts h f c
  file : c.point ≠ .failed → Open f c
  at_point : AtPoint c

section Steps

variable {h f : Bytes} {c c' : Sender}

theorem Counts.moved (hc : Counts h f c) (point : Point) (m_filefd : Option Bytes) :
    Counts h f { c with point, m_filefd } :=
  ⟨hc.split, hc.to_send, hc.have_send, hc.send_size, hc.send_buf, hc.st_size⟩

theorem Counts.total (hc : Counts h f c) :
    c.bytes_have_send + c.bytes_to_send = ((h ++ f).length : ℤ) := by
  have hlen := congrArg List.length hc.split
  rw [length_append] at hlen
  rw [hc.have_send, hc.to_send]
  omega

theorem Counts.to_send_nonneg (hc : Counts h f c) : 0 ≤ c.bytes_to_send := by
  rw [hc.to_send]
  exact Int.natCast_nonneg _

theorem Counts.sent (hc : Counts h f c) (hlen : (h ++ f).length < 2 ^ 31) {out : Bytes}
    (hrest : c.m_write_ring.contents ++ c.unsent f =
      out ++ (c'.m_write_ring.contents ++ c'.unsent f))
    (hwire : c'.wire = c.wire ++ out)
    (hto : c'.bytes_to_send = to_int (c.bytes_to_send - out.length))
    (hhave : c'.bytes_have_send = to_int (c.bytes_have_send + out.length))
    (hsize : c'.m_file_send_size ≤ c'.m_file_send_buf.length)
    (hbuf : 0 < c'.m_file_send_buf.length) (hst : c'.st_size = c.st_size) : Counts h f c' := by
  have hsplit : c'.wire ++ (c'.m_write_ring.contents ++ c'.unsent f) = h ++ f := by
    rw [hwire, append_assoc, ← hrest, hc.split]
  have hsum : c'.wire.length + (c'.m_write_ring.contents ++ c'.unsent f).length =
      (h ++ f).length := by
    rw [← length_append, hsplit]
  refine ⟨hsplit, ?_, ?_, hsize, hbuf, hst.trans hc.st_size⟩
  · have hdiff : c.bytes_to_send - (out.length : ℤ) =
        ((c'.m_write_ring.contents ++ c'.unsent f).length : ℕ) := by
      rw [hc.to_send, hrest, length_append]
      push_cast
      ring
    rw [hto, hdiff, to_int_of_lt (by omega)]
  have hmore : c.bytes_have_send + (out.length : ℤ) = (c'.wire.length : ℕ) := by
    rw [hc.have_send, hwire, length_append]
    rfl
  rw [hhave, hmore, to_int_of_lt (by omega)]

theorem Counts.unsent_ne_nil (hc : Counts h f c) (hring : c.m_write_ring.size = 0)
    (hpos : 0 < c.bytes_to_send) : c.unsent f ≠ [] := by
  intro hnil
  have hempty : c.m_write_ring.contents = [] := by
    rw [← length_eq_zero_iff, RingBuf.length_contents, hring]
  rw [hc.to_send, hempty, hnil] at hpos
  simp at hpos

theorem length_window (c : Sender) (hsize : c.m_file_send_size ≤ c.m_file_send_buf.length) :
    c.window.length = c.m_file_send_size - c.m_file_send_offset := by
  unfold Sender.window
  rw [length_take, length_drop]
  omega

/-! ## Between two system calls -/

theorem Inv.fail (hc : Counts h f c) (hpos : 0 < c.bytes_to_send) : Inv h f c.fail :=
  ⟨hc.moved .failed none, fun hne => absurd rfl hne, hpos⟩

theorem Inv.wait (hc : Counts h f c) (hfile : Open f c) (hpos : 0 < c.bytes_to_send) :
    Inv h f c.wait :=
  ⟨hc.moved .outside c.m_filefd, fun _ => hfile, hpos⟩

theorem Inv.finish (hc : Counts h f c) (hdone : c.bytes_to_send ≤ 0) :
    Inv h f c.finish_write_cycle := by
  have hzero : c.bytes_to_send = 0 := le_antisymm hdone hc.to_send_nonneg
  refine ⟨hc.moved .finish_write_cycle none, fun _ hne => absurd ?_ hne, hzero⟩
  -- nothing is left, so it does not matter that the file is closed
  have hnil : c.m_write_ring.contents ++ c.unsent f = [] := by
    rw [← length_eq_zero_iff]
    have := hc.to_send
    omega
  exact (append_eq_nil_iff.mp hnil).2

theorem Inv.send_file_over_tls (hc : Counts h f c) (hfile : Open f c)
    (hring : c.m_write_ring.size = 0) (hhttps : c.m_https_enabled = true)
    (hpos : 0 < c.bytes_to_send) : Inv h f c.send_file_over_tls := by
  unfold Sender.send_file_over_tls
  by_cases hempty : c.m_file_send_offset ≥ c.m_file_send_size
  · rw [if_pos hempty]
    exact ⟨hc.moved .read_file c.m_filefd, fun _ => hfile, hring, hhttps, hempty, hpos⟩
  · rw [if_neg hempty]
    exact ⟨hc.moved .tls_send c.m_filefd, fun _ => hfile, hring, hhttps, not_le.mp hempty⟩

theorem Inv.write_loop (hc : Counts h f c) (hfile : Open f c) (hpos : 0 < c.bytes_to_send) :
    Inv h f c.write_loop := by
  unfold Sender.write_loop
  by_cases hring : c.m_write_ring.size > 0
  · rw [if_pos hring]
    exact ⟨hc.moved .ring_send c.m_filefd, fun _ => hfile, hring⟩
  have hzero : c.m_write_ring.size = 0 := by omega
  have hopen : c.m_filefd = some f := hfile (hc.unsent_ne_nil hzero hpos)
  rw [if_neg hring, if_pos (by rw [hopen]; rfl)]
  by_cases hhttps : c.m_https_enabled = true
  · rw [if_pos hhttps]
    exact Inv.send_file_over_tls hc hfile hzero hhttps hpos
  · rw [if_neg hhttps]
    rw [Bool.not_eq_true] at hhttps
    exact ⟨hc.moved .sendfile c.m_filefd, fun _ => hfile, hzero, hhttps, hpos⟩

theorem Inv.next (hc : Counts h f c) (hfile : Open f c) : Inv h f c.next := by
  unfold Sender.next
  by_cases hdone : c.bytes_to_send ≤ 0
  · rw [if_pos hdone]
    exact Inv.finish hc hdone
  · rw [if_neg hdone]
    exact Inv.write_loop hc hfile (not_le.mp hdone)

/-! ## The answer of a system call -/

theorem Inv.ring_sent (hc : Inv h f c) (hlen : (h ++ f).length < 2 ^ 31)
    (hpoint : c.point = .ring_send) {a : Answer} (hstep : c.ring_sent a = some c') :
    Inv h f c' := by
  have hfile : Open f c := hc.file (by rw [hpoint]; decide)
  have hring : 0 < c.m_write_ring.size := by
    have hat := hc.at_point
    rw [AtPoint, hpoint] at hat
    exact hat
  have hpos : 0 < c.bytes_to_send := by
    rw [hc.counts.to_send, length_append, RingBuf.length_contents]
    omega
  cases a with
  | EINTR =>
    cases hstep
    exact Inv.write_loop hc.counts hfile hpos
  | EAGAIN =>
    cases hstep
    exact Inv.wait hc.counts hfile hpos
  | error =>
    cases hstep
    exact Inv.fail hc.counts hpos
  | count n =>
    simp only [Sender.ring_sent] at hstep
    split_ifs at hstep with hmore hzero
    · cases hstep
      exact Inv.fail hc.counts hpos
    cases hstep
    have hn : n ≤ c.m_write_ring.front.length := not_lt.mp hmore
    have hfront : c.m_write_ring.front.take n = c.m_write_ring.contents.take n := by
      rw [RingBuf.length_front] at hn
      rw [RingBuf.front_eq, take_take, Nat.min_eq_left hn]
    have hsize : n ≤ c.m_write_ring.size := by
      rw [RingBuf.length_front] at hn
      omega
    have hrest : c.m_write_ring.contents ++ c.unsent f =
        c.m_write_ring.front.take n ++ ((c.m_write_ring.advance n).contents ++ c.unsent f) := by
      rw [hfront, RingBuf.contents_advance _ hsize, ← append_assoc, take_append_drop]
    have hcounts : Counts h f (c.send_ring n) :=
      hc.counts.sent hlen hrest rfl rfl rfl hc.counts.send_size hc.counts.send_buf rfl
    exact Inv.next hcounts hfile

theorem Inv.file_sent (hc : Inv h f c) (hlen : (h ++ f).length < 2 ^ 31)
    (hpoint : c.point = .sendfile) {a : Answer} (hstep : c.file_sent f a = some c') :
    Inv h f c' := by
  have hfile : Open f c := hc.file (by rw [hpoint]; decide)
  have hat := hc.at_point
  rw [AtPoint, hpoint] at hat
  obtain ⟨hring, hplain, hpos⟩ := hat
  have hunsent : c.unsent f = f.drop c.m_file_offset := by
    rw [Sender.unsent, hplain]
    rfl
  cases a with
  | EINTR =>
    cases hstep
    exact Inv.write_loop hc.counts hfile hpos
  | EAGAIN =>
    cases hstep
    exact Inv.wait hc.counts hfile hpos
  | error =>
    cases hstep
    exact Inv.fail hc.counts hpos
  | count n =>
    simp only [Sender.file_sent] at hstep
    split_ifs at hstep with hmore hzero hend
    · -- the file is longer than what was sent of it
      exfalso
      have hleft := hc.counts.unsent_ne_nil hring hpos
      rw [hunsent, Ne, drop_eq_nil_iff] at hleft
      have := hc.counts.st_size
      omega
    · cases hstep
      exact Inv.wait hc.counts hfile hpos
    · cases hstep
      -- the file stays open as long as some of it is left
      have hopen : c.m_filefd = some f := hfile (hc.counts.unsent_ne_nil hring hpos)
      have hempty : c.m_write_ring.contents = [] := by
        rw [← length_eq_zero_iff, RingBuf.length_contents, hring]
      have hrest : (c.send_file f n).unsent f = (f.drop c.m_file_offset).drop n := by
        rw [Sender.unsent, drop_drop]
        exact if_neg (by rw [Bool.not_eq_true]; exact hplain)
      have hcounts : Counts h f (c.send_file f n) := by
        refine hc.counts.sent hlen ?_ rfl rfl rfl hc.counts.send_size hc.counts.send_buf rfl
        show c.m_write_ring.contents ++ c.unsent f =
          (f.drop c.m_file_offset).take n ++
            (c.m_write_ring.contents ++ (c.send_file f n).unsent f)
        rw [hrest, hempty, nil_append, nil_append, hunsent, take_append_drop]
      exact Inv.next hcounts fun _ => hopen

theorem unsent_fill (hhttps : c.m_https_enabled = true)
    (hempty : c.m_file_send_size ≤ c.m_file_send_offset) {n : ℕ}
    (hn : n ≤ (f.drop c.position).length) : (c.fill f n).unsent f = c.unsent f := by
  have hwindow : c.window = [] := by
    unfold Sender.window
    rw [Nat.sub_eq_zero_of_le hempty, take_zero]
  have hlength : ((f.drop c.position).take n).length = n := length_take_of_le hn
  have hfilled : (c.fill f n).window = (f.drop c.position).take n := by
    unfold Sender.window Sender.fill
    rw [drop_zero, Nat.sub_zero, take_append_of_le_length (le_of_eq hlength.symm),
      take_take, Nat.min_self]
  have hhttps' : (c.fill f n).m_https_enabled = true := hhttps
  unfold Sender.unsent
  rw [if_pos hhttps', if_pos hhttps, hfilled, hwindow, nil_append]
  show (f.drop c.position).take n ++ f.drop (c.position + n) = f.drop c.position
  rw [← drop_drop, take_append_drop]

theorem Inv.file_read (hc : Inv h f c) (hpoint : c.point = .read_file) {a : Answer}
    (hstep : c.file_read f a = some c') : Inv h f c' := by
  have hfile : Open f c := hc.file (by rw [hpoint]; decide)
  have hat := hc.at_point
  rw [AtPoint, hpoint] at hat
  obtain ⟨hring, hhttps, hempty, hpos⟩ := hat
  cases a with
  | EINTR =>
    cases hstep
    exact Inv.send_file_over_tls hc.counts hfile hring hhttps hpos
  | count n =>
    simp only [Sender.file_read] at hstep
    split_ifs at hstep with hmore hzero
    · -- a read that gives nothing is at the end of the file
      exfalso
      have hahead : f.drop c.position = [] := by
        by_contra hne
        exact hmore (.inr (.inr ⟨hzero, hne⟩))
      apply hc.counts.unsent_ne_nil hring hpos
      unfold Sender.unsent Sender.window
      rw [if_pos hhttps, hahead, Nat.sub_eq_zero_of_le hempty, take_zero, nil_append]
    · cases hstep
      rw [not_or, not_or] at hmore
      have hroom : n ≤ c.m_file_send_buf.length := not_lt.mp hmore.1
      have hn : n ≤ (f.drop c.position).length := not_lt.mp hmore.2.1
      have hsame : (c.fill f n).unsent f = c.unsent f := unsent_fill hhttps hempty hn
      have hbuf : (c.fill f n).m_file_send_buf.length = c.m_file_send_buf.length := by
        show ((f.drop c.position).take n ++ c.m_file_send_buf.drop n).length = _
        rw [length_append, length_take_of_le hn, length_drop]
        omega
      have hcounts : Counts h f (c.fill f n) := by
        refine ⟨?_, ?_, hc.counts.have_send, ?_, ?_, hc.counts.st_size⟩
        · rw [hsame]
          exact hc.counts.split
        · rw [hsame]
          exact hc.counts.to_send
        · rw [hbuf]
          exact hroom
        · rw [hbuf]
          exact hc.counts.send_buf
      have hopen : Open f (c.fill f n) := by
        intro hne
        rw [hsame] at hne
        exact hfile hne
      exact ⟨hcounts, fun _ => hopen, hring, hhttps, Nat.pos_of_ne_zero hzero⟩
  | _ =>
    cases hstep
    exact Inv.fail hc.counts hpos

theorem window_send (hsize : c.m_file_send_size ≤ c.m_file_send_buf.length) (n : ℕ) :
    (c.send_window n).window = c.window.drop n := by
  have hlength := length_window c hsize
  unfold Sender.send_window
  by_cases hend : c.m_file_send_offset + n ≥ c.m_file_send_size
  · rw [if_pos hend, drop_eq_nil_of_le (by omega)]
    rfl
  rw [if_neg hend]
  show (c.m_file_send_buf.drop (c.m_file_send_offset + n)).take
    (c.m_file_send_size - (c.m_file_send_offset + n)) = c.window.drop n
  unfold Sender.window
  rw [drop_take, drop_drop, Nat.sub_sub]

theorem send_window_frame (c : Sender) (n : ℕ) :
    let c' := c.send_window n
    c'.m_write_ring = c.m_write_ring ∧ c'.m_https_enabled = c.m_https_enabled ∧
      c'.position = c.position ∧ c'.m_filefd = c.m_filefd ∧ c'.st_size = c.st_size ∧
      c'.wire = c.wire ++ c.window.take n ∧
      c'.bytes_to_send = to_int (c.bytes_to_send - (c.window.take n).length) ∧
      c'.bytes_have_send = to_int (c.bytes_have_send + (c.window.take n).length) ∧
      c'.m_file_send_buf = c.m_file_send_buf ∧ c'.m_file_send_size ≤ c.m_file_send_size := by
  unfold Sender.send_window
  split
  · exact ⟨rfl, rfl, rfl, rfl, rfl, rfl, rfl, rfl, rfl, Nat.zero_le _⟩
  · exact ⟨rfl, rfl, rfl, rfl, rfl, rfl, rfl, rfl, rfl, le_refl _⟩

theorem Inv.tls_sent (hc : Inv h f c) (hlen : (h ++ f).length < 2 ^ 31)
    (hpoint : c.point = .tls_send) {a : Answer} (hstep : c.tls_sent a = some c') :
    Inv h f c' := by
  have hfile : Open f c := hc.file (by rw [hpoint]; decide)
  have hat := hc.at_point
  rw [AtPoint, hpoint] at hat
  obtain ⟨hring, hhttps, hoffset⟩ := hat
  have hwindow := length_window c hc.counts.send_size
  have hunsent : c.unsent f = c.window ++ f.drop c.position := if_pos hhttps
  have hpos : 0 < c.bytes_to_send := by
    rw [hc.counts.to_send, hunsent, length_append, length_append]
    omega
  cases a with
  | EINTR =>
    cases hstep
    exact Inv.send_file_over_tls hc.counts hfile hring hhttps hpos
  | EAGAIN =>
    cases hstep
    exact Inv.wait hc.counts hfile hpos
  | error =>
    cases hstep
    exact Inv.fail hc.counts hpos
  | count n =>
    simp only [Sender.tls_sent] at hstep
    by_cases hmore : n > c.window.length
    · rw [if_pos hmore] at hstep
      contradiction
    by_cases hzero : n = 0
    · rw [if_neg hmore, if_pos hzero] at hstep
      cases hstep
      exact Inv.fail hc.counts hpos
    rw [if_neg hmore, if_neg hzero] at hstep
    cases hstep
    obtain ⟨hsame, hhttps', hposition, hfd, hst, hwire, hto, hhave, hbuf, hsize⟩ :=
      send_window_frame c n
    have hopen : c.m_filefd = some f := hfile (hc.counts.unsent_ne_nil hring hpos)
    have hunsent' : (c.send_window n).unsent f = c.window.drop n ++ f.drop c.position := by
      rw [Sender.unsent, if_pos (hhttps'.trans hhttps), hposition, window_send hc.counts.send_size]
    have hcounts : Counts h f (c.send_window n) := by
      refine hc.counts.sent hlen ?_ hwire hto hhave ?_ ?_ hst
      · have hempty : c.m_write_ring.contents = [] := by
          rw [← length_eq_zero_iff, RingBuf.length_contents, hring]
        rw [hsame, hempty, nil_append, nil_append, hunsent, hunsent',
          ← append_assoc, take_append_drop]
      · rw [hbuf]
        exact hsize.trans hc.counts.send_size
      · rw [hbuf]
        exact hc.counts.send_buf
    by_cases hdone : (c.send_window n).bytes_to_send ≤ 0
    · rw [if_pos hdone]
      exact Inv.finish hcounts hdone
    rw [if_neg hdone]
    apply Inv.send_file_over_tls hcounts (fun _ => hfd.trans hopen)
    · rw [hsame]
      exact hring
    · exact hhttps'.trans hhttps
    · exact not_le.mp hdone

/-! ## Whole runs -/

theorem Inv.step (hc : Inv h f c) (hlen : (h ++ f).length < 2 ^ 31) {l : Label}
    (hstep : ResponseSending.step c l = some c') : Inv h f c' := by
  cases l with
  | write =>
    simp only [ResponseSending.step] at hstep
    split_ifs at hstep with hpoint
    cases hstep
    have hpos : 0 < c.bytes_to_send := by
      have hat := hc.at_point
      rw [AtPoint, hpoint] at hat
      exact hat
    unfold Sender.write
    rw [if_neg (ne_of_gt hpos)]
    exact Inv.write_loop hc.counts (hc.file (by rw [hpoint]; decide)) hpos
  | answer a =>
    simp only [ResponseSending.step] at hstep
    split at hstep
    · rename_i hpoint
      exact hc.ring_sent hlen hpoint hstep
    · rename_i hpoint
      obtain ⟨content, hcontent, hstep⟩ := Option.bind_eq_some_iff.mp hstep
      have hat := hc.at_point
      rw [AtPoint, hpoint] at hat
      have hopen : c.m_filefd = some f :=
        hc.file (by rw [hpoint]; decide) (hc.counts.unsent_ne_nil hat.1 hat.2.2)
      obtain rfl : content = f := Option.some.inj (hcontent.symm.trans hopen)
      exact hc.file_sent hlen hpoint hstep
    · rename_i hpoint
      obtain ⟨content, hcontent, hstep⟩ := Option.bind_eq_some_iff.mp hstep
      have hat := hc.at_point
      rw [AtPoint, hpoint] at hat
      have hopen : c.m_filefd = some f :=
        hc.file (by rw [hpoint]; decide) (hc.counts.unsent_ne_nil hat.1 hat.2.2.2)
      obtain rfl : content = f := Option.some.inj (hcontent.symm.trans hopen)
      exact hc.file_read hpoint hstep
    · rename_i hpoint
      exact hc.tls_sent hlen hpoint hstep
    · contradiction

theorem Start.inv (hc : Start h f c) (hne : h ++ f ≠ []) (hlen : (h ++ f).length < 2 ^ 31) :
    Inv h f c := by
  have hwindow : c.window = [] := by
    unfold Sender.window
    rw [hc.m_file_send_size, Nat.zero_sub, take_zero]
  have hunsent : c.unsent f = f := by
    unfold Sender.unsent
    rw [hwindow, hc.position, hc.m_file_offset, drop_zero, nil_append, ite_self]
  have htotal : c.bytes_to_send = (h ++ f).length := by
    rw [hc.bytes_to_send, ← Nat.cast_add, ← length_append, to_int_of_lt hlen]
  refine ⟨⟨?_, ?_, ?_, ?_, hc.m_file_send_buf, hc.st_size⟩, ?_, ?_⟩
  · rw [hc.wire, hc.ring, hunsent, nil_append]
  · rw [htotal, hc.ring, hunsent]
  · rw [hc.bytes_have_send, hc.wire]
    rfl
  · rw [hc.m_file_send_size]
    exact Nat.zero_le _
  · intro _ hleft
    rw [hunsent] at hleft
    exact hc.file hleft
  · rw [AtPoint, hc.point]
    rw [htotal]
    exact_mod_cast length_pos_iff.mpr hne

theorem Counts.done_iff (hc : Counts h f c) : c.bytes_to_send = 0 ↔ c.wire = h ++ f := by
  rw [hc.to_send, Int.natCast_eq_zero, length_eq_zero_iff]
  constructor
  · intro hnil
    rw [← hc.split, hnil, append_nil]
  intro hwire
  have hsplit := hc.split
  rw [hwire] at hsplit
  exact append_right_eq_self.mp hsplit

theorem Inv.finished_iff (hc : Inv h f c) :
    c.point = .finish_write_cycle ↔ c.bytes_to_send = 0 := by
  have hat := hc.at_point
  unfold AtPoint at hat
  constructor
  · intro hpoint
    rw [hpoint] at hat
    exact hat
  intro hzero
  -- at every other point bytes are left
  cases hpoint : c.point with
  | finish_write_cycle => rfl
  | ring_send =>
    rw [hpoint] at hat
    have := hc.counts.to_send
    rw [length_append, RingBuf.length_contents] at this
    omega
  | tls_send =>
    rw [hpoint] at hat
    have hwindow := length_window c hc.counts.send_size
    have := hc.counts.to_send
    rw [Sender.unsent, if_pos hat.2.1, length_append, length_append] at this
    omega
  | initialised =>
    rw [hpoint] at hat
    exact hat.elim
  | spinning =>
    rw [hpoint] at hat
    exact hat.elim
  | _ =>
    rw [hpoint] at hat
    omega

/-- **A response is sent exactly once.** Whatever the system calls answer and however often
`write` is left and entered again, plain or under TLS: what the socket was handed is a prefix
of the response, the two counters add up to its length, and `finish_write_cycle` is reached
when the socket has all of it, and not before. -/
theorem response_sent_once (h f : Bytes) (hne : h ++ f ≠ [])
    (hlen : h.length + f.length < 2 ^ 31) (c : Sender) (hc : (system h f).Reachable c) :
    c.wire <+: h ++ f ∧ c.bytes_have_send + c.bytes_to_send = h.length + f.length ∧
      (c.point = .finish_write_cycle ↔ c.wire = h ++ f) := by
  have hlen' : (h ++ f).length < 2 ^ 31 := by
    rw [length_append]
    exact hlen
  have hinv : Inv h f c :=
    System.Reachable.invariant (system h f) (fun _ hstart => hstart.inv hne hlen')
      (fun _ _ _ h hl => h.step hlen' hl) hc
  refine ⟨⟨_, hinv.counts.split⟩, ?_, ?_⟩
  · rw [hinv.counts.total, length_append, Nat.cast_add]
  · rw [hinv.finished_iff, hinv.counts.done_iff]


end Steps

/-- A response of a head `1, 2, 3` and a file `4, 5, 6, 7`, with a buffer of two bytes for
the file. -/
def small_response (m_https_enabled : Bool) : Sender where
  m_https_enabled := m_https_enabled
  m_write_ring := RingBuf.ofList 0 [1, 2, 3] 8 (by decide)
  bytes_to_send := 7
  bytes_have_send := 0
  m_header_bytes_sent := 0
  m_filefd := some [4, 5, 6, 7]
  m_file_offset := 0
  st_size := 4
  position := 0
  m_file_send_buf := [0, 0]
  m_file_send_offset := 0
  m_file_send_size := 0
  point := .outside
  wire := []

theorem small_response_start (m_https_enabled : Bool) :
    Start [1, 2, 3] [4, 5, 6, 7] (small_response m_https_enabled) where
  point := rfl
  ring := RingBuf.contents_ofList 0 [1, 2, 3] 8 (by decide)
  bytes_to_send := rfl
  bytes_have_send := rfl
  file := fun _ => rfl
  st_size := rfl
  m_file_offset := rfl
  position := rfl
  m_file_send_offset := rfl
  m_file_send_size := rfl
  m_file_send_buf := Nat.two_pos
  wire := rfl

/-- Answers for the TLS path: `write` is left once in the head and once in the file. -/
def answers_in_pieces : List Label :=
  [.write, .answer (.count 1), .answer .EINTR, .answer .EAGAIN, .write, .answer (.count 2),
   .answer (.count 2), .answer (.count 1), .answer .EAGAIN, .write, .answer (.count 1),
   .answer (.count 2), .answer (.count 2)]

theorem sent_in_pieces :
    ∃ c, (system [1, 2, 3] [4, 5, 6, 7]).Reachable c ∧ c.point = .finish_write_cycle ∧
      c.wire = [1, 2, 3, 4, 5, 6, 7] := by
  obtain ⟨c, hc, htest⟩ := System.Reachable.of_run (system [1, 2, 3] [4, 5, 6, 7])
    (small_response_start true) answers_in_pieces
    (fun c => decide (c.point = .finish_write_cycle)) (by decide +kernel)
  have hpoint := of_decide_eq_true htest
  refine ⟨c, hc, hpoint, ?_⟩
  exact ((response_sent_once [1, 2, 3] [4, 5, 6, 7] (by decide) (by decide) c hc).2.2).mp hpoint

end AtlasWebServer.ResponseSending
