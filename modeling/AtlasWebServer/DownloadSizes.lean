/-
How large a download may be (`process_write(FILE_REQUEST)` of `http/core/response.cpp`, `write`
of `http/core/runtime.cpp`, the upload limit of `WebServer::init`).

An upload may have as many bytes as an `int` counts. On the way out the size of the file
is narrowed twice: to the `int` of the header `Content-Length`, which it fits, and after the
length of the head was added to it to `bytes_to_send`. `download_size_exact_iff` says that the
sum is what matters: up to `INT_MAX` the count is exact and `write` sends all of the file before
it finishes, beyond it the count is negative and `write` finishes with what the socket takes
first (`finishes_early`).
-/
import AtlasWebServer.ResponseSending
import AtlasWebServer.ResponseSplitting

set_option autoImplicit false

namespace AtlasWebServer.Http

open Bytes CString RingBuffer Crlf StepSystem ResponseSending List

/-! ## What is scheduled -/

/-- `m_upload_max_bytes`, from the configuration. -/
def m_upload_max_bytes (upload_max_bytes : ℤ) : ℤ :=
  if upload_max_bytes > 0 then upload_max_bytes else 100 * 1024 * 1024

def download_head (r : Reply) (extra : List Bytes) (size : ℕ) : Bytes :=
  unlines (head_lines r.m_linger 200 (lit "OK") size
    (if r.m_response_content_type = [] then lit "application/octet-stream"
      else r.m_response_content_type) extra) ++ crlf

theorem size_lt_of_admitted {upload_max_bytes : ℤ} (hconfig : IsInt upload_max_bytes) {size : ℕ}
    (hsize : (size : ℤ) ≤ m_upload_max_bytes upload_max_bytes) : size < 2 ^ 31 := by
  unfold m_upload_max_bytes at hsize
  unfold IsInt at hconfig
  split_ifs at hsize <;> omega

section Scheduled

variable {r : Reply} {content : Bytes} {extra : List Bytes} {ring : Ring}

theorem file_scheduled (hne : content ≠ []) (hsize : content.length < 2 ^ 31)
    (hfile : r.m_file = some content) (hmethod : r.m_method ≠ .HEAD)
    (hextra : r.m_extra_headers = unlines extra) (hnul : (0 : UInt8) ∉ unlines extra)
    (hring : Fresh ring) (hhead : (download_head r extra content.length).length ≤ WRITE_LIMIT) :
    process_write r .FILE_REQUEST ring = some (some
      ⟨download_head r extra content.length,
        to_int ((download_head r extra content.length).length + content.length), content⟩) := by
  have hwrite := appends_response hextra hnul 200 (lit "OK") content.length
    (if r.m_response_content_type = [] then lit "application/octet-stream"
      else r.m_response_content_type) none
  rw [Option.getD_none, append_nil] at hwrite
  show write_file r ring = _
  rw [write_file_parts hfile, file_parts_sent (.inr hne), sent_file, if_neg hmethod]
  rw [to_int_of_lt hsize]
  exact schedule_appends hwrite hring hhead _ _

end Scheduled

/-! ## What `write` sends of it -/

section Sent

variable {h f : Bytes} {c : Sender}

theorem finishes_whole (hne : h ++ f ≠ []) (hlen : h.length + f.length ≤ INT_MAX)
    (hc : (system h f).Reachable c) (hpoint : c.point = .finish_write_cycle) : c.wire = h ++ f := by
  have hlen' : (h ++ f).length < 2 ^ 31 := by
    rw [length_append]
    unfold INT_MAX at hlen
    omega
  have hinv : Inv h f c :=
    System.Reachable.invariant (system h f) (fun _ hstart => hstart.inv hne hlen')
      (fun _ _ _ hc hstep => hc.step hlen' hstep) hc
  exact hinv.counts.done_iff.mp (hinv.finished_iff.mp hpoint)

theorem finishes_early (hc : Start h f c) (hne : h ≠ []) (hneg : c.bytes_to_send < 0)
    (hlow : -2 ^ 31 < c.bytes_to_send) :
    ∃ c', (system h f).Reachable c' ∧ c'.point = .finish_write_cycle ∧ c'.wire = h.take 1 := by
  have hsize : 0 < c.m_write_ring.size := by
    rw [← RingBuf.length_contents, hc.ring]
    exact length_pos_iff.mpr hne
  have hfront : 1 ≤ c.m_write_ring.front.length := by
    have hcapacity := c.m_write_ring.size_le
    have hhead := c.m_write_ring.head_lt (by omega)
    rw [RingBuf.length_front]
    omega
  have htake : c.m_write_ring.front.take 1 = h.take 1 := by
    rw [RingBuf.length_front] at hfront
    rw [RingBuf.front_eq, take_take, hc.ring, min_eq_left hfront]
  -- `write` comes to `ring_send`
  have hwrite : step c .write = some { c with point := .ring_send } := by
    simp only [step, hc.point, if_true, Sender.write, if_neg hneg.ne, Sender.write_loop,
      if_pos hsize]
  have hsent : step { c with point := .ring_send } (.answer (.count 1)) =
      some (Sender.send_ring { c with point := .ring_send } 1).next := by
    simp only [step, Sender.ring_sent]
    rw [if_neg (not_lt.mpr hfront), if_neg Nat.one_ne_zero]
  -- a negative count only gets smaller
  have hcount : (Sender.send_ring { c with point := .ring_send } 1).bytes_to_send ≤ 0 := by
    show to_int (c.bytes_to_send - (c.m_write_ring.front.take 1).length) ≤ 0
    unfold to_int
    rw [Int.bmod_eq_of_le (by norm_num; omega) (by norm_num; omega)]
    omega
  have hreach : (system h f).Reachable { c with point := .ring_send } :=
    .step (l := .write) (.init hc) trivial hwrite
  refine ⟨_, .step (l := .answer (.count 1)) hreach trivial hsent, ?_, ?_⟩
  · rw [Sender.next, if_pos hcount]
    rfl
  · rw [Sender.next, if_pos hcount]
    show c.wire ++ c.m_write_ring.front.take 1 = h.take 1
    rw [hc.wire, nil_append, htake]

end Sent

/-- **A download is sent as a whole** if its head and its file have at most `INT_MAX` bytes
together, and only then is `bytes_to_send` their number. The header has the size of every file
that an upload admits. -/
theorem download_size_exact_iff {upload_max_bytes : ℤ} (hconfig : IsInt upload_max_bytes)
    {content : Bytes} (hne : content ≠ [])
    (hsize : (content.length : ℤ) ≤ m_upload_max_bytes upload_max_bytes) {r : Reply}
    (hfile : r.m_file = some content) (hmethod : r.m_method ≠ .HEAD) {extra : List Bytes}
    (hextra : r.m_extra_headers = unlines extra) (hnul : (0 : UInt8) ∉ unlines extra) {ring : Ring}
    (hring : Fresh ring) (hhead : (download_head r extra content.length).length ≤ WRITE_LIMIT) :
    ∃ s, process_write r .FILE_REQUEST ring = some (some s) ∧
      s.out = download_head r extra content.length ∧ s.file = content ∧
      ((s.bytes_to_send = s.out.length + content.length ∧
        ∀ c, (system s.out s.file).Reachable c → c.point = .finish_write_cycle →
          c.wire = s.out ++ content) ↔ s.out.length + content.length ≤ INT_MAX) := by
  refine ⟨_, file_scheduled hne (size_lt_of_admitted hconfig hsize) hfile hmethod hextra hnul hring
    hhead, rfl, rfl, ?_⟩
  dsimp only
  generalize download_head r extra content.length = head
  constructor
  · rintro ⟨hexact, -⟩
    have hpos : (0 : ℤ) ≤ head.length + content.length := by omega
    exact_mod_cast (to_int_eq_iff hpos).mp hexact
  intro hfits
  refine ⟨?_, fun c hc hpoint => finishes_whole (by simp [hne]) hfits hc hpoint⟩
  apply (to_int_eq_iff (by omega)).mpr
  exact_mod_cast hfits

/-! ### Two downloads -/

def plain_download (content : Bytes) : Reply :=
  { Reply.init .GET false with m_file := some content, m_response_content_type := lit "text/plain" }

theorem small_download_exact :
    ∃ s, process_write (plain_download [1, 2, 3]) .FILE_REQUEST init_ring = some (some s) ∧
      s.bytes_to_send = s.out.length + 3 := by
  have hextra : (plain_download [1, 2, 3]).m_extra_headers = unlines [] := rfl
  obtain ⟨s, hwrite, hout, -, hexact⟩ :=
    download_size_exact_iff (show IsInt 100 by decide) (show ([1, 2, 3] : Bytes) ≠ [] by decide)
      (by decide) (rfl : (plain_download [1, 2, 3]).m_file = _) (by decide) hextra (by decide)
      fresh_init_ring (by decide)
  refine ⟨s, hwrite, (hexact.mpr ?_).1⟩
  rw [hout]
  decide

/-- How `write` begins with a head and a file. -/
def sender (h f : Bytes) : Sender where
  m_https_enabled := false
  m_write_ring := RingBuf.ofList 0 h (h.length + 1) (Nat.lt_succ_self _)
  bytes_to_send := to_int (h.length + f.length)
  bytes_have_send := 0
  m_header_bytes_sent := 0
  m_filefd := some f
  m_file_offset := 0
  st_size := f.length
  position := 0
  m_file_send_buf := [0]
  m_file_send_offset := 0
  m_file_send_size := 0
  point := .outside
  wire := []

theorem start_sender (h f : Bytes) : Start h f (sender h f) where
  point := rfl
  ring := RingBuf.contents_ofList 0 h (h.length + 1) (Nat.lt_succ_self _)
  bytes_to_send := by rw [sender]
  bytes_have_send := rfl
  file := fun _ => rfl
  st_size := rfl
  m_file_offset := rfl
  position := rfl
  m_file_send_offset := rfl
  m_file_send_size := rfl
  m_file_send_buf := Nat.one_pos
  wire := rfl

/-- The count of a file of `INT_MAX` bytes is negative, and `write` finishes after one byte of
the head. -/
theorem largest_download_cut :
    IsInt 2147483647 ∧ ∃ content s c, (content.length : ℤ) = m_upload_max_bytes 2147483647 ∧
      process_write (plain_download content) .FILE_REQUEST init_ring = some (some s) ∧
      s.bytes_to_send = s.out.length + content.length - 2 ^ 32 ∧ s.bytes_to_send < 0 ∧
      (system s.out s.file).Reachable c ∧ c.point = .finish_write_cycle ∧ c.wire.length = 1 := by
  refine ⟨by decide, ?_⟩
  obtain ⟨content, hlength⟩ : ∃ content : Bytes, content.length = 2147483647 :=
    ⟨List.replicate 2147483647 0, length_replicate⟩
  have hne : content ≠ [] := ne_nil_of_length_pos (by rw [hlength]; decide)
  have hhead : (download_head (plain_download content) [] content.length).length = 129 := by
    rw [hlength]
    show (unlines (head_lines false 200 (lit "OK") 2147483647 (lit "text/plain") []) ++
      crlf).length = 129
    decide +kernel
  have hmethod : (plain_download content).m_method ≠ .HEAD := by rintro ⟨⟩
  have hextra : (plain_download content).m_extra_headers = unlines [] := rfl
  have hwrite := file_scheduled hne (by rw [hlength]; decide) rfl hmethod hextra (by decide)
    fresh_init_ring (by rw [hhead]; decide)
  have hcount : to_int ((download_head (plain_download content) [] content.length).length +
      content.length) = -2147483520 := by
    rw [hhead, hlength]
    decide
  have hstart := start_sender (download_head (plain_download content) [] content.length) content
  have hto := hstart.bytes_to_send.trans hcount
  obtain ⟨c, hreach, hpoint, hwire⟩ := finishes_early hstart
    (ne_nil_of_length_pos (by rw [hhead]; decide)) (by rw [hto]; decide) (by rw [hto]; decide)
  refine ⟨content, _, c, ?_, hwrite, ?_, ?_, hreach, hpoint, ?_⟩
  · rw [hlength]
    decide
  · dsimp only
    rw [hcount, hhead, hlength]
    decide
  · dsimp only
    rw [hcount]
    decide
  · rw [hwire, length_take, hhead]
    decide

end AtlasWebServer.Http
