/-
The port of the database: does `mysql_real_connect` get the one that was configured?

It never does. `m_Port` is a string and `init` assigns an `int` to it, which C++ takes for a
character; `atoi` then reads that character. The result is a digit or zero, and MySQL takes
zero for 3306. Only `init` assigns `m_Port`, so every later call passes the same.
-/
import AtlasWebServer.ConnectionPool
import AtlasWebServer.HttpMessage
import AtlasWebServer.ResponseWriter

set_option autoImplicit false

namespace AtlasWebServer.ConnectionPool

open Bytes CString Http List

def assigned_port (Port : ℤ) : Bytes := [UInt8.ofInt Port]

def connect_port (m_Port : Bytes) : ℤ := to_int (atol (c_str m_Port))

/-- The attempts of `init` for one slot: up to the first that succeeds. -/
def slot_calls (answers : List (Option MYSQL)) : ℕ :=
  let attempts := answers.take kPoolInitRetryTimes
  min attempts.length (attempts.findIdx Option.isSome + 1)

/-- The calls of `create_connection` in `init`, which exits when a slot stays empty. -/
def init_calls : List (List (Option MYSQL) × ℤ) → ℕ
  | [] => 0
  | slot :: slots =>
      slot_calls slot.1 +
        if ((slot.1.take kPoolInitRetryTimes).findSome? id).isSome then init_calls slots else 0

def reconnects : Call → Bool
  | .get (.health .create) => true
  | .release (.health .create) => true
  | _ => false

/-- The calls of `create_connection` in a run. -/
def run_calls : World → List Label → ℕ
  | _, [] => 0
  | w, l :: ls =>
      (match l with
        | .step i _ => if (w.calls[i]?).any reconnects then 1 else 0
        | _ => 0) +
      match step w l with
      | some w' => run_calls w' ls
      | none => 0

/-- The ports that were passed to `mysql_real_connect` when `init` and a run are over. -/
def ports (Port : ℤ) (slots : List (List (Option MYSQL) × ℤ)) (w : World) (ls : List Label) :
    List ℤ :=
  replicate (init_calls slots + run_calls w ls) (connect_port (assigned_port Port))

theorem connect_port_byte (b : UInt8) :
    connect_port [b] = 0 ∨ connect_port [b] = b.toNat - 48 ∧ b.toNat < 58 := by
  revert b
  apply forall_byte
  decide +kernel

theorem connect_port_ne {Port : ℤ} (hlow : 1 ≤ Port) (hhigh : Port ≤ 65535) :
    connect_port (assigned_port Port) ≠ Port := by
  intro heq
  have hbyte := connect_port_byte (UInt8.ofInt Port)
  have hvalue : ((UInt8.ofInt Port).toNat : ℤ) = Port % 256 := by
    simp [UInt8.ofInt]
    omega
  unfold assigned_port at heq
  rw [heq] at hbyte
  omega

/-- **The configured port is never used**: it is only where no connection is opened. -/
theorem port_used_iff {Port : ℤ} (hlow : 1 ≤ Port) (hhigh : Port ≤ 65535)
    (slots : List (List (Option MYSQL) × ℤ)) (w : World) (ls : List Label) :
    (∀ port ∈ ports Port slots w ls, port = Port) ↔ init_calls slots + run_calls w ls = 0 := by
  have hne := connect_port_ne hlow hhigh
  unfold ports
  simp only [mem_replicate, and_imp, forall_eq_apply_imp_iff, ne_eq]
  tauto

/-- Without a slot there is no call; the second attempt of a slot connects elsewhere. -/
theorem no_slot_no_port :
    (ports 3306 [] ⟨constructed 60, []⟩ [] = [] ∧
      ∀ port ∈ ports 3306 [] ⟨constructed 60, []⟩ [], port = 3306) ∧
    init_calls [([none, some 1], 0)] = 2 ∧
    ¬ ∀ port ∈ ports 3306 [([none, some 1], 0)] ⟨constructed 60, []⟩ [], port = 3306 := by
  refine ⟨⟨rfl, ?_⟩, by decide, ?_⟩
  · exact (port_used_iff (by decide) (by decide) [] ⟨constructed 60, []⟩ []).mpr rfl
  · rw [port_used_iff (by decide) (by decide)]
    decide

/-- Port 3307 was configured, and the first connection goes to port 0. -/
theorem port_lost : ports 3307 [([some 1], 0)] ⟨constructed 60, []⟩ [] = [0] ∧
    ¬ ∀ port ∈ ports 3307 [([some 1], 0)] ⟨constructed 60, []⟩ [], port = 3307 := by
  decide

end AtlasWebServer.ConnectionPool
