/-
`connection_pool` (`infra/db/sql_connection_pool.cpp`): any number of threads inside
`GetConnection` and `ReleaseConnection`.

Each section between `lock.lock()` and `lock.unlock()` is one step, and so are the
semaphore's wait and post, `mysql_ping`, `mysql_close` and `create_connection`. What
the environment decides -- the clock, the answer to a ping, whether the server can be
reached and which handle the client library allocates -- is the event of the step.
A handle is a pointer: `mysql_close` gives it back to the allocator, and a later
`create_connection` may return the same value again. It never returns one that is
live, that is, free in the pool or held by a call or by the owner of a checkout.

`reserve.wait()` is interrupted only by the signals whose handlers stop the server,
so a wait is the step that takes a permit. The destructor and `DestroyPool` run after
the last request and are left out.

The counters are integers: no counter passes the size the pool was built with.
-/
import AtlasWebServer.StepSystem
import Mathlib.Logic.Function.Basic
import Mathlib.Data.Int.Notation

set_option autoImplicit false

namespace AtlasWebServer.ConnectionPool

open StepSystem

/-! ## The pool's variables -/

/-- A non-null `MYSQL *`. -/
abbrev MYSQL := ℕ

/-- The fields of `connection_pool`; `reserve` is the value of the semaphore. -/
structure Pool where
  m_MaxConn : ℤ
  m_CurConn : ℤ
  m_FreeConn : ℤ
  m_idleTimeout : ℤ
  connList : List MYSQL
  m_connLastActive : MYSQL → Option ℤ
  reserve : ℕ

def Pool.stamp (s : Pool) (con : MYSQL) (now : ℤ) : Pool :=
  { s with m_connLastActive := Function.update s.m_connLastActive con (some now) }

def Pool.forget (s : Pool) (con : MYSQL) : Pool :=
  { s with m_connLastActive := Function.update s.m_connLastActive con none }

/-- What the environment answers to a step: the clock, `mysql_ping`, and
`create_connection`. A step reads the answers it asks for. -/
structure Event where
  now : ℤ
  ping : Bool
  created : Option MYSQL
  deriving DecidableEq

/-! ## `check_connection` and `reconnect_connection` -/

/-- Where `check_connection(con) || reconnect_connection(con)` stands. -/
inductive HealthPc
  -- `check_connection`
  | look (con : MYSQL)
  | ping (con : MYSQL) (now : ℤ)
  | touch (con : MYSQL) (now : ℤ)
  -- `reconnect_connection`
  | forget (con : MYSQL)
  | close (con : MYSQL)
  | create
  | record (con : MYSQL)
  | answer (con : Option MYSQL)
  deriving DecidableEq

/-- One step of `check_connection(con) || reconnect_connection(con)`. `answer` holds
the connection the caller goes on with, `none` where both have failed. -/
def health_step (live : List MYSQL) (s : Pool) (e : Event) :
    HealthPc → Option (Pool × HealthPc)
  | .look con =>
      match s.m_connLastActive con with
      | none => some (s.stamp con e.now, .answer (some con))
      | some last =>
          if e.now - last < s.m_idleTimeout then some (s, .answer (some con))
          else some (s, .ping con e.now)
  | .ping con now => some (s, if e.ping then .touch con now else .forget con)
  | .touch con now => some (s.stamp con now, .answer (some con))
  | .forget con => some (s.forget con, .close con)
  | .close _ => some (s, .create)
  | .create =>
      match e.created with
      | none => some (s, .answer none)
      | some con => if con ∈ live then none else some (s, .record con)
  | .record con => some (s.stamp con e.now, .answer (some con))
  | .answer _ => none

/-! ## `GetConnection` and `ReleaseConnection` -/

/-- Where a call of `GetConnection` stands. A call that has returned a connection
is its checkout. -/
inductive GetPc
  | wait
  | pop
  | health (pc : HealthPc)
  | drop
  | stamp (con : MYSQL)
  | returned (con : Option MYSQL)
  deriving DecidableEq

/-- Where a call of `ReleaseConnection` stands. -/
inductive ReleasePc
  | health (pc : HealthPc)
  | drop
  | push (con : MYSQL)
  | post
  | returned (ok : Bool)
  deriving DecidableEq

/-- The section in which both calls give up a connection. -/
def Pool.drop_slot (s : Pool) : Pool :=
  { s with m_CurConn := s.m_CurConn - 1, m_MaxConn := s.m_MaxConn - 1 }

def after_get : HealthPc → GetPc
  | .answer none => .drop
  | .answer (some con) => .stamp con
  | pc => .health pc

def after_release : HealthPc → ReleasePc
  | .answer none => .drop
  | .answer (some con) => .push con
  | pc => .health pc

def get_step (live : List MYSQL) (s : Pool) (e : Event) : GetPc → Option (Pool × GetPc)
  | .wait => if 0 < s.reserve then some ({ s with reserve := s.reserve - 1 }, .pop) else none
  | .pop =>
      match s.connList with
      | [] => some (s, .returned none)
      | con :: rest =>
          some
            ({ s with
                connList := rest
                m_FreeConn := s.m_FreeConn - 1
                m_CurConn := s.m_CurConn + 1 },
              .health (.look con))
  | .health pc => (health_step live s e pc).map fun r => (r.1, after_get r.2)
  | .drop => some (s.drop_slot, .returned none)
  | .stamp con => some (s.stamp con e.now, .returned (some con))
  | .returned _ => none

def release_step (live : List MYSQL) (s : Pool) (e : Event) :
    ReleasePc → Option (Pool × ReleasePc)
  | .health pc => (health_step live s e pc).map fun r => (r.1, after_release r.2)
  | .drop => some (s.drop_slot, .returned false)
  | .push con =>
      some
        ({ s.stamp con e.now with
            connList := s.connList ++ [con]
            m_FreeConn := s.m_FreeConn + 1
            m_CurConn := s.m_CurConn - 1 },
          .post)
  | .post => some ({ s with reserve := s.reserve + 1 }, .returned true)
  | .returned _ => none

/-! ## Any number of threads -/

inductive Call
  | get (pc : GetPc)
  | release (pc : ReleasePc)
  deriving DecidableEq

/-- The connection a health check works on. `close` is the last step that has the old
one, and `create` has none. -/
def HealthPc.held : HealthPc → Option MYSQL
  | .look con | .ping con _ | .touch con _ | .forget con | .close con | .record con => some con
  | .create => none
  | .answer con => con

/-- The connection a call holds, or whose checkout it is. -/
def Call.held : Call → Option MYSQL
  | .get (.health pc) => pc.held
  | .get (.stamp con) => some con
  | .get (.returned con) => con
  | .release (.health pc) => pc.held
  | .release (.push con) => some con
  | _ => none

def call_step (live : List MYSQL) (s : Pool) (e : Event) : Call → Option (Pool × Call)
  | .get pc => (get_step live s e pc).map fun r => (r.1, .get r.2)
  | .release pc => (release_step live s e pc).map fun r => (r.1, .release r.2)

/-- The pool and every call so far. -/
structure World where
  pool : Pool
  calls : List Call

/-- The handles that `mysql_close` has not been called on. -/
def World.live (w : World) : List MYSQL := w.pool.connList ++ w.calls.filterMap Call.held

/-- A thread calls `GetConnection`, the owner of checkout `i` releases it, or call `i`
makes its next step. A checkout that is released is one no longer. -/
inductive Label
  | get_connection
  | release_connection (i : ℕ)
  | step (i : ℕ) (e : Event)

def step (w : World) : Label → Option World
  | .get_connection => some { w with calls := w.calls ++ [.get .wait] }
  | .release_connection i =>
      match w.calls[i]? with
      | some (.get (.returned (some con))) =>
          some { w with calls := w.calls.set i (.release (.health (.look con))) }
      | _ => none
  | .step i e =>
      match w.calls[i]? with
      | none => none
      | some call =>
          (call_step w.live w.pool e call).map fun r => ⟨r.1, w.calls.set i r.2⟩

/-! ## `init` -/

def kPoolInitRetryTimes : ℕ := 10

/-- One slot of the loop of `init`: the answers of `create_connection` to its
attempts, and the clock. `none` is the `exit(1)`. -/
def init_slot (s : Pool) (slot : List (Option MYSQL) × ℤ) : Option Pool :=
  ((slot.1.take kPoolInitRetryTimes).findSome? id).map fun con =>
    { s.stamp con slot.2 with
        connList := s.connList ++ [con]
        m_FreeConn := s.m_FreeConn + 1 }

def constructed (idle_timeout : ℤ) : Pool where
  m_MaxConn := 0
  m_CurConn := 0
  m_FreeConn := 0
  m_idleTimeout := if idle_timeout > 0 then idle_timeout else 60
  connList := []
  m_connLastActive := fun _ => none
  reserve := 0

/-- `init` with one entry of `slots` for each of the `MaxConn` slots. -/
def init (idle_timeout : ℤ) (slots : List (List (Option MYSQL) × ℤ)) : Option Pool :=
  (slots.foldlM init_slot (constructed idle_timeout)).map fun s =>
    { s with reserve := s.m_FreeConn.toNat, m_MaxConn := s.m_FreeConn }

/-- The pool of `n` slots. `create_connection` has returned different handles. -/
def system (n : ℕ) : System World Label where
  init w := w.calls = [] ∧ w.pool.connList.Nodup ∧
    ∃ idle_timeout slots, slots.length = n ∧ init idle_timeout slots = some w.pool
  step := step

end AtlasWebServer.ConnectionPool
