/-
The rows of `docker/mysql/init.sql` that the services read and write.

Columns no modelled statement reads are left out (password hashes, update times,
the generated `folder_key`, which is `folder_id` with 0 for `NULL`). Timestamps are
Unix times. A column that may be `NULL` is an `Option`.
-/
import AtlasWebServer.Bytes

set_option autoImplicit false

namespace AtlasWebServer.Tables

open Bytes

/-- A row of `users`; `disabled` is `disabled_at IS NOT NULL`. -/
structure UserRow where
  id : ℕ
  username : Bytes
  disabled : Bool
  deriving DecidableEq

structure SessionRow where
  token : Bytes
  user_id : ℕ
  expires_at : ℤ
  deriving DecidableEq

structure FolderRow where
  id : ℤ
  user_id : ℕ
  parent_id : Option ℤ
  name : Bytes
  deleted_at : Option ℤ
  deriving DecidableEq

structure PhysicalFileRow where
  id : ℤ
  sha256 : Bytes
  stored_name : Bytes
  file_size : ℤ
  ref_count : ℤ
  deriving DecidableEq

structure FileRow where
  id : ℤ
  user_id : ℕ
  stored_name : Bytes
  physical_id : ℤ
  original_name : Bytes
  content_type : Bytes
  folder_id : Option ℤ
  file_size : ℤ
  is_public : Bool
  content_sha256 : Bytes
  deleted_marker : ℤ
  deleted_at : Option ℤ
  created_at : ℤ
  deriving DecidableEq

/-- A row of `file_shares`. -/
structure FileShareRow where
  token : Bytes
  file_id : ℤ
  user_id : ℕ
  access_code_hash : Bytes
  expires_at : Option ℤ
  max_downloads : ℤ
  download_count : ℤ
  deriving DecidableEq

theorem nodup_append_fresh {τ : Type*} {rows new : List τ} {id : τ → ℤ} {next : ℤ}
    (h : (rows.map id).Nodup) (hlt : ∀ x ∈ rows, id x < next) (hnew : (new.map id).Nodup)
    (hge : ∀ x ∈ new, next ≤ id x) : ((rows ++ new).map id).Nodup := by
  rw [List.map_append, List.nodup_append]
  refine ⟨h, hnew, fun a ha b hb => ?_⟩
  obtain ⟨x, hx, rfl⟩ := List.mem_map.mp ha
  obtain ⟨y, hy, rfl⟩ := List.mem_map.mp hb
  exact ((hlt x hx).trans_le (hge y hy)).ne

end AtlasWebServer.Tables
