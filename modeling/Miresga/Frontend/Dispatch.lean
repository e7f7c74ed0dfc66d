import Miresga.Frontend.EntryController

/-!
# Frontend — configuration from the switch

`main` waits for the connection to the switch and takes what one `recv` returns for one message: the
first byte is the operation, then follow the number of entries to add, the number of entries to
delete, and the entries.  Nothing is kept between two receives but the tables and the buffer, whose
bytes behind those received are left over from earlier ones; `recv_size` is not looked at again.

A rule is a C string, a `d_index` and an `offload_flag`; a `d_index` entry is a byte and a
`server_info_t`.  An access behind the `ETH_FRAME_LEN` bytes of the buffer is not defined by the
source and stops the model (`Stop.overrun`).
-/

namespace Miresga.Frontend

def UPDATE_RULE : Byte := 0
def UPDATE_D_INDEX : Byte := 1
def UPDATE_V_INFO : Byte := 2

/-- `server_info_t`: 16 bytes, with `mac` at 0, `ip` at 8 and `port` at 12. -/
def server_info_t : Record ServerInfo where
  size := 16
  store m o s := ((m.write o s.mac.toList).st32 (o + 8) s.ip).st16 (o + 12) s.port
  load m o := ⟨.ofFn fun i => m (o + i), m.ld32 (o + 8), m.ld16 (o + 12)⟩
  store_outside m o s i h := by
    rw [Mem.st16_outside _ (by omega), Mem.st32_outside _ (by omega),
      Mem.write_outside _ (by simp; omega)]
  load_congr m n o p h := by
    rw [Mem.ld32_shift fun i hi => ?_, Mem.ld16_shift fun i hi => ?_]
    · have hmac : (fun i : Fin 6 => m (o + i)) = fun i : Fin 6 => n (p + i) :=
        funext fun i => h i (by omega)
      rw [hmac]
    · rw [Nat.add_assoc, Nat.add_assoc]
      exact h (12 + i) (by omega)
    · rw [Nat.add_assoc, Nat.add_assoc]
      exact h (8 + i) (by omega)
  load_store m o s := by
    rw [Mem.ld16_st16, Mem.ld32_st16_ne _ (by omega), Mem.ld32_st32]
    have hmac : (Vector.ofFn fun i : Fin 6 =>
        ((m.write o s.mac.toList).st32 (o + 8) s.ip).st16 (o + 12) s.port (o + i)) = s.mac := by
      ext i hi
      rw [Vector.getElem_ofFn, Mem.st16_outside _ (by dsimp only; omega),
        Mem.st32_outside _ (by dsimp only; omega), Mem.write_inside (by simpa using hi)]
      simp
    rw [hmac]

/-! ### The operations -/

/-- Why the loop does not go on: the switch closed the connection, or the buffer was left. -/
inductive Stop where
  | closed
  | overrun
  deriving DecidableEq, Repr

section operations

variable (recv_buffer : Mem)

/-- `recv_buffer[now_bytes]`. -/
def byte_at (now_bytes : Nat) : Except Stop Byte :=
  if now_bytes < ETH_FRAME_LEN then .ok (recv_buffer now_bytes) else .error .overrun

/-- The C string at `now_bytes`; `strlen` of it is the length of the list. -/
def key_at (now_bytes : Nat) : Except Stop (List Byte) :=
  let rest := recv_buffer.bytes now_bytes (ETH_FRAME_LEN - now_bytes)
  if 0 ∈ rest then .ok (RuleController.c_str rest) else .error .overrun

/-- The `server_info_t` that is copied from `now_bytes`. -/
def server_info_at (now_bytes : Nat) : Except Stop ServerInfo :=
  if now_bytes + 16 ≤ ETH_FRAME_LEN then .ok (server_info_t.load recv_buffer now_bytes)
  else .error .overrun

/-- The first loop of `UPDATE_RULE`. -/
def add_rules : Nat → Nat → RuleController → Except Stop (Nat × RuleController)
  | 0, now_bytes, rc => .ok (now_bytes, rc)
  | add_size + 1, now_bytes, rc => do
    let key ← key_at recv_buffer now_bytes
    let now_bytes := now_bytes + (key.length + 1)
    let d_index ← byte_at recv_buffer now_bytes
    let now_bytes := now_bytes + 1
    let offload_flag ← byte_at recv_buffer now_bytes
    let now_bytes := now_bytes + 1
    add_rules add_size now_bytes (rc.add_balancing_rule key ⟨offload_flag, d_index⟩).2

/-- The second loop of `UPDATE_RULE`. -/
def del_rules : Nat → Nat → RuleController → Except Stop RuleController
  | 0, _, rc => .ok rc
  | del_size + 1, now_bytes, rc => do
    let key ← key_at recv_buffer now_bytes
    del_rules del_size (now_bytes + (key.length + 1)) (rc.del_balancing_rule key).2

/-- The first loop of `UPDATE_D_INDEX`. -/
def add_d_indexes : Nat → Nat → RuleController → Except Stop (Nat × RuleController)
  | 0, now_bytes, rc => .ok (now_bytes, rc)
  | add_size + 1, now_bytes, rc => do
    let index ← byte_at recv_buffer now_bytes
    let now_bytes := now_bytes + 1
    let server_info ← server_info_at recv_buffer now_bytes
    add_d_indexes add_size (now_bytes + 16) (rc.add_d_index_rule index server_info).2

/-- The second loop of `UPDATE_D_INDEX`. -/
def del_d_indexes : Nat → Nat → RuleController → Except Stop RuleController
  | 0, _, rc => .ok rc
  | del_size + 1, now_bytes, rc => do
    let index ← byte_at recv_buffer now_bytes
    del_d_indexes del_size (now_bytes + 1) (rc.del_d_index_rule index).2

/-- The `switch` on the operation; any other operation is only reported. -/
def dispatch (rc : RuleController) : Except Stop RuleController :=
  let op := recv_buffer 0
  let add_size := (recv_buffer 1).toNat
  let del_size := (recv_buffer 2).toNat
  if op = UPDATE_RULE then do
    let (now_bytes, rc) ← add_rules recv_buffer add_size 3 rc
    del_rules recv_buffer del_size now_bytes rc
  else if op = UPDATE_V_INFO then
    -- the pointer handed over is `recv_buffer + 1`, so there are no counts in this message
    .ok (rc.update_virtual_server_info (server_info_t.load recv_buffer 1)).2
  else if op = UPDATE_D_INDEX then do
    let (now_bytes, rc) ← add_d_indexes recv_buffer add_size 3 rc
    del_d_indexes recv_buffer del_size now_bytes rc
  else .ok rc

end operations

/-! ### The loop -/

/-- What is kept from one receive to the next. -/
structure Config where
  rule_controller : RuleController
  recv_buffer : Mem

namespace Config

/-- One `recv` that returns the bytes `data`, and what is done with them. -/
def recv (c : Config) (data : List Byte) : Except Stop Config :=
  if data = [] then .error .closed
  else
    let recv_buffer := c.recv_buffer.write 0 data
    (dispatch recv_buffer c.rule_controller).map (⟨·, recv_buffer⟩)

/-- One receive after the other. -/
def recvs (c : Config) (received : List (List Byte)) : Except Stop Config := received.foldlM recv c

end Config

end Miresga.Frontend
