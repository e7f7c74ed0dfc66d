import Miresga.Lib.Store
import Miresga.Wire

/-!
# Backend — the agent's two programs

`ingress_xdp_prog` runs on every frame that enters the back-end server, `egress_tc_prog` on every
frame that leaves it.  They share two maps keyed by the remote address and port: `seq_map` holds
the acknowledgement field of the last new SYN as it was loaded, `flow_map` the difference between
the server's initial sequence number and that number.

A frame is its memory and the offset of `data_end`.  Map updates succeed.  `bpf_csum_diff` is the
kernel's; the programs only thread its result into the TCP checksum.
-/

namespace Miresga.Backend

/-- `struct key_t`; its padding is always 0. -/
structure Key where
  ip : BitVec 32
  port : BitVec 16
  deriving DecidableEq, Repr

/-- The two pinned maps, with values as the programs store them. -/
structure Maps where
  seq_map : Key → Option (BitVec 32)
  flow_map : Key → Option (BitVec 32)

/-- Maps without entries, as they are created. -/
def Maps.empty : Maps := ⟨fun _ => none, fun _ => none⟩

/-- The kernel helper the programs call, for one old word, one new word and a seed. -/
structure Helpers where
  bpf_csum_diff : BitVec 32 → BitVec 32 → BitVec 32 → BitVec 32

/-- One's-complement addition of 32-bit words: the carry goes back in at the bottom. -/
def csum_add (a b : BitVec 32) : BitVec 32 :=
  if a.toNat + b.toNat < 2 ^ 32 then a + b else a + b + 1

/-- The helper as the kernel documents it: the old word is taken out, the new one put in. -/
def Helpers.kernel : Helpers where
  bpf_csum_diff old new seed := csum_add (csum_add seed (~~~old)) new

/-- The bytes between `data` and `data_end`. -/
structure Frame where
  data : Mem
  data_end : Nat

/-- The frame that consists of the given bytes. -/
def Frame.ofBytes (l : List Byte) : Frame := ⟨Mem.write (fun _ => 0) 0 l, l.length⟩

inductive XdpAction where
  | XDP_DROP
  | XDP_PASS
  deriving DecidableEq, Repr

inductive TcAction where
  | TC_ACT_SHOT
  | TC_ACT_OK
  deriving DecidableEq, Repr

def csum_folder_helper (csum : BitVec 32) : BitVec 16 :=
  let sum := (csum >>> 16) + (csum &&& 0xffff)
  let sum := sum + (sum >>> 16)
  (~~~sum).setWidth 16

/-- `key_t` of a frame that comes in: its source. -/
def ingressKey (m : Mem) : Key := ⟨src_addr m, src_port m⟩

/-- `key_t` of a frame that goes out: its destination. -/
def egressKey (m : Mem) : Key := ⟨dst_addr m, dst_port m⟩

/-! ### Ingress: the options -/

/-- Where the option chain of `ingress_xdp_prog` jumps to. -/
inductive Jump where
  | drop
  | out
  | sack_out (opt : Nat)
  /-- Past the chain, to the statement behind it. -/
  | next
  deriving DecidableEq, Repr

/-- One link of the chain: a NOP moves on, a SACK option is found, any other option ends it. -/
def option_link (m : Mem) (data_end opt : Nat) (nop : Jump) : Jump :=
  if data_end < opt + 1 then .drop
  else if m opt = 1 then nop
  else if m opt ≠ 5 then .out
  else .sack_out opt

/-- The chain: at most two NOPs, then the option behind them, which is not tested for NOP. -/
def option_chain (m : Mem) (data_end : Nat) : Jump :=
  if 5 < doff m then
    option_link m data_end 54
      (option_link m data_end 55
        (if data_end < 57 then .drop else if m 56 ≠ 5 then .out else .sack_out 56))
  else .out

/-- What the SACK blocks are rewritten in: memory, checksum, cursor and remaining length. -/
structure Sack where
  data : Mem
  csum : BitVec 32
  sack : Nat
  len : Byte

/-- One block edge moved by `diff`. -/
def sack_word (K : Helpers) (diff : BitVec 32) (s : Sack) : Sack :=
  let new_ack := htonl (ntohl (s.data.ld32 s.sack) + diff)
  { s with
    csum := K.bpf_csum_diff (s.data.ld32 s.sack) new_ack s.csum
    data := s.data.st32 s.sack new_ack
    sack := s.sack + 4 }

/-- `if(len >= 10) { … }`, of which there are four copies; `none` is `XDP_DROP`. -/
def sack_block (K : Helpers) (diff : BitVec 32) (data_end : Nat) (s : Sack) : Option Sack :=
  if 10 ≤ s.len then
    if data_end < s.sack + 8 then none
    else
      let s := sack_word K diff (sack_word K diff s)
      some { s with len := s.len - 8 }
  else some s

/-- The four copies, the first at the SACK option's first block, and the final length test. -/
def sack_blocks (K : Helpers) (diff : BitVec 32) (data_end : Nat) (s : Sack) : Option Sack :=
  match (sack_block K diff data_end s >>= sack_block K diff data_end >>=
      sack_block K diff data_end >>= sack_block K diff data_end) with
  | none => none
  | some s => if s.len ≠ 2 then none else some s

/-! ### Ingress -/

/-- What a run of `ingress_xdp_prog` leaves behind. -/
structure IngressResult where
  action : XdpAction
  frame : Frame
  maps : Maps

/-- `out:` — the folded checksum is stored and the frame passes. -/
def ingress_out (f : Frame) (data : Mem) (csum : BitVec 32) (maps : Maps) : IngressResult :=
  ⟨.XDP_PASS, { f with data := data.st16 50 (csum_folder_helper csum) }, maps⟩

/-- The body behind the length and protocol checks. -/
def ingress_tcp (K : Helpers) (maps : Maps) (f : Frame) : IngressResult :=
  let key := ingressKey f.data
  let csum := ~~~((cksum f.data).setWidth 32)
  match maps.flow_map key with
  | some diff =>
    let new_ack := htonl (ntohl (recv_ack f.data) + diff)
    let csum := K.bpf_csum_diff (recv_ack f.data) new_ack csum
    let data := f.data.st32 42 new_ack
    match option_chain data f.data_end with
    -- a dropped frame is gone, so the writes made to it before the drop are not followed
    | .drop => ⟨.XDP_DROP, { f with data := data }, maps⟩
    | .out => ingress_out f data csum maps
    | .sack_out opt =>
      if f.data_end < opt + 2 then ⟨.XDP_DROP, { f with data := data }, maps⟩
      else
        match sack_blocks K diff f.data_end ⟨data, csum, opt + 2, data (opt + 1)⟩ with
        | none => ⟨.XDP_DROP, { f with data := data }, maps⟩
        | some s => ingress_out f s.data s.csum maps
    | .next =>
      -- the cleanup behind the chain: every path of the chain has jumped away before it
      let maps :=
        if rst data then
          { flow_map := upd maps.flow_map key none
            seq_map := upd maps.seq_map key none }
        else maps
      ingress_out f data csum maps
  | none =>
    if !syn f.data then ⟨.XDP_PASS, f, maps⟩
    else
      let maps := { maps with seq_map := upd maps.seq_map key (some (recv_ack f.data)) }
      let csum := K.bpf_csum_diff (recv_ack f.data) 0 csum
      ingress_out f (f.data.st32 42 0) csum maps

def ingress_xdp_prog (K : Helpers) (maps : Maps) (f : Frame) : IngressResult :=
  if f.data_end < 14 then ⟨.XDP_DROP, f, maps⟩
  else if ether_type f.data ≠ htons ETHER_TYPE_IPV4 then ⟨.XDP_PASS, f, maps⟩
  else if f.data_end < 34 then ⟨.XDP_DROP, f, maps⟩
  else if next_proto_id f.data ≠ IPPROTO_TCP then ⟨.XDP_PASS, f, maps⟩
  else if f.data_end < 54 then ⟨.XDP_DROP, f, maps⟩
  else ingress_tcp K maps f

/-! ### Egress -/

/-- What a run of `egress_tc_prog` leaves behind. -/
structure EgressResult where
  action : TcAction
  frame : Frame
  maps : Maps

/-- The body behind the length and protocol checks. -/
def egress_tcp (K : Helpers) (maps : Maps) (f : Frame) : EgressResult :=
  let key := egressKey f.data
  let csum := ~~~((cksum f.data).setWidth 32)
  match maps.flow_map key with
  | some diff =>
    let new_seq := htonl (ntohl (sent_seq f.data) - diff)
    let csum := K.bpf_csum_diff (sent_seq f.data) new_seq csum
    let data := f.data.st32 38 new_seq
    let maps :=
      if rst data then
        { flow_map := upd maps.flow_map key none
          seq_map := upd maps.seq_map key none }
      else maps
    ⟨.TC_ACT_OK, { f with data := data.st16 50 (csum_folder_helper csum) }, maps⟩
  | none =>
    if !syn f.data || !ack f.data then ⟨.TC_ACT_OK, f, maps⟩
    else
      match maps.seq_map key with
      | none => ⟨.TC_ACT_OK, f, maps⟩
      | some f_seq =>
        let new_diff := ntohl (sent_seq f.data) - ntohl f_seq
        ⟨.TC_ACT_OK, { f with data := f.data.st16 50 (csum_folder_helper csum) },
          { maps with flow_map := upd maps.flow_map key (some new_diff) }⟩

def egress_tc_prog (K : Helpers) (maps : Maps) (f : Frame) : EgressResult :=
  if f.data_end < 14 then ⟨.TC_ACT_SHOT, f, maps⟩
  else if ether_type f.data ≠ htons ETHER_TYPE_IPV4 then ⟨.TC_ACT_OK, f, maps⟩
  else if f.data_end < 34 then ⟨.TC_ACT_SHOT, f, maps⟩
  else if next_proto_id f.data ≠ IPPROTO_TCP then ⟨.TC_ACT_OK, f, maps⟩
  else if f.data_end < 54 then ⟨.TC_ACT_SHOT, f, maps⟩
  else egress_tcp K maps f

end Miresga.Backend
