import Miresga.Lib.Local
import Miresga.Frontend.BuilderSpec
import Miresga.Frontend.Burst
import Miresga.Frontend.Records

/-!
# Frontend — what a send buffer held before

A builder copies a packet to the front of a send buffer (`Call.copied` bytes) and says how long the
frame is (`Call.sent`).  What it writes depends on the packet alone and stays within the copied bytes
(`build_overlay`), so behind them the frame is what the buffer held before.  The two lengths are the
same constant for the frames the front-end makes itself.  A packet that is passed on is copied by the
length it was received with and sent by the length its IP header claims.
-/

namespace Miresga.Frontend

/-! ### Two lengths -/

/-- How many bytes the builder copies into the send buffer. -/
def Call.copied : Call → Nat
  | .forward_inbound_pkt _ r | .forward_outbound_pkt r => r.data_len.toNat
  | .reply_rst_pkt _ | .send_rst_pkt _ _ => 54
  | .send_cached_pkt _ _ n => n
  | .send_syn_pkt _ _ => 66

/-- The length of a packet by its IP header, as `data_len` holds it. -/
def claimed (m : Mem) : Nat := (ntohs (total_length m) + 14).toNat

/-- The length of the frame built. -/
def Call.sent : Call → Nat
  | .forward_inbound_pkt _ r | .forward_outbound_pkt r => claimed r.data
  | .reply_rst_pkt _ | .send_rst_pkt _ _ => 54
  | .send_cached_pkt _ m _ => claimed m
  | .send_syn_pkt _ _ => 66

section overlay

variable {rc : RuleController} {c : Call} {n : Nat}

open Mem (Local Reads)

theorem local_st8 (o : Nat) (v : Byte) (h : o < n) : Local n fun m => m.st8 o v :=
  Local.refl.st8 (.const v) h

theorem local_st16 (o : Nat) (v : BitVec 16) (h : o + 2 ≤ n) : Local n fun m => m.st16 o v :=
  Local.refl.st16 (.const v) h

theorem local_st32 (o : Nat) (v : BitVec 32) (h : o + 4 ≤ n) : Local n fun m => m.st32 o v :=
  Local.refl.st32 (.const v) h

/-- One of the MAC addresses is written. -/
theorem local_write_mac (o : Nat) {l : List Byte} (hl : l.length = 6) (h : o + 6 ≤ n) :
    Local n fun m => m.write o l :=
  Local.refl.write (.const l) fun _ => by omega

/-- `version_ihl` says that the header has 20 bytes. -/
theorem local_ihl5 (hn : 54 ≤ n) : Local n fun m => m.st8 14 (ihl5 (version_ihl m)) :=
  Local.refl.st8 ((Reads.byte (by omega)).map ihl5) (by omega)

/-- A packet that is passed on gets MAC addresses, an address, a port and zero checksums. -/
theorem local_addressed (hn : 54 ≤ n) {l l' : List Byte} (o o' p p' : Nat) (hl : l.length = 6)
    (hl' : l'.length = 6) (ho : o ≤ 6) (ho' : o' ≤ 6) (hp : p + 4 ≤ 54) (hp' : p' + 2 ≤ 54)
    (ip : BitVec 32) (port : BitVec 16) :
    Local n fun m => (((((m.write o l).write o' l').st32 p ip).st16 24 0).st16 p' port).st16 50 0 :=
  (local_st16 50 0 (by omega)).comp <| (local_st16 p' port (by omega)).comp <|
    (local_st16 24 0 (by omega)).comp <| (local_st32 p ip (by omega)).comp <|
      (local_write_mac o' hl' (by omega)).comp (local_write_mac o hl (by omega))

/-- The client and the server change places. -/
theorem local_swap (hn : 54 ≤ n) :
    (Local n fun m => (m.st32 26 (dst_addr m)).st32 30 (src_addr m)) ∧
      Local n fun m => (m.st16 34 (dst_port m)).st16 36 (src_port m) := by
  have hip : Local n fun m => m.st32 26 (dst_addr m) :=
    Local.refl.st32 (.ld32 (by omega)) (by omega)
  have hport : Local n fun m => m.st16 34 (dst_port m) :=
    Local.refl.st16 (.ld16 (by omega)) (by omega)
  exact ⟨hip.st32 (.ld32 (by omega)) (by omega), hport.st16 (.ld16 (by omega)) (by omega)⟩

/-- `reply_rst_pkt`: the numbers change places, the acknowledgment moved by `k`. -/
theorem local_reply_numbers (hn : 54 ≤ n) (k : BitVec 32 → BitVec 32) :
    Local n fun m => (m.st32 42 (htonl (k (ntohl (sent_seq m))))).st32 38
      (htonl (ntohl (recv_ack m))) := by
  have hack : Local n fun m => m.st32 42 (htonl (k (ntohl (sent_seq m)))) :=
    Local.refl.st32 ((Reads.ld32 (by omega)).map fun v => htonl (k (ntohl v))) (by omega)
  exact hack.st32 ((Reads.ld32 (by omega)).map fun v => htonl (ntohl v)) (by omega)

/-- `send_syn_pkt`: both numbers one less. -/
theorem local_syn_numbers (hn : 54 ≤ n) :
    (Local n fun m => m.st32 38 (htonl (ntohl (sent_seq m) - 1))) ∧
      Local n fun m => m.st32 42 (htonl (ntohl (recv_ack m) - 1)) :=
  ⟨Local.refl.st32 ((Reads.ld32 (by omega)).map fun v => htonl (ntohl v - 1)) (by omega),
    Local.refl.st32 ((Reads.ld32 (by omega)).map fun v => htonl (ntohl v - 1)) (by omega)⟩

/-! ### Builders write within what they copy -/

/-- The call's frame is `X` laid over the buffer, as far as the call copies. -/
def Call.Overlay (rc : RuleController) (c : Call) (X : Mem) : Prop :=
  ∀ b : Mbuf, ∃ f, c.build rc b = some (.OK, f) ∧ f.data = b.data.copy X c.copied ∧
    f.data_len.toNat = c.sent

theorem Call.Overlay.of_local {F : Mem → Mem} {x : Mem} (hF : Local c.copied F)
    (h : ∀ b : Mbuf, ∃ f, c.build rc b = some (.OK, f) ∧ f.data = F (b.data.copy x c.copied) ∧
      f.data_len.toNat = c.sent) : c.Overlay rc (F x) := by
  intro b
  obtain ⟨f, hf, hdata, hlen⟩ := h b
  exact ⟨f, hf, hdata.trans (hF b.data x), hlen⟩

variable {server : ServerInfo} {d : Byte} {r : Mbuf}

theorem forward_inbound_overlay (hs : rc.lookup_backend_server_info d = some server)
    (hn : 54 ≤ r.data_len.toNat) : ∃ X, (Call.forward_inbound_pkt d r).Overlay rc X := by
  have hl := local_addressed hn 6 0 30 36 local_mac_length server.mac.length_toList (by omega)
    (by omega) (by omega) (by omega) (htonl server.ip) (htons server.port)
  refine ⟨_, .of_local (x := r.data) hl fun b => ?_⟩
  obtain ⟨f, hf⟩ : ∃ f, forward_inbound_pkt rc d r b = some (.OK, f) :=
    ⟨_, by rw [forward_inbound_pkt, hs]⟩
  obtain ⟨server', -, hsent⟩ := forward_inbound_sentTo hf
  refine ⟨f, hf, ?_, ?_⟩
  · rw [forward_inbound_pkt, hs] at hf
    cases hf
    rfl
  · rw [forward_inbound_len hf, hsent.total_length hn]
    rfl

theorem send_cached_overlay {m : Mem} (hs : rc.lookup_backend_server_info d = some server)
    (hn : 54 ≤ n) : ∃ X, (Call.send_cached_pkt d m n).Overlay rc X := by
  have hl := local_addressed hn 0 6 30 36 server.mac.length_toList local_mac_length (by omega)
    (by omega) (by omega) (by omega) (htonl server.ip) (htons server.port)
  refine ⟨_, .of_local (x := m) hl fun b => ?_⟩
  obtain ⟨f, hf⟩ : ∃ f, send_cached_pkt rc d m n b = some (.OK, f) :=
    ⟨_, by rw [send_cached_pkt, hs]⟩
  obtain ⟨server', -, hsent⟩ := send_cached_sentTo hf
  have hlen : f.data_len = ntohs (total_length f.data) + 14 := by
    rw [send_cached_pkt, hs] at hf
    cases hf
    rfl
  refine ⟨f, hf, ?_, ?_⟩
  · rw [send_cached_pkt, hs] at hf
    cases hf
    rfl
  · rw [hlen, hsent.total_length hn]
    rfl

theorem forward_outbound_overlay (hn : 54 ≤ r.data_len.toNat) :
    ∃ X, (Call.forward_outbound_pkt r).Overlay rc X := by
  have hl := local_addressed hn 6 0 26 34 local_mac_length
    rc.get_virtual_server_info.mac.length_toList (by omega) (by omega) (by omega) (by omega)
    (htonl rc.get_virtual_server_info.ip) (htons rc.get_virtual_server_info.port)
  refine ⟨_, .of_local (x := r.data) hl fun b => ⟨_, rfl, rfl, ?_⟩⟩
  have hb : forward_outbound_pkt rc r b = some (.OK, _) := rfl
  have hsent := forward_outbound_sentOut hb
  have htotal := Mem.ld16_congr (o := 16) fun i _ _ =>
    hsent.rest i (by omega) (by unfold LinkByte; omega) (by omega) (by omega)
  exact congrArg (fun v => (ntohs v + 14).toNat) htotal

theorem reply_rst_overlay : ∃ X, (Call.reply_rst_pkt r).Overlay rc X := by
  have hmac : Local 54 fun m => m.write 0 (m.bytes 6 6) :=
    Local.refl.write (.bytes (by omega)) fun _ => by simp
  have hnumbers := local_reply_numbers (n := 54) (Nat.le_refl 54) fun v => v + r.data_len.setWidth 32
    - BitVec.ofNat 32 r.l2_len - BitVec.ofNat 32 r.l3_len - BitVec.ofNat 32 r.l4_len
  have hip := (local_swap (Nat.le_refl 54)).1.comp
    ((local_write_mac 6 local_mac_length (by omega)).comp hmac)
  have hlen := (local_st16 16 (htons 40) (by omega)).comp
    ((local_ihl5 (Nat.le_refl 54)).comp ((local_st16 24 0 (by omega)).comp hip))
  have hl := (local_st16 50 0 (by omega)).comp <| (local_st8 47 TCP_RST_FLAG (by omega)).comp <|
    (local_st8 46 (5 <<< 4) (by omega)).comp <| hnumbers.comp <|
      (local_swap (Nat.le_refl 54)).2.comp hlen
  refine ⟨_, .of_local (x := r.data) hl fun b => ⟨_, rfl, rfl, ?_⟩⟩
  have htotal : ∀ m : Mem, ∀ w v : BitVec 16, ∀ x y : BitVec 32, ∀ u : Byte,
      total_length ((((((((m.st16 16 (htons 40)).st16 34 w).st16 36 v).st32 42 x).st32 38 y).st8 46
        u).st8 47 TCP_RST_FLAG).st16 50 0) = htons 40 := by
    intro m w v x y u
    simp (disch := omega) only [total_length, Mem.ld16_st16_ne, Mem.ld16_st8_ne, Mem.ld16_st32_ne,
      Mem.ld16_st16]
  exact congrArg (fun v => (ntohs v + 14).toNat) (htotal _ _ _ _ _ _)

theorem send_rst_overlay (hs : rc.lookup_backend_server_info d = some server) :
    ∃ X, (Call.send_rst_pkt d r).Overlay rc X := by
  have hip := (local_st32 (n := 54) 30 server.ip (by omega)).comp
    ((local_write_mac 6 local_mac_length (by omega)).comp
      (local_write_mac 0 server.mac.length_toList (by omega)))
  have hport := (local_st16 36 server.port (by omega)).comp <| (local_st16 24 0 (by omega)).comp <|
    (local_st16 16 (htons 40) (by omega)).comp ((local_ihl5 (Nat.le_refl 54)).comp hip)
  have hl := (local_st16 50 0 (by omega)).comp <| (local_st8 46 (5 <<< 4) (by omega)).comp <|
    (local_st8 47 TCP_RST_FLAG (by omega)).comp hport
  refine ⟨_, .of_local (x := r.data) hl fun b => ?_⟩
  exact ⟨_, by rw [Call.build, send_rst_pkt, hs], rfl, rfl⟩

theorem send_syn_overlay (hs : rc.lookup_backend_server_info d = some server) :
    ∃ X, (Call.send_syn_pkt d r).Overlay rc X := by
  have hip := (local_st32 (n := 66) 30 (htonl server.ip) (by omega)).comp
    (local_write_mac 0 server.mac.length_toList (by omega))
  have hport := (local_st16 36 (htons server.port) (by omega)).comp <|
    (local_st16 24 0 (by omega)).comp <| (local_st16 16 (htons 52) (by omega)).comp <|
      (local_ihl5 (by omega)).comp hip
  have hflags := (local_st8 46 (8 <<< 4) (by omega)).comp
    ((local_st8 47 TCP_SYN_FLAG (by omega)).comp hport)
  have hnumbers := (local_syn_numbers (by omega)).2.comp ((local_syn_numbers (by omega)).1.comp hflags)
  have hoptions : Local 66 fun m => m.write 54 option_char :=
    Local.refl.write (.const _) fun _ => Nat.le_refl 66
  have hl := hoptions.comp ((local_st16 50 0 (by omega)).comp hnumbers)
  refine ⟨_, .of_local (x := r.data) hl fun b => ?_⟩
  obtain ⟨f, hf⟩ : ∃ f, send_syn_pkt rc d r b = some (.OK, f) := ⟨_, by rw [send_syn_pkt, hs]⟩
  refine ⟨f, hf, ?_, ?_⟩
  · rw [send_syn_pkt, hs] at hf
    cases hf
    rfl
  · rw [send_syn_len hf]
    rfl

/-- **Builders write within what they copy.**  What stands behind it is what the buffer held. -/
theorem build_overlay (h : c.served rc = true) (hn : 54 ≤ c.copied) : ∃ X, c.Overlay rc X := by
  cases c with
  | forward_inbound_pkt d r =>
      obtain ⟨server, hs⟩ := lookup_of_served rfl h
      exact forward_inbound_overlay hs hn
  | forward_outbound_pkt r => exact forward_outbound_overlay hn
  | reply_rst_pkt r => exact reply_rst_overlay
  | send_rst_pkt d r =>
      obtain ⟨server, hs⟩ := lookup_of_served rfl h
      exact send_rst_overlay hs
  | send_cached_pkt d m n =>
      obtain ⟨server, hs⟩ := lookup_of_served rfl h
      exact send_cached_overlay hs hn
  | send_syn_pkt d r =>
      obtain ⟨server, hs⟩ := lookup_of_served rfl h
      exact send_syn_overlay hs

end overlay

/-! ### Which packets make a frame too long -/

/-- The frame is longer than what was copied. -/
def Call.overlong (c : Call) : Bool := c.copied < c.sent

/-- The packet claims more than its `n` bytes. -/
def overstated (m : Mem) (n : Nat) : Bool := n < claimed m

/-- A packet whose source has no flow is passed on to a client, or answers a cached packet, and what
is sent claims more than there is. -/
def overlong_backend (s : Shared) (p : Mbuf) : Bool :=
  match s.find (dstClient p.data) with
  | none => false
  | some a =>
    match (s.flow a).state with
    | .BACKEND_SYN =>
      tcp_flags p.data == TCP_ACK_FLAG ||| TCP_SYN_FLAG &&
        (s.flow a).recv_pkt.any fun q => overstated (s.cached.cell q) (s.flow a).pkt_size
    | .COMPLETE | .OFFLOAD => overstated p.data p.data_len.toNat
    | .INIT => false

/-- The packet is passed on, or answers a cached packet, and what is sent claims more than there
is. -/
def overlong (rc : RuleController) (s : Shared) (p : Mbuf) : Bool :=
  isTcp p.data &&
    match s.find (srcClient p.data) with
    | none => overlong_backend s p
    | some a =>
      match (s.flow a).state with
      | .COMPLETE | .OFFLOAD =>
        overstated p.data p.data_len.toNat && (rst p.data || fin p.data || !payload_flag p.data ||
          (rule rc p).any (·.d_index == (s.flow a).entry_data.d_index))
      | .BACKEND_SYN => false
      | .INIT => overlong_backend s p

/-- The step from `x` to `y` makes a call that is too long, or makes none, as `v` says. -/
def Adds (v : Bool) (x y : Proc) : Prop :=
  ∃ cs, y.sends.calls = x.sends.calls ++ cs ∧ cs.any Call.overlong = v

section overlong

variable {rc : RuleController} {mem : Alloc} {p : Mbuf} {s y : Proc} {a : Addr}

theorem Adds.none {v : Bool} (hy : y.sends.calls = s.sends.calls) (hv : v = false) : Adds v s y :=
  ⟨[], by simp [hy], hv.symm⟩

/-- A call in front. -/
theorem Adds.call {c : Call} {k : Proc → Outcome} (h : call rc s c k = .next y) :
    ∃ b, k (s.filled c b) = .next y ∧ ∀ v, Adds v (s.filled c b) y → Adds (c.overlong || v) s y := by
  unfold Frontend.call at h
  split at h
  · cases h
  next b hb =>
    refine ⟨b, h, fun v hv => ?_⟩
    obtain ⟨cs, hcs, rfl⟩ := hv
    exact ⟨c :: cs, by rw [hcs, filled_calls, List.append_assoc]; rfl, List.any_cons⟩
  · cases h

/-- The last call. -/
theorem Adds.last {c : Call} {k : Proc → Outcome} (h : Frontend.call rc s c k = .next y)
    (hk : ∀ x z, k x = .next z → z.sends.calls = x.sends.calls) : Adds c.overlong s y := by
  obtain ⟨b, h, hadd⟩ := Adds.call h
  have hlast := hadd false (.none (hk _ _ h) rfl)
  rwa [Bool.or_false] at hlast

/-- A call of a frame of constant length, and the last one. -/
theorem Adds.last₂ {c c' : Call} {k k' : Proc → Outcome} (h : Frontend.call rc s c k' = .next y)
    (hc : c.overlong = false) (f : Shared → Shared)
    (hk' : ∀ x, k' x = Frontend.call rc (x.bump.on f) c' k)
    (hk : ∀ x z, k x = .next z → z.sends.calls = x.sends.calls) : Adds c'.overlong s y := by
  obtain ⟨b, h, hadd⟩ := Adds.call h
  rw [hk'] at h
  have hnext : Adds c'.overlong ((s.filled c b).bump.on f) y := Adds.last h hk
  have hlast := hadd _ hnext
  rwa [hc, Bool.false_or] at hlast

/-- Setting a flag does not change the length claimed. -/
theorem claimed_with_rst (p : Mbuf) : claimed (with_rst p).data = claimed p.data := by
  unfold claimed total_length with_rst
  rw [Mem.ld16_st8_ne _ (by omega)]

theorem client_payload_adds (h : client_payload none rc mem p s a = .next y) :
    Adds (overstated p.data p.data_len.toNat &&
      (rule rc p).any (·.d_index == (s.shared.flow a).entry_data.d_index)) s y := by
  unfold client_payload at h
  dsimp only at h
  rw [if_neg (parse_url_size p.data)] at h
  obtain ⟨-, h⟩ := copy_url_next h
  split at h
  next hr =>
    cases h
    have hr' : rule rc p = none := hr
    exact .none rfl (by rw [hr', Option.any_none, Bool.and_false])
  next data hr =>
    have hr' : rule rc p = some data := hr
    rw [hr', Option.any_some]
    split at h
    next hd =>
      rw [beq_eq_false_iff_ne.mpr hd, Bool.and_false]
      refine Adds.last₂ h rfl (·.unoffload (srcClient p.data) a) (fun _ => rfl) fun x z hz => ?_
      split at hz
      · cases hz
      · cases hz
        rfl
    next hd =>
      rw [beq_iff_eq.mpr (not_not.mp hd), Bool.and_true]
      refine Adds.last h fun x z hz => ?_
      split_ifs at hz <;> cases hz <;> rfl

theorem client_established_adds (h : client_established none rc mem p s a = .next y) :
    Adds (overstated p.data p.data_len.toNat && (rst p.data || fin p.data || !payload_flag p.data ||
      (rule rc p).any (·.d_index == (s.shared.flow a).entry_data.d_index))) s y := by
  unfold client_established at h
  dsimp only at h
  split_ifs at h with hr hfin hpay
  · rw [hr, Bool.true_or, Bool.true_or, Bool.true_or, Bool.and_true]
    refine Adds.last h fun x z hz => ?_
    cases hz
    rfl
  · rw [hfin, Bool.or_true, Bool.true_or, Bool.true_or, Bool.and_true, overstated, ← claimed_with_rst]
    refine Adds.last₂ h rfl id (fun _ => rfl) fun x z hz => ?_
    cases hz
    rfl
  · simp only [hr, hfin, hpay, Bool.not_true, Bool.or_self, Bool.false_or]
    exact client_payload_adds h
  · have hpay' : payload_flag p.data = false := Bool.eq_false_iff.mpr hpay
    rw [hpay', Bool.not_false, Bool.or_true, Bool.true_or, Bool.and_true]
    refine Adds.last h fun x z hz => ?_
    cases hz
    rfl

theorem client_backend_syn_adds (h : client_backend_syn rc p s a = .next y) : Adds false s y := by
  unfold client_backend_syn at h
  dsimp only at h
  split at h
  · refine Adds.last h fun x z hz => ?_
    cases hz
    rfl
  split at h
  · cases h
    exact .none rfl rfl
  split at h
  · refine Adds.last h fun x z hz => ?_
    cases hz
    rfl
  · cases h
    exact .none rfl rfl

theorem backend_syn_ack_adds (h : backend_syn_ack rc p s a = .next y) :
    Adds (tcp_flags p.data == TCP_ACK_FLAG ||| TCP_SYN_FLAG && (s.shared.flow a).recv_pkt.any
      fun q => overstated (s.shared.cached.cell q) (s.shared.flow a).pkt_size) s y := by
  unfold backend_syn_ack at h
  dsimp only at h
  split at h
  next hflags =>
    cases h
    exact .none rfl (by rw [beq_eq_false_iff_ne.mpr hflags, Bool.false_and])
  next hflags =>
    split at h
    · cases h
    next q hq =>
      rw [on_shared, establish_cached] at h
      rw [hq, beq_iff_eq.mpr (not_not.mp hflags), Bool.true_and, Option.any_some]
      refine Adds.last (s := s.on (·.establish (dstClient p.data) a)) h fun x z hz => ?_
      cases hz
      rfl

theorem backend_established_adds (h : backend_established rc p s a = .next y) :
    Adds (overstated p.data p.data_len.toNat) s y := by
  unfold backend_established at h
  dsimp only at h
  split_ifs at h
  · refine Adds.last h fun x z hz => ?_
    cases hz
    rfl
  · rw [overstated, ← claimed_with_rst]
    refine Adds.last₂ h rfl id (fun _ => rfl) fun x z hz => ?_
    cases hz
    rfl
  · refine Adds.last h fun x z hz => ?_
    cases hz
    rfl

theorem new_flow_adds (h : new_flow none rc mem p s = .next y) : Adds false s y := by
  unfold new_flow at h
  split_ifs at h
  · cases h
    exact .none rfl rfl
  · cases h
    exact .none rfl rfl
  obtain ⟨-, h⟩ := copy_url_next h
  split at h
  · cases h
    exact .none rfl rfl
  · refine Adds.last h fun x z hz => ?_
    split at hz
    · cases hz
    · cases hz
      rfl

theorem from_backend_adds (h : from_backend none rc mem p s = .next y) :
    Adds (overlong_backend s.shared p) s y := by
  cases hf : s.shared.find (dstClient p.data) with
  | none =>
      simp only [from_backend, hf] at h
      simp only [overlong_backend, hf]
      exact new_flow_adds h
  | some a =>
      cases hs : (s.shared.flow a).state with
      | INIT =>
          simp only [from_backend, hf, hs] at h
          simp only [overlong_backend, hf, hs]
          exact new_flow_adds h
      | BACKEND_SYN =>
          simp only [from_backend, hf, hs] at h
          simp only [overlong_backend, hf, hs]
          exact backend_syn_ack_adds h
      | OFFLOAD | COMPLETE =>
          simp only [from_backend, hf, hs] at h
          simp only [overlong_backend, hf, hs]
          exact backend_established_adds h

/-- A packet makes a frame that is too long if it is `overlong`, and only then. -/
theorem process_pkt_adds (h : process_pkt rc mem p s = .next y) :
    Adds (overlong rc s.shared p) s y := by
  unfold process_pkt process_pkt_within at h
  split_ifs at h with he hp
  · cases h
    exact .none rfl (by simp [overlong, isTcp, he])
  · cases h
    exact .none rfl (by simp [overlong, isTcp, hp])
  have ht : isTcp p.data := ⟨not_not.mp he, not_not.mp hp⟩
  rw [overlong, decide_eq_true ht, Bool.true_and]
  cases hf : s.shared.find (srcClient p.data) with
  | none =>
      simp only [hf] at h
      exact from_backend_adds h
  | some a =>
      cases hs : (s.shared.flow a).state with
      | INIT =>
          simp only [hf, hs] at h
          simp only [hs]
          exact from_backend_adds h
      | BACKEND_SYN =>
          simp only [hf, hs] at h
          simp only [hs]
          exact client_backend_syn_adds h
      | OFFLOAD | COMPLETE =>
          simp only [hf, hs] at h
          simp only [hs]
          exact client_established_adds h

end overlong

/-! ### Packets of at least 60 bytes -/

/-- Every cached packet has at least 60 bytes. -/
def Long (s : Shared) : Prop := Records (fun f => 60 ≤ f.pkt_size) s

section long

variable {l : Recv} {s s' : Shared} {cs : List Call}

theorem Long.transition (h : Long s) (hl : 60 ≤ l.pkt.data_len.toNat)
    (ht : Transition l.rc l.mem l.pkt s s' cs) : Long s' :=
  Records.transition (fun _ _ _ hf => hf) h (fun _ _ => hl) ht

/-- **Where only frames of at least 60 bytes are received, no shorter one is cached.** -/
theorem Long.run {s₀ : Shared} {ls : List Recv} (h₀ : Initial s₀)
    (h : Steps (fun s l s' => 60 ≤ l.pkt.data_len.toNat ∧ ∃ cs, FrontStep s l s' cs) s₀ ls s) :
    Long s := by
  refine h.inv (fun s l s' hs hstep => ?_) (Records.initial h₀)
  obtain ⟨hl, cs, hstep⟩ := hstep
  exact hs.transition hl hstep.transition

/-- Then every call copies the headers. -/
theorem Transition.copied (h : Long s) (hl : 60 ≤ l.pkt.data_len.toNat)
    (ht : Transition l.rc l.mem l.pkt s s' cs) : ∀ c ∈ cs, 54 ≤ c.copied := by
  have hpkt : 54 ≤ l.pkt.data_len.toNat := by omega
  cases ht with
  | ignored => simp
  | fin_unsent | abandon | resyn | create => simp [Call.copied]
  | forward | serve | offload | unoffload | reply => simpa [Call.copied] using hpkt
  | move => simp [Call.copied]
  | close_client _ _ hcs => rcases hcs with ⟨-, rfl⟩ | rfl <;> simpa [Call.copied, with_rst] using hpkt
  | close_backend _ _ _ hcs => rcases hcs with rfl | rfl <;> simpa [Call.copied, with_rst] using hpkt
  | syn_ack _ hf =>
      have hsize := h _ _ hf
      simp only [List.mem_singleton, forall_eq, Call.copied]
      omega

end long

/-- A packet of the burst is `overlong` in the state it meets. -/
def overlongs : List Recv → Shared → Bool
  | [], _ => false
  | l :: ls, s =>
    overlong l.rc s l.pkt ||
      match process_pkt l.rc l.mem l.pkt ⟨s, .blank⟩ with
      | .next s' => overlongs ls s'.shared
      | _ => false

section burst

variable {ls : List Recv} {s s' : Shared} {fs : List (RuleController × Call)}

/-- The frames of a burst copy the headers, and one is too long if a packet is `overlong`. -/
theorem serve_each_overlong (hls : ∀ l ∈ ls, 60 ≤ l.pkt.data_len.toNat) (hs : Long s)
    (hf : fails ls s = false) (h : serve_each ls s = some (s', fs)) :
    (∀ f ∈ fs, 54 ≤ f.2.copied) ∧ (fs.any fun f => f.2.overlong) = overlongs ls s := by
  induction ls generalizing s s' fs with
  | nil =>
      cases h
      exact ⟨by simp, rfl⟩
  | cons l ls ih =>
      obtain ⟨hl, hls⟩ := List.forall_mem_cons.mp hls
      rcases process_pkt_cases l.rc l.mem l.pkt s with
        ⟨hu, -⟩ | ⟨hu, cs, s₁, hcs, -, -, ht, hp⟩ | ⟨-, o, ho, hp⟩
      · rw [fails, hu] at hf
        cases hf
      · rw [fails_next hu hp] at hf
        rw [serve_each_next hcs hp] at h
        obtain ⟨⟨r, fs'⟩, hr, he⟩ := Option.map_eq_some_iff.mp h
        obtain ⟨rfl, rfl⟩ := Prod.mk.inj he
        obtain ⟨hcopied, hany⟩ := ih hls (hs.transition hl ht) hf hr
        obtain ⟨cs', hcs', hv⟩ := process_pkt_adds (hp .blank)
        rw [fills_calls hcs] at hcs'
        cases List.append_cancel_left hcs'
        constructor
        · intro f hmem
          rcases List.mem_append.mp hmem with hmem | hmem
          · obtain ⟨c, hc, rfl⟩ := List.mem_map.mp hmem
            exact ht.copied hs hl c hc
          · exact hcopied f hmem
        · rw [List.any_append, List.any_map, hany, overlongs, hp .blank, ← hv]
          rfl
      · rcases ho with rfl | rfl | rfl <;> rw [serve_each, hp .blank] at h <;> cases h

/-! ### The frames handed over -/

/-- The bytes of a frame. -/
def Mbuf.frame (f : Mbuf) : List Byte := f.data.bytes 0 f.data_len.toNat

/-- The frames given to `rte_eth_tx_burst`. -/
def Burst.frames (r : Burst) : List (List Byte) := r.handed.map fun i => (r.sends.send_pkts i).frame

/-- What fills later buffers leaves the earlier ones alone. -/
theorem fill_all_before (h : ∀ f ∈ fs, Call.served f.1 f.2 = true) (t : Sends) {i : Nat}
    (hi : i < t.send_size) : (t.fill_all fs).send_pkts i = t.send_pkts i := by
  induction fs generalizing t with
  | nil => rfl
  | cons f fs ih =>
      obtain ⟨hf, hfs⟩ := List.forall_mem_cons.mp h
      obtain ⟨b, -, hfill⟩ := fill_eq hf t
      have hrest := ih hfs (t.fill f.1 f.2) (by rw [hfill]; exact Nat.lt_succ_of_lt hi)
      rw [Sends.fill_all, List.foldl_cons]
      refine hrest.trans ?_
      rw [hfill]
      exact upd_other _ _ _ (Nat.ne_of_lt hi)

/-- Each buffer is filled by its own call, from what it held before. -/
theorem fill_all_pkt (h : ∀ f ∈ fs, Call.served f.1 f.2 = true) (t : Sends) {i : Nat}
    (hi : i < fs.length) :
    fs[i].2.build fs[i].1 (t.send_pkts (t.send_size + i)) =
      some (.OK, (t.fill_all fs).send_pkts (t.send_size + i)) := by
  induction fs generalizing t i with
  | nil => cases hi
  | cons f fs ih =>
      obtain ⟨hf, hfs⟩ := List.forall_mem_cons.mp h
      obtain ⟨b, hb, hfill⟩ := fill_eq hf t
      have hstep : t.fill_all (f :: fs) = (t.fill f.1 f.2).fill_all fs := rfl
      rw [hstep]
      cases i with
      | zero =>
          rw [fill_all_before hfs _ (by rw [hfill]; exact Nat.lt_succ_self _), hfill]
          refine hb.trans ?_
          show _ = some (Status.OK, upd t.send_pkts t.send_size b t.send_size)
          rw [upd_same]
      | succ i =>
          have hrest := ih hfs (t.fill f.1 f.2) (Nat.lt_of_succ_lt_succ hi)
          have hsize : (t.fill f.1 f.2).send_size + i = t.send_size + (i + 1) := by
            rw [hfill]
            dsimp only
            omega
          have hother : (t.fill f.1 f.2).send_pkts (t.send_size + (i + 1)) =
              t.send_pkts (t.send_size + (i + 1)) := by
            rw [hfill]
            exact upd_other _ _ _ (by omega)
          rw [hsize, hother] at hrest
          exact hrest

/-- The frame of a call, over what the buffer held before. -/
theorem Call.Overlay.frame {rc : RuleController} {c : Call} {X : Mem} {b f : Mbuf}
    (h : c.Overlay rc X) (hf : c.build rc b = some (.OK, f)) :
    f.frame = (b.data.copy X c.copied).bytes 0 c.sent := by
  obtain ⟨f', hf', hdata, hlen⟩ := h b
  cases hf.symm.trans hf'
  rw [Mbuf.frame, hdata, hlen]

/-- No byte of a frame that is not too long is left from before. -/
theorem frame_eq_of_not_overlong {rc : RuleController} {c : Call} {X : Mem} {b b' f f' : Mbuf}
    (h : c.Overlay rc X) (hc : c.overlong = false) (hf : c.build rc b = some (.OK, f))
    (hf' : c.build rc b' = some (.OK, f')) : f'.frame = f.frame := by
  have hle : c.sent ≤ c.copied := Nat.not_lt.mp (of_decide_eq_false hc)
  rw [h.frame hf, h.frame hf']
  refine List.map_congr_left fun i hi => ?_
  have hi := List.mem_range.mp hi
  rw [Mem.copy_front (by omega), Mem.copy_front (by omega)]

/-- The byte behind the copied ones is. -/
theorem overlong_residue {rc : RuleController} {c : Call} {X : Mem} {b b' f f' : Mbuf}
    (h : c.Overlay rc X) (hc : c.overlong = true) (hf : c.build rc b = some (.OK, f))
    (hf' : c.build rc b' = some (.OK, f')) (he : f'.frame = f.frame) :
    b'.data c.copied = b.data c.copied := by
  have hlt : c.copied < c.sent := of_decide_eq_true hc
  rw [h.frame hf, h.frame hf'] at he
  have hbyte := congrArg (fun l => l[c.copied]?) he
  simp only [Mem.bytes, List.getElem?_map, List.getElem?_range hlt, Option.map_some, Nat.zero_add,
    Option.some.injEq] at hbyte
  rwa [Mem.copy_behind (Nat.le_refl _), Mem.copy_behind (Nat.le_refl _)] at hbyte

variable {tx_burst : Nat → Nat} {r r' : Burst} {pool pool' : Nat → Mbuf}

/-- What a burst without a failing packet hands over. -/
theorem frames_handed (hf : fails ls s = false) (hse : serve_each ls s = some (s', fs))
    (hr : Burst.process_pkts (some pool) tx_burst ls s = some r) :
    r.frames = (List.range (fs.length % 2 ^ 16)).map (fun i => (r.sends.send_pkts i).frame) ∧
      ∀ i (hi : i < fs.length), fs[i].2.build fs[i].1 (pool i) = some (.OK, r.sends.send_pkts i) := by
  obtain ⟨hfs, -, hr'⟩ := process_pkts_serves pool tx_burst hf hse
  cases hr.symm.trans hr'
  constructor
  · have hsize : (Sends.fill_all ⟨pool, 0, []⟩ fs).send_size = fs.length :=
      (fill_all_size hfs _).trans (Nat.zero_add _)
    unfold Burst.frames
    simp only [Burst.transmit, hsize]
  · intro i hi
    have hpkt := fill_all_pkt hfs ⟨pool, 0, []⟩ hi
    simp only [Nat.zero_add] at hpkt
    exact hpkt

/-- Buffers that differ from `pool` in every byte. -/
def other_pool (pool : Nat → Mbuf) : Nat → Mbuf := fun i =>
  { pool i with data := fun j => (pool i).data j + 1 }

theorem other_pool_ne (pool : Nat → Mbuf) (i j : Nat) :
    (other_pool pool i).data j ≠ (pool i).data j := by
  show (pool i).data j + 1 ≠ (pool i).data j
  generalize (pool i).data j = b
  revert b
  decide

/-- **Transmitted bytes come from the packets.**  For every burst of frames of at least 60 bytes and
every content of the tables: if the burst fails or no packet of it is `overlong` in the state it
meets, the same frames are transmitted whatever the send buffers held before; and for a burst that
one `rte_eth_tx_burst` can take, only then. -/
theorem frames_from_packets_iff (hls : ∀ l ∈ ls, 60 ≤ l.pkt.data_len.toNat) (hs : Long s)
    (hr : Burst.process_pkts (some pool) tx_burst ls s = some r) :
    (fails ls s = true ∨ overlongs ls s = false →
      ∀ pool', ∃ r', Burst.process_pkts (some pool') tx_burst ls s = some r' ∧
        r'.frames = r.frames) ∧
    (ls.length < 2 ^ 15 →
      (∀ pool', ∃ r', Burst.process_pkts (some pool') tx_burst ls s = some r' ∧
        r'.frames = r.frames) →
      fails ls s = true ∨ overlongs ls s = false) := by
  cases hf : fails ls s with
  | true =>
      refine ⟨fun _ pool' => ?_, fun _ _ => .inl rfl⟩
      obtain ⟨r₁, hr₁, -, hhanded, -⟩ := process_pkts_fails pool tx_burst hf
      cases hr.symm.trans hr₁
      obtain ⟨r₂, hr₂, -, hhanded', -⟩ := process_pkts_fails pool' tx_burst hf
      exact ⟨r₂, hr₂, by rw [Burst.frames, Burst.frames, hhanded, hhanded']; rfl⟩
  | false =>
      obtain ⟨s', fs, hse⟩ := serve_each_of_process_pkts pool tx_burst hf hr
      obtain ⟨hfs, hlen, -⟩ := process_pkts_serves pool tx_burst hf hse
      obtain ⟨hcopied, hany⟩ := serve_each_overlong hls hs hf hse
      obtain ⟨hframes, hbuilt⟩ := frames_handed hf hse hr
      have overlay (i : Nat) (hi : i < fs.length) : ∃ X, fs[i].2.Overlay fs[i].1 X :=
        build_overlay (hfs _ (List.getElem_mem hi)) (hcopied _ (List.getElem_mem hi))
      constructor
      · rintro (hcon | hover) pool'
        · cases hcon
        · obtain ⟨-, -, hr'⟩ := process_pkts_serves pool' tx_burst hf hse
          obtain ⟨hframes', hbuilt'⟩ := frames_handed hf hse hr'
          refine ⟨_, hr', ?_⟩
          rw [hframes, hframes']
          refine List.map_congr_left fun i hi => ?_
          have hi : i < fs.length := (List.mem_range.mp hi).trans_le (Nat.mod_le _ _)
          obtain ⟨X, hX⟩ := overlay i hi
          have hc : fs[i].2.overlong = false := by
            rw [hover, List.any_eq_false] at hany
            exact Bool.eq_false_iff.mpr (hany _ (List.getElem_mem hi))
          exact frame_eq_of_not_overlong hX hc (hbuilt i hi) (hbuilt' i hi)
      · intro hn hsame
        by_contra hcon
        have hover : overlongs ls s = true := by simpa using hcon
        rw [hover, List.any_eq_true] at hany
        obtain ⟨f, hmem, hc⟩ := hany
        obtain ⟨i, hi, rfl⟩ := List.getElem_of_mem hmem
        -- buffers with another byte behind the copied ones
        obtain ⟨r', hr', he⟩ := hsame (other_pool pool)
        obtain ⟨hframes', hbuilt'⟩ := frames_handed hf hse hr'
        obtain ⟨X, hX⟩ := overlay i hi
        have hall : fs.length % 2 ^ 16 = fs.length := Nat.mod_eq_of_lt (by omega)
        rw [hframes, hframes', hall] at he
        have hframe := List.map_inj_left.mp he i (List.mem_range.mpr hi)
        exact other_pool_ne pool i _ (overlong_residue hX hc (hbuilt i hi) (hbuilt' i hi) hframe)

end burst

/-! ### A reset that claims four bytes too many -/

/-- A step on a frame of at least 60 bytes, executable. -/
def handleLong (s : Shared) (l : Recv) : Option Shared :=
  if 60 ≤ l.pkt.data_len.toNat then handle s l else none

theorem handleLong_step {s s' : Shared} {l : Recv} (h : handleLong s l = some s') :
    60 ≤ l.pkt.data_len.toNat ∧ ∃ cs, FrontStep s l s' cs := by
  unfold handleLong at h
  split at h
  next hl => exact ⟨hl, handle_step h⟩
  · cases h

/-- A request and the SYN-ACK of its backend, padded to 60 bytes. -/
def sampleConnect : List Recv :=
  [sampleRecv (sampleRequest 0x61) 0,
    sampleRecv (.ofBytes (headers (0x0A000101, 8081) (0xC0A80002, 40000) 70000 1000
      (TCP_SYN_FLAG ||| TCP_ACK_FLAG) 40 ++ List.replicate 6 0)) 1]

/-- A reset of 60 bytes whose IP header claims 64 with the Ethernet header. -/
def sampleShortRst : Recv :=
  sampleRecv (.ofBytes (headers (0xC0A80002, 40000) (0x0A000001, 80) 1000 5000 TCP_RST_FLAG 50 ++
    List.replicate 6 0)) 1

theorem frames_from_packets_iff_sample :
    ∃ r, Burst.process_pkts (some samplePool) id [sampleRecv (sampleRequest 0x61) 0] sampleStart =
        some r ∧
      ∀ pool', ∃ r', Burst.process_pkts (some pool') id [sampleRecv (sampleRequest 0x61) 0]
        sampleStart = some r' ∧ r'.frames = r.frames := by
  have hsome : (Burst.process_pkts (some samplePool) id [sampleRecv (sampleRequest 0x61) 0]
      sampleStart).isSome = true := by decide +kernel
  obtain ⟨r, h⟩ := Option.isSome_iff_exists.mp hsome
  have hlong : ∀ l ∈ [sampleRecv (sampleRequest 0x61) 0], 60 ≤ l.pkt.data_len.toNat := by decide +kernel
  refine ⟨r, h, (frames_from_packets_iff hlong (Records.initial sampleStart_initial) h).1 (.inr ?_)⟩
  decide +kernel

/-- The last four bytes of the frame that carries the reset to the backend are those of the packet
sent from this buffer before. -/
theorem frames_not_from_packets :
    ∃ s r r', Steps (fun s l s' => 60 ≤ l.pkt.data_len.toNat ∧ ∃ cs, FrontStep s l s' cs) sampleStart
        sampleConnect s ∧
      60 ≤ sampleShortRst.pkt.data_len.toNat ∧ isTcp sampleShortRst.pkt.data ∧
      Burst.process_pkts (some samplePool) id [sampleShortRst] s = some r ∧
      Burst.process_pkts (some fun _ => .ofBytes (List.replicate 64 0xff)) id [sampleShortRst] s =
        some r' ∧
      r.frames.map (·.drop 60) = [[0, 0, 0, 0]] ∧
      r'.frames.map (·.drop 60) = [[0xff, 0xff, 0xff, 0xff]] ∧ r'.frames ≠ r.frames := by
  have hr : (sampleConnect.foldlM handleLong sampleStart).map (fun s =>
      (Burst.process_pkts (some samplePool) id [sampleShortRst] s).map fun r =>
        r.frames.map (·.drop 60)) = some (some [[0, 0, 0, 0]]) := by decide +kernel
  have hr' : (sampleConnect.foldlM handleLong sampleStart).map (fun s =>
      (Burst.process_pkts (some fun _ => .ofBytes (List.replicate 64 0xff)) id [sampleShortRst] s).map
        fun r => r.frames.map (·.drop 60)) = some (some [[0xff, 0xff, 0xff, 0xff]]) := by
    decide +kernel
  obtain ⟨s, hs, hr⟩ := Option.map_eq_some_iff.mp hr
  rw [hs, Option.map_some] at hr'
  obtain ⟨r, hr, he⟩ := Option.map_eq_some_iff.mp hr
  obtain ⟨r', hr', he'⟩ := Option.map_eq_some_iff.mp (Option.some.inj hr')
  refine ⟨s, r, r', .of_foldlM (fun _ _ _ => handleLong_step) hs, by decide +kernel, by decide +kernel,
    hr, hr', he, he', fun heq => ?_⟩
  rw [heq, he] at he'
  revert he'
  decide

end Miresga.Frontend
