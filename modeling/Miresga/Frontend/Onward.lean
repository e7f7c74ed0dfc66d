import Miresga.Frontend.Addressing
import Miresga.Frontend.Isolation

/-!
# Frontend — where the frames go

The front-end stands behind the switch, and what it builds goes through the switch again.  So no frame
may look like one that is for a front-end: one that goes to the virtual server or comes from a backend
(`Onward`).

* `sent_to`, `sent_out`, `reply_rst_back`, `send_rst_to`: what the builders make of the addresses of
  their packet;
* `from_client_onward`, `to_client_onward`: what a connection answers to a packet;
* `onward_run`: with the segments of clients and backends (`Spoken`), and servers that cannot be taken
  for the virtual one (`Apart`), every frame of a run is onward.  `send_rst_pkt` stores the server as
  the host holds it, so `Apart` is asked for in both byte orders.

What carries the run is that a connection waits with a packet that came from no backend
(`Conn.Asks`).
-/

namespace Miresga.Frontend

/-! ### Servers and clients -/

/-- The servers, as the segments name them: the virtual one, and the others. -/
structure Servers where
  virtual : Client
  backends : Set Client
  apart : virtual ∉ backends

namespace Servers

/-- Neither a backend nor the virtual server. -/
def clients (S : Servers) : Set Client := {c | c ∉ S.backends ∧ c ≠ S.virtual}

/-- A segment comes from a client to the virtual server, or from a backend to a client; and what a
backend sends is no request. -/
def Spoken (S : Servers) (l : Input) : Prop :=
  isTcp l.2.data →
    (srcClient l.2.data ∈ S.clients ∧ dstClient l.2.data = S.virtual) ∨
    (srcClient l.2.data ∈ S.backends ∧ dstClient l.2.data ∈ S.clients ∧
      (payload_flag l.2.data = true → rule l.1 l.2 = none))

/-- A segment that is for no front-end: it does not come from a backend or go to the virtual server. -/
structure Onward (S : Servers) (m : Mem) : Prop where
  isTcp : isTcp m
  src : srcClient m ∉ S.backends
  dst : dstClient m ≠ S.virtual

/-- The tables name the virtual server, and no backend is it, in either byte order. -/
structure Apart (S : Servers) (rc : RuleController) : Prop where
  virtual : (⟨htonl rc.get_virtual_server_info.ip, htons rc.get_virtual_server_info.port⟩ : Client) =
    S.virtual
  network : ∀ d server, rc.lookup_backend_server_info d = some server →
    (⟨htonl server.ip, htons server.port⟩ : Client) ≠ S.virtual
  host : ∀ d server, rc.lookup_backend_server_info d = some server →
    (⟨server.ip, server.port⟩ : Client) ≠ S.virtual

end Servers

/-! ### The addresses of a frame -/

section frames

variable {rc : RuleController} {d : Byte} {r b f : Mbuf} {server : ServerInfo} {m m' : Mem} {n : Nat}

/-- The source of a frame is where its address and its port are. -/
theorem srcClient_congr (hip : ∀ i, 26 ≤ i → i < 30 → m i = m' i)
    (hport : ∀ i, 34 ≤ i → i < 36 → m i = m' i) : srcClient m = srcClient m' := by
  rw [srcClient, src_addr, src_port, Mem.ld32_congr hip, Mem.ld16_congr hport]
  rfl

theorem dstClient_congr (hip : ∀ i, 30 ≤ i → i < 34 → m i = m' i)
    (hport : ∀ i, 36 ≤ i → i < 38 → m i = m' i) : dstClient m = dstClient m' := by
  rw [dstClient, dst_addr, dst_port, Mem.ld32_congr hip, Mem.ld16_congr hport]
  rfl

/-- The type and the protocol are all that `isTcp` reads. -/
theorem isTcp_congr (htype : ∀ i, 12 ≤ i → i < 14 → m i = m' i) (hproto : m 23 = m' 23) :
    isTcp m ↔ isTcp m' := by
  have ht : ether_type m = ether_type m' := Mem.ld16_congr htype
  rw [isTcp, ht, next_proto_id, hproto, isTcp, next_proto_id]

/-- What is sent to a server comes from where the packet came from. -/
theorem sent_to (h : SentTo server m n f) (hn : 42 ≤ n) : srcClient f.data = srcClient m ∧
    dstClient f.data = ⟨htonl server.ip, htons server.port⟩ ∧ (isTcp f.data ↔ isTcp m) := by
  have hrest : ∀ i, 12 ≤ i → i < 24 ∨ 26 ≤ i → i < 30 ∨ 34 ≤ i → i < 36 → f.data i = m i :=
    fun i _ _ _ _ => h.rest i (by omega) (by unfold LinkByte; omega) (by omega) (by omega)
  refine ⟨srcClient_congr (fun i _ _ => ?_) fun i _ _ => ?_, ?_, isTcp_congr (fun i _ _ => ?_) ?_⟩
  · exact hrest i (by omega) (by omega) (by omega) (by omega)
  · exact hrest i (by omega) (by omega) (by omega) (by omega)
  · rw [dstClient, h.dst_addr, h.dst_port]
  · exact hrest i (by omega) (by omega) (by omega) (by omega)
  · exact hrest 23 (by omega) (by omega) (by omega) (by omega)

/-- What is sent out goes where the packet was going. -/
theorem sent_out (h : SentOut server m n f) (hn : 42 ≤ n) :
    srcClient f.data = ⟨htonl server.ip, htons server.port⟩ ∧
    dstClient f.data = dstClient m ∧ (isTcp f.data ↔ isTcp m) := by
  have hrest : ∀ i, 12 ≤ i → i < 24 ∨ 30 ≤ i → i < 34 ∨ 36 ≤ i → i < 38 → f.data i = m i :=
    fun i _ _ _ _ => h.rest i (by omega) (by unfold LinkByte; omega) (by omega) (by omega)
  refine ⟨?_, dstClient_congr (fun i _ _ => ?_) fun i _ _ => ?_, isTcp_congr (fun i _ _ => ?_) ?_⟩
  · rw [srcClient, h.src_addr, h.src_port]
  · exact hrest i (by omega) (by omega) (by omega) (by omega)
  · exact hrest i (by omega) (by omega) (by omega) (by omega)
  · exact hrest i (by omega) (by omega) (by omega) (by omega)
  · exact hrest 23 (by omega) (by omega) (by omega) (by omega)

/-- A byte of a copy. -/
theorem copy_inside {i : Nat} (h : i < n) : m.copy m' n i = m' i := by
  rw [Mem.copy_apply, if_pos h]

/-- The RST that answers a packet goes back the way it came. -/
theorem reply_rst_back (h : reply_rst_pkt r b = some (.OK, f)) :
    srcClient f.data = dstClient r.data ∧ dstClient f.data = srcClient r.data ∧
      (isTcp f.data ↔ isTcp r.data) := by
  have hl : local_mac.length = 6 := rfl
  cases h
  refine and_assoc.mp ⟨?_, ?_⟩
  · -- the addresses and the ports change places
    simp (disch := first | omega | (simp only [Mem.length_bytes]; omega)) only [srcClient, dstClient,
      src_addr, src_port, dst_addr, dst_port, Mem.ld32_st8_ne, Mem.ld32_st16_ne, Mem.ld32_st32_ne,
      Mem.ld32_st32, Mem.ld32_write_ne, Mem.ld32_copy, Mem.ld16_st8_ne, Mem.ld16_st16_ne,
      Mem.ld16_st32_ne, Mem.ld16_st16, Mem.ld16_write_ne, Mem.ld16_copy]
    exact ⟨trivial, trivial⟩
  · rw [isTcp, isTcp]
    simp (disch := first | omega | (simp only [Mem.length_bytes]; omega)) only [ether_type,
      next_proto_id, Mem.st8_outside, Mem.st16_outside, Mem.st32_outside, Mem.write_outside,
      copy_inside, Mem.ld16_st8_ne, Mem.ld16_st16_ne, Mem.ld16_st32_ne, Mem.ld16_write_ne,
      Mem.ld16_copy]

/-- The RST to a server comes from the client, and names the server as the host holds it. -/
theorem send_rst_to (h : send_rst_pkt rc d r b = some (.OK, f)) :
    ∃ server, rc.lookup_backend_server_info d = some server ∧
      srcClient f.data = srcClient r.data ∧ dstClient f.data = ⟨server.ip, server.port⟩ ∧
      (isTcp f.data ↔ isTcp r.data) := by
  cases hs : rc.lookup_backend_server_info d with
  | none =>
      rw [send_rst_pkt, hs] at h
      cases h
  | some server =>
      obtain ⟨f', hf, hopened, hip, hport⟩ := send_rst_opened (b := b) (r := r) hs
      obtain rfl : f = f' := by
        rw [hf] at h
        cases h
        rfl
      refine ⟨server, rfl, ?_, ?_, ?_⟩
      · rw [srcClient, hopened.client_ip, hopened.client_port, srcClient]
      · rw [dstClient, hip, hport]
      · have hm := server.mac.length_toList
        have hl : local_mac.length = 6 := rfl
        rw [send_rst_pkt, hs] at h
        cases h
        rw [isTcp, isTcp]
        simp (disch := omega) only [ether_type, next_proto_id, Mem.st8_outside, Mem.st16_outside,
          Mem.st32_outside, Mem.write_outside, copy_inside, Mem.ld16_st8_ne, Mem.ld16_st16_ne,
          Mem.ld16_st32_ne, Mem.ld16_write_ne, Mem.ld16_copy]

theorem with_rst_addresses (p : Mbuf) : srcClient (with_rst p).data = srcClient p.data ∧
    dstClient (with_rst p).data = dstClient p.data ∧
    (isTcp (with_rst p).data ↔ isTcp p.data) := by
  have hrest : ∀ i, i < 47 → (with_rst p).data i = p.data i := fun i hi =>
    Mem.st8_outside _ (.inl hi)
  exact ⟨srcClient_congr (fun i _ _ => hrest i (by omega)) fun i _ _ => hrest i (by omega),
    dstClient_congr (fun i _ _ => hrest i (by omega)) fun i _ _ => hrest i (by omega),
    isTcp_congr (fun i _ _ => hrest i (by omega)) (hrest 23 (by omega))⟩

end frames

/-! ### What each builder is called with -/

open Servers

section calls

variable {S : Servers} {rc : RuleController} {c : Call} {p : Mbuf} {d : Byte}

/-- Whatever the send buffer held, the frame is onward. -/
def Call.Onward (S : Servers) (rc : RuleController) (c : Call) : Prop :=
  ∀ b f, c.build rc b = some (.OK, f) → S.Onward f.data

/-- A packet of a client that can be sent to a server. -/
structure FromClient (S : Servers) (m : Mem) (n : Nat) : Prop where
  isTcp : isTcp m
  src : srcClient m ∉ S.backends
  long : 42 ≤ n

theorem FromClient.forward_inbound (h : FromClient S p.data p.data_len.toNat) (hrc : S.Apart rc) :
    (Call.forward_inbound_pkt d p).Onward S rc := by
  intro b f hf
  obtain ⟨server, hs, hsent⟩ := forward_inbound_sentTo hf
  obtain ⟨hsrc, hdst, htcp⟩ := sent_to hsent h.long
  exact ⟨htcp.mpr h.isTcp, by rw [hsrc]; exact h.src, by rw [hdst]; exact hrc.network d server hs⟩

theorem FromClient.send_cached {m : Mem} {n : Nat} (h : FromClient S m n) (hrc : S.Apart rc) :
    (Call.send_cached_pkt d m n).Onward S rc := by
  intro b f hf
  obtain ⟨server, hs, hsent⟩ := send_cached_sentTo hf
  obtain ⟨hsrc, hdst, htcp⟩ := sent_to hsent h.long
  exact ⟨htcp.mpr h.isTcp, by rw [hsrc]; exact h.src, by rw [hdst]; exact hrc.network d server hs⟩

theorem FromClient.send_syn {n : Nat} (h : FromClient S p.data n) (hrc : S.Apart rc) :
    (Call.send_syn_pkt d p).Onward S rc := by
  intro b f hf
  obtain ⟨server, hs, hsyn⟩ := send_syn_synOf hf
  refine ⟨hsyn.isTcp.mpr h.isTcp, ?_, ?_⟩
  · rw [srcClient, hsyn.src_addr, hsyn.src_port]
    exact h.src
  · rw [dstClient, hsyn.dst_addr, hsyn.dst_port]
    exact hrc.network d server hs

theorem FromClient.send_rst {n : Nat} (h : FromClient S p.data n) (hrc : S.Apart rc) :
    (Call.send_rst_pkt d p).Onward S rc := by
  intro b f hf
  obtain ⟨server, hs, hsrc, hdst, htcp⟩ := send_rst_to hf
  exact ⟨htcp.mpr h.isTcp, by rw [hsrc]; exact h.src, by rw [hdst]; exact hrc.host d server hs⟩

/-- An answer is onward if the packet came from another server than the virtual one, and did not go
to a backend. -/
theorem reply_rst_onward (ht : isTcp p.data) (hs : srcClient p.data ≠ S.virtual)
    (hd : dstClient p.data ∉ S.backends) : (Call.reply_rst_pkt p).Onward S rc := by
  intro b f hf
  obtain ⟨hsrc, hdst, htcp⟩ := reply_rst_back hf
  exact ⟨htcp.mpr ht, by rw [hsrc]; exact hd, by rw [hdst]; exact hs⟩

/-- What goes out comes from the virtual server. -/
theorem forward_outbound_onward (ht : isTcp p.data) (hd : dstClient p.data ≠ S.virtual)
    (hn : 42 ≤ p.data_len.toNat) (hrc : S.Apart rc) :
    (Call.forward_outbound_pkt p).Onward S rc := by
  intro b f hf
  obtain ⟨hsrc, hdst, htcp⟩ := sent_out (forward_outbound_sentOut hf) hn
  refine ⟨htcp.mpr ht, ?_, by rw [hdst]; exact hd⟩
  rw [hsrc, hrc.virtual]
  exact S.apart

end calls

/-! ### Reactions -/

section reactions

variable {S : Servers} {rc : RuleController} {c : Client} {p : Mbuf} {q : Conn} {r r' : Reaction}
  {data : MyData} {b : Bool}

/-- A waiting connection keeps a packet of its client. -/
def Conn.Asks (S : Servers) : Conn → Prop
  | .waiting _ request => FromClient S (image request) request.length
  | _ => True

/-- The frames are onward, and so will be the request that waits. -/
structure Reaction.Onward (S : Servers) (rc : RuleController) (r : Reaction) : Prop where
  calls : ∀ c ∈ r.calls, c.Onward S rc
  conn : r.conn.Asks S

theorem Reaction.onward_ignore (h : q.Asks S) : (Reaction.ignore q).Onward S rc :=
  ⟨fun _ h => absurd h List.not_mem_nil, h⟩

/-- The packet as it is stored. -/
theorem FromClient.stored (h : FromClient S p.data p.data_len.toNat) :
    FromClient S (image p.frame) p.frame.length := by
  have himage : ∀ i, i < 42 → image p.frame i = p.data i := fun i hi =>
    image_bytes p.data (Nat.lt_of_lt_of_le hi h.long)
  refine ⟨(isTcp_congr (fun i _ _ => himage i (by omega)) (himage 23 (by omega))).mpr h.isTcp, ?_, ?_⟩
  · rw [srcClient_congr (fun i _ _ => himage i (by omega)) fun i _ _ => himage i (by omega)]
    exact h.src
  · rw [Mbuf.frame, Mem.length_bytes]
    exact h.long

theorem FromClient.with_rst (h : FromClient S p.data p.data_len.toNat) :
    FromClient S (with_rst p).data (with_rst p).data_len.toNat := by
  obtain ⟨hsrc, -, htcp⟩ := with_rst_addresses p
  exact ⟨htcp.mpr h.isTcp, by rw [hsrc]; exact h.src, h.long⟩

theorem request_onward (h : FromClient S p.data p.data_len.toNat) (hrc : S.Apart rc) :
    (Conn.request rc c p data b).Onward S rc := by
  unfold Conn.request
  cases rule rc p with
  | none => exact Reaction.onward_ignore trivial
  | some new_data =>
      dsimp only
      split_ifs
      · refine ⟨?_, h.stored⟩
        rw [List.forall_mem_cons, List.forall_mem_singleton]
        exact ⟨h.send_rst hrc, h.send_syn hrc⟩
      · exact ⟨List.forall_mem_singleton.mpr (h.forward_inbound hrc), trivial⟩
      · exact ⟨List.forall_mem_singleton.mpr (h.forward_inbound hrc), trivial⟩
      · exact ⟨List.forall_mem_singleton.mpr (h.forward_inbound hrc), trivial⟩

/-- **A packet of a client** to the virtual server. -/
theorem from_client_onward (h : FromClient S p.data p.data_len.toNat)
    (hs : srcClient p.data ≠ S.virtual) (hd : dstClient p.data = S.virtual) (hrc : S.Apart rc)
    (hq : q.Asks S) : (q.from_client rc c p).Onward S rc := by
  have hreply : (Call.reply_rst_pkt p).Onward S rc :=
    reply_rst_onward h.isTcp hs (by rw [hd]; exact S.apart)
  unfold Conn.from_client
  cases q with
  | closed =>
      dsimp only
      split_ifs
      · exact Reaction.onward_ignore trivial
      · cases rule rc p with
        | none => exact Reaction.onward_ignore trivial
        | some data => exact ⟨List.forall_mem_singleton.mpr (h.send_syn hrc), h.stored⟩
  | waiting data request =>
      dsimp only
      split_ifs
      · exact ⟨List.forall_mem_singleton.mpr hreply, hq⟩
      · exact ⟨List.forall_mem_singleton.mpr (h.send_syn hrc), hq⟩
      · exact Reaction.onward_ignore hq
  | established data b =>
      dsimp only
      split_ifs
      · exact ⟨List.forall_mem_singleton.mpr (h.forward_inbound hrc), trivial⟩
      · refine ⟨?_, trivial⟩
        rw [List.forall_mem_cons, List.forall_mem_singleton]
        exact ⟨hreply, h.with_rst.forward_inbound hrc⟩
      · exact request_onward h hrc
      · exact ⟨List.forall_mem_singleton.mpr (h.forward_inbound hrc), trivial⟩

/-- **A packet of a backend** to a client: what waits is sent on, what comes goes out. -/
theorem to_client_onward (ht : isTcp p.data) (hn : 42 ≤ p.data_len.toNat)
    (hs : srcClient p.data ∈ S.backends) (hd : dstClient p.data ∈ S.clients) (hrc : S.Apart rc)
    (hq : q.Asks S) : (q.to_client c p).Onward S rc := by
  have hreply : (Call.reply_rst_pkt p).Onward S rc :=
    reply_rst_onward ht (fun e => S.apart (e ▸ hs)) hd.1
  have hout : (Call.forward_outbound_pkt p).Onward S rc := forward_outbound_onward ht hd.2 hn hrc
  have hrst : (Call.forward_outbound_pkt (with_rst p)).Onward S rc := by
    obtain ⟨-, hdst, htcp⟩ := with_rst_addresses p
    exact forward_outbound_onward (htcp.mpr ht) (by rw [hdst]; exact hd.2) hn hrc
  unfold Conn.to_client
  cases q with
  | closed => exact Reaction.onward_ignore trivial
  | waiting data request =>
      dsimp only
      split_ifs
      · exact Reaction.onward_ignore hq
      · exact ⟨List.forall_mem_singleton.mpr (FromClient.send_cached hq hrc), trivial⟩
      · exact ⟨List.forall_mem_singleton.mpr (FromClient.send_cached hq hrc), trivial⟩
  | established data b =>
      dsimp only
      split_ifs
      · exact ⟨List.forall_mem_singleton.mpr hout, trivial⟩
      · refine ⟨?_, trivial⟩
        rw [List.forall_mem_cons, List.forall_mem_singleton]
        exact ⟨hreply, hrst⟩
      · exact ⟨List.forall_mem_singleton.mpr hout, trivial⟩

theorem Reaction.Onward.commit (h : r.Onward S rc) (hq : q.Asks S) (hr : r.commit rc q = some r') :
    r'.Onward S rc := by
  unfold Reaction.commit at hr
  split at hr
  · cases hr
    exact h
  · split_ifs at hr
    cases hr
    exact ⟨fun c hc => h.calls c ((List.takeWhile_prefix _).subset hc), hq⟩

end reactions

/-! ### Runs -/

section runs

variable {S : Servers} {s₀ s : Shared} {tr : List Handled}

/-- What the servers are asked of a packet and its tables. -/
structure Servers.Well (S : Servers) (l : Input) : Prop where
  spoken : S.Spoken l
  apart : S.Apart l.1
  sequenced : l.2.Sequenced

theorem Servers.Spoken.disciplined {l : Input} (h : S.Spoken l) : Disciplined S.clients l :=
  fun ht => (h ht).imp (fun ⟨hs, hd⟩ => ⟨hs, fun hc => hc.2 hd⟩)
    fun ⟨hs, hd, hr⟩ => ⟨fun hc => hc.1 hs, hd, hr⟩

/-- A step of a client's machine. -/
theorem handle_onward [DecidablePred (· ∈ S.clients)] {c : Client} {l : Input} {q q' : Conn}
    {o : List Call × List Enq} (hl : S.Well l) (hq : q.Asks S)
    (h : Conn.handle S.clients c l q = some (q', o)) :
    q'.Asks S ∧ ∀ x ∈ o.1, x.Onward S l.1 := by
  obtain ⟨r, hr, he⟩ := Option.map_eq_some_iff.mp h
  cases he
  suffices hall : r.Onward S l.1 from ⟨hall.conn, hall.calls⟩
  refine Reaction.Onward.commit ?_ hq hr
  by_cases ht : isTcp l.2.data
  · rw [if_neg (not_not.mpr ht)]
    rcases hl.spoken ht with ⟨hs, hd⟩ | ⟨hs, hd, -⟩
    · rw [if_pos hs]
      exact from_client_onward ⟨ht, hs.1, hl.sequenced⟩ hs.2 hd hl.apart hq
    · rw [if_neg fun hc => hc.1 hs]
      exact to_client_onward ht hl.sequenced hs hd hl.apart hq
  · rw [if_pos ht]
    exact Reaction.onward_ignore hq

theorem handled_sequenced (hr : Steps HandleStep s₀ tr s) : ∀ x ∈ tr, x.recv.pkt.Sequenced := by
  induction hr with
  | refl => exact fun x hx => absurd hx List.not_mem_nil
  | more _ hx ih =>
      exact List.forall_mem_append.mpr ⟨ih, List.forall_mem_singleton.mpr hx.2.1⟩

/-- **Every frame of a run is onward.** -/
theorem onward_run (h₀ : Initial s₀) (hr : Steps HandleStep s₀ tr s)
    (hl : ∀ x ∈ tr, S.Spoken x.input ∧ S.Apart x.recv.rc) :
    ∀ x ∈ tr, ∀ c ∈ x.calls, c.Onward S x.recv.rc := by
  classical
  have hwell : ∀ l ∈ tr.map Handled.input, S.Well l := by
    rw [List.forall_mem_map]
    exact fun x hx => ⟨(hl x hx).1, (hl x hx).2, handled_sequenced hr x hx⟩
  have hrun := (Kept.front_run h₀ hr).2
  rw [run_product fun l hm => (hwell l hm).spoken.disciplined] at hrun
  have hall := (Machine.run_inv (I := fun m => ∀ c, (m c).Asks S)
    (G := fun l o => ∀ c ∈ o.1, c.Onward S l.1) (fun l m m' o hm hl hs => ?_) hwell hrun
    fun _ => trivial).2
  · intro x hx c hc b f hf
    refine hall _ (List.mem_map_of_mem hx) c.cut (List.mem_map_of_mem hc) b f ?_
    exact (build_cut _ b c).trans hf
  · obtain ⟨q, hq, rfl⟩ := Product.step_eq_some.mp hs
    obtain ⟨hasks, honward⟩ := handle_onward hl (hm _) hq
    refine ⟨fun c => ?_, honward⟩
    by_cases hc : c = home S.clients l
    · rw [hc, upd_same]
      exact hasks
    · rw [upd_other _ _ _ hc]
      exact hm c

end runs

end Miresga.Frontend
