import Miresga.Lib.Store
import Miresga.System.Addresses
import Miresga.System.Bypass

/-!
# System — one configuration, two components

`main` fills the tables of the switch from its configuration files, entry by entry; any status but
success ends the program.  `init_controller` reads the same list of backends once more, into the
table that is sent to the front-ends.

The two loaders treat an odd list differently: the driver refuses an entry whose key is in the table
or whose fields are too wide (`Driver.Documented`), while the array keeps the low byte of an index,
and of two entries for one index the front-end ends up with the later.  But where `main` gets
through, no such entry is in the list, and the switch and the front-end know the same backends, with
the same address and port, unless the list was lost on the way (`configured_agrees_iff`).  With the
virtual address of the data plane, and rules for listed backends only, such an installation is fit
for offloading (`fits_iff`).
-/

namespace Miresga.System

open Frontend Switch

/-! ### The driver -/

/-- A table of the switch, by key fields and data fields. -/
abbrev DriverTable := List (BitVec 64) → Option (List (BitVec 64))

/-- The widths of a table's key fields and data fields. -/
structure Widths where
  key : List Nat
  data : List Nat

/-- The values fit the fields. -/
def FitsIn (widths : List Nat) (values : List (BitVec 64)) : Prop :=
  List.Forall₂ (fun w v => v.toNat < 2 ^ w) widths values

/-- The driver: the fields are set and the entry is added.  `none` is any status but success. -/
structure Driver where
  entry_add : Widths → DriverTable → TableEntry → Option DriverTable

/-- What the driver documents: a value too wide for its field is refused, and so is a key that the
table has; an entry that is added is found. -/
structure Driver.Documented (A : Driver) : Prop where
  added : ∀ {w t e t'}, A.entry_add w t e = some t' →
    FitsIn w.key e.key ∧ FitsIn w.data e.data ∧ t e.key = none ∧ t' = upd t e.key (some e.data)

/-- The entries of one table, one after the other. -/
def Driver.install (A : Driver) (w : Widths) (entries : List TableEntry) : Option DriverTable :=
  entries.foldlM (A.entry_add w) fun _ => none

/-- A table that was installed has its entries, with distinct keys, and no others. -/
theorem Driver.Documented.installed {A : Driver} (hA : A.Documented) {w : Widths}
    {entries : List TableEntry} {t : DriverTable} (h : A.install w entries = some t) :
    (entries.map TableEntry.key).Nodup ∧ (∀ e ∈ entries, FitsIn w.key e.key ∧ FitsIn w.data e.data) ∧
      ∀ key data, t key = some data ↔ ⟨key, data⟩ ∈ entries := by
  obtain ⟨hnodup, -, hlook⟩ :=
    foldlM_added TableEntry.key TableEntry.data (fun _ _ _ h => (hA.added h).2.2) h
  refine ⟨hnodup, ?_, fun key data => ?_⟩
  · clear hnodup hlook
    unfold Driver.install at h
    generalize (fun _ => none : DriverTable) = t₀ at h
    induction entries generalizing t₀ with
    | nil => simp
    | cons e entries ih =>
        rw [List.foldlM_cons] at h
        obtain ⟨t₁, h₁, h⟩ := Option.bind_eq_some_iff.mp h
        rw [List.forall_mem_cons]
        exact ⟨⟨(hA.added h₁).1, (hA.added h₁).2.1⟩, ih t₁ h⟩
  · rw [hlook]
    constructor
    · rintro (h | ⟨e, he, rfl, rfl⟩)
      · cases h
      · exact he
    · exact fun h => .inr ⟨_, h, rfl, rfl⟩

/-! ### The other tables of the switch -/

/-- An entry of `arp_table.json`. -/
structure ArpItem where
  opcode : Int
  target_proto_addr : Int
  mac_prefix : Int
  mac_suffix : Int

/-- An entry of `lb_index.json`. -/
structure LbIndexItem where
  lb_index : Int
  mac_prefix : Int
  mac_suffix : Int
  egress_port : Int

structure ArpEntry where
  opcode : BitVec 16
  target_proto_addr : BitVec 32
  arp_mac : BitVec 64

structure LbIndexToEgressPortEntry where
  lb_index : BitVec 8
  dst_mac : BitVec 64
  dst_port : BitVec 16

/-- A MAC address from its two halves. -/
def mac_of (high low : Int) : BitVec 64 :=
  (BitVec.ofInt 64 (valueint high) <<< 24) + .ofInt 64 (valueint low)

def arp_entry (i : ArpItem) : ArpEntry where
  opcode := .ofInt 16 (valueint i.opcode)
  target_proto_addr := .ofInt 32 (valueint i.target_proto_addr)
  arp_mac := mac_of i.mac_prefix i.mac_suffix

def lb_index_to_egress_port_entry (i : LbIndexItem) : LbIndexToEgressPortEntry where
  lb_index := .ofInt 8 (valueint i.lb_index)
  dst_mac := mac_of i.mac_prefix i.mac_suffix
  dst_port := .ofInt 16 (valueint i.egress_port)

/-- The entries `add_arp_table_entry` adds. -/
def add_arp_table_entry (entries : List ArpEntry) : List TableEntry :=
  entries.map fun e => ⟨[e.opcode.setWidth 64, e.target_proto_addr.setWidth 64], [e.arp_mac]⟩

/-- The entries `add_lb_index_to_egress_port_table_entry` adds. -/
def add_lb_index_to_egress_port_table_entry (entries : List LbIndexToEgressPortEntry) :
    List TableEntry :=
  entries.map fun e =>
    ⟨[e.lb_index.setWidth 64], [INBOUND_SRC_MAC, e.dst_mac, e.dst_port.setWidth 64]⟩

/-! ### `main` -/

/-- The configuration files of the switch, and `dest_to_egress.json` as the look-up it gives. -/
structure SwitchConfig where
  arp_table : List ArpItem
  d_index : List DIndexItem
  lb_index : List LbIndexItem
  dest_to_egress_port_table : BitVec 32 → Option Switch.EgressPort
  invalid_key : BitVec 32

/-- The parameters of `set_egress_port`. -/
def egress_port_of : List (BitVec 64) → Option Switch.EgressPort
  | [src_mac, dst_mac, dst_port] =>
    some ⟨src_mac.setWidth 48, dst_mac.setWidth 48, dst_port.setWidth 9⟩
  | _ => none

/-- The parameters of `set_dst_ip_port`. -/
def ip_port_of : List (BitVec 64) → Option (BitVec 32 × BitVec 16)
  | [dst_ip, dst_port] => some (dst_ip.setWidth 32, dst_port.setWidth 16)
  | _ => none

/-- The parameter of `reply_arp`. -/
def arp_mac_of : List (BitVec 64) → Option (BitVec 48)
  | [arp_mac] => some (arp_mac.setWidth 48)
  | _ => none

/-- `main` up to `run_controller`: the tables are filled in this order, and nothing is offloaded
yet. -/
def main (A : Driver) (cfg : SwitchConfig) : Option Switch.Tables :=
  let loaded := load_switch_tables cfg.d_index
  (A.install ⟨[16, 32], [48]⟩ (add_arp_table_entry (cfg.arp_table.map arp_entry))).bind fun arp =>
  (A.install ⟨[32, 16], []⟩ loaded.dip_lookup_table).bind fun dip =>
  (A.install ⟨[8], [48, 48, 9]⟩ loaded.d_index_to_egress_port_table).bind fun d_egress =>
  (A.install ⟨[8], [32, 16]⟩ loaded.d_index_to_ip_port_table).bind fun d_ip_port =>
  (A.install ⟨[8], [48, 48, 9]⟩ (add_lb_index_to_egress_port_table_entry
    (cfg.lb_index.map lb_index_to_egress_port_entry))).map fun lb =>
  { arp_table := fun opcode addr =>
      (arp [opcode.setWidth 64, addr.setWidth 64]).bind arp_mac_of
    dip_lookup_table := fun ip port => (dip [ip.setWidth 64, port.setWidth 64]).isSome
    offload_connection_table := fun _ _ => none
    dest_to_egress_port_table := cfg.dest_to_egress_port_table
    d_index_to_egress_port_table := fun d => (d_egress [d.setWidth 64]).bind egress_port_of
    lb_index_to_egress_port_table := fun i => (lb [i.setWidth 64]).bind egress_port_of
    d_index_to_ip_port_table := fun d => (d_ip_port [d.setWidth 64]).bind ip_port_of
    invalid_key := cfg.invalid_key }

/-! ### The backends -/

/-- The tables of the switch have the backends of `server`, each under its `d_index` and no two with
one address and port, and the switch takes these for backends and no others. -/
structure Agrees (T : Switch.Tables) (server : Byte → Option ServerInfo) : Prop where
  address : ∀ d, T.d_index_to_ip_port_table d = (server d).map fun s => (s.ip, s.port)
  way : ∀ d, (T.d_index_to_egress_port_table d).isSome = (server d).isSome
  backend : ∀ ip port, T.dip_lookup_table ip port = true ↔
    ∃ d s, server d = some s ∧ s.ip = ip ∧ s.port = port
  apart : ∀ d d' s s', server d = some s → server d' = some s' → s.ip = s'.ip → s.port = s'.port →
    d = d'

/-- A table that was installed with one entry an item. -/
theorem Driver.Documented.installed_map {A : Driver} (hA : A.Documented) {w : Widths} {α : Type}
    {items : List α} {f : α → TableEntry} {t : DriverTable}
    (h : A.install w (items.map f) = some t) :
    (items.map fun i => (f i).key).Nodup ∧
      (∀ i ∈ items, FitsIn w.key (f i).key ∧ FitsIn w.data (f i).data) ∧
      ∀ key data, t key = some data ↔ ∃ i ∈ items, f i = ⟨key, data⟩ := by
  obtain ⟨hnodup, hfits, hlook⟩ := hA.installed h
  rw [List.map_map] at hnodup
  exact ⟨hnodup, fun i hi => hfits _ (List.mem_map_of_mem hi), fun key data => by
    rw [hlook, List.mem_map]⟩

/-- A field of the table API keeps a value. -/
theorem field_inj {n : Nat} (hn : n ≤ 64) {a b : BitVec n} (h : a.setWidth 64 = b.setWidth 64) :
    a = b := by
  have hback := congrArg (BitVec.setWidth n) h
  rwa [BitVec.setWidth_setWidth_of_le _ hn, BitVec.setWidth_setWidth_of_le _ hn, BitVec.setWidth_eq,
    BitVec.setWidth_eq] at hback

/-- A `d_index` that fits its field is the byte that the front-ends get. -/
theorem d_index_field {n : Int} (h : ((BitVec.ofInt 32 n).setWidth 64).toNat < 2 ^ 8) :
    (BitVec.ofInt 32 n).setWidth 64 = (BitVec.ofInt 8 n).setWidth 64 := by
  apply BitVec.eq_of_toNat_eq
  simp only [BitVec.toNat_setWidth, BitVec.toNat_ofInt] at h ⊢
  omega

section backends

variable {items : List DIndexItem} {S : Tables} {t : DriverTable} {f : DIndexItem → TableEntry}
  {d : Byte} {s : ServerInfo}

/-- What the front-ends are sent about `d`, if no two items have one index. -/
theorem server_eq_some_iff (hS : S.d_index_table = load_d_index_table items)
    (hnodup : (items.map fun i => (d_index_t i).d_index).Nodup) :
    S.server d = some s ↔ ∃ i ∈ items, d_index_t i = ⟨d, s⟩ := by
  have hnodup' : (S.d_index_table.map (·.d_index)).Nodup := by
    rwa [hS, load_d_index_table, List.map_map]
  rw [Tables.server, Option.map_eq_some_iff]
  constructor
  · rintro ⟨e, he, rfl⟩
    obtain ⟨hm, rfl⟩ := (find?_reverse_eq_some_iff hnodup').mp he
    rw [hS] at hm
    obtain ⟨i, hi, rfl⟩ := List.mem_map.mp hm
    exact ⟨i, hi, rfl⟩
  · rintro ⟨i, hi, he⟩
    refine ⟨⟨d, s⟩, (find?_reverse_eq_some_iff hnodup').mpr ⟨?_, rfl⟩, rfl⟩
    rw [hS, ← he]
    exact List.mem_map_of_mem hi

/-- A table with one entry for every `d_index` has an entry for the servers only. -/
theorem look_up_d_index (hS : S.d_index_table = load_d_index_table items)
    (hnodup : (items.map fun i => (d_index_t i).d_index).Nodup)
    (hkey : ∀ i ∈ items, (f i).key = [(d_index_t i).d_index.setWidth 64])
    (hlook : ∀ key data, t key = some data ↔ ∃ i ∈ items, f i = ⟨key, data⟩) (d : Byte) :
    (S.server d = none ∧ t [d.setWidth 64] = none) ∨
      ∃ i ∈ items, S.server d = some (d_index_t i).server_info ∧
        t [d.setWidth 64] = some (f i).data := by
  by_cases h : ∃ i ∈ items, (d_index_t i).d_index = d
  · obtain ⟨i, hi, rfl⟩ := h
    refine .inr ⟨i, hi, (server_eq_some_iff hS hnodup).mpr ⟨i, hi, rfl⟩, ?_⟩
    rw [hlook, ← hkey i hi]
    exact ⟨i, hi, rfl⟩
  · refine .inl ⟨Option.eq_none_iff_forall_ne_some.mpr fun s hs => h ?_,
      Option.eq_none_iff_forall_ne_some.mpr fun data hd => h ?_⟩
    · obtain ⟨i, hi, he⟩ := (server_eq_some_iff hS hnodup).mp hs
      exact ⟨i, hi, by rw [he]⟩
    · obtain ⟨i, hi, he⟩ := (hlook _ _).mp hd
      have hk := hkey i hi
      rw [he, List.cons.injEq] at hk
      exact ⟨i, hi, (field_inj (by decide) hk.1).symm⟩

end backends

section main

variable {A : Driver} {cfg : SwitchConfig} {T : Switch.Tables} {S : Tables}

/-- The entries of an item in the three tables. -/
def dip_of (i : DIndexItem) : TableEntry :=
  ⟨[(dip_lookup_entry i).src_ip.setWidth 64, (dip_lookup_entry i).src_port.setWidth 64], []⟩

def d_egress_of (i : DIndexItem) : TableEntry :=
  ⟨[(d_index_to_egress_port_entry i).d_index.setWidth 64],
    [INBOUND_SRC_MAC, (d_index_to_egress_port_entry i).dst_mac,
      (d_index_to_egress_port_entry i).dst_port.setWidth 64]⟩

def d_ip_port_of (i : DIndexItem) : TableEntry :=
  ⟨[(d_index_to_ip_port_entry i).d_index.setWidth 64],
    [(d_index_to_ip_port_entry i).dst_ip.setWidth 64,
      (d_index_to_ip_port_entry i).dst_port.setWidth 64]⟩

/-- The installed tables that the backends are looked up in. -/
structure Filled (A : Driver) (cfg : SwitchConfig) (T : Switch.Tables)
    (dip d_egress d_ip_port : DriverTable) : Prop where
  dips : A.install ⟨[32, 16], []⟩ (cfg.d_index.map dip_of) = some dip
  ways : A.install ⟨[8], [48, 48, 9]⟩ (cfg.d_index.map d_egress_of) = some d_egress
  addresses : A.install ⟨[8], [32, 16]⟩ (cfg.d_index.map d_ip_port_of) = some d_ip_port
  backend : ∀ ip port, T.dip_lookup_table ip port = (dip [ip.setWidth 64, port.setWidth 64]).isSome
  way : ∀ d, T.d_index_to_egress_port_table d = (d_egress [d.setWidth 64]).bind egress_port_of
  address : ∀ d, T.d_index_to_ip_port_table d = (d_ip_port [d.setWidth 64]).bind ip_port_of

theorem main_filled (h : main A cfg = some T) : ∃ dip d_egress d_ip_port,
    Filled A cfg T dip d_egress d_ip_port := by
  obtain ⟨arp, -, h⟩ := Option.bind_eq_some_iff.mp h
  obtain ⟨dip, hdip, h⟩ := Option.bind_eq_some_iff.mp h
  obtain ⟨d_egress, hegress, h⟩ := Option.bind_eq_some_iff.mp h
  obtain ⟨d_ip_port, hip_port, h⟩ := Option.bind_eq_some_iff.mp h
  obtain ⟨lb, -, rfl⟩ := Option.map_eq_some_iff.mp h
  refine ⟨dip, d_egress, d_ip_port, ?_, ?_, ?_, fun _ _ => rfl, fun _ => rfl, fun _ => rfl⟩
  · rw [← hdip, load_switch_tables, add_dip_lookup_table_entry, List.map_map]
    rfl
  · rw [← hegress, load_switch_tables, add_d_index_to_egress_port_table_entry, List.map_map]
    rfl
  · rw [← hip_port, load_switch_tables, add_d_index_to_ip_port_table_entry, List.map_map]
    rfl

/-- The parameters that the entry gives are what the front-ends are sent. -/
theorem ip_port_of_item (i : DIndexItem) : ip_port_of (d_ip_port_of i).data =
    some ((d_index_t i).server_info.ip, (d_index_t i).server_info.port) := by
  rw [d_ip_port_of, ip_port_of, BitVec.setWidth_setWidth_of_le _ (by decide),
    BitVec.setWidth_setWidth_of_le _ (by decide), BitVec.setWidth_eq, BitVec.setWidth_eq]
  rfl

/-- If `main` gets through, the tables of the switch agree with what the front-ends are sent: nothing
the driver takes is cut or overwritten there. -/
theorem agrees_of_main (hA : A.Documented) (h : main A cfg = some T)
    (hS : S.d_index_table = load_d_index_table cfg.d_index) : Agrees T S.server := by
  obtain ⟨dip, d_egress, d_ip_port, hfilled⟩ := main_filled h
  obtain ⟨hdips, -, hdip⟩ := hA.installed_map hfilled.dips
  obtain ⟨-, -, hegress⟩ := hA.installed_map hfilled.ways
  obtain ⟨hindexes, hfits, hip_port⟩ := hA.installed_map hfilled.addresses
  -- the driver has taken every `d_index`, so it is the byte that is sent
  have hbyte : ∀ i ∈ cfg.d_index, (d_ip_port_of i).key = [(d_index_t i).d_index.setWidth 64] :=
    fun i hi => congrArg (fun v => [v]) (d_index_field (List.forall₂_cons.mp (hfits i hi).1).1)
  have hnodup : (cfg.d_index.map fun i => (d_index_t i).d_index).Nodup := by
    rw [List.map_congr_left hbyte] at hindexes
    refine List.Nodup.of_map (fun d => [d.setWidth 64]) ?_
    rwa [List.map_map]
  refine ⟨fun d => ?_, fun d => ?_, fun ip port => ?_, fun d d' s s' hd hd' hip hport => ?_⟩
  · rw [hfilled.address]
    obtain ⟨hs, ht⟩ | ⟨i, -, hs, ht⟩ := look_up_d_index hS hnodup hbyte hip_port d
    · rw [hs, ht]
      rfl
    · rw [hs, ht, Option.bind_some, Option.map_some, ip_port_of_item]
  · rw [hfilled.way]
    have hkey : ∀ i ∈ cfg.d_index, (d_egress_of i).key = [(d_index_t i).d_index.setWidth 64] :=
      hbyte
    obtain ⟨hs, ht⟩ | ⟨i, -, hs, ht⟩ := look_up_d_index hS hnodup hkey hegress d
    · rw [hs, ht]
      rfl
    · rw [hs, ht]
      rfl
  · rw [hfilled.backend, Option.isSome_iff_exists]
    constructor
    · rintro ⟨data, hdata⟩
      obtain ⟨i, hi, he⟩ := (hdip _ _).mp hdata
      obtain ⟨hk, -⟩ := TableEntry.mk.inj he
      obtain ⟨hip, hk⟩ := List.cons.inj hk
      exact ⟨_, _, (server_eq_some_iff hS hnodup).mpr ⟨i, hi, rfl⟩, field_inj (by decide) hip,
        field_inj (by decide) (List.cons.inj hk).1⟩
    · rintro ⟨d, s, hs, rfl, rfl⟩
      obtain ⟨i, hi, he⟩ := (server_eq_some_iff hS hnodup).mp hs
      obtain ⟨rfl, rfl⟩ := DIndex.mk.inj he
      exact ⟨[], (hdip _ _).mpr ⟨i, hi, rfl⟩⟩
  · obtain ⟨i, hi, he⟩ := (server_eq_some_iff hS hnodup).mp hd
    obtain ⟨i', hi', he'⟩ := (server_eq_some_iff hS hnodup).mp hd'
    obtain ⟨rfl, rfl⟩ := DIndex.mk.inj he
    obtain ⟨rfl, rfl⟩ := DIndex.mk.inj he'
    -- the two have one key in the table of backends
    obtain rfl := List.inj_on_of_nodup_map hdips hi hi' (by
      refine congrArg₂ (fun a b => [a, b]) (congrArg (BitVec.setWidth 64) hip)
        (congrArg (BitVec.setWidth 64) hport))
    rfl

/-- A server is known exactly for the indexes of the list. -/
theorem server_ne_none_iff {items : List DIndexItem} (hS : S.d_index_table = load_d_index_table items)
    (d : Byte) : S.server d ≠ none ↔ ∃ i ∈ items, (d_index_t i).d_index = d := by
  rw [Tables.server, Ne, Option.map_eq_none_iff, List.find?_eq_none, hS, load_d_index_table]
  simp

/-- **One list, two loaders.**  `main` has got through, and a front-end has received the three
messages, joined or not.  Then the two know the same backends exactly when the list was not lost on
the way, or is empty. -/
theorem configured_agrees_iff (hA : A.Documented) (h : main A cfg = some T)
    (hS : S.d_index_table = load_d_index_table cfg.d_index) (j₁ j₂ : Bool) (recv_buffer : Mem) :
    ∃ c', Config.recvs ⟨.init, recv_buffer⟩ (S.joined j₁ j₂) = .ok c' ∧
      (Agrees T c'.rule_controller.d_index_map ↔ (j₁ = true → cfg.d_index = [])) := by
  have hagrees := agrees_of_main hA h hS
  obtain ⟨c', hc, hrc⟩ := S.recvs_joined j₁ j₂ recv_buffer
  refine ⟨c', hc, ?_⟩
  rw [hrc]
  cases j₁ with
  | false => exact ⟨fun _ h => absurd h Bool.false_ne_true, fun _ => hagrees⟩
  | true =>
      have hnil : S.server = (fun _ => none) ↔ cfg.d_index = [] := by
        rw [S.server_eq_none_iff, hS, load_d_index_table, List.map_eq_nil_iff]
      constructor
      · intro hlost _
        -- the switch has an address only for what the front-end has lost
        refine hnil.mp (funext fun d => ?_)
        have hnone := (hagrees.address d).symm.trans (hlost.address d)
        exact Option.map_eq_none_iff.mp hnone
      · intro hempty
        rwa [hnil.mpr (hempty rfl)] at hagrees

/-- **What an installation must be told right.**  `main` has got through, and the front-end has
received the three messages, joined or not.  Then the installation is fit for offloading exactly when
no message was lost that counts, the rules name listed backends only, and the virtual address is the
one the data plane is compiled with. -/
theorem fits_iff (hA : A.Documented) (h : main A cfg = some T)
    (hS : S.d_index_table = load_d_index_table cfg.d_index) (j₁ j₂ : Bool) (recv_buffer : Mem) :
    ∃ c', Config.recvs ⟨.init, recv_buffer⟩ (S.joined j₁ j₂) = .ok c' ∧
      ∀ X, Deployment.Fits ⟨X, T, c'.rule_controller⟩ ↔
        (∀ key data, S.rule key = some data →
          j₁ = false ∧ ∃ i ∈ cfg.d_index, (d_index_t i).d_index = data.d_index) ∧
        j₂ = false ∧ S.v_info.ip = VIRTUAL_IP ∧ S.v_info.port = VIRTUAL_PORT := by
  have hagrees : Agrees T S.server := agrees_of_main hA h hS
  obtain ⟨c', hc, hrc⟩ := S.recvs_joined j₁ j₂ recv_buffer
  refine ⟨c', hc, fun X => ?_⟩
  rw [hrc]
  constructor
  · rintro ⟨-, hrules, hip, hport⟩
    refine ⟨fun key data hr => ?_, ?_⟩
    · have hd := hrules key data hr
      cases j₁ with
      | true => exact absurd rfl hd
      | false => exact ⟨rfl, (server_ne_none_iff hS _).mp hd⟩
    · cases j₂ with
      -- the address that was there before is 0.0.0.0
      | true =>
          have hip : RuleController.init.virtual_server_info.ip = VIRTUAL_IP := hip
          exact absurd hip (by decide)
      | false => exact ⟨rfl, hip, hport⟩
  · rintro ⟨hrules, rfl, hip, hport⟩
    refine ⟨fun d server hd => ?_, fun key data hr => ?_, hip, hport⟩
    · cases j₁ with
      | true => cases hd
      | false =>
          have hd : S.server d = some server := hd
          show T.d_index_to_ip_port_table d = _
          rw [hagrees.address, hd]
          rfl
    · obtain ⟨rfl, hd⟩ := hrules key data hr
      exact (server_ne_none_iff hS _).mpr hd

end main

instance (widths : List Nat) (values : List (BitVec 64)) : Decidable (FitsIn widths values) :=
  inferInstanceAs (Decidable (List.Forall₂ _ _ _))

/-- A driver that takes what it documents to take. -/
def plainDriver : Driver where
  entry_add w t e :=
    if FitsIn w.key e.key ∧ FitsIn w.data e.data ∧ t e.key = none then
      some (upd t e.key (some e.data))
    else none

theorem plainDriver_documented : plainDriver.Documented where
  added h := by
    obtain ⟨⟨hk, hd, ht⟩, h⟩ := Option.ite_none_right_eq_some.mp h
    exact ⟨hk, hd, ht, (Option.some.inj h).symm⟩

/-- The bytes of a MAC address, as the configuration gives them. -/
def sampleMacArray (n : Int) : Vector Int 6 :=
  .ofFn fun i => if i = 0 then 2 else if i = 5 then n else 0

/-- Two backends. -/
def sampleItems : List DIndexItem :=
  [⟨1, 0x0A000102, 8080, 0x020000, 1, 1, sampleMacArray 1⟩,
    ⟨2, 0x0A000103, 8080, 0x020000, 2, 2, sampleMacArray 2⟩]

def sampleConfig : SwitchConfig where
  arp_table := [⟨1, 0x0A00010A, 0x020000, 9⟩]
  d_index := sampleItems
  lb_index := [⟨0, 0x020000, 3, 3⟩]
  dest_to_egress_port_table := fun _ => none
  invalid_key := 0

/-- What the front-ends are sent about them. -/
def sampleSent : Tables where
  rules := [⟨[0x2F, 0x61], 2, 1, by decide, by decide⟩]
  d_index_table := load_d_index_table sampleItems
  v_info := ⟨sampleMac 9, VIRTUAL_IP, VIRTUAL_PORT⟩
  rules_le := by decide
  d_index_le := by decide
  rules_fit := by decide
  d_index_fit := by decide

/-- `main` gets through. -/
theorem main_sample : ∃ T, main plainDriver sampleConfig = some T :=
  Option.isSome_iff_exists.mp (by decide)

theorem configured_agrees_iff_sample : ∃ T, main plainDriver sampleConfig = some T ∧
    ∃ c', Config.recvs ⟨.init, fun _ => 0⟩ (sampleSent.joined true false) = .ok c' ∧
      ¬ Agrees T c'.rule_controller.d_index_map := by
  obtain ⟨T, h⟩ := main_sample
  obtain ⟨c', hc, hiff⟩ :=
    configured_agrees_iff plainDriver_documented h (S := sampleSent) rfl true false fun _ => 0
  exact ⟨T, h, c', hc, fun hagrees => absurd (hiff.mp hagrees rfl) (by decide)⟩

theorem fits_iff_sample : ∃ T, main plainDriver sampleConfig = some T ∧
    ∃ c', Config.recvs ⟨.init, fun _ => 0⟩ (sampleSent.joined false false) = .ok c' ∧
      ∀ X, Deployment.Fits ⟨X, T, c'.rule_controller⟩ := by
  obtain ⟨T, h⟩ := main_sample
  obtain ⟨c', hc, hiff⟩ :=
    fits_iff plainDriver_documented h (S := sampleSent) rfl false false fun _ => 0
  refine ⟨T, h, c', hc, fun X => (hiff X).mpr ⟨fun key data hr => ⟨rfl, ?_⟩, rfl, rfl, rfl⟩⟩
  have hd : data.d_index = 2 := by
    obtain ⟨r, hfound, rfl⟩ := Option.map_eq_some_iff.mp hr
    rw [List.mem_singleton.mp (List.mem_reverse.mp (List.mem_of_find?_eq_some hfound))]
  rw [hd]
  decide

end Miresga.System
