import Miresga.Frontend.Plan
import Miresga.Frontend.Records
import Miresga.Frontend.Ownership
import Miresga.System.Startup

/-!
# System — rules, flows and their servers

A builder finds the server of a backend under its `d_index`.  The `d_index` comes from a rule or from
a flow, the servers from another table, and the three change independently: messages of the switch
add and delete rules and servers at any time between two packets (`Front.Step`).

Three builders use the server they look up without a test, and neither the switch nor the front-end
sees to it that there is one: the first message of a new connection brings the rules, and the servers
come with the second (`rules_first_crash`).

A packet meets one rule at most, that of its URL, and leads to one flow at most.  In a run in which a
packet is handled only when the server of its rule is there, and no message deletes a server that a
flow names (`Orderly`), the flows keep their servers (`Ready`), and no lookup fails (`lookups_served`).
The switch's own order is such a run when no request comes in between the two messages.
-/

namespace Miresga.System

open Frontend

/-! ### Runs of messages and packets -/

/-- The front-end: its tables with the receive buffer, and its flows. -/
structure Front where
  config : Config
  shared : Shared

/-- What one `recv` returned, or a packet with the allocator's answers. -/
inductive Arrival where
  | message (data : List Byte)
  | packet (pkt : Mbuf) (mem : Alloc)

namespace Front

def rc (s : Front) : RuleController := s.config.rule_controller

inductive Step (s : Front) : Arrival → Front → Prop where
  | message {data : List Byte} {config : Config} (h : s.config.recv data = .ok config) :
      Step s (.message data) ⟨config, s.shared⟩
  | packet {pkt : Mbuf} {mem : Alloc} {shared : Shared} {cs : List Call}
      (h : FrontStep s.shared ⟨s.rc, pkt, mem⟩ shared cs) :
      Step s (.packet pkt mem) ⟨s.config, shared⟩

/-- No rules, no servers, no flows. -/
structure Initial (s : Front) : Prop where
  tables : s.rc = .init
  flows : Frontend.Initial s.shared

end Front

/-- If the packet's URL has a rule, the server of that rule is there. -/
def RuleServed (rc : RuleController) (p : Mbuf) : Prop :=
  ∀ data, rule rc p = some data → (rc.d_index_map data.d_index).isSome = true

/-- The packet comes when the server of its rule is there; the message leaves the tables at `rc'`
and deletes no server that a flow names. -/
def Orderly (s : Front) (rc' : RuleController) : Arrival → Prop
  | .packet pkt _ => RuleServed s.rc pkt
  | .message _ => ∀ d, rc'.d_index_map d = none → s.rc.d_index_map d = none ∨ ¬ s.shared.Names d

/-- A step in an orderly run. -/
def OrderlyStep (s : Front) (e : Arrival) (s' : Front) : Prop := s.Step e s' ∧ Orderly s s'.rc e

/-! ### Every flow has its server -/

/-- The record's backend has a server, and if it waits it does so with a packet. -/
structure Backed (rc : RuleController) (f : FlowData) : Prop where
  server : (rc.d_index_map f.entry_data.d_index).isSome = true
  cached : f.state = .BACKEND_SYN → f.recv_pkt ≠ none

/-- The invariant: the flows have their servers. -/
def Ready (rc : RuleController) (s : Shared) : Prop := Records (Backed rc) s

theorem Backed.lasting (rc : RuleController) : Lasting (Backed rc) := by
  rintro f st (rfl | rfl) h
  · exact ⟨h.server, nofun⟩
  · exact ⟨h.server, nofun⟩

namespace Ready

variable {rc rc' : RuleController} {mem : Alloc} {p : Mbuf} {s s' : Shared} {cs : List Call}

/-- Whatever a packet may name has a server. -/
theorem named (h : Ready rc s) (hp : RuleServed rc p) {d : Byte} (hd : Named rc p s d) :
    (rc.d_index_map d).isSome = true := by
  rcases hd with ⟨data, hr, rfl⟩ | ⟨k, a, hf, rfl⟩
  · exact hp data hr
  · exact (h k a hf).server

/-- A packet whose rule has its server keeps the flows within the servers. -/
theorem transition (h : Ready rc s) (hp : RuleServed rc p) (ht : Transition rc mem p s s' cs) :
    Ready rc s' :=
  Records.transition (Backed.lasting rc) h (fun data hr => ⟨hp data hr, nofun⟩) ht

/-- So does a change of the tables that deletes no server of a flow. -/
theorem tables (h : Ready rc s)
    (hkept : ∀ d, rc'.d_index_map d = none → rc.d_index_map d = none ∨ ¬ s.Names d) :
    Ready rc' s := by
  intro k a hf
  have hb := h k a hf
  refine ⟨?_, hb.cached⟩
  by_contra hnone
  rcases hkept _ (Option.not_isSome_iff_eq_none.mp hnone) with hgone | hfree
  · have hsome := hb.server
    rw [hgone] at hsome
    cases hsome
  · exact hfree ⟨k, a, hf, rfl⟩

/-- **One step.** -/
theorem step {s s' : Front} {e : Arrival} (h : Ready s.rc s.shared) (hs : OrderlyStep s e s') :
    Ready s'.rc s'.shared := by
  obtain ⟨hs, ho⟩ := hs
  cases hs with
  | message hr => exact h.tables ho
  | packet hp => exact h.transition ho hp.transition

/-! ### No lookup fails -/

/-- With the servers in place, a packet meets no null pointer. -/
theorem process_pkt_ne_crash (h : Ready rc s) (hp : RuleServed rc p) (mem : Alloc) (t : Sends) :
    process_pkt rc mem p ⟨s, t⟩ ≠ .crash := by
  obtain ⟨P, hP, he⟩ := process_pkt_plan rc mem p s
  rw [he t]
  cases hP with
  | next => exact nofun
  | fail => exact nofun
  | overflow => exact nofun
  | refused => exact nofun
  | @null cs c d hd hc hnamed =>
      have hsome := h.named hp hnamed
      rw [served_of_some hd] at hc
      exact absurd (hsome.symm.trans hc) Bool.noConfusion
  | no_pkt hf hst hq => exact absurd hq ((h _ _ hf).cached hst)

/-- Nor does a burst. -/
theorem process_pkts_ne_crash (h : Ready rc s) (ps : List (Alloc × Mbuf))
    (hps : ∀ q ∈ ps, RuleServed rc q.2) (t : Sends) :
    process_pkts (ps.map fun q => (rc, q.1, q.2)) ⟨s, t⟩ ≠ .crash := by
  induction ps generalizing s t with
  | nil => exact fun h => by cases h
  | cons q ps ih =>
      rw [List.map_cons, process_pkts]
      obtain ⟨hq, hps⟩ := List.forall_mem_cons.mp hps
      have hne := h.process_pkt_ne_crash hq q.1 t
      cases ho : process_pkt rc q.1 q.2 ⟨s, t⟩ with
      | next s' =>
          obtain ⟨cs, ht, -⟩ := process_pkt_takes (ho ▸ Outcome.Done.next s')
          exact ih (h.transition hq ht) hps s'.sends
      | crash => exact absurd ho hne
      | ret _ _ | overflow | stray | refused => exact fun h => by cases h

end Ready

/-- **Backend lookups.**  In every run of messages and packets in which a packet comes only when the
server of its rule is there, and no message deletes a server that a flow names: from every state
reached, no burst of such packets makes a builder use a server that is not there. -/
theorem lookups_served {s₀ s : Front} {es : List Arrival} (h₀ : s₀.Initial)
    (hr : Steps OrderlyStep s₀ es s) (ps : List (Alloc × Mbuf))
    (hps : ∀ q ∈ ps, RuleServed s.rc q.2) (t : Sends) :
    process_pkts (ps.map fun q => (s.rc, q.1, q.2)) ⟨s.shared, t⟩ ≠ .crash := by
  have hready : Ready s.rc s.shared :=
    hr.inv (I := fun s : Front => Ready s.rc s.shared) (fun _ _ _ h hs => h.step hs)
      (.initial h₀.flows)
  exact hready.process_pkts_ne_crash ps hps t

/-! ### The order of the start-up messages -/

/-- A front-end that has received nothing. -/
def sampleFront : Front := ⟨⟨.init, fun _ => 0⟩, sampleStart⟩

theorem sampleFront_initial : sampleFront.Initial := ⟨rfl, sampleStart_initial⟩

/-- A message that performs `f`. -/
theorem Performs.step {message : List Byte} {f : RuleController → RuleController}
    (h : Performs message f) (s : Front) :
    s.Step (.message message) ⟨⟨f s.rc, s.config.recv_buffer.write 0 message⟩, s.shared⟩ := by
  have hr := h.recv s.config []
  rw [List.append_nil] at hr
  exact .message hr

/-- The rules come first and the servers next, as the switch sends them; then a client is served. -/
theorem lookups_served_sample :
    ∃ s, Steps OrderlyStep sampleFront [.message (rule_message sampleTables.rules),
        .message (d_index_message sampleTables.d_index_table)] s ∧
      rule s.rc (sampleRequest 97) = some ⟨1, 1⟩ ∧
      process_pkts ([(⟨0, 0⟩, sampleRequest 97)].map fun q => (s.rc, q.1, q.2))
        ⟨s.shared, .blank⟩ ≠ .crash := by
  let s₁ : Front :=
    ⟨⟨{ RuleController.init with
        rule_map := put_rules sampleTables.rules RuleController.init.rule_map },
      sampleFront.config.recv_buffer.write 0 (rule_message sampleTables.rules)⟩, sampleStart⟩
  have h₁ : OrderlyStep sampleFront (.message _) s₁ :=
    ⟨sampleTables.performs_rules.step sampleFront, fun d hd => .inl hd⟩
  -- no flow names a server yet
  have h₂ := sampleTables.performs_servers.step s₁
  have hr := (Steps.one h₁).more ⟨h₂, fun d _ => .inr fun ⟨k, a, hf, _⟩ => nomatch hf⟩
  refine ⟨_, hr, rfl, lookups_served sampleFront_initial hr _ ?_ _⟩
  rintro q hq data hdata
  obtain rfl := List.mem_singleton.mp hq
  cases hdata
  rfl

/-- Whether a null pointer was used. -/
def crashed : Outcome → Bool
  | .crash => true
  | _ => false

theorem crash_of_crashed {o : Outcome} (h : crashed o = true) : o = .crash := by
  cases o with
  | crash => rfl
  | _ => cases h

/-- **The rules come first.**  After the first message of the switch a rule names a backend whose
server is not known yet; the first request for it makes `send_syn_pkt` use a null pointer. -/
theorem rules_first_crash :
    ∃ s, sampleFront.Initial ∧
      Steps Front.Step sampleFront [.message (rule_message sampleTables.rules)] s ∧
      s.rc.lookup_balancing_rule [97] = some ⟨1, 1⟩ ∧ s.rc.lookup_backend_server_info 1 = none ∧
      process_pkts [(s.rc, ⟨0, 0⟩, sampleRequest 97)] ⟨s.shared, .blank⟩ = .crash := by
  have hr := Steps.one (R := Front.Step) (sampleTables.performs_rules.step sampleFront)
  refine ⟨_, sampleFront_initial, hr, rfl, rfl, ?_⟩
  exact crash_of_crashed (by decide +kernel)

end Miresga.System
