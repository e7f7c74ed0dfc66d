import Miresga.Frontend.Ownership
import Miresga.Frontend.Plan

/-!
# Frontend — the URL of a request

`parse_payload` returns what stands behind the first `/` of the payload, up to a blank, a carriage
return or the end (`parse_payload_eq`).  It sets `size` to -1 first and to 0 when its first loop has
ended, with or without a `/`.  So a payload without a `/` has the empty token, and neither caller
ever sees -1 (`parse_payload_finds_iff`).

Both callers copy the token and a NUL into `url_copy`, 20 bytes on the stack, whatever its size; and
the payload ends where the IP header says, not where the frame does.  `parsed` says which packets come
to one of the two call sites: with them the loop body overflows, or meets a fence at the end of the
frame, as their token has it (`process_pkt_copied`), and with the others it does neither
(`process_pkt_uncopied`); so `url_copy_fits_iff`.
-/

namespace Miresga.Frontend

/-! ### The token -/

/-- A byte that belongs to a URL. -/
def url_byte (b : Byte) : Bool := !(b == 0x20 || b == 0x0d)

/-- What stands behind the first `/`, up to a blank or a carriage return. -/
def token (payload : List Byte) : List Byte :=
  (payload.drop (payload.idxOf 0x2f + 1)).takeWhile url_byte

theorem span_eq (stop : Byte → Bool) (m : Mem) (i n : Nat) :
    span stop m i n = ((m.bytes i n).takeWhile fun b => !stop b).length := by
  induction n generalizing i with
  | zero => rfl
  | succ n ih =>
      rw [span, Mem.bytes_succ, List.takeWhile_cons, ih]
      cases stop (m i) <;> rfl

/-- `parse_payload` finds the token, with or without a `/` in front of it. -/
theorem parse_payload_eq (m : Mem) (payload payload_size : Nat) :
    parse_payload m payload payload_size =
      (payload + ((m.bytes payload payload_size).idxOf 0x2f + 1),
        ((token (m.bytes payload payload_size)).length : Int)) := by
  have first : span (· == 0x2f) m payload payload_size =
      (m.bytes payload payload_size).idxOf 0x2f := by
    rw [span_eq, List.takeWhile_eq_take_findIdx_not, List.length_take]
    simp only [Bool.not_not]
    exact Nat.min_eq_left List.findIdx_le_length
  simp only [parse_payload]
  rw [first, span_eq, token, Mem.drop_bytes]
  rfl

/-- The token ends inside the payload, unless there is no `/`. -/
theorem token_inside {payload : List Byte} (h : 0x2f ∈ payload) :
    payload.idxOf 0x2f + 1 + (token payload).length ≤ payload.length := by
  have hlt := List.idxOf_lt_length_iff.mpr h
  have hle := (List.takeWhile_prefix (p := url_byte)
    (l := payload.drop (payload.idxOf 0x2f + 1))).length_le
  rw [List.length_drop] at hle
  rw [token]
  omega

/-- **`parse_payload` finds the token or reports none** if and only if there is a `/`. -/
theorem parse_payload_finds_iff (m : Mem) (payload payload_size : Nat) :
    let bytes := m.bytes payload payload_size
    let (url, size) := parse_payload m payload payload_size
    ((0x2f ∈ bytes → url = payload + bytes.idxOf 0x2f + 1 ∧
        size = ((bytes.drop (bytes.idxOf 0x2f + 1)).takeWhile url_byte).length ∧
        url + size.toNat ≤ payload + payload_size) ∧
      (0x2f ∉ bytes → size = -1)) ↔ 0x2f ∈ bytes := by
  rw [parse_payload_eq]
  dsimp only
  constructor
  · intro h
    by_contra hn
    have := h.2 hn
    omega
  · intro h
    have inside := token_inside h
    rw [Mem.length_bytes] at inside
    refine ⟨fun _ => ⟨by omega, rfl, ?_⟩, fun hn => absurd h hn⟩
    rw [Int.toNat_natCast]
    omega

/-! ### Which packets are parsed -/

/-- The destination leads to no state of the `switch` either. -/
def unanswered (s : Shared) (p : Mbuf) : Bool :=
  match s.find (dstClient p.data) with
  | none => true
  | some a => (s.flow a).state == .INIT

/-- The two ways to `parse_payload`: a packet with payload that belongs to an established flow and
does not end it, or to no flow. -/
def parsed (s : Shared) (p : Mbuf) : Bool :=
  decide (isTcp p.data) && payload_flag p.data &&
    match s.find (srcClient p.data) with
    | none => unanswered s p
    | some a =>
      match (s.flow a).state with
      | .COMPLETE | .OFFLOAD => !rst p.data && !fin p.data
      | .BACKEND_SYN => false
      | .INIT => unanswered s p

/-- How the copy of the URL ends the loop body `o`, if it does. -/
inductive Copied (fence : Option Nat) (m : Mem) (o : Outcome) : Prop where
  | overflow (h : url_fits m = false) (ho : o = .overflow)
  | stray (h : url_fits m = true) (hf : fence.any (url_passes m) = true) (ho : o = .stray)
  | made (h : url_fits m = true) (hf : fence.any (url_passes m) = false) (ho : o ≠ .overflow)
      (hs : o ≠ .stray)

/-- The code does not end for a copy. -/
def Outcome.Uncopied (o : Outcome) : Prop := o ≠ .overflow ∧ o ≠ .stray

section parsed

variable {fence : Option Nat} {rc : RuleController} {mem : Alloc} {p : Mbuf} {s : Proc} {a : Addr}

theorem call_uncopied {c : Call} {k : Proc → Outcome} (h : ∀ s, (k s).Uncopied) :
    (call rc s c k).Uncopied := by
  unfold call
  split
  · exact ⟨nofun, nofun⟩
  · exact h _
  · exact ⟨nofun, nofun⟩

theorem copy_url_copied {k : List Byte → Outcome} (h : ∀ url, (k url).Uncopied) :
    Copied fence p.data (copy_url fence p k) := by
  unfold copy_url
  split
  next hfits =>
    split
    next hf => exact .stray hfits hf rfl
    next hf => exact .made hfits (by simpa using hf) (h _).1 (h _).2
  next hfits => exact .overflow (by simpa using hfits) rfl

theorem client_payload_copied : Copied fence p.data (client_payload fence rc mem p s a) := by
  unfold client_payload
  dsimp only
  rw [if_neg (parse_url_size p.data)]
  refine copy_url_copied fun url => ?_
  split
  · exact ⟨nofun, nofun⟩
  split
  · refine call_uncopied fun s => call_uncopied fun s => ?_
    split <;> exact ⟨nofun, nofun⟩
  · refine call_uncopied fun s => ?_
    split_ifs <;> exact ⟨nofun, nofun⟩

theorem new_flow_copied (hp : payload_flag p.data = true) :
    Copied fence p.data (new_flow fence rc mem p s) := by
  unfold new_flow
  rw [hp, if_neg (by simp), if_neg (parse_url_size p.data)]
  refine copy_url_copied fun url => ?_
  split
  · exact ⟨nofun, nofun⟩
  · refine call_uncopied fun s => ?_
    split <;> exact ⟨nofun, nofun⟩

theorem from_backend_copied (hp : payload_flag p.data = true) (hu : unanswered s.shared p = true) :
    Copied fence p.data (from_backend fence rc mem p s) := by
  unfold from_backend
  cases hf : s.shared.find (dstClient p.data) with
  | none => exact new_flow_copied hp
  | some a =>
      rw [unanswered, hf, beq_iff_eq] at hu
      simp only [hu]
      exact new_flow_copied hp

/-- **A parsed packet has its URL copied**, at one of the two call sites. -/
theorem process_pkt_copied (h : parsed s.shared p = true) :
    Copied fence p.data (process_pkt_within fence rc mem p s) := by
  rw [parsed, Bool.and_eq_true, Bool.and_eq_true, decide_eq_true_eq] at h
  obtain ⟨⟨ht, hp⟩, h⟩ := h
  unfold process_pkt_within
  rw [if_neg (not_not.mpr ht.1), if_neg (not_not.mpr ht.2)]
  cases hf : s.shared.find (srcClient p.data) with
  | none =>
      rw [hf] at h
      exact from_backend_copied hp h
  | some a =>
      cases hs : (s.shared.flow a).state with
      | INIT =>
          simp only [hf, hs] at h
          simp only [hs]
          exact from_backend_copied hp h
      | BACKEND_SYN =>
          simp only [hf, hs] at h
          cases h
      | OFFLOAD | COMPLETE =>
          simp only [hf, hs, Bool.and_eq_true, Bool.not_eq_true'] at h
          simp only [hs, client_established, h.1, h.2, hp, if_true, Bool.false_eq_true, if_false]
          exact client_payload_copied

theorem client_established_uncopied (h : rst p.data = true ∨ fin p.data = true ∨
    payload_flag p.data = false) : (client_established fence rc mem p s a).Uncopied := by
  unfold client_established
  dsimp only
  split_ifs with hr hf hp
  · exact call_uncopied fun s => ⟨nofun, nofun⟩
  · exact call_uncopied fun s => call_uncopied fun s => ⟨nofun, nofun⟩
  · rcases h with h | h | h
    · exact absurd h hr
    · exact absurd h hf
    · exact absurd (hp.symm.trans h) (by decide)
  · exact call_uncopied fun s => ⟨nofun, nofun⟩

theorem client_backend_syn_uncopied : (client_backend_syn rc p s a).Uncopied := by
  unfold client_backend_syn
  dsimp only
  split_ifs
  · exact call_uncopied fun s => ⟨nofun, nofun⟩
  · split
    · exact ⟨nofun, nofun⟩
    · split_ifs
      · exact call_uncopied fun s => ⟨nofun, nofun⟩
      · exact ⟨nofun, nofun⟩

theorem backend_syn_ack_uncopied : (backend_syn_ack rc p s a).Uncopied := by
  unfold backend_syn_ack
  dsimp only
  split_ifs
  · exact ⟨nofun, nofun⟩
  · split
    · exact ⟨nofun, nofun⟩
    · exact call_uncopied fun s => ⟨nofun, nofun⟩

theorem backend_established_uncopied : (backend_established rc p s a).Uncopied := by
  unfold backend_established
  dsimp only
  split_ifs
  · exact call_uncopied fun s => ⟨nofun, nofun⟩
  · exact call_uncopied fun s => call_uncopied fun s => ⟨nofun, nofun⟩
  · exact call_uncopied fun s => ⟨nofun, nofun⟩

theorem from_backend_uncopied
    (h : payload_flag p.data = false ∨ unanswered s.shared p = false) :
    (from_backend fence rc mem p s).Uncopied := by
  have new_flow_uncopied (hp : payload_flag p.data = false) :
      (new_flow fence rc mem p s).Uncopied := by
    rw [new_flow, hp]
    exact ⟨nofun, nofun⟩
  unfold from_backend
  cases hf : s.shared.find (dstClient p.data) with
  | none => exact new_flow_uncopied (h.resolve_right (by simp [unanswered, hf]))
  | some a =>
      cases hs : (s.shared.flow a).state with
      | INIT =>
          simp only [hs]
          exact new_flow_uncopied (h.resolve_right (by simp [unanswered, hf, hs]))
      | BACKEND_SYN =>
          simp only [hs]
          exact backend_syn_ack_uncopied
      | OFFLOAD | COMPLETE =>
          simp only [hs]
          exact backend_established_uncopied

/-- **No other packet has.** -/
theorem process_pkt_uncopied (h : parsed s.shared p = false) :
    (process_pkt_within fence rc mem p s).Uncopied := by
  unfold process_pkt_within
  split_ifs with he hp
  · exact ⟨nofun, nofun⟩
  · exact ⟨nofun, nofun⟩
  have ht : isTcp p.data := ⟨not_not.mp he, not_not.mp hp⟩
  rw [parsed, decide_eq_true ht, Bool.true_and, Bool.and_eq_false_iff] at h
  cases hf : s.shared.find (srcClient p.data) with
  | none =>
      rw [hf] at h
      exact from_backend_uncopied h
  | some a =>
      cases hs : (s.shared.flow a).state with
      | INIT =>
          simp only [hf, hs] at h
          simp only [hs]
          exact from_backend_uncopied h
      | BACKEND_SYN =>
          simp only [hs]
          exact client_backend_syn_uncopied
      | OFFLOAD | COMPLETE =>
          simp only [hf, hs, Bool.and_eq_false_iff, Bool.not_eq_false'] at h
          simp only [hs]
          exact client_established_uncopied (by tauto)

end parsed

/-! ### The fence -/

section fence

variable {fence : Option Nat} {rc : RuleController} {mem : Alloc} {p : Mbuf} {s : Proc} {a : Addr}

/-- With the fence, the code ends in front of a copy, or it is the code without. -/
def Fenced (o o' : Outcome) : Prop := o = .stray ∨ o = o'

theorem copy_url_fenced (k : List Byte → Outcome) :
    Fenced (copy_url fence p k) (copy_url none p k) := by
  unfold copy_url
  rw [Option.any_none]
  split
  · split
    · exact .inl rfl
    · exact .inr rfl
  · exact .inr rfl

theorem client_established_fenced :
    Fenced (client_established fence rc mem p s a) (client_established none rc mem p s a) := by
  unfold client_established client_payload
  dsimp only
  split_ifs
  · exact .inr rfl
  · exact .inr rfl
  · exact .inr rfl
  · exact copy_url_fenced _
  · exact .inr rfl

theorem from_backend_fenced :
    Fenced (from_backend fence rc mem p s) (from_backend none rc mem p s) := by
  have new_flow_fenced : Fenced (new_flow fence rc mem p s) (new_flow none rc mem p s) := by
    unfold new_flow
    split_ifs
    · exact .inr rfl
    · exact .inr rfl
    · exact copy_url_fenced _
  unfold from_backend
  split
  · exact new_flow_fenced
  split
  · exact .inr rfl
  · exact .inr rfl
  · exact .inr rfl
  · exact new_flow_fenced

/-- **The fence changes nothing else.** -/
theorem process_pkt_fenced :
    Fenced (process_pkt_within fence rc mem p s) (process_pkt rc mem p s) := by
  unfold process_pkt process_pkt_within
  split_ifs
  · exact .inr rfl
  · exact .inr rfl
  split
  · exact from_backend_fenced
  split
  · exact client_established_fenced
  · exact client_established_fenced
  · exact .inr rfl
  · exact from_backend_fenced

end fence

/-! ### The copy -/

/-- The payload, as long as the IP header says. -/
def url_payload (m : Mem) : List Byte :=
  m.bytes (34 + tcp_hdr_len m) ((ntohs (total_length m)).toNat - header_size m)

/-- Where the token begins in the frame. -/
def token_offset (m : Mem) : Nat := 34 + tcp_hdr_len m + ((url_payload m).idxOf 0x2f + 1)

theorem parse_url_eq (m : Mem) :
    parse_url m = (token_offset m, ((token (url_payload m)).length : Int)) := parse_payload_eq ..

theorem url_fits_iff (m : Mem) : url_fits m = true ↔ (token (url_payload m)).length ≤ 19 := by
  rw [url_fits, parse_url_eq, decide_eq_true_eq, Int.toNat_natCast, URL_COPY]
  exact Nat.succ_le_succ_iff

theorem url_passes_iff (m : Mem) (n : Nat) : url_passes m n = false ↔
    token (url_payload m) = [] ∨ token_offset m + (token (url_payload m)).length ≤ n := by
  rw [url_passes, parse_url_eq, Int.toNat_natCast, Bool.and_eq_false_iff, decide_eq_false_iff_not,
    decide_eq_false_iff_not, Nat.not_lt, Nat.not_lt, Nat.le_zero, List.length_eq_zero_iff]

/-- **The copy stays in `url_copy`**, and what is copied is in the frame, if and only if a packet
that is parsed has a token of at most 19 bytes, all of them received. -/
theorem url_copy_fits_iff (rc : RuleController) (mem : Alloc) (p : Mbuf) (s : Proc) :
    (process_pkt rc mem p s ≠ .overflow ∧
      process_pkt_within (some p.data_len.toNat) rc mem p s ≠ .stray) ↔
    (parsed s.shared p = true → (token (url_payload p.data)).length ≤ 19 ∧
      (token (url_payload p.data) = [] ∨
        token_offset p.data + (token (url_payload p.data)).length ≤ p.data_len.toNat)) := by
  cases hp : parsed s.shared p with
  | false =>
      exact ⟨fun _ h => absurd h Bool.false_ne_true,
        fun _ => ⟨(process_pkt_uncopied hp).1, (process_pkt_uncopied hp).2⟩⟩
  | true =>
      rw [← url_fits_iff, ← url_passes_iff]
      have hopen : Copied none p.data (process_pkt rc mem p s) := process_pkt_copied hp
      have hfence : Copied (some p.data_len.toNat) p.data
          (process_pkt_within (some p.data_len.toNat) rc mem p s) := process_pkt_copied hp
      constructor
      · rintro ⟨ho, hs⟩ -
        cases hopen with
        | overflow _ h => exact absurd h ho
        | stray _ hf => cases hf
        | made hfits =>
            cases hfence with
            | overflow h => exact absurd (hfits.symm.trans h) (by decide)
            | stray _ _ h => exact absurd h hs
            | made _ hf => exact ⟨hfits, hf⟩
      · intro h
        obtain ⟨hfits, hin⟩ := h rfl
        constructor
        · cases hopen with
          | overflow h => exact absurd (hfits.symm.trans h) (by decide)
          | stray _ hf => cases hf
          | made _ _ ho => exact ho
        · cases hfence with
          | overflow h => exact absurd (hfits.symm.trans h) (by decide)
          | stray _ hf => exact absurd (hf.symm.trans hin) (by decide)
          | made _ _ _ hs => exact hs

/-- A request for a URL of 24 letters. -/
def longRequest : Mbuf :=
  sampleIn TCP_ACK_FLAG ([0x47, 0x45, 0x54, 0x20, 0x2f] ++ List.replicate 24 0x61 ++ [0x20])

/-- A request of 60 bytes with an IPv4 total length of 60, which makes a frame of 74. -/
def claimedRequest : Mbuf :=
  .ofBytes (headers (0xC0A80002, 40000) (0x0A000001, 80) 1000 5000 TCP_ACK_FLAG 60
    ++ [0x47, 0x45, 0x54, 0x20, 0x2f, 0x61])

/-- The long URL and its NUL take 25 bytes of 20, and the token of the other request is copied from 14
bytes behind the frame. -/
theorem url_copy_overflows :
    process_pkt sampleRules ⟨0, 0⟩ longRequest ⟨sampleStart, .blank⟩ = .overflow ∧
    parse_url longRequest.data = (59, 24) ∧
    process_pkt_within (some 60) sampleRules ⟨0, 0⟩ claimedRequest ⟨sampleStart, .blank⟩ = .stray ∧
    parse_url claimedRequest.data = (59, 15) ∧ claimedRequest.data_len = 60 := by
  have hlong : Copied none longRequest.data
      (process_pkt sampleRules ⟨0, 0⟩ longRequest ⟨sampleStart, .blank⟩) :=
    process_pkt_copied (by decide +kernel)
  have hclaimed : Copied (some 60) claimedRequest.data
      (process_pkt_within (some 60) sampleRules ⟨0, 0⟩ claimedRequest ⟨sampleStart, .blank⟩) :=
    process_pkt_copied (by decide +kernel)
  refine ⟨?_, by decide +kernel, ?_, by decide +kernel, by decide +kernel⟩
  · have hfits : url_fits longRequest.data = false := by decide +kernel
    cases hlong with
    | overflow _ ho => exact ho
    | stray h => exact absurd (h.symm.trans hfits) (by decide)
    | made h => exact absurd (h.symm.trans hfits) (by decide)
  · have hfits : url_fits claimedRequest.data = true := by decide +kernel
    have hpasses : url_passes claimedRequest.data 60 = true := by decide +kernel
    cases hclaimed with
    | overflow h => exact absurd (h.symm.trans hfits) (by decide)
    | stray _ _ ho => exact ho
    | made _ hf => exact absurd (hf.symm.trans hpasses) (by decide)

/-! ### A payload without a URL -/

/-- A packet whose payload has no `/`. -/
def slashless : Mbuf := sampleIn TCP_ACK_FLAG [0x47, 0x45, 0x54, 0x20]

/-- The sample servers and a rule for the empty URL. -/
def emptyRule : RuleController :=
  { sampleRules with rule_map := fun url => if url = [] then some ⟨0, 1⟩ else none }

/-- The size of a payload without a `/` is 0, and if there is a rule for the empty URL, a SYN goes
to its server. -/
theorem slashless_looked_up :
    0x2f ∉ slashless.data.bytes 54 4 ∧ parse_payload slashless.data 54 4 = (59, 0) ∧
    (parse_url slashless.data).2 ≠ -1 ∧
    (match process_pkt emptyRule ⟨0, 0⟩ slashless ⟨sampleStart, .blank⟩ with
      | .next s => s.sends.calls.map fun c => c.d_index
      | _ => []) = [some 1] := by
  decide +kernel

end Miresga.Frontend
