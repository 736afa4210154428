/-
The two data planes, as the transport sees them.

The reflector and the senders do not know which program the switches run. What they get to
see of it is what a data packet brings to `r1`: entries of the switches, and an ECN field.
`DataPlane` is that much of a program, with the ledger that makes it true; `plane` is that of
each of the two.
-/
import IntHpcc.DumbbellEcn
import IntHpcc.DumbbellTelemetry

set_option autoImplicit false

namespace IntHpcc.DataPlanes

open IntHpcc.Bytes IntHpcc.P4 IntHpcc.P4.DctcpSwitch IntHpcc.LoadTables IntHpcc.Dumbbell
open IntHpcc.DumbbellNotes IntHpcc.DumbbellTelemetry IntHpcc.DumbbellEcn

/-- The largest packet a host puts on its link in one piece. -/
def MTU : ℕ := 1500

/-- A data packet as its host sends it: without entries, and opted in for ECN. -/
structure Fresh (g : UdpFrame) (shim : shim_t) (data : data_payload_t) (tail : List Byte) :
    Prop where
  dst_port : g.udp.dst_port = DATA_PORT
  hop_count : shim.hop_count = 0#8
  payload : g.payload = data_bytes shim [] data tail
  ecn : g.ipv4.ecn = ECN_ECT_0
  total_len_le : g.ipv4.total_len.toNat ≤ MTU

/-- What a program does for the transport. -/
structure DataPlane (algo : Algo) where
  ledger : Ledger algo.program
  opens : ledger.Opens
  /-- The frame `index` of `h{k + 1}` brings these entries and this ECN field to `r1`. -/
  Brings : List Taken → ℕ → Fin MAX_SENDERS → List int_hop_t → BitVec 2 → Prop
  mono : ∀ {notes notes' index k hops ecn}, Brings notes index k hops ecn → notes <+: notes' →
    Brings notes' index k hops ecn
  arrives : ∀ {n : ℕ} {q : Fabric algo.program × List Taken}, Noted ledger n q →
    ∀ {i : ℕ} {pk : Packet}, q.1.packets[i]? = some pk → pk.place = .received .r1 →
    ∀ {k : Fin MAX_SENDERS}, pk.source = .h k → ∀ {g : UdpFrame}, pk.original = g.bytes →
    ∀ {shim data tail}, Fresh g shim data tail →
    ∃ (out : UdpFrame) (hops : List int_hop_t), hops.length ≤ P4.MAX_HOPS ∧
      pk.frame = out.bytes ∧ out.payload = data_bytes (shim.counting hops) hops data tail ∧
      Brings q.2 i k hops out.ipv4.ecn

/-! ## `hpcc.p4` -/

/-- The entry of switch 2 and, behind it, that of switch 1. -/
def TwoEntries (notes : List Taken) (index : ℕ) (k : Fin MAX_SENDERS) (hops : List int_hop_t) :
    Prop :=
  ∃ hop₁ hop₂, Tells notes index (.s1, k.val + 1) hop₁ ∧ Tells notes index (.s2, 1) hop₂ ∧
    hops = [hop₂, hop₁]

theorem TwoEntries.mono {notes notes' : List Taken} {index : ℕ} {k : Fin MAX_SENDERS}
    {hops : List int_hop_t} (h : TwoEntries notes index k hops) (hnotes : notes <+: notes') :
    TwoEntries notes' index k hops := by
  obtain ⟨hop₁, hop₂, h₁, h₂, hhops⟩ := h
  exact ⟨hop₁, hop₂, h₁.mono hnotes, h₂.mono hnotes, hhops⟩

theorem two_entries {n i : ℕ} {q : Fabric hpcc × List Taken} (h : Noted hpcc_ledger n q)
    {pk : Packet} (hi : q.1.packets[i]? = some pk) (hplace : pk.place = .received .r1)
    {k : Fin MAX_SENDERS} (hsource : pk.source = .h k) {g : UdpFrame}
    (horiginal : pk.original = g.bytes) {shim : shim_t} {data : data_payload_t}
    {tail : List Byte} (hfresh : Fresh g shim data tail) :
    ∃ (out : UdpFrame) (hops : List int_hop_t), hops.length ≤ P4.MAX_HOPS ∧
      pk.frame = out.bytes ∧ out.payload = data_bytes (shim.counting hops) hops data tail ∧
      TwoEntries q.2 i k hops := by
  have hroom : g.ipv4.total_len.toNat + 2 * HOP_SIZE < 2 ^ 16 := by
    have hle := hfresh.total_len_le
    simp only [MTU, HOP_SIZE] at hle ⊢
    omega
  obtain ⟨out, hop₁, hop₂, hout, houtpay, h₁, h₂⟩ := entries h hi hplace hsource horiginal
    hfresh.dst_port hfresh.hop_count hfresh.payload hroom
  exact ⟨out, [hop₂, hop₁], show 2 ≤ P4.MAX_HOPS by decide, hout, houtpay, hop₁, hop₂, h₁, h₂, rfl⟩

def hpcc_plane : DataPlane .hpcc where
  ledger := hpcc_ledger
  opens := hpcc_ledger_opens
  Brings notes index k hops _ := TwoEntries notes index k hops
  mono := TwoEntries.mono
  arrives h _ _ hi hplace _ hsource _ horiginal _ _ _ hfresh :=
    two_entries h hi hplace hsource horiginal hfresh

/-! ## `dctcp.p4` -/

/-- The mark, made by the two queues of the frame. -/
def Mark (ecn_k : ℕ) (notes : List Taken) (index : ℕ) (k : Fin MAX_SENDERS) (ecn : BitVec 2) :
    Prop :=
  ∃ t₁ ∈ visits notes index, ∃ t₂ ∈ visits notes index, t₁.stop = (.s1, k.val + 1) ∧
    t₂.stop = (.s2, 1) ∧
    ecn = if Jammed (ecn_k % 2 ^ 32) [t₁, t₂] then ECN_CE else ECN_ECT_0

theorem Mark.mono {ecn_k index : ℕ} {notes notes' : List Taken} {k : Fin MAX_SENDERS}
    {ecn : BitVec 2} (h : Mark ecn_k notes index k ecn) (hnotes : notes <+: notes') :
    Mark ecn_k notes' index k ecn := by
  obtain ⟨t₁, h₁, t₂, h₂, hrest⟩ := h
  exact ⟨t₁, visits_sub hnotes index h₁, t₂, visits_sub hnotes index h₂, hrest⟩

theorem no_entry {ecn_k n i : ℕ} {q : Fabric dctcp × List Taken}
    (h : Noted (dctcp_ledger ecn_k) n q) {pk : Packet} (hi : q.1.packets[i]? = some pk)
    (hplace : pk.place = .received .r1) {k : Fin MAX_SENDERS} (hsource : pk.source = .h k)
    {g : UdpFrame} (horiginal : pk.original = g.bytes) {shim : shim_t} {data : data_payload_t}
    {tail : List Byte} (hfresh : Fresh g shim data tail) :
    ∃ (out : UdpFrame) (hops : List int_hop_t), hops.length ≤ P4.MAX_HOPS ∧
      pk.frame = out.bytes ∧ out.payload = data_bytes (shim.counting hops) hops data tail ∧
      hops = [] ∧ Mark ecn_k q.2 i k out.ipv4.ecn := by
  obtain ⟨hvisits, out, hout, houtpay, hecn⟩ := marked h hi hplace hsource horiginal
    hfresh.dst_port hfresh.hop_count hfresh.payload hfresh.ecn
  obtain ⟨t₁, ts, hts, hstop₁, hrest⟩ := List.map_eq_cons_iff.mp hvisits
  obtain ⟨t₂, ts, rfl, hstop₂, hrest⟩ := List.map_eq_cons_iff.mp hrest
  obtain rfl := List.map_eq_nil_iff.mp hrest
  have hcount : shim.counting [] = shim :=
    Counted.counting_eq ⟨Nat.zero_le _, hfresh.hop_count⟩
  rw [hts] at hecn
  refine ⟨out, [], Nat.zero_le _, hout, ?_, rfl, t₁, hts ▸ by simp, t₂, hts ▸ by simp, hstop₁,
    hstop₂, hecn⟩
  rw [houtpay, hcount]
  exact hfresh.payload

def dctcp_plane (ecn_k : ℕ) : DataPlane (.dctcp ecn_k) where
  ledger := dctcp_ledger ecn_k
  opens := dctcp_ledger_opens ecn_k
  Brings notes index k hops ecn := hops = [] ∧ Mark ecn_k notes index k ecn
  mono h hnotes := ⟨h.1, h.2.mono hnotes⟩
  arrives h _ _ hi hplace _ hsource _ horiginal _ _ _ hfresh :=
    no_entry h hi hplace hsource horiginal hfresh

/-- What the controller loads. -/
def plane : (algo : Algo) → DataPlane algo
  | .dctcp ecn_k => dctcp_plane ecn_k
  | .hpcc => hpcc_plane

end IntHpcc.DataPlanes
