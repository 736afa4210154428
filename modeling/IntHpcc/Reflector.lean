/-
`receiver/reflector.py`: the receiver answers every data packet with an ACK of its
own.

`build_ack` is the whole of the receiver's protocol logic: it is called once per
received datagram, looks at nothing but that datagram, and keeps no state. In
particular `ack_seq` is the sequence number of the packet being answered and not
of the last packet received in order; what the senders make of that number is in
`AckSafety.lean`.
-/
import IntHpcc.PacketFormat

set_option autoImplicit false

namespace IntHpcc.Reflector

open IntHpcc.Bytes IntHpcc.Py IntHpcc.PacketFormat

/-- The CE codepoint of the IPv4 ECN field. -/
def ECN_CE : ℕ := 3

/-- `sock.recvmsg(2048, _ANCBUF)`: at most this much of a datagram is read. -/
def RECV_BUF : ℕ := 2048

/-- `_build_ack`; `recv_ts_us` is the reading of `_now_us()` it takes. -/
def build_ack (payload : List Byte) (ecn_codepoint : ℕ) (recv_ts_us : Us) :
    Except PyError (Option (List Byte)) := do
  if payload.length < SHIM_SIZE then
    return none
  let shim ← Shim.unpack payload
  if shim.hop_count > MAX_HOPS then
    return none
  let hops_size := shim.hop_count.toNat * INT_HOP_SIZE
  let data_off := SHIM_SIZE + hops_size
  if payload.length < data_off + DATA_PAYLOAD_SIZE then
    return none
  let hops_blob := slice payload SHIM_SIZE hops_size
  let data ← DataPayload.unpack (slice payload data_off DATA_PAYLOAD_SIZE)
  let out_shim : Shim := {
    flags := if ecn_codepoint = ECN_CE then SHIM_FLAG_ECN_ECHO else 0
    hop_count := shim.hop_count
    max_hops := shim.max_hops
    reserved := shim.reserved }
  let ack : AckPayload := { ack_seq := data.seq, recv_ts_us := recv_ts_us.val }
  let s ← out_shim.pack
  let p ← ack.pack
  return some (s ++ hops_blob ++ p)

/-- One item of `ancdata`. -/
structure Cmsg where
  level : ℕ
  type_ : ℕ
  data : List Byte

def IPPROTO_IP : ℕ := 0

/-- `_read_ecn`; `ip_tos` is `_IP_TOS`, `None` on a platform that does not have it. -/
def read_ecn (ip_tos : Option ℕ) (ancdata : List Cmsg) : ℕ :=
  match ip_tos with
  | none => 0
  | some ip_tos =>
    match ancdata.find? fun c => c.level = IPPROTO_IP ∧ c.type_ = ip_tos ∧ c.data ≠ [] with
    | none => 0
    | some c => (c.data.getD 0 0).toNat &&& 3

/-- What `run_reflector` sends back for one datagram. -/
def reflect (ip_tos : Option ℕ) (datagram : List Byte) (ancdata : List Cmsg) (recv_ts_us : Us) :
    Except PyError (Option (List Byte)) :=
  build_ack (datagram.take RECV_BUF) (read_ecn ip_tos ancdata) recv_ts_us

/-- The ACK's shim: the packet's, with the flags replaced by the ECN echo. -/
def out_shim (shim : Shim) (ecn_codepoint : ℕ) : Shim :=
  { shim with flags := if ecn_codepoint = ECN_CE then SHIM_FLAG_ECN_ECHO else 0 }

/-- Replacing the flags by the echo keeps a shim packable. -/
theorem out_shim_pack {shim : Shim} {s : List Byte} (h : shim.pack = .ok s)
    (ecn_codepoint : ℕ) : ∃ s', (out_shim shim ecn_codepoint).pack = .ok s' := by
  unfold Shim.pack at h
  obtain ⟨f, -, h⟩ := bind_eq_ok.mp h
  obtain ⟨c, hc, h⟩ := bind_eq_ok.mp h
  obtain ⟨m, hm, h⟩ := bind_eq_ok.mp h
  obtain ⟨r, hr, -⟩ := bind_eq_ok.mp h
  have hflags : ∃ f', pack_uint 1 (out_shim shim ecn_codepoint).flags = .ok f' := by
    simp only [out_shim]
    split
    · exact ⟨_, pack_uint_of_range (by decide) (by decide)⟩
    · exact ⟨_, pack_uint_of_range (by decide) (by decide)⟩
  obtain ⟨f', hf'⟩ := hflags
  refine ⟨f' ++ c ++ m ++ r, ?_⟩
  rw [Shim.pack, hf']
  simp only [out_shim, hc, hm, hr, ok_bind]
  rfl

/-- The payload of an ACK is packable as soon as the packet's was: the sequence
number is the packet's own and the clock fits. -/
theorem ack_payload_pack {d : DataPayload} {p : List Byte} (h : d.pack = .ok p) (t : Us) :
    ∃ p', AckPayload.pack { ack_seq := d.seq, recv_ts_us := t.val } = .ok p' := by
  unfold DataPayload.pack pack_iqi at h
  obtain ⟨x, hx, -⟩ := bind_eq_ok.mp h
  have hz : pack_uint 4 0 = .ok (be 4 0) := pack_uint_of_range (by norm_num) (by norm_num)
  refine ⟨x ++ be 8 t.val ++ be 4 0, ?_⟩
  rw [AckPayload.pack, pack_iqi]
  simp only [hx, pack_uint_us, hz, ok_bind]
  rfl

/-- **What the reflector answers.** A payload made of a shim that counts its hops, at
most `MAX_HOPS` hops, a data payload and any tail gets an ACK: the same shim up to
the flags, the same hop bytes, and the sequence number of this very packet. -/
theorem build_ack_spec {shim : Shim} {hops : List IntHop} {data : DataPayload}
    {s b p : List Byte} (hs : shim.pack = .ok s) (hb : pack_hops hops = .ok b)
    (hp : data.pack = .ok p) (hcount : shim.hop_count = hops.length)
    (hmax : hops.length ≤ MAX_HOPS) (tail : List Byte) (ecn_codepoint : ℕ) (t : Us) :
    ∃ s' p', (out_shim shim ecn_codepoint).pack = .ok s' ∧
      AckPayload.pack { ack_seq := data.seq, recv_ts_us := t.val } = .ok p' ∧
      build_ack (s ++ b ++ p ++ tail) ecn_codepoint t = .ok (some (s' ++ b ++ p')) := by
  obtain ⟨hls, hus⟩ := Shim.unpack_pack hs
  obtain ⟨hlb, -⟩ := unpack_hops_pack hb
  obtain ⟨hlp, hup⟩ := DataPayload.unpack_pack hp
  obtain ⟨s', hs'⟩ := out_shim_pack hs ecn_codepoint
  obtain ⟨p', hp'⟩ := ack_payload_pack hp t
  refine ⟨s', p', hs', hp', ?_⟩
  have hshim : Shim.unpack (s ++ b ++ p ++ tail) = .ok shim := by
    rw [List.append_assoc, List.append_assoc]
    exact hus _
  have hblob : slice (s ++ b ++ p ++ tail) SHIM_SIZE (hops.length * INT_HOP_SIZE) = b := by
    rw [List.append_assoc, List.append_assoc]
    exact slice_mid hls hlb
  have hdata : slice (s ++ b ++ p ++ tail) (SHIM_SIZE + hops.length * INT_HOP_SIZE)
      DATA_PAYLOAD_SIZE = p := by
    rw [List.append_assoc]
    exact slice_mid (by rw [List.length_append, hls, hlb]) hlp
  have hself : DataPayload.unpack p = .ok data := by simpa using hup []
  have hn : shim.hop_count.toNat = hops.length := by rw [hcount]; simp
  -- the three guards of the source, all false here
  have g₁ : ¬ (s ++ b ++ p ++ tail).length < SHIM_SIZE := by
    simp only [List.length_append, hls]
    omega
  have g₂ : ¬ shim.hop_count > MAX_HOPS := by
    rw [hcount]
    omega
  have g₃ : ¬ (s ++ b ++ p ++ tail).length
      < SHIM_SIZE + hops.length * INT_HOP_SIZE + DATA_PAYLOAD_SIZE := by
    simp only [List.length_append, hls, hlb, hlp]
    omega
  rw [build_ack, if_neg g₁]
  simp only [hshim, ok_bind, if_neg g₂, hn, if_neg g₃, hblob, hdata, hself]
  have hs'' := hs'
  unfold out_shim at hs''
  rw [hs'', hp']
  rfl

/-- The ACK packet that answers a data packet. -/
def answer (d : DataPacket) (ecn_codepoint : ℕ) (recv_ts_us : Us) : AckPacket where
  shim := out_shim d.shim ecn_codepoint
  hops := d.hops
  payload := { ack_seq := d.payload.seq, recv_ts_us := recv_ts_us.val }

/-- A packed data packet, padded or not, is answered by a packed ACK packet. -/
theorem build_ack_pack {d : DataPacket} {bs : List Byte} (h : d.pack = .ok bs)
    (tail : List Byte) (ecn_codepoint : ℕ) (t : Us) :
    ∃ ack, (answer d ecn_codepoint t).pack = .ok ack ∧
      build_ack (bs ++ tail) ecn_codepoint t = .ok (some ack) := by
  obtain ⟨hmax, s, b, p, hs, hb, hp, rfl⟩ := packet_pack_spec h
  obtain ⟨s', p', hs', hp', hack⟩ := build_ack_spec hs hb hp rfl hmax tail ecn_codepoint t
  refine ⟨s' ++ b ++ p', ?_, hack⟩
  exact packet_pack_of_parts hmax hs' hb hp'

end IntHpcc.Reflector
