/-
The ACK on both ends: what the reflector makes of any byte string, and what the six
decoders make of any byte string.

`build_ack` is total: it answers exactly the payloads that hold a shim, at most `MAX_HOPS`
hops as counted by it, and a data payload, and the answer is decoded to what the payload
says (`echo_exact`). The decoders bound the hop count each in its own way, by 4, by 8 or
not at all; on a byte string that claims more than `MAX_HOPS` hops and is long enough for
them they disagree, and on no other (`all_agree_iff`).
-/
import IntHpcc.WireFormat
import IntHpcc.Reflector
import IntHpcc.Dctcp

set_option autoImplicit false

namespace IntHpcc.PacketFormat

open IntHpcc.Bytes IntHpcc.Py

/-! ## What the shim says -/

/-- The hop count in a packet, as a number. -/
def hop_count (b : List Byte) : ℕ := (b.getD 1 0).toNat

/-- Long enough for the shim, the hops it counts and a payload. -/
def LongEnough (b : List Byte) : Prop :=
  SHIM_SIZE + hop_count b * INT_HOP_SIZE + ACK_PAYLOAD_SIZE ≤ b.length

instance (b : List Byte) : Decidable (LongEnough b) :=
  inferInstanceAs (Decidable (_ ≤ b.length))

theorem of_bytes_hop_count {b : List Byte} (h : SHIM_SIZE ≤ b.length) :
    (Shim.of_bytes b).hop_count.toNat = hop_count b := by
  simp only [SHIM_SIZE] at h
  have hlt : 1 < b.length := by omega
  rw [Shim.of_bytes, unpack_byte (List.getElem?_eq_getElem hlt), Int.toNat_natCast, hop_count,
    List.getD_eq_getElem?_getD, List.getElem?_eq_getElem hlt, Option.getD_some]

end IntHpcc.PacketFormat

namespace IntHpcc.Hpcc

open IntHpcc.Bytes IntHpcc.Py IntHpcc.PacketFormat

/-- What `_parse_ack` makes of the three parts of an ACK. -/
theorem parse_ack_parts {shim : Shim} {hops : List IntHop} {ack : AckPayload}
    {s b p : List Byte} (hs : shim.pack = .ok s) (hb : pack_hops hops = .ok b)
    (hp : ack.pack = .ok p) (hcount : shim.hop_count = hops.length)
    (hmax : hops.length ≤ MAX_HOPS) :
    parse_ack (s ++ b ++ p) = .ok (some (shim, hops, ack)) := by
  obtain ⟨hls, hus⟩ := Shim.unpack_pack hs
  obtain ⟨hlb, hub⟩ := unpack_hops_pack hb
  obtain ⟨hlp, hup⟩ := AckPayload.unpack_pack hp
  simp only [MAX_HOPS] at hmax
  have hshim : Shim.unpack (s ++ b ++ p) = .ok shim := by
    rw [List.append_assoc]
    exact hus _
  have hhops : unpack_hops (s ++ b ++ p) hops.length SHIM_SIZE = .ok hops := by
    rw [List.append_assoc, ← hls]
    exact hub s p
  have hack : slice (s ++ b ++ p) (SHIM_SIZE + hops.length * INT_HOP_SIZE) ACK_PAYLOAD_SIZE
      = p := by
    have h := slice_mid (p := s ++ b) (x := p) (q := []) (by rw [List.length_append, hls, hlb]) hlp
    rwa [List.append_nil] at h
  have hself : AckPayload.unpack p = .ok ack := by simpa using hup []
  have hn : shim.hop_count.toNat = hops.length := by rw [hcount, Int.toNat_natCast]
  -- both length checks of the source pass
  have g₁ : ¬ (s ++ b ++ p).length < SHIM_SIZE := by
    simp only [List.length_append, hls]
    omega
  have g₂ : ¬ (hops.length > 8 ∨
      (s ++ b ++ p).length < SHIM_SIZE + hops.length * INT_HOP_SIZE + ACK_PAYLOAD_SIZE) := by
    simp only [List.length_append, hls, hlb, hlp]
    omega
  unfold parse_ack
  simp only [if_neg g₁, hshim, ok_bind, hn, if_neg g₂, hhops, hack, hself]
  rfl

end IntHpcc.Hpcc

namespace IntHpcc.Dctcp

open IntHpcc.Bytes IntHpcc.Py IntHpcc.PacketFormat

/-- What the DCTCP listener makes of the three parts of an ACK; it skips the hops. -/
theorem read_ack_parts {shim : Shim} {ack : AckPayload} {s b p : List Byte} {n : ℕ}
    (hs : shim.pack = .ok s) (hb : b.length = n * INT_HOP_SIZE) (hp : ack.pack = .ok p)
    (hcount : shim.hop_count = n) (hmax : n ≤ MAX_HOPS) :
    read_ack (s ++ b ++ p) = .ok (some (shim, ack)) := by
  obtain ⟨hls, hus⟩ := Shim.unpack_pack hs
  obtain ⟨hlp, hup⟩ := AckPayload.unpack_pack hp
  have hlen : (s ++ b ++ p).length = SHIM_SIZE + n * INT_HOP_SIZE + ACK_PAYLOAD_SIZE := by
    simp only [List.length_append, hls, hb, hlp]
  -- `recvfrom(2048)` does not cut it off
  have hfits : (s ++ b ++ p).take 2048 = s ++ b ++ p := by
    apply List.take_of_length_le
    simp only [hlen, SHIM_SIZE, INT_HOP_SIZE, ACK_PAYLOAD_SIZE, MAX_HOPS] at *
    omega
  have hshim : Shim.unpack (s ++ b ++ p) = .ok shim := by
    rw [List.append_assoc]
    exact hus _
  -- with the hops skipped, not parsed
  have hack : slice (s ++ b ++ p) (SHIM_SIZE + n * INT_HOP_SIZE) ACK_PAYLOAD_SIZE = p := by
    have h := slice_mid (p := s ++ b) (x := p) (q := []) (by rw [List.length_append, hls, hb]) hlp
    rwa [List.append_nil] at h
  have hself : AckPayload.unpack p = .ok ack := by simpa using hup []
  have hn : shim.hop_count.toNat = n := by rw [hcount, Int.toNat_natCast]
  have g₁ : ¬ (s ++ b ++ p).length < SHIM_SIZE := by omega
  have g₂ : ¬ (s ++ b ++ p).length < SHIM_SIZE + n * INT_HOP_SIZE + ACK_PAYLOAD_SIZE := by omega
  unfold read_ack
  simp only [hfits, if_neg g₁, hshim, ok_bind, hn, if_neg g₂, hack, hself]
  rfl

end IntHpcc.Dctcp

namespace IntHpcc.Reflector

open IntHpcc.Bytes IntHpcc.Py IntHpcc.PacketFormat

/-! ## The reflector -/

/-- What the reflector drops. -/
def Malformed (b : List Byte) : Prop :=
  b.length < SHIM_SIZE ∨ MAX_HOPS < hop_count b ∨
    b.length < SHIM_SIZE + hop_count b * INT_HOP_SIZE + DATA_PAYLOAD_SIZE

theorem build_ack_malformed {b : List Byte} (h : Malformed b) (ecn_codepoint : ℕ) (t : Us) :
    build_ack b ecn_codepoint t = .ok none := by
  unfold build_ack
  by_cases g₁ : b.length < SHIM_SIZE
  · rw [if_pos g₁]
    rfl
  · rw [if_neg g₁]
    have hshim := Shim.unpack_of_length (Nat.le_of_not_lt g₁)
    have hn := of_bytes_hop_count (Nat.le_of_not_lt g₁)
    simp only [hshim, ok_bind]
    by_cases g₂ : (Shim.of_bytes b).hop_count > MAX_HOPS
    · rw [if_pos g₂]
      rfl
    · rw [if_neg g₂]
      -- the only reason left is the length
      have hshort : b.length < SHIM_SIZE + (Shim.of_bytes b).hop_count.toNat * INT_HOP_SIZE +
          DATA_PAYLOAD_SIZE := by
        rw [hn]
        rcases h with h | h | h
        · exact absurd h g₁
        · omega
        · exact h
      rw [if_pos hshort]
      rfl

/-- The parts of a payload that is not malformed, and the tail. -/
theorem split_payload {b : List Byte} {n : ℕ}
    (h : SHIM_SIZE + n * INT_HOP_SIZE + DATA_PAYLOAD_SIZE ≤ b.length) :
    slice b 0 SHIM_SIZE ++ slice b SHIM_SIZE (n * INT_HOP_SIZE) ++
        slice b (SHIM_SIZE + n * INT_HOP_SIZE) DATA_PAYLOAD_SIZE ++
        b.drop (SHIM_SIZE + n * INT_HOP_SIZE + DATA_PAYLOAD_SIZE) = b := by
  generalize hfront : b.take (SHIM_SIZE + n * INT_HOP_SIZE + DATA_PAYLOAD_SIZE) = front
  have hlen : front.length = SHIM_SIZE + n * INT_HOP_SIZE + DATA_PAYLOAD_SIZE := by
    rw [← hfront, List.length_take, Nat.min_eq_left h]
  have hb : front ++ b.drop (SHIM_SIZE + n * INT_HOP_SIZE + DATA_PAYLOAD_SIZE) = b := by
    rw [← hfront, List.take_append_drop]
  have hparts : slice front 0 SHIM_SIZE ++ slice front SHIM_SIZE (n * INT_HOP_SIZE) ++
      slice front (SHIM_SIZE + n * INT_HOP_SIZE) DATA_PAYLOAD_SIZE = front := slice_packet hlen
  have hslice : ∀ off m, off + m ≤ SHIM_SIZE + n * INT_HOP_SIZE + DATA_PAYLOAD_SIZE →
      slice front off m = slice b off m := by
    intro off m hle
    rw [← hb, slice_append_left (hle.trans hlen.ge)]
  rw [hslice _ _ (by omega), hslice _ _ (by omega), hslice _ _ le_rfl] at hparts
  rw [hparts, hb]

/-- A payload that is not malformed: what is read from it, and the answer, part by part. -/
theorem build_ack_read {b : List Byte} (h : ¬ Malformed b) (ecn_codepoint : ℕ) (t : Us) :
    ∃ (data : DataPayload) (s' p' : List Byte),
      DataPayload.unpack (slice b (SHIM_SIZE + hop_count b * INT_HOP_SIZE) DATA_PAYLOAD_SIZE)
        = .ok data ∧
      (out_shim (Shim.of_bytes b) ecn_codepoint).pack = .ok s' ∧
      pack_hops (hops_at b (hop_count b) SHIM_SIZE)
        = .ok (slice b SHIM_SIZE (hop_count b * INT_HOP_SIZE)) ∧
      AckPayload.pack { ack_seq := data.seq, recv_ts_us := t.val } = .ok p' ∧
      (Shim.of_bytes b).hop_count = (hops_at b (hop_count b) SHIM_SIZE).length ∧
      (hops_at b (hop_count b) SHIM_SIZE).length ≤ MAX_HOPS ∧
      build_ack b ecn_codepoint t
        = .ok (some (s' ++ slice b SHIM_SIZE (hop_count b * INT_HOP_SIZE) ++ p')) := by
  simp only [Malformed, not_or, not_lt] at h
  obtain ⟨hlen, hmax, hlong⟩ := h
  have hn := of_bytes_hop_count hlen
  have hcount : (Shim.of_bytes b).hop_count = (hops_at b (hop_count b) SHIM_SIZE).length := by
    have hnonneg : 0 ≤ (Shim.of_bytes b).hop_count := unpack_uint_nonneg _
    rw [hops_at, List.length_map, List.length_range, ← hn, Int.toNat_of_nonneg hnonneg]
  have hle : (hops_at b (hop_count b) SHIM_SIZE).length ≤ MAX_HOPS := by
    rwa [hops_at, List.length_map, List.length_range]
  have hbyte : b[1]? = some (b.getD 1 0) := by
    simp only [SHIM_SIZE] at hlen
    have hlt : 1 < b.length := by omega
    rw [List.getD_eq_getElem?_getD, List.getElem?_eq_getElem hlt, Option.getD_some]
  obtain ⟨data, hdata, hpack, -⟩ := DataPacket.unpack_eq hbyte hlong
  have hhops : pack_hops (hops_at b (hop_count b) SHIM_SIZE)
      = .ok (slice b SHIM_SIZE (hop_count b * INT_HOP_SIZE)) := pack_hops_at (by omega)
  obtain ⟨s', p', hs', hp', hack⟩ := build_ack_spec (Shim.pack_of_bytes hlen) hhops hpack hcount
    hle (b.drop (SHIM_SIZE + hop_count b * INT_HOP_SIZE + DATA_PAYLOAD_SIZE)) ecn_codepoint t
  -- a payload that is not malformed is the four parts and what is behind them
  have hsame := congrArg (fun b => build_ack b ecn_codepoint t) (split_payload hlong)
  exact ⟨data, s', p', hdata, hs', hhops, hp', hcount, hle, hsame.symm.trans hack⟩

/-- The first byte of a packed shim. -/
theorem pack_flags {s : Shim} {bs : List Byte} (h : s.pack = .ok bs) :
    bs[0]? = some (BitVec.ofNat 8 s.flags.toNat) := by
  unfold Shim.pack at h
  obtain ⟨f, hf, h⟩ := bind_eq_ok.mp h
  obtain ⟨c, -, h⟩ := bind_eq_ok.mp h
  obtain ⟨m, -, h⟩ := bind_eq_ok.mp h
  obtain ⟨r, -, h⟩ := bind_eq_ok.mp h
  obtain rfl := pure_eq_ok.mp h
  obtain ⟨-, rfl⟩ := pack_uint_eq_ok.mp hf
  simp [be]

/-- **The echo is total and exact.** Whatever the bytes and the codepoint, nothing raises;
exactly the malformed payloads get no answer; and every answer has the right length, the
payload's own hop bytes and nothing of its flags, and is decoded to the hops and the
sequence number of the payload. -/
theorem echo_exact (b : List Byte) (ecn_codepoint : ℕ) (recv_ts_us : Us) :
    ∃ r, build_ack b ecn_codepoint recv_ts_us = .ok r ∧ (r = none ↔ Malformed b) ∧
      ∀ ack, r = some ack →
        ack.length = SHIM_SIZE + hop_count b * INT_HOP_SIZE + ACK_PAYLOAD_SIZE ∧
        slice ack SHIM_SIZE (hop_count b * INT_HOP_SIZE)
          = slice b SHIM_SIZE (hop_count b * INT_HOP_SIZE) ∧
        ack[0]? = some (if ecn_codepoint = ECN_CE then 1#8 else 0#8) ∧
        ∃ shim hops payload data, Hpcc.parse_ack ack = .ok (some (shim, hops, payload)) ∧
          hops.length = hop_count b ∧
          (∀ i hop, hops[i]? = some hop →
            IntHop.unpack (slice b (SHIM_SIZE + i * INT_HOP_SIZE) INT_HOP_SIZE) = .ok hop) ∧
          DataPayload.unpack
              (slice b (SHIM_SIZE + hop_count b * INT_HOP_SIZE) DATA_PAYLOAD_SIZE) = .ok data ∧
          payload.ack_seq = data.seq := by
  by_cases h : Malformed b
  · exact ⟨none, build_ack_malformed h _ _, iff_of_true rfl h, nofun⟩
  · obtain ⟨data, s', p', hdata, hs', hhops, hp', hcount, hle, hack⟩ :=
      build_ack_read h ecn_codepoint recv_ts_us
    refine ⟨_, hack, iff_of_false nofun h, ?_⟩
    intro ack heq
    rw [← Option.some.inj heq]
    obtain ⟨hls, -⟩ := Shim.unpack_pack hs'
    obtain ⟨hlb, -⟩ := unpack_hops_pack hhops
    obtain ⟨hlp, -⟩ := AckPayload.unpack_pack hp'
    have hn : (hops_at b (hop_count b) SHIM_SIZE).length = hop_count b := by simp [hops_at]
    rw [hn] at hlb
    refine ⟨?_, ?_, ?_, ?_⟩
    · simp only [List.length_append, hls, hlb, hlp]
    · rw [List.append_assoc]
      exact slice_mid hls hlb
    · -- the flags of the payload are gone: the first byte is the echo alone
      have hflags := pack_flags hs'
      simp only [SHIM_SIZE] at hls
      rw [List.append_assoc, List.getElem?_append_left (by omega), hflags]
      simp only [out_shim]
      by_cases hce : ecn_codepoint = ECN_CE
      · rw [if_pos hce, if_pos hce]
        rfl
      · rw [if_neg hce, if_neg hce]
        rfl
    · refine ⟨_, _, _, data, Hpcc.parse_ack_parts hs' hhops hp' hcount hle, hn, ?_, hdata, rfl⟩
      intro i hop hi
      obtain ⟨hlt, hget⟩ := List.getElem?_eq_some_iff.mp hi
      rw [hn] at hlt
      simp only [Malformed, not_or, not_lt] at h
      -- a hop of the list lies within the payload
      have hroom : SHIM_SIZE + i * INT_HOP_SIZE + INT_HOP_SIZE ≤ b.length := by
        have hmul : (i + 1) * INT_HOP_SIZE ≤ hop_count b * INT_HOP_SIZE :=
          Nat.mul_le_mul_right _ hlt
        rw [Nat.succ_mul] at hmul
        omega
      rw [IntHop.unpack_of_length (slice_length hroom).ge, ← hget]
      simp [hops_at]

end IntHpcc.Reflector

namespace IntHpcc.OpenLoop

open IntHpcc.Bytes IntHpcc.Py IntHpcc.PacketFormat

/-- `sock.recvfrom(4096)`. -/
def RECV_BUF : ℕ := 4096

/-- What `open_loop._ack_listener` reads out of one datagram: the shim and the payload,
unless the datagram is too short. The hops are skipped. -/
def read_ack (data : List Byte) : Except PyError (Option (Shim × AckPayload)) := do
  let data := data.take RECV_BUF
  if data.length < SHIM_SIZE then
    return none
  let shim ← Shim.unpack data
  let hops_size := shim.hop_count.toNat * INT_HOP_SIZE
  let ack_off := SHIM_SIZE + hops_size
  if data.length < ack_off + ACK_PAYLOAD_SIZE then
    return none
  let ack ← AckPayload.unpack (slice data ack_off ACK_PAYLOAD_SIZE)
  return some (shim, ack)

end IntHpcc.OpenLoop

namespace IntHpcc.AckFormat

open IntHpcc.Bytes IntHpcc.Py IntHpcc.PacketFormat IntHpcc.CSender

/-! ## The decoders

A well-formed ACK is at most 124 bytes long, so it fits every receive buffer. -/

theorem slice_take {b : List Byte} {off n r : ℕ} (h : off + n ≤ r) :
    slice (b.take r) off n = slice b off n := by
  rw [slice, slice, List.drop_take, List.take_take, Nat.min_eq_left (by omega)]

/-- A receive buffer cuts a datagram off. -/
theorem hop_count_take (b : List Byte) {r : ℕ} (h : 2 ≤ r) : hop_count (b.take r) = hop_count b := by
  rw [hop_count, hop_count, List.getD_eq_getElem?_getD, List.getD_eq_getElem?_getD,
    List.getElem?_take_of_lt (by omega)]

theorem longEnough_take {b : List Byte} {r : ℕ} (h : 2 ≤ r) (hlong : LongEnough (b.take r)) :
    LongEnough b := by
  unfold LongEnough at hlong ⊢
  rw [hop_count_take b h, List.length_take] at hlong
  omega

theorem take_of_longEnough {b : List Byte} {r : ℕ} (h : 124 ≤ r) (hlong : LongEnough b)
    (hmax : hop_count b ≤ MAX_HOPS) : LongEnough (b.take r) := by
  unfold LongEnough at hlong ⊢
  rw [hop_count_take b (by omega), List.length_take]
  simp only [SHIM_SIZE, INT_HOP_SIZE, ACK_PAYLOAD_SIZE, MAX_HOPS] at *
  omega

/-- The shim, the hops and the payload of a byte string. -/
def shim_of (b : List Byte) : Shim := Shim.of_bytes b

def hops_of (b : List Byte) : List IntHop := hops_at b (hop_count b) SHIM_SIZE

def ack_of (b : List Byte) : AckPayload :=
  let buf := slice b (SHIM_SIZE + hop_count b * INT_HOP_SIZE) ACK_PAYLOAD_SIZE
  ⟨unpack_uint (slice buf 0 4), unpack_uint (slice buf 4 8), unpack_uint (slice buf 12 4)⟩

theorem shim_size_le {b : List Byte} (h : LongEnough b) : SHIM_SIZE ≤ b.length := by
  unfold LongEnough at h
  omega

/-- The length check of the listeners. -/
theorem length_check {b : List Byte} (h : SHIM_SIZE ≤ b.length) :
    b.length < SHIM_SIZE + (Shim.of_bytes b).hop_count.toNat * INT_HOP_SIZE + ACK_PAYLOAD_SIZE ↔
      ¬ LongEnough b := by
  rw [of_bytes_hop_count h, LongEnough, not_le]

theorem unpack_ack_of {b : List Byte} (h : LongEnough b) :
    AckPayload.unpack (slice b (SHIM_SIZE + (Shim.of_bytes b).hop_count.toNat * INT_HOP_SIZE)
      ACK_PAYLOAD_SIZE) = .ok (ack_of b) := by
  rw [of_bytes_hop_count (shim_size_le h)]
  exact if_pos (slice_length (slice_length h).ge)

/-- `_parse_ack` bounds the count by 8. -/
theorem parse_ack_eq (b : List Byte) :
    Hpcc.parse_ack b = .ok (if LongEnough b ∧ hop_count b ≤ 8
      then some (shim_of b, hops_of b, ack_of b) else none) := by
  unfold Hpcc.parse_ack
  by_cases g₁ : b.length < SHIM_SIZE
  · have hshort : ¬ LongEnough b := fun h => absurd (shim_size_le h) (by omega)
    rw [if_pos g₁, if_neg fun h => hshort h.1]
    rfl
  · have hlen := Nat.le_of_not_lt g₁
    have hcheck := length_check hlen
    rw [if_neg g₁, Shim.unpack_of_length hlen]
    simp only [ok_bind]
    by_cases g₂ : LongEnough b ∧ hop_count b ≤ 8
    · have hpass : ¬ ((Shim.of_bytes b).hop_count.toNat > 8 ∨ b.length < SHIM_SIZE +
          (Shim.of_bytes b).hop_count.toNat * INT_HOP_SIZE + ACK_PAYLOAD_SIZE) := by
        rw [hcheck, of_bytes_hop_count hlen, not_or, not_not, not_lt]
        exact ⟨g₂.2, g₂.1⟩
      have hroom : SHIM_SIZE + (Shim.of_bytes b).hop_count.toNat * INT_HOP_SIZE ≤ b.length := by
        omega
      rw [if_neg hpass, if_pos g₂, unpack_hops_eq hroom, unpack_ack_of g₂.1,
        of_bytes_hop_count hlen]
      rfl
    · -- the two tests of the source are one condition on the length and the count
      have hstop : (Shim.of_bytes b).hop_count.toNat > 8 ∨ b.length < SHIM_SIZE +
          (Shim.of_bytes b).hop_count.toNat * INT_HOP_SIZE + ACK_PAYLOAD_SIZE := by
        rw [hcheck, of_bytes_hop_count hlen, gt_iff_lt, ← not_le]
        tauto
      rw [if_pos hstop, if_neg g₂]
      rfl

/-- What both other listeners do with what is in their buffer: no bound on the count. -/
theorem read_shim_ack (buf : List Byte) :
    (do
      if buf.length < SHIM_SIZE then
        return none
      let shim ← Shim.unpack buf
      let hops_size := shim.hop_count.toNat * INT_HOP_SIZE
      let ack_off := SHIM_SIZE + hops_size
      if buf.length < ack_off + ACK_PAYLOAD_SIZE then
        return none
      let ack ← AckPayload.unpack (slice buf ack_off ACK_PAYLOAD_SIZE)
      return some (shim, ack) : Except PyError (Option (Shim × AckPayload)))
      = .ok (if LongEnough buf then some (shim_of buf, ack_of buf) else none) := by
  by_cases g₁ : buf.length < SHIM_SIZE
  · have hshort : ¬ LongEnough buf := fun h => absurd (shim_size_le h) (by omega)
    rw [if_pos g₁, if_neg hshort]
    rfl
  · have hlen := Nat.le_of_not_lt g₁
    rw [if_neg g₁, Shim.unpack_of_length hlen]
    simp only [ok_bind, length_check hlen]
    by_cases g₂ : LongEnough buf
    · rw [if_neg (not_not.mpr g₂), if_pos g₂, unpack_ack_of g₂]
      rfl
    · rw [if_pos g₂, if_neg g₂]
      rfl

theorem dctcp_read_ack_eq (b : List Byte) :
    Dctcp.read_ack b = .ok (if LongEnough (b.take 2048)
      then some (shim_of (b.take 2048), ack_of (b.take 2048)) else none) :=
  read_shim_ack (b.take 2048)

theorem open_loop_read_ack_eq (b : List Byte) :
    OpenLoop.read_ack b = .ok (if LongEnough (b.take OpenLoop.RECV_BUF)
      then some (shim_of (b.take OpenLoop.RECV_BUF), ack_of (b.take OpenLoop.RECV_BUF))
      else none) :=
  read_shim_ack (b.take OpenLoop.RECV_BUF)

/-- `AckPacket.unpack` does not bound it at all, and raises when bytes are missing. -/
theorem unpack_ack_packet (b : List Byte) :
    (LongEnough b → AckPacket.unpack b = .ok ⟨shim_of b, hops_of b, ack_of b⟩) ∧
      (¬ LongEnough b → ∃ e, AckPacket.unpack b = .error e) := by
  constructor
  · intro h
    have hlen := shim_size_le h
    have hroom : SHIM_SIZE + (Shim.of_bytes b).hop_count.toNat * INT_HOP_SIZE ≤ b.length := by
      rw [of_bytes_hop_count hlen]
      unfold LongEnough at h
      omega
    rw [AckPacket.unpack, Shim.unpack_of_length hlen, ok_bind, unpack_hops_eq hroom, ok_bind,
      unpack_ack_of h, of_bytes_hop_count hlen]
    rfl
  · intro h
    cases hu : AckPacket.unpack b with
    | error e => exact ⟨e, rfl⟩
    | ok a =>
        -- the payload's own length check
        unfold AckPacket.unpack at hu
        obtain ⟨shim, hshim, hu⟩ := bind_eq_ok.mp hu
        obtain ⟨hops, -, hu⟩ := bind_eq_ok.mp hu
        obtain ⟨ack, hack, -⟩ := bind_eq_ok.mp hu
        unfold Shim.unpack at hshim
        unfold AckPayload.unpack at hack
        by_cases hs : (slice b 0 SHIM_SIZE).length = SHIM_SIZE
        · rw [if_pos hs, Except.ok.injEq] at hshim
          have hlen : SHIM_SIZE ≤ b.length := by
            rw [slice, List.length_take, List.drop_zero] at hs
            omega
          rw [← hshim, of_bytes_hop_count hlen] at hack
          by_cases hp : (slice (slice b (SHIM_SIZE + hop_count b * INT_HOP_SIZE)
              ACK_PAYLOAD_SIZE) 0 ACK_PAYLOAD_SIZE).length = ACK_PAYLOAD_SIZE
          · refine absurd ?_ h
            simp only [slice, List.length_take, List.length_drop, List.drop_zero,
              ACK_PAYLOAD_SIZE] at hp
            simp only [LongEnough, ACK_PAYLOAD_SIZE]
            omega
          · rw [if_neg hp] at hack
            cases hack
        · rw [if_neg hs] at hshim
          cases hshim

theorem of_be_byte {b : List Byte} (h : 2 ≤ b.length) : of_be (slice b 1 1) = hop_count b := by
  have hbyte := unpack_byte (List.getElem?_eq_getElem (by omega : 1 < b.length))
  rw [hop_count, List.getD_eq_getElem?_getD, List.getElem?_eq_getElem (by omega : 1 < b.length),
    Option.getD_some]
  exact Int.ofNat_inj.mp hbyte

/-- The hops as the C listener decodes them. -/
def wire_hops (b : List Byte) : List IntHopHost :=
  (List.range (hop_count b)).map fun i => int_hop_decode (b.drop (SHIM_SIZE + i * INT_HOP_SIZE))

/-- The C listener bounds it by `MAX_HOPS`. -/
theorem decode_ack_eq (b : List Byte) :
    decode_ack b = if LongEnough (b.take RECV_BUF) ∧ hop_count (b.take RECV_BUF) ≤ MAX_HOPS
      then some ((ack_of (b.take RECV_BUF)).ack_seq.toNat, wire_hops (b.take RECV_BUF))
      else none := by
  unfold decode_ack
  dsimp only
  generalize b.take RECV_BUF = buf
  -- the C parser tests the length twice, without and with the hops
  by_cases g₁ : buf.length < SHIM_SIZE + ACK_PAYLOAD_SIZE
  · have hshort : ¬ LongEnough buf := by
      unfold LongEnough
      omega
    rw [if_pos g₁, if_neg fun h => hshort h.1]
  · have hlen : 2 ≤ buf.length := by
      simp only [SHIM_SIZE, ACK_PAYLOAD_SIZE] at g₁
      omega
    rw [if_neg g₁, of_be_byte hlen]
    by_cases g₂ : MAX_HOPS < hop_count buf
    · rw [if_pos g₂, if_neg fun h => absurd h.2 (not_le.mpr g₂)]
    · rw [if_neg g₂]
      by_cases g₃ : LongEnough buf
      · have hpass : ¬ buf.length
            < SHIM_SIZE + hop_count buf * INT_HOP_SIZE + ACK_PAYLOAD_SIZE := not_lt.mpr g₃
        rw [if_neg hpass, if_pos ⟨g₃, not_lt.mp g₂⟩, ack_of, slice_slice (by decide), unpack_uint,
          Int.toNat_natCast]
        rfl
      · have hstop : buf.length
            < SHIM_SIZE + hop_count buf * INT_HOP_SIZE + ACK_PAYLOAD_SIZE := not_le.mp g₃
        rw [if_pos hstop, if_neg fun h => g₃ h.1]

/-- The C decoder reads what the Python one reads. -/
theorem wire_hops_eq {b : List Byte} (h : LongEnough b) :
    (wire_hops b).map IntHopHost.hop = hops_of b := by
  rw [wire_hops, hops_of, hops_at, List.map_map]
  refine List.map_congr_left fun i hi => ?_
  have hroom : INT_HOP_SIZE ≤ (b.drop (SHIM_SIZE + i * INT_HOP_SIZE)).length := by
    have hmul : (i + 1) * INT_HOP_SIZE ≤ hop_count b * INT_HOP_SIZE :=
      Nat.mul_le_mul_right _ (List.mem_range.mp hi)
    rw [Nat.succ_mul] at hmul
    unfold LongEnough at h
    rw [List.length_drop]
    omega
  have hsame := (int_hop_decode_eq hroom).symm.trans (IntHop.unpack_of_length hroom)
  rw [Except.ok.injEq] at hsame
  rw [Function.comp_apply, hsame]
  -- a block's fields do not reach past it
  have hfield : ∀ off n, off + n ≤ INT_HOP_SIZE →
      slice (b.drop (SHIM_SIZE + i * INT_HOP_SIZE)) off n
        = slice (slice b (SHIM_SIZE + i * INT_HOP_SIZE) INT_HOP_SIZE) off n := by
    intro off n hle
    rw [slice_slice hle, slice, slice, List.drop_drop]
  unfold IntHop.of_bytes
  rw [hfield 0 2 (by decide), hfield 2 2 (by decide), hfield 4 2 (by decide),
    hfield 6 4 (by decide), hfield 10 6 (by decide), hfield 16 6 (by decide),
    hfield 22 4 (by decide)]

/-! ## One format -/

/-- What the decoders should agree on. -/
def WellFormed (b : List Byte) : Prop := LongEnough b ∧ hop_count b ≤ MAX_HOPS

/-- Each decoder accepts exactly the well-formed ACKs, and from these they read the same
shim (with the hop count and the ECN echo), the same hops and the same payload, as far as
they read them. `_parse_ack` is both HPCC senders'. -/
structure AllAgree (b : List Byte) : Prop where
  hpcc : (∃ r, Hpcc.parse_ack (b.take Hpcc.RECV_BUF) = .ok (some r)) ↔ WellFormed b
  dctcp : (∃ r, Dctcp.read_ack b = .ok (some r)) ↔ WellFormed b
  c : (∃ r, decode_ack b = some r) ↔ WellFormed b
  packet : (∃ a, AckPacket.unpack b = .ok a) ↔ WellFormed b
  open_loop : (∃ r, OpenLoop.read_ack b = .ok (some r)) ↔ WellFormed b
  fields : WellFormed b → ∃ shim hops ack ack_seq chops,
    Hpcc.parse_ack (b.take Hpcc.RECV_BUF) = .ok (some (shim, hops, ack)) ∧
    Dctcp.read_ack b = .ok (some (shim, ack)) ∧
    AckPacket.unpack b = .ok ⟨shim, hops, ack⟩ ∧
    OpenLoop.read_ack b = .ok (some (shim, ack)) ∧
    decode_ack b = some (ack_seq, chops) ∧
    hops.length = hop_count b ∧ shim.hop_count = hop_count b ∧
    chops.map IntHopHost.hop = hops ∧ (ack_seq : ℤ) = ack.ack_seq

/-- No receive buffer cuts off anything of an ACK with few hops. -/
theorem take_fields {b : List Byte} {r : ℕ} (h : 124 ≤ r) (hmax : hop_count b ≤ MAX_HOPS) :
    shim_of (b.take r) = shim_of b ∧ hops_of (b.take r) = hops_of b ∧
      ack_of (b.take r) = ack_of b := by
  simp only [MAX_HOPS] at hmax
  have hcount := hop_count_take b (by omega : 2 ≤ r)
  refine ⟨?_, ?_, ?_⟩
  · simp only [shim_of, Shim.of_bytes, slice_take (by omega : 0 + 1 ≤ r),
      slice_take (by omega : 1 + 1 ≤ r), slice_take (by omega : 2 + 1 ≤ r),
      slice_take (by omega : 3 + 1 ≤ r)]
  · rw [hops_of, hops_of, hops_at, hops_at, hcount]
    refine List.map_congr_left fun i hi => ?_
    have hlt := List.mem_range.mp hi
    rw [slice_take]
    simp only [SHIM_SIZE, INT_HOP_SIZE]
    omega
  · unfold ack_of
    rw [hcount, slice_take]
    simp only [SHIM_SIZE, INT_HOP_SIZE, ACK_PAYLOAD_SIZE]
    omega

/-- **All ACK consumers speak one format, exactly** on the byte strings that are too short
or count at most `MAX_HOPS` hops. -/
theorem all_agree_iff (b : List Byte) : AllAgree b ↔ ¬ LongEnough b ∨ hop_count b ≤ MAX_HOPS := by
  have hhpcc := parse_ack_eq (b.take Hpcc.RECV_BUF)
  have hdctcp := dctcp_read_ack_eq b
  have hc := decode_ack_eq b
  have hopen := open_loop_read_ack_eq b
  obtain ⟨hpacket, hpacket'⟩ := unpack_ack_packet b
  constructor
  · intro h
    by_contra hnot
    simp only [not_or, not_not] at hnot
    -- `AckPacket.unpack` accepts what is long enough
    exact hnot.2 (h.packet.mp ⟨_, hpacket hnot.1⟩).2
  · intro h
    by_cases hlong : LongEnough b
    · have hmax : hop_count b ≤ MAX_HOPS := h.resolve_left (not_not.mpr hlong)
      have hwell : WellFormed b := ⟨hlong, hmax⟩
      have hlong₁ : LongEnough (b.take Hpcc.RECV_BUF) :=
        take_of_longEnough (by decide) hlong hmax
      have hlong₂ : LongEnough (b.take 2048) := take_of_longEnough (by decide) hlong hmax
      have hlong₃ : LongEnough (b.take RECV_BUF) := take_of_longEnough (by decide) hlong hmax
      have hcount₁ := hop_count_take b (by decide : 2 ≤ Hpcc.RECV_BUF)
      have hcount₃ := hop_count_take b (by decide : 2 ≤ RECV_BUF)
      obtain ⟨hs₁, hh₁, ha₁⟩ := take_fields (by decide : 124 ≤ Hpcc.RECV_BUF) hmax
      obtain ⟨hs₂, -, ha₂⟩ := take_fields (by decide : 124 ≤ 2048) hmax
      obtain ⟨-, hh₃, ha₃⟩ := take_fields (by decide : 124 ≤ RECV_BUF) hmax
      obtain ⟨hs₄, -, ha₄⟩ := take_fields (by decide : 124 ≤ OpenLoop.RECV_BUF) hmax
      have hlong₄ : LongEnough (b.take OpenLoop.RECV_BUF) :=
        take_of_longEnough (by decide) hlong hmax
      have height : hop_count b ≤ 8 := hmax.trans (by decide)
      rw [if_pos ⟨hlong₁, hcount₁.trans_le height⟩, hs₁, hh₁, ha₁] at hhpcc
      rw [if_pos hlong₂, hs₂, ha₂] at hdctcp
      rw [if_pos ⟨hlong₃, hcount₃.trans_le hmax⟩, ha₃] at hc
      rw [if_pos hlong₄, hs₄, ha₄] at hopen
      have hchops := (wire_hops_eq hlong₃).trans hh₃
      refine ⟨iff_of_true ⟨_, hhpcc⟩ hwell, iff_of_true ⟨_, hdctcp⟩ hwell,
        iff_of_true ⟨_, hc⟩ hwell, iff_of_true ⟨_, hpacket hlong⟩ hwell,
        iff_of_true ⟨_, hopen⟩ hwell, fun _ => ⟨_, _, _, _, _, hhpcc, hdctcp, hpacket hlong,
          hopen, hc, ?_, ?_, hchops, ?_⟩⟩
      · simp [hops_of, hops_at]
      · rw [← of_bytes_hop_count (shim_size_le hlong)]
        exact (Int.toNat_of_nonneg (unpack_uint_nonneg _)).symm
      · exact Int.toNat_of_nonneg (unpack_uint_nonneg _)
    · have hill : ¬ WellFormed b := fun h => hlong h.1
      have hshort : ∀ r, 2 ≤ r → ¬ LongEnough (b.take r) := fun r hr h =>
        hlong (longEnough_take hr h)
      rw [if_neg fun h => hshort _ (by decide) h.1] at hhpcc
      rw [if_neg (hshort _ (by decide))] at hdctcp
      rw [if_neg fun h => hshort _ (by decide) h.1] at hc
      rw [if_neg (hshort _ (by decide))] at hopen
      obtain ⟨e, he⟩ := hpacket' hlong
      have hnone : ∀ {α : Type} {x : Except PyError (Option α)}, x = .ok none →
          ¬ ∃ r, x = .ok (some r) := by
        rintro α x rfl ⟨r, hr⟩
        cases hr
      refine ⟨iff_of_false (hnone hhpcc) hill, iff_of_false (hnone hdctcp) hill,
        iff_of_false ?_ hill, iff_of_false ?_ hill, iff_of_false (hnone hopen) hill,
        fun h => absurd h hill⟩
      · simp [hc]
      · simp [he]

/-- An ACK that claims five hops and holds them. -/
def five_hops : List Byte := [0, 5, 4, 0] ++ List.replicate (5 * INT_HOP_SIZE + 16) 0

/-- The C sender and the reflector's own bound reject it, the Python decoders do not. -/
theorem five_hops_disagree : ¬ AllAgree five_hops ∧ decode_ack five_hops = none ∧
    ∃ r, Dctcp.read_ack five_hops = .ok (some r) := by
  have hlong : LongEnough five_hops := by decide +kernel
  refine ⟨?_, ?_, ?_⟩
  · intro h
    exact absurd (h.packet.mp ⟨_, (unpack_ack_packet five_hops).1 hlong⟩).2 (by decide +kernel)
  · rw [decode_ack_eq, if_neg (by decide +kernel)]
  · refine ⟨(shim_of (five_hops.take 2048), ack_of (five_hops.take 2048)), ?_⟩
    rw [dctcp_read_ack_eq, if_pos (by decide +kernel)]

end IntHpcc.AckFormat
