/-
The wire format, in both directions and in both languages.

`PacketFormat.lean` has the codecs and what follows from a successful `pack`. Here is when
`pack` succeeds (`DataPacket.pack_ok_iff`: every field it writes fits, and there are at
most `MAX_HOPS` hops), what `unpack` makes of any byte string that is long enough, and
that writing back what was read gives the same bytes. `pack` writes its own hop count and
bound, so those two fields of the shim are neither checked nor kept.
-/
import IntHpcc.CHopTable

set_option autoImplicit false

namespace IntHpcc.PacketFormat

open IntHpcc.Bytes IntHpcc.Py

/-! ## Fields -/

/-- The value fits an unsigned field of `w` bits. -/
def Fits (w : ℕ) (v : ℤ) : Prop := 0 ≤ v ∧ v < 2 ^ w

instance (w : ℕ) (v : ℤ) : Decidable (Fits w v) :=
  inferInstanceAs (Decidable (0 ≤ v ∧ v < 2 ^ w))

theorem pack_uint_eq_ok {n : ℕ} {v : ℤ} {bs : List Byte} :
    pack_uint n v = .ok bs ↔ Fits (8 * n) v ∧ be n v.toNat = bs := by
  have hwidth : (256 : ℤ) ^ n = 2 ^ (8 * n) := by
    rw [pow_mul]
    norm_num
  unfold pack_uint Fits
  rw [hwidth]
  by_cases h : 0 ≤ v ∧ v < 2 ^ (8 * n)
  · simp [h]
  · simp [h]

theorem pack_u48_eq_ok {v : ℤ} {bs : List Byte} :
    pack_u48 v = .ok bs ↔ Fits 48 v ∧ be 6 v.toNat = bs := by
  unfold pack_u48
  by_cases h : Fits 48 v
  · have hr : 0 ≤ v ∧ v < 2 ^ 48 := h
    rw [if_pos hr]
    simp [h]
  · have hr : ¬ (0 ≤ v ∧ v < 2 ^ 48) := h
    rw [if_neg hr]
    simp [h]

/-- A `do` block succeeds as soon as its parts do. -/
theorem exists_bind_eq_ok {α β : Type} {x : Except PyError α} {f : α → Except PyError β} :
    (∃ r, x >>= f = .ok r) ↔ ∃ a, x = .ok a ∧ ∃ r, f a = .ok r := by
  constructor
  · rintro ⟨r, h⟩
    obtain ⟨a, ha, hr⟩ := bind_eq_ok.mp h
    exact ⟨a, ha, r, hr⟩
  · rintro ⟨a, ha, r, hr⟩
    exact ⟨r, bind_eq_ok.mpr ⟨a, ha, hr⟩⟩

/-- Writing back a field that was read. -/
theorem pack_uint_unpack {n : ℕ} {bs : List Byte} (h : bs.length = n) :
    pack_uint n (unpack_uint bs) = .ok bs := by
  rw [pack_uint_of_range (unpack_uint_nonneg bs) (h ▸ unpack_uint_lt bs)]
  rw [unpack_uint, Int.toNat_natCast, be_of_be_of_length h]

theorem pack_u48_unpack {bs : List Byte} (h : bs.length = 6) :
    pack_u48 (unpack_uint bs) = .ok bs := by
  have hlt : unpack_uint bs < 2 ^ 48 := by
    have := unpack_uint_lt bs
    rw [h] at this
    norm_num at this ⊢
    exact this
  rw [pack_u48, if_pos ⟨unpack_uint_nonneg bs, hlt⟩, unpack_uint, Int.toNat_natCast,
    be_of_be_of_length h]

/-! ## When `pack` succeeds -/

/-- What `pack` writes of a packet's shim fits; the two counters it sets itself. -/
structure Shim.FieldsFit (s : Shim) : Prop where
  flags : Fits 8 s.flags
  reserved : Fits 8 s.reserved

structure IntHop.FieldsFit (h : IntHop) : Prop where
  switch_id : Fits 16 h.switch_id
  ingress_port : Fits 16 h.ingress_port
  egress_port : Fits 16 h.egress_port
  qdepth : Fits 32 h.qdepth
  egress_tstamp_us : Fits 48 h.egress_tstamp_us
  tx_byte_count : Fits 48 h.tx_byte_count
  link_bps : Fits 32 h.link_bps

structure DataPayload.FieldsFit (p : DataPayload) : Prop where
  seq : Fits 32 p.seq
  send_ts_us : Fits 64 p.send_ts_us
  reserved : Fits 32 p.reserved

structure AckPayload.FieldsFit (p : AckPayload) : Prop where
  ack_seq : Fits 32 p.ack_seq
  recv_ts_us : Fits 64 p.recv_ts_us
  reserved : Fits 32 p.reserved

/-- A shim whose counters fit packs exactly when the other two fields do. -/
theorem Shim.pack_ok_iff (s : Shim) {n : ℕ} (h : n ≤ MAX_HOPS) :
    (∃ bs, Shim.pack { s with hop_count := n, max_hops := MAX_HOPS } = .ok bs) ↔
      s.FieldsFit := by
  have hn : Fits (8 * 1) (n : ℤ) := by
    simp only [MAX_HOPS] at h
    constructor
    · omega
    · norm_num
      omega
  have hmax : Fits (8 * 1) ((MAX_HOPS : ℕ) : ℤ) := by decide
  unfold Shim.pack
  simp only [exists_bind_eq_ok, pack_uint_eq_ok, and_assoc, exists_and_left, exists_eq_left',
    pure_eq_ok, exists_eq', hn, hmax, true_and, and_true]
  constructor
  · rintro ⟨hf, hr⟩
    exact ⟨hf, hr⟩
  · exact fun hs => ⟨hs.flags, hs.reserved⟩

theorem IntHop.pack_ok_iff (h : IntHop) : (∃ bs, h.pack = .ok bs) ↔ h.FieldsFit := by
  unfold IntHop.pack
  simp only [exists_bind_eq_ok, pack_uint_eq_ok, pack_u48_eq_ok, and_assoc, exists_and_left,
    exists_eq_left', pure_eq_ok, exists_eq', and_true]
  constructor
  · rintro ⟨ht, hx, hs, hi, he, hq, hl⟩
    exact ⟨hs, hi, he, hq, ht, hx, hl⟩
  · intro hf
    exact ⟨hf.egress_tstamp_us, hf.tx_byte_count, hf.switch_id, hf.ingress_port, hf.egress_port,
      hf.qdepth, hf.link_bps⟩

theorem pack_iqi_ok_iff (a b c : ℤ) :
    (∃ bs, pack_iqi a b c = .ok bs) ↔ Fits 32 a ∧ Fits 64 b ∧ Fits 32 c := by
  unfold pack_iqi
  simp only [exists_bind_eq_ok, pack_uint_eq_ok, and_assoc, exists_and_left, exists_eq_left',
    pure_eq_ok, exists_eq', and_true]

theorem pack_hops_ok_iff (hops : List IntHop) :
    (∃ bs, pack_hops hops = .ok bs) ↔ ∀ h ∈ hops, h.FieldsFit := by
  induction hops with
  | nil => simp [pack_hops]
  | cons h hops ih =>
      rw [List.forall_mem_cons, ← ih, ← h.pack_ok_iff, pack_hops]
      simp only [exists_bind_eq_ok, pure_eq_ok, exists_eq', and_true, exists_and_right]

/-- Either packet class packs exactly when its parts do. -/
theorem packet_pack_ok_iff (shim : Shim) (hops : List IntHop)
    (payload : Except PyError (List Byte)) :
    (∃ bs, packet_pack shim hops payload = .ok bs) ↔
      hops.length ≤ MAX_HOPS ∧ shim.FieldsFit ∧ (∀ h ∈ hops, h.FieldsFit) ∧
        ∃ p, payload = .ok p := by
  constructor
  · rintro ⟨bs, h⟩
    obtain ⟨hmax, s, b, p, hs, hb, hp, -⟩ := packet_pack_spec h
    exact ⟨hmax, (shim.pack_ok_iff hmax).mp ⟨s, hs⟩, (pack_hops_ok_iff hops).mp ⟨b, hb⟩, p, hp⟩
  · rintro ⟨hmax, hshim, hhops, p, hp⟩
    obtain ⟨s, hs⟩ := (shim.pack_ok_iff hmax).mpr hshim
    obtain ⟨b, hb⟩ := (pack_hops_ok_iff hops).mpr hhops
    exact ⟨_, packet_pack_of_parts hmax hs hb hp⟩

/-- Everything `pack` writes of a data packet fits. -/
structure DataPacket.FieldsFit (p : DataPacket) : Prop where
  le_max : p.hops.length ≤ MAX_HOPS
  shim : p.shim.FieldsFit
  hops : ∀ h ∈ p.hops, h.FieldsFit
  payload : p.payload.FieldsFit

/-- Everything `pack` writes of an ACK fits. -/
structure AckPacket.FieldsFit (p : AckPacket) : Prop where
  le_max : p.hops.length ≤ MAX_HOPS
  shim : p.shim.FieldsFit
  hops : ∀ h ∈ p.hops, h.FieldsFit
  payload : p.payload.FieldsFit

theorem DataPacket.pack_ok_iff (p : DataPacket) : (∃ bs, p.pack = .ok bs) ↔ p.FieldsFit := by
  unfold DataPacket.pack
  rw [packet_pack_ok_iff, DataPayload.pack, pack_iqi_ok_iff]
  constructor
  · rintro ⟨hmax, hshim, hhops, hseq, hts, hr⟩
    exact ⟨hmax, hshim, hhops, hseq, hts, hr⟩
  · intro h
    exact ⟨h.le_max, h.shim, h.hops, h.payload.seq, h.payload.send_ts_us, h.payload.reserved⟩

theorem AckPacket.pack_ok_iff (p : AckPacket) : (∃ bs, p.pack = .ok bs) ↔ p.FieldsFit := by
  unfold AckPacket.pack
  rw [packet_pack_ok_iff, AckPayload.pack, pack_iqi_ok_iff]
  constructor
  · rintro ⟨hmax, hshim, hhops, hseq, hts, hr⟩
    exact ⟨hmax, hshim, hhops, hseq, hts, hr⟩
  · intro h
    exact ⟨h.le_max, h.shim, h.hops, h.payload.ack_seq, h.payload.recv_ts_us, h.payload.reserved⟩

/-! ## Writing back what was read -/

theorem Shim.pack_of_bytes {buf : List Byte} (h : SHIM_SIZE ≤ buf.length) :
    (Shim.of_bytes buf).pack = .ok (slice buf 0 SHIM_SIZE) := by
  simp only [SHIM_SIZE] at h
  have hall : slice buf 0 SHIM_SIZE
      = slice buf 0 1 ++ slice buf 1 1 ++ slice buf 2 1 ++ slice buf 3 1 := by
    rw [← slice_add, ← slice_add, ← slice_add]
    rfl
  unfold Shim.pack Shim.of_bytes
  simp only [pack_uint_unpack (slice_length (by omega : 0 + 1 ≤ buf.length)),
    pack_uint_unpack (slice_length (by omega : 1 + 1 ≤ buf.length)),
    pack_uint_unpack (slice_length (by omega : 2 + 1 ≤ buf.length)),
    pack_uint_unpack (slice_length (by omega : 3 + 1 ≤ buf.length)), ok_bind, hall]
  rfl

theorem IntHop.pack_of_bytes {buf : List Byte} (h : INT_HOP_SIZE ≤ buf.length) :
    (IntHop.of_bytes buf).pack = .ok (slice buf 0 INT_HOP_SIZE) := by
  simp only [INT_HOP_SIZE] at h
  have hall : slice buf 0 INT_HOP_SIZE = slice buf 0 2 ++ slice buf 2 2 ++ slice buf 4 2 ++
      slice buf 6 4 ++ slice buf 10 6 ++ slice buf 16 6 ++ slice buf 22 4 := by
    rw [← slice_add, ← slice_add, ← slice_add, ← slice_add, ← slice_add, ← slice_add]
    rfl
  unfold IntHop.pack IntHop.of_bytes
  simp only [pack_u48_unpack (slice_length (by omega : 10 + 6 ≤ buf.length)),
    pack_u48_unpack (slice_length (by omega : 16 + 6 ≤ buf.length)),
    pack_uint_unpack (slice_length (by omega : 0 + 2 ≤ buf.length)),
    pack_uint_unpack (slice_length (by omega : 2 + 2 ≤ buf.length)),
    pack_uint_unpack (slice_length (by omega : 4 + 2 ≤ buf.length)),
    pack_uint_unpack (slice_length (by omega : 6 + 4 ≤ buf.length)),
    pack_uint_unpack (slice_length (by omega : 22 + 4 ≤ buf.length)), ok_bind, hall]
  rfl

theorem pack_iqi_unpack {buf : List Byte} (h : 16 ≤ buf.length) :
    pack_iqi (unpack_uint (slice buf 0 4)) (unpack_uint (slice buf 4 8))
      (unpack_uint (slice buf 12 4)) = .ok (slice buf 0 16) := by
  have hall : slice buf 0 16 = slice buf 0 4 ++ slice buf 4 8 ++ slice buf 12 4 := by
    rw [← slice_add, ← slice_add]
  unfold pack_iqi
  simp only [pack_uint_unpack (slice_length (by omega : 0 + 4 ≤ buf.length)),
    pack_uint_unpack (slice_length (by omega : 4 + 8 ≤ buf.length)),
    pack_uint_unpack (slice_length (by omega : 12 + 4 ≤ buf.length)), ok_bind, hall]
  rfl

/-- The hops in `n` blocks from offset `off` on. -/
def hops_at (buf : List Byte) (n off : ℕ) : List IntHop :=
  (List.range n).map fun i => IntHop.of_bytes (slice buf (off + i * INT_HOP_SIZE) INT_HOP_SIZE)

theorem hops_at_succ (buf : List Byte) (n off : ℕ) :
    hops_at buf (n + 1) off
      = IntHop.of_bytes (slice buf off INT_HOP_SIZE) :: hops_at buf n (off + INT_HOP_SIZE) := by
  have hshift : ∀ i, off + (i + 1) * INT_HOP_SIZE = off + INT_HOP_SIZE + i * INT_HOP_SIZE := by
    intro i
    ring
  simp only [hops_at, List.range_succ_eq_map, List.map_cons, List.map_map, Function.comp_def,
    Nat.succ_eq_add_one, hshift, Nat.zero_mul, Nat.add_zero]

/-- The hop loop on a buffer that is long enough. -/
theorem unpack_hops_eq {buf : List Byte} {n off : ℕ} (h : off + n * INT_HOP_SIZE ≤ buf.length) :
    unpack_hops buf n off = .ok (hops_at buf n off) := by
  induction n generalizing off with
  | zero => rfl
  | succ n ih =>
      rw [Nat.succ_mul] at h
      have hslice : (slice buf off INT_HOP_SIZE).length = INT_HOP_SIZE :=
        slice_length (by omega)
      rw [unpack_hops, IntHop.unpack_of_length hslice.ge, ih (by omega), hops_at_succ]
      rfl

theorem pack_hops_at {buf : List Byte} {n off : ℕ} (h : off + n * INT_HOP_SIZE ≤ buf.length) :
    pack_hops (hops_at buf n off) = .ok (slice buf off (n * INT_HOP_SIZE)) := by
  induction n generalizing off with
  | zero => simp [hops_at, pack_hops, slice]
  | succ n ih =>
      rw [Nat.succ_mul] at h
      have hslice : (slice buf off INT_HOP_SIZE).length = INT_HOP_SIZE :=
        slice_length (by omega)
      have hsplit : slice buf off ((n + 1) * INT_HOP_SIZE)
          = slice buf off INT_HOP_SIZE ++ slice buf (off + INT_HOP_SIZE) (n * INT_HOP_SIZE) := by
        rw [← slice_add, Nat.succ_mul, Nat.add_comm]
      rw [hops_at_succ, pack_hops, IntHop.pack_of_bytes hslice.ge, ih (by omega), hsplit,
        slice_zero_self hslice]
      rfl

/-- Enough bytes for the shim, `n` hops and a payload. -/
theorem slice_packet {b : List Byte} {n : ℕ}
    (h : b.length = SHIM_SIZE + n * INT_HOP_SIZE + 16) :
    slice b 0 SHIM_SIZE ++ slice b SHIM_SIZE (n * INT_HOP_SIZE) ++
      slice b (SHIM_SIZE + n * INT_HOP_SIZE) 16 = b := by
  have hstart : slice b SHIM_SIZE (n * INT_HOP_SIZE)
      = slice b (0 + SHIM_SIZE) (n * INT_HOP_SIZE) := by rw [Nat.zero_add]
  have hend : slice b (SHIM_SIZE + n * INT_HOP_SIZE) 16
      = slice b (0 + (SHIM_SIZE + n * INT_HOP_SIZE)) 16 := by rw [Nat.zero_add]
  rw [hstart, ← slice_add, hend, ← slice_add, slice_zero_self h]

/-- One byte of a byte string. -/
theorem unpack_byte {b : List Byte} {i : ℕ} {x : Byte} (h : b[i]? = some x) :
    unpack_uint (slice b i 1) = x.toNat := by
  obtain ⟨hlt, hx⟩ := List.getElem?_eq_some_iff.mp h
  rw [slice, List.drop_eq_getElem_cons hlt, hx]
  simp [unpack_uint, of_be]

/-- Either packet class, read from a byte string of exactly the right size and packed
again. -/
theorem packet_pack_read {b : List Byte} {n : Byte} (hcount : b[1]? = some n)
    (hmax : b[2]? = some (BitVec.ofNat 8 MAX_HOPS)) (hle : n.toNat ≤ MAX_HOPS)
    (hlen : b.length = SHIM_SIZE + n.toNat * INT_HOP_SIZE + 16) :
    packet_pack (Shim.of_bytes b) (hops_at b n.toNat SHIM_SIZE)
      (.ok (slice b (SHIM_SIZE + n.toNat * INT_HOP_SIZE) 16)) = .ok b := by
  have hlen' : (hops_at b n.toNat SHIM_SIZE).length = n.toNat := by simp [hops_at]
  have hshim : Shim.pack { Shim.of_bytes b with
      hop_count := (hops_at b n.toNat SHIM_SIZE).length
      max_hops := MAX_HOPS } = .ok (slice b 0 SHIM_SIZE) := by
    have hsame : ({ Shim.of_bytes b with
        hop_count := (hops_at b n.toNat SHIM_SIZE).length
        max_hops := MAX_HOPS } : Shim) = Shim.of_bytes b := by
      rw [hlen']
      simp only [Shim.of_bytes, unpack_byte hcount, unpack_byte hmax]
      rfl
    rw [hsame, Shim.pack_of_bytes (by omega)]
  rw [packet_pack_of_parts (hlen'.le.trans hle) hshim (pack_hops_at (by omega)) rfl, slice_packet hlen]

theorem DataPacket.unpack_eq {b : List Byte} {n : Byte} (hcount : b[1]? = some n)
    (hlen : SHIM_SIZE + n.toNat * INT_HOP_SIZE + DATA_PAYLOAD_SIZE ≤ b.length) :
    ∃ data, DataPayload.unpack
        (slice b (SHIM_SIZE + n.toNat * INT_HOP_SIZE) DATA_PAYLOAD_SIZE) = .ok data ∧
      data.pack = .ok (slice b (SHIM_SIZE + n.toNat * INT_HOP_SIZE) DATA_PAYLOAD_SIZE) ∧
      DataPacket.unpack b
        = .ok ⟨Shim.of_bytes b, hops_at b n.toNat SHIM_SIZE, data⟩ := by
  have hn : (Shim.of_bytes b).hop_count.toNat = n.toNat := by
    rw [Shim.of_bytes, unpack_byte hcount, Int.toNat_natCast]
  have hslice : (slice b (SHIM_SIZE + n.toNat * INT_HOP_SIZE) DATA_PAYLOAD_SIZE).length
      = DATA_PAYLOAD_SIZE := slice_length hlen
  have hdata : DataPayload.unpack
      (slice b (SHIM_SIZE + n.toNat * INT_HOP_SIZE) DATA_PAYLOAD_SIZE) = .ok _ :=
    if_pos (slice_length hslice.ge)
  have hhops : unpack_hops b n.toNat SHIM_SIZE = .ok (hops_at b n.toNat SHIM_SIZE) :=
    unpack_hops_eq (by omega)
  refine ⟨_, hdata, ?_, ?_⟩
  · rw [DataPayload.pack, pack_iqi_unpack hslice.ge]
    exact congrArg _ (slice_zero_self hslice)
  · rw [DataPacket.unpack, Shim.unpack_of_length (by omega)]
    simp only [ok_bind, hn, hhops, hdata]
    rfl

theorem AckPacket.unpack_eq {b : List Byte} {n : Byte} (hcount : b[1]? = some n)
    (hlen : SHIM_SIZE + n.toNat * INT_HOP_SIZE + ACK_PAYLOAD_SIZE ≤ b.length) :
    ∃ ack, AckPayload.unpack
        (slice b (SHIM_SIZE + n.toNat * INT_HOP_SIZE) ACK_PAYLOAD_SIZE) = .ok ack ∧
      ack.pack = .ok (slice b (SHIM_SIZE + n.toNat * INT_HOP_SIZE) ACK_PAYLOAD_SIZE) ∧
      AckPacket.unpack b
        = .ok ⟨Shim.of_bytes b, hops_at b n.toNat SHIM_SIZE, ack⟩ := by
  have hn : (Shim.of_bytes b).hop_count.toNat = n.toNat := by
    rw [Shim.of_bytes, unpack_byte hcount, Int.toNat_natCast]
  have hslice : (slice b (SHIM_SIZE + n.toNat * INT_HOP_SIZE) ACK_PAYLOAD_SIZE).length
      = ACK_PAYLOAD_SIZE := slice_length hlen
  have hack : AckPayload.unpack
      (slice b (SHIM_SIZE + n.toNat * INT_HOP_SIZE) ACK_PAYLOAD_SIZE) = .ok _ :=
    if_pos (slice_length hslice.ge)
  have hhops : unpack_hops b n.toNat SHIM_SIZE = .ok (hops_at b n.toNat SHIM_SIZE) :=
    unpack_hops_eq (by omega)
  refine ⟨_, hack, ?_, ?_⟩
  · rw [AckPayload.pack, pack_iqi_unpack hslice.ge]
    exact congrArg _ (slice_zero_self hslice)
  · rw [AckPacket.unpack, Shim.unpack_of_length (by omega)]
    simp only [ok_bind, hn, hhops, hack]
    rfl

/-- A packed ACK is read back, whatever follows it. -/
theorem AckPacket.unpack_pack {a : AckPacket} {bs : List Byte} (h : a.pack = .ok bs)
    (tail : List Byte) :
    AckPacket.unpack (bs ++ tail) = .ok { a with
      shim := { a.shim with hop_count := a.hops.length, max_hops := MAX_HOPS } } := by
  obtain ⟨-, p, hp, -, hshim, hhops, hslice⟩ := packet_pack_layout h tail
  obtain ⟨hlp, hup⟩ := AckPayload.unpack_pack hp
  have hpay : AckPayload.unpack p = .ok a.payload := by simpa using hup []
  rw [hlp] at hslice
  simp only [AckPacket.unpack, hshim, ok_bind, Int.toNat_natCast, hhops, hslice, hpay]
  rfl

end IntHpcc.PacketFormat

namespace IntHpcc.CSender

open IntHpcc.Bytes IntHpcc.Py IntHpcc.PacketFormat IntHpcc.SenderCore

/-! ## The same bytes in C -/

/-- A byte put below what has been read so far. -/
theorem or_byte (a k : ℕ) {b : ℕ} (h : b < 256) :
    a <<< (k + 8) ||| b <<< k = (a * 256 + b) <<< k := by
  have hb : b <<< k < 2 ^ (k + 8) := by
    rw [Nat.shiftLeft_eq, pow_add, Nat.mul_comm]
    exact Nat.mul_lt_mul_of_pos_left h (Nat.pow_pos (by norm_num))
  rw [← Nat.shiftLeft_add_eq_or_of_lt hb, Nat.shiftLeft_eq, Nat.shiftLeft_eq, Nat.shiftLeft_eq]
  ring

/-- `u48_unpack` reads six bytes in network byte order. -/
theorem u48_unpack_eq {b : List Byte} (h : b.length = 6) : u48_unpack b = of_be b := by
  match b, h with
  | [b₀, b₁, b₂, b₃, b₄, b₅], _ =>
      have hlt : ∀ b : Byte, b.toNat < 256 := fun b => b.isLt
      -- no bit is shifted out of the 64
      have hshift : ∀ (b : Byte) (k : ℕ), k ≤ 40 →
          ((b.setWidth 64 : BitVec 64) <<< k).toNat = b.toNat <<< k := by
        intro b k hk
        have hbig : b.toNat * 2 ^ k < 2 ^ 64 := by
          calc b.toNat * 2 ^ k ≤ b.toNat * 2 ^ 40 :=
                Nat.mul_le_mul_left _ (Nat.pow_le_pow_right (by norm_num) hk)
            _ < 2 ^ 64 := by
                have := hlt b
                omega
        rw [BitVec.toNat_shiftLeft, BitVec.toNat_setWidth_of_le (by omega), Nat.shiftLeft_eq,
          Nat.mod_eq_of_lt hbig]
      have hlast : (b₅.setWidth 64).toNat = b₅.toNat <<< 0 := by
        rw [BitVec.toNat_setWidth_of_le (by omega), Nat.shiftLeft_zero]
      simp only [u48_unpack, List.getD_cons_zero, List.getD_cons_succ, BitVec.toNat_or]
      rw [hshift b₀ 40 (by omega), hshift b₁ 32 (by omega), hshift b₂ 24 (by omega),
        hshift b₃ 16 (by omega), hshift b₄ 8 (by omega), hlast, or_byte _ 32 (hlt b₁),
        or_byte _ 24 (hlt b₂), or_byte _ 16 (hlt b₃), or_byte _ 8 (hlt b₄), or_byte _ 0 (hlt b₅),
        Nat.shiftLeft_zero]
      simp only [of_be, List.length_cons, List.length_nil]
      ring

/-- `int_hop_decode` reads what `IntHop.unpack` reads. -/
theorem int_hop_decode_eq {wire : List Byte} (h : INT_HOP_SIZE ≤ wire.length) :
    IntHop.unpack wire = .ok (int_hop_decode wire).hop := by
  simp only [INT_HOP_SIZE] at h
  rw [IntHop.unpack_of_length (by simpa only [INT_HOP_SIZE] using h)]
  unfold IntHopHost.hop int_hop_decode IntHop.of_bytes
  rw [u48_unpack_eq (slice_length (by omega : 10 + 6 ≤ wire.length)),
    u48_unpack_eq (slice_length (by omega : 16 + 6 ≤ wire.length))]
  rfl

/-- `data_packet_pack` writes what `_build_packet_bytes` writes. -/
theorem data_packet_pack_eq (padding : ℕ) {seq : ℕ} (h : seq < 2 ^ 32) (send_ts_us : Us) :
    build_packet_bytes padding seq send_ts_us = .ok (data_packet_pack seq send_ts_us padding) := by
  have hseq : pack_uint 4 (seq : ℤ) = .ok (be 4 seq) := by
    have hlt : (seq : ℤ) < 256 ^ 4 := by
      norm_num
      omega
    rw [pack_uint_of_range (Int.natCast_nonneg _) hlt, Int.toNat_natCast]
  have hz : pack_uint 4 0 = .ok (be 4 0) := pack_uint_of_range (by norm_num) (by norm_num)
  have hp : DataPayload.pack ⟨seq, send_ts_us.val, 0⟩
      = .ok (be 4 seq ++ be 8 send_ts_us.val ++ be 4 0) := by
    rw [DataPayload.pack, pack_iqi]
    simp only [hseq, pack_uint_us, hz, ok_bind]
    rfl
  have hs : Shim.pack { hop_count := ([] : List IntHop).length, max_hops := MAX_HOPS }
      = .ok (be 1 0 ++ be 1 0 ++ be 1 MAX_HOPS ++ be 1 0) := by decide
  have hbody : packet_pack {} [] (DataPayload.pack ⟨seq, send_ts_us.val, 0⟩) = _ :=
    packet_pack_of_parts (Nat.zero_le _) hs rfl hp
  unfold build_packet_bytes DataPacket.pack
  rw [hbody, ok_bind, List.append_nil]
  rfl

end IntHpcc.CSender

namespace IntHpcc.PacketFormat

open IntHpcc.Bytes IntHpcc.Py IntHpcc.CSender IntHpcc.SenderCore

/-! ## The format as a whole -/

/-- `pack` raises exactly when it does not succeed. -/
theorem raises_iff {x : Except PyError (List Byte)} {P : Prop} (h : (∃ bs, x = .ok bs) ↔ P) :
    (∃ e, x = .error e) ↔ ¬ P := by
  rw [← h]
  cases x with
  | error e => simp
  | ok bs => simp

/-- The two sides of either packet class on byte strings of exactly the right size. -/
theorem unpack_then_pack {b : List Byte} {n : Byte} (hcount : b[1]? = some n)
    (hmax : b[2]? = some (BitVec.ofNat 8 MAX_HOPS)) (hle : n.toNat ≤ MAX_HOPS)
    (hlen : b.length = SHIM_SIZE + n.toNat * INT_HOP_SIZE + 16) :
    (∃ p, DataPacket.unpack b = .ok p ∧ p.pack = .ok b) ∧
      ∃ a, AckPacket.unpack b = .ok a ∧ a.pack = .ok b := by
  have hread := packet_pack_read hcount hmax hle hlen
  obtain ⟨data, -, hdata, hp⟩ := DataPacket.unpack_eq hcount hlen.ge
  obtain ⟨ack, -, hack, ha⟩ := AckPacket.unpack_eq hcount hlen.ge
  refine ⟨⟨_, hp, ?_⟩, _, ha, ?_⟩
  · rw [DataPacket.pack, hdata]
    exact hread
  · rw [AckPacket.pack, hack]
    exact hread

/-- **The codecs are inverse to each other**, in front of any tail; `pack` raises exactly
when something it writes does not fit; and the C sender reads and writes the same bytes. -/
theorem wire_round_trip :
    (∀ p : DataPacket, p.FieldsFit → ∃ bs, p.pack = .ok bs ∧ ∀ tail,
      DataPacket.unpack (bs ++ tail) = .ok { p with
        shim := { p.shim with hop_count := p.hops.length, max_hops := MAX_HOPS } }) ∧
    (∀ a : AckPacket, a.FieldsFit → ∃ bs, a.pack = .ok bs ∧ ∀ tail,
      AckPacket.unpack (bs ++ tail) = .ok { a with
        shim := { a.shim with hop_count := a.hops.length, max_hops := MAX_HOPS } }) ∧
    (∀ p : DataPacket, (∃ e, p.pack = .error e) ↔ ¬ p.FieldsFit) ∧
    (∀ a : AckPacket, (∃ e, a.pack = .error e) ↔ ¬ a.FieldsFit) ∧
    (∀ (b : List Byte) (n : Byte), b[1]? = some n → b[2]? = some (BitVec.ofNat 8 MAX_HOPS) →
      n.toNat ≤ MAX_HOPS → b.length = SHIM_SIZE + n.toNat * INT_HOP_SIZE + 16 →
      (∃ p, DataPacket.unpack b = .ok p ∧ p.pack = .ok b) ∧
        ∃ a, AckPacket.unpack b = .ok a ∧ a.pack = .ok b) ∧
    (∀ wire : List Byte, wire.length = INT_HOP_SIZE →
      IntHop.unpack wire = .ok (int_hop_decode wire).hop) ∧
    ∀ (padding seq : ℕ) (send_ts_us : Us), seq < 2 ^ 32 →
      build_packet_bytes padding seq send_ts_us
        = .ok (data_packet_pack seq send_ts_us padding) := by
  -- both packets are the same layout with another payload
  refine ⟨fun p hp => ?_, fun a ha => ?_, fun p => raises_iff p.pack_ok_iff,
    fun a => raises_iff a.pack_ok_iff, fun b n hcount hmax hle hlen =>
      unpack_then_pack hcount hmax hle hlen, fun wire hw => int_hop_decode_eq hw.ge,
    fun padding seq send_ts_us hseq => data_packet_pack_eq padding hseq send_ts_us⟩
  · obtain ⟨bs, hbs⟩ := p.pack_ok_iff.mpr hp
    exact ⟨bs, hbs, DataPacket.unpack_pack hbs⟩
  · obtain ⟨bs, hbs⟩ := a.pack_ok_iff.mpr ha
    exact ⟨bs, hbs, AckPacket.unpack_pack hbs⟩

/-- The hop of a switch with a 10 Mbps link, and the last one that fits its fields. -/
def two_hops : List IntHop :=
  [⟨1, 1, 2, 17, 1000, 64, 10000000⟩,
    ⟨65535, 65535, 65535, 2 ^ 32 - 1, 2 ^ 48 - 1, 2 ^ 48 - 1, 2 ^ 32 - 1⟩]

theorem two_hops_fit : ∀ h ∈ two_hops, h.FieldsFit := by
  rw [two_hops, List.forall_mem_cons, List.forall_mem_singleton]
  constructor
  all_goals exact ⟨by decide, by decide, by decide, by decide, by decide, by decide, by decide⟩

/-- A data packet and an ACK with two hops, the bytes of a packet with one, and those of a
hop. -/
theorem wire_round_trip_two_hops :
    (∃ bs, DataPacket.pack { hops := two_hops, payload := ⟨7, 1000, 0⟩ } = .ok bs ∧ ∀ tail,
      DataPacket.unpack (bs ++ tail)
        = .ok { shim := { hop_count := 2 }, hops := two_hops, payload := ⟨7, 1000, 0⟩ }) ∧
    (∃ bs, AckPacket.pack { shim := { flags := 1 }, hops := two_hops, payload := ⟨7, 2000, 0⟩ }
        = .ok bs ∧ ∀ tail, AckPacket.unpack (bs ++ tail)
          = .ok { shim := { flags := 1, hop_count := 2 }, hops := two_hops,
                  payload := ⟨7, 2000, 0⟩ }) ∧
    (∃ p, DataPacket.unpack ([0, 1, 4, 0] ++ List.replicate 42 5) = .ok p ∧
      p.pack = .ok ([0, 1, 4, 0] ++ List.replicate 42 5)) ∧
    IntHop.unpack (List.replicate 26 5) = .ok (int_hop_decode (List.replicate 26 5)).hop ∧
    build_packet_bytes 1400 7 zero_us = .ok (data_packet_pack 7 zero_us 1400) := by
  obtain ⟨hdata, hack, -, -, hread, hhop, hbuild⟩ := wire_round_trip
  refine ⟨hdata { hops := two_hops, payload := ⟨7, 1000, 0⟩ } ⟨by decide, ⟨by decide, by decide⟩,
      two_hops_fit, ⟨by decide, by decide, by decide⟩⟩,
    hack { shim := { flags := 1 }, hops := two_hops, payload := ⟨7, 2000, 0⟩ } ⟨by decide,
      ⟨by decide, by decide⟩, two_hops_fit, ⟨by decide, by decide, by decide⟩⟩,
    (hread ([0, 1, 4, 0] ++ List.replicate 42 5) 1 rfl rfl (by decide) rfl).1,
    hhop _ rfl, hbuild 1400 7 zero_us (by norm_num)⟩

/-- Every field of a data packet fits, those that `pack` sets included. -/
def DataPacket.AllFieldsFit (p : DataPacket) : Prop :=
  p.FieldsFit ∧ Fits 8 p.shim.hop_count ∧ Fits 8 p.shim.max_hops

/-- A count that does not fit does not make `pack` raise: it is overwritten. -/
theorem pack_sets_count :
    ¬ ∀ p : DataPacket, (∃ e, p.pack = .error e) ↔ ¬ p.AllFieldsFit := by
  intro h
  have hpack : DataPacket.pack { shim := { hop_count := 300 } }
      = .ok (be 1 0 ++ be 1 0 ++ be 1 4 ++ be 1 0 ++ (be 4 0 ++ be 8 0 ++ be 4 0)) := by
    decide
  obtain ⟨e, he⟩ := (h { shim := { hop_count := 300 } }).mpr fun hall =>
    absurd hall.2.1 (by decide)
  rw [hpack] at he
  cases he

end IntHpcc.PacketFormat
