/-
`sender/packet_format.py`: the byte-exact codecs of the wire format.

Every `pack` and `unpack` is the source's, exceptions included. The statements the
rest of the development uses are of one shape: *what a successful `pack` wrote, the
matching `unpack` reads back*, at any offset and in front of any tail
(`IntHop.unpack_pack`, `unpack_hops_pack`, `DataPayload.unpack_pack`), together with
the lengths. A field is in range exactly when its `pack` succeeds, so no range
hypotheses are carried around.
-/
import IntHpcc.PyRuntime

set_option autoImplicit false

namespace IntHpcc.PacketFormat

open IntHpcc.Bytes IntHpcc.Py

/-! ## Protocol constants -/

def DATA_PORT : ℕ := 50000
def ACK_PORT : ℕ := 50001
def MAX_HOPS : ℕ := 4
def SHIM_FLAG_ECN_ECHO : ℤ := 1

def SHIM_SIZE : ℕ := 4
def INT_HOP_SIZE : ℕ := 26
def DATA_PAYLOAD_SIZE : ℕ := 16
def ACK_PAYLOAD_SIZE : ℕ := 16

/-! ## SHIM -/

structure Shim where
  flags : ℤ := 0
  hop_count : ℤ := 0
  max_hops : ℤ := MAX_HOPS
  reserved : ℤ := 0
  deriving DecidableEq, Repr

/-- `struct.pack("!BBBB", …)`. -/
def Shim.pack (s : Shim) : Except PyError (List Byte) := do
  let flags ← pack_uint 1 s.flags
  let hop_count ← pack_uint 1 s.hop_count
  let max_hops ← pack_uint 1 s.max_hops
  let reserved ← pack_uint 1 s.reserved
  return flags ++ hop_count ++ max_hops ++ reserved

/-- The fields of the first four bytes. -/
def Shim.of_bytes (buf : List Byte) : Shim where
  flags := unpack_uint (slice buf 0 1)
  hop_count := unpack_uint (slice buf 1 1)
  max_hops := unpack_uint (slice buf 2 1)
  reserved := unpack_uint (slice buf 3 1)

/-- `struct.unpack("!BBBB", buf[:4])`, which raises on a short buffer. -/
def Shim.unpack (buf : List Byte) : Except PyError Shim :=
  if (slice buf 0 SHIM_SIZE).length = SHIM_SIZE then .ok (Shim.of_bytes buf)
  else .error .struct_error

/-- `shim.flags & SHIM_FLAG_ECN_ECHO`; the flags of a parsed shim are one byte. -/
def Shim.ecn_echo (s : Shim) : Bool := decide (s.flags.toNat &&& SHIM_FLAG_ECN_ECHO.toNat ≠ 0)

/-! ## INT_HOP -/

structure IntHop where
  switch_id : ℤ
  ingress_port : ℤ
  egress_port : ℤ
  qdepth : ℤ
  egress_tstamp_us : ℤ
  tx_byte_count : ℤ
  link_bps : ℤ
  deriving DecidableEq, Repr

/-- `_pack_u48`: out of range raises `ValueError`, not `struct.error`. -/
def pack_u48 (v : ℤ) : Except PyError (List Byte) :=
  if 0 ≤ v ∧ v < 2 ^ 48 then .ok (be 6 v.toNat) else .error .value_error

/-- `struct.pack("!HHHI6s6sI", …)`; the two `_pack_u48` arguments are evaluated
first. -/
def IntHop.pack (h : IntHop) : Except PyError (List Byte) := do
  let ts_b ← pack_u48 h.egress_tstamp_us
  let tx_b ← pack_u48 h.tx_byte_count
  let sw ← pack_uint 2 h.switch_id
  let ingress ← pack_uint 2 h.ingress_port
  let egress ← pack_uint 2 h.egress_port
  let qdepth ← pack_uint 4 h.qdepth
  let link_bps ← pack_uint 4 h.link_bps
  return sw ++ ingress ++ egress ++ qdepth ++ ts_b ++ tx_b ++ link_bps

/-- The fields of a 26-byte block. -/
def IntHop.of_bytes (buf : List Byte) : IntHop where
  switch_id := unpack_uint (slice buf 0 2)
  ingress_port := unpack_uint (slice buf 2 2)
  egress_port := unpack_uint (slice buf 4 2)
  qdepth := unpack_uint (slice buf 6 4)
  egress_tstamp_us := unpack_uint (slice buf 10 6)
  tx_byte_count := unpack_uint (slice buf 16 6)
  link_bps := unpack_uint (slice buf 22 4)

/-- `struct.unpack("!HHHI6s6sI", buf[:26])`. -/
def IntHop.unpack (buf : List Byte) : Except PyError IntHop :=
  if (slice buf 0 INT_HOP_SIZE).length = INT_HOP_SIZE then .ok (IntHop.of_bytes buf)
  else .error .struct_error

/-! ## Payloads

`_DATA_FMT` and `_ACK_FMT` are the same `"!IQI"`. -/

/-- `struct.pack("!IQI", …)`. -/
def pack_iqi (a b c : ℤ) : Except PyError (List Byte) := do
  let x ← pack_uint 4 a
  let y ← pack_uint 8 b
  let z ← pack_uint 4 c
  return x ++ y ++ z

structure DataPayload where
  seq : ℤ
  send_ts_us : ℤ
  reserved : ℤ := 0
  deriving DecidableEq, Repr

def DataPayload.pack (p : DataPayload) : Except PyError (List Byte) :=
  pack_iqi p.seq p.send_ts_us p.reserved

def DataPayload.unpack (buf : List Byte) : Except PyError DataPayload :=
  if (slice buf 0 DATA_PAYLOAD_SIZE).length = DATA_PAYLOAD_SIZE then
    .ok ⟨unpack_uint (slice buf 0 4), unpack_uint (slice buf 4 8), unpack_uint (slice buf 12 4)⟩
  else .error .struct_error

structure AckPayload where
  ack_seq : ℤ
  recv_ts_us : ℤ
  reserved : ℤ := 0
  deriving DecidableEq, Repr

def AckPayload.pack (p : AckPayload) : Except PyError (List Byte) :=
  pack_iqi p.ack_seq p.recv_ts_us p.reserved

def AckPayload.unpack (buf : List Byte) : Except PyError AckPayload :=
  if (slice buf 0 ACK_PAYLOAD_SIZE).length = ACK_PAYLOAD_SIZE then
    .ok ⟨unpack_uint (slice buf 0 4), unpack_uint (slice buf 4 8), unpack_uint (slice buf 12 4)⟩
  else .error .struct_error

/-! ## Composite packets -/

/-- `[h.pack() for h in hops]`, joined. -/
def pack_hops : List IntHop → Except PyError (List Byte)
  | [] => .ok []
  | h :: hops => do
    let b ← h.pack
    let bs ← pack_hops hops
    return b ++ bs

/-- The hop loop of the `unpack`s and of `_parse_ack`: `n` entries from offset `off`
on. -/
def unpack_hops (buf : List Byte) : ℕ → ℕ → Except PyError (List IntHop)
  | 0, _ => .ok []
  | n + 1, off => do
    let h ← IntHop.unpack (slice buf off INT_HOP_SIZE)
    let hops ← unpack_hops buf n (off + INT_HOP_SIZE)
    return h :: hops

/-- The `pack` of both packet classes: the shim is written with the actual hop
count. -/
def packet_pack (shim : Shim) (hops : List IntHop)
    (payload : Except PyError (List Byte)) : Except PyError (List Byte) := do
  if hops.length > MAX_HOPS then throw .value_error
  let shim := { shim with hop_count := hops.length, max_hops := MAX_HOPS }
  let s ← shim.pack
  let h ← pack_hops hops
  let p ← payload
  return s ++ h ++ p

structure DataPacket where
  shim : Shim := {}
  hops : List IntHop := []
  payload : DataPayload := ⟨0, 0, 0⟩
  deriving DecidableEq, Repr

def DataPacket.pack (p : DataPacket) : Except PyError (List Byte) :=
  packet_pack p.shim p.hops p.payload.pack

def DataPacket.unpack (buf : List Byte) : Except PyError DataPacket := do
  let shim ← Shim.unpack buf
  let hops ← unpack_hops buf shim.hop_count.toNat SHIM_SIZE
  let payload ← DataPayload.unpack
    (slice buf (SHIM_SIZE + shim.hop_count.toNat * INT_HOP_SIZE) DATA_PAYLOAD_SIZE)
  return ⟨shim, hops, payload⟩

structure AckPacket where
  shim : Shim := {}
  hops : List IntHop := []
  payload : AckPayload := ⟨0, 0, 0⟩
  deriving DecidableEq, Repr

def AckPacket.pack (p : AckPacket) : Except PyError (List Byte) :=
  packet_pack p.shim p.hops p.payload.pack

def AckPacket.unpack (buf : List Byte) : Except PyError AckPacket := do
  let shim ← Shim.unpack buf
  let hops ← unpack_hops buf shim.hop_count.toNat SHIM_SIZE
  let payload ← AckPayload.unpack
    (slice buf (SHIM_SIZE + shim.hop_count.toNat * INT_HOP_SIZE) ACK_PAYLOAD_SIZE)
  return ⟨shim, hops, payload⟩

/-! ## Reading back what was packed

The fields of one struct, one after the other. Both directions of a struct go
through the same list of widths, so each proof is the same computation of
offsets. -/

/-- `_pack_u48` writes a 6-byte field. -/
theorem pack_u48_spec {v : ℤ} {bs : List Byte} (h : pack_u48 v = .ok bs) :
    bs.length = 6 ∧ unpack_uint bs = v := by
  unfold pack_u48 at h
  split at h
  · next hr =>
    have hp : pack_uint 6 v = .ok (be 6 v.toNat) :=
      pack_uint_of_range hr.1 (lt_of_lt_of_le hr.2 (by norm_num))
    rw [Except.ok.injEq] at h
    subst h
    exact ⟨(pack_uint_spec hp).1, (pack_uint_spec hp).2.1⟩
  · cases h

/-- `return` ends a `pack`. -/
theorem pure_eq_ok {α : Type} {a r : α} : (pure a : Except PyError α) = .ok r ↔ a = r := by
  simp [pure, Except.pure]

/-- What `Shim.pack` writes is four bytes that `Shim.unpack` reads back. -/
theorem Shim.unpack_pack {s : Shim} {bs : List Byte} (h : s.pack = .ok bs) :
    bs.length = SHIM_SIZE ∧ ∀ tail, Shim.unpack (bs ++ tail) = .ok s := by
  unfold Shim.pack at h
  obtain ⟨f, hf, h⟩ := bind_eq_ok.mp h
  obtain ⟨c, hc, h⟩ := bind_eq_ok.mp h
  obtain ⟨m, hm, h⟩ := bind_eq_ok.mp h
  obtain ⟨r, hr, h⟩ := bind_eq_ok.mp h
  obtain rfl := pure_eq_ok.mp h
  obtain ⟨lf, vf, -⟩ := pack_uint_spec hf
  obtain ⟨lc, vc, -⟩ := pack_uint_spec hc
  obtain ⟨lm, vm, -⟩ := pack_uint_spec hm
  obtain ⟨lr, vr, -⟩ := pack_uint_spec hr
  have hlen : (f ++ c ++ m ++ r).length = SHIM_SIZE := by
    simp only [List.length_append, lf, lc, lm, lr, SHIM_SIZE]
  refine ⟨hlen, fun tail => ?_⟩
  -- each field is where the ones before it end
  have h₀ : slice (f ++ c ++ m ++ r ++ tail) 0 1 = f := by
    simpa using slice_mid (p := []) (x := f) (q := c ++ (m ++ (r ++ tail))) rfl lf
  have h₁ : slice (f ++ c ++ m ++ r ++ tail) 1 1 = c := by
    simpa using slice_mid (p := f) (x := c) (q := m ++ (r ++ tail)) lf lc
  have h₂ : slice (f ++ c ++ m ++ r ++ tail) 2 1 = m := by
    simpa using slice_mid (p := f ++ c) (x := m) (q := r ++ tail)
      (by simp only [List.length_append, lf, lc]) lm
  have h₃ : slice (f ++ c ++ m ++ r ++ tail) 3 1 = r := by
    simpa using slice_mid (p := f ++ c ++ m) (x := r) (q := tail)
      (by simp only [List.length_append, lf, lc, lm]) lr
  rw [Shim.unpack, if_pos (by rw [slice_append_self hlen, hlen]), Shim.of_bytes, h₀, h₁, h₂, h₃,
    vf, vc, vm, vr]

/-- What `IntHop.pack` writes is 26 bytes that `IntHop.unpack` reads back. -/
theorem IntHop.unpack_pack {h : IntHop} {bs : List Byte} (hb : h.pack = .ok bs) :
    bs.length = INT_HOP_SIZE ∧ ∀ tail, IntHop.unpack (bs ++ tail) = .ok h := by
  unfold IntHop.pack at hb
  obtain ⟨t, ht, hb⟩ := bind_eq_ok.mp hb
  obtain ⟨x, hx, hb⟩ := bind_eq_ok.mp hb
  obtain ⟨s, hs, hb⟩ := bind_eq_ok.mp hb
  obtain ⟨i, hi, hb⟩ := bind_eq_ok.mp hb
  obtain ⟨e, he, hb⟩ := bind_eq_ok.mp hb
  obtain ⟨d, hd, hb⟩ := bind_eq_ok.mp hb
  obtain ⟨l, hl, hb⟩ := bind_eq_ok.mp hb
  obtain rfl := pure_eq_ok.mp hb
  obtain ⟨lt, vt⟩ := pack_u48_spec ht
  obtain ⟨lx, vx⟩ := pack_u48_spec hx
  obtain ⟨ls, vs, -⟩ := pack_uint_spec hs
  obtain ⟨li, vi, -⟩ := pack_uint_spec hi
  obtain ⟨le, ve, -⟩ := pack_uint_spec he
  obtain ⟨ld, vd, -⟩ := pack_uint_spec hd
  obtain ⟨ll, vl, -⟩ := pack_uint_spec hl
  have hlen : (s ++ i ++ e ++ d ++ t ++ x ++ l).length = INT_HOP_SIZE := by
    simp only [List.length_append, ls, li, le, ld, lt, lx, ll, INT_HOP_SIZE]
  refine ⟨hlen, fun tail => ?_⟩
  -- each field is where the ones before it end
  have h₀ : slice (s ++ i ++ e ++ d ++ t ++ x ++ l ++ tail) 0 2 = s := by
    simpa using slice_mid (p := []) (x := s)
      (q := i ++ (e ++ (d ++ (t ++ (x ++ (l ++ tail)))))) rfl ls
  have h₁ : slice (s ++ i ++ e ++ d ++ t ++ x ++ l ++ tail) 2 2 = i := by
    simpa using slice_mid (p := s) (x := i) (q := e ++ (d ++ (t ++ (x ++ (l ++ tail))))) ls li
  have h₂ : slice (s ++ i ++ e ++ d ++ t ++ x ++ l ++ tail) 4 2 = e := by
    simpa using slice_mid (p := s ++ i) (x := e) (q := d ++ (t ++ (x ++ (l ++ tail))))
      (by simp only [List.length_append, ls, li]) le
  have h₃ : slice (s ++ i ++ e ++ d ++ t ++ x ++ l ++ tail) 6 4 = d := by
    simpa using slice_mid (p := s ++ i ++ e) (x := d) (q := t ++ (x ++ (l ++ tail)))
      (by simp only [List.length_append, ls, li, le]) ld
  have h₄ : slice (s ++ i ++ e ++ d ++ t ++ x ++ l ++ tail) 10 6 = t := by
    simpa using slice_mid (p := s ++ i ++ e ++ d) (x := t) (q := x ++ (l ++ tail))
      (by simp only [List.length_append, ls, li, le, ld]) lt
  have h₅ : slice (s ++ i ++ e ++ d ++ t ++ x ++ l ++ tail) 16 6 = x := by
    simpa using slice_mid (p := s ++ i ++ e ++ d ++ t) (x := x) (q := l ++ tail)
      (by simp only [List.length_append, ls, li, le, ld, lt]) lx
  have h₆ : slice (s ++ i ++ e ++ d ++ t ++ x ++ l ++ tail) 22 4 = l := by
    simpa using slice_mid (p := s ++ i ++ e ++ d ++ t ++ x) (x := l) (q := tail)
      (by simp only [List.length_append, ls, li, le, ld, lt, lx]) ll
  rw [IntHop.unpack, if_pos (by rw [slice_append_self hlen, hlen]), IntHop.of_bytes, h₀, h₁, h₂,
    h₃, h₄, h₅, h₆, vs, vi, ve, vd, vt, vx, vl]

/-- The 16 bytes of `"!IQI"` and the three fields in them. -/
theorem pack_iqi_spec {a b c : ℤ} {bs : List Byte} (h : pack_iqi a b c = .ok bs) :
    bs.length = 16 ∧ ∀ tail,
      unpack_uint (slice (bs ++ tail) 0 4) = a ∧ unpack_uint (slice (bs ++ tail) 4 8) = b ∧
        unpack_uint (slice (bs ++ tail) 12 4) = c := by
  unfold pack_iqi at h
  obtain ⟨x, hx, h⟩ := bind_eq_ok.mp h
  obtain ⟨y, hy, h⟩ := bind_eq_ok.mp h
  obtain ⟨z, hz, h⟩ := bind_eq_ok.mp h
  obtain rfl := pure_eq_ok.mp h
  obtain ⟨lx, vx, -⟩ := pack_uint_spec hx
  obtain ⟨ly, vy, -⟩ := pack_uint_spec hy
  obtain ⟨lz, vz, -⟩ := pack_uint_spec hz
  refine ⟨by simp only [List.length_append, lx, ly, lz], fun tail => ⟨?_, ?_, ?_⟩⟩
  · have h₀ : slice (x ++ y ++ z ++ tail) 0 4 = x := by
      simpa using slice_mid (p := []) (x := x) (q := y ++ (z ++ tail)) rfl lx
    rw [h₀, vx]
  · have h₁ : slice (x ++ y ++ z ++ tail) 4 8 = y := by
      simpa using slice_mid (p := x) (x := y) (q := z ++ tail) lx ly
    rw [h₁, vy]
  · have h₂ : slice (x ++ y ++ z ++ tail) 12 4 = z := by
      simpa using slice_mid (p := x ++ y) (x := z) (q := tail)
        (by simp only [List.length_append, lx, ly]) lz
    rw [h₂, vz]

theorem DataPayload.unpack_pack {p : DataPayload} {bs : List Byte} (h : p.pack = .ok bs) :
    bs.length = DATA_PAYLOAD_SIZE ∧ ∀ tail, DataPayload.unpack (bs ++ tail) = .ok p := by
  obtain ⟨hlen, hf⟩ := pack_iqi_spec h
  refine ⟨hlen, fun tail => ?_⟩
  obtain ⟨h₀, h₁, h₂⟩ := hf tail
  have hself : slice (bs ++ tail) 0 DATA_PAYLOAD_SIZE = bs := slice_append_self hlen
  rw [DataPayload.unpack, if_pos (by rw [hself]; exact hlen), h₀, h₁, h₂]

theorem AckPayload.unpack_pack {p : AckPayload} {bs : List Byte} (h : p.pack = .ok bs) :
    bs.length = ACK_PAYLOAD_SIZE ∧ ∀ tail, AckPayload.unpack (bs ++ tail) = .ok p := by
  obtain ⟨hlen, hf⟩ := pack_iqi_spec h
  refine ⟨hlen, fun tail => ?_⟩
  obtain ⟨h₀, h₁, h₂⟩ := hf tail
  have hself : slice (bs ++ tail) 0 ACK_PAYLOAD_SIZE = bs := slice_append_self hlen
  rw [AckPayload.unpack, if_pos (by rw [hself]; exact hlen), h₀, h₁, h₂]

/-- The hop loop reads back a packed hop list, at any offset and before any tail. -/
theorem unpack_hops_pack {hops : List IntHop} {bs : List Byte} (h : pack_hops hops = .ok bs) :
    bs.length = hops.length * INT_HOP_SIZE ∧ ∀ (front tail : List Byte),
      unpack_hops (front ++ (bs ++ tail)) hops.length front.length = .ok hops := by
  induction hops generalizing bs with
  | nil =>
      rw [pack_hops, Except.ok.injEq] at h
      subst h
      exact ⟨rfl, fun _ _ => rfl⟩
  | cons hop hops ih =>
      rw [pack_hops] at h
      obtain ⟨b, hb, h⟩ := bind_eq_ok.mp h
      obtain ⟨rest, hrest, h⟩ := bind_eq_ok.mp h
      obtain rfl := pure_eq_ok.mp h
      obtain ⟨hlb, hub⟩ := IntHop.unpack_pack hb
      obtain ⟨hlr, hur⟩ := ih hrest
      constructor
      · rw [List.length_append, hlb, hlr, List.length_cons]
        ring
      · intro front tail
        have hhead : slice (front ++ (b ++ rest ++ tail)) front.length INT_HOP_SIZE = b := by
          rw [List.append_assoc b]
          exact slice_mid rfl hlb
        -- the rest is read behind the first hop
        have htail : unpack_hops (front ++ (b ++ rest ++ tail)) hops.length
            (front.length + INT_HOP_SIZE) = .ok hops := by
          have := hur (front ++ b) tail
          rwa [List.length_append, hlb, List.append_assoc, ← List.append_assoc b] at this
        have hself : IntHop.unpack b = .ok hop := by simpa using hub []
        rw [List.length_cons, unpack_hops, hhead, hself, htail]
        rfl

/-- The three parts of a packed packet: the shim with the real hop count, the hops,
the payload. -/
theorem packet_pack_spec {shim : Shim} {hops : List IntHop}
    {payload : Except PyError (List Byte)} {bs : List Byte}
    (h : packet_pack shim hops payload = .ok bs) :
    hops.length ≤ MAX_HOPS ∧ ∃ s b p,
      Shim.pack { shim with hop_count := hops.length, max_hops := MAX_HOPS } = .ok s ∧
        pack_hops hops = .ok b ∧ payload = .ok p ∧ bs = s ++ b ++ p := by
  unfold packet_pack at h
  by_cases hmax : hops.length > MAX_HOPS
  · rw [if_pos hmax] at h
    cases h
  · rw [if_neg hmax] at h
    obtain ⟨-, -, h⟩ := bind_eq_ok.mp h
    obtain ⟨s, hs, h⟩ := bind_eq_ok.mp h
    obtain ⟨b, hb, h⟩ := bind_eq_ok.mp h
    obtain ⟨p, hp, h⟩ := bind_eq_ok.mp h
    exact ⟨Nat.le_of_not_lt hmax, s, b, p, hs, hb, hp, (pure_eq_ok.mp h).symm⟩

/-- … and conversely: a packet whose parts pack, packs. -/
theorem packet_pack_of_parts {shim : Shim} {hops : List IntHop}
    {payload : Except PyError (List Byte)} {s b p : List Byte} (hmax : hops.length ≤ MAX_HOPS)
    (hs : Shim.pack { shim with hop_count := hops.length, max_hops := MAX_HOPS } = .ok s)
    (hb : pack_hops hops = .ok b) (hp : payload = .ok p) :
    packet_pack shim hops payload = .ok (s ++ b ++ p) := by
  unfold packet_pack
  rw [if_neg (Nat.not_lt.mpr hmax)]
  simp only [hs, hb, hp, ok_bind]
  rfl

/-- Where the three parts of a packed packet are, whatever follows it. -/
theorem packet_pack_layout {shim : Shim} {hops : List IntHop}
    {payload : Except PyError (List Byte)} {bs : List Byte}
    (h : packet_pack shim hops payload = .ok bs) (tail : List Byte) :
    hops.length ≤ MAX_HOPS ∧ ∃ p, payload = .ok p ∧
      bs.length = SHIM_SIZE + hops.length * INT_HOP_SIZE + p.length ∧
      Shim.unpack (bs ++ tail)
        = .ok { shim with hop_count := hops.length, max_hops := MAX_HOPS } ∧
      unpack_hops (bs ++ tail) hops.length SHIM_SIZE = .ok hops ∧
      slice (bs ++ tail) (SHIM_SIZE + hops.length * INT_HOP_SIZE) p.length = p := by
  obtain ⟨hmax, s, b, p, hs, hb, hp, rfl⟩ := packet_pack_spec h
  obtain ⟨hls, hus⟩ := Shim.unpack_pack hs
  obtain ⟨hlb, hub⟩ := unpack_hops_pack hb
  refine ⟨hmax, p, hp, by simp only [List.length_append, hls, hlb], ?_, ?_, ?_⟩
  · rw [List.append_assoc, List.append_assoc]
    exact hus _
  · have := hub s (p ++ tail)
    rwa [hls, ← List.append_assoc, ← List.append_assoc] at this
  · rw [List.append_assoc]
    exact slice_mid (by rw [List.length_append, hls, hlb]) rfl

/-- What a packed ACK packet looks like: the size, and the three parts at their
offsets. -/
theorem AckPacket.pack_layout {a : AckPacket} {bs : List Byte} (h : a.pack = .ok bs) :
    a.hops.length ≤ MAX_HOPS ∧
      bs.length = SHIM_SIZE + a.hops.length * INT_HOP_SIZE + ACK_PAYLOAD_SIZE ∧
      Shim.unpack bs = .ok { a.shim with hop_count := a.hops.length, max_hops := MAX_HOPS } ∧
      unpack_hops bs a.hops.length SHIM_SIZE = .ok a.hops ∧
      AckPayload.unpack (slice bs (SHIM_SIZE + a.hops.length * INT_HOP_SIZE) ACK_PAYLOAD_SIZE)
        = .ok a.payload := by
  obtain ⟨hmax, p, hp, hlen, hshim, hhops, hslice⟩ := packet_pack_layout h []
  obtain ⟨hlp, hup⟩ := AckPayload.unpack_pack hp
  rw [hlp, List.append_nil] at hslice
  rw [List.append_nil] at hshim hhops
  refine ⟨hmax, by rw [hlen, hlp], hshim, hhops, ?_⟩
  rw [hslice]
  simpa using hup []

/-- A packed data packet is read back, whatever follows it. -/
theorem DataPacket.unpack_pack {d : DataPacket} {bs : List Byte} (h : d.pack = .ok bs)
    (tail : List Byte) :
    DataPacket.unpack (bs ++ tail) = .ok { d with
      shim := { d.shim with hop_count := d.hops.length, max_hops := MAX_HOPS } } := by
  obtain ⟨-, p, hp, -, hshim, hhops, hslice⟩ := packet_pack_layout h tail
  obtain ⟨hlp, hup⟩ := DataPayload.unpack_pack hp
  have hpay : DataPayload.unpack p = .ok d.payload := by simpa using hup []
  rw [hlp] at hslice
  simp only [DataPacket.unpack, hshim, ok_bind, Int.toNat_natCast, hhops, hslice, hpay]
  rfl

/-! ## Enough bytes always parse -/

theorem Shim.unpack_of_length {buf : List Byte} (h : SHIM_SIZE ≤ buf.length) :
    Shim.unpack buf = .ok (Shim.of_bytes buf) := by
  rw [Shim.unpack, if_pos (slice_length (by omega))]

theorem IntHop.unpack_of_length {buf : List Byte} (h : INT_HOP_SIZE ≤ buf.length) :
    IntHop.unpack buf = .ok (IntHop.of_bytes buf) := by
  rw [IntHop.unpack, if_pos (slice_length (by omega))]

theorem AckPayload.unpack_of_length {buf : List Byte} (h : ACK_PAYLOAD_SIZE ≤ buf.length) :
    ∃ ack, AckPayload.unpack buf = .ok ack := by
  rw [AckPayload.unpack, if_pos (slice_length (by omega))]
  exact ⟨_, rfl⟩

/-- The hop loop reads as many entries as there is room for. -/
theorem unpack_hops_of_length {buf : List Byte} {n off : ℕ}
    (h : off + n * INT_HOP_SIZE ≤ buf.length) :
    ∃ hops, unpack_hops buf n off = .ok hops ∧ hops.length = n := by
  induction n generalizing off with
  | zero => exact ⟨[], rfl, rfl⟩
  | succ n ih =>
      rw [Nat.succ_mul] at h
      have hslice : (slice buf off INT_HOP_SIZE).length = INT_HOP_SIZE :=
        slice_length (by omega)
      have hroom : off + INT_HOP_SIZE + n * INT_HOP_SIZE ≤ buf.length := by omega
      obtain ⟨hops, hrest, hlen⟩ := ih hroom
      refine ⟨IntHop.of_bytes (slice buf off INT_HOP_SIZE) :: hops, ?_, by rw [List.length_cons, hlen]⟩
      rw [unpack_hops, IntHop.unpack_of_length hslice.ge, hrest]
      rfl

end IntHpcc.PacketFormat
