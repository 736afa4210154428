/-
The open-loop sender and its CSV log.

`open_loop.py` has no window and never sends a packet twice. Its loop notes the time of a
packet in `pending`, builds the packet and sends it, in this order; its listener takes a
number out of `pending` for the first ACK with that number, and then writes a row. The two
halves of the listener hold different locks, so between any two of these actions the other
thread may run, and a number can be in the listener's hand: taken out and not yet written.

The log is all that is left of a run, so what it says has to be so: every number stands in
`pending` or in exactly one row, written or in the listener's hand, and never in both; and
each row is about an arrival that took place, with the hops and the ECN codepoint of that
arrival (`open_loop_log`).
-/
import IntHpcc.AckFormat
import IntHpcc.Network

set_option autoImplicit false

namespace IntHpcc.OpenLoop

open IntHpcc.Runs IntHpcc.Bytes IntHpcc.Py IntHpcc.PacketFormat IntHpcc.Reflector
open IntHpcc.Network (arriving reflect)

/-- A row of the log. -/
structure Row where
  seq : ℤ
  send_ts_us : ℤ
  ack_ts_us : ℤ
  rtt_us : ℤ
  hop_count : ℤ
  ecn_echo : ℤ
  deriving DecidableEq, Repr

/-- The variables of `run_open_loop`. `ts` is set from the note in `pending` until `sendto`
has returned; if something has been raised there, it stays set and the loop is over. `hand`
is the row of the listener between its two locks, and `sock` holds what `sendto` has
taken. -/
structure Loop where
  pending : AList fun _ : ℤ => ℤ
  hand : Option Row
  rows : List Row
  seq : ℤ
  ts : Option Us
  raised : Bool
  sock : List DataPayload

inductive Op
  /-- an iteration begins: `_now_us()`, and the note in `pending` -/
  | stamp (ts : Us)
  /-- it builds and sends the packet; `sendto` returns or raises `OSError` -/
  | sendto (returns : Bool)
  /-- the listener reads a datagram and, under `pending_lock`, takes its number out -/
  | datagram (data : List Byte) (recv_ts : Us)
  /-- the listener writes the row, under `csv_lock` -/
  | writerow

/-- The body of the loop of `_ack_listener`, up to the lock for the row. -/
def ack_listener (data : List Byte) (recv_ts : Us) (st : Loop) : Loop :=
  match read_ack data with
  | .ok (some (shim, ack)) =>
    match st.pending.lookup ack.ack_seq with
    | none => st
    | some send_ts => { st with
        pending := st.pending.erase ack.ack_seq
        hand := some {
          seq := ack.ack_seq
          send_ts_us := send_ts
          ack_ts_us := recv_ts.val
          rtt_us := recv_ts.val - send_ts
          hop_count := shim.hop_count
          ecn_echo := if shim.ecn_echo then 1 else 0 } }
  | _ => st

/-- The rest of it. -/
def writerow (row : Row) (st : Loop) : Loop :=
  { st with hand := none, rows := st.rows ++ [row] }

/-- The packet of an iteration. -/
def packet (seq : ℤ) (ts : Us) : DataPacket := { payload := { seq := seq, send_ts_us := ts.val } }

def Loop.step : Op → Loop → Option Loop
  | .stamp ts, st =>
    if st.ts = none then
      some { st with
        pending := st.pending.insert st.seq ts.val
        ts := some ts }
    else none
  | .sendto returns, st =>
    match st.ts with
    | none => none
    | some ts =>
      if st.raised then none
      else if returns ∧ (packet st.seq ts).pack.isOk then
        some { st with
          sock := st.sock ++ [(packet st.seq ts).payload]
          seq := st.seq + 1
          ts := none }
      else some { st with raised := true }
  | .datagram data recv_ts, st =>
    -- the listener is back at `recvfrom` only when its row is written
    if st.hand = none then some (ack_listener data recv_ts st) else none
  | .writerow, st => st.hand.map fun row => writerow row st

/-- The harness, the reflector and the network between them: what arrived at the
reflector, with its ECN codepoint, and the ACKs it sent. -/
structure Net where
  loop : Loop
  arrivals : List (DataPacket × ℕ)
  acks : List (List Byte)

inductive NetEvent
  | thread (op : Op)
  /-- the `i`-th packet reaches the reflector with these hops -/
  | deliver (i : ℕ) (hops : List IntHop) (ecn_codepoint : ℕ) (recv_ts_us : Us)
  /-- the `j`-th ACK reaches the listener -/
  | ack (j : ℕ) (recv_ts : Us)

/-- The datagrams of the listener come from the network. -/
def Op.own : Op → Bool
  | .datagram _ _ => false
  | _ => true

def Net.step : NetEvent → Net → Option Net
  | .thread op, n =>
    if op.own then (n.loop.step op).map fun loop => { n with loop := loop } else none
  | .deliver i hops ecn_codepoint recv_ts_us, n =>
    match n.loop.sock[i]? with
    | none => none
    | some payload =>
      match arriving 0 payload hops with
      | .error _ => none
      | .ok data => some { n with
          arrivals := n.arrivals ++ [({ hops := hops, payload := payload }, ecn_codepoint)]
          acks := n.acks ++ (reflect data ecn_codepoint recv_ts_us).toList }
  | .ack j recv_ts, n =>
    match n.acks[j]? with
    | none => none
    | some data => (n.loop.step (.datagram data recv_ts)).map fun loop => { n with loop := loop }

def Loop.start : Loop where
  pending := ∅
  hand := none
  rows := []
  seq := 0
  ts := none
  raised := false
  sock := []

def Net.start : Net where
  loop := Loop.start
  arrivals := []
  acks := []

/-! ## The books of the loop -/

/-- How many numbers have been noted. -/
def Loop.noted (st : Loop) : ℤ := st.seq + if st.ts.isSome then 1 else 0

/-- The rows made so far: those of the log, and the one in the listener's hand. -/
def Loop.made (st : Loop) : List Row := st.rows ++ st.hand.toList

/-- Whatever datagrams the listener gets: each number noted is in `pending` or in one row,
and `pending` has the time the packet with this number was stamped with. -/
structure Books (st : Loop) : Prop where
  seq_nonneg : 0 ≤ st.seq
  noted_iff : ∀ s, s ∈ st.pending ∨ s ∈ st.made.map Row.seq ↔ 0 ≤ s ∧ s < st.noted
  apart : ∀ s ∈ st.pending, s ∉ st.made.map Row.seq
  once : (st.made.map Row.seq).Nodup
  counted : (st.made.length : ℤ) + st.pending.keys.length = st.noted
  sent : ∀ pkt ∈ st.sock, pkt.seq < st.seq ∧
    ∀ t, st.pending.lookup pkt.seq = some t → t = pkt.send_ts_us
  current : ∀ ts, st.ts = some ts → ∀ t, st.pending.lookup st.seq = some t → t = (ts.val : ℤ)

section

variable {st st' : Loop}

theorem books_start : Books Loop.start := by
  refine ⟨le_refl _, ?_, ?_, List.nodup_nil, rfl, ?_, ?_⟩
  · intro s
    simp only [Loop.start, Loop.noted, Loop.made, AList.notMem_empty, Option.toList_none,
      List.append_nil, List.map_nil, List.not_mem_nil, or_self, Option.isSome_none,
      Bool.false_eq_true, if_false, false_iff, not_and]
    omega
  · intro s hs
    exact absurd hs (AList.notMem_empty s)
  · intro pkt hpkt
    exact absurd hpkt List.not_mem_nil
  · intro ts hts
    cases hts

/-- A new number is noted. -/
theorem books_stamp (h : Books st) {ts : Us} (hts : st.ts = none) :
    Books { st with pending := st.pending.insert st.seq ts.val, ts := some ts } := by
  -- between iterations the notes are exactly the numbers below `st.seq`, so this one is new
  have hnoted : st.noted = st.seq := by simp [Loop.noted, hts]
  have hnew : ¬ (st.seq ∈ st.pending ∨ st.seq ∈ st.made.map Row.seq) := by
    rw [h.noted_iff, hnoted]
    omega
  obtain ⟨hpending, hmade⟩ := not_or.mp hnew
  have hnoted' : Loop.noted { st with pending := st.pending.insert st.seq ts.val, ts := some ts }
      = st.seq + 1 := rfl
  -- the rows are as they were: only the clauses about `pending` and the stamp are new
  refine ⟨h.seq_nonneg, ?_, ?_, h.once, ?_, ?_, ?_⟩
  · intro s
    have hiff := h.noted_iff s
    have hnonneg := h.seq_nonneg
    rw [hnoted] at hiff
    rw [hnoted', AList.mem_insert, or_assoc]
    change s = st.seq ∨ (s ∈ st.pending ∨ s ∈ st.made.map Row.seq) ↔ _
    rw [hiff]
    omega
  · intro s hs
    rcases AList.mem_insert _ |>.mp hs with rfl | hs
    · exact hmade
    · exact h.apart s hs
  · have hcounted := h.counted
    rw [hnoted] at hcounted
    show (st.made.length : ℤ) + (st.pending.insert st.seq ts.val).keys.length = st.seq + 1
    rw [AList.keys_insert, List.erase_of_not_mem hpending, List.length_cons]
    push_cast
    linarith only [hcounted]
  · intro pkt hpkt
    -- what has left has a smaller number, so its note is not the one just made
    obtain ⟨hlt, hlookup⟩ := h.sent pkt hpkt
    refine ⟨hlt, ?_⟩
    show ∀ t, (st.pending.insert st.seq ts.val).lookup pkt.seq = some t → _
    rw [AList.lookup_insert_ne (by omega)]
    exact hlookup
  · intro ts' hts' t ht
    cases hts'
    change (st.pending.insert st.seq (ts.val : ℤ)).lookup st.seq = some t at ht
    rw [AList.lookup_insert, Option.some.injEq] at ht
    exact ht.symm

/-- An iteration is over. -/
theorem books_sent (h : Books st) {ts : Us} (hts : st.ts = some ts) :
    Books { st with
      sock := st.sock ++ [(packet st.seq ts).payload]
      seq := st.seq + 1
      ts := none } := by
  have hnoted : st.noted = st.seq + 1 := by simp [Loop.noted, hts]
  have hnoted' : Loop.noted { st with
      sock := st.sock ++ [(packet st.seq ts).payload], seq := st.seq + 1, ts := none }
      = st.seq + 1 := by simp [Loop.noted]
  have hnonneg := h.seq_nonneg
  -- `seq` goes up and the stamp is dropped: the numbers noted stay the same
  refine ⟨by show 0 ≤ st.seq + 1; omega, ?_, h.apart, h.once, ?_, ?_, ?_⟩
  · intro s
    rw [hnoted', ← hnoted]
    exact h.noted_iff s
  · rw [hnoted', ← hnoted]
    exact h.counted
  · intro pkt hpkt
    rcases List.mem_append.mp hpkt with hold | hnew
    · obtain ⟨hlt, hlookup⟩ := h.sent pkt hold
      exact ⟨by show pkt.seq < st.seq + 1; omega, hlookup⟩
    · obtain rfl := List.mem_singleton.mp hnew
      -- the packet that leaves carries the stamp of this iteration
      exact ⟨Int.lt_succ _, h.current ts hts⟩
  · intro ts' hts'
    cases hts'

/-- The listener takes a number out: it goes from `pending` to the row in hand. -/
theorem books_hand (h : Books st) (hfree : st.hand = none) {row : Row}
    (hrow : row.seq ∈ st.pending) :
    Books { st with pending := st.pending.erase row.seq, hand := some row } := by
  have hnew := h.apart row.seq hrow
  -- one row more is made, the one in hand, and one note less is pending
  have hmade : Loop.made { st with pending := st.pending.erase row.seq, hand := some row }
      = st.made ++ [row] := by
    unfold Loop.made
    rw [hfree, Option.toList_none, List.append_nil]
    rfl
  refine ⟨h.seq_nonneg, ?_, ?_, ?_, ?_, ?_, ?_⟩
  · intro s
    rw [hmade, show Loop.noted { st with pending := st.pending.erase row.seq, hand := some row }
      = st.noted from rfl, ← h.noted_iff s]
    simp only [AList.mem_erase, List.map_append, List.map_cons, List.map_nil, List.mem_append,
      List.mem_singleton]
    -- only the number in hand changes sides
    by_cases hs : s = row.seq
    · subst hs
      simp [hrow]
    · simp [hs]
  · intro s hs
    obtain ⟨hne, hs⟩ := AList.mem_erase.mp hs
    rw [hmade]
    simp only [List.map_append, List.map_cons, List.map_nil, List.mem_append, List.mem_singleton,
      not_or]
    exact ⟨h.apart s hs, hne⟩
  · rw [hmade]
    simp only [List.map_append, List.map_cons, List.map_nil]
    rw [← List.concat_eq_append]
    exact h.once.concat hnew
  · -- the row made and the note taken out balance
    have hcounted := h.counted
    have hkeys : (st.pending.erase row.seq).keys.length + 1 = st.pending.keys.length := by
      rw [AList.keys_erase, List.length_erase_of_mem hrow]
      have hpos := List.length_pos_of_mem hrow
      omega
    rw [hmade]
    show ((st.made ++ [row]).length : ℤ) + (st.pending.erase row.seq).keys.length = st.noted
    rw [List.length_append, List.length_singleton, ← hcounted, ← hkeys]
    push_cast
    ring
  · intro pkt hpkt
    obtain ⟨hlt, hlookup⟩ := h.sent pkt hpkt
    refine ⟨hlt, fun t ht => hlookup t ?_⟩
    -- a note that is still there was there before
    change (st.pending.erase row.seq).lookup pkt.seq = some t at ht
    by_cases hs : pkt.seq = row.seq
    · rw [hs, AList.lookup_erase] at ht
      cases ht
    · rw [AList.lookup_erase_ne hs] at ht
      exact ht
  · intro ts hts t ht
    refine h.current ts hts t ?_
    change (st.pending.erase row.seq).lookup st.seq = some t at ht
    by_cases hs : st.seq = row.seq
    · rw [hs, AList.lookup_erase] at ht
      cases ht
    · rw [AList.lookup_erase_ne hs] at ht
      exact ht

/-- Writing the row down makes no row. -/
theorem made_writerow {row : Row} (hhand : st.hand = some row) :
    (writerow row st).made = st.made := by
  unfold Loop.made writerow
  rw [hhand]
  exact List.append_nil _

theorem books_writerow (h : Books st) {row : Row} (hhand : st.hand = some row) :
    Books (writerow row st) := by
  have hmade := made_writerow hhand
  refine ⟨h.seq_nonneg, ?_, ?_, ?_, ?_, h.sent, h.current⟩
  · rw [hmade]
    exact h.noted_iff
  · rw [hmade]
    exact h.apart
  · rw [hmade]
    exact h.once
  · rw [hmade]
    exact h.counted

/-- What a datagram can do: nothing, or put a row in the hand for a number that is in
`pending`. -/
theorem ack_listener_cases (data : List Byte) (recv_ts : Us) (st : Loop) :
    ack_listener data recv_ts st = st ∨
      ∃ shim ack row, read_ack data = .ok (some (shim, ack)) ∧
        st.pending.lookup ack.ack_seq = some row.send_ts_us ∧ row.seq = ack.ack_seq ∧
        row.rtt_us = row.ack_ts_us - row.send_ts_us ∧ row.hop_count = shim.hop_count ∧
        row.ecn_echo = (if shim.ecn_echo then 1 else 0) ∧
        ack_listener data recv_ts st
          = { st with pending := st.pending.erase row.seq, hand := some row } := by
  unfold ack_listener
  split
  · next shim ack hread =>
    split
    · exact Or.inl rfl
    · next send_ts hlookup =>
      exact Or.inr ⟨shim, ack, ⟨ack.ack_seq, send_ts, recv_ts.val, recv_ts.val - send_ts,
        shim.hop_count, if shim.ecn_echo then 1 else 0⟩, hread, hlookup, rfl, rfl, rfl, rfl, rfl⟩
  · exact Or.inl rfl

theorem books_ack_listener (h : Books st) (hfree : st.hand = none) (data : List Byte)
    (recv_ts : Us) : Books (ack_listener data recv_ts st) := by
  rcases ack_listener_cases data recv_ts st with
    heq | ⟨shim, ack, row, -, hlookup, hseq, -, -, -, heq⟩
  · rw [heq]
    exact h
  · rw [heq]
    refine books_hand h hfree ?_
    rw [hseq]
    exact AList.lookup_isSome.mp (by rw [hlookup]; rfl)

/-- The actions of the threads, each with what it does. -/
theorem step_cases {op : Op} (hstep : st.step op = some st') :
    (∃ ts, op = .stamp ts ∧ st.ts = none ∧
      st' = { st with pending := st.pending.insert st.seq ts.val, ts := some ts }) ∨
    (∃ returns ts, op = .sendto returns ∧ st.ts = some ts ∧ st.raised = false ∧
      ((returns = true ∧ (packet st.seq ts).pack.isOk = true ∧
          st' = { st with
            sock := st.sock ++ [(packet st.seq ts).payload]
            seq := st.seq + 1
            ts := none }) ∨
        ¬ (returns = true ∧ (packet st.seq ts).pack.isOk = true) ∧
          st' = { st with raised := true })) ∨
    (∃ data recv_ts, op = .datagram data recv_ts ∧ st.hand = none ∧
      st' = ack_listener data recv_ts st) ∨
    (∃ row, op = .writerow ∧ st.hand = some row ∧ st' = writerow row st) := by
  cases op with
  | stamp ts =>
      simp only [Loop.step] at hstep
      split at hstep
      case isFalse => cases hstep
      next hts =>
      exact Or.inl ⟨ts, rfl, hts, (Option.some.inj hstep).symm⟩
  | sendto returns =>
      simp only [Loop.step] at hstep
      split at hstep
      · cases hstep
      next ts hts =>
      split at hstep
      · cases hstep
      next hraised =>
      refine Or.inr (Or.inl ⟨returns, ts, rfl, hts, Bool.eq_false_of_not_eq_true hraised, ?_⟩)
      split at hstep
      · next hsent => exact Or.inl ⟨hsent.1, hsent.2, (Option.some.inj hstep).symm⟩
      · next hnot => exact Or.inr ⟨hnot, (Option.some.inj hstep).symm⟩
  | datagram data recv_ts =>
      simp only [Loop.step] at hstep
      split at hstep
      case isFalse => cases hstep
      next hfree =>
      exact Or.inr (Or.inr (Or.inl ⟨data, recv_ts, rfl, hfree, (Option.some.inj hstep).symm⟩))
  | writerow =>
      obtain ⟨row, hhand, hst⟩ := Option.map_eq_some_iff.mp hstep
      exact Or.inr (Or.inr (Or.inr ⟨row, rfl, hhand, hst.symm⟩))

theorem books_step {op : Op} (h : Books st) (hstep : st.step op = some st') : Books st' := by
  rcases step_cases hstep with ⟨ts, -, hts, rfl⟩ | ⟨returns, ts, -, hts, -, hsent | hraised⟩ |
    ⟨data, recv_ts, -, hfree, rfl⟩ | ⟨row, -, hhand, rfl⟩
  · exact books_stamp h hts
  · obtain ⟨-, -, rfl⟩ := hsent
    exact books_sent h hts
  · -- something is raised: the note stays
    obtain ⟨-, rfl⟩ := hraised
    exact ⟨h.seq_nonneg, h.noted_iff, h.apart, h.once, h.counted, h.sent, h.current⟩
  · exact books_ack_listener h hfree data recv_ts
  · exact books_writerow h hhand

/-- `sock` only grows. -/
theorem sock_sub_step {op : Op} (hstep : st.step op = some st') : st.sock ⊆ st'.sock := by
  rcases step_cases hstep with ⟨ts, -, -, rfl⟩ | ⟨returns, ts, -, -, -, hsent | hraised⟩ |
    ⟨data, recv_ts, -, -, rfl⟩ | ⟨row, -, -, rfl⟩
  · exact List.Subset.refl _
  · -- the one step that transmits
    obtain ⟨-, -, rfl⟩ := hsent
    exact List.subset_append_left _ _
  · obtain ⟨-, rfl⟩ := hraised
    exact List.Subset.refl _
  · -- the listener only receives
    rcases ack_listener_cases data recv_ts st with heq | ⟨-, -, row, -, -, -, -, -, -, heq⟩
    · rw [heq]
      exact List.Subset.refl _
    · rw [heq]
      exact List.Subset.refl _
  · exact List.Subset.refl _

/-- A thread does something of its own: no row is made. -/
theorem made_step {op : Op} (hown : op.own = true) (hstep : st.step op = some st') :
    st'.made = st.made := by
  rcases step_cases hstep with ⟨ts, -, -, rfl⟩ | ⟨returns, ts, -, -, -, hsent | hraised⟩ |
    ⟨data, recv_ts, rfl, -, -⟩ | ⟨row, -, hhand, rfl⟩
  · rfl
  · obtain ⟨-, -, rfl⟩ := hsent
    rfl
  · obtain ⟨-, rfl⟩ := hraised
    rfl
  · -- the listener is the only thread that makes rows
    cases hown
  · exact made_writerow hhand

end

/-! ## The log of a run -/

/-- The row is about this arrival. -/
structure Reports (row : Row) (a : DataPacket × ℕ) : Prop where
  seq : row.seq = a.1.payload.seq
  send_ts_us : row.send_ts_us = a.1.payload.send_ts_us
  rtt_us : row.rtt_us = row.ack_ts_us - row.send_ts_us
  hop_count : row.hop_count = a.1.hops.length
  ecn_echo : row.ecn_echo = if a.2 = ECN_CE then 1 else 0

structure Truthful (n : Net) : Prop where
  books : Books n.loop
  arrivals : ∀ a ∈ n.arrivals, a.1.payload ∈ n.loop.sock
  acks : ∀ data ∈ n.acks, ∃ a ∈ n.arrivals, ∃ t, (answer a.1 a.2 t).pack = .ok data
  rows : ∀ row ∈ n.loop.made, ∃ a ∈ n.arrivals, Reports row a

/-- The two Python listeners with no use for the hops read alike. -/
theorem read_ack_pack {a : AckPacket} {data : List Byte} (h : a.pack = .ok data) :
    read_ack data = .ok (some
      ({ a.shim with hop_count := a.hops.length, max_hops := MAX_HOPS }, a.payload)) := by
  obtain ⟨hmax, hlen, -, -, -⟩ := AckPacket.pack_layout h
  simp only [SHIM_SIZE, INT_HOP_SIZE, ACK_PAYLOAD_SIZE, MAX_HOPS] at hmax hlen
  have htake : data.take RECV_BUF = data.take 2048 := by
    simp only [RECV_BUF]
    rw [List.take_of_length_le (by omega), List.take_of_length_le (by omega)]
  have hsame : read_ack data = Dctcp.read_ack data := by
    unfold read_ack Dctcp.read_ack
    rw [htake]
  rw [hsame, Dctcp.read_ack_pack h]

/-- The listener's `ecn_echo` for the flags the reflector sets. -/
theorem ecn_echo_answer (shim : Shim) (ecn_codepoint : ℕ) (hop_count max_hops : ℤ) :
    (if ({ out_shim shim ecn_codepoint with
        hop_count := hop_count, max_hops := max_hops } : Shim).ecn_echo then (1 : ℤ) else 0)
      = if ecn_codepoint = ECN_CE then 1 else 0 := by
  unfold out_shim Shim.ecn_echo
  dsimp only
  by_cases h : ecn_codepoint = ECN_CE
  · rw [if_pos h, if_pos h]
    simp [SHIM_FLAG_ECN_ECHO]
  · rw [if_neg h, if_neg h]
    simp

/-! ## The two ends -/

section

variable {n n' : Net}

/-- The listener hears an ACK of the network. -/
theorem truthful_ack (h : Truthful n) (hfree : n.loop.hand = none) {data : List Byte}
    (hdata : data ∈ n.acks) (recv_ts : Us) :
    Truthful { n with loop := ack_listener data recv_ts n.loop } := by
  obtain ⟨a, ha, t, hpack⟩ := h.acks data hdata
  have hread := read_ack_pack hpack
  have hbooks := books_ack_listener h.books hfree data recv_ts
  rcases ack_listener_cases data recv_ts n.loop with
    heq | ⟨shim, ack, row, hread', hlookup, hseq, hrtt, hhops, hecho, heq⟩
  · rw [heq]
    exact h
  · rw [hread, Except.ok.injEq, Option.some.injEq, Prod.mk.injEq] at hread'
    obtain ⟨rfl, rfl⟩ := hread'
    rw [heq] at hbooks ⊢
    refine ⟨hbooks, h.arrivals, h.acks, ?_⟩
    intro row' hrow'
    rcases List.mem_append.mp hrow' with hold | hnew
    · exact h.rows row' (List.mem_append_left _ hold)
    · -- the note in `pending` is the stamp of the packet that was answered
      obtain rfl := List.mem_singleton.mp hnew
      refine ⟨a, ha, hseq, ?_, hrtt, hhops, hecho.trans (ecn_echo_answer _ _ _ _)⟩
      exact (h.books.sent a.1.payload (h.arrivals a ha)).2 _ hlookup

/-- A packet arrives at the reflector. -/
theorem truthful_deliver (h : Truthful n) {i : ℕ} {hops : List IntHop} {ecn_codepoint : ℕ}
    {recv_ts_us : Us} (hstep : n.step (.deliver i hops ecn_codepoint recv_ts_us) = some n') :
    Truthful n' := by
  simp only [Net.step] at hstep
  split at hstep
  · cases hstep
  next payload hi =>
  split at hstep
  · cases hstep
  next data harr =>
  -- the packet is well formed, so the reflector answers it
  obtain ⟨ack, hack, hreflect⟩ := Network.reflect_arriving harr ecn_codepoint recv_ts_us
  rw [hreflect] at hstep
  cases hstep
  refine ⟨h.books, ?_, ?_, ?_⟩
  · intro a ha
    rcases List.mem_append.mp ha with hold | hnew
    · exact h.arrivals a hold
    · obtain rfl := List.mem_singleton.mp hnew
      exact List.mem_of_getElem? hi
  · -- the new ACK answers the new arrival; the rows keep the arrivals they had
    intro data' hdata'
    rcases List.mem_append.mp hdata' with hold | hnew
    · obtain ⟨a, ha, hpack⟩ := h.acks data' hold
      exact ⟨a, List.mem_append_left _ ha, hpack⟩
    · obtain rfl := List.mem_singleton.mp hnew
      exact ⟨_, List.mem_append_right _ List.mem_cons_self, recv_ts_us, hack⟩
  · intro row hrow
    obtain ⟨a, ha, hreports⟩ := h.rows row hrow
    exact ⟨a, List.mem_append_left _ ha, hreports⟩

theorem truthful_step {e : NetEvent} (h : Truthful n) (hstep : n.step e = some n') :
    Truthful n' := by
  cases e with
  | thread op =>
      simp only [Net.step] at hstep
      split at hstep
      case isFalse => cases hstep
      next hown =>
      obtain ⟨loop, hloop, rfl⟩ := Option.map_eq_some_iff.mp hstep
      -- a thread of its own transmits at most, and makes no row
      refine ⟨books_step h.books hloop, ?_, h.acks, ?_⟩
      · intro a ha
        exact sock_sub_step hloop (h.arrivals a ha)
      · intro row hrow
        change row ∈ loop.made at hrow
        rw [made_step hown hloop] at hrow
        exact h.rows row hrow
  | deliver i hops ecn_codepoint recv_ts_us => exact truthful_deliver h hstep
  | ack j recv_ts =>
      simp only [Net.step] at hstep
      split at hstep
      · cases hstep
      next data hj =>
      obtain ⟨loop, hloop, rfl⟩ := Option.map_eq_some_iff.mp hstep
      simp only [Loop.step] at hloop
      split at hloop
      case isFalse => cases hloop
      next hfree =>
      cases hloop
      -- an ACK on the way answers an arrival, so the row taken from it is true
      exact truthful_ack h hfree (List.mem_of_getElem? hj) recv_ts

theorem truthful_start : Truthful Net.start := by
  refine ⟨books_start, ?_, ?_, ?_⟩
  · intro a ha
    exact absurd ha List.not_mem_nil
  · intro data hdata
    exact absurd hdata List.not_mem_nil
  · intro row hrow
    exact absurd hrow List.not_mem_nil

end

/-- **The log of the open-loop sender.** In every state of every run over a network that
loses, doubles, delays and reorders: each number up to the last one noted is in `pending`
or in a row of the log or in the listener's hand, none is in two of these places or in two
rows, so when no packet is being sent `sent` is the rows, `unacked` and the row in hand
together; and every row is about a packet that reached the reflector, with its number and
its stamp, the hops it brought and whether it came with CE. -/
theorem open_loop_log (es : List NetEvent) (n : Net)
    (hrun : run Net.step Net.start es = some n) :
    (∀ s, s ∈ n.loop.pending ∨ s ∈ n.loop.made.map Row.seq ↔ 0 ≤ s ∧ s < n.loop.noted) ∧
      (∀ s ∈ n.loop.pending, s ∉ n.loop.made.map Row.seq) ∧
      (n.loop.made.map Row.seq).Nodup ∧
      (n.loop.ts = none → n.loop.seq = n.loop.rows.length + n.loop.pending.keys.length
        + if n.loop.hand.isSome then 1 else 0) ∧
      ∀ row ∈ n.loop.made, ∃ a ∈ n.arrivals, Reports row a := by
  have h := run_invariant (fun _ _ _ h hstep => truthful_step h hstep) truthful_start hrun
  refine ⟨h.books.noted_iff, h.books.apart, h.books.once, ?_, h.rows⟩
  intro hts
  have hcounted := h.books.counted
  -- between iterations the numbers noted are those below `seq`
  rw [Loop.noted, hts, Loop.made, List.length_append] at hcounted
  cases hhand : n.loop.hand with
  | none =>
      rw [hhand] at hcounted
      simpa using hcounted.symm
  | some row =>
      rw [hhand] at hcounted
      simp at hcounted ⊢
      omega

/-- Packet 0 is answered twice, packet 1 once, with its row in the listener's hand, and
packet 2 not at all; packet 3 is being sent. -/
def in_hand : List NetEvent :=
  [.thread (.stamp zero_us), .thread (.sendto true), .thread (.stamp zero_us),
    .deliver 0 [] ECN_CE zero_us, .deliver 0 [] 0 zero_us, .ack 1 zero_us, .thread .writerow,
    .ack 0 zero_us, .thread (.sendto true), .thread (.stamp zero_us), .deliver 1 [] ECN_CE zero_us,
    .ack 2 zero_us, .thread (.sendto true), .thread (.stamp zero_us)]

theorem in_hand_state :
    (run Net.step Net.start in_hand).map (fun n =>
      (n.loop.rows, n.loop.hand, n.loop.pending.keys, n.loop.noted))
      = some ([⟨0, 0, 0, 0, 0, 0⟩], some ⟨1, 0, 0, 0, 0, 1⟩, [3, 2], 4) := by
  decide +kernel

/-- The first row is about the arrival without CE, whose ACK came first; the row in hand is
about the marked arrival of packet 1. -/
theorem open_loop_log_in_hand : ∃ n : Net, run Net.step Net.start in_hand = some n ∧
    (∃ a ∈ n.arrivals, Reports ⟨0, 0, 0, 0, 0, 0⟩ a) ∧
    ∃ a ∈ n.arrivals, Reports ⟨1, 0, 0, 0, 0, 1⟩ a := by
  obtain ⟨n, hrun, hstate⟩ := Option.map_eq_some_iff.mp in_hand_state
  rw [Prod.mk.injEq, Prod.mk.injEq] at hstate
  obtain ⟨-, -, -, -, hrows⟩ := open_loop_log in_hand n hrun
  have hmade : n.loop.made = [⟨0, 0, 0, 0, 0, 0⟩, ⟨1, 0, 0, 0, 0, 1⟩] := by
    unfold Loop.made
    rw [hstate.1, hstate.2.1]
    rfl
  rw [hmade] at hrows
  exact ⟨n, hrun, hrows _ List.mem_cons_self, hrows _ (List.mem_cons_of_mem _ List.mem_cons_self)⟩

end IntHpcc.OpenLoop
