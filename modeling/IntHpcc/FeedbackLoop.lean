/-
The feedback in the experiment.

`Utilisation` says that the estimates of a sender are sound when the hops it reads are
reports of the ports, for any ports. In the experiment (`ClosedLoop`) the hops have come a
long way: a register of a switch, the bytes of a frame, the reflector, an answer that crosses
the same switches, the listener. What a listener reads is still what the notes tell
(`Answers`), so the ports can be the two links of the dumbbell and the reports the readings
of their counters (`ports`). All that is assumed is that these links have not carried more
than their rate (`Paced`); then every estimate of every sender, at every moment of every run, is
made of rates the two links really had (`feedback_sound`).

As in `ClosedLoop`, there are no probes of `measure_base_rtt` (the base RTT is given on the
command line), no datagrams of other programs from or to the sender's ports and no
fragments; and as everywhere, what the source computes on floats is exact here.
-/
import IntHpcc.ClosedLoop
import IntHpcc.Utilisation

set_option autoImplicit false

namespace IntHpcc.FeedbackLoop

open IntHpcc.Runs IntHpcc.Bytes IntHpcc.Py IntHpcc.SenderCore IntHpcc.SenderWindow
open IntHpcc.P4 IntHpcc.LoadTables IntHpcc.Dumbbell IntHpcc.DumbbellNotes
open IntHpcc.DumbbellTelemetry IntHpcc.DataPlanes IntHpcc.ClosedLoop
open IntHpcc.Hpcc IntHpcc.Metering IntHpcc.Reflector
open IntHpcc.PacketFormat (IntHop AckPacket DataPayload)
open IntHpcc.Network (Net NetEvent)

/-! ## The links -/

/-- When a switch has sent the frame. -/
def sent_at (t : Taken) : ℕ := t.std_meta.egress_global_timestamp.toNat

/-- The link of a switch toward `r1` has not carried more than its rate: from one data packet
to another no more bytes than the time allows. And its counter has not gone around. -/
structure Paced (notes : List Taken) (sw : Switch) : Prop where
  rate : ∀ l₁ t₁ l₂ t₂ l₃, notes = l₁ ++ t₁ :: (l₂ ++ t₂ :: l₃) → Stamps sw (r1_port sw) t₁ →
    Stamps sw (r1_port sw) t₂ → 8000000 * (bytes_stamped sw (r1_port sw) (l₂ ++ [t₂]) : ℤ)
      ≤ (link_bps sw).toNat * ((sent_at t₂ : ℤ) - sent_at t₁)
  no_wrap : bytes_stamped sw (r1_port sw) notes < 2 ^ 48

/-- The readings of its counter. -/
def readings (notes : List Taken) (sw : Switch) : Set (ℤ × ℤ) :=
  {m | ∃ before t, before ++ [t] <+: notes ∧ Stamps sw (r1_port sw) t ∧
    m = ((sent_at t : ℤ), (bytes_stamped sw (r1_port sw) (before ++ [t]) : ℤ))}

/-- Of two notes one is before the other. -/
theorem noted_in_order {notes before₁ before₂ : List Taken} {t₁ t₂ : Taken}
    (h₁ : before₁ ++ [t₁] <+: notes) (h₂ : before₂ ++ [t₂] <+: notes) :
    before₁ ++ [t₁] = before₂ ++ [t₂] ∨
    (∃ l₂ l₃, notes = before₁ ++ t₁ :: (l₂ ++ t₂ :: l₃) ∧ before₂ = before₁ ++ t₁ :: l₂) ∨
    (∃ l₂ l₃, notes = before₂ ++ t₂ :: (l₂ ++ t₁ :: l₃) ∧ before₁ = before₂ ++ t₂ :: l₂) := by
  have hlater : ∀ {b b' : List Taken} {t t' : Taken}, b ++ [t] <+: b' → b' ++ [t'] <+: notes →
      ∃ l₂ l₃, notes = b ++ t :: (l₂ ++ t' :: l₃) ∧ b' = b ++ t :: l₂ := by
    rintro b b' t t' ⟨l₂, rfl⟩ ⟨l₃, hnotes⟩
    refine ⟨l₂, l₃, ?_, by simp⟩
    rw [← hnotes]
    simp
  rcases List.prefix_or_prefix_of_prefix h₁ h₂ with h | h
  · rcases List.prefix_concat_iff.mp h with heq | hlt
    · exact Or.inl heq
    · exact Or.inr (Or.inl (hlater hlt h₂))
  · rcases List.prefix_concat_iff.mp h with heq | hlt
    · exact Or.inl heq.symm
    · exact Or.inr (Or.inr (hlater hlt h₁))

theorem link_bps_pos (sw : Switch) : 0 < (link_bps sw).toNat := by
  cases sw <;> decide

/-- The counter runs no faster than the link. -/
theorem Paced.rateBounded {notes : List Taken} {sw : Switch} (h : Paced notes sw) :
    RateBounded (((link_bps sw).toNat : ℤ) / 8000000 : ℚ) (readings notes sw) := by
  rintro a ⟨before₁, t₁, h₁, hs₁, rfl⟩ b ⟨before₂, t₂, h₂, hs₂, rfl⟩ hlt
  dsimp only at hlt ⊢
  rcases noted_in_order h₁ h₂ with heq | ⟨l₂, l₃, hnotes, hbefore⟩ | ⟨l₂, l₃, hnotes, -⟩
  · obtain rfl : t₁ = t₂ := by
      have hlast := congrArg List.getLast? heq
      simpa using hlast
    exact absurd hlt (lt_irrefl _)
  · -- the counter has gone on by what was stamped in between
    have hrate := h.rate _ _ _ _ _ hnotes hs₁ hs₂
    have hcount : bytes_stamped sw (r1_port sw) (before₂ ++ [t₂])
        = bytes_stamped sw (r1_port sw) (before₁ ++ [t₁])
          + bytes_stamped sw (r1_port sw) (l₂ ++ [t₂]) := by
      rw [← bytes_stamped_append, hbefore]
      simp
    have hdiff : (bytes_stamped sw (r1_port sw) (before₂ ++ [t₂]) : ℤ)
        - bytes_stamped sw (r1_port sw) (before₁ ++ [t₁])
          = bytes_stamped sw (r1_port sw) (l₂ ++ [t₂]) := by
      rw [hcount]
      push_cast
      ring
    rw [hdiff]
    refine ⟨Int.natCast_nonneg _, ?_⟩
    rw [div_mul_eq_mul_div, le_div_iff₀ (by norm_num)]
    have hrate' : (8000000 * (bytes_stamped sw (r1_port sw) (l₂ ++ [t₂]) : ℤ) : ℚ)
        ≤ ((link_bps sw).toNat * ((sent_at t₂ : ℤ) - sent_at t₁) : ℤ) := by
      exact_mod_cast hrate
    push_cast at hrate' ⊢
    linarith
  · -- the later one of the two does not have the earlier time
    have hrate := h.rate _ _ _ _ _ hnotes hs₂ hs₁
    have hpos := link_bps_pos sw
    have hback : ((link_bps sw).toNat : ℤ) * ((sent_at t₁ : ℤ) - sent_at t₂) < 0 :=
      mul_neg_of_pos_of_neg (by exact_mod_cast hpos) (by omega)
    omega

/-! ## The ports -/

/-- How a sender calls the port of a switch toward `r1`. -/
def port_key (sw : Switch) : ℤ × ℤ :=
  ((switch_id sw).toNat, ((r1_port sw).setWidth 16).toNat)

/-- Whose port it is. -/
def switch_of (key : ℤ × ℤ) : Option Switch :=
  if key = port_key .s1 then some .s1 else if key = port_key .s2 then some .s2 else none

@[simp] theorem switch_of_port_key (sw : Switch) : switch_of (port_key sw) = some sw := by
  cases sw <;> decide

/-- The rate of its link; a port that no switch has is on a link of no consequence. -/
def port_bps (key : ℤ × ℤ) : ℤ :=
  match switch_of key with
  | some sw => (link_bps sw).toNat
  | none => 1

/-- The readings of its counter. -/
def port_readings (notes : List Taken) (key : ℤ × ℤ) : Set (ℤ × ℤ) :=
  match switch_of key with
  | some sw => readings notes sw
  | none => ∅

@[simp] theorem port_bps_key (sw : Switch) : port_bps (port_key sw) = (link_bps sw).toNat := by
  rw [port_bps, switch_of_port_key]

@[simp] theorem port_readings_key (notes : List Taken) (sw : Switch) :
    port_readings notes (port_key sw) = readings notes sw := by
  rw [port_readings, switch_of_port_key]

/-- The ports of the dumbbell, as far as the data goes. -/
def ports (notes : List Taken) (h : ∀ sw, Paced notes sw) : Ports where
  link_bps := port_bps
  samples := port_readings notes
  link_pos key := by
    unfold port_bps
    cases switch_of key with
    | some sw => exact Int.natCast_pos.mpr (link_bps_pos sw)
    | none => exact one_pos
  rate key := by
    unfold port_bps port_readings
    cases switch_of key with
    | some sw => exact (h sw).rateBounded
    | none => exact fun a ha => absurd ha (Set.notMem_empty a)

/-- What the notes tell is a report of the port. -/
theorem drawn_of_tells {notes : List Taken} (h : ∀ sw, Paced notes sw) {i : ℕ}
    {stop : Switch × ℕ} {hop : int_hop_t} (htells : Tells notes i stop hop) :
    (ports notes h).Drawn hop.view := by
  obtain ⟨before, t, hnoted, -, -, hs, rfl⟩ := htells
  have hkey : hop_key (told before t).view = port_key t.switch := rfl
  -- the counter has not wrapped, so what is told is the sum of the bytes stamped
  have hcount : (told before t).tx_byte_count.toNat
      = bytes_stamped t.switch (r1_port t.switch) (before ++ [t]) := by
    obtain ⟨rest, rfl⟩ := hnoted
    have hall := (h t.switch).no_wrap
    rw [bytes_stamped_append] at hall
    rw [told, BitVec.toNat_ofNat, Nat.mod_eq_of_lt (by omega)]
  refine ⟨?_, ?_, ?_⟩
  · show _ ∈ port_readings notes _
    rw [hkey, port_readings_key]
    refine ⟨before, t, hnoted, hs, ?_⟩
    rw [← hcount]
    rfl
  · show _ = port_bps _
    rw [hkey, port_bps_key]
    rfl
  · exact Int.natCast_nonneg _

/-- So are the entries of a data packet. -/
theorem drawn_of_entries {notes : List Taken} (h : ∀ sw, Paced notes sw) {i : ℕ}
    {k : Fin MAX_SENDERS} {entries : List int_hop_t} (hentries : TwoEntries notes i k entries) :
    ∀ hop ∈ entries.map int_hop_t.view, (ports notes h).Drawn hop := by
  obtain ⟨hop₁, hop₂, h₁, h₂, rfl⟩ := hentries
  intro hop hhop
  simp only [List.map_cons, List.map_nil, List.mem_cons, List.not_mem_nil, or_false] at hhop
  rcases hhop with rfl | rfl
  · exact drawn_of_tells h h₂
  · exact drawn_of_tells h h₁

/-! ## What a listener reads -/

/-- The hops of a packed ACK packet. -/
theorem acked_hops_pack {a : AckPacket} {data : List Byte} (h : a.pack = .ok data) :
    acked_hops data = a.hops := by
  unfold acked_hops
  rw [take_pack h, parse_ack_pack h]

theorem drawn_of_answers {notes : List Taken} (h : ∀ sw, Paced notes sw) {k : Fin MAX_SENDERS}
    {padding : ℕ} {sock : List DataPayload} {data : List Byte}
    (hanswers : Answers hpcc_plane notes k padding sock data) :
    ∀ hop ∈ acked_hops data, (ports notes h).Drawn hop := by
  obtain ⟨payload, -, hops, ecn, t, hpack, i, _, entries, _, -, -, hentries, rfl, -⟩ := hanswers
  rw [show acked_hops data = entries.map int_hop_t.view from acked_hops_pack hpack]
  exact drawn_of_entries h hentries

section

variable {C : SenderClass} {cfg : C.Config} {mp : Option ℤ} {n n' : Net C} {e : NetEvent}
  {notes : List Taken} {k : Fin MAX_SENDERS}

variable (table : C.Ctl → HopLast) (cfg) {base_rtt_s : ℚ}

/-- Every ACK for the sender, and everything it remembers, is what the notes tell. -/
structure Fed (notes : List Taken) (hpaced : ∀ sw, Paced notes sw) (k : Fin MAX_SENDERS)
    (n : Net C) : Prop where
  acks : ∀ data ∈ n.acks, Answers hpcc_plane notes k (C.padding cfg) n.proc.self.sock data
  hop_last : (ports notes hpaced).Genuine (table n.proc.self.ctl)

variable {table cfg} {hpaced : ∀ sw, Paced notes sw}

/-- Only the listener touches the table, and only with hops of ACKs. -/
theorem fed_step (hcut : ∀ c, table (C.rto_cut c) = table c)
    (hack : ∀ clk data st, ∃ acks, (∀ hops ∈ acks, hops = acked_hops data) ∧
      table (C.ack_listener cfg clk data st).1.ctl = after base_rtt_s acks (table st.ctl))
    (h : Fed cfg table notes hpaced k n) (hon : OnDumbbell hpcc_plane cfg notes k n e)
    (hstep : Net.step cfg mp e n = some n') : Fed cfg table notes hpaced k n' := by
  refine ⟨answers_step h.acks hon hstep, ?_⟩
  -- only an ACK that is taken in touches the hop table
  rcases Network.net_self hstep with heq | ⟨call, -, -, heq⟩ | ⟨j, clk, data, -, hj, heq⟩ |
    ⟨now, log_us, calls, -, hx, heq⟩
  · rw [heq]
    exact h.hop_last
  · rw [heq, ControllerInv.burst_iter_ctl]
    exact h.hop_last
  · obtain ⟨acks, hacks, htable⟩ := hack clk data n.proc.self
    rw [heq, htable]
    -- and it takes in the entries of an answer on the way
    apply genuine_after h.hop_last
    intro hops hhops hop hhop
    rw [hacks hops hhops] at hhop
    exact drawn_of_answers hpaced (h.acks data (List.mem_of_getElem? hj)) hop hhop
  · rw [heq, rto_fired_ctl hx, hcut]
    exact h.hop_last

theorem fed_run (hcut : ∀ c, table (C.rto_cut c) = table c)
    (hack : ∀ clk data st, ∃ acks, (∀ hops ∈ acks, hops = acked_hops data) ∧
      table (C.ack_listener cfg clk data st).1.ctl = after base_rtt_s acks (table st.ctl))
    {monotonic : ℚ} (hstart : table (C.start cfg monotonic).self.ctl = fun _ => none)
    {es : List NetEvent}
    (hon : EachStep (Net.step cfg mp) (fun n e _ => OnDumbbell hpcc_plane cfg notes k n e)
      (Net.start C cfg monotonic) es)
    (hrun : run (Net.step cfg mp) (Net.start C cfg monotonic) es = some n) :
    Fed cfg table notes hpaced k n := by
  have hkeeps : ∀ e n n', Fed cfg table notes hpaced k n → Net.step cfg mp e n = some n' →
      OnDumbbell hpcc_plane cfg notes k n e → Fed cfg table notes hpaced k n' :=
    fun e n n' h hstep hon => fed_step hcut hack h hon hstep
  refine run_invariant_of_each hkeeps ⟨?_, ?_⟩ hon hrun
  · intro data hdata
    exact absurd hdata List.not_mem_nil
  · show (ports notes hpaced).Genuine (table (C.start cfg monotonic).self.ctl)
    rw [hstart]
    exact genuine_init

end

/-! ## The experiment -/

section

variable {C : SenderClass} (table : C.Ctl → HopLast)

/-- Whatever the listener on `h{k + 1}` can read next: it answers a packet of this sender with
what the notes tell of it, and what `_compute_u` makes of its hops is sound. -/
def SoundFeedback (cfg : C.Config) (notes : List Taken) (hpaced : ∀ sw, Paced notes sw)
    (k : Fin MAX_SENDERS) (base_rtt_s : ℚ) (s : System C .hpcc) : Prop :=
  ∀ i f, Hands s.fabric i (.h k) ACK_PORT f →
    Answers hpcc_plane notes k (C.padding cfg) (s.sender k).self.sock f.payload ∧
      SoundAt (ports notes hpaced) base_rtt_s (table (s.sender k).self.ctl) (acked_hops f.payload)

variable {table} {m : ℕ} {cfg : Fin MAX_SENDERS → C.Config} {mp : Fin MAX_SENDERS → Option ℤ}
  {monotonic : Fin MAX_SENDERS → ℚ} {bottleneck_pps bottleneck_depth : ℕ} {s : System C .hpcc}
  {notes : List Taken} {k : Fin MAX_SENDERS} {base_rtt_s : ℚ}

theorem sound_of_run (hcut : ∀ c, table (C.rto_cut c) = table c)
    (hack : ∀ clk data st, ∃ acks, (∀ hops ∈ acks, hops = acked_hops data) ∧
      table (C.ack_listener (cfg k) clk data st).1.ctl = after base_rtt_s acks (table st.ctl))
    (hstart : table (C.start (cfg k) (monotonic k)).self.ctl = fun _ => none)
    (hm : m ≤ MAX_SENDERS) (hpaced : ∀ sw, Paced notes sw) {evs : List SystemEvent}
    (hrun : run (recorded (System.step (links m) cfg mp) System.note)
      (System.start C .hpcc cfg monotonic bottleneck_pps bottleneck_depth, []) evs
        = some (s, notes))
    (hleaves : ∀ ev ∈ evs, ev.Leaves k) :
    SoundFeedback table (cfg k) notes hpaced k base_rtt_s s := by
  obtain ⟨es, n, hes, hon, hsim⟩ := simulates_run hpcc_plane hm hrun hleaves
  have hfed : Fed (cfg k) table notes hpaced k n := fed_run hcut hack hstart hon hes
  rintro i f hands
  have hanswers := hfed.acks _ (hsim.handed hands)
  have hgenuine := hfed.hop_last
  rw [hsim.proc] at hanswers hgenuine
  exact ⟨hanswers, soundAt_of_genuine hgenuine (drawn_of_answers hpaced hanswers)⟩

end

/-- **The feedback is sound.** In every run of the experiment with the senders of
`hpcc_sender.py`, or with those of `hpcc_sender_v2.py`, and any traffic of other programs that
leaves the datagrams of `h{k + 1}` alone: as long as the two links have carried no more than
their rates, whatever the listener on `h{k + 1}` reads next answers a data packet of this
sender with what both switches have seen of it, and the estimate of the link utilisation,
computed exactly, is made of rates that these two links really had. The base RTT is given (no
probes), nothing else uses the transport's ports of that host, and a datagram over the MTU is
not sent. -/
theorem feedback_sound (cfg : Fin MAX_SENDERS → Config)
    (max_packets : Fin MAX_SENDERS → Option ℤ) (monotonic : Fin MAX_SENDERS → ℚ)
    (bottleneck_pps bottleneck_depth : ℕ) (n_senders : ℤ) (ls : List Link)
    (hbuild : build n_senders = .ok ls) (evs : List SystemEvent) (k : Fin MAX_SENDERS)
    (hleaves : ∀ ev ∈ evs, ev.Leaves k) (notes : List Taken) (hpaced : ∀ sw, Paced notes sw) :
    (∀ s, run (recorded (System.step ls cfg max_packets) System.note)
        (System.start cls .hpcc cfg monotonic bottleneck_pps bottleneck_depth, []) evs
          = some (s, notes) →
      SoundFeedback (C := cls) Ctl.hop_last (cfg k) notes hpaced k (cfg k).base_rtt_s s) ∧
    (∀ s, run (recorded (System.step ls cfg max_packets) System.note)
        (System.start HpccV2.cls .hpcc cfg monotonic bottleneck_pps bottleneck_depth, []) evs
          = some (s, notes) →
      SoundFeedback (C := HpccV2.cls) Ctl.hop_last (cfg k) notes hpaced k (cfg k).base_rtt_s s) := by
  obtain ⟨hm, rfl⟩ := links_of_build hbuild
  constructor
  · intro s hrun
    exact sound_of_run (fun _ => rfl) (v1_listener_hop_last (cfg k)) rfl hm hpaced hrun hleaves
  · intro s hrun
    exact sound_of_run (fun _ => rfl) (v2_listener_hop_last (cfg k)) rfl hm hpaced hrun hleaves

/-! ## Two packets -/

/-- The bytes and the time of each data packet at a switch. -/
def loads (sw : Switch) (notes : List Taken) : List (ℕ × ℕ) :=
  (notes.filter (Stamps sw (r1_port sw))).map fun t => (link_bytes t, sent_at t)

/-- Two data packets keep to the rate if the second does. -/
theorem paced_of_two {notes : List Taken} {sw : Switch} {a b : ℕ × ℕ}
    (h : loads sw notes = [a, b])
    (hrate : 8000000 * (b.1 : ℤ) ≤ (link_bps sw).toNat * ((b.2 : ℤ) - a.2))
    (hsmall : a.1 + b.1 < 2 ^ 48) : Paced notes sw := by
  unfold loads at h
  constructor
  · rintro l₁ t₁ l₂ t₂ l₃ rfl hs₁ hs₂
    -- there is room for the two only
    simp only [List.filter_append, List.filter_cons_of_pos, hs₁, hs₂, decide_true, List.map_append,
      List.map_cons] at h
    have hlen := congrArg List.length h
    simp only [List.length_append, List.length_cons, List.length_map, List.length_nil] at hlen
    have hnil₁ := List.eq_nil_of_length_eq_zero (l := l₁.filter (Stamps sw (r1_port sw))) (by omega)
    have hnil₂ := List.eq_nil_of_length_eq_zero (l := l₂.filter (Stamps sw (r1_port sw))) (by omega)
    have hnil₃ := List.eq_nil_of_length_eq_zero (l := l₃.filter (Stamps sw (r1_port sw))) (by omega)
    simp only [hnil₁, hnil₂, hnil₃, List.map_nil, List.nil_append, List.cons.injEq, and_true] at h
    obtain ⟨rfl, rfl⟩ := h
    rw [bytes_stamped_append, bytes_stamped_singleton, if_pos hs₂, bytes_stamped, hnil₂]
    simpa using hrate
  · rw [bytes_stamped]
    have hbytes := congrArg (List.map Prod.fst) h
    rw [List.map_map] at hbytes
    have hsum : ((notes.filter (Stamps sw (r1_port sw))).map link_bytes).sum = a.1 + b.1 := by
      rw [show link_bytes = Prod.fst ∘ fun t => (link_bytes t, sent_at t) from rfl, hbytes]
      simp
    omega

/-- Packet 1 of `h1` meets idle switches 1 ms after packet 0. -/
def later_meta : standard_metadata_t := { idle_meta with egress_global_timestamp := 2000#48 }

def later_hops : List int_hop_t :=
  [⟨2#16, 1#16, 2#16, 0#32, 2000#48, 228#48, 100000000#32⟩,
    ⟨1#16, 1#16, 9#16, 0#32, 2000#48, 176#48, 10000000#32⟩]

def later_data_sent : UdpFrame :=
  datagram Host.r1.mac h1.mac 64#8 0#16 h1 .r1 DATA_PORT
    (data_bytes ⟨0#8, 0#8, 4#8, 0#8⟩ [] ⟨1#32, 0#64, 0#32⟩ []) (by decide)

def later_data_arrived : UdpFrame :=
  datagram Host.r1.mac S2_GW_MAC 62#8 10364#16 h1 .r1 DATA_PORT
    (data_bytes ⟨0#8, 2#8, 4#8, 0#8⟩ later_hops ⟨1#32, 0#64, 0#32⟩ []) (by decide)

def later_answer_sent : UdpFrame :=
  datagram h1.mac Host.r1.mac 64#8 0#16 .r1 h1 ACK_PORT
    (ack_bytes ⟨0#8, 2#8, 4#8, 0#8⟩ later_hops ⟨1#32, 0#64, 0#32⟩ []) (by decide)

def later_answer_arrived : UdpFrame :=
  datagram h1.mac S1_GW_MAC 62#8 10364#16 .r1 h1 ACK_PORT
    (ack_bytes ⟨0#8, 2#8, 4#8, 0#8⟩ later_hops ⟨1#32, 0#64, 0#32⟩ []) (by decide)

/-- The first answer has been read, and the second is at the host. -/
def two_packets : List SystemEvent :=
  [.thread first .acquire, .thread first (.send sent_at_zero),
    .thread first (.send sent_at_zero), .thread first .release, .other .r1 ping_frame,
    .transmit first 0 data_sent, .forward 1 idle_meta, .forward 1 idle_meta,
    .reflect 1 data_arrived answer_sent tos_item zero_us, .forward 2 idle_meta, .forward 2 idle_meta,
    .receive first 2 answer_arrived zero_clock, .transmit first 1 later_data_sent,
    .forward 3 later_meta, .forward 3 later_meta,
    .reflect 3 later_data_arrived later_answer_sent tos_item zero_us, .forward 4 later_meta,
    .forward 4 later_meta]

theorem two_packets_state :
    (run (recorded (@System.step cls .hpcc (links 2) (fun _ => unpadded) (fun _ => some 2))
        System.note) (System.start cls .hpcc (fun _ => unpadded) (fun _ => 0) 833 40, [])
        two_packets).map
      (fun q => (loads .s1 q.2, loads .s2 q.2,
        decide (Hands q.1.fabric 4 h1 ACK_PORT later_answer_arrived),
        (used (5 / 1000) (acked_hops later_answer_arrived.payload)
          (q.1.sender first).self.ctl.hop_last).length))
      = some ([(88, 1000), (88, 2000)], [(114, 1000), (114, 2000)], true, 2) := by
  decide +kernel

/-- What the second ACK brings is compared with what the first has brought, at both switches. -/
theorem feedback_sound_two_packets : ∃ (s : System cls .hpcc) (notes : List Taken)
    (hpaced : ∀ sw, Paced notes sw),
      SoundFeedback (C := cls) Ctl.hop_last unpadded notes hpaced first (5 / 1000) s ∧
      Hands s.fabric 4 h1 ACK_PORT later_answer_arrived ∧
      (used (5 / 1000) (acked_hops later_answer_arrived.payload)
        (s.sender first).self.ctl.hop_last).length = 2 := by
  obtain ⟨⟨s, notes⟩, hrun, hstate⟩ := Option.map_eq_some_iff.mp two_packets_state
  simp only [Prod.mk.injEq, decide_eq_true_eq] at hstate
  obtain ⟨h₁, h₂, hands, hused⟩ := hstate
  -- two packets a switch: neither counter wraps
  have hpaced : ∀ sw, Paced notes sw := by
    intro sw
    cases sw with
    | s1 => exact paced_of_two h₁ (by decide) (by decide)
    | s2 => exact paced_of_two h₂ (by decide) (by decide)
  -- the only frame injected is an ARP request, no datagram of this conversation
  have hleaves : ∀ ev ∈ two_packets, ev.Leaves first := by
    simp only [two_packets, List.forall_mem_cons, SystemEvent.Leaves, List.not_mem_nil,
      false_imp_iff, implies_true, and_true, true_and]
    exact not_talks (parse_front rfl _).2 (by decide) _
  exact ⟨s, notes, hpaced, (feedback_sound (fun _ => unpadded) (fun _ => some 2) (fun _ => 0) 833 40
    2 (links 2) rfl two_packets first hleaves notes hpaced).1 s hrun, hands, hused⟩

end IntHpcc.FeedbackLoop
