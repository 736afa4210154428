/-
The network with the work of its switches noted.

A fabric keeps the frames but not what the switches have done with them. Here a note is
taken of every frame that a switch takes, in the order in which the frames are taken
(`Taken`). What a program has in its registers is then a statement about the notes, its
`Ledger`, and what a frame has become is the work of the switches it has passed, each with
the registers of that moment (`Worked`). One invariant, `Noted`, keeps all this together
for any program; what the ledgers of the two programs are is for `DumbbellTelemetry` and
`DumbbellEcn` to say.
-/
import IntHpcc.Dumbbell
import IntHpcc.FrameOrigin

set_option autoImplicit false

namespace IntHpcc.DumbbellNotes

open IntHpcc.Runs IntHpcc.Bytes IntHpcc.P4 IntHpcc.LoadTables IntHpcc.Dumbbell

/-! ## The notes -/

/-- A switch has taken the frame `index` from a port. -/
structure Taken where
  index : ℕ
  switch : Switch
  port : ℕ
  std_meta : standard_metadata_t
  frame : List Byte

/-- What the program of the switch gets to see. -/
def Taken.arrival (t : Taken) : Arrival where
  table := routes t.switch
  std_meta := metadata_at t.port t.frame t.std_meta
  frame := t.frame

section

variable {P : Program}

/-- What the program makes of it. -/
def Taken.work (P : Program) (t : Taken) (r : P.Registers) : P.Registers × Option (List Byte) :=
  V1Switch (ingress_apply t.arrival.table) P.egress r t.arrival.std_meta t.frame

/-- A frame is noted as it came. -/
def note (ev : Event) (f : Fabric P) : List Taken :=
  match ev with
  | .forward i std_meta =>
    match f.packets[i]? with
    | some pk =>
      match pk.place with
      | .arriving sw port => [⟨i, sw, port, std_meta, pk.frame⟩]
      | _ => []
    | none => []
  | _ => []

theorem note_forward {f : Fabric P} {i port : ℕ} {pk : Packet} {sw : Switch}
    (std_meta : standard_metadata_t) (hi : f.packets[i]? = some pk)
    (hplace : pk.place = .arriving sw port) :
    note (.forward i std_meta) f = [⟨i, sw, port, std_meta, pk.frame⟩] := by
  simp only [note, hi, hplace]

variable (P) in
/-- What the notes say of the registers of a switch. A frame changes those of the switch that
takes it, and says nothing of the other one. -/
structure Ledger where
  Holds : Switch → List Taken → P.Registers → Prop
  own : ∀ {notes t r}, Holds t.switch notes r → Holds t.switch (notes ++ [t]) (t.work P r).1
  other : ∀ {sw notes t r}, t.switch ≠ sw → Holds sw notes r → Holds sw (notes ++ [t]) r

/-! ## The way of a frame -/

/-- Which switch has taken the frame from which port. -/
def Taken.stop (t : Taken) : Switch × ℕ := (t.switch, t.port)

/-- The switches that have taken the frame `index`, in order. -/
def visits (notes : List Taken) (index : ℕ) : List Taken := notes.filter fun t => t.index = index

@[simp] theorem visits_append (notes more : List Taken) (index : ℕ) :
    visits (notes ++ more) index = visits notes index ++ visits more index := by
  simp [visits]

theorem mem_visits {notes : List Taken} {index : ℕ} {t : Taken} :
    t ∈ visits notes index ↔ t ∈ notes ∧ t.index = index := by
  simp [visits]

/-- The frame has been worked on these visits, one after the other: the switch took it with
the registers that the notes before say, and passed it on. -/
inductive Worked (L : Ledger P) (notes : List Taken) :
    List Taken → List Byte → List Byte → Prop
  | nil (frame : List Byte) : Worked L notes [] frame frame
  | cons {before : List Taken} {t : Taken} {r : P.Registers} {ts : List Taken}
      {mid out : List Byte} (noted : before ++ [t] <+: notes) (holds : L.Holds t.switch before r)
      (passed : (t.work P r).2 = some mid) (rest : Worked L notes ts mid out) :
      Worked L notes (t :: ts) t.frame out

variable {L : Ledger P} {notes notes' : List Taken} {ts ts' : List Taken}
  {frame mid out : List Byte}

theorem Worked.mono (h : Worked L notes ts frame out) (hnotes : notes <+: notes') :
    Worked L notes' ts frame out := by
  induction h with
  | nil frame => exact .nil frame
  | cons noted holds passed rest ih => exact .cons (noted.trans hnotes) holds passed ih

theorem Worked.append (h : Worked L notes ts frame mid) (h' : Worked L notes ts' mid out) :
    Worked L notes (ts ++ ts') frame out := by
  induction h with
  | nil frame => exact h'
  | cons noted holds passed rest ih => exact .cons noted holds passed (ih h')

/-- The first visit. -/
theorem Worked.cons_inv {t : Taken} (h : Worked L notes (t :: ts) frame out) :
    ∃ before r mid, before ++ [t] <+: notes ∧ t.frame = frame ∧ L.Holds t.switch before r ∧
      (t.work P r).2 = some mid ∧ Worked L notes ts mid out := by
  cases h with
  | cons noted holds passed rest => exact ⟨_, _, _, noted, rfl, holds, passed, rest⟩

theorem Worked.nil_inv (h : Worked L notes [] frame out) : out = frame := by
  cases h
  rfl

/-- What no switch undoes, no way undoes. -/
theorem Worked.induct {Q : List Byte → Prop}
    (hstep : ∀ (t : Taken) (r : P.Registers) out, (t.work P r).2 = some out → Q t.frame → Q out)
    (h : Worked L notes ts frame out) (hframe : Q frame) : Q out := by
  induction h with
  | nil frame => exact hframe
  | cons noted holds passed rest ih => exact ih (hstep _ _ _ passed hframe)

/-- **The two ends stay.** What comes out has the addresses of what went in. -/
theorem Worked.reads (htrans : Transparent P.egress) (h : Worked L notes ts frame out)
    {src_addr dst_addr : BitVec 32}
    (hframe : ∃ e ip, Reads frame e ip ∧ ip.src_addr = src_addr ∧ ip.dst_addr = dst_addr) :
    ∃ e ip, Reads out e ip ∧ ip.src_addr = src_addr ∧ ip.dst_addr = dst_addr := by
  refine h.induct (Q := fun frame => ∃ e ip, Reads frame e ip ∧ ip.src_addr = src_addr ∧
    ip.dst_addr = dst_addr) ?_ hframe
  rintro t r out hout ⟨e, ip, hreads, hsrc, hdst⟩
  have hpass : Passes t.arrival.table ip := by
    by_contra hdrop
    unfold Taken.work at hout
    rw [V1Switch_of_not_passes rfl hreads.2 hdrop] at hout
    cases hout
  obtain ⟨-, next, ip', hnext, hreads', hsrc', hdst', -, -⟩ :=
    relay htrans hreads hpass r t.arrival.std_meta
  obtain rfl : next = out := Option.some.inj (hnext.symm.trans hout)
  exact ⟨_, ip', hreads', hsrc'.trans hsrc, hdst'.trans hdst⟩

/-- **No frame becomes one of the transport's.** -/
theorem Worked.talks (hcarrier : Carrier P.egress) (h : Worked L notes ts frame out)
    {addr : BitVec 32} (hout : Talks addr out) : Talks addr frame := by
  by_contra hframe
  exact h.induct (Q := fun frame => ¬ Talks addr frame)
    (fun _ _ _ hpassed hnot htalks => hnot (hcarrier.talks hpassed htalks)) hframe hout

/-- **An ACK stays the ACK it is**, wherever it goes. -/
theorem Worked.ack (hcarrier : Carrier P.egress) (h : Worked L notes ts frame out)
    {f : UdpFrame} (hframe : frame = f.bytes) (hport : f.udp.dst_port = ACK_PORT) {shim : shim_t}
    {hops : List int_hop_t} {a : ack_payload_t} {tail : List Byte} (hcount : Counted shim hops)
    (hpay : f.payload = ack_bytes shim hops a tail) :
    ∃ g : UdpFrame, out = g.bytes ∧ g.payload = f.payload := by
  have hstep : ∀ (t : Taken) (r : P.Registers) out, (t.work P r).2 = some out →
      (∃ g : UdpFrame, t.frame = g.bytes ∧ g.udp.dst_port = ACK_PORT ∧ g.payload = f.payload) →
      ∃ g : UdpFrame, out = g.bytes ∧ g.udp.dst_port = ACK_PORT ∧ g.payload = f.payload := by
    rintro t r out hout ⟨g, hg, hgport, hgpay⟩
    unfold Taken.work at hout
    rw [hg] at hout
    obtain ⟨g', hg', hudp, hpay'⟩ := hcarrier.ack hgport hcount (hgpay.trans hpay) hout
    exact ⟨g', hg', hudp ▸ hgport, hpay'.trans hgpay⟩
  obtain ⟨g, hg, -, hsame⟩ := h.induct (Q := fun out => ∃ g : UdpFrame, out = g.bytes ∧
    g.udp.dst_port = ACK_PORT ∧ g.payload = f.payload) hstep ⟨f, hframe, hport, rfl⟩
  exact ⟨g, hg, hsame⟩

/-- The frame `index` has brought this datagram from `h{k + 1}` to the first switch. -/
def Brought (notes : List Taken) (index : ℕ) (k : Fin MAX_SENDERS) (data : List Byte) : Prop :=
  ∃ t ∈ visits notes index, t.stop = (.s1, k.val + 1) ∧
    ∃ g : UdpFrame, t.frame = g.bytes ∧ g.payload = data

theorem visits_sub (hnotes : notes <+: notes') (index : ℕ) :
    visits notes index ⊆ visits notes' index := by
  obtain ⟨more, rfl⟩ := hnotes
  rw [visits_append]
  exact List.subset_append_left _ _

theorem Brought.mono {index : ℕ} {k : Fin MAX_SENDERS} {data : List Byte}
    (h : Brought notes index k data) (hnotes : notes <+: notes') : Brought notes' index k data := by
  obtain ⟨t, ht, hrest⟩ := h
  exact ⟨t, visits_sub hnotes index ht, hrest⟩

/-! ## The invariant -/

/-- The invariant of a network with notes. -/
structure Noted (L : Ledger P) (n : ℕ) (q : Fabric P × List Taken) : Prop where
  ok : q.1.Ok n
  holds : ∀ sw, L.Holds sw q.2 (q.1.control sw).registers
  /-- A frame that is not lost has been where it should, and is what the switches have made
  of it. -/
  visited : ∀ i pk, q.1.packets[i]? = some pk → pk.place ≠ .dropped →
    (visits q.2 i).map Taken.stop = (stops pk.source).take pk.passes
  followed : ∀ i pk, q.1.packets[i]? = some pk → pk.place ≠ .dropped →
    Worked L q.2 (visits q.2 i) pk.original pk.frame
  /-- Nobody has taken what is not there. -/
  fresh : ∀ i, q.1.packets.length ≤ i → visits q.2 i = []

variable {n i port : ℕ} {ls : List Link} {pk : Packet} {sw : Switch}
  {std_meta : standard_metadata_t} {c : Control P}

/-- What the switch does, in the terms of the notes. -/
theorem pass_fst (htable : c.table = routes sw) :
    (Dumbbell.pass ls c sw port std_meta pk).1
      = (Taken.work P ⟨i, sw, port, std_meta, pk.frame⟩ c.registers).1 := by
  unfold Dumbbell.pass
  dsimp only
  rw [htable]
  split <;> rfl

theorem pass_kept (htable : c.table = routes sw)
    (hkept : (Dumbbell.pass ls c sw port std_meta pk).2.place ≠ .dropped) :
    (Taken.work P ⟨i, sw, port, std_meta, pk.frame⟩ c.registers).2
        = some (Dumbbell.pass ls c sw port std_meta pk).2.frame ∧
      (Dumbbell.pass ls c sw port std_meta pk).2.passes = pk.passes + 1 ∧
      (Dumbbell.pass ls c sw port std_meta pk).2.source = pk.source ∧
      (Dumbbell.pass ls c sw port std_meta pk).2.original = pk.original := by
  have hwork : V1Switch (ingress_apply c.table) P.egress c.registers
      (metadata_at port pk.frame std_meta) pk.frame
        = Taken.work P ⟨i, sw, port, std_meta, pk.frame⟩ c.registers := by
    rw [htable]
    rfl
  cases hout : (Taken.work P ⟨i, sw, port, std_meta, pk.frame⟩ c.registers).2 with
  | none =>
      -- a switch that sends nothing drops the packet
      refine absurd ?_ hkept
      unfold Dumbbell.pass
      simp only [hwork, hout]
  | some out =>
      unfold Dumbbell.pass
      simp only [hwork, hout, and_self]

/-- A note is about one frame. -/
theorem visits_singleton_self (t : Taken) : visits [t] t.index = [t] := by
  simp [visits]

theorem visits_singleton_ne {t : Taken} {index : ℕ} (h : t.index ≠ index) :
    visits [t] index = [] := by
  simp [visits, h]

theorem noted_step {q q' : Fabric P × List Taken} (htrans : Transparent P.egress)
    (hn : n ≤ MAX_SENDERS) {ev : Event} (h : Noted L n q)
    (hstep : recorded (step (links n)) note ev q = some q') : Noted L n q' := by
  obtain ⟨f, notes⟩ := q
  obtain ⟨f', notes'⟩ := q'
  obtain ⟨hfabric, rfl⟩ := recorded_eq_some.mp hstep
  have hok := ok_step hn htrans h.ok hfabric
  rcases step_cases hfabric with ⟨b, frame, sw, port, rfl, -, rfl⟩ |
    ⟨j, std_meta, pk, sw, port, rfl, hj, hplace, rfl⟩ | ⟨j, pk, sw, port, rfl, hj, hplace, rfl⟩
  · rw [show note (.inject b frame) f = [] from rfl, List.append_nil]
    -- a frame that was there, or the new one, which has been nowhere
    have hcases : ∀ i pk, (f.packets ++ [⟨b, frame, 0, .arriving sw port, frame⟩])[i]? = some pk →
        f.packets[i]? = some pk ∨
          visits notes i = [] ∧ pk = ⟨b, frame, 0, .arriving sw port, frame⟩ := by
      intro i pk hi
      rw [List.getElem?_append] at hi
      split at hi
      · exact Or.inl hi
      · next hlen =>
        exact Or.inr ⟨h.fresh i (not_lt.mp hlen),
          List.mem_singleton.mp (List.mem_of_getElem? hi)⟩
    refine ⟨hok, h.holds, ?_, ?_, ?_⟩
    · intro i pk hi hkept
      rcases hcases i pk hi with hold | ⟨hnew, rfl⟩
      · exact h.visited i pk hold hkept
      · rw [hnew]
        rfl
    · intro i pk hi hkept
      rcases hcases i pk hi with hold | ⟨hnew, rfl⟩
      · exact h.followed i pk hold hkept
      · rw [hnew]
        exact .nil _
    · intro i hi
      simp only [List.length_append, List.length_singleton] at hi
      exact h.fresh i (by dsimp only; omega)
  · have hway := (h.ok.packets pk (List.mem_of_getElem? hj)).onTheWay hplace
    have htable := h.ok.table sw
    have hon : pk.place ≠ .dropped := by
      rw [hplace]
      simp
    rw [note_forward std_meta hj hplace]
    have hown : visits [⟨j, sw, port, std_meta, pk.frame⟩] j
        = [⟨j, sw, port, std_meta, pk.frame⟩] := visits_singleton_self _
    refine ⟨hok, ?_, ?_, ?_, ?_⟩
    · -- the switch that worked has gone on, the other one is as it was
      intro sw'
      show L.Holds sw' _ ((f.set_registers sw _).control sw').registers
      unfold Fabric.set_registers
      dsimp only
      by_cases hs : sw' = sw
      · subst hs
        rw [Function.update_self, pass_fst (i := j) htable]
        exact L.own (t := ⟨j, sw', port, std_meta, pk.frame⟩) (h.holds sw')
      · rw [Function.update_of_ne hs]
        exact L.other (Ne.symm hs) (h.holds sw')
    · intro i pk' hi hkept
      dsimp only at hi
      by_cases hij : j = i
      · subst hij
        rw [List.getElem?_set_self (List.getElem?_eq_some_iff.mp hj).1, Option.some.injEq] at hi
        subst hi
        obtain ⟨-, hpasses, hsource, -⟩ := pass_kept (i := j) htable hkept
        rw [visits_append, hown, List.map_append, h.visited j pk hj hon, hpasses, hsource,
          List.take_add_one, hway.stop]
        rfl
      · rw [List.getElem?_set_ne hij] at hi
        rw [visits_append, visits_singleton_ne hij, List.append_nil]
        exact h.visited i pk' hi hkept
    · intro i pk' hi hkept
      dsimp only at hi
      by_cases hij : j = i
      · subst hij
        rw [List.getElem?_set_self (List.getElem?_eq_some_iff.mp hj).1, Option.some.injEq] at hi
        subst hi
        obtain ⟨hout, -, -, horiginal⟩ := pass_kept (i := j) htable hkept
        rw [visits_append, hown, horiginal]
        refine ((h.followed j pk hj hon).mono (List.prefix_append _ _)).append ?_
        exact .cons (t := ⟨j, sw, port, std_meta, pk.frame⟩) (List.prefix_refl _) (h.holds sw) hout
          (.nil _)
      · rw [List.getElem?_set_ne hij] at hi
        rw [visits_append, visits_singleton_ne hij, List.append_nil]
        exact (h.followed i pk' hi hkept).mono (List.prefix_append _ _)
    · intro i hi
      dsimp only at hi
      rw [List.length_set] at hi
      have hlt : j < f.packets.length := (List.getElem?_eq_some_iff.mp hj).1
      have hne : j ≠ i := by omega
      rw [visits_append, visits_singleton_ne (t := ⟨j, sw, port, std_meta, pk.frame⟩) hne,
        List.append_nil]
      exact h.fresh i hi
  · rw [show note (.overflow j) f = [] from rfl, List.append_nil]
    -- the frame is lost, but it stays what it was
    have hon : pk.place ≠ .dropped := by
      rw [hplace]
      simp
    have hcases : ∀ (i : ℕ) (pk' : Packet),
        (f.packets.set j { pk with place := .overflowed })[i]? = some pk' → pk'.place ≠ .dropped →
        ∃ pk₀, f.packets[i]? = some pk₀ ∧ pk₀.place ≠ .dropped ∧
          pk' = { pk₀ with place := pk'.place } := by
      intro i pk' hi hkept
      by_cases hij : j = i
      · subst hij
        rw [List.getElem?_set_self (List.getElem?_eq_some_iff.mp hj).1, Option.some.injEq] at hi
        exact ⟨pk, hj, hon, hi ▸ rfl⟩
      · rw [List.getElem?_set_ne hij] at hi
        exact ⟨pk', hi, hkept, rfl⟩
    refine ⟨hok, h.holds, ?_, ?_, ?_⟩
    · intro i pk' hi hkept
      obtain ⟨pk₀, hi₀, hkept₀, heq⟩ := hcases i pk' hi hkept
      rw [heq]
      exact h.visited i pk₀ hi₀ hkept₀
    · intro i pk' hi hkept
      obtain ⟨pk₀, hi₀, hkept₀, heq⟩ := hcases i pk' hi hkept
      rw [heq]
      exact h.followed i pk₀ hi₀ hkept₀
    · intro i hi
      dsimp only at hi
      rw [List.length_set] at hi
      exact h.fresh i hi

end

/-- What the controller leaves agrees with the ledger before the first note. -/
def Ledger.Opens {algo : Algo} (L : Ledger algo.program) : Prop :=
  ∀ bottleneck_pps bottleneck_depth sw,
    L.Holds sw [] (push (algo.commands bottleneck_pps bottleneck_depth sw)).registers

section

variable {algo : Algo} {L : Ledger algo.program} {n : ℕ}

theorem noted_loaded (hopens : L.Opens) (bottleneck_pps bottleneck_depth n : ℕ) :
    Noted L n (loaded algo bottleneck_pps bottleneck_depth, []) := by
  refine ⟨⟨fun sw => (push_table algo bottleneck_pps bottleneck_depth sw).1, ?_⟩,
    hopens bottleneck_pps bottleneck_depth, nofun, nofun, fun _ _ => rfl⟩
  intro pk hpk
  exact absurd hpk List.not_mem_nil

theorem noted_run (hopens : L.Opens) {bottleneck_pps bottleneck_depth : ℕ} (hn : n ≤ MAX_SENDERS)
    {evs : List Event} {q : Fabric algo.program × List Taken}
    (hrun : run (recorded (step (links n)) note) (loaded algo bottleneck_pps bottleneck_depth, [])
      evs = some q) : Noted L n q :=
  run_invariant (fun _ _ _ h hstep => noted_step (Algo.transparent algo) hn h hstep)
    (noted_loaded hopens bottleneck_pps bottleneck_depth n) hrun

end

/-! ## A data packet at the receiver -/

/-- The port of a sender's host is a port. -/
theorem sender_port_lt (k : Fin MAX_SENDERS) : k.val + 1 < 2 ^ 9 := by
  have hk := k.isLt
  simp only [MAX_SENDERS] at hk
  omega

/-- What a sender has sent to `r1`, and `r1` has received, has been worked by both switches
and by nobody else. -/
theorem Noted.at_receiver {P : Program} {L : Ledger P} {n : ℕ} {q : Fabric P × List Taken}
    (h : Noted L n q) {i : ℕ} {pk : Packet} (hi : q.1.packets[i]? = some pk)
    (hplace : pk.place = .received .r1) {k : Fin MAX_SENDERS} (hsource : pk.source = .h k)
    {g : UdpFrame} (horiginal : pk.original = g.bytes) :
    g.ipv4.dst_addr = Host.r1.ip ∧ 2 < g.ipv4.ttl.toNat ∧
      ∃ t₁ t₂, visits q.2 i = [t₁, t₂] ∧ t₁.stop = (.s1, k.val + 1) ∧ t₂.stop = (.s2, 1) ∧
        Worked L q.2 [t₁, t₂] g.bytes pk.frame := by
  have hon : pk.place ≠ .dropped := by
    rw [hplace]
    simp
  have hworked := h.followed i pk hi hon
  have hvisited := h.visited i pk hi hon
  have hrouted := (h.ok.packets pk (List.mem_of_getElem? hi)).routed
  obtain ⟨⟨-, ip, hip, hdst, httl⟩, -, hpasses⟩ := hrouted.received .r1 hplace
  have hparse : ip = g.ipv4 := by
    rw [horiginal] at hip
    exact Option.some.inj (hip.symm.trans (parse_front g.is_ipv4 _).2)
  subst hparse
  -- from a sender to `r1` the way is both switches
  have hdist : distance pk.source .r1 = 2 := by
    rw [hsource]
    rfl
  rw [hdist] at httl hpasses
  rw [hpasses, hsource] at hvisited
  -- so exactly two visits are noted, in this order
  obtain ⟨t₁, ts, hvisits, hstop₁, hts⟩ := List.map_eq_cons_iff.mp hvisited
  obtain ⟨t₂, ts, rfl, hstop₂, hts⟩ := List.map_eq_cons_iff.mp hts
  obtain rfl := List.map_eq_nil_iff.mp hts
  rw [hvisits, horiginal] at hworked
  exact ⟨hdst, httl, t₁, t₂, hvisits, hstop₁, hstop₂, hworked⟩

end IntHpcc.DumbbellNotes
