/-
The IPv4 checksum on the dumbbell.

A switch takes one off the TTL and, in `hpcc.p4`, adds to the total length, so it has to
make a new checksum. `CommonComputeChecksum` does, from the twelve fields of the fixed
header; it never looks at what it replaces, and `CommonVerifyChecksum` sets a flag nobody
reads. So whatever comes into a switch, what comes out of it is checked successfully by
the next switch, and by a host if there are no options. The options a host sums as well
are none of the twelve fields: with options a header passes only if these happen to add up
to a multiple of `0xFFFF`.
-/
import IntHpcc.Dumbbell
import IntHpcc.OnesComplement

set_option autoImplicit false

namespace IntHpcc.P4

open IntHpcc.Bytes IntHpcc.HeaderLayout IntHpcc.OnesComplement

/-! ## Sums of bytes -/

/-- Behind whole words the sum goes on. -/
theorem word_sum_append {bs : List Byte} (h : bs.length % 2 = 0) (cs : List Byte) :
    word_sum (bs ++ cs) = word_sum bs + word_sum cs := by
  induction bs using word_sum.induct with
  | case1 => simp [word_sum]
  | case2 b => simp at h
  | case3 b c bs ih =>
      have hrest : bs.length % 2 = 0 := by
        simp only [List.length_cons] at h
        omega
      simp only [List.cons_append, word_sum, ih hrest]
      omega

theorem word_sum_le (bs : List Byte) : word_sum bs ≤ ones 16 * bs.length := by
  induction bs using word_sum.induct with
  | case1 => simp [word_sum]
  | case2 b =>
      have hb := b.isLt
      simp only [word_sum, ones, List.length_singleton]
      omega
  | case3 b c bs ih =>
      have hb := b.isLt
      have hc := c.isLt
      simp only [word_sum, ones, List.length_cons] at ih ⊢
      omega

/-- A 16-bit field is one word. -/
theorem word_sum_field (v : BitVec 16) : word_sum (be 2 v.toNat) = v.toNat := by
  have hv := v.isLt
  simp only [be, word_sum, BitVec.toNat_ofNat]
  omega

/-- The sum of a header with its checksum and of what stands behind it. -/
theorem word_sum_header (ip : ipv4_t) (rest : List Byte) :
    word_sum (ipv4_t.layout.emit ip ++ rest)
      = word_sum ip.checksum_data + ip.hdr_checksum.toNat + word_sum rest := by
  obtain ⟨front, back, hfront, hback, hemit, hdata⟩ : ∃ front back : List Byte,
      front.length = 10 ∧ back.length = 8 ∧
      ipv4_t.layout.emit ip = front ++ (be 2 ip.hdr_checksum.toNat ++ back) ∧
      ip.checksum_data = front ++ back :=
    ⟨slice (ipv4_t.layout.emit ip) 0 10, slice (ipv4_t.layout.emit ip) 12 8, rfl, rfl, rfl, rfl⟩
  have hfield : (be 2 ip.hdr_checksum.toNat).length = 2 := be_length _ _
  rw [hemit, hdata, List.append_assoc, List.append_assoc, word_sum_append (by rw [hfront]),
    word_sum_append (by rw [hfield]), word_sum_append (by rw [hback]),
    word_sum_append (by rw [hfront]), word_sum_field]
  omega

/-! ## One header -/

theorem csum16_toNat {bs : List Byte} (h : word_sum bs < 2 ^ 16 * 2 ^ 16) :
    (csum16 bs).toNat = ones 16 - fold 16 (fold 16 (word_sum bs)) := by
  have hle := fold_fold_le h
  have hend : end_around (end_around (word_sum bs)) = fold 16 (fold 16 (word_sum bs)) := rfl
  have hones : ones 16 = 2 ^ 16 - 1 := rfl
  rw [csum16, hend, BitVec.toNat_not, BitVec.toNat_ofNat, Nat.mod_eq_of_lt (by omega), hones]

/-- A positive sum checks if it is zero modulo all ones. -/
theorem csum16_eq_zero_iff {bs : List Byte} (hpos : 0 < word_sum bs)
    (h : word_sum bs < 2 ^ 16 * 2 ^ 16) : csum16 bs = 0#16 ↔ ones 16 ∣ word_sum bs := by
  have hle := fold_fold_le h
  rw [← fold_fold_eq_iff hpos h, ← BitVec.toNat_inj, csum16_toNat h]
  simp only [BitVec.toNat_ofNat, Nat.zero_mod]
  omega

/-- The options of a header: what `ihl` counts beyond the fixed fields. -/
def ipv4_t.options (ip : ipv4_t) (rest : List Byte) : List Byte := rest.take (4 * ip.ihl.toNat - 20)

/-- What a host checks before it takes a packet: the words of the whole header, the checksum
among them, add up to all ones. -/
def HeaderChecks (ip : ipv4_t) (rest : List Byte) : Prop :=
  csum16 (ipv4_t.layout.emit ip ++ ip.options rest) = 0#16

instance (ip : ipv4_t) (rest : List Byte) : Decidable (HeaderChecks ip rest) :=
  inferInstanceAs (Decidable (_ = _))

/-- The checksum a switch makes covers the fixed fields and no option. -/
theorem header_checks_iff {ip : ipv4_t} (h : ip.hdr_checksum = csum16 ip.checksum_data)
    (rest : List Byte) : HeaderChecks ip rest ↔ ones 16 ∣ word_sum (ip.options rest) := by
  have hones : ones 16 = 65535 := rfl
  have hdata : ip.checksum_data.length = 18 := rfl
  have hdatasum := word_sum_le ip.checksum_data
  have hihl := ip.ihl.isLt
  have hlen : (ip.options rest).length ≤ 40 := by
    unfold ipv4_t.options
    rw [List.length_take]
    omega
  have hoptsum := word_sum_le (ip.options rest)
  have hsum : word_sum ip.checksum_data < 2 ^ 16 * 2 ^ 16 := by
    rw [hdata, hones] at hdatasum
    omega
  -- the fixed fields and their checksum are a positive multiple of all ones
  have hcheck : ip.hdr_checksum.toNat
      = ones 16 - fold 16 (fold 16 (word_sum ip.checksum_data)) := by
    rw [h, csum16_toNat hsum]
  obtain ⟨hpos, hdvd⟩ := dvd_add_complement (by decide) hsum
  rw [← hcheck] at hpos hdvd
  have hfield := ip.hdr_checksum.isLt
  unfold HeaderChecks
  rw [csum16_eq_zero_iff, word_sum_header, Nat.dvd_add_right hdvd]
  · rw [word_sum_header]
    omega
  · rw [word_sum_header]
    rw [hdata, hones] at hdatasum
    rw [hones] at hoptsum
    have hopt := Nat.le_trans hoptsum (Nat.mul_le_mul_left _ hlen)
    omega

end IntHpcc.P4

namespace IntHpcc.Dumbbell

open IntHpcc.Runs IntHpcc.Bytes IntHpcc.P4 IntHpcc.LoadTables IntHpcc.OnesComplement

/-! ## Every frame, in every run -/

/-- Once a frame has passed a switch, its header has a checksum made for it. -/
def Packet.Summed (pk : Packet) : Prop :=
  pk.passes = 0 ∨ pk.place = .dropped ∨
    ∀ ip, (CommonParser pk.frame).hdr.ipv4 = some ip → ip.hdr_checksum = csum16 ip.checksum_data

section

variable {P : Program} {ls : List Link} {f f' : Fabric P}

/-- A switch makes the checksum anew, whatever comes in. -/
theorem summed_pass (htrans : Transparent P.egress) (c : Control P) (sw : Switch) (port : ℕ)
    (std_meta : standard_metadata_t) (pk : Packet) :
    (Dumbbell.pass ls c sw port std_meta pk).2.Summed := by
  generalize hm : metadata_at port pk.frame std_meta = m
  cases hip : (CommonParser pk.frame).hdr.ipv4 with
  | none =>
      obtain ⟨-, hout⟩ := relay_no_ipv4 c.table htrans hip c.registers m
      refine Or.inr (Or.inr ?_)
      intro ip hip'
      have hframe : (Dumbbell.pass ls c sw port std_meta pk).2.frame = pk.frame := by
        unfold Dumbbell.pass
        simp only [hm, hout]
      rw [hframe, hip] at hip'
      cases hip'
  | some ip =>
      by_cases hpass : Passes c.table ip
      · obtain ⟨e, hreads⟩ := exists_reads hip
        obtain ⟨-, out, ip', hout, hreads', -, -, -, hsum⟩ :=
          relay htrans hreads hpass c.registers m
        refine Or.inr (Or.inr ?_)
        intro ip₁ hip₁
        have hframe : (Dumbbell.pass ls c sw port std_meta pk).2.frame = out := by
          unfold Dumbbell.pass
          simp only [hm, hout]
        rw [hframe, hreads'.2, Option.some.injEq] at hip₁
        exact hip₁ ▸ hsum
      · -- it is dropped
        have hout : V1Switch (ingress_apply c.table) P.egress c.registers m pk.frame
            = (c.registers, none) := V1Switch_of_not_passes rfl hip hpass _ _
        refine Or.inr (Or.inl ?_)
        unfold Dumbbell.pass
        simp only [hm, hout]

theorem summed_step (htrans : Transparent P.egress) {ev : Event}
    (h : ∀ pk ∈ f.packets, pk.Summed) (hstep : step ls ev f = some f') :
    ∀ pk ∈ f'.packets, pk.Summed := by
  intro pk' hpk'
  rcases step_cases hstep with ⟨b, frame, sw, port, -, -, rfl⟩ |
    ⟨i, std_meta, pk, sw, port, -, -, -, rfl⟩ | ⟨i, pk, sw, port, -, hi, hplace, rfl⟩
  · rcases List.mem_append.mp hpk' with hold | hnew
    · exact h pk' hold
    · obtain rfl := List.mem_singleton.mp hnew
      exact Or.inl rfl
  · rcases List.mem_or_eq_of_mem_set hpk' with hold | rfl
    · exact h pk' hold
    · exact summed_pass htrans _ _ _ _ _
  · rcases List.mem_or_eq_of_mem_set hpk' with hold | rfl
    · exact h pk' hold
    · -- a frame that is lost is as it was
      rcases h pk (List.mem_of_getElem? hi) with hpasses | hdropped | hsum
      · exact Or.inl hpasses
      · rw [hplace] at hdropped
        cases hdropped
      · exact Or.inr (Or.inr hsum)

end

/-- **Checksums on the dumbbell.** With either program, in every run over any links: a frame
that has passed a switch and has not been dropped is one the next switch's
`CommonVerifyChecksum` does not flag, even if it was damaged when it came in; and a host takes
its header exactly if the options in it add up to a multiple of `0xFFFF`, so always if there
are none. -/
theorem checksums_on_the_dumbbell (algo : Algo) (bottleneck_pps bottleneck_depth : ℕ)
    (ls : List Link) (evs : List Event) (f : Fabric algo.program)
    (hrun : run (step ls) (loaded algo bottleneck_pps bottleneck_depth) evs = some f)
    (pk : Packet) (hpk : pk ∈ f.packets) (hpassed : 1 ≤ pk.passes)
    (hkept : pk.place ≠ .dropped) (e : ethernet_t) (ip : ipv4_t) (rest : List Byte)
    (htype : e.ethertype = ETHERTYPE_IPV4)
    (hframe : pk.frame = ethernet_t.layout.emit e ++ (ipv4_t.layout.emit ip ++ rest)) :
    (∀ std_meta, CommonVerifyChecksum (CommonParser pk.frame).hdr std_meta = std_meta) ∧
      (HeaderChecks ip rest ↔ ones 16 ∣ word_sum (ip.options rest)) ∧
      (ip.ihl.toNat ≤ 5 → HeaderChecks ip rest) := by
  -- the deparser wrote the sum of the header it emits, at every switch passed
  have hsummed : pk.Summed := by
    refine run_invariant (P := fun f => ∀ pk ∈ f.packets, pk.Summed)
      (fun _ _ _ h hstep => summed_step (Algo.transparent algo) h hstep) ?_ hrun pk hpk
    intro pk hpk
    exact absurd hpk List.not_mem_nil
  have hip : (CommonParser pk.frame).hdr.ipv4 = some ip := by
    rw [hframe]
    exact (parse_front htype rest).2
  have hsum : ip.hdr_checksum = csum16 ip.checksum_data := by
    rcases hsummed with hpasses | hdropped | hsum
    · omega
    · exact absurd hdropped hkept
    · exact hsum ip hip
  -- the sum leaves the options out, so a host, which adds them, may disagree
  have hiff := header_checks_iff hsum rest
  refine ⟨?_, hiff, ?_⟩
  · intro std_meta
    rw [CommonVerifyChecksum, hip]
    exact if_pos hsum.symm
  · intro hihl
    have hnone : ip.options rest = [] := by
      rw [ipv4_t.options, Nat.sub_eq_zero_of_le (by omega), List.take_zero]
    rw [hiff, hnone]
    exact dvd_zero _

/-- The ping leaves `h1` with a zero for a checksum and reaches `r1` with a right one. -/
theorem checksums_on_the_dumbbell_ping : ∃ (pk : Packet) (e : ethernet_t) (ip : ipv4_t)
    (rest : List Byte), pk.place = .received .r1 ∧
      pk.frame = ethernet_t.layout.emit e ++ (ipv4_t.layout.emit ip ++ rest) ∧
      HeaderChecks ip rest := by
  have hstate : (run (step (links 2)) (loaded .hpcc 833 40) ping_events).map (fun f =>
      f.packets.map fun pk => (pk.place, pk.passes,
        (CommonParser pk.frame).hdr.ipv4.map ipv4_t.ihl)) = some [(.received .r1, 2, some 5#4)] := by
    decide +kernel
  obtain ⟨f, hrun, hstate⟩ := Option.map_eq_some_iff.mp hstate
  obtain ⟨pk, hpk, hfacts⟩ := List.mem_map.mp (hstate ▸ List.mem_cons_self)
  rw [Prod.mk.injEq, Prod.mk.injEq, Option.map_eq_some_iff] at hfacts
  obtain ⟨hplace, hpasses, ip, hip, hihl⟩ := hfacts
  obtain ⟨e, -, htype, hframe⟩ := split_ipv4 hip
  obtain ⟨-, -, hchecks⟩ := checksums_on_the_dumbbell .hpcc 833 40 (links 2) ping_events f hrun pk
    hpk (by omega) (by rw [hplace]; simp) e ip _ htype hframe
  exact ⟨pk, e, ip, _, hplace, hframe, hchecks (by rw [hihl]; decide)⟩

end IntHpcc.Dumbbell
