import Sstoraged.ReplyData

namespace Sstoraged.ReplyLeaks

open ReadFormat ReplyFraming Store

variable {B : Type} {ix : LbaIndex}

inductive Command
  | inquiry
  | readCapacity
  | readCapacity16
  | modeSense
  | reportLuns

namespace Command

def handle (s : Session B ix) (bhs : Header) : Command → Option (Bool × Session B ix)
  | .inquiry => InquiryHandler.handle s bhs
  | .readCapacity => ReadCapacityHandler.readCapacity.handle s bhs
  | .readCapacity16 => ReadCapacityHandler.readCapacity16.handle s bhs
  | .modeSense => ModeSenseHandler.handle s bhs
  | .reportLuns => ReportLUNSHandler.handle s bhs

/-- The data segment that the handler leaves behind, with what was in the buffer and on
the stack before. -/
def data (s : Session B ix) (bhs stack mem : Header) : Command → Header
  | .inquiry => run (InquiryHandler.stores (Parser.mk bhs).getSCB stack) mem
  | .readCapacity =>
    run (ReadCapacityHandler.readCapacity.stores 4 ReadCapacityHandler.data10 s bhs stack) mem
  | .readCapacity16 =>
    run (ReadCapacityHandler.readCapacity16.stores 8 ReadCapacityHandler.data16 s bhs stack) mem
  | .modeSense => run (ModeSenseHandler.stores s bhs stack) mem
  | .reportLuns => (ReportLUNSHandler.data s bhs mem).mem

/-- The condition: the handler writes all of the data segment and there is no padding. -/
def Written (s : Session B ix) (bhs : Header) : Command → Prop
  | .inquiry => ∀ size ∈ InquiryHandler.dataSize (Parser.mk bhs).getSCB,
      padding (min size (Parser.mk bhs).getEXPDATALEN) = 0
  | .readCapacity => padding (min (capacitySize .readCapacity (Parser.mk bhs).getSCB)
      (Parser.mk bhs).getEXPDATALEN) = 0
  | .readCapacity16 => padding (min (capacitySize .readCapacity16 (Parser.mk bhs).getSCB)
      (Parser.mk bhs).getEXPDATALEN) = 0
  | .modeSense =>
      let cdb := (Parser.mk bhs).getSCB
      let alloc := ModeSenseHandler.getAllocationLength cdb
      if alloc < ModeSenseHandler.headerSize then
        alloc = 1 ∧ (Parser.mk bhs).getEXPDATALEN = 0 ∧ ModeSenseHandler.getPageCode cdb ≠ 0
      else
        (alloc = ModeSenseHandler.headerSize ∨
            ModeSenseHandler.isDBD cdb = true ∧ ModeSenseHandler.getPageCode cdb = 0) ∧
          padding (min ModeSenseHandler.headerSize (Parser.mk bhs).getEXPDATALEN) = 0
  | .reportLuns =>
      8 ∣ ReportLUNSHandler.getAllocationLength (Parser.mk bhs).getSCB ∧
        ReportLUNSHandler.getAllocationLength (Parser.mk bhs).getSCB ≤ 8 + 8 * s.lvs.length

end Command

/-- What a call puts on the wire: the header and the bytes behind it, for each reply. -/
def wire (s s' : Session B ix) (data : Header) : List (ReplyHeader × List UInt8) :=
  (s'.sendtask.drop s.sendtask.length).filterMap fun
    | .send t => t.cbufs.head?.map fun p =>
        (s'.headers p, (List.range (t.totalRemain - sizeofHeader)).map data)
    | _ => none

/-- Nothing on the wire depends on what the buffer held before. -/
def LeakFree (s s' : Session B ix) (data : Header → Header → Header) : Prop :=
  ∀ stack mem mem', wire s s' (data stack mem) = wire s s' (data stack mem')

variable {s s' : Session B ix} {bhs : Header}

theorem wire_handed {hd : DataInHeader} {bytes : Nat} (h : Handed s s' hd bytes) (data : Header) :
    wire s s' data = [(.dataIn hd, (List.range (bytes - sizeofHeader)).map data)] := by
  obtain ⟨p, hsend, hhead⟩ := h.sendtask
  simp [wire, hsend, hhead]

theorem leakFree_iff {hd : DataInHeader} {bytes : Nat} (h : Handed s s' hd bytes)
    (data : Header → Header → Header) : LeakFree s s' data ↔
      ∀ i < bytes - sizeofHeader, ∀ stack mem mem', data stack mem i = data stack mem' i := by
  have hlist : ∀ f g : Header, (List.range (bytes - sizeofHeader)).map f =
      (List.range (bytes - sizeofHeader)).map g ↔ ∀ i < bytes - sizeofHeader, f i = g i := by
    intro f g
    rw [List.map_inj_left]
    exact ⟨fun hf i hi => hf i (List.mem_range.2 hi), fun hf i hi => hf i (List.mem_range.1 hi)⟩
  simp only [LeakFree, wire_handed h, List.cons.injEq, Prod.mk.injEq, true_and, and_true, hlist]
  exact ⟨fun hl i hi stack mem mem' => hl stack mem mem' i hi,
    fun hl stack mem mem' i hi => hl i hi stack mem mem'⟩

instance nontrivial_uint8 : Nontrivial UInt8 := ⟨0, 1, by decide⟩

theorem leakFree_run_iff {hd : DataInHeader} {bytes : Nat} (h : Handed s s' hd bytes)
    (ws : Header → List (Store UInt8)) {cover : Nat → Prop}
    (hc : ∀ stack i, Covered (ws stack) i ↔ cover i) :
    LeakFree s s' (fun stack => run (ws stack)) ↔ ∀ i < bytes - sizeofHeader, cover i := by
  rw [leakFree_iff h]
  refine forall_congr' fun i => imp_congr_right fun _ => ?_
  refine ⟨fun hl => (hc (fun _ => 0) i).1 ((run_eq_iff_covered _ i).1 (hl _)), fun hcov stack => ?_⟩
  exact (run_eq_iff_covered _ i).2 ((hc stack i).2 hcov)

theorem covered_cons {w : Store UInt8} {ws : List (Store UInt8)} {i : Nat} :
    Covered (w :: ws) i ↔ w.Covers i ∨ Covered ws i := by
  simp [Covered]

theorem covered_append {ws ws' : List (Store UInt8)} {i : Nat} :
    Covered (ws ++ ws') i ↔ Covered ws i ∨ Covered ws' i := by
  simp [Covered, or_and_right, exists_or]

theorem not_covered_nil {i : Nat} : ¬ Covered ([] : List (Store UInt8)) i := by
  simp [Covered]

theorem covered_ite {c : Prop} [Decidable c] {ws ws' : List (Store UInt8)} {i : Nat} :
    Covered (if c then ws else ws') i ↔ (c ∧ Covered ws i) ∨ ¬ c ∧ Covered ws' i := by
  split <;> simp_all

theorem covered_singleton {a i : Nat} {vals : List UInt8} :
    Covered [⟨a, vals⟩] i ↔ a ≤ i ∧ i < a + vals.length := by
  simp [Covered, Covers]

theorem covers_construct {size : Nat} {fields : List (Store UInt8)} {stack : Header} {i : Nat} :
    (construct size fields stack).Covers i ↔ i < size := by
  simp [construct, Covers]

theorem covered_structure {size : Nat} {fields ws : List (Store UInt8)} {stack : Header}
    (h : ∀ w ∈ ws, w.addr + w.vals.length ≤ size) (i : Nat) :
    Covered (construct size fields stack :: ws) i ↔ i < size := by
  rw [covered_cons, covers_construct]
  refine ⟨fun hc => hc.elim id ?_, .inl⟩
  rintro ⟨w, hw, -, hlt⟩
  exact Nat.lt_of_lt_of_le hlt (h w hw)

theorem replied_leakFree_iff {size : Nat} {hd : DataInHeader} (h : Replied s bhs s' size hd)
    (ws : Header → List (Store UInt8)) (hc : ∀ stack i, Covered (ws stack) i ↔ i < size) :
    LeakFree s s' (fun stack => run (ws stack)) ↔ padding
      (min size (Parser.mk bhs).getEXPDATALEN) = 0 := by
  rw [leakFree_run_iff h.toHanded ws hc, h.dlength]
  refine ⟨fun hall => ?_, fun hpad i hi => by omega⟩
  by_contra hpad
  have := hall size (by omega)
  omega

theorem inquiry_leakFree_iff (h : InquiryHandler.handle s bhs = some (true, s')) :
    LeakFree s s' (Command.data s bhs · · .inquiry) ↔ Command.Written s bhs .inquiry := by
  obtain ⟨size, hd, hsize, hreplied⟩ := inquiry_replied h
  have hw : Command.Written s bhs .inquiry ↔ padding (min size (Parser.mk bhs).getEXPDATALEN) = 0 := by
    rw [Command.Written, hsize]
    simp
  rw [hw]
  refine replied_leakFree_iff hreplied _ fun stack i => ?_
  revert hsize
  unfold InquiryHandler.dataSize InquiryHandler.stores
  repeat' split
  all_goals intro hsize
  all_goals cases hsize
  all_goals exact covered_structure (by simp) i

theorem readCapacity_leakFree_iff {rc : ReadCapacityHandler} {lbaSize : Nat}
    {setLBA : Nat → List (Store UInt8)} (hpos : rc.size ≠ 0) (hlt : rc.size < 2 ^ 8)
    (hset : ∀ total, ∀ w ∈ setLBA total, w.addr + w.vals.length ≤ rc.size)
    (h : rc.handle s bhs = some (true, s')) :
    LeakFree s s' (fun stack => run (rc.stores lbaSize setLBA s bhs stack)) ↔
      padding (min (capacitySize rc (Parser.mk bhs).getSCB) (Parser.mk bhs).getEXPDATALEN) = 0 := by
  obtain ⟨hd, hreplied⟩ := readCapacity_replied hpos hlt h
  refine replied_leakFree_iff hreplied _ fun stack i => ?_
  rw [ReadCapacityHandler.stores, capacitySize]
  split
  · refine covered_structure (fun w hw => ?_) i
    cases hlun : s.getLUN (Parser.mk bhs).getLUN with
    | none =>
      rw [hlun] at hw
      exact absurd hw List.not_mem_nil
    | some lv =>
      rw [hlun] at hw
      exact hset _ w hw
  · exact covered_structure (fun w hw => absurd hw List.not_mem_nil) i

section ModeSense

open ModeSenseHandler

instance (ws : List (Store UInt8)) (i : Nat) : Decidable (Covered ws i) :=
  inferInstanceAs (Decidable (∃ w ∈ ws, w.Covers i))

/-- What is set in a page lies inside, and leaves out some byte. -/
structure Holed (p : Page) : Prop where
  inside : ∀ w ∈ p.fields, w.addr + w.vals.length ≤ p.size
  hole : ∃ g < p.size, ¬ Covered p.fields g

theorem pages_holed {page : UInt8} {ps : List Page} (h : pages page = some ps) : ∀ p ∈ ps, Holed p := by
  have hdr : Holed disconnectReconnect := ⟨by decide, by decide⟩
  have hfd : Holed formatDevice := ⟨by decide, by decide⟩
  have hrd : Holed rigidDiskGeometry := ⟨by decide, by decide⟩
  have hca : Holed caching := ⟨by decide, by decide⟩
  have hco : Holed control := ⟨by decide, by decide⟩
  have hie : Holed informationalExceptionsCtrl := ⟨by decide, by decide⟩
  revert h
  unfold pages
  repeat' split
  all_goals intro h
  all_goals cases h
  all_goals simp [hdr, hfd, hrd, hca, hco, hie]

theorem pages_nil_iff {page : UInt8} {ps : List Page} (h : pages page = some ps) :
    ps = [] ↔ page = 0 := by
  revert h
  unfold pages
  repeat' split
  all_goals intro h
  all_goals cases h
  all_goals simp_all

theorem eq_zero_of_setLength {total i : Nat} (h : (setLength total).Covers i) : i = 0 :=
  Nat.lt_one_iff.1 h.2

theorem covered_appendPages {limit total i : Nat} {ps : List Page} (hps : ∀ p ∈ ps, Holed p)
    (hc : Covered (appendPages limit total ps) i) : i = 0 ∨ total ≤ i ∧ i < limit := by
  induction ps generalizing total with
  | nil => exact absurd hc not_covered_nil
  | cons p ps ih =>
    rw [appendPages, List.cons_append, covered_cons, covered_append] at hc
    rcases hc with hlen | hpage | hrest
    · exact .inl (eq_zero_of_setLength hlen)
    · split at hpage
      · exact absurd hpage not_covered_nil
      · rename_i hfit
        obtain ⟨w, hw, hle, hlt⟩ := hpage
        obtain ⟨v, hv, rfl⟩ := List.mem_map.1 hw
        have hin := (hps p List.mem_cons_self).inside v hv
        dsimp only at hle hlt
        exact .inr ⟨by omega, by omega⟩
    · obtain hzero | ⟨hle, hlt⟩ := ih (fun q hq => hps q (List.mem_cons_of_mem _ hq)) hrest
      · exact .inl hzero
      · exact .inr ⟨by omega, hlt⟩

theorem exists_hole {limit total : Nat} {p : Page} {ps : List Page} (hps : ∀ q ∈ p :: ps, Holed q)
    (hpos : 0 < total) (hlim : total < limit) :
    ∃ i, total ≤ i ∧ i < min (total + p.size) limit ∧ ¬ Covered
      (appendPages limit total (p :: ps)) i := by
  obtain ⟨g, hg, hhole⟩ := (hps p List.mem_cons_self).hole
  have hrest : ∀ q ∈ ps, Holed q := fun q hq => hps q (List.mem_cons_of_mem _ hq)
  by_cases hfit : limit < total + p.size ∨ 0x100 < total + p.size
  · refine ⟨total, Nat.le_refl _, by omega, fun hc => ?_⟩
    rw [appendPages, if_pos hfit, List.cons_append, List.nil_append, covered_cons] at hc
    rcases hc with hlen | hc
    · exact absurd (eq_zero_of_setLength hlen) (Nat.ne_of_gt hpos)
    · have := covered_appendPages hrest hc
      omega
  · refine ⟨total + g, Nat.le_add_right _ _, by omega, fun hc => ?_⟩
    rw [appendPages, if_neg hfit, List.cons_append, covered_cons, covered_append] at hc
    rcases hc with hlen | hpage | hc
    · have := eq_zero_of_setLength hlen
      omega
    · obtain ⟨w, hw, hle, hlt⟩ := hpage
      obtain ⟨v, hv, rfl⟩ := List.mem_map.1 hw
      dsimp only at hle hlt
      exact hhole ⟨v, hv, by omega, by omega⟩
    · have := covered_appendPages hrest hc
      omega

/-- The bytes of the mode data that are written. -/
def ModeCovered (limit : Nat) (dbd : Bool) (page : UInt8) (i : Nat) : Prop :=
  (headerSize ≤ limit ∧ i < headerSize) ∨ (dbd = false ∧ i = 3) ∨ (limit = headerSize ∧ i = 0) ∨
    limit ≠ headerSize ∧
      ((dbd = false ∧ headerSize + blockDescriptorSize ≤ limit ∧
          (i = 0 ∨ headerSize ≤ i ∧ i < headerSize + 4)) ∨
        Covered (appendPages limit (headerSize + if dbd then 0 else blockDescriptorSize)
          ((pages page).getD [])) i)

theorem covered_stores (s : Session B ix) (bhs stack : Header) (i : Nat) :
    Covered (ModeSenseHandler.stores s bhs stack) i ↔
      ModeCovered (getAllocationLength (Parser.mk bhs).getSCB) (isDBD (Parser.mk bhs).getSCB)
        (getPageCode (Parser.mk bhs).getSCB) i := by
  have hdesc : ∀ limit size, Covered (appendBlockDescriptor limit size) i ↔
      headerSize + blockDescriptorSize ≤ limit ∧ (i = 0 ∨ headerSize ≤ i ∧ i < headerSize + 4) := by
    intro limit size
    rw [appendBlockDescriptor, covered_ite, covered_cons, covered_singleton]
    simp [not_covered_nil, setLength, Covers, htonl, hton24, htons]
  have hbyte : ∀ (a : Nat) (x : UInt8), Covered [⟨a, [x]⟩] i ↔ i = a := by
    intro a x
    rw [covered_singleton, List.length_singleton]
    omega
  have hhead : Covered [construct headerSize [⟨0, [0, 0, 0, 0]⟩] stack] i ↔ i < headerSize := by
    rw [covered_cons, covers_construct, or_iff_left not_covered_nil]
  unfold ModeSenseHandler.stores ModeCovered
  dsimp only
  rw [covered_append, covered_append, covered_ite, covered_ite, covered_ite, covered_append,
    covered_ite, hhead, hbyte, hbyte, hdesc]
  simp only [not_covered_nil, and_false, or_false, false_or, Bool.not_eq_true]
  tauto

section Sent

variable {limit exp length : Nat} {dbd : Bool} {page : UInt8}

theorem covered_short_iff (hpos : limit ≠ 0) (hlt : limit < headerSize) {ps : List Page}
    (hps : pages page = some ps) :
    (∀ i < limit + padding (min limit exp), ModeCovered limit dbd page i) ↔
      limit = 1 ∧ exp = 0 ∧ page ≠ 0 := by
  have hnil := pages_nil_iff hps
  have hhole : ∀ i, i ≠ 3 → ModeCovered limit dbd page i → i = 0 ∧ ps ≠ [] := by
    intro i hi hc
    rw [ModeCovered, hps, Option.getD_some] at hc
    obtain ⟨hle, -⟩ | ⟨-, h3⟩ | ⟨heq, -⟩ | ⟨-, ⟨-, hle, -⟩ | happ⟩ := hc
    · omega
    · exact absurd h3 hi
    · omega
    · omega
    · have := covered_appendPages (pages_holed hps) happ
      exact ⟨by omega, fun hps => not_covered_nil (hps ▸ happ)⟩
  refine ⟨fun hall => ?_, ?_⟩
  · have hn : ¬ 1 < limit + padding (min limit exp) := fun h1 =>
      absurd (hhole 1 (by decide) (hall 1 h1)).1 (by decide)
    have hlimit : limit = 1 := by omega
    refine ⟨hlimit, ?_, fun hp => (hhole 0 (by decide) (hall 0 (by omega))).2 (hnil.2 hp)⟩
    by_contra hexp
    have hmin : min limit exp = 1 := by omega
    have hpad : padding 1 = 3 := rfl
    rw [hmin, hpad] at hn
    omega
  · rintro ⟨rfl, rfl, hpage⟩ i hi
    have hpad : padding (min 1 0) = 0 := rfl
    obtain rfl : i = 0 := by omega
    cases ps with
    | nil => exact absurd (hnil.1 rfl) hpage
    | cons p ps =>
      refine .inr (.inr (.inr ⟨by decide, .inr ?_⟩))
      rw [hps, Option.getD_some, appendPages, List.cons_append, covered_cons]
      exact .inl ⟨Nat.le_refl _, Nat.one_pos⟩

theorem covered_header_iff (hc : ∀ i, ModeCovered limit dbd page i ↔ i < headerSize) :
    (∀ i < headerSize + padding (min headerSize exp), ModeCovered limit dbd page i) ↔
      padding (min headerSize exp) = 0 := by
  refine ⟨fun hall => ?_, fun hpad i hi => (hc i).2 (by omega)⟩
  by_contra hpad
  exact absurd ((hc headerSize).1 (hall headerSize (by omega))) (Nat.lt_irrefl _)

theorem covered_iff (hpos : limit ≠ 0) (hlen : (if limit = headerSize then some headerSize
      else (pageSize page).map fun size => headerSize + (if dbd then 0 else blockDescriptorSize) +
        size) =
        some length) :
    (∀ i < min length limit + padding (min (min length limit) exp), ModeCovered limit dbd page i) ↔
      if limit < headerSize then limit = 1 ∧ exp = 0 ∧ page ≠ 0
      else (limit = headerSize ∨ dbd = true ∧ page = 0) ∧ padding (min headerSize exp) = 0 := by
  by_cases hhead : limit = headerSize
  · rw [if_pos hhead, Option.some.injEq] at hlen
    subst hhead hlen
    rw [if_neg (Nat.lt_irrefl _), Nat.min_self, covered_header_iff fun i => ?_]
    · simp
    · rw [ModeCovered, headerSize]
      omega
  rw [if_neg hhead, pageSize_eq, Option.map_map, Option.map_eq_some_iff] at hlen
  obtain ⟨ps, hps, rfl⟩ := hlen
  have hnil := pages_nil_iff hps
  dsimp only [Function.comp]
  by_cases hlt : limit < headerSize
  · rw [if_pos hlt, Nat.min_eq_right (by omega)]
    exact covered_short_iff hpos hlt hps
  rw [if_neg hlt]
  have h4 : headerSize = 4 := rfl
  have h8 : blockDescriptorSize = 8 := rfl
  cases dbd with
  | false =>
    refine iff_of_false (fun hall => ?_) (by simp [hhead])
    -- the descriptor is left out, or its second half is
    have hhole : ∀ i, 4 ≤ i → i < 12 → limit < 12 ∨ 8 ≤ i → ¬ ModeCovered limit false page i := by
      intro i hi hi' hor hc
      rw [ModeCovered, hps, Option.getD_some, if_neg (by decide)] at hc
      obtain ⟨-, hlt⟩ | ⟨-, h3⟩ | ⟨heq, -⟩ | ⟨-, ⟨-, hle, hin⟩ | happ⟩ := hc
      · omega
      · omega
      · exact hhead heq
      · omega
      · have := covered_appendPages (pages_holed hps) happ
        omega
    rw [if_neg (by decide)] at hall
    by_cases hdesc : limit < 12
    · exact hhole 4 (by decide) (by decide) (.inl hdesc) (hall 4 (by omega))
    · exact hhole 8 (by decide) (by decide) (.inr (by decide)) (hall 8 (by omega))
  | true =>
    have hcov : ∀ i, ModeCovered limit true page i ↔
        i < headerSize ∨ Covered (appendPages limit headerSize ps) i := by
      intro i
      rw [ModeCovered, hps, Option.getD_some, if_pos rfl, Nat.add_zero]
      simp [hhead, Nat.le_of_not_lt hlt]
    rw [if_pos rfl, Nat.add_zero]
    cases ps with
    | nil =>
      have hmin : min (headerSize + (List.map Page.size []).sum) limit = headerSize := by
        rw [List.map_nil, List.sum_nil]
        omega
      rw [hmin, covered_header_iff fun i => (hcov i).trans (or_iff_left not_covered_nil)]
      simp [hnil.1 rfl]
    | cons p ps =>
      have hpage : page ≠ 0 := fun hp => absurd (hnil.2 hp) (List.cons_ne_nil _ _)
      refine iff_of_false (fun hall => ?_) (by simp [hhead, hpage])
      obtain ⟨i, hle, hi, hhole⟩ := exists_hole (pages_holed hps) (Nat.succ_pos 3)
        (by omega : headerSize < limit)
      have hi' : i < min (headerSize + (List.map Page.size (p :: ps)).sum) limit := by
        rw [List.map_cons, List.sum_cons]
        omega
      obtain hlt | hc := (hcov i).1 (hall i (by omega))
      · omega
      · exact hhole hc

end Sent

theorem modeSense_leakFree_iff (h : ModeSenseHandler.handle s bhs = some (true, s')) :
    LeakFree s s' (Command.data s bhs · · .modeSense) ↔ Command.Written s bhs .modeSense := by
  obtain ⟨length, hd, hlength, hzero, hreplied⟩ := modeSense_replied h
  refine (leakFree_run_iff hreplied.toHanded _ (covered_stores s bhs)).trans ?_
  rw [hreplied.dlength, Nat.add_assoc, Nat.add_sub_cancel_left]
  exact covered_iff hzero hlength

end ModeSense

section ReportLuns

open ReportLUNSData ReportLuns

/-- The blocks that one LUN is added with. -/
def lunStores (limit k : Nat) : List (Store UInt8) :=
  ⟨0, htonl (offsetOf k)⟩ :: if headerSize + offsetOf k ≤ limit then [⟨offsetOf k, lunOfId k⟩] else []

theorem mem_add {n : Nat} {d : ReportLUNSData} (h : Listed n d) :
    (d.add n).2.mem = run (lunStores d.limit n) d.mem := by
  rw [lunStores]
  split
  · rename_i hfit
    rw [add_of_fits h hfit]
    rfl
  · rename_i hfit
    rw [add_of_not_fits h hfit]
    rfl

theorem mem_addAll (mem : Header) {limit : Nat} (h : headerSize ≤ limit) (n : Nat) :
    (ReportLUNSData.addAll n (.new mem limit)).mem =
      run (⟨0, List.replicate headerSize 0⟩ :: (List.range n).flatMap (lunStores limit)) mem := by
  induction n with
  | zero =>
    rw [addAll, ReportLUNSData.new, if_pos h]
    rfl
  | succ n ih =>
    rw [addAll, mem_add (listed_addAll mem h n), limit_addAll, ih, List.range_succ, List.flatMap_append,
      List.flatMap_singleton, ← List.cons_append, run_append]
    rfl

theorem covered_luns (limit n i : Nat) :
    Covered (⟨0, List.replicate headerSize 0⟩ :: (List.range n).flatMap (lunStores limit)) i ↔
      i < headerSize ∨ ∃ k < n, headerSize + offsetOf k ≤ limit ∧ offsetOf k ≤ i ∧
        i < offsetOf k + lunSize := by
  have hlen : ∀ k, (htonl k).length = 4 := fun k => rfl
  have hhead : (⟨0, List.replicate headerSize 0⟩ : Store UInt8).Covers i ↔ i < headerSize := by
    simp [Covers]
  rw [covered_cons, hhead]
  refine or_congr_right' fun hi => ?_
  simp only [Covered, List.mem_flatMap, List.mem_range]
  refine ⟨?_, ?_⟩
  · rintro ⟨w, ⟨k, hk, hw⟩, hle, hlt⟩
    rw [lunStores, List.mem_cons] at hw
    obtain rfl | hw := hw
    · dsimp only at hlt
      rw [hlen] at hlt
      rw [headerSize] at hi
      omega
    · split at hw
      · rename_i hfit
        obtain rfl := List.mem_singleton.1 hw
        exact ⟨k, hk, hfit, hle, hlt⟩
      · exact absurd hw List.not_mem_nil
  · rintro ⟨k, hk, hfit, hle, hlt⟩
    refine ⟨⟨offsetOf k, lunOfId k⟩, ⟨k, hk, ?_⟩, hle, hlt⟩
    rw [lunStores, if_pos hfit]
    exact List.mem_cons_of_mem _ List.mem_cons_self

theorem covered_all_iff {limit n : Nat} (hmin : 16 ≤ limit) (hmax : limit < 2 ^ 31) :
    (∀ i < wordPad limit, i < headerSize ∨
        ∃ k < n, headerSize + offsetOf k ≤ limit ∧ offsetOf k ≤ i ∧ i < offsetOf k + lunSize) ↔
      8 ∣ limit ∧ limit ≤ 8 + 8 * n := by
  have h8 : headerSize = 8 := rfl
  have hl : lunSize = 8 := rfl
  have hpad : limit ≤ wordPad limit := by
    rw [wordPad, padWordLen]
    omega
  refine ⟨fun hall => ?_, ?_⟩
  · obtain hlt | ⟨k, hk, hfit, hle, hlt⟩ := hall (wordPad limit - 1) (by omega)
    · omega
    · have hmod := offsetOf_mod k
      have heq : limit = offsetOf k + 8 := by omega
      rw [offsetOf] at heq hmod
      exact ⟨by omega, by omega⟩
  · rintro ⟨hdvd, hle⟩ i hi
    have heq : wordPad limit = limit := by
      rw [wordPad, padWordLen]
      omega
    by_cases hlt : i < headerSize
    · exact .inl hlt
    · have hoff : offsetOf (i / 8 - 1) = 8 * (i / 8) := by
        rw [offsetOf]
        omega
      exact .inr ⟨i / 8 - 1, by omega, by omega, by omega, by omega⟩

theorem reportLuns_leakFree_iff (h : ReportLUNSHandler.handle s bhs = some (true, s')) :
    LeakFree s s' (Command.data s bhs · · .reportLuns) ↔ Command.Written s bhs .reportLuns := by
  obtain ⟨hd, hdlength, -, -, hhanded⟩ := reportLuns_handed h
  have halloc := alloc_of_handle h
  have hmem : (Command.data s bhs · · .reportLuns) = fun _ => run (⟨0, List.replicate headerSize 0⟩ ::
      (List.range s.lvs.length).flatMap
        (lunStores (ReportLUNSHandler.getAllocationLength (Parser.mk bhs).getSCB))) := by
    funext _ mem
    exact mem_addAll mem (Nat.le_trans (by decide) halloc) _
  rw [hmem, leakFree_run_iff hhanded _ fun _ => covered_luns _ _, Nat.add_sub_cancel_left, hdlength]
  have hle := alloc_le_of_handle h
  have hsize : commonBufSize = 131072 := rfl
  exact covered_all_iff halloc (by omega)

end ReportLuns

/-- A reply leaks nothing of what its buffer held before just if the handler writes all of
its data and no padding is sent behind it. -/
theorem leakFree_iff_written (c : Command) (h : c.handle s bhs = some (true, s')) :
    LeakFree s s' (c.data s bhs) ↔ c.Written s bhs := by
  cases c with
  | inquiry => exact inquiry_leakFree_iff h
  | readCapacity =>
    refine readCapacity_leakFree_iff (by decide) (by decide) (fun total w hw => ?_) h
    obtain rfl := List.mem_singleton.1 hw
    exact Nat.le_of_ble_eq_true rfl
  | readCapacity16 =>
    refine readCapacity_leakFree_iff (by decide) (by decide) (fun total w hw => ?_) h
    obtain rfl := List.mem_singleton.1 hw
    exact Nat.le_of_ble_eq_true rfl
  | modeSense => exact modeSense_leakFree_iff h
  | reportLuns => exact reportLuns_leakFree_iff h

section Sample

open ReportLuns

/-- A list of two LUNs that fills the data segment. -/
theorem leakFree_two_luns : ∃ s', sampleReply 2 = some (true, s') ∧
    LeakFree (sampleLuns 2) s' (Command.reportLuns.data (sampleLuns 2) sampleReportLuns) := by
  obtain ⟨s', hs⟩ := @sampleReply_eq 2 (by decide +kernel)
  refine ⟨s', hs, (leakFree_iff_written .reportLuns hs).2 ?_⟩
  exact ⟨by decide, by decide⟩

/-- With one LUN, 8 bytes of the data segment are sent as they were found. -/
theorem not_leakFree_one_lun : ∃ s', sampleReply 1 = some (true, s') ∧
    ¬ LeakFree (sampleLuns 1) s' (Command.reportLuns.data (sampleLuns 1) sampleReportLuns) := by
  obtain ⟨s', hs⟩ := @sampleReply_eq 1 (by decide +kernel)
  refine ⟨s', hs, fun hl => ?_⟩
  have hle := ((reportLuns_leakFree_iff hs).1 hl).2
  exact absurd hle (by decide)

end Sample

end Sstoraged.ReplyLeaks
