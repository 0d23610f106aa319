import Sstoraged.ReplyLeaks

namespace Sstoraged

open Store

variable {B : Type} {ix : LbaIndex}

namespace ReportLUNSData

/-- The blocks that `add` stores. -/
def addStores (id : Nat) (d : ReportLUNSData) : List (Store UInt8) :=
  let length := u32 (d.mem.ntohl 0 + lunSize)
  ⟨0, htonl length⟩ :: if d.limit < headerSize + length then [] else [⟨length, lunOfId id⟩]

def addAllStores : Nat → ReportLUNSData → List (Store UInt8)
  | 0, _ => []
  | n + 1, d => addAllStores n d ++ (addAll n d).addStores n

theorem run_addStores (id : Nat) (d : ReportLUNSData) :
    run (d.addStores id) d.mem = (d.add id).2.mem := by
  unfold addStores add
  dsimp only
  split <;> rfl

theorem run_addAllStores (n : Nat) (d : ReportLUNSData) :
    run (d.addAllStores n) d.mem = (d.addAll n).mem := by
  induction n with
  | zero => rfl
  | succ n ih => rw [addAllStores, run_append, ih, run_addStores, addAll]

end ReportLUNSData

namespace ReportLUNSHandler

open ReportLUNSData

/-- What the handler stores, with what was in the data segment before. -/
def stores (s : Session B ix) (bhs mem : Header) : List (Store UInt8) :=
  let limit := getAllocationLength (Parser.mk bhs).getSCB
  (if headerSize ≤ limit then [⟨0, List.replicate headerSize 0⟩] else []) ++
    addAllStores s.lvs.length (.new mem limit)

theorem run_stores (s : Session B ix) (bhs mem : Header) :
    run (stores s bhs mem) mem = (data s bhs mem).mem := by
  rw [stores, run_append, data, ← run_addAllStores]
  congr 1
  rw [ReportLUNSData.new]
  split <;> rfl

end ReportLUNSHandler

namespace ReplyBounds

open ReplyFraming ReplyLeaks

inductive Command
  | reportLuns
  | modeSense

namespace Command

def getAllocationLength (cdb : Header) : Command → Nat
  | .reportLuns => ReportLUNSHandler.getAllocationLength cdb
  | .modeSense => ModeSenseHandler.getAllocationLength cdb

/-- The command passes the checks that come before the reply is generated. -/
def accepts (bhs : Header) (c : Command) : Bool :=
  readsFinal bhs && match c with
    | .reportLuns => ReportLUNSHandler.valid (Parser.mk bhs).getSCB
    | .modeSense => ModeSenseHandler.valid (Parser.mk bhs).getSCB

def handle (s : Session B ix) (bhs : Header) : Command → Option (Bool × Session B ix)
  | .reportLuns => ReportLUNSHandler.handle s bhs
  | .modeSense => ModeSenseHandler.handle s bhs

/-- The bytes behind the header that `reserveDataSegment` makes room for. -/
def granted (s : Session B ix) (bhs : Header) (c : Command) : Option Nat :=
  let (reply, s) := newDataIn bhs statusGood s
  (reply.reserveDataSegment (c.getAllocationLength (Parser.mk bhs).getSCB) s).map fun s =>
    (s.bufs reply.cbuf).getRemain - sizeofHeader

/-- The blocks that an accepted command stores, from the pointer that `reserveDataSegment`
returns on. MODE SENSE of an unknown LUN stores the header only. -/
def stores (s : Session B ix) (bhs stack mem : Header) : Command → List (Store UInt8)
  | .reportLuns => ReportLUNSHandler.stores s bhs mem
  | .modeSense =>
    match s.getLUN (Parser.mk bhs).getLUN with
    | none =>
      if ModeSenseHandler.headerSize ≤ ModeSenseHandler.getAllocationLength (Parser.mk bhs).getSCB then
        [construct ModeSenseHandler.headerSize [⟨0, [0, 0, 0, 0]⟩] stack]
      else []
    | some _ => ModeSenseHandler.stores s bhs stack

/-- The condition: the list of LUNs fits a buffer; the mode data has room for its header,
or stores no more than the first byte of it. -/
def Fits (s : Session B ix) (bhs : Header) (c : Command) : Prop :=
  let cdb := (Parser.mk bhs).getSCB
  match c with
  | .reportLuns => sizeofHeader + ReportLUNSHandler.getAllocationLength cdb ≤ commonBufSize
  | .modeSense =>
    s.getLUN (Parser.mk bhs).getLUN = none ∨
      ModeSenseHandler.headerSize ≤ ModeSenseHandler.getAllocationLength cdb ∨
      ModeSenseHandler.isDBD cdb = true ∧
        (ModeSenseHandler.getAllocationLength cdb ≠ 0 ∨
          ∀ ps ∈ ModeSenseHandler.pages (ModeSenseHandler.getPageCode cdb), ps = [])

end Command

/-- Nothing is stored through a null pointer, and nothing outside the room. -/
def Confined (ws : List (Store UInt8)) : Option Nat → Prop
  | none => ws = []
  | some n => ∀ w ∈ ws, w.addr + w.vals.length ≤ n

/-- A command stores in the space it was granted only, and what is sent for it is no longer
than its allocation length. -/
structure Bounded (s : Session B ix) (bhs : Header) (c : Command) : Prop where
  confined : c.accepts bhs = true → ∀ stack mem, Confined (c.stores s bhs stack mem) (c.granted s bhs)
  dlength : ∀ s' data, c.handle s bhs = some (true, s') → ∀ p ∈ wire s s' data, ∀ hd, p.1 = .dataIn hd →
    hd.dlength ≤ c.getAllocationLength (Parser.mk bhs).getSCB

variable {s s' : Session B ix} {bhs : Header}

theorem granted_eq_none_iff (s : Session B ix) (bhs : Header) (c : Command) : c.granted s bhs = none ↔
    (newDataIn bhs statusGood s).1.reserveDataSegment (c.getAllocationLength (Parser.mk bhs).getSCB)
      (newDataIn bhs statusGood s).2 = none :=
  Option.map_eq_none_iff

theorem granted_refused (c : Command) (h : c.getAllocationLength (Parser.mk bhs).getSCB = 0 ∨
    commonBufSize < sizeofHeader + c.getAllocationLength (Parser.mk bhs).getSCB) :
    c.granted s bhs = none :=
  (granted_eq_none_iff s bhs c).2 ((newDataIn_open s bhs statusGood).reserve_none h (by decide))

theorem granted_room (c : Command) (hpos : c.getAllocationLength (Parser.mk bhs).getSCB ≠ 0)
    (hle : sizeofHeader + c.getAllocationLength (Parser.mk bhs).getSCB ≤ commonBufSize) :
    c.granted s bhs = some (c.getAllocationLength (Parser.mk bhs).getSCB) := by
  obtain ⟨s₁, heq, hopen⟩ := (newDataIn_open s bhs statusGood).reserve hpos hle
  rw [Command.granted]
  dsimp only
  rw [heq, Option.map_some, hopen.buf, CommonBuf.getRemain]
  exact congrArg some (Nat.add_sub_cancel_left _ _)

theorem room_modeSense (bhs : Header) :
    sizeofHeader + ModeSenseHandler.getAllocationLength (Parser.mk bhs).getSCB ≤ commonBufSize := by
  have hbyte : ModeSenseHandler.getAllocationLength (Parser.mk bhs).getSCB < 2 ^ 8 := UInt8.toNat_lt _
  have hsize : commonBufSize = 131072 := rfl
  rw [hsize, sizeofHeader]
  omega

theorem granted_modeSense (hpos : ModeSenseHandler.getAllocationLength (Parser.mk bhs).getSCB ≠ 0) :
    Command.granted s bhs .modeSense = some
      (ModeSenseHandler.getAllocationLength (Parser.mk bhs).getSCB) :=
  granted_room .modeSense hpos (room_modeSense bhs)

theorem confined_append {ws ws' : List (Store UInt8)} {n : Nat} :
    Confined (ws ++ ws') (some n) ↔ Confined ws (some n) ∧ Confined ws' (some n) :=
  List.forall_mem_append

theorem confined_cons {w : Store UInt8} {ws : List (Store UInt8)} {n : Nat} :
    Confined (w :: ws) (some n) ↔ w.addr + w.vals.length ≤ n ∧ Confined ws (some n) :=
  List.forall_mem_cons

theorem confined_nil (n : Nat) : Confined [] (some n) := fun _ hw => nomatch hw

section ReportLuns

open ReportLUNSData

theorem confined_addStores (id : Nat) {d : ReportLUNSData} (h : headerSize ≤ d.limit) :
    Confined (d.addStores id) (some d.limit) := by
  have hheader : headerSize = 8 := rfl
  have hlen : ∀ n, (htonl n).length = 4 := fun n => rfl
  refine confined_cons.2 ⟨?_, ?_⟩
  · rw [hlen]
    dsimp only
    omega
  · split
    · exact confined_nil _
    · rename_i hfit
      refine confined_cons.2 ⟨?_, confined_nil _⟩
      rw [ReportLuns.length_lunOfId, lunSize] at *
      dsimp only
      omega

theorem confined_addAllStores {d : ReportLUNSData} (h : headerSize ≤ d.limit) (n : Nat) :
    Confined (d.addAllStores n) (some d.limit) := by
  induction n with
  | zero => exact confined_nil _
  | succ n ih =>
    refine confined_append.2 ⟨ih, ?_⟩
    have hlimit := ReportLuns.limit_addAll n d
    have hadd := @confined_addStores n (addAll n d) (hlimit ▸ h)
    rwa [hlimit] at hadd

theorem confined_reportLuns (h : headerSize ≤ ReportLUNSHandler.getAllocationLength
    (Parser.mk bhs).getSCB)
    (mem : Header) : Confined (ReportLUNSHandler.stores s bhs mem)
      (some (ReportLUNSHandler.getAllocationLength (Parser.mk bhs).getSCB)) := by
  rw [ReportLUNSHandler.stores, if_pos h]
  refine confined_append.2 ⟨confined_cons.2 ⟨?_, confined_nil _⟩, confined_addAllStores h _⟩
  rwa [List.length_replicate, Nat.zero_add]

end ReportLuns

section ModeSense

open ModeSenseHandler

theorem confined_setLength {limit : Nat} (h : limit ≠ 0) (total : Nat) :
    (setLength total).addr + (setLength total).vals.length ≤ limit :=
  Nat.one_le_iff_ne_zero.2 h

theorem confined_appendPages {limit : Nat} (h : limit ≠ 0) {ps : List Page} (hps : ∀ p ∈ ps, Holed p)
    (total : Nat) : Confined (appendPages limit total ps) (some limit) := by
  induction ps generalizing total with
  | nil => exact confined_nil _
  | cons p ps ih =>
    rw [appendPages, List.cons_append]
    refine confined_cons.2 ⟨confined_setLength h _, confined_append.2 ⟨?_, ?_⟩⟩
    · split
      · exact confined_nil _
      · rename_i hfit
        intro w hw
        obtain ⟨v, hv, rfl⟩ := List.mem_map.1 hw
        have hin := (hps p List.mem_cons_self).inside v hv
        dsimp only
        omega
    · exact ih (fun q hq => hps q (List.mem_cons_of_mem _ hq)) _

theorem confined_appendBlockDescriptor (limit size : Nat) :
    Confined (appendBlockDescriptor limit size) (some limit) := by
  have hsize : headerSize + blockDescriptorSize = 12 := rfl
  rw [appendBlockDescriptor]
  split
  · exact confined_nil _
  · rename_i hfit
    refine confined_cons.2 ⟨confined_setLength (by omega) _, confined_cons.2 ⟨?_, confined_nil _⟩⟩
    have hlen : ∀ n, (htonl n).length = 4 := fun n => rfl
    have hheader : headerSize = 4 := rfl
    rw [hlen]
    dsimp only
    omega

theorem holed_of_getPages (page : UInt8) : ∀ p ∈ (pages page).getD [], Holed p := by
  intro p hp
  obtain hnone | ⟨ps, hps⟩ := (pages page).eq_none_or_eq_some
  · rw [hnone] at hp
    cases hp
  · rw [hps] at hp
    exact pages_holed hps p hp

theorem confined_modeSense_iff (hpos : getAllocationLength (Parser.mk bhs).getSCB ≠ 0) (stack : Header) :
    Confined (ModeSenseHandler.stores s bhs stack) (some (getAllocationLength (Parser.mk bhs).getSCB)) ↔
      headerSize ≤ getAllocationLength (Parser.mk bhs).getSCB ∨ isDBD (Parser.mk bhs).getSCB = true := by
  rw [ModeSenseHandler.stores]
  generalize getAllocationLength (Parser.mk bhs).getSCB = limit at hpos
  rw [confined_append, confined_append]
  refine ⟨fun h => ?_, fun h => ⟨⟨?_, ?_⟩, ?_⟩⟩
  · by_contra hnot
    rw [not_or] at hnot
    have hlen := h.1.2
    rw [if_neg hnot.2, confined_cons] at hlen
    exact hnot.1 hlen.1
  · split
    · rename_i hle
      refine confined_cons.2 ⟨?_, confined_nil _⟩
      rwa [construct, List.length_map, List.length_range, Nat.zero_add]
    · exact confined_nil _
  · split
    · exact confined_nil _
    · rename_i hdbd
      exact confined_cons.2 ⟨h.resolve_right hdbd, confined_nil _⟩
  · split
    · exact confined_cons.2 ⟨Nat.one_le_iff_ne_zero.2 hpos, confined_nil _⟩
    · refine confined_append.2 ⟨?_, confined_appendPages hpos (holed_of_getPages _) _⟩
      split
      · exact confined_nil _
      · exact confined_appendBlockDescriptor _ _

theorem modeSense_stores_nil_iff (hzero : getAllocationLength (Parser.mk bhs).getSCB = 0)
    (stack : Header) :
    ModeSenseHandler.stores s bhs stack = [] ↔
      isDBD (Parser.mk bhs).getSCB = true ∧ ∀ ps ∈ pages (getPageCode (Parser.mk bhs).getSCB),
        ps = [] := by
  have hheader : ¬ headerSize ≤ 0 := by decide
  have hne : (0 : Nat) ≠ headerSize := by decide
  have hpages : ∀ total ps, appendPages 0 total ps = [] ↔ ps = [] := by
    intro total ps
    cases ps with
    | nil => exact ⟨fun _ => rfl, fun _ => rfl⟩
    | cons p ps => exact ⟨fun h => (nomatch h), fun h => (nomatch h)⟩
  rw [ModeSenseHandler.stores, hzero, if_neg hheader, if_neg hne, List.nil_append,
    List.append_eq_nil_iff, List.append_eq_nil_iff,
    hpages]
  by_cases hdbd : isDBD (Parser.mk bhs).getSCB = true
  · cases pages (getPageCode (Parser.mk bhs).getSCB) <;> simp [hdbd]
  · simp [hdbd]

end ModeSense

theorem accepts_reportLuns (h : Command.accepts bhs .reportLuns = true) :
    16 ≤ ReportLUNSHandler.getAllocationLength (Parser.mk bhs).getSCB := by
  rw [Command.accepts, Bool.and_eq_true] at h
  have hvalid := h.2
  rw [ReportLUNSHandler.valid, Bool.and_eq_true, decide_eq_true_eq, decide_eq_true_eq] at hvalid
  exact hvalid.2

theorem reportLuns_stores_ne_nil (h : Command.accepts bhs .reportLuns = true) (mem : Header) :
    ReportLUNSHandler.stores s bhs mem ≠ [] := by
  have halloc := accepts_reportLuns h
  rw [ReportLUNSHandler.stores, if_pos (Nat.le_trans (by decide) halloc)]
  exact List.cons_ne_nil _ _

theorem reportLuns_confined_iff (h : Command.accepts bhs .reportLuns = true) (stack mem : Header) :
    Confined (Command.stores s bhs stack mem .reportLuns) (Command.granted s bhs .reportLuns) ↔
      Command.Fits s bhs .reportLuns := by
  have halloc := accepts_reportLuns h
  by_cases hfit : Command.Fits s bhs .reportLuns
  · rw [granted_room .reportLuns (Nat.ne_of_gt (Nat.lt_of_lt_of_le (by decide) halloc)) hfit]
    exact ⟨fun _ => hfit, fun _ => confined_reportLuns (Nat.le_trans (by decide) halloc) mem⟩
  · rw [granted_refused .reportLuns (.inr (Nat.lt_of_not_le hfit))]
    exact ⟨fun hnil => absurd hnil (reportLuns_stores_ne_nil h mem), fun hf => absurd hf hfit⟩

theorem modeSense_confined_iff (s : Session B ix) (bhs stack mem : Header) :
    Confined (Command.stores s bhs stack mem .modeSense) (Command.granted s bhs .modeSense) ↔
      Command.Fits s bhs .modeSense := by
  have hshort : ¬ ModeSenseHandler.headerSize ≤ 0 := by decide
  rw [Command.stores, Command.Fits]
  by_cases hzero : ModeSenseHandler.getAllocationLength (Parser.mk bhs).getSCB = 0
  · rw [granted_refused .modeSense (.inl hzero)]
    cases hlun : s.getLUN (Parser.mk bhs).getLUN with
    | none =>
      dsimp only
      rw [hzero, if_neg hshort]
      exact ⟨fun _ => .inl rfl, fun _ => rfl⟩
    | some lv =>
      refine (modeSense_stores_nil_iff hzero stack).trans ?_
      simp [hzero, hshort]
  · rw [granted_modeSense hzero]
    cases hlun : s.getLUN (Parser.mk bhs).getLUN with
    | none =>
      refine ⟨fun _ => .inl rfl, fun _ => ?_⟩
      dsimp only
      split
      · rename_i hle
        refine confined_cons.2 ⟨?_, confined_nil _⟩
        rwa [construct, List.length_map, List.length_range, Nat.zero_add]
      · exact confined_nil _
    | some lv =>
      refine (confined_modeSense_iff hzero stack).trans ?_
      simp [hzero]

theorem confined_iff_fits (s : Session B ix) (c : Command) (h : c.accepts bhs = true)
    (stack mem : Header) :
    Confined (c.stores s bhs stack mem) (c.granted s bhs) ↔ c.Fits s bhs := by
  cases c with
  | reportLuns => exact reportLuns_confined_iff h stack mem
  | modeSense => exact modeSense_confined_iff s bhs stack mem

theorem checks_of_accepts {opcode : Bool} (h : (readsFinal bhs && opcode) = true) :
    ¬ (readsFinal bhs = false ∨ opcode = false) := by
  rw [Bool.and_eq_true] at h
  simp [h.1, h.2]

theorem pageSize_iff (page : UInt8) : (∃ n ∈ ModeSenseHandler.pageSize page, n ≠ 0) ↔
    ¬ ∀ ps ∈ ModeSenseHandler.pages page, ps = [] := by
  rw [ModeSenseHandler.pageSize_eq]
  cases hpages : ModeSenseHandler.pages page with
  | none => simp
  | some ps =>
    cases ps with
    | nil => simp
    | cons p ps =>
      obtain ⟨g, hlt, -⟩ := (pages_holed hpages p List.mem_cons_self).hole
      simp
      omega

theorem handle_eq_none_iff (s : Session B ix) (c : Command) (h : c.accepts bhs = true)
    (stack mem : Header) :
    c.handle s bhs = none ↔ c.granted s bhs = none ∧ c.stores s bhs stack mem ≠ [] := by
  cases c with
  | reportLuns =>
    rw [granted_eq_none_iff, Command.handle, ReportLUNSHandler.handle, if_neg (checks_of_accepts h)]
    refine Option.map_eq_none_iff.trans ⟨fun hnone => ⟨hnone, ?_⟩, And.left⟩
    exact reportLuns_stores_ne_nil h mem
  | modeSense =>
    rw [Command.handle, ModeSenseHandler.handle, if_neg (checks_of_accepts h), Command.stores]
    have hopen := newDataIn_open s bhs statusGood
    have hlun : (newDataIn bhs statusGood s).2.getLUN (Parser.mk bhs).getLUN =
        s.getLUN (Parser.mk bhs).getLUN := by
      rw [Session.getLUN, hopen.lvs, Session.getLUN]
    dsimp only
    by_cases hzero : ModeSenseHandler.getAllocationLength (Parser.mk bhs).getSCB = 0
    · rw [granted_refused .modeSense (.inl hzero), hopen.reserve_none (.inl hzero) (by decide)]
      dsimp only
      rw [hlun]
      cases s.getLUN (Parser.mk bhs).getLUN with
      | none =>
        have hshort : ¬ ModeSenseHandler.headerSize ≤ 0 := by decide
        simp [hzero, hshort]
      | some lv =>
        dsimp only
        rw [ne_eq, modeSense_stores_nil_iff hzero, not_and_or, Bool.not_eq_true, ← pageSize_iff,
          ite_eq_left_iff]
        simp only [reduceCtorEq, imp_false, not_not, true_and]
    · obtain ⟨s₁, heq, -⟩ := hopen.reserve hzero (room_modeSense bhs)
      rw [granted_modeSense hzero, heq]
      refine ⟨fun hnone => ?_, fun hgranted => absurd hgranted.1 (Option.some_ne_none _)⟩
      dsimp only at hnone
      split at hnone
      · cases hnone
      split at hnone
      · cases hnone
      split at hnone
      · cases hnone
      · cases hnone

theorem dlength_le (c : Command) (h : c.handle s bhs = some (true, s')) (data : Header)
    {p : ReplyHeader × List UInt8} (hp : p ∈ wire s s' data) {hd : DataInHeader}
    (hhd : p.1 = .dataIn hd) :
    hd.dlength ≤ c.getAllocationLength (Parser.mk bhs).getSCB := by
  cases c with
  | reportLuns =>
    obtain ⟨hd', hdlength, -, -, hhanded⟩ := reportLuns_handed h
    rw [wire_handed hhanded, List.mem_singleton] at hp
    rw [hp] at hhd
    cases hhd
    exact Nat.le_of_eq hdlength
  | modeSense =>
    obtain ⟨length, hd', -, -, hreplied⟩ := modeSense_replied h
    rw [wire_handed hreplied.toHanded, List.mem_singleton] at hp
    rw [hp] at hhd
    cases hhd
    rw [hreplied.dlength]
    exact Nat.le_trans (Nat.min_le_left _ _) (Nat.min_le_right _ _)

/-- REPORT LUNS and MODE SENSE stay in the space for their reply just if they fit it. -/
theorem bounded_iff_fits (s : Session B ix) (bhs : Header) (c : Command) :
    Bounded s bhs c ↔ (c.accepts bhs = true → c.Fits s bhs) := by
  refine ⟨fun h hacc => ?_, fun h => ⟨fun hacc stack mem => ?_, fun s' data hs p hp hd hhd => ?_⟩⟩
  · exact (confined_iff_fits s c hacc (fun _ => 0) fun _ => 0).1 (h.confined hacc _ _)
  · exact (confined_iff_fits s c hacc stack mem).2 (h hacc)
  · exact dlength_le c hs data hp hhd

section Sample

open ReportLuns

/-- REPORT LUNS with an allocation length of 2^17, more than a buffer holds. -/
def sampleLarge : Header
  | 0 => 0x01
  | 1 => 0xC0
  | 32 => 0xa0
  | 39 => 0x02
  | _ => 0

/-- The list is built at a null pointer. -/
theorem not_bounded_large : Command.accepts sampleLarge .reportLuns = true ∧
    Command.handle (sampleLuns 1) sampleLarge .reportLuns = none ∧
    ¬ Bounded (sampleLuns 1) sampleLarge .reportLuns := by
  have hacc : Command.accepts sampleLarge .reportLuns = true := by decide +kernel
  have hrefused : Command.granted (sampleLuns 1) sampleLarge .reportLuns = none := by
    apply granted_refused
    decide
  refine ⟨hacc, ?_, fun h => ?_⟩
  · rw [handle_eq_none_iff _ _ hacc (fun _ => 0) fun _ => 0]
    exact ⟨hrefused, reportLuns_stores_ne_nil hacc _⟩
  · have hnil := h.confined hacc (fun _ => 0) fun _ => 0
    rw [hrefused] at hnil
    exact reportLuns_stores_ne_nil hacc _ hnil

end Sample

end ReplyBounds

end Sstoraged
