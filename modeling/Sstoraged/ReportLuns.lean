import Sstoraged.ReplyFraming
import Sstoraged.Store

namespace Sstoraged

variable {B : Type} {ix : LbaIndex}

/-- An 8-byte LUN: the number stands in the second half, in network order. -/
def lunOfId (id : Nat) : List UInt8 := List.replicate 4 0 ++ htonl id

/-- The LUN list in a data segment, up to a limit. `ids` tells which LUN the 8 bytes at
an offset stand for; no code reads it. -/
structure ReportLUNSData where
  mem : Header
  limit : Nat
  ids : Nat → Option Nat

namespace ReportLUNSData

def headerSize : Nat := 8
def lunSize : Nat := 8

def new (mem : Header) (limit : Nat) : ReportLUNSData where
  mem := if headerSize ≤ limit then (Store.mk 0 (List.replicate headerSize 0)).apply mem else mem
  limit := limit
  ids _ := none

/-- The length in the header is stepped in any case. -/
def add (id : Nat) (d : ReportLUNSData) : Bool × ReportLUNSData :=
  let length := u32 (d.mem.ntohl 0 + lunSize)
  let mem := (Store.mk 0 (htonl length)).apply d.mem
  if d.limit < headerSize + length then (false, { d with mem })
  else
    (true, { d with
      mem := (Store.mk length (lunOfId id)).apply mem
      ids := Function.update d.ids length (some id) })

/-- Add the LUNs from 0 on. -/
def addAll : Nat → ReportLUNSData → ReportLUNSData
  | 0, d => d
  | n + 1, d => ((addAll n d).add n).2

end ReportLUNSData

/-- The data segment that the handler fills. -/
def ReportLUNSHandler.data (s : Session B ix) (bhs : Header) (mem : Header) : ReportLUNSData :=
  .addAll s.lvs.length (.new mem (getAllocationLength (Parser.mk bhs).getSCB))

namespace ReportLuns

open ReportLUNSData

/-- The LUN field of a command holds the 8 bytes at an offset of the list. -/
def Copied (d : ReportLUNSData) (o : Nat) (bhs : Header) : Prop :=
  ∀ j < lunSize, bhs (8 + j) = d.mem (o + j)

/-- A command with an entry of the list for its LUN goes to the volume that the entry
stands for, and no two volumes have the same entry. -/
structure RoundTrip (s : Session B ix) (d : ReportLUNSData) : Prop where
  routed : ∀ o k, headerSize ≤ o → d.ids o = some k → ∀ bhs, Copied d o bhs →
    (Parser.mk bhs).getLUN = k ∧ s.getLUN k ≠ none
  distinct : ∀ o o' k k', headerSize ≤ o → headerSize ≤ o' → d.ids o = some k → d.ids o' = some k' →
    k ≠ k' → ∃ j < lunSize, d.mem (o + j) ≠ d.mem (o' + j)

/-- The condition: only LUN 0 is in the list. -/
def OnlyFirst (n limit : Nat) : Prop := n ≤ 1 ∨ limit < 24 ∧ n ≤ 2 ^ 29

/-- Where the entry of a LUN is stored. -/
def offsetOf (k : Nat) : Nat := 8 * (k + 1) % 2 ^ 32

/-- A list with `n` LUNs added. -/
structure Listed (n : Nat) (d : ReportLUNSData) : Prop where
  length : d.mem.ntohl 0 = 8 * n % 2 ^ 32
  entry : ∀ o k, d.ids o = some k → k < n ∧ o = offsetOf k ∧ headerSize + o ≤ d.limit
  bytes : ∀ o k, headerSize ≤ o → d.ids o = some k → ∀ j (h : j < (lunOfId k).length),
    d.mem (o + j) = (lunOfId k)[j]
  latest : ∀ k < n, headerSize + offsetOf k ≤ d.limit → ∃ k', k ≤ k' ∧ d.ids (offsetOf k) = some k'

theorem length_lunOfId (id : Nat) : (lunOfId id).length = lunSize := rfl

theorem ntohl_of_bytes {m : Header} {n : Nat} (h : n < 2 ^ 32)
    (hb : ∀ j (hj : j < (htonl n).length), m j = (htonl n)[j]) : m.ntohl 0 = n := by
  have hlen : (htonl n).length = 4 := rfl
  rw [Header.ntohl, Header.ntohs, Header.ntohs, hb 0 (by omega), hb 1 (by omega), hb 2 (by omega),
    hb 3 (by omega)]
  simp only [htonl, hton24, htons, List.getElem_cons_zero, List.getElem_cons_succ, UInt8.toNat_ofNat']
  omega

theorem offsetOf_mod (k : Nat) : offsetOf k % 8 = 0 := by
  unfold offsetOf
  omega

theorem listed_new (mem : Header) {limit : Nat} (h : headerSize ≤ limit) :
    Listed 0 (.new mem limit) where
  length := by
    have hzero : ∀ j < headerSize, (ReportLUNSData.new mem limit).mem j = 0 := by
      intro j hj
      rw [ReportLUNSData.new, if_pos h]
      have hlen : j < (List.replicate headerSize (0 : UInt8)).length := by rwa [List.length_replicate]
      have hget := (Store.mk 0 (List.replicate headerSize (0 : UInt8))).apply_add mem hlen
      rwa [Nat.zero_add, List.getElem_replicate] at hget
    rw [Header.ntohl, Header.ntohs, Header.ntohs, hzero 0 (by decide), hzero 1 (by decide),
      hzero 2 (by decide), hzero 3 (by decide)]
    rfl
  entry o k hk := nomatch hk
  bytes o k _ hk := nomatch hk
  latest k hk := nomatch hk

theorem add_of_fits {n : Nat} {d : ReportLUNSData} (h : Listed n d)
    (hfit : headerSize + offsetOf n ≤ d.limit) :
    d.add n = (true, { d with
      mem := (Store.mk (offsetOf n) (lunOfId n)).apply ((Store.mk 0 (htonl (offsetOf n))).apply d.mem)
      ids := Function.update d.ids (offsetOf n) (some n) }) := by
  have hlength : u32 (d.mem.ntohl 0 + lunSize) = offsetOf n := by
    rw [h.length, u32, offsetOf, lunSize]
    omega
  rw [ReportLUNSData.add, hlength, if_neg (Nat.not_lt.2 hfit)]

theorem add_of_not_fits {n : Nat} {d : ReportLUNSData} (h : Listed n d)
    (hfit : ¬ headerSize + offsetOf n ≤ d.limit) :
    d.add n = (false, { d with mem := (Store.mk 0 (htonl (offsetOf n))).apply d.mem }) := by
  have hlength : u32 (d.mem.ntohl 0 + lunSize) = offsetOf n := by
    rw [h.length, u32, offsetOf, lunSize]
    omega
  rw [ReportLUNSData.add, hlength, if_pos (Nat.lt_of_not_le hfit)]

theorem bytes_put_length {d : ReportLUNSData} {length o j : Nat} (ho : headerSize ≤ o) :
    (Store.mk 0 (htonl length)).apply d.mem (o + j) = d.mem (o + j) := by
  apply Store.apply_of_not_covers
  rintro ⟨-, hlt⟩
  have hlen : (htonl length).length = 4 := rfl
  rw [headerSize] at ho
  dsimp only at hlt
  omega

theorem ntohl_put_length (d : ReportLUNSData) (n : Nat) :
    Header.ntohl ((Store.mk 0 (htonl (offsetOf n))).apply d.mem) 0 = offsetOf n := by
  refine ntohl_of_bytes (Nat.mod_lt _ (by decide)) fun j hj => ?_
  rw [← (Store.mk 0 (htonl (offsetOf n))).apply_add d.mem hj, Nat.zero_add]

theorem bytes_put_entry {m : Header} {n o j : Nat} (ho : o % 8 = 0) (hne : o ≠ offsetOf n)
    (hj : j < lunSize) : (Store.mk (offsetOf n) (lunOfId n)).apply m (o + j) = m (o + j) := by
  apply Store.apply_of_not_covers
  rintro ⟨hle, hlt⟩
  have hmod := offsetOf_mod n
  dsimp only at hle hlt
  rw [length_lunOfId] at hlt
  rw [lunSize] at hlt hj
  omega

theorem length_add {n : Nat} {d : ReportLUNSData} (h : Listed n d) :
    (d.add n).2.mem.ntohl 0 = offsetOf n := by
  by_cases hfit : headerSize + offsetOf n ≤ d.limit
  · rw [add_of_fits h hfit]
    by_cases hzero : offsetOf n = 0
    · -- the entry of a LUN whose length wrapped to 0 lies over the length
      refine ntohl_of_bytes (by omega) fun j hj => ?_
      have hj' : j < 4 := hj
      have hlen : j < (lunOfId n).length := by
        rw [length_lunOfId, lunSize]
        omega
      have hget := (Store.mk (offsetOf n) (lunOfId n)).apply_add
        ((Store.mk 0 (htonl (offsetOf n))).apply d.mem) hlen
      dsimp only at hget ⊢
      rw [hzero, Nat.zero_add] at hget
      rw [hzero, hget]
      obtain rfl | rfl | rfl | rfl : j = 0 ∨ j = 1 ∨ j = 2 ∨ j = 3 := by omega
      all_goals rfl
    · refine Eq.trans ?_ (ntohl_put_length d n)
      have hmod := offsetOf_mod n
      have hkeep : ∀ j < 4, (Store.mk (offsetOf n) (lunOfId n)).apply
          ((Store.mk 0 (htonl (offsetOf n))).apply d.mem) j =
          (Store.mk 0 (htonl (offsetOf n))).apply d.mem j := by
        intro j hj
        apply Store.apply_of_not_covers
        rintro ⟨hle, -⟩
        dsimp only at hle
        omega
      simp only [Header.ntohl, Header.ntohs, hkeep 0 (by decide), hkeep 1 (by decide),
        hkeep 2 (by decide), hkeep 3 (by decide), Nat.zero_add]
  · rw [add_of_not_fits h hfit]
    exact ntohl_put_length d n

theorem listed_add {n : Nat} {d : ReportLUNSData} (h : Listed n d) : Listed (n + 1) (d.add n).2 := by
  have hlength := length_add h
  by_cases hfit : headerSize + offsetOf n ≤ d.limit
  · rw [add_of_fits h hfit] at hlength ⊢
    refine ⟨hlength, fun o k hk => ?_, fun o k ho hk j hj => ?_, fun k hk hkfit => ?_⟩
    · dsimp only at hk
      by_cases ho : o = offsetOf n
      · subst ho
        rw [Function.update_self, Option.some.injEq] at hk
        subst hk
        exact ⟨Nat.lt_succ_self n, rfl, hfit⟩
      · rw [Function.update_of_ne ho] at hk
        obtain ⟨hlt, hrest⟩ := h.entry o k hk
        exact ⟨Nat.lt_succ_of_lt hlt, hrest⟩
    · dsimp only at hk
      by_cases hon : o = offsetOf n
      · subst hon
        rw [Function.update_self, Option.some.injEq] at hk
        subst hk
        exact (Store.mk (offsetOf n) (lunOfId n)).apply_add _ hj
      · rw [Function.update_of_ne hon] at hk
        have hmod : o % 8 = 0 := by
          rw [(h.entry o k hk).2.1]
          exact offsetOf_mod k
        dsimp only
        rw [bytes_put_entry hmod hon hj, bytes_put_length ho]
        exact h.bytes o k ho hk j hj
    · dsimp only
      by_cases hkn : offsetOf k = offsetOf n
      · exact ⟨n, Nat.le_of_lt_succ hk, by rw [hkn, Function.update_self]⟩
      · have hne : k ≠ n := fun heq => hkn (heq ▸ rfl)
        obtain ⟨k', hle, hids⟩ := h.latest k (Nat.lt_of_le_of_ne (Nat.le_of_lt_succ hk) hne) hkfit
        exact ⟨k', hle, by rw [Function.update_of_ne hkn, hids]⟩
  · rw [add_of_not_fits h hfit] at hlength ⊢
    refine ⟨hlength, fun o k hk => ?_, fun o k ho hk j hj => ?_, fun k hk hkfit => ?_⟩
    · obtain ⟨hlt, hrest⟩ := h.entry o k hk
      exact ⟨Nat.lt_succ_of_lt hlt, hrest⟩
    · dsimp only
      rw [bytes_put_length ho]
      exact h.bytes o k ho hk j hj
    · have hne : k ≠ n := fun heq => hfit (heq ▸ hkfit)
      exact h.latest k (Nat.lt_of_le_of_ne (Nat.le_of_lt_succ hk) hne) hkfit

theorem listed_addAll (mem : Header) {limit : Nat} (h : headerSize ≤ limit) (n : Nat) :
    Listed n (.addAll n (.new mem limit)) := by
  induction n with
  | zero => exact listed_new mem h
  | succ n ih => exact listed_add ih

/-- The decoder of the LUN field reads it in the order of a little-endian host. -/
def swapped (k : Nat) : Nat :=
  k / 2 ^ 24 % 256 + k / 2 ^ 16 % 256 * 2 ^ 8 + k / 2 ^ 8 % 256 * 2 ^ 16 + k % 256 * 2 ^ 24

theorem getLUN_copied {n : Nat} {d : ReportLUNSData} (h : Listed n d) {o k : Nat}
    (ho : headerSize ≤ o) (hk : d.ids o = some k) {bhs : Header} (hc : Copied d o bhs) :
    (Parser.mk bhs).getLUN = swapped k := by
  have hb : ∀ j (hj : j < (lunOfId k).length), bhs (8 + j) = (lunOfId k)[j] := fun j hj =>
    (hc j hj).trans (h.bytes o k ho hk j hj)
  have hlen : (lunOfId k).length = 8 := rfl
  have h₀ : bhs 12 = UInt8.ofNat (k / 2 ^ 24) := hb 4 (by omega)
  have h₁ : bhs (12 + 1) = UInt8.ofNat (k / 2 ^ 16) := hb 5 (by omega)
  have h₂ : bhs (12 + 2) = UInt8.ofNat (k / 2 ^ 8) := hb 6 (by omega)
  have h₃ : bhs (12 + 3) = UInt8.ofNat k := hb 7 (by omega)
  rw [Parser.getLUN, Header.host32]
  dsimp only
  rw [h₀, h₁, h₂, h₃]
  simp only [UInt8.toNat_ofNat', swapped]

/-- The number of a LUN is read back as it is only for the first, as far as the list can
tell the second from others. -/
theorem swapped_ne_of_second {k : Nat} (h : offsetOf k = 16) : swapped k ≠ k := by
  unfold offsetOf at h
  unfold swapped
  omega

theorem swapped_lt {k : Nat} (h : k % 2 ^ 29 = 0) : swapped k < 256 := by
  have h₁ : k / 2 ^ 16 % 256 = 0 := by omega
  have h₂ : k / 2 ^ 8 % 256 = 0 := by omega
  have h₃ : k % 256 = 0 := by omega
  rw [swapped, h₁, h₂, h₃]
  exact Nat.mod_lt _ (Nat.succ_pos _)

theorem swapped_ne_of_first {k : Nat} (h : offsetOf k = 8) (hk : k ≠ 0) : swapped k ≠ k := by
  have hmod : k % 2 ^ 29 = 0 := by
    unfold offsetOf at h
    omega
  have hlt := swapped_lt hmod
  intro heq
  rw [heq] at hlt
  omega

theorem roundTrip_iff {s : Session B ix} {d : ReportLUNSData} (h : Listed s.lvs.length d)
    (hlimit : 16 ≤ d.limit) : RoundTrip s d ↔ OnlyFirst s.lvs.length d.limit := by
  refine ⟨fun hrt => ?_, fun hone => ?_⟩
  · have hcopy : ∀ o, Copied d o fun i => d.mem (o + (i - 8)) := by
      intro o j _
      dsimp only
      rw [Nat.add_sub_cancel_left]
    by_contra hnot
    rw [OnlyFirst, not_or] at hnot
    by_cases hlim : d.limit < 24
    · have hlt : 2 ^ 29 < s.lvs.length := Nat.lt_of_not_le fun hle => hnot.2 ⟨hlim, hle⟩
      obtain ⟨k, hle, hids⟩ := h.latest (2 ^ 29) hlt (by
        have hoff : offsetOf (2 ^ 29) = 8 := by decide
        rw [hoff, headerSize]
        exact hlimit)
      have hoff := (h.entry _ k hids).2.1
      have hoff8 : offsetOf (2 ^ 29) = 8 := by decide
      rw [hoff8] at hids hoff
      have hget := (hrt.routed 8 k (Nat.le_refl _) hids _ (hcopy 8)).1
      rw [getLUN_copied h (Nat.le_refl _) hids (hcopy 8)] at hget
      exact swapped_ne_of_first hoff.symm (by omega) hget
    · obtain ⟨k, hle, hids⟩ := h.latest 1 (by omega) (by
        have hoff : offsetOf 1 = 16 := by decide
        rw [hoff, headerSize]
        exact Nat.le_of_not_lt hlim)
      have hoff := (h.entry _ k hids).2.1
      have hoff16 : offsetOf 1 = 16 := by decide
      rw [hoff16] at hids hoff
      have hget := (hrt.routed 16 k (by decide) hids _ (hcopy 16)).1
      rw [getLUN_copied h (by decide) hids (hcopy 16)] at hget
      exact swapped_ne_of_second hoff.symm hget
  · have hfirst : ∀ o k, headerSize ≤ o → d.ids o = some k → k = 0 := by
      intro o k ho hk
      obtain ⟨hlt, hoff, hfit⟩ := h.entry o k hk
      rw [headerSize] at ho hfit
      rw [offsetOf] at hoff
      rcases hone with hn | ⟨hlim, hn⟩
      · omega
      · omega
    refine ⟨fun o k ho hk bhs hc => ?_, fun o o' k k' ho ho' hk hk' hne => ?_⟩
    · have hlt := (h.entry o k hk).1
      rw [getLUN_copied h ho hk hc]
      obtain rfl := hfirst o k ho hk
      refine ⟨by decide, ?_⟩
      rw [Session.getLUN, List.getElem?_eq_getElem hlt]
      exact Option.some_ne_none _
    · exact absurd ((hfirst o k ho hk).trans (hfirst o' k' ho' hk').symm) hne

theorem limit_add (n : Nat) (d : ReportLUNSData) : (d.add n).2.limit = d.limit := by
  rw [ReportLUNSData.add]
  split <;> rfl

theorem limit_addAll (n : Nat) (d : ReportLUNSData) : (d.addAll n).limit = d.limit := by
  induction n with
  | zero => rfl
  | succ n ih => exact (limit_add n _).trans ih

theorem alloc_of_handle {s s' : Session B ix} {bhs : Header}
    (h : ReportLUNSHandler.handle s bhs = some (true, s')) :
    16 ≤ ReportLUNSHandler.getAllocationLength (Parser.mk bhs).getSCB := by
  unfold ReportLUNSHandler.handle at h
  dsimp only at h
  split at h
  · cases h
  · rename_i hvalid
    rw [not_or, Bool.not_eq_false, Bool.not_eq_false, ReportLUNSHandler.valid, Bool.and_eq_true,
      decide_eq_true_eq, decide_eq_true_eq] at hvalid
    exact hvalid.2.2

theorem alloc_le_of_handle {s s' : Session B ix} {bhs : Header}
    (h : ReportLUNSHandler.handle s bhs = some (true, s')) :
    sizeofHeader + ReportLUNSHandler.getAllocationLength (Parser.mk bhs).getSCB ≤ commonBufSize := by
  by_contra hgt
  unfold ReportLUNSHandler.handle at h
  dsimp only at h
  split at h
  · cases h
  · rw [(ReplyFraming.newDataIn_open s bhs statusGood).reserve_none (.inr (Nat.lt_of_not_le hgt))
      (by decide)] at h
    cases h

theorem listed_data (s : Session B ix) {bhs : Header} (mem : Header)
    (h : 16 ≤ ReportLUNSHandler.getAllocationLength (Parser.mk bhs).getSCB) :
    Listed s.lvs.length (ReportLUNSHandler.data s bhs mem) :=
  listed_addAll mem (Nat.le_trans (by decide) h) _

/-- The list of an accepted REPORT LUNS takes commands to the volumes it names just if it
holds LUN 0 only. -/
theorem routed_iff {s s' : Session B ix} {bhs : Header}
    (h : ReportLUNSHandler.handle s bhs = some (true, s')) (mem : Header) :
    RoundTrip s (ReportLUNSHandler.data s bhs mem) ↔
      OnlyFirst s.lvs.length (ReportLUNSHandler.getAllocationLength (Parser.mk bhs).getSCB) := by
  have halloc := alloc_of_handle h
  have hlimit : (ReportLUNSHandler.data s bhs mem).limit =
      ReportLUNSHandler.getAllocationLength (Parser.mk bhs).getSCB := limit_addAll _ _
  rw [roundTrip_iff (listed_data s mem halloc) (by rw [hlimit]; exact halloc), hlimit]

section Sample

/-- REPORT LUNS with an allocation length of 24, on a session with some volumes. -/
def sampleReportLuns : Header
  | 0 => 0x01
  | 1 => 0xC0
  | 32 => 0xa0
  | 41 => 24
  | _ => 0

def sampleLuns (n : Nat) : Session Unit LbaIndex.ofList where
  lvs := List.replicate n ⟨[⟨"volume", 0, 16⟩]⟩
  wcaches := []
  statsn := 0
  expcmdsn := 0
  maxcmdsn := 0
  recvinfo _ := none
  sendtask := []
  bufs _ := .new
  headers _ := .dataIn {}
  next := 0

def sampleReply (n : Nat) : Option (Bool × Session Unit LbaIndex.ofList) :=
  ReportLUNSHandler.handle (sampleLuns n) sampleReportLuns

theorem sampleReply_eq {n : Nat} (h : (sampleReply n).map Prod.fst = some true) :
    ∃ s, sampleReply n = some (true, s) := by
  obtain ⟨⟨b, s⟩, hs, rfl⟩ := Option.map_eq_some_iff.1 h
  exact ⟨s, hs⟩

theorem routed_one_lun : RoundTrip (sampleLuns 1)
    (ReportLUNSHandler.data (sampleLuns 1) sampleReportLuns fun _ => 0) := by
  obtain ⟨s, hs⟩ := @sampleReply_eq 1 (by decide +kernel)
  exact (routed_iff hs _).2 (.inl (Nat.le_refl _))

/-- Of two LUNs the second is decoded as another number, which no volume has. -/
theorem not_routed_second : (∃ s, sampleReply 2 = some (true, s)) ∧
    ¬ RoundTrip (sampleLuns 2) (ReportLUNSHandler.data (sampleLuns 2) sampleReportLuns fun _ => 0) := by
  have halloc : ReportLUNSHandler.getAllocationLength (Parser.mk sampleReportLuns).getSCB = 24 := by
    decide
  have hlimit : (ReportLUNSHandler.data (sampleLuns 2) sampleReportLuns fun _ => 0).limit = 24 :=
    (limit_addAll _ _).trans halloc
  refine ⟨sampleReply_eq (by decide +kernel), ?_⟩
  rw [roundTrip_iff (listed_data _ _ (by rw [halloc]; decide)) (by rw [hlimit]; decide), hlimit]
  rintro (hn | ⟨hlim, -⟩)
  · exact absurd hn (by decide)
  · exact absurd hlim (by decide)

end Sample

end ReportLuns

end Sstoraged
