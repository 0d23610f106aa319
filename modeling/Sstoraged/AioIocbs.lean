import Sstoraged.AioDiskWriter
import Sstoraged.DiskView

namespace Sstoraged.AioIocbs

open AioDiskWriter HandleMap DiskView

variable {B : Type} (mem : B → Nat → UInt8) {handles : List (Nat × LowHandle)}

def covers (i : Iocb B) (a : Nat) : Bool := decide (i.start ≤ a ∧ a < i.start + i.nbytes)

/-- Writes that follow one another from an address to another one. -/
def Chain : Nat → Nat → List (Iocb B) → Prop
  | a, b, [] => a = b
  | a, b, i :: is => i.start = a ∧ 0 < i.nbytes ∧ Chain (a + i.nbytes) b is

/-- What a write has for an address of the volume. -/
def value (i : Iocb B) (a : Nat) : UInt8 := mem i.buf (i.offset + (a - i.start))

/-- The volume after some writes are all finished. -/
def finished (disk : Nat → UInt8) (is : List (Iocb B)) : Nat → UInt8 :=
  Overlay.replay covers (value mem) disk is

/-- The volume after a write of `n` bytes. -/
def lay (data : Nat → UInt8) (start n : Nat) (disk : Nat → UInt8) : Nat → UInt8 :=
  fun a => if start ≤ a ∧ a < start + n then data a else disk a

theorem chain_append {a b c : Nat} {is js : List (Iocb B)} (h : Chain a b is) (h' : Chain b c js) :
    Chain a c (is ++ js) := by
  induction is generalizing a with
  | nil =>
    cases h
    exact h'
  | cons i is ih =>
    obtain ⟨hs, hn, hc⟩ := h
    exact ⟨hs, hn, ih hc⟩

theorem chain_mem {a b : Nat} {is : List (Iocb B)} (h : Chain a b is) :
    a ≤ b ∧ ∀ i ∈ is, 0 < i.nbytes ∧ a ≤ i.start ∧ i.start + i.nbytes ≤ b := by
  induction is generalizing a with
  | nil =>
    cases h
    simp
  | cons i is ih =>
    obtain ⟨hs, hn, hc⟩ := h
    obtain ⟨hle, hmem⟩ := ih hc
    refine ⟨by omega, List.forall_mem_cons.mpr ⟨by omega, fun j hj => ?_⟩⟩
    have := hmem j hj
    omega

theorem chain_pairwise {a b : Nat} {is : List (Iocb B)} (h : Chain a b is) :
    is.Pairwise fun i j => i.start + i.nbytes ≤ j.start := by
  induction is generalizing a with
  | nil => exact List.Pairwise.nil
  | cons i is ih =>
    obtain ⟨hs, hn, hc⟩ := h
    refine List.pairwise_cons.mpr ⟨fun j hj => ?_, ih hc⟩
    have := (chain_mem hc).2 j hj
    omega

theorem chain_nodup {a b : Nat} {is : List (Iocb B)} (h : Chain a b is) : is.Nodup := by
  apply (chain_pairwise h).imp_of_mem
  rintro i j hi - hij rfl
  have := ((chain_mem h).2 i hi).1
  omega

theorem getHandle_le {start length : Nat} {r : String × Nat × Nat}
    (h : DiskWriter.getHandle handles start length = some r) : 0 < r.2.1 ∧ r.2.1 ≤ length := by
  simp only [DiskWriter.getHandle] at h
  split at h
  · cases h
  split at h
  · cases h
  split at h
  · cases h
  · cases h
    dsimp only
    omega

theorem lay_append (data : Nat → UInt8) (start m n : Nat) (disk : Nat → UInt8) :
    lay data (start + m) n (lay data start m disk) = lay data start (m + n) disk := by
  funext a
  simp only [lay]
  by_cases h₁ : start + m ≤ a ∧ a < start + m + n
  · rw [if_pos h₁, if_pos (by omega)]
  · by_cases h₂ : start ≤ a ∧ a < start + m
    · rw [if_neg h₁, if_pos h₂, if_pos (by omega)]
    · rw [if_neg h₁, if_neg h₂, if_neg (by omega)]

theorem finished_cons (disk : Nat → UInt8) (i : Iocb B) (is : List (Iocb B)) :
    finished mem disk (i :: is) = finished mem (lay (value mem i) i.start i.nbytes disk) is := by
  have hs : Overlay.store covers (value mem) i disk = lay (value mem i) i.start i.nbytes disk := by
    funext a
    simp only [Overlay.store, covers, value, lay, decide_eq_true_eq]
  rw [finished, Overlay.replay_cons, hs, finished]

theorem finished_append (disk : Nat → UInt8) (is js : List (Iocb B)) :
    finished mem disk (is ++ js) = finished mem (finished mem disk is) js :=
  Overlay.replay_append _ _ _ _ _

theorem cut_spec {p : Nat} {b : B} {fuel start offset segment : Nat} {is : List (Iocb B)}
    (h : cut handles p b fuel start offset segment = some is) :
    Chain start (start + segment) is ∧ (∀ i ∈ is, i.ws = p) ∧ ∀ disk, finished mem disk is =
      lay (fun a => mem b (offset + (a - start))) start segment disk := by
  have hnil : ∀ start offset (disk : Nat → UInt8),
      disk = lay (fun a => mem b (offset + (a - start))) start 0 disk := fun start offset disk => by
    funext a
    rw [lay, if_neg (by omega)]
  induction fuel generalizing start offset segment is with
  | zero =>
    rw [cut] at h
    split at h
    · rename_i hz
      cases h
      subst hz
      exact ⟨rfl, by simp, fun disk => hnil start offset disk⟩
    · cases h
  | succ fuel ih =>
    rw [cut] at h
    split at h
    · rename_i hz
      cases h
      subst hz
      exact ⟨rfl, by simp, fun disk => hnil start offset disk⟩
    split at h
    · cases h
    rename_i path covered realOffset hg
    obtain ⟨hpos, hle⟩ : 0 < covered ∧ covered ≤ segment := getHandle_le hg
    obtain ⟨js, hjs, rfl⟩ := Option.map_eq_some_iff.mp h
    obtain ⟨hc, hw, hd⟩ := ih hjs
    have hend : start + covered + (segment - covered) = start + segment := by omega
    have hsum : covered + (segment - covered) = segment := by omega
    refine ⟨⟨rfl, hpos, hend ▸ hc⟩, List.forall_mem_cons.mpr ⟨rfl, hw⟩, fun disk => ?_⟩
    have hshift : lay (fun a => mem b (offset + covered + (a - (start + covered)))) (start + covered)
        (segment - covered) = lay (fun a => mem b (offset + (a - start))) (start + covered)
        (segment - covered) := by
      funext disk a
      simp only [lay]
      split
      · congr 1
        omega
      · rfl
    rw [finished_cons, hd, hshift]
    change lay _ _ _ (lay (fun a => mem b (offset + (a - start))) start covered disk) = _
    rw [lay_append, hsum]

/-- The loop over the buffers writes the pieces one behind the other, unless
there are too many of them. -/
theorem prepareLoop_spec {p start length rest : Nat} {ps : List (B × Nat × Nat)}
    {acc is : List (Iocb B)} (h : prepareLoop handles p start length ps acc = some (is, rest))
    (hlt : is.length < iocbMax) :
    ∃ js, is = acc ++ js ∧ Chain start (start + (ps.map fun q => q.2.2).sum) js ∧
      (∀ i ∈ js, i.ws = p) ∧ ∀ disk, finished mem disk js = DiskWriter.writeOut mem start ps disk := by
  induction ps generalizing start length acc with
  | nil =>
    cases h
    exact ⟨[], by simp, rfl, by simp, fun _ => rfl⟩
  | cons q ps ih =>
    obtain ⟨b, off, segment⟩ := q
    rw [prepareLoop] at h
    split at h
    · split at h
      · cases h
      rename_i new hcut
      obtain ⟨hc, hw, hd⟩ := cut_spec mem hcut
      obtain ⟨js, rfl, hcj, hwj, hdj⟩ := ih h
      refine ⟨new ++ js, by simp, ?_, fun i hi => ?_, fun disk => ?_⟩
      · rw [List.map_cons, List.sum_cons, ← Nat.add_assoc]
        exact chain_append hc hcj
      · exact (List.mem_append.mp hi).elim (hw i) (hwj i)
      · rw [finished_append, hd, hdj]
        rfl
    · cases h
      contradiction

/-- The writes of a filled segment: a chain over its range that lays its data
over the disk. -/
theorem prepare_spec {p : Nat} {ws : WriteSegment B} (hpos : 0 < ws.transferLength)
    (henough : lba2Offset ws.transferLength ≤ BufferChain.capacity commonBufSize ws.cbufs ws.dsOffset)
    {is : List (Iocb B)} (h : prepare handles p ws = some is) :
    is ≠ [] ∧ is.length < iocbMax ∧ Chain (512 * ws.lba) (512 * ws.tail) is ∧ (∀ i ∈ is, i.ws = p) ∧
      ∀ disk, finished mem disk is =
        Overlay.store WriteSegment.covers (WriteSegment.val mem) ws disk := by
  rw [prepare] at h
  split at h
  swap
  · cases h
  rename_i hloop
  split at h
  swap
  · cases h
  rename_i hlt
  cases h
  obtain ⟨js, heq, hc, hw, hd⟩ := prepareLoop_spec mem hloop hlt
  rw [List.nil_append] at heq
  subst heq
  have hsum : ((BufferChain.pieces commonBufSize ws.cbufs ws.dsOffset
      (lba2Offset ws.transferLength)).map fun q => q.2.2).sum = 512 * ws.transferLength := by
    rw [← BufferChain.length_gather mem, BufferChain.gather_pieces, List.length_take,
      BufferChain.length_contents, Nat.min_eq_left henough, lba2Offset_eq]
  rw [hsum, lba2Offset_eq, ← Nat.mul_add] at hc
  refine ⟨?_, hlt, hc, hw, fun disk => ?_⟩
  · rintro rfl
    have : 512 * ws.lba = 512 * (ws.lba + ws.transferLength) := hc
    omega
  · rw [hd, ← DiskWriter.writeSegment_eq_store mem ws disk henough, DiskWriter.writeSegment]

section Places

/-- A write goes to the places of its addresses. -/
structure Placed (handles : List (Nat × LowHandle)) (i : Iocb B) : Prop where
  places : (i.places i.nbytes).map some = (List.range' i.start i.nbytes).map (placeAt handles)
  fits : i.nbytes < 2 ^ 64

def reaches (i : Iocb B) (place : String × Nat) : Bool := (i.places i.nbytes).contains place

/-- The files after some writes are all finished. -/
def written (disk : Disk) (is : List (Iocb B)) : Disk := Overlay.replay reaches (Iocb.data mem) disk is

theorem store_eq_land (i : Iocb B) (disk : Disk) :
    Overlay.store reaches (Iocb.data mem) i disk = land (i.data mem) (i.places i.nbytes) disk := by
  funext place
  simp only [Overlay.store, reaches, land, List.contains_iff_mem]

theorem written_append (disk : Disk) (is js : List (Iocb B)) :
    written mem disk (is ++ js) = written mem (written mem disk is) js :=
  Overlay.replay_append _ _ _ _ _

theorem getHandle_lt {start length : Nat} {r : String × Nat × Nat}
    (h : DiskWriter.getHandle handles start length = some r) : r.2.1 < 2 ^ 64 := by
  simp only [DiskWriter.getHandle] at h
  split at h
  · cases h
  split at h
  · cases h
  split at h
  · cases h
  · cases h
    refine (Nat.min_le_right _ _).trans_lt ?_
    unfold u64
    omega

theorem cut_placed (hl : Layout handles) {p : Nat} {b : B} {fuel start offset segment : Nat}
    {is : List (Iocb B)}
    (hplace : ∀ a, start ≤ a → a < start + segment → (placeAt handles a).isSome)
    (h : cut handles p b fuel start offset segment = some is) : ∀ i ∈ is, Placed handles i := by
  induction fuel generalizing start offset segment is with
  | zero =>
    rw [cut] at h
    split at h
    · cases h
      simp
    · cases h
  | succ fuel ih =>
    rw [cut] at h
    split at h
    · cases h
      simp
    rename_i hzero
    split at h
    · cases h
    rename_i path covered realOffset hget
    obtain ⟨js, hjs, rfl⟩ := Option.map_eq_some_iff.mp h
    obtain ⟨r, hr, hpos, hle, hcells⟩ :=
      getHandle_place hl (hplace start le_rfl (by omega)) (Nat.pos_of_ne_zero hzero)
    obtain rfl := Option.some.inj (hget.symm.trans hr)
    dsimp only at hpos hle
    refine List.forall_mem_cons.mpr ⟨⟨hcells, getHandle_lt hget⟩, ih (fun a hlo hhi => ?_) hjs⟩
    exact hplace a (by omega) (by omega)

theorem prepareLoop_placed (hl : Layout handles) {p start length rest : Nat} {ps : List (B × Nat × Nat)}
    {acc is : List (Iocb B)} (hacc : ∀ i ∈ acc, Placed handles i)
    (hplace : ∀ a, start ≤ a → a < start + (ps.map fun q => q.2.2).sum → (placeAt handles a).isSome)
    (h : prepareLoop handles p start length ps acc = some (is, rest)) : ∀ i ∈ is, Placed handles i := by
  induction ps generalizing start length acc with
  | nil =>
    cases h
    exact hacc
  | cons q ps ih =>
    obtain ⟨b, off, segment⟩ := q
    rw [List.map_cons, List.sum_cons] at hplace
    dsimp only at hplace
    rw [prepareLoop] at h
    split at h
    · split at h
      · cases h
      rename_i new hcut
      have hnew := cut_placed hl (fun a hlo hhi => hplace a hlo (by omega)) hcut
      refine ih (fun i hi => ?_) (fun a hlo hhi => hplace a (by omega) (by omega)) h
      exact (List.mem_append.mp hi).elim (hacc i) (hnew i)
    · cases h
      exact hacc

theorem prepare_placed (hl : Layout handles) {p : Nat} {ws : WriteSegment B}
    (henough : lba2Offset ws.transferLength ≤ BufferChain.capacity commonBufSize ws.cbufs ws.dsOffset)
    (hplace : ∀ a, ws.covers a = true → (placeAt handles a).isSome) {is : List (Iocb B)}
    (h : prepare handles p ws = some is) : ∀ i ∈ is, Placed handles i := by
  rw [prepare] at h
  split at h
  swap
  · cases h
  rename_i hloop
  split at h
  swap
  · cases h
  cases h
  refine prepareLoop_placed hl (by simp) (fun a hlo hhi => hplace a ?_) hloop
  have hsum : ((BufferChain.pieces commonBufSize ws.cbufs ws.dsOffset
      (lba2Offset ws.transferLength)).map fun q => q.2.2).sum = 512 * ws.transferLength := by
    rw [← BufferChain.length_gather (fun _ _ => 0), BufferChain.gather_pieces, List.length_take,
      BufferChain.length_contents, Nat.min_eq_left henough, lba2Offset_eq]
  rw [hsum, lba2Offset_eq] at hhi
  rw [lba2Offset_eq] at hlo
  rw [WriteSegment.covers_iff, WriteSegment.tail]
  omega

theorem view_land {data disk : Disk} {places : List (String × Nat)} {start n : Nat}
    (hplaces : places.map some = (List.range' start n).map (placeAt handles))
    (hown : ∀ a, start ≤ a → a < start + n → Own handles a) :
    view handles (land data places disk) = lay (view handles data) start n (view handles disk) := by
  have hmem : ∀ place, place ∈ places ↔ ∃ a, (start ≤ a ∧ a < start + n) ∧
      placeAt handles a = some place := by
    intro place
    rw [← List.mem_map_of_injective (Option.some_injective _), hplaces, List.mem_map]
    simp only [List.mem_range'_1]
  funext a
  rw [lay, view, view, view]
  cases hplace : placeAt handles a with
  | none =>
    rw [if_neg]
    · rfl
    · intro hin
      rw [← Option.not_isSome_iff_eq_none] at hplace
      exact hplace (hown a hin.1 hin.2).isSome
  | some place =>
    by_cases hin : start ≤ a ∧ a < start + n
    · rw [if_pos hin]
      exact if_pos ((hmem place).mpr ⟨a, hin, hplace⟩)
    · rw [if_neg hin]
      refine if_neg fun hp => hin ?_
      obtain ⟨b, hb, hplaceb⟩ := (hmem place).mp hp
      rwa [(hown b hb.1 hb.2).eq hplaceb hplace]

theorem view_data {i : Iocb B} (hi : Placed handles i) {a : Nat}
    (ha : i.start ≤ a ∧ a < i.start + i.nbytes) :
    view handles (i.data mem) a = value mem i a := by
  obtain ⟨k, rfl⟩ := Nat.exists_eq_add_of_le ha.1
  have hk : k < i.nbytes := by omega
  have hfits := hi.fits
  have hplace := congrArg (fun l => l[k]?) hi.places
  simp only [Iocb.places, cells, List.map_map, List.getElem?_map, List.getElem?_range' hk,
    Option.map_some] at hplace
  have hplace' : placeAt handles (i.start + k) = some
      (i.path, u64 ((i.realOffset : Int) + (k : Nat))) := by
    have hone := Option.some.inj hplace
    simp only [Function.comp_apply, Nat.one_mul, Nat.zero_add] at hone
    exact hone.symm
  rw [view_eq hplace', Iocb.data, value]
  congr 2
  unfold u64
  dsimp only
  omega

theorem view_written {is : List (Iocb B)} {disk : Disk} (hplaced : ∀ i ∈ is, Placed handles i)
    (hown : ∀ i ∈ is, ∀ a, covers i a = true → Own handles a) :
    view handles (written mem disk is) = finished mem (view handles disk) is := by
  induction is generalizing disk with
  | nil => rfl
  | cons i is ih =>
    obtain ⟨hi, his⟩ := List.forall_mem_cons.mp hplaced
    obtain ⟨howni, hown⟩ := List.forall_mem_cons.mp hown
    have hstore : view handles (Overlay.store reaches (Iocb.data mem) i disk) =
        lay (value mem i) i.start i.nbytes (view handles disk) := by
      rw [store_eq_land, view_land hi.places fun a hlo hhi => howni a (decide_eq_true ⟨hlo, hhi⟩)]
      funext a
      unfold lay
      split
      · next hin => exact view_data mem hi hin
      · rfl
    rw [written, Overlay.replay_cons, ← written, ih his hown, hstore, finished_cons]

end Places

end Sstoraged.AioIocbs
