import Sstoraged.SendfileRange

namespace Sstoraged

structure VolumeInfo where
  orgs : List RealVolume
  reps : List (List RealVolume)

/-- The files behind the volumes: their sizes, how large each can grow, and which can be
opened and sought in. -/
structure Files where
  size : String → Nat
  limit : String → Nat
  opens : String → Bool
  seeks : String → Bool

namespace Files

def read (f : Files) (path : String) (offset length : Nat) : Nat := min length (f.size path - offset)

/-- A write beyond the limit fails and takes nothing. -/
def write (f : Files) (path : String) (offset length : Nat) : Option Files :=
  if f.limit path < offset + length then none
  else some { f with size := Function.update f.size path (max (f.size path) (offset + length)) }

end Files

namespace PhysicalVolume

/-- Where the file is probed: the start of the part is not regarded. -/
def probe (pv : PhysicalVolume) : Nat := lba2Offset (pv.count - 1).toNat

/-- Probe a file at its last block, and write this block where the file ends before. -/
def valid (f : Files) (pv : PhysicalVolume) : Option Files :=
  if f.opens pv.path = false then none
  else if f.seeks pv.path = false then none
  else if f.read pv.path pv.probe 512 = 0 then f.write pv.path pv.probe 512
  else some f

end PhysicalVolume

namespace LogicalVolume

def addVolumes : Files → List RealVolume → Option (List PhysicalVolume × Files)
  | f, [] => some ([], f)
  | f, part :: parts =>
    match (PhysicalVolume.new part).valid f with
    | none => none
    | some f => (addVolumes f parts).map fun (volumes, f) => (PhysicalVolume.new part :: volumes, f)

/-- The copies are probed up to the first part that is not valid. -/
def addCopies : Files → List RealVolume → Files
  | f, [] => f
  | f, part :: parts =>
    match (PhysicalVolume.new part).valid f with
    | none => f
    | some f => addCopies f parts

def new (f : Files) (info : VolumeInfo) : Option (LogicalVolume × Files) :=
  (addVolumes f info.orgs).map fun (volumes, f) => (⟨volumes⟩, addCopies f info.reps.flatten)

end LogicalVolume

namespace SendfileTask

/-- The task is run until it is done, at most `m` times. -/
def after (k : Kernel) : Nat → Nat → SendfileTask → Bool × SendfileTask × Nat
  | 0, n, t => (false, t, n)
  | m + 1, n, t =>
    match t.run k n with
    | (true, t, n) => (true, t, n)
    | (false, t, n) => after k m n t

end SendfileTask

namespace Backing

open VolumeMap SendfileRange SendfileTask

variable {f f' : Files} {p q : PhysicalVolume} {path : String} {e : Nat}

/-- The files behind a part that is valid. -/
def extend (f : Files) (q : PhysicalVolume) : Files :=
  if f.size q.path ≤ q.probe then { f with size := Function.update f.size q.path (q.probe + 512) } else f

theorem read_eq_zero_iff : f.read path e 512 = 0 ↔ f.size path ≤ e := by
  unfold Files.read
  omega

theorem valid_eq (h : q.valid f = some f') : f' = extend f q ∧
    (f.size q.path ≤ q.probe → q.probe + 512 ≤ f.limit q.path) := by
  unfold PhysicalVolume.valid at h
  unfold extend
  split at h
  · exact absurd h nofun
  split at h
  · exact absurd h nofun
  split at h
  · next hread =>
    have hsize := read_eq_zero_iff.mp hread
    rw [if_pos hsize]
    unfold Files.write at h
    split at h
    · exact absurd h nofun
    · next hlimit =>
      have hmax : max (f.size q.path) (q.probe + 512) = q.probe + 512 := by omega
      rw [hmax] at h
      exact ⟨(Option.some.inj h).symm, fun _ => Nat.le_of_not_lt hlimit⟩
  · next hread =>
    have hsize := mt read_eq_zero_iff.mpr hread
    rw [if_neg hsize]
    exact ⟨(Option.some.inj h).symm, fun hle => absurd hle hsize⟩

theorem valid_isSome_iff : (q.valid f).isSome ↔ f.opens q.path = true ∧ f.seeks q.path = true ∧
    (f.size q.path ≤ q.probe → q.probe + 512 ≤ f.limit q.path) := by
  unfold PhysicalVolume.valid Files.write
  split
  · simp_all
  split
  · simp_all
  split
  · next hread =>
    have hsize := read_eq_zero_iff.mp hread
    split <;> simp_all
  · next hread =>
    have hsize := mt read_eq_zero_iff.mpr hread
    simp_all

theorem probe_block (q : PhysicalVolume) : q.probe % 512 = 0 := by
  unfold PhysicalVolume.probe
  rw [lba2Offset_eq]
  exact Nat.mul_mod_right ..

theorem extend_opens (f : Files) (q : PhysicalVolume) :
    (extend f q).opens = f.opens ∧ (extend f q).seeks = f.seeks ∧ (extend f q).limit = f.limit := by
  unfold extend
  split <;> exact ⟨rfl, rfl, rfl⟩

theorem extend_size (f : Files) (q : PhysicalVolume) (path : String) : (extend f q).size path =
    if q.path = path ∧ f.size path ≤ q.probe then q.probe + 512 else f.size path := by
  unfold extend
  by_cases hpath : q.path = path
  · subst hpath
    by_cases hsize : f.size q.path ≤ q.probe
    · rw [if_pos hsize, if_pos ⟨rfl, hsize⟩]
      exact Function.update_self ..
    · rw [if_neg hsize, if_neg fun h => hsize h.2]
  · have hnone : ¬ (q.path = path ∧ f.size path ≤ q.probe) := fun h => hpath h.1
    rw [if_neg hnone]
    split
    · exact Function.update_of_ne (Ne.symm hpath) ..
    · rfl

theorem valid_extend (h : (q.valid f).isSome) (p : PhysicalVolume) :
    (p.valid (extend f q)).isSome = (p.valid f).isSome := by
  apply Bool.eq_iff_iff.mpr
  obtain ⟨hopens, hseeks, hlimit⟩ := extend_opens f q
  rw [valid_isSome_iff, valid_isSome_iff, hopens, hseeks, hlimit, extend_size]
  obtain ⟨-, -, hq⟩ := valid_isSome_iff.mp h
  have hblock := probe_block p
  have hblock' := probe_block q
  refine and_congr_right fun _ => and_congr_right fun _ => ?_
  split
  · next hext =>
    obtain ⟨hpath, hsize⟩ := hext
    rw [← hpath] at hsize ⊢
    have hfits := hq hsize
    omega
  · exact Iff.rfl

theorem le_size_extend : e ≤ (extend f q).size path ↔
    e ≤ f.size path ∨ q.path = path ∧ f.size path ≤ q.probe ∧ e ≤ q.probe + 512 := by
  rw [extend_size]
  split
  · next h => exact ⟨fun he => .inr ⟨h.1, h.2, he⟩, fun he => he.elim (by omega) fun he => he.2.2⟩
  · next h => exact ⟨.inl, fun he => he.elim id fun he => absurd ⟨he.1, he.2.1⟩ h⟩

/-- How far a file reaches when some parts were probed: as far as before, or to the end
of a block that was written behind its old end. -/
theorem le_size_foldl (qs : List PhysicalVolume) : ∀ f : Files, e ≤ (qs.foldl extend f).size path ↔
    e ≤ f.size path ∨ ∃ q ∈ qs, q.path = path ∧ f.size path ≤ q.probe ∧ e ≤ q.probe + 512 := by
  induction qs with
  | nil => exact fun f => ⟨.inl, fun h => h.elim id nofun⟩
  | cons q qs ih =>
    intro f
    rw [List.foldl_cons, ih, le_size_extend, List.exists_mem_cons_iff, or_assoc]
    refine or_congr_right ?_
    constructor
    · rintro (hq | ⟨r, hr, hpath, hsize, he⟩)
      · exact .inl hq
      · refine .inr ⟨r, hr, hpath, ?_, he⟩
        rw [extend_size] at hsize
        split at hsize <;> omega
    · rintro (hq | ⟨r, hr, hpath, hsize, he⟩)
      · exact .inl hq
      by_cases hbehind : (extend f q).size path ≤ r.probe
      · exact .inr ⟨r, hr, hpath, hbehind, he⟩
      · -- the block of `q` is then the same or a later one
        rw [extend_size] at hbehind
        have hblock := probe_block q
        have hblock' := probe_block r
        split at hbehind
        · next hext => exact .inl ⟨hext.1, hext.2, by omega⟩
        · exact absurd hsize hbehind

/-- The parts that are probed. -/
def probed (f : Files) (info : VolumeInfo) : List PhysicalVolume :=
  info.orgs.map PhysicalVolume.new ++
    (info.reps.flatten.map PhysicalVolume.new).takeWhile fun q => (q.valid f).isSome

theorem addVolumes_spec (parts : List RealVolume) : ∀ {f f' : Files} {volumes : List PhysicalVolume},
    LogicalVolume.addVolumes f parts = some (volumes, f') → volumes = parts.map PhysicalVolume.new ∧
      f' = volumes.foldl extend f ∧ ∀ p : PhysicalVolume, (p.valid f').isSome = (p.valid f).isSome := by
  induction parts with
  | nil =>
    intro f f' volumes h
    obtain ⟨rfl, rfl⟩ := Prod.mk.inj (Option.some.inj h)
    exact ⟨rfl, rfl, fun _ => rfl⟩
  | cons part parts ih =>
    intro f f' volumes h
    rw [LogicalVolume.addVolumes] at h
    cases hvalid : (PhysicalVolume.new part).valid f with
    | none =>
      rw [hvalid] at h
      exact absurd h nofun
    | some g =>
      rw [hvalid] at h
      obtain ⟨⟨rest, f''⟩, hrest, heq⟩ := Option.map_eq_some_iff.mp h
      obtain ⟨rfl, rfl⟩ := Prod.mk.inj heq
      obtain ⟨rfl, hfold, hsame⟩ := ih hrest
      obtain ⟨rfl, -⟩ := valid_eq hvalid
      exact ⟨rfl, hfold, fun p => (hsame p).trans (valid_extend (Option.isSome_of_eq_some hvalid) p)⟩

theorem addCopies_eq (parts : List RealVolume) : ∀ {g f : Files},
    (∀ p : PhysicalVolume, (p.valid g).isSome = (p.valid f).isSome) → LogicalVolume.addCopies g parts =
      ((parts.map PhysicalVolume.new).takeWhile fun q => (q.valid f).isSome).foldl extend g := by
  induction parts with
  | nil => exact fun _ => rfl
  | cons part parts ih =>
    intro g f hsame
    rw [LogicalVolume.addCopies, List.map_cons]
    cases hvalid : (PhysicalVolume.new part).valid g with
    | none =>
      have hf : ((PhysicalVolume.new part).valid f).isSome = false := by
        rw [← hsame, hvalid, Option.isSome_none]
      rw [List.takeWhile_cons, hf]
      rfl
    | some g' =>
      have hg := Option.isSome_of_eq_some hvalid
      have hf : ((PhysicalVolume.new part).valid f).isSome = true := (hsame _).symm.trans hg
      obtain ⟨rfl, -⟩ := valid_eq hvalid
      rw [List.takeWhile_cons, if_pos hf]
      exact ih fun p => (valid_extend hg p).trans (hsame p)

theorem new_spec {info : VolumeInfo} {lv : LogicalVolume}
    (h : LogicalVolume.new f info = some (lv, f')) :
    lv.volumes = info.orgs.map PhysicalVolume.new ∧ f' = (probed f info).foldl extend f := by
  obtain ⟨⟨volumes, g⟩, hadd, heq⟩ := Option.map_eq_some_iff.mp h
  obtain ⟨rfl, rfl⟩ := Prod.mk.inj heq
  obtain ⟨rfl, hfold, hsame⟩ := addVolumes_spec _ hadd
  refine ⟨rfl, ?_⟩
  rw [addCopies_eq _ hsame, hfold, ← List.foldl_append]
  rfl

/-- The socket takes all that the file has. -/
def Accepting (f : Files) (calls : List Sendfile) : Prop :=
  ∀ c ∈ calls, c.size = (min c.handle.length (f.size c.handle.path - c.handle.offset.toNat) : Nat)

/-- The range of blocks that a task is for lies inside the volume. -/
def InVolume (lv : LogicalVolume) (lba len : Nat) : Prop := 0 < len ∧ lba + len ≤ lv.getTotalSize

/-- What a request finds in the files, and a task that sends it in each of its runs. -/
structure Backed (f : Files) (lv : LogicalVolume) : Prop where
  below : ∀ lba len, InVolume lv lba len →
    ∀ c ∈ locations (lv.getLowHandles (lba2Offset lba) (lba2Offset len)), c.2 < f.size c.1
  inside : ∀ k, SendfileRange.Partial k → ∀ lba len, InVolume lv lba len → ∀ m n t n',
    after k m n (SendfileTask.new lv lba len) = (false, t, n') →
      ∀ lh ∈ t.lv.getLowHandles t.offset t.remain, lh.offset + lh.length ≤ f.size lh.path
  completes : ∀ k, SendfileRange.Partial k → ∀ lba len, InVolume lv lba len → ∀ m n t n',
    after k m n (SendfileTask.new lv lba len) = (false, t, n') → ∀ k' n'',
      Accepting f (sendfiles k' (t.lv.getLowHandles t.offset t.remain) n'' t) → (t.run k' n'').1 = true

theorem exists_partAt {volumes : List PhysicalVolume} {i : Nat} (hp : p ∈ volumes) (hi : i < p.sector) :
    ∃ b, b < VolumeMap.size volumes ∧ partAt volumes b = some (p, i) := by
  induction volumes with
  | nil => exact absurd hp List.not_mem_nil
  | cons pv volumes ih =>
    rw [size_cons]
    obtain rfl | hp := List.mem_cons.mp hp
    · exact ⟨i, by omega, partAt_lt hi⟩
    · obtain ⟨b, hb, hpart⟩ := ih hp
      exact ⟨pv.sector + b, by omega, partAt_add.trans hpart⟩

/-- The parts lie inside their files. -/
def Covered (f : Files) (volumes : List PhysicalVolume) : Prop :=
  ∀ p ∈ volumes, 0 < p.count → p.start + p.sector ≤ f.size p.path

theorem sector_pos_iff : 0 < p.sector ↔ 0 < p.count := by
  unfold PhysicalVolume.sector
  rw [lba2Offset_eq, UInt32.lt_iff_toNat_lt, UInt32.toNat_zero]
  omega

theorem mem_locations {volumes : List PhysicalVolume} {offset length : Nat}
    (hin : InRange volumes offset length)
    {c : String × Int} (hc : c ∈ locations (getLowHandles volumes offset length)) :
    ∃ p ∈ volumes, ∃ i, i < p.sector ∧ c = (p.path, (p.start : Int) + (i : Nat)) := by
  have hmem := List.mem_map_of_mem (f := some) hc
  rw [(getLowHandles_spec hin).2, List.map_map] at hmem
  obtain ⟨b, -, hb⟩ := List.mem_map.mp hmem
  obtain ⟨⟨p, i⟩, hpart, hlocated⟩ := Option.map_eq_some_iff.mp hb
  obtain ⟨hp, hi⟩ := mem_of_partAt hpart
  exact ⟨p, hp, i, hi, hlocated.symm⟩

theorem below_of_covered {volumes : List PhysicalVolume} {offset length : Nat}
    (hcovered : Covered f volumes)
    (hin : InRange volumes offset length) :
    ∀ c ∈ locations (getLowHandles volumes offset length), c.2 < f.size c.1 := by
  intro c hc
  obtain ⟨p, hp, i, hi, rfl⟩ := mem_locations hin hc
  have hend := hcovered p hp (sector_pos_iff.mp (Nat.zero_lt_of_lt hi))
  dsimp only
  omega

theorem inside_of_covered {volumes : List PhysicalVolume} {offset length : Nat}
    (hcovered : Covered f volumes)
    (hin : InRange volumes offset length) :
    ∀ lh ∈ getLowHandles volumes offset length, lh.offset + lh.length ≤ f.size lh.path := by
  intro lh hlh
  have hpos := (getLowHandles_spec hin).1 lh hlh
  have hlast : (lh.path, lh.offset + ((lh.length - 1 : Nat) : Int)) ∈ LowHandle.cells lh :=
    List.mem_map_of_mem (f := fun i : Nat => (lh.path, lh.offset + (i : Int)))
      (List.mem_range'_1.mpr ⟨Nat.zero_le _, by omega⟩)
  have hlt := below_of_covered hcovered hin _ (List.mem_flatMap.mpr ⟨lh, hlh, hlast⟩)
  dsimp only at hlt
  omega

theorem runHandles_lv {k : Kernel} (lhs : List LowHandle) : ∀ {n : Nat} {t : SendfileTask},
    (runHandles k lhs n t).2.1.lv = t.lv := by
  induction lhs with
  | nil => exact rfl
  | cons lh lhs ih =>
    intro n t
    rw [runHandles]
    dsimp only
    split
    · rfl
    split
    · rfl
    · exact ih

theorem after_inRange {k : Kernel} (hk : SendfileRange.Partial k) (m : Nat) :
    ∀ {n n' : Nat} {t t' : SendfileTask},
    InRange t.lv.volumes t.offset t.remain → after k m n t = (false, t', n') →
      t'.lv = t.lv ∧ InRange t'.lv.volumes t'.offset t'.remain := by
  induction m with
  | zero =>
    intro n n' t t' hin h
    obtain ⟨rfl, -⟩ := Prod.mk.inj (Prod.mk.inj h).2
    exact ⟨rfl, hin⟩
  | succ m ih =>
    intro n n' t t' hin h
    obtain ⟨rest, hran⟩ := run_ran hk (n := n) hin
    rw [after] at h
    split at h
    · exact absurd (Prod.mk.inj h).1 Bool.noConfusion
    · next s n'' hrun =>
      rw [hrun] at hran
      obtain ⟨hne, hinside, hrest⟩ := hran.again rfl
      have hlv : s.lv = t.lv := by
        have hkept : (t.run k n).2.1.lv = t.lv := by
          rw [SendfileTask.run, if_pos hin.positive]
          exact runHandles_lv _
        rwa [hrun] at hkept
      have hpos : 0 < s.remain := by
        rw [← length_left hinside, hrest]
        exact List.length_pos_iff.mpr hne
      obtain ⟨hlv', hin'⟩ := ih (hinside hpos) h
      exact ⟨hlv'.trans hlv, hin'⟩

theorem runHandles_done {k : Kernel} (lhs : List LowHandle) : ∀ {n : Nat} {t : SendfileTask},
    (∀ c ∈ sendfiles k lhs n t, c.size = c.handle.length) → (runHandles k lhs n t).1 = true := by
  induction lhs with
  | nil => exact fun _ => rfl
  | cons lh lhs ih =>
    intro n t h
    rw [sendfiles] at h
    dsimp only at h
    have hsize : k.sendfile n lh.length = lh.length := h _ List.mem_cons_self
    rw [runHandles]
    dsimp only
    rw [hsize, if_neg (Int.not_lt.mpr (Int.natCast_nonneg _)),
      if_neg (not_not.mpr (Int.toNat_natCast _).symm)] at h ⊢
    exact ih fun c hc => h c (List.mem_cons_of_mem _ hc)

theorem mem_sendfiles {k : Kernel} (lhs : List LowHandle) :
    ∀ {n : Nat} {t : SendfileTask} {c : Sendfile},
    c ∈ sendfiles k lhs n t → c.handle ∈ lhs := by
  induction lhs with
  | nil => exact fun h => absurd h List.not_mem_nil
  | cons lh lhs ih =>
    intro n t c h
    rw [sendfiles] at h
    dsimp only at h
    obtain rfl | h := List.mem_cons.mp h
    · exact List.mem_cons_self
    · split at h
      · exact absurd h List.not_mem_nil
      split at h
      · exact absurd h List.not_mem_nil
      · exact List.mem_cons_of_mem _ (ih h)

theorem nonneg_offset {volumes : List PhysicalVolume} {offset length : Nat}
    (hin : InRange volumes offset length) :
    ∀ lh ∈ getLowHandles volumes offset length, 0 ≤ lh.offset := by
  intro lh hlh
  have hpos := (getLowHandles_spec hin).1 lh hlh
  have hfirst : (lh.path, lh.offset + ((0 : Nat) : Int)) ∈ LowHandle.cells lh :=
    List.mem_map_of_mem (f := fun i : Nat => (lh.path, lh.offset + (i : Int)))
      (List.mem_range'_1.mpr ⟨Nat.le_refl _, by omega⟩)
  obtain ⟨p, -, i, -, heq⟩ := mem_locations hin (List.mem_flatMap.mpr ⟨lh, hlh, hfirst⟩)
  have hoffset := (Prod.mk.inj heq).2
  omega

theorem completes_of_covered {k : Kernel} {n : Nat} {t : SendfileTask}
    (hcovered : Covered f t.lv.volumes)
    (hin : InRange t.lv.volumes t.offset t.remain)
    (haccepting : Accepting f (sendfiles k (t.lv.getLowHandles t.offset t.remain) n t)) :
    (t.run k n).1 = true := by
  rw [SendfileTask.run, if_pos hin.positive]
  apply runHandles_done
  intro c hc
  have hlh := mem_sendfiles _ hc
  have hend := inside_of_covered hcovered hin c.handle hlh
  have hnonneg := nonneg_offset hin c.handle hlh
  rw [haccepting c hc]
  omega

theorem backed_iff_covered {lv : LogicalVolume} (hfits : VolumeMap.size lv.volumes < 2 ^ 64) :
    Backed f lv ↔ Covered f lv.volumes := by
  have hfits' : lba2Offset lv.getTotalSize < 2 ^ 64 := size_eq_getTotalSize lv ▸ hfits
  constructor
  · intro h p hp hpos
    have hsector := sector_pos_iff.mpr hpos
    obtain ⟨b, hb, hpart⟩ := exists_partAt hp (Nat.sub_lt hsector Nat.one_pos)
    have htotal : 0 < lv.getTotalSize := by
      rw [size_eq_getTotalSize, lba2Offset_eq] at hb
      omega
    have hin : InRange lv.volumes (lba2Offset 0) (lba2Offset lv.getTotalSize) :=
      inRange_new lv htotal (Nat.le_of_eq (Nat.zero_add _)) hfits'
    have hplace := (getLowHandles_spec hin).2
    have hloc := getElem?_of_place hplace (i := b) (p := (p, p.sector - 1))
      (size_eq_getTotalSize lv ▸ hb) (by rwa [lba2Offset_eq, Nat.mul_zero, Nat.zero_add])
    have hlt := h.below 0 lv.getTotalSize ⟨htotal, Nat.le_of_eq (Nat.zero_add _)⟩ _
      (List.mem_of_getElem? hloc)
    unfold located at hlt
    dsimp only at hlt
    omega
  · intro h
    have hrange : ∀ {lba len : Nat}, InVolume lv lba len →
      InRange lv.volumes (lba2Offset lba) (lba2Offset len) :=
      fun hvol => inRange_new lv hvol.1 hvol.2 hfits'
    refine ⟨fun lba len hvol => below_of_covered h (hrange hvol), ?_, ?_⟩
    · intro k hk lba len hvol m n t n' hafter
      obtain ⟨hlv, hin⟩ := after_inRange hk m (hrange hvol) hafter
      exact inside_of_covered (hlv ▸ h) hin
    · intro k hk lba len hvol m n t n' hafter k' n''
      obtain ⟨hlv, hin⟩ := after_inRange hk m (hrange hvol) hafter
      exact completes_of_covered (hlv ▸ h) hin

/-- The condition: a part ends inside the file that was found, or inside the last block
of a probed part of this file that was written behind the end found. -/
def Reached (f : Files) (qs : List PhysicalVolume) (p : PhysicalVolume) : Prop :=
  p.start + p.sector ≤ f.size p.path ∨
    ∃ q ∈ qs, q.path = p.path ∧ f.size p.path ≤ q.probe ∧ p.start + p.sector ≤ q.probe + 512

/-- The probes do not regard where a part starts, so an accepted volume is backed just if
each of its parts that is not empty is reached. -/
theorem backed_iff_reached (f f' : Files) (info : VolumeInfo) (lv : LogicalVolume)
    (hnew : LogicalVolume.new f info = some (lv, f'))
    (hfits : VolumeMap.size (info.orgs.map PhysicalVolume.new) < 2 ^ 64) :
    Backed f' lv ↔ ∀ p ∈ info.orgs.map PhysicalVolume.new, 0 < p.count →
      Reached f (probed f info) p := by
  obtain ⟨hvolumes, rfl⟩ := new_spec hnew
  rw [backed_iff_covered (hvolumes ▸ hfits), ← hvolumes]
  exact forall₃_congr fun p _ _ => le_size_foldl (probed f info) f

/-- Files of 4096 bytes, that can grow. -/
def sampleFiles : Files := ⟨fun _ => 4096, fun _ => 2 ^ 40, fun _ => true, fun _ => true⟩

/-- A volume of nine blocks in one file, which is extended for the last. -/
theorem backed_nine_blocks :
    LogicalVolume.new sampleFiles ⟨[⟨"/dev/sdb", 0, 9⟩], []⟩ =
        some (⟨[⟨"/dev/sdb", 0, 9⟩]⟩, extend sampleFiles ⟨"/dev/sdb", 0, 9⟩) ∧
      Backed (extend sampleFiles ⟨"/dev/sdb", 0, 9⟩) ⟨[⟨"/dev/sdb", 0, 9⟩]⟩ := by
  have hnew : LogicalVolume.new sampleFiles ⟨[⟨"/dev/sdb", 0, 9⟩], []⟩ =
      some (⟨[⟨"/dev/sdb", 0, 9⟩]⟩, extend sampleFiles ⟨"/dev/sdb", 0, 9⟩) := rfl
  refine ⟨hnew, (backed_iff_reached _ _ _ _ hnew (by decide)).mpr fun p hp _ => ?_⟩
  obtain rfl := List.mem_singleton.mp hp
  exact .inr ⟨⟨"/dev/sdb", 0, 9⟩, List.mem_singleton.mpr rfl, rfl, by decide, by decide⟩

/-- Eight blocks behind the first eight bytes of a file of 4096 bytes are accepted, and
end behind the file. -/
theorem not_backed_start :
    LogicalVolume.new sampleFiles ⟨[⟨"/dev/sdb", 8, 8⟩], []⟩ = some
      (⟨[⟨"/dev/sdb", 8, 8⟩]⟩, sampleFiles) ∧
      ¬ Backed sampleFiles ⟨[⟨"/dev/sdb", 8, 8⟩]⟩ := by
  refine ⟨rfl, fun h => ?_⟩
  have hcovered := (backed_iff_covered (by decide)).mp h
    ⟨"/dev/sdb", 8, 8⟩ List.mem_cons_self (by decide)
  exact absurd hcovered (by decide)

end Backing

end Sstoraged
