import Sstoraged.Beside
import Sstoraged.CachedVolume
import Sstoraged.WriteTransfer

namespace Sstoraged.BlockDevice

open WriteTransfer CachedVolume DiskView HandleMap

variable {B : Type} {ix : LbaIndex} {mem : B → Nat → UInt8}

/-- Where the next data of a write goes, and how many bytes are to come. -/
structure Extent where
  lun : Nat
  lba : Nat
  remain : Nat

/-- What an initiator takes the target for: an array of bytes for each LUN, and the writes
under way by their task tags. -/
structure Device where
  bytes : Nat → Nat → UInt8
  tasks : Nat → Option Extent

/-- Data laid over an array of bytes from a block on. -/
def overwrite (f : Nat → UInt8) (lba : Nat) (data : List UInt8) : Nat → UInt8 := fun a =>
  if 512 * lba ≤ a then data.getD (a - 512 * lba) (f a) else f a

namespace Device

/-- Data of a write arrives. The last data ends the task, if the PDU is a final one. -/
def receive (dev : Device) (itt : Nat) (e : Extent) (final : Bool) (data : List UInt8) : Device where
  bytes := Function.update dev.bytes e.lun (overwrite (dev.bytes e.lun) e.lba data)
  tasks := Function.update dev.tasks itt
    (if data.length = e.remain ∧ final = true then none
      else some ⟨e.lun, e.lba + data.length / 512, e.remain - data.length⟩)

def command (mem : B → Nat → UInt8) (dev : Device) (t : Token B) : Device :=
  dev.receive (ittOf t) ⟨lunOf t, lbaOf t, 512 * lengthOf t⟩ (finalOf t) (t.data mem)

def dataOut (mem : B → Nat → UInt8) (dev : Device) (t : Token B) : Device :=
  match dev.tasks (ittOf t) with
  | some e => dev.receive (ittOf t) e (finalOf t) (t.data mem)
  | none => dev

end Device

/-- The session, the files and the disk writers of the LUNs, and beside them the device that
they stand for. -/
structure System (B : Type) (ix : LbaIndex) where
  ses : Session B ix
  files : Disk
  writer : Nat → Writer
  device : Device

/-- The handles of the disk writer of a LUN. -/
def handles (lvs : List LogicalVolume) (lun : Nat) : List (Nat × LowHandle) :=
  (lvs[lun]?.bind DiskWriter.setupWriters).getD []

/-- What the files hold for the addresses of a LUN. -/
def bytesOf (lvs : List LogicalVolume) (files : Disk) (lun : Nat) : Nat → UInt8 :=
  view (handles lvs lun) files

/-- The segments that were pushed for a LUN. -/
def logOf (ses : Session B ix) (lun : Nat) : List (WriteSegment B) :=
  (ses.pushed.filter fun q => q.1 = lun).map Prod.snd

inductive Event (B : Type) (ix : LbaIndex)
  | command (t : Token B)
  | dataOut (t : Token B)
  | flush (lun : Nat) (f : Flush)
  | beside (b : Beside (Session.writes : Session B ix → _))

def System.putVolume (s : System B ix) (lun : Nat) (c : WriteCache B ix) (w : Writer)
    (files : Disk) : System B ix :=
  { s with
    ses := { s.ses with wcaches := s.ses.wcaches.set lun c }
    files
    writer := Function.update s.writer lun w }

/-- The device learns of a PDU that is taken, and nothing else. -/
def step (mem : B → Nat → UInt8) (w : WriteHandler) (d : DataOutHandler) (s : System B ix) :
    Event B ix → Option (System B ix)
  | .command t =>
    let (ok, ses) := w.handle s.ses t
    some { s with ses, device := if ok then s.device.command mem t else s.device }
  | .dataOut t =>
    let (ok, ses) := d.handle s.ses t
    some { s with ses, device := if ok then s.device.dataOut mem t else s.device }
  | .flush lun f =>
    s.ses.wcaches[lun]?.bind fun c =>
      (f.run mem (handles s.ses.lvs lun) c (s.writer lun) s.files).map fun (c, w, files) =>
        s.putVolume lun c w files
  | .beside b => some { s with ses := b.run s.ses }

/-- A session without writes under way and with empty caches. -/
structure Fresh (ses : Session B ix) : Prop where
  caches : ses.wcaches = ses.lvs.map fun _ => .init
  recvinfo : ∀ itt, ses.recvinfo itt = none
  pushed : ses.pushed = []

/-- The volumes fit into 64 bits, and no two addresses of the LUNs have one place in the files. -/
structure Laid (lvs : List LogicalVolume) : Prop where
  fits : ∀ lv ∈ lvs, VolumeMap.size lv.volumes < 2 ^ 64
  apart : ∀ l a l' a' place, placeAt (handles lvs l) a = some place →
    placeAt (handles lvs l') a' = some place →
    l = l' ∧ a = a'

def init (ses : Session B ix) (files : Disk) : System B ix :=
  ⟨ses, files, fun _ => .idle, ⟨bytesOf ses.lvs files, fun _ => none⟩⟩

/-- The cache of a LUN can take a segment without splitting another one in its buffers. -/
def Merges (ses : Session B ix) (lun : Nat) (ws : WriteSegment B) : Prop :=
  ∀ c ∈ ses.wcaches[lun]?, ∀ p ∈ c.search ws.lba ws.transferLength, WriteCacheMerge.Mergeable ws c p

/-- The condition on a command that passes the checks: its tag is a new one, and its data,
if any is allowed, is of whole blocks and no more than it announces. -/
structure Orderly (w : WriteHandler) (ses : Session B ix) (t : Token B) : Prop where
  unique : ses.recvinfo (ittOf t) = none
  whole : t.Whole
  blocks : 512 ∣ dlengthOf t
  le : dlengthOf t ≤ 512 * lengthOf t
  final : dlengthOf t = 512 * lengthOf t → finalOf t = true
  immediate : w.immediateEnabled = true ∨ dlengthOf t = 0
  merges : ∀ ws, t.frontDataSegment (lbaOf t) (offset2Lba (dlengthOf t)) = some ws →
    Merges ses (lunOf t) ws

/-- The condition on a Data-Out for a write under way: its data is of whole blocks and no
more than is to come, and it repeats the LUN. -/
structure Follows (s : System B ix) (t : Token B) (dinfo : DataOutInfo) : Prop where
  whole : t.Whole
  blocks : 512 ∣ dlengthOf t
  le : dlengthOf t ≤ dinfo.remain
  lun : ∀ e ∈ s.device.tasks (ittOf t), lunOf t = e.lun
  merges : ∀ ws, DataOutHandler.front t dinfo = some ws → Merges s.ses (lunOf t) ws

def Ok (w : WriteHandler) (s : System B ix) : Event B ix → Prop
  | .command t => ∀ lv, w.Checked s.ses t.bhs lv → Orderly w s.ses t
  | .dataOut t =>
    DataOutHandler.valid t.bhs = true → ∀ dinfo ∈ s.ses.recvinfo (ittOf t), Follows s t dinfo
  | _ => True

/-- Some bytes from a block on lie inside the volume of a LUN. -/
def Inside (lvs : List LogicalVolume) (lun lba n : Nat) : Prop :=
  ∃ lv, lvs[lun]? = some lv ∧ 512 * lba + n ≤ 512 * lv.getTotalSize

/-- The record of a task against the write of the device. -/
def Tracks (lvs : List LogicalVolume) : Option DataOutInfo → Option Extent → Prop
  | none, none => True
  | some info, some e =>
    Inside lvs e.lun e.lba e.remain ∧ e.lba = info.lba + (info.total - info.remain) / 512 ∧
      e.remain = info.remain ∧ info.remain ≤ info.total ∧ info.total < 2 ^ 32 ∧ 512 ∣ info.total ∧
        512 ∣ info.remain
  | _, _ => False

/-- A volume is kept by its cache and the files, and they hold together what the device holds. -/
structure Volume (mem : B → Nat → UInt8) (lvs : List LogicalVolume) (files₀ : Disk)
    (s : System B ix) (lun size : Nat)
    (c : WriteCache B ix) : Prop where
  kept : ∃ disk popped org, Kept mem (bytesOf lvs files₀ lun) (bytesOf lvs s.files lun) size c
    (s.writer lun)
    (logOf s.ses lun) disk popped org
  expected : WriteBack.expected mem (bytesOf lvs files₀ lun) (logOf s.ses lun) = s.device.bytes lun

structure Inv (mem : B → Nat → UInt8) (lvs : List LogicalVolume) (files₀ : Disk) (s : System B ix) :
    Prop where
  config : s.ses.lvs = lvs
  caches : s.ses.wcaches.length = lvs.length
  tasks : ∀ itt, Tracks lvs (s.ses.recvinfo itt) (s.device.tasks itt)
  volumes : ∀ lun lv c, lvs[lun]? = some lv → s.ses.wcaches[lun]? = some c →
    Volume mem lvs files₀ s lun lv.getTotalSize c

section places

variable {lvs : List LogicalVolume} {lun : Nat} {lv : LogicalVolume}

theorem getLowHandles_zero (volumes : List PhysicalVolume) :
    ∀ cur, getLowHandles volumes cur 0 = [] := by
  induction volumes with
  | nil => exact fun _ => rfl
  | cons pv volumes ih =>
    intro cur
    have hnone : pv.getCoverage (u64 cur) 0 = 0 := by
      unfold PhysicalVolume.getCoverage
      split_ifs <;> omega
    rw [getLowHandles, hnone]
    exact ih _

theorem handles_eq (h : lvs[lun]? = some lv) : handles lvs lun =
    (DiskWriter.setupWriters lv).getD [] := by
  rw [handles, h, Option.bind_some]

theorem Laid.placed (h : Laid lvs) (hlv : lvs[lun]? = some lv) :
    Placed (handles lvs lun) lv.getTotalSize ∧
    ∀ a, a < 512 * lv.getTotalSize → placeAt (handles lvs lun) a =
      ((VolumeMap.partAt lv.volumes a).map VolumeMap.located).map fun c => (c.1, u64 c.2) := by
  have hsize : VolumeMap.size lv.volumes = 512 * lv.getTotalSize :=
    (VolumeMap.size_eq_getTotalSize lv).trans (lba2Offset_eq _)
  have hfits := h.fits lv (List.mem_of_getElem? hlv)
  rw [handles_eq hlv]
  obtain hzero | hpos := Nat.eq_zero_or_pos lv.getTotalSize
  · have hnone : (DiskWriter.setupWriters lv).getD [] = [] := by
      unfold DiskWriter.setupWriters LogicalVolume.getLowHandles
      rw [hzero, lba2Offset_eq, Nat.mul_zero, getLowHandles_zero]
      rfl
    rw [hnone, hzero]
    exact ⟨⟨⟨List.Pairwise.nil, List.Pairwise.nil, fun e he => absurd he List.not_mem_nil⟩,
      fun a ha => absurd ha (Nat.not_lt_zero a)⟩, fun a ha => absurd ha (Nat.not_lt_zero a)⟩
  · have hrange : VolumeMap.InRange lv.volumes 0 (lba2Offset lv.getTotalSize) := by
      rw [lba2Offset_eq]
      exact ⟨by omega, by omega, hfits⟩
    have hsetup := setupWriters_eq hrange
    obtain ⟨hlengths, -, -⟩ := whole_spec hrange
    have hlayout := layout_entries _ (fun lh hlh => (hlengths lh hlh).1)
      (fun lh hlh => (hlengths lh hlh).2) 0
    have hplace : ∀ a, a < 512 * lv.getTotalSize →
        placeAt ((DiskWriter.setupWriters lv).getD []) a =
          ((VolumeMap.partAt lv.volumes a).map VolumeMap.located).map fun c => (c.1, u64 c.2) := by
      intro a ha
      rw [hsetup, Option.getD_some]
      exact placeAt_volume hrange (by rwa [lba2Offset_eq])
    refine ⟨⟨by rw [hsetup]; exact hlayout, fun a ha => ?_⟩, hplace⟩
    have hsome : (VolumeMap.partAt lv.volumes a).isSome := VolumeMap.partAt_isSome (by omega)
    obtain ⟨part, hpart⟩ := Option.isSome_iff_exists.mp hsome
    have hown := hplace a ha
    rw [hpart, Option.map_some, Option.map_some] at hown
    refine ⟨_, fun b => ⟨fun hb => ?_, fun hb => hb ▸ hown⟩⟩
    rw [← handles_eq hlv] at hb hown
    exact (h.apart _ _ _ _ _ hb hown).2

end places

section data

variable {t : Token B} {ws : WriteSegment B} {log : List (WriteSegment B)} {disk₀ : Nat → UInt8}

theorem length_data (h : t.Whole) : (t.data mem).length = dlengthOf t := by
  have henough := h.enough
  have hlen := BufferChain.length_contents commonBufSize mem t.cbufs t.offset
  rw [Token.data, List.length_take, List.length_drop, hlen]
  unfold dlengthOf
  omega

theorem expected_push (hf : ws.Filled) (disk₀ : Nat → UInt8) (log : List (WriteSegment B)) :
    WriteBack.expected mem disk₀ (log ++ [ws]) =
      overwrite (WriteBack.expected mem disk₀ log) ws.lba (written mem ws) := by
  have henough := hf.enough
  have hlen := BufferChain.length_contents commonBufSize mem ws.cbufs ws.dsOffset
  rw [WriteBack.expected, Overlay.expected_concat]
  funext a
  rw [Overlay.store, overwrite, written]
  rw [lba2Offset_eq] at henough ⊢
  by_cases hc : ws.covers a = true
  · obtain ⟨hle, hlt⟩ := (ws.covers_iff a).mp hc
    rw [WriteSegment.tail] at hlt
    have hi : a - 512 * ws.lba < 512 * ws.transferLength := by omega
    have hi' : a - 512 * ws.lba < ((BufferChain.contents commonBufSize mem ws.cbufs ws.dsOffset).take
        (512 * ws.transferLength)).length := by
      rw [List.length_take]
      omega
    rw [if_pos hc, if_pos (by omega), List.getD_eq_getElem _ _ hi', List.getElem_take]
    exact List.getD_eq_getElem _ _ (by omega)
  · have hout : ¬ (ws.lba ≤ a / 512 ∧ a / 512 < ws.tail) := fun h => hc ((ws.covers_iff a).mpr h)
    rw [WriteSegment.tail] at hout
    rw [if_neg hc]
    split_ifs with hle
    · rw [List.getD_eq_default]
      · rfl
      · rw [List.length_take]
        omega
    · rfl

end data

section steps

variable {s : System B ix} {lvs : List LogicalVolume} {lun : Nat} {ws : WriteSegment B} {files₀ : Disk}
  {ses' : Session B ix} {dev' : Device} {t : Token B} {w : WriteHandler} {d : DataOutHandler}

theorem overwrite_nil (f : Nat → UInt8) (lba : Nat) : overwrite f lba [] = f := by
  funext a
  simp [overwrite]

theorem tracks_update {itt : Nat} {r r' : Nat → Option DataOutInfo} {tasks : Nat → Option Extent}
    {x : Option Extent}
    (h : ∀ i, Tracks lvs (r i) (tasks i)) (hother : ∀ i, i ≠ itt → r' i = r i)
    (hself : Tracks lvs (r' itt) x) (i : Nat) :
    Tracks lvs (r' i) (Function.update tasks itt x i) := by
  by_cases hne : i = itt
  · subst hne
    rwa [Function.update_self]
  · rw [Function.update_of_ne hne, hother i hne]
    exact h i

theorem Inv.keep (hi : Inv mem lvs files₀ s) (hcaches : ses'.wcaches = s.ses.wcaches)
    (hpushed : ses'.pushed = s.ses.pushed)
    (hlvs : ses'.lvs = s.ses.lvs) (hbytes : dev'.bytes = s.device.bytes)
    (htasks : ∀ itt, Tracks lvs (ses'.recvinfo itt) (dev'.tasks itt)) :
    Inv mem lvs files₀ { s with ses := ses', device := dev' } := by
  refine ⟨hlvs.trans hi.config, (congrArg List.length hcaches).trans hi.caches, htasks,
    fun l lv c hlv hc => ?_⟩
  obtain ⟨hkept, hexpected⟩ := hi.volumes l lv c hlv (hcaches ▸ hc)
  have hlog : logOf ses' l = logOf s.ses l := by rw [logOf, hpushed, logOf]
  refine ⟨?_, ?_⟩
  · dsimp only
    rwa [hlog]
  · dsimp only
    rwa [hlog, hbytes]

theorem Inv.store (hix : ix.Lawful) (hi : Inv mem lvs files₀ s) (hf : ws.Filled)
    (hm : Merges s.ses lun ws)
    (hin : Inside lvs lun ws.lba (512 * ws.transferLength))
    (hcaches : ses'.wcaches = s.ses.wcaches.modify lun (·.push ws))
    (hpushed : ses'.pushed = s.ses.pushed ++ [(lun, ws)])
    (hlvs : ses'.lvs = s.ses.lvs)
    (hbytes : dev'.bytes =
      Function.update s.device.bytes lun (overwrite (s.device.bytes lun) ws.lba (written mem ws)))
    (htasks : ∀ itt, Tracks lvs (ses'.recvinfo itt) (dev'.tasks itt)) :
    Inv mem lvs files₀ { s with ses := ses', device := dev' } := by
  refine ⟨hlvs.trans hi.config, by rw [hcaches, List.length_modify]; exact hi.caches, htasks,
    fun l lv c hlv hc => ?_⟩
  rw [hcaches, List.getElem?_modify] at hc
  obtain ⟨c₀, hc₀, rfl⟩ := Option.map_eq_some_iff.mp hc
  obtain ⟨⟨disk, popped, org, hkept⟩, hexpected⟩ := hi.volumes l lv c₀ hlv hc₀
  by_cases hl : lun = l
  · subst hl
    have hlog : logOf ses' lun = logOf s.ses lun ++ [ws] := by
      simp [logOf, hpushed]
    obtain ⟨lv', hlv', hle⟩ := hin
    obtain rfl := Option.some.inj (hlv.symm.trans hlv')
    obtain ⟨org', hkept'⟩ := hkept.push hix hf (fun p hp => hm c₀ hc₀ p hp)
      (by rw [WriteSegment.tail]; omega)
    refine ⟨⟨disk, popped, org', ?_⟩, ?_⟩
    · dsimp only
      rw [hlog, if_pos rfl]
      exact hkept'
    · dsimp only
      rw [hlog, hbytes, Function.update_self, ← hexpected, expected_push hf]
  · have hlog : logOf ses' l = logOf s.ses l := by
      simp [logOf, hpushed, hl]
    rw [if_neg hl]
    refine ⟨⟨disk, popped, org, ?_⟩, ?_⟩
    · dsimp only
      rw [hlog]
      exact hkept
    · dsimp only
      rw [hlog, hbytes, Function.update_of_ne (Ne.symm hl)]
      exact hexpected

theorem tracks_receive {lun lba total remain dlength r2tsn : Nat}
    (hin : Inside lvs lun (lba + (total - remain) / 512) remain) (hle : remain ≤ total)
    (hlt : total < 2 ^ 32)
    (htotal : 512 ∣ total) (hremain : 512 ∣ remain) (hblocks : 512 ∣ dlength) (hd : dlength ≤ remain) :
    Tracks lvs (some ⟨lba, total, remain - dlength, r2tsn⟩)
      (some ⟨lun, lba + (total - remain) / 512 + dlength / 512, remain - dlength⟩) := by
  obtain ⟨lv, hlv, hroom⟩ := hin
  refine ⟨⟨lv, hlv, ?_⟩, ?_, rfl, (Nat.sub_le _ _).trans hle, hlt, htotal, Nat.dvd_sub hremain hblocks⟩
  · dsimp only
    omega
  · dsimp only
    omega

theorem inside_of_checked (hi : Inv mem lvs files₀ s) {lv : LogicalVolume}
    (hc : w.Checked s.ses t.bhs lv) :
    Inside lvs (lunOf t) (lbaOf t) (512 * lengthOf t) := by
  have hinside : lbaOf t + lengthOf t ≤ lv.getTotalSize := hc.inside
  exact ⟨lv, hi.config ▸ hc.lun, by omega⟩

theorem tracks_command (hi : Inv mem lvs files₀ s) {lv : LogicalVolume} (hc : w.Checked s.ses t.bhs lv)
    (ho : Orderly w s.ses t) {s₁ : Session B ix} (hrec : s₁.recvinfo = s.ses.recvinfo)
    (hlt : dlengthOf t < 512 * lengthOf t) (itt : Nat) :
    Tracks lvs ((w.receive s₁ t.bhs (512 * lengthOf t - dlengthOf t)).recvinfo itt)
      ((s.device.command mem t).tasks itt) := by
  have htl : lengthOf t < 2 ^ 16 := Cdb10.getTransferLength_lt _
  have hin := inside_of_checked hi hc
  obtain ⟨r2tsn, hself⟩ := receive_recvinfo w s₁ t (512 * lengthOf t - dlengthOf t)
  obtain ⟨-, -, -, hother⟩ := w.receive_frame s₁ t.bhs (512 * lengthOf t - dlengthOf t)
  rw [hrec, ho.unique, Option.getD_none, lba2Offset_eq] at hself
  refine tracks_update hi.tasks (fun i hne => (hother i hne).trans (by rw [hrec])) ?_ itt
  change Tracks _ ((w.receive s₁ t.bhs _).recvinfo (ittOf t)) _
  rw [hself, if_neg, length_data ho.whole]
  · have h : Tracks lvs (some ⟨lbaOf t, 512 * lengthOf t, 512 * lengthOf t - dlengthOf t, r2tsn⟩)
        (some ⟨lunOf t, lbaOf t + (512 * lengthOf t - 512 * lengthOf t) / 512 + dlengthOf t / 512,
          512 * lengthOf t - dlengthOf t⟩) :=
      tracks_receive (by rwa [Nat.sub_self, Nat.zero_div, Nat.add_zero]) le_rfl (by omega)
        (Dvd.intro _ rfl)
        (Dvd.intro _ rfl) ho.blocks hlt.le
    rwa [Nat.sub_self, Nat.zero_div, Nat.add_zero] at h
  · rw [length_data ho.whole]
    exact fun h => absurd h.1 hlt.ne

theorem store_wcaches (ses : Session B ix) (lun : Nat) (ws : WriteSegment B) :
    (ses.store lun ws).wcaches = ses.wcaches.modify lun (·.push ws) := rfl

theorem pushGood_wcaches (ses : Session B ix) (itt : Nat) :
    (ses.pushGood itt).wcaches = ses.wcaches := rfl

theorem command_bytes (mem : B → Nat → UInt8) (dev : Device) (t : Token B) : (dev.command mem t).bytes =
    Function.update dev.bytes (lunOf t) (overwrite (dev.bytes (lunOf t)) (lbaOf t) (t.data mem)) := rfl

/-- Behind the data of a command: a response when it is all of the write, and else a record of
what is to come. -/
theorem finish_eq (hle : dlengthOf t ≤ 512 * lengthOf t) (ses : Session B ix) :
    w.finish ses t.bhs =
      if 512 * lengthOf t - dlengthOf t = 0 then
        if finalOf t = false then (false, ses) else (true, ses.pushGood (ittOf t))
      else (true, w.receive ses t.bhs (512 * lengthOf t - dlengthOf t)) := by
  have htl : lengthOf t < 2 ^ 16 := Cdb10.getTransferLength_lt _
  have hremain : u32 (lba2Offset (lengthOf t) - dlengthOf t) = 512 * lengthOf t - dlengthOf t := by
    rw [lba2Offset_eq]
    exact u32_sub hle (by omega)
  rw [← hremain]
  rfl

theorem inv_command (hix : ix.Lawful) (hi : Inv mem lvs files₀ s) (hok : Ok w s (.command t))
    {s' : System B ix}
    (hs : step mem w d s (.command t) = some s') : Inv mem lvs files₀ s' := by
  simp only [step, Option.some.injEq] at hs
  subst hs
  rcases w.handle_cases s.ses t with h | ⟨lv, hc, hcase⟩
  · rw [h]
    exact hi
  have ho := hok lv hc
  have hpos : 0 < lengthOf t := hc.positive
  have hin := inside_of_checked hi hc
  rcases hcase with ⟨himm, h⟩ | ⟨himm, ws, hfront, -, h⟩
  · -- no data is taken with the command
    have hz : dlengthOf t = 0 := ho.immediate.resolve_left (by simp [himm])
    have hdata : t.data mem = [] := List.length_eq_zero_iff.mp ((length_data ho.whole).trans hz)
    rw [lba2Offset_eq] at h
    change w.handle s.ses t = (true, w.receive s.ses t.bhs (512 * lengthOf t)) at h
    obtain ⟨hpushed, hcaches, hlvs, -⟩ := w.receive_frame s.ses t.bhs (512 * lengthOf t)
    have htasks := tracks_command hi hc ho (rfl : s.ses.recvinfo = _) (by omega)
    rw [hz, Nat.sub_zero] at htasks
    simp only [h, if_true]
    refine hi.keep hcaches hpushed hlvs ?_ htasks
    rw [command_bytes, hdata, overwrite_nil, Function.update_eq_self]
  · -- the data is pushed, and answered when it is all of it
    obtain ⟨-, -, hdpos, -⟩ := Token.frontDataSegment_some hfront
    obtain ⟨ws', hfront', hlba, hlength, hf, hwritten⟩ :=
      frontDataSegment_blocks ho.whole hdpos ho.blocks (lbaOf t)
    obtain rfl : ws = ws' := Option.some.inj (hfront.symm.trans hfront')
    have hm := ho.merges ws hfront
    have hin' : Inside lvs (lunOf t) ws.lba (512 * ws.transferLength) := by
      obtain ⟨lv', hlv', hroom⟩ := hin
      have hle := ho.le
      exact ⟨lv', hlv', by rw [hlba, hlength]; omega⟩
    have hbytes : (s.device.command mem t).bytes = Function.update s.device.bytes (lunOf t)
        (overwrite (s.device.bytes (lunOf t)) ws.lba (written mem ws)) := by
      rw [command_bytes, hlba, hwritten]
    change w.handle s.ses t = w.finish (s.ses.store (lunOf t) ws) t.bhs at h
    rw [finish_eq ho.le] at h
    rcases Nat.lt_or_eq_of_le ho.le with hlt | heq
    · rw [if_neg (by omega)] at h
      obtain ⟨hpushed, hcaches, hlvs, -⟩ := w.receive_frame (s.ses.store (lunOf t) ws) t.bhs
        (512 * lengthOf t - dlengthOf t)
      simp only [h, if_true]
      exact hi.store hix hf hm hin' (hcaches.trans (store_wcaches _ _ _))
        (hpushed.trans (Session.store_pushed _ _ _))
        (hlvs.trans (Session.store_lvs _ _ _)) hbytes
        (tracks_command hi hc ho (Session.store_recvinfo s.ses (lunOf t) ws) hlt)
    · have hfinal := ho.final heq
      rw [if_pos (by omega), if_neg (by simp [hfinal])] at h
      simp only [h, if_true]
      have hrec : ((s.ses.store (lunOf t) ws).pushGood (ittOf t)).recvinfo = s.ses.recvinfo :=
        (Session.pushGood_recvinfo _ _).trans (Session.store_recvinfo _ _ _)
      refine hi.store hix hf hm hin' ((pushGood_wcaches _ _).trans (store_wcaches _ _ _))
        ((Session.pushGood_pushed _ _).trans (Session.store_pushed _ _ _))
        ((Session.pushGood_lvs _ _).trans (Session.store_lvs _ _ _)) hbytes
        (tracks_update hi.tasks (fun i _ => congrFun hrec i) ?_)
      have hdone : (t.data mem).length = 512 * lengthOf t ∧ finalOf t = true :=
        ⟨(length_data ho.whole).trans heq, hfinal⟩
      rw [if_pos hdone, hrec, ho.unique]
      trivial

theorem dataOut_bytes {dev : Device} {e : Extent} (he : dev.tasks (ittOf t) = some e) :
    (dev.dataOut mem t).bytes = Function.update dev.bytes e.lun
      (overwrite (dev.bytes e.lun) e.lba (t.data mem)) := by
  rw [Device.dataOut, he]
  rfl

theorem finish_tracks (hi : Inv mem lvs files₀ s) {dinfo : DataOutInfo} {e : Extent} {s₁ : Session B ix}
    (hrec : s₁.recvinfo = s.ses.recvinfo) (hinfo : s.ses.recvinfo (ittOf t) = some dinfo)
    (he : s.device.tasks (ittOf t) = some e) (hf : Follows s t dinfo) :
    (d.finish s₁ t.bhs dinfo).1 = true ∧ ∀ itt, Tracks lvs
      ((d.finish s₁ t.bhs dinfo).2.recvinfo itt) ((s.device.dataOut mem t).tasks itt) := by
  have htracks := hi.tasks (ittOf t)
  rw [hinfo, he] at htracks
  obtain ⟨hin, hlba, hremain, hle, hlt, htotal, hblocks⟩ := htracks
  obtain ⟨-, -, -, hother⟩ := d.finish_frame s₁ t.bhs dinfo
  have hother : ∀ i, i ≠ ittOf t → (d.finish s₁ t.bhs dinfo).2.recvinfo i = s.ses.recvinfo i :=
    fun i hne => (hother i hne).trans (by rw [hrec])
  have htasks : (s.device.dataOut mem t).tasks = Function.update s.device.tasks (ittOf t)
      (if dlengthOf t = dinfo.remain ∧ finalOf t = true then none
        else some ⟨e.lun, e.lba + dlengthOf t / 512, dinfo.remain - dlengthOf t⟩) := by
    have hlength : (t.data mem).length = dlengthOf t := length_data hf.whole
    rw [Device.dataOut, he, ← hremain, ← hlength]
    rfl
  rw [htasks]
  by_cases hlast : dlengthOf t = dinfo.remain ∧ finalOf t = true
  · obtain ⟨s', heq, -, hnone, -⟩ :=
      finish_last d (show s₁.sendtask = s₁.sendtask from rfl) hlast.1 hlast.2
    rw [if_pos hlast]
    rw [heq] at hother ⊢
    refine ⟨rfl, tracks_update hi.tasks hother ?_⟩
    rw [hnone]
    trivial
  · obtain ⟨s', r2tsn, heq, -, -, hsome, -⟩ :=
      finish_more d (show s₁.sendtask = s₁.sendtask from rfl) hf.le
      fun h => by simpa using fun hfinal => hlast ⟨h, hfinal⟩
    rw [if_neg hlast]
    rw [heq] at hother ⊢
    refine ⟨rfl, tracks_update hi.tasks hother ?_⟩
    rw [hsome, hlba]
    exact tracks_receive (hlba ▸ hremain ▸ hin) hle hlt htotal hblocks hf.blocks hf.le

theorem inv_dataOut (hix : ix.Lawful) (hi : Inv mem lvs files₀ s) (hok : Ok w s (.dataOut t))
    {s' : System B ix}
    (hs : step mem w d s (.dataOut t) = some s') : Inv mem lvs files₀ s' := by
  simp only [step, Option.some.injEq] at hs
  subst hs
  rcases d.handle_cases s.ses t with h | ⟨dinfo, hvalid, hinfo, hcase⟩
  · rw [h]
    exact hi
  have hf := hok hvalid dinfo hinfo
  change s.ses.recvinfo (ittOf t) = some dinfo at hinfo
  obtain ⟨e, he⟩ : ∃ e, s.device.tasks (ittOf t) = some e := by
    have htracks := hi.tasks (ittOf t)
    rw [hinfo] at htracks
    cases he : s.device.tasks (ittOf t) with
    | none =>
      rw [he] at htracks
      exact htracks.elim
    | some e => exact ⟨e, rfl⟩
  have htracks := hi.tasks (ittOf t)
  rw [hinfo, he] at htracks
  obtain ⟨hin, hlba, hremain, hle, hlt, -⟩ := htracks
  have hlunOf : lunOf t = e.lun := hf.lun e he
  rcases hcase with ⟨hfront, h⟩ | ⟨ws, hfront, -, h⟩
  · -- a PDU without data only moves the task on
    have hz : dlengthOf t = 0 := by
      by_contra hne
      obtain ⟨ws, hsome, -⟩ := frontDataSegment_blocks hf.whole (Nat.pos_of_ne_zero hne) hf.blocks
        (dinfo.lba + offset2Lba (u32 (dinfo.total - dinfo.remain)))
      exact Option.some_ne_none ws (hsome.symm.trans hfront)
    have hdata : t.data mem = [] := List.length_eq_zero_iff.mp ((length_data hf.whole).trans hz)
    obtain ⟨hdone, htasks⟩ := finish_tracks (d := d) hi rfl hinfo he hf
    obtain ⟨hpushed, hcaches, hlvs, -⟩ := d.finish_frame s.ses t.bhs dinfo
    simp only [h, hdone, if_true]
    refine hi.keep hcaches hpushed hlvs ?_ htasks
    rw [dataOut_bytes he, hdata, overwrite_nil, Function.update_eq_self]
  · obtain ⟨-, -, hdpos, -⟩ := Token.frontDataSegment_some hfront
    obtain ⟨ws', hfront', hlba', hlength, hfilled, hwritten⟩ :=
      frontDataSegment_blocks hf.whole hdpos hf.blocks
      (dinfo.lba + offset2Lba (u32 (dinfo.total - dinfo.remain)))
    obtain rfl : ws = ws' := Option.some.inj (hfront.symm.trans hfront')
    have hws : ws.lba = e.lba := by
      rw [hlba', hlba, offset2Lba_eq, u32_sub hle (by omega)]
    have hin' : Inside lvs (lunOf t) ws.lba (512 * ws.transferLength) := by
      obtain ⟨lv', hlv', hroom⟩ := hin
      have hle := hf.le
      exact ⟨lv', hlunOf ▸ hlv', by rw [hws, hlength]; omega⟩
    obtain ⟨hdone, htasks⟩ := finish_tracks (d := d) hi
      (Session.store_recvinfo s.ses (lunOf t) ws) hinfo he hf
    obtain ⟨hpushed, hcaches, hlvs, -⟩ := d.finish_frame (s.ses.store (lunOf t) ws) t.bhs dinfo
    change d.handle s.ses t = d.finish (s.ses.store (lunOf t) ws) t.bhs dinfo at h
    simp only [h, hdone, if_true]
    refine hi.store hix hfilled (hf.merges ws hfront) hin' (hcaches.trans (store_wcaches _ _ _))
      (hpushed.trans (Session.store_pushed _ _ _)) (hlvs.trans (Session.store_lvs _ _ _)) ?_ htasks
    rw [dataOut_bytes he, hws, hwritten, hlunOf]

end steps

section runs

variable {s s' : System B ix} {lvs : List LogicalVolume} {files₀ files' : Disk} {ses : Session B ix}
  {w : WriteHandler}
  {d : DataOutHandler} {lun : Nat} {lv : LogicalVolume} {f : Flush}
  {c c' : WriteCache B ix} {wr : Writer}

theorem step_flush (hs : step mem w d s (.flush lun f) = some s') :
    ∃ c c' wr files', s.ses.wcaches[lun]? = some c ∧
      f.run mem (handles s.ses.lvs lun) c (s.writer lun) s.files = some (c', wr, files') ∧
      s' = s.putVolume lun c' wr files' := by
  obtain ⟨c, hc, hmap⟩ := Option.bind_eq_some_iff.mp hs
  obtain ⟨⟨c', wr, files'⟩, hrun, heq⟩ := Option.map_eq_some_iff.mp hmap
  exact ⟨c, c', wr, files', hc, hrun, heq.symm⟩

theorem Inv.flush (hix : ix.Lawful) (hlaid : Laid lvs) (hi : Inv mem lvs files₀ s)
    (hlv : lvs[lun]? = some lv)
    (hc : s.ses.wcaches[lun]? = some c)
    (hrun : f.run mem (handles lvs lun) c (s.writer lun) s.files = some (c', wr, files')) :
    Inv mem lvs files₀ (s.putVolume lun c' wr files') := by
  obtain ⟨hplaced, -⟩ := hlaid.placed hlv
  obtain ⟨⟨disk, popped, org, hkept⟩, hexpected⟩ := hi.volumes lun lv c hlv hc
  refine ⟨hi.config, List.length_set.trans hi.caches, hi.tasks, fun l lv' u hlv' hu => ?_⟩
  have hlt := (List.getElem?_eq_some_iff.mp hc).1
  by_cases hl : l = lun
  · subst hl
    obtain rfl := Option.some.inj (hlv.symm.trans hlv')
    obtain rfl := Option.some.inj ((List.getElem?_set_self hlt).symm.trans hu)
    obtain ⟨disk', popped', hkept'⟩ := hkept.flush hix hplaced hrun
    refine ⟨⟨disk', popped', org, ?_⟩, hexpected⟩
    have hwriter : (s.putVolume l c' wr files').writer l = wr := Function.update_self ..
    rw [hwriter]
    exact hkept'
  · have hu' : s.ses.wcaches[l]? = some u := (List.getElem?_set_ne (Ne.symm hl)).symm.trans hu
    obtain ⟨⟨disk', popped', org', hother⟩, hexpected'⟩ := hi.volumes l lv' u hlv' hu'
    have hwriter : (s.putVolume lun c' wr files').writer l = s.writer l := Function.update_of_ne hl ..
    have hview : bytesOf lvs files' l = bytesOf lvs s.files l :=
      hkept.view_flush hplaced hrun fun a b place ha hb => hl (hlaid.apart _ _ _ _ _ hb ha).1
    refine ⟨⟨disk', popped', org', ?_⟩, hexpected'⟩
    rw [hwriter]
    show Kept mem _ (bytesOf lvs files' l) _ _ _ _ _ _ _
    rw [hview]
    exact hother

theorem inv_init (hix : ix.Lawful) (hf : Fresh ses) (files₀ : Disk) :
    Inv mem ses.lvs files₀ (init ses files₀) := by
  refine ⟨rfl, by rw [init, hf.caches, List.length_map], fun itt => ?_, fun lun lv c hlv hc => ?_⟩
  · rw [init, hf.recvinfo]
    trivial
  · have hlog : logOf (init ses files₀).ses lun = [] := by
      rw [logOf, init, hf.pushed]
      rfl
    rw [init, hf.caches, List.getElem?_map, hlv] at hc
    obtain rfl : .init = c := Option.some.inj hc
    refine ⟨⟨bytesOf ses.lvs files₀ lun, 0, id, ?_⟩, ?_⟩
    · rw [hlog]
      exact kept_start hix _ _
    · rw [hlog]
      rfl

theorem inv_step (hix : ix.Lawful) (hlaid : Laid lvs) (hi : Inv mem lvs files₀ s) {e : Event B ix}
    (hok : Ok w s e)
    (hs : step mem w d s e = some s') : Inv mem lvs files₀ s' := by
  cases e with
  | command t => exact inv_command hix hi hok hs
  | dataOut t => exact inv_dataOut hix hi hok hs
  | flush lun f =>
    obtain ⟨c, c', wr, files', hc, hrun, rfl⟩ := step_flush hs
    obtain ⟨lv, hlv⟩ : ∃ lv, lvs[lun]? = some lv :=
      ⟨_, List.getElem?_eq_getElem (hi.caches ▸ (List.getElem?_eq_some_iff.mp hc).1)⟩
    rw [hi.config] at hrun
    exact hi.flush hix hlaid hlv hc hrun
  | beside b =>
    cases hs
    obtain ⟨hrecvinfo, hrest⟩ := Prod.mk.inj (b.keeps s.ses)
    obtain ⟨hlvs, hrest⟩ := Prod.mk.inj hrest
    obtain ⟨hcaches, hpushed⟩ := Prod.mk.inj hrest
    exact hi.keep hcaches hpushed hlvs rfl fun itt => by
      rw [hrecvinfo]
      exact hi.tasks itt

theorem inv_of_reachable (hix : ix.Lawful) (hlaid : Laid ses.lvs) (hf : Fresh ses)
    (h : Runs.Reachable (init ses files₀) (step mem w d) (Ok w) s) : Inv mem ses.lvs files₀ s :=
  h.invariant (Inv mem ses.lvs files₀) (inv_init hix hf files₀) fun _ _ _ hi hok hs =>
    inv_step hix hlaid hi hok hs

end runs

end Sstoraged.BlockDevice
