import Sstoraged.BlockDevice
import Sstoraged.ReadYourWrites

namespace Sstoraged.BlockDevice

open CachedVolume DiskView HandleMap

variable {B : Type} {ix : LbaIndex} {mem : B → Nat → UInt8} {w : WriteHandler} {d : DataOutHandler}
  {ses : Session B ix}
  {files : Disk} {s : System B ix} {lvs : List LogicalVolume} {lun : Nat} {lv : LogicalVolume}
  {c : WriteCache B ix}

section reads

open ReadPlan ReadTiling ReadYourWrites
open ReadFormat (Accepted cacheOf lbaOf lengthOf)

/-- The bytes that a task sends: out of its buffers, or what the files hold where its volume
finds its range. -/
def sent (mem : B → Nat → UInt8) (files : Disk) : Task B → List UInt8
  | .sendfile t =>
    (VolumeMap.locations (t.lv.getLowHandles t.offset t.remain)).map fun c => files (c.1, u64 c.2)
  | .sendCache t => BufferChain.gather mem t.iovec
  | _ => []

theorem reachable_read {ok : Bool} {ses' : Session B ix} {h : ReadHandler} {bhs : Header}
    (hr : Runs.Reachable (init ses files) (step mem w d) (Ok w) s)
    (hrun : h.handle s.ses bhs = some (ok, ses')) :
    Runs.Reachable (init ses files) (step mem w d) (Ok w) { s with ses := ses' } := by
  refine hr.step (show Ok w s (.beside (.ofRead h bhs)) from trivial) ?_
  have hses : (Beside.ofRead h bhs).run s.ses = ses' := by
    show ((h.handle s.ses bhs).map Prod.snd).getD s.ses = ses'
    rw [hrun]
    rfl
  rw [step, hses]

end reads

section flushing

/-- No call of a disk writer fails. -/
def Succeeds : Event B ix → Prop
  | .flush _ f => f.Succeeds
  | _ => True

/-- The invariant of the runs in which no call fails. -/
structure Running (mem : B → Nat → UInt8) (lvs : List LogicalVolume) (files₀ : Disk)
    (s : System B ix) : Prop where
  inv : Inv mem lvs files₀ s
  running : ∀ lun, (s.writer lun).halted = false

variable {f : Flush} {c' : WriteCache B ix} {wr : Writer} {files' : Disk} {s' : System B ix}

theorem Running.flush (hix : ix.Lawful) (hlaid : Laid lvs) (h : Running mem lvs files s)
    (hok : f.Succeeds)
    (hlv : lvs[lun]? = some lv) (hc : s.ses.wcaches[lun]? = some c)
    (hrun : f.run mem (handles lvs lun) c (s.writer lun) s.files = some (c', wr, files')) :
    Running mem lvs files (s.putVolume lun c' wr files') := by
  refine ⟨h.inv.flush hix hlaid hlv hc hrun, fun l => ?_⟩
  obtain ⟨⟨disk, popped, org, hkept⟩, -⟩ := h.inv.volumes lun lv c hlv hc
  have hwriter : (s.putVolume lun c' wr files').writer = Function.update s.writer lun wr := rfl
  rw [hwriter]
  by_cases hl : l = lun
  · subst hl
    rw [Function.update_self]
    exact hkept.not_halted (hlaid.placed hlv).1 hok hrun
  · rw [Function.update_of_ne hl]
    exact h.running l

end flushing

section Sample

open WriteTransfer ReadYourWrites ReadTiling ReadPlan
open ReadFormat (sampleRead cacheOf Accepted)

theorem not_laid_overlap : ¬ Laid [⟨[⟨"/dev/sdb", 0, 8⟩, ⟨"/dev/sdb", 8, 8⟩]⟩] := fun h =>
  absurd (h.apart 0 8 0 4096 ("/dev/sdb", 8) (by decide) (by decide)).2 (by decide)

end Sample

end Sstoraged.BlockDevice
