import Mathlib.Data.List.GetD
import Sstoraged.Overlay
import Sstoraged.WriteSegment

namespace Sstoraged.DiskWriter

variable {B : Type} (mem : B → Nat → UInt8)

def pwrite (start : Nat) (p : B × Nat × Nat) (disk : Nat → UInt8) : Nat → UInt8 :=
  fun a => if start ≤ a ∧ a < start + p.2.2 then mem p.1 (p.2.1 + (a - start)) else disk a

/-- Write the pieces of a scatter list one behind the other. -/
def writeOut : Nat → List (B × Nat × Nat) → (Nat → UInt8) → Nat → UInt8
  | _, [], disk => disk
  | start, p :: ps, disk => writeOut (start + p.2.2) ps (pwrite mem start p disk)

/-- Write out a whole segment, whatever part of it is still live. -/
def writeSegment (ws : WriteSegment B) (disk : Nat → UInt8) : Nat → UInt8 :=
  writeOut mem (lba2Offset ws.lba)
    (BufferChain.pieces commonBufSize ws.cbufs ws.dsOffset (lba2Offset ws.transferLength)) disk

theorem writeOut_apply (start : Nat) (ps : List (B × Nat × Nat)) (disk : Nat → UInt8) (a : Nat) :
    writeOut mem start ps disk a =
      if start ≤ a ∧ a < start + (BufferChain.gather mem ps).length then
        (BufferChain.gather mem ps).getD (a - start) 0
      else disk a := by
  induction ps generalizing start disk with
  | nil => rw [writeOut, if_neg (by simp)]
  | cons p ps ih =>
    rw [writeOut, ih, BufferChain.gather_cons, List.length_append, BufferChain.length_cells]
    by_cases h₁ : start + p.2.2 ≤ a
    · have hs : a - start = p.2.2 + (a - (start + p.2.2)) := by omega
      have hg : (BufferChain.cells mem p.1 p.2.1 p.2.2 ++ BufferChain.gather mem ps).getD (a - start) 0 =
          (BufferChain.gather mem ps).getD (a - (start + p.2.2)) 0 := by
        rw [List.getD_append_right _ _ _ _ (by simp; omega), BufferChain.length_cells, hs]
        congr 1
        omega
      rw [hg]
      simp only [pwrite, h₁, true_and]
      by_cases h₂ : a < start + p.2.2 + (BufferChain.gather mem ps).length
      · rw [if_pos h₂, if_pos (by omega)]
      · rw [if_neg h₂, if_neg (by omega), if_neg (by omega)]
    · rw [if_neg (by omega)]
      by_cases h₂ : start ≤ a
      · have hlt : a - start < (BufferChain.cells mem p.1 p.2.1 p.2.2).length := by
          rw [BufferChain.length_cells]
          omega
        rw [pwrite, if_pos (by omega), if_pos (by omega), List.getD_append _ _ _ _ hlt,
          List.getD_eq_getElem _ _ hlt]
        simp [BufferChain.cells]
      · rw [pwrite, if_neg (by omega), if_neg (by omega)]

theorem writeSegment_eq_store (ws : WriteSegment B) (disk : Nat → UInt8)
    (h : lba2Offset ws.transferLength ≤ BufferChain.capacity commonBufSize ws.cbufs ws.dsOffset) :
    writeSegment mem ws disk = Overlay.store WriteSegment.covers (WriteSegment.val mem) ws disk := by
  funext a
  rw [lba2Offset_eq] at h
  have hlen : ((BufferChain.contents commonBufSize mem ws.cbufs ws.dsOffset).take
      (512 * ws.transferLength)).length = 512 * ws.transferLength := by
    rw [List.length_take, BufferChain.length_contents]
    omega
  rw [writeSegment, writeOut_apply, BufferChain.gather_pieces, lba2Offset_eq, lba2Offset_eq, hlen,
    Overlay.store]
  have hc := WriteSegment.covers_iff ws a
  unfold WriteSegment.tail at hc
  by_cases hin : 512 * ws.lba ≤ a ∧ a < 512 * ws.lba + 512 * ws.transferLength
  · rw [if_pos hin, if_pos (hc.mpr (by omega)), WriteSegment.val]
    simp only [List.getD_eq_getElem?_getD, List.getElem?_take]
    rw [if_pos (by omega)]
  · rw [if_neg hin, if_neg (fun h' => by have := hc.mp h'; omega)]

end Sstoraged.DiskWriter
