import Sstoraged.Task

namespace Sstoraged.SendCache

open SendCacheTask

variable {B : Type} (mem : B → Nat → UInt8)

theorem stepBuffers_contents (total ds : Nat) (cbufs : List B) (i off tmp : Nat) (ht : tmp < total) :
    i ≤ (stepBuffers total ds cbufs i off tmp).2.1 ∧
    BufferChain.contents commonBufSize mem
      (cbufs.drop ((stepBuffers total ds cbufs i off tmp).2.1 - i))
      ((stepBuffers total ds cbufs i off tmp).2.2 +
        if (stepBuffers total ds cbufs i off tmp).2.1 = 0 then ds else 0) =
      (BufferChain.contents commonBufSize mem cbufs (off + if i = 0 then ds else 0)).drop tmp := by
  induction cbufs generalizing i off tmp with
  | nil => simp [stepBuffers, BufferChain.contents]
  | cons b cbufs ih =>
    rw [stepBuffers]
    by_cases hz : tmp = 0
    · simp [hz]
    rw [if_neg hz]
    let d := if i = 0 then ds else 0
    have hd : d = if i = 0 then ds else 0 := rfl
    rw [← hd]
    rw [BufferChain.contents, List.drop_append, BufferChain.length_cells, BufferChain.drop_cells]
    by_cases hr : min total (commonBufSize - off - d) ≤ tmp
    · have hm : min total (commonBufSize - off - d) = commonBufSize - (off + d) := by omega
      rw [if_pos hr]
      obtain ⟨hle, hc⟩ := ih (i + 1) 0 (tmp - min total (commonBufSize - off - d)) (by omega)
      simp only [if_neg (Nat.succ_ne_zero i), Nat.add_zero] at hc
      have hk : ∀ k, i + 1 ≤ k → (b :: cbufs).drop (k - i) = cbufs.drop (k - (i + 1)) := by
        intro k hk
        have hs : k - i = k - (i + 1) + 1 := by omega
        rw [hs, List.drop_succ_cons]
      refine ⟨by omega, ?_⟩
      rw [hk _ hle, hc, hm]
      have hz' : commonBufSize - (off + d) - tmp = 0 := by omega
      rw [hz', BufferChain.cells_zero, List.nil_append]
    · rw [if_neg hr]
      have hz' : tmp - (commonBufSize - (off + d)) = 0 := by omega
      have hs : commonBufSize - (off + d) - tmp = commonBufSize - (off + tmp + d) := by omega
      have ho : off + d + tmp = off + tmp + d := by omega
      refine ⟨Nat.le_refl _, ?_⟩
      rw [Nat.sub_self, List.drop_zero, BufferChain.contents, ← hd, hz', List.drop_zero, hs, ho]

theorem gather_new (ws : WriteSegment B) (lba length : Nat) (hlba : ws.lba ≤ lba) (hl : 0 < length) :
    BufferChain.gather mem (SendCacheTask.new ws lba length).iovec =
      ((BufferChain.contents commonBufSize mem ws.cbufs ws.dsOffset).drop
        (512 * (lba - ws.lba))).take (512 * length) := by
  unfold SendCacheTask.new iovec
  by_cases h : ws.lba < lba
  · simp only [if_pos h, BufferChain.gather_pieces, lba2Offset_eq]
    obtain ⟨-, hc⟩ := stepBuffers_contents mem (512 * length + 512 * (lba - ws.lba)) ws.dsOffset
      ws.cbufs 0 0 (512 * (lba - ws.lba)) (by omega)
    simp only [Nat.sub_zero, if_true, Nat.zero_add] at hc
    rw [hc]
  · have he : lba - ws.lba = 0 := by omega
    simp [h, he, BufferChain.gather_pieces]

theorem deliver_new (ws : WriteSegment B) (lba length : Nat) (hlba : ws.lba ≤ lba)
    (htail : lba + length ≤ ws.tail) (hl : 0 < length)
    (hc : 512 * ws.transferLength ≤ BufferChain.capacity commonBufSize ws.cbufs ws.dsOffset)
    (disk : Nat → UInt8) :
    Task.deliver mem disk (.sendCache (SendCacheTask.new ws lba length)) =
      (List.range' (512 * lba) (512 * length)).map (ws.val mem) := by
  rw [Task.deliver, gather_new mem ws lba length hlba hl]
  exact WriteSegment.take_drop_contents mem ws lba length hlba htail hc

theorem totalRemain_new (ws : WriteSegment B) (lba length : Nat) :
    (SendCacheTask.new ws lba length).totalRemain = 512 * length := by
  unfold SendCacheTask.new
  split <;> simp

theorem clba_new (ws : WriteSegment B) (lba length : Nat) :
    (SendCacheTask.new ws lba length).clba = lba := by
  unfold SendCacheTask.new
  split <;> rfl

theorem offered_new (ws : WriteSegment B) (lba length : Nat) (hlba : ws.lba ≤ lba)
    (htail : lba + length ≤ ws.tail) (hl : 0 < length)
    (hc : 512 * ws.transferLength ≤ BufferChain.capacity commonBufSize ws.cbufs ws.dsOffset) :
    (SendCacheTask.new ws lba length).offered = (SendCacheTask.new ws lba length).totalRemain := by
  let mem : B → Nat → UInt8 := fun _ _ => 0
  have hlen := BufferChain.length_contents commonBufSize mem ws.cbufs ws.dsOffset
  unfold WriteSegment.tail at htail
  rw [totalRemain_new, SendCacheTask.offered, ← BufferChain.length_gather mem,
    gather_new mem ws lba length hlba hl, List.length_take, List.length_drop, hlen]
  omega

/-- With a socket that takes everything a task is done exactly if it has
something to send and its buffers hold all of it. -/
theorem run_full {k : Kernel} (hk : ∀ n len, k.writev n len = len) (n : Nat)
    (t : SendCacheTask B) (hle : t.offered = t.totalRemain) :
    (t.run k n).1 = decide (0 < t.totalRemain) := by
  have hz : t.size = 0 → t.totalRemain = 0 := by
    intro hs
    have hn : t.ws.cbufs.drop t.curIndex = [] := List.drop_eq_nil_of_le (by unfold size at hs; omega)
    rw [← hle, offered, iovec, hn]
    rfl
  rw [run, runLoop, hk, hle]
  by_cases hs : t.size = 0
  · simp [hs, hz hs]
  rw [if_neg hs]
  by_cases hp : t.totalRemain = 0
  · simp [hp]
  · have hpos : 0 < t.totalRemain := by omega
    simp [hp, hpos]

end Sstoraged.SendCache
