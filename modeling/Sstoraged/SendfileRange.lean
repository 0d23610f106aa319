import Sstoraged.Task
import Sstoraged.Transfer
import Sstoraged.VolumeMap

namespace Sstoraged

namespace SendfileTask

/-- A call of `sendfile`: the handle, the task in front of it, and its answer. -/
structure Sendfile where
  handle : LowHandle
  task : SendfileTask
  size : Int

/-- The calls of `sendfile` for some handles. -/
def sendfiles (k : Kernel) : List LowHandle → Nat → SendfileTask → List Sendfile
  | [], _, _ => []
  | h :: lhs, n, t =>
    let size := k.sendfile n h.length
    ⟨h, t, size⟩ ::
      (if size < 0 then []
      else
        let t := { t with offset := t.offset + size.toNat, remain := u64 (t.remain - size) }
        if h.length ≠ size.toNat then [] else sendfiles k lhs (n + 1) t)

/-- The task is run until it is done, at most `m` times; with the calls of `sendfile`. -/
def runs (k : Kernel) : Nat → Nat → SendfileTask → Bool × List Sendfile
  | 0, _, _ => (false, [])
  | m + 1, n, t =>
    let calls := if 0 < t.remain then sendfiles k (t.lv.getLowHandles t.offset t.remain) n t else []
    match t.run k n with
    | (true, _, _) => (true, calls)
    | (false, t, n) =>
      let (done, calls') := runs k m n t
      (done, calls ++ calls')

end SendfileTask

open Transfer VolumeMap

namespace SendfileTask

/-- Where the bytes are that a task still has to send. -/
def left (t : SendfileTask) : List (String × Int) :=
  if t.remain = 0 then [] else locations (t.lv.getLowHandles t.offset t.remain)

def Sendfile.attempt (c : Sendfile) : Attempt (String × Int) := ⟨c.task.left, c.size⟩

/-- What the call sends of its handle. -/
def Sendfile.sent (c : Sendfile) : List (String × Int) := (LowHandle.cells c.handle).take c.size.toNat

/-- The task is inside its volume, or has nothing left. -/
def Inside (t : SendfileTask) : Prop := 0 < t.remain → InRange t.lv.volumes t.offset t.remain

/-- The task behind the bytes that were sent. -/
def advance (t : SendfileTask) (size : Int) : SendfileTask :=
  { t with offset := t.offset + size.toNat, remain := u64 (t.remain - size) }

end SendfileTask

namespace SendfileRange

open SendfileTask

/-- The kernel takes at most what it is offered. -/
def Partial (k : Kernel) : Prop := ∀ n offered, k.sendfile n offered ≤ (offered : Nat)

variable {k : Kernel} {volumes : List PhysicalVolume} {offset length : Nat} {t : SendfileTask}

theorem length_getLowHandles (h : InRange volumes offset length) :
    (locations (getLowHandles volumes offset length)).length = length := by
  have hlength := congrArg List.length (getLowHandles_spec h).2
  simpa only [List.length_map, List.length_range'] using hlength

theorem locations_drop (h : InRange volumes offset length) {m : Nat} (hm : m < length) :
    (locations (getLowHandles volumes offset length)).drop m =
      locations (getLowHandles volumes (offset + m : Nat) (length - m)) := by
  have hrest : InRange volumes (offset + m) (length - m) :=
    ⟨Nat.sub_pos_of_lt hm, by have := h.inside; omega, h.fits⟩
  apply List.map_injective_iff.mpr fun _ _ => Option.some.inj
  rw [List.map_drop, (getLowHandles_spec h).2, (getLowHandles_spec hrest).2, ← List.map_drop,
    ← List.map_drop,
    List.drop_range', Nat.mul_one]

theorem length_left (h : Inside t) : (left t).length = t.remain := by
  unfold left
  split
  · next hzero => exact hzero.symm
  · next hne => exact length_getLowHandles (h (Nat.pos_of_ne_zero hne))

theorem remain_advance {size : Nat} (h : size ≤ t.remain) (hfits : t.remain < 2 ^ 64) :
    (advance t size).remain = t.remain - size := u64_sub h (by omega)

theorem advance_spec (h : InRange t.lv.volumes t.offset t.remain) {size : Nat} (hle : size ≤ t.remain) :
    Inside (advance t size) ∧ left (advance t size) = (left t).drop size := by
  have hinside := h.inside
  have hfits := h.fits
  have hremain : (advance t size).remain = t.remain - size := remain_advance hle (by omega)
  have hleft : left t = locations (t.lv.getLowHandles t.offset t.remain) :=
    if_neg (Nat.pos_iff_ne_zero.mp h.positive)
  unfold Inside left
  rw [hremain]
  by_cases hlt : size < t.remain
  · refine ⟨fun hpos => ⟨hpos, ?_, hfits⟩, ?_⟩
    · show t.offset + size + (t.remain - size) ≤ VolumeMap.size t.lv.volumes
      omega
    · rw [if_neg (Nat.sub_ne_zero_of_lt hlt), if_neg (Nat.pos_iff_ne_zero.mp h.positive)]
      exact (locations_drop h hlt).symm
  · have hzero : t.remain - size = 0 := by omega
    refine ⟨fun hpos => absurd hzero (Nat.pos_iff_ne_zero.mp hpos), ?_⟩
    rw [if_pos hzero, if_neg (Nat.pos_iff_ne_zero.mp h.positive)]
    refine (List.drop_eq_nil_of_le ?_).symm
    have hlength := length_getLowHandles h
    unfold LogicalVolume.getLowHandles
    omega

/-- What one run sends, and what it leaves: it is done just if nothing is left. -/
structure Ran (t : SendfileTask) (calls : List Sendfile) (r : Bool × SendfileTask × Nat)
    (rest : List (String × Int)) : Prop where
  resumes : Resumes (left t) (calls.map Sendfile.attempt) rest
  sent : ∀ c ∈ calls, c.sent = c.attempt.taken
  done : r.1 = true → rest = []
  again : r.1 = false → rest ≠ [] ∧ Inside r.2.1 ∧ left r.2.1 = rest

theorem runHandles_ran (hk : Partial k) (lhs : List LowHandle) :
    ∀ {n : Nat} {t : SendfileTask}, Inside t →
    (∀ lh ∈ lhs, 0 < lh.length) → left t = locations lhs →
      ∃ rest, Ran t (sendfiles k lhs n t) (runHandles k lhs n t) rest := by
  induction lhs with
  | nil =>
    exact fun _ _ hleft => ⟨_, .nil _, fun _ h => absurd h List.not_mem_nil, fun _ => hleft, nofun⟩
  | cons lh lhs ih =>
    intro n t hin hpositive hleft
    have hlh := hpositive lh List.mem_cons_self
    have hlength := length_left hin
    have hcons : left t = LowHandle.cells lh ++ locations lhs := hleft
    have hsum : t.remain = lh.length + (locations lhs).length := by
      rw [← hlength, hcons, List.length_append, length_cells]
    have hrange : InRange t.lv.volumes t.offset t.remain := hin (by omega)
    have hle := hk n lh.length
    have hfirst := resumes_single (left t) (k.sendfile n lh.length)
    have hsent : (⟨lh, t, k.sendfile n lh.length⟩ : Sendfile).sent =
        (⟨left t, k.sendfile n lh.length⟩ : Attempt (String × Int)).taken := by
      unfold Sendfile.sent Attempt.taken
      dsimp only
      rw [hcons, List.take_append_of_le_length]
      rw [length_cells]
      omega
    rw [sendfiles, runHandles]
    dsimp only
    by_cases herror : k.sendfile n lh.length < 0
    · rw [if_pos herror, if_pos herror]
      rw [Int.toNat_eq_zero.mpr (Int.le_of_lt herror), List.drop_zero] at hfirst
      refine ⟨_, hfirst, fun c hc => List.mem_singleton.mp hc ▸ hsent, nofun, fun _ => ⟨?_, hin, rfl⟩⟩
      exact List.length_pos_iff.mp (hlength ▸ hrange.positive)
    obtain ⟨size, hsize⟩ := Int.eq_ofNat_of_zero_le (Int.not_lt.mp herror)
    rw [if_neg herror, if_neg herror]
    rw [hsize] at hle hfirst hsent ⊢
    rw [Int.toNat_natCast] at hfirst ⊢
    have hle' : size ≤ t.remain := by omega
    obtain ⟨hinside, hrest⟩ := advance_spec hrange hle'
    by_cases hpartial : lh.length ≠ size
    · rw [if_pos hpartial, if_pos hpartial]
      refine ⟨_, hfirst, fun c hc => List.mem_singleton.mp hc ▸ hsent, nofun,
        fun _ => ⟨?_, hinside, hrest⟩⟩
      exact List.length_pos_iff.mp (by rw [List.length_drop]; omega)
    · rw [if_neg hpartial, if_neg hpartial]
      have hnext : left (advance t size) = locations lhs := by
        rw [hrest, hcons, ← length_cells lh |>.trans (not_not.mp hpartial), List.drop_left]
      obtain ⟨rest, hran⟩ := ih (n := n + 1) hinside
        (fun lh' h => hpositive lh' (List.mem_cons_of_mem _ h)) hnext
      refine ⟨rest, .cons (hrest ▸ hran.resumes), fun c hc => ?_, hran.done, hran.again⟩
      obtain rfl | hc := List.mem_cons.mp hc
      · exact hsent
      · exact hran.sent c hc

theorem run_ran (hk : Partial k) {n : Nat} (hin : InRange t.lv.volumes t.offset t.remain) :
    ∃ rest, Ran t (sendfiles k (t.lv.getLowHandles t.offset t.remain) n t) (t.run k n) rest := by
  rw [SendfileTask.run, if_pos hin.positive]
  exact runHandles_ran hk _ (fun _ => hin) (getLowHandles_spec hin).1
    (if_neg (Nat.pos_iff_ne_zero.mp hin.positive))

theorem runs_resumes (hk : Partial k) (m : Nat) : ∀ {n : Nat} {t : SendfileTask},
    InRange t.lv.volumes t.offset t.remain → ∃ rest,
      Resumes (left t) ((runs k m n t).2.map Sendfile.attempt) rest ∧
        (∀ c ∈ (runs k m n t).2, c.sent = c.attempt.taken) ∧ ((runs k m n t).1 = true ↔ rest = []) := by
  induction m with
  | zero =>
    intro n t hin
    have hleft : left t ≠ [] := List.length_pos_iff.mp (length_left (fun _ => hin) ▸ hin.positive)
    exact ⟨_, .nil _, fun _ h => absurd h List.not_mem_nil, ⟨nofun, fun h => absurd h hleft⟩⟩
  | succ m ih =>
    intro n t hin
    obtain ⟨rest, hran⟩ := run_ran hk (n := n) hin
    rw [runs]
    dsimp only
    rw [if_pos hin.positive]
    split
    · next hrun =>
      rw [hrun] at hran
      exact ⟨rest, hran.resumes, hran.sent, iff_of_true rfl (hran.done rfl)⟩
    · next t' n' hrun =>
      rw [hrun] at hran
      obtain ⟨hne, hinside, hrest⟩ := hran.again rfl
      have hpos : 0 < t'.remain := by
        rw [← length_left hinside, hrest]
        exact List.length_pos_iff.mpr hne
      obtain ⟨rest', hresumes, hsent, hdone⟩ := ih (n := n') (hinside hpos)
      refine ⟨rest', ?_, fun c hc => ?_, hdone⟩
      · rw [List.map_append]
        exact hran.resumes.append (hrest ▸ hresumes)
      · exact (List.mem_append.mp hc).elim (hran.sent c) (hsent c)

/-- The runs of a task send the bytes of its range in order, each once. -/
structure SendsRange (lv : LogicalVolume) (lba length : Nat) (r : Bool × List Sendfile) : Prop where
  inOrder : r.2.flatMap Sendfile.sent <+: locations
    (lv.getLowHandles (lba2Offset lba) (lba2Offset length))
  done : r.1 = true ↔
    r.2.flatMap Sendfile.sent = locations (lv.getLowHandles (lba2Offset lba) (lba2Offset length))

theorem inRange_new (lv : LogicalVolume) {lba len : Nat} (hpos : 0 < len)
    (hrange : lba + len ≤ lv.getTotalSize)
    (hfits : lba2Offset lv.getTotalSize < 2 ^ 64) :
    InRange lv.volumes (lba2Offset lba) (lba2Offset len) := by
  rw [← size_eq_getTotalSize] at hfits
  refine ⟨?_, ?_, hfits⟩
  · rw [lba2Offset_eq]
    omega
  · rw [size_eq_getTotalSize]
    simp only [lba2Offset_eq]
    omega

/-- A range inside the volume is sent in order and once, however its calls are answered,
and the task is done just when all of it was sent. -/
theorem range_sent_once (k : Kernel) (hk : Partial k) (lv : LogicalVolume) (lba len m n : Nat)
    (hpos : 0 < len)
    (hrange : lba + len ≤ lv.getTotalSize) (hfits : lba2Offset lv.getTotalSize < 2 ^ 64) :
    SendsRange lv lba len (runs k m n (SendfileTask.new lv lba len)) := by
  have hin := inRange_new lv hpos hrange hfits
  obtain ⟨rest, hresumes, hsent, hdone⟩ :=
    runs_resumes hk m (n := n) (t := SendfileTask.new lv lba len) hin
  have hleft : left (SendfileTask.new lv lba len) =
    locations (lv.getLowHandles (lba2Offset lba) (lba2Offset len)) :=
    if_neg (Nat.pos_iff_ne_zero.mp hin.positive)
  have hdelivered : (runs k m n (SendfileTask.new lv lba len)).2.flatMap Sendfile.sent =
      delivered ((runs k m n (SendfileTask.new lv lba len)).2.map Sendfile.attempt) := by
    rw [delivered, List.flatMap_map]
    exact List.flatMap_congr hsent
  rw [hleft] at hresumes
  refine ⟨?_, ?_⟩
  · rw [hdelivered]
    exact hresumes.delivered_initial
  · rw [hdelivered]
    exact hdone.trans hresumes.delivered_eq_iff.symm

/-- Takes 700 bytes, then none, then all that it is offered. -/
def sampleSendfile : Kernel :=
  ⟨fun _ _ => 0, fun n offered => if n = 0 then min 700 offered else if n = 1 then -1 else offered⟩

/-- Four blocks over two files, in three runs. -/
theorem range_sent_two_files :
    (runs sampleSendfile 3 0 (SendfileTask.new ⟨[⟨"/dev/sdb", 0, 8⟩, ⟨"/dev/sdc", 0, 8⟩]⟩ 6 4)).1 =
      true ∧
      SendsRange ⟨[⟨"/dev/sdb", 0, 8⟩, ⟨"/dev/sdc", 0, 8⟩]⟩ 6 4
        (runs sampleSendfile 3 0 (SendfileTask.new ⟨[⟨"/dev/sdb", 0, 8⟩, ⟨"/dev/sdc", 0, 8⟩]⟩ 6 4)) := by
  have hk : Partial sampleSendfile := by
    intro n offered
    unfold sampleSendfile
    dsimp only
    split
    · omega
    · split <;> omega
  refine ⟨by decide, range_sent_once _ hk ⟨[⟨"/dev/sdb", 0, 8⟩, ⟨"/dev/sdc", 0, 8⟩]⟩ 6 4 3 0 ?_ ?_ ?_⟩
  · decide
  · decide
  · decide

end SendfileRange

end Sstoraged
