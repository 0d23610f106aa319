import Sstoraged.IndexOrder
import Sstoraged.SendCache

namespace Sstoraged.CacheDelivery

open SendCacheTask WriteCache

variable {B : Type} (mem : B → Nat → UInt8) (k : Kernel)

/-- The bytes that the socket takes in one run, call by call. -/
def sentLoop : Nat → Nat → SendCacheTask B → List UInt8
  | 0, _, _ => []
  | fuel + 1, n, t =>
    if t.size = 0 then []
    else
      let size := k.writev n t.offered
      if size ≤ 0 then []
      else
        (BufferChain.gather mem t.iovec).take size.toNat ++
          if size = t.totalRemain then []
          else
            match t.stepForward size.toNat with
            | none => []
            | some t => sentLoop fuel (n + 1) t

def sent (n : Nat) (t : SendCacheTask B) : List UInt8 := sentLoop mem k (t.totalRemain + 1) n t

/-- Up to `m` runs of a task, until one of them says that it is done: whether
one did, and the bytes sent. -/
def runs : Nat → Nat → SendCacheTask B → Bool × List UInt8
  | 0, _, _ => (false, [])
  | m + 1, n, t =>
    match t.run k n with
    | (true, _, _) => (true, sent mem k n t)
    | (false, t', n') => ((runs m n' t').1, sent mem k n t ++ (runs m n' t').2)

/-- What the task has still to send. -/
structure Pending (t : SendCacheTask B) (data : List UInt8) : Prop where
  gather : BufferChain.gather mem t.iovec = data
  length : data.length = t.totalRemain
  positive : 0 < t.totalRemain

variable {mem k}

theorem Pending.offered {t : SendCacheTask B} {data : List UInt8} (h : Pending mem t data) :
    t.offered = t.totalRemain := by
  rw [SendCacheTask.offered, ← BufferChain.length_gather mem, h.gather, h.length]

theorem Pending.size_ne {t : SendCacheTask B} {data : List UInt8} (h : Pending mem t data) :
    t.size ≠ 0 := by
  intro hs
  have hn : t.ws.cbufs.drop t.curIndex = [] := List.drop_eq_nil_of_le (by unfold size at hs; omega)
  have hg := h.gather
  rw [iovec, hn] at hg
  have hl := h.length
  rw [← hg] at hl
  exact absurd hl.symm h.positive.ne'

theorem stepBuffers_inside (total ds : Nat) (cbufs : List B) (i off tmp : Nat) (ht : tmp < total)
    (hc : tmp ≤ BufferChain.capacity commonBufSize cbufs (off + if i = 0 then ds else 0)) :
    (stepBuffers total ds cbufs i off tmp).1 = true := by
  induction cbufs generalizing i off tmp with
  | nil =>
    have hz : tmp = 0 := Nat.le_zero.mp hc
    simp [stepBuffers, hz]
  | cons b cbufs ih =>
    rw [stepBuffers]
    by_cases hz : tmp = 0
    · rw [if_pos hz]
    rw [BufferChain.capacity] at hc
    rw [if_neg hz]
    generalize (if i = 0 then ds else 0) = d at hc ⊢
    by_cases hr : min total (commonBufSize - off - d) ≤ tmp
    · rw [if_pos hr]
      refine ih (i + 1) 0 _ (by omega) ?_
      rw [if_neg (Nat.succ_ne_zero i), Nat.add_zero]
      omega
    · rw [if_neg hr]

theorem Pending.stepForward {t : SendCacheTask B} {data : List UInt8} (h : Pending mem t data)
    {n : Nat} (hn : n < t.totalRemain) :
    ∃ t', t.stepForward n = some t' ∧ t'.totalRemain = t.totalRemain - n ∧
      Pending mem t' (data.drop n) := by
  have hg := h.gather
  rw [iovec, BufferChain.gather_pieces] at hg
  have hcap : t.totalRemain ≤ BufferChain.capacity commonBufSize (t.ws.cbufs.drop t.curIndex)
      (t.offset + if t.curIndex = 0 then t.ws.dsOffset else 0) := by
    have hl := h.length
    rw [← hg, List.length_take, BufferChain.length_contents] at hl
    omega
  have htrue := stepBuffers_inside t.totalRemain t.ws.dsOffset (t.ws.cbufs.drop t.curIndex) t.curIndex
    t.offset n hn (by omega)
  obtain ⟨hle, hcon⟩ := SendCache.stepBuffers_contents mem t.totalRemain t.ws.dsOffset
    (t.ws.cbufs.drop t.curIndex) t.curIndex t.offset n hn
  cases hs : stepBuffers t.totalRemain t.ws.dsOffset
    (t.ws.cbufs.drop t.curIndex) t.curIndex t.offset n with
  | mk done p =>
  obtain ⟨curIndex, offset⟩ := p
  rw [hs] at htrue hle hcon
  dsimp only at htrue hle hcon
  subst htrue
  refine ⟨{ t with curIndex, offset, totalRemain := t.totalRemain - n }, ?_, rfl, ?_, ?_, ?_⟩
  · rw [SendCacheTask.stepForward, if_neg, hs]
    exact not_or.mpr ⟨h.size_ne, by omega⟩
  · rw [List.drop_drop, Nat.add_sub_cancel' hle] at hcon
    rw [iovec, BufferChain.gather_pieces, ← hg]
    dsimp only
    rw [hcon, ← List.drop_take]
  · rw [List.length_drop, h.length]
  · show 0 < t.totalRemain - n
    omega

/-- One run sends the front of the rest: all of it when it is done, and else
less, which leaves the task with what is behind. -/
theorem runLoop_pending (hk : ∀ n len, k.writev n len ≤ len) (fuel n : Nat) {t : SendCacheTask B}
    {data : List UInt8} (h : Pending mem t data) (hf : t.totalRemain < fuel) :
    ((runLoop k fuel n t).1 = true ∧ sentLoop mem k fuel n t = data) ∨
      ((runLoop k fuel n t).1 = false ∧ ∃ j < data.length, sentLoop mem k fuel n t = data.take j ∧
        Pending mem (runLoop k fuel n t).2.1 (data.drop j)) := by
  induction fuel generalizing n t data with
  | zero => omega
  | succ fuel ih =>
    have hpos := h.positive
    have hlen := h.length
    rw [runLoop, sentLoop, if_neg h.size_ne, if_neg h.size_ne, h.offered, h.gather]
    have hle := hk n t.totalRemain
    dsimp only
    by_cases hz : k.writev n t.totalRemain ≤ 0
    · rw [if_pos hz, if_pos hz]
      exact .inr ⟨rfl, 0, by omega, by simp, by simpa using h⟩
    rw [if_neg hz, if_neg hz]
    by_cases he : k.writev n t.totalRemain = t.totalRemain
    · rw [if_pos he, if_pos he, he, List.append_nil]
      exact .inl ⟨rfl, List.take_of_length_le (by omega)⟩
    rw [if_neg he, if_neg he]
    obtain ⟨t', hs, hr, hp⟩ := h.stepForward (n := (k.writev n t.totalRemain).toNat) (by omega)
    rw [hs]
    dsimp only
    generalize hj : (k.writev n t.totalRemain).toNat = j at *
    rcases ih (n + 1) hp (by omega) with ⟨hd, hb⟩ | ⟨hd, i, hi, hb, hp'⟩
    · exact .inl ⟨hd, by rw [hb, List.take_append_drop]⟩
    · rw [List.length_drop] at hi
      rw [List.drop_drop] at hp'
      refine .inr ⟨hd, j + i, by omega, ?_, hp'⟩
      rw [hb, ← List.take_add]

/-- However the socket takes the bytes, the runs send the data in order and
once, and a run is done exactly when nothing is left. -/
theorem runs_pending (hk : ∀ n len, k.writev n len ≤ len) (m n : Nat) {t : SendCacheTask B}
    {data : List UInt8} (h : Pending mem t data) :
    (runs mem k m n t).2 <+: data ∧
      ((runs mem k m n t).1 = true ↔ (runs mem k m n t).2.length = data.length) := by
  induction m generalizing n t data with
  | zero =>
    have hpos := h.positive
    have hlen := h.length
    refine ⟨List.nil_prefix, ?_⟩
    simp only [runs, List.length_nil, Bool.false_eq_true, false_iff]
    omega
  | succ m ih =>
    have hrun := runLoop_pending hk (t.totalRemain + 1) n h (Nat.lt_succ_self _)
    rw [runs]
    change (t.run k n).1 = true ∧ sent mem k n t = data ∨ (t.run k n).1 = false ∧
      ∃ j < data.length, sent mem k n t = data.take j ∧ Pending mem (t.run k n).2.1 (data.drop j) at hrun
    cases hr : t.run k n with
    | mk done p =>
    obtain ⟨t', n'⟩ := p
    rw [hr] at hrun
    rcases hrun with ⟨rfl, hb⟩ | ⟨rfl, j, hj, hb, hp⟩
    · simp [hb]
    · obtain ⟨hpre, hdone⟩ := ih n' hp
      dsimp only
      rw [hb]
      refine ⟨?_, hdone.trans ?_⟩
      · conv_rhs => rw [← List.take_append_drop j data]
        exact List.prefix_append_right_inj _ |>.mpr hpre
      · simp only [List.length_append, List.length_take, List.length_drop]
        omega

/-- A socket that takes everything. -/
def greedy : Kernel := ⟨fun _ len => len, fun _ _ => 0⟩

theorem greedy_le (n len : Nat) : greedy.writev n len ≤ len := Int.le_refl _

theorem runs_greedy {t : SendCacheTask B} {data : List UInt8} (h : Pending mem t data) :
    runs mem greedy 1 0 t = (true, data) := by
  have hrun := SendCache.run_full (k := greedy) (fun _ _ => rfl) 0 t h.offered
  rw [decide_eq_true h.positive] at hrun
  obtain ⟨hpre, hdone⟩ := runs_pending greedy_le 1 0 h
  have htrue : (runs mem greedy 1 0 t).1 = true := by
    rw [runs]
    cases hr : t.run greedy 0 with
    | mk done p =>
    rw [hr] at hrun
    rw [show done = true from hrun]
  exact Prod.ext htrue (hpre.eq_of_length (hdone.mp htrue))

/-- The bytes of a run of blocks of the segment. -/
def dataOf (mem : B → Nat → UInt8) (ws : WriteSegment B) (lba length : Nat) : List UInt8 :=
  ((BufferChain.contents commonBufSize mem ws.cbufs ws.dsOffset).drop
    (512 * (lba - ws.lba))).take (512 * length)

theorem getElem?_dataOf (mem : B → Nat → UInt8) {ws : WriteSegment B} {lba length i : Nat}
    (hd : ws.dsOffset ≤ commonBufSize) :
    (dataOf mem ws lba length)[i]? = if i < 512 * length then
      (ws.cbufs[(ws.dsOffset + (512 * (lba - ws.lba) + i)) / commonBufSize]?).map fun b =>
        mem b ((ws.dsOffset + (512 * (lba - ws.lba) + i)) % commonBufSize) else none := by
  rw [dataOf, List.getElem?_take, List.getElem?_drop,
    BufferChain.getElem?_contents _ _ (by decide) _ _ _ hd]

theorem pending_new (mem : B → Nat → UInt8) {e : WriteSegment B} {lba length : Nat} (hl : 0 < length)
    (hlba : e.lba ≤ lba) (htail : lba + length ≤ e.tail)
    (hc : 512 * e.transferLength ≤ BufferChain.capacity commonBufSize e.cbufs e.dsOffset) :
    Pending mem (SendCacheTask.new e lba length) (dataOf mem e lba length) := by
  refine ⟨SendCache.gather_new mem e lba length hlba hl, ?_, ?_⟩
  · unfold WriteSegment.tail at htail
    rw [dataOf, List.length_take, List.length_drop, BufferChain.length_contents,
      SendCache.totalRemain_new]
    omega
  · rw [SendCache.totalRemain_new]
    omega

/-- The segments that pushes make of `w`: cut back in place, or split off as a
copy behind the newer segment `v`. -/
inductive Made (w : WriteSegment B) : WriteSegment B → Prop
  | original : Made w w
  | cut {e} (rlba rlength : Nat) : Made w e → e.rlba ≤ rlba → rlba + rlength ≤ e.rtail →
      Made w { e with rlba, rlength }
  | split {e} (v : WriteSegment B) : Made w e → e.rlba < v.lba → v.tail < e.rtail →
      Made w { e.copyOf with rlba := e.lba + v.tail - e.rlba, rlength := e.rtail - v.tail }

/-- However the socket takes the bytes, the runs of the task send the bytes of
`w` in order and once, and a run is done exactly when all of them are sent. -/
def Sends (w e : WriteSegment B) (lba length : Nat) : Prop :=
  ∀ (mem : B → Nat → UInt8) (k : Kernel), (∀ n len, k.writev n len ≤ len) → ∀ m,
    (runs mem k m 0 (SendCacheTask.new e lba length)).2 <+: dataOf mem w lba length ∧
      ((runs mem k m 0 (SendCacheTask.new e lba length)).1 = true ↔
        (runs mem k m 0 (SendCacheTask.new e lba length)).2.length = 512 * length)

/-- The segment reads its blocks where they were stored: it is no copy, or the
data began at offset 0, or behind the first buffer, with each buffer that the
blocks lie in followed by itself. -/
def Unmoved (w e : WriteSegment B) (lba length : Nat) : Prop :=
  e.copy = false ∨ w.dsOffset = 0 ∨
    (w.dsOffset = commonBufSize ∧ ∀ x, 512 * (lba - w.lba) ≤ x → x < 512 * (lba - w.lba) + 512 * length →
      w.cbufs[x / commonBufSize]? = w.cbufs[x / commonBufSize + 1]?)

/-- What every segment made of `w` has kept of it. -/
structure Kept (w e : WriteSegment B) : Prop where
  lba : e.lba = w.lba
  transferLength : e.transferLength = w.transferLength
  cbufs : e.cbufs = w.cbufs
  dsOffset : e.dsOffset = if e.copy then 0 else w.dsOffset
  head : w.lba ≤ e.rlba
  tail : e.rtail ≤ w.tail

theorem kept_of_made {w e : WriteSegment B} (hw : w.Filled) (h : Made w e) : Kept w e := by
  induction h with
  | original =>
    refine ⟨rfl, rfl, rfl, by simp [hw.original], hw.whole.1.ge, ?_⟩
    unfold WriteSegment.rtail WriteSegment.tail
    rw [hw.whole.1, hw.whole.2]
  | cut rlba rlength _ hhead htail ih =>
    exact ⟨ih.lba, ih.transferLength, ih.cbufs, ih.dsOffset, ih.head.trans hhead, htail.trans ih.tail⟩
  | @split e v _ hhead htail ih =>
    have hl := ih.lba
    have hh := ih.head
    have ht := ih.tail
    have hv : v.tail = v.lba + v.transferLength := rfl
    refine ⟨ih.lba, ih.transferLength, ih.cbufs, rfl, ?_, ?_⟩
    · show w.lba ≤ e.lba + v.tail - e.rlba
      omega
    · show e.lba + v.tail - e.rlba + (e.rtail - v.tail) ≤ w.tail
      omega

theorem capacity_zero_le (bs : List B) (off : Nat) :
    BufferChain.capacity commonBufSize bs off ≤ BufferChain.capacity commonBufSize bs 0 := by
  cases bs with
  | nil => exact le_rfl
  | cons b bs =>
    simp only [BufferChain.capacity]
    omega

theorem forall_map_eq_iff {o o' : Option B} {i j : Nat} (ho : o.isSome) :
    (∀ mem : B → Nat → UInt8, o.map (mem · i) = o'.map (mem · j)) ↔ o = o' ∧ i = j := by
  classical
  constructor
  · intro h
    obtain ⟨b, rfl⟩ := Option.isSome_iff_exists.mp ho
    have hb := h fun c n => if c = b ∧ n = i then 1 else 0
    simp only [Option.map_some, and_self, if_true] at hb
    obtain ⟨b', rfl, hb'⟩ := Option.map_eq_some_iff.mp hb.symm
    by_cases hc : b' = b ∧ j = i
    · exact ⟨by rw [hc.1], hc.2.symm⟩
    · rw [if_neg hc] at hb'
      cases hb'
  · rintro ⟨rfl, rfl⟩ mem
    rfl

/-- The bytes of two offsets into one chain of buffers agree in every memory
exactly if they are the same cells. -/
theorem dataOf_eq_iff {w e : WriteSegment B} {lba length : Nat} (hlba : e.lba = w.lba)
    (hbufs : e.cbufs = w.cbufs) (hw : w.dsOffset ≤ commonBufSize) (he : e.dsOffset ≤ commonBufSize)
    (hsome : ∀ x < 512 * (lba - w.lba) + 512 * length,
      (w.cbufs[(e.dsOffset + x) / commonBufSize]?).isSome) :
    (∀ mem, dataOf mem e lba length = dataOf mem w lba length) ↔
      ∀ x, 512 * (lba - w.lba) ≤ x → x < 512 * (lba - w.lba) + 512 * length →
        w.cbufs[(e.dsOffset + x) / commonBufSize]? = w.cbufs[(w.dsOffset + x) / commonBufSize]? ∧
          (e.dsOffset + x) % commonBufSize = (w.dsOffset + x) % commonBufSize := by
  constructor
  · intro h x h₁ h₂
    refine (forall_map_eq_iff (hsome x h₂)).mp fun mem => ?_
    have hx : 512 * (lba - w.lba) + (x - 512 * (lba - w.lba)) = x := by omega
    have hi := congrArg (·[x - 512 * (lba - w.lba)]?) (h mem)
    rw [getElem?_dataOf mem he, getElem?_dataOf mem hw, if_pos (by omega),
      if_pos (by omega), hlba, hbufs,
      hx] at hi
    exact hi
  · intro h mem
    apply List.ext_getElem?
    intro i
    rw [getElem?_dataOf mem he, getElem?_dataOf mem hw, hlba, hbufs]
    split
    · obtain ⟨h₁, h₂⟩ := h (512 * (lba - w.lba) + i) (by omega) (by omega)
      rw [h₁, h₂]
    · rfl

theorem enough_of_kept {w e : WriteSegment B} (hw : w.Filled) (h : Kept w e) :
    512 * e.transferLength ≤ BufferChain.capacity commonBufSize e.cbufs e.dsOffset := by
  have henough := hw.enough
  rw [lba2Offset_eq] at henough
  rw [h.transferLength, h.cbufs, h.dsOffset]
  split
  · exact henough.trans (capacity_zero_le _ _)
  · exact henough

theorem isSome_cell {ws : WriteSegment B} (hd : ws.dsOffset ≤ commonBufSize)
    (hc : 512 * ws.transferLength ≤ BufferChain.capacity commonBufSize ws.cbufs ws.dsOffset) {x : Nat}
    (hx : x < 512 * ws.transferLength) : (ws.cbufs[(ws.dsOffset + x) / commonBufSize]?).isSome := by
  let mem : B → Nat → UInt8 := fun _ _ => 0
  have hlen := BufferChain.length_contents commonBufSize mem ws.cbufs ws.dsOffset
  have hg := BufferChain.getElem?_contents commonBufSize mem (by decide) ws.cbufs ws.dsOffset x hd
  rw [List.getElem?_eq_getElem (by omega)] at hg
  have hs := congrArg Option.isSome hg.symm
  rwa [Option.isSome_map] at hs

/-- A shift of the cells shows unless it is none, or a whole buffer at a time
over buffers that repeat. -/
theorem shift_iff {w : WriteSegment B} (hw : w.dsOffset ≤ commonBufSize) {a n : Nat} (hn : 0 < n) :
    (∀ x, a ≤ x → x < a + n →
      w.cbufs[(0 + x) / commonBufSize]? = w.cbufs[(w.dsOffset + x) / commonBufSize]? ∧
        (0 + x) % commonBufSize = (w.dsOffset + x) % commonBufSize) ↔
    w.dsOffset = 0 ∨ (w.dsOffset = commonBufSize ∧ ∀ x, a ≤ x → x < a + n →
      w.cbufs[x / commonBufSize]? = w.cbufs[x / commonBufSize + 1]?) := by
  have hcap : commonBufSize = 131072 := rfl
  constructor
  · intro h
    have hmod := (h a le_rfl (by omega)).2
    rcases Nat.eq_zero_or_pos w.dsOffset with hz | hpos
    · exact .inl hz
    have hd : w.dsOffset = commonBufSize := by
      rw [hcap] at hmod hw ⊢
      omega
    refine .inr ⟨hd, fun x h₁ h₂ => ?_⟩
    have hx := (h x h₁ h₂).1
    rwa [hd, Nat.zero_add, Nat.add_div_left _ (by decide)] at hx
  · rintro (hz | ⟨hd, h⟩) x h₁ h₂
    · rw [hz]
      exact ⟨rfl, rfl⟩
    · rw [hd, Nat.zero_add, Nat.add_div_left _ (by decide), Nat.add_mod_left]
      exact ⟨h x h₁ h₂, rfl⟩

/-- A segment made of a filled one sends the right bytes of every part of its
live range exactly if its blocks are read where they were stored. -/
theorem sends_iff (w e : WriteSegment B) (hw : w.Filled) (he : Made w e) (lba length : Nat)
    (hl : 0 < length) (hin : e.rlba ≤ lba ∧ lba + length ≤ e.rtail) :
    Sends w e lba length ↔ Unmoved w e lba length := by
  have hk := kept_of_made hw he
  have hlba := hk.lba
  have hhead := hk.head
  have htail := hk.tail
  have htl := hk.transferLength
  have hen := enough_of_kept hw hk
  have hds : e.dsOffset ≤ commonBufSize := by
    rw [hk.dsOffset]
    split
    · exact Nat.zero_le _
    · exact hw.inside
  have het : e.tail = w.tail := by
    unfold WriteSegment.tail
    omega
  have hwt : w.tail = w.lba + w.transferLength := rfl
  have hdata : Sends w e lba length ↔ ∀ mem, dataOf mem e lba length = dataOf mem w lba length := by
    have hp : ∀ mem, Pending mem (SendCacheTask.new e lba length) (dataOf mem e lba length) :=
      fun mem => pending_new mem hl (by omega) (by omega) hen
    have hlen : ∀ mem, (dataOf mem e lba length).length = 512 * length := fun mem => by
      rw [(hp mem).length, SendCache.totalRemain_new]
    constructor
    · intro h mem
      -- a socket that takes everything is done with the first run
      obtain ⟨hpre, hdone⟩ := h mem greedy greedy_le 1
      have hsent := runs_greedy (hp mem)
      rw [hsent] at hpre hdone
      refine hpre.eq_of_length (Nat.le_antisymm hpre.length_le ?_)
      rw [hlen, dataOf]
      exact List.length_take_le _ _
    · intro h mem k hkr m
      obtain ⟨hpre, hdone⟩ := runs_pending hkr m 0 (hp mem)
      rw [hlen] at hdone
      rw [← h mem]
      exact ⟨hpre, hdone⟩
  rw [hdata, dataOf_eq_iff hlba hk.cbufs hw.inside hds fun x hx => ?_, Unmoved]
  · cases hc : e.copy with
    | false =>
      have hd : e.dsOffset = w.dsOffset := by rw [hk.dsOffset, hc]; rfl
      simp [hd]
    | true =>
      have hd : e.dsOffset = 0 := by rw [hk.dsOffset, hc]; rfl
      rw [hd, shift_iff hw.inside (by omega)]
      simp
  · rw [← hk.cbufs]
    exact isSome_cell hds hen (by omega)

section Cache

variable {ix : LbaIndex}

/-- Every segment that was ever in the cache is made of a filled one. -/
structure AllMade (c : WriteCache B ix) : Prop where
  below : ∀ p ∈ ix.toList c.byLba, p < c.next
  made : ∀ p < c.next, ∃ w : WriteSegment B, w.Filled ∧ Made w (c.ws p)

theorem allMade_modify {c : WriteCache B ix} (h : AllMade c) (p : Nat)
    (f : WriteSegment B → WriteSegment B) (hf : ∀ w, Made w (c.ws p) → Made w (f (c.ws p))) :
    AllMade (c.modify p f) := by
  refine ⟨h.below, fun q hq => ?_⟩
  obtain ⟨w, hw, hm⟩ := h.made q hq
  refine ⟨w, hw, ?_⟩
  by_cases hqp : q = p
  · subst hqp
    simpa using hf w hm
  · simpa [hqp] using hm

theorem allMade_pushBack (hix : ix.Lawful) {c : WriteCache B ix} (h : AllMade c)
    {w e : WriteSegment B} (hw : w.Filled) (he : Made w e) : AllMade (c.pushBack e) := by
  constructor
  · intro p hp
    obtain ⟨l, r, hlr, hins, -⟩ :=
      hix.toList_insert (fun q => ((c.pushBack e).ws q).rlba) c.next c.byLba
    rw [show ix.toList (c.pushBack e).byLba = l ++ c.next :: r from hins] at hp
    have hp' : p = c.next ∨ p ∈ ix.toList c.byLba := by
      rw [hlr]
      simp only [List.mem_append, List.mem_cons] at hp ⊢
      tauto
    rw [pushBack_next]
    rcases hp' with rfl | hp'
    · exact Nat.lt_succ_self _
    · exact Nat.lt_succ_of_lt (h.below p hp')
  · intro p hp
    rw [pushBack_next] at hp
    rw [pushBack_ws]
    by_cases hn : p = c.next
    · rw [hn, Function.update_self]
      exact ⟨w, hw, he⟩
    · rw [Function.update_of_ne hn]
      exact h.made p (by omega)

theorem allMade_pushHit (hix : ix.Lawful) {c : WriteCache B ix} (h : AllMade c)
    (v : WriteSegment B) {p : Nat} (hp : p < c.next) :
    AllMade (pushHit v c p) ∧ c.next ≤ (pushHit v c p).next := by
  have hvt : v.tail = v.lba + v.transferLength := rfl
  have hrt : (c.ws p).rtail = (c.ws p).rlba + (c.ws p).rlength := rfl
  unfold pushHit
  dsimp only
  split
  · exact ⟨allMade_modify h p _ fun w hm => .cut (c.ws p).rlba 0 hm le_rfl (by omega), le_rfl⟩
  split
  · rename_i hs
    obtain ⟨w, hw, hm⟩ := h.made p hp
    have hws : ∀ e, (c.pushBack e).ws p = c.ws p := fun e => by simp [hp.ne]
    refine ⟨allMade_modify (allMade_pushBack hix h hw (.split v hm hs.1 hs.2)) p _ fun u hu => ?_,
      Nat.le_succ _⟩
    rw [hws] at hu ⊢
    exact .cut (c.ws p).rlba _ hu le_rfl (by omega)
  split
  · exact ⟨allMade_modify h p _ fun w hm => .cut (c.ws p).rlba _ hm le_rfl (by omega), le_rfl⟩
  split
  · exact ⟨allMade_modify h p _ fun w hm => .cut _ _ hm (by omega) (by omega), le_rfl⟩
  · exact ⟨h, le_rfl⟩

theorem allMade_push (hix : ix.Lawful) {c : WriteCache B ix} (h : AllMade c) {w : WriteSegment B}
    (hw : w.Filled) : AllMade (c.push w) := by
  have hloop : ∀ (ps : List Nat) (c : WriteCache B ix), AllMade c → (∀ p ∈ ps, p < c.next) →
      AllMade (ps.foldl (pushHit w) c) := by
    intro ps
    induction ps with
    | nil => exact fun c hc _ => hc
    | cons p ps ih =>
      intro c hc hps
      obtain ⟨hc', hn⟩ := allMade_pushHit hix hc w (hps p (by simp))
      exact ih _ hc' fun q hq => (hps q (List.mem_cons_of_mem _ hq)).trans_le hn
  exact allMade_pushBack hix (hloop _ c h fun p hp => h.below p (mem_search hp).1) hw .original

theorem allMade_pop (hix : ix.Lawful) {c : WriteCache B ix} (h : AllMade c) : AllMade c.pop := by
  refine ⟨fun p hp => ?_, by simpa using h.made⟩
  rw [pop_next]
  unfold pop at hp
  split at hp
  · exact h.below p hp
  · rw [hix.toList_erase] at hp
    exact h.below p (List.mem_of_mem_erase hp)

/-- Pushes of filled segments, and pops in any order. -/
def FilledPush (_ : WriteCache B ix) : IndexOrder.Event B → Prop
  | .push w _ => w.Filled
  | .pop => True

theorem made_of_reachable (hix : ix.Lawful) {c : WriteCache B ix}
    (h : Runs.Reachable .init IndexOrder.step FilledPush c) {p : Nat} (hp : p ∈ ix.toList c.byLba) :
    ∃ w : WriteSegment B, w.Filled ∧ Made w (c.ws p) := by
  have h₀ : AllMade (.init : WriteCache B ix) := by
    refine ⟨fun q hq => ?_, fun q hq => absurd hq (Nat.not_lt_zero q)⟩
    rw [show ix.toList (WriteCache.init : WriteCache B ix).byLba = [] from hix.toList_empty] at hq
    cases hq
  have hc : AllMade c := h.invariant AllMade h₀ fun c e c' hc hok hs => by
    cases e with
    | push w fresh =>
      cases hs
      exact allMade_push hix hc hok
    | pop =>
      cases hs
      exact allMade_pop hix hc
  exact hc.made p (hc.below p hp)

end Cache

section Sample

/-- The part of a segment behind a push of the block [4,5). -/
def sampleSplit (dsOffset : Nat) : WriteSegment Unit :=
  { (sampleSegment 2 6 dsOffset).copyOf with rlba := 5, rlength := 3 }

theorem made_sampleSplit (dsOffset : Nat) : Made (sampleSegment 2 6 dsOffset) (sampleSplit dsOffset) :=
  .split (sampleSegment 4 1 0) .original (show 2 < 4 by omega) (show 4 + 1 < 2 + 6 by omega)

theorem sends_split : Sends (sampleSegment 2 6 0) (sampleSplit 0) 6 2 :=
  (sends_iff _ _ (filled_sampleSegment (by decide) (by decide)) (made_sampleSplit 0) 6 2 (by decide)
    ⟨by decide, by decide⟩).mpr (.inr (.inl rfl))

/-- A memory with a mark at the first byte of block 6 as the copy reads it. -/
def markedMem (_ : Unit) (i : Nat) : UInt8 := if i = 2048 then 1 else 0

/-- The data began behind 48 bytes in the buffer; the copy reads them from the
head of the buffer on. -/
theorem not_sends_split : Made (sampleSegment 2 6 48) (sampleSplit 48) ∧
    ¬ Sends (sampleSegment 2 6 48) (sampleSplit 48) 6 2 := by
  refine ⟨made_sampleSplit 48, fun h => ?_⟩
  have hw : (sampleSegment 2 6 48).Filled := filled_sampleSegment (by decide) (by decide)
  obtain ⟨hpre, -⟩ := h markedMem greedy greedy_le 1
  have hp : Pending markedMem (SendCacheTask.new (sampleSplit 48) 6 2)
    (dataOf markedMem (sampleSplit 48) 6 2) :=
    pending_new markedMem (by decide) (by decide) (by decide)
      (enough_of_kept hw (kept_of_made hw (made_sampleSplit 48)))
  rw [runs_greedy hp] at hpre
  obtain ⟨rest, hrest⟩ := hpre
  have hpos : 0 < (dataOf markedMem (sampleSplit 48) 6 2).length := hp.length ▸ hp.positive
  have hfirst : (dataOf markedMem (sampleSplit 48) 6 2)[0]? =
      (dataOf markedMem (sampleSegment 2 6 48) 6 2)[0]? := by
    rw [← hrest, List.getElem?_append_left hpos]
  rw [getElem?_dataOf _ (by decide), getElem?_dataOf _ (by decide)] at hfirst
  exact absurd hfirst (by decide)

end Sample

end Sstoraged.CacheDelivery
