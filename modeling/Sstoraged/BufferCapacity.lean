import Mathlib.Data.List.Nodup
import Sstoraged.IovecContainer
import Sstoraged.Runs

namespace Sstoraged

/-- The size minus the offset up to which the buffer is read. -/
def CommonBuf.unconsumed (b : CommonBuf) : Nat := b.getSize - b.offset

namespace IovecContainer

/-- As the default constructor leaves it. -/
def new (mem : Nat → Nat → UInt8) : IovecContainer := ⟨[], [], 0, 0, fun _ => .new, mem, 0⟩

/-- `reserve` as it is called: the space is allocated once, and later calls test what
is left of it. -/
def reserveOnce (c : IovecContainer) (total : Nat) : Bool × IovecContainer :=
  if c.vec.length = 0 then (true, reserve total c.mem)
  else if c.remain < total then (false, c)
  else (true, c)

end IovecContainer

namespace BufferCapacity

open IovecContainer

inductive Op
  | reserve (total : Nat)
  | stepForwardTail (size : Nat)
  | stepForwardOffset (size : Nat)
  | rotate (index : Nat)
  | update

def step (c : IovecContainer) : Op → Option IovecContainer
  | .reserve total => some (c.reserveOnce total).2
  | .stepForwardTail size => some (c.stepForwardTail size).2
  | .stepForwardOffset size => some (((c.stepForwardOffset size).map fun r => r.2.2).getD c)
  | .rotate index => c.rotate index
  | .update => c.update

variable {c c' c'' : IovecContainer}

/-- What is not consumed of the buffers in the list. -/
def unconsumed (c : IovecContainer) : Nat := (c.cbufs.map fun b => (c.bufs b).unconsumed).sum

/-- `remain` is what it is for, and so is the refusal. -/
structure Accounted (c : IovecContainer) : Prop where
  remain : c.remain = unconsumed c
  refuses : ∀ total, (c.reserveOnce total).1 = false ↔ c.vec.length ≠ 0 ∧ unconsumed c < total

/-- A step of the offset takes all there is to read from its buffer, and more than that is
asked for. -/
def Short (c : IovecContainer) : Op → Prop
  | .stepForwardOffset size =>
    size = 0 ∨ ∀ b ∈ c.cbufs.find? fun b => !(c.bufs b).atEnd, (c.bufs b).getRemain < size
  | _ => True

/-- The buffers are distinct, and their cursors are in order. -/
structure Sound (c : IovecContainer) : Prop where
  nodup : c.cbufs.Nodup
  fresh : ∀ b ∈ c.cbufs, b < c.next
  offset_le : ∀ b ∈ c.cbufs, (c.bufs b).offset ≤ (c.bufs b).tail
  tail_le : ∀ b ∈ c.cbufs, (c.bufs b).tail ≤ commonBufSize

/-- Nothing but the difference between `remain` and what it is for is kept. -/
def Balanced (c c' : IovecContainer) : Prop := c'.remain + unconsumed c = c.remain + unconsumed c'

theorem Balanced.refl (c : IovecContainer) : Balanced c c := rfl

theorem Balanced.trans (h : Balanced c c') (h' : Balanced c' c'') : Balanced c c'' := by
  unfold Balanced at *
  omega

theorem accounted_iff : Accounted c ↔ c.remain = unconsumed c := by
  refine ⟨Accounted.remain, fun h => ⟨h, fun total => ?_⟩⟩
  unfold reserveOnce
  rw [← h]
  split_ifs <;> simp_all

theorem sum_update {l : List Nat} (hnodup : l.Nodup) {b : Nat} (hb : b ∈ l) (g : Nat → Nat) (v : Nat) :
    (l.map (Function.update g b v)).sum + g b = (l.map g).sum + v := by
  obtain ⟨l₁, l₂, rfl⟩ := List.append_of_mem hb
  have hnot : ∀ a ∈ l₁ ++ l₂, a ≠ b := by
    rintro a ha rfl
    exact (List.nodup_cons.mp (List.nodup_middle.mp hnodup)).1 ha
  have hsame : ∀ l : List Nat, (∀ a ∈ l, a ≠ b) → l.map (Function.update g b v) = l.map g := fun l hl =>
    List.map_congr_left fun a ha => Function.update_of_ne (hl a ha) _ _
  obtain ⟨h₁, h₂⟩ := List.forall_mem_append.mp hnot
  rw [List.map_append, List.map_append, List.map_cons, List.map_cons, hsame l₁ h₁, hsame l₂ h₂,
    Function.update_self]
  simp only [List.sum_append, List.sum_cons]
  omega

theorem unconsumed_update (h : Sound c) {b : Nat} (hb : b ∈ c.cbufs) (x : CommonBuf) (remain : Nat) :
    unconsumed { c with bufs := Function.update c.bufs b x, remain } + (c.bufs b).unconsumed =
      unconsumed c + x.unconsumed := by
  have hcomp : (fun a => (Function.update c.bufs b x a).unconsumed) =
      Function.update (fun a => (c.bufs a).unconsumed) b x.unconsumed := by
    funext a
    exact Function.apply_update (fun _ => CommonBuf.unconsumed) c.bufs b x a
  unfold unconsumed
  dsimp only
  rw [hcomp]
  exact sum_update h.nodup hb _ _

theorem sound_update (h : Sound c) {b : Nat} {x : CommonBuf} (hoffset : x.offset ≤ x.tail)
    (htail : x.tail ≤ commonBufSize) (remain : Nat) :
    Sound { c with bufs := Function.update c.bufs b x, remain } := by
  refine ⟨h.nodup, h.fresh, fun a ha => ?_, fun a ha => ?_⟩ <;> dsimp only <;> by_cases hab : a = b
  · rwa [hab, Function.update_self]
  · rw [Function.update_of_ne hab]
    exact h.offset_le a ha
  · rwa [hab, Function.update_self]
  · rw [Function.update_of_ne hab]
    exact h.tail_le a ha

theorem rotate_balanced (h : Sound c) {index : Nat} (hr : c.rotate index = some c') :
    Sound c' ∧ Balanced c c' := by
  unfold rotate at hr
  split at hr
  · cases hr
  · obtain rfl := Option.some.inj hr
    have hbufs : ∀ b ∈ c.cbufs, Function.update c.bufs c.next .new b = c.bufs b := fun b hb =>
      Function.update_of_ne (Nat.ne_of_lt (h.fresh b hb)) _ _
    have hall : ∀ p : CommonBuf → Prop, (∀ b ∈ c.cbufs, p (c.bufs b)) → p .new →
        ∀ b ∈ c.cbufs ++ [c.next], p (Function.update c.bufs c.next .new b) := by
      intro p hold hnew
      refine List.forall_mem_append.mpr ⟨fun b hb => ?_, List.forall_mem_singleton.mpr ?_⟩
      · rw [hbufs b hb]
        exact hold b hb
      · rwa [Function.update_self]
    refine ⟨⟨?_, ?_, hall (fun x => x.offset ≤ x.tail) h.offset_le (Nat.le_refl _),
      hall (fun x => x.tail ≤ commonBufSize) h.tail_le (Nat.zero_le _)⟩, ?_⟩
    · refine List.nodup_append.mpr ⟨h.nodup, List.nodup_singleton _, fun a ha b hb => ?_⟩
      rw [List.mem_singleton.mp hb]
      exact Nat.ne_of_lt (h.fresh a ha)
    · exact List.forall_mem_append.mpr ⟨fun b hb => Nat.lt_succ_of_lt (h.fresh b hb),
        List.forall_mem_singleton.mpr (Nat.lt_succ_self _)⟩
    · have hsame : (c.cbufs.map fun b => (Function.update c.bufs c.next .new b).unconsumed) =
          c.cbufs.map fun b => (c.bufs b).unconsumed := by
        refine List.map_congr_left fun b hb => ?_
        rw [hbufs b hb]
      unfold Balanced unconsumed
      dsimp only
      rw [List.map_append, hsame, List.sum_append, List.map_singleton, List.sum_singleton,
        Function.update_self]
      change _ = _ + (_ + commonBufSize)
      omega

theorem drop_balanced (h : Sound c) {b : Nat} {cbufs : List Nat} (hc : c.cbufs = b :: cbufs)
    (hend : (c.bufs b).atEnd = true) (overflow : Nat) :
    Sound { c with cbufs, overflow } ∧ Balanced c { c with cbufs, overflow } := by
  obtain ⟨hnodup, hfresh, hoffset, htail⟩ := h
  rw [hc] at hnodup hfresh hoffset htail
  refine ⟨⟨(List.nodup_cons.mp hnodup).2, (List.forall_mem_cons.mp hfresh).2,
    (List.forall_mem_cons.mp hoffset).2,
    (List.forall_mem_cons.mp htail).2⟩, ?_⟩
  have hzero : (c.bufs b).unconsumed = 0 := by
    rw [CommonBuf.unconsumed, of_decide_eq_true hend, Nat.sub_self]
  unfold Balanced unconsumed
  dsimp only
  rw [hc, List.map_cons, List.sum_cons, hzero, Nat.zero_add]

theorem cleanup_balanced (fuel : Nat) : ∀ {c : IovecContainer} (index : Nat), Sound c →
    cleanup fuel index c = some c' → Sound c' ∧ Balanced c c' := by
  induction fuel with
  | zero =>
    intro c index h hc'
    obtain rfl := Option.some.inj hc'
    exact ⟨h, Balanced.refl _⟩
  | succ fuel ih =>
    intro c index h hc'
    unfold cleanup at hc'
    cases hc : c.cbufs with
    | nil =>
      rw [hc] at hc'
      obtain rfl := Option.some.inj hc'
      exact ⟨h, Balanced.refl _⟩
    | cons b cbufs =>
      rw [hc] at hc'
      dsimp only at hc'
      by_cases hend : (c.bufs b).atEnd = true
      · rw [if_pos hend] at hc'
        split at hc'
        · obtain ⟨hdropped, hbalanced⟩ := drop_balanced h hc hend (c.overflow - 1)
          obtain ⟨hsound, hrest⟩ := ih _ hdropped hc'
          exact ⟨hsound, hbalanced.trans hrest⟩
        · obtain ⟨c₁, hr, hc'⟩ := Option.bind_eq_some_iff.mp hc'
          obtain ⟨hdropped, hbalanced⟩ := drop_balanced h hc hend c.overflow
          obtain ⟨hrotated, hrotate⟩ := rotate_balanced hdropped hr
          obtain ⟨hsound, hrest⟩ := ih _ hrotated hc'
          exact ⟨hsound, (hbalanced.trans hrotate).trans hrest⟩
      · rw [if_neg hend] at hc'
        obtain rfl := Option.some.inj hc'
        exact ⟨h, Balanced.refl _⟩

theorem overflowLoop_balanced (fuel : Nat) : ∀ {c : IovecContainer} (index : Nat), Sound c →
    overflowLoop fuel index c = some c' → Sound c' ∧ Balanced c c' := by
  induction fuel with
  | zero =>
    intro c index h hc'
    obtain rfl := Option.some.inj hc'
    exact ⟨h, Balanced.refl _⟩
  | succ fuel ih =>
    intro c index h hc'
    unfold overflowLoop at hc'
    split at hc'
    · obtain rfl := Option.some.inj hc'
      exact ⟨h, Balanced.refl _⟩
    · split at hc'
      · obtain ⟨c₁, hr, hc'⟩ := Option.bind_eq_some_iff.mp hc'
        obtain ⟨hrotated, hrotate⟩ := rotate_balanced h hr
        have hstepped : Sound { c₁ with overflow := c₁.overflow + 1 } :=
          ⟨hrotated.nodup, hrotated.fresh, hrotated.offset_le, hrotated.tail_le⟩
        obtain ⟨hsound, hrest⟩ := ih _ hstepped hc'
        exact ⟨hsound, hrotate.trans hrest⟩
      · obtain rfl := Option.some.inj hc'
        exact ⟨h, Balanced.refl _⟩

theorem update_balanced (h : Sound c) (hu : c.update = some c') : Sound c' ∧ Balanced c c' := by
  unfold update at hu
  obtain ⟨c₁, h₁, hu⟩ := Option.bind_eq_some_iff.mp hu
  obtain ⟨b, -, hu⟩ := Option.bind_eq_some_iff.mp hu
  obtain ⟨v, -, hu⟩ := Option.bind_eq_some_iff.mp hu
  obtain ⟨c₂, h₂, hu⟩ := Option.bind_eq_some_iff.mp hu
  obtain ⟨b', -, rfl⟩ := Option.map_eq_some_iff.mp hu
  obtain ⟨hs₁, hb₁⟩ := cleanup_balanced _ 0 h h₁
  have hloop : Sound c₂ ∧ Balanced c₁ c₂ := by
    split at h₂
    · exact overflowLoop_balanced _ 0 hs₁ h₂
    · obtain rfl := Option.some.inj h₂
      exact ⟨hs₁, Balanced.refl _⟩
  obtain ⟨⟨hnodup, hfresh, hoffset, htail⟩, hb₂⟩ := hloop
  exact ⟨⟨hnodup, hfresh, hoffset, htail⟩, hb₁.trans hb₂⟩

/-- What the tails do to a buffer. -/
structure Filled (b b' : CommonBuf) : Prop where
  offset : b'.offset = b.offset
  le : b.tail ≤ b'.tail
  tail_le : b.tail ≤ commonBufSize → b'.tail ≤ commonBufSize

theorem filled_stepForwardTail (b : CommonBuf) (n : Nat) : Filled b (b.stepForwardTail n) := by
  unfold CommonBuf.stepForwardTail
  split
  · exact ⟨rfl, Nat.le_refl _, id⟩
  · exact ⟨rfl, Nat.le_add_right _ _, fun _ => Nat.le_of_not_lt ‹_›⟩

theorem filled_fillTails (cbufs : List Nat) : ∀ (size : Nat) (bufs : Nat → CommonBuf) (b : Nat),
    Filled (bufs b) ((fillTails cbufs size bufs).2 b) := by
  induction cbufs with
  | nil => exact fun _ _ _ => ⟨rfl, Nat.le_refl _, id⟩
  | cons a cbufs ih =>
    intro size bufs b
    have hone : ∀ n, Filled (bufs b) (Function.update bufs a ((bufs a).stepForwardTail n) b) := by
      intro n
      by_cases hb : b = a
      · rw [hb, Function.update_self]
        exact filled_stepForwardTail _ _
      · rw [Function.update_of_ne hb]
        exact ⟨rfl, Nat.le_refl _, id⟩
    unfold fillTails
    dsimp only
    split_ifs
    · exact ⟨rfl, Nat.le_refl _, id⟩
    · obtain ⟨hoffset, hle, htail⟩ := hone (bufs a).getCapacity
      obtain ⟨hoffset', hle', htail'⟩ := ih (size - (bufs a).getCapacity) _ b
      exact ⟨hoffset'.trans hoffset, Nat.le_trans hle hle', fun h => htail' (htail h)⟩
    · exact hone size

theorem stepForwardTail_balanced (h : Sound c) (size : Nat) :
    Sound (c.stepForwardTail size).2 ∧ Balanced c (c.stepForwardTail size).2 := by
  have hfilled := filled_fillTails c.cbufs size c.bufs
  refine ⟨⟨h.nodup, h.fresh, fun b hb => ?_, fun b hb => (hfilled b).tail_le (h.tail_le b hb)⟩, ?_⟩
  · change ((fillTails c.cbufs size c.bufs).2 b).offset ≤ ((fillTails c.cbufs size c.bufs).2 b).tail
    rw [(hfilled b).offset]
    exact Nat.le_trans (h.offset_le b hb) (hfilled b).le
  · have hsame : unconsumed (c.stepForwardTail size).2 = unconsumed c := by
      refine congrArg List.sum (List.map_congr_left fun b _ => ?_)
      exact congrArg (commonBufSize - ·) (hfilled b).offset
    unfold Balanced
    rw [hsame]
    rfl

theorem stepForwardOffset_iff (h : Sound c) (hremain : c.remain = unconsumed c) (size : Nat)
    (hs : step c (.stepForwardOffset size) = some c') :
    Sound c' ∧ (c'.remain = unconsumed c' ↔ Short c (.stepForwardOffset size)) := by
  obtain rfl := Option.some.inj hs
  unfold stepForwardOffset
  cases hfind : c.cbufs.find? fun b => !(c.bufs b).atEnd with
  | none =>
    refine ⟨h, iff_of_true hremain (.inr fun b hb => ?_)⟩
    rw [hfind] at hb
    nomatch hb
  | some b =>
    have hshort : Short c (.stepForwardOffset size) ↔ size = 0 ∨ (c.bufs b).getRemain < size := by
      unfold Short
      rw [hfind]
      simp
    have hb := List.mem_of_find?_eq_some hfind
    have hoffset := h.offset_le b hb
    have htail := h.tail_le b hb
    -- the buffer, `n` bytes further
    have hstep : ∀ n ≤ (c.bufs b).getRemain, ∀ remain,
        Sound { c with bufs := Function.update c.bufs b ((c.bufs b).stepForwardOffset n), remain } ∧
        unconsumed
            { c with bufs := Function.update c.bufs b ((c.bufs b).stepForwardOffset n), remain } + n =
          unconsumed c := by
      intro n hn remain
      have hx : (c.bufs b).stepForwardOffset n = ⟨(c.bufs b).offset + n, (c.bufs b).tail⟩ :=
        if_neg (Nat.not_lt.mpr hn)
      have hle : (c.bufs b).offset + n ≤ (c.bufs b).tail := by
        unfold CommonBuf.getRemain at hn
        omega
      have hsum := unconsumed_update h hb ⟨(c.bufs b).offset + n, (c.bufs b).tail⟩ remain
      rw [hx]
      refine ⟨sound_update (x := ⟨(c.bufs b).offset + n, (c.bufs b).tail⟩) h hle htail remain, ?_⟩
      unfold CommonBuf.unconsumed CommonBuf.getSize at hsum
      dsimp only at hsum
      omega
    rw [hshort]
    simp only [Option.map_some, Option.getD_some]
    by_cases hlt : (c.bufs b).getRemain < size
    · rw [if_pos hlt]
      obtain ⟨hsound, hsum⟩ := hstep (c.bufs b).getRemain (Nat.le_refl _)
        (c.remain - (c.bufs b).getRemain)
      refine ⟨hsound, iff_of_true ?_ (.inr hlt)⟩
      dsimp only
      omega
    · rw [if_neg hlt]
      obtain ⟨hsound, hsum⟩ := hstep size (Nat.le_of_not_lt hlt) c.remain
      refine ⟨hsound, ?_⟩
      dsimp only
      omega

theorem sound_reserve (total : Nat) (mem : Nat → Nat → UInt8) : Sound (reserve total mem) where
  nodup := List.nodup_range'
  fresh b hb := by
    obtain ⟨i, hi, rfl⟩ := List.mem_range'.mp hb
    change 0 + 1 * i < max (total / commonBufSize + 1) 2
    omega
  offset_le _ _ := Nat.le_refl _
  tail_le _ _ := Nat.zero_le _

theorem remain_reserve (total : Nat) (mem : Nat → Nat → UInt8) :
    (reserve total mem).remain = unconsumed (reserve total mem) := by
  have hsum : ∀ start count : Nat,
      ((List.range' start count).map fun _ => CommonBuf.new.unconsumed).sum = commonBufSize * count := by
    intro start count
    rw [List.map_const', List.sum_replicate_nat, List.length_range', Nat.mul_comm]
    rfl
  exact (hsum 0 _).symm

theorem step_iff (h : Sound c) (hremain : c.remain = unconsumed c) (op : Op) (hs : step c op = some c') :
    Sound c' ∧ (c'.remain = unconsumed c' ↔ Short c op) := by
  -- all but the step of the offset keep the difference
  have hkeep : Sound c' ∧ Balanced c c' → Sound c' ∧ (c'.remain = unconsumed c' ↔ True) := by
    rintro ⟨hsound, hbalanced⟩
    unfold Balanced at hbalanced
    exact ⟨hsound, iff_of_true (by omega) trivial⟩
  cases op with
  | reserve total =>
    obtain rfl := Option.some.inj hs
    unfold reserveOnce
    split_ifs
    · exact ⟨sound_reserve total c.mem, iff_of_true (remain_reserve total c.mem) trivial⟩
    · exact ⟨h, iff_of_true hremain trivial⟩
    · exact ⟨h, iff_of_true hremain trivial⟩
  | stepForwardTail size =>
    obtain rfl := Option.some.inj hs
    exact hkeep (stepForwardTail_balanced h size)
  | stepForwardOffset size => exact stepForwardOffset_iff h hremain size hs
  | rotate index => exact hkeep (rotate_balanced h hs)
  | update => exact hkeep (update_balanced h hs)

/-- Along a sequence of calls, the account is right after each of them if and only if each
step of the offset is short. -/
theorem accounted_iff_short (mem : Nat → Nat → UInt8) (ops : List Op) :
    Runs.Along step (fun c op => ∀ c', step c op = some c' → Accounted c') (.new mem) ops ↔
      Runs.Along step Short (.new mem) ops := by
  apply Runs.along_iff (fun c => Sound c ∧ c.remain = unconsumed c)
  · rintro c op ⟨hsound, hremain⟩
    constructor
    · intro hright
      cases op with
      | stepForwardOffset size => exact (step_iff hsound hremain _ rfl).2.mp (hright _ rfl).remain
      | reserve => trivial
      | stepForwardTail => trivial
      | rotate => trivial
      | update => trivial
    · intro hshort c' hs
      exact accounted_iff.mpr ((step_iff hsound hremain op hs).2.mpr hshort)
  · rintro c op c' ⟨hsound, hremain⟩ hright hs
    exact ⟨(step_iff hsound hremain op hs).1, (hright c' hs).remain⟩
  · exact ⟨⟨List.nodup_nil, nofun, nofun, nofun⟩, rfl⟩

/-- A header is received and taken, but its bytes stay in the account. -/
theorem not_accounted_header : ¬ ∀ (mem : Nat → Nat → UInt8) (ops : List Op),
    Runs.Along step (fun c op => ∀ c', step c op = some c' → Accounted c') (.new mem) ops := by
  intro hall
  obtain ⟨-, hrest⟩ := hall (fun _ _ => 0) [.reserve 1, .stepForwardTail 48, .stepForwardOffset 48]
  obtain ⟨-, hrest⟩ := hrest _ rfl
  obtain ⟨hright, -⟩ := hrest _ rfl
  exact absurd (hright _ rfl).remain (by decide +kernel)

end BufferCapacity

end Sstoraged
