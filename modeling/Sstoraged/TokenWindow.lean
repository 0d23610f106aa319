import Sstoraged.TokenStream

namespace Sstoraged.TokenWindow

open IovecContainer TokenCursors TokenStream

/-- Array entries for `n` new buffers from buffer `w` on. -/
def entries (w n : Nat) : List Iovec := (List.range' w n).map fun k => ⟨k, 0, commonBufSize⟩

theorem entries_succ (w n : Nat) : entries w (n + 1) = ⟨w, 0, commonBufSize⟩ :: entries (w + 1) n := by
  rw [entries, List.range'_succ, List.map_cons]
  rfl

theorem entries_concat (w n : Nat) : entries w (n + 1) = entries w n ++ [⟨w + n, 0, commonBufSize⟩] := by
  rw [entries, List.range'_concat, List.map_append, Nat.one_mul]
  rfl

@[simp] theorem length_entries (w n : Nat) : (entries w n).length = n := by
  rw [entries, List.length_map, List.length_range']

theorem space_entries (w n : Nat) : space (entries w n) = commonBufSize * n := by
  induction n generalizing w with
  | zero => rfl
  | succ n ih =>
    rw [entries_succ, space, List.map_cons, List.sum_cons]
    change commonBufSize + space (entries (w + 1) n) = _
    rw [ih, Nat.mul_succ, Nat.add_comm]

/-- The array as a read of the stream needs it: the free space of buffer `w`,
and the buffers behind it. -/
structure Window (c : IovecContainer) (count first w read : Nat) : Prop where
  vec : c.vec = ⟨w, min commonBufSize (read - commonBufSize * w),
    commonBufSize - min commonBufSize (read - commonBufSize * w)⟩ :: entries (w + 1) (count - 1)
  next : c.next = w + count
  overflow : c.overflow = w - first
  le : first ≤ w

/-- The same but for the first entry. -/
structure Loose (c : IovecContainer) (v : Iovec) (count first w : Nat) : Prop where
  vec : c.vec = v :: entries (w + 1) (count - 1)
  next : c.next = w + count
  overflow : c.overflow = w - first
  le : first ≤ w

/-- How many rotations in one update keep an array of `count` entries right. -/
def rotations (count : Nat) : Nat := if count = 2 then 2 else 1

theorem rotations_pos (count : Nat) : 0 < rotations count := by
  rw [rotations]
  split <;> decide

theorem rotate_zero {c : IovecContainer} {v : Iovec} {w n : Nat} (hvec : c.vec = v :: entries (w + 1) n)
    (hnext : c.next = w + 1 + n) :
    c.rotate 0 = some { c with
      vec := entries (w + 1) (n + 1), cbufs := c.cbufs ++ [c.next], remain := c.remain + commonBufSize
      bufs := Function.update c.bufs c.next .new, next := c.next + 1 } := by
  have hlen : c.vec.length = n + 1 := by rw [hvec, List.length_cons, length_entries]
  have hdrop : ((c.vec.drop 1).take n ++ c.vec.drop n).set n ⟨c.next, 0, commonBufSize⟩ =
      entries (w + 1) (n + 1) := by
    have htake : (c.vec.drop 1).take n = entries (w + 1) n := by
      rw [hvec, List.drop_succ_cons, List.drop_zero, List.take_of_length_le
        (Nat.le_of_eq (length_entries _ _))]
    obtain ⟨last, hlast⟩ : ∃ last, c.vec.drop n = [last] := by
      apply List.length_eq_one_iff.mp
      rw [List.length_drop, hlen]
      omega
    rw [htake, hlast, List.set_append_right _ _ (Nat.le_of_eq (length_entries _ _)), length_entries,
      Nat.sub_self, List.set_cons_zero, entries_concat, hnext]
  rw [rotate, if_neg (by omega), hlen]
  simp only [Nat.add_sub_cancel, Nat.sub_zero]
  rw [hdrop]

theorem rotate_one {c : IovecContainer} {v v' : Iovec} (hvec : c.vec = [v, v']) :
    c.rotate 1 = some { c with
      vec := [v, ⟨c.next, 0, commonBufSize⟩]
      cbufs := c.cbufs ++ [c.next]
      remain := c.remain + commonBufSize
      bufs := Function.update c.bufs c.next .new
      next := c.next + 1 } := by
  rw [rotate, hvec]
  rfl

section cleanup

variable {c : IovecContainer} {first done read : Nat}

theorem cleanup_stop (fuel index : Nat) (h : Cursors c first done read)
    (hdone : done < commonBufSize * (first + 1)) : cleanup fuel index c = some c := by
  cases fuel with
  | zero => rfl
  | succ fuel =>
    cases hc : c.cbufs with
    | nil => rw [cleanup, hc]
    | cons b cbufs =>
      have he := (h.atEnd_front hc).2
      rw [cleanup, hc]
      dsimp only
      rw [if_neg fun hend => by
        have hle := he.mp hend
        omega]

theorem cleanup_pop (fuel index : Nat) (h : Cursors c first done read) (hlt : first < c.next)
    (hdone : commonBufSize * (first + 1) ≤ done) (ho : 0 < c.overflow) :
    cleanup (fuel + 1) index c =
      cleanup fuel (index + 1) { c with cbufs := c.cbufs.tail, overflow := c.overflow - 1 } := by
  obtain ⟨b, cbufs, hc⟩ : ∃ b cbufs, c.cbufs = b :: cbufs := by
    apply List.exists_cons_of_ne_nil
    rw [h.cbufs, ne_eq, List.range'_eq_nil_iff]
    omega
  rw [cleanup, hc]
  dsimp only
  rw [if_pos ((h.atEnd_front hc).2.mpr hdone), if_pos ho]
  rfl

theorem cleanup_rotate (fuel index : Nat) (h : Cursors c first done read) (hlt : first < c.next)
    (hdone : commonBufSize * (first + 1) ≤ done) (ho : c.overflow = 0) :
    cleanup (fuel + 1) index c =
      (rotate { c with cbufs := c.cbufs.tail } index).bind (cleanup fuel (index + 1)) := by
  obtain ⟨b, cbufs, hc⟩ : ∃ b cbufs, c.cbufs = b :: cbufs := by
    apply List.exists_cons_of_ne_nil
    rw [h.cbufs, ne_eq, List.range'_eq_nil_iff]
    omega
  rw [cleanup, hc]
  dsimp only
  rw [if_pos ((h.atEnd_front hc).2.mpr hdone), if_neg (by omega)]
  rfl

theorem cursors_tail (h : Cursors c first done read) (hlt : first < c.next)
    (hdone : commonBufSize * (first + 1) ≤ done) (overflow : Nat) :
    Cursors { c with cbufs := c.cbufs.tail, overflow } (first + 1) done read := by
  obtain ⟨b, cbufs, hc⟩ : ∃ b cbufs, c.cbufs = b :: cbufs := by
    apply List.exists_cons_of_ne_nil
    rw [h.cbufs, ne_eq, List.range'_eq_nil_iff]
    omega
  have ht := (h.tail hc hdone).2.2 overflow
  rw [hc]
  exact ht

variable {v : Iovec} {count w : Nat}

theorem cleanup_within (fuel : Nat) : ∀ {c : IovecContainer} {first : Nat} (index : Nat),
    Cursors c first done read → first + c.overflow < c.next → done / commonBufSize ≤ first + c.overflow →
    done / commonBufSize ≤ first + fuel →
    ∃ c', cleanup fuel index c = some c' ∧ c'.vec = c.vec ∧ c'.next = c.next ∧
      c'.overflow = first + c.overflow - done / commonBufSize := by
  induction fuel with
  | zero =>
    intro c first index h hnext hw hfuel
    have hle := h.first_le
    refine ⟨c, rfl, rfl, rfl, ?_⟩
    rw [commonBufSize_eq] at *
    omega
  | succ fuel ih =>
    intro c first index h hnext hw hfuel
    have hle := h.first_le
    by_cases hdone : commonBufSize * (first + 1) ≤ done
    · have hE : first + 1 ≤ done / commonBufSize := by
        rw [commonBufSize_eq] at *
        omega
      have hlt : first < c.next := by omega
      obtain ⟨c', heq, hvec, hn, ho⟩ := ih (index + 1) (cursors_tail h hlt hdone (c.overflow - 1))
        (by dsimp only; omega) (by dsimp only; omega) (by omega)
      refine ⟨c', ?_, hvec, hn, ?_⟩
      · rw [cleanup_pop fuel index h hlt hdone (by omega), heq]
      · dsimp only at ho
        omega
    · refine ⟨c, cleanup_stop _ _ h (Nat.lt_of_not_le hdone), rfl, rfl, ?_⟩
      rw [commonBufSize_eq] at *
      omega

theorem cleanup_inside (fuel index : Nat) (h : Cursors c first done read) (hl : Loose c v count first w)
    (hcount : 0 < count) (hw : done / commonBufSize ≤ w) (hfuel : done / commonBufSize ≤ first + fuel) :
    ∃ c', cleanup fuel index c = some c' ∧ Loose c' v count (done / commonBufSize) w := by
  have hnext := hl.next
  have hle := hl.le
  have ho := hl.overflow
  obtain ⟨c', heq, hvec, hn, ho'⟩ := cleanup_within fuel index h (by omega) (by omega) hfuel
  exact ⟨c', heq, hvec.trans hl.vec, hn.trans hnext, by omega, hw⟩

theorem cleanup_one (fuel : Nat) (h : Cursors c first done read) (hl : Loose c v count first first)
    (hcount : 0 < count) (hE : done / commonBufSize = first + 1) :
    ∃ c', cleanup (fuel + 1) 0 c = some c' ∧
      Loose c' ⟨first + 1, 0, commonBufSize⟩ count (first + 1) (first + 1) := by
  obtain ⟨n, rfl⟩ : ∃ n, count = n + 1 := ⟨count - 1, by omega⟩
  have hnext := hl.next
  have hlt : first < c.next := by omega
  have hdone : commonBufSize * (first + 1) ≤ done := by
    rw [commonBufSize_eq] at *
    omega
  have hlast : done < commonBufSize * (first + 1 + 1) := by
    rw [commonBufSize_eq] at *
    omega
  have hr := rotate_zero (c := { c with cbufs := c.cbufs.tail }) hl.vec (by dsimp only; omega)
  have hc := (cursors_tail h hlt hdone c.overflow).rotate hlt hr
  refine ⟨_, by rw [cleanup_rotate fuel 0 h hlt hdone (by rw [hl.overflow, Nat.sub_self]), hr,
    Option.bind_some, cleanup_stop _ _ hc.1 hlast], ⟨entries_succ _ _, ?_, ?_, Nat.le_refl _⟩⟩
  · dsimp only
    omega
  · dsimp only
    rw [hl.overflow]
    omega

/-- The rotation of an array of two entries for the second time in an update
leaves its first entry behind. -/
theorem cleanup_second {v' : Iovec} (fuel : Nat) (h : Cursors c first done read)
    (hvec : c.vec = [v, v']) (hnext : c.next = first + 2) (ho : c.overflow = 0)
    (hE : done / commonBufSize = first + 1) :
    ∃ c', cleanup (fuel + 1) 1 c = some c' ∧ Loose c' v 2 (first + 1) (first + 1) := by
  have hlt : first < c.next := by omega
  have hdone : commonBufSize * (first + 1) ≤ done := by
    rw [commonBufSize_eq] at *
    omega
  have hlast : done < commonBufSize * (first + 1 + 1) := by
    rw [commonBufSize_eq] at *
    omega
  have hr := rotate_one (c := { c with cbufs := c.cbufs.tail }) hvec
  have hc := (cursors_tail h hlt hdone c.overflow).rotate hlt hr
  refine ⟨_, by rw [cleanup_rotate fuel 1 h hlt hdone ho, hr, Option.bind_some,
    cleanup_stop _ _ hc.1 hlast], ⟨?_, ?_, ?_, Nat.le_refl _⟩⟩
  · dsimp only
    rw [hnext]
    rfl
  · dsimp only
    omega
  · dsimp only
    omega

theorem cleanup_skip (fuel : Nat) (h : Cursors c first done read) (hl : Loose c v 2 first (first + 1))
    (hE : done / commonBufSize = first + 2) :
    ∃ c', cleanup (fuel + 2) 0 c = some c' ∧ Loose c' v 2 (first + 2) (first + 2) := by
  have hnext := hl.next
  have ho := hl.overflow
  have hlt : first < c.next := by omega
  have hdone : commonBufSize * (first + 1) ≤ done := by
    rw [commonBufSize_eq] at *
    omega
  obtain ⟨c', heq, hl'⟩ := cleanup_second fuel (cursors_tail h hlt hdone (c.overflow - 1)) hl.vec hnext
    (by dsimp only; omega) hE
  exact ⟨c', by rw [cleanup_pop (fuel + 1) 0 h hlt hdone (by omega), heq], hl'⟩

theorem cleanup_two (fuel : Nat) (h : Cursors c first done read) (hl : Loose c v 2 first first)
    (hE : done / commonBufSize = first + 2) :
    ∃ c', cleanup (fuel + 2) 0 c = some c' ∧
      Loose c' ⟨first + 1, 0, commonBufSize⟩ 2 (first + 2) (first + 2) := by
  have hnext := hl.next
  have hlt : first < c.next := by omega
  have hdone : commonBufSize * (first + 1) ≤ done := by
    rw [commonBufSize_eq] at *
    omega
  have hr := rotate_zero (c := { c with cbufs := c.cbufs.tail }) hl.vec (by dsimp only; omega)
  have hc := (cursors_tail h hlt hdone c.overflow).rotate hlt hr
  have ho : c.overflow = 0 := by rw [hl.overflow, Nat.sub_self]
  obtain ⟨c', heq, hl'⟩ := cleanup_second fuel hc.1 (entries_succ (first + 1) 1)
    (by dsimp only; omega) ho hE
  exact ⟨c', by rw [cleanup_rotate (fuel + 1) 0 h hlt hdone ho, hr, Option.bind_some, heq], hl'⟩

end cleanup

section overflow

variable {c : IovecContainer} {v : Iovec} {first done read count w : Nat}

theorem getCapacity_cursors (h : Cursors c first done read) (hw : first ≤ w) (hn : w < c.next) :
    (c.bufs w).getCapacity = commonBufSize - min commonBufSize (read - commonBufSize * w) := by
  rw [h.bufs w hw hn]
  rfl

theorem getElem?_cursors (h : Cursors c first done read) (hw : first ≤ w) (hn : w < c.next)
    (ho : c.overflow = w - first) : c.cbufs[c.overflow]? = some w := by
  rw [h.cbufs, List.getElem?_range' (by omega), ho]
  congr 1
  omega

theorem overflowLoop_stop (fuel index : Nat) (h : Cursors c first done read)
    (hl : Loose c v count first w) (hcount : 0 < count) (hw : w = read / commonBufSize) :
    overflowLoop fuel index c = some c := by
  have hnext := hl.next
  cases fuel with
  | zero => rfl
  | succ fuel =>
    rw [overflowLoop, getElem?_cursors h hl.le (by omega) hl.overflow]
    dsimp only
    rw [getCapacity_cursors h hl.le (by omega), if_neg]
    rw [commonBufSize_eq] at *
    omega

theorem overflowLoop_rotate (fuel index : Nat) (h : Cursors c first done read)
    (hl : Loose c v count first w) (hcount : 0 < count) (hw : w < read / commonBufSize) :
    overflowLoop (fuel + 1) index c =
      (c.rotate index).bind fun c => overflowLoop fuel (index + 1)
        { c with overflow := c.overflow + 1 } := by
  have hnext := hl.next
  rw [overflowLoop, getElem?_cursors h hl.le (by omega) hl.overflow]
  dsimp only
  rw [getCapacity_cursors h hl.le (by omega), if_pos]
  rw [commonBufSize_eq] at *
  omega

theorem overflowLoop_window (fuel : Nat) (h : Cursors c first done read) (hl : Loose c v count first w)
    (hcount : 2 ≤ count) (hw : w ≤ read / commonBufSize)
    (hlast : read / commonBufSize ≤ w + rotations count) :
    ∃ c' v', overflowLoop (fuel + 2) 0 c = some c' ∧ Loose c' v' count first (read / commonBufSize) := by
  obtain ⟨n, rfl⟩ : ∃ n, count = n + 1 := ⟨count - 1, by omega⟩
  have hnext := hl.next
  have hle := hl.le
  have ho := hl.overflow
  rcases Nat.eq_or_lt_of_le hw with heq | hlt
  · exact ⟨c, v, overflowLoop_stop _ _ h hl (by omega) heq, heq ▸ hl⟩
  · have hr := rotate_zero (n := n) hl.vec (by omega)
    obtain ⟨hc, -, -, -⟩ := h.rotate (by omega) hr
    rw [overflowLoop_rotate _ _ h hl (by omega) hlt, hr, Option.bind_some]
    -- one step further
    obtain ⟨c₁, hc₁⟩ : ∃ c₁, c₁ = ({ c with
      vec := entries (w + 1) (n + 1), cbufs := c.cbufs ++ [c.next], remain := c.remain + commonBufSize
      overflow := c.overflow + 1, bufs := Function.update c.bufs c.next .new
      next := c.next + 1 } : IovecContainer) := ⟨_, rfl⟩
    have hcur : Cursors c₁ first done read := hc₁ ▸ hc.congr rfl rfl rfl
    have hl₁ : Loose c₁ ⟨w + 1, 0, commonBufSize⟩ (n + 1) first (w + 1) := by
      rw [hc₁]
      exact ⟨entries_succ _ _, by dsimp only; omega, by dsimp only; omega, by omega⟩
    dsimp only
    rw [← hc₁]
    rcases Nat.eq_or_lt_of_le (Nat.succ_le_of_lt hlt : w + 1 ≤ read / commonBufSize) with heq | hlt'
    · have heq' : w + 1 = read / commonBufSize := heq
      exact ⟨c₁, _, overflowLoop_stop _ _ hcur hl₁ (by omega) heq', heq' ▸ hl₁⟩
    · obtain rfl : n = 1 := by
        by_contra hn
        rw [rotations, if_neg (by omega)] at hlast
        omega
      have htwo : read / commonBufSize = w + 2 := by
        rw [rotations, if_pos rfl] at hlast
        omega
      have hr₁ := rotate_one (hl₁.vec.trans (congrArg _ (entries_succ (w + 1 + 1) 0)))
      obtain ⟨hc', -, -, -⟩ := hcur.rotate (by have := hl₁.next; omega) hr₁
      rw [overflowLoop_rotate _ _ hcur hl₁ (by omega) hlt', hr₁, Option.bind_some]
      have hnext₁ := hl₁.next
      have ho₁ := hl₁.overflow
      have hl₂ : Loose { c₁ with
          vec := [⟨w + 1, 0, commonBufSize⟩, ⟨c₁.next, 0, commonBufSize⟩], cbufs := c₁.cbufs ++ [c₁.next]
          remain := c₁.remain + commonBufSize, overflow := c₁.overflow + 1
          bufs := Function.update c₁.bufs c₁.next .new
          next := c₁.next + 1 } ⟨w + 1, 0, commonBufSize⟩ 2 first (w + 2) := by
        refine ⟨?_, ?_, ?_, by omega⟩
        · dsimp only
          rw [hnext₁]
          rfl
        · dsimp only
          omega
        · dsimp only
          omega
      exact ⟨_, _, overflowLoop_stop _ _ (hc'.congr rfl rfl rfl) hl₂ (by omega) htwo.symm, htwo ▸ hl₂⟩

theorem updateFirst_window (h : Cursors c first done read) (hl : Loose c v count first w)
    (hcount : 0 < count) : ∃ c', c.updateFirst = some c' ∧ Window c' count first w read := by
  have hnext := hl.next
  refine ⟨{ c with vec := c.vec.set 0 ⟨w, (c.bufs w).tail, (c.bufs w).getCapacity⟩ }, ?_,
    ⟨?_, hl.next, hl.overflow, hl.le⟩⟩
  · rw [updateFirst, getElem?_cursors h hl.le (by omega) hl.overflow, Option.map_some]
  dsimp only
  rw [getCapacity_cursors h hl.le (by omega), h.bufs w hl.le (by omega), hl.vec, List.set_cons_zero]

theorem update_eq {c₁ c₂ : IovecContainer} (h₁ : cleanup c.cbufs.length 0 c = some c₁)
    (h : Cursors c₁ first done read) (hl : Loose c₁ v count first w) (hcount : 0 < count)
    (h₂ : (if inRange w v then overflowLoop c₁.cbufs.length 0 c₁ else some c₁) = some c₂) :
    c.update = c₂.updateFirst := by
  have hnext := hl.next
  have hle := hl.le
  rw [update, h₁, Option.bind_some, getElem?_cursors h hle (by omega) hl.overflow, Option.bind_some,
    hl.vec, List.getElem?_cons_zero, Option.bind_some, h₂, Option.bind_some]

/-- An update with few rotations brings the array behind the bytes that were read,
but for one case in which it takes the next update. -/
theorem update_window (h : Cursors c first done read) (hl : Loose c v count first w)
    (hv : v.cbuf = w ∧ v.offset ≤ commonBufSize) (hcount : 2 ≤ count) (hw : w ≤ read / commonBufSize)
    (hE : done / commonBufSize ≤ w ∨ done / commonBufSize ≤ first + rotations count)
    (hR : read / commonBufSize ≤ max w (done / commonBufSize) + rotations count) :
    ∃ c' w', c.update = some c' ∧ Window c' count (done / commonBufSize) w' read ∧
      (w' = read / commonBufSize ∨ w' = done / commonBufSize ∧ w = first + 1 ∧
        done / commonBufSize = first + 2 ∧ read / commonBufSize = w' + 1) := by
  have hnext := hl.next
  have hle := hl.le
  have hroom := h.room
  have hdone := h.done_le
  have hER : done / commonBufSize ≤ read / commonBufSize := Nat.div_le_div_right hdone
  have hfE : first ≤ done / commonBufSize := by
    have hf := h.first_le
    rw [commonBufSize_eq] at *
    omega
  have hfuel : done / commonBufSize ≤ first + c.cbufs.length := by
    rw [h.cbufs, List.length_range']
    rw [commonBufSize_eq] at *
    omega
  obtain ⟨m, hm⟩ : ∃ m, c.cbufs.length = m + 2 := ⟨c.next - first - 2, by
    rw [h.cbufs, List.length_range']
    omega⟩
  -- the first entry points to the current buffer, and the loop runs
  have hloop : ∀ {c₁ : IovecContainer} {v₁ : Iovec} {w₁ : Nat}, w₁ = max w (done / commonBufSize) →
      cleanup c.cbufs.length 0 c = some c₁ → Loose c₁ v₁ count (done / commonBufSize) w₁ →
      v₁.cbuf = w₁ ∧ v₁.offset ≤ commonBufSize →
      ∃ c' w', c.update = some c' ∧ Window c' count (done / commonBufSize) w' read ∧
        w' = read / commonBufSize := by
    intro c₁ v₁ w₁ hw₁ h₁ hl₁ hv₁
    obtain ⟨hc₁, -⟩ := cleanup_cursors _ h hfuel h₁
    have hnext₁ := hl₁.next
    have hle₁ := hl₁.le
    obtain ⟨m₁, hm₁⟩ : ∃ m₁, c₁.cbufs.length = m₁ + 2 :=
      ⟨c₁.next - done / commonBufSize - 2, by rw [hc₁.cbufs, List.length_range']; omega⟩
    obtain ⟨c₂, v₂, h₂, hl₂⟩ := overflowLoop_window m₁ hc₁ hl₁ hcount (by omega) (by omega)
    obtain ⟨hc₂, -⟩ := overflowLoop_cursors _ hc₁ h₂
    obtain ⟨c', h', hwin⟩ := updateFirst_window hc₂ hl₂ (by omega)
    refine ⟨c', _, ?_, hwin, rfl⟩
    rw [update_eq h₁ hc₁ hl₁ (by omega) (by rw [inRange, if_pos (by simpa using hv₁), hm₁, h₂]), h']
  -- it still points to an earlier buffer, and the loop is left out
  have hskip : ∀ {c₁ : IovecContainer} {v₁ : Iovec}, cleanup c.cbufs.length 0 c = some c₁ →
      Loose c₁ v₁ count (done / commonBufSize) (done / commonBufSize) →
      v₁.cbuf ≠ done / commonBufSize →
      ∃ c', c.update = some c' ∧ Window c' count (done / commonBufSize) (done / commonBufSize) read := by
    intro c₁ v₁ h₁ hl₁ hv₁
    obtain ⟨hc₁, -⟩ := cleanup_cursors _ h hfuel h₁
    obtain ⟨c', h', hwin⟩ := updateFirst_window hc₁ hl₁ (by omega)
    refine ⟨c', ?_, hwin⟩
    rw [update_eq h₁ hc₁ hl₁ (by omega) (if_neg (by simp [inRange, hv₁])), h']
  by_cases hin : done / commonBufSize ≤ w
  · obtain ⟨c₁, h₁, hl₁⟩ := cleanup_inside c.cbufs.length 0 h hl (by omega) hin hfuel
    obtain ⟨c', w', h', hwin, hw'⟩ := hloop (by omega) h₁ hl₁ hv
    exact ⟨c', w', h', hwin, .inl hw'⟩
  · have hE' : done / commonBufSize ≤ first + rotations count := by omega
    by_cases hone : done / commonBufSize = first + 1
    · obtain rfl : w = first := by omega
      obtain ⟨c₁, h₁, hl₁⟩ := cleanup_one (m + 1) h hl (by omega) hone
      rw [← hm] at h₁
      rw [← hone] at hl₁
      obtain ⟨c', w', h', hwin, hw'⟩ := hloop (by omega) h₁ hl₁ ⟨rfl, Nat.zero_le _⟩
      exact ⟨c', w', h', hwin, .inl hw'⟩
    · obtain rfl : count = 2 := by
        by_contra hc
        rw [rotations, if_neg hc] at hE'
        omega
      rw [rotations, if_pos rfl] at hE'
      have htwo : done / commonBufSize = first + 2 := by omega
      have hread : read / commonBufSize ≤ w + 2 := by
        rw [hnext] at hroom
        rw [commonBufSize_eq] at *
        omega
      rcases Nat.eq_or_lt_of_le hle with rfl | hlt
      · obtain ⟨c₁, h₁, hl₁⟩ := cleanup_two m h hl htwo
        rw [← hm] at h₁
        rw [← htwo] at hl₁
        obtain ⟨c', h', hwin⟩ := hskip h₁ hl₁ (by dsimp only; omega)
        exact ⟨c', _, h', hwin, .inl (by omega)⟩
      · obtain rfl : w = first + 1 := by omega
        obtain ⟨c₁, h₁, hl₁⟩ := cleanup_skip m h hl htwo
        rw [← hm] at h₁
        rw [← htwo] at hl₁
        obtain ⟨c', h', hwin⟩ := hskip h₁ hl₁ (by omega)
        refine ⟨c', _, h', hwin, ?_⟩
        omega

end overflow

section placed

variable {stream : Nat → UInt8}

theorem Window.loose {c : IovecContainer} {count first w read : Nat} (h : Window c count first w read) :
    Loose c ⟨w, min commonBufSize (read - commonBufSize * w),
      commonBufSize - min commonBufSize (read - commonBufSize * w)⟩ count first w :=
  ⟨h.vec, h.next, h.overflow, h.le⟩

/-- A read of `n` bytes goes to the free space of the buffers, in order. -/
def Placed (vec : List Iovec) (read n : Nat) : Prop :=
  ∀ (src : Nat → UInt8) (mem : Nat → Nat → UInt8) (b i : Nat), scatter src vec n mem b i =
    if i < commonBufSize ∧ read ≤ commonBufSize * b + i ∧ commonBufSize * b + i < read + n then
      src (commonBufSize * b + i - read) else mem b i

theorem placed_cons {vec : List Iovec} {w o n : Nat} (ho : o ≤ commonBufSize)
    (h : Placed vec (commonBufSize * (w + 1)) (n - min n (commonBufSize - o))) :
    Placed (⟨w, o, commonBufSize - o⟩ :: vec) (commonBufSize * w + o) n := by
  intro src mem b i
  rw [scatter, h]
  dsimp only
  rw [commonBufSize_eq] at *
  by_cases hb : b = w
  · subst hb
    rw [if_neg (by omega)]
    by_cases hi : o ≤ i ∧ i < o + min n (131072 - o)
    · rw [if_pos ⟨rfl, hi⟩, if_pos (by omega)]
      exact congrArg src (by omega)
    · rw [if_neg (by omega), if_neg (by omega)]
  · by_cases hi : i < 131072 ∧ 131072 * (w + 1) ≤ 131072 * b + i ∧
        131072 * b + i < 131072 * (w + 1) + (n - min n (131072 - o))
    · rw [if_pos hi, if_pos (by omega)]
      exact congrArg src (by omega)
    · rw [if_neg hi, if_neg (fun hw => hb hw.1), if_neg (by omega)]

theorem placed_entries (m : Nat) : ∀ (w n : Nat), n ≤ commonBufSize * m →
    Placed (entries w m) (commonBufSize * w) n := by
  induction m with
  | zero =>
    intro w n hn src mem b i
    rw [if_neg (by omega)]
    rfl
  | succ m ih =>
    intro w n hn
    rw [Nat.mul_succ] at hn
    rw [entries_succ]
    exact placed_cons (Nat.zero_le _) (ih (w + 1) _ (by omega))

theorem Window.space_eq {c : IovecContainer} {count first read : Nat}
    (h : Window c count first (read / commonBufSize) read) :
    space c.vec = commonBufSize - read % commonBufSize + commonBufSize * (count - 1) := by
  have hmin : min commonBufSize (read - commonBufSize * (read / commonBufSize)) =
      read % commonBufSize := by
    rw [commonBufSize_eq]
    omega
  rw [h.vec, hmin, ← space_entries (read / commonBufSize + 1)]
  rfl

theorem Window.room {c : IovecContainer} {count first read n : Nat}
    (h : Window c count first (read / commonBufSize) read) (hcount : 0 < count)
    (hn : n ≤ space c.vec) : read + n ≤ commonBufSize * c.next := by
  rw [h.space_eq] at hn
  rw [h.next]
  obtain ⟨m, rfl⟩ : ∃ m, count = m + 1 := ⟨count - 1, by omega⟩
  rw [commonBufSize_eq, Nat.add_sub_cancel] at *
  omega

theorem Window.placed {c : IovecContainer} {count first read n : Nat}
    (h : Window c count first (read / commonBufSize) read) (hn : n ≤ space c.vec) :
    Placed c.vec read n := by
  have hmin : min commonBufSize (read - commonBufSize * (read / commonBufSize)) =
      read % commonBufSize := by
    rw [commonBufSize_eq]
    omega
  have hread : read = commonBufSize * (read / commonBufSize) + read % commonBufSize :=
    (Nat.div_add_mod _ _).symm
  have hvec := h.vec
  rw [hmin] at hvec
  have hspace := h.space_eq
  have hp := placed_cons (Nat.le_of_lt (Nat.mod_lt read (show 0 < commonBufSize by decide)))
    (placed_entries (count - 1) (read / commonBufSize + 1)
      (n - min n (commonBufSize - read % commonBufSize)) (by omega))
  rw [← hvec, ← hread] at hp
  exact hp

theorem Placed.layout {c : IovecContainer} {read n : Nat} (h : Placed c.vec read n)
    (hl : Layout stream c.mem read) :
    Layout stream (scatter (fun i => stream (read + i)) c.vec n c.mem) (read + n) := by
  intro b i hi hlt
  rw [h]
  split
  · congr 1
    omega
  · exact hl b i hi (by omega)

theorem Placed.improves {c : IovecContainer} {read n : Nat} (h : Placed c.vec read n) :
    Improves stream c.mem (scatter (fun i => stream (read + i)) c.vec n c.mem) := by
  intro b i hb
  rw [h]
  split
  · congr 1
    omega
  · exact hb

end placed

end Sstoraged.TokenWindow
