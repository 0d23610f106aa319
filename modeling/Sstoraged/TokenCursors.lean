import Sstoraged.Tokenizer

namespace Sstoraged.TokenCursors

open IovecContainer

theorem commonBufSize_eq : commonBufSize = 131072 := rfl

/-- The cursors of a chain of buffers over a stream: buffer `k` is for the bytes
from `commonBufSize * k` on, `first` is the buffer in front, `done` bytes of the
stream are taken as tokens and `read` bytes are received. -/
structure Cursors (c : IovecContainer) (first done read : Nat) : Prop where
  cbufs : c.cbufs = List.range' first (c.next - first)
  first_le : commonBufSize * first ≤ done
  done_le : done ≤ read
  room : read ≤ commonBufSize * c.next
  bufs : ∀ k, first ≤ k → k < c.next → c.bufs k =
    ⟨min commonBufSize (done - commonBufSize * k), min commonBufSize (read - commonBufSize * k)⟩

theorem Cursors.congr {c c' : IovecContainer} {first done read : Nat} (h : Cursors c first done read)
    (hcbufs : c'.cbufs = c.cbufs) (hnext : c'.next = c.next) (hbufs : c'.bufs = c.bufs) :
    Cursors c' first done read :=
  ⟨by rw [hcbufs, hnext, h.cbufs], h.first_le, h.done_le, by rw [hnext]; exact h.room,
    by rw [hnext, hbufs]; exact h.bufs⟩

/-- Nothing but the cursors of the buffers has changed. -/
structure Same (c c' : IovecContainer) : Prop where
  vec : c'.vec = c.vec
  cbufs : c'.cbufs = c.cbufs
  overflow : c'.overflow = c.overflow
  mem : c'.mem = c.mem
  next : c'.next = c.next

theorem Same.refl (c : IovecContainer) : Same c c := ⟨rfl, rfl, rfl, rfl, rfl⟩

theorem Same.trans {c c' c'' : IovecContainer} (h : Same c c') (h' : Same c' c'') : Same c c'' :=
  ⟨h'.vec.trans h.vec, h'.cbufs.trans h.cbufs, h'.overflow.trans h.overflow, h'.mem.trans h.mem,
    h'.next.trans h.next⟩

theorem fillTails_eq (len : Nat) : ∀ (first read n : Nat) (bufs : Nat → CommonBuf),
    commonBufSize * first ≤ read → read + n ≤ commonBufSize * (first + len) →
    (∀ k, first ≤ k → k < first + len → (bufs k).tail = min commonBufSize (read - commonBufSize * k)) →
    (fillTails (List.range' first len) n bufs).1 = 0 ∧
      ∀ k, (fillTails (List.range' first len) n bufs).2 k = if first ≤ k ∧ k < first + len then
        ⟨(bufs k).offset, min commonBufSize (read + n - commonBufSize * k)⟩ else bufs k := by
  simp only [commonBufSize_eq]
  induction len with
  | zero =>
    intro first read n bufs hfirst hroom htail
    have hn : n = 0 := by omega
    subst hn
    refine ⟨rfl, fun k => ?_⟩
    rw [if_neg (by omega)]
    rfl
  | succ len ih =>
    intro first read n bufs hfirst hroom htail
    rw [List.range'_succ, fillTails]
    by_cases hn : n = 0
    · subst hn
      rw [if_pos rfl]
      refine ⟨rfl, fun k => ?_⟩
      split
      · rename_i hk
        have h := htail k hk.1 hk.2
        rw [Nat.add_zero, ← h]
      · rfl
    · rw [if_neg hn]
      have htail₀ := htail first (Nat.le_refl _) (by omega)
      have hcap : (bufs first).getCapacity = 131072 - min 131072 (read - 131072 * first) := by
        rw [CommonBuf.getCapacity, htail₀]
        rfl
      obtain ⟨cap, hcapdef⟩ : ∃ cap, cap = (bufs first).getCapacity := ⟨_, rfl⟩
      rw [hcap] at hcapdef
      dsimp only
      rw [hcap, ← hcapdef]
      by_cases hlt : cap < n
      · rw [if_pos hlt]
        have hstep : (bufs first).stepForwardTail cap = ⟨(bufs first).offset, 131072⟩ := by
          rw [CommonBuf.stepForwardTail, if_neg, htail₀]
          · congr 1
            omega
          · rw [CommonBuf.getSize, commonBufSize_eq, htail₀]
            omega
        obtain ⟨hz, hbufs⟩ := ih (first + 1) (read + cap) (n - cap)
          (Function.update bufs first ((bufs first).stepForwardTail cap)) (by omega) (by omega)
          (fun k h₁ h₂ => by
            rw [Function.update_of_ne (by omega), htail k (by omega) (by omega)]
            rcases Nat.eq_zero_or_pos cap with hz | hz
            · rw [hz, Nat.add_zero]
            · omega)
        refine ⟨hz, fun k => ?_⟩
        rw [hbufs k]
        by_cases hk : k = first
        · subst hk
          rw [if_neg (by omega), if_pos (by omega), Function.update_self, hstep]
          congr 1
          omega
        · have hsum : read + cap + (n - cap) = read + n := by omega
          rw [Function.update_of_ne hk, hsum]
          by_cases hin : first + 1 ≤ k ∧ k < first + 1 + len
          · rw [if_pos hin, if_pos (by omega)]
          · rw [if_neg hin, if_neg (by omega)]
      · rw [if_neg hlt]
        have hstep : (bufs first).stepForwardTail n =
            ⟨(bufs first).offset, min 131072 (read + n - 131072 * first)⟩ := by
          rw [CommonBuf.stepForwardTail, if_neg, htail₀]
          · congr 1
            omega
          · rw [CommonBuf.getSize, commonBufSize_eq, htail₀]
            omega
        refine ⟨rfl, fun k => ?_⟩
        by_cases hk : k = first
        · subst hk
          dsimp only
          rw [if_pos (by omega), Function.update_self, hstep]
        · dsimp only
          rw [Function.update_of_ne hk]
          split
          · rename_i hin
            have h := htail k hin.1 (by omega)
            have hz : (bufs k).tail = min 131072 (read + n - 131072 * k) := by
              rw [h]
              omega
            rw [← hz]
          · rfl

theorem stepForwardTail_cursors {c : IovecContainer} {first done read n : Nat}
    (h : Cursors c first done read) (hfirst : first ≤ c.next)
    (hn : read + n ≤ commonBufSize * c.next) :
    ∃ c', c.stepForwardTail n = (true, c') ∧ Cursors c' first done (read + n) ∧ Same c c' := by
  have hlen : first + (c.next - first) = c.next := by omega
  have hdone := h.done_le
  obtain ⟨hz, hbufs⟩ := fillTails_eq (c.next - first) first read n c.bufs
    (Nat.le_trans h.first_le h.done_le) (by rwa [hlen])
    (fun k h₁ h₂ => by rw [h.bufs k h₁ (by omega)])
  rw [← h.cbufs] at hz hbufs
  refine ⟨{ c with bufs := (fillTails c.cbufs n c.bufs).2 }, ?_,
    ⟨h.cbufs, h.first_le, by omega, hn, fun k h₁ h₂ => ?_⟩,
    ⟨rfl, rfl, rfl, rfl, rfl⟩⟩
  · rw [stepForwardTail]
    dsimp only
    rw [hz]
    rfl
  · replace h₂ : k < c.next := h₂
    change (fillTails c.cbufs n c.bufs).2 k = _
    rw [hbufs k, if_pos (by omega), h.bufs k h₁ h₂]

theorem find_range' {p : Nat → Bool} {a k : Nat} (hp : p k = true) (hak : a ≤ k)
    (hq : ∀ i, a ≤ i → i < k → p i = false) (len : Nat) (hlen : k < a + len) :
    (List.range' a len).find? p = some k := by
  induction len generalizing a with
  | zero => omega
  | succ len ih =>
    rw [List.range'_succ, List.find?_cons]
    rcases Nat.eq_or_lt_of_le hak with rfl | hlt
    · rw [hp]
    · rw [hq a (Nat.le_refl _) hlt]
      exact ih (by omega) (fun i h₁ h₂ => hq i (by omega) h₂) (by omega)

theorem stepForwardOffset_cursors {c : IovecContainer} {first done read n : Nat}
    (h : Cursors c first done read) (hn : 0 < n) (hle : done + n ≤ read) :
    ∃ c' k step, c.stepForwardOffset n = some (k, n - step, c') ∧ k = done / commonBufSize ∧
      step = min n (commonBufSize * (k + 1) - done) ∧ Cursors c' first (done + step) read ∧
        Same c c' := by
  have hfirst := h.first_le
  have hroom := h.room
  have hbufs := h.bufs
  simp only [commonBufSize_eq] at hfirst hroom hbufs ⊢
  obtain ⟨k, hk⟩ : ∃ k, k = done / 131072 := ⟨_, rfl⟩
  have hkn : k < c.next := by omega
  have hbk := hbufs k (by omega) hkn
  have hfind : (c.cbufs.find? fun b => !(c.bufs b).atEnd) = some k := by
    rw [h.cbufs]
    apply find_range' _ (by omega) _ _ (by omega)
    · simp only [CommonBuf.atEnd, CommonBuf.getSize, commonBufSize_eq, hbk, Bool.not_eq_true',
        decide_eq_false_iff_not]
      omega
    · intro i h₁ h₂
      simp only [CommonBuf.atEnd, CommonBuf.getSize, commonBufSize_eq, hbufs i h₁ (by omega),
        Bool.not_eq_false', decide_eq_true_eq]
      omega
  have hremain : (c.bufs k).getRemain =
      min 131072 (read - 131072 * k) - (done - 131072 * k) := by
    rw [CommonBuf.getRemain, hbk]
    dsimp only
    omega
  -- a step inside the buffer, which may end at its edge
  have hstep : ∀ step remain, step ≤ n → done + step ≤ 131072 * (k + 1) →
      Cursors { c with bufs := Function.update c.bufs k ((c.bufs k).stepForwardOffset step), remain }
        first (done + step) read := by
    intro step remain h₁ h₂
    refine ⟨h.cbufs, by rw [commonBufSize_eq]; omega, by omega, h.room, fun i h₃ h₄ => ?_⟩
    replace h₄ : i < c.next := h₄
    rw [commonBufSize_eq]
    dsimp only
    by_cases hi : i = k
    · subst hi
      rw [Function.update_self, CommonBuf.stepForwardOffset, if_neg (by omega), hbk]
      dsimp only
      congr 1
      omega
    · rw [Function.update_of_ne hi, hbufs i h₃ h₄]
      congr 1
      omega
  by_cases hlt : (c.bufs k).getRemain < n
  · have hr : (c.bufs k).getRemain = 131072 * (k + 1) - done := by omega
    refine ⟨_, k, (c.bufs k).getRemain, ?_, hk, by omega,
      hstep _ (c.remain - (c.bufs k).getRemain) (by omega) (by omega),
      ⟨rfl, rfl, rfl, rfl, rfl⟩⟩
    rw [stepForwardOffset, hfind, Option.map_some]
    dsimp only
    rw [if_pos hlt]
  · refine ⟨_, k, n, ?_, hk, by omega, hstep _ c.remain (Nat.le_refl _) (by omega),
      ⟨rfl, rfl, rfl, rfl, rfl⟩⟩
    rw [stepForwardOffset, hfind, Option.map_some]
    dsimp only
    rw [if_neg hlt, Nat.sub_self]

theorem takeCbufs_cursors (fuel : Nat) : ∀ {c : IovecContainer} {first done read n : Nat},
    Cursors c first done read → 0 < n → done + n ≤ read →
    (done + n - 1) / commonBufSize - done / commonBufSize < fuel →
    ∃ c', takeCbufs fuel n c = some (List.range' (done / commonBufSize)
        ((done + n - 1) / commonBufSize - done / commonBufSize + 1), c') ∧
      Cursors c' first (done + n) read ∧ Same c c' := by
  induction fuel with
  | zero =>
    intro c first done read n h hn hle hfuel
    omega
  | succ fuel ih =>
    intro c first done read n h hn hle hfuel
    obtain ⟨c₁, k, step, heq, hk, hstep, h₁, hs⟩ := stepForwardOffset_cursors h hn hle
    rw [← hk] at hfuel ⊢
    rw [takeCbufs, if_neg (by omega), heq, Option.bind_some]
    dsimp only
    rw [commonBufSize_eq] at *
    by_cases hz : n - step = 0
    · have hsn : step = n := by omega
      have hlast : (done + n - 1) / 131072 = k := by omega
      refine ⟨c₁, ?_, hsn ▸ h₁, hs⟩
      rw [hz, hlast, Nat.sub_self]
      cases fuel <;> rfl
    · have hnext : (done + step) / 131072 = k + 1 := by omega
      have hsum : done + step + (n - step) = done + n := by omega
      obtain ⟨c₂, heq₂, h₂, hs₂⟩ := ih h₁ (Nat.pos_of_ne_zero hz) (by omega) (by
        rw [hnext, hsum]
        omega)
      rw [hnext, hsum] at heq₂
      rw [hsum] at h₂
      refine ⟨c₂, ?_, h₂, hs.trans hs₂⟩
      have hlen : (done + n - 1) / 131072 - k = (done + n - 1) / 131072 - (k + 1) + 1 := by omega
      rw [heq₂, Option.map_some, hlen]
      rfl

theorem Cursors.rotate {c c' : IovecContainer} {first done read index : Nat}
    (h : Cursors c first done read) (hfirst : first ≤ c.next) (hr : c.rotate index = some c') :
    Cursors c' first done read ∧ c'.mem = c.mem ∧ c'.next = c.next + 1 ∧ c'.overflow = c.overflow := by
  rw [IovecContainer.rotate] at hr
  split at hr
  · cases hr
  · obtain rfl := Option.some.inj hr
    have hroom := h.room
    have hdone := h.done_le
    rw [commonBufSize_eq] at hroom
    refine ⟨⟨?_, h.first_le, h.done_le, ?_, fun k h₁ h₂ => ?_⟩, rfl, rfl, rfl⟩
    · have hlen : c.next + 1 - first = c.next - first + 1 := by omega
      have hlast : first + 1 * (c.next - first) = c.next := by omega
      change c.cbufs ++ [c.next] = List.range' first (c.next + 1 - first)
      rw [hlen, List.range'_concat, hlast, h.cbufs]
    · change read ≤ commonBufSize * (c.next + 1)
      rw [commonBufSize_eq]
      omega
    · replace h₂ : k < c.next + 1 := h₂
      change Function.update c.bufs c.next .new k = _
      by_cases hk : k = c.next
      · rw [hk, Function.update_self, commonBufSize_eq, CommonBuf.new]
        congr 1 <;> omega
      · rw [Function.update_of_ne hk, h.bufs k h₁ (by omega)]

theorem Cursors.tail {c : IovecContainer} {first done read b : Nat} {cbufs : List Nat}
    (h : Cursors c first done read) (hc : c.cbufs = b :: cbufs)
    (hend : commonBufSize * (first + 1) ≤ done) :
    b = first ∧ first < c.next ∧
      ∀ overflow, Cursors { c with cbufs, overflow } (first + 1) done read := by
  have hcbufs := h.cbufs
  rw [hc] at hcbufs
  have hlt : first < c.next := by
    apply Nat.lt_of_sub_pos
    apply Nat.pos_of_ne_zero
    intro hz
    rw [hz] at hcbufs
    cases hcbufs
  have hlen : c.next - first = c.next - (first + 1) + 1 := by omega
  rw [hlen, List.range'_succ] at hcbufs
  obtain ⟨hb, htail⟩ := List.cons.inj hcbufs
  exact ⟨hb, hlt, fun _ => ⟨htail, hend, h.done_le, h.room, fun k h₁ h₂ => h.bufs k (by omega) h₂⟩⟩

theorem Cursors.atEnd_front {c : IovecContainer} {first done read b : Nat} {cbufs : List Nat}
    (h : Cursors c first done read) (hc : c.cbufs = b :: cbufs) :
    b = first ∧ ((c.bufs b).atEnd = true ↔ commonBufSize * (first + 1) ≤ done) := by
  have hcbufs := h.cbufs
  rw [hc] at hcbufs
  obtain ⟨n, hn⟩ : ∃ n, c.next - first = n + 1 := by
    cases hlen : c.next - first with
    | zero =>
      rw [hlen] at hcbufs
      cases hcbufs
    | succ n => exact ⟨n, rfl⟩
  rw [hn, List.range'_succ] at hcbufs
  obtain ⟨rfl, -⟩ := List.cons.inj hcbufs
  refine ⟨rfl, ?_⟩
  have hfirst := h.first_le
  rw [CommonBuf.atEnd, h.bufs b (Nat.le_refl _) (by omega), CommonBuf.getSize, decide_eq_true_eq]
  dsimp only
  rw [commonBufSize_eq] at hfirst ⊢
  omega

theorem cleanup_cursors (fuel : Nat) : ∀ {c c' : IovecContainer} {first done read index : Nat},
    Cursors c first done read → done / commonBufSize ≤ first + fuel →
    cleanup fuel index c = some c' →
    Cursors c' (done / commonBufSize) done read ∧ c'.mem = c.mem := by
  induction fuel with
  | zero =>
    intro c c' first done read index h hfuel heq
    have hle := h.first_le
    rw [commonBufSize_eq] at *
    have hfirst : done / 131072 = first := by omega
    obtain rfl := Option.some.inj heq
    exact ⟨hfirst ▸ h, rfl⟩
  | succ fuel ih =>
    intro c c' first done read index h hfuel heq
    have hle := h.first_le
    have hdone := h.done_le
    have hroom := h.room
    cases hc : c.cbufs with
    | nil =>
      have hlen := h.cbufs
      rw [hc, eq_comm, List.range'_eq_nil_iff] at hlen
      have hfirst : done / commonBufSize = first := by
        rw [commonBufSize_eq] at *
        omega
      rw [cleanup, hc] at heq
      obtain rfl := Option.some.inj heq
      exact ⟨hfirst.symm ▸ h, rfl⟩
    | cons b cbufs =>
      obtain ⟨-, hend⟩ := h.atEnd_front hc
      rw [cleanup, hc] at heq
      dsimp only at heq
      by_cases he : (c.bufs b).atEnd = true
      · obtain ⟨-, hlt, htail⟩ := h.tail hc (hend.mp he)
        rw [if_pos he] at heq
        split at heq
        · obtain ⟨h', hmem⟩ := ih (htail (c.overflow - 1)) (by omega) heq
          exact ⟨h', hmem⟩
        · obtain ⟨c₁, hr, heq⟩ := Option.bind_eq_some_iff.mp heq
          obtain ⟨h₁, hmem₁, -, -⟩ := (htail c.overflow).rotate hlt hr
          obtain ⟨h', hmem⟩ := ih h₁ (by omega) heq
          exact ⟨h', hmem.trans hmem₁⟩
      · rw [if_neg he] at heq
        obtain rfl := Option.some.inj heq
        rw [hend] at he
        have hfirst : done / commonBufSize = first := by
          rw [commonBufSize_eq] at *
          omega
        exact ⟨hfirst.symm ▸ h, rfl⟩

theorem overflowLoop_cursors (fuel : Nat) : ∀ {c c' : IovecContainer} {first done read index : Nat},
    Cursors c first done read → overflowLoop fuel index c = some c' →
    Cursors c' first done read ∧ c'.mem = c.mem := by
  induction fuel with
  | zero =>
    intro c c' first done read index h heq
    obtain rfl := Option.some.inj heq
    exact ⟨h, rfl⟩
  | succ fuel ih =>
    intro c c' first done read index h heq
    rw [overflowLoop] at heq
    split at heq
    · obtain rfl := Option.some.inj heq
      exact ⟨h, rfl⟩
    · rename_i b hb
      split at heq
      · obtain ⟨c₁, hr, heq⟩ := Option.bind_eq_some_iff.mp heq
        have hlt : first ≤ c.next := by
          have hlen := (List.getElem?_eq_some_iff.mp hb).1
          rw [h.cbufs, List.length_range'] at hlen
          omega
        obtain ⟨h₁, hmem₁, -, -⟩ := h.rotate hlt hr
        have h₂ : Cursors { c₁ with overflow := c₁.overflow + 1 } first done read :=
          h₁.congr rfl rfl rfl
        obtain ⟨h', hmem⟩ := ih h₂ heq
        exact ⟨h', hmem.trans hmem₁⟩
      · obtain rfl := Option.some.inj heq
        exact ⟨h, rfl⟩

theorem update_cursors {c c' : IovecContainer} {first done read : Nat}
    (h : Cursors c first done read) (hfirst : done / commonBufSize ≤ first + c.cbufs.length)
    (heq : c.update = some c') :
    Cursors c' (done / commonBufSize) done read ∧ c'.mem = c.mem := by
  rw [update] at heq
  obtain ⟨c₁, h₁, heq⟩ := Option.bind_eq_some_iff.mp heq
  obtain ⟨b, -, heq⟩ := Option.bind_eq_some_iff.mp heq
  obtain ⟨v, -, heq⟩ := Option.bind_eq_some_iff.mp heq
  obtain ⟨c₂, h₂, heq⟩ := Option.bind_eq_some_iff.mp heq
  obtain ⟨b', -, rfl⟩ := Option.map_eq_some_iff.mp heq
  obtain ⟨hc₁, hmem₁⟩ := cleanup_cursors _ h hfirst h₁
  have hc₂ : Cursors c₂ (done / commonBufSize) done read ∧ c₂.mem = c₁.mem := by
    split at h₂
    · exact overflowLoop_cursors _ hc₁ h₂
    · obtain rfl := Option.some.inj h₂
      exact ⟨hc₁, rfl⟩
  exact ⟨hc₂.1.congr rfl rfl rfl, hc₂.2.trans hmem₁⟩

end Sstoraged.TokenCursors
