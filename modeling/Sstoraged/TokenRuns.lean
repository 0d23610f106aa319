import Mathlib.Data.Nat.Find
import Sstoraged.Runs
import Sstoraged.TokenData
import Sstoraged.TokenWindow

namespace Sstoraged.TokenRuns

open IovecContainer TokenCursors TokenStream TokenData TokenWindow

variable {stream : Nat → UInt8}

/-- The end of the next PDU if it ends in the first `read` bytes, else its begin. -/
def nextStart (stream : Nat → UInt8) (k read : Nat) : Nat :=
  if pduStart stream (k + 1) ≤ read then pduStart stream (k + 1) else pduStart stream k

/-- One update behind `k` PDUs needs no more rotations than the array of `count`
entries from buffer `w` on can bear. -/
structure FewRotations (stream : Nat → UInt8) (count k w read : Nat) : Prop where
  cleanup : nextStart stream k read / commonBufSize ≤ w ∨ nextStart stream k read / commonBufSize ≤
    pduStart stream k / commonBufSize + rotations count
  overflow : read / commonBufSize ≤
    max w (nextStart stream k read / commonBufSize) + rotations count

theorem multiTokens_window {count : Nat} (hcount : 2 ≤ count) (fuel : Nat) :
    ∀ {buf : IovecContainer} {tok : ISCSITokenizer} {k w read : Nat} {v : Iovec},
    Received stream buf k read → Pending stream tok k read →
    Loose buf v count (pduStart stream k / commonBufSize) w → v.cbuf = w ∧ v.offset ≤ commonBufSize →
    w ≤ read / commonBufSize → FewRotations stream count k w read → tok.offset < fuel →
    ∃ buf' tok' k', ISCSITokenizer.multiTokens fuel buf tok = some (buf', tok') ∧
      pduStart stream k' ≤ read ∧ read < pduStart stream (k' + 1) ∧
      Window buf' count (pduStart stream k' / commonBufSize) (read / commonBufSize) read := by
  induction fuel with
  | zero =>
    intro buf tok k w read v h hp hl hv hw hfew hfuel
    omega
  | succ fuel ih =>
    intro buf tok k w read v h hp hl hv hw hfew hfuel
    have hoff := hp.offset
    have hdone := h.cursors.done_le
    have hlt := @pduStart_lt stream k
    have hsucc := @pduStart_succ stream k
    -- the PDU in front is not whole, and the space is updated once
    have hrest : ∀ {buf₁ : IovecContainer}, Received stream buf₁ k read →
        Loose buf₁ v count (pduStart stream k / commonBufSize) w → read < pduStart stream (k + 1) →
        ∃ buf', buf₁.update = some buf' ∧
          Window buf' count (pduStart stream k / commonBufSize) (read / commonBufSize) read := by
      intro buf₁ h₁ hl₁ hlt₁
      have hR := hfew.overflow
      rw [nextStart, if_neg (by omega)] at hR
      obtain ⟨buf', w', heq, hwin, hw'⟩ := update_window h₁.cursors hl₁ hv hcount hw (.inl hl₁.le) hR
      have hww : w' = read / commonBufSize := by omega
      exact ⟨buf', heq, hww ▸ hwin⟩
    rw [ISCSITokenizer.multiTokens]
    split
    · rename_i hhead
      obtain ⟨buf', heq, hwin⟩ := hrest h hl (by omega)
      exact ⟨buf', tok, k, by rw [heq, Option.map_some], hdone, by omega, hwin⟩
    · rename_i hhead
      have h48 : sizeofHeader ≤ tok.offset := by
        cases hs : tok.status with
        | tokenHead => exact Nat.le_of_not_lt fun hlt => hhead ⟨hs, hlt⟩
        | tokenPartial => exact hp.status hs
      obtain ⟨buf₁, hjoin, hr₁, -, hheader, hfront, hpos, hvec, hov, hnx⟩ :=
        joinHeader_received h (by omega)
      have hl₁ : Loose buf₁ v count (pduStart stream k / commonBufSize) w :=
        ⟨hvec.trans hl.vec, hnx.trans hl.next, hov.trans hl.overflow, hl.le⟩
      have hlen : (Parser.mk (headerAt buf₁.mem (pduStart stream k / commonBufSize)
          (pduStart stream k % commonBufSize))).getPDUlength = pduLength stream (pduStart stream k) :=
        getPDUlength_congr hheader
      rw [hjoin, Option.bind_some, hfront, Option.bind_some, hpos]
      dsimp only
      rw [hlen]
      split
      · obtain ⟨buf', heq, hwin⟩ := hrest hr₁ hl₁ (by omega)
        exact ⟨buf', _, k, by rw [heq, Option.map_some], hdone, by omega, hwin⟩
      · rename_i hwhole
        have hle : pduStart stream (k + 1) ≤ read := by omega
        obtain ⟨buf₂, htake, hs, hc₂⟩ := takeCbufs_received hr₁ hle
        have hl₂ : Loose buf₂ v count (pduStart stream k / commonBufSize) w :=
          ⟨hs.vec.trans hl₁.vec, hs.next.trans hl₁.next, hs.overflow.trans hl₁.overflow, hl₁.le⟩
        have hlay₂ : Layout stream buf₂.mem read := hs.mem ▸ hr₁.layout
        have hE := hfew.cleanup
        have hR := hfew.overflow
        rw [nextStart, if_pos hle] at hE hR
        obtain ⟨buf₃, w', heq, hwin, hw'⟩ := update_window hc₂ hl₂ hv hcount hw hE hR
        obtain ⟨hr₃, -⟩ := update_received hc₂ hlay₂ heq
        rw [htake, Option.bind_some]
        dsimp only
        split
        · rename_i hmore
          have hww : w' ≤ read / commonBufSize := by omega
          have hpos := rotations_pos count
          have hnextle : nextStart stream (k + 1) read / commonBufSize ≤ read / commonBufSize := by
            apply Nat.div_le_div_right
            rw [nextStart]
            split <;> omega
          rw [heq, Option.bind_some]
          apply ih hr₃ ⟨by dsimp only; omega, fun hst => by cases hst⟩ hwin.loose
            ⟨rfl, Nat.min_le_left _ _⟩ hww ⟨by omega, by omega⟩
          have hge := @pduLength_ge stream (pduStart stream k)
          rw [sizeofHeader] at hge
          dsimp only
          omega
        · rename_i hmore
          have hlt' := @pduStart_lt stream (k + 1)
          have hread : read = pduStart stream (k + 1) := by omega
          have hww : w' = read / commonBufSize := by
            rcases hw' with hw' | ⟨hw', -, -, hlag⟩
            · exact hw'
            · rw [← hread] at hw'
              omega
          refine ⟨buf₃, _, k + 1, by rw [heq, Option.map_some], by omega, ?_, hww ▸ hwin⟩
          rw [sizeofHeader] at hlt'
          omega

theorem stepForwardTail_received {buf : IovecContainer} {k read n : Nat}
    (h : Received stream buf k read) (hp : Placed buf.vec read n)
    (hn : read + n ≤ commonBufSize * buf.next) :
    ∃ buf',
      stepForwardTail { buf with mem := scatter (fun i => stream (read + i)) buf.vec n buf.mem } n =
        (true, buf') ∧ Received stream buf' k (read + n) ∧ Improves stream buf.mem buf'.mem ∧
      buf'.vec = buf.vec ∧ buf'.next = buf.next ∧ buf'.overflow = buf.overflow := by
  have hc : Cursors { buf with mem := scatter (fun i => stream (read + i)) buf.vec n buf.mem }
      (pduStart stream k / commonBufSize) (pduStart stream k) read := h.cursors.congr rfl rfl rfl
  have hle : pduStart stream k / commonBufSize ≤ buf.next := by
    have hroom := h.cursors.room
    have hdone := h.cursors.done_le
    rw [commonBufSize_eq] at *
    omega
  obtain ⟨buf', heq, hc', hs⟩ := stepForwardTail_cursors hc hle hn
  have hmem := hs.mem
  refine ⟨buf', heq, ⟨hc', ?_⟩, ?_, hs.vec, hs.next, hs.overflow⟩
  · rw [hmem]
    exact hp.layout h.layout
  · rw [hmem]
    exact hp.improves

theorem Pending.more {tok : ISCSITokenizer} {k read : Nat} (h : Pending stream tok k read)
    (hle : pduStart stream k ≤ read) (n : Nat) :
    Pending stream { tok with offset := tok.offset + n } k (read + n) := by
  have hoff := h.offset
  refine ⟨by dsimp only; omega, fun hs => ?_⟩
  have hst := h.status hs
  dsimp only
  omega

theorem push_received {buf buf' : IovecContainer} {tok tok' : ISCSITokenizer}
    {k read n : Nat} {ok : Bool}
    (h : Received stream buf k read) (hp : Pending stream tok k read) (hplaced : Placed buf.vec read n)
    (hn : read + n ≤ commonBufSize * buf.next)
    (heq : ISCSITokenizer.push
      { buf with mem := scatter (fun i => stream (read + i)) buf.vec n buf.mem } tok n =
        some (ok, buf', tok')) :
    ok = true ∧ ∃ k', Pushed stream k k' (read + n) buf.mem tok.bhss buf' tok' := by
  obtain ⟨buf₁, htail, hr₁, himp, -⟩ := stepForwardTail_received h hplaced hn
  rw [ISCSITokenizer.push, htail] at heq
  dsimp only at heq
  rw [if_neg (by decide)] at heq
  obtain ⟨⟨buf₂, tok₂⟩, hm, heq⟩ := Option.map_eq_some_iff.mp heq
  cases heq
  obtain ⟨k', hpush⟩ := multiTokens_received _ hr₁ (Pending.more hp h.cursors.done_le n) hm
  exact ⟨rfl, k', hpush.le, hpush.received, hpush.pending, hpush.rest, hpush.bhss,
    himp.trans hpush.improves, hpush.headers⟩

theorem push_window {buf : IovecContainer} {tok : ISCSITokenizer} {k read n count : Nat}
    (hcount : 2 ≤ count) (h : Received stream buf k read) (hp : Pending stream tok k read)
    (hw : Window buf count (pduStart stream k / commonBufSize) (read / commonBufSize) read)
    (hn : n ≤ space buf.vec) (hfew : FewRotations stream count k (read / commonBufSize) (read + n)) :
    ∃ buf' tok' k', ISCSITokenizer.push
        { buf with mem := scatter (fun i => stream (read + i)) buf.vec n buf.mem } tok n =
          some (true, buf', tok') ∧ Pushed stream k k' (read + n) buf.mem tok.bhss buf' tok' ∧
      Window buf' count (pduStart stream k' / commonBufSize) ((read + n) / commonBufSize)
        (read + n) := by
  have hplaced := hw.placed hn
  have hroom : read + n ≤ commonBufSize * buf.next := hw.room (by omega) hn
  obtain ⟨buf₁, htail, hr₁, -, hvec, hnx, hov⟩ := stepForwardTail_received h hplaced hroom
  obtain ⟨buf₂, tok₂, k₂, hm, hle, hlt, hwin⟩ := multiTokens_window hcount (tok.offset + n + 1) hr₁
    (Pending.more hp h.cursors.done_le n)
    ⟨hvec.trans hw.vec, hnx.trans hw.next, hov.trans hw.overflow, hw.le⟩ ⟨rfl, Nat.min_le_left _ _⟩
    (Nat.div_le_div_right (Nat.le_add_right _ _)) hfew (Nat.lt_succ_self _)
  have heq : ISCSITokenizer.push
      { buf with mem := scatter (fun i => stream (read + i)) buf.vec n buf.mem } tok n =
        some (true, buf₂, tok₂) := by
    rw [ISCSITokenizer.push, htail]
    dsimp only
    rw [if_neg (by decide), hm, Option.map_some]
  obtain ⟨-, k', hpush⟩ := push_received h hp hplaced hroom heq
  have hk : k' = k₂ := pduStart_unique hpush.received.cursors.done_le hpush.rest hle hlt
  exact ⟨buf₂, tok₂, k', heq, hpush, hk ▸ hwin⟩

end Sstoraged.TokenRuns
