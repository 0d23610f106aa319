import Sstoraged.CommonBuf
import Sstoraged.Iscsi

namespace Sstoraged

/-- The generators of the Login and the Text Response: the buffer of the reply, the length
of the pairs so far and the length in the header. -/
structure PairGenerator where
  cbuf : CommonBuf
  totalDlength : Nat
  dlength : Nat

abbrev LoginGenerator := PairGenerator
abbrev TextGenerator := PairGenerator

namespace PairGenerator

def new : PairGenerator := ⟨CommonBuf.new.stepForwardTail sizeofHeader, 0, 0⟩

def pairLength (key value : String) : Nat := (key ++ "=" ++ value).utf8ByteSize + 1

/-- A step of the tail that fails is not noticed. -/
def addKeyValue (g : PairGenerator) (key value : String) : PairGenerator :=
  { g with
    cbuf := g.cbuf.stepForwardTail (pairLength key value)
    totalDlength := u32 (g.totalDlength + pairLength key value) }

def serialize (g : PairGenerator) : PairGenerator :=
  { g with
    cbuf := if g.totalDlength % padWordLen ≠ 0 then
        g.cbuf.stepForwardTail (padWordLen - g.totalDlength % padWordLen)
      else g.cbuf
    dlength := g.totalDlength % 2 ^ 24 }

/-- The reply with the given pairs. -/
def reply (pairs : List (String × String)) : PairGenerator :=
  (pairs.foldl (fun g p => g.addKeyValue p.1 p.2) new).serialize

def pairsLength (pairs : List (String × String)) : Nat := (pairs.map fun p => pairLength p.1 p.2).sum

/-- The bytes handed to the sender are the header and the padded data segment. -/
def Framed (g : PairGenerator) : Prop :=
  g.cbuf.getRemain = sizeofHeader + (g.dlength + padding g.dlength)

theorem stepForwardTail_of_le {b : CommonBuf} {step : Nat} (h : b.tail + step ≤ commonBufSize) :
    b.stepForwardTail step = ⟨b.offset, b.tail + step⟩ := by
  rw [CommonBuf.stepForwardTail, CommonBuf.getSize, if_neg (Nat.not_lt.2 h)]

/-- A buffer of a reply: nothing is read from it yet. -/
structure Unread (b : CommonBuf) : Prop where
  offset : b.offset = 0
  tail : b.tail ≤ commonBufSize

theorem Unread.stepForwardTail {b : CommonBuf} (h : Unread b) (step : Nat) :
    Unread (b.stepForwardTail step) := by
  rw [CommonBuf.stepForwardTail, CommonBuf.getSize]
  split
  · exact h
  · exact ⟨h.offset, by dsimp only; omega⟩

theorem unread_foldl (pairs : List (String × String)) {g : PairGenerator} (h : Unread g.cbuf) :
    Unread (pairs.foldl (fun g p => g.addKeyValue p.1 p.2) g).cbuf := by
  induction pairs generalizing g with
  | nil => exact h
  | cons p pairs ih => exact ih (h.stepForwardTail _)

theorem pairsLength_cons (p : String × String) (pairs : List (String × String)) :
    pairsLength (p :: pairs) = pairLength p.1 p.2 + pairsLength pairs := by
  rw [pairsLength, List.map_cons, List.sum_cons, pairsLength]

theorem totalDlength_foldl (pairs : List (String × String)) {g : PairGenerator}
    (hlt : g.totalDlength + pairsLength pairs < 2 ^ 24) :
    (pairs.foldl (fun g p => g.addKeyValue p.1 p.2) g).totalDlength =
      g.totalDlength + pairsLength pairs := by
  induction pairs generalizing g with
  | nil => rfl
  | cons p pairs ih =>
    rw [pairsLength_cons] at hlt ⊢
    have hadd : (g.addKeyValue p.1 p.2).totalDlength = g.totalDlength + pairLength p.1 p.2 := by
      rw [addKeyValue, ← Int.natCast_add]
      exact u32_natCast (by omega)
    rw [List.foldl_cons, ih (by rw [hadd]; omega), hadd, Nat.add_assoc]

theorem cbuf_foldl (pairs : List (String × String)) {g : PairGenerator}
    (hle : g.cbuf.tail + pairsLength pairs ≤ commonBufSize) :
    (pairs.foldl (fun g p => g.addKeyValue p.1 p.2) g).cbuf =
      ⟨g.cbuf.offset, g.cbuf.tail + pairsLength pairs⟩ := by
  induction pairs generalizing g with
  | nil => rfl
  | cons p pairs ih =>
    rw [pairsLength_cons] at hle ⊢
    have hadd : (g.addKeyValue p.1 p.2).cbuf = ⟨g.cbuf.offset, g.cbuf.tail + pairLength p.1 p.2⟩ := by
      rw [addKeyValue]
      exact stepForwardTail_of_le (by omega)
    rw [List.foldl_cons, ih (by rw [hadd]; dsimp only; omega), hadd]
    dsimp only
    rw [Nat.add_assoc]

theorem unread_new : Unread new.cbuf := ⟨by decide, by decide⟩

theorem totalDlength_reply {pairs : List (String × String)} (hlt : pairsLength pairs < 2 ^ 24) :
    (pairs.foldl (fun g p => g.addKeyValue p.1 p.2) new).totalDlength = pairsLength pairs := by
  have hnew : new.totalDlength = 0 := rfl
  rw [totalDlength_foldl pairs (by omega), hnew, Nat.zero_add]

theorem dlength_reply {pairs : List (String × String)} (hlt : pairsLength pairs < 2 ^ 24) :
    (reply pairs).dlength = pairsLength pairs := by
  rw [reply, serialize, totalDlength_reply hlt]
  exact Nat.mod_eq_of_lt hlt

theorem unread_reply (pairs : List (String × String)) : Unread (reply pairs).cbuf := by
  have h := unread_foldl pairs unread_new
  rw [reply, serialize]
  dsimp only
  split
  · exact h.stepForwardTail _
  · exact h

/-- A list of pairs whose length the header can hold is framed just if it fits into
the buffer behind the header. -/
theorem framed_reply_iff {pairs : List (String × String)} (hlt : pairsLength pairs < 2 ^ 24) :
    Framed (reply pairs) ↔ sizeofHeader + pairsLength pairs ≤ commonBufSize := by
  have hunread := unread_reply pairs
  rw [Framed, dlength_reply hlt]
  refine ⟨fun h => ?_, fun h => ?_⟩
  · have htail := hunread.tail
    rw [CommonBuf.getRemain, hunread.offset] at h
    omega
  · have htail : new.cbuf.tail = sizeofHeader := by decide
    have hcbuf := cbuf_foldl pairs (by rwa [htail])
    have hsize : commonBufSize = 131072 := rfl
    rw [hsize, sizeofHeader] at h
    rw [reply, serialize, totalDlength_reply hlt, hcbuf, htail, padding, padWordLen]
    dsimp only
    split
    · rw [stepForwardTail_of_le (by rw [hsize, sizeofHeader]; dsimp only; omega), CommonBuf.getRemain]
      have hoff : new.cbuf.offset = 0 := rfl
      dsimp only
      omega
    · rw [CommonBuf.getRemain]
      have hoff : new.cbuf.offset = 0 := rfl
      dsimp only
      omega

end PairGenerator

end Sstoraged
