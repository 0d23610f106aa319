import Sstoraged.TokenCursors

namespace Sstoraged.TokenStream

open IovecContainer TokenCursors

def headerOf (stream : Nat → UInt8) (pos : Nat) : Header := fun i => stream (pos + i)

def pduLength (stream : Nat → UInt8) (pos : Nat) : Nat := (Parser.mk (headerOf stream pos)).getPDUlength

/-- Where the PDUs of a stream begin, by the lengths that their headers give. -/
def pduStart (stream : Nat → UInt8) : Nat → Nat
  | 0 => 0
  | k + 1 => pduStart stream k + pduLength stream (pduStart stream k)

/-- The token of a PDU when the stream fills the buffers one behind the other. -/
def tokenAt (stream : Nat → UInt8) (k : Nat) : ISCSIToken :=
  let pos := pduStart stream k
  ⟨pos / commonBufSize, pos % commonBufSize, List.range' (pos / commonBufSize)
    ((pos + pduLength stream pos - 1) / commonBufSize - pos / commonBufSize + 1)⟩

/-- The first `read` bytes of the stream are in the buffers. -/
def Layout {V : Type} (stream : Nat → V) (mem : Nat → Nat → V) (read : Nat) : Prop :=
  ∀ b i, i < commonBufSize → commonBufSize * b + i < read → mem b i = stream (commonBufSize * b + i)

/-- The header of the PDU at `pos` can be read from its pointer on. -/
def HeaderAt (stream : Nat → UInt8) (mem : Nat → Nat → UInt8) (pos : Nat) : Prop :=
  ∀ i, i < sizeofHeader → headerAt mem (pos / commonBufSize) (pos % commonBufSize) i =
    headerOf stream pos i

/-- What held the right byte of the stream still holds it. -/
def Improves (stream : Nat → UInt8) (mem mem' : Nat → Nat → UInt8) : Prop :=
  ∀ b i, mem b i = stream (commonBufSize * b + i) → mem' b i = stream (commonBufSize * b + i)

variable {stream : Nat → UInt8}

theorem Improves.refl (mem : Nat → Nat → UInt8) : Improves stream mem mem := fun _ _ h => h

theorem Improves.trans {mem mem' mem'' : Nat → Nat → UInt8} (h : Improves stream mem mem')
    (h' : Improves stream mem' mem'') : Improves stream mem mem'' := fun b i hb => h' b i (h b i hb)

theorem Improves.layout {mem mem' : Nat → Nat → UInt8} {read : Nat} (h : Improves stream mem mem')
    (hl : Layout stream mem read) : Layout stream mem' read := fun b i h₁ h₂ => h b i (hl b i h₁ h₂)

theorem place (pos i : Nat) :
    commonBufSize * (pos / commonBufSize) + (pos % commonBufSize + i) = pos + i := by
  rw [← Nat.add_assoc, Nat.div_add_mod]

theorem Improves.headerAt {mem mem' : Nat → Nat → UInt8} {pos : Nat} (h : Improves stream mem mem')
    (hh : HeaderAt stream mem pos) : HeaderAt stream mem' pos := by
  intro i hi
  have hb := h (pos / commonBufSize) (pos % commonBufSize + i) (by rw [place]; exact hh i hi)
  rwa [place] at hb

theorem pduLength_ge (pos : Nat) : sizeofHeader ≤ pduLength stream pos := Parser.sizeofHeader_le _

theorem pduStart_succ (k : Nat) :
    pduStart stream (k + 1) = pduStart stream k + pduLength stream (pduStart stream k) := rfl

theorem pduStart_lt (k : Nat) : pduStart stream k + sizeofHeader ≤ pduStart stream (k + 1) := by
  have h := @pduLength_ge stream (pduStart stream k)
  rw [pduStart_succ]
  omega

theorem pduStart_mono {k k' : Nat} (h : k ≤ k') : pduStart stream k ≤ pduStart stream k' := by
  induction h with
  | refl => exact Nat.le_refl _
  | step _ ih => exact Nat.le_trans ih (Nat.le_of_add_right_le (pduStart_lt _))

theorem pduStart_unique {k k' read : Nat} (h₁ : pduStart stream k ≤ read)
    (h₂ : read < pduStart stream (k + 1)) (h₁' : pduStart stream k' ≤ read)
    (h₂' : read < pduStart stream (k' + 1)) : k = k' := by
  apply Nat.le_antisymm <;> apply Nat.le_of_not_lt <;> intro hlt
  · have h := @pduStart_mono stream _ _ (Nat.succ_le_of_lt hlt)
    exact absurd (Nat.le_trans h h₁) (Nat.not_le_of_lt h₂')
  · have h := @pduStart_mono stream _ _ (Nat.succ_le_of_lt hlt)
    exact absurd (Nat.le_trans h h₁') (Nat.not_le_of_lt h₂)

theorem getHlength_congr {b b' : Header} (h : ∀ i, i < sizeofHeader → b i = b' i) :
    (Parser.mk b).getHlength = (Parser.mk b').getHlength :=
  congrArg UInt8.toNat (h 4 (by decide))

theorem getDlength_congr {b b' : Header} (h : ∀ i, i < sizeofHeader → b i = b' i) :
    (Parser.mk b).getDlength = (Parser.mk b').getDlength := by
  simp only [Parser.getDlength, Header.ntoh24, h 5 (by decide), h 6 (by decide), h 7 (by decide)]

theorem getPDUlength_congr {b b' : Header} (h : ∀ i, i < sizeofHeader → b i = b' i) :
    (Parser.mk b).getPDUlength = (Parser.mk b').getPDUlength := by
  rw [Parser.getPDUlength, Parser.getPDUlength, getHlength_congr h, getDlength_congr h]

/-- The receive space holds `read` bytes of the stream, and the first `k` PDUs are taken. -/
structure Received (stream : Nat → UInt8) (buf : IovecContainer) (k read : Nat) : Prop where
  cursors : Cursors buf (pduStart stream k / commonBufSize) (pduStart stream k) read
  layout : Layout stream buf.mem read

/-- The tokenizer waits for the rest of PDU `k`. -/
structure Pending (stream : Nat → UInt8) (tok : ISCSITokenizer) (k read : Nat) : Prop where
  offset : tok.offset = read - pduStart stream k
  status : tok.status = .tokenPartial → sizeofHeader ≤ tok.offset

theorem joinHeader_received {buf : IovecContainer} {k read : Nat} (h : Received stream buf k read)
    (hn : pduStart stream k + sizeofHeader ≤ read) :
    ∃ buf', buf.joinHeader = some buf' ∧ Received stream buf' k read ∧
      Improves stream buf.mem buf'.mem ∧ HeaderAt stream buf'.mem (pduStart stream k) ∧
      buf'.cbufs.head? = some (pduStart stream k / commonBufSize) ∧
      (buf'.bufs (pduStart stream k / commonBufSize)).offset = pduStart stream k % commonBufSize ∧
      buf'.vec = buf.vec ∧ buf'.overflow = buf.overflow ∧ buf'.next = buf.next := by
  obtain ⟨pos, hpos⟩ : ∃ pos, pos = pduStart stream k := ⟨_, rfl⟩
  obtain ⟨first, hfirst⟩ : ∃ first, first = pos / commonBufSize := ⟨_, rfl⟩
  have hc := h.cursors
  rw [← hpos] at hn hc ⊢
  rw [← hfirst] at hc ⊢
  have hroom := hc.room
  have hmod : pos % commonBufSize < commonBufSize := Nat.mod_lt _ (by decide)
  have hlt : first < buf.next := by
    rw [commonBufSize_eq, sizeofHeader] at *
    omega
  have hcbufs : buf.cbufs = first :: List.range' (first + 1) (buf.next - first - 1) := by
    have hlen : buf.next - first = buf.next - first - 1 + 1 := by omega
    rw [hc.cbufs, hlen, List.range'_succ]
    rfl
  have hoff : (buf.bufs first).offset = pos % commonBufSize := by
    rw [hc.bufs first (Nat.le_refl _) hlt]
    dsimp only
    rw [commonBufSize_eq] at *
    omega
  have hplace : ∀ i, commonBufSize * first + (pos % commonBufSize + i) = pos + i := by
    intro i
    rw [hfirst, place]
  have hin : ∀ i, i < sizeofHeader → pos % commonBufSize + i < commonBufSize →
      buf.mem first (pos % commonBufSize + i) = headerOf stream pos i := by
    intro i h₁ h₂
    rw [h.layout first _ h₂ (by rw [hplace]; omega), hplace]
    rfl
  rw [joinHeader, hcbufs]
  dsimp only
  rw [CommonBuf.isEdge, CommonBuf.getSize, hoff]
  by_cases he : commonBufSize - pos % commonBufSize < sizeofHeader
  · have hsecond : (List.range' (first + 1) (buf.next - first - 1)).head? = some (first + 1) := by
      have hlen : buf.next - first - 1 = buf.next - first - 2 + 1 := by
        rw [commonBufSize_eq, sizeofHeader] at *
        omega
      rw [hlen, List.range'_succ]
      rfl
    rw [if_pos (by simpa using he), hsecond, Option.map_some]
    -- the copied bytes are the next ones of the stream
    have hcopy : ∀ i, commonBufSize ≤ i →
        i < commonBufSize + (sizeofHeader - (commonBufSize - pos % commonBufSize)) →
        buf.mem (first + 1) (i - commonBufSize) = stream (commonBufSize * first + i) := by
      intro i h₁ h₂
      have hsum : commonBufSize * (first + 1) + (i - commonBufSize) = commonBufSize * first + i := by
        rw [Nat.mul_succ]
        omega
      have hp := hplace 0
      rw [h.layout (first + 1) _ (by rw [commonBufSize_eq, sizeofHeader] at *; omega)
        (by rw [hsum]; omega), hsum]
    refine ⟨_, rfl, ⟨h.cursors.congr hcbufs.symm rfl rfl, ?_⟩, ?_, ?_, ?_, hoff, rfl, rfl, rfl⟩
    · intro b i h₁ h₂
      dsimp only
      rw [if_neg (by omega), h.layout b i h₁ h₂]
    · intro b i hb
      dsimp only
      split
      · rename_i hi
        rw [hi.1]
        exact hcopy i hi.2.1 hi.2.2
      · exact hb
    · intro i hi
      rw [headerAt]
      dsimp only
      rw [← hfirst]
      by_cases hii : pos % commonBufSize + i < commonBufSize
      · rw [if_neg (by omega), hin i hi hii]
      · rw [if_pos (by omega), hcopy _ (by omega) (by omega), hplace]
        rfl
    · rfl
  · rw [if_neg (by simpa using he)]
    refine ⟨buf, rfl, h, Improves.refl _, fun i hi => ?_, by rw [hcbufs]; rfl, hoff, rfl, rfl, rfl⟩
    rw [headerAt, ← hfirst]
    exact hin i hi (by omega)

theorem takeCbufs_received {buf : IovecContainer} {k read : Nat} (h : Received stream buf k read)
    (hle : pduStart stream (k + 1) ≤ read) :
    ∃ buf', buf.takeCbufs (buf.cbufs.length + 1) (pduLength stream (pduStart stream k)) =
        some ((tokenAt stream k).cbufs, buf') ∧ Same buf buf' ∧
      Cursors buf' (pduStart stream k / commonBufSize) (pduStart stream (k + 1)) read := by
  have hge := @pduLength_ge stream (pduStart stream k)
  have hroom := h.cursors.room
  rw [pduStart_succ] at hle ⊢
  obtain ⟨buf', heq, hc, hs⟩ := takeCbufs_cursors (buf.cbufs.length + 1) h.cursors
    (by rw [sizeofHeader] at hge; omega) hle (by
      rw [h.cursors.cbufs, List.length_range']
      rw [commonBufSize_eq, sizeofHeader] at *
      omega)
  exact ⟨buf', heq, hs, hc⟩

theorem update_received {buf buf' : IovecContainer} {first k read : Nat}
    (h : Cursors buf first (pduStart stream k) read) (hl : Layout stream buf.mem read)
    (heq : buf.update = some buf') : Received stream buf' k read ∧ buf'.mem = buf.mem := by
  have hle : pduStart stream k / commonBufSize ≤ first + buf.cbufs.length := by
    have hroom := h.room
    have hdone := h.done_le
    rw [h.cbufs, List.length_range']
    rw [commonBufSize_eq] at *
    omega
  obtain ⟨hc, hmem⟩ := update_cursors h hle heq
  exact ⟨⟨hc, hmem ▸ hl⟩, hmem⟩

/-- What a call of the tokenizer leaves behind: the PDUs from `k` to `k'` are taken. -/
structure Pushed (stream : Nat → UInt8) (k k' read : Nat) (mem : Nat → Nat → UInt8)
    (bhss : List ISCSIToken) (buf : IovecContainer) (tok : ISCSITokenizer) : Prop where
  le : k ≤ k'
  received : Received stream buf k' read
  pending : Pending stream tok k' read
  rest : read < pduStart stream (k' + 1)
  bhss : tok.bhss = bhss ++ (List.range' k (k' - k)).map (tokenAt stream)
  improves : Improves stream mem buf.mem
  headers : ∀ j, k ≤ j → j < k' → HeaderAt stream buf.mem (pduStart stream j)

theorem multiTokens_received (fuel : Nat) : ∀ {buf buf' : IovecContainer} {tok tok' : ISCSITokenizer}
    {k read : Nat}, Received stream buf k read → Pending stream tok k read →
    ISCSITokenizer.multiTokens fuel buf tok = some (buf', tok') →
    ∃ k', Pushed stream k k' read buf.mem tok.bhss buf' tok' := by
  induction fuel with
  | zero =>
    intro buf buf' tok tok' k read h hp heq
    cases heq
  | succ fuel ih =>
    intro buf buf' tok tok' k read h hp heq
    have hoff := hp.offset
    have hdone := h.cursors.done_le
    rw [ISCSITokenizer.multiTokens] at heq
    split at heq
    · rename_i hhead
      obtain ⟨buf₁, h₁, heq⟩ := Option.map_eq_some_iff.mp heq
      cases heq
      obtain ⟨hr, hmem⟩ := update_received h.cursors h.layout h₁
      have hlt := @pduStart_lt stream k
      refine ⟨k, Nat.le_refl _, hr, hp, by omega, by simp, hmem ▸ Improves.refl _, fun j _ _ => by omega⟩
    · rename_i hhead
      have h48 : sizeofHeader ≤ tok.offset := by
        cases hs : tok.status with
        | tokenHead => exact Nat.le_of_not_lt fun hlt => hhead ⟨hs, hlt⟩
        | tokenPartial => exact hp.status hs
      obtain ⟨buf₁, hjoin, hr₁, himp, hheader, hfront, hpos, -, -, -⟩ := joinHeader_received h (by omega)
      rw [hjoin, Option.bind_some, hfront, Option.bind_some, hpos] at heq
      have hlen : (Parser.mk (headerAt buf₁.mem (pduStart stream k / commonBufSize)
          (pduStart stream k % commonBufSize))).getPDUlength = pduLength stream (pduStart stream k) :=
        getPDUlength_congr hheader
      dsimp only at heq
      rw [hlen] at heq
      have hsucc := @pduStart_succ stream k
      split at heq
      · obtain ⟨buf₂, h₂, heq⟩ := Option.map_eq_some_iff.mp heq
        cases heq
        obtain ⟨hr, hmem⟩ := update_received hr₁.cursors hr₁.layout h₂
        refine ⟨k, Nat.le_refl _, hr, ⟨hoff, fun _ => h48⟩, by omega, by simp, hmem ▸ himp,
          fun j _ _ => by omega⟩
      · obtain ⟨buf₂, htake, hs, hc₂⟩ := takeCbufs_received hr₁ (by omega)
        rw [htake, Option.bind_some] at heq
        have hl₂ : Layout stream buf₂.mem read := hs.mem ▸ hr₁.layout
        have himp₂ : Improves stream buf.mem buf₂.mem := hs.mem ▸ himp
        have hheader₂ : HeaderAt stream buf₂.mem (pduStart stream k) := hs.mem ▸ hheader
        have hone : List.range' k (k + 1 - k) = [k] := by
          rw [Nat.add_sub_cancel_left]
          rfl
        dsimp only at heq
        split at heq
        · rename_i hmore
          obtain ⟨buf₃, h₃, heq⟩ := Option.bind_eq_some_iff.mp heq
          obtain ⟨hr₃, hmem₃⟩ := update_received hc₂ hl₂ h₃
          obtain ⟨k', hpush⟩ := ih hr₃ ⟨by dsimp only; omega, fun hs => by cases hs⟩ heq
          have hle := hpush.le
          refine ⟨k', by omega, hpush.received, hpush.pending, hpush.rest, ?_,
            himp₂.trans (hmem₃ ▸ hpush.improves), fun j h₁ h₂ => ?_⟩
          · have hrange : k' - k = k' - (k + 1) + 1 := by omega
            rw [hpush.bhss, hrange, List.range'_succ, List.map_cons, List.append_assoc]
            rfl
          · rcases Nat.eq_or_lt_of_le h₁ with rfl | hlt
            · exact hpush.improves.headerAt (hmem₃ ▸ hheader₂)
            · exact hpush.headers j hlt h₂
        · rename_i hmore
          obtain ⟨buf₃, h₃, heq⟩ := Option.map_eq_some_iff.mp heq
          cases heq
          obtain ⟨hr₃, hmem₃⟩ := update_received hc₂ hl₂ h₃
          have hlt := @pduStart_lt stream (k + 1)
          refine ⟨k + 1, by omega, hr₃, ⟨by dsimp only; omega, fun hs => by cases hs⟩, ?_, ?_,
            hmem₃ ▸ himp₂, fun j h₁ h₂ => ?_⟩
          · rw [sizeofHeader] at hlt
            omega
          · rw [hone]
            rfl
          · obtain rfl : j = k := by omega
            exact hmem₃ ▸ hheader₂

end Sstoraged.TokenStream
