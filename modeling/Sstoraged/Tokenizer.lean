import Sstoraged.DataSegment
import Sstoraged.IovecContainer

namespace Sstoraged

/-- A token: the pointer to the header, and the buffers of the PDU. -/
structure ISCSIToken where
  cbuf : Nat
  offset : Nat
  cbufs : List Nat
  deriving DecidableEq

/-- `TOKEN_COMPLETE` is never stored. -/
inductive TokenStatus
  | tokenHead
  | tokenPartial
  deriving DecidableEq

structure ISCSITokenizer where
  bhss : List ISCSIToken
  status : TokenStatus
  offset : Nat

def headerAt (mem : Nat → Nat → UInt8) (cbuf offset : Nat) : Header := fun i => mem cbuf (offset + i)

/-- What a handler sees of the token in front. -/
def ISCSIToken.view (mem : Nat → Nat → UInt8) (t : ISCSIToken) : Token Nat :=
  ⟨headerAt mem t.cbuf t.offset, t.offset, t.cbufs⟩

namespace IovecContainer

/-- Copy the part of a header that lies in the second buffer behind the first. -/
def joinHeader (c : IovecContainer) : Option IovecContainer :=
  match c.cbufs with
  | [] => none
  | front :: cbufs =>
    let pos := (c.bufs front).offset
    if (c.bufs front).isEdge pos sizeofHeader then
      cbufs.head?.map fun second =>
        { c with mem := fun b i =>
          if b = front ∧ commonBufSize ≤ i ∧
              i < commonBufSize + (sizeofHeader - (commonBufSize - pos)) then
            c.mem second (i - commonBufSize)
          else c.mem b i }
    else some c

/-- Collect the buffers of a PDU. A loop that does not end has no result. -/
def takeCbufs : Nat → Nat → IovecContainer → Option (List Nat × IovecContainer)
  | 0, pduLength, c => if pduLength = 0 then some ([], c) else none
  | fuel + 1, pduLength, c =>
    if pduLength = 0 then some ([], c)
    else (c.stepForwardOffset pduLength).bind fun (b, pduLength, c) =>
      (takeCbufs fuel pduLength c).map fun (bs, c) => (b :: bs, c)

theorem takeCbufs_stuck {c : IovecContainer} {n b : Nat} (hn : n ≠ 0)
    (h : c.stepForwardOffset n = some (b, n, c)) (fuel : Nat) : takeCbufs fuel n c = none := by
  induction fuel with
  | zero => rw [takeCbufs, if_neg hn]
  | succ fuel ih =>
    rw [takeCbufs, if_neg hn, h, Option.bind_some]
    dsimp only
    rw [ih, Option.map_none]

theorem takeCbufs_mono {fuel fuel' : Nat} (hle : fuel ≤ fuel') : ∀ {c : IovecContainer} {n : Nat}
    {r : List Nat × IovecContainer}, takeCbufs fuel n c = some r → takeCbufs fuel' n c = some r := by
  induction fuel generalizing fuel' with
  | zero =>
    intro c n r h
    rw [takeCbufs] at h
    split at h
    · rename_i hn
      cases fuel' <;> rw [takeCbufs, if_pos hn, h]
    · cases h
  | succ fuel ih =>
    intro c n r h
    obtain ⟨m, rfl⟩ : ∃ m, fuel' = m + 1 := ⟨fuel' - 1, by omega⟩
    rw [takeCbufs] at h ⊢
    split
    · rename_i hn
      rwa [if_pos hn] at h
    · rename_i hn
      rw [if_neg hn] at h
      obtain ⟨⟨b, n₁, c₁⟩, hs, h⟩ := Option.bind_eq_some_iff.mp h
      obtain ⟨⟨bs, c₂⟩, hr, h⟩ := Option.map_eq_some_iff.mp h
      rw [hs, Option.bind_some]
      dsimp only
      rw [ih (Nat.le_of_succ_le_succ hle) hr, Option.map_some, ← h]

/-- The buffers that are not read to their end. -/
def notEnd (c : IovecContainer) : Nat := c.cbufs.countP fun b => !(c.bufs b).atEnd

theorem countP_lt {p q : Nat → Bool} {b : Nat} (hpq : ∀ a, p a = true → q a = true) (hp : p b = false)
    (hq : q b = true) {l : List Nat} (hb : b ∈ l) : l.countP p < l.countP q := by
  obtain ⟨l₁, l₂, rfl⟩ := List.append_of_mem hb
  have h₁ := List.countP_mono_left (l := l₁) fun a _ => hpq a
  have h₂ := List.countP_mono_left (l := l₂) fun a _ => hpq a
  rw [List.countP_append, List.countP_append, List.countP_cons_of_neg (by simp [hp]),
    List.countP_cons_of_pos hq]
  omega

theorem notEnd_stepForwardOffset {c c₁ : IovecContainer} {n n₁ b fuel : Nat}
    {r : List Nat × IovecContainer}
    (h : c.stepForwardOffset n = some (b, n₁, c₁)) (hn₁ : n₁ ≠ 0) (hr : takeCbufs fuel n₁ c₁ = some r) :
    notEnd c₁ < notEnd c := by
  rw [stepForwardOffset] at h
  obtain ⟨b', hfind, h⟩ := Option.map_eq_some_iff.mp h
  obtain ⟨hb, l₁, l₂, hl, hl₁⟩ := List.find?_eq_some_iff_append.mp hfind
  dsimp only at h
  split at h
  · rename_i hlt
    obtain ⟨rfl, rfl, rfl⟩ : b' = b ∧ n - (c.bufs b').getRemain = n₁ ∧ { c with
        bufs := Function.update c.bufs b' ((c.bufs b').stepForwardOffset (c.bufs b').getRemain)
        remain := c.remain - (c.bufs b').getRemain } = c₁ := by simpa using h
    obtain ⟨buf, hbuf⟩ : ∃ buf, buf = (c.bufs b').stepForwardOffset (c.bufs b').getRemain := ⟨_, rfl⟩
    have hremain : buf.getRemain = 0 := by
      rw [hbuf, CommonBuf.stepForwardOffset, if_neg (Nat.lt_irrefl _), CommonBuf.getRemain,
        CommonBuf.getRemain]
      dsimp only
      omega
    rw [← hbuf] at hr ⊢
    have hend : buf.atEnd = true := by
      by_contra hne
      -- the buffer is found again, and nothing is left in it
      have hagain : (c.cbufs.find? fun a => !(Function.update c.bufs b' buf a).atEnd) = some b' := by
        rw [List.find?_eq_some_iff_append]
        refine ⟨by simpa [Function.update_self] using hne, l₁, l₂, hl, fun a ha => ?_⟩
        have hab : a ≠ b' := by
          rintro rfl
          have h₁ := hl₁ a ha
          rw [hb] at h₁
          cases h₁
        rw [Function.update_of_ne hab]
        exact hl₁ a ha
      have hsame : buf.stepForwardOffset 0 = buf := by
        rw [CommonBuf.stepForwardOffset, if_neg (Nat.not_lt_zero _)]
        rfl
      have hstuck : ∀ remain,
          stepForwardOffset { c with bufs := Function.update c.bufs b' buf, remain }
            (n - (c.bufs b').getRemain) =
            some (b', n - (c.bufs b').getRemain,
              { c with bufs := Function.update c.bufs b' buf, remain }) := by
        intro remain
        rw [stepForwardOffset]
        dsimp only
        rw [hagain, Option.map_some, Function.update_self, hremain,
          if_pos (Nat.pos_of_ne_zero hn₁), hsame,
          Function.update_idem, Nat.sub_zero, Nat.sub_zero]
      rw [takeCbufs_stuck hn₁ (hstuck _)] at hr
      cases hr
    apply countP_lt (b := b') (fun a ha => ?_) (by simp [Function.update_self, hend]) hb
      (hl ▸ List.mem_append_right _ List.mem_cons_self)
    by_cases hab : a = b'
    · rw [hab]
      exact hb
    · dsimp only at ha
      rwa [Function.update_of_ne hab] at ha
  · obtain ⟨-, hz, -⟩ : b' = b ∧ 0 = n₁ ∧ _ := by simpa using h
    exact absurd hz.symm hn₁

theorem takeCbufs_fuel {fuel : Nat} : ∀ {c : IovecContainer} {n : Nat} {r : List Nat × IovecContainer},
    takeCbufs fuel n c = some r → takeCbufs (c.cbufs.length + 1) n c = some r := by
  have hend : ∀ {c : IovecContainer} {n : Nat} {r : List Nat × IovecContainer},
      takeCbufs fuel n c = some r → takeCbufs (notEnd c + 1) n c = some r := by
    induction fuel with
    | zero =>
      intro c n r h
      exact takeCbufs_mono (Nat.zero_le _) h
    | succ fuel ih =>
      intro c n r h
      rw [takeCbufs] at h ⊢
      split
      · rename_i hn
        rwa [if_pos hn] at h
      · rename_i hn
        rw [if_neg hn] at h
        obtain ⟨⟨b, n₁, c₁⟩, hs, h⟩ := Option.bind_eq_some_iff.mp h
        obtain ⟨⟨bs, c₂⟩, hr, h⟩ := Option.map_eq_some_iff.mp h
        have hrest : takeCbufs (notEnd c) n₁ c₁ = some (bs, c₂) := by
          by_cases hn₁ : n₁ = 0
          · subst hn₁
            have h₀ : takeCbufs 0 0 c₁ = some ([], c₁) := rfl
            rw [takeCbufs_mono (Nat.zero_le _) h₀]
            rw [takeCbufs_mono (Nat.zero_le _) h₀] at hr
            exact hr
          · exact takeCbufs_mono (notEnd_stepForwardOffset hs hn₁ hr) (ih hr)
        rw [hs, Option.bind_some]
        dsimp only
        rw [hrest, Option.map_some, ← h]
  intro c n r h
  exact takeCbufs_mono (Nat.succ_le_succ List.countP_le_length) (hend h)

end IovecContainer

namespace ISCSITokenizer

def init : ISCSITokenizer := ⟨[], .tokenHead, 0⟩

/-- The loop of `push`, from the label on. -/
def multiTokens : Nat → IovecContainer → ISCSITokenizer → Option (IovecContainer × ISCSITokenizer)
  | 0, _, _ => none
  | fuel + 1, buf, tok =>
    if tok.status = .tokenHead ∧ tok.offset < sizeofHeader then buf.update.map fun buf => (buf, tok)
    else
      buf.joinHeader.bind fun buf =>
      buf.cbufs.head?.bind fun front =>
        let pos := (buf.bufs front).offset
        let pduLength := (Parser.mk (headerAt buf.mem front pos)).getPDUlength
        if tok.offset < pduLength then
          buf.update.map fun buf => (buf, { tok with status := .tokenPartial })
        else
          (buf.takeCbufs (buf.cbufs.length + 1) pduLength).bind fun (cbufs, buf) =>
            let tok := ⟨tok.bhss ++ [⟨front, pos, cbufs⟩], .tokenHead, tok.offset - pduLength⟩
            if 0 < tok.offset then buf.update.bind fun buf => multiTokens fuel buf tok
            else buf.update.map fun buf => (buf, tok)

def push (buf : IovecContainer) (tok : ISCSITokenizer) (size : Nat) :
    Option (Bool × IovecContainer × ISCSITokenizer) :=
  let (ok, buf) := buf.stepForwardTail size
  if ok = false then some (false, buf, tok)
  else
    let offset := tok.offset + size
    (multiTokens (offset + 1) buf { tok with offset }).map fun r => (true, r)

def pop (tok : ISCSITokenizer) : ISCSITokenizer := { tok with bhss := tok.bhss.tail }

end ISCSITokenizer

end Sstoraged
