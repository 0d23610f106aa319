import Sstoraged.ReceiveRing
import Sstoraged.Runs

namespace Sstoraged.TokenAccounting

open IovecContainer TokenCursors TokenWindow

/-- What there is to read in the receive buffers. -/
def unread (buf : IovecContainer) : Nat := (buf.cbufs.map fun b => (buf.bufs b).getRemain).sum

structure Connection where
  buf : IovecContainer
  tok : ISCSITokenizer

inductive Event
  | push (mem : Nat → Nat → UInt8) (size : Nat)
  | pop

def start (total : Nat) (mem : Nat → Nat → UInt8) : Connection := ⟨reserve total mem, .init⟩

/-- Anything is received, at any place, before a push. A push that does not return, or
whose tails have no room, ends the run. -/
def step (s : Connection) : Event → Option Connection
  | .push mem size =>
    match ISCSITokenizer.push { s.buf with mem } s.tok size with
    | some (true, buf, tok) => some ⟨buf, tok⟩
    | _ => none
  | .pop => some { s with tok := s.tok.pop }

/-- From the label on, a push comes to the loop over the buffers of a PDU of `pduLength`
bytes, whose header lies at `pos` in the buffer in front. -/
structure Complete (s : Connection) (c : IovecContainer) (front pos pduLength : Nat) : Prop where
  header : ¬ (s.tok.status = .tokenHead ∧ s.tok.offset < sizeofHeader)
  join : s.buf.joinHeader = some c
  head : c.cbufs.head? = some front
  offset : (c.bufs front).offset = pos
  length : (Parser.mk (headerAt c.mem front pos)).getPDUlength = pduLength
  whole : ¬ s.tok.offset < pduLength

/-- The loops over buffers that a push comes to from the label on: the space, and the length. -/
inductive Visits : Connection → IovecContainer → Nat → Prop
  | here {s c front pos n} : Complete s c front pos n → Visits s c n
  | again {s c front pos n cbufs c₁ buf c' n'} : Complete s c front pos n →
    c.takeCbufs (c.cbufs.length + 1) n = some (cbufs, c₁) → 0 < s.tok.offset - n → c₁.update = some buf →
    Visits ⟨buf, ⟨s.tok.bhss ++ [⟨front, pos, cbufs⟩], .tokenHead, s.tok.offset - n⟩⟩ c' n' →
      Visits s c' n'

/-- The rounds of `while(pdu_length > 0)`. -/
inductive Rounds (c : IovecContainer) (n : Nat) : IovecContainer → Nat → Prop
  | start : Rounds c n c n
  | round {c₁ n₁ b n₂ c₂} : Rounds c n c₁ n₁ → 0 < n₁ → c₁.stepForwardOffset n₁ = some (b, n₂, c₂) →
      Rounds c n c₂ n₂

/-- Each round gets a buffer with something to read and takes it, and the loop ends. -/
structure Progresses (c : IovecContainer) (n : Nat) : Prop where
  round : ∀ c₁ n₁, Rounds c n c₁ n₁ → 0 < n₁ →
    ∃ b n₂ c₂, c₁.stepForwardOffset n₁ = some (b, n₂, c₂) ∧ 0 < (c₁.bufs b).getRemain ∧ n₂ < n₁
  ends : ∃ cbufs c', c.takeCbufs (c.cbufs.length + 1) n = some (cbufs, c')

/-- The claim on a push whose tails have room: it returns with the counter at what there
is to read in the buffers, and the loops over buffers that it comes to make progress. -/
def Accounted (s : Connection) : Event → Prop
  | .push mem size => ∀ buf, stepForwardTail { s.buf with mem } size = (true, buf) →
    (∃ buf' tok', ISCSITokenizer.push { s.buf with mem } s.tok size = some (true, buf', tok') ∧
      tok'.offset = unread buf') ∧
    ∀ c n, Visits ⟨buf, { s.tok with offset := s.tok.offset + size }⟩ c n → Progresses c n
  | .pop => True

/-- The first PDU that the push completes, if any, fills no more buffers from the front one
on than lie before the array, or no more than the array has entries. -/
def Turns (s : Connection) : Prop :=
  ∀ c front pos n, Complete s c front pos n → (pos + n) / commonBufSize ≤ max c.overflow c.vec.length

/-- The condition on a push. -/
def Turning (s : Connection) : Event → Prop
  | .push mem size => ∀ buf, stepForwardTail { s.buf with mem } size = (true, buf) →
    Turns ⟨buf, { s.tok with offset := s.tok.offset + size }⟩
  | .pop => True

section cursors

variable {c c' : IovecContainer} {first done read : Nat}

theorem sum_remain (len : Nat) : ∀ (first done read : Nat), 131072 * first ≤ done → done ≤ read →
    read ≤ 131072 * (first + len) → ((List.range' first len).map fun k =>
      min 131072 (read - 131072 * k) - min 131072 (done - 131072 * k)).sum = read - done := by
  induction len with
  | zero =>
    intro first done read h₁ h₂ h₃
    change 0 = read - done
    omega
  | succ len ih =>
    intro first done read h₁ h₂ h₃
    -- the buffers behind the first one see the stream from their own beginning on
    have htail := ih (first + 1) (max done (131072 * (first + 1)))
      (max read (131072 * (first + 1))) (by omega)
      (by omega) (by omega)
    have hsame : ((List.range' (first + 1) len).map fun k =>
        min 131072 (read - 131072 * k) - min 131072 (done - 131072 * k)) =
        (List.range' (first + 1) len).map fun k => min 131072
          (max read (131072 * (first + 1)) - 131072 * k) -
          min 131072 (max done (131072 * (first + 1)) - 131072 * k) := by
      refine List.map_congr_left fun k hk => ?_
      have hle := (List.mem_range'_1.mp hk).1
      omega
    rw [List.range'_succ, List.map_cons, List.sum_cons, hsame, htail]
    omega

theorem first_le_next (h : Cursors c first done read) : first ≤ c.next := by
  obtain ⟨-, hfirst, hdone, hroom, -⟩ := h
  rw [commonBufSize_eq] at hfirst hroom
  omega

theorem unread_cursors (h : Cursors c first done read) : unread c = read - done := by
  have hnext := first_le_next h
  have hlen : first + (c.next - first) = c.next := by omega
  have hfirst := h.first_le
  have hroom := h.room
  have hbufs := h.bufs
  simp only [commonBufSize_eq] at hfirst hroom hbufs
  have hsum := sum_remain (c.next - first) first done read hfirst h.done_le (by rwa [hlen])
  unfold unread
  rw [h.cbufs, ← hsum]
  refine congrArg List.sum (List.map_congr_left fun k hk => ?_)
  obtain ⟨hle, hlt⟩ := List.mem_range'_1.mp hk
  rw [hbufs k hle (by omega)]
  rfl

theorem room_cursors (h : Cursors c first done read) :
    (c.cbufs.map fun b => (c.bufs b).getCapacity).sum = commonBufSize * c.next - read := by
  have hnext := first_le_next h
  have hlen : first + (c.next - first) = c.next := by omega
  have hfirst := Nat.le_trans h.first_le h.done_le
  have hroom := h.room
  have hbufs := h.bufs
  simp only [commonBufSize_eq] at hfirst hroom hbufs ⊢
  have hsum := sum_remain (c.next - first) first read (131072 * c.next) hfirst hroom
    (Nat.le_of_eq (by rw [hlen]))
  rw [h.cbufs, ← hsum]
  refine congrArg List.sum (List.map_congr_left fun k hk => ?_)
  obtain ⟨hle, hlt⟩ := List.mem_range'_1.mp hk
  rw [hbufs k hle (by omega)]
  change 131072 - min 131072 (read - 131072 * k) = _
  omega

theorem le_fillTails {cbufs : List Nat} (hnodup : cbufs.Nodup) : ∀ (size : Nat) (bufs : Nat → CommonBuf),
    size ≤ (fillTails cbufs size bufs).1 + (cbufs.map fun b => (bufs b).getCapacity).sum := by
  induction cbufs with
  | nil => exact fun size _ => Nat.le_refl size
  | cons a cbufs ih =>
    intro size bufs
    obtain ⟨hnot, hnodup⟩ := List.nodup_cons.mp hnodup
    rw [List.map_cons, List.sum_cons]
    unfold fillTails
    dsimp only
    split_ifs with hzero hlt
    · omega
    · have hrest := ih hnodup (size - (bufs a).getCapacity)
        (Function.update bufs a ((bufs a).stepForwardTail (bufs a).getCapacity))
      have hsame : (cbufs.map fun b =>
          (Function.update bufs a ((bufs a).stepForwardTail (bufs a).getCapacity) b).getCapacity) =
          cbufs.map fun b => (bufs b).getCapacity := by
        refine List.map_congr_left fun b hb => ?_
        have hne : b ≠ a := fun heq => hnot (heq ▸ hb)
        rw [Function.update_of_ne hne]
      rw [hsame] at hrest
      omega
    · omega

theorem stepForwardTail_counted (h : Cursors c first done read) {size : Nat}
    (hs : c.stepForwardTail size = (true, c')) : Cursors c' first done (read + size) := by
  have hnodup : c.cbufs.Nodup := h.cbufs ▸ List.nodup_range'
  have hall := le_fillTails hnodup size c.bufs
  have hzero : (fillTails c.cbufs size c.bufs).1 = 0 := of_decide_eq_true (congrArg Prod.fst hs)
  have hroom := h.room
  rw [hzero, room_cursors h] at hall
  obtain ⟨c₁, heq, hcursors, -⟩ := stepForwardTail_cursors h (first_le_next h) (n := size) (by omega)
  obtain rfl : c₁ = c' := congrArg Prod.snd (heq.symm.trans hs)
  exact hcursors

theorem joinHeader_counted (h : Cursors c first done read) (hj : c.joinHeader = some c') :
    Cursors c' first done read := by
  unfold joinHeader at hj
  split at hj
  · cases hj
  · dsimp only at hj
    split_ifs at hj
    · obtain ⟨b, -, rfl⟩ := Option.map_eq_some_iff.mp hj
      exact h.congr rfl rfl rfl
    · obtain rfl := Option.some.inj hj
      exact h

theorem update_counted (h : Cursors c first done read) (hu : c.update = some c') :
    Cursors c' (done / commonBufSize) done read := by
  have hnext := first_le_next h
  have hdone := h.done_le
  have hroom := h.room
  refine (update_cursors h ?_ hu).1
  rw [h.cbufs, List.length_range', commonBufSize_eq] at *
  omega

theorem takeCbufs_counted (h : Cursors c first done read) {n : Nat} (hn : 0 < n)
    (hle : done + n ≤ read) :
    ∃ cbufs c', c.takeCbufs (c.cbufs.length + 1) n = some (cbufs, c') ∧
      Cursors c' first (done + n) read := by
  have hfirst := h.first_le
  have hroom := h.room
  obtain ⟨c', heq, hcursors, -⟩ := takeCbufs_cursors (c.cbufs.length + 1) h hn hle (by
    rw [h.cbufs, List.length_range']
    rw [commonBufSize_eq] at *
    omega)
  exact ⟨_, c', heq, hcursors⟩

theorem rounds_counted (h : Cursors c first done read) {n n' : Nat} (hle : done + n ≤ read)
    (hr : Rounds c n c' n') :
    ∃ taken, taken + n' = n ∧ Cursors c' first (done + taken) read := by
  induction hr with
  | start => exact ⟨0, Nat.zero_add n, h⟩
  | @round c₁ n₁ b n₂ c₂ hr hpos hs ih =>
    obtain ⟨taken, htaken, hcursors⟩ := ih
    obtain ⟨c₂', k, step, heq, -, hstep, hcursors', -⟩ :=
      stepForwardOffset_cursors hcursors hpos (by omega)
    obtain ⟨rfl, rfl, rfl⟩ : k = b ∧ n₁ - step = n₂ ∧ c₂' = c₂ := by simpa using heq.symm.trans hs
    exact ⟨taken + step, by omega, by rwa [Nat.add_assoc] at hcursors'⟩

theorem progresses (h : Cursors c first done read) {n : Nat} (hn : 0 < n) (hle : done + n ≤ read) :
    Progresses c n := by
  obtain ⟨cbufs, c', htake, -⟩ := takeCbufs_counted h hn hle
  refine ⟨fun c₁ n₁ hr hpos => ?_, cbufs, c', htake⟩
  obtain ⟨taken, htaken, hcursors⟩ := rounds_counted h hle hr
  obtain ⟨c₂, k, step, heq, hk, hstep, -, -⟩ := stepForwardOffset_cursors hcursors hpos (by omega)
  have hfirst := hcursors.first_le
  have hroom := hcursors.room
  have hbuf := hcursors.bufs k
  rw [commonBufSize_eq] at *
  refine ⟨k, n₁ - step, c₂, heq, ?_, by omega⟩
  rw [hbuf (by omega) (by omega)]
  change 0 < min 131072 (read - 131072 * k) - min 131072 (done + taken - 131072 * k)
  omega

end cursors

/-- The array of `count` entries over a chain of buffers: the first entry points into the
buffer behind those before the array, and from there on there are `count` buffers. -/
structure Ring (count : Nat) (c : IovecContainer) (first done read : Nat) : Prop where
  cursors : Cursors c first done read
  length : c.vec.length = count
  next : c.next = first + c.overflow + count
  behind : first + c.overflow ≤ read / commonBufSize
  entry : ∃ v, c.vec[0]? = some v ∧ v.cbuf = first + c.overflow ∧ v.offset ≤ commonBufSize

/-- No update can go behind the end of the array. -/
def Safe (c : IovecContainer) (first read : Nat) : Prop :=
  c.overflow = 0 ∨ read / commonBufSize ≤ first + c.overflow

section ring

variable {c c' : IovecContainer} {count first done read : Nat}

theorem Ring.congr {done' : Nat} (h : Ring count c first done read)
    (hc : Cursors c' first done' read) (hvec : c'.vec = c.vec)
    (hnext : c'.next = c.next) (ho : c'.overflow = c.overflow) : Ring count c' first done' read :=
  ⟨hc, hvec ▸ h.length, hnext ▸ ho ▸ h.next, ho ▸ h.behind, hvec ▸ ho ▸ h.entry⟩

theorem Ring.length_cbufs (h : Ring count c first done read) : c.cbufs.length = count + c.overflow := by
  have hnext := h.next
  rw [h.cursors.cbufs, List.length_range']
  omega

theorem Ring.pos (h : Ring count c first done read) : 0 < count := by
  obtain ⟨v, hv, -⟩ := h.entry
  exact h.length ▸ Nat.zero_lt_of_lt (List.getElem?_eq_some_iff.mp hv).1

theorem ring_reserve (total : Nat) (mem : Nat → Nat → UInt8) :
    Ring (max (total / commonBufSize + 1) 2) (reserve total mem) 0 0 0 := by
  obtain ⟨count, hcount⟩ : ∃ count, max (total / commonBufSize + 1) 2 = count + 1 :=
    ⟨max (total / commonBufSize) 1, by omega⟩
  refine ⟨⟨rfl, Nat.zero_le _, Nat.le_refl _, Nat.zero_le _, fun k _ _ => ?_⟩, ?_,
    (Nat.zero_add _).symm, Nat.zero_le _,
    ⟨0, 0, commonBufSize⟩, ?_, rfl, Nat.zero_le _⟩
  · rw [Nat.zero_sub, Nat.min_zero]
    rfl
  · rw [reserve, List.length_map, List.length_range']
  · rw [reserve, hcount, List.range'_succ]
    rfl

theorem cleanup_ring (h : Ring count c first done read)
    (hE : done / commonBufSize ≤ first + max c.overflow count) :
    ∃ c', cleanup c.cbufs.length 0 c = some c' ∧ c'.vec.length = count ∧
      c'.overflow = first + c.overflow - done / commonBufSize ∧
      c'.next = max (first + c.overflow) (done / commonBufSize) + count ∧
      (done / commonBufSize ≤ first + c.overflow → c'.vec = c.vec) := by
  have hlen := h.length_cbufs
  have hcount := h.length
  have hnext := h.next
  have hroom := h.cursors.room
  have hdone := h.cursors.done_le
  have hpos := h.pos
  by_cases hin : done / commonBufSize ≤ first + c.overflow
  · obtain ⟨c', heq, hvec, hn, ho⟩ := cleanup_within c.cbufs.length 0 h.cursors (by omega) hin (by omega)
    exact ⟨c', heq, hvec ▸ hcount, ho, by omega, fun _ => hvec⟩
  · obtain ⟨c₁, heq₁, hc₁, hvec₁, hnext₁, ho₁⟩ :=
      ReceiveRing.cleanup_pops count c.overflow 0 h.cursors rfl (by omega)
      (by omega)
    have hlen₁ : c₁.vec.length = count := hvec₁ ▸ hcount
    obtain ⟨c', heq, hrot, ho⟩ := ReceiveRing.cleanup_rotated count (0 + c.overflow) hc₁ ho₁
      (by omega) (by omega)
      (by omega) (by omega)
    have hn := hrot.next
    exact ⟨c', by rw [hlen, heq₁, heq], hrot.length.trans hlen₁, by omega, by omega,
      fun hle => absurd hle hin⟩

theorem updateFirst_ring {w : Nat} (h : Cursors c (done / commonBufSize) done read) (hpos : 0 < count)
    (hlen : c.vec.length = count) (hnext : c.next = w + count)
    (ho : c.overflow = w - done / commonBufSize)
    (hle : done / commonBufSize ≤ w) (hw : w ≤ read / commonBufSize) :
    ∃ c', c.updateFirst = some c' ∧ Ring count c' (done / commonBufSize) done read ∧
      c'.overflow = c.overflow := by
  have hget := getElem?_cursors h hle (by omega) ho
  have htail : (c.bufs w).tail ≤ commonBufSize := by
    rw [h.bufs w hle (by omega)]
    exact Nat.min_le_left _ _
  refine ⟨{ c with vec := c.vec.set 0 ⟨w, (c.bufs w).tail, (c.bufs w).getCapacity⟩ }, ?_,
    ⟨h.congr rfl rfl rfl, ?_, ?_, ?_, ?_⟩, rfl⟩
  · rw [updateFirst, hget, Option.map_some]
  · rw [List.length_set, hlen]
  · dsimp only
    omega
  · dsimp only
    omega
  · refine ⟨_, List.getElem?_set_self (by omega), ?_, htail⟩
    dsimp only
    omega

theorem update_ring (h : Ring count c first done read)
    (hE : done / commonBufSize ≤ first + max c.overflow count) :
    ∃ c', c.update = some c' ∧ Ring count c' (done / commonBufSize) done read ∧
      Safe c' (done / commonBufSize) read := by
  have hlen := h.length_cbufs
  have hbehind := h.behind
  have hER : done / commonBufSize ≤ read / commonBufSize := Nat.div_le_div_right h.cursors.done_le
  obtain ⟨c₁, heq₁, hlen₁, ho₁, hnext₁, hvec₁⟩ := cleanup_ring h hE
  have hc₁ := (cleanup_cursors _ h.cursors (by omega) heq₁).1
  have hroom := hc₁.room
  obtain ⟨cur, hcur⟩ : ∃ cur, cur = max (first + c.overflow) (done / commonBufSize) := ⟨_, rfl⟩
  rw [← hcur] at hnext₁
  have hlt := h.pos
  have hbuf := getElem?_cursors hc₁ (w := cur) (by omega) (by omega) (by omega)
  obtain ⟨v, hv⟩ : ∃ v, c₁.vec[0]? = some v := ⟨_, List.getElem?_eq_getElem (by omega)⟩
  have hupdate : c.update = (if inRange cur v then overflowLoop c₁.cbufs.length 0 c₁
      else some c₁).bind updateFirst := by
    rw [update, heq₁, Option.bind_some, hbuf, Option.bind_some, hv, Option.bind_some]
  by_cases hin : inRange cur v = true
  · rw [if_pos hin] at hupdate
    have hcbufs : c₁.cbufs.length = c₁.next - done / commonBufSize := by
      rw [hc₁.cbufs, List.length_range']
    have hV : read / commonBufSize ≤ cur + count := by
      rw [commonBufSize_eq] at *
      omega
    obtain ⟨c₂, heq₂, hrot, ho₂⟩ := ReceiveRing.overflowLoop_rotated c₁.cbufs.length 0 hc₁
        (w := cur) (by omega) (by omega)
      (by omega) (by omega) (by omega) (by omega)
    have hnext₂ := hrot.next
    obtain ⟨c', heq', hring, ho'⟩ := updateFirst_ring (overflowLoop_cursors _ hc₁ heq₂).1 hlt
      (hrot.length.trans hlen₁)
      (w := read / commonBufSize) (by omega) ho₂ hER (Nat.le_refl _)
    refine ⟨c', by rw [hupdate, heq₂, Option.bind_some, heq'], hring, .inr ?_⟩
    omega
  · rw [if_neg hin] at hupdate
    obtain ⟨c', heq', hring, ho'⟩ := updateFirst_ring hc₁ hlt hlen₁ (w := cur) hnext₁ (by omega)
      (by omega) (by omega)
    refine ⟨c', by rw [hupdate, Option.bind_some, heq'], hring, .inl ?_⟩
    -- only a rotation makes the first entry point elsewhere
    have hbeyond : ¬ done / commonBufSize ≤ first + c.overflow := by
      intro hle
      obtain ⟨v', hv', hcbuf, hoffset⟩ := h.entry
      rw [← hvec₁ hle, hv] at hv'
      obtain rfl := Option.some.inj hv'
      apply hin
      rw [inRange, decide_eq_true_eq]
      omega
    omega

theorem update_none (h : Ring count c first done read)
    (hE : first + max c.overflow count < done / commonBufSize) :
    c.update = none := by
  have hlen := h.length_cbufs
  have hnext := h.next
  have hpos := h.pos
  have hroom := h.cursors.room
  have hdone := h.cursors.done_le
  obtain ⟨c₁, heq₁, hc₁, hvec₁, hnext₁, ho₁⟩ :=
    ReceiveRing.cleanup_pops count c.overflow 0 h.cursors rfl (by omega)
    (by omega)
  have hlen₁ : c₁.vec.length = count := hvec₁ ▸ h.length
  have hnone := ReceiveRing.cleanup_stuck count (0 + c.overflow) hc₁ ho₁ (by omega)
    (by rw [commonBufSize_eq] at *; omega) (by omega) (by omega)
  rw [update, hlen, heq₁, hnone]
  rfl

theorem joinHeader_ring (h : Ring count c first done read) (hfirst : first = done / commonBufSize)
    (hheader : done + sizeofHeader ≤ read) :
    ∃ c', c.joinHeader = some c' ∧ Ring count c' first done read ∧ c'.cbufs.head? = some first ∧
      (c'.bufs first).offset = done - commonBufSize * first ∧ c'.overflow = c.overflow := by
  have hroom := h.cursors.room
  have hlt : first < c.next := by
    rw [commonBufSize_eq, sizeofHeader] at *
    omega
  have hcbufs : c.cbufs = first :: List.range' (first + 1) (c.next - first - 1) := by
    have hlen : c.next - first = c.next - first - 1 + 1 := by omega
    rw [h.cursors.cbufs, hlen, List.range'_succ]
    rfl
  have hoffset : (c.bufs first).offset = done - commonBufSize * first := by
    rw [h.cursors.bufs first (Nat.le_refl _) hlt]
    dsimp only
    rw [commonBufSize_eq] at *
    omega
  rw [joinHeader, hcbufs]
  dsimp only
  split
  · next hedge =>
    rw [CommonBuf.isEdge, decide_eq_true_eq, CommonBuf.getSize, hoffset] at hedge
    have hlen : c.next - first - 1 = c.next - first - 2 + 1 := by
      rw [commonBufSize_eq, sizeofHeader] at *
      omega
    rw [hlen, List.range'_succ] at hcbufs ⊢
    rw [List.head?_cons, Option.map_some]
    exact ⟨_, rfl, h.congr (h.cursors.congr hcbufs.symm rfl rfl) rfl rfl rfl, rfl, hoffset, rfl⟩
  · refine ⟨c, rfl, h, ?_, hoffset, rfl⟩
    rw [hcbufs]
    rfl

end ring

/-- The tokenizer counts the bytes that were received and not taken. -/
structure Counted (s : Connection) (first done read : Nat) : Prop where
  cursors : Cursors s.buf first done read
  offset : s.tok.offset = read - done
  status : s.tok.status = .tokenPartial → sizeofHeader ≤ s.tok.offset

variable {s s' : Connection} {first done read : Nat}

theorem counted_start (total : Nat) (mem : Nat → Nat → UInt8) : Counted (start total mem) 0 0 0 := by
  refine ⟨⟨?_, Nat.zero_le _, Nat.le_refl _, Nat.zero_le _, fun k _ _ => ?_⟩, rfl, nofun⟩
  · rfl
  · rw [Nat.zero_sub, Nat.min_zero]
    rfl

theorem Complete.counted {c : IovecContainer} {front pos n : Nat} (h : Complete s c front pos n)
    (hc : Counted s first done read) : Cursors c first done read ∧ 0 < n ∧ done + n ≤ read := by
  have hpos : 0 < n := by
    rw [← h.length]
    exact Nat.lt_of_lt_of_le (Nat.zero_lt_succ 47) (Parser.sizeofHeader_le _)
  have hwhole := h.whole
  have hdone := hc.cursors.done_le
  rw [hc.offset] at hwhole
  exact ⟨joinHeader_counted hc.cursors h.join, hpos, by omega⟩

theorem progresses_of_visits {c : IovecContainer} {n : Nat} (h : Visits s c n) :
    ∀ {first done read : Nat}, Counted s first done read → Progresses c n := by
  induction h with
  | here hcomplete =>
    intro first done read hc
    obtain ⟨hcursors, hpos, hle⟩ := hcomplete.counted hc
    exact progresses hcursors hpos hle
  | again hcomplete htake hmore hupdate _ ih =>
    intro first done read hc
    obtain ⟨hcursors, hpos, hle⟩ := hcomplete.counted hc
    obtain ⟨cbufs, c', heq, hcursors'⟩ := takeCbufs_counted hcursors hpos hle
    obtain ⟨rfl, rfl⟩ := Prod.mk.inj (Option.some.inj (heq.symm.trans htake))
    refine ih ⟨update_counted hcursors' hupdate, ?_, nofun⟩
    dsimp only
    rw [hc.offset, Nat.sub_sub]

theorem counted_received (hc : Counted s first done read) {mem : Nat → Nat → UInt8} {size : Nat}
    {buf : IovecContainer}
    (htail : stepForwardTail { s.buf with mem } size = (true, buf)) :
    Counted ⟨buf, { s.tok with offset := s.tok.offset + size }⟩ first done (read + size) := by
  have hcursors : Cursors { s.buf with mem } first done read := hc.cursors.congr rfl rfl rfl
  have hdone := hc.cursors.done_le
  refine ⟨stepForwardTail_counted hcursors htail, ?_,
    fun hpartial => Nat.le_add_right_of_le (hc.status hpartial)⟩
  dsimp only
  rw [hc.offset]
  omega

theorem push_cases {buf buf' : IovecContainer} {tok tok' : ISCSITokenizer} {size : Nat}
    (h : ISCSITokenizer.push buf tok size = some (true, buf', tok')) :
    ∃ c, buf.stepForwardTail size = (true, c) ∧ ISCSITokenizer.multiTokens (tok.offset + size + 1) c
      { tok with offset := tok.offset + size } = some (buf', tok') := by
  unfold ISCSITokenizer.push at h
  generalize buf.stepForwardTail size = tail at h ⊢
  obtain ⟨_ | _, c⟩ := tail
  · cases h
  · obtain ⟨r, hr, h⟩ := Option.map_eq_some_iff.mp h
    obtain ⟨-, rfl⟩ := Prod.mk.inj h
    exact ⟨c, rfl, hr⟩

/-- A push at its label, with the array. -/
structure Placed (count : Nat) (s : Connection) (done read : Nat) : Prop where
  counted : Counted s (done / commonBufSize) done read
  ring : Ring count s.buf (done / commonBufSize) done read

theorem multiTokens_wait {count : Nat} (h : Placed count s done read) (fuel : Nat)
    (hwait : ∀ c front pos n, ¬ Complete s c front pos n) :
    ∃ buf' tok', ISCSITokenizer.multiTokens (fuel + 1) s.buf s.tok = some (buf', tok') ∧
      Placed count ⟨buf', tok'⟩ done read := by
  have hupdate : ∀ {c : IovecContainer}, Ring count c (done / commonBufSize) done read →
      ∃ c', c.update = some c' ∧ Ring count c' (done / commonBufSize) done read := by
    intro c hc
    obtain ⟨c', heq, hring, -⟩ := update_ring hc (Nat.le_add_right _ _)
    exact ⟨c', heq, hring⟩
  have hoffset := h.counted.offset
  have hstatus := h.counted.status
  have hdone := h.ring.cursors.done_le
  rw [ISCSITokenizer.multiTokens]
  by_cases hhead : s.tok.status = .tokenHead ∧ s.tok.offset < sizeofHeader
  · obtain ⟨c', heq, hring⟩ := hupdate h.ring
    exact ⟨c', s.tok, by rw [if_pos hhead, heq, Option.map_some],
      ⟨hring.cursors, hoffset, hstatus⟩, hring⟩
  · have hheader : sizeofHeader ≤ s.tok.offset := by
      cases hs : s.tok.status with
      | tokenPartial => exact hstatus hs
      | tokenHead => exact Nat.le_of_not_lt fun hlt => hhead ⟨hs, hlt⟩
    obtain ⟨c, hjoin, hring, hfront, -, -⟩ := joinHeader_ring h.ring rfl (by omega)
    rw [if_neg hhead, hjoin, Option.bind_some, hfront, Option.bind_some]
    dsimp only
    split
    · obtain ⟨c', heq, hring'⟩ := hupdate hring
      refine ⟨c', { s.tok with status := .tokenPartial }, by rw [heq, Option.map_some], ?_, hring'⟩
      exact ⟨hring'.cursors, hoffset, fun _ => hheader⟩
    · next hwhole => exact absurd ⟨hhead, hjoin, hfront, rfl, rfl, hwhole⟩ (hwait c _ _ _)

theorem multiTokens_complete {c c₁ : IovecContainer} {front pos n : Nat} {cbufs : List Nat}
    (h : Complete s c front pos n) (htake : c.takeCbufs (c.cbufs.length + 1) n = some (cbufs, c₁))
    (fuel : Nat) :
    ISCSITokenizer.multiTokens (fuel + 1) s.buf s.tok =
      if 0 < s.tok.offset - n then c₁.update.bind fun buf =>
        ISCSITokenizer.multiTokens fuel buf ⟨s.tok.bhss ++ [⟨front, pos, cbufs⟩], .tokenHead,
          s.tok.offset - n⟩
      else c₁.update.map fun buf =>
        (buf, ⟨s.tok.bhss ++ [⟨front, pos, cbufs⟩], .tokenHead, s.tok.offset - n⟩) := by
  rw [ISCSITokenizer.multiTokens, if_neg h.header, h.join, Option.bind_some, h.head, Option.bind_some]
  dsimp only
  rw [h.offset, h.length, if_neg h.whole, htake, Option.bind_some]

theorem Complete.taken {count : Nat} {c : IovecContainer} {front pos n : Nat}
    (h : Complete s c front pos n)
    (hp : Placed count s done read) : 0 < n ∧ ((pos + n) / commonBufSize ≤ max c.overflow c.vec.length ↔
      (done + n) / commonBufSize ≤ done / commonBufSize + max s.buf.overflow count) ∧
        ∃ cbufs c₁, c.takeCbufs (c.cbufs.length + 1) n = some (cbufs, c₁) ∧
          Ring count c₁ (done / commonBufSize) (done + n) read ∧ c₁.overflow = s.buf.overflow := by
  obtain ⟨-, hpos, hle⟩ := h.counted hp.counted
  have hn : sizeofHeader ≤ n := by
    rw [← h.length]
    exact Parser.sizeofHeader_le _
  obtain ⟨c', hjoin, hring, hfront, hoffset, hover⟩ := joinHeader_ring hp.ring rfl (by omega)
  obtain rfl := Option.some.inj (hjoin.symm.trans h.join)
  obtain rfl := Option.some.inj (hfront.symm.trans h.head)
  have hbegin := h.offset.symm.trans hoffset
  have hlast : (done + n - 1) / commonBufSize - done / commonBufSize < c'.cbufs.length + 1 := by
    have hroom := hring.cursors.room
    rw [hring.cursors.cbufs, List.length_range']
    rw [commonBufSize_eq] at *
    omega
  obtain ⟨c₁, htake, hcursors₁, hsame⟩ :=
    takeCbufs_cursors (c'.cbufs.length + 1) hring.cursors hpos hle hlast
  refine ⟨hpos, ?_, _, c₁, htake, hring.congr hcursors₁ hsame.vec hsame.next hsame.overflow,
    hsame.overflow.trans hover⟩
  rw [hover, hring.length, hbegin]
  have hpos : (done - commonBufSize * (done / commonBufSize) + n) / commonBufSize =
      (done + n) / commonBufSize - done / commonBufSize := by
    rw [commonBufSize_eq]
    omega
  rw [hpos]
  omega

/-- The label again, or the end of the push, when the update is within the reach of the
array. -/
theorem Complete.turned {count : Nat} {c : IovecContainer} {front pos n : Nat}
    (h : Complete s c front pos n)
    (hp : Placed count s done read)
    (hE : (done + n) / commonBufSize ≤ done / commonBufSize + max s.buf.overflow count) :
    ∃ cbufs c₁ buf, c.takeCbufs (c.cbufs.length + 1) n = some (cbufs, c₁) ∧ c₁.update = some buf ∧
      Placed count ⟨buf, ⟨s.tok.bhss ++ [⟨front, pos, cbufs⟩], .tokenHead, s.tok.offset - n⟩⟩
        (done + n) read ∧
        Safe buf ((done + n) / commonBufSize) read := by
  obtain ⟨-, -, cbufs, c₁, htake, hring, hover⟩ := h.taken hp
  obtain ⟨buf, hupdate, hring', hsafe⟩ := update_ring hring (hover ▸ hE)
  have hoffset : s.tok.offset - n = read - (done + n) := by rw [hp.counted.offset, Nat.sub_sub]
  exact ⟨cbufs, c₁, buf, htake, hupdate, ⟨⟨hring'.cursors, hoffset, nofun⟩, hring'⟩, hsafe⟩

theorem multiTokens_safe {count : Nat} (fuel : Nat) :
    ∀ {s : Connection} {done : Nat}, Placed count s done read →
    Safe s.buf (done / commonBufSize) read → s.tok.offset < fuel →
    ∃ buf' tok' done', ISCSITokenizer.multiTokens fuel s.buf s.tok = some (buf', tok') ∧
      Placed count ⟨buf', tok'⟩ done' read := by
  induction fuel with
  | zero => exact fun _ _ hfuel => absurd hfuel (Nat.not_lt_zero _)
  | succ fuel ih =>
    intro s done h hsafe hfuel
    by_cases hcomplete : ∃ c front pos n, Complete s c front pos n
    · obtain ⟨c, front, pos, n, hcomplete⟩ := hcomplete
      obtain ⟨-, hpos, hle⟩ := hcomplete.counted h.counted
      have hE : (done + n) / commonBufSize ≤ done / commonBufSize + max s.buf.overflow count := by
        have hroom := h.ring.cursors.room
        have hnext := h.ring.next
        unfold Safe at hsafe
        rw [commonBufSize_eq] at *
        omega
      obtain ⟨cbufs, c₁, buf, htake, hupdate, hplaced, hsafe'⟩ := hcomplete.turned h hE
      rw [multiTokens_complete hcomplete htake, hupdate]
      split
      · obtain ⟨buf', tok', done', hrun, hresult⟩ := ih hplaced hsafe' (by dsimp only; omega)
        exact ⟨buf', tok', done', hrun, hresult⟩
      · exact ⟨buf, _, done + n, rfl, hplaced⟩
    · obtain ⟨buf', tok', hrun, hresult⟩ := multiTokens_wait h fuel fun c front pos n hc =>
        hcomplete ⟨c, front, pos, n, hc⟩
      exact ⟨buf', tok', done, hrun, hresult⟩

/-- A push returns if and only if its first update is within the reach of the array: the
later ones are. -/
theorem multiTokens_turns {count fuel : Nat} (h : Placed count s done read)
    (hfuel : s.tok.offset < fuel) :
    (Turns s → ∃ buf' tok' done', ISCSITokenizer.multiTokens fuel s.buf s.tok = some (buf', tok') ∧
      Placed count ⟨buf', tok'⟩ done' read) ∧
    (¬ Turns s → ISCSITokenizer.multiTokens fuel s.buf s.tok = none) := by
  obtain ⟨fuel, rfl⟩ : ∃ m, fuel = m + 1 := Nat.exists_eq_succ_of_ne_zero (by omega)
  constructor
  · intro hturns
    by_cases hcomplete : ∃ c front pos n, Complete s c front pos n
    · obtain ⟨c, front, pos, n, hcomplete⟩ := hcomplete
      obtain ⟨hpos, hiff, -⟩ := hcomplete.taken h
      obtain ⟨cbufs, c₁, buf, htake, hupdate, hplaced, hsafe⟩ :=
        hcomplete.turned h (hiff.mp (hturns c front pos n hcomplete))
      rw [multiTokens_complete hcomplete htake, hupdate]
      split
      · exact multiTokens_safe fuel hplaced hsafe (by dsimp only; omega)
      · exact ⟨buf, _, done + n, rfl, hplaced⟩
    · obtain ⟨buf', tok', hrun, hresult⟩ := multiTokens_wait h fuel fun c front pos n hc =>
        hcomplete ⟨c, front, pos, n, hc⟩
      exact ⟨buf', tok', done, hrun, hresult⟩
  · intro hturns
    unfold Turns at hturns
    push Not at hturns
    obtain ⟨c, front, pos, n, hcomplete, hlt⟩ := hturns
    obtain ⟨-, hiff, cbufs, c₁, htake, hring, hover⟩ := hcomplete.taken h
    have hbeyond := mt hiff.mpr (Nat.not_le.mpr hlt)
    have hnone := update_none hring (hover ▸ Nat.lt_of_not_le hbeyond)
    rw [multiTokens_complete hcomplete htake, hnone]
    split <;> rfl

theorem Placed.received {count : Nat} (h : Placed count s done read)
    {mem : Nat → Nat → UInt8} {size : Nat}
    {buf : IovecContainer} (htail : stepForwardTail { s.buf with mem } size = (true, buf)) :
    Placed count ⟨buf, { s.tok with offset := s.tok.offset + size }⟩ done (read + size) := by
  have hcounted := counted_received h.counted htail
  have hsame : buf.vec = s.buf.vec ∧ buf.next = s.buf.next ∧ buf.overflow = s.buf.overflow := by
    obtain rfl : _ = buf := congrArg Prod.snd htail
    exact ⟨rfl, rfl, rfl⟩
  obtain ⟨hvec, hnext, ho⟩ := hsame
  have hbehind := h.ring.behind
  refine ⟨hcounted, hcounted.cursors, hvec ▸ h.ring.length, hnext ▸ ho ▸ h.ring.next, ?_,
    hvec ▸ ho ▸ h.ring.entry⟩
  rw [ho]
  exact hbehind.trans (Nat.div_le_div_right (Nat.le_add_right _ _))

theorem push_eq {buf c : IovecContainer} {tok : ISCSITokenizer} {size : Nat}
    (h : buf.stepForwardTail size = (true, c)) : ISCSITokenizer.push buf tok size =
      (ISCSITokenizer.multiTokens (tok.offset + size + 1) c
        { tok with offset := tok.offset + size }).map fun r => (true, r) := by
  rw [ISCSITokenizer.push, h]
  rfl

theorem accounted_iff {count : Nat} (h : Placed count s done read) (e : Event) : Accounted s e ↔
    Turning s e := by
  cases e with
  | pop => exact Iff.rfl
  | push mem size =>
    refine forall₂_congr fun buf htail => ?_
    have hplaced := h.received htail
    obtain ⟨hreturns, hnone⟩ := multiTokens_turns hplaced (Nat.lt_succ_self _)
    rw [push_eq htail]
    constructor
    · rintro ⟨⟨buf', tok', hrun, -⟩, -⟩
      by_contra hturns
      dsimp only at hnone
      rw [hnone hturns] at hrun
      cases hrun
    · intro hturns
      obtain ⟨buf', tok', done', hrun, hresult⟩ := hreturns hturns
      dsimp only at hrun
      refine ⟨⟨buf', tok', by rw [hrun, Option.map_some], ?_⟩, fun c n hvisits => ?_⟩
      · exact hresult.counted.offset.trans (unread_cursors hresult.counted.cursors).symm
      · exact progresses_of_visits hvisits hplaced.counted

theorem step_placed {count : Nat} (h : Placed count s done read) {e : Event} (hs : step s e = some s') :
    ∃ done' read', Placed count s' done' read' := by
  cases e with
  | pop =>
    obtain rfl := Option.some.inj hs
    exact ⟨done, read, ⟨h.counted.cursors, h.counted.offset, h.counted.status⟩, h.ring⟩
  | push mem size =>
    simp only [step] at hs
    split at hs
    · next buf tok hpush =>
      obtain rfl := Option.some.inj hs
      obtain ⟨c, htail, htokens⟩ := push_cases hpush
      have hplaced := h.received htail
      obtain ⟨hreturns, hnone⟩ := multiTokens_turns hplaced (Nat.lt_succ_self _)
      by_cases hturns : Turns ⟨c, { s.tok with offset := s.tok.offset + size }⟩
      · obtain ⟨buf', tok', done', hrun, hresult⟩ := hreturns hturns
        obtain ⟨rfl, rfl⟩ := Prod.mk.inj (Option.some.inj (hrun.symm.trans htokens))
        exact ⟨done', _, hresult⟩
      · exact absurd ((hnone hturns).symm.trans htokens) nofun
    · cases hs

/-- Along every run of pushes of any bytes at any places, the pushes return with the counter
at what there is to read in the buffers, and their loops over buffers make progress and
end, if and only if each update is within the reach of the array. -/
theorem accounted_iff_turning (total : Nat) (mem : Nat → Nat → UInt8) (es : List Event) :
    Runs.Along step Accounted (start total mem) es ↔ Runs.Along step Turning (start total mem) es := by
  refine Runs.along_iff (fun s => ∃ done read, Placed (max (total / commonBufSize + 1) 2) s done read)
    (fun s e ⟨_, _, h⟩ => accounted_iff h e) (fun s e s' ⟨_, _, h⟩ _ hs => step_placed h hs) ?_ es
  exact ⟨0, 0, counted_start total mem, ring_reserve total mem⟩

/-- A header, and ten bytes of the next one. -/
example : (step (start 1 fun _ _ => 0) (.push (fun _ _ => 0) 58)).map
    (fun s => (s.tok.bhss.length, s.tok.offset)) =
    some (1, 10) := by decide +kernel

/-- A PDU of three whole buffers. -/
def sampleMem (b i : Nat) : UInt8 :=
  if b ≠ 0 then 0 else if i = 5 then 0x05 else if i = 6 then 0xFF else if i = 7 then 0xD0 else 0

/-- The first two buffers of the PDU are before the array when the third one completes it,
and the third rotation of the array of two entries moves a negative number of them. -/
theorem not_accounted_three_buffers : ∃ es : List Event, ¬ Runs.Along step Accounted
    (start 8192 sampleMem) es := by
  refine ⟨[.push sampleMem 262144, .push sampleMem 131072], fun h => ?_⟩
  have hrun : (step (start 8192 sampleMem) (.push sampleMem 262144)).map (fun s =>
      ((stepForwardTail { s.buf with mem := sampleMem } 131072).1,
        (ISCSITokenizer.push { s.buf with mem := sampleMem } s.tok 131072).isSome)) = some (true,
          false) := by decide +kernel
  obtain ⟨s, hs, heq⟩ := Option.map_eq_some_iff.mp hrun
  obtain ⟨htail, hpush⟩ := Prod.mk.inj heq
  obtain ⟨⟨buf', tok', hreturns, -⟩, -⟩ := (h.2 s hs).1 _ (Prod.ext htail rfl)
  rw [hreturns] at hpush
  cases hpush

end Sstoraged.TokenAccounting
