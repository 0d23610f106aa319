import Sstoraged.Runs
import Sstoraged.TokenWindow

namespace Sstoraged.ReceiveRing

open IovecContainer TokenCursors TokenWindow

/-- The array of `c'` is that of `c` after `r` rotations with the indexes from `j` on: an
entry moves on until the index reaches its distance from the end. -/
structure Rotated (c c' : IovecContainer) (j r : Nat) : Prop where
  length : c'.vec.length = c.vec.length
  next : c'.next = c.next + r
  last : c'.vec[c.vec.length - 1]? =
    if r = 0 then c.vec[c.vec.length - 1]? else some ⟨c.next + r - 1, 0, commonBufSize⟩
  moved : ∀ p, p + 1 < c.vec.length → c'.vec[p]? = c.vec[p + min r (c.vec.length - 1 - p - j)]?

section rotate

variable {c c₁ c' : IovecContainer} {j r : Nat}

theorem Rotated.of_vec (hvec : c'.vec = c.vec) (hnext : c'.next = c.next) : Rotated c c' j 0 := by
  refine ⟨by rw [hvec], hnext, by rw [hvec, if_pos rfl], fun p hp => ?_⟩
  rw [hvec, Nat.zero_min, Nat.add_zero]

theorem rotate_none (h : c.vec.length ≤ j) : c.rotate j = none := if_pos (by omega)

theorem rotate_eq (h : j < c.vec.length) : ∃ c', c.rotate j = some c' ∧ c'.vec.length = c.vec.length ∧
    c'.next = c.next + 1 ∧ c'.overflow = c.overflow ∧
    c'.vec[c.vec.length - 1]? = some ⟨c.next, 0, commonBufSize⟩ ∧
    ∀ p, p + 1 < c.vec.length → c'.vec[p]? = if p + j + 1 < c.vec.length then c.vec[p + 1]?
      else c.vec[p]? := by
  have hlen : ((c.vec.drop 1).take (c.vec.length - j - 1)).length = c.vec.length - j - 1 := by
    rw [List.length_take, List.length_drop]
    omega
  have hall : ((c.vec.drop 1).take (c.vec.length - j - 1) ++ c.vec.drop (c.vec.length - j - 1)).length =
      c.vec.length := by
    rw [List.length_append, hlen, List.length_drop]
    omega
  refine ⟨_, if_neg (by omega), ?_, rfl, rfl, ?_, fun p hp => ?_⟩
  · dsimp only
    rw [List.length_set, hall]
  · dsimp only
    rw [List.getElem?_set_self (by omega)]
  · dsimp only
    rw [List.getElem?_set_ne (by omega)]
    by_cases hmoved : p + j + 1 < c.vec.length
    · rw [if_pos hmoved, List.getElem?_append_left (by omega), List.getElem?_take_of_lt (by omega),
        List.getElem?_drop, Nat.add_comm]
    · rw [if_neg hmoved, List.getElem?_append_right (by omega), hlen, List.getElem?_drop]
      exact congrArg (c.vec[·]?) (by omega)

theorem Rotated.head {c₂ : IovecContainer} (h' : Rotated c₂ c' (j + 1) r) (h : c.rotate j = some c₁)
    (hvec : c₂.vec = c₁.vec) (hnext : c₂.next = c₁.next) : Rotated c c' j (r + 1) := by
  have hj : j < c.vec.length := by
    by_contra hle
    rw [rotate_none (Nat.le_of_not_lt hle)] at h
    exact absurd h nofun
  obtain ⟨c₃, heq, hlen, hn, -, hlast, hentry⟩ := rotate_eq hj
  obtain rfl := Option.some.inj (heq.symm.trans h)
  obtain ⟨hlen', hn', hlast', hmoved⟩ := h'
  rw [hvec, hlen] at hlen' hlast' hmoved
  rw [hnext, hn] at hn' hlast'
  refine ⟨hlen', by omega, ?_, fun p hp => ?_⟩
  · rw [hlast', if_neg (Nat.succ_ne_zero r)]
    split
    next hr =>
      rw [hlast, hr]
      rfl
    · congr 2
      omega
  · rw [hmoved p hp, hentry _ (by omega)]
    by_cases hin : p + j + 1 < c.vec.length
    · rw [if_pos (by omega)]
      exact congrArg (c.vec[·]?) (by omega)
    · rw [if_neg (by omega)]
      exact congrArg (c.vec[·]?) (by omega)

end rotate

section loops

variable {c : IovecContainer} {first done read w : Nat}

theorem cleanup_pops (fuel k : Nat) : ∀ {c : IovecContainer} {first : Nat} (index : Nat),
    Cursors c first done read →
    c.overflow = k → first + k ≤ done / commonBufSize → first + k < c.next →
    ∃ c', cleanup (fuel + k) index c = cleanup fuel (index + k) c' ∧ Cursors c' (first + k) done read ∧
      c'.vec = c.vec ∧ c'.next = c.next ∧ c'.overflow = 0 := by
  induction k with
  | zero => exact fun index h ho _ _ => ⟨_, rfl, h, rfl, rfl, ho⟩
  | succ k ih =>
    intro c first index h ho hE hnext
    have hdone : commonBufSize * (first + 1) ≤ done := by
      rw [commonBufSize_eq] at *
      omega
    obtain ⟨c', heq, hc', hvec, hn, ho'⟩ :=
      ih (index + 1) (cursors_tail h (by omega) hdone (c.overflow - 1))
      (by dsimp only; omega) (by omega) (by dsimp only; omega)
    refine ⟨c', ?_, ?_, hvec, hn, ho'⟩
    · rw [← Nat.add_assoc, cleanup_pop (fuel + k) index h (by omega) hdone (by omega), heq]
      exact congrArg (cleanup fuel · c') (by omega)
    · have hsum : first + 1 + k = first + (k + 1) := by omega
      exact hsum ▸ hc'

theorem cleanup_rotated (fuel : Nat) : ∀ {c : IovecContainer} {first : Nat} (index : Nat),
    Cursors c first done read →
    c.overflow = 0 → first < c.next → first ≤ done / commonBufSize →
      done / commonBufSize ≤ first + fuel →
    index + (done / commonBufSize - first) ≤ c.vec.length →
    ∃ c', cleanup fuel index c = some c' ∧ Rotated c c' index (done / commonBufSize - first) ∧
      c'.overflow = 0 := by
  induction fuel with
  | zero =>
    intro c first index h ho hnext hle hfuel hindex
    have hzero : done / commonBufSize - first = 0 := by omega
    exact ⟨c, rfl, hzero ▸ .of_vec rfl rfl, ho⟩
  | succ fuel ih =>
    intro c first index h ho hnext hle hfuel hindex
    by_cases hdone : commonBufSize * (first + 1) ≤ done
    · have hE : first + 1 ≤ done / commonBufSize := by
        rw [commonBufSize_eq] at *
        omega
      obtain ⟨c₁, hr, hlen, hn, ho₁, -⟩ :=
        @rotate_eq { c with cbufs := c.cbufs.tail } index (by dsimp only; omega)
      have hc₁ := ((cursors_tail h hnext hdone c.overflow).rotate hnext hr).1
      dsimp only at hlen hn ho₁
      obtain ⟨c', heq, hrot, ho'⟩ := ih (index + 1) hc₁ (ho₁.trans ho) (by omega) hE
        (by omega) (by omega)
      have hsub : done / commonBufSize - first = done / commonBufSize - (first + 1) + 1 := by omega
      refine ⟨c', ?_, ?_, ho'⟩
      · rw [cleanup_rotate fuel index h hnext hdone ho, hr, Option.bind_some, heq]
      · obtain ⟨hlength, hnext', hlast, hmoved⟩ := hrot.head hr rfl rfl
        rw [hsub]
        exact ⟨hlength, hnext', hlast, hmoved⟩
    · have hzero : done / commonBufSize - first = 0 := by
        rw [commonBufSize_eq] at *
        omega
      exact ⟨c, cleanup_stop _ _ h (Nat.lt_of_not_le hdone), hzero ▸ .of_vec rfl rfl, ho⟩

theorem cleanup_stuck (fuel : Nat) : ∀ {c : IovecContainer} {first : Nat} (index : Nat),
    Cursors c first done read →
    c.overflow = 0 → first < c.next → done / commonBufSize ≤ first + fuel →
      first < done / commonBufSize →
    c.vec.length < index + (done / commonBufSize - first) → cleanup fuel index c = none := by
  induction fuel with
  | zero =>
    intro c first index h ho hnext hfuel hE hlt
    omega
  | succ fuel ih =>
    intro c first index h ho hnext hfuel hE hlt
    have hdone : commonBufSize * (first + 1) ≤ done := by
      rw [commonBufSize_eq] at *
      omega
    rw [cleanup_rotate fuel index h hnext hdone ho]
    by_cases hin : index < c.vec.length
    · obtain ⟨c₁, hr, hlen, hn, ho₁, -⟩ := @rotate_eq { c with cbufs := c.cbufs.tail } index hin
      have hc₁ := ((cursors_tail h hnext hdone c.overflow).rotate hnext hr).1
      dsimp only at hlen hn ho₁
      rw [hr, Option.bind_some]
      exact ih (index + 1) hc₁ (ho₁.trans ho) (by omega) (by omega) (by omega) (by omega)
    · rw [@rotate_none { c with cbufs := c.cbufs.tail } index (Nat.le_of_not_lt hin)]
      rfl

theorem overflowLoop_rotated (fuel : Nat) : ∀ {c : IovecContainer} {w : Nat} (index : Nat),
    Cursors c first done read →
    c.overflow = w - first → first ≤ w → w < c.next → w ≤ read / commonBufSize →
      read / commonBufSize ≤ w + fuel →
    index + (read / commonBufSize - w) ≤ c.vec.length →
    ∃ c', overflowLoop fuel index c = some c' ∧ Rotated c c' index (read / commonBufSize - w) ∧
      c'.overflow = read / commonBufSize - first := by
  induction fuel with
  | zero =>
    intro c w index h ho hle hnext hw hfuel hindex
    have hzero : read / commonBufSize - w = 0 := by omega
    exact ⟨c, rfl, hzero ▸ .of_vec rfl rfl, by omega⟩
  | succ fuel ih =>
    intro c w index h ho hle hnext hw hfuel hindex
    rw [overflowLoop, getElem?_cursors h hle hnext ho]
    dsimp only
    rw [getCapacity_cursors h hle hnext]
    by_cases hlt : w < read / commonBufSize
    · obtain ⟨c₁, hr, hlen, hn, ho₁, -⟩ := @rotate_eq c index (by omega)
      have hc₁ := (h.rotate (by omega) hr).1
      have hc₂ : Cursors { c₁ with overflow := c₁.overflow + 1 } first done read := hc₁.congr rfl rfl rfl
      obtain ⟨c', heq, hrot, ho'⟩ := @ih _ (w + 1) (index + 1) hc₂ (by dsimp only; omega) (by omega)
        (by dsimp only; omega)
        hlt (by omega) (by dsimp only; omega)
      have hsub : read / commonBufSize - w = read / commonBufSize - (w + 1) + 1 := by omega
      refine ⟨c', ?_, ?_, ho'⟩
      · rw [if_pos (by rw [commonBufSize_eq] at *; omega), hr, Option.bind_some, heq]
      · rw [hsub]
        exact hrot.head hr rfl rfl
    · have hzero : read / commonBufSize - w = 0 := by omega
      refine ⟨c, if_neg ?_, hzero ▸ .of_vec rfl rfl, by omega⟩
      rw [commonBufSize_eq] at *
      omega

end loops

/-- The bytes that an entry of the array offers to `readv`. -/
def Offers (v : Iovec) (b k : Nat) : Prop := v.cbuf = b ∧ v.offset ≤ k ∧ k < v.offset + v.len

/-- The array lies behind the bytes that were received. -/
structure Right (count : Nat) (c : IovecContainer) : Prop where
  size : c.cbufs.length = count + c.overflow
  length : c.vec.length = count
  tail : ∃ b, c.cbufs[c.overflow]? = some b ∧ c.vec[0]? =
    some ⟨b, (c.bufs b).tail, (c.bufs b).getCapacity⟩ ∧
    0 < (c.bufs b).getCapacity
  whole : ∀ i, 0 < i → i < count →
    ∃ b, c.cbufs[c.overflow + i]? = some b ∧ c.vec[i]? = some ⟨b, 0, commonBufSize⟩
  disjoint : c.vec.Pairwise fun v v' => ∀ b k, Offers v b k → ¬ Offers v' b k
  free : ∀ v ∈ c.vec, ∀ b k, Offers v b k → b ∈ c.cbufs → ¬ ((c.bufs b).offset ≤ k ∧ k < (c.bufs b).tail)

/-- An update of an array of `count` entries from buffer `w` on, in a chain from buffer
`first` on, if the next byte is taken from buffer `E` and received in buffer `V`. -/
def Few (count first w E V : Nat) : Prop :=
  if count = 2 then E ≤ w ∨ E ≤ first + 1 ∨ E = first + 2 ∧ V = E
  else E ≤ w ∧ V ≤ w + 1 ∨ w < E ∧ E ≤ first + 1 ∧ V ≤ E + 1 ∨ count = 3 ∧ w < E ∧
    E ≤ first + 2 ∧ V = E + 1

/-- The buffers of the entries behind the first one, after `r` rotations from index `j` on. -/
def turn (n j r : Nat) (f : Nat → Nat) (p : Nat) : Nat :=
  if p + 1 < n then f (p + min r (n - 1 - p - j)) else f p + r

section entries

variable {c c' : IovecContainer} {f : Nat → Nat} {j r n : Nat}

/-- The entries behind the first one are whole buffers, the last of them the newest. -/
structure Whole (c : IovecContainer) (n : Nat) (f : Nat → Nat) : Prop where
  length : c.vec.length = n
  next : c.next = f (n - 1) + 1
  entries : ∀ p, 0 < p → p < n → c.vec[p]? = some ⟨f p, 0, commonBufSize⟩

theorem Whole.rotated (h : Whole c n f) (hn : 1 < n) (hr : Rotated c c' j r) :
    Whole c' n (turn n j r f) := by
  obtain ⟨hlen, hnext, hentries⟩ := h
  obtain ⟨hlen', hnext', hlast, hmoved⟩ := hr
  rw [hlen] at hlen' hlast hmoved
  have hturn : turn n j r f (n - 1) = f (n - 1) + r := if_neg (by omega)
  refine ⟨hlen', by omega, fun p hp hpn => ?_⟩
  by_cases hin : p + 1 < n
  · rw [hmoved p hin, turn, if_pos hin]
    exact hentries _ (by omega) (by omega)
  · obtain rfl : p = n - 1 := by omega
    rw [hlast, hturn]
    split
    next hzero => rw [hentries _ hp hpn, hzero, Nat.add_zero]
    · congr 2
      omega

theorem whole_of_loose {v : Iovec} {count first w : Nat} (h : Loose c v count first w)
    (hcount : 0 < count) :
    Whole c count (w + ·) := by
  have hnext := h.next
  refine ⟨by rw [h.vec, List.length_cons, length_entries]; omega, by omega, fun p hp hpn => ?_⟩
  obtain ⟨q, rfl⟩ : ∃ q, p = q + 1 := ⟨p - 1, by omega⟩
  rw [h.vec, List.getElem?_cons_succ, TokenWindow.entries, List.getElem?_map,
    List.getElem?_range' (by omega),
    Option.map_some]
  congr 2
  omega

end entries

/-- An update that ends with the array at buffer `cur`, and with the entries `f` behind
the first one. -/
structure Outcome (count done read cur : Nat) (f : Nat → Nat) (c : IovecContainer) : Prop where
  cursors : Cursors c (done / commonBufSize) done read
  le : done / commonBufSize ≤ cur
  cur_le : cur ≤ read / commonBufSize
  overflow : c.overflow = cur - done / commonBufSize
  next : c.next = cur + count
  tail : c.vec[0]? = some ⟨cur, (c.bufs cur).tail, (c.bufs cur).getCapacity⟩
  whole : Whole c count f

section outcome

variable {c c' : IovecContainer} {count done read cur w first : Nat} {f : Nat → Nat} {v : Iovec}

theorem updateFirst_outcome (h : Cursors c (done / commonBufSize) done read)
    (hle : done / commonBufSize ≤ cur)
    (hcur : cur ≤ read / commonBufSize) (ho : c.overflow = cur - done / commonBufSize)
    (hnext : c.next = cur + count)
    (hcount : 0 < count) (hw : Whole c count f) : ∃ c', c.updateFirst = some c' ∧
      Outcome count done read cur f c' := by
  have hlen := hw.length
  refine ⟨{ c with vec := c.vec.set 0 ⟨cur, (c.bufs cur).tail, (c.bufs cur).getCapacity⟩ }, ?_,
    h.congr rfl rfl rfl, hle, hcur, ho, hnext, ?_, ?_, hw.next, fun p hp hpn => ?_⟩
  · rw [updateFirst, getElem?_cursors h hle (by omega) ho, Option.map_some]
  · dsimp only
    rw [List.getElem?_set_self (by omega)]
  · dsimp only
    rw [List.length_set, hlen]
  · dsimp only
    rw [List.getElem?_set_ne (by omega)]
    exact hw.entries p hp hpn

theorem cleanup_outcome (h : Cursors c first done read) (hl : Loose c v count first w)
    (hcount : 1 < count)
    (hE : done / commonBufSize ≤ w ∨ done / commonBufSize ≤ first + count) :
    ∃ c', cleanup c.cbufs.length 0 c = some c' ∧ Cursors c' (done / commonBufSize) done read ∧
      Rotated c c' (w - first) (done / commonBufSize - w) ∧ c'.overflow = w - done / commonBufSize := by
  have hnext := hl.next
  have hle := hl.le
  have ho := hl.overflow
  have hroom := h.room
  have hdone := h.done_le
  have hfirst := h.first_le
  have hlen : c.cbufs.length = count + (w - first) := by
    rw [h.cbufs, List.length_range']
    omega
  have hfuel : done / commonBufSize ≤ first + c.cbufs.length := by
    rw [hlen]
    rw [commonBufSize_eq] at *
    omega
  by_cases hin : done / commonBufSize ≤ w
  · obtain ⟨c', heq, hl'⟩ := cleanup_inside c.cbufs.length 0 h hl (by omega) hin hfuel
    have hzero : done / commonBufSize - w = 0 := by omega
    exact ⟨c', heq, (cleanup_cursors _ h hfuel heq).1,
      hzero ▸ .of_vec (hl'.vec.trans hl.vec.symm) (hl'.next.trans hnext.symm), hl'.overflow⟩
  · obtain ⟨c₁, heq₁, hc₁, hvec₁, hnext₁, ho₁⟩ :=
      cleanup_pops count (w - first) 0 h ho (by omega) (by omega)
    have hvec : c₁.vec.length = count := by
      rw [hvec₁]
      exact (whole_of_loose hl (by omega)).length
    have hw : first + (w - first) = w := by omega
    rw [hw] at hc₁
    obtain ⟨c', heq, hrot, ho'⟩ := cleanup_rotated count (0 + (w - first)) hc₁ ho₁ (by omega)
      (by omega) (by omega)
      (by omega)
    have hrun : cleanup c.cbufs.length 0 c = some c' := by rw [hlen, heq₁, heq]
    refine ⟨c', hrun, (cleanup_cursors _ h hfuel hrun).1, ?_, by omega⟩
    obtain ⟨hlength, hn, hlast, hmoved⟩ := hrot
    rw [hvec₁] at hlength hlast hmoved
    rw [hnext₁] at hn hlast
    rw [Nat.zero_add] at hmoved
    exact ⟨hlength, hn, hlast, hmoved⟩

/-- An update goes behind the end of the array, or it ends with the array at the last
buffer that bytes were received in, or at the first one that they are taken from. -/
theorem update_cases (h : Cursors c first done read) (hl : Loose c v count first w)
    (hv : v.cbuf = w ∧ v.offset ≤ commonBufSize) (hcount : 1 < count) (hw : w ≤ read / commonBufSize) :
    (w < done / commonBufSize ∧ first + count < done / commonBufSize ∧ c.update = none) ∨
    (done / commonBufSize ≤ w ∨ done / commonBufSize < first + count) ∧ (∃ c', c.update = some c' ∧
      Outcome count done read (read / commonBufSize)
        (turn count 0 (read / commonBufSize - max w (done / commonBufSize))
          (turn count (w - first) (done / commonBufSize - w) (w + ·))) c') ∨
    (w < done / commonBufSize ∧ done / commonBufSize = first + count ∧ ∃ c', c.update = some c' ∧
      Outcome count done read (done / commonBufSize)
        (turn count (w - first) (done / commonBufSize - w) (w + ·)) c') := by
  have hnext := hl.next
  have hle := hl.le
  have hroom := h.room
  have hdone := h.done_le
  have hfirst := h.first_le
  have hER : done / commonBufSize ≤ read / commonBufSize := Nat.div_le_div_right hdone
  have hlast : read / commonBufSize ≤ w + count := by
    rw [hnext] at hroom
    rw [commonBufSize_eq] at *
    omega
  by_cases hstuck : w < done / commonBufSize ∧ first + count < done / commonBufSize
  · refine .inl ⟨hstuck.1, hstuck.2, ?_⟩
    have hlen : c.cbufs.length = count + (w - first) := by
      rw [h.cbufs, List.length_range']
      omega
    obtain ⟨c₁, heq₁, hc₁, hvec₁, hnext₁, ho₁⟩ :=
      cleanup_pops count (w - first) 0 h hl.overflow (by omega) (by omega)
    have hvec : c₁.vec.length = count := by
      rw [hvec₁]
      exact (whole_of_loose hl (by omega)).length
    have hnone := cleanup_stuck count (0 + (w - first)) hc₁ ho₁ (by omega) (by omega)
      (by omega) (by omega)
    rw [update, hlen, heq₁, hnone]
    rfl
  obtain ⟨c₁, heq₁, hc₁, hrot, ho₁⟩ := cleanup_outcome h hl hcount (by omega)
  have hwhole := (whole_of_loose hl (by omega)).rotated hcount hrot
  have hlen₁ := hrot.length
  have hnext₁ := hrot.next
  have hlen : c.vec.length = count := (whole_of_loose hl (by omega)).length
  have hcur : c₁.cbufs[c₁.overflow]? = some (max w (done / commonBufSize)) :=
    getElem?_cursors hc₁ (by omega) (by omega) (by omega)
  have hfirst₁ := hrot.moved 0 (by omega)
  rw [Nat.zero_add, Nat.sub_zero, hlen] at hfirst₁
  -- the first entry was moved with the others, or the last rotation left it behind
  obtain ⟨v₁, hv₁, hrange⟩ : ∃ v₁, c₁.vec[0]? = some v₁ ∧
    (inRange (max w (done / commonBufSize)) v₁ = true ↔
      done / commonBufSize ≤ w ∨ done / commonBufSize < first + count) := by
    by_cases hzero : min (done / commonBufSize - w) (count - 1 - (w - first)) = 0
    · refine ⟨v, by rw [hfirst₁, hzero, hl.vec]; rfl, ?_⟩
      rw [inRange, decide_eq_true_eq, hv.1]
      have hoff := hv.2
      omega
    · refine ⟨_, hfirst₁.trans ((whole_of_loose hl (by omega)).entries _ (by omega) (by omega)), ?_⟩
      rw [inRange, decide_eq_true_eq]
      dsimp only
      omega
  have hupdate : c.update = (if inRange (max w (done / commonBufSize)) v₁ then overflowLoop
    c₁.cbufs.length 0 c₁
      else some c₁).bind updateFirst := by
    rw [update, heq₁, Option.bind_some, hcur, Option.bind_some, hv₁, Option.bind_some]
  by_cases hin : done / commonBufSize ≤ w ∨ done / commonBufSize < first + count
  · refine .inr (.inl ⟨hin, ?_⟩)
    have hlenc : c₁.cbufs.length = count + (max w (done / commonBufSize) - done / commonBufSize) := by
      rw [hc₁.cbufs, List.length_range']
      omega
    obtain ⟨c₂, heq₂, hrot₂, ho₂⟩ := @overflowLoop_rotated _ _ _ c₁.cbufs.length c₁
      (max w (done / commonBufSize)) 0 hc₁
      (by omega) (by omega) (by omega) (by omega) (by omega) (by omega)
    have hnext₂ := hrot₂.next
    obtain ⟨c', heq', hout⟩ := updateFirst_outcome (overflowLoop_cursors _ hc₁ heq₂).1 hER
      (Nat.le_refl _) ho₂ (by omega)
      (by omega) (hwhole.rotated hcount hrot₂)
    exact ⟨c', by rw [hupdate, if_pos (hrange.mpr hin), heq₂, Option.bind_some, heq'], hout⟩
  · refine .inr (.inr ⟨by omega, by omega, ?_⟩)
    obtain ⟨c', heq', hout⟩ := @updateFirst_outcome c₁ count done read (done / commonBufSize) _ hc₁
      (Nat.le_refl _) hER
      (by omega) (by omega) (by omega) hwhole
    exact ⟨c', by rw [hupdate, if_neg fun hr => hin (hrange.mp hr), Option.bind_some, heq'], hout⟩

theorem Outcome.offers (h : Outcome count done read cur f c)
    (hall : ∀ p, 0 < p → p < count → f p = cur + p)
    {p b k : Nat} {v : Iovec} (hv : c.vec[p]? = some v) (ho : Offers v b k) :
    b = cur + p ∧ k < commonBufSize ∧ (p = 0 → (c.bufs cur).tail ≤ k) := by
  have hp : p < count := h.whole.length ▸ (List.getElem?_eq_some_iff.mp hv).1
  obtain ⟨hb, hlo, hhi⟩ := ho
  obtain rfl | hpos := Nat.eq_zero_or_pos p
  · obtain rfl := Option.some.inj (h.tail.symm.trans hv)
    have hle := h.le
    have hnext := h.next
    have hbuf := h.cursors.bufs cur hle (by omega)
    rw [CommonBuf.getCapacity, CommonBuf.getSize, hbuf] at hhi
    dsimp only at hb hlo hhi
    exact ⟨hb.symm, by omega, fun _ => hlo⟩
  · obtain rfl := Option.some.inj ((h.whole.entries p hpos hp).symm.trans hv)
    dsimp only at hb hlo hhi
    rw [hall p hpos hp] at hb
    exact ⟨hb.symm, by omega, fun hz => absurd hz (by omega)⟩

theorem Outcome.length_cbufs (h : Outcome count done read cur f c) :
    c.cbufs.length = count + c.overflow := by
  have hnext := h.next
  have hle := h.le
  rw [h.cursors.cbufs, List.length_range', h.overflow]
  omega

theorem Outcome.getElem?_cbufs (h : Outcome count done read cur f c) {p : Nat} (hp : p < count) :
    c.cbufs[c.overflow + p]? = some (cur + p) := by
  have hnext := h.next
  have hle := h.le
  rw [h.cursors.cbufs, List.getElem?_range' (by rw [h.overflow]; omega), h.overflow]
  congr 1
  omega

theorem Outcome.right (h : Outcome count done read cur f c) (hcount : 0 < count)
    (hcur : cur = read / commonBufSize)
    (hall : ∀ p, 0 < p → p < count → f p = cur + p) : Right count c := by
  have hle := h.le
  have hnext := h.next
  refine ⟨h.length_cbufs, h.whole.length, ⟨cur, h.getElem?_cbufs hcount, h.tail, ?_⟩,
    fun p hp hpn => ?_, ?_, ?_⟩
  · rw [getCapacity_cursors h.cursors hle (by omega)]
    rw [commonBufSize_eq] at *
    omega
  · refine ⟨cur + p, h.getElem?_cbufs hpn, ?_⟩
    rw [h.whole.entries p hp hpn, hall p hp hpn]
  · rw [List.pairwise_iff_getElem]
    intro i j hi hj hij b k ho ho'
    obtain ⟨hb, -⟩ := h.offers hall (List.getElem?_eq_getElem hi) ho
    obtain ⟨hb', -⟩ := h.offers hall (List.getElem?_eq_getElem hj) ho'
    omega
  · intro v hv b k ho hb hlive
    obtain ⟨p, hp⟩ := List.mem_iff_getElem?.mp hv
    obtain ⟨rfl, hk, hzero⟩ := h.offers hall hp ho
    obtain rfl | hpos := Nat.eq_zero_or_pos p
    · have htail := hzero rfl
      rw [Nat.add_zero] at hlive
      omega
    · -- nothing was received in the buffers behind
      have hlen : p < count := h.whole.length ▸ (List.getElem?_eq_some_iff.mp hp).1
      have hbuf := h.cursors.bufs (cur + p) (by omega) (by omega)
      rw [hbuf] at hlive
      dsimp only at hlive
      rw [commonBufSize_eq] at *
      omega

theorem Outcome.of_right (h : Outcome count done read cur f c) (hcount : 0 < count)
    (hr : Right count c) :
    cur = read / commonBufSize ∧ ∀ p, 0 < p → p < count → f p = cur + p := by
  have hle := h.le
  have hle' := h.cur_le
  have hnext := h.next
  refine ⟨?_, fun p hp hpn => ?_⟩
  · obtain ⟨b, hb, -, hcap⟩ := hr.tail
    obtain rfl := Option.some.inj ((h.getElem?_cbufs hcount).symm.trans hb)
    rw [Nat.add_zero, getCapacity_cursors h.cursors hle (by omega)] at hcap
    rw [commonBufSize_eq] at *
    omega
  · obtain ⟨b, hb, hv⟩ := hr.whole p hp hpn
    obtain rfl := Option.some.inj ((h.getElem?_cbufs hpn).symm.trans hb)
    have heq := Option.some.inj ((h.whole.entries p hp hpn).symm.trans hv)
    exact congrArg Iovec.cbuf heq

theorem turn_of_lt {n j r p : Nat} (h : p + 1 < n) :
    turn n j r f p = f (p + min r (n - 1 - p - j)) := if_pos h

theorem turn_last {n j r p : Nat} (h : n ≤ p + 1) : turn n j r f p = f p + r := if_neg (Nat.not_lt.mpr h)

/-- The condition by the index of the first rotation, and by the numbers of rotations in
the two loops. -/
theorem few_iff {E V j r k : Nat} (hj : first + j = w) (hr : w + r = max w E) (hk : w + r + k = V) :
    Few count first w E V ↔
      if count = 2 then r = 0 ∨ j + r ≤ 1 ∨ j + r = 2 ∧ k = 0
      else r = 0 ∧ k ≤ 1 ∨ 0 < r ∧ j + r ≤ 1 ∧ k ≤ 1 ∨ count = 3 ∧ 0 < r ∧ j + r ≤ 2 ∧ k = 1 := by
  unfold Few
  split
  · omega
  · omega

theorem turn_turn {n j r k p : Nat} :
    turn n 0 k (turn n j r (w + ·)) p =
      if n ≤ p + 1 then w + p + r + k
      else if p + k + 1 < n then w + p + k + min r (n - 1 - p - k - j) else w + n - 1 + r := by
  by_cases hlast : n ≤ p + 1
  · rw [turn_last hlast, turn_last hlast, if_pos hlast]
  rw [turn_of_lt (Nat.lt_of_not_le hlast), if_neg hlast]
  by_cases hin : p + k + 1 < n
  · have hmin : min k (n - 1 - p - 0) = k := by omega
    rw [hmin, turn_of_lt hin, if_pos hin]
    omega
  · have hmin : p + min k (n - 1 - p - 0) = n - 1 := by omega
    rw [hmin, turn_last (by omega), if_neg hin]
    omega

/-- An entry is left behind unless a rotation with index 0 moves it: the next to last one
is the first of them. -/
theorem turn_eq_iff {n j r k : Nat} (hn : 1 < n) (hrk : r + k ≤ n) (hin : r = 0 ∨ j + r < n) :
    (∀ p, 0 < p → p < n → turn n 0 k (turn n j r (w + ·)) p = w + r + k + p) ↔
      if n = 2 then r = 0 ∨ j + r ≤ 1 ∨ j + r = 2 ∧ k = 0
      else r = 0 ∧ k ≤ 1 ∨ 0 < r ∧ j + r ≤ 1 ∧ k ≤ 1 ∨ n = 3 ∧ 0 < r ∧ j + r ≤ 2 ∧ k = 1 := by
  constructor
  · intro h
    split
    · omega
    have hlast := h (n - 2) (by omega) (by omega)
    rw [turn_turn, if_neg (by omega)] at hlast
    have hk : k ≤ 1 := by
      split at hlast
      · omega
      · omega
    by_cases hthree : n = 3
    · split at hlast
      · omega
      · omega
    · have hbefore := h (n - 3) (by omega) (by omega)
      rw [turn_turn, if_neg (by omega), if_pos (by omega)] at hbefore
      split at hlast
      · omega
      · omega
  · intro h p hp hpn
    rw [turn_turn]
    split
    · omega
    next hlast =>
    split
    next hmoved =>
      split at h
      · omega
      · omega
    · split at h
      · omega
      · omega

theorem turn_eq_iff_skip {n j r k : Nat} (hn : 1 < n) (hr : 0 < r) (hin : j + r = n) :
    (k = 0 ∧ ∀ p, 0 < p → p < n → turn n j r (w + ·) p = w + r + p) ↔
      if n = 2 then r = 0 ∨ j + r ≤ 1 ∨ j + r = 2 ∧ k = 0
      else r = 0 ∧ k ≤ 1 ∨ 0 < r ∧ j + r ≤ 1 ∧ k ≤ 1 ∨ n = 3 ∧ 0 < r ∧ j + r ≤ 2 ∧ k = 1 := by
  constructor
  · rintro ⟨hk, h⟩
    split
    · omega
    have hlast := h (n - 2) (by omega) (by omega)
    rw [turn_of_lt (by omega)] at hlast
    omega
  · intro h
    split at h
    · refine ⟨by omega, fun p hp hpn => ?_⟩
      rw [turn_last (by omega)]
      omega
    · omega

theorem update_right_iff (h : Cursors c first done read) (hl : Loose c v count first w)
    (hv : v.cbuf = w ∧ v.offset ≤ commonBufSize) (hcount : 1 < count) (hw : w ≤ read / commonBufSize) :
    (∃ c', c.update = some c' ∧ Right count c') ↔
      Few count first w (done / commonBufSize) (read / commonBufSize) := by
  have hnext := hl.next
  have hle := hl.le
  have hroom := h.room
  have hER : done / commonBufSize ≤ read / commonBufSize := Nat.div_le_div_right h.done_le
  have hlast : read / commonBufSize ≤ w + count := by
    rw [hnext] at hroom
    rw [commonBufSize_eq] at *
    omega
  obtain ⟨hwE, hE, hnone⟩ | ⟨hin, c', heq, hout⟩ | ⟨hwE, hE, c', heq, hout⟩ :=
    update_cases h hl hv hcount hw
  · refine ⟨fun hsome => absurd (hnone.symm.trans hsome.choose_spec.1) nofun, fun hfew => ?_⟩
    unfold Few at hfew
    split at hfew
    · omega
    · omega
  · obtain ⟨k, hk⟩ := Nat.exists_eq_add_of_le (Nat.max_le.mpr ⟨hw, hER⟩)
    have hr : w + (done / commonBufSize - w) = max w (done / commonBufSize) := by omega
    have hsub : read / commonBufSize - max w (done / commonBufSize) = k := by omega
    rw [hsub] at hout
    rw [few_iff (j := w - first) (k := k) (by omega) hr (by omega),
      ← @turn_eq_iff w count _ _ _ hcount (by omega) (by omega)]
    have hV : w + (done / commonBufSize - w) + k = read / commonBufSize := by omega
    rw [hV]
    constructor
    · rintro ⟨c₁, heq₁, hright⟩
      obtain rfl := Option.some.inj (heq.symm.trans heq₁)
      exact (hout.of_right (by omega) hright).2
    · exact fun hall => ⟨c', heq, hout.right (by omega) rfl hall⟩
  · have hr : w + (done / commonBufSize - w) = max w (done / commonBufSize) := by omega
    rw [few_iff (j := w - first) (k := read / commonBufSize - done / commonBufSize)
      (by omega) hr (by omega),
      ← @turn_eq_iff_skip w count _ _ _ hcount (by omega) (by omega)]
    have hcur : w + (done / commonBufSize - w) = done / commonBufSize := by omega
    rw [hcur]
    constructor
    · rintro ⟨c₁, heq₁, hright⟩
      obtain rfl := Option.some.inj (heq.symm.trans heq₁)
      obtain ⟨hEV, hall⟩ := hout.of_right (by omega) hright
      exact ⟨by omega, hall⟩
    · rintro ⟨hk, hall⟩
      exact ⟨c', heq, hout.right (by omega) (by omega) hall⟩

theorem Outcome.window (h : Outcome count done read cur f c) (hcount : 0 < count)
    (hcur : cur = read / commonBufSize)
    (hall : ∀ p, 0 < p → p < count → f p = cur + p) :
    Window c count (done / commonBufSize) (read / commonBufSize) read := by
  obtain rfl := hcur
  have hle := h.le
  have hnext := h.next
  have hlen := h.whole.length
  refine ⟨?_, hnext, h.overflow, hle⟩
  apply List.ext_getElem?
  intro p
  cases p with
  | zero =>
    rw [h.tail, List.getElem?_cons_zero, getCapacity_cursors h.cursors hle (by omega),
      h.cursors.bufs _ hle (by omega)]
  | succ p =>
    rw [List.getElem?_cons_succ]
    by_cases hp : p + 1 < count
    · rw [h.whole.entries _ (Nat.succ_pos p) hp, hall _ (Nat.succ_pos p) hp, TokenWindow.entries,
        List.getElem?_map,
        List.getElem?_range' (by omega), Option.map_some]
      congr 2
      omega
    · rw [List.getElem?_eq_none (by omega), List.getElem?_eq_none (by rw [length_entries]; omega)]

theorem window_of_update (h : Cursors c first done read) (hl : Loose c v count first w)
    (hv : v.cbuf = w ∧ v.offset ≤ commonBufSize) (hcount : 1 < count) (hw : w ≤ read / commonBufSize)
    (heq : c.update = some c') (hr : Right count c') :
    Cursors c' (done / commonBufSize) done read ∧
      Window c' count (done / commonBufSize) (read / commonBufSize) read := by
  obtain ⟨-, -, hnone⟩ | ⟨-, c₁, heq₁, hout⟩ | ⟨-, -, c₁, heq₁, hout⟩ := update_cases h hl hv hcount hw
  · exact absurd (hnone.symm.trans heq) nofun
  · obtain rfl := Option.some.inj (heq₁.symm.trans heq)
    exact ⟨hout.cursors, hout.window (by omega) rfl (hout.of_right (by omega) hr).2⟩
  · obtain rfl := Option.some.inj (heq₁.symm.trans heq)
    obtain ⟨hcur, hall⟩ := hout.of_right (by omega) hr
    exact ⟨hout.cursors, hout.window (by omega) hcur hall⟩

end outcome

/-- The ring, with the numbers of bytes stepped over and received: now, and at the last
update. -/
structure Ring where
  buf : IovecContainer
  done : Nat
  read : Nat
  done₀ : Nat
  read₀ : Nat

inductive Event
  | tail (size : Nat)
  | offset (size : Nat)
  | update
  deriving DecidableEq

def start (total : Nat) (mem : Nat → Nat → UInt8) : Ring := ⟨reserve total mem, 0, 0, 0, 0⟩

/-- The tail is moved by what `readv` has stored in the array of the last update, and the
offset within what was received. -/
def step (s : Ring) : Event → Option Ring
  | .tail size =>
    if s.read + size ≤ s.read₀ + space s.buf.vec then
      match s.buf.stepForwardTail size with
      | (true, buf) => some { s with buf, read := s.read + size }
      | _ => none
    else none
  | .offset size =>
    if 0 < size ∧ s.done + size ≤ s.read then
      (s.buf.stepForwardOffset size).map fun (_, rest, buf) =>
        { s with buf, done := s.done + (size - rest) }
    else none
  | .update => s.buf.update.map fun buf => ⟨buf, s.done, s.read, s.done, s.read⟩

/-- The next update needs few rotations. -/
def Ring.Few (count : Nat) (s : Ring) : Prop :=
  ReceiveRing.Few count (s.done₀ / commonBufSize) (s.read₀ / commonBufSize) (s.done / commonBufSize)
    (s.read / commonBufSize)

section runs

variable {count : Nat} {s s' : Ring}

structure Inv (count : Nat) (s : Ring) : Prop where
  cursors : Cursors s.buf (s.done₀ / commonBufSize) s.done s.read
  window : Window s.buf count (s.done₀ / commonBufSize) (s.read₀ / commonBufSize) s.read₀
  le : s.read₀ ≤ s.read

theorem window_same {c c' : IovecContainer} {first w read : Nat} (h : Window c count first w read)
    (hs : Same c c') :
    Window c' count first w read :=
  ⟨hs.vec.trans h.vec, hs.next.trans h.next, hs.overflow.trans h.overflow, h.le⟩

theorem inv_start (total : Nat) (mem : Nat → Nat → UInt8) :
    Inv (max (total / commonBufSize + 1) 2) (start total mem) := by
  obtain ⟨count, hcount⟩ : ∃ count, max (total / commonBufSize + 1) 2 = count + 1 :=
    ⟨max (total / commonBufSize + 1) 2 - 1, by omega⟩
  unfold start reserve
  rw [hcount]
  refine ⟨⟨?_, ?_, Nat.le_refl 0, Nat.zero_le _, fun k _ _ => ?_⟩, ⟨?_, ?_, ?_, Nat.le_refl _⟩,
    Nat.le_refl 0⟩
  · rw [Nat.zero_div, Nat.sub_zero]
  · exact Nat.mul_div_le 0 _
  · dsimp only
    rw [Nat.zero_sub, Nat.min_zero]
    rfl
  · rw [Nat.zero_div, Nat.zero_sub, Nat.min_zero, Nat.sub_zero]
    exact entries_succ 0 count
  · rw [Nat.zero_div, Nat.zero_add]
  · rw [Nat.zero_div, Nat.zero_sub]

theorem inv_tail {size : Nat} (hcount : 1 < count) (h : Inv count s)
    (hs : step s (.tail size) = some s') :
    Inv count s' := by
  unfold step at hs
  dsimp only at hs
  split at hs
  next hsize =>
    have hle := h.le
    have hfirst := h.window.le
    have hnext := h.window.next
    have hroom := h.window.room (n := s.read + size - s.read₀) (by omega) (by omega)
    obtain ⟨c', heq, hc', hsame⟩ := stepForwardTail_cursors (n := size) h.cursors (by omega) (by omega)
    rw [heq] at hs
    obtain rfl := Option.some.inj hs
    exact ⟨hc', window_same h.window hsame, by dsimp only; omega⟩
  · exact absurd hs nofun

theorem inv_offset {size : Nat} (h : Inv count s) (hs : step s (.offset size) = some s') :
    Inv count s' := by
  unfold step at hs
  dsimp only at hs
  split at hs
  next hsize =>
    obtain ⟨c', k, n, heq, -, hn, hc', hsame⟩ := stepForwardOffset_cursors h.cursors hsize.1 hsize.2
    rw [heq] at hs
    obtain rfl := Option.some.inj hs
    have hdone : s.done + (size - (size - n)) = s.done + n := by omega
    exact ⟨by dsimp only; rw [hdone]; exact hc', window_same h.window hsame, h.le⟩
  · exact absurd hs nofun

theorem update_iff_few (hcount : 1 < count) (h : Inv count s) :
    (∃ s', step s .update = some s' ∧ Right count s'.buf) ↔ s.Few count := by
  have hupdate := update_right_iff h.cursors h.window.loose ⟨rfl, Nat.min_le_left _ _⟩ hcount
    (Nat.div_le_div_right h.le)
  rw [Ring.Few, ← hupdate]
  constructor
  · rintro ⟨s', hs, hr⟩
    obtain ⟨c', heq, rfl⟩ := Option.map_eq_some_iff.mp hs
    exact ⟨c', heq, hr⟩
  · rintro ⟨c', heq, hr⟩
    exact ⟨_, Option.map_eq_some_iff.mpr ⟨c', heq, rfl⟩, hr⟩

theorem inv_update (hcount : 1 < count) (h : Inv count s) (hfew : s.Few count)
    (hs : step s .update = some s') :
    Inv count s' := by
  obtain ⟨s₁, hs₁, hr⟩ := (update_iff_few hcount h).mpr hfew
  obtain rfl := Option.some.inj (hs₁.symm.trans hs)
  obtain ⟨c', heq, rfl⟩ := Option.map_eq_some_iff.mp hs
  obtain ⟨hc', hw'⟩ := window_of_update h.cursors h.window.loose ⟨rfl, Nat.min_le_left _ _⟩ hcount
    (Nat.div_le_div_right h.le) heq hr
  exact ⟨hc', hw', Nat.le_refl _⟩

theorem inv_step (hcount : 1 < count) (e : Event) (h : Inv count s) (hfew : e = .update → s.Few count)
    (hs : step s e = some s') : Inv count s' := by
  cases e with
  | tail size => exact inv_tail hcount h hs
  | offset size => exact inv_offset h hs
  | update => exact inv_update hcount h (hfew rfl) hs

/-- In every run whose updates so far needed few rotations, the next update leaves the
array right if and only if it needs few rotations too. -/
theorem right_iff_few (total : Nat) (mem : Nat → Nat → UInt8) (h : Runs.Reachable (start total mem) step
      (fun s e => e = .update → s.Few (max (total / commonBufSize + 1) 2)) s) :
    (∃ s', step s .update = some s' ∧ Right (max (total / commonBufSize + 1) 2) s'.buf) ↔
      s.Few (max (total / commonBufSize + 1) 2) := by
  have hcount : 1 < max (total / commonBufSize + 1) 2 := Nat.le_max_right _ _
  exact update_iff_few hcount (h.invariant _ (inv_start total mem) fun _ e _ => inv_step hcount e)

theorem reachable_of_moves {init : Ring} {ok : Ring → Event → Prop} (hok : ∀ s e, e ≠ .update → ok s e)
    (h : Runs.Reachable init step ok s) (es : List Event) (hes : ∀ e ∈ es, e ≠ .update)
    (hs : Runs.exec step s es = some s') : Runs.Reachable init step ok s' := by
  induction es generalizing s with
  | nil =>
    obtain rfl := Option.some.inj hs
    exact h
  | cons e es ih =>
    obtain ⟨he, hes⟩ := List.forall_mem_cons.mp hes
    obtain ⟨t, ht, hs⟩ := Option.bind_eq_some_iff.mp hs
    exact ih (.step h (hok s e he) ht) hes hs

/-- One PDU in the first of two buffers. -/
theorem right_one_pdu : ∃ s, Runs.exec step (start 8192 fun _ _ => 0) [.tail 512, .offset 512] = some s ∧
    ∃ s', step s .update = some s' ∧ Right 2 s'.buf := by
  have hrun : (Runs.exec step (start 8192 fun _ _ => 0) [.tail 512, .offset 512]).map
      (fun s => (s.done, s.done₀)) = some (512, 0) := by decide +kernel
  obtain ⟨s, hs, hbytes⟩ := Option.map_eq_some_iff.mp hrun
  obtain ⟨hdone, hdone₀⟩ := Prod.mk.inj hbytes
  refine ⟨s, hs, (right_iff_few 8192 (fun _ _ => 0)
    (reachable_of_moves (fun _ _ he he' => absurd he' he) .start _ (by decide) hs)).mpr ?_⟩
  unfold Ring.Few Few
  rw [hdone, hdone₀]
  exact .inl (Nat.zero_le _)

/-- A PDU of two whole buffers takes two rotations, and an array of three entries then has
one buffer twice. -/
theorem not_right_two_buffers : ¬ ∀ s s', Runs.Reachable (start 262144 fun _ _ => 0) step
    (fun _ _ => True) s →
    step s .update = some s' → Right 3 s'.buf := by
  intro hall
  have hrun : ((Runs.exec step (start 262144 fun _ _ => 0) [.tail 262144, .offset 262144,
    .offset 131072]).bind
      (step · .update)).map (·.buf.vec) = some [⟨2, 0, 131072⟩, ⟨2, 0, 131072⟩, ⟨4, 0, 131072⟩] :=
        by decide +kernel
  obtain ⟨s', hs', hvec⟩ := Option.map_eq_some_iff.mp hrun
  obtain ⟨s, hs, hs'⟩ := Option.bind_eq_some_iff.mp hs'
  have hright := hall s s' (Runs.reachable_of_exec .start hs) hs'
  have hdisjoint := hright.disjoint
  rw [hvec] at hdisjoint
  exact (List.pairwise_cons.mp hdisjoint).1 _ (List.mem_cons_self ..) 2 0 ⟨rfl, Nat.le_refl 0, by decide⟩
    ⟨rfl, Nat.le_refl 0, by decide⟩

end runs

end Sstoraged.ReceiveRing
