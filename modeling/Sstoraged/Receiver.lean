import Mathlib.Data.Nat.Find
import Sstoraged.Runs
import Sstoraged.TokenRuns

namespace Sstoraged

/-- A connection while its stream is received: its buffers, the tokenizer, and
how many bytes were read. -/
structure Receiver where
  buf : IovecContainer
  tok : ISCSITokenizer
  read : Nat

namespace Receiver

open IovecContainer TokenStream TokenData TokenWindow TokenRuns Runs

/-- The space is allocated for `MaxRecvDataSegmentLength`; what the new buffers
hold does not matter. -/
def start (mrdsLength : Nat) (mem : Nat → Nat → UInt8) : Receiver :=
  ⟨reserve mrdsLength mem, .init, 0⟩

/-- `readv` returns the next `n` bytes of the stream, and they are pushed. -/
def receive (stream : Nat → UInt8) (r : Receiver) (n : Nat) : Option Receiver :=
  (ISCSITokenizer.push
    { r.buf with mem := scatter (fun i => stream (r.read + i)) r.buf.vec n r.buf.mem } r.tok n).bind
      fun (ok, buf, tok) => if ok then some ⟨buf, tok, r.read + n⟩ else none

/-- A read is never longer than the space that the array exposes. -/
def step (stream : Nat → UInt8) (r : Receiver) (n : Nat) : Option Receiver :=
  if 0 < n ∧ n ≤ space r.buf.vec then r.receive stream n else none

/-- How many PDUs end in the first `read` bytes. -/
def taken (stream : Nat → UInt8) (read : Nat) : Nat :=
  Nat.findGreatest (fun k => pduStart stream k ≤ read) read

/-- A read of `n` bytes that the array survives, and that brings no PDU with
additional header segments across the edge of a buffer. -/
structure Fits (stream : Nat → UInt8) (count read n : Nat) : Prop where
  few : FewRotations stream count (taken stream read) (read / commonBufSize) (read + n)
  inside : ∀ j, taken stream read ≤ j → j < taken stream (read + n) → Inside (wireToken stream j)

/-- The handlers see the first `k` PDUs of the stream: their headers, and the data
that they get at the front. -/
structure Seen (stream : Nat → UInt8) (mem : Nat → Nat → UInt8) (k : Nat) : Prop where
  headers : ∀ j, j < k → ∀ i, i < sizeofHeader →
    ((tokenAt stream j).view mem).bhs i = stream (pduStart stream j + i)
  data : ∀ j, j < k → ∀ lba transferLength,
    (((tokenAt stream j).view mem).frontDataSegment lba transferLength).map (dataSegment mem) =
      ((wireToken stream j).frontDataSegment lba transferLength).map (dataSegment (onWire stream))

/-- The tokens of a stream that is cut wherever its headers say. -/
def tokensOf (stream : Nat → UInt8) (read : Nat) : List ISCSIToken :=
  (List.range' 0 (taken stream read)).map (tokenAt stream)

structure Delivered (stream : Nat → UInt8) (r : Receiver) : Prop where
  tokens : r.tok.bhss = tokensOf stream r.read
  seen : Seen stream r.buf.mem (taken stream r.read)

variable {stream : Nat → UInt8}

theorem le_pduStart (k : Nat) : k ≤ pduStart stream k := by
  induction k with
  | zero => exact Nat.le_refl _
  | succ k ih =>
    have h := @pduStart_lt stream k
    rw [sizeofHeader] at h
    omega

theorem taken_eq {k read : Nat} (h₁ : pduStart stream k ≤ read) (h₂ : read < pduStart stream (k + 1)) :
    taken stream read = k := by
  rw [taken, Nat.findGreatest_eq_iff]
  refine ⟨Nat.le_trans (le_pduStart k) h₁, fun _ => h₁, fun j hj _ hle => ?_⟩
  have hmono := @pduStart_mono stream _ _ (Nat.succ_le_of_lt hj)
  exact absurd (Nat.le_trans hmono hle) (Nat.not_le_of_lt h₂)

/-- The receive space behind `k` PDUs, with less than one more in it. -/
structure Held (stream : Nat → UInt8) (buf : IovecContainer) (k read : Nat) : Prop where
  received : Received stream buf k read
  rest : read < pduStart stream (k + 1)
  headers : ∀ j, j < k → HeaderAt stream buf.mem (pduStart stream j)

/-- The same with the array behind the bytes that were read. -/
structure Placed (stream : Nat → UInt8) (count : Nat) (buf : IovecContainer) (k read : Nat) : Prop where
  held : Held stream buf k read
  inside : ∀ j, j < k → Inside (wireToken stream j)
  window : Window buf count (pduStart stream k / commonBufSize) (read / commonBufSize) read

/-- The tokens are those of the first `k` PDUs, and the rest of the bytes waits. -/
structure Tokenized (stream : Nat → UInt8) (r : Receiver) (k : Nat) : Prop where
  held : Held stream r.buf k r.read
  pending : Pending stream r.tok k r.read
  bhss : r.tok.bhss = (List.range' 0 k).map (tokenAt stream)

variable {count k k' n read : Nat} {buf buf' : IovecContainer} {tok tok' : ISCSITokenizer}
  {bhss : List ISCSIToken} {r r' : Receiver}

theorem Held.taken_eq (h : Held stream buf k read) : taken stream read = k :=
  Receiver.taken_eq h.received.cursors.done_le h.rest

theorem Held.pushed (h : Held stream buf k read)
    (hpush : Pushed stream k k' (read + n) buf.mem bhss buf' tok') : Held stream buf' k' (read + n) := by
  refine ⟨hpush.received, hpush.rest, fun j hj => ?_⟩
  by_cases hjk : j < k
  · exact hpush.improves.headerAt (h.headers j hjk)
  · exact hpush.headers j (Nat.le_of_not_lt hjk) hj

theorem held_reserve (mrdsLength : Nat) (mem : Nat → Nat → UInt8) :
    Held stream (reserve mrdsLength mem) 0 0 := by
  have hlt := @pduStart_lt stream 0
  rw [sizeofHeader] at hlt
  rw [reserve]
  refine ⟨⟨⟨?_, Nat.mul_div_le _ _, Nat.le_refl _, Nat.zero_le _, fun k _ _ => ?_⟩, fun b i _ h => ?_⟩,
    by omega, fun j h => ?_⟩
  · dsimp only
    rw [pduStart, Nat.zero_div, Nat.sub_zero]
  · dsimp only
    rw [pduStart, Nat.zero_sub, Nat.min_zero]
    rfl
  · exact absurd h (Nat.not_lt_zero _)
  · exact absurd h (Nat.not_lt_zero _)

theorem placed_reserve (mrdsLength : Nat) (mem : Nat → Nat → UInt8) :
    Placed stream (max (mrdsLength / commonBufSize + 1) 2) (reserve mrdsLength mem) 0 0 := by
  obtain ⟨count, hcount⟩ : ∃ count, count = max (mrdsLength / commonBufSize + 1) 2 - 1 := ⟨_, rfl⟩
  have hmax : max (mrdsLength / commonBufSize + 1) 2 = count + 1 := by omega
  refine ⟨held_reserve mrdsLength mem, fun j h => absurd h (Nat.not_lt_zero _), ?_⟩
  rw [reserve, hmax]
  refine ⟨?_, ?_, ?_, Nat.le_refl _⟩
  · rw [Nat.zero_div, Nat.zero_sub, Nat.min_zero, Nat.sub_zero]
    exact entries_succ 0 count
  · dsimp only
    rw [Nat.zero_div, Nat.zero_add]
  · dsimp only
    rw [Nat.zero_div, Nat.zero_sub]

theorem Held.seen (h : Held stream buf k read) (hin : ∀ j, j < k → Inside (wireToken stream j)) :
    Seen stream buf.mem k := by
  refine ⟨h.headers, fun j hj lba tl => ?_⟩
  have hread : pduStart stream (j + 1) ≤ read :=
    Nat.le_trans (pduStart_mono (Nat.succ_le_of_lt hj)) h.received.cursors.done_le
  have hheader : ∀ i, i < sizeofHeader → ((tokenAt stream j).view buf.mem).bhs i =
    (wireToken stream j).bhs i :=
    fun i hi => (h.headers j hj i hi).trans (onWire_header j i hi).symm
  rw [frontDataSegment_congr hheader rfl rfl]
  cases hws : (wireToken stream j).frontDataSegment lba tl with
  | none => rfl
  | some ws =>
    rw [Option.map_some, Option.map_some, dataSegment_stream h.received.layout hread (hin j hj) hws,
      dataSegment_stream (onWire_layout read) hread (hin j hj) hws]

theorem Placed.push (hcount : 2 ≤ count) (h : Placed stream count buf k read)
    (hp : Pending stream tok k read) (hn : n ≤ space buf.vec) (hfits : Fits stream count read n) :
    ∃ buf' tok' k', ISCSITokenizer.push
        { buf with mem := scatter (fun i => stream (read + i)) buf.vec n buf.mem } tok n =
          some (true, buf', tok') ∧ Pushed stream k k' (read + n) buf.mem tok.bhss buf' tok' ∧
      Placed stream count buf' k' (read + n) := by
  obtain ⟨hfew, hin⟩ := hfits
  rw [h.held.taken_eq] at hfew hin
  obtain ⟨buf', tok', k', heq, hpush, hwin⟩ :=
    push_window hcount h.held.received hp h.window hn hfew
  have hheld := h.held.pushed hpush
  have hk : taken stream (read + n) = k' := hheld.taken_eq
  refine ⟨buf', tok', k', heq, hpush, hheld, fun j hj => ?_, hwin⟩
  by_cases hjk : j < k
  · exact h.inside j hjk
  · exact hin j (Nat.le_of_not_lt hjk) (hk ▸ hj)

theorem pending_init : Pending stream .init 0 0 := ⟨rfl, fun h => by cases h⟩

theorem tokenized_start (mrdsLength : Nat) (mem : Nat → Nat → UInt8) :
    Tokenized stream (start mrdsLength mem) 0 := ⟨held_reserve mrdsLength mem, pending_init, rfl⟩

theorem tokens_append (hle : k ≤ k') :
    (List.range' 0 k).map (tokenAt stream) ++ (List.range' k (k' - k)).map (tokenAt stream) =
      (List.range' 0 k').map (tokenAt stream) := by
  have happend := @List.range'_append_1 0 k (k' - k)
  have hsum : k + (k' - k) = k' := by omega
  rw [Nat.zero_add, hsum] at happend
  rw [← happend, List.map_append]

theorem Tokenized.pushed (h : Tokenized stream r k)
    (hpush : Pushed stream k k' (r.read + n) r.buf.mem r.tok.bhss buf' tok') :
    Tokenized stream ⟨buf', tok', r.read + n⟩ k' :=
  ⟨h.held.pushed hpush, hpush.pending, by rw [hpush.bhss, h.bhss, tokens_append hpush.le]⟩

theorem Tokenized.receive (h : Tokenized stream r k) (hplaced : TokenWindow.Placed r.buf.vec r.read n)
    (hroom : r.read + n ≤ commonBufSize * r.buf.next) (heq : r.receive stream n = some r') :
    r'.read = r.read + n ∧ ∃ k', Tokenized stream r' k' := by
  obtain ⟨⟨ok, buf', tok'⟩, hp, heq⟩ := Option.bind_eq_some_iff.mp heq
  obtain ⟨rfl, k', hpush⟩ := push_received h.held.received h.pending hplaced hroom hp
  obtain rfl := Option.some.inj heq
  exact ⟨rfl, k', h.pushed hpush⟩

/-- The tokens, and the array behind the bytes that were read. -/
structure Inv (stream : Nat → UInt8) (count : Nat) (r : Receiver) (k : Nat) : Prop where
  tokenized : Tokenized stream r k
  placed : Placed stream count r.buf k r.read

theorem Inv.receive (hcount : 2 ≤ count) (h : Inv stream count r k) (hn : n ≤ space r.buf.vec)
    (hfits : Fits stream count r.read n) :
    ∃ r' k', r.receive stream n = some r' ∧ Inv stream count r' k' := by
  obtain ⟨buf', tok', k', heq, hpush, hplaced⟩ := h.placed.push hcount h.tokenized.pending hn hfits
  refine ⟨⟨buf', tok', r.read + n⟩, k', ?_, h.tokenized.pushed hpush, hplaced⟩
  rw [Receiver.receive, heq]
  rfl

theorem Inv.delivered (h : Inv stream count r k) : Delivered stream r := by
  have hk := h.placed.held.taken_eq
  refine ⟨?_, ?_⟩
  · rw [h.tokenized.bhss, tokensOf, hk]
  · rw [hk]
    exact h.placed.held.seen h.placed.inside

/-- Tokenizing does not depend on how the stream is cut, as long as each read
needs no more rotations of the array than one update can do. -/
theorem delivered_of_fits (stream : Nat → UInt8) (mrdsLength : Nat) (mem : Nat → Nat → UInt8)
    {r : Receiver} (h : Reachable (start mrdsLength mem) (step stream)
      (fun r n => Fits stream (max (mrdsLength / commonBufSize + 1) 2) r.read n) r) :
    Delivered stream r ∧ ∀ n, 0 < n → n ≤ space r.buf.vec →
      Fits stream (max (mrdsLength / commonBufSize + 1) 2) r.read n → (step stream r n).isSome := by
  have hcount : 2 ≤ max (mrdsLength / commonBufSize + 1) 2 := Nat.le_max_right _ _
  have hinv : ∃ k, Inv stream (max (mrdsLength / commonBufSize + 1) 2) r k := by
    apply h.invariant (fun r => ∃ k, Inv stream (max (mrdsLength / commonBufSize + 1) 2) r k)
      ⟨0, tokenized_start mrdsLength mem, placed_reserve mrdsLength mem⟩
    intro s n s' ⟨k, hk⟩ hfits hstep
    rw [step] at hstep
    split at hstep
    · rename_i hn
      obtain ⟨r', k', heq, hk'⟩ := hk.receive hcount hn.2 hfits
      rw [heq, Option.some.injEq] at hstep
      exact ⟨k', hstep ▸ hk'⟩
    · cases hstep
  obtain ⟨k, hk⟩ := hinv
  refine ⟨hk.delivered, fun n hpos hn hfits => ?_⟩
  obtain ⟨r', k', heq, -⟩ := hk.receive hcount hn hfits
  rw [step, if_pos ⟨hpos, hn⟩, heq, Option.isSome_some]

theorem read_of_step (h : step stream r n = some r') :
    r'.read = r.read + n := by
  rw [step] at h
  split at h
  · obtain ⟨⟨ok, buf, tok⟩, -, h⟩ := Option.bind_eq_some_iff.mp h
    cases ok with
    | false => cases h
    | true => exact (congrArg Receiver.read (Option.some.inj h)).symm
  · cases h

/-- A stream of one PDU with 512 bytes of data and of PDUs without data. -/
def sampleStream (i : Nat) : UInt8 := if i = 6 then 2 else 0

theorem sampleStream_inside (j : Nat) (h₁ : taken sampleStream 0 ≤ j) (h₂ : j < taken sampleStream 600) :
    Inside (wireToken sampleStream j) := by
  have htaken : taken sampleStream 600 = 1 :=
    Receiver.taken_eq (by decide +kernel) (by decide +kernel)
  obtain rfl : j = 0 := by omega
  exact .inr (by decide +kernel)

/-- The first PDU arrives in two reads. -/
theorem delivered_two_reads : ∃ r, Reachable (start 512 fun _ _ => 0) (step sampleStream)
    (fun r n => Fits sampleStream (max (512 / commonBufSize + 1) 2) r.read n) r ∧ r.read = 600 ∧
      Delivered sampleStream r := by
  have hfew₁ : Fits sampleStream (max (512 / commonBufSize + 1) 2) 0 30 :=
    ⟨⟨by decide +kernel, by decide +kernel⟩, fun j h₁ h₂ => by
      rw [show taken sampleStream 30 = 0 by decide +kernel] at h₂
      exact absurd h₂ (Nat.not_lt_zero _)⟩
  have hfew₂ : Fits sampleStream (max (512 / commonBufSize + 1) 2) 30 570 :=
    ⟨⟨by decide +kernel, by decide +kernel⟩, fun j h₁ h₂ =>
      sampleStream_inside j (Nat.le_trans (by decide +kernel) h₁) h₂⟩
  obtain ⟨-, hgo⟩ := delivered_of_fits sampleStream 512 (fun _ _ => 0) .start
  obtain ⟨r₁, h₁⟩ := Option.isSome_iff_exists.mp (hgo 30 (by decide) (by decide +kernel) hfew₁)
  have hread₁ := read_of_step h₁
  have hspace : 570 ≤ space r₁.buf.vec := by
    have heq : ((step sampleStream (start 512 fun _ _ => 0) 30).map fun r => space r.buf.vec) =
        some 262114 := by decide +kernel
    rw [h₁, Option.map_some, Option.some.injEq] at heq
    omega
  have hreach₁ : Reachable (start 512 fun _ _ => 0) (step sampleStream)
      (fun r n => Fits sampleStream (max (512 / commonBufSize + 1) 2) r.read n) r₁ :=
    .step .start hfew₁ h₁
  obtain ⟨r₂, h₂⟩ := Option.isSome_iff_exists.mp
    ((delivered_of_fits sampleStream 512 (fun _ _ => 0) hreach₁).2 570 (by decide) hspace
      (hread₁ ▸ hfew₂))
  have hreach₂ : Reachable (start 512 fun _ _ => 0) (step sampleStream)
      (fun r n => Fits sampleStream (max (512 / commonBufSize + 1) 2) r.read n) r₂ :=
    .step hreach₁ (hread₁ ▸ hfew₂) h₂
  refine ⟨r₂, hreach₂, ?_, (delivered_of_fits sampleStream 512 (fun _ _ => 0) hreach₂).1⟩
  rw [read_of_step h₂, hread₁]
  rfl

/-- A PDU of two whole buffers, and one that begins behind them and ends behind
the third. -/
def staleStream (i : Nat) : UInt8 :=
  if i = 5 then 0x03 else if i = 6 then 0xFF else if i = 7 then 0xD0
  else if i = 262149 then 0x02 else if i = 262151 then 0x34
  else if i = 393221 then 0xFF else 0

/-- Two rotations of an array of three entries leave one buffer in it twice, and
the next read goes over the header that it has just stored. -/
theorem not_delivered_stale_entry : ∃ r, Reachable (start 262144 fun _ _ => 0) (step staleStream)
    (fun _ _ => True) r ∧ ¬ Delivered staleStream r := by
  have hrun : (exec (step staleStream) (start 262144 fun _ _ => 0) [262144, 131172]).map
      (fun r => (r.tok.bhss.length, r.read)) = some (1, 393316) := by decide +kernel
  obtain ⟨r, hr, heq⟩ := Option.map_eq_some_iff.mp hrun
  refine ⟨r, reachable_of_exec .start hr, fun h => ?_⟩
  have htaken : taken staleStream 393316 = 2 :=
    Receiver.taken_eq (by decide +kernel) (by decide +kernel)
  have hlen := congrArg List.length h.tokens
  rw [tokensOf, List.length_map, List.length_range', (Prod.mk.inj heq).2, htaken,
    (Prod.mk.inj heq).1] at hlen
  exact absurd hlen (by decide)

end Receiver

end Sstoraged
