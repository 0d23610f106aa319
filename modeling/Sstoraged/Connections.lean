import Sstoraged.Receiver

namespace Sstoraged

/-- The connections of one session: each has its own receive buffer, and all share
the tokenizer. What was handled for a connection is what its calls of `doWork`
took from the queue. -/
structure Connections where
  buf : Nat → IovecContainer
  tok : ISCSITokenizer
  read : Nat → Nat
  handled : Nat → List ISCSIToken
  opened : Nat → Bool

/-- A read of `n` bytes of a connection, after which the handler of the PDU at the
given place in the queue fails, if any; and the end of a connection. -/
inductive Arrival
  | chunk (fd n : Nat) (fail : Option Nat)
  | close (fd : Nat)

namespace Connections

open IovecContainer TokenStream TokenData TokenWindow TokenRuns Receiver Runs

def start (mrdsLength : Nat) (mem : Nat → Nat → Nat → UInt8) : Connections where
  buf := fun fd => reserve mrdsLength (mem fd)
  tok := .init
  read := fun _ => 0
  handled := fun _ => []
  opened := fun _ => true

/-- One round of the loop of `doRecv`. The result of `push` is not looked at. -/
def doRecv (streams : Nat → Nat → UInt8) (s : Connections) (fd n : Nat) : Option Connections :=
  (ISCSITokenizer.push { s.buf fd with
    mem := scatter (fun i => streams fd (s.read fd + i)) (s.buf fd).vec n (s.buf fd).mem } s.tok n).map
      fun (_, buf, tok) => { s with
        buf := Function.update s.buf fd buf, tok
        read := Function.update s.read fd (s.read fd + n) }

/-- Every PDU in the queue is handled for the connection that has just been read. A
PDU that fails stays in the queue, and the connection is closed. -/
def doWork (s : Connections) (fd : Nat) : Option Nat → Option Connections
  | none => some { s with
      handled := Function.update s.handled fd (s.handled fd ++ s.tok.bhss)
      tok := { s.tok with bhss := [] } }
  | some i =>
    if i < s.tok.bhss.length then some { s with
      handled := Function.update s.handled fd (s.handled fd ++ s.tok.bhss.take (i + 1))
      tok := { s.tok with bhss := s.tok.bhss.drop i }
      opened := Function.update s.opened fd false }
    else none

def step (streams : Nat → Nat → UInt8) (s : Connections) : Arrival → Option Connections
  | .chunk fd n fail =>
    if s.opened fd = true ∧ 0 < n ∧ n ≤ space (s.buf fd).vec then
      (doRecv streams s fd n).bind fun s => doWork s fd fail
    else none
  | .close fd => some { s with opened := Function.update s.opened fd false }

/-- The session has nothing of another connection in its tokenizer: neither a part
of a PDU nor a PDU whose handler failed. -/
structure Undisturbed (streams : Nat → Nat → UInt8) (count : Nat) (s : Connections) (fd n : Nat) :
    Prop where
  fits : Fits (streams fd) count (s.read fd) n
  empty : s.tok.bhss = []
  others : ∀ fd', fd' ≠ fd →
    s.read fd' = pduStart (streams fd') (taken (streams fd') (s.read fd'))

/-- The connection was served as if it were alone: all its PDUs were handled, up to
the one that failed. -/
structure Alone (stream : Nat → UInt8) (s : Connections) (fd : Nat) : Prop where
  handled : s.handled fd <+: tokensOf stream (s.read fd)
  opened : s.opened fd = true → s.handled fd = tokensOf stream (s.read fd)
  seen : Seen stream (s.buf fd).mem (taken stream (s.read fd))

/-- Each connection has its own part of the invariant, and at most one waits for
the rest of a PDU. -/
structure Inv (streams : Nat → Nat → UInt8) (count : Nat) (s : Connections) (ks : Nat → Nat) : Prop where
  placed : ∀ fd, Placed (streams fd) count (s.buf fd) (ks fd) (s.read fd)
  handled : ∀ fd, s.handled fd <+: (List.range' 0 (ks fd)).map (tokenAt (streams fd))
  opened : ∀ fd, s.opened fd = true →
    s.handled fd = (List.range' 0 (ks fd)).map (tokenAt (streams fd))
  pending : ∃ fd, Pending (streams fd) s.tok (ks fd) (s.read fd) ∧
    ∀ fd', fd' ≠ fd → s.read fd' = pduStart (streams fd') (ks fd')

variable {streams : Nat → Nat → UInt8} {count : Nat} {s s' : Connections} {ks : Nat → Nat}

theorem Inv.alone (h : Inv streams count s ks) (fd : Nat) : Alone (streams fd) s fd := by
  have hk := (h.placed fd).held.taken_eq
  refine ⟨?_, fun ho => ?_, ?_⟩
  · rw [tokensOf, hk]
    exact h.handled fd
  · rw [tokensOf, hk]
    exact h.opened fd ho
  · rw [hk]
    exact (h.placed fd).held.seen (h.placed fd).inside

theorem inv_start (streams : Nat → Nat → UInt8) (mrdsLength : Nat) (mem : Nat → Nat → Nat → UInt8) :
    Inv streams (max (mrdsLength / commonBufSize + 1) 2) (start mrdsLength mem) fun _ => 0 :=
  ⟨fun fd => placed_reserve mrdsLength (mem fd), fun _ => List.prefix_rfl, fun _ _ => rfl,
    0, pending_init, fun _ _ => rfl⟩

theorem Inv.pending_of (h : Inv streams count s ks) {fd n : Nat}
    (hu : Undisturbed streams count s fd n) :
    Pending (streams fd) s.tok (ks fd) (s.read fd) ∧
      ∀ fd', fd' ≠ fd → s.read fd' = pduStart (streams fd') (ks fd') := by
  have hothers : ∀ fd', fd' ≠ fd → s.read fd' = pduStart (streams fd') (ks fd') := by
    intro fd' hne
    have hread := hu.others fd' hne
    rwa [(h.placed fd').held.taken_eq] at hread
  obtain ⟨owner, hp, hrest⟩ := h.pending
  refine ⟨?_, hothers⟩
  by_cases howner : owner = fd
  · exact howner ▸ hp
  · -- the owner has no rest, so the tokenizer is at the begin of a PDU
    have hoff := hp.offset
    have howner' := hothers owner howner
    have hfd := hrest fd (Ne.symm howner)
    refine ⟨by omega, fun hs => ?_⟩
    have hst := hp.status hs
    rw [sizeofHeader] at hst
    omega

/-- What a call of `doWork` changes. -/
structure Worked (s s' : Connections) (fd : Nat) : Prop where
  buf : s'.buf = s.buf
  read : s'.read = s.read
  offset : s'.tok.offset = s.tok.offset
  status : s'.tok.status = s.tok.status
  others : ∀ fd', fd' ≠ fd → s'.handled fd' = s.handled fd' ∧ s'.opened fd' = s.opened fd'
  handled : s'.handled fd <+: s.handled fd ++ s.tok.bhss
  opened : s'.opened fd = true → s'.handled fd = s.handled fd ++ s.tok.bhss

theorem doWork_worked {fd : Nat} {fail : Option Nat} (h : doWork s fd fail = some s') :
    Worked s s' fd := by
  cases fail with
  | none =>
    obtain rfl := Option.some.inj h
    refine ⟨rfl, rfl, rfl, rfl, fun fd' hne => ⟨Function.update_of_ne hne _ _, rfl⟩, ?_, fun _ => ?_⟩
    · dsimp only
      simp only [Function.update_self, List.prefix_rfl]
    · dsimp only
      rw [Function.update_self]
  | some i =>
    rw [doWork] at h
    split at h
    · obtain rfl := Option.some.inj h
      refine ⟨rfl, rfl, rfl, rfl, fun fd' hne => ⟨Function.update_of_ne hne _ _,
        Function.update_of_ne hne _ _⟩, ?_, fun ho => ?_⟩
      · dsimp only
        rw [Function.update_self]
        exact (List.prefix_append_right_inj _).mpr (List.take_prefix _ _)
      · dsimp only at ho
        rw [Function.update_self] at ho
        cases ho
    · cases h

theorem Inv.chunk_isSome (hcount : 2 ≤ count) (h : Inv streams count s ks) {fd n : Nat}
    (hopen : s.opened fd = true) (hpos : 0 < n) (hn : n ≤ space (s.buf fd).vec)
    (hu : Undisturbed streams count s fd n) : (step streams s (.chunk fd n none)).isSome := by
  obtain ⟨buf', tok', k', heq, -⟩ := (h.placed fd).push hcount (h.pending_of hu).1 hn hu.fits
  rw [step, if_pos ⟨hopen, hpos, hn⟩, doRecv, heq]
  rfl

theorem Inv.chunk (hcount : 2 ≤ count) (h : Inv streams count s ks) {fd n : Nat} {fail : Option Nat}
    (hu : Undisturbed streams count s fd n) (hstep : step streams s (.chunk fd n fail) = some s') :
    ∃ ks', Inv streams count s' ks' := by
  obtain ⟨hp, hothers⟩ := h.pending_of hu
  rw [step] at hstep
  split at hstep
  · rename_i hen
    obtain ⟨hopen, hpos, hn⟩ := hen
    obtain ⟨buf', tok', k', heq, hpush, hplaced⟩ := (h.placed fd).push hcount hp hn hu.fits
    rw [doRecv, heq, Option.map_some, Option.bind_some] at hstep
    obtain ⟨hbuf, hread, hoffset, hstatus, hothers', hhandled, hopened⟩ := doWork_worked hstep
    dsimp only at hbuf hread hoffset hstatus hothers' hhandled hopened
    have hbhss := hpush.bhss
    rw [hu.empty, List.nil_append] at hbhss
    have htokens : s.handled fd ++ tok'.bhss = (List.range' 0 k').map (tokenAt (streams fd)) := by
      rw [h.opened fd hopen, hbhss, tokens_append hpush.le]
    rw [htokens] at hhandled hopened
    refine ⟨Function.update ks fd k', fun c => ?_, fun c => ?_, fun c => ?_, fd, ?_, fun c hc => ?_⟩
    · rw [hbuf, hread]
      by_cases hc : c = fd
      · subst hc
        rw [Function.update_self, Function.update_self, Function.update_self]
        exact hplaced
      · rw [Function.update_of_ne hc, Function.update_of_ne hc, Function.update_of_ne hc]
        exact h.placed c
    · by_cases hc : c = fd
      · subst hc
        rw [Function.update_self]
        exact hhandled
      · rw [Function.update_of_ne hc, (hothers' c hc).1]
        exact h.handled c
    · by_cases hc : c = fd
      · subst hc
        rw [Function.update_self]
        exact hopened
      · rw [Function.update_of_ne hc, (hothers' c hc).1, (hothers' c hc).2]
        exact h.opened c
    · rw [hread, Function.update_self, Function.update_self]
      exact ⟨hoffset.trans hpush.pending.offset, fun hs => hoffset ▸ hpush.pending.status (hstatus ▸ hs)⟩
    · rw [hread, Function.update_of_ne hc, Function.update_of_ne hc]
      exact hothers c hc
  · cases hstep

theorem Inv.close (h : Inv streams count s ks) {fd : Nat}
    (hstep : step streams s (.close fd) = some s') :
    Inv streams count s' ks := by
  obtain rfl := Option.some.inj hstep
  refine ⟨h.placed, h.handled, fun c hc => h.opened c ?_, h.pending⟩
  replace hc : Function.update s.opened fd false c = true := hc
  by_cases hcf : c = fd
  · subst hcf
    rw [Function.update_self] at hc
    cases hc
  · rwa [Function.update_of_ne hcf] at hc

/-- The condition on an arrival; the end of a connection needs none. -/
def Apart (streams : Nat → Nat → UInt8) (count : Nat) (s : Connections) : Arrival → Prop
  | .chunk fd n _ => Undisturbed streams count s fd n
  | .close _ => True

/-- The connections of a session do not disturb each other, as long as bytes of one
arrive only when the tokenizer has nothing of another. -/
theorem alone_of_apart (streams : Nat → Nat → UInt8) (mrdsLength : Nat) (mem : Nat → Nat → Nat → UInt8)
    {s : Connections} (h : Reachable (start mrdsLength mem) (step streams)
      (Apart streams (max (mrdsLength / commonBufSize + 1) 2)) s) (fd : Nat) :
    Alone (streams fd) s fd ∧ ∀ n, s.opened fd = true → 0 < n → n ≤ space (s.buf fd).vec →
      Undisturbed streams (max (mrdsLength / commonBufSize + 1) 2) s fd n →
      (step streams s (.chunk fd n none)).isSome := by
  have hcount : 2 ≤ max (mrdsLength / commonBufSize + 1) 2 := Nat.le_max_right _ _
  have hinv : ∃ ks, Inv streams (max (mrdsLength / commonBufSize + 1) 2) s ks := by
    apply h.invariant (fun s => ∃ ks, Inv streams (max (mrdsLength / commonBufSize + 1) 2) s ks)
      ⟨_, inv_start streams mrdsLength mem⟩
    intro s e s' ⟨ks, hks⟩ hok hstep
    cases e with
    | chunk fd n fail => exact hks.chunk hcount hok hstep
    | close fd => exact ⟨ks, hks.close hstep⟩
  obtain ⟨ks, hks⟩ := hinv
  exact ⟨hks.alone fd, fun n hopen hpos hn hu => hks.chunk_isSome hcount hopen hpos hn hu⟩

theorem read_of_step {fd n : Nat} {fail : Option Nat} (h : step streams s (.chunk fd n fail) = some s') :
    s'.read = Function.update s.read fd (s.read fd + n) := by
  rw [step] at h
  split at h
  · obtain ⟨s₁, hrecv, hwork⟩ := Option.bind_eq_some_iff.mp h
    obtain ⟨⟨ok, buf, tok⟩, -, rfl⟩ := Option.map_eq_some_iff.mp hrecv
    exact (doWork_worked hwork).read
  · cases h

/-- A whole PDU on one connection and a part of a header on another. -/
theorem alone_two_connections : ∃ s, Reachable (start 512 fun _ _ _ => 0) (step fun _ => sampleStream)
    (Apart (fun _ => sampleStream) (max (512 / commonBufSize + 1) 2)) s ∧ s.read 0 = 560 ∧
      s.read 1 = 30 ∧ Alone sampleStream s 0 ∧ Alone sampleStream s 1 := by
  have htaken₀ : taken sampleStream 0 = 0 := by decide +kernel
  have htaken : taken sampleStream 560 = 1 := Receiver.taken_eq (by decide +kernel) (by decide +kernel)
  have hfits₀ : Fits sampleStream (max (512 / commonBufSize + 1) 2) 0 560 :=
    ⟨⟨by decide +kernel, by decide +kernel⟩, fun j _ hj => by
      rw [Nat.zero_add, htaken] at hj
      obtain rfl : j = 0 := by omega
      exact .inr (by decide +kernel)⟩
  have hfits₁ : Fits sampleStream (max (512 / commonBufSize + 1) 2) 0 30 :=
    ⟨⟨by decide +kernel, by decide +kernel⟩, fun j _ hj => by
      rw [show taken sampleStream (0 + 30) = 0 by decide +kernel] at hj
      exact absurd hj (Nat.not_lt_zero _)⟩
  have hu₀ : Undisturbed (fun _ => sampleStream) (max (512 / commonBufSize + 1) 2)
      (start 512 fun _ _ _ => 0) 0 560 :=
    ⟨hfits₀, rfl, fun fd' _ => (congrArg (pduStart sampleStream) htaken₀).symm⟩
  obtain ⟨s₁, hs₁⟩ := Option.isSome_iff_exists.mp ((alone_of_apart (fun _ => sampleStream) 512
    (fun _ _ _ => 0) .start 0).2 560 rfl (by decide) (by decide +kernel) hu₀)
  have hreach₁ : Reachable (start 512 fun _ _ _ => 0) (step fun _ => sampleStream)
      (Apart (fun _ => sampleStream) (max (512 / commonBufSize + 1) 2)) s₁ :=
    .step .start (show Apart _ _ _ (.chunk 0 560 none) from hu₀) hs₁
  have hread₁ : s₁.read = Function.update (fun _ => 0) 0 560 := read_of_step hs₁
  have hfacts : ((step (fun _ => sampleStream) (start 512 fun _ _ _ => 0) (.chunk 0 560 none)).map
      fun s => (s.opened 1, space (s.buf 1).vec, s.tok.bhss)) = some (true, 262144, []) := by
        decide +kernel
  rw [hs₁, Option.map_some, Option.some.injEq, Prod.mk.injEq, Prod.mk.injEq] at hfacts
  obtain ⟨hopen, hspace, hempty⟩ := hfacts
  have hu₁ : Undisturbed (fun _ => sampleStream) (max (512 / commonBufSize + 1) 2) s₁ 1 30 := by
    refine ⟨by rw [hread₁]; exact hfits₁, hempty, fun fd' _ => ?_⟩
    rw [hread₁]
    by_cases hfd : fd' = 0
    · rw [hfd, Function.update_self, htaken]
      decide +kernel
    · rw [Function.update_of_ne hfd, htaken₀]
      rfl
  obtain ⟨s₂, hs₂⟩ := Option.isSome_iff_exists.mp ((alone_of_apart (fun _ => sampleStream) 512
    (fun _ _ _ => 0) hreach₁ 1).2 30 hopen (by decide) (by rw [hspace]; decide) hu₁)
  have hreach₂ : Reachable (start 512 fun _ _ _ => 0) (step fun _ => sampleStream)
      (Apart (fun _ => sampleStream) (max (512 / commonBufSize + 1) 2)) s₂ :=
    .step hreach₁ (show Apart _ _ _ (.chunk 1 30 none) from hu₁) hs₂
  have hread₂ := read_of_step hs₂
  rw [hread₁] at hread₂
  refine ⟨s₂, hreach₂, by rw [hread₂]; rfl, by rw [hread₂]; rfl,
    (alone_of_apart (fun _ => sampleStream) 512 (fun _ _ _ => 0) hreach₂ 0).1,
    (alone_of_apart (fun _ => sampleStream) 512 (fun _ _ _ => 0) hreach₂ 1).1⟩

/-- Streams of PDUs without data. -/
def zeroStream (_ _ : Nat) : UInt8 := 0

/-- Twenty bytes of one connection are counted for the next one, of which twenty
eight bytes then pass for a whole PDU; the loop over its buffers does not end. -/
theorem not_alone_shared_offset : ∃ s, Reachable (start 512 fun _ _ _ => 0) (step zeroStream)
    (fun _ _ => True) s ∧ s.opened 1 = true ∧ 28 ≤ space (s.buf 1).vec ∧
      step zeroStream s (.chunk 1 28 none) = none := by
  have hrun : (exec (step zeroStream) (start 512 fun _ _ _ => 0) [.chunk 0 20 none]).map
      (fun s => (s.opened 1, space (s.buf 1).vec, (step zeroStream s (.chunk 1 28 none)).isNone)) =
        some (true, 262144, true) := by decide +kernel
  obtain ⟨s, hs, heq⟩ := Option.map_eq_some_iff.mp hrun
  obtain ⟨hopen, hrest⟩ := Prod.mk.inj heq
  obtain ⟨hspace, hnone⟩ := Prod.mk.inj hrest
  refine ⟨s, reachable_of_exec .start hs, hopen, ?_, Option.isNone_iff_eq_none.mp hnone⟩
  omega

end Connections

end Sstoraged
