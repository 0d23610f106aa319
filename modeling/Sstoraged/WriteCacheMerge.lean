import Mathlib.Data.List.Nodup
import Mathlib.Data.List.Pairwise
import Sstoraged.Overlay
import Sstoraged.WriteCache

namespace Sstoraged.WriteCacheMerge

open WriteCache

variable {B : Type} {ix : LbaIndex}

/-- The segment answers a READ of the byte at `a` from memory. -/
def Live (ws : WriteSegment B) (a : Nat) : Prop := ws.rlba ≤ a / 512 ∧ a / 512 < ws.rtail

/-- A cached segment carries the data of the pushed segment `w`. -/
structure Of (w e : WriteSegment B) : Prop where
  lba : e.lba = w.lba
  transferLength : e.transferLength = w.transferLength
  cbufs : e.cbufs = w.cbufs
  dsOffset : e.dsOffset = w.dsOffset
  head : w.lba ≤ e.rlba
  tail : e.rtail ≤ w.tail

theorem Of.covers_eq {w e : WriteSegment B} (h : Of w e) : e.covers = w.covers := by
  funext a
  rw [Bool.eq_iff_iff, WriteSegment.covers_iff, WriteSegment.covers_iff]
  unfold WriteSegment.tail
  rw [h.lba, h.transferLength]

theorem Of.val_eq (mem : B → Nat → UInt8) {w e : WriteSegment B} (h : Of w e) :
    e.val mem = w.val mem := by
  funext a
  simp only [WriteSegment.val, h.lba, h.cbufs, h.dsOffset]

/-- The cache against the log of pushed segments. `org` gives the position in
the log of the segment an entry came from. Only the addresses in the hole and
those last written by a segment already popped may be missing. -/
structure Holds (hole : Nat → Prop) (c : WriteCache B ix) (log : List (WriteSegment B))
    (popped : Nat) (org : Nat → Nat) : Prop where
  perm : (ix.toList c.byLba).Perm c.fifo
  nodup : c.fifo.Nodup
  fresh : ∀ p ∈ c.fifo, p < c.next
  tidy : c.Tidy
  origin : ∀ p ∈ c.fifo, ∃ w, log[org p]? = some w ∧ Of w (c.ws p)
  last : ∀ p ∈ c.fifo, ∀ a, Live (c.ws p) a → Overlay.IsLast WriteSegment.covers log a (org p)
  covered : ∀ a j, ¬ hole a → Overlay.IsLast WriteSegment.covers log a j → popped ≤ j →
    ∃ p ∈ c.fifo, Live (c.ws p) a

theorem holds_init (hix : ix.Lawful) (hole : Nat → Prop) (popped : Nat) (org : Nat → Nat) :
    Holds hole (WriteCache.init : WriteCache B ix) [] popped org := by
  have hl : ix.toList (WriteCache.init : WriteCache B ix).byLba = [] := hix.toList_empty
  refine ⟨?_, List.nodup_nil, by simp [WriteCache.init], ?_, by simp [WriteCache.init],
    by simp [WriteCache.init], fun a j _ hj => ?_⟩
  · show (ix.toList WriteCache.init.byLba).Perm []
    rw [hl]
  · show (ix.toList WriteCache.init.byLba).Pairwise _
    rw [hl]
    exact List.Pairwise.nil
  · have := hj.lt
    simp at this

theorem live_of_tail {ws : WriteSegment B} {b : Nat} (h : ws.rlba ≤ b) (hb : b < ws.rtail) :
    Live ws (512 * b) := by
  unfold Live
  omega

theorem mem_byLba {hole : Nat → Prop} {c : WriteCache B ix} {log : List (WriteSegment B)}
    {popped : Nat} {org : Nat → Nat} (h : Holds hole c log popped org) {p : Nat} :
    p ∈ ix.toList c.byLba ↔ p ∈ c.fifo := h.perm.mem_iff

theorem org_lt {c : WriteCache B ix} {log : List (WriteSegment B)} {popped : Nat}
    {hole : Nat → Prop} {org : Nat → Nat} (h : Holds hole c log popped org) {p : Nat}
    (hp : p ∈ c.fifo) : org p < log.length := by
  obtain ⟨w, hw, -⟩ := h.origin p hp
  exact (List.getElem?_eq_some_iff.mp hw).1

theorem before_of_disjoint {seg : Nat → WriteSegment B} {p q : Nat}
    (hle : (seg p).rlba ≤ (seg q).rlba) (hd : ∀ a, ¬(Live (seg p) a ∧ Live (seg q) a)) :
    Before seg p q := by
  refine ⟨hle, ?_⟩
  by_contra hc
  push Not at hc
  obtain ⟨hp, hq, hlt⟩ := hc
  refine hd (512 * (seg q).rlba) ⟨live_of_tail hle hlt, live_of_tail le_rfl ?_⟩
  unfold WriteSegment.rtail
  omega

theorem disjoint_of_before {seg : Nat → WriteSegment B} {p q : Nat} (h : Before seg p q) (a : Nat) :
    ¬(Live (seg p) a ∧ Live (seg q) a) := by
  unfold Before Live WriteSegment.rtail at *
  omega

theorem disjoint_of_tidy {c : WriteCache B ix} (ht : c.Tidy) {p q : Nat}
    (hp : p ∈ ix.toList c.byLba) (hq : q ∈ ix.toList c.byLba) (hne : p ≠ q) (a : Nat) :
    ¬(Live (c.ws p) a ∧ Live (c.ws q) a) := by
  have hd : (ix.toList c.byLba).Pairwise fun x y => x ≠ y → ¬(Live (c.ws x) a ∧ Live (c.ws y) a) :=
    List.Pairwise.imp (fun {x y} hb (_ : x ≠ y) => disjoint_of_before hb a) ht
  exact List.Pairwise.forall_of_forall_of_flip (fun _ _ hxx => absurd rfl hxx) hd
    (hd.imp fun hxy hne ha => hxy hne.symm ha.symm) hp hq hne

/-- Shrinking the live range of one entry in place keeps the cache sound when
the rest of its range is covered elsewhere and its key passes no other entry. -/
theorem holds_modify {hole : Nat → Prop} {c : WriteCache B ix} {log : List (WriteSegment B)}
    {popped : Nat} {org : Nat → Nat} (h : Holds hole c log popped org) {p : Nat}
    (f : WriteSegment B → WriteSegment B)
    (hf : ∀ w, Of w (c.ws p) → Of w (f (c.ws p)))
    (hhead : (c.ws p).rlba ≤ (f (c.ws p)).rlba) (htail : (f (c.ws p)).rtail ≤ (c.ws p).rtail)
    (hnext : (ix.toList c.byLba).Pairwise (fun x y => x = p → (f (c.ws p)).rlba ≤ (c.ws y).rlba))
    (hdead : (c.ws p).rlength = 0 → (f (c.ws p)).rlength = 0)
    (hkeep : ∀ a, ¬ hole a → Live (c.ws p) a → Live (f (c.ws p)) a) :
    Holds hole (c.modify p f) log popped org := by
  have hlive : ∀ q a, Live ((c.modify p f).ws q) a → Live (c.ws q) a := by
    intro q a ha
    by_cases hq : q = p
    · subst hq
      simp only [modify_ws, Function.update_self] at ha
      unfold Live at *
      omega
    · simpa [hq] using ha
  refine ⟨h.perm, h.nodup, h.fresh, ?_, ?_, ?_, ?_⟩
  · have hnd : (ix.toList c.byLba).Nodup := h.perm.nodup_iff.mpr h.nodup
    refine (h.tidy.and (hnext.and hnd)).imp fun {x y} ⟨hb, hn, hxy⟩ => ?_
    simp only [Before, modify_ws, Function.update_apply]
    unfold Before at hb
    unfold WriteSegment.rtail at *
    by_cases hx : x = p
    · subst hx
      have hyx : y ≠ x := Ne.symm hxy
      have hn' := hn rfl
      simp only [if_true, if_neg hyx]
      omega
    · by_cases hy : y = p
      · subst hy
        simp only [if_true, if_neg hx]
        omega
      · simpa only [if_neg hx, if_neg hy] using hb
  · intro q hq
    obtain ⟨w, hw, ho⟩ := h.origin q hq
    refine ⟨w, hw, ?_⟩
    by_cases hqp : q = p
    · subst hqp
      simpa using hf w ho
    · simpa [hqp] using ho
  · exact fun q hq a ha => h.last q hq a (hlive q a ha)
  · intro a j hh hj hjp
    obtain ⟨q, hq, ha⟩ := h.covered a j hh hj hjp
    refine ⟨q, hq, ?_⟩
    by_cases hqp : q = p
    · subst hqp
      simpa using hkeep a hh ha
    · simpa [hqp] using ha

/-- Adding an entry whose live range meets no other one. The log may grow at
the same time, as long as the entries keep their place as last writers. -/
theorem holds_pushBack (hix : ix.Lawful) {hole hole' : Nat → Prop} {c : WriteCache B ix}
    {log log' : List (WriteSegment B)} {popped : Nat} {org : Nat → Nat}
    (h : Holds hole c log popped org) (e w : WriteSegment B) (j : Nat) (hlog : log <+: log')
    (hj : log'[j]? = some w) (hof : Of w e)
    (hlast : ∀ p ∈ c.fifo, ∀ a, Live (c.ws p) a → Overlay.IsLast WriteSegment.covers log' a (org p))
    (hlast' : ∀ a, Live e a → Overlay.IsLast WriteSegment.covers log' a j)
    (hdisj : ∀ p ∈ c.fifo, ∀ a, ¬(Live (c.ws p) a ∧ Live e a))
    (hcov : ∀ a i, ¬ hole' a → Overlay.IsLast WriteSegment.covers log' a i → popped ≤ i →
      (∃ p ∈ c.fifo, Live (c.ws p) a) ∨ Live e a) :
    Holds hole' (c.pushBack e) log' popped (Function.update org c.next j) := by
  have hne : ∀ p ∈ c.fifo, p ≠ c.next := fun p hp => (h.fresh p hp).ne
  have hws : ∀ p ∈ c.fifo, (c.pushBack e).ws p = c.ws p := fun p hp => by simp [hne p hp]
  have horg : ∀ p ∈ c.fifo, Function.update org c.next j p = org p := fun p hp => by
    simp [hne p hp]
  have hnew : (c.pushBack e).ws c.next = e := by simp
  obtain ⟨l, r, hlr, hins, hsort⟩ :=
    hix.toList_insert (fun q => ((c.pushBack e).ws q).rlba) c.next c.byLba
  have hins' : ix.toList (c.pushBack e).byLba = l ++ c.next :: r := hins
  have hmem : ∀ p, p ∈ l ∨ p ∈ r → p ∈ c.fifo := fun p hp => by
    rw [← mem_byLba h, hlr]
    exact List.mem_append.mpr hp
  have hold : (ix.toList c.byLba).Pairwise (Before (c.pushBack e).ws) := by
    refine h.tidy.imp_of_mem fun {p q} hp hq hb => ?_
    rw [mem_byLba h] at hp hq
    simpa only [Before, hws p hp, hws q hq] using hb
  have hs := hsort (before_le hold)
  rw [hlr] at hold
  refine ⟨?_, ?_, ?_, ?_, ?_, ?_, ?_⟩
  · rw [hins', pushBack_fifo]
    refine (List.perm_middle.trans ?_).trans (List.perm_append_singleton _ _).symm
    rw [← hlr]
    exact h.perm.cons _
  · rw [pushBack_fifo]
    exact List.nodup_append.mpr ⟨h.nodup, List.nodup_singleton _, fun p hp q hq => by
      rw [List.mem_singleton.mp hq]
      exact hne p hp⟩
  · intro p hp
    rw [pushBack_fifo, List.mem_append, List.mem_singleton] at hp
    rw [pushBack_next]
    rcases hp with hp | rfl
    · have := h.fresh p hp
      omega
    · omega
  · rw [Tidy, hins']
    obtain ⟨hl, hr, hc⟩ := List.pairwise_append.mp hold
    refine List.pairwise_append.mpr ⟨hl, List.pairwise_cons.mpr ⟨fun q hq => ?_, hr⟩,
      fun p hp q hq => ?_⟩
    · refine before_of_disjoint (hs.2 q hq).le fun a ha => hdisj q (hmem q (.inr hq)) a ?_
      rw [hnew, hws q (hmem q (.inr hq))] at ha
      exact ha.symm
    · rcases List.mem_cons.mp hq with rfl | hq
      · refine before_of_disjoint (hs.1 p hp) fun a ha => hdisj p (hmem p (.inl hp)) a ?_
        rwa [hnew, hws p (hmem p (.inl hp))] at ha
      · exact hc p hp q hq
  · intro p hp
    rw [pushBack_fifo, List.mem_append, List.mem_singleton] at hp
    rcases hp with hp | rfl
    · obtain ⟨v, hv, ho⟩ := h.origin p hp
      refine ⟨v, ?_, by rwa [hws p hp]⟩
      rw [horg p hp]
      have hlt := (List.getElem?_eq_some_iff.mp hv).1
      obtain ⟨t, rfl⟩ := hlog
      rwa [List.getElem?_append_left hlt]
    · exact ⟨w, by simpa using hj, by rwa [hnew]⟩
  · intro p hp a ha
    rw [pushBack_fifo, List.mem_append, List.mem_singleton] at hp
    rcases hp with hp | rfl
    · rw [horg p hp]
      exact hlast p hp a (by rwa [hws p hp] at ha)
    · rw [Function.update_self]
      exact hlast' a (by rwa [hnew] at ha)
  · intro a i hh hi hip
    rw [pushBack_fifo]
    rcases hcov a i hh hi hip with ⟨p, hp, ha⟩ | ha
    · exact ⟨p, List.mem_append_left _ hp, by rwa [hws p hp]⟩
    · exact ⟨c.next, by simp, by rwa [hnew]⟩

theorem Holds.mono {hole hole' : Nat → Prop} {c : WriteCache B ix} {log : List (WriteSegment B)}
    {popped : Nat} {org : Nat → Nat} (h : Holds hole c log popped org)
    (hh : ∀ a, hole a → hole' a) : Holds hole' c log popped org :=
  { h with covered := fun a j hn => h.covered a j fun ha => hn (hh a ha) }

/-- The hits that the merge handles as intended. A hit is split only if nothing
was cut off its head and its data begins at offset 0, since the copy takes both
for granted. A head is cut off only if no key of the index lies in between,
since the container is not told of the new key. -/
def Mergeable (w : WriteSegment B) (c : WriteCache B ix) (p : Nat) : Prop :=
  ((c.ws p).rlba < w.lba → w.tail < (c.ws p).rtail →
    (c.ws p).rlba = (c.ws p).lba ∧ (c.ws p).dsOffset = 0) ∧
  (w.lba ≤ (c.ws p).rlba → w.tail < (c.ws p).rtail →
    (ix.toList c.byLba).Pairwise fun x y => x = p → w.tail ≤ (c.ws y).rlba)

/-- The merge loop with `rest` still to do. -/
structure Merging (w : WriteSegment B) (c : WriteCache B ix) (rest : List Nat) : Prop where
  nodup : rest.Nodup
  mem : ∀ q ∈ rest, q ∈ c.fifo
  mergeable : ∀ q ∈ rest, Mergeable w c q
  clear : ∀ q ∈ c.fifo, q ∉ rest → ∀ a, Live (c.ws q) a → w.covers a = false

/-- The cache only gained copies at the end of the queue. -/
structure Grows (c c' : WriteCache B ix) (org org' : Nat → Nat) : Prop where
  news : ∃ new, c'.fifo = c.fifo ++ new ∧ ∀ q ∈ new, (c'.ws q).copy = true
  copy : ∀ q ∈ c.fifo, (c'.ws q).copy = (c.ws q).copy
  org : ∀ q ∈ c.fifo, org' q = org q

theorem grows_refl (c : WriteCache B ix) (org : Nat → Nat) : Grows c c org org :=
  ⟨⟨[], by simp, by simp⟩, fun _ _ => rfl, fun _ _ => rfl⟩

theorem Grows.trans {c c' c'' : WriteCache B ix} {org org' org'' : Nat → Nat}
    (h : Grows c c' org org') (h' : Grows c' c'' org' org'') : Grows c c'' org org'' := by
  obtain ⟨new, hn, hc⟩ := h.news
  obtain ⟨new', hn', hc'⟩ := h'.news
  have hold : ∀ q ∈ c.fifo, q ∈ c'.fifo := fun q hq => by
    rw [hn]
    exact List.mem_append_left _ hq
  refine ⟨⟨new ++ new', by rw [hn', hn, List.append_assoc], fun q hq => ?_⟩, fun q hq => ?_,
    fun q hq => ?_⟩
  · rcases List.mem_append.mp hq with hq | hq
    · rw [h'.copy q (by rw [hn]; exact List.mem_append_right _ hq), hc q hq]
    · exact hc' q hq
  · rw [h'.copy q (hold q hq), h.copy q hq]
  · rw [h'.org q (hold q hq), h.org q hq]

theorem grows_modify (c : WriteCache B ix) (p : Nat) (f : WriteSegment B → WriteSegment B)
    (org : Nat → Nat) (hf : ∀ e, (f e).copy = e.copy) : Grows c (c.modify p f) org org := by
  refine ⟨⟨[], by simp, by simp⟩, fun q _ => ?_, fun _ _ => rfl⟩
  by_cases hq : q = p
  · subst hq
    simp [hf]
  · simp [hq]

theorem grows_pushBack {c : WriteCache B ix} (hfresh : ∀ p ∈ c.fifo, p < c.next)
    (e : WriteSegment B) (he : e.copy = true) (org : Nat → Nat) (j : Nat) :
    Grows c (c.pushBack e) org (Function.update org c.next j) := by
  refine ⟨⟨[c.next], rfl, by simp [he]⟩, fun q hq => ?_, fun q hq => ?_⟩ <;>
    simp [(hfresh q hq).ne]

theorem merging_modify {w : WriteSegment B} {c : WriteCache B ix} {p : Nat} {rest : List Nat}
    (h : Merging w c (p :: rest)) (f : WriteSegment B → WriteSegment B)
    (hhead : (c.ws p).rlba ≤ (f (c.ws p)).rlba)
    (hclear : ∀ a, Live (f (c.ws p)) a → w.covers a = false) : Merging w (c.modify p f) rest := by
  obtain ⟨hp, hnd⟩ := List.nodup_cons.mp h.nodup
  refine ⟨hnd, fun q hq => h.mem q (List.mem_cons_of_mem _ hq), fun q hq => ?_, fun q hq hn => ?_⟩
  · have hqp : q ≠ p := fun he => hp (he ▸ hq)
    obtain ⟨h₁, h₂⟩ := h.mergeable q (List.mem_cons_of_mem _ hq)
    refine ⟨by simpa [hqp] using h₁, fun ha hb => ?_⟩
    refine (h₂ (by simpa [hqp] using ha) (by simpa [hqp] using hb)).imp fun {x y} hxy hx => ?_
    have hy := hxy hx
    by_cases hyp : y = p
    · subst hyp
      simp only [modify_ws, Function.update_self]
      omega
    · simpa [hyp] using hy
  · by_cases hqp : q = p
    · subst hqp
      simpa using hclear
    · simpa [hqp] using h.clear q hq (by simp [hqp, hn])

theorem merging_pushBack (hix : ix.Lawful) {w : WriteSegment B} {c : WriteCache B ix}
    {rest : List Nat} (h : Merging w c rest) (hfresh : ∀ p ∈ c.fifo, p < c.next)
    (hmem : ∀ p, p ∈ ix.toList c.byLba ↔ p ∈ c.fifo) (e : WriteSegment B)
    (he : w.tail ≤ e.rlba) (hclear : ∀ a, Live e a → w.covers a = false) :
    Merging w (c.pushBack e) rest := by
  have hne : ∀ p ∈ c.fifo, p ≠ c.next := fun p hp => (hfresh p hp).ne
  have hws : ∀ p ∈ c.fifo, (c.pushBack e).ws p = c.ws p := fun p hp => by simp [hne p hp]
  refine ⟨h.nodup, fun q hq => ?_, fun q hq => ?_, fun q hq hn => ?_⟩
  · exact List.mem_append_left _ (h.mem q hq)
  · have hqf := h.mem q hq
    obtain ⟨h₁, h₂⟩ := h.mergeable q hq
    refine ⟨by rwa [hws q hqf], fun ha hb => ?_⟩
    rw [hws q hqf] at ha hb
    obtain ⟨l, r, hlr, hins, -⟩ :=
      hix.toList_insert (fun p => ((c.pushBack e).ws p).rlba) c.next c.byLba
    have hins' : ix.toList (c.pushBack e).byLba = l ++ c.next :: r := hins
    have hold : (l ++ r).Pairwise fun x y => x = q → w.tail ≤ ((c.pushBack e).ws y).rlba := by
      rw [← hlr]
      refine (h₂ ha hb).imp_of_mem fun {x y} _ hy hxy hx => ?_
      rw [hws y ((hmem y).mp hy)]
      exact hxy hx
    obtain ⟨hl, hr, hc⟩ := List.pairwise_append.mp hold
    rw [hins']
    refine List.pairwise_append.mpr ⟨hl, List.pairwise_cons.mpr ⟨fun y _ hx => ?_, hr⟩,
      fun x hx y hy hxq => ?_⟩
    · exact absurd hx.symm (hne q hqf)
    · rcases List.mem_cons.mp hy with rfl | hy
      · simpa using he
      · exact hc x hx y hy hxq
  · rw [pushBack_fifo, List.mem_append, List.mem_singleton] at hq
    rcases hq with hq | rfl
    · rw [hws q hq]
      exact h.clear q hq hn
    · simpa using hclear

theorem modify_pushBack (c : WriteCache B ix) (e : WriteSegment B) {p : Nat} (hp : p ≠ c.next)
    (f : WriteSegment B → WriteSegment B) (hf : ∀ x, (f x).rlba = x.rlba) :
    (c.pushBack e).modify p f = (c.modify p f).pushBack e := by
  have hws : Function.update (Function.update c.ws c.next e) p (f (c.ws p)) =
      Function.update (Function.update c.ws p (f (c.ws p))) c.next e :=
    Function.update_comm hp.symm _ _ _
  have hkey : (fun q => (Function.update c.ws c.next e q).rlba) =
      fun q => (Function.update (Function.update c.ws p (f (c.ws p))) c.next e q).rlba := by
    funext q
    rw [← hws]
    by_cases hq : q = p
    · subst hq
      simp [hp, hf]
    · simp [hq]
  simp only [WriteCache.modify, pushBack, Function.update_of_ne hp, hws, hkey]

theorem covers_eq_false (w : WriteSegment B) (a : Nat) :
    w.covers a = false ↔ a / 512 < w.lba ∨ w.tail ≤ a / 512 := by
  rw [← Bool.not_eq_true, WriteSegment.covers_iff]
  omega

theorem shrink_holds {w : WriteSegment B} {c : WriteCache B ix} {log : List (WriteSegment B)}
    {popped : Nat} {org : Nat → Nat} {p : Nat} {rest : List Nat}
    (h : Holds (fun a => w.covers a = true) c log popped org) (hm : Merging w c (p :: rest))
    (rlba rlength : Nat) (hhead : (c.ws p).rlba ≤ rlba) (htail : rlba + rlength ≤ (c.ws p).rtail)
    (hnext : (ix.toList c.byLba).Pairwise (fun x y => x = p → rlba ≤ (c.ws y).rlba))
    (hdead : (c.ws p).rlength = 0 → rlength = 0)
    (hkeep : ∀ b, (c.ws p).rlba ≤ b → b < (c.ws p).rtail → ¬(w.lba ≤ b ∧ b < w.tail) →
      rlba ≤ b ∧ b < rlba + rlength)
    (hclear : ∀ b, rlba ≤ b → b < rlba + rlength → b < w.lba ∨ w.tail ≤ b) :
    Holds (fun a => w.covers a = true) (c.modify p fun e => { e with rlba, rlength }) log popped org ∧
      Merging w (c.modify p fun e => { e with rlba, rlength }) rest ∧
      Grows c (c.modify p fun e => { e with rlba, rlength }) org org := by
  refine ⟨holds_modify h _ (fun v hv => ?_) hhead htail hnext hdead fun a ha hl => ?_,
    merging_modify hm _ hhead fun a ha => ?_, grows_modify c p _ org fun _ => rfl⟩
  · have hvt := hv.tail
    have hvh := hv.head
    refine ⟨hv.lba, hv.transferLength, hv.cbufs, hv.dsOffset, ?_, ?_⟩
    · show v.lba ≤ rlba
      omega
    · show rlba + rlength ≤ v.tail
      omega
  · rw [Bool.not_eq_true, covers_eq_false] at ha
    exact hkeep (a / 512) hl.1 hl.2 (by omega)
  · exact (covers_eq_false w a).mpr (hclear (a / 512) ha.1 ha.2)

theorem stay_pairwise {c : WriteCache B ix} (ht : c.Tidy) (p : Nat) :
    (ix.toList c.byLba).Pairwise fun x y => x = p → (c.ws p).rlba ≤ (c.ws y).rlba :=
  List.Pairwise.imp (fun hb hx => hx ▸ hb.1) ht

/-- The copy that a split should leave behind the new segment. -/
def behind (w e : WriteSegment B) : WriteSegment B :=
  { e.copyOf with rlba := w.tail, rlength := e.rtail - w.tail }

theorem live_behind {w e : WriteSegment B} {a : Nat} (h : Live (behind w e) a) :
    w.tail ≤ a / 512 ∧ a / 512 < e.rtail := by
  have h₁ : w.tail ≤ a / 512 := h.1
  have h₂ : a / 512 < w.tail + (e.rtail - w.tail) := h.2
  omega

theorem pushHit_split (w : WriteSegment B) (c : WriteCache B ix) {p : Nat} (hp : p ≠ c.next)
    (hhead : (c.ws p).rlba < w.lba) (htail : w.tail < (c.ws p).rtail)
    (hlba : (c.ws p).rlba = (c.ws p).lba) :
    pushHit w c p = (c.modify p fun e =>
      { e with rlba := (c.ws p).rlba, rlength := w.lba - (c.ws p).rlba }).pushBack
        (behind w (c.ws p)) := by
  have hrt : (c.ws p).rtail = (c.ws p).rlba + (c.ws p).rlength := rfl
  have hwt : w.tail = w.lba + w.transferLength := rfl
  have h₁ : ¬(w.lba ≤ (c.ws p).rlba ∧ (c.ws p).rlba + (c.ws p).rlength ≤ w.lba + w.transferLength) := by
    omega
  have h₂ : (c.ws p).rlba < w.lba ∧
      w.lba + w.transferLength < (c.ws p).rlba + (c.ws p).rlength := ⟨hhead, htail⟩
  have hr : (c.ws p).copyOf.lba + (w.lba + w.transferLength) - (c.ws p).rlba = w.tail := by
    show (c.ws p).lba + w.tail - (c.ws p).rlba = w.tail
    omega
  have hl : (c.ws p).rlength - min ((c.ws p).rlba + (c.ws p).rlength - w.lba) (c.ws p).rlength =
      w.lba - (c.ws p).rlba := by omega
  have hcs : ({ (c.ws p).copyOf with
      rlba := (c.ws p).copyOf.lba + (w.lba + w.transferLength) - (c.ws p).rlba
      rlength := (c.ws p).rlba + (c.ws p).rlength - (w.lba + w.transferLength) } :
        WriteSegment B) = behind w (c.ws p) := by
    rw [hr]
    rfl
  simp only [pushHit, if_neg h₁, if_pos h₂, hcs]
  rw [modify_pushBack c (behind w (c.ws p)) hp]
  · congr 1
    simp only [WriteCache.modify, hl]
  · exact fun _ => rfl

theorem split_holds (hix : ix.Lawful) {w : WriteSegment B} {c : WriteCache B ix}
    {log : List (WriteSegment B)} {popped : Nat} {org : Nat → Nat} {p : Nat} {rest : List Nat}
    (h : Holds (fun a => w.covers a = true) c log popped org) (hm : Merging w c (p :: rest))
    (hw : 0 < w.transferLength)
    (hhead : (c.ws p).rlba < w.lba) (htail : w.tail < (c.ws p).rtail) :
    ∃ org', Holds (fun a => w.covers a = true) (pushHit w c p) log popped org' ∧
      Merging w (pushHit w c p) rest ∧ Grows c (pushHit w c p) org org' := by
  obtain ⟨hlba, hoff⟩ := (hm.mergeable p (by simp)).1 hhead htail
  have hpf : p ∈ c.fifo := hm.mem p (by simp)
  obtain ⟨v, hv, ho⟩ := h.origin p hpf
  have hrt : (c.ws p).rtail = (c.ws p).rlba + (c.ws p).rlength := rfl
  have hwt : w.tail = w.lba + w.transferLength := rfl
  have hpl : ∀ a, Live (behind w (c.ws p)) a → Live (c.ws p) a := fun a ha => by
    have hc := live_behind ha
    exact ⟨by omega, hc.2⟩
  let f : WriteSegment B → WriteSegment B :=
    fun e => { e with rlba := (c.ws p).rlba, rlength := w.lba - (c.ws p).rlba }
  have hrf : (f (c.ws p)).rtail = w.lba := by
    show (c.ws p).rlba + (w.lba - (c.ws p).rlba) = w.lba
    omega
  have hf : ∀ u, Of u (c.ws p) → Of u (f (c.ws p)) := fun u hu => by
    have := hu.tail
    exact ⟨hu.lba, hu.transferLength, hu.cbufs, hu.dsOffset, hu.head, by omega⟩
  -- the blocks behind the new segment are uncovered until the copy is in the queue
  let hole' : Nat → Prop := fun a => w.covers a = true ∨ Live (behind w (c.ws p)) a
  have hh : Holds hole' (c.modify p f) log popped org := by
    refine holds_modify (h.mono fun a ha => .inl ha) f hf le_rfl (by omega)
      (stay_pairwise h.tidy p) (fun hz => by omega) fun a ha hl => ?_
    have hna : ¬(w.lba ≤ a / 512 ∧ a / 512 < w.tail) := fun hc =>
      ha (.inl ((WriteSegment.covers_iff w a).mpr hc))
    have hnl : ¬ w.tail ≤ a / 512 := fun hc => ha (.inr ⟨hc, by
      show a / 512 < w.tail + ((c.ws p).rtail - w.tail)
      have := hl.2
      omega⟩)
    exact ⟨hl.1, by omega⟩
  have hmm : Merging w (c.modify p f) rest := merging_modify hm f le_rfl fun a ha =>
    (covers_eq_false w a).mpr (.inl (hrf ▸ ha.2))
  have hclear : ∀ a, Live (behind w (c.ws p)) a → w.covers a = false := fun a ha =>
    (covers_eq_false w a).mpr (.inr (live_behind ha).1)
  rw [pushHit_split w c (h.fresh p hpf).ne hhead htail hlba]
  refine ⟨_, holds_pushBack hix hh (behind w (c.ws p)) v (org p) (List.prefix_refl _) hv ?_ hh.last
      (fun a ha => h.last p hpf a (hpl a ha)) (fun q hq a ha => ?_) (fun a i ha hi hp => ?_),
    merging_pushBack hix hmm hh.fresh (fun q => mem_byLba hh) _ le_rfl hclear,
    (grows_modify c p f org fun _ => rfl).trans (grows_pushBack hh.fresh _ rfl org (org p))⟩
  · refine ⟨ho.lba, ho.transferLength, ho.cbufs, hoff.symm.trans ho.dsOffset, ?_, ?_⟩
    · have := ho.head
      show v.lba ≤ w.tail
      omega
    · have := ho.tail
      show w.tail + ((c.ws p).rtail - w.tail) ≤ v.tail
      omega
  · by_cases hqp : q = p
    · subst hqp
      have h₁ : Live (f (c.ws q)) a := by simpa using ha.1
      have h₂ := live_behind ha.2
      have h₃ := hrf ▸ h₁.2
      omega
    · exact disjoint_of_tidy h.tidy ((mem_byLba h).mpr hq) ((mem_byLba h).mpr hpf) hqp a
        ⟨by simpa [hqp] using ha.1, hpl a ha.2⟩
  · by_cases hcs : Live (behind w (c.ws p)) a
    · exact .inr hcs
    · exact .inl (hh.covered a i (fun hc => hc.elim ha hcs) hi hp)

theorem pushHit_holds (hix : ix.Lawful) {w : WriteSegment B} {c : WriteCache B ix}
    {log : List (WriteSegment B)} {popped : Nat} {org : Nat → Nat} {p : Nat} {rest : List Nat}
    (h : Holds (fun a => w.covers a = true) c log popped org) (hm : Merging w c (p :: rest))
    (hw : 0 < w.transferLength) :
    ∃ org', Holds (fun a => w.covers a = true) (pushHit w c p) log popped org' ∧
      Merging w (pushHit w c p) rest ∧ Grows c (pushHit w c p) org org' := by
  have hwt : w.tail = w.lba + w.transferLength := rfl
  have hrt : (c.ws p).rtail = (c.ws p).rlba + (c.ws p).rlength := rfl
  by_cases hsplit : (c.ws p).rlba < w.lba ∧ w.tail < (c.ws p).rtail
  · exact split_holds hix h hm hw hsplit.1 hsplit.2
  -- the shape of the hit after the round, whatever branch was taken
  obtain ⟨rlba, rlength, heq, hhead, htail, hdead, hnext, hkeep, hclear⟩ :
      ∃ rlba rlength, pushHit w c p = (c.modify p fun e => { e with rlba, rlength }) ∧
        (c.ws p).rlba ≤ rlba ∧ rlba + rlength ≤ (c.ws p).rtail ∧
        ((c.ws p).rlength = 0 → rlength = 0) ∧
        (rlba ≠ (c.ws p).rlba → w.lba ≤ (c.ws p).rlba ∧ w.tail < (c.ws p).rtail ∧ rlba = w.tail) ∧
        (∀ b, (c.ws p).rlba ≤ b → b < (c.ws p).rtail → ¬(w.lba ≤ b ∧ b < w.tail) →
          rlba ≤ b ∧ b < rlba + rlength) ∧
        ∀ b, rlba ≤ b → b < rlba + rlength → b < w.lba ∨ w.tail ≤ b := by
    by_cases h₁ : w.lba ≤ (c.ws p).rlba ∧ (c.ws p).rlba + (c.ws p).rlength ≤ w.lba + w.transferLength
    · refine ⟨(c.ws p).rlba, 0, ?_, ?_⟩
      · simp only [pushHit, if_pos h₁, WriteCache.modify]
      · refine ⟨le_rfl, by omega, fun _ => rfl, fun hc => absurd rfl hc, fun b => ?_, fun b => ?_⟩ <;>
          omega
    by_cases h₃ : (c.ws p).rlba < w.lba ∧ w.lba < (c.ws p).rlba + (c.ws p).rlength ∧
        (c.ws p).rlba + (c.ws p).rlength ≤ w.lba + w.transferLength
    · refine ⟨(c.ws p).rlba, (c.ws p).rlength -
          min ((c.ws p).rlba + (c.ws p).rlength - w.lba) (c.ws p).rlength, ?_, ?_⟩
      · have h₂ : ¬((c.ws p).rlba < w.lba ∧
            w.lba + w.transferLength < (c.ws p).rlba + (c.ws p).rlength) := hsplit
        simp only [pushHit, if_neg h₁, if_neg h₂, if_pos h₃, WriteCache.modify]
      · refine ⟨le_rfl, by omega, fun hz => by omega, fun hc => absurd rfl hc, fun b => ?_,
          fun b => ?_⟩ <;>
          omega
    by_cases h₄ : w.lba ≤ (c.ws p).rlba ∧ (c.ws p).rlba < w.lba + w.transferLength ∧
        w.lba + w.transferLength < (c.ws p).rlba + (c.ws p).rlength
    · refine ⟨(c.ws p).rlba + min (w.lba + w.transferLength - (c.ws p).rlba) (c.ws p).rlength,
        (c.ws p).rlength - min (w.lba + w.transferLength - (c.ws p).rlba) (c.ws p).rlength, ?_, ?_⟩
      · have h₂ : ¬((c.ws p).rlba < w.lba ∧
            w.lba + w.transferLength < (c.ws p).rlba + (c.ws p).rlength) := hsplit
        simp only [pushHit, if_neg h₁, if_neg h₂, if_neg h₃, if_pos h₄, WriteCache.modify]
      · refine ⟨by omega, by omega, fun hz => by omega, fun _ => ⟨h₄.1, h₄.2.2, by omega⟩,
          fun b => ?_, fun b => ?_⟩ <;> omega
    · refine ⟨(c.ws p).rlba, (c.ws p).rlength, ?_, ?_⟩
      · have h₂ : ¬((c.ws p).rlba < w.lba ∧
            w.lba + w.transferLength < (c.ws p).rlba + (c.ws p).rlength) := hsplit
        simp only [pushHit, if_neg h₁, if_neg h₂, if_neg h₃, if_neg h₄, WriteCache.modify,
          Function.update_eq_self]
      · refine ⟨le_rfl, le_rfl, id, fun hc => absurd rfl hc, fun b hb hb' _ => ⟨hb, hb'⟩, fun b => ?_⟩
        omega
  have hpw : (ix.toList c.byLba).Pairwise fun x y => x = p → rlba ≤ (c.ws y).rlba := by
    by_cases hr : rlba = (c.ws p).rlba
    · rw [hr]
      exact stay_pairwise h.tidy p
    · obtain ⟨h₁, h₂, rfl⟩ := hnext hr
      exact (hm.mergeable p (by simp)).2 h₁ h₂
  rw [heq]
  exact ⟨org, shrink_holds h hm rlba rlength hhead htail hpw hdead hkeep hclear⟩

theorem merge_holds (hix : ix.Lawful) {w : WriteSegment B} (hw : 0 < w.transferLength)
    {log : List (WriteSegment B)} {popped : Nat} (rest : List Nat) {c : WriteCache B ix}
    {org : Nat → Nat} (h : Holds (fun a => w.covers a = true) c log popped org)
    (hm : Merging w c rest) :
    ∃ org', Holds (fun a => w.covers a = true) (rest.foldl (pushHit w) c) log popped org' ∧
      Merging w (rest.foldl (pushHit w) c) [] ∧ Grows c (rest.foldl (pushHit w) c) org org' := by
  induction rest generalizing c org with
  | nil => exact ⟨org, h, hm, grows_refl c org⟩
  | cons p rest ih =>
    obtain ⟨org₁, h₁, hm₁, hg₁⟩ := pushHit_holds hix h hm hw
    obtain ⟨org₂, h₂, hm₂, hg₂⟩ := ih h₁ hm₁
    exact ⟨org₂, h₂, hm₂, hg₁.trans hg₂⟩

theorem merging_search (hix : ix.Lawful) {c : WriteCache B ix} {log : List (WriteSegment B)}
    {popped : Nat} {org : Nat → Nat} (h : Holds (fun _ => False) c log popped org)
    (w : WriteSegment B) (hok : ∀ p ∈ c.search w.lba w.transferLength, Mergeable w c p) :
    Merging w c (c.search w.lba w.transferLength) := by
  have hs := search_eq_filter hix c h.tidy w.lba w.transferLength
  refine ⟨?_, fun q hq => ?_, hok, fun q hq hn a ha => ?_⟩
  · rw [hs]
    exact (h.perm.nodup_iff.mpr h.nodup).filter _
  · rw [hs] at hq
    exact (mem_byLba h).mp (List.mem_filter.mp hq).1
  · rw [hs, List.mem_filter] at hn
    have hmt : ¬ meets c.ws w.lba w.transferLength q = true := fun hc => hn ⟨(mem_byLba h).mpr hq, hc⟩
    rw [meets_iff] at hmt
    rw [covers_eq_false]
    unfold Live WriteSegment.rtail at ha
    unfold WriteSegment.rtail at hmt
    unfold WriteSegment.tail
    omega

/-- A push whose hits are all mergeable records the new segment as the last
writer of its range, and leaves every other last writer where it was. -/
theorem push_holds (hix : ix.Lawful) {c : WriteCache B ix} {log : List (WriteSegment B)}
    {popped : Nat} {org : Nat → Nat} (h : Holds (fun _ => False) c log popped org)
    {w : WriteSegment B} (hwhole : w.rlba = w.lba ∧ w.rlength = w.transferLength)
    (hpos : 0 < w.transferLength)
    (hok : ∀ p ∈ c.search w.lba w.transferLength, Mergeable w c p) :
    ∃ (c' : WriteCache B ix) (org' : Nat → Nat), c.push w = c'.pushBack w ∧ Grows c c' org org' ∧
      Holds (fun a => w.covers a = true) c' log popped org' ∧
      Holds (fun _ => False) (c'.pushBack w) (log ++ [w]) popped
        (Function.update org' c'.next log.length) := by
  obtain ⟨org', h', hm, hg⟩ := merge_holds hix hpos _ (h.mono fun _ hc => hc.elim)
    (merging_search hix h w hok)
  have hrange : ∀ a, Live w a ↔ w.covers a = true := fun a => by
    rw [WriteSegment.covers_iff]
    unfold Live WriteSegment.rtail WriteSegment.tail
    rw [hwhole.1, hwhole.2]
  have hclear := fun q hq => hm.clear q hq (List.not_mem_nil)
  refine ⟨_, org', rfl, hg, h', ?_⟩
  refine holds_pushBack hix h' w w log.length (List.prefix_append _ _) (by simp) ?_ ?_ ?_ ?_ ?_
  · refine ⟨rfl, rfl, rfl, rfl, hwhole.1.ge, ?_⟩
    unfold WriteSegment.rtail WriteSegment.tail
    rw [hwhole.1, hwhole.2]
  · exact fun p hp a ha => (Overlay.isLast_concat _ log w a _).mpr
      (.inr ⟨hclear p hp a ha, h'.last p hp a ha⟩)
  · exact fun a ha => (Overlay.isLast_concat _ log w a _).mpr (.inl ⟨(hrange a).mp ha, rfl⟩)
  · rintro p hp a ⟨ha, hwa⟩
    have := hclear p hp a ha
    rw [(hrange a).mp hwa] at this
    cases this
  · intro a i _ hi hip
    rcases (Overlay.isLast_concat _ log w a i).mp hi with ⟨hwa, -⟩ | ⟨hwa, hi⟩
    · exact .inr ((hrange a).mpr hwa)
    · exact .inl (h'.covered a i (by simp [hwa]) hi hip)

end Sstoraged.WriteCacheMerge
