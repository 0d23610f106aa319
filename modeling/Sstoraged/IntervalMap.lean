import Sstoraged.WriteBack

namespace Sstoraged.IntervalMap

open WriteCache WriteCacheMerge WriteBack

variable {B : Type} {ix : LbaIndex}

/-- A segment as it is pushed, with any data stored in it so far. -/
structure Fresh (w : WriteSegment B) : Prop where
  original : w.copy = false
  whole : w.rlba = w.lba ∧ w.rlength = w.transferLength
  positive : 0 < w.transferLength

def pushAll (ws : List (WriteSegment B)) : WriteCache B ix := ws.foldl push .init

def contains (ws : WriteSegment B) (b : Nat) : Bool := decide (ws.lba ≤ b ∧ b < ws.tail)

/-- The block is in the live range of the segment. -/
def Reads (ws : WriteSegment B) (b : Nat) : Prop := ws.rlba ≤ b ∧ b < ws.rtail

instance (ws : WriteSegment B) (b : Nat) : Decidable (Reads ws b) :=
  inferInstanceAs (Decidable (_ ∧ _))

/-- A cached segment is the pushed segment `w` or a split copy of it. -/
structure From (w e : WriteSegment B) : Prop where
  lba : e.lba = w.lba
  transferLength : e.transferLength = w.transferLength
  cbufs : e.cbufs = w.cbufs

/-- None of the four cases of the merge applies to the hit. -/
def Missed (w hit : WriteSegment B) : Prop :=
  ¬(w.lba ≤ hit.rlba ∧ hit.rlba + hit.rlength ≤ w.lba + w.transferLength) ∧
  ¬(hit.rlba < w.lba ∧ w.lba + w.transferLength < hit.rlba + hit.rlength) ∧
  ¬(hit.rlba < w.lba ∧ w.lba < hit.rlba + hit.rlength ∧
    hit.rlba + hit.rlength ≤ w.lba + w.transferLength) ∧
  ¬(w.lba ≤ hit.rlba ∧ hit.rlba < w.lba + w.transferLength ∧
    w.lba + w.transferLength < hit.rlba + hit.rlength)

/-- The push of `w` comes to the branch that is never to be reached. -/
def Misses (c : WriteCache B ix) (w : WriteSegment B) : Prop :=
  ∃ l p r, c.search w.lba w.transferLength = l ++ p :: r ∧ Missed w ((l.foldl (pushHit w) c).ws p)

/-- The cache as a map from blocks to the segments of the log that were pushed
last. `org` gives the position in the log of the segment an entry came from. -/
structure Maps (c : WriteCache B ix) (log : List (WriteSegment B)) (org : Nat → Nat) : Prop where
  disjoint : ∀ p ∈ c.fifo, ∀ q ∈ c.fifo, p ≠ q → ∀ b, ¬(Reads (c.ws p) b ∧ Reads (c.ws q) b)
  union : ∀ b, (∃ p ∈ c.fifo, Reads (c.ws p) b) ↔ ∃ w ∈ log, contains w b = true
  origin : ∀ p ∈ c.fifo, ∃ w, log[org p]? = some w ∧ From w (c.ws p)
  originals : (c.fifo.filter fun p => !(c.ws p).copy).map org = List.range log.length
  last : ∀ b j, Overlay.IsLast contains log b j → ∃ p ∈ c.fifo, org p = j ∧ Reads (c.ws p) b
  inside : ∀ p ∈ c.fifo, 0 < (c.ws p).rlength →
    (c.ws p).lba ≤ (c.ws p).rlba ∧ (c.ws p).rtail ≤ (c.ws p).tail
  never : ∀ w, ¬ Misses c w

/-- The hits that the merge cuts as intended. A hit is split only if nothing was
cut off its head, since the copy is placed from the head of the whole range. A
head is cut off only if no key of the index lies in between, since the container
is not told of the new key. -/
def Trimmable (w : WriteSegment B) (c : WriteCache B ix) (p : Nat) : Prop :=
  ((c.ws p).rlba < w.lba → w.tail < (c.ws p).rtail → (c.ws p).rlba = (c.ws p).lba) ∧
  (w.lba ≤ (c.ws p).rlba → w.tail < (c.ws p).rtail →
    (ix.toList c.byLba).Pairwise fun x y => x = p → w.tail ≤ (c.ws y).rlba)

def AllTrimmable (w : WriteSegment B) (c : WriteCache B ix) : Prop :=
  ∀ p ∈ c.search w.lba w.transferLength, Trimmable w c p

instance (w : WriteSegment B) (c : WriteCache B ix) (p : Nat) : Decidable (Trimmable w c p) :=
  inferInstanceAs (Decidable (_ ∧ _))

instance (w : WriteSegment B) (c : WriteCache B ix) : Decidable (AllTrimmable w c) :=
  inferInstanceAs (Decidable (∀ p ∈ _, _))

section AtZero

/-- The segment with its data moved to offset 0. Nothing but the data paths
reads the offset, so the cache works on it as on the segment itself. -/
def atZero (ws : WriteSegment B) : WriteSegment B := { ws with dsOffset := 0 }

def strip (c : WriteCache B ix) : WriteCache B ix := { c with ws := fun p => atZero (c.ws p) }

theorem stepBack_atZero (seg : Nat → WriteSegment B) (lba : Nat) (before bitr itr : List Nat) :
    stepBack (fun p => atZero (seg p)) lba before bitr itr = stepBack seg lba before bitr itr := by
  induction before generalizing bitr itr with
  | nil => rfl
  | cons p before ih =>
    rw [stepBack, stepBack, ih, ih]
    rfl

theorem fillHits_atZero (seg : Nat → WriteSegment B) (lba len : Nat) (itr : List Nat) :
    fillHits (fun p => atZero (seg p)) lba len itr = fillHits seg lba len itr := by
  induction itr with
  | nil => rfl
  | cons p itr ih =>
    rw [fillHits, fillHits, ih]
    rfl

theorem search_strip (c : WriteCache B ix) (lba len : Nat) :
    (strip c).search lba len = c.search lba len := by
  change fillHits (fun p => atZero (c.ws p)) _ _ (stepBack (fun p => atZero (c.ws p)) _ _ _ _) = _
  rw [fillHits_atZero, stepBack_atZero]
  rfl

theorem strip_pushBack (c : WriteCache B ix) (w : WriteSegment B) :
    strip (c.pushBack w) = (strip c).pushBack (atZero w) := by
  have hws : (fun p => atZero (Function.update c.ws c.next w p)) =
      Function.update (fun p => atZero (c.ws p)) c.next (atZero w) := by
    funext p
    by_cases hp : p = c.next
    · subst hp
      simp
    · simp [hp]
  have hkey : (fun p => (Function.update c.ws c.next w p).rlba) =
      fun p => (Function.update (fun p => atZero (c.ws p)) c.next (atZero w) p).rlba := by
    rw [← hws]
    rfl
  simp only [strip, pushBack, hws, hkey]

theorem strip_modify (c : WriteCache B ix) (p : Nat) (f : WriteSegment B → WriteSegment B)
    (hf : ∀ e, atZero (f e) = f (atZero e)) : strip (c.modify p f) = (strip c).modify p f := by
  simp only [strip, WriteCache.modify]
  congr 1
  funext q
  by_cases hq : q = p
  · subst hq
    simp [hf]
  · simp [hq]

theorem strip_pushHit (w : WriteSegment B) (c : WriteCache B ix) (p : Nat) :
    strip (pushHit w c p) = pushHit (atZero w) (strip c) p := by
  unfold pushHit
  dsimp only
  rw [apply_ite strip, apply_ite strip, apply_ite strip, apply_ite strip]
  refine if_congr Iff.rfl ?_ (if_congr Iff.rfl ?_ (if_congr Iff.rfl ?_ (if_congr Iff.rfl ?_ rfl)))
  · exact strip_modify c p _ fun _ => rfl
  · refine (strip_modify _ p _ ?_).trans ?_
    · exact fun _ => rfl
    · rw [strip_pushBack]
      rfl
  · exact strip_modify c p _ fun _ => rfl
  · exact strip_modify c p _ fun _ => rfl

theorem strip_push (c : WriteCache B ix) (w : WriteSegment B) :
    strip (c.push w) = (strip c).push (atZero w) := by
  have hloop : ∀ (ps : List Nat) (c : WriteCache B ix),
      strip (ps.foldl (pushHit w) c) = ps.foldl (pushHit (atZero w)) (strip c) := by
    intro ps
    induction ps with
    | nil => exact fun c => rfl
    | cons p ps ih =>
      intro c
      rw [List.foldl_cons, List.foldl_cons, ih, strip_pushHit]
  rw [push, push, strip_pushBack, hloop]
  have hs := search_strip c w.lba w.transferLength
  change _ = pushBack (List.foldl _ _ ((strip c).search w.lba w.transferLength)) (atZero w)
  rw [hs]

theorem mergeable_strip {w : WriteSegment B} {c : WriteCache B ix} {p : Nat}
    (h : Trimmable w c p) : WriteCacheMerge.Mergeable (atZero w) (strip c) p :=
  ⟨fun h₁ h₂ => ⟨h.1 h₁ h₂, rfl⟩, h.2⟩

end AtZero

/-- The cache without its data offsets, against the log without them. -/
def Kept (c : WriteCache B ix) (log : List (WriteSegment B)) (popped : Nat) (org : Nat → Nat) :
    Prop :=
  Holds (fun _ => False) (strip c) (log.map atZero) popped org

theorem kept_init (hix : ix.Lawful) (popped : Nat) (org : Nat → Nat) :
    Kept (WriteCache.init : WriteCache B ix) [] popped org := holds_init hix _ _ _

theorem kept_push (hix : ix.Lawful) {c : WriteCache B ix} {log : List (WriteSegment B)}
    {popped : Nat} {org : Nat → Nat} (h : Kept c log popped org) {w : WriteSegment B}
    (hw : Fresh w) (hok : AllTrimmable w c) :
    ∃ c' org', strip (c.push w) = c'.pushBack (atZero w) ∧ Grows (strip c) c' org org' ∧
      (∀ p ∈ c'.fifo, p < c'.next ∧ org' p < log.length) ∧
      Kept (c.push w) (log ++ [w]) popped (Function.update org' c'.next log.length) := by
  have hok' : ∀ p ∈ (strip c).search (atZero w).lba (atZero w).transferLength,
      WriteCacheMerge.Mergeable (atZero w) (strip c) p := by
    intro p hp
    rw [search_strip] at hp
    exact mergeable_strip (hok p hp)
  obtain ⟨c', org', hpush, hg, hc, hh⟩ := push_holds (w := atZero w) hix h hw.whole hw.positive hok'
  refine ⟨c', org', by rw [strip_push, hpush], hg, fun p hp => ⟨hc.fresh p hp, ?_⟩, ?_⟩
  · have := org_lt hc hp
    rwa [List.length_map] at this
  · rw [Kept, strip_push, hpush, List.map_append]
    rwa [List.length_map] at hh

theorem mem_search_iff (hix : ix.Lawful) {c : WriteCache B ix} {log : List (WriteSegment B)}
    {popped : Nat} {org : Nat → Nat} (h : Kept c log popped org) (lba len p : Nat) :
    p ∈ c.search lba len ↔ p ∈ c.fifo ∧ meets c.ws lba len p = true := by
  rw [search_eq_filter hix c h.tidy, List.mem_filter]
  exact and_congr_left' (mem_byLba h)

theorem pushHit_frame (w : WriteSegment B) (c : WriteCache B ix) {p q : Nat} (hq : q ≠ p)
    (hn : q < c.next) : (pushHit w c p).ws q = c.ws q ∧ c.next ≤ (pushHit w c p).next := by
  unfold pushHit
  dsimp only
  split
  · simp [hq]
  split
  · simp [hq, hn.ne]
  split
  · simp [hq]
  split
  · simp [hq]
  · simp

theorem merge_frame (w : WriteSegment B) (ps : List Nat) (c : WriteCache B ix) {q : Nat}
    (hq : q ∉ ps) (hn : q < c.next) : (ps.foldl (pushHit w) c).ws q = c.ws q := by
  induction ps generalizing c with
  | nil => rfl
  | cons p ps ih =>
    obtain ⟨hqp, hqs⟩ := not_or.mp (mt List.mem_cons.mpr hq)
    obtain ⟨hws, hnext⟩ := pushHit_frame w c hqp hn
    rw [List.foldl_cons, ih _ hqs (by omega), hws]

theorem not_misses (hix : ix.Lawful) {c : WriteCache B ix} {log : List (WriteSegment B)}
    {popped : Nat} {org : Nat → Nat} (h : Kept c log popped org) (w : WriteSegment B) :
    ¬ Misses c w := by
  rintro ⟨l, p, r, hs, hm⟩
  have hp : p ∈ c.search w.lba w.transferLength := by
    rw [hs]
    simp
  obtain ⟨hpf, hmt⟩ := (mem_search_iff hix h _ _ p).mp hp
  have hnd : (c.search w.lba w.transferLength).Nodup := by
    rw [search_eq_filter hix c h.tidy]
    exact (h.perm.nodup_iff.mpr h.nodup).filter _
  have hpl : p ∉ l := by
    rw [hs] at hnd
    intro hc
    exact List.disjoint_of_nodup_append hnd hc (by simp)
  rw [merge_frame w l c hpl (h.fresh p hpf)] at hm
  rw [meets_iff] at hmt
  unfold Missed at hm
  unfold WriteSegment.rtail at hmt
  omega

theorem live_iff {ws : WriteSegment B} {b : Nat} : Live (atZero ws) (512 * b) ↔ Reads ws b := by
  have hb : 512 * b / 512 = b := by omega
  rw [Live, hb]
  exact Iff.rfl

theorem isLast_iff {log : List (WriteSegment B)} {b j : Nat} :
    Overlay.IsLast WriteSegment.covers (log.map atZero) (512 * b) j ↔
      Overlay.IsLast contains log b j := by
  have hb : 512 * b / 512 = b := by omega
  have hc : ∀ w : WriteSegment B, WriteSegment.covers (atZero w) (512 * b) = contains w b := fun w => by
    rw [WriteSegment.covers, hb]
    rfl
  simp only [Overlay.IsLast, List.getElem?_map, Option.map_eq_some_iff, ← hc]
  constructor
  · rintro ⟨⟨-, ⟨w, hw, rfl⟩, hcw⟩, h⟩
    exact ⟨⟨w, hw, hcw⟩, fun k v hk hv => h k _ hk ⟨v, hv, rfl⟩⟩
  · rintro ⟨⟨w, hw, hcw⟩, h⟩
    refine ⟨⟨_, ⟨w, hw, rfl⟩, hcw⟩, ?_⟩
    rintro k - hk ⟨v, hv, rfl⟩
    exact h k v hk hv

theorem maps_of_kept (hix : ix.Lawful) {c : WriteCache B ix} {log : List (WriteSegment B)}
    {org : Nat → Nat} (h : Kept c log 0 org) (hq : Queue (strip c) log.length 0 org) :
    Maps c log org := by
  have hlast : ∀ b j, Overlay.IsLast contains log b j → ∃ p ∈ c.fifo, org p = j ∧ Reads (c.ws p) b := by
    intro b j hj
    obtain ⟨p, hp, hl⟩ := h.covered (512 * b) j id (isLast_iff.mpr hj) (Nat.zero_le j)
    exact ⟨p, hp, (h.last p hp _ hl).unique _ (isLast_iff.mpr hj), live_iff.mp hl⟩
  have horigin : ∀ p ∈ c.fifo, ∃ w, log[org p]? = some w ∧ From w (c.ws p) ∧
      (c.ws p).lba ≤ (c.ws p).rlba ∧ (c.ws p).rtail ≤ (c.ws p).tail := by
    intro p hp
    obtain ⟨w, hw, ho⟩ := h.origin p hp
    rw [List.getElem?_map, Option.map_eq_some_iff] at hw
    obtain ⟨v, hv, rfl⟩ := hw
    have hlba : (c.ws p).lba = v.lba := ho.lba
    have hlen : (c.ws p).transferLength = v.transferLength := ho.transferLength
    have hhead : v.lba ≤ (c.ws p).rlba := ho.head
    have htail : (c.ws p).rtail ≤ v.tail := ho.tail
    refine ⟨v, hv, ⟨hlba, hlen, ho.cbufs⟩, by omega, ?_⟩
    unfold WriteSegment.tail at htail ⊢
    omega
  refine ⟨fun p hp q hqf hne b hb => ?_, fun b => ⟨?_, ?_⟩, fun p hp => ?_, ?_, hlast, fun p hp _ => ?_,
    not_misses hix h⟩
  · exact disjoint_of_tidy h.tidy ((mem_byLba h).mpr hp) ((mem_byLba h).mpr hqf) hne (512 * b)
      ⟨live_iff.mpr hb.1, live_iff.mpr hb.2⟩
  · rintro ⟨p, hp, hb⟩
    obtain ⟨⟨w, hw, hc⟩, -⟩ := isLast_iff.mp (h.last p hp _ (live_iff.mpr hb))
    exact ⟨w, List.mem_of_getElem? hw, hc⟩
  · rintro ⟨w, hw, hc⟩
    rcases Overlay.isLast_or_none contains log b with ⟨j, hj⟩ | hn
    · obtain ⟨p, hp, -, hb⟩ := hlast b j hj
      exact ⟨p, hp, hb⟩
    · rw [hn w hw] at hc
      cases hc
  · obtain ⟨w, hw, hf, -⟩ := horigin p hp
    exact ⟨w, hw, hf⟩
  · rw [List.range_eq_range']
    exact hq.originals
  · obtain ⟨w, -, -, hin⟩ := horigin p hp
    exact hin

/-- After every sequence of pushes from the empty cache whose hits are all cut
as intended, the cache maps each block to the segment pushed last over it. -/
theorem maps_of_trimmable (hix : ix.Lawful) (ws : List (WriteSegment B)) (hf : ∀ w ∈ ws, Fresh w)
    (hok : ∀ l w r, ws = l ++ w :: r → AllTrimmable w (pushAll l : WriteCache B ix)) :
    ∃ org, Maps (pushAll ws : WriteCache B ix) ws org := by
  suffices h : ∃ org, Kept (pushAll ws : WriteCache B ix) ws 0 org ∧
      Queue (strip (pushAll ws : WriteCache B ix)) ws.length 0 org by
    obtain ⟨org, hk, hq⟩ := h
    exact ⟨org, maps_of_kept hix hk hq⟩
  induction ws using List.reverseRecOn with
  | nil =>
    exact ⟨id, kept_init hix 0 id, le_rfl, rfl, List.Pairwise.nil, fun p hp => by cases hp⟩
  | append_singleton ws w ih =>
    have hfw : Fresh w := hf w (by simp)
    obtain ⟨org, hk, hq⟩ := ih (fun v hv => hf v (List.mem_append_left _ hv))
      fun l v r he => hok l v (r ++ [w]) (by simp [he])
    obtain ⟨c', org', hpush, hg, hc, hk'⟩ := kept_push hix hk hfw (hok ws w [] rfl)
    have he : (pushAll (ws ++ [w]) : WriteCache B ix) = (pushAll ws).push w := by
      simp [pushAll]
    refine ⟨_, he ▸ hk', ?_⟩
    rw [he, hpush, List.length_append, List.length_singleton]
    exact hq.pushBack hg (fun p hp => (hc p hp).1) (fun p hp => (hc p hp).2) hfw.original

theorem fresh_sampleSegment {lba length dsOffset : Nat} (h : 0 < length) :
    Fresh (sampleSegment lba length dsOffset) := ⟨rfl, ⟨rfl, rfl⟩, h⟩

/-- A segment is split, and then both sides of the split are cut back. -/
theorem maps_two_cuts :
    ∃ org, Maps (pushAll [sampleSegment 0 10 0, sampleSegment 4 2 0, sampleSegment 5 4 0] :
        WriteCache Unit LbaIndex.ofList)
      [sampleSegment 0 10 0, sampleSegment 4 2 0, sampleSegment 5 4 0] org := by
  refine maps_of_trimmable LbaIndex.lawful_ofList _ (fun w hw => ?_) fun l w r he => ?_
  · simp only [List.mem_cons, List.not_mem_nil, or_false] at hw
    rcases hw with rfl | rfl | rfl <;> exact fresh_sampleSegment (by decide)
  · obtain _ | ⟨a, _ | ⟨b, _ | ⟨c, l⟩⟩⟩ := l
    · cases he
      decide +kernel
    · cases he
      decide +kernel
    · cases he
      decide +kernel
    · simp at he

/-- The head of the first segment is cut off, then the rest is split: the copy
is placed from the old head, over the new segment. -/
theorem not_maps_split :
    let ws := [sampleSegment 0 10 0, sampleSegment 0 2 0, sampleSegment 4 2 0]
    (∀ w ∈ ws, Fresh w) ∧ ¬ ∃ org, Maps (pushAll ws : WriteCache Unit LbaIndex.ofList) ws org := by
  intro ws
  refine ⟨fun w hw => ?_, ?_⟩
  · simp only [ws, List.mem_cons, List.not_mem_nil, or_false] at hw
    rcases hw with rfl | rfl | rfl <;> exact fresh_sampleSegment (by decide)
  rintro ⟨org, hm⟩
  have hf : (pushAll ws : WriteCache Unit LbaIndex.ofList).fifo = [0, 1, 2, 3] := by decide +kernel
  have hr : ∀ p, p = 2 ∨ p = 3 → Reads ((pushAll ws : WriteCache Unit LbaIndex.ofList).ws p) 4 := by
    rintro p (rfl | rfl) <;> decide +kernel
  exact hm.disjoint 2 (by simp [hf]) 3 (by simp [hf]) (by decide) 4 ⟨hr 2 (.inl rfl), hr 3 (.inr rfl)⟩

end Sstoraged.IntervalMap
