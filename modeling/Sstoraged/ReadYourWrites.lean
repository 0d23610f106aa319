import Sstoraged.ReadFormat
import Sstoraged.WriteBack

namespace Sstoraged.ReadYourWrites

open ReadHandler ReadTiling ReadPlan ReadReply ReadFormat WriteCache WriteCacheMerge WriteBack

variable {B : Type} {ix : LbaIndex} {mem : B → Nat → UInt8} {disk : Nat → UInt8}

/-- The bytes that tasks send, with memory and disk as they are. -/
def delivered (mem : B → Nat → UInt8) (disk : Nat → UInt8) (ts : List (Task B)) : List UInt8 :=
  ts.flatMap (Task.deliver mem disk)

/-- The bytes of a run of blocks. -/
def bytes (E : Nat → UInt8) (lba n : Nat) : List UInt8 := (List.range' (512 * lba) (512 * n)).map E

/-- The handler accepts the READ, and the tasks that it queues deliver the
bytes of the range as given. -/
def Reads (mem : B → Nat → UInt8) (disk : Nat → UInt8) (h : ReadHandler) (ses : Session B ix)
    (bhs : Header) (E : Nat → UInt8) : Prop :=
  ∃ ses' body, h.handle ses bhs = some (true, ses') ∧ ses'.sendtask = ses.sendtask ++ body ∧
    delivered mem disk body = bytes E (lbaOf bhs) (lengthOf bhs)

/-- What tasks send: the data of their buffers, and what the disk holds for a range of a volume. -/
structure Delivers (mem : B → Nat → UInt8) (disk : Nat → UInt8) (lv : LogicalVolume) (lba len : Nat)
    (f : Task B → List UInt8) : Prop where
  sendfile : ∀ a n, 0 < n → lba ≤ a → a + n ≤ lba + len →
    f (.sendfile (SendfileTask.new lv a n)) = bytes disk a n
  sendCache : ∀ t, f (.sendCache t) = (Task.sendCache t).deliver mem disk
  cork : f .cork = []
  uncork : f .uncork = []
  send : ∀ t, f (.send t) = []

/-- A live segment with the bytes that a reader of its live range expects. -/
structure Stored (mem : B → Nat → UInt8) (E : Nat → UInt8) (h : WriteSegment B) : Prop where
  positive : 0 < h.rlength
  fits : h.rlength < 2 ^ 32
  head : h.lba ≤ h.rlba
  tail : h.rtail ≤ h.tail
  enough : 512 * h.transferLength ≤ BufferChain.capacity commonBufSize h.cbufs h.dsOffset
  value : ∀ a, Live h a → h.val mem a = E a

/-- The hits of a range with what the disk holds between them. -/
structure Sound (mem : B → Nat → UInt8) (disk E : Nat → UInt8) (r e : Nat)
    (hits : List (WriteSegment B)) : Prop where
  stored : ∀ h ∈ hits, Stored mem E h
  order : hits.Pairwise fun h k => h.rtail ≤ k.rlba
  after : ∀ h ∈ hits, r < h.rtail
  gap : ∀ a, r ≤ a / 512 → a / 512 < e → (∀ h ∈ hits, ¬ Live h a) → disk a = E a

theorem bytes_append (E : Nat → UInt8) (lba m n : Nat) :
    bytes E lba m ++ bytes E (lba + m) n = bytes E lba (m + n) := by
  have h₁ : 512 * (lba + m) = 512 * lba + 512 * m := by omega
  have h₂ : 512 * (m + n) = 512 * m + 512 * n := by omega
  rw [bytes, bytes, bytes, h₁, h₂, ← List.map_append, List.range'_append_1]

theorem bytes_congr {E F : Nat → UInt8} {lba n : Nat}
    (h : ∀ a, lba ≤ a / 512 → a / 512 < lba + n → E a = F a) : bytes E lba n = bytes F lba n := by
  refine List.map_congr_left fun a ha => h a ?_ ?_ <;>
  · rw [List.mem_range'_1] at ha
    omega

theorem delivers_deliver (lv : LogicalVolume) (lba len : Nat) :
    Delivers mem disk lv lba len (Task.deliver mem disk) :=
  ⟨fun a n _ _ _ => by simp [Task.deliver, SendfileTask.new, bytes], fun _ => rfl, rfl,
    rfl, fun _ => rfl⟩

theorem deliver_zero (ws : WriteSegment B) (lba : Nat) :
    (Task.sendCache (SendCacheTask.new ws lba 0)).deliver mem disk = [] := by
  rw [Task.deliver, SendCacheTask.iovec, BufferChain.gather_pieces, SendCache.totalRemain_new,
    Nat.mul_zero, List.take_zero]

theorem Stored.deliver {E : Nat → UInt8} {h : WriteSegment B} (hs : Stored mem E h) {lba n : Nat}
    (hlba : h.rlba ≤ lba) (htail : lba + n ≤ h.rtail) :
    (Task.sendCache (SendCacheTask.new h lba n)).deliver mem disk = bytes E lba n := by
  rcases Nat.eq_zero_or_pos n with rfl | hn
  · rw [deliver_zero]
    rfl
  · have hh := hs.head
    have ht := hs.tail
    rw [SendCache.deliver_new mem h lba n (by omega) (by omega) hn hs.enough]
    exact bytes_congr fun a h₁ h₂ => hs.value a ⟨by omega, by omega⟩

theorem Sound.tail {E : Nat → UInt8} {r e : Nat} {h : WriteSegment B} {hits : List (WriteSegment B)}
    (hs : Sound mem disk E r e (h :: hits)) : Sound mem disk E h.rtail e hits := by
  obtain ⟨hh, hp⟩ := List.pairwise_cons.mp hs.order
  have hst : ∀ k ∈ hits, Stored mem E k := fun k hk => hs.stored k (List.mem_cons_of_mem _ hk)
  have hr := hs.after h (by simp)
  refine ⟨hst, hp, fun k hk => ?_, fun a h₁ h₂ hn => hs.gap a (by omega) h₂ fun k hk => ?_⟩
  · have h₁ := (hst k hk).positive
    have h₂ := hh k hk
    unfold WriteSegment.rtail at *
    omega
  · rcases List.mem_cons.mp hk with rfl | hk
    · exact fun hl => absurd hl.2 (by omega)
    · exact hn k hk

theorem Sound.bytes_gap {E : Nat → UInt8} {r e : Nat} {h : WriteSegment B}
    {hits : List (WriteSegment B)} (hs : Sound mem disk E r e (h :: hits)) (hr : r < h.rlba)
    (he : h.rlba ≤ e) : bytes disk r (h.rlba - r) = bytes E r (h.rlba - r) := by
  refine bytes_congr fun a h₁ h₂ => hs.gap a h₁ (by omega) fun k hk hl => ?_
  have hl₁ := hl.1
  rcases List.mem_cons.mp hk with rfl | hk
  · omega
  · have hhk := (List.pairwise_cons.mp hs.order).1 k hk
    unfold WriteSegment.rtail at hhk
    omega

section Tasks

variable {f : Task B → List UInt8} {lv : LogicalVolume} {lba len : Nat}

theorem sendCache_delivered (hf : Delivers mem disk lv lba len f) {E : Nat → UInt8}
    (hits : List (WriteSegment B))
    (r e : Nat) (hlo : lba ≤ r) (hhi : e ≤ lba + len) (hr : r < e) (he : e - r < 2 ^ 17)
    (hm : ∀ h ∈ hits, h.rlba ≤ e)
    (hs : Sound mem disk E r e hits) :
    (sendCache lv hits r (e - r)).1.flatMap f = bytes E r (e - r) := by
  induction hits generalizing r with
  | nil =>
    rw [sendCache, if_pos (by omega), List.flatMap_singleton, hf.sendfile _ _ (by omega) hlo (by omega)]
    exact bytes_congr fun a h₁ h₂ => hs.gap a h₁ (by omega) (by simp)
  | cons h hits ih =>
    have hst := hs.stored h (by simp)
    have hle := hm h (by simp)
    have hra := hs.after h (by simp)
    have hm' : ∀ k ∈ hits, k.rlba ≤ e := fun k hk => hm k (List.mem_cons_of_mem _ hk)
    have hrt : h.rtail = h.rlba + h.rlength := rfl
    rw [sendCache_cons lv hr (by omega) hle hst.fits hra.le]
    by_cases h₁ : h.rlba ≤ r
    · rw [if_pos h₁, List.flatMap_cons, hf.sendCache, hst.deliver h₁ (by omega)]
      by_cases hi : h.rtail < e
      · have hmin : min h.rtail e = h.rtail := by omega
        have hj : r + (h.rtail - r) = h.rtail := by omega
        have hsum : h.rtail - r + (e - h.rtail) = e - r := by omega
        have happ := bytes_append E r (h.rtail - r) (e - h.rtail)
        rw [hj, hsum] at happ
        rw [hmin, ih h.rtail (by omega) hi (by omega) hm' hs.tail, happ]
      · have hmin : min h.rtail e = e := by omega
        rw [hmin, Nat.sub_self, sendCache_done, List.flatMap_nil, List.append_nil]
    · have hj : r + (h.rlba - r) = h.rlba := by omega
      have hgap := hs.bytes_gap (by omega) hle
      rw [if_neg h₁]
      by_cases h₂ : e ≤ h.rtail
      · have hsum : h.rlba - r + (e - h.rlba) = e - r := by omega
        have happ := bytes_append E r (h.rlba - r) (e - h.rlba)
        rw [hj, hsum] at happ
        rw [if_pos h₂, List.flatMap_cons, List.flatMap_cons,
          hf.sendfile _ _ (by omega) hlo (by omega), hf.sendCache, hgap,
          hst.deliver le_rfl (by omega), List.flatMap_nil, List.append_nil, happ]
      · have hsum : h.rlength + (e - h.rtail) = e - h.rlba := by omega
        have hsum' : h.rlba - r + (e - h.rlba) = e - r := by omega
        have happ := bytes_append E h.rlba h.rlength (e - h.rtail)
        have happ' := bytes_append E r (h.rlba - r) (e - h.rlba)
        rw [← hrt, hsum] at happ
        rw [hj, hsum'] at happ'
        rw [if_neg h₂, List.flatMap_cons, List.flatMap_cons,
          hf.sendfile _ _ (by omega) hlo (by omega), hf.sendCache, hgap,
          hst.deliver le_rfl hrt.ge, ih h.rtail (by omega) (by omega) (by omega) hm' hs.tail,
            happ, happ']

theorem plan_delivered {m : Nat} {data : Nat → Nat → Option (List (Task B) × Nat)}
    {E : Nat → UInt8} (P : Nat → Nat → Prop)
    (hlast : ∀ a n, 0 < n → n ≤ m → P a n →
      ∃ ts b, data a n = some (ts, b) ∧ ts.flatMap f = bytes E a n)
    (hmore : ∀ a n, m < n → P a n →
      (∃ ts, data a m = some (ts, a + m) ∧ ts.flatMap f = bytes E a m) ∧ P (a + m) (n - m))
    (fuel lba tl : Nat) (htl : 0 < tl) (hm : 0 < m) (hf : tl ≤ fuel) (hp : P lba tl) :
    (plan m data fuel lba tl).2.flatMap (List.flatMap f) = bytes E lba tl := by
  induction fuel generalizing lba tl with
  | zero => omega
  | succ fuel ih =>
    by_cases hl : tl ≤ m
    · obtain ⟨ts, b, hd, hts⟩ := hlast lba tl htl hl hp
      have hmin : min tl m = tl := by omega
      rw [plan, hmin, hd]
      simp [hl, hts]
    · obtain ⟨⟨ts, hd, hts⟩, hp'⟩ := hmore lba tl (by omega) hp
      have hmin : min tl m = m := by omega
      have hsum : m + (tl - m) = tl := by omega
      simp only [plan, hmin, hd, if_neg hl, List.flatMap_cons, hts]
      rw [ih (lba + m) (tl - m) (by omega) (by omega) hp', bytes_append, hsum]

theorem Delivers.group (hf : Delivers mem disk lv lba len f) (ts : List (Task B)) :
    ts.flatMap f = (group ts).1.flatMap f ++ (group ts).2.flatMap fun q => q.2.flatMap f := by
  induction ts with
  | nil => rfl
  | cons t ts ih => cases t <;> simp [ReadPlan.group, hf.send, ih]

end Tasks

section Cache

variable {disk₀ : Nat → UInt8} {s : State B ix} {popped : Nat} {org : Nat → Nat}
  {f : Task B → List UInt8}
  {lv : LogicalVolume} {lba len : Nat}

/-- A disk that holds what is expected wherever nothing is cached. -/
def Beneath (mem : B → Nat → UInt8) (disk₀ disk : Nat → UInt8) (s : State B ix) : Prop :=
  ∀ a, (∀ p ∈ ix.toList s.cache.byLba, ¬ Live (s.cache.ws p) a) → disk a = expected mem disk₀ s.pushed a

theorem stored_of_synced (h : Synced mem disk₀ s popped org) {p : Nat}
    (hp : p ∈ ix.toList s.cache.byLba) (hpos : 0 < (s.cache.ws p).rlength) :
    Stored mem (expected mem disk₀ s.pushed) (s.cache.ws p) := by
  obtain ⟨w, hw, ho⟩ := h.holds.origin p ((mem_byLba h.holds).mp hp)
  have hf := h.filled w (List.mem_of_getElem? hw)
  have hfits := hf.fits
  have henough := hf.enough
  have hhead := ho.head
  have htail := ho.tail
  rw [lba2Offset_eq] at henough
  refine ⟨hpos, ?_, by rw [ho.lba]; exact hhead, ?_, ?_, fun a ha => h.read_live hp ha⟩
  · unfold WriteSegment.rtail WriteSegment.tail at htail
    omega
  · unfold WriteSegment.tail at htail ⊢
    rwa [ho.lba, ho.transferLength]
  · rwa [ho.transferLength, ho.cbufs, ho.dsOffset]

theorem bounded_of_synced (h : Synced mem disk₀ s popped org) : Bounded s.cache := by
  intro p hp
  rcases Nat.eq_zero_or_pos (s.cache.ws p).rlength with hz | hpos
  · omega
  · exact (stored_of_synced h hp hpos).fits

theorem mem_search_of_live (hix : ix.Lawful) {c : WriteCache B ix} (ht : c.Tidy) {p a lba len : Nat}
    (hp : p ∈ ix.toList c.byLba) (hl : Live (c.ws p) a) (h₁ : lba ≤ a / 512) (h₂ : a / 512 < lba + len) :
    p ∈ c.search lba len := by
  obtain ⟨hl₁, hl₂⟩ := hl
  rw [search_eq_filter hix c ht, List.mem_filter, meets_iff]
  unfold WriteSegment.rtail at hl₂ ⊢
  exact ⟨hp, by omega, by omega, by omega⟩

theorem search_order (hix : ix.Lawful) {c : WriteCache B ix} (ht : c.Tidy) (lba len : Nat) :
    ((c.search lba len).map c.ws).Pairwise fun h k => h.rtail ≤ k.rlba := by
  rw [List.pairwise_map, search_eq_filter hix c ht]
  refine (List.Pairwise.filter _ ht).imp_of_mem fun {p q} hp hq hb => ?_
  have hp' := (meets_iff _ _ _ _).mp (List.mem_filter.mp hp).2
  have hq' := (meets_iff _ _ _ _).mp (List.mem_filter.mp hq).2
  exact (hb.2.resolve_left hp'.1).resolve_left hq'.1

theorem sound_getHitSegments (hix : ix.Lawful) (h : Synced mem disk₀ s popped org)
    (hdisk : Beneath mem disk₀ disk s)
    {a n : Nat} (ha : lba ≤ a) (hn : a + n ≤ lba + len)
    (hc : Cached ((s.cache.search lba len).map s.cache.ws)) :
    Sound mem disk (expected mem disk₀ s.pushed) a (a + n)
      (getHitSegments ((s.cache.search lba len).map s.cache.ws) a n) := by
  refine ⟨fun ws hws => ?_, List.Pairwise.filter _ (search_order hix h.holds.tidy lba len),
    fun ws hws => ?_,
    fun b h₁ h₂ hb => hdisk b fun p hp hl => ?_⟩
  · obtain ⟨hm, -, -⟩ := (mem_getHitSegments hc).mp hws
    obtain ⟨p, hp, rfl⟩ := List.mem_map.mp hm
    obtain ⟨hpl, hpos, -⟩ := mem_search hp
    exact stored_of_synced h hpl hpos
  · exact ((mem_getHitSegments hc).mp hws).2.2
  · -- a live entry that covers an address of the range is among the hits
    have hl₁ := hl.1
    have hl₂ := hl.2
    have hps : p ∈ s.cache.search lba len :=
      mem_search_of_live hix h.holds.tidy hp hl (by omega) (by omega)
    exact hb _ ((mem_getHitSegments hc).mpr ⟨List.mem_map_of_mem hps, by omega, by omega⟩) hl

theorem hitData_delivered (hix : ix.Lawful) (h : Synced mem disk₀ s popped org)
    (hdisk : Beneath mem disk₀ disk s)
    (hf : Delivers mem disk lv lba len f) {a n : Nat} (ha : lba ≤ a)
    (hn : a + n ≤ lba + len) (hp : 0 < n)
    (hlt : n < 2 ^ 17) {last : Bool}
    (hserved : Served ((s.cache.search lba len).map s.cache.ws) last a (a + n)) :
    ∃ ts b, hitData lv ((s.cache.search lba len).map s.cache.ws) a n = some (ts, b) ∧
      ts.flatMap f = bytes (expected mem disk₀ s.pushed) a n ∧ (last = false → b = a + n) := by
  have hc := cached_search (bounded_of_synced h) lba len
  obtain ⟨hne, hord, hedge⟩ := hserved
  have hee : a + n - a = n := by omega
  rw [hee] at hne hord hedge
  cases hd : hitData lv ((s.cache.search lba len).map s.cache.ws) a n with
  | none => exact absurd (hitData_none.mp hd) hne
  | some r =>
    obtain ⟨ts, b⟩ := r
    have hcur : b = cursor a (a + n) (getHitSegments ((s.cache.search lba len).map s.cache.ws) a n) := by
      obtain ⟨-, ⟨-, -, -, hb⟩ | ⟨hno, -⟩⟩ := hitData_length hc hp hlt hd
      · exact hb
      · exact absurd hord hno
    have hts : (sendCache lv (getHitSegments ((s.cache.search lba len).map s.cache.ws) a n) a n).1 =
        ts := by
      simp only [hitData] at hd
      split at hd
      · cases hd
      · simp only [Option.some.injEq] at hd
        rw [hd]
    have hdel := sendCache_delivered hf _ a (a + n) ha hn (by omega) (by omega)
      (fun k hk => ((mem_getHitSegments hc).mp hk).2.1) (sound_getHitSegments hix h hdisk ha hn hc)
    rw [hee, hts] at hdel
    exact ⟨ts, b, rfl, hdel, fun hl => hcur.trans (cursor_eq_iff.mpr (hedge hl))⟩

theorem plan_dataOf_delivered (hix : ix.Lawful) (h : Synced mem disk₀ s popped org)
    (hdisk : Beneath mem disk₀ disk s)
    {m tl : Nat} (hf : Delivers mem disk lv lba tl f) (hm : 0 < m) (hm' : m < 2 ^ 17) (htl : 0 < tl)
    (hserved : (s.cache.search lba tl).map s.cache.ws = [] ∨
      AllServed ((s.cache.search lba tl).map s.cache.ws) m lba tl) :
    (plan m (dataOf lv ((s.cache.search lba tl).map s.cache.ws)) tl lba tl).2.flatMap (List.flatMap f) =
      bytes (expected mem disk₀ s.pushed) lba tl := by
  by_cases he : (s.cache.search lba tl).map s.cache.ws = []
  · rw [dataOf, he, List.isEmpty_nil, if_pos rfl]
    have hmiss : ∀ a n, 0 < n → lba ≤ a → a + n ≤ lba + tl →
        [(.sendfile (SendfileTask.new lv a n) : Task B)].flatMap f =
          bytes (expected mem disk₀ s.pushed) a n := by
      intro a n hpos ha hn
      rw [List.flatMap_singleton, hf.sendfile a n hpos ha hn]
      refine bytes_congr fun b h₁ h₂ => hdisk b fun p hp hl => ?_
      have hps : p ∈ s.cache.search lba tl :=
        mem_search_of_live hix h.holds.tidy hp hl (by omega) (by omega)
      rw [List.map_eq_nil_iff.mp he] at hps
      cases hps
    refine plan_delivered (fun a n => lba ≤ a ∧ a + n = lba + tl) (fun a n hpos _ h =>
      ⟨_, _, rfl, hmiss a n hpos h.1 (by omega)⟩) (fun a n hmn h =>
      ⟨⟨_, rfl, hmiss a m hm h.1 (by omega)⟩, by omega, by omega⟩) tl lba tl htl hm le_rfl ⟨le_rfl, rfl⟩
  · rw [dataOf, if_neg (by simpa using he)]
    refine plan_delivered (fun a n => lba ≤ a ∧ a + n = lba + tl ∧
        AllServed ((s.cache.search lba tl).map s.cache.ws) m a n) (fun a n hn hnm h' => ?_)
      (fun a n hmn h' => ?_) tl lba tl htl hm le_rfl ⟨le_rfl, rfl, hserved.resolve_left he⟩
    · obtain ⟨ha, hs, hall⟩ := h'
      obtain ⟨ts, b, hd, hdel, -⟩ := hitData_delivered hix h hdisk hf ha hs.le hn (by omega)
        ((allServed_last hnm hn).mp hall)
      exact ⟨ts, b, hd, hdel⟩
    · obtain ⟨ha, hs, hall⟩ := h'
      obtain ⟨hfirst, hrest⟩ := (allServed_succ hmn).mp hall
      obtain ⟨ts, b, hd, hdel, hb⟩ := hitData_delivered hix h hdisk hf ha (by omega) hm hm' hfirst
      rw [hb rfl] at hd
      exact ⟨⟨ts, hd, hdel⟩, by omega, by omega, hrest⟩

/-- The handler accepts a READ that is served in place, and its tasks send the bytes that were
pushed last. -/
theorem reads_of_synced (hix : ix.Lawful) (hs : Synced mem disk₀ s popped org)
    (hdisk : Beneath mem disk₀ disk s)
    {h : ReadHandler} (hmrds : 0 < h.byteMrds ∧ 512 ∣ h.byteMrds ∧ h.byteMrds < 2 ^ 24)
    {ses : Session B ix}
    {bhs : Header} (ha : Accepted ses bhs lv s.cache)
    (hf : Delivers mem disk lv (lbaOf bhs) (lengthOf bhs) f)
    (hserved : cacheOf s.cache bhs = [] ∨ AllServed (cacheOf s.cache bhs) h.transferMrds (lbaOf bhs)
      (lengthOf bhs)) :
    ∃ ses' body, h.handle ses bhs = some (true, ses') ∧ ses'.sendtask = ses.sendtask ++ body ∧
      body.flatMap f = bytes (expected mem disk₀ s.pushed) (lbaOf bhs) (lengthOf bhs) := by
  obtain ⟨hpos, hdvd, hlt⟩ := hmrds
  have hbm : h.transferMrds = h.byteMrds / 512 := offset2Lba_eq _
  have hc : Cached (cacheOf s.cache bhs) := cached_search (bounded_of_synced hs) _ _
  obtain ⟨base, p, s₀, s', body, pdus, -, hst, -, hrep, heq⟩ := handle_replied ha hlt (by omega)
  obtain ⟨hok, -, -⟩ := (plan_blocks_iff hlt (by omega) lv hc ha.positive).mpr hserved
  rw [hok, if_pos rfl] at heq
  refine ⟨_, .cork :: (body ++ [.uncork]), heq, ?_, ?_⟩
  · rw [Session.push_sendtask, hrep.sendtask, hst]
    simp
  · have hplan := plan_dataOf_delivered hix hs hdisk hf (show 0 < h.transferMrds by omega) (by omega)
      ha.positive hserved
    have hbody := hf.group body
    rw [hrep.group, List.flatMap_nil, List.nil_append] at hbody
    rw [List.flatMap_cons, List.flatMap_append, hf.cork, List.flatMap_singleton, hf.uncork,
      List.nil_append,
      List.append_nil, hbody, ← hplan, ← List.flatMap_map, hrep.data]
    rfl

end Cache

/-- In every run whose pushes are all mergeable, a READ delivers the bytes that
were pushed last, as long as each of its PDUs is served in place. -/
theorem read_your_writes (hix : ix.Lawful) {disk₀ : Nat → UInt8} {s : State B ix}
    (hr : Runs.Reachable (start disk₀) (step mem) Mergeable s) (h : ReadHandler)
    (hmrds : 0 < h.byteMrds ∧ 512 ∣ h.byteMrds ∧ h.byteMrds < 2 ^ 24) {ses : Session B ix}
    {bhs : Header} {lv : LogicalVolume} (ha : Accepted ses bhs lv s.cache)
    (hserved : cacheOf s.cache bhs = [] ∨
      AllServed (cacheOf s.cache bhs) h.transferMrds (lbaOf bhs) (lengthOf bhs)) :
    Reads mem s.disk h ses bhs (expected mem disk₀ s.pushed) := by
  obtain ⟨popped, org, hs⟩ := synced_of_reachable hix hr
  exact reads_of_synced hix hs (fun _ => hs.read_disk) hmrds ha (delivers_deliver lv _ _) hserved

section Sample

def sampleMem (_ : Unit) (i : Nat) : UInt8 := UInt8.ofNat (i / 16)

/-- One block of the three is in the cache. -/
theorem reads_one_block : Reads sampleMem (fun _ => 0) ⟨8192⟩
    (sampleSession (WriteCache.init.push (sampleSegment 2 1 48))) (sampleRead 0 3)
    (expected sampleMem (fun _ => 0) [sampleSegment 2 1 48]) := by
  have hf : (sampleSegment 2 1 48).Filled := filled_sampleSegment (by decide) (by decide)
  have hok : WriteBack.Mergeable (start fun _ => 0 : State Unit LbaIndex.ofList) (.push _ hf) := by
    rintro p (hp : p ∈ [])
    cases hp
  have hr : Runs.Reachable (start fun _ => 0) (step sampleMem) Mergeable
      (⟨WriteCache.init.push (sampleSegment 2 1 48), fun _ => 0, .idle, [sampleSegment 2 1 48]⟩ :
        State Unit LbaIndex.ofList) :=
    @Runs.Reachable.step _ _ _ _ _ _ (.push _ hf) _ .start hok rfl
  exact read_your_writes LbaIndex.lawful_ofList hr ⟨8192⟩ (by decide)
    (accepted_sampleRead _ (by decide) (by decide))
    (.inr ((allServed_last (by decide) (by decide)).mpr ⟨by decide, by decide, by simp⟩))

/-- A push into the middle of a segment that does not begin at offset 0 of its
buffer: the copy behind it is read from the wrong offset. -/
theorem not_reads_split :
    let c : WriteCache Unit LbaIndex.ofList :=
      (WriteCache.init.push (sampleSegment 5 3 48)).push (sampleSegment 6 1 0)
    Runs.Reachable (start fun _ => 0) (step sampleMem) (fun _ _ => True)
        ⟨c, fun _ => 0, .idle, [sampleSegment 5 3 48, sampleSegment 6 1 0]⟩ ∧
      Accepted (sampleSession c) (sampleRead 7 1) sampleVolume c ∧
      ¬ Reads sampleMem (fun _ => 0) ⟨8192⟩ (sampleSession c) (sampleRead 7 1)
        (expected sampleMem (fun _ => 0) [sampleSegment 5 3 48, sampleSegment 6 1 0]) := by
  intro c
  have h₁ : (sampleSegment 5 3 48).Filled := filled_sampleSegment (by decide) (by decide)
  have h₂ : (sampleSegment 6 1 0).Filled := filled_sampleSegment (by decide) (by decide)
  refine ⟨@Runs.reachable_of_exec _ _ _ _ _ _ [.push _ h₁, .push _ h₂] .start rfl,
    accepted_sampleRead _ (by decide) (by decide), ?_⟩
  rintro ⟨ses', body, heq, hst, hdel⟩
  have hhead : ((⟨8192⟩ : ReadHandler).handle (sampleSession c) (sampleRead 7 1)).map (fun r =>
      (delivered sampleMem (fun _ => 0) r.2.sendtask).head?) = some (some 64) := by decide +kernel
  rw [heq, Option.map_some, hst, show (sampleSession c).sendtask = [] from rfl, List.nil_append,
    hdel] at hhead
  exact absurd hhead (by decide +kernel)

end Sample

end Sstoraged.ReadYourWrites
