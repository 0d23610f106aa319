import Sstoraged.ReadFormat
import Sstoraged.Runs

namespace Sstoraged.SendQueue

open ReadHandler ReadTiling ReadPlan ReadReply ReadFormat WriteCache

variable {B : Type} {ix : LbaIndex}

/-- The socket takes every byte and the files hold every byte. -/
structure Full (k : Kernel) : Prop where
  writev : ∀ n len, k.writev n len = len
  sendfile : ∀ n len, k.sendfile n len = len

/-- The handler ends, and the tasks that it queues are all run to their end. -/
def Drains (k : Kernel) (h : ReadHandler) (ses : Session B ix) (bhs : Header) : Prop :=
  ∃ ok ses' body, h.handle ses bhs = some (ok, ses') ∧ ses'.sendtask = ses.sendtask ++ body ∧
    ∀ n, invoke k n ses'.bufs body = ([], ses'.bufs)

/-- A task that has something to send, all of it at hand. -/
def Sendable (bufs : Nat → CommonBuf) : Task B → Prop
  | .cork => True
  | .uncork => True
  | .send t => 0 < t.offered bufs
  | .sendfile t => 0 < t.remain
  | .sendCache t => 0 < t.totalRemain ∧ t.offered = t.totalRemain

section Invoke

variable {k : Kernel} {bufs : Nat → CommonBuf}

theorem runHandles_full (hk : Full k) (lhs : List LowHandle) (n : Nat) (t : SendfileTask) :
    (SendfileTask.runHandles k lhs n t).1 = true := by
  induction lhs generalizing n t with
  | nil => rfl
  | cons h lhs ih =>
    have hneg : ¬ (h.length : Int) < 0 := by omega
    rw [SendfileTask.runHandles, hk.sendfile]
    simp [hneg, ih]

theorem run_sendable (hk : Full k) (n : Nat) {t : Task B} (ht : Sendable bufs t) :
    (t.run k n bufs).1 = true ∧ (t.run k n bufs).2.2.1 = bufs := by
  cases t with
  | cork => exact ⟨rfl, rfl⟩
  | uncork => exact ⟨rfl, rfl⟩
  | send t =>
    have hpos : 0 < t.offered bufs := ht
    have hne : t.cbufs.isEmpty = false := by
      cases hc : t.cbufs with
      | nil => simp [SendTask.offered, hc] at hpos
      | cons => rfl
    simp [Task.run, SendTask.run, SendTask.runLoop, hne, hk.writev, hpos.ne']
  | sendfile t =>
    have hpos : 0 < t.remain := ht
    simp [Task.run, SendfileTask.run, hpos, runHandles_full hk]
  | sendCache t =>
    have hrun := SendCache.run_full hk.writev n t ht.2
    simp [Task.run, hrun, ht.1]

theorem invoke_sendable (hk : Full k) (n : Nat) (tasks : List (Task B))
    (h : ∀ t ∈ tasks, Sendable bufs t) : invoke k n bufs tasks = ([], bufs) := by
  induction tasks generalizing n with
  | nil => rfl
  | cons t tasks ih =>
    obtain ⟨ht, hts⟩ := List.forall_mem_cons.mp h
    obtain ⟨hd, hb⟩ := run_sendable hk n ht
    rw [invoke]
    rcases hr : t.run k n bufs with ⟨done, t', bufs', n'⟩
    simp only [hr] at hd hb
    subst hd hb
    exact ih n' hts

end Invoke

/-- The live range lies inside the range to WRITE, and the buffers hold that. -/
structure Sane (ws : WriteSegment B) : Prop where
  head : ws.lba ≤ ws.rlba
  tail : ws.rtail ≤ ws.tail
  fits : ws.transferLength < 2 ^ 32
  enough : 512 * ws.transferLength ≤ BufferChain.capacity commonBufSize ws.cbufs ws.dsOffset

section Cache

/-- What may happen to a cache. -/
inductive Change (B : Type)
  | push (ws : WriteSegment B) (filled : ws.Filled)
  | front
  | pop

def change (c : WriteCache B ix) : Change B → Option (WriteCache B ix)
  | .push ws _ => some (c.push ws)
  | .front => some c.front.2
  | .pop => some c.pop

theorem Sane.rlength_lt {ws : WriteSegment B} (h : Sane ws) : ws.rlength < 2 ^ 32 := by
  have h₁ := h.head
  have h₂ := h.tail
  have h₃ := h.fits
  unfold WriteSegment.rtail WriteSegment.tail at h₂
  omega

theorem Sane.shrink {ws : WriteSegment B} (h : Sane ws) (n : Nat) :
    Sane { ws with rlength := ws.rlength - n } := by
  have h₂ := h.tail
  refine ⟨h.head, ?_, h.fits, h.enough⟩
  show ws.rlba + (ws.rlength - n) ≤ ws.tail
  unfold WriteSegment.rtail at h₂
  omega

theorem capacity_le (cap : Nat) (bs : List B) (off : Nat) :
    BufferChain.capacity cap bs off ≤ BufferChain.capacity cap bs 0 := by
  cases bs with
  | nil => rfl
  | cons b bs =>
    simp only [BufferChain.capacity]
    omega

theorem sane_of_filled {ws : WriteSegment B} (h : ws.Filled) : Sane ws := by
  have henough := h.enough
  rw [lba2Offset_eq] at henough
  refine ⟨h.whole.1.ge, ?_, h.fits, henough⟩
  unfold WriteSegment.rtail WriteSegment.tail
  rw [h.whole.1, h.whole.2]

theorem sane_pushBack {c : WriteCache B ix} (h : ∀ p, Sane (c.ws p)) {ws : WriteSegment B}
    (hw : Sane ws) (p : Nat) : Sane ((c.pushBack ws).ws p) := by
  rw [pushBack_ws, Function.update_apply]
  split
  · exact hw
  · exact h p

theorem sane_modify {c : WriteCache B ix} (h : ∀ p, Sane (c.ws p)) {p : Nat}
    {f : WriteSegment B → WriteSegment B} (hf : Sane (f (c.ws p))) (q : Nat) :
    Sane ((c.modify p f).ws q) := by
  rw [modify_ws, Function.update_apply]
  split
  · exact hf
  · exact h q

/-- The copy that a split makes stays inside the range to WRITE, even where it
is not the part behind the new segment. -/
theorem sane_split {ws : WriteSegment B} (h : Sane ws) {n : Nat} (h₁ : ws.rlba < n)
    (h₂ : n < ws.rtail) : Sane { ws.copyOf with
      rlba := ws.copyOf.lba + n - ws.rlba, rlength := ws.rtail - n } := by
  have hhead := h.head
  have htail := h.tail
  have henough := h.enough
  refine ⟨?_, ?_, h.fits, henough.trans (capacity_le _ _ _)⟩
  · show ws.lba ≤ ws.lba + n - ws.rlba
    omega
  · show ws.lba + n - ws.rlba + (ws.rtail - n) ≤ ws.tail
    omega

theorem sane_pushHit {c : WriteCache B ix} (h : ∀ p, Sane (c.ws p)) (w : WriteSegment B) (p q : Nat) :
    Sane ((pushHit w c p).ws q) := by
  have hp := h p
  have htail := hp.tail
  have hrt : (c.ws p).rtail = (c.ws p).rlba + (c.ws p).rlength := rfl
  simp only [pushHit]
  split
  · refine sane_modify h ?_ q
    have hz := hp.shrink (c.ws p).rlength
    rwa [Nat.sub_self] at hz
  split
  · rename_i _ hsplit
    exact sane_modify (sane_pushBack h (sane_split hp (by omega) (by omega)))
      (Sane.shrink (sane_pushBack h (sane_split hp (by omega) (by omega)) p) _) q
  split
  · exact sane_modify h (hp.shrink _) q
  split
  · refine sane_modify h ⟨?_, ?_, hp.fits, hp.enough⟩ q
    · have hhead := hp.head
      show (c.ws p).lba ≤ (c.ws p).rlba + _
      omega
    · show (c.ws p).rlba + min _ (c.ws p).rlength + ((c.ws p).rlength - min _ (c.ws p).rlength) ≤ _
      show _ ≤ (c.ws p).tail
      omega
  · exact h q

theorem sane_push {c : WriteCache B ix} (h : ∀ p, Sane (c.ws p)) {w : WriteSegment B}
    (hw : w.Filled) (q : Nat) : Sane ((c.push w).ws q) := by
  have hloop : ∀ (ps : List Nat) (c : WriteCache B ix), (∀ p, Sane (c.ws p)) →
      ∀ p, Sane ((ps.foldl (pushHit w) c).ws p) := by
    intro ps
    induction ps with
    | nil => exact fun _ h => h
    | cons p ps ih => exact fun c h => ih _ fun q => sane_pushHit h w p q
  exact sane_pushBack (hloop _ c h) (sane_of_filled hw) q

theorem sane_of_reachable {c : WriteCache B ix}
    (h : Runs.Reachable WriteCache.init change (fun _ _ => True) c) (p : Nat) : Sane (c.ws p) := by
  refine h.invariant (fun c => ∀ p, Sane (c.ws p)) (fun _ => ?_) (fun c e c' hc _ hs => ?_) p
  · exact ⟨le_rfl, le_rfl, by simp [WriteCache.init, WriteSegment.new], Nat.zero_le _⟩
  · cases e with
    | push ws filled =>
      cases hs
      exact sane_push hc filled
    | front =>
      cases hs
      intro q
      rw [front_ws]
      exact hc q
    | pop =>
      cases hs
      rw [pop_ws]
      exact hc

end Cache

section Read

variable {bufs : Nat → CommonBuf}

/-- The hits up to the one that reaches the end of the range end one behind the other. -/
def Rising (r e : Nat) (hits : List (WriteSegment B)) : Prop :=
  (r :: (innerHits e hits).map WriteSegment.rtail).IsChain (· < ·)

instance (r e : Nat) (hits : List (WriteSegment B)) : Decidable (Rising r e hits) :=
  inferInstanceAs (Decidable (List.IsChain _ _))

/-- No PDU of the reply queues a task without bytes: the hits of each PDU end
one behind the other, and the one that reaches its end begins before it. A PDU
begins where the hits of the last one leave the cursor. -/
def Unblocked (cache : List (WriteSegment B)) (m : Nat) : Nat → Nat → Nat → Prop
  | 0, _, _ => True
  | fuel + 1, lba, tl =>
    let hits := getHitSegments cache lba (min tl m)
    let e := lba + min tl m
    hits = [] ∨ (Rising lba e hits ∧ (∀ h, edge e hits = some h → h.rlba < e) ∧
      (tl ≤ m ∨ Unblocked cache m fuel (cursor lba e hits) (tl - m)))

theorem rising_cons_inner {r e : Nat} {h : WriteSegment B} {hits : List (WriteSegment B)}
    (hc : h.rtail < e) : Rising r e (h :: hits) ↔ r < h.rtail ∧ Rising h.rtail e hits := by
  rw [Rising, innerHits_cons, if_pos hc, List.map_cons, List.isChain_cons_cons, Rising]

theorem inOrder_of_rising {e : Nat} (hits : List (WriteSegment B)) {r : Nat} (h : Rising r e hits) :
    InOrder r e hits := by
  induction hits generalizing r with
  | nil => exact ⟨by simp [innerHits], by simp [innerHits]⟩
  | cons k hits ih =>
    by_cases hc : k.rtail < e
    · obtain ⟨h₁, h₂⟩ := (rising_cons_inner hc).mp h
      exact (inOrder_cons_inner hc).mpr ⟨h₁.le, ih h₂⟩
    · exact inOrder_cons_edge hc

theorem sendable_sendfile (lv : LogicalVolume) {lba n : Nat} (hn : 0 < n) :
    Sendable bufs (.sendfile (SendfileTask.new lv lba n) : Task B) := by
  show 0 < lba2Offset n
  rw [lba2Offset_eq]
  omega

theorem sendable_sendCache {h : WriteSegment B} (hs : Sane h) {lba n : Nat} (hlba : h.rlba ≤ lba)
    (htail : lba + n ≤ h.rtail) (hn : 0 < n) :
    Sendable bufs (.sendCache (SendCacheTask.new h lba n)) := by
  have hhead := hs.head
  have ht := hs.tail
  refine ⟨?_, SendCache.offered_new h lba n (by omega) (by omega) hn hs.enough⟩
  rw [SendCache.totalRemain_new]
  omega

theorem sendCache_sendable (lv : LogicalVolume) (hits : List (WriteSegment B)) (r e : Nat) (hr : r < e)
    (he : e - r < 2 ^ 17) (hs : ∀ h ∈ hits, Sane h ∧ 0 < h.rlength) (hm : Meeting e hits)
    (hrise : Rising r e hits) (hedge : ∀ h, edge e hits = some h → h.rlba < e) :
    ∀ t ∈ (sendCache lv hits r (e - r)).1, Sendable bufs t := by
  induction hits generalizing r with
  | nil =>
    rw [sendCache, if_pos (by omega)]
    simpa using sendable_sendfile lv (by omega)
  | cons h hits ih =>
    obtain ⟨hsane, hpos⟩ := hs h (by simp)
    obtain ⟨hle, hlt⟩ := hm h (by simp)
    have hs' : ∀ k ∈ hits, Sane k ∧ 0 < k.rlength := fun k hk => hs k (List.mem_cons_of_mem _ hk)
    have hm' : Meeting e hits := fun k hk => hm k (List.mem_cons_of_mem _ hk)
    have hrt : h.rtail = h.rlba + h.rlength := rfl
    by_cases hi : h.rtail < e
    · obtain ⟨hc, hrise'⟩ := (rising_cons_inner hi).mp hrise
      have hedge' : ∀ k, edge e hits = some k → k.rlba < e := by
        rwa [edge_cons, if_pos hi] at hedge
      have hmin : min h.rtail e = h.rtail := by omega
      have hrest := ih h.rtail hi (by omega) hs' hm' hrise' hedge'
      rw [sendCache_cons lv hr (by omega) hle hlt hc.le, hmin]
      split
      · exact List.forall_mem_cons.mpr
          ⟨sendable_sendCache hsane (by omega) (by omega) (by omega), hrest⟩
      · rw [if_neg (by omega)]
        exact List.forall_mem_cons.mpr ⟨sendable_sendfile lv (by omega), List.forall_mem_cons.mpr
          ⟨sendable_sendCache hsane le_rfl hrt.ge hpos, hrest⟩⟩
    · have hlte : h.rlba < e := hedge h (by rw [edge_cons, if_neg hi])
      have hmin : min h.rtail e = e := by omega
      rw [sendCache_cons lv hr (by omega) hle hlt (by omega), hmin, Nat.sub_self, sendCache_done]
      split
      · simpa using sendable_sendCache hsane (by omega) (by omega) (by omega)
      · rw [if_pos (by omega)]
        simpa using ⟨sendable_sendfile lv (by omega),
          sendable_sendCache hsane le_rfl (by omega) (by omega)⟩

theorem plan_sendable (lv : LogicalVolume) {cache : List (WriteSegment B)}
    (hs : ∀ h ∈ cache, Sane h ∧ 0 < h.rlength) {m : Nat} (hm : 0 < m) (hm' : m < 2 ^ 17)
    (fuel lba tl : Nat) (htl : 0 < tl) (hu : Unblocked cache m fuel lba tl) :
    ∀ ts ∈ (plan m (hitData lv cache) fuel lba tl).2, ∀ t ∈ ts, Sendable bufs t := by
  have hc : Cached cache := fun h hh => ⟨(hs h hh).2, (hs h hh).1.rlength_lt⟩
  induction fuel generalizing lba tl with
  | zero => simp [plan]
  | succ fuel ih =>
    obtain ⟨n, hn⟩ : ∃ n, n = min tl m := ⟨_, rfl⟩
    have hee : lba + n - lba = n := by omega
    rw [plan, ← hn]
    cases hd : hitData lv cache lba n with
    | none => simp
    | some r =>
      obtain ⟨ts, b⟩ := r
      simp only [Unblocked, ← hn] at hu
      obtain ⟨hne, -⟩ := hitData_length hc (by omega) (by omega) hd
      obtain ⟨hrise, hedge, hnext⟩ := hu.resolve_left hne
      have hmeet := meeting_getHitSegments hc (Nat.le_add_right lba n)
      rw [hee] at hmeet
      have hts := @sendCache_sendable _ bufs lv _ lba (lba + n) (by omega) (by omega)
        (fun h hh => hs h ((mem_getHitSegments hc).mp hh).1) hmeet hrise hedge
      have htiles := (sendCache_tiles lv _ lba (lba + n) (by omega) (by omega) hmeet
        (inOrder_of_rising _ hrise)).2
      rw [hee] at hts htiles
      simp only [hitData] at hd
      split at hd
      · cases hd
      simp only [Option.some.injEq] at hd
      rw [hd] at hts htiles
      dsimp only
      split
      · simpa using hts
      · rename_i hlast
        rw [← htiles] at hnext
        exact List.forall_mem_cons.mpr ⟨hts, ih b (tl - m) (by omega) (hnext.resolve_left hlast)⟩

theorem plan_missData_sendable (lv : LogicalVolume) {m : Nat} (hm : 0 < m) (fuel lba tl : Nat)
    (htl : 0 < tl) :
    ∀ ts ∈ (plan m (missData lv : Nat → Nat → Option (List (Task B) × Nat)) fuel lba tl).2,
      ∀ t ∈ ts, Sendable bufs t := by
  induction fuel generalizing lba tl with
  | zero => simp [plan]
  | succ fuel ih =>
    have hpos : 0 < min tl m := by omega
    simp only [plan, missData]
    split
    · simpa using sendable_sendfile lv hpos
    · exact List.forall_mem_cons.mpr
        ⟨by simpa using sendable_sendfile lv hpos, ih _ _ (by omega)⟩

theorem mem_group {t : Task B} (ts : List (Task B)) (h : t ∈ ts) :
    t ∈ (group ts).1 ∨ ∃ q ∈ (group ts).2, t = .send q.1 ∨ t ∈ q.2 := by
  induction ts with
  | nil => cases h
  | cons u ts ih =>
    rcases List.mem_cons.mp h with rfl | h
    · cases t <;> simp [group]
    · have hih := ih h
      cases u with
      | send v =>
        refine .inr ?_
        rcases hih with hih | ⟨q, hq, hih⟩
        · exact ⟨_, List.mem_cons_self, .inr hih⟩
        · exact ⟨q, List.mem_cons_of_mem _ hq, hih⟩
      | _ => exact hih.imp (List.mem_cons_of_mem _) id

/-- In every state of the cache, a READ without empty tasks leaves nothing
behind in the queue, whether it succeeds or fails. -/
theorem queue_drains {c : WriteCache B ix}
    (hr : Runs.Reachable WriteCache.init change (fun _ _ => True) c) (h : ReadHandler)
    (hmrds : 0 < h.byteMrds ∧ 512 ∣ h.byteMrds ∧ h.byteMrds < 2 ^ 24) {ses : Session B ix}
    {bhs : Header} {lv : LogicalVolume} (ha : Accepted ses bhs lv c)
    (hu : Unblocked (cacheOf c bhs) h.transferMrds (lengthOf bhs) (lbaOf bhs) (lengthOf bhs))
    {k : Kernel} (hk : Full k) : Drains k h ses bhs := by
  obtain ⟨hpos, hdvd, hlt⟩ := hmrds
  have hbm : h.transferMrds = h.byteMrds / 512 := offset2Lba_eq _
  have hs : ∀ ws ∈ cacheOf c bhs, Sane ws ∧ 0 < ws.rlength := fun ws hws => by
    obtain ⟨p, hp, rfl⟩ := List.mem_map.mp hws
    exact ⟨sane_of_reachable hr p, (mem_search hp).2.1⟩
  obtain ⟨base, p, s₀, s', body, pdus, -, hst, hbuf, hrep, heq⟩ := handle_replied ha hlt (by omega)
  have hdata : ∀ ts ∈ (plan h.transferMrds (dataOf lv (cacheOf c bhs)) (lengthOf bhs) (lbaOf bhs)
      (lengthOf bhs)).2, ∀ t ∈ ts, Sendable s'.bufs t := by
    unfold dataOf
    split
    · exact plan_missData_sendable lv (by omega) _ _ _ ha.positive
    · exact plan_sendable lv hs (by omega) (by omega) _ _ _ ha.positive hu
  have hbody : ∀ t ∈ body, Sendable s'.bufs t := fun t ht => by
    have hg := mem_group body ht
    rw [hrep.group] at hg
    obtain ⟨q, hq, rfl | hqt⟩ := hg.resolve_left List.not_mem_nil
    · have hsize := (hrep.size (.inr (by omega)) hbuf q hq).2
      show 0 < q.1.offered s'.bufs
      omega
    · exact hdata q.2 (hrep.data ▸ List.mem_map_of_mem hq) t hqt
  have hq : s'.sendtask = ses.sendtask ++ .cork :: body := by
    rw [hrep.sendtask, hst, List.append_assoc]
    rfl
  split at heq
  · refine ⟨true, _, .cork :: (body ++ [.uncork]), heq, ?_, fun n => invoke_sendable hk n _ ?_⟩
    · rw [Session.push_sendtask, hq]
      simp
    · simpa [or_imp, forall_and, Sendable] using hbody
  · refine ⟨false, _, .cork :: body, heq, hq, fun n => invoke_sendable hk n _ ?_⟩
    exact List.forall_mem_cons.mpr ⟨trivial, hbody⟩

end Read

section Sample

def sampleKernel : Kernel := ⟨fun _ len => len, fun _ len => len⟩

theorem full_sampleKernel : Full sampleKernel := ⟨fun _ _ => rfl, fun _ _ => rfl⟩

/-- The cached block lies in the middle of the only PDU. -/
theorem drains_one_block : Drains sampleKernel ⟨8192⟩
    (sampleSession (WriteCache.init.push (sampleSegment 1 1 0))) (sampleRead 0 3) := by
  have hf : (sampleSegment 1 1 0).Filled := filled_sampleSegment (by decide) (by decide)
  refine queue_drains (.step .start trivial (show change _ (.push _ hf) = _ from rfl)) ⟨8192⟩
    (by decide) (accepted_sampleRead _ (by decide) (by decide)) ?_ full_sampleKernel
  refine .inr ⟨by decide, fun h hh => ?_, .inl (by decide)⟩
  cases (show (none : Option (WriteSegment Unit)) = some h from hh)

/-- The cached block lies right behind the first PDU, which queues a task
without bytes for it. -/
theorem not_drains_next_block :
    let c : WriteCache Unit LbaIndex.ofList := WriteCache.init.push (sampleSegment 1 1 0)
    Runs.Reachable WriteCache.init change (fun _ _ => True) c ∧
      Accepted (sampleSession c) (sampleRead 0 3) sampleVolume c ∧ Full sampleKernel ∧
      ¬ Drains sampleKernel ⟨512⟩ (sampleSession c) (sampleRead 0 3) := by
  intro c
  have hf : (sampleSegment 1 1 0).Filled := filled_sampleSegment (by decide) (by decide)
  refine ⟨.step .start trivial (show change _ (.push _ hf) = _ from rfl),
    accepted_sampleRead _ (by decide) (by decide), full_sampleKernel, ?_⟩
  rintro ⟨ok, ses', body, heq, hst, hinv⟩
  have hleft : ((⟨512⟩ : ReadHandler).handle (sampleSession c) (sampleRead 0 3)).map (fun r =>
      (invoke sampleKernel 0 r.2.bufs r.2.sendtask).1.isEmpty) = some false := by decide +kernel
  rw [heq, Option.map_some, hst, show (sampleSession c).sendtask = [] from rfl, List.nil_append,
    hinv] at hleft
  cases hleft

end Sample

end Sstoraged.SendQueue
