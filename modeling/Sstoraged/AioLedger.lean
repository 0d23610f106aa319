import Mathlib.Algebra.Order.Group.Multiset
import Mathlib.Tactic.Abel
import Sstoraged.AioIocbs
import Sstoraged.AioQueue
import Sstoraged.Runs

namespace Sstoraged.AioLedger

open WriteCache AioDiskWriter AioQueue AioIocbs

variable {B : Type} {ix : LbaIndex} {mem : B → Nat → UInt8} {handles : List (Nat × LowHandle)}

/-- The writes that finished in full. -/
def full (es : List (Iocb B × Int)) : List (Iocb B) :=
  (es.filter fun e => decide (e.2 = e.1.nbytes)).map Prod.fst

/-- Every write that was submitted. -/
def prepared (s : State B ix) : List (Iocb B) := s.submitted.flatMap Prod.snd

/-- The writes whose fate is known. -/
def traced (s : State B ix) : Multiset (Iocb B) :=
  (s.flight : Multiset (Iocb B)) + full s.done + full s.batch + s.reported + s.failed

/-- The queues against the history, whatever the kernel answers. -/
structure Ledger (handles : List (Nat × LowHandle)) (s : State B ix) : Prop where
  ascending : Ascending s.cache
  queue : s.pushed.map Prod.fst = s.popped ++ originals s.cache
  keys : (s.pushed.map Prod.fst ++ [s.cache.next]).Pairwise (· < ·)
  same : ∀ r ∈ s.pushed, Same r.2 (s.cache.ws r.1) ∧ r.2.Filled
  entries : s.submitted.length = s.popped.length + s.iocbsSizes.length
  plan : ∀ (j : Nat) r, s.submitted[j]? = some r →
    ∃ w, s.pushed[j]? = some (r.1, w) ∧ prepare handles r.1 w = some r.2
  current : s.writer = true → s.currentWs = s.submitted.getLast?.map Prod.fst
  positive : ∀ n ∈ s.iocbsSizes, 0 < n
  total : s.iocbsTotal = s.iocbsSizes.sum
  counted : (prepared s).length = s.iocbsTotal + s.reported.length
  traced : traced s ≤ (prepared s : Multiset (Iocb B))

@[simp] theorem full_nil : full ([] : List (Iocb B × Int)) = [] := rfl

theorem full_cons (e : Iocb B × Int) (es : List (Iocb B × Int)) :
    full (e :: es) = if e.2 = e.1.nbytes then e.1 :: full es else full es := by
  by_cases h : e.2 = e.1.nbytes <;> simp [full, h]

theorem full_append (es fs : List (Iocb B × Int)) : full (es ++ fs) = full es ++ full fs := by
  simp [full]

theorem full_perm {es fs : List (Iocb B × Int)} (h : es.Perm fs) : (full es).Perm (full fs) :=
  (h.filter _).map _

theorem prepare_congr {w e : WriteSegment B} (h : Same w e) (p : Nat) :
    prepare handles p e = prepare handles p w := by
  simp only [prepare, h.lba, h.transferLength, h.cbufs, h.dsOffset]

theorem pick_perm {α : Type} {ks : List Nat} {l xs r : List α} (h : pick ks l = some (xs, r)) :
    (xs ++ r).Perm l := by
  induction ks generalizing l xs r with
  | nil =>
    cases h
    exact List.Perm.refl _
  | cons k ks ih =>
    rw [pick] at h
    split at h
    · cases h
    rename_i x hx
    obtain ⟨r', hr, he⟩ := Option.map_eq_some_iff.mp h
    cases he
    obtain ⟨hk, rfl⟩ := List.getElem?_eq_some_iff.mp hx
    exact ((ih hr).cons _).trans (List.getElem_cons_eraseIdx_perm hk)

theorem submit_cases {s s' : State B ix} {res : Int} (h : submit handles s res = some s') :
    s.writer = true ∧ s.iocbsTotal < iocbMax ∧
    ∃ p cache, s.cache.getNext s.currentWs = some (p, cache) ∧
      ((prepare handles p (cache.ws p) = none ∧
          s' = { s with cache, currentWs := some p, writer := false }) ∨
        ∃ is, prepare handles p (cache.ws p) = some is ∧ s' = { s with
          cache, currentWs := some p
          iocbsSizes := s.iocbsSizes ++ [is.length]
          iocbsTotal := s.iocbsTotal + is.length
          flight := s.flight ++ is.take res.toNat
          failed := s.failed ++ is.drop res.toNat
          submitted := s.submitted ++ [(p, is)] }) := by
  simp only [submit] at h
  split at h
  swap
  · cases h
  rename_i hw
  split at h
  · cases h
  rename_i p cache hn
  refine ⟨hw.1, hw.2, p, cache, hn, ?_⟩
  split at h
  · rename_i hp
    cases h
    exact .inl ⟨hp, rfl⟩
  · rename_i is hp
    cases h
    exact .inr ⟨is, hp, rfl⟩

theorem finish_cases {s s' : State B ix} {k : Nat} {res : Int} {junk : Disk}
    (h : finish mem s k res junk = some s') :
    ∃ i, s.flight[k]? = some i ∧ s' = { s with
      flight := s.flight.eraseIdx k
      done := s.done ++ [(i, res)]
      disk := land (if i.ws ∈ s.cache.fifo then i.data mem else junk)
        (i.places (min res.toNat i.nbytes)) s.disk
      failed := if res = i.nbytes then s.failed else s.failed ++ [i] } := by
  simp only [finish] at h
  split at h
  · cases h
  · rename_i i hi
    cases h
    exact ⟨i, hi, rfl⟩

theorem getEvents_cases {s s' : State B ix} {ks : List Nat} (h : getEvents s ks = some s') :
    s.listener = true ∧ s.batch = [] ∧ ∃ batch done, pick ks s.done = some (batch, done) ∧
      s' = { s with batch, done } := by
  simp only [getEvents] at h
  split at h
  swap
  · cases h
  rename_i hl
  split at h
  · cases h
  · rename_i batch done hp
    cases h
    exact ⟨hl.1, hl.2.2.1, batch, done, hp, rfl⟩

theorem event_cases {s s' : State B ix} (h : event s = some s') :
    ∃ i res batch size sizes, s.batch = (i, res) :: batch ∧ s.iocbsSizes = size :: sizes ∧
      ((res ≠ i.nbytes ∧ s' = { s with listener := false, batch := [] }) ∨
        (res = i.nbytes ∧ s.iocbsTotal ≠ 0 ∧ size - 1 = 0 ∧ s' = { s with
          batch, iocbsTotal := s.iocbsTotal - 1, reported := s.reported ++ [i]
          cache := s.cache.front.2.pop, iocbsSizes := sizes
          popped := s.popped ++ s.cache.front.1.toList }) ∨
        (res = i.nbytes ∧ s.iocbsTotal ≠ 0 ∧ size - 1 ≠ 0 ∧ s' = { s with
          batch, iocbsTotal := s.iocbsTotal - 1, reported := s.reported ++ [i]
          iocbsSizes := (size - 1) :: sizes })) := by
  simp only [event] at h
  split at h
  swap
  · cases h
  rename_i i res batch size sizes hb hs
  refine ⟨i, res, batch, size, sizes, hb, hs, ?_⟩
  split at h
  · rename_i hne
    cases h
    exact .inl ⟨fun he => hne he.symm, rfl⟩
  rename_i heq
  have hres : res = i.nbytes := (not_not.mp heq).symm
  split at h
  · cases h
  rename_i ht
  split at h
  · rename_i hz
    cases h
    exact .inr (.inl ⟨hres, ht, hz, rfl⟩)
  · rename_i hz
    cases h
    exact .inr (.inr ⟨hres, ht, hz, rfl⟩)

section Facts

variable {s : State B ix}

theorem Ledger.key_lt (h : Ledger handles s) {r : Nat × WriteSegment B} (hr : r ∈ s.pushed) :
    r.1 < s.cache.next :=
  (List.pairwise_append.mp h.keys).2.2 r.1 (List.mem_map_of_mem hr) s.cache.next (by simp)

theorem Ledger.nodup (h : Ledger handles s) : (s.pushed.map Prod.fst).Nodup :=
  (List.pairwise_append.mp h.keys).1.imp fun hpq => hpq.ne

theorem Ledger.original (h : Ledger handles s) {r : Nat × WriteSegment B} (hr : r ∈ s.pushed) :
    (s.cache.ws r.1).copy = false := by
  obtain ⟨hs, hf⟩ := h.same r hr
  rw [hs.copy, hf.original]

theorem pushed_of_key {j p : Nat} (h : (s.pushed.map Prod.fst)[j]? = some p) :
    ∃ w, s.pushed[j]? = some (p, w) := by
  rw [List.getElem?_map] at h
  obtain ⟨r, hr, rfl⟩ := Option.map_eq_some_iff.mp h
  exact ⟨r.2, hr⟩

theorem Ledger.next (h : Ledger handles s) (hw : s.writer = true) {p : Nat} {cache : WriteCache B ix}
    (hn : s.cache.getNext s.currentWs = some (p, cache)) :
    ∃ w, s.pushed[s.submitted.length]? = some (p, w) := by
  apply pushed_of_key
  have hent := h.entries
  have hcur := h.current hw
  cases hl : s.submitted.getLast? with
  | none =>
    have hnil : s.submitted = [] := List.getLast?_eq_none_iff.mp hl
    rw [hl] at hcur
    have hp : s.popped = [] := by
      apply List.eq_nil_of_length_eq_zero
      rw [hnil, List.length_nil] at hent
      omega
    have hh := getNext_front (by simp [hcur]) hn
    rw [h.queue, hp, hnil, List.nil_append, List.length_nil, ← List.head?_eq_getElem?]
    exact hh
  | some r =>
    rw [hl, Option.map_some] at hcur
    rw [List.getLast?_eq_getElem?] at hl
    obtain ⟨w, hpw, -⟩ := h.plan _ r hl
    have hlen := (List.getElem?_eq_some_iff.mp hl).1
    have hkey : (s.pushed.map Prod.fst)[s.submitted.length - 1]? = some r.1 := by
      rw [List.getElem?_map, hpw]
      rfl
    have hcopy := h.original (List.mem_of_getElem? hpw)
    by_cases hq : r.1 ∈ s.cache.fifo
    · rw [hcur] at hn
      obtain ⟨l, rest, ho, hh⟩ := getNext_behind hq hcopy hn
      have hsplit : s.pushed.map Prod.fst = (s.popped ++ l) ++ r.1 :: rest := by
        rw [h.queue, ho, List.append_assoc]
      have hidx : s.submitted.length - 1 = (s.popped ++ l).length := by
        apply (List.getElem?_inj (List.getElem?_eq_some_iff.mp hkey).1 h.nodup).mp
        rw [hkey, hsplit]
        simp
      have hnext : s.submitted.length = (s.popped ++ l).length + 1 := by omega
      rw [hnext, hsplit, List.getElem?_append_right (by omega), Nat.add_sub_cancel_left,
        List.getElem?_cons_succ, ← List.head?_eq_getElem?]
      exact hh
    · have hno : r.1 ∉ originals s.cache := fun ho => hq (List.mem_filter.mp ho).1
      have hlt : s.submitted.length - 1 < s.popped.length := by
        by_contra hge
        rw [h.queue, List.getElem?_append_right (by omega)] at hkey
        exact hno (List.mem_of_getElem? hkey)
      have hnext : s.submitted.length = s.popped.length := by omega
      have hh := getNext_front (fun q hqq => by
        rw [hcur, Option.some.injEq] at hqq
        rwa [← hqq]) hn
      rw [hnext, h.queue, List.getElem?_append_right le_rfl, Nat.sub_self, ← List.head?_eq_getElem?]
      exact hh

theorem Ledger.front (h : Ledger handles s) (hne : s.iocbsSizes ≠ []) :
    ∃ r, s.submitted[s.popped.length]? = some r ∧ s.cache.front.1 = some r.1 ∧
      originals s.cache = r.1 :: originals s.cache.front.2.pop := by
  have hpos := List.length_pos_of_ne_nil hne
  have hent := h.entries
  have hlt : s.popped.length < s.submitted.length := by omega
  have hr := List.getElem?_eq_getElem hlt
  obtain ⟨w, hw, -⟩ := h.plan _ _ hr
  have hkey : (s.pushed.map Prod.fst)[s.popped.length]? = some s.submitted[s.popped.length].1 := by
    rw [List.getElem?_map, hw]
    rfl
  rw [h.queue, List.getElem?_append_right le_rfl, Nat.sub_self, ← List.head?_eq_getElem?] at hkey
  refine ⟨_, hr, (front_originals s.cache).1.trans hkey, ?_⟩
  rw [front_pop]
  obtain ⟨rest, hrest⟩ := List.head?_eq_some_iff.mp hkey
  rw [hrest, List.tail_cons]

end Facts

section Steps

variable {s s' : State B ix}

theorem ledger_start (disk₀ : Disk) : Ledger handles (AioDiskWriter.start disk₀ : State B ix) where
  ascending := List.pairwise_singleton _ _
  queue := rfl
  keys := List.pairwise_singleton _ _
  same := by simp [AioDiskWriter.start]
  entries := rfl
  plan := by simp [AioDiskWriter.start]
  current _ := rfl
  positive := by simp [AioDiskWriter.start]
  total := rfl
  counted := rfl
  traced := by simp [AioLedger.traced, AioDiskWriter.start, prepared]

theorem ledger_push (h : Ledger handles s) {w : WriteSegment B} (hw : w.Filled) :
    Ledger handles { s with
      cache := s.cache.push w, pushed := s.pushed ++ [((s.cache.push w).next - 1, w)] } := by
  obtain ⟨p, hnext, hle, ho, hself, hasc, hsame⟩ := push_spec h.ascending hw.original
  have hp : (s.cache.push w).next - 1 = p := by omega
  rw [hp]
  refine ⟨hasc, ?_, ?_, fun r hr => ?_, h.entries, fun j r hj => ?_, h.current, h.positive, h.total,
    h.counted, h.traced⟩
  · simp [h.queue, ho]
  · rw [List.map_append, List.map_singleton, hnext]
    refine List.pairwise_append.mpr ⟨List.pairwise_append.mpr ⟨(List.pairwise_append.mp h.keys).1,
      List.pairwise_singleton _ _, fun q hq x hx => ?_⟩, List.pairwise_singleton _ _,
        fun q hq x hx => ?_⟩
    · obtain ⟨r, hr, rfl⟩ := List.mem_map.mp hq
      rw [List.mem_singleton.mp hx]
      exact (h.key_lt hr).trans_le hle
    · rw [List.mem_singleton.mp hx]
      rcases List.mem_append.mp hq with hq | hq
      · obtain ⟨r, hr, rfl⟩ := List.mem_map.mp hq
        exact (h.key_lt hr).trans_le (hle.trans (Nat.le_succ p))
      · rw [List.mem_singleton.mp hq]
        exact Nat.lt_succ_self p
  · rcases List.mem_append.mp hr with hr | hr
    · obtain ⟨hs, hf⟩ := h.same r hr
      exact ⟨hs.trans (hsame r.1 (h.key_lt hr)), hf⟩
    · rw [List.mem_singleton.mp hr]
      change Same w ((s.cache.push w).ws p) ∧ w.Filled
      rw [hself]
      exact ⟨Same.rfl' w, hw⟩
  · obtain ⟨v, hv, hpl⟩ := h.plan j r hj
    refine ⟨v, ?_, hpl⟩
    rw [List.getElem?_append_left (List.getElem?_eq_some_iff.mp hv).1, hv]

theorem ledger_submit (h : Ledger handles s) {res : Int} (hs : submit handles s res = some s') :
    Ledger handles s' := by
  obtain ⟨hw, -, p, cache, hn, hout⟩ := submit_cases hs
  obtain ⟨hws, hnx, ho, hasc⟩ := getNext_frame h.ascending hn
  obtain ⟨w, hpw⟩ := h.next hw hn
  have hsame : ∀ r ∈ s.pushed, Same r.2 (cache.ws r.1) ∧ r.2.Filled := by
    rw [hws]
    exact h.same
  obtain ⟨hnone, rfl⟩ | ⟨is, hprep, rfl⟩ := hout
  · exact ⟨hasc, ho.symm ▸ h.queue, hnx.symm ▸ h.keys, hsame, h.entries, h.plan, (fun hc => by cases hc),
      h.positive, h.total, h.counted, h.traced⟩
  · obtain ⟨hsw, hf⟩ := hsame _ (List.mem_of_getElem? hpw)
    rw [prepare_congr hsw] at hprep
    obtain ⟨hne, -⟩ := prepare_spec (fun _ _ => 0) hf.positive hf.enough hprep
    have hpos := List.length_pos_of_ne_nil hne
    refine ⟨hasc, ho.symm ▸ h.queue, hnx.symm ▸ h.keys, hsame, ?_, fun j r hj => ?_, fun _ => ?_,
      fun n hn => ?_, ?_, ?_, ?_⟩
    · simp only [List.length_append, List.length_singleton, h.entries]
      omega
    · rcases Nat.lt_or_ge j s.submitted.length with hlt | hge
      · rw [List.getElem?_append_left hlt] at hj
        exact h.plan j r hj
      · rw [List.getElem?_append_right hge] at hj
        obtain ⟨hz, hr⟩ := List.getElem?_eq_some_iff.mp hj
        rw [List.length_singleton] at hz
        have hje : j = s.submitted.length := by omega
        subst hje
        simp only [Nat.sub_self, List.getElem_cons_zero] at hr
        subst hr
        exact ⟨w, hpw, hprep⟩
    · simp
    · rcases List.mem_append.mp hn with hn | hn
      · exact h.positive n hn
      · rwa [List.mem_singleton.mp hn]
    · simp [h.total]
    · have hc := h.counted
      simp only [prepared, List.flatMap_append, List.flatMap_singleton, List.length_append] at hc ⊢
      omega
    · have ht := h.traced
      have hsplit : (is : Multiset (Iocb B)) = is.take res.toNat + is.drop res.toNat := by
        rw [Multiset.coe_add, List.take_append_drop]
      simp only [traced, prepared, List.flatMap_append, List.flatMap_singleton, ← Multiset.coe_add]
        at ht ⊢
      rw [hsplit]
      calc _ = (s.flight : Multiset (Iocb B)) + full s.done + full s.batch + s.reported + s.failed +
            (is.take res.toNat + is.drop res.toNat) := by abel
        _ ≤ _ := add_le_add ht le_rfl

theorem traced_finish {k : Nat} {i : Iocb B} (hi : s.flight[k]? = some i) (res : Int)
    (disk : Disk) :
    traced { s with
      flight := s.flight.eraseIdx k, done := s.done ++ [(i, res)], disk
      failed := if res = i.nbytes then s.failed else s.failed ++ [i] } = traced s := by
  obtain ⟨hk, rfl⟩ := List.getElem?_eq_some_iff.mp hi
  have hperm : (s.flight : Multiset (Iocb B)) = {s.flight[k]} + (s.flight.eraseIdx k : List (Iocb B)) :=
    (Multiset.coe_eq_coe.mpr (List.getElem_cons_eraseIdx_perm hk)).symm
  simp only [traced, full_append, full_cons, full_nil, ← Multiset.coe_add]
  rw [hperm]
  split <;>
  · simp only [← Multiset.coe_add, Multiset.coe_nil, Multiset.coe_singleton]
    abel

theorem ledger_finish (h : Ledger handles s) {k : Nat} {res : Int} {junk : Disk}
    (hs : finish mem s k res junk = some s') : Ledger handles s' := by
  obtain ⟨i, hi, rfl⟩ := finish_cases hs
  refine ⟨h.ascending, h.queue, h.keys, h.same, h.entries, h.plan, h.current, h.positive, h.total,
    h.counted, ?_⟩
  exact (traced_finish hi res _).trans_le h.traced

theorem traced_getEvents {ks : List Nat} {batch done : List (Iocb B × Int)}
    (hb : s.batch = []) (hp : pick ks s.done = some (batch, done)) :
    traced { s with batch, done } = traced s := by
  have hperm : (full s.done : Multiset (Iocb B)) = full batch + full done := by
    rw [Multiset.coe_add, ← full_append]
    exact (Multiset.coe_eq_coe.mpr (full_perm (pick_perm hp))).symm
  simp only [traced, hb, full_nil]
  rw [hperm, Multiset.coe_nil]
  abel

theorem ledger_getEvents (h : Ledger handles s) {ks : List Nat} (hs : getEvents s ks = some s') :
    Ledger handles s' := by
  obtain ⟨-, hb, batch, done, hp, rfl⟩ := getEvents_cases hs
  refine ⟨h.ascending, h.queue, h.keys, h.same, h.entries, h.plan, h.current, h.positive, h.total,
    h.counted, ?_⟩
  exact (traced_getEvents hb hp).trans_le h.traced

theorem traced_event {i : Iocb B} {batch : List (Iocb B × Int)}
    (hb : s.batch = (i, ↑i.nbytes) :: batch) :
    (s.flight : Multiset (Iocb B)) + full s.done + full batch + (s.reported ++ [i] : List (Iocb B)) +
      s.failed = traced s := by
  have hrep : ((s.reported ++ [i] : List (Iocb B)) : Multiset (Iocb B)) = s.reported + {i} := by
    rw [← Multiset.coe_add, Multiset.coe_singleton]
  have hbat : (full s.batch : Multiset (Iocb B)) = {i} + full batch := by
    rw [hb, full_cons, if_pos rfl, ← Multiset.cons_coe, Multiset.singleton_add]
  rw [traced, hrep, hbat]
  abel

theorem ledger_event (h : Ledger handles s) (hs : event s = some s') : Ledger handles s' := by
  obtain ⟨i, res, batch, size, sizes, hb, hsz, hout⟩ := event_cases hs
  have htot := h.total
  have hent := h.entries
  have hcnt := h.counted
  have hpos := h.positive
  rw [hsz, List.sum_cons] at htot
  rw [hsz, List.length_cons] at hent
  rw [hsz] at hpos
  obtain ⟨hsp, hrest⟩ := List.forall_mem_cons.mp hpos
  obtain ⟨-, rfl⟩ | ⟨rfl, hz, hone, rfl⟩ | ⟨rfl, hz, hmore, rfl⟩ := hout
  · refine ⟨h.ascending, h.queue, h.keys, h.same, h.entries, h.plan, h.current, h.positive, h.total,
      h.counted, le_trans ?_ h.traced⟩
    simp only [traced, full_nil, Multiset.coe_nil, add_zero]
    exact add_le_add (add_le_add (Multiset.le_add_right _ _) le_rfl) le_rfl
  · obtain ⟨r, hr, hfr, ho⟩ := h.front (by rw [hsz]; simp)
    refine ⟨front_pop_ascending h.ascending, ?_, by simpa using h.keys, by simpa using h.same, ?_,
      h.plan, h.current, hrest, ?_, ?_, (traced_event hb).trans_le h.traced⟩
    · rw [h.queue, hfr, ho]
      simp
    · change s.submitted.length = (s.popped ++ s.cache.front.1.toList).length + sizes.length
      rw [hfr, Option.toList_some, List.length_append, List.length_singleton]
      omega
    · change s.iocbsTotal - 1 = sizes.sum
      omega
    · change (prepared s).length = s.iocbsTotal - 1 + (s.reported ++ [i]).length
      rw [List.length_append, List.length_singleton]
      omega
  · refine ⟨h.ascending, h.queue, h.keys, h.same, ?_, h.plan, h.current,
      List.forall_mem_cons.mpr ⟨by omega, hrest⟩, ?_, ?_, (traced_event hb).trans_le h.traced⟩
    · rw [List.length_cons]
      exact hent
    · change s.iocbsTotal - 1 = ((size - 1) :: sizes).sum
      rw [List.sum_cons]
      omega
    · change (prepared s).length = s.iocbsTotal - 1 + (s.reported ++ [i]).length
      rw [List.length_append, List.length_singleton]
      omega

theorem ledger_step (h : Ledger handles s) (e : Event B) (hs : step mem handles s e = some s') :
    Ledger handles s' := by
  cases e with
  | push ws filled =>
    cases hs
    exact ledger_push h filled
  | submit res => exact ledger_submit h hs
  | finish k res junk => exact ledger_finish h hs
  | getEvents ks => exact ledger_getEvents h hs
  | event => exact ledger_event h hs

end Steps

end Sstoraged.AioLedger
