import Sstoraged.AioAccounting

namespace Sstoraged.AioCompletion

open WriteCache AioDiskWriter AioQueue AioIocbs AioLedger AioAccounting

variable {B : Type} {ix : LbaIndex} {mem : B → Nat → UInt8} {handles : List (Nat × LowHandle)}

/-- Every segment that was popped had all of its own writes reported. -/
def Reported (s : State B ix) : Prop :=
  ∀ p ∈ s.popped, ∃ is, (p, is) ∈ s.submitted ∧ ∀ i ∈ is, i ∈ s.reported

/-- An event that the listener takes belongs to the segment in front of the queue. -/
def FrontFirst (s : State B ix) : Event B → Prop
  | .event => ∀ e ∈ s.batch.head?, s.cache.front.1 = some e.1.ws
  | _ => True

instance (s : State B ix) : ∀ e, Decidable (FrontFirst s e)
  | .push _ _ => .isTrue trivial
  | .submit _ => .isTrue trivial
  | .finish _ _ _ => .isTrue trivial
  | .getEvents _ => .isTrue trivial
  | .event => inferInstanceAs (Decidable (∀ e ∈ s.batch.head?, s.cache.front.1 = some e.1.ws))

/-- The reported writes of a segment. -/
def own (s : State B ix) (p : Nat) : List (Iocb B) := s.reported.filter fun i => decide (i.ws = p)

/-- Each size is what is left to report of its own segment. -/
structure Settled (s : State B ix) : Prop where
  sizes : s.iocbsSizes =
    (s.submitted.drop s.popped.length).map fun r => r.2.length - (own s r.1).length
  popped : ∀ r ∈ s.submitted.take s.popped.length, ∀ i ∈ r.2, i ∈ s.reported

section Facts

variable {s : State B ix}

theorem submitted_key (h : Ledger handles s) {j : Nat} {r : Nat × List (Iocb B)}
    (hr : s.submitted[j]? = some r) : (s.pushed.map Prod.fst)[j]? = some r.1 := by
  obtain ⟨w, hw, -⟩ := h.plan j r hr
  rw [List.getElem?_map, hw]
  rfl

theorem submitted_keys (h : Ledger handles s) :
    s.submitted.map Prod.fst = (s.pushed.map Prod.fst).take s.submitted.length := by
  apply List.ext_getElem?
  intro j
  rw [List.getElem?_take, List.getElem?_map]
  cases hr : s.submitted[j]? with
  | none => rw [if_neg (by simpa using hr), Option.map_none]
  | some r =>
    rw [if_pos (List.getElem?_eq_some_iff.mp hr).1, submitted_key h hr, Option.map_some]

theorem submitted_nodup (h : Ledger handles s) : (s.submitted.map Prod.fst).Nodup := by
  rw [submitted_keys h]
  exact h.nodup.sublist (List.take_sublist _ _)

theorem submitted_ws (h : Ledger handles s) {r : Nat × List (Iocb B)} (hr : r ∈ s.submitted) :
    (∀ i ∈ r.2, i.ws = r.1) ∧ r.2.Nodup := by
  obtain ⟨j, hj⟩ := List.getElem?_of_mem hr
  obtain ⟨w, hw, hp⟩ := h.plan j r hj
  have hf := (h.same _ (List.mem_of_getElem? hw)).2
  obtain ⟨-, -, hc, hws, -⟩ := prepare_spec (fun _ _ => 0) hf.positive hf.enough hp
  exact ⟨hws, chain_nodup hc⟩

theorem filter_flatMap_key {l : List (Nat × List (Iocb B))} (hn : (l.map Prod.fst).Nodup)
    (hws : ∀ r ∈ l, ∀ i ∈ r.2, i.ws = r.1) {r : Nat × List (Iocb B)} (hr : r ∈ l) :
    (l.flatMap Prod.snd).filter (fun i => decide (i.ws = r.1)) = r.2 := by
  induction l with
  | nil => cases hr
  | cons q l ih =>
    obtain ⟨hq, hl⟩ := List.forall_mem_cons.mp hws
    obtain ⟨hnq, hnl⟩ := List.nodup_cons.mp hn
    rw [List.flatMap_cons, List.filter_append]
    rcases List.mem_cons.mp hr with rfl | hr
    · have h₁ : r.2.filter (fun i => decide (i.ws = r.1)) = r.2 :=
        List.filter_eq_self.mpr fun i hi => by simpa using hq i hi
      have h₂ : (l.flatMap Prod.snd).filter (fun i => decide (i.ws = r.1)) = [] := by
        apply List.filter_eq_nil_iff.mpr
        intro i hi
        obtain ⟨q, hql, hi⟩ := List.mem_flatMap.mp hi
        rw [hl q hql i hi, decide_eq_true_eq]
        exact fun he => hnq (he ▸ List.mem_map_of_mem hql)
      rw [h₁, h₂, List.append_nil]
    · have h₁ : q.2.filter (fun i => decide (i.ws = r.1)) = [] := by
        apply List.filter_eq_nil_iff.mpr
        intro i hi
        rw [hq i hi, decide_eq_true_eq]
        exact fun he => hnq (he ▸ List.mem_map_of_mem hr)
      rw [h₁, List.nil_append, ih hnl hl hr]

theorem own_prepared (h : Ledger handles s) {r : Nat × List (Iocb B)} (hr : r ∈ s.submitted) :
    (prepared s).filter (fun i => decide (i.ws = r.1)) = r.2 :=
  filter_flatMap_key (submitted_nodup h) (fun _ hq => (submitted_ws h hq).1) hr

theorem own_le (h : Ledger handles s) {r : Nat × List (Iocb B)} (hr : r ∈ s.submitted)
    {is : List (Iocb B)} (hle : (is : Multiset (Iocb B)) ≤ traced s) :
    ((is.filter fun i => decide (i.ws = r.1) : List (Iocb B)) : Multiset (Iocb B)) ≤ r.2 := by
  rw [← own_prepared h hr]
  have hf := Multiset.filter_le_filter (fun i : Iocb B => i.ws = r.1) (hle.trans h.traced)
  simpa only [Multiset.filter_coe] using hf

theorem mem_prepared (h : Ledger handles s) {i : Iocb B} (hi : i ∈ traced s) :
    ∃ r ∈ s.submitted, i ∈ r.2 ∧ i.ws = r.1 := by
  have hp : i ∈ prepared s := Multiset.mem_coe.mp (Multiset.mem_of_le h.traced hi)
  obtain ⟨r, hr, hi⟩ := List.mem_flatMap.mp hp
  exact ⟨r, hr, hi, (submitted_ws h hr).1 i hi⟩

theorem reported_le (s : State B ix) : (s.reported : Multiset (Iocb B)) ≤ traced s := by
  rw [traced, add_assoc, add_comm (s.reported : Multiset (Iocb B)), ← add_assoc]
  exact Multiset.le_add_left _ _

end Facts

section Steps

variable {s s' : State B ix}

theorem settled_submit (hl : Ledger handles s) (h : Settled s) {res : Int}
    (hs : submit handles s res = some s') : Settled s' := by
  obtain ⟨hw, -, p, cache, hn, ⟨-, rfl⟩ | ⟨is, hp, rfl⟩⟩ := submit_cases hs
  · exact ⟨h.sizes, h.popped⟩
  obtain ⟨w, hpw⟩ := hl.next hw hn
  have hle : s.popped.length ≤ s.submitted.length := by
    have := hl.entries
    omega
  have hown : own s p = [] := by
    apply List.filter_eq_nil_iff.mpr
    intro i hi hip
    obtain ⟨r, hr, -, hwr⟩ :=
      mem_prepared hl (Multiset.mem_of_le (reported_le s) (Multiset.mem_coe.mpr hi))
    obtain ⟨j, hj⟩ := List.getElem?_of_mem hr
    have hlt := (List.getElem?_eq_some_iff.mp hj).1
    have hkey : (s.pushed.map Prod.fst)[s.submitted.length]? = some p := by
      rw [List.getElem?_map, hpw]
      rfl
    have hjn : s.submitted.length = j := by
      apply (List.getElem?_inj (List.getElem?_eq_some_iff.mp hkey).1 hl.nodup).mp
      rw [hkey, submitted_key hl hj, ← hwr, of_decide_eq_true hip]
    omega
  refine ⟨?_, ?_⟩
  · change s.iocbsSizes ++ [is.length] = ((s.submitted ++ [(p, is)]).drop s.popped.length).map
      fun r => r.2.length - (own s r.1).length
    rw [List.drop_append_of_le_length hle, List.map_append, ← h.sizes, List.map_singleton, hown]
    rfl
  · change ∀ r ∈ (s.submitted ++ [(p, is)]).take s.popped.length, ∀ i ∈ r.2, i ∈ s.reported
    rw [List.take_append_of_le_length hle]
    exact h.popped

theorem filter_report (is : List (Iocb B)) (i : Iocb B) (p : Nat) :
    ((is ++ [i]).filter fun j => decide (j.ws = p)).length =
      (is.filter fun j => decide (j.ws = p)).length + if i.ws = p then 1 else 0 := by
  by_cases h : i.ws = p <;> simp [h]

theorem settled_event (hl : Ledger handles s) (h : Settled s) (hok : FrontFirst s .event)
    (hs : event s = some s') : Settled s' := by
  obtain ⟨i, res, batch, size, sizes, hb, hsz, hout⟩ := event_cases hs
  obtain ⟨r, hr, hfr, -⟩ := hl.front (by rw [hsz]; simp)
  have hmem := List.mem_of_getElem? hr
  have hws : r.1 = i.ws := by
    have hfirst := hok (i, res) (by rw [hb]; rfl)
    rw [hfr, Option.some.injEq] at hfirst
    exact hfirst
  have hlt := (List.getElem?_eq_some_iff.mp hr).1
  have hdrop : s.submitted.drop s.popped.length = r :: s.submitted.drop (s.popped.length + 1) := by
    rw [List.drop_eq_getElem_cons hlt, (List.getElem?_eq_some_iff.mp hr).2]
  have hsizes := h.sizes
  rw [hdrop, hsz, List.map_cons, List.cons.injEq] at hsizes
  obtain ⟨hsize, hrest⟩ := hsizes
  -- the other segments have no new reports
  have hother : ∀ q ∈ s.submitted.drop (s.popped.length + 1), ¬ i.ws = q.1 := by
    have hn := (submitted_nodup hl).sublist ((List.drop_sublist s.popped.length s.submitted).map _)
    rw [hdrop, List.map_cons, List.nodup_cons, hws] at hn
    exact fun q hq he => hn.1 (he ▸ List.mem_map_of_mem hq)
  have hmap : (s.submitted.drop (s.popped.length + 1)).map (fun q =>
        q.2.length - ((s.reported ++ [i]).filter fun j => decide (j.ws = q.1)).length) = sizes := by
    rw [hrest]
    apply List.map_congr_left
    intro q hq
    rw [filter_report, if_neg (hother q hq)]
    rfl
  have hcount : ((s.reported ++ [i]).filter fun j => decide (j.ws = r.1)).length =
      (own s r.1).length + 1 := by
    rw [filter_report, if_pos hws.symm]
    rfl
  have hkeep : ∀ q ∈ s.submitted.take s.popped.length, ∀ j ∈ q.2, j ∈ s.reported ++ [i] :=
    fun q hq j hj => List.mem_append_left _ (h.popped q hq j hj)
  obtain ⟨-, rfl⟩ | ⟨rfl, -, hone, rfl⟩ | ⟨rfl, -, hmore, rfl⟩ := hout
  · exact ⟨h.sizes, h.popped⟩
  · have hlen : (s.popped ++ s.cache.front.1.toList).length = s.popped.length + 1 := by
      rw [hfr]
      simp
    refine ⟨?_, ?_⟩
    · change sizes = (s.submitted.drop (s.popped ++ s.cache.front.1.toList).length).map _
      rw [hlen]
      exact hmap.symm
    · change ∀ q ∈ s.submitted.take (s.popped ++ s.cache.front.1.toList).length, ∀ j ∈ q.2,
        j ∈ s.reported ++ [i]
      rw [hlen, List.take_add_one, hr, Option.toList_some]
      refine fun q hq => (List.mem_append.mp hq).elim (hkeep q) fun hq => ?_
      rw [List.mem_singleton.mp hq]
      -- as many writes are reported as the segment has
      have hle : ((s.reported ++ [i] : List (Iocb B)) : Multiset (Iocb B)) ≤ traced s := by
        rw [← traced_event hb, add_right_comm]
        exact Multiset.le_add_left _ _
      have hown := own_le hl hmem hle
      have heq := Multiset.eq_of_le_of_card_le hown (by
        rw [Multiset.coe_card, Multiset.coe_card, hcount]
        omega)
      intro j hj
      rw [← Multiset.mem_coe, ← heq] at hj
      exact (List.mem_filter.mp (Multiset.mem_coe.mp hj)).1
  · refine ⟨?_, hkeep⟩
    change (size - 1) :: sizes = (s.submitted.drop s.popped.length).map fun q =>
      q.2.length - ((s.reported ++ [i]).filter fun j => decide (j.ws = q.1)).length
    rw [hdrop, List.map_cons, hmap, hcount, hsize, Nat.sub_sub]

theorem settled_step (hl : Ledger handles s) (h : Settled s) (e : Event B) (hok : FrontFirst s e)
    (hs : step mem handles s e = some s') : Settled s' := by
  cases e with
  | push ws filled =>
    cases hs
    exact ⟨h.sizes, h.popped⟩
  | submit res => exact settled_submit hl h hs
  | finish k res junk =>
    obtain ⟨i, -, rfl⟩ := finish_cases hs
    exact ⟨h.sizes, h.popped⟩
  | getEvents ks =>
    obtain ⟨-, -, batch, done, -, rfl⟩ := getEvents_cases hs
    exact ⟨h.sizes, h.popped⟩
  | event => exact settled_event hl h hok hs

theorem reported_of_settled (hl : Ledger handles s) (h : Settled s) : Reported s := by
  intro p hp
  obtain ⟨k, hk⟩ := List.getElem?_of_mem hp
  have hlt := (List.getElem?_eq_some_iff.mp hk).1
  have hent := hl.entries
  have hr := List.getElem?_eq_getElem (show k < s.submitted.length by omega)
  have hkey := submitted_key hl hr
  rw [hl.queue, List.getElem?_append_left hlt, hk, Option.some.injEq] at hkey
  refine ⟨s.submitted[k].2, ?_, h.popped s.submitted[k] ?_⟩
  · rw [hkey]
    exact List.getElem_mem _
  · apply List.mem_of_getElem?
    rw [List.getElem?_take, if_pos hlt, hr]

end Steps

/-- In every run in which each event belongs to the segment in front of the
queue, no segment leaves the cache before all of its writes were reported. -/
theorem reported_of_frontFirst {disk₀ : Disk} {s : State B ix}
    (h : Runs.Reachable (start disk₀) (step mem handles) FrontFirst s) : Reported s := by
  have hs := h.invariant (fun s => Ledger handles s ∧ Settled s)
    ⟨ledger_start disk₀, rfl, by simp [start]⟩
    fun _ e _ hs hok hstep => ⟨ledger_step hs.1 e hstep, settled_step hs.1 hs.2 e hok hstep⟩
  exact reported_of_settled hs.1 hs.2

section Sample

/-- Two segments are written, and their writes are reported in order. -/
theorem reported_in_order : ∃ s : State Unit LbaIndex.ofList,
    Runs.Reachable (start fun _ => 0) (step sampleMem sampleHandles) FrontFirst s ∧
      s.popped.length = 2 ∧ Reported s := by
  have hf : (sampleSegment 2 1 0).Filled := filled_sampleSegment (by decide) (by decide)
  have hf' : (sampleSegment 5 1 0).Filled := filled_sampleSegment (by decide) (by decide)
  have h₁ : Runs.Reachable (start fun _ => 0 : State Unit LbaIndex.ofList)
      (step sampleMem sampleHandles) FrontFirst _ :=
    .step .start (show FrontFirst _ (.push _ hf) from trivial) rfl
  have h₂ := Runs.Reachable.step h₁ (show FrontFirst _ (.push _ hf') from trivial) rfl
  have h₃ := Runs.Reachable.step h₂ (show FrontFirst _ (.submit 1) from trivial) rfl
  have h₄ := Runs.Reachable.step h₃ (show FrontFirst _ (.submit 1) from trivial) rfl
  have h₅ := Runs.Reachable.step h₄ (show FrontFirst _ (.finish 1 512 fun _ => 0) from trivial) rfl
  have h₆ := Runs.Reachable.step h₅ (show FrontFirst _ (.finish 0 512 fun _ => 0) from trivial) rfl
  have h₇ := Runs.Reachable.step h₆ (show FrontFirst _ (.getEvents [1, 0]) from trivial) rfl
  have h₈ := Runs.Reachable.step h₇ (show FrontFirst _ .event by decide) rfl
  have h₉ := Runs.Reachable.step h₈ (show FrontFirst _ .event by decide) rfl
  exact ⟨_, h₉, rfl, reported_of_frontFirst h₉⟩

/-- The event of the second segment pops the first one, whose write is in flight. -/
theorem not_reported_out_of_order : ∃ s : State Unit LbaIndex.ofList,
    Runs.Reachable (start fun _ => 0) (step sampleMem sampleHandles) (fun _ _ => True) s ∧
      ¬ Reported s := by
  have hf : (sampleSegment 2 1 0).Filled := filled_sampleSegment (by decide) (by decide)
  have hf' : (sampleSegment 5 1 0).Filled := filled_sampleSegment (by decide) (by decide)
  refine ⟨_, @Runs.reachable_of_exec _ _ _ _ _ _ [.push _ hf, .push _ hf', .submit 1, .submit 1,
    .finish 1 512 fun _ => 0, .getEvents [0], .event] .start rfl, fun h => ?_⟩
  obtain ⟨is, hmem, hall⟩ := h 0 (by decide)
  rcases List.mem_cons.mp hmem with he | hmem
  · cases he
    have hrep := List.mem_singleton.mp (hall _ (List.mem_singleton_self _))
    cases hrep
  · cases List.mem_singleton.mp hmem

end Sample

end Sstoraged.AioCompletion
