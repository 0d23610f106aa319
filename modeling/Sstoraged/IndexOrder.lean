import Sstoraged.IntervalMap

namespace Sstoraged.IndexOrder

open WriteCache WriteCacheMerge IntervalMap

variable {B : Type} {ix : LbaIndex}

inductive Event (B : Type)
  | push (ws : WriteSegment B) (fresh : Fresh ws)
  | pop

def step (c : WriteCache B ix) : Event B → Option (WriteCache B ix)
  | .push ws _ => some (c.push ws)
  | .pop => some c.pop

/-- The pushes whose hits are all cut as intended. -/
def Ok (c : WriteCache B ix) : Event B → Prop
  | .push ws _ => AllTrimmable ws c
  | .pop => True

/-- The index is in the order of the keys, and a search finds exactly the live
segments of its range in that order. -/
structure Ordered (c : WriteCache B ix) : Prop where
  sorted : LbaIndex.Sorted c.keys (ix.toList c.byLba)
  found : ∀ lba len, 0 < len → ∀ p,
    p ∈ c.search lba len ↔ p ∈ c.fifo ∧ meets c.ws lba len p = true
  ascending : ∀ lba len, 0 < len → (c.search lba len).Pairwise fun p q => (c.ws p).rlba < (c.ws q).rlba

/-- Pops only take entries away, so nothing has to be left of the log. -/
def Tracked (c : WriteCache B ix) : Prop :=
  ∃ log org, Kept c log log.length org

theorem kept_forget {c : WriteCache B ix} {log : List (WriteSegment B)} {popped : Nat}
    {org : Nat → Nat} (h : Kept c log popped org) : Kept c log log.length org := by
  refine { h with covered := fun a j _ hj hle => ?_ }
  have := hj.lt
  rw [List.length_map] at this
  omega

theorem tracked_init (hix : ix.Lawful) : Tracked (WriteCache.init : WriteCache B ix) :=
  ⟨[], id, kept_init hix 0 id⟩

theorem strip_pop (c : WriteCache B ix) : strip c.pop = (strip c).pop := by
  unfold pop
  have hfifo : (strip c).fifo = c.fifo := rfl
  rw [hfifo]
  cases c.fifo <;> rfl

theorem tracked_push (hix : ix.Lawful) {c : WriteCache B ix} (h : Tracked c) {w : WriteSegment B}
    (hw : Fresh w) (hok : AllTrimmable w c) : Tracked (c.push w) := by
  obtain ⟨log, org, hk⟩ := h
  obtain ⟨c', org', -, -, -, hk'⟩ := kept_push hix hk hw hok
  exact ⟨_, _, kept_forget hk'⟩

theorem tracked_pop (hix : ix.Lawful) {c : WriteCache B ix} (h : Tracked c) : Tracked c.pop := by
  obtain ⟨log, org, hk⟩ := h
  cases hf : c.fifo with
  | nil =>
    have hp : c.pop = c := by simp [pop, hf]
    rw [hp]
    exact ⟨log, org, hk⟩
  | cons p rest =>
    refine ⟨log, org, ?_⟩
    rw [Kept, strip_pop]
    have hlt := org_lt hk (p := p) (by change p ∈ c.fifo; simp [hf])
    rw [List.length_map] at hlt
    exact WriteBack.pop_holds hix hk hf le_rfl hlt

theorem ordered_of_tracked (hix : ix.Lawful) {c : WriteCache B ix} (h : Tracked c) : Ordered c := by
  obtain ⟨log, org, hk⟩ := h
  have ht : c.Tidy := hk.tidy
  refine ⟨before_le ht, fun lba len _ p => mem_search_iff hix hk lba len p, fun lba len _ => ?_⟩
  rw [search_eq_filter hix c ht]
  refine (List.Pairwise.filter _ ht).imp_of_mem fun {p q} hp hq hb => ?_
  have hp' := ((meets_iff _ _ _ _).mp (List.mem_filter.mp hp).2).1
  have hq' := ((meets_iff _ _ _ _).mp (List.mem_filter.mp hq).2).1
  have hpq := (hb.2.resolve_left hp').resolve_left hq'
  unfold WriteSegment.rtail at hpq
  omega

/-- In every run whose pushes all cut their hits as intended, the index stays in order. -/
theorem ordered_of_reachable (hix : ix.Lawful) {c : WriteCache B ix}
    (h : Runs.Reachable .init step Ok c) : Ordered c := by
  refine ordered_of_tracked hix (h.invariant Tracked (tracked_init hix) ?_)
  intro c e c' hc hok hs
  cases e with
  | push w fresh =>
    cases hs
    exact tracked_push hix hc fresh hok
  | pop =>
    cases hs
    exact tracked_pop hix hc

/-- A segment is split, and the first part leaves the cache. -/
theorem ordered_split_pop :
    Ordered (((WriteCache.init.push (sampleSegment 0 10 0)).push (sampleSegment 4 2 0)).pop :
      WriteCache Unit LbaIndex.ofList) := by
  have h₁ : Ok (.init : WriteCache Unit LbaIndex.ofList)
      (.push (sampleSegment 0 10 0) (fresh_sampleSegment (by decide))) :=
    (by decide +kernel : AllTrimmable (sampleSegment 0 10 0) (.init : WriteCache Unit LbaIndex.ofList))
  have h₂ : Ok (WriteCache.init.push (sampleSegment 0 10 0) : WriteCache Unit LbaIndex.ofList)
      (.push (sampleSegment 4 2 0) (fresh_sampleSegment (by decide))) :=
    (by decide +kernel : AllTrimmable (sampleSegment 4 2 0) (WriteCache.init.push _))
  have hr₁ : Runs.Reachable .init step Ok (WriteCache.init.push (sampleSegment 0 10 0) :
      WriteCache Unit LbaIndex.ofList) := .step .start h₁ rfl
  have hr₂ : Runs.Reachable .init step Ok ((WriteCache.init.push (sampleSegment 0 10 0)).push
      (sampleSegment 4 2 0) : WriteCache Unit LbaIndex.ofList) := .step hr₁ h₂ rfl
  have h₃ : Ok ((WriteCache.init.push (sampleSegment 0 10 0)).push (sampleSegment 4 2 0) :
      WriteCache Unit LbaIndex.ofList) .pop := trivial
  exact ordered_of_reachable LbaIndex.lawful_ofList (.step hr₂ h₃ rfl)

/-- The second push kills a segment whose key stays in the index, the third one
moves the key of the second segment past it. -/
theorem not_ordered_dead_key :
    let c : WriteCache Unit LbaIndex.ofList :=
      ((WriteCache.init.push (sampleSegment 10 1 0)).push (sampleSegment 5 10 0)).push
        (sampleSegment 5 7 0)
    Runs.Reachable .init step (fun _ _ => True) c ∧ ¬ Ordered c := by
  intro c
  have hf : ∀ lba length, 0 < length → Fresh (sampleSegment lba length 0) := fun _ _ h =>
    fresh_sampleSegment h
  refine ⟨@Runs.reachable_of_exec _ _ _ _ _ _ [.push _ (hf 10 1 (by decide)),
    .push _ (hf 5 10 (by decide)),
    .push _ (hf 5 7 (by decide))] .start rfl, fun h => ?_⟩
  have hk : (LbaIndex.ofList.toList c.byLba).map c.keys = [5, 12, 10] := by decide +kernel
  have hs := List.pairwise_map.mpr h.sorted
  rw [hk] at hs
  exact absurd hs (by decide)

end Sstoraged.IndexOrder
