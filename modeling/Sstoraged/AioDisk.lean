import Sstoraged.AioCompletion

namespace Sstoraged.AioDisk

open WriteCache AioDiskWriter AioQueue AioIocbs AioLedger AioAccounting AioCompletion HandleMap DiskView

variable {B : Type} {ix : LbaIndex} {mem : B → Nat → UInt8} {handles : List (Nat × LowHandle)}

/-- Once the cache is empty, every address of the volume has the byte that was pushed
last for it at its place in the files. -/
def LastWriterWins (handles : List (Nat × LowHandle)) (mem : B → Nat → UInt8) (disk₀ : Disk)
    (s : State B ix) : Prop :=
  s.cache.fifo = [] → s.flight = [] ∧ ∀ a place, placeAt handles a = some place → s.disk place =
    Overlay.expected WriteSegment.covers (WriteSegment.val mem) (view handles disk₀)
      (s.pushed.map Prod.snd) a

/-- Two writes into one file have a byte in common there. -/
def Overlaps (i j : Iocb B) : Prop := i.path = j.path ∧
  (u64 ((j.realOffset : Int) - i.realOffset) < i.nbytes ∨
    u64 ((i.realOffset : Int) - j.realOffset) < j.nbytes)

instance (i j : Iocb B) : Decidable (Overlaps i j) := inferInstanceAs (Decidable (_ ∧ _))

/-- Each address of a segment that is pushed has a place of its own, the kernel finishes
no write while an older one that it overlaps is in flight, and the listener takes the
events of the front segment first. -/
def InOrder (handles : List (Nat × LowHandle)) (s : State B ix) : Event B → Prop
  | .push ws _ => ∀ a, ws.covers a = true → Own handles a
  | .finish k _ _ => ∀ i ∈ s.flight[k]?, ∀ j ∈ s.flight.take k, ¬ Overlaps i j
  | e => FrontFirst s e

theorem frontFirst_of_inOrder {s : State B ix} {e : Event B} (h : InOrder handles s e) :
    FrontFirst s e := by
  cases e with
  | push ws filled => trivial
  | finish k res junk => trivial
  | _ => exact h

theorem inOrder_first {s : State B ix} {res : Int} {junk : Disk} :
    InOrder handles s (.finish 0 res junk) :=
  fun _ _ _ hj => absurd hj List.not_mem_nil

theorem inOrder_event {s : State B ix} (h : FrontFirst s .event) : InOrder handles s .event := h

theorem mem_places {i : Iocb B} {n : Nat} {place : String × Nat} :
    place ∈ i.places n ↔ ∃ k, k < n ∧ place = (i.path, u64 ((i.realOffset : Int) + (k : Nat))) := by
  simp [Iocb.places, cells, eq_comm]

theorem apart_of_not_overlaps {i j : Iocb B} (h : ¬ Overlaps i j) (place : String × Nat) :
    ¬ (reaches i place = true ∧ reaches j place = true) := by
  rintro ⟨hi, hj⟩
  obtain ⟨k, hk, rfl⟩ := mem_places.mp (List.contains_iff_mem.mp hi)
  obtain ⟨l, hl, heq⟩ := mem_places.mp (List.contains_iff_mem.mp hj)
  obtain ⟨hpath, hoffset⟩ := Prod.mk.inj heq
  refine h ⟨hpath, ?_⟩
  unfold u64 at hoffset ⊢
  omega

section Steps

variable {s s' : State B ix}

theorem flight_held (hl : Ledger handles s) (h : Settled s) {i : Iocb B} (hi : i ∈ s.flight) :
    i.ws ∈ s.cache.fifo := by
  have hfl : (s.flight : Multiset (Iocb B)) ≤ traced s := by
    rw [traced, add_assoc, add_assoc, add_assoc]
    exact Multiset.le_add_right _ _
  obtain ⟨r, hr, hir, hws⟩ := mem_prepared hl (Multiset.mem_of_le hfl (Multiset.mem_coe.mpr hi))
  obtain ⟨j, hj⟩ := List.getElem?_of_mem hr
  have hkey := submitted_key hl hj
  by_cases hlt : j < s.popped.length
  · exfalso
    have hrep : i ∈ s.reported := by
      apply h.popped r _ i hir
      apply List.mem_of_getElem?
      rw [List.getElem?_take, if_pos hlt, hj]
    -- the write would be counted twice
    have htwo : (([i, i] : List (Iocb B)) : Multiset (Iocb B)) ≤ traced s := by
      have h₁ := Multiset.singleton_le.mpr (Multiset.mem_coe.mpr hi)
      have h₂ := Multiset.singleton_le.mpr (Multiset.mem_coe.mpr hrep)
      calc (([i, i] : List (Iocb B)) : Multiset (Iocb B)) = {i} + {i} := rfl
        _ ≤ (s.flight : Multiset (Iocb B)) + s.reported := add_le_add h₁ h₂
        _ ≤ (s.flight : Multiset (Iocb B)) + s.reported + (full s.done + full s.batch + s.failed) :=
          Multiset.le_add_right _ _
        _ = traced s := by
          rw [traced]
          abel
    have hle := own_le hl hr htwo
    have hfil : ([i, i].filter fun k => decide (k.ws = r.1)) = [i, i] := by simp [hws]
    rw [hfil] at hle
    have hnd := Multiset.nodup_of_le hle (Multiset.coe_nodup.mpr (submitted_ws hl hr).2)
    simp at hnd
  · rw [hl.queue, List.getElem?_append_right (by omega)] at hkey
    rw [hws]
    exact (List.mem_filter.mp (List.mem_of_getElem? hkey)).1

/-- As long as nothing failed, the writes in flight bring the files to where all
the submitted ones would. -/
def Laid (mem : B → Nat → UInt8) (disk₀ : Disk) (s : State B ix) : Prop :=
  s.failed = [] → written mem s.disk s.flight = written mem disk₀ (prepared s)

/-- Each address that was pushed has a place of its own. -/
def Owned (handles : List (Nat × LowHandle)) (s : State B ix) : Prop :=
  ∀ w ∈ s.pushed, ∀ a, w.2.covers a = true → Own handles a

variable {disk₀ : Disk}

theorem laid_submit (h : Laid mem disk₀ s) {res : Int} (hs : submit handles s res = some s') :
    Laid mem disk₀ s' := by
  obtain ⟨-, -, p, cache, -, ⟨-, rfl⟩ | ⟨is, -, rfl⟩⟩ := submit_cases hs
  · exact h
  intro hf
  obtain ⟨hnil, hdrop⟩ := List.append_eq_nil_iff.mp hf
  have htake : is.take res.toNat = is := List.take_of_length_le (List.drop_eq_nil_iff.mp hdrop)
  simp only [prepared, List.flatMap_append, List.flatMap_singleton, htake]
  rw [written_append, h hnil, written_append]
  rfl

theorem laid_finish (hl : Ledger handles s) (hst : Settled s) (h : Laid mem disk₀ s) {k : Nat}
    {res : Int} {junk : Disk} (hok : InOrder handles s (.finish k res junk))
    (hs : finish mem s k res junk = some s') : Laid mem disk₀ s' := by
  obtain ⟨i, hi, rfl⟩ := finish_cases hs
  intro hf
  by_cases hres : res = i.nbytes
  swap
  · rw [if_neg hres] at hf
    simp at hf
  rw [if_pos hres] at hf
  have hheld := flight_held hl hst (List.mem_of_getElem? hi)
  have hmin : min res.toNat i.nbytes = i.nbytes := by omega
  obtain ⟨hk, hget⟩ := List.getElem?_eq_some_iff.mp hi
  have hsplit : s.flight = s.flight.take k ++ i :: s.flight.drop (k + 1) := by
    rw [← hget, ← List.drop_eq_getElem_cons hk, List.take_append_drop]
  have hbring := Overlay.replay_bring_forward reaches (Iocb.data mem) s.disk i _ (s.flight.drop (k + 1))
    fun j hj place => apart_of_not_overlaps (hok i hi j hj) place
  simp only [if_pos hheld, hmin]
  rw [List.eraseIdx_eq_take_drop_succ, ← store_eq_land]
  change Overlay.replay reaches (Iocb.data mem) (Overlay.store reaches (Iocb.data mem) i s.disk) _ = _
  rw [hbring, ← hsplit]
  exact h hf

theorem laid_step (hl : Ledger handles s) (hst : Settled s) (h : Laid mem disk₀ s) (e : Event B)
    (hok : InOrder handles s e) (hs : step mem handles s e = some s') : Laid mem disk₀ s' := by
  cases e with
  | push ws filled =>
    cases hs
    exact h
  | submit res => exact laid_submit h hs
  | finish k res junk => exact laid_finish hl hst h hok hs
  | getEvents ks =>
    obtain ⟨-, -, batch, done, -, rfl⟩ := getEvents_cases hs
    exact h
  | event =>
    obtain ⟨i, res, batch, size, sizes, -, -, ⟨-, rfl⟩ | ⟨-, -, -, rfl⟩ | ⟨-, -, -, rfl⟩⟩ :=
      event_cases hs
    all_goals exact h

theorem owned_step (h : Owned handles s) (e : Event B) (hok : InOrder handles s e)
    (hs : step mem handles s e = some s') : Owned handles s' := by
  cases e with
  | push ws filled =>
    cases hs
    intro w hw
    obtain hw | hw := List.mem_append.mp hw
    · exact h w hw
    · obtain rfl := List.mem_singleton.mp hw
      exact hok
  | submit res =>
    obtain ⟨-, -, p, cache, -, ⟨-, rfl⟩ | ⟨is, -, rfl⟩⟩ := submit_cases hs
    all_goals exact h
  | finish k res junk =>
    obtain ⟨i, -, rfl⟩ := finish_cases hs
    exact h
  | getEvents ks =>
    obtain ⟨-, -, batch, done, -, rfl⟩ := getEvents_cases hs
    exact h
  | event =>
    obtain ⟨i, res, batch, size, sizes, -, -, ⟨-, rfl⟩ | ⟨-, -, -, rfl⟩ | ⟨-, -, -, rfl⟩⟩ :=
      event_cases hs
    all_goals exact h

theorem prepared_spec (mem : B → Nat → UInt8) (hlay : Layout handles) (hl : Ledger handles s)
    (ho : Owned handles s) {n : Nat} {r : Nat × List (Iocb B)} (hr : s.submitted[n]? = some r) :
    ∃ w, s.pushed[n]? = some w ∧
      (∀ disk, finished mem disk r.2 = Overlay.store WriteSegment.covers
        (WriteSegment.val mem) w.2 disk) ∧
        (∀ i ∈ r.2, Placed handles i) ∧ ∀ i ∈ r.2, ∀ a, covers i a = true → Own handles a := by
  obtain ⟨w, hw, hp⟩ := hl.plan n _ hr
  have hmem := List.mem_of_getElem? hw
  have hf := (hl.same _ hmem).2
  have hown := ho _ hmem
  obtain ⟨-, -, hchain, -, hd⟩ := prepare_spec mem hf.positive hf.enough hp
  refine ⟨(r.1, w), hw, hd, prepare_placed hlay hf.enough (fun a ha => (hown a ha).isSome) hp,
    fun i hi a ha => ?_⟩
  apply hown
  obtain ⟨-, hlo, hhi⟩ := (chain_mem hchain).2 i hi
  have hin := of_decide_eq_true ha
  rw [WriteSegment.covers_iff]
  omega

theorem view_prepared (hlay : Layout handles) (hl : Ledger handles s) (ho : Owned handles s) (n : Nat)
    (hn : n ≤ s.submitted.length) :
    view handles (written mem disk₀ ((s.submitted.take n).flatMap Prod.snd)) =
      Overlay.replay WriteSegment.covers (WriteSegment.val mem) (view handles disk₀)
        ((s.pushed.take n).map Prod.snd) := by
  induction n with
  | zero => rfl
  | succ n ih =>
    have hr := List.getElem?_eq_getElem (show n < s.submitted.length by omega)
    obtain ⟨w, hw, hd, hplaced, hown⟩ := prepared_spec mem hlay hl ho hr
    rw [List.take_add_one, List.take_add_one, hr, hw, List.flatMap_append, List.map_append,
      written_append, Overlay.replay_append, ← ih (by omega)]
    simp only [Option.toList_some, List.flatMap_singleton, List.map_singleton, Overlay.replay_cons,
      Overlay.replay_nil]
    rw [view_written mem hplaced hown, hd]

theorem lastWriterWins_of_laid (hlay : Layout handles) (hl : Ledger handles s) (ho : Owned handles s)
    (h : Laid mem disk₀ s) : LastWriterWins handles mem disk₀ s := by
  intro hempty
  have horig : originals s.cache = [] := by rw [originals, hempty, List.filter_nil]
  have hpop : s.pushed.length = s.popped.length := by
    have hq := congrArg List.length hl.queue
    rwa [horig, List.append_nil, List.length_map] at hq
  have hent := hl.entries
  have hle : s.submitted.length ≤ s.pushed.length := by
    have hk := congrArg List.length (submitted_keys hl)
    rw [List.length_take, List.length_map, List.length_map] at hk
    omega
  have hsizes : s.iocbsSizes = [] := List.eq_nil_of_length_eq_zero (by omega)
  have hcount := hl.counted
  have htotal := hl.total
  rw [hsizes, List.sum_nil] at htotal
  have hcard := Multiset.card_le_card hl.traced
  simp only [traced, Multiset.card_add, Multiset.coe_card] at hcard
  have hflight : s.flight = [] := List.eq_nil_of_length_eq_zero (by omega)
  have hfailed : s.failed = [] := List.eq_nil_of_length_eq_zero (by omega)
  refine ⟨hflight, fun a place hplace => ?_⟩
  have hlaid := h hfailed
  have hprep : view handles (written mem disk₀ _) = _ :=
    view_prepared hlay hl ho s.submitted.length le_rfl
  have hall : s.pushed.take s.submitted.length = s.pushed := List.take_of_length_le (by omega)
  rw [List.take_length, hall] at hprep
  rw [hflight] at hlaid
  rw [← Overlay.replay_eq_expected, ← hprep, view_eq hplace]
  exact congrFun hlaid place

end Steps

/-- In every run whose segments have places of their own, whose overlapping writes are
finished in the order of their submission, and reported in the order of their segments,
the last writer wins. -/
theorem lastWriterWins_of_inOrder (hlay : Layout handles) {disk₀ : Disk} {s : State B ix}
    (h : Runs.Reachable (start disk₀) (step mem handles) (InOrder handles) s) :
    LastWriterWins handles mem disk₀ s := by
  have hs := h.invariant (fun s => Ledger handles s ∧ Settled s ∧ Laid mem disk₀ s ∧ Owned handles s)
    ⟨ledger_start disk₀, ⟨rfl, by simp [start]⟩, fun _ => rfl, by simp [Owned, start]⟩
    fun _ e _ hs hok hstep => ⟨ledger_step hs.1 e hstep,
      settled_step hs.1 hs.2.1 e (frontFirst_of_inOrder hok) hstep,
      laid_step hs.1 hs.2.1 hs.2.2.1 e hok hstep, owned_step hs.2.2.2 e hok hstep⟩
  exact lastWriterWins_of_laid hlay hs.1 hs.2.2.2 hs.2.2.1

section Sample

theorem layout_sampleHandles : Layout sampleHandles where
  sorted := List.pairwise_singleton _ _
  apart := List.pairwise_singleton _ _
  fits := by simp [sampleHandles]

theorem own_sampleHandles {a : Nat} (ha : a < 8192) : Own sampleHandles a := by
  refine ⟨("volume", a), fun b => ?_⟩
  have hplace : placeAt sampleHandles b = if b < 8192 then some ("volume", u64 b) else none := by
    simp [placeAt, sampleHandles, SortedMap.floor]
  rw [hplace]
  split
  · simp only [Option.some.injEq, Prod.mk.injEq, true_and, u64]
    omega
  · simp
    omega

/-- Two segments over one block, finished in order. -/
theorem lastWriterWins_in_order : ∃ s : State Unit LbaIndex.ofList,
    Runs.Reachable (start fun _ => 0) (step sampleMem sampleHandles) (InOrder sampleHandles) s ∧
      s.cache.fifo = [] ∧ s.pushed.length = 2 ∧
      LastWriterWins sampleHandles sampleMem (fun _ => 0) s := by
  have hf : (sampleSegment 2 1 0).Filled := filled_sampleSegment (by decide) (by decide)
  have hf' : (sampleSegment 2 1 1).Filled := filled_sampleSegment (by decide) (by decide)
  have hown : ∀ ds a, (sampleSegment 2 1 ds).covers a = true → Own sampleHandles a := by
    intro ds a ha
    obtain ⟨-, hlt⟩ := of_decide_eq_true ha
    have hlt : a / 512 < 3 := hlt
    exact own_sampleHandles (by omega)
  have h₁ : Runs.Reachable (start fun _ => 0 : State Unit LbaIndex.ofList)
      (step sampleMem sampleHandles) (InOrder sampleHandles) _ :=
    .step .start (show InOrder _ _ (.push _ hf) from hown 0) rfl
  have h₂ := Runs.Reachable.step h₁ (show InOrder _ _ (.push _ hf') from hown 1) rfl
  have h₃ := Runs.Reachable.step h₂ (show InOrder _ _ (.submit 1) from trivial) rfl
  have h₄ := Runs.Reachable.step h₃ (show InOrder _ _ (.submit 1) from trivial) rfl
  have h₅ := Runs.Reachable.step h₄ (show InOrder _ _ (.finish 0 512 fun _ => 0) from inOrder_first) rfl
  have h₆ := Runs.Reachable.step h₅ (show InOrder _ _ (.finish 0 512 fun _ => 0) from inOrder_first) rfl
  have h₇ := Runs.Reachable.step h₆ (show InOrder _ _ (.getEvents [0, 0]) from trivial) rfl
  have h₈ := Runs.Reachable.step h₇ (inOrder_event (by decide)) rfl
  have h₉ := Runs.Reachable.step h₈ (inOrder_event (by decide)) rfl
  exact ⟨_, h₉, rfl, rfl, lastWriterWins_of_inOrder layout_sampleHandles h₉⟩

/-- The kernel finishes the second write over a block before the first one. -/
theorem not_lastWriterWins_reordered : ∃ s : State Unit LbaIndex.ofList,
    Runs.Reachable (start fun _ => 0) (step sampleMem sampleHandles) (fun _ _ => True) s ∧
      ¬ LastWriterWins sampleHandles sampleMem (fun _ => 0) s := by
  have hf : (sampleSegment 2 1 0).Filled := filled_sampleSegment (by decide) (by decide)
  have hf' : (sampleSegment 2 1 1).Filled := filled_sampleSegment (by decide) (by decide)
  refine ⟨_, @Runs.reachable_of_exec _ _ _ _ _ _ [.push _ hf, .push _ hf', .submit 1, .submit 1,
    .finish 1 512 fun _ => 0, .finish 0 512 fun _ => 0, .getEvents [1, 0], .event, .event] .start rfl,
    fun h => ?_⟩
  exact absurd ((h rfl).2 1024 ("volume", 1024) rfl) (by decide +kernel)

end Sample

end Sstoraged.AioDisk
