import Sstoraged.AioLedger

namespace Sstoraged.AioAccounting

open AioDiskWriter AioIocbs AioLedger

variable {B : Type} {ix : LbaIndex} {mem : B → Nat → UInt8} {handles : List (Nat × LowHandle)}

/-- The counters against the kernel: a write is reaped when the listener takes
its event out of the batch. -/
structure Accounted (s : State B ix) : Prop where
  total : s.iocbsTotal = s.iocbsSizes.sum
  accepted : s.iocbsTotal = s.flight.length + s.done.length + s.batch.length
  entries : s.submitted.length = s.popped.length + s.iocbsSizes.length
  written : ∀ i ∈ s.failed, i.ws ∉ s.popped

/-- How many writes the next round of `doWork` hands to `io_submit`. -/
def wanted (handles : List (Nat × LowHandle)) (s : State B ix) : Option Nat :=
  (s.cache.getNext s.currentWs).bind fun r => (prepare handles r.1 (r.2.ws r.1)).map List.length

/-- The kernel accepts every write and finishes it in full. -/
def Answered (handles : List (Nat × LowHandle)) (s : State B ix) : Event B → Prop
  | .submit res => ∀ n ∈ wanted handles s, res = n
  | .finish k res _ => ∀ i ∈ s.flight[k]?, res = i.nbytes
  | _ => True

instance (s : State B ix) : ∀ e, Decidable (Answered handles s e)
  | .push _ _ => .isTrue trivial
  | .submit res => inferInstanceAs (Decidable (∀ n ∈ wanted handles s, res = n))
  | .finish k res _ => inferInstanceAs (Decidable (∀ i ∈ s.flight[k]?, res = i.nbytes))
  | .getEvents _ => .isTrue trivial
  | .event => .isTrue trivial

/-- Nothing failed, so that every write is still counted somewhere. -/
structure Sound (s : State B ix) : Prop where
  failed : s.failed = []
  done : ∀ e ∈ s.done, e.2 = e.1.nbytes
  batch : ∀ e ∈ s.batch, e.2 = e.1.nbytes
  counted : (prepared s).length =
    s.flight.length + s.done.length + s.batch.length + s.reported.length

theorem sound_submit {s s' : State B ix} (h : Sound s) {res : Int}
    (hok : Answered handles s (.submit res)) (hs : submit handles s res = some s') : Sound s' := by
  obtain ⟨-, -, p, cache, hn, ⟨-, rfl⟩ | ⟨is, hp, rfl⟩⟩ := submit_cases hs
  · exact ⟨h.failed, h.done, h.batch, h.counted⟩
  · have hres : res = is.length := hok is.length (by simp [wanted, hn, hp])
    have hc := h.counted
    subst hres
    refine ⟨by simp [h.failed], h.done, h.batch, ?_⟩
    simp only [prepared, List.flatMap_append, List.flatMap_singleton, List.length_append,
      Int.toNat_natCast, List.take_length] at hc ⊢
    omega

theorem sound_finish {s s' : State B ix} (h : Sound s) {k : Nat} {res : Int} {junk : Disk}
    (hok : Answered handles s (.finish k res junk)) (hs : finish mem s k res junk = some s') :
    Sound s' := by
  obtain ⟨i, hi, rfl⟩ := finish_cases hs
  have hres : res = i.nbytes := hok i hi
  have hlt := (List.getElem?_eq_some_iff.mp hi).1
  have hc := h.counted
  refine ⟨by simp [hres, h.failed], ?_, h.batch, ?_⟩
  · exact fun e he => (List.mem_append.mp he).elim (h.done e) fun he => by
      rw [List.mem_singleton.mp he]
      exact hres
  · change (prepared s).length = (s.flight.eraseIdx k).length + (s.done ++ [(i, res)]).length +
      s.batch.length + s.reported.length
    rw [List.length_eraseIdx_of_lt hlt, List.length_append, List.length_singleton]
    omega

theorem sound_getEvents {s s' : State B ix} (h : Sound s) {ks : List Nat}
    (hs : getEvents s ks = some s') : Sound s' := by
  obtain ⟨-, hb, batch, done, hp, rfl⟩ := getEvents_cases hs
  have hperm := pick_perm hp
  have hmem : ∀ e ∈ batch ++ done, e.2 = e.1.nbytes := fun e he => h.done e (hperm.mem_iff.mp he)
  have hlen := hperm.length_eq
  have hc := h.counted
  rw [hb, List.length_nil] at hc
  rw [List.length_append] at hlen
  refine ⟨h.failed, fun e he => hmem e (List.mem_append_right _ he),
    fun e he => hmem e (List.mem_append_left _ he), ?_⟩
  change (prepared s).length = s.flight.length + done.length + batch.length + s.reported.length
  omega

theorem sound_event {s s' : State B ix} (h : Sound s) (hs : event s = some s') : Sound s' := by
  obtain ⟨i, res, batch, size, sizes, hb, -, hout⟩ := event_cases hs
  have hbat := h.batch
  have hc := h.counted
  rw [hb] at hbat hc
  obtain ⟨hres, hrest⟩ := List.forall_mem_cons.mp hbat
  rw [List.length_cons] at hc
  obtain ⟨hne, -⟩ | ⟨-, -, -, rfl⟩ | ⟨-, -, -, rfl⟩ := hout
  · exact absurd hres hne
  all_goals
    refine ⟨h.failed, h.done, hrest, ?_⟩
    change (prepared s).length =
      s.flight.length + s.done.length + batch.length + (s.reported ++ [i]).length
    rw [List.length_append, List.length_singleton]
    omega

theorem sound_step {s s' : State B ix} (h : Sound s) (e : Event B) (hok : Answered handles s e)
    (hs : step mem handles s e = some s') : Sound s' := by
  cases e with
  | push ws filled =>
    cases hs
    exact ⟨h.failed, h.done, h.batch, h.counted⟩
  | submit res => exact sound_submit h hok hs
  | finish k res junk => exact sound_finish h hok hs
  | getEvents ks => exact sound_getEvents h hs
  | event => exact sound_event h hs

theorem ledger_of_reachable {disk₀ : Disk} {ok : State B ix → Event B → Prop} {s : State B ix}
    (h : Runs.Reachable (start disk₀) (step mem handles) ok s) : Ledger handles s :=
  h.invariant (Ledger handles) (ledger_start disk₀) fun _ e _ hs _ hstep => ledger_step hs e hstep

/-- In every run in which the kernel accepts every write and finishes it in
full, the counters and the queues agree. -/
theorem accounted_of_answered {disk₀ : Disk} {s : State B ix}
    (h : Runs.Reachable (start disk₀) (step mem handles) (Answered handles) s) : Accounted s := by
  have hl := ledger_of_reachable h
  have hs : Sound s := h.invariant Sound ⟨rfl, by simp [start], by simp [start], rfl⟩
    fun _ e _ hs hok hstep => sound_step hs e hok hstep
  have h₁ := hl.counted
  have h₂ := hs.counted
  refine ⟨hl.total, by omega, hl.entries, ?_⟩
  rw [hs.failed]
  simp

section Sample

def sampleHandles : List (Nat × LowHandle) := [(0, ⟨"volume", 0, 8192⟩)]

def sampleMem (_ : Unit) (i : Nat) : UInt8 := UInt8.ofNat i

/-- One segment is submitted, finished, reported and popped. -/
theorem accounted_one_segment : ∃ s : State Unit LbaIndex.ofList,
    Runs.Reachable (start fun _ => 0) (step sampleMem sampleHandles) (Answered sampleHandles) s ∧
      s.popped.length = 1 ∧ Accounted s := by
  have hf : (sampleSegment 2 1 0).Filled := filled_sampleSegment (by decide) (by decide)
  have h₁ : Runs.Reachable (start fun _ => 0 : State Unit LbaIndex.ofList)
      (step sampleMem sampleHandles) (Answered sampleHandles) _ :=
    .step .start (show Answered _ _ (.push _ hf) from trivial) rfl
  have h₂ := Runs.Reachable.step h₁ (show Answered _ _ (.submit 1) by decide) rfl
  have h₃ := Runs.Reachable.step h₂ (show Answered _ _ (.finish 0 512 fun _ => 0) by decide) rfl
  have h₄ := Runs.Reachable.step h₃ (show Answered _ _ (.getEvents [0]) by decide) rfl
  have h₅ := Runs.Reachable.step h₄ (show Answered _ _ .event by decide) rfl
  exact ⟨_, h₅, rfl, accounted_of_answered h₅⟩

/-- The kernel refuses the write, but it is counted as submitted. -/
theorem not_accounted_refused : ∃ s : State Unit LbaIndex.ofList,
    Runs.Reachable (start fun _ => 0) (step sampleMem sampleHandles) (fun _ _ => True) s ∧
      ¬ Accounted s := by
  have hf : (sampleSegment 2 1 0).Filled := filled_sampleSegment (by decide) (by decide)
  refine ⟨_, @Runs.reachable_of_exec _ _ _ _ _ _ [.push _ hf, .submit (-11)] .start rfl, fun h => ?_⟩
  exact absurd h.accepted (by decide)

end Sample

end Sstoraged.AioAccounting
