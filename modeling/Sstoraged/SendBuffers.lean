import Sstoraged.Task
import Sstoraged.Transfer

namespace Sstoraged

namespace SendTask

def push (bufs : Nat → CommonBuf) (t : SendTask) (cbuf : Nat) : SendTask :=
  ⟨t.cbufs ++ [cbuf], u64 (t.totalRemain + (bufs cbuf).getRemain)⟩

/-- A call of `writev`: the buffers and the task in front of it, and its answer. -/
structure Writev where
  bufs : Nat → CommonBuf
  task : SendTask
  size : Int

/-- The calls of `writev` of one run. -/
def writevs (k : Kernel) : Nat → Nat → (Nat → CommonBuf) → SendTask → List Writev
  | 0, _, _, _ => []
  | fuel + 1, n, bufs, t =>
    if t.cbufs.isEmpty then []
    else
      let size := k.writev n (t.offered bufs)
      ⟨bufs, t, size⟩ ::
        (if size ≤ 0 then []
        else if size = t.offered bufs then []
        else
          let (t, bufs) := stepForward bufs t.cbufs t.totalRemain size.toNat
          writevs k fuel (n + 1) bufs t)

/-- The task is run until it is done, at most `m` times; with the calls of `writev`. -/
def runs (k : Kernel) : Nat → Nat → (Nat → CommonBuf) → SendTask → Bool × List Writev
  | 0, _, _, _ => (false, [])
  | m + 1, n, bufs, t =>
    let calls := writevs k (t.offered bufs + 1) n bufs t
    match t.run k n bufs with
    | (true, _, _, _) => (true, calls)
    | (false, t, bufs, n) =>
      let (done, calls') := runs k m n bufs t
      (done, calls ++ calls')

end SendTask

namespace SendBuffers

open SendTask Transfer

/-- The kernel takes at most what it is offered. -/
def Partial (k : Kernel) : Prop := ∀ n offered, k.writev n offered ≤ (offered : Nat)

/-- The unsent bytes of some buffers. -/
def unsent (mem : Nat → Nat → UInt8) (bufs : Nat → CommonBuf) (cbufs : List Nat) : List UInt8 :=
  cbufs.flatMap fun p => BufferChain.cells mem p (bufs p).offset (bufs p).getRemain

def Writev.attempt (mem : Nat → Nat → UInt8) (c : Writev) : Attempt UInt8 :=
  ⟨unsent mem c.bufs c.task.cbufs, c.size⟩

/-- The task counts what its buffers hold, and has each of them once. -/
structure Counted (bufs : Nat → CommonBuf) (t : SendTask) : Prop where
  nodup : t.cbufs.Nodup
  totalRemain : t.totalRemain = t.offered bufs
  fits : t.offered bufs < 2 ^ 64

variable {k : Kernel} {mem : Nat → Nat → UInt8} {bufs : Nat → CommonBuf} {t : SendTask}

theorem unsent_cons (mem : Nat → Nat → UInt8) (bufs : Nat → CommonBuf) (p : Nat)
    (cbufs : List Nat) : unsent mem bufs (p :: cbufs) =
    BufferChain.cells mem p (bufs p).offset (bufs p).getRemain ++ unsent mem bufs cbufs :=
  List.flatMap_cons

theorem length_unsent (mem : Nat → Nat → UInt8) (bufs : Nat → CommonBuf) (cbufs : List Nat) :
    (unsent mem bufs cbufs).length = (cbufs.map fun p => (bufs p).getRemain).sum := by
  induction cbufs with
  | nil => rfl
  | cons p cbufs ih =>
    rw [unsent_cons, List.length_append, BufferChain.length_cells, List.map_cons, List.sum_cons, ← ih]

theorem unsent_update {p : Nat} {cbufs : List Nat} (hp : p ∉ cbufs) (b : CommonBuf) :
    unsent mem (Function.update bufs p b) cbufs = unsent mem bufs cbufs := by
  apply List.flatMap_congr
  intro q hq
  have hqp : q ≠ p := fun h => hp (h ▸ hq)
  rw [Function.update_of_ne hqp]

theorem offered_eq_length (mem : Nat → Nat → UInt8) (bufs : Nat → CommonBuf) (t : SendTask) :
    t.offered bufs = (unsent mem bufs t.cbufs).length := (length_unsent mem bufs t.cbufs).symm

theorem stepForward_spec (mem : Nat → Nat → UInt8) (cbufs : List Nat) :
    ∀ {bufs : Nat → CommonBuf} {total tmp : Nat}, cbufs.Nodup →
    total = (unsent mem bufs cbufs).length → total < 2 ^ 64 → tmp ≤ total →
      ∃ t' bufs', stepForward bufs cbufs total tmp = (t', bufs') ∧ Counted bufs' t' ∧
        unsent mem bufs' t'.cbufs = (unsent mem bufs cbufs).drop tmp := by
  induction cbufs with
  | nil =>
    intro bufs total tmp hnodup htotal hfits htmp
    obtain rfl : total = 0 := htotal
    obtain rfl := Nat.le_zero.mp htmp
    exact ⟨_, _, rfl, ⟨hnodup, rfl, hfits⟩, rfl⟩
  | cons p cbufs ih =>
    intro bufs total tmp hnodup htotal hfits htmp
    obtain ⟨hp, hrest⟩ := List.nodup_cons.mp hnodup
    have hcons := unsent_cons mem bufs p cbufs
    have hsum : total = (bufs p).getRemain + (unsent mem bufs cbufs).length := by
      rw [htotal, hcons, List.length_append, BufferChain.length_cells]
    rw [stepForward]
    by_cases hzero : tmp = 0
    · subst hzero
      exact ⟨_, _, if_pos rfl, ⟨hnodup, by rw [offered_eq_length mem]; exact htotal, by
        rw [offered_eq_length mem]; exact htotal ▸ hfits⟩, rfl⟩
    rw [if_neg hzero]
    by_cases hwhole : (bufs p).getRemain ≤ tmp
    · rw [if_pos hwhole]
      have hu : u64 ((total : Int) - ((bufs p).getRemain : Nat)) = (unsent mem bufs cbufs).length := by
        rw [u64_sub (by omega) (by omega)]
        omega
      rw [hu]
      have hle : tmp - (bufs p).getRemain ≤ (unsent mem bufs cbufs).length := by omega
      obtain ⟨t', bufs', hstep, hcounted, hunsent⟩ := ih hrest rfl (by omega) hle
      have hdrop : (BufferChain.cells mem p (bufs p).offset (bufs p).getRemain).drop tmp = [] :=
        List.drop_eq_nil_of_le (by rwa [BufferChain.length_cells])
      refine ⟨t', bufs', hstep, hcounted, ?_⟩
      rw [hunsent, hcons, List.drop_append, hdrop, BufferChain.length_cells, List.nil_append]
    · rw [if_neg hwhole]
      have hlt : tmp < (bufs p).getRemain := Nat.lt_of_not_le hwhole
      have hstep : (bufs p).stepForwardOffset tmp = { bufs p with offset := (bufs p).offset + tmp } :=
        if_neg (Nat.not_lt.mpr (Nat.le_of_lt hlt))
      have hoffset : ((bufs p).stepForwardOffset tmp).offset = (bufs p).offset + tmp := by rw [hstep]
      have hremain : ((bufs p).stepForwardOffset tmp).getRemain = (bufs p).getRemain - tmp := by
        rw [hstep]
        exact Nat.sub_add_eq ..
      have hunsent : unsent mem (Function.update bufs p ((bufs p).stepForwardOffset tmp)) (p :: cbufs) =
          (unsent mem bufs (p :: cbufs)).drop tmp := by
        rw [unsent_cons, Function.update_self, unsent_update hp, hoffset, hremain, hcons,
          List.drop_append,
          BufferChain.drop_cells, BufferChain.length_cells,
            Nat.sub_eq_zero_of_le (Nat.le_of_lt hlt), List.drop_zero]
      have hu : u64 ((total : Int) - (tmp : Nat)) = total - tmp := u64_sub htmp (by omega)
      rw [hu]
      refine ⟨_, _, rfl, ⟨hnodup, ?_, ?_⟩, hunsent⟩
      · rw [offered_eq_length mem]
        dsimp only
        rw [hunsent, List.length_drop, ← htotal]
      · rw [offered_eq_length mem]
        dsimp only
        rw [hunsent, List.length_drop, ← htotal]
        omega

/-- What one run sends, and what it leaves: it is done just if nothing is left. -/
structure Ran (mem : Nat → Nat → UInt8) (bufs : Nat → CommonBuf) (t : SendTask) (calls : List Writev)
    (r : Bool × SendTask × (Nat → CommonBuf) × Nat) (rest : List UInt8) : Prop where
  resumes : Resumes (unsent mem bufs t.cbufs) (calls.map (Writev.attempt mem)) rest
  totals : ∀ c ∈ calls, c.task.totalRemain = c.task.offered c.bufs
  done : r.1 = true → rest = []
  again : r.1 = false → rest ≠ [] ∧ Counted r.2.2.1 r.2.1 ∧ unsent mem r.2.2.1 r.2.1.cbufs = rest

theorem runLoop_ran (hk : Partial k) (mem : Nat → Nat → UInt8) (fuel : Nat) :
    ∀ {n : Nat} {bufs : Nat → CommonBuf}
    {t : SendTask}, Counted bufs t → 0 < t.offered bufs → t.offered bufs < fuel →
      ∃ rest, Ran mem bufs t (writevs k fuel n bufs t) (runLoop k fuel n bufs t) rest := by
  induction fuel with
  | zero => exact fun _ _ hfuel => absurd hfuel (Nat.not_lt_zero _)
  | succ fuel ih =>
    intro n bufs t hc hpos hfuel
    have hlength := offered_eq_length mem bufs t
    have hsome : ¬ t.cbufs.isEmpty = true := by
      intro hempty
      rw [SendTask.offered, List.isEmpty_iff.mp hempty] at hpos
      exact absurd hpos (Nat.lt_irrefl _)
    have hunsent : unsent mem bufs t.cbufs ≠ [] := List.length_pos_iff.mp (hlength ▸ hpos)
    rw [writevs, runLoop, if_neg hsome, if_neg hsome]
    dsimp only
    have hle := hk n (t.offered bufs)
    have hfirst := resumes_single (unsent mem bufs t.cbufs) (k.writev n (t.offered bufs))
    by_cases herror : k.writev n (t.offered bufs) ≤ 0
    · rw [if_pos herror, if_pos herror]
      rw [Int.toNat_eq_zero.mpr herror, List.drop_zero] at hfirst
      refine ⟨_, hfirst, ?_, nofun, fun _ => ⟨hunsent, hc, rfl⟩⟩
      exact fun c hcall => List.mem_singleton.mp hcall ▸ hc.totalRemain
    by_cases hall : k.writev n (t.offered bufs) = t.offered bufs
    · rw [if_neg herror, if_neg herror, if_pos hall, if_pos hall]
      refine ⟨_, hfirst, ?_, fun _ => List.drop_eq_nil_of_le ?_, nofun⟩
      · exact fun c hcall => List.mem_singleton.mp hcall ▸ hc.totalRemain
      · rw [hall, Int.toNat_natCast]
        exact Nat.le_of_eq hlength.symm
    · rw [if_neg herror, if_neg herror, if_neg hall, if_neg hall]
      have htotal : t.totalRemain = (unsent mem bufs t.cbufs).length := hc.totalRemain.trans hlength
      have htmp : (k.writev n (t.offered bufs)).toNat ≤ t.totalRemain := by
        rw [hc.totalRemain]
        omega
      obtain ⟨t', bufs', hstep, hcounted, hrest⟩ :=
        stepForward_spec mem t.cbufs hc.nodup htotal (hc.totalRemain ▸ hc.fits) htmp
      have hlength' : t'.offered bufs' = t.offered bufs - (k.writev n (t.offered bufs)).toNat := by
        rw [offered_eq_length mem, hrest, List.length_drop, hlength]
      rw [hstep]
      obtain ⟨rest, hran⟩ := ih (n := n + 1) hcounted (by omega) (by omega)
      refine ⟨rest, .cons (hrest ▸ hran.resumes), fun c hcall => ?_, hran.done, hran.again⟩
      obtain rfl | hcall := List.mem_cons.mp hcall
      · exact hc.totalRemain
      · exact hran.totals c hcall

/-- The runs of a task until it is done send its bytes in order, each once. -/
structure SendsOnce (mem : Nat → Nat → UInt8) (bufs : Nat → CommonBuf) (t : SendTask)
    (r : Bool × List Writev) : Prop where
  inOrder : delivered (r.2.map (Writev.attempt mem)) <+: unsent mem bufs t.cbufs
  totals : ∀ c ∈ r.2, c.task.totalRemain = c.task.offered c.bufs
  done : r.1 = true ↔ delivered (r.2.map (Writev.attempt mem)) = unsent mem bufs t.cbufs

theorem runs_resumes (hk : Partial k) (mem : Nat → Nat → UInt8) (m : Nat) :
    ∀ {n : Nat} {bufs : Nat → CommonBuf}
    {t : SendTask}, Counted bufs t → 0 < t.offered bufs → ∃ rest,
      Resumes (unsent mem bufs t.cbufs) ((runs k m n bufs t).2.map (Writev.attempt mem)) rest ∧
        (∀ c ∈ (runs k m n bufs t).2, c.task.totalRemain = c.task.offered c.bufs) ∧
          ((runs k m n bufs t).1 = true ↔ rest = []) := by
  induction m with
  | zero =>
    intro n bufs t hc hpos
    have hunsent : unsent mem bufs t.cbufs ≠ [] :=
      List.length_pos_iff.mp (offered_eq_length mem bufs t ▸ hpos)
    exact ⟨_, .nil _, fun _ h => absurd h List.not_mem_nil, ⟨nofun, fun h => absurd h hunsent⟩⟩
  | succ m ih =>
    intro n bufs t hc hpos
    obtain ⟨rest, hran⟩ := runLoop_ran hk mem (t.offered bufs + 1) (n := n) hc hpos (Nat.lt_succ_self _)
    rw [runs, SendTask.run]
    dsimp only
    split
    · next hrun =>
      rw [hrun] at hran
      exact ⟨rest, hran.resumes, hran.totals, iff_of_true rfl (hran.done rfl)⟩
    · next t' bufs' n' hrun =>
      rw [hrun] at hran
      obtain ⟨hne, hcounted, hrest⟩ := hran.again rfl
      have hpos' : 0 < t'.offered bufs' := by
        rw [offered_eq_length mem, hrest]
        exact List.length_pos_iff.mpr hne
      obtain ⟨rest', hresumes, htotals, hdone⟩ := ih (n := n') hcounted hpos'
      refine ⟨rest', ?_, fun c hcall => ?_, hdone⟩
      · rw [List.map_append]
        exact hran.resumes.append (hrest ▸ hresumes)
      · exact (List.mem_append.mp hcall).elim (hran.totals c) (htotals c)

theorem sendsOnce_of_counted (hk : Partial k) (m n : Nat) (hc : Counted bufs t)
    (hpos : 0 < t.offered bufs) :
    SendsOnce mem bufs t (runs k m n bufs t) := by
  obtain ⟨rest, hresumes, htotals, hdone⟩ := runs_resumes hk mem m (n := n) hc hpos
  exact ⟨hresumes.delivered_initial, htotals, hdone.trans hresumes.delivered_eq_iff.symm⟩

theorem counted_push {cbufs : List Nat} (hc : t.totalRemain = t.offered bufs)
    (hfits : ((t.cbufs ++ cbufs).map fun p => (bufs p).getRemain).sum < 2 ^ 64) :
    let t' := cbufs.foldl (SendTask.push bufs) t
    t'.cbufs = t.cbufs ++ cbufs ∧ t'.totalRemain = t'.offered bufs := by
  induction cbufs generalizing t with
  | nil => exact ⟨(List.append_nil _).symm, hc⟩
  | cons p cbufs ih =>
    have happ : (t.push bufs p).cbufs ++ cbufs = t.cbufs ++ p :: cbufs := List.append_assoc ..
    have hoffered : (t.push bufs p).offered bufs = t.offered bufs + (bufs p).getRemain := by
      unfold SendTask.offered SendTask.push
      rw [List.map_append, List.sum_append, List.map_singleton, List.sum_singleton]
    have hu : (t.push bufs p).totalRemain = (t.push bufs p).offered bufs := by
      have hle : t.offered bufs + (bufs p).getRemain < 2 ^ 64 := by
        rw [List.map_append, List.sum_append, List.map_cons, List.sum_cons] at hfits
        unfold SendTask.offered
        omega
      rw [hoffered]
      unfold SendTask.push u64
      dsimp only
      omega
    obtain ⟨hcbufs, htotal⟩ := ih hu (happ ▸ hfits)
    exact ⟨hcbufs.trans happ, htotal⟩

/-- A task that is built of distinct buffers sends their unsent bytes once, in order,
however its calls are answered, and is done just when all are sent. -/
theorem sends_once (k : Kernel) (hk : Partial k) (mem : Nat → Nat → UInt8) (bufs : Nat → CommonBuf)
    (p : Nat) (cbufs : List Nat) (m n : Nat) (hnodup : (p :: cbufs).Nodup)
    (hpos : 0 < ((p :: cbufs).map fun p => (bufs p).getRemain).sum)
    (hfits : ((p :: cbufs).map fun p => (bufs p).getRemain).sum < 2 ^ 64) :
    SendsOnce mem bufs (cbufs.foldl (SendTask.push bufs) (SendTask.new bufs p))
      (runs k m n bufs (cbufs.foldl (SendTask.push bufs) (SendTask.new bufs p))) := by
  have hnew : (SendTask.new bufs p).totalRemain = (SendTask.new bufs p).offered bufs :=
    (Nat.add_zero _).symm
  obtain ⟨hcbufs, htotal⟩ := counted_push hnew hfits
  have hoffered : SendTask.offered bufs (cbufs.foldl (SendTask.push bufs) (SendTask.new bufs p)) =
      ((p :: cbufs).map fun p => (bufs p).getRemain).sum := by
    unfold SendTask.offered
    rw [hcbufs]
    rfl
  refine sendsOnce_of_counted hk m n ⟨?_, htotal, ?_⟩ ?_
  · rw [hcbufs]
    exact hnodup
  · rw [hoffered]
    exact hfits
  · rw [hoffered]
    exact hpos

/-- Takes four bytes, then none, then all that it is offered. -/
def sampleWritev : Kernel :=
  ⟨fun n offered => if n = 0 then min 4 offered else if n = 1 then -1 else offered, fun _ _ => 0⟩

/-- Two buffers of three bytes each, in two runs. -/
theorem sends_two_buffers : (runs sampleWritev 2 0 (fun _ => ⟨1, 4⟩) ⟨[0, 1], 6⟩).1 = true ∧
    SendsOnce (fun p i => .ofNat (10 * p + i)) (fun _ => ⟨1, 4⟩) ⟨[0, 1], 6⟩
      (runs sampleWritev 2 0 (fun _ => ⟨1, 4⟩) ⟨[0, 1], 6⟩) := by
  have hk : Partial sampleWritev := by
    intro n offered
    unfold sampleWritev
    dsimp only
    split
    · omega
    · split <;> omega
  exact ⟨by decide, sends_once sampleWritev hk (fun p i => .ofNat (10 * p + i))
    (fun _ => ⟨1, 4⟩) 0 [1] 2 0
    (by decide) (by decide) (by decide)⟩

end SendBuffers

end Sstoraged
