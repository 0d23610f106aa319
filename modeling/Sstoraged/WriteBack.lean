import Sstoraged.DiskWriter
import Sstoraged.Runs
import Sstoraged.WriteCacheMerge

namespace Sstoraged.WriteBack

open WriteCache WriteCacheMerge

variable {B : Type} {ix : LbaIndex} (mem : B → Nat → UInt8)

/-- Where the disk writer is in its work loop. -/
inductive Writer
  | idle
  | taken (p : Nat)
  | written (p : Nat)

/-- The segment that the writer works on. -/
def Writer.held : Writer → Option Nat
  | .idle => none
  | .taken p => some p
  | .written p => some p

/-- How many segments are on the disk but not yet popped. -/
def Writer.ahead : Writer → Nat
  | .written _ => 1
  | _ => 0

/-- One logical volume: its cache, its disk image, the writer, and the history
of the segments that were pushed. -/
structure State (B : Type) (ix : LbaIndex) where
  cache : WriteCache B ix
  disk : Nat → UInt8
  writer : Writer
  pushed : List (WriteSegment B)

inductive Event (B : Type)
  | push (ws : WriteSegment B) (filled : ws.Filled)
  | front
  | write
  | pop

def start (disk₀ : Nat → UInt8) : State B ix := ⟨.init, disk₀, .idle, []⟩

def step (s : State B ix) : Event B → Option (State B ix)
  | .push ws _ => some { s with cache := s.cache.push ws, pushed := s.pushed ++ [ws] }
  | .front =>
    match s.writer, s.cache.front with
    | .idle, (some p, cache) => some { s with cache, writer := .taken p }
    | _, _ => none
  | .write =>
    match s.writer with
    | .taken p =>
      some { s with disk := DiskWriter.writeSegment mem (s.cache.ws p) s.disk, writer := .written p }
    | _ => none
  | .pop =>
    match s.writer with
    | .written _ => some { s with cache := s.cache.pop, writer := .idle }
    | _ => none

/-- The pushes whose hits are all mergeable. -/
def Mergeable (s : State B ix) : Event B → Prop
  | .push ws _ => ∀ p ∈ s.cache.search ws.lba ws.transferLength, WriteCacheMerge.Mergeable ws s.cache p
  | _ => True

theorem step_front {s s' : State B ix} (h : step mem s .front = some s') :
    ∃ p, s.writer = .idle ∧ s.cache.front.1 = some p ∧
      s' = { s with cache := s.cache.front.2, writer := .taken p } := by
  simp only [step] at h
  split at h
  · rename_i p cache hw hf
    cases h
    exact ⟨p, hw, by rw [hf], by rw [hf]⟩
  · cases h

theorem step_write {s s' : State B ix} (h : step mem s .write = some s') :
    ∃ p, s.writer = .taken p ∧ s' = { s with
      disk := DiskWriter.writeSegment mem (s.cache.ws p) s.disk, writer := .written p } := by
  simp only [step] at h
  split at h
  · rename_i p hw
    cases h
    exact ⟨p, hw, rfl⟩
  · cases h

theorem step_pop {s s' : State B ix} (h : step mem s .pop = some s') :
    ∃ p, s.writer = .written p ∧ s' = { s with cache := s.cache.pop, writer := .idle } := by
  simp only [step] at h
  split at h
  · rename_i p hw
    cases h
    exact ⟨p, hw, rfl⟩
  · cases h

/-- The FIFO queue against the log: the originals in it are the pushes not yet
popped, and each stands behind every entry of an earlier push. -/
structure Queue (c : WriteCache B ix) (pushed popped : Nat) (org : Nat → Nat) : Prop where
  le : popped ≤ pushed
  originals : (c.fifo.filter fun p => !(c.ws p).copy).map org = List.range' popped (pushed - popped)
  order : c.fifo.Pairwise fun p q => (c.ws q).copy = false → org p < org q
  last : ∀ p, c.fifo.getLast? = some p → (c.ws p).copy = false

theorem Queue.pushBack {c c' : WriteCache B ix} {n popped : Nat} {org org' : Nat → Nat}
    (h : Queue c n popped org) (hg : Grows c c' org org') (hfresh : ∀ p ∈ c'.fifo, p < c'.next)
    (hlt : ∀ p ∈ c'.fifo, org' p < n) {w : WriteSegment B} (hw : w.copy = false) :
    Queue (c'.pushBack w) (n + 1) popped (Function.update org' c'.next n) := by
  obtain ⟨new, hn, hnew⟩ := hg.news
  have hne : ∀ p ∈ c'.fifo, p ≠ c'.next := fun p hp => (hfresh p hp).ne
  have hcopy : ∀ p ∈ c.fifo, ((c'.pushBack w).ws p).copy = (c.ws p).copy := fun p hp => by
    have hp' : p ∈ c'.fifo := by
      rw [hn]
      exact List.mem_append_left _ hp
    simpa [hne p hp'] using hg.copy p hp
  have hcopy' : ∀ p ∈ new, ((c'.pushBack w).ws p).copy = true := fun p hp => by
    have hp' : p ∈ c'.fifo := by
      rw [hn]
      exact List.mem_append_right _ hp
    simpa [hne p hp'] using hnew p hp
  have horg : ∀ p ∈ c'.fifo, Function.update org' c'.next n p = org' p := fun p hp => by
    simp [hne p hp]
  have hself : ((c'.pushBack w).ws c'.next).copy = false := by simpa using hw
  have hle := h.le
  refine ⟨by omega, ?_, ?_, fun p hp => ?_⟩
  · have h₁ : c.fifo.filter (fun p => !((c'.pushBack w).ws p).copy) =
        c.fifo.filter fun p => !(c.ws p).copy :=
      List.filter_congr fun p hp => by rw [hcopy p hp]
    have h₂ : new.filter (fun p => !((c'.pushBack w).ws p).copy) = [] :=
      List.filter_eq_nil_iff.mpr fun p hp => by rw [hcopy' p hp]; decide
    have h₃ : (c.fifo.filter fun p => !(c.ws p).copy).map (Function.update org' c'.next n) =
        (c.fifo.filter fun p => !(c.ws p).copy).map org :=
      List.map_congr_left fun p hp => by
        have hp' := (List.mem_filter.mp hp).1
        rw [horg p (by rw [hn]; exact List.mem_append_left _ hp'), hg.org p hp']
    have hs : n + 1 - popped = n - popped + 1 := by omega
    have hr : popped + 1 * (n - popped) = n := by omega
    rw [pushBack_fifo, hn, List.filter_append, List.filter_append, h₁, h₂, List.append_nil,
      List.filter_cons_of_pos (by rw [hself]; decide), List.filter_nil, List.map_append, h₃, h.originals,
      List.map_singleton, Function.update_self, hs, List.range'_concat, hr]
  · rw [pushBack_fifo]
    refine List.pairwise_append.mpr ⟨?_, List.pairwise_singleton _ _, fun p hp q hq _ => ?_⟩
    · rw [hn]
      refine List.pairwise_append.mpr ⟨?_, ?_, fun p _ q hq hc => ?_⟩
      · refine h.order.imp_of_mem fun {p q} hp hq hpq hc => ?_
        rw [hcopy q hq] at hc
        rw [horg p (by rw [hn]; exact List.mem_append_left _ hp),
          horg q (by rw [hn]; exact List.mem_append_left _ hq), hg.org p hp, hg.org q hq]
        exact hpq hc
      · refine List.Pairwise.imp_of_mem (R := fun _ _ => True) (fun {p q} _ hq _ hc => ?_)
          (List.pairwise_of_forall fun _ _ => trivial)
        rw [hcopy' q hq] at hc
        cases hc
      · rw [hcopy' q hq] at hc
        cases hc
    · rw [List.mem_singleton.mp hq, horg p hp, Function.update_self]
      exact hlt p hp
  · rw [pushBack_fifo, List.getLast?_concat, Option.some.injEq] at hp
    rwa [← hp]

/-- The state against the log, with `popped` of its segments already popped. -/
structure Synced (disk₀ : Nat → UInt8) (s : State B ix) (popped : Nat) (org : Nat → Nat) : Prop where
  filled : ∀ w ∈ s.pushed, w.Filled
  holds : Holds (fun _ => False) s.cache s.pushed popped org
  queue : Queue s.cache s.pushed.length popped org
  disk : s.disk = Overlay.replay WriteSegment.covers (WriteSegment.val mem) disk₀
    (s.pushed.take (popped + s.writer.ahead))
  held : ∀ p, s.writer.held = some p → s.cache.fifo.head? = some p ∧ (s.cache.ws p).copy = false

theorem org_front {c : WriteCache B ix} {n popped : Nat} {org : Nat → Nat}
    (h : Queue c n popped org) {p : Nat} {rest : List Nat} (hf : c.fifo = p :: rest)
    (hc : (c.ws p).copy = false) : org p = popped ∧ popped < n := by
  have ho := h.originals
  rw [hf, List.filter_cons_of_pos (by simp [hc]), List.map_cons] at ho
  cases hn : n - popped with
  | zero =>
    rw [hn] at ho
    cases ho
  | succ m =>
    rw [hn, List.range'_succ] at ho
    exact ⟨(List.cons.inj ho).1, by omega⟩

theorem org_copy {c : WriteCache B ix} {n popped : Nat} {org : Nat → Nat}
    (h : Queue c n popped org) {p : Nat} {rest : List Nat} (hf : c.fifo = p :: rest)
    (hc : (c.ws p).copy = true) (hlt : org p < n) : org p < popped := by
  by_contra hge
  have hm : org p ∈ (c.fifo.filter fun q => !(c.ws q).copy).map org := by
    rw [h.originals, List.mem_range']
    exact ⟨org p - popped, by omega, by omega⟩
  obtain ⟨q, hq, heq⟩ := List.mem_map.mp hm
  obtain ⟨hq, hqc⟩ := List.mem_filter.mp hq
  have hqc' : (c.ws q).copy = false := by simpa using hqc
  rw [hf] at hq
  rcases List.mem_cons.mp hq with rfl | hq
  · rw [hc] at hqc'
    cases hqc'
  · have ho := h.order
    rw [hf] at ho
    have := (List.pairwise_cons.mp ho).1 q hq hqc'
    omega

theorem pop_fifo {c : WriteCache B ix} {p : Nat} {rest : List Nat} (hf : c.fifo = p :: rest) :
    c.pop.fifo = rest ∧ c.pop.ws = c.ws ∧ c.pop.next = c.next ∧
      c.pop.byLba = ix.erase p c.byLba := by
  simp [pop, hf]

theorem pop_holds (hix : ix.Lawful) {c : WriteCache B ix} {log : List (WriteSegment B)}
    {popped popped' : Nat} {org : Nat → Nat} (h : Holds (fun _ => False) c log popped org)
    {p : Nat} {rest : List Nat} (hf : c.fifo = p :: rest) (hle : popped ≤ popped')
    (hp : org p < popped') : Holds (fun _ => False) c.pop log popped' org := by
  obtain ⟨hfifo, hws, hnext, hby⟩ := pop_fifo hf
  have hmem : ∀ q ∈ rest, q ∈ c.fifo := fun q hq => by
    rw [hf]
    exact List.mem_cons_of_mem _ hq
  have hnd := h.nodup
  rw [hf] at hnd
  refine ⟨?_, ?_, ?_, ?_, ?_, ?_, ?_⟩
  · rw [hfifo, hby, hix.toList_erase]
    have hperm := h.perm.erase p
    rwa [hf, List.erase_cons_head] at hperm
  · rw [hfifo]
    exact (List.nodup_cons.mp hnd).2
  · rw [hfifo, hnext]
    exact fun q hq => h.fresh q (hmem q hq)
  · rw [Tidy, hby, hix.toList_erase, hws]
    exact List.Pairwise.sublist List.erase_sublist h.tidy
  · rw [hfifo, hws]
    exact fun q hq => h.origin q (hmem q hq)
  · rw [hfifo, hws]
    exact fun q hq => h.last q (hmem q hq)
  · rw [hfifo, hws]
    intro a j hh hj hjp
    obtain ⟨q, hq, ha⟩ := h.covered a j hh hj (by omega)
    rw [hf] at hq
    rcases List.mem_cons.mp hq with rfl | hq
    · have := (h.last q (by rw [hf]; simp) a ha).unique _ hj
      omega
    · exact ⟨q, hq, ha⟩

theorem pop_queue {c : WriteCache B ix} {n popped : Nat} {org : Nat → Nat}
    (h : Queue c n popped org) {p : Nat} {rest : List Nat} (hf : c.fifo = p :: rest) :
    Queue c.pop n (if (c.ws p).copy then popped else popped + 1) org := by
  obtain ⟨hfifo, hws, -, -⟩ := pop_fifo hf
  have ho := h.order
  rw [hf] at ho
  have hr := (List.pairwise_cons.mp ho).2
  have hlast : ∀ q, rest.getLast? = some q → (c.ws q).copy = false := fun q hq => by
    refine h.last q ?_
    rw [hf, List.getLast?_cons, hq]
    rfl
  have horig := h.originals
  have hle := h.le
  cases hc : (c.ws p).copy with
  | true =>
    rw [hf, List.filter_cons_of_neg (by simp [hc])] at horig
    exact ⟨hle, by rwa [hfifo, hws], by rwa [hfifo, hws], by rwa [hfifo, hws]⟩
  | false =>
    obtain ⟨hp, hlt⟩ := org_front h hf hc
    have hs : n - popped = n - (popped + 1) + 1 := by omega
    rw [hf, List.filter_cons_of_pos (by simp [hc]), List.map_cons, hs, List.range'_succ] at horig
    exact ⟨hlt, by rw [hfifo, hws]; exact (List.cons.inj horig).2, by rwa [hfifo, hws],
      by rwa [hfifo, hws]⟩

theorem skipCopies_head (fifo : List Nat) {c : WriteCache B ix} (hf : c.fifo = fifo)
    (h : ∃ p ∈ fifo, (c.ws p).copy = false) : ∃ p, (skipCopies c fifo).fifo.head? = some p := by
  induction fifo generalizing c with
  | nil => simp at h
  | cons p fifo ih =>
    rw [skipCopies]
    cases hc : (c.ws p).copy with
    | true =>
      obtain ⟨q, hq, hqc⟩ := h
      have hqp : q ∈ fifo := (List.mem_cons.mp hq).resolve_left fun he => by
        rw [he, hc] at hqc
        cases hqc
      exact ih (pop_fifo hf).1 ⟨q, hqp, by rwa [(pop_fifo hf).2.1]⟩
    | false => exact ⟨p, by simp [hf]⟩

theorem skipCopies_synced (hix : ix.Lawful) (fifo : List Nat) {c : WriteCache B ix}
    (hf : c.fifo = fifo) {log : List (WriteSegment B)} {popped : Nat} {org : Nat → Nat}
    (h : Holds (fun _ => False) c log popped org) (hq : Queue c log.length popped org) :
    Holds (fun _ => False) (skipCopies c fifo) log popped org ∧
      Queue (skipCopies c fifo) log.length popped org ∧
      ∀ p, (skipCopies c fifo).fifo.head? = some p → ((skipCopies c fifo).ws p).copy = false := by
  induction fifo generalizing c with
  | nil => exact ⟨h, hq, fun p hp => by rw [skipCopies, hf] at hp; cases hp⟩
  | cons p fifo ih =>
    rw [skipCopies]
    cases hc : (c.ws p).copy with
    | true =>
      rw [if_pos rfl]
      have hlt := org_copy hq hf hc (org_lt h (by rw [hf]; simp))
      have hq' := pop_queue hq hf
      rw [if_pos hc] at hq'
      exact ih (pop_fifo hf).1 (pop_holds hix h hf le_rfl hlt) hq'
    | false =>
      rw [if_neg (by simp)]
      refine ⟨h, hq, fun q hq => ?_⟩
      rw [hf, List.head?_cons, Option.some.injEq] at hq
      rwa [← hq]

variable {mem}

theorem synced_start (hix : ix.Lawful) (disk₀ : Nat → UInt8) (org : Nat → Nat) :
    Synced mem disk₀ (start disk₀ : State B ix) 0 org := by
  exact ⟨by simp [start], holds_init hix _ _ _,
    ⟨le_rfl, rfl, List.Pairwise.nil, by simp [start, WriteCache.init]⟩, rfl, by
      simp [start, Writer.held]⟩

theorem synced_push (hix : ix.Lawful) {disk₀ : Nat → UInt8} {s : State B ix} {popped : Nat}
    {org : Nat → Nat} (h : Synced mem disk₀ s popped org) {w : WriteSegment B} (hw : w.Filled)
    (hok : ∀ p ∈ s.cache.search w.lba w.transferLength, WriteCacheMerge.Mergeable w s.cache p) :
    ∃ org', Synced mem disk₀ { s with cache := s.cache.push w, pushed := s.pushed ++ [w] }
      popped org' := by
  obtain ⟨c', org', hpush, hg, hc, hh⟩ := push_holds hix h.holds hw.whole hw.positive hok
  refine ⟨_, ?_, hpush ▸ hh, ?_, ?_, fun p hp => ?_⟩
  · intro v hv
    rcases List.mem_append.mp hv with hv | hv
    · exact h.filled v hv
    · rwa [List.mem_singleton.mp hv]
  · rw [List.length_append, List.length_singleton, hpush]
    exact h.queue.pushBack hg hc.fresh (fun p hp => org_lt hc hp) hw.original
  · rw [List.take_append_of_le_length]
    · exact h.disk
    · cases hs : s.writer with
      | written p =>
        obtain ⟨hf, hcp⟩ := h.held p (by rw [hs]; rfl)
        obtain ⟨rest, hf⟩ := List.head?_eq_some_iff.mp hf
        exact (org_front h.queue hf hcp).2
      | _ => exact h.queue.le
  · obtain ⟨hf, hcp⟩ := h.held p hp
    obtain ⟨rest, hf⟩ := List.head?_eq_some_iff.mp hf
    obtain ⟨new, hn, -⟩ := hg.news
    have hpm : p ∈ s.cache.fifo := by simp [hf]
    have hpm' : p ∈ c'.fifo := by
      rw [hn]
      exact List.mem_append_left _ hpm
    show (s.cache.push w).fifo.head? = some p ∧ ((s.cache.push w).ws p).copy = false
    rw [hpush, pushBack_ws, Function.update_of_ne (hc.fresh p hpm').ne, hg.copy p hpm]
    exact ⟨by simp [hn, hf], hcp⟩

theorem synced_front (hix : ix.Lawful) {disk₀ : Nat → UInt8} {s : State B ix} {popped : Nat}
    {org : Nat → Nat} (h : Synced mem disk₀ s popped org) {p : Nat} (hi : s.writer = .idle)
    (hp : s.cache.front.1 = some p) :
    Synced mem disk₀ { s with cache := s.cache.front.2, writer := .taken p } popped org := by
  obtain ⟨hh, hq, hc⟩ := skipCopies_synced hix s.cache.fifo rfl h.holds h.queue
  have hd := h.disk
  rw [hi] at hd
  refine ⟨h.filled, hh, hq, hd, fun q hqp => ?_⟩
  cases hqp
  exact ⟨hp, hc p hp⟩

theorem synced_write {disk₀ : Nat → UInt8} {s : State B ix} {popped : Nat}
    {org : Nat → Nat} (h : Synced mem disk₀ s popped org) {p : Nat} (hp : s.writer = .taken p) :
    Synced mem disk₀ { s with
      disk := DiskWriter.writeSegment mem (s.cache.ws p) s.disk, writer := .written p }
        popped org := by
  obtain ⟨hf, hc⟩ := h.held p (by rw [hp]; rfl)
  obtain ⟨rest, hfr⟩ := List.head?_eq_some_iff.mp hf
  obtain ⟨horg, hlt⟩ := org_front h.queue hfr hc
  obtain ⟨w, hw, ho⟩ := h.holds.origin p (by simp [hfr])
  rw [horg] at hw
  have hd := h.disk
  rw [hp] at hd
  have hwf := (h.filled w (List.mem_of_getElem? hw)).enough
  refine ⟨h.filled, h.holds, h.queue, ?_, fun q hq => ?_⟩
  · show DiskWriter.writeSegment mem (s.cache.ws p) s.disk = _
    rw [DiskWriter.writeSegment_eq_store mem _ _ (by rwa [ho.transferLength, ho.cbufs, ho.dsOffset]), hd]
    show _ = Overlay.replay _ _ _ (s.pushed.take (popped + 1))
    rw [List.take_add_one, hw, Overlay.replay_append]
    simp only [Option.toList_some, Overlay.replay_cons, Overlay.replay_nil]
    show Overlay.store _ _ _ (Overlay.replay _ _ _ (s.pushed.take popped)) = _
    funext a
    simp only [Overlay.store, ho.covers_eq, ho.val_eq]
  · cases hq
    exact ⟨hf, hc⟩

theorem synced_pop (hix : ix.Lawful) {disk₀ : Nat → UInt8} {s : State B ix} {popped : Nat}
    {org : Nat → Nat} (h : Synced mem disk₀ s popped org) {p : Nat} (hp : s.writer = .written p) :
    Synced mem disk₀ { s with cache := s.cache.pop, writer := .idle } (popped + 1) org := by
  obtain ⟨hf, hc⟩ := h.held p (by rw [hp]; rfl)
  obtain ⟨rest, hfr⟩ := List.head?_eq_some_iff.mp hf
  obtain ⟨horg, hlt⟩ := org_front h.queue hfr hc
  have hd := h.disk
  rw [hp] at hd
  have hq := pop_queue h.queue hfr
  rw [hc] at hq
  exact ⟨h.filled, pop_holds hix h.holds hfr (by omega) (by omega), hq, hd,
    fun q hq => by cases hq⟩

theorem synced_step (hix : ix.Lawful) {disk₀ : Nat → UInt8} {s s' : State B ix} {popped : Nat}
    {org : Nat → Nat} (h : Synced mem disk₀ s popped org) (e : Event B) (hok : Mergeable s e)
    (hs : step mem s e = some s') : ∃ popped' org', Synced mem disk₀ s' popped' org' := by
  cases e with
  | push ws filled =>
    cases hs
    obtain ⟨org', h'⟩ := synced_push hix h filled hok
    exact ⟨popped, org', h'⟩
  | front =>
    obtain ⟨p, hi, hp, rfl⟩ := step_front mem hs
    exact ⟨popped, org, synced_front hix h hi hp⟩
  | write =>
    obtain ⟨p, hp, rfl⟩ := step_write mem hs
    exact ⟨popped, org, synced_write h hp⟩
  | pop =>
    obtain ⟨p, hp, rfl⟩ := step_pop mem hs
    exact ⟨popped + 1, org, synced_pop hix h hp⟩

theorem synced_of_reachable (hix : ix.Lawful) {disk₀ : Nat → UInt8} {s : State B ix}
    (h : Runs.Reachable (start disk₀) (step mem) Mergeable s) :
    ∃ popped org, Synced mem disk₀ s popped org :=
  h.invariant (fun s => ∃ popped org, Synced mem disk₀ s popped org)
    ⟨0, id, synced_start hix disk₀ id⟩
    fun _ e _ ⟨_, _, hs⟩ hok hstep => synced_step hix hs e hok hstep

/-- What an observer of every push expects to find at an address. -/
def expected (mem : B → Nat → UInt8) (disk₀ : Nat → UInt8) (pushed : List (WriteSegment B)) :
    Nat → UInt8 :=
  Overlay.expected WriteSegment.covers (WriteSegment.val mem) disk₀ pushed

theorem Synced.read_live {disk₀ : Nat → UInt8} {s : State B ix} {popped : Nat}
    {org : Nat → Nat} (h : Synced mem disk₀ s popped org) {p a : Nat}
    (hp : p ∈ ix.toList s.cache.byLba) (ha : Live (s.cache.ws p) a) :
    (s.cache.ws p).val mem a = expected mem disk₀ s.pushed a := by
  have hpf := (mem_byLba h.holds).mp hp
  obtain ⟨w, hw, ho⟩ := h.holds.origin p hpf
  have hl := h.holds.last p hpf a ha
  rw [expected, Overlay.expected_of_isLast _ _ _ hl hw, ho.val_eq]

theorem Synced.read_disk {disk₀ : Nat → UInt8} {s : State B ix} {popped : Nat}
    {org : Nat → Nat} (h : Synced mem disk₀ s popped org) {a : Nat}
    (ha : ∀ p ∈ ix.toList s.cache.byLba, ¬ Live (s.cache.ws p) a) :
    s.disk a = expected mem disk₀ s.pushed a := by
  rw [h.disk, expected]
  rcases Overlay.isLast_or_none WriteSegment.covers s.pushed a with ⟨j, hj⟩ | hn
  · refine Overlay.replay_take_of_isLast _ _ _ hj ?_
    by_contra hge
    obtain ⟨p, hp, hl⟩ := h.holds.covered a j id hj (by omega)
    exact ha p ((mem_byLba h.holds).mpr hp) hl
  · rw [Overlay.expected_of_none _ _ _ hn]
    exact Overlay.replay_outside _ _ _ _ _ fun w hw => hn w (List.mem_of_mem_take hw)

theorem Synced.front_enabled {disk₀ : Nat → UInt8} {s : State B ix}
    {popped : Nat} {org : Nat → Nat} (h : Synced mem disk₀ s popped org)
    (hne : s.cache.fifo ≠ []) (hi : s.writer = .idle) : ∃ s', step mem s .front = some s' := by
  have hlast := List.getLast?_eq_some_getLast hne
  obtain ⟨p, hp⟩ := skipCopies_head s.cache.fifo rfl
    ⟨_, List.getLast_mem hne, h.queue.last _ hlast⟩
  have hfr : s.cache.front = (some p, skipCopies s.cache s.cache.fifo) := by rw [front, hp]
  exact ⟨_, by simp only [step, hi, hfr]; rfl⟩

end Sstoraged.WriteBack
