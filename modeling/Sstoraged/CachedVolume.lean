import Sstoraged.SegmentWrites
import Sstoraged.WriteBack

namespace Sstoraged.CachedVolume

open DiskWriter DiskWork DiskFlush DiskView HandleMap SegmentWrites WriteCacheMerge WriteBack

variable {B : Type} {ix : LbaIndex} {mem : B → Nat → UInt8}

/-- Where a disk writer is in its work loop, which it leaves when a segment fails. -/
inductive Writer
  | idle
  | taken (p : Nat)
  | written (p : Nat)
  | failed (p : Nat)

def Writer.halted : Writer → Bool
  | .failed _ => true
  | _ => false

/-- The writer of a disk to which nothing of a segment that failed has come. -/
def Writer.logical : Writer → WriteBack.Writer
  | .idle => .idle
  | .taken p => .taken p
  | .written p => .written p
  | .failed p => .taken p

/-- The steps of a disk writer, with the answers to the calls for a segment. -/
inductive Flush
  | front
  | write (as : List Answer)
  | pop

def Flush.run (mem : B → Nat → UInt8) (handles : List (Nat × LowHandle)) :
    Flush → WriteCache B ix → Writer → Disk → Option (WriteCache B ix × Writer × Disk)
  | .front, c, .idle, files =>
    match c.front with
    | (some p, c) => some (c, .taken p, files)
    | (none, _) => none
  | .write as, c, .taken p, files =>
    (doSegment handles (c.ws p) as).map fun (ok, log, _) =>
      (c, if ok then .written p else .failed p, log.foldl (pwrite mem) files)
  | .pop, c, .written _, files => some (c.pop, .idle, files)
  | _, _, _, _ => none

/-- No call fails. -/
def Flush.Succeeds : Flush → Prop
  | .write as => .failed ∉ as
  | _ => True

/-- Each address of a volume of some blocks has a place of its own. -/
structure Placed (handles : List (Nat × LowHandle)) (size : Nat) : Prop where
  layout : Layout handles
  own : ∀ a, a < 512 * size → Own handles a

/-- A volume against the log of its pushes. The files show the logical disk, but for the
addresses of a segment that failed. -/
structure Kept (mem : B → Nat → UInt8) (bytes₀ shown : Nat → UInt8) (size : Nat)
    (c : WriteCache B ix) (w : Writer)
    (log : List (WriteSegment B)) (disk : Nat → UInt8) (popped : Nat) (org : Nat → Nat) : Prop where
  synced : Synced mem bytes₀ ⟨c, disk, w.logical, log⟩ popped org
  inside : ∀ ws ∈ log, ws.tail ≤ size
  shown : ∀ a, (w.halted = true → ∀ ws ∈ log[popped]?, ws.covers a = false) → shown a = disk a

/-- What is left to do for a disk writer whose calls do not fail. -/
def work (c : WriteCache B ix) (w : Writer) : Nat :=
  3 * c.fifo.length + match w with
    | .idle => 2
    | .taken _ => 1
    | .written _ | .failed _ => 0

variable {bytes₀ shown disk : Nat → UInt8} {size popped p : Nat} {c c' : WriteCache B ix} {w w' : Writer}
  {log : List (WriteSegment B)} {org : Nat → Nat}
  {handles : List (Nat × LowHandle)} {files files' : Disk}
  {ws : WriteSegment B} {f : Flush} {as as' : List Answer}

section run

theorem run_front (h : Flush.front.run mem handles c w files = some (c', w', files')) :
    ∃ p, w = .idle ∧ c.front = (some p, c') ∧ w' = .taken p ∧ files' = files := by
  cases w with
  | idle =>
    rw [Flush.run] at h
    split at h
    · next p c₁ hfront =>
      cases h
      exact ⟨p, rfl, hfront, rfl, rfl⟩
    · cases h
  | _ => cases h

theorem run_write (h : (Flush.write as).run mem handles c w files = some (c', w', files')) :
    ∃ p ok ps as', w = .taken p ∧ doSegment handles (c.ws p) as = some (ok, ps, as') ∧ c' = c ∧
      w' = (if ok then .written p else .failed p) ∧ files' = ps.foldl (pwrite mem) files := by
  cases w with
  | taken p =>
    obtain ⟨⟨ok, ps, as'⟩, hsegment, heq⟩ := Option.map_eq_some_iff.mp h
    cases heq
    exact ⟨p, ok, ps, as', rfl, hsegment, rfl, rfl, rfl⟩
  | _ => cases h

theorem run_pop (h : Flush.pop.run mem handles c w files = some (c', w', files')) :
    ∃ p, w = .written p ∧ c' = c.pop ∧ w' = .idle ∧ files' = files := by
  cases w with
  | written p =>
    cases h
    exact ⟨p, rfl, rfl, rfl, rfl⟩
  | _ => cases h

end run

section kept

theorem Kept.taken (h : Kept mem bytes₀ shown size c w log disk popped org) (hw : w.logical = .taken p) :
    ∃ v, log[popped]? = some v ∧ Of v (c.ws p) ∧ v.Filled ∧ v.tail ≤ size := by
  obtain ⟨hhead, hcopy⟩ := h.synced.held p (by dsimp only; rw [hw]; rfl)
  obtain ⟨rest, hfifo⟩ := List.head?_eq_some_iff.mp hhead
  obtain ⟨horg, -⟩ := org_front h.synced.queue hfifo hcopy
  obtain ⟨v, hv, hof⟩ := h.synced.holds.origin p (hfifo ▸ List.mem_cons_self)
  rw [horg] at hv
  have hmem := List.mem_of_getElem? hv
  exact ⟨v, hv, hof, h.synced.filled v hmem, h.inside v hmem⟩

theorem kept_start (hix : ix.Lawful) (bytes₀ : Nat → UInt8) (size : Nat) :
    Kept mem bytes₀ bytes₀ size (.init : WriteCache B ix) .idle [] bytes₀ 0 id :=
  ⟨synced_start hix bytes₀ id, fun _ hv => absurd hv List.not_mem_nil, fun _ _ => rfl⟩

theorem Kept.push (hix : ix.Lawful) (h : Kept mem bytes₀ shown size c w log disk popped org)
    (hf : ws.Filled)
    (hok : ∀ p ∈ c.search ws.lba ws.transferLength, WriteCacheMerge.Mergeable ws c p)
    (hin : ws.tail ≤ size) :
    ∃ org', Kept mem bytes₀ shown size (c.push ws) w (log ++ [ws]) disk popped org' := by
  obtain ⟨org', hsynced⟩ := synced_push hix h.synced hf hok
  refine ⟨org', hsynced, fun v hv => ?_, fun a ha => h.shown a fun hhalted v hv => ?_⟩
  · obtain hv | hv := List.mem_append.mp hv
    · exact h.inside v hv
    · rw [List.mem_singleton.mp hv]
      exact hin
  · refine ha hhalted v ?_
    rw [List.getElem?_append_left (List.getElem?_eq_some_iff.mp hv).1]
    exact hv

theorem Kept.front (hix : ix.Lawful) (h : Kept mem bytes₀ shown size c .idle log disk popped org)
    (hfront : c.front = (some p, c')) :
    Kept mem bytes₀ shown size c' (.taken p) log disk popped org := by
  have hsynced := synced_front hix h.synced rfl (congrArg Prod.fst hfront)
  dsimp only at hsynced
  rw [hfront] at hsynced
  exact ⟨hsynced, h.inside, fun a _ => h.shown a nofun⟩

theorem Kept.pop (hix : ix.Lawful) (h : Kept mem bytes₀ shown size c (.written p) log disk popped org) :
    Kept mem bytes₀ shown size c.pop .idle log disk (popped + 1) org :=
  ⟨synced_pop hix h.synced rfl, h.inside, fun a _ => h.shown a nofun⟩

theorem Kept.placed (h : Kept mem bytes₀ shown size c (.taken p) log disk popped org)
    (hpl : Placed handles size) :
    Whole handles (c.ws p) ∧ ∀ x ∈ image (c.ws p), Own handles x.1 := by
  obtain ⟨v, -, hof, hf, htail⟩ := h.taken rfl
  have hown : ∀ x ∈ image (c.ws p), Own handles x.1 := by
    intro x hx
    have hcovers := covers_of_mem_image hx
    rw [hof.covers_eq, WriteSegment.covers_iff] at hcovers
    exact hpl.own x.1 (by omega)
  refine ⟨⟨lacking_eq_zero ?_ ?_, fun x hx => ?_⟩, hown⟩
  · rw [hof.dsOffset]
    exact hf.inside
  · rw [hof.transferLength, hof.cbufs, hof.dsOffset]
    exact hf.enough
  · rw [isSome_placed]
    exact (hown x hx).isSome

theorem Kept.write (h : Kept mem bytes₀ (view handles files) size c (.taken p) log disk popped org)
    (hpl : Placed handles size) {ok : Bool} {ps : List (Piece B)}
    (hsegment : doSegment handles (c.ws p) as = some (ok, ps, as')) :
    ∃ disk', Kept mem bytes₀ (view handles (ps.foldl (pwrite mem) files)) size c
      (if ok then .written p else .failed p) log disk' popped org := by
  obtain ⟨hwhole, hown⟩ := h.placed hpl
  obtain ⟨v, hv, hof, hf, -⟩ := h.taken rfl
  obtain ⟨xs, hxs, hfiles, hall⟩ :=
    @stored_of_segment B mem handles files _ _ _ _ _ hpl.layout hwhole hsegment
  have hshown : view handles (ps.foldl (pwrite mem) files) = lay mem xs disk := by
    have hdisk : view handles files = disk := funext fun a => h.shown a nofun
    rw [hfiles, view_store fun x hx => hown x (hxs.subset hx), hdisk]
  cases ok with
  | true =>
    rw [hall rfl, lay_image (hof.dsOffset ▸ hf.inside)] at hshown
    exact ⟨_, synced_write h.synced rfl, h.inside, fun a _ => congrFun hshown a⟩
  | false =>
    refine ⟨disk, h.synced, h.inside, fun a ha => (congrFun hshown a).trans
      (lay_of_ne fun x hx heq => ?_)⟩
    have hcovers := covers_of_mem_image (hxs.subset hx)
    rw [hof.covers_eq, heq, ha rfl v hv] at hcovers
    exact absurd hcovers Bool.noConfusion

theorem Kept.flush (hix : ix.Lawful)
    (h : Kept mem bytes₀ (view handles files) size c w log disk popped org)
    (hpl : Placed handles size) (hrun : f.run mem handles c w files = some (c', w', files')) :
    ∃ disk' popped', Kept mem bytes₀ (view handles files') size c' w' log disk' popped' org := by
  cases f with
  | front =>
    obtain ⟨p, rfl, hfront, rfl, rfl⟩ := run_front hrun
    exact ⟨disk, popped, h.front hix hfront⟩
  | write as =>
    obtain ⟨p, ok, ps, as', rfl, hsegment, rfl, rfl, rfl⟩ := run_write hrun
    obtain ⟨disk', hkept⟩ := h.write hpl hsegment
    exact ⟨disk', popped, hkept⟩
  | pop =>
    obtain ⟨p, rfl, rfl, rfl, rfl⟩ := run_pop hrun
    exact ⟨disk, popped + 1, h.pop hix⟩

theorem Kept.view_flush (h : Kept mem bytes₀ (view handles files) size c w log disk popped org)
    (hpl : Placed handles size) (hrun : f.run mem handles c w files = some (c', w', files'))
    {handles' : List (Nat × LowHandle)}
    (hapart : ∀ a b place, placeAt handles a = some place → placeAt handles' b ≠ some place) :
    view handles' files' = view handles' files := by
  cases f with
  | front =>
    obtain ⟨p, -, -, -, rfl⟩ := run_front hrun
    rfl
  | write as =>
    obtain ⟨p, ok, ps, as', rfl, hsegment, -, -, rfl⟩ := run_write hrun
    obtain ⟨xs, -, hfiles, -⟩ := @stored_of_segment B mem handles files _ _ _ _ _ hpl.layout
      (h.placed hpl).1 hsegment
    rw [hfiles]
    exact view_store_of_ne fun x _ b place => hapart x.1 b place
  | pop =>
    obtain ⟨p, -, -, -, rfl⟩ := run_pop hrun
    rfl

theorem Kept.not_halted (h : Kept mem bytes₀ (view handles files) size c w log disk popped org)
    (hpl : Placed handles size) (hok : f.Succeeds)
    (hrun : f.run mem handles c w files = some (c', w', files')) :
    w'.halted = false := by
  cases f with
  | front =>
    obtain ⟨p, -, -, rfl, -⟩ := run_front hrun
    rfl
  | write as =>
    obtain ⟨p, ok, ps, as', rfl, hsegment, -, rfl, -⟩ := run_write hrun
    rw [doSegment_true hpl.layout (h.placed hpl).1 hok hsegment]
    rfl
  | pop =>
    obtain ⟨p, -, -, rfl, -⟩ := run_pop hrun
    rfl

end kept

section progress

/-- There is nothing to do. -/
def Quiet (c : WriteCache B ix) (w : Writer) : Prop := w = .idle ∧ c.fifo = []

theorem length_skipCopies (fifo : List Nat) {c : WriteCache B ix} (hf : c.fifo = fifo) :
    (WriteCache.skipCopies c fifo).fifo.length ≤ fifo.length := by
  induction fifo generalizing c with
  | nil => rw [WriteCache.skipCopies, hf]
  | cons p fifo ih =>
    rw [WriteCache.skipCopies]
    split_ifs
    · exact (ih (pop_fifo hf).1).trans (Nat.le_succ _)
    · rw [hf]

theorem not_failed_whole (ps : List (Piece B)) : .failed ∉ whole ps := by
  intro h
  obtain ⟨p, -, hp⟩ := List.mem_map.mp h
  cases hp

theorem Kept.exists_run (h : Kept mem bytes₀ (view handles files) size c w log disk popped org)
    (hpl : Placed handles size) (hhalted : w.halted = false) (hbusy : ¬ Quiet c w) :
    ∃ f c' w' files', f.Succeeds ∧ Flush.run mem handles f c w files = some (c', w', files') ∧
      work c' w' < work c w := by
  cases w with
  | idle =>
    obtain ⟨v', hstep⟩ := h.synced.front_enabled (fun hempty => hbusy ⟨rfl, hempty⟩) rfl
    obtain ⟨p, -, hfront, -⟩ := step_front mem hstep
    have hfront : c.front = (some p, c.front.2) := Prod.ext hfront rfl
    refine ⟨.front, c.front.2, .taken p, files, trivial, ?_, ?_⟩
    · rw [Flush.run, hfront]
    · have hle : c.front.2.fifo.length ≤ c.fifo.length := length_skipCopies c.fifo rfl
      simp only [work]
      omega
  | taken p =>
    obtain ⟨hwhole, -⟩ := h.placed hpl
    have hsegment := doSegment_whole handles (c.ws p) []
    have hperformed := (performed_eq_true_iff hpl.layout fun hne => hwhole.near hne).mpr hwhole
    rw [List.append_nil, hperformed] at hsegment
    refine ⟨.write (whole (performed handles (c.ws p)).2), c, .written p,
      (performed handles (c.ws p)).2.foldl (pwrite mem) files, not_failed_whole _, ?_,
        Nat.lt_succ_self _⟩
    rw [Flush.run, hsegment]
    rfl
  | written p =>
    obtain ⟨hhead, -⟩ := h.synced.held p rfl
    obtain ⟨rest, hfifo⟩ := List.head?_eq_some_iff.mp hhead
    refine ⟨.pop, c.pop, .idle, files, trivial, rfl, ?_⟩
    simp only [work, (pop_fifo hfifo).1, show c.fifo = p :: rest from hfifo, List.length_cons]
    omega
  | failed p => exact absurd hhalted Bool.noConfusion

end progress

end Sstoraged.CachedVolume
