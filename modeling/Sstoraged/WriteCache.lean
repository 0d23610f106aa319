import Sstoraged.LbaIndex
import Sstoraged.WriteSegment

namespace Sstoraged

/-- The segments in flight to the disk: the objects behind the shared pointers,
the next free address, and the indices by arrival and by LBA over the pointers. -/
structure WriteCache (B : Type) (ix : LbaIndex) where
  ws : Nat → WriteSegment B
  next : Nat
  fifo : List Nat
  byLba : ix.Tree

namespace WriteCache

variable {B : Type} {ix : LbaIndex}

def init : WriteCache B ix := ⟨fun _ => .new 0 0, 0, [], ix.empty⟩

def keys (c : WriteCache B ix) (p : Nat) : Nat := (c.ws p).rlba

/-- Step back from the lower bound to a segment that reaches over the LBA. The
iterators are suffixes of the index; the elements before them are reversed. -/
def stepBack (seg : Nat → WriteSegment B) (lba : Nat) :
    List Nat → List Nat → List Nat → List Nat
  | [], _, itr => itr
  | p :: before, bitr, itr =>
    if bitr.head?.all (fun q => decide (lba < (seg q).rlba ∨ (seg q).rlength = 0)) then
      if (seg p).rlength = 0 then stepBack seg lba before (p :: bitr) itr
      else if lba < (seg p).rtail then stepBack seg lba before (p :: bitr) (p :: bitr)
      else stepBack seg lba before (p :: bitr) itr
    else itr

def fillHits (seg : Nat → WriteSegment B) (lba transferLength : Nat) : List Nat → List Nat
  | [] => []
  | p :: itr =>
    if lba + transferLength ≤ (seg p).rlba then []
    else if 0 < (seg p).rlength then p :: fillHits seg lba transferLength itr
    else fillHits seg lba transferLength itr

def search (c : WriteCache B ix) (lba transferLength : Nat) : List Nat :=
  let all := ix.toList c.byLba
  let n := ix.lowerBound c.keys lba c.byLba
  fillHits c.ws lba transferLength
    (stepBack c.ws lba (all.take n).reverse (all.drop n) (all.drop n))

/-- Allocate a segment and put it at the end of the FIFO queue. -/
def pushBack (c : WriteCache B ix) (w : WriteSegment B) : WriteCache B ix :=
  let ws := Function.update c.ws c.next w
  ⟨ws, c.next + 1, c.fifo ++ [c.next], ix.insert (fun p => (ws p).rlba) c.next c.byLba⟩

/-- In-place change of a segment: the container is not told. -/
def modify (c : WriteCache B ix) (p : Nat) (f : WriteSegment B → WriteSegment B) :
    WriteCache B ix := { c with ws := Function.update c.ws p (f (c.ws p)) }

/-- Merge one hit with the new segment `w`. -/
def pushHit (w : WriteSegment B) (c : WriteCache B ix) (p : Nat) : WriteCache B ix :=
  let hit := c.ws p
  let hhead := hit.rlba
  let htail := hhead + hit.rlength
  let whead := w.lba
  let wtail := w.lba + w.transferLength
  if whead ≤ hhead ∧ htail ≤ wtail then
    c.modify p (fun h => { h with rlength := 0 })
  else if hhead < whead ∧ wtail < htail then
    let cs := hit.copyOf
    let cs := { cs with rlba := cs.lba + wtail - hhead, rlength := htail - wtail }
    (c.pushBack cs).modify p (fun h => { h with rlength := h.rlength - min (htail - whead) h.rlength })
  else if hhead < whead ∧ whead < htail ∧ htail ≤ wtail then
    c.modify p (fun h => { h with rlength := h.rlength - min (htail - whead) h.rlength })
  else if whead ≤ hhead ∧ hhead < wtail ∧ wtail < htail then
    let step := min (wtail - hhead) hit.rlength
    c.modify p (fun h => { h with rlba := h.rlba + step, rlength := h.rlength - step })
  else c

def push (c : WriteCache B ix) (w : WriteSegment B) : WriteCache B ix :=
  ((c.search w.lba w.transferLength).foldl (pushHit w) c).pushBack w

def pop (c : WriteCache B ix) : WriteCache B ix :=
  match c.fifo with
  | [] => c
  | p :: fifo => { c with fifo, byLba := ix.erase p c.byLba }

/-- Drop the copies in front of the FIFO queue. -/
def skipCopies (c : WriteCache B ix) : List Nat → WriteCache B ix
  | [] => c
  | p :: fifo => if (c.ws p).copy then skipCopies c.pop fifo else c

def front (c : WriteCache B ix) : Option Nat × WriteCache B ix :=
  let c := skipCopies c c.fifo
  (c.fifo.head?, c)

/-- The original behind the given one in the FIFO queue, or the front if there is
none given or it has left the queue. -/
def getNext (c : WriteCache B ix) (ws : Option Nat) : Option (Nat × WriteCache B ix) :=
  match ws with
  | some p =>
    if p ∈ c.fifo then
      ((c.fifo.dropWhile (· ≠ p)).tail.find? fun q => !(c.ws q).copy).map fun q => (q, c)
    else c.front.1.map fun q => (q, c.front.2)
  | none => c.front.1.map fun q => (q, c.front.2)

@[simp] theorem pushBack_ws (c : WriteCache B ix) (w : WriteSegment B) :
    (c.pushBack w).ws = Function.update c.ws c.next w := rfl

@[simp] theorem pushBack_next (c : WriteCache B ix) (w : WriteSegment B) :
    (c.pushBack w).next = c.next + 1 := rfl

@[simp] theorem pushBack_fifo (c : WriteCache B ix) (w : WriteSegment B) :
    (c.pushBack w).fifo = c.fifo ++ [c.next] := rfl

@[simp] theorem modify_ws (c : WriteCache B ix) (p : Nat) (f : WriteSegment B → WriteSegment B) :
    (c.modify p f).ws = Function.update c.ws p (f (c.ws p)) := rfl

@[simp] theorem modify_next (c : WriteCache B ix) (p : Nat) (f : WriteSegment B → WriteSegment B) :
    (c.modify p f).next = c.next := rfl

@[simp] theorem modify_fifo (c : WriteCache B ix) (p : Nat) (f : WriteSegment B → WriteSegment B) :
    (c.modify p f).fifo = c.fifo := rfl

@[simp] theorem modify_byLba (c : WriteCache B ix) (p : Nat) (f : WriteSegment B → WriteSegment B) :
    (c.modify p f).byLba = c.byLba := rfl

@[simp] theorem pop_ws (c : WriteCache B ix) : c.pop.ws = c.ws := by
  unfold pop
  split <;> rfl

@[simp] theorem pop_next (c : WriteCache B ix) : c.pop.next = c.next := by
  unfold pop
  split <;> rfl

@[simp] theorem pop_fifo_eq (c : WriteCache B ix) : c.pop.fifo = c.fifo.tail := by
  unfold pop
  split <;> simp [*]

theorem skipCopies_eq (fifo : List Nat) (c : WriteCache B ix) (hf : c.fifo = fifo) :
    (skipCopies c fifo).ws = c.ws ∧ (skipCopies c fifo).next = c.next ∧
      (skipCopies c fifo).fifo = fifo.dropWhile fun p => (c.ws p).copy := by
  induction fifo generalizing c with
  | nil => exact ⟨rfl, rfl, hf⟩
  | cons p fifo ih =>
    rw [skipCopies]
    cases hc : (c.ws p).copy with
    | true =>
      have hp := ih c.pop (by simp [hf])
      simpa [hc] using hp
    | false => simp [hc, hf]

@[simp] theorem front_ws (c : WriteCache B ix) : c.front.2.ws = c.ws := (skipCopies_eq c.fifo c rfl).1

@[simp] theorem front_next (c : WriteCache B ix) : c.front.2.next = c.next :=
  (skipCopies_eq c.fifo c rfl).2.1

theorem front_fifo (c : WriteCache B ix) :
    c.front.2.fifo = c.fifo.dropWhile fun p => (c.ws p).copy := (skipCopies_eq c.fifo c rfl).2.2

theorem front_fst (c : WriteCache B ix) :
    c.front.1 = (c.fifo.dropWhile fun p => (c.ws p).copy).head? := by
  rw [← front_fifo]
  rfl

/-- Index order: no key goes down, and live ranges do not overlap. -/
def Before (seg : Nat → WriteSegment B) (p q : Nat) : Prop :=
  (seg p).rlba ≤ (seg q).rlba ∧
    ((seg p).rlength = 0 ∨ (seg q).rlength = 0 ∨ (seg p).rtail ≤ (seg q).rlba)

def Tidy (c : WriteCache B ix) : Prop := (ix.toList c.byLba).Pairwise (Before c.ws)

/-- The segment takes part in a READ of the range. -/
def meets (seg : Nat → WriteSegment B) (lba transferLength p : Nat) : Bool :=
  decide ((seg p).rlength ≠ 0 ∧ lba < (seg p).rtail ∧ (seg p).rlba < lba + transferLength)

theorem meets_iff (seg : Nat → WriteSegment B) (lba len p : Nat) :
    meets seg lba len p = true ↔
      (seg p).rlength ≠ 0 ∧ lba < (seg p).rtail ∧ (seg p).rlba < lba + len := by
  simp [meets]

theorem fillHits_eq (seg : Nat → WriteSegment B) (lba len : Nat) (ps : List Nat)
    (hs : ps.Pairwise (Before seg)) :
    fillHits seg lba len ps =
      ps.filter (fun p => (seg p).rlength ≠ 0 ∧ (seg p).rlba < lba + len) := by
  induction ps with
  | nil => rfl
  | cons p ps ih =>
    obtain ⟨hp, hs⟩ := List.pairwise_cons.mp hs
    rw [fillHits]
    by_cases hstop : lba + len ≤ (seg p).rlba
    · rw [if_pos hstop, eq_comm, List.filter_eq_nil_iff]
      intro q hq
      have hpq : (seg p).rlba ≤ (seg q).rlba := by
        rcases List.mem_cons.mp hq with rfl | hq
        · exact le_rfl
        · exact (hp q hq).1
      simp only [ne_eq, decide_eq_true_eq, not_and, not_lt]
      omega
    · rw [if_neg hstop, ih hs]
      by_cases hl : 0 < (seg p).rlength
      · rw [if_pos hl, List.filter_cons_of_pos (by simp; omega)]
      · rw [if_neg hl, List.filter_cons_of_neg (by simp; omega)]

/-- Everything the walk leaves behind ends at or before the LBA, everything
from its result on reaches over it. -/
theorem stepBack_split (seg : Nat → WriteSegment B) (lba : Nat)
    (before mid itr : List Nat) (hs : (before.reverse ++ (mid ++ itr)).Pairwise (Before seg))
    (hb : ∀ p ∈ before, (seg p).rlba < lba)
    (hm : ∀ p ∈ mid, (seg p).rlength = 0 ∨ (seg p).rtail ≤ lba)
    (hi : ∀ p ∈ itr, (seg p).rlength = 0 ∨ lba < (seg p).rtail) :
    ∃ pre, before.reverse ++ (mid ++ itr) = pre ++ stepBack seg lba before (mid ++ itr) itr ∧
      (∀ p ∈ pre, (seg p).rlength = 0 ∨ (seg p).rtail ≤ lba) ∧
      ∀ p ∈ stepBack seg lba before (mid ++ itr) itr, (seg p).rlength = 0 ∨ lba < (seg p).rtail := by
  induction before generalizing mid itr with
  | nil => exact ⟨mid, rfl, hm, hi⟩
  | cons p before ih =>
    have hs' : (before.reverse ++ (p :: (mid ++ itr))).Pairwise (Before seg) := by
      simpa using hs
    have hb' : ∀ q ∈ before, (seg q).rlba < lba := fun q hq => hb q (List.mem_cons_of_mem _ hq)
    have hpm := (List.pairwise_cons.mp (List.pairwise_append.mp hs').2.1).1
    rw [stepBack]
    split
    · by_cases hd : (seg p).rlength = 0
      · rw [if_pos hd]
        obtain ⟨pre, he, h₁, h₂⟩ := ih (p :: mid) itr (by simpa using hs') hb'
          (by simpa [hd] using hm) hi
        exact ⟨pre, by simpa using he, h₁, h₂⟩
      · rw [if_neg hd]
        by_cases hr : lba < (seg p).rtail
        · rw [if_pos hr]
          -- nothing between a segment reaching over the LBA and the old result is alive
          have hi' : ∀ q ∈ p :: (mid ++ itr), (seg q).rlength = 0 ∨ lba < (seg q).rtail := by
            intro q hq
            rcases List.mem_cons.mp hq with rfl | hq
            · exact .inr hr
            rcases List.mem_append.mp hq with hq' | hq'
            · have hpq := (hpm q hq).2
              have hq'' := hm q hq'
              unfold WriteSegment.rtail at *
              omega
            · exact hi q hq'
          obtain ⟨pre, he, h₁, h₂⟩ := ih [] (p :: (mid ++ itr)) (by simpa using hs') hb' (by simp) hi'
          exact ⟨pre, by simpa using he, h₁, h₂⟩
        · rw [if_neg hr]
          have hm' : ∀ q ∈ p :: mid, (seg q).rlength = 0 ∨ (seg q).rtail ≤ lba := by
            intro q hq
            rcases List.mem_cons.mp hq with rfl | hq
            · exact .inr (by omega)
            · exact hm q hq
          obtain ⟨pre, he, h₁, h₂⟩ := ih (p :: mid) itr (by simpa using hs') hb' hm' hi
          exact ⟨pre, by simpa using he, h₁, h₂⟩
    · rename_i hstop
      refine ⟨(p :: before).reverse ++ mid, by simp, fun q hq => ?_, hi⟩
      rcases List.mem_append.mp hq with hq | hq
      · cases hbi : mid ++ itr with
        | nil => simp [hbi] at hstop
        | cons r rest =>
          simp only [hbi, List.head?_cons, Option.all_some, decide_eq_true_eq] at hstop
          have hqr := (List.pairwise_append.mp hs).2.2 q hq r (by simp [hbi])
          unfold Before at hqr
          omega
      · exact hm q hq

theorem mem_stepBack {seg : Nat → WriteSegment B} {lba p : Nat} (before : List Nat)
    {bitr itr : List Nat} (h : p ∈ stepBack seg lba before bitr itr) :
    p ∈ before ∨ p ∈ bitr ∨ p ∈ itr := by
  induction before generalizing bitr itr with
  | nil => exact .inr (.inr h)
  | cons q before ih =>
    rw [stepBack] at h
    split at h
    · split at h
      · have := ih h
        simp only [List.mem_cons] at this ⊢
        tauto
      split at h <;>
      · have := ih h
        simp only [List.mem_cons] at this ⊢
        tauto
    · exact .inr (.inr h)

theorem mem_fillHits {seg : Nat → WriteSegment B} {lba len p : Nat} (itr : List Nat)
    (h : p ∈ fillHits seg lba len itr) :
    p ∈ itr ∧ 0 < (seg p).rlength ∧ (seg p).rlba < lba + len := by
  induction itr with
  | nil => cases h
  | cons q itr ih =>
    rw [fillHits] at h
    split at h
    · cases h
    rename_i hlt
    split at h
    · rename_i hpos
      rcases List.mem_cons.mp h with rfl | h
      · exact ⟨by simp, hpos, by omega⟩
      · exact ⟨List.mem_cons_of_mem _ (ih h).1, (ih h).2⟩
    · exact ⟨List.mem_cons_of_mem _ (ih h).1, (ih h).2⟩

/-- Whatever the order of the index, a search finds live entries of it that
begin before the end of the range. -/
theorem mem_search {c : WriteCache B ix} {lba len p : Nat} (h : p ∈ c.search lba len) :
    p ∈ ix.toList c.byLba ∧ 0 < (c.ws p).rlength ∧ (c.ws p).rlba < lba + len := by
  obtain ⟨hm, hlive⟩ := mem_fillHits _ h
  refine ⟨?_, hlive⟩
  rcases mem_stepBack _ hm with hm | hm | hm
  · exact List.mem_of_mem_take (List.mem_reverse.mp hm)
  · exact List.mem_of_mem_drop hm
  · exact List.mem_of_mem_drop hm

theorem before_le {seg : Nat → WriteSegment B} {ps : List Nat} (h : ps.Pairwise (Before seg)) :
    LbaIndex.Sorted (fun p => (seg p).rlba) ps := h.imp fun hpq => hpq.1

/-- While the index is in order, a search finds exactly the live segments that
meet the range, in LBA order. -/
theorem search_eq_filter (hix : ix.Lawful) (c : WriteCache B ix) (ht : c.Tidy) (lba len : Nat) :
    c.search lba len = (ix.toList c.byLba).filter (meets c.ws lba len) := by
  obtain ⟨l, r, hlr, hn, hl, hr⟩ := hix.lowerBound_spec c.keys lba c.byLba (before_le ht)
  have hs : (l.reverse.reverse ++ ([] ++ r)).Pairwise (Before c.ws) := by
    rw [List.reverse_reverse, List.nil_append, ← hlr]
    exact ht
  have hri : ∀ p ∈ r, (c.ws p).rlength = 0 ∨ lba < (c.ws p).rtail := by
    intro p hp
    have hk := hr p hp
    unfold keys at hk
    unfold WriteSegment.rtail
    omega
  obtain ⟨pre, he, hpre, hres⟩ := stepBack_split c.ws lba l.reverse [] r hs
    (fun p hp => hl p (List.mem_reverse.mp hp)) (by simp) hri
  simp only [List.reverse_reverse, List.nil_append] at he hres
  have hsub : (stepBack c.ws lba l.reverse r r).Pairwise (Before c.ws) := by
    have hp : (pre ++ stepBack c.ws lba l.reverse r r).Pairwise (Before c.ws) := by
      rw [← he, ← hlr]
      exact ht
    exact (List.pairwise_append.mp hp).2.1
  have hnil : pre.filter (meets c.ws lba len) = [] := by
    rw [List.filter_eq_nil_iff]
    intro p hp
    have hpp := hpre p hp
    rw [meets_iff]
    omega
  have htake : (ix.toList c.byLba).take (ix.lowerBound c.keys lba c.byLba) = l := by
    rw [hn, hlr, List.take_left]
  have hdrop : (ix.toList c.byLba).drop (ix.lowerBound c.keys lba c.byLba) = r := by
    rw [hn, hlr, List.drop_left]
  rw [search, htake, hdrop, fillHits_eq _ _ _ _ hsub, hlr, he, List.filter_append, hnil,
    List.nil_append]
  apply List.filter_congr
  intro p hp
  have hpp := hres p hp
  simp only [meets, ne_eq, decide_eq_decide]
  omega

end WriteCache

end Sstoraged
