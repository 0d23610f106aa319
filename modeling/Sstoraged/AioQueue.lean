import Mathlib.Data.List.Pairwise
import Sstoraged.WriteCache

namespace Sstoraged.AioQueue

open WriteCache

variable {B : Type} {ix : LbaIndex}

/-- What a segment keeps for its writer: no merge changes it. -/
structure Same (w e : WriteSegment B) : Prop where
  lba : e.lba = w.lba
  transferLength : e.transferLength = w.transferLength
  cbufs : e.cbufs = w.cbufs
  dsOffset : e.dsOffset = w.dsOffset
  copy : e.copy = w.copy

/-- The entries of the queue that are written out. -/
def originals (c : WriteCache B ix) : List Nat := c.fifo.filter fun p => !(c.ws p).copy

/-- The queue holds its entries in the order in which they were made. -/
def Ascending (c : WriteCache B ix) : Prop := (c.fifo ++ [c.next]).Pairwise (· < ·)

/-- The cache only gained copies at the end of the queue. -/
structure Extends (c c' : WriteCache B ix) : Prop where
  next : c.next ≤ c'.next
  news : ∃ new, c'.fifo = c.fifo ++ new ∧ ∀ q ∈ new, (c'.ws q).copy = true
  same : ∀ q, q < c.next → Same (c.ws q) (c'.ws q)
  ascending : Ascending c'

theorem Same.rfl' (w : WriteSegment B) : Same w w := ⟨rfl, rfl, rfl, rfl, rfl⟩

theorem Same.trans {w e f : WriteSegment B} (h : Same w e) (h' : Same e f) : Same w f :=
  ⟨h'.lba.trans h.lba, h'.transferLength.trans h.transferLength, h'.cbufs.trans h.cbufs,
    h'.dsOffset.trans h.dsOffset, h'.copy.trans h.copy⟩

theorem Ascending.lt {c : WriteCache B ix} (h : Ascending c) {p : Nat} (hp : p ∈ c.fifo) : p < c.next :=
  (List.pairwise_append.mp h).2.2 p hp c.next (by simp)

theorem Ascending.nodup {c : WriteCache B ix} (h : Ascending c) : c.fifo.Nodup :=
  ((List.pairwise_append.mp h).1).imp fun hpq => hpq.ne

theorem Ascending.sublist {c c' : WriteCache B ix} (h : Ascending c) (hn : c'.next = c.next)
    (hs : c'.fifo.Sublist c.fifo) : Ascending c' := by
  rw [Ascending, hn]
  exact List.Pairwise.sublist (hs.append (List.Sublist.refl _)) h

theorem extends_refl {c : WriteCache B ix} (h : Ascending c) : Extends c c :=
  ⟨le_rfl, ⟨[], by simp, by simp⟩, fun q _ => Same.rfl' (c.ws q), h⟩

theorem Extends.trans {c c' c'' : WriteCache B ix} (h : Extends c c')
    (h' : Extends c' c'') : Extends c c'' := by
  obtain ⟨new, hn, hcp⟩ := h.news
  obtain ⟨new', hn', hcp'⟩ := h'.news
  refine ⟨h.next.trans h'.next, ⟨new ++ new', by rw [hn', hn, List.append_assoc], fun q hq => ?_⟩,
    fun q hq => (h.same q hq).trans (h'.same q (hq.trans_le h.next)), h'.ascending⟩
  rcases List.mem_append.mp hq with hq | hq
  · have hlt : q < c'.next := h.ascending.lt (by rw [hn]; exact List.mem_append_right _ hq)
    rw [(h'.same q hlt).copy, hcp q hq]
  · exact hcp' q hq

theorem extends_modify {c : WriteCache B ix} (hc : Ascending c) (p : Nat)
    (f : WriteSegment B → WriteSegment B) (hf : ∀ e, Same e (f e)) : Extends c (c.modify p f) := by
  refine ⟨le_rfl, ⟨[], by simp, by simp⟩, fun q _ => ?_, hc⟩
  by_cases hq : q = p
  · subst hq
    rw [modify_ws, Function.update_self]
    exact hf _
  · rw [modify_ws, Function.update_of_ne hq]
    exact Same.rfl' _

theorem ascending_pushBack {c : WriteCache B ix} (hc : Ascending c) (e : WriteSegment B) :
    Ascending (c.pushBack e) := by
  rw [Ascending, pushBack_fifo, pushBack_next]
  refine List.pairwise_append.mpr ⟨hc, List.pairwise_singleton _ _, fun p hp q hq => ?_⟩
  rw [List.mem_singleton.mp hq]
  rcases List.mem_append.mp hp with hp | hp
  · exact (hc.lt hp).trans (Nat.lt_succ_self _)
  · rw [List.mem_singleton.mp hp]
    exact Nat.lt_succ_self _

theorem extends_pushBack {c : WriteCache B ix} (hc : Ascending c) (e : WriteSegment B)
    (he : e.copy = true) : Extends c (c.pushBack e) := by
  refine ⟨Nat.le_succ _, ⟨[c.next], rfl, ?_⟩, fun q hq => ?_, ascending_pushBack hc e⟩
  · simpa using he
  · rw [pushBack_ws, Function.update_of_ne hq.ne]
    exact Same.rfl' _

theorem pushHit_extends {c : WriteCache B ix} (hc : Ascending c) (w : WriteSegment B) (p : Nat) :
    Extends c (pushHit w c p) := by
  simp only [pushHit]
  split
  · exact extends_modify hc p _ fun e => ⟨rfl, rfl, rfl, rfl, rfl⟩
  split
  · have he := extends_pushBack hc { (c.ws p).copyOf with
      rlba := (c.ws p).copyOf.lba + (w.lba + w.transferLength) - (c.ws p).rlba
      rlength := (c.ws p).rlba + (c.ws p).rlength - (w.lba + w.transferLength) } rfl
    exact he.trans (extends_modify he.ascending p _ fun e => ⟨rfl, rfl, rfl, rfl, rfl⟩)
  split
  · exact extends_modify hc p _ fun e => ⟨rfl, rfl, rfl, rfl, rfl⟩
  split
  · exact extends_modify hc p _ fun e => ⟨rfl, rfl, rfl, rfl, rfl⟩
  · exact extends_refl hc

theorem foldl_extends (w : WriteSegment B) (ps : List Nat) {c : WriteCache B ix} (hc : Ascending c) :
    Extends c (ps.foldl (pushHit w) c) := by
  induction ps generalizing c with
  | nil => exact extends_refl hc
  | cons p ps ih =>
    have hp := pushHit_extends hc w p
    exact hp.trans (ih hp.ascending)

theorem push_spec {c : WriteCache B ix} (hc : Ascending c) {w : WriteSegment B} (hw : w.copy = false) :
    ∃ p, (c.push w).next = p + 1 ∧ c.next ≤ p ∧ originals (c.push w) = originals c ++ [p] ∧
      (c.push w).ws p = w ∧ Ascending (c.push w) ∧
      ∀ q, q < c.next → Same (c.ws q) ((c.push w).ws q) := by
  have he := foldl_extends w (c.search w.lba w.transferLength) hc
  obtain ⟨new, hn, hcp⟩ := he.news
  have hpush : c.push w = ((c.search w.lba w.transferLength).foldl (pushHit w) c).pushBack w := rfl
  generalize (c.search w.lba w.transferLength).foldl (pushHit w) c = c' at *
  have hws : ∀ q, q < c'.next → (c'.pushBack w).ws q = c'.ws q := fun q hq => by
    rw [pushBack_ws, Function.update_of_ne hq.ne]
  have hself : (c'.pushBack w).ws c'.next = w := by simp
  have hlt : ∀ q ∈ c'.fifo, q < c'.next := fun q hq => he.ascending.lt hq
  rw [hpush]
  refine ⟨c'.next, rfl, he.next, ?_, hself, ascending_pushBack he.ascending w, fun q hq => ?_⟩
  · have h₁ : c.fifo.filter (fun q => !((c'.pushBack w).ws q).copy) = originals c :=
      List.filter_congr fun q hq => by
        have hqc := hc.lt hq
        rw [hws q (hqc.trans_le he.next), (he.same q hqc).copy]
    have h₂ : new.filter (fun q => !((c'.pushBack w).ws q).copy) = [] := by
      apply List.filter_eq_nil_iff.mpr
      intro q hq
      rw [hws q (hlt q (by rw [hn]; exact List.mem_append_right _ hq)), hcp q hq]
      decide
    rw [originals, pushBack_fifo, hn, List.filter_append, List.filter_append, h₁, h₂, List.append_nil]
    simp [hw]
  · rw [hws q (hq.trans_le he.next)]
    exact he.same q hq

theorem filter_dropWhile {α : Type} (P : α → Bool) (l : List α) :
    (l.dropWhile P).filter (fun x => !P x) = l.filter fun x => !P x := by
  induction l with
  | nil => rfl
  | cons x l ih => cases h : P x <;> simp [h, ih]

theorem head?_dropWhile {α : Type} (P : α → Bool) (l : List α) :
    (l.dropWhile P).head? = (l.filter fun x => !P x).head? := by
  induction l with
  | nil => rfl
  | cons x l ih => cases h : P x <;> simp [h, ih]

theorem front_originals (c : WriteCache B ix) :
    c.front.1 = (originals c).head? ∧ originals c.front.2 = originals c := by
  rw [front_fst, originals, originals, front_ws, front_fifo]
  exact ⟨head?_dropWhile _ _, filter_dropWhile (fun p => (c.ws p).copy) c.fifo⟩

theorem front_ascending {c : WriteCache B ix} (h : Ascending c) : Ascending c.front.2 := by
  apply h.sublist (front_next c)
  rw [front_fifo]
  exact List.dropWhile_sublist _

theorem front_pop (c : WriteCache B ix) : originals c.front.2.pop = (originals c).tail := by
  obtain ⟨hh, ho⟩ := front_originals c
  rw [front_fst] at hh
  rw [← ho, originals, originals, pop_ws, front_ws, pop_fifo_eq, front_fifo]
  cases hd : c.fifo.dropWhile fun p => (c.ws p).copy with
  | nil => rfl
  | cons q rest =>
    have hq := List.head?_dropWhile_not (fun p => (c.ws p).copy) c.fifo
    rw [hd] at hq
    have hq' : (c.ws q).copy = false := by simpa using hq
    simp [hq']

theorem front_pop_ascending {c : WriteCache B ix} (h : Ascending c) : Ascending c.front.2.pop := by
  apply h.sublist (by simp)
  rw [pop_fifo_eq, front_fifo]
  exact (List.tail_sublist _).trans (List.dropWhile_sublist _)

theorem getNext_cases {c c' : WriteCache B ix} {cur : Option Nat} {p : Nat}
    (h : c.getNext cur = some (p, c')) :
    c' = c ∨ c' = c.front.2 := by
  have hfront : ∀ {o : Option Nat}, o.map (fun q => (q, c.front.2)) = some (p, c') → c' = c.front.2 := by
    intro o ho
    obtain ⟨q, -, hq⟩ := Option.map_eq_some_iff.mp ho
    exact (Prod.mk.inj hq).2.symm
  unfold getNext at h
  split at h
  · split at h
    · obtain ⟨q, -, hq⟩ := Option.map_eq_some_iff.mp h
      exact .inl (Prod.mk.inj hq).2.symm
    · exact .inr (hfront h)
  · exact .inr (hfront h)

theorem getNext_frame {c c' : WriteCache B ix} (hc : Ascending c) {cur : Option Nat} {p : Nat}
    (h : c.getNext cur = some (p, c')) :
    c'.ws = c.ws ∧ c'.next = c.next ∧ originals c' = originals c ∧ Ascending c' := by
  obtain rfl | rfl := getNext_cases h
  · exact ⟨rfl, rfl, rfl, hc⟩
  · exact ⟨front_ws c, front_next c, (front_originals c).2, front_ascending hc⟩

theorem getNext_fst_front {c : WriteCache B ix} {cur : Option Nat}
    (hcur : ∀ q, cur = some q → q ∉ c.fifo) :
    (c.getNext cur).map Prod.fst = (originals c).head? := by
  have hfront : (c.front.1.map fun q => (q, c.front.2)).map Prod.fst = (originals c).head? := by
    rw [Option.map_map, ← (front_originals c).1]
    exact Option.map_id'
  cases cur with
  | none => exact hfront
  | some q =>
    rw [getNext, if_neg (hcur q rfl)]
    exact hfront

theorem getNext_fst_behind {c : WriteCache B ix} {q : Nat} (hq : q ∈ c.fifo)
    (ho : (c.ws q).copy = false) :
    ∃ l r, originals c = l ++ q :: r ∧ (c.getNext (some q)).map Prod.fst = r.head? := by
  have hsplit := @List.takeWhile_append_dropWhile _ (fun x => decide (x ≠ q)) c.fifo
  rw [getNext, if_pos hq, Option.map_map]
  cases hd : c.fifo.dropWhile fun x => decide (x ≠ q) with
  | nil =>
    rw [hd, List.append_nil] at hsplit
    rw [← hsplit] at hq
    have := List.mem_takeWhile_imp hq
    simp at this
  | cons x r =>
    have hx := List.head?_dropWhile_not (fun x => decide (x ≠ q)) c.fifo
    rw [hd] at hx
    have hxq : x = q := by simpa using hx
    subst hxq
    refine ⟨(c.fifo.takeWhile fun y => decide (y ≠ x)).filter (fun y => !(c.ws y).copy),
      r.filter (fun y => !(c.ws y).copy), ?_, ?_⟩
    · rw [originals]
      conv_lhs => rw [← hsplit, hd]
      simp [ho]
    · rw [List.head?_filter]
      exact Option.map_id'

theorem getNext_front {c c' : WriteCache B ix} {cur : Option Nat} {p : Nat}
    (hcur : ∀ q, cur = some q → q ∉ c.fifo) (h : c.getNext cur = some (p, c')) :
    (originals c).head? = some p := by
  rw [← getNext_fst_front hcur, h]
  rfl

theorem getNext_behind {c c' : WriteCache B ix} {q p : Nat} (hq : q ∈ c.fifo)
    (ho : (c.ws q).copy = false) (h : c.getNext (some q) = some (p, c')) :
    ∃ l r, originals c = l ++ q :: r ∧ r.head? = some p := by
  obtain ⟨l, r, hsplit, hnext⟩ := getNext_fst_behind hq ho
  rw [h] at hnext
  exact ⟨l, r, hsplit, hnext.symm⟩

end Sstoraged.AioQueue
