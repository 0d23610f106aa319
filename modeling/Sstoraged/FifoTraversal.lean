import Sstoraged.AioQueue
import Sstoraged.Runs

namespace Sstoraged.FifoTraversal

open WriteCache AioQueue Runs

variable {B : Type} {ix : LbaIndex}

/-- A cache, the element that its writer is at, and the history of what was pushed,
returned by `getNext` and popped. -/
structure State (B : Type) (ix : LbaIndex) where
  cache : WriteCache B ix
  current : Option Nat
  pushed : List Nat
  returned : List Nat
  popped : Nat

inductive Event (B : Type)
  | push (ws : WriteSegment B) (original : ws.copy = false)
  | getNext
  | pop

def start : State B ix := ⟨.init, none, [], [], 0⟩

/-- A pop follows a call of `front`, and each is for an element that `getNext` returned. -/
def step (s : State B ix) : Event B → Option (State B ix)
  | .push ws _ =>
    some { s with cache := s.cache.push ws, pushed := s.pushed ++ [(s.cache.push ws).next - 1] }
  | .getNext =>
    match s.cache.getNext s.current with
    | none => some s
    | some (p, cache) => some { s with cache, current := some p, returned := s.returned ++ [p] }
  | .pop =>
    if s.popped < s.returned.length then
      some { s with cache := s.cache.front.2.pop, popped := s.popped + 1 }
    else none

/-- Behind every copy there is an original. -/
def Backed (c : WriteCache B ix) : Prop :=
  ∀ l p r, c.fifo = l ++ p :: r → (c.ws p).copy = true → ∃ q ∈ r, (c.ws q).copy = false

/-- The last element is an original: only a push puts copies into the queue, and it puts
its segment behind them. -/
def Ended (c : WriteCache B ix) : Prop := ∀ p, c.fifo.getLast? = some p → (c.ws p).copy = false

/-- The queue against the history: `getNext` has returned the first elements that were
pushed, and the originals in the queue are those that were not popped. -/
structure Inv (s : State B ix) : Prop where
  ascending : Ascending s.cache
  ended : Ended s.cache
  keys : (s.pushed ++ [s.cache.next]).Pairwise (· < ·)
  uncopied : ∀ p ∈ s.pushed, (s.cache.ws p).copy = false
  queue : originals s.cache = s.pushed.drop s.popped
  returned : s.returned = s.pushed.take s.returned.length
  popped : s.popped ≤ s.returned.length
  current : s.current = s.returned.getLast?

variable {s s' : State B ix} {c : WriteCache B ix}

theorem Ended.backed (h : Ended c) : Backed c := by
  intro l p r hfifo hcopy
  cases hlast : r.getLast? with
  | none =>
    rw [List.getLast?_eq_none_iff] at hlast
    have hp := h p (by rw [hfifo, hlast, List.getLast?_concat])
    exact absurd (hcopy.symm.trans hp) Bool.noConfusion
  | some q =>
    refine ⟨q, List.mem_of_getLast? hlast, h q ?_⟩
    rw [hfifo, List.append_cons, List.getLast?_append, hlast]
    rfl

theorem Ended.front_ne_nil (h : Ended c) (hne : c.fifo ≠ []) : c.front.2.fifo ≠ [] := by
  rw [front_fifo]
  intro hnil
  obtain ⟨p, hp⟩ := Option.ne_none_iff_exists'.mp (mt List.getLast?_eq_none_iff.mp hne)
  have hcopy := List.dropWhile_eq_nil_iff.mp hnil p (List.mem_of_getLast? hp)
  exact absurd (hcopy.symm.trans (h p hp)) Bool.noConfusion

theorem Ended.suffix (h : Ended c) {c' : WriteCache B ix} (hws : c'.ws = c.ws)
    (hsuffix : c'.fifo <:+ c.fifo) :
    Ended c' := by
  obtain ⟨l, hl⟩ := hsuffix
  intro p hp
  rw [hws]
  refine h p ?_
  rw [← hl, List.getLast?_append, hp]
  rfl

theorem suffix_front (c : WriteCache B ix) : c.front.2.fifo <:+ c.fifo := by
  rw [front_fifo]
  exact List.dropWhile_suffix _

theorem getNext_suffix {cur : Option Nat} {p : Nat} {c' : WriteCache B ix}
    (h : c.getNext cur = some (p, c')) :
    c'.fifo <:+ c.fifo := by
  obtain rfl | rfl := getNext_cases h
  · exact List.suffix_rfl
  · exact suffix_front c

theorem Ended.pop (h : Ended c) : Ended c.front.2.pop := by
  refine h.suffix (by rw [pop_ws, front_ws]) ?_
  rw [pop_fifo_eq]
  exact (List.tail_suffix _).trans (suffix_front c)

theorem Ended.push {w : WriteSegment B} (hw : w.copy = false) : Ended (c.push w) := by
  intro p hp
  have hfifo : (c.push w).fifo = ((c.search w.lba w.transferLength).foldl (pushHit w) c).fifo ++
      [((c.search w.lba w.transferLength).foldl (pushHit w) c).next] := rfl
  rw [hfifo, List.getLast?_concat] at hp
  obtain rfl := Option.some.inj hp
  have hws : (c.push w).ws ((c.search w.lba w.transferLength).foldl (pushHit w) c).next = w :=
    Function.update_self ..
  rw [hws]
  exact hw

theorem inv_start : Inv (start : State B ix) :=
  ⟨List.pairwise_singleton _ _, nofun, List.pairwise_singleton _ _, nofun, rfl, rfl, Nat.le_refl _, rfl⟩

theorem inv_push (h : Inv s) {w : WriteSegment B} (hw : w.copy = false)
    (hs : step s (.push w hw) = some s') : Inv s' := by
  obtain rfl := Option.some.inj hs
  obtain ⟨p, hnext, hle, horiginals, hp, hasc, hsame⟩ := push_spec h.ascending hw
  have hkey : (s.cache.push w).next - 1 = p := by omega
  have hlt : ∀ q ∈ s.pushed, q < s.cache.next :=
    fun q hq => (List.pairwise_append.mp h.keys).2.2 q hq _ List.mem_cons_self
  have hlen : s.returned.length ≤ s.pushed.length := by
    rw [h.returned, List.length_take]
    exact Nat.min_le_right _ _
  refine ⟨hasc, Ended.push hw, ?_, ?_, ?_, ?_, h.popped, h.current⟩
  · dsimp only
    rw [hkey, hnext]
    refine List.pairwise_append.mpr ⟨List.pairwise_append.mpr ⟨(List.pairwise_append.mp h.keys).1,
      List.pairwise_singleton _ _, fun q hq r hr => ?_⟩, List.pairwise_singleton _ _,
        fun q hq r hr => ?_⟩
    · rw [List.mem_singleton.mp hr]
      exact (hlt q hq).trans_le hle
    · rw [List.mem_singleton.mp hr]
      obtain hq | hq := List.mem_append.mp hq
      · exact ((hlt q hq).trans_le hle).trans (Nat.lt_succ_self p)
      · rw [List.mem_singleton.mp hq]
        exact Nat.lt_succ_self p
  · intro q hq
    dsimp only at hq ⊢
    obtain hq | hq := List.mem_append.mp hq
    · rw [(hsame q (hlt q hq)).copy]
      exact h.uncopied q hq
    · rw [List.mem_singleton.mp hq, hkey, hp]
      exact hw
  · dsimp only
    rw [horiginals, h.queue, hkey, List.drop_append_of_le_length (h.popped.trans hlen)]
  · dsimp only
    rw [List.take_append_of_le_length hlen]
    exact h.returned

theorem inv_pop (h : Inv s) (hs : step s .pop = some s') : Inv s' := by
  rw [step] at hs
  split at hs
  swap
  · exact absurd hs nofun
  next hlt =>
  obtain rfl := Option.some.inj hs
  have hws : s.cache.front.2.pop.ws = s.cache.ws := by rw [pop_ws, front_ws]
  have hnext : s.cache.front.2.pop.next = s.cache.next := by rw [pop_next, front_next]
  refine ⟨front_pop_ascending h.ascending, h.ended.pop, ?_, ?_, ?_, h.returned, hlt, h.current⟩
  · dsimp only
    rw [hnext]
    exact h.keys
  · dsimp only
    rw [hws]
    exact h.uncopied
  · dsimp only
    rw [front_pop, h.queue, List.tail_drop]

theorem Inv.length_returned (h : Inv s) : s.returned.length ≤ s.pushed.length := by
  rw [h.returned, List.length_take]
  exact Nat.min_le_right _ _

theorem Inv.nodup (h : Inv s) : s.pushed.Nodup :=
  (List.pairwise_append.mp h.keys).1.imp fun hlt => hlt.ne

theorem Inv.current_eq (h : Inv s) {q : Nat} (hq : s.current = some q) :
    0 < s.returned.length ∧ s.pushed[s.returned.length - 1]? = some q := by
  rw [h.current] at hq
  have hpos : 0 < s.returned.length := List.length_pos_iff.mpr fun hnil => by
    rw [hnil] at hq; exact absurd hq nofun
  refine ⟨hpos, ?_⟩
  rw [List.getLast?_eq_getElem?, h.returned, List.length_take, Nat.min_eq_left h.length_returned,
    List.getElem?_take_of_lt (Nat.sub_lt hpos Nat.one_pos)] at hq
  exact hq

/-- The next element is the first that was pushed and not yet returned, whether or not
the current one is still in the queue. -/
theorem getNext_eq (h : Inv s) : (s.cache.getNext s.current).map Prod.fst =
    s.pushed[s.returned.length]? := by
  have hmem : ∀ q, q ∈ s.pushed.drop s.popped → q ∈ s.cache.fifo :=
    fun q hq => (List.mem_filter.mp (h.queue ▸ hq)).1
  by_cases hgone : ∀ q, s.current = some q → q ∉ s.cache.fifo
  · have hall : s.popped = s.returned.length := by
      cases hcur : s.current with
      | none =>
        have hnil := List.getLast?_eq_none_iff.mp (h.current.symm.trans hcur)
        have hpopped := h.popped
        rw [hnil] at hpopped ⊢
        exact Nat.le_zero.mp hpopped
      | some q =>
        obtain ⟨hpos, hq⟩ := h.current_eq hcur
        refine h.popped.antisymm (Nat.le_of_not_lt fun hlt => hgone q hcur (hmem q ?_))
        have hback : s.popped + (s.returned.length - 1 - s.popped) = s.returned.length - 1 := by omega
        rw [← hback, ← List.getElem?_drop] at hq
        exact List.mem_of_getElem? hq
    rw [getNext_fst_front hgone, h.queue, List.head?_drop, hall]
  · obtain ⟨q, hcur, hq⟩ : ∃ q, s.current = some q ∧ q ∈ s.cache.fifo := by
      by_contra hnone
      exact hgone fun q hcur hq => hnone ⟨q, hcur, hq⟩
    obtain ⟨hpos, hplace⟩ := h.current_eq hcur
    obtain ⟨l, r, hsplit, hnext⟩ := getNext_fst_behind hq (h.uncopied q (List.mem_of_getElem? hplace))
    rw [h.queue] at hsplit
    have hplace' : s.pushed[s.popped + l.length]? = some q := by
      rw [← List.getElem?_drop, hsplit]
      exact List.getElem?_append_right (Nat.le_refl _) |>.trans (by rw [Nat.sub_self]; rfl)
    have hindex : s.popped + l.length = s.returned.length - 1 := by
      refine (List.getElem?_inj ?_ h.nodup).mp (hplace'.trans hplace.symm)
      exact (List.getElem?_eq_some_iff.mp hplace').1
    have hlen : s.returned.length = s.popped + (l.length + 1) := by omega
    rw [hcur, hnext, hlen, ← List.getElem?_drop, hsplit,
      List.getElem?_append_right (Nat.le_add_right _ _),
      Nat.add_sub_cancel_left, List.getElem?_cons_succ, List.head?_eq_getElem?]

theorem inv_getNext (h : Inv s) (hs : step s .getNext = some s') : Inv s' := by
  have heq := getNext_eq h
  rw [step] at hs
  split at hs
  · obtain rfl := Option.some.inj hs
    exact h
  next p cache hnext =>
  obtain rfl := Option.some.inj hs
  rw [hnext, Option.map_some] at heq
  obtain ⟨hws, hkey, horiginals, hasc⟩ := getNext_frame h.ascending hnext
  have hended : Ended cache := h.ended.suffix hws (getNext_suffix hnext)
  refine ⟨hasc, hended, ?_, ?_, ?_, ?_, ?_, ?_⟩
  · dsimp only
    rw [hkey]
    exact h.keys
  · dsimp only
    rw [hws]
    exact h.uncopied
  · exact horiginals.trans h.queue
  · dsimp only
    rw [List.length_append, List.length_singleton, List.take_add_one, ← heq, ← h.returned]
    rfl
  · dsimp only
    rw [List.length_append]
    exact h.popped.trans (Nat.le_add_right _ _)
  · exact List.getLast?_concat.symm

theorem inv_of_reachable (h : Reachable start step (fun _ _ => True) s) : Inv s := by
  refine h.invariant Inv inv_start fun s e s' hi _ hs => ?_
  cases e with
  | push w hw => exact inv_push hi hw hs
  | getNext => exact inv_getNext hi hs
  | pop => exact inv_pop hi hs

/-- What holds of the traversal of a queue. -/
structure Traversed (s : State B ix) : Prop where
  backed : Backed s.cache
  front : s.cache.fifo ≠ [] → s.cache.front.2.fifo ≠ []
  inOrder : s.returned <+: s.pushed
  once : s.returned.Nodup
  uncopied : ∀ p ∈ s.returned, (s.cache.ws p).copy = false
  all : s.cache.getNext s.current = none → s.returned = s.pushed

/-- Whatever order the calls come in, no more pops than elements were returned, `getNext`
returns the originals in the order of the pushes, each once, and `front` finds one. -/
theorem traversed_of_reachable (s : State B ix) (h : Reachable start step (fun _ _ => True) s) :
    Traversed s := by
  have hi := inv_of_reachable h
  have hinitial : s.returned <+: s.pushed := hi.returned ▸ List.take_prefix _ _
  refine ⟨hi.ended.backed, hi.ended.front_ne_nil, hinitial, hi.nodup.sublist hinitial.sublist,
    fun p hp => ?_, fun hnone => ?_⟩
  · exact hi.uncopied p (hinitial.subset hp)
  · have heq := getNext_eq hi
    rw [hnone, Option.map_none] at heq
    rw [hi.returned]
    exact List.take_of_length_le (List.getElem?_eq_none_iff.mp heq.symm)

/-- A second WRITE splits the first one, which is popped before `getNext` goes on. -/
theorem traversed_split : ∃ s : State Unit LbaIndex.ofList,
    exec step start [.push (.new 0 8) rfl, .getNext, .push (.new 2 2) rfl, .pop, .getNext] = some s ∧
      s.pushed = [0, 2] ∧ s.returned = [0, 2] ∧ Traversed s :=
  ⟨_, rfl, rfl, rfl, traversed_of_reachable _ (@reachable_of_exec _ _ _ _ _ _
    [.push (.new 0 8) rfl, .getNext, .push (.new 2 2) rfl, .pop, .getNext] .start rfl)⟩

end Sstoraged.FifoTraversal
