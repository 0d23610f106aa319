import Sstoraged.ReadHandler
import Sstoraged.SendCache

namespace Sstoraged.ReadTiling

open ReadHandler

variable {B : Type} (lv : LogicalVolume)

def blocksOf (ts : List (Task B)) : List Nat := ts.flatMap Task.blocks

/-- The hits of a range up to the first that reaches its end. -/
def innerHits (e : Nat) (hits : List (WriteSegment B)) : List (WriteSegment B) :=
  hits.takeWhile fun h => decide (h.rtail < e)

/-- The first hit that reaches the end of the range. -/
def edge (e : Nat) (hits : List (WriteSegment B)) : Option (WriteSegment B) :=
  (hits.dropWhile fun h => decide (h.rtail < e)).head?

/-- How far the cached data reaches before that hit. -/
def reach (r e : Nat) (hits : List (WriteSegment B)) : Nat :=
  ((innerHits e hits).getLast?.map WriteSegment.rtail).getD r

/-- No hit ends before the one in front of it. -/
def InOrder (r e : Nat) (hits : List (WriteSegment B)) : Prop :=
  (∀ h ∈ innerHits e hits, r ≤ h.rtail) ∧ (innerHits e hits).Pairwise fun h k => h.rtail ≤ k.rtail

instance (r e : Nat) (hits : List (WriteSegment B)) : Decidable (InOrder r e hits) :=
  inferInstanceAs (Decidable (_ ∧ _))

/-- Where the cursor is left behind by a range whose hits are in order. -/
def cursor (r e : Nat) (hits : List (WriteSegment B)) : Nat :=
  match edge e hits with
  | none => e
  | some h => if h.rlba ≤ reach r e hits then e else reach r e hits + h.rlength

@[simp] theorem blocksOf_nil : blocksOf ([] : List (Task B)) = [] := rfl

@[simp] theorem blocksOf_cons (t : Task B) (ts : List (Task B)) :
    blocksOf (t :: ts) = t.blocks ++ blocksOf ts := rfl

@[simp] theorem blocks_sendfile (lba length : Nat) :
    (Task.sendfile (SendfileTask.new lv lba length) : Task B).blocks = List.range' lba length := by
  simp [Task.blocks, SendfileTask.new]

@[simp] theorem blocks_sendCache (ws : WriteSegment B) (lba length : Nat) :
    (Task.sendCache (SendCacheTask.new ws lba length)).blocks = List.range' lba length := by
  simp [Task.blocks, SendCache.totalRemain_new, SendCache.clba_new]

theorem range'_append_range' {a m e : Nat} (h₁ : a ≤ m) (h₂ : m ≤ e) :
    List.range' a (m - a) ++ List.range' m (e - m) = List.range' a (e - a) := by
  have hm : m = a + (m - a) := by omega
  have he : e - a = (m - a) + (e - m) := by omega
  conv_lhs => rw [hm]
  rw [he, ← hm, ← List.range'_append_1, ← hm]

theorem innerHits_cons (e : Nat) (h : WriteSegment B) (hits : List (WriteSegment B)) :
    innerHits e (h :: hits) = if h.rtail < e then h :: innerHits e hits else [] := by
  simp [innerHits, List.takeWhile_cons]

theorem edge_cons (e : Nat) (h : WriteSegment B) (hits : List (WriteSegment B)) :
    edge e (h :: hits) = if h.rtail < e then edge e hits else some h := by
  by_cases hc : h.rtail < e <;> simp [edge, hc]

theorem reach_cons_inner {e : Nat} {h : WriteSegment B} (hits : List (WriteSegment B)) (r : Nat)
    (hc : h.rtail < e) : reach r e (h :: hits) = reach h.rtail e hits := by
  rw [reach, innerHits_cons, if_pos hc, reach, List.getLast?_cons]
  cases (innerHits e hits).getLast? <;> rfl

theorem reach_cons_edge {e : Nat} {h : WriteSegment B} (hits : List (WriteSegment B)) (r : Nat)
    (hc : ¬ h.rtail < e) : reach r e (h :: hits) = r := by
  rw [reach, innerHits_cons, if_neg hc]
  rfl

theorem cursor_cons_inner {e : Nat} {h : WriteSegment B} (hits : List (WriteSegment B)) (r : Nat)
    (hc : h.rtail < e) : cursor r e (h :: hits) = cursor h.rtail e hits := by
  rw [cursor, edge_cons, if_pos hc, reach_cons_inner hits r hc, cursor]

theorem inOrder_cons_inner {e : Nat} {h : WriteSegment B} {hits : List (WriteSegment B)} {r : Nat}
    (hc : h.rtail < e) : InOrder r e (h :: hits) ↔ r ≤ h.rtail ∧ InOrder h.rtail e hits := by
  rw [InOrder, innerHits_cons, if_pos hc, List.pairwise_cons, InOrder]
  constructor
  · rintro ⟨hr, hh, hp⟩
    exact ⟨hr h (by simp), hh, hp⟩
  · rintro ⟨hr, hh, hp⟩
    refine ⟨fun k hk => ?_, hh, hp⟩
    rcases List.mem_cons.mp hk with rfl | hk
    · exact hr
    · exact hr.trans (hh k hk)

theorem inOrder_cons_edge {e : Nat} {h : WriteSegment B} {hits : List (WriteSegment B)} {r : Nat}
    (hc : ¬ h.rtail < e) : InOrder r e (h :: hits) := by
  rw [InOrder, innerHits_cons, if_neg hc]
  simp

/-- The hits as a range may meet them: they begin at its end at the latest and
their lengths are not cut off. -/
def Meeting (e : Nat) (hits : List (WriteSegment B)) : Prop :=
  ∀ h ∈ hits, h.rlba ≤ e ∧ h.rlength < 2 ^ 32

theorem sendCache_done (hits : List (WriteSegment B)) (r : Nat) : sendCache lv hits r 0 = ([], r) := by
  cases hits <;> simp [sendCache]

theorem sendCache_cons {h : WriteSegment B} {hits : List (WriteSegment B)} {r e : Nat} (hr : r < e)
    (he : e - r < 2 ^ 32) (hle : h.rlba ≤ e) (hlt : h.rlength < 2 ^ 32) (hc : r ≤ h.rtail) :
    sendCache lv (h :: hits) r (e - r) =
      if h.rlba ≤ r then
        (.sendCache (SendCacheTask.new h r (min h.rtail e - r)) ::
          (sendCache lv hits (min h.rtail e) (e - min h.rtail e)).1,
          (sendCache lv hits (min h.rtail e) (e - min h.rtail e)).2)
      else if e ≤ h.rtail then
        ([.sendfile (SendfileTask.new lv r (h.rlba - r)),
          .sendCache (SendCacheTask.new h h.rlba (e - h.rlba))], r + h.rlength)
      else
        (.sendfile (SendfileTask.new lv r (h.rlba - r)) ::
          .sendCache (SendCacheTask.new h h.rlba h.rlength) ::
            (sendCache lv hits h.rtail (e - h.rtail)).1,
              (sendCache lv hits h.rtail (e - h.rtail)).2) := by
  have hrt : h.rtail = h.rlba + h.rlength := rfl
  have hz : ¬ e - r = 0 := by omega
  have hre : r + (e - r) = e := by omega
  simp only [sendCache, if_neg hz, u32_natCast hlt, hre]
  by_cases h₁ : h.rlba ≤ r
  · simp only [if_pos h₁]
    have hhit : (if e < h.rlba + h.rlength then
        u32 (u32 ((h.rlength : Int) - (r - h.rlba)) - (h.rlba + h.rlength - r - (e - r : Nat)))
        else u32 ((h.rlength : Int) - (r - h.rlba))) = min h.rtail e - r := by
      unfold u32
      split <;> omega
    have htl : u32 (((e - r : Nat) : Int) - (min h.rtail e - r : Nat)) = e - min h.rtail e := by
      unfold u32
      omega
    have hcur : r + (min h.rtail e - r) = min h.rtail e := by omega
    simp only [hhit, htl, hcur]
  · simp only [if_neg h₁]
    have hmiss : u32 ((h.rlba : Int) - r) = h.rlba - r := u32_sub (by omega) (by omega)
    by_cases h₂ : e ≤ h.rtail
    · rw [if_pos h₂, if_pos (by omega)]
      have hrest : u32 (((e - r : Nat) : Int) - (h.rlba - r : Nat)) = e - h.rlba := by
        unfold u32
        omega
      have hcur : h.rlba + h.rlength - (h.rlba - r) = r + h.rlength := by omega
      simp only [hmiss, hrest, hcur]
    · rw [if_neg h₂, if_neg (by omega)]
      have hrest : u32 (((e - r : Nat) : Int) - (((h.rlba - r : Nat) : Int) + h.rlength)) =
          e - h.rtail := by
        unfold u32
        omega
      simp only [hmiss, hrest, ← hrt]

theorem sendCache_tiles (hits : List (WriteSegment B)) (r e : Nat) (hr : r < e) (he : e - r < 2 ^ 32)
    (hm : Meeting e hits) (ho : InOrder r e hits) :
    blocksOf (sendCache lv hits r (e - r)).1 = List.range' r (e - r) ∧
      (sendCache lv hits r (e - r)).2 = cursor r e hits := by
  induction hits generalizing r with
  | nil =>
    have hre : r + (e - r) = e := by omega
    have hp : 0 < e - r := by omega
    simp [sendCache, cursor, edge, hp, hre]
  | cons h hits ih =>
    obtain ⟨hle, hlt⟩ := hm h (by simp)
    have hm' : Meeting e hits := fun k hk => hm k (List.mem_cons_of_mem _ hk)
    have hrt : h.rtail = h.rlba + h.rlength := rfl
    by_cases hi : h.rtail < e
    · obtain ⟨hc, ho'⟩ := (inOrder_cons_inner hi).mp ho
      obtain ⟨ht, hcur⟩ := ih h.rtail hi (by omega) hm' ho'
      have hmin : min h.rtail e = h.rtail := by omega
      rw [sendCache_cons lv hr he hle hlt hc, cursor_cons_inner hits r hi, hmin]
      by_cases h₁ : h.rlba ≤ r
      · simp only [if_pos h₁, blocksOf_cons, blocks_sendCache, ht, hcur,
          range'_append_range' hc hi.le, and_self]
      · have hmid : h.rlength = h.rtail - h.rlba := by omega
        rw [if_neg h₁, if_neg (by omega), hmid]
        simp only [blocksOf_cons, blocks_sendCache, blocks_sendfile, ht, hcur, and_true]
        rw [range'_append_range' (by omega) hi.le, range'_append_range' (by omega) (by omega)]
    · have hmin : min h.rtail e = e := by omega
      rw [sendCache_cons lv hr he hle hlt (by omega), cursor, edge_cons, if_neg hi,
        reach_cons_edge hits r hi, hmin]
      by_cases h₁ : h.rlba ≤ r
      · simp [h₁, sendCache_done]
      · simp only [if_neg h₁, if_pos (show e ≤ h.rtail by omega), blocksOf_cons, blocks_sendCache,
          blocks_sendfile, blocksOf_nil, List.append_nil, and_true]
        exact range'_append_range' (by omega) hle

theorem sendCache_passed {h : WriteSegment B} {hits : List (WriteSegment B)} {r e : Nat} (hr : r < e)
    (he : e - r < 2 ^ 17) (hlt : h.rlength < 2 ^ 32) (hc : h.rtail < r) (hn : r - h.rtail < 2 ^ 17) :
    2 ^ 31 ≤ (blocksOf (sendCache lv (h :: hits) r (e - r)).1).length := by
  have hrt : h.rtail = h.rlba + h.rlength := rfl
  have hz : ¬ e - r = 0 := by omega
  have h₁ : h.rlba ≤ r := by omega
  have h₂ : ¬ r + (e - r) < h.rlba + h.rlength := by omega
  have hhit : 2 ^ 31 ≤ u32 ((h.rlength : Int) - (r - h.rlba)) := by
    unfold u32
    omega
  simp only [sendCache, if_neg hz, u32_natCast hlt, if_pos h₁, if_neg h₂, blocksOf_cons,
    blocks_sendCache, List.length_append, List.length_range']
  omega

theorem sendCache_overrun (hits : List (WriteSegment B)) (a r e : Nat) (ha : a ≤ r) (hr : r < e)
    (he : e - a < 2 ^ 17) (hm : Meeting e hits) (hs : ∀ h ∈ hits, a < h.rtail)
    (ho : ¬ InOrder r e hits) : 2 ^ 31 ≤ (blocksOf (sendCache lv hits r (e - r)).1).length := by
  induction hits generalizing r with
  | nil => exact absurd ⟨by simp [innerHits], by simp [innerHits]⟩ ho
  | cons h hits ih =>
    obtain ⟨hle, hlt⟩ := hm h (by simp)
    have hm' : Meeting e hits := fun k hk => hm k (List.mem_cons_of_mem _ hk)
    have hs' : ∀ k ∈ hits, a < k.rtail := fun k hk => hs k (List.mem_cons_of_mem _ hk)
    by_cases hc : h.rtail < r
    · have hah := hs h (by simp)
      exact sendCache_passed lv hr (by omega) hlt hc (by omega)
    · by_cases hi : h.rtail < e
      · have ho' : ¬ InOrder h.rtail e hits := fun h' => ho ((inOrder_cons_inner hi).mpr ⟨by omega, h'⟩)
        have hmin : min h.rtail e = h.rtail := by omega
        have hih := ih h.rtail (by omega) hi hm' hs' ho'
        rw [sendCache_cons lv hr (by omega) hle hlt (by omega), hmin]
        split
        · simp only [blocksOf_cons, List.length_append]
          omega
        · rw [if_neg (by omega)]
          simp only [blocksOf_cons, List.length_append]
          omega
      · exact absurd (inOrder_cons_edge hi) ho

theorem sendCache_head (hits : List (WriteSegment B)) (r tl : Nat) (htl : tl < 2 ^ 32)
    (hm : ∀ h ∈ hits, h.rlba < r + 2 ^ 32) :
    blocksOf (sendCache lv hits r tl).1 = [] ∨ (blocksOf (sendCache lv hits r tl).1).head? = some r := by
  have hhead : ∀ (n : Nat) (l : List Nat), 0 < n → (List.range' r n ++ l).head? = some r := by
    intro n l hn
    obtain ⟨m, rfl⟩ := Nat.exists_eq_add_of_lt hn
    simp [List.range'_succ]
  induction hits with
  | nil =>
    by_cases hz : 0 < tl
    · right
      simpa [sendCache, hz] using hhead tl [] hz
    · left
      simp [sendCache, hz]
  | cons h hits ih =>
    have hle := hm h (by simp)
    rw [sendCache]
    by_cases hz : tl = 0
    · simp [hz]
    rw [if_neg hz]
    by_cases h₁ : h.rlba ≤ r
    · simp only [if_pos h₁]
      generalize (if r + tl < h.rlba + u32 h.rlength then _ else _ : Nat) = n
      rcases Nat.eq_zero_or_pos n with rfl | hn
      · simpa [u32_natCast htl] using ih fun k hk => hm k (List.mem_cons_of_mem _ hk)
      · exact .inr (by simpa using hhead n _ hn)
    · have hmiss : u32 ((h.rlba : Int) - r) = h.rlba - r := u32_sub (by omega) (by omega)
      right
      simp only [if_neg h₁, hmiss]
      split <;>
      · simp only [blocksOf_cons, blocks_sendfile]
        exact hhead (h.rlba - r) _ (by omega)

end Sstoraged.ReadTiling
