import Sstoraged.ReadFormat

namespace Sstoraged.CacheTiling

open ReadHandler ReadTiling ReadFormat

variable {B : Type} (lv : LogicalVolume)

/-- The hits as `sendCache` is given them: live, sorted, pairwise disjoint, each
meeting the range. A length is a transfer length of at most 32 bits. -/
structure Hits (hits : List (WriteSegment B)) (rlba transferLength : Nat) : Prop where
  positive : ∀ h ∈ hits, 0 < h.rlength
  fits : ∀ h ∈ hits, h.rlength < 2 ^ 32
  sorted : hits.Pairwise fun h k => h.rlba ≤ k.rlba
  disjoint : hits.Pairwise fun h k => h.rtail ≤ k.rlba ∨ k.rtail ≤ h.rlba
  meets : ∀ h ∈ hits, rlba < h.rtail ∧ h.rlba < rlba + transferLength

/-- Blocks of a hit sent out of that hit, or blocks outside all hits sent from
their own address on the disk. -/
inductive Part (hits : List (WriteSegment B)) : Task B → Prop
  | hit (h : WriteSegment B) (lba length : Nat) : h ∈ hits → 0 < length → h.rlba ≤ lba →
      lba + length ≤ h.rtail → Part hits (.sendCache (SendCacheTask.new h lba length))
  | miss (lba length : Nat) : 0 < length → (∀ h ∈ hits, h.rtail ≤ lba ∨ lba + length ≤ h.rlba) →
      Part hits (.sendfile (SendfileTask.new lv lba length))

/-- The tasks send the range once and in order, and the cursor ends behind it. -/
structure Tiled (hits : List (WriteSegment B)) (rlba transferLength : Nat)
    (res : List (Task B) × Nat) : Prop where
  parts : ∀ t ∈ res.1, Part lv hits t
  blocks : blocksOf res.1 = List.range' rlba transferLength
  cursor : res.2 = rlba + transferLength

variable {lv}

theorem Hits.order {hits : List (WriteSegment B)} {r tl : Nat} (h : Hits hits r tl) :
    hits.Pairwise fun h k => h.rtail ≤ k.rlba := by
  refine (h.sorted.and h.disjoint).imp_of_mem fun {a b} ha hb ⟨hs, hd⟩ => ?_
  have hpos := h.positive b hb
  unfold WriteSegment.rtail at *
  omega

theorem Hits.meeting {hits : List (WriteSegment B)} {r tl : Nat} (h : Hits hits r tl) :
    Meeting (r + tl) hits := fun k hk => ⟨(h.meets k hk).2.le, h.fits k hk⟩

theorem Hits.inOrder {hits : List (WriteSegment B)} {r tl : Nat} (h : Hits hits r tl) :
    InOrder r (r + tl) hits := by
  have hsub : (innerHits (r + tl) hits).Sublist hits := List.takeWhile_sublist _
  refine ⟨fun k hk => (h.meets k (hsub.subset hk)).1.le, ?_⟩
  refine (h.order.imp fun {a b} hab => ?_).sublist hsub
  unfold WriteSegment.rtail at *
  omega

/-- The tasks of the hits that are left, when all hits before them end at or
before the cursor. -/
theorem parts_sendCache {all : List (WriteSegment B)} (hits : List (WriteSegment B)) {r e : Nat}
    (hr : r < e) (he : e - r < 2 ^ 32) (hh : Hits hits r (e - r)) (hsub : ∀ h ∈ hits, h ∈ all)
    (hall : ∀ h ∈ all, h ∈ hits ∨ h.rtail ≤ r) :
    ∀ t ∈ (sendCache lv hits r (e - r)).1, Part lv all t := by
  induction hits generalizing r with
  | nil =>
    have hz : 0 < e - r := by omega
    intro t ht
    rw [sendCache, if_pos hz, List.mem_singleton] at ht
    rw [ht]
    exact .miss r (e - r) hz fun h hm => .inl ((hall h hm).resolve_left List.not_mem_nil)
  | cons h hits ih =>
    have hm : h ∈ all := hsub h (by simp)
    obtain ⟨hra, hrb⟩ := hh.meets h (by simp)
    have hpos := hh.positive h (by simp)
    have hrt : h.rtail = h.rlba + h.rlength := rfl
    obtain ⟨hord, hrest⟩ := List.pairwise_cons.mp hh.order
    -- the rest of the range once the cursor stands behind this hit
    have htail : h.rtail < e → ∀ t ∈ (sendCache lv hits h.rtail (e - h.rtail)).1, Part lv all t := by
      intro hlt
      refine ih hlt (by omega) ?_ (fun k hk => hsub k (List.mem_cons_of_mem _ hk)) fun k hk => ?_
      · have hin : ∀ k ∈ hits, k ∈ h :: hits := fun k hk => List.mem_cons_of_mem _ hk
        refine ⟨fun k hk => hh.positive k (hin k hk), fun k hk => hh.fits k (hin k hk),
          (List.pairwise_cons.mp hh.sorted).2, (List.pairwise_cons.mp hh.disjoint).2, fun k hk => ?_⟩
        have h₁ := hord k hk
        have h₂ := hh.positive k (hin k hk)
        have h₃ := (hh.meets k (hin k hk)).2
        have h₄ : k.rtail = k.rlba + k.rlength := rfl
        omega
      · rcases hall k hk with hk | hk
        · rcases List.mem_cons.mp hk with rfl | hk
          · exact .inr le_rfl
          · exact .inl hk
        · exact .inr (by omega)
    have hgap : r < h.rlba → Part lv all (.sendfile (SendfileTask.new lv r (h.rlba - r))) := by
      intro hlt
      refine .miss r (h.rlba - r) (by omega) fun k hk => ?_
      rcases hall k hk with hk | hk
      · rcases List.mem_cons.mp hk with rfl | hk
        · exact .inr (by omega)
        · have := hord k hk
          exact .inr (by omega)
      · exact .inl hk
    rw [sendCache_cons lv hr he (by omega) (hh.fits h (by simp)) hra.le]
    by_cases h₁ : h.rlba ≤ r
    · rw [if_pos h₁]
      refine List.forall_mem_cons.mpr ⟨.hit h r _ hm (by omega) h₁ (by omega), ?_⟩
      by_cases hlt : h.rtail < e
      · rw [Nat.min_eq_left hlt.le]
        exact htail hlt
      · rw [Nat.min_eq_right (by omega), Nat.sub_self, sendCache_done]
        simp
    · rw [if_neg h₁]
      by_cases h₂ : e ≤ h.rtail
      · rw [if_pos h₂]
        refine List.forall_mem_cons.mpr ⟨hgap (by omega), List.forall_mem_singleton.mpr ?_⟩
        exact .hit h h.rlba _ hm (by omega) le_rfl (by omega)
      · rw [if_neg h₂]
        refine List.forall_mem_cons.mpr ⟨hgap (by omega),
          List.forall_mem_cons.mpr ⟨?_, htail (by omega)⟩⟩
        exact .hit h h.rlba _ hm hpos le_rfl hrt.ge

/-- The range is tiled, cursor included, exactly if the hit that reaches its end
begins no later than the cached data before it ends, or is exactly as long as
what is then left of the range. -/
theorem tiled_iff (lv : LogicalVolume) (hits : List (WriteSegment B)) (rlba transferLength : Nat)
    (hl : 0 < transferLength ∧ transferLength < 2 ^ 32) (hh : Hits hits rlba transferLength) :
    Tiled lv hits rlba transferLength (sendCache lv hits rlba transferLength) ↔
      ∀ h, edge (rlba + transferLength) hits = some h →
        h.rlba ≤ reach rlba (rlba + transferLength) hits ∨
          reach rlba (rlba + transferLength) hits + h.rlength = rlba + transferLength := by
  have hlen : rlba + transferLength - rlba = transferLength := by omega
  obtain ⟨hb, hc⟩ := sendCache_tiles lv hits rlba (rlba + transferLength) (by omega) (by omega)
    hh.meeting hh.inOrder
  have hp : ∀ t ∈ (sendCache lv hits rlba (rlba + transferLength - rlba)).1, Part lv hits t :=
    parts_sendCache hits (by omega) (by omega) (by rwa [hlen]) (fun h hm => hm) fun h hm => .inl hm
  rw [hlen] at hb hc hp
  rw [← ReadPlan.cursor_eq_iff, ← hc]
  exact ⟨fun h => h.cursor, fun h => ⟨hp, hb, h⟩⟩

/-- The first hit begins before the range, the second one ends before it does. -/
theorem tiled_two_hits :
    Tiled sampleVolume [sampleSegment 0 2 0, sampleSegment 4 2 0] 1 6
      (sendCache sampleVolume [sampleSegment 0 2 0, sampleSegment 4 2 0] 1 6) := by
  have hh : Hits [sampleSegment 0 2 0, sampleSegment 4 2 0] 1 6 :=
    ⟨by decide, by decide, by decide, by decide, by decide⟩
  refine (tiled_iff sampleVolume _ 1 6 ⟨by decide, by decide⟩ hh).mpr fun h he => ?_
  cases he

/-- A single hit behind two missed blocks leaves the cursor in the middle of the range. -/
theorem not_tiled_last_hit :
    Hits [sampleSegment 2 1 0] 0 3 ∧
      ¬ Tiled sampleVolume [sampleSegment 2 1 0] 0 3
        (sendCache sampleVolume [sampleSegment 2 1 0] 0 3) := by
  refine ⟨⟨by decide, by decide, by decide, by decide, by decide⟩, fun h => ?_⟩
  have hc : (sendCache sampleVolume [sampleSegment 2 1 0] 0 3).2 = 1 := by decide
  rw [h.cursor] at hc
  cases hc

end Sstoraged.CacheTiling
