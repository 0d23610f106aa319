import Sstoraged.ReadTiling

namespace Sstoraged.ReadPlan

open ReadHandler ReadTiling

variable {B : Type} {ix : LbaIndex}

/-- Split a queue into its headers, each with the tasks that follow it. The
tasks before the first header come first. -/
def group : List (Task B) → List (Task B) × List (SendTask × List (Task B))
  | [] => ([], [])
  | .send t :: ts => ([], (t, (group ts).1) :: (group ts).2)
  | t :: ts => (t :: (group ts).1, (group ts).2)

/-- The data tasks of the PDUs of a reply, without the headers. -/
def plan (m : Nat) (data : Nat → Nat → Option (List (Task B) × Nat)) :
    Nat → Nat → Nat → Bool × List (List (Task B))
  | 0, _, _ => (true, [])
  | fuel + 1, lba, tl =>
    match data lba (min tl m) with
    | none => (false, [[]])
    | some (tasks, lba') =>
      if tl ≤ m then (true, [tasks])
      else ((plan m data fuel lba' (tl - m)).1, tasks :: (plan m data fuel lba' (tl - m)).2)

/-- The lengths of the PDUs of a reply, in blocks. -/
def lengths (m : Nat) : Nat → Nat → List Nat
  | 0, _ => []
  | fuel + 1, tl => if tl ≤ m then [tl] else m :: lengths m fuel (tl - m)

/-- One PDU of a reply from cached data is served in place: something is
cached in it, the hits are in order, and, unless it is the last PDU, the hit
that reaches its end begins no later than the cached data before it ends, or
is exactly as long as the rest of the PDU. -/
structure Served (cache : List (WriteSegment B)) (last : Bool) (a e : Nat) : Prop where
  some_hit : getHitSegments cache a (e - a) ≠ []
  order : InOrder a e (getHitSegments cache a (e - a))
  edge : last = false → ∀ h, edge e (getHitSegments cache a (e - a)) = some h →
    h.rlba ≤ reach a e (getHitSegments cache a (e - a)) ∨
      reach a e (getHitSegments cache a (e - a)) + h.rlength = e

/-- Every PDU of the reply is served in place. -/
def AllServed (cache : List (WriteSegment B)) (m lba tl : Nat) : Prop :=
  ∀ k, k * m < tl →
    Served cache (decide (tl ≤ (k + 1) * m)) (lba + k * m) (min (lba + (k + 1) * m) (lba + tl))

/-- The segments of a search result: live, and of a length that is not cut off. -/
def Cached (cache : List (WriteSegment B)) : Prop := ∀ ws ∈ cache, 0 < ws.rlength ∧ ws.rlength < 2 ^ 32

theorem group_data (ts : List (Task B)) (rest : List (Task B))
    (h : ∀ t ∈ ts, ∀ u, t ≠ .send u) :
    group (ts ++ rest) = (ts ++ (group rest).1, (group rest).2) := by
  induction ts with
  | nil => rfl
  | cons t ts ih =>
    have ht := h t (by simp)
    have hts := ih fun u hu => h u (List.mem_cons_of_mem _ hu)
    cases t with
    | send u => exact absurd rfl (ht u)
    | _ => simp [group, hts]

theorem mem_getHitSegments {cache : List (WriteSegment B)} (hc : Cached cache) {a len : Nat}
    {ws : WriteSegment B} :
    ws ∈ getHitSegments cache a len ↔ ws ∈ cache ∧ ws.rlba ≤ a + len ∧ a < ws.rtail := by
  have hrt : ws.rtail = ws.rlba + ws.rlength := rfl
  simp only [getHitSegments, List.mem_filter, Bool.or_eq_true, decide_eq_true_eq]
  constructor
  · rintro ⟨hm, h⟩
    have := (hc ws hm).1
    exact ⟨hm, by omega, by omega⟩
  · rintro ⟨hm, h₁, h₂⟩
    exact ⟨hm, by omega⟩

theorem meeting_getHitSegments {cache : List (WriteSegment B)} (hc : Cached cache) {a e : Nat}
    (hae : a ≤ e) : Meeting e (getHitSegments cache a (e - a)) := by
  intro ws hws
  obtain ⟨hm, h, -⟩ := (mem_getHitSegments hc).mp hws
  exact ⟨by omega, (hc ws hm).2⟩

theorem cursor_eq_iff {a e : Nat} {hits : List (WriteSegment B)} :
    cursor a e hits = e ↔
      ∀ h, edge e hits = some h → h.rlba ≤ reach a e hits ∨ reach a e hits + h.rlength = e := by
  rw [cursor]
  cases edge e hits with
  | none => simp
  | some h =>
    simp only [Option.some.injEq, forall_eq']
    split
    · rename_i hle
      simp [hle]
    · rename_i hlt
      simp [hlt]

theorem allServed_succ {cache : List (WriteSegment B)} {m lba tl : Nat} (hm : m < tl) :
    AllServed cache m lba tl ↔
      Served cache false lba (lba + m) ∧ AllServed cache m (lba + m) (tl - m) := by
  have hshift : ∀ k, (k + 1 + 1) * m = (k + 1) * m + m := fun k => Nat.succ_mul (k + 1) m
  have hshift' : ∀ k, (k + 1) * m = k * m + m := fun k => Nat.succ_mul k m
  have hk : ∀ k, Served cache (decide (tl ≤ (k + 1 + 1) * m)) (lba + (k + 1) * m)
        (min (lba + (k + 1 + 1) * m) (lba + tl)) ↔
      Served cache (decide (tl - m ≤ (k + 1) * m)) (lba + m + k * m)
        (min (lba + m + (k + 1) * m) (lba + m + (tl - m))) := by
    intro k
    have h₁ : lba + (k + 1) * m = lba + m + k * m := by rw [hshift']; omega
    have h₂ : lba + (k + 1 + 1) * m = lba + m + (k + 1) * m := by rw [hshift]; omega
    have h₃ : lba + tl = lba + m + (tl - m) := by omega
    have h₄ : (tl ≤ (k + 1 + 1) * m) = (tl - m ≤ (k + 1) * m) := by
      rw [hshift, eq_iff_iff]
      omega
    simp only [h₁, h₂, h₃, h₄]
  have h0 : Served cache (decide (tl ≤ (0 + 1) * m)) (lba + 0 * m)
        (min (lba + (0 + 1) * m) (lba + tl)) ↔ Served cache false lba (lba + m) := by
    have h₁ : ¬ tl ≤ m := by omega
    have h₂ : min (lba + m) (lba + tl) = lba + m := by omega
    simp [h₁, h₂]
  constructor
  · intro h
    refine ⟨h0.mp (h 0 (by omega)), fun k hlt => (hk k).mp (h (k + 1) ?_)⟩
    rw [hshift']
    omega
  · rintro ⟨h₁, h₂⟩ k hlt
    cases k with
    | zero => exact h0.mpr h₁
    | succ k =>
      refine (hk k).mpr (h₂ k ?_)
      rw [hshift'] at hlt
      omega

theorem allServed_last {cache : List (WriteSegment B)} {m lba tl : Nat} (hm : tl ≤ m) (htl : 0 < tl) :
    AllServed cache m lba tl ↔ Served cache true lba (lba + tl) := by
  have h0 : Served cache (decide (tl ≤ (0 + 1) * m)) (lba + 0 * m)
        (min (lba + (0 + 1) * m) (lba + tl)) ↔ Served cache true lba (lba + tl) := by
    have h₂ : min (lba + m) (lba + tl) = lba + tl := by omega
    simp only [Nat.zero_add, Nat.one_mul, Nat.zero_mul, Nat.add_zero, h₂, decide_eq_true hm]
  refine ⟨fun h => h0.mp (h 0 (by omega)), fun h k hlt => ?_⟩
  cases k with
  | zero => exact h0.mpr h
  | succ k =>
    have hle : m ≤ (k + 1) * m := Nat.le_mul_of_pos_left m (Nat.succ_pos k)
    exact absurd hlt (by omega)

theorem hitData_length {lv : LogicalVolume} {cache : List (WriteSegment B)} (hc : Cached cache)
    {a len : Nat} (hl : 0 < len) (hlen : len < 2 ^ 17) {ts : List (Task B)} {lba' : Nat}
    (h : hitData lv cache a len = some (ts, lba')) :
    getHitSegments cache a len ≠ [] ∧
    (((blocksOf ts).length = len ∧ blocksOf ts = List.range' a len ∧
        InOrder a (a + len) (getHitSegments cache a len) ∧
        lba' = cursor a (a + len) (getHitSegments cache a len)) ∨
      (¬ InOrder a (a + len) (getHitSegments cache a len) ∧ 2 ^ 31 ≤ (blocksOf ts).length)) := by
  have hee : a + len - a = len := by omega
  have hmeet := meeting_getHitSegments hc (Nat.le_add_right a len)
  rw [hee] at hmeet
  simp only [hitData] at h
  split at h
  · cases h
  · rename_i hne
    simp only [Option.some.injEq] at h
    refine ⟨by simpa using hne, ?_⟩
    have hts : (sendCache lv (getHitSegments cache a len) a len).1 = ts := by rw [h]
    have hcur : (sendCache lv (getHitSegments cache a len) a len).2 = lba' := by rw [h]
    rw [← hts, ← hcur]
    by_cases ho : InOrder a (a + len) (getHitSegments cache a len)
    · have ht := sendCache_tiles lv _ a (a + len) (by omega) (by omega) hmeet ho
      rw [hee] at ht
      exact .inl ⟨by rw [ht.1, List.length_range'], ht.1, ho, ht.2⟩
    · have ht := sendCache_overrun lv _ a a (a + len) le_rfl (by omega) (by omega) hmeet
        (fun ws hws => ((mem_getHitSegments hc).mp hws).2.2) ho
      rw [hee] at ht
      exact .inr ⟨ho, ht⟩

theorem hitData_none {lv : LogicalVolume} {cache : List (WriteSegment B)} {a len : Nat} :
    hitData lv cache a len = none ↔ getHitSegments cache a len = [] := by
  simp [hitData]

theorem hitData_head {lv : LogicalVolume} {cache : List (WriteSegment B)} (hc : Cached cache)
    {a len : Nat} (hlen : len < 2 ^ 17) {ts : List (Task B)} {lba' : Nat}
    (h : hitData lv cache a len = some (ts, lba')) (hne : blocksOf ts ≠ []) :
    (blocksOf ts).head? = some a := by
  simp only [hitData] at h
  split at h
  · cases h
  · simp only [Option.some.injEq] at h
    have hts : (sendCache lv (getHitSegments cache a len) a len).1 = ts := by rw [h]
    have hh := sendCache_head lv (getHitSegments cache a len) a len (by omega) fun ws hws => by
      have := ((mem_getHitSegments hc).mp hws).2.1
      omega
    rw [hts] at hh
    exact hh.resolve_left hne

theorem plan_head {lv : LogicalVolume} {cache : List (WriteSegment B)} (hc : Cached cache) {m : Nat}
    (hm : 0 < m) (hm' : m < 2 ^ 17) {fuel lba tl : Nat} (htl : 0 < tl) (hf : tl ≤ fuel)
    (hlen : (plan m (hitData lv cache) fuel lba tl).2.map (fun ts => (blocksOf ts).length) =
      lengths m fuel tl) :
    ((plan m (hitData lv cache) fuel lba tl).2.flatMap blocksOf).head? = some lba := by
  obtain ⟨fuel, rfl⟩ := Nat.exists_eq_add_of_lt (show 0 < fuel by omega)
  simp only [Nat.zero_add, plan, lengths] at hlen ⊢
  cases hd : hitData lv cache lba (min tl m) with
  | none =>
    simp only [hd, List.map_cons, List.map_nil, blocksOf_nil, List.length_nil] at hlen
    split at hlen <;> simp at hlen <;> omega
  | some r =>
    obtain ⟨ts, lba'⟩ := r
    have hcount : 0 < (blocksOf ts).length := by
      simp only [hd] at hlen
      split at hlen <;> simp at hlen <;> omega
    have hh := hitData_head hc (by omega) hd (List.ne_nil_of_length_pos hcount)
    by_cases hlast : tl ≤ m <;> simp [hlast, hh]

/-- A reply from cached data covers the range once, in PDUs of the right
lengths, exactly if every PDU is served in place. -/
theorem plan_iff {lv : LogicalVolume} {cache : List (WriteSegment B)} (hc : Cached cache) {m : Nat}
    (hm : 0 < m) (hm' : m < 2 ^ 17) (fuel lba tl : Nat) (htl : 0 < tl) (hf : tl ≤ fuel) :
    ((plan m (hitData lv cache) fuel lba tl).1 = true ∧
      (plan m (hitData lv cache) fuel lba tl).2.map (fun ts => (blocksOf ts).length) =
        lengths m fuel tl ∧
      (plan m (hitData lv cache) fuel lba tl).2.flatMap blocksOf = List.range' lba tl) ↔
    AllServed cache m lba tl := by
  induction fuel generalizing lba tl with
  | zero => omega
  | succ fuel ih =>
    by_cases hlast : tl ≤ m
    · have hmin : min tl m = tl := by omega
      have hee : lba + tl - lba = tl := by omega
      rw [allServed_last hlast htl]
      simp only [plan, lengths, hmin, if_pos hlast]
      cases hd : hitData lv cache lba tl with
      | none =>
        have hn := hitData_none.mp hd
        refine ⟨fun h => (Bool.false_ne_true h.1).elim, fun h => absurd ?_ h.some_hit⟩
        rwa [hee]
      | some r =>
        obtain ⟨ts, lba'⟩ := r
        obtain ⟨hne, ⟨hl, hb, ho, -⟩ | ⟨ho, hl⟩⟩ := hitData_length hc htl (by omega) hd
        · refine ⟨fun _ => ⟨?_, ?_, by simp⟩, fun _ => ⟨rfl, by simp [hl], by simp [hb]⟩⟩
          · rwa [hee]
          · rwa [hee]
        · refine ⟨fun h => ?_, fun h => absurd h.order (by rwa [hee])⟩
          have hcount : (blocksOf ts).length = tl := by simpa using h.2.1
          omega
    · have hmin : min tl m = m := by omega
      have hee : lba + m - lba = m := by omega
      rw [allServed_succ (by omega), ← ih (lba + m) (tl - m) (by omega) (by omega)]
      simp only [plan, lengths, hmin, if_neg hlast]
      cases hd : hitData lv cache lba m with
      | none =>
        have hn := hitData_none.mp hd
        refine ⟨fun h => (Bool.false_ne_true h.1).elim, fun h => absurd ?_ h.1.some_hit⟩
        rwa [hee]
      | some r =>
        obtain ⟨ts, lba'⟩ := r
        have hsplit : List.range' lba tl = List.range' lba m ++ List.range' (lba + m) (tl - m) := by
          rw [List.range'_append_1]
          congr 1
          omega
        simp only [List.map_cons, List.cons.injEq, List.flatMap_cons]
        obtain ⟨hne, ⟨hl, hb, ho, hcur⟩ | ⟨ho, hl⟩⟩ := hitData_length hc hm hm' hd
        · rw [hsplit, hb, List.append_cancel_left_eq]
          constructor
          · rintro ⟨hok, ⟨-, hlens⟩, hflat⟩
            have hhead := plan_head hc hm hm' (by omega) (by omega) hlens
            have he : cursor lba (lba + m) (getHitSegments cache lba m) = lba + m := by
              rw [← hcur]
              rw [hflat, List.head?_range', if_neg (by omega)] at hhead
              exact (Option.some.inj hhead).symm
            rw [hcur, he] at hok hlens hflat
            refine ⟨⟨by rwa [hee], by rwa [hee], fun _ => ?_⟩, hok, hlens, hflat⟩
            rw [hee]
            exact cursor_eq_iff.mp he
          · rintro ⟨hs, hok, hlens, hflat⟩
            have he : cursor lba (lba + m) (getHitSegments cache lba m) = lba + m := by
              have hedge := hs.edge rfl
              rw [hee] at hedge
              exact cursor_eq_iff.mpr hedge
            rw [hcur, he]
            exact ⟨hok, ⟨List.length_range', hlens⟩, hflat⟩
        · refine ⟨fun h => ?_, fun h => absurd h.1.order (by rwa [hee])⟩
          have hcount := h.2.1.1
          omega

end Sstoraged.ReadPlan
