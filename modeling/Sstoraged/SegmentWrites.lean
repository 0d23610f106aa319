import Sstoraged.DiskFlush
import Sstoraged.DiskView
import Sstoraged.DiskWriter

namespace Sstoraged.SegmentWrites

open DiskWriter DiskWork DiskFlush DiskView HandleMap

variable {B : Type} {mem : B → Nat → UInt8} {handles handles' : List (Nat × LowHandle)} {files : Disk}
  {xs : List (Nat × B × Nat)} {f : Nat → UInt8} {a : Nat} {ws : WriteSegment B}

/-- Bytes laid over a volume one after the other. -/
def lay (mem : B → Nat → UInt8) (xs : List (Nat × B × Nat)) (f : Nat → UInt8) : Nat → UInt8 :=
  xs.foldl (fun f x => Function.update f x.1 (mem x.2.1 x.2.2)) f

theorem lay_append (ys : List (Nat × B × Nat)) : lay mem (xs ++ ys) f = lay mem ys (lay mem xs f) :=
  List.foldl_append

theorem lay_of_ne (h : ∀ x ∈ xs, x.1 ≠ a) : lay mem xs f a = f a := by
  induction xs generalizing f with
  | nil => rfl
  | cons x xs ih =>
    obtain ⟨hx, hxs⟩ := List.forall_mem_cons.mp h
    exact (ih hxs).trans (Function.update_of_ne hx.symm _ _)

theorem view_store (h : ∀ x ∈ xs, Own handles x.1) :
    view handles (xs.foldl (store handles mem) files) = lay mem xs (view handles files) := by
  induction xs generalizing files with
  | nil => rfl
  | cons x xs ih =>
    obtain ⟨hx, hxs⟩ := List.forall_mem_cons.mp h
    obtain ⟨place, hplace⟩ := Option.isSome_iff_exists.mp hx.isSome
    have hstore : store handles mem files x = Function.update files place (mem x.2.1 x.2.2) := by
      rw [store, hplace]
    rw [List.foldl_cons, ih hxs, hstore, view_update hx hplace]
    rfl

theorem view_store_of_ne (h : ∀ x ∈ xs, ∀ b place, placeAt handles x.1 = some place →
    placeAt handles' b ≠ some place) :
    view handles' (xs.foldl (store handles mem) files) = view handles' files := by
  induction xs generalizing files with
  | nil => rfl
  | cons x xs ih =>
    obtain ⟨hx, hxs⟩ := List.forall_mem_cons.mp h
    rw [List.foldl_cons, ih hxs, store]
    split
    · rfl
    · next place hplace =>
      funext b
      unfold view
      cases hb : placeAt handles' b with
      | none => rfl
      | some place' =>
        exact Function.update_of_ne (fun heq => hx b place hplace (hb.trans (congrArg some heq))) ..

theorem mem_slicesFrom {x : Nat × B × Nat} (cbufs : List B) : ∀ {start length dsOffset : Nat},
    x ∈ (slicesFrom start length dsOffset cbufs).flatMap range → start ≤ x.1 ∧ x.1 < start + length := by
  induction cbufs with
  | nil => exact fun hx => absurd hx List.not_mem_nil
  | cons b cbufs ih =>
    intro start length dsOffset hx
    rw [slicesFrom, List.flatMap_cons] at hx
    have hle := Nat.min_le_left length (u64 ((commonBufSize : Int) - dsOffset))
    obtain hx | hx := List.mem_append.mp hx
    · obtain ⟨i, hi, rfl⟩ := List.mem_map.mp hx
      have hi := (List.mem_range'_1.mp hi).2
      dsimp only at hi ⊢
      omega
    · have hrest := ih hx
      omega

theorem covers_of_mem_image {x : Nat × B × Nat} (h : x ∈ image ws) : ws.covers x.1 = true := by
  have hin := mem_slicesFrom ws.cbufs h
  rw [lba2Offset_eq, lba2Offset_eq] at hin
  rw [WriteSegment.covers_iff, WriteSegment.tail]
  omega

theorem lay_range (b : B) (start offset n : Nat) :
    lay mem (range ⟨b, start, offset, n⟩) f = DiskWriter.pwrite mem start (b, offset, n) f := by
  induction n with
  | zero =>
    funext a
    exact (if_neg (by simp)).symm
  | succ n ih =>
    have hrange : range ⟨b, start, offset, n + 1⟩ = range ⟨b, start, offset, n⟩ ++
        [(start + n, b, offset + n)] := by
      unfold range
      dsimp only
      rw [List.range'_concat, List.map_append, Nat.one_mul, Nat.zero_add]
      rfl
    rw [hrange, lay_append, ih]
    funext a
    show Function.update _ _ _ a = _
    by_cases ha : a = start + n
    · subst ha
      rw [Function.update_self, DiskWriter.pwrite, if_pos (by dsimp only; omega),
        Nat.add_sub_cancel_left]
    · rw [Function.update_of_ne ha, DiskWriter.pwrite, DiskWriter.pwrite]
      dsimp only
      by_cases hin : start ≤ a ∧ a < start + n
      · rw [if_pos hin, if_pos (by omega)]
      · rw [if_neg hin, if_neg (by omega)]

theorem lay_slices (cbufs : List B) : ∀ {start length dsOffset : Nat} {f : Nat → UInt8},
    dsOffset ≤ commonBufSize →
    lay mem ((slicesFrom start length dsOffset cbufs).flatMap range) f =
      writeOut mem start (BufferChain.pieces commonBufSize cbufs dsOffset length) f := by
  induction cbufs with
  | nil => exact fun _ => rfl
  | cons b cbufs ih =>
    intro start length dsOffset f hle
    have hroom : u64 ((commonBufSize : Int) - dsOffset) = commonBufSize - dsOffset := by
      unfold commonBufSize at hle ⊢
      unfold u64
      omega
    rw [slicesFrom, List.flatMap_cons, lay_append, lay_range, hroom, ih (Nat.zero_le _)]
    rfl

theorem lay_image (h : ws.dsOffset ≤ commonBufSize) : lay mem (image ws) f = writeSegment mem ws f :=
  lay_slices ws.cbufs h

theorem sum_slices (cbufs : List B) : ∀ {start length dsOffset : Nat}, dsOffset ≤ commonBufSize →
    length ≤ BufferChain.capacity commonBufSize cbufs dsOffset →
      ((slicesFrom start length dsOffset cbufs).map Slice.length).sum = length := by
  induction cbufs with
  | nil => exact fun _ hle => (Nat.le_zero.mp hle).symm
  | cons b cbufs ih =>
    intro start length dsOffset hle hroom
    have hsize : u64 ((commonBufSize : Int) - dsOffset) = commonBufSize - dsOffset := by
      unfold commonBufSize at hle ⊢
      unfold u64
      omega
    rw [BufferChain.capacity] at hroom
    rw [slicesFrom, List.map_cons, List.sum_cons, hsize, ih (Nat.zero_le _) (by omega)]
    dsimp only
    omega

theorem lacking_eq_zero (hinside : ws.dsOffset ≤ commonBufSize)
    (h : lba2Offset ws.transferLength ≤ BufferChain.capacity commonBufSize ws.cbufs ws.dsOffset) :
    lacking ws = 0 := by
  rw [lacking, slices, sum_slices ws.cbufs hinside h]
  exact Nat.sub_self _

section Segment

variable {ok : Bool} {log : List (Piece B)} {as as' : List Answer}

/-- What the calls for one segment make of the files: a first part of its bytes is stored, and
all of it when none of them fails. -/
theorem stored_of_segment (hl : Layout handles) (hwhole : Whole handles ws)
    (h : doSegment handles ws as = some (ok, log, as')) :
    ∃ xs, xs <+: image ws ∧ log.foldl (pwrite mem) files = xs.foldl (store handles mem) files ∧
      (ok = true → xs = image ws) := by
  cases ok with
  | true =>
    obtain ⟨-, hwritten⟩ := written_of_segment hl (fun hne => hwhole.near hne) h
    exact ⟨image ws, List.prefix_rfl, disk_of_written mem files hwritten, fun _ => rfl⟩
  | false =>
    obtain ⟨part, hpart, hwritten⟩ := part_of_segment hl (fun hne => hwhole.near hne) h
    exact ⟨part, hpart, disk_of_written mem files hwritten, nofun⟩

theorem doWrite_true {p : Piece B} (hfailed : .failed ∉ as) (h : doWrite p as = some (ok, log, as')) :
    ok = true ∧ .failed ∉ as' := by
  induction as generalizing p log with
  | nil => cases h
  | cons a as ih =>
    obtain ⟨ha, has⟩ := not_or.mp (mt List.mem_cons.mpr hfailed)
    cases a with
    | interrupted => exact ih has h
    | failed => exact absurd rfl ha
    | wrote n =>
      rw [doWrite] at h
      dsimp only at h
      split at h
      · obtain ⟨⟨ok', log', as''⟩, hrest, heq⟩ := Option.map_eq_some_iff.mp h
        obtain ⟨rfl, rfl, rfl⟩ := Prod.mk.inj heq |>.imp_right Prod.mk.inj
        exact ih has hrest
      · obtain ⟨rfl, rfl, rfl⟩ := Prod.mk.inj (Option.some.inj h) |>.imp_right Prod.mk.inj
        exact ⟨rfl, has⟩

theorem doBuffer_true (b : B) (fuel : Nat) : ∀ {start offset segment : Nat} {as : List Answer}
    {log : List (Piece B)},
    .failed ∉ as → doBuffer handles b fuel start offset segment as = some (ok, log, as') →
      ok = (resolve handles b fuel start offset segment).2 ∧ .failed ∉ as' := by
  induction fuel with
  | zero =>
    intro start offset segment as log hfailed h
    obtain ⟨rfl, rfl, rfl⟩ := Prod.mk.inj (Option.some.inj h) |>.imp_right Prod.mk.inj
    exact ⟨rfl, hfailed⟩
  | succ fuel ih =>
    intro start offset segment as log hfailed h
    rw [doBuffer] at h
    rw [resolve]
    split at h
    · next hzero =>
      obtain ⟨rfl, rfl, rfl⟩ := Prod.mk.inj (Option.some.inj h) |>.imp_right Prod.mk.inj
      rw [if_pos hzero]
      exact ⟨rfl, hfailed⟩
    next hzero =>
    rw [if_neg hzero]
    split at h
    · obtain ⟨rfl, rfl, rfl⟩ := Prod.mk.inj (Option.some.inj h) |>.imp_right Prod.mk.inj
      exact ⟨rfl, hfailed⟩
    split at h
    · cases h
    · next hwrite => exact absurd (doWrite_true hfailed hwrite).1 Bool.noConfusion
    · next hwrite =>
      obtain ⟨⟨ok', log', rest⟩, hrest, heq⟩ := Option.map_eq_some_iff.mp h
      obtain ⟨rfl, rfl, rfl⟩ := Prod.mk.inj heq |>.imp_right Prod.mk.inj
      exact ih (doWrite_true hfailed hwrite).2 hrest

theorem doSlices_true (ss : List (Slice B)) : ∀ {as as' : List Answer} {log : List (Piece B)},
    .failed ∉ as →
    doSlices handles ss as = some (ok, log, as') → ok = (pieces handles ss).2 := by
  induction ss with
  | nil =>
    intro as as' log _ h
    exact (Prod.mk.inj (Option.some.inj h)).1.symm
  | cons s ss ih =>
    intro as as' log hfailed h
    rw [doSlices] at h
    rw [pieces]
    split at h
    · cases h
    · next hbuffer =>
      obtain ⟨hresolve, -⟩ := doBuffer_true s.buf s.length hfailed hbuffer
      obtain ⟨rfl, -⟩ := Prod.mk.inj (Option.some.inj h)
      split
      · rfl
      · next heq =>
        rw [heq] at hresolve
        exact absurd hresolve Bool.noConfusion
    · next hbuffer =>
      obtain ⟨hresolve, hrest⟩ := doBuffer_true s.buf s.length hfailed hbuffer
      obtain ⟨⟨ok', log', rest⟩, hslices, heq⟩ := Option.map_eq_some_iff.mp h
      obtain ⟨rfl, -⟩ := Prod.mk.inj heq
      split
      · next heq =>
        rw [heq] at hresolve
        exact absurd hresolve Bool.noConfusion
      · exact ih hrest hslices

theorem doSegment_true (hl : Layout handles) (hwhole : Whole handles ws) (hfailed : .failed ∉ as)
    (h : doSegment handles ws as = some (ok, log, as')) : ok = true := by
  obtain ⟨⟨ok', log', rest⟩, hslices, heq⟩ := Option.map_eq_some_iff.mp h
  obtain ⟨rfl, -⟩ := Prod.mk.inj heq
  rw [doSlices_true _ hfailed hslices]
  exact (performed_eq_true_iff hl fun hne => hwhole.near hne).mpr hwhole

end Segment

end Sstoraged.SegmentWrites
