import Sstoraged.Beside
import Sstoraged.Runs
import Sstoraged.WriteTransfer

namespace Sstoraged.WriteBounds

open WriteTransfer

variable {B : Type} {ix : LbaIndex}

/-- The range of a WRITE(10). -/
structure Grant where
  lun : Nat
  lba : Nat
  length : Nat

/-- A segment pushed, the result of the call that pushed it, and the accepted
commands outstanding for its task. -/
structure Entry (B : Type) where
  lun : Nat
  ws : WriteSegment B
  ok : Bool
  grants : List Grant

/-- The segment lies in the range of an outstanding command, and that on the volume. -/
structure Entry.Inside (lvs : List LogicalVolume) (e : Entry B) : Prop where
  ok : e.ok = true
  range : ∃ g ∈ e.grants, e.lun = g.lun ∧ g.lba ≤ e.ws.lba ∧ e.ws.tail ≤ g.lba + g.length ∧
    ∃ lv, lvs[g.lun]? = some lv ∧ g.lba + g.length ≤ lv.getTotalSize

/-- The session, with the commands outstanding by task tag and all pushes so far. -/
structure State (B : Type) (ix : LbaIndex) where
  ses : Session B ix
  writes : Nat → List Grant
  log : List (Entry B)

def init (ses : Session B ix) : State B ix := ⟨ses, fun _ => [], []⟩

inductive Event (B : Type) (ix : LbaIndex)
  | command (t : Token B)
  | dataOut (t : Token B)
  | beside (b : Beside fun s : Session B ix => (s.recvinfo, s.lvs))

def grantOf (t : Token B) : Grant := ⟨lunOf t, lbaOf t, lengthOf t⟩

def good (s s' : Session B ix) (itt : Nat) : Bool := (replies s s').any (isGood itt)

def entries (s : Session B ix) (r : Bool × Session B ix) (grants : List Grant) : List (Entry B) :=
  (r.2.pushed.drop s.pushed.length).map fun q => ⟨q.1, q.2, r.1, grants⟩

/-- A command is outstanding from its acceptance on, until its response is queued. -/
def step (w : WriteHandler) (d : DataOutHandler) (s : State B ix) : Event B ix → Option (State B ix)
  | .command t =>
    let itt := ittOf t
    let r := w.handle s.ses t
    let grants := if r.1 then s.writes itt ++ [grantOf t] else s.writes itt
    let writes := if r.1 && !good s.ses r.2 itt then Function.update s.writes itt grants else s.writes
    some ⟨r.2, writes, s.log ++ entries s.ses r grants⟩
  | .dataOut t =>
    let itt := ittOf t
    let r := d.handle s.ses t
    let writes := if good s.ses r.2 itt then Function.update s.writes itt [] else s.writes
    some ⟨r.2, writes, s.log ++ entries s.ses r (s.writes itt)⟩
  | .beside b => some { s with ses := b.run s.ses }

/-- The condition on a PDU that has a segment to push: its data fits what the
command asks for or what is left of it, and a Data-Out repeats the LUN. -/
def Fits (w : WriteHandler) (s : State B ix) : Event B ix → Prop
  | .command t => ∀ lv, w.Checked s.ses t.bhs lv → w.immediateEnabled = true →
      (t.frontDataSegment (lbaOf t) (offset2Lba (dlengthOf t))).isSome = true →
        dlengthOf t ≤ 512 * lengthOf t ∧ (dlengthOf t = 512 * lengthOf t → finalOf t = true)
  | .dataOut t => ∀ dinfo ∈ s.ses.recvinfo (ittOf t),
      (DataOutHandler.front t dinfo).isSome = true →
        dlengthOf t ≤ dinfo.remain ∧ ∀ g ∈ (s.writes (ittOf t)).head?, lunOf t = g.lun
  | .beside _ => True

/-- The record of a task belongs to the oldest command outstanding for it. -/
structure Covers (lvs : List LogicalVolume) (g : Grant) (dinfo : DataOutInfo) : Prop where
  lba : dinfo.lba = g.lba
  total : dinfo.total = 512 * g.length
  remain : dinfo.remain ≤ dinfo.total
  length : g.length < 2 ^ 16
  volume : ∃ lv, lvs[g.lun]? = some lv ∧ g.lba + g.length ≤ lv.getTotalSize

structure Inv (lvs : List LogicalVolume) (s : State B ix) : Prop where
  volumes : s.ses.lvs = lvs
  opened : ∀ itt dinfo, s.ses.recvinfo itt = some dinfo →
    ∃ g rest, s.writes itt = g :: rest ∧ Covers lvs g dinfo
  closed : ∀ itt, s.ses.recvinfo itt = none → s.writes itt = []
  log : ∀ e ∈ s.log, e.Inside lvs

variable {lvs : List LogicalVolume} {w : WriteHandler} {d : DataOutHandler} {s s' : State B ix}

theorem entries_nil {ses ses' : Session B ix} {ok : Bool} {grants : List Grant}
    (h : ses'.pushed = ses.pushed) : entries ses (ok, ses') grants = [] := by
  simp [entries, h]

theorem entries_one {ses ses' : Session B ix} {ok : Bool} {grants : List Grant} {lun : Nat}
    {ws : WriteSegment B} (h : ses'.pushed = ses.pushed ++ [(lun, ws)]) :
    entries ses (ok, ses') grants = [⟨lun, ws, ok, grants⟩] := by
  simp [entries, h]

theorem Inv.update (hi : Inv lvs s) {ses' : Session B ix} {itt : Nat} {gs : List Grant}
    {es : List (Entry B)} (hlvs : ses'.lvs = s.ses.lvs)
    (hother : ∀ i, i ≠ itt → ses'.recvinfo i = s.ses.recvinfo i)
    (hself : match ses'.recvinfo itt with
      | some dinfo => ∃ g rest, gs = g :: rest ∧ Covers lvs g dinfo
      | none => gs = [])
    (hes : ∀ e ∈ es, e.Inside lvs) :
    Inv lvs (⟨ses', Function.update s.writes itt gs, s.log ++ es⟩ : State B ix) := by
  refine ⟨hlvs.trans hi.volumes, fun i dinfo h => ?_, fun i h => ?_, fun e he => ?_⟩
  · dsimp only at h ⊢
    by_cases hne : i = itt
    · subst hne
      rw [Function.update_self]
      rwa [h] at hself
    · rw [Function.update_of_ne hne]
      exact hi.opened i dinfo ((hother i hne).symm.trans h)
  · dsimp only at h ⊢
    by_cases hne : i = itt
    · subst hne
      rw [Function.update_self]
      rwa [h] at hself
    · rw [Function.update_of_ne hne]
      exact hi.closed i ((hother i hne).symm.trans h)
  · rcases List.mem_append.mp he with he | he
    · exact hi.log e he
    · exact hes e he

theorem Inv.keep (hi : Inv lvs s) {ses' : Session B ix} {es : List (Entry B)}
    (hlvs : ses'.lvs = s.ses.lvs) (hrec : ses'.recvinfo = s.ses.recvinfo)
    (hes : ∀ e ∈ es, e.Inside lvs) : Inv lvs (⟨ses', s.writes, s.log ++ es⟩ : State B ix) := by
  refine ⟨hlvs.trans hi.volumes, fun i dinfo h => ?_, fun i h => ?_, fun e he => ?_⟩
  · exact hi.opened i dinfo (by rwa [← hrec])
  · exact hi.closed i (by rwa [← hrec])
  · rcases List.mem_append.mp he with he | he
    · exact hi.log e he
    · exact hes e he

theorem Inv.receive (hi : Inv lvs s) {t : Token B} {lv : LogicalVolume} {s₁ : Session B ix}
    {remain : Nat} {es : List (Entry B)} (hc : w.Checked s.ses t.bhs lv) (hlvs : s₁.lvs = s.ses.lvs)
    (hrec : s₁.recvinfo = s.ses.recvinfo) (hremain : remain ≤ 512 * lengthOf t)
    (hes : ∀ e ∈ es, e.Inside lvs) :
    Inv lvs (⟨w.receive s₁ t.bhs remain, Function.update s.writes (ittOf t)
      (s.writes (ittOf t) ++ [grantOf t]), s.log ++ es⟩ : State B ix) := by
  obtain ⟨-, -, hlvs', hother⟩ := w.receive_frame s₁ t.bhs remain
  obtain ⟨r2tsn, hself⟩ := receive_recvinfo w s₁ t remain
  refine hi.update (hlvs'.trans hlvs) (fun i hne => (hother i hne).trans (by rw [hrec])) ?_ hes
  rw [hself, hrec]
  cases hr : s.ses.recvinfo (ittOf t) with
  | some dinfo =>
    obtain ⟨g, rest, hw, hcov⟩ := hi.opened _ _ hr
    exact ⟨g, rest ++ [grantOf t], by rw [hw, List.cons_append], hcov⟩
  | none =>
    rw [hi.closed _ hr]
    have hlun : lvs[lunOf t]? = some lv := by
      rw [← hi.volumes]
      exact hc.lun
    refine ⟨grantOf t, [], rfl, rfl, lba2Offset_eq _, ?_, Cdb10.getTransferLength_lt _, lv,
      hlun, hc.inside⟩
    rw [Option.getD_none, lba2Offset_eq]
    exact hremain

theorem inv_command (hi : Inv lvs s) {t : Token B} (hf : Fits w s (.command t))
    (hs : step w d s (.command t) = some s') : Inv lvs s' := by
  simp only [step, Option.some.injEq] at hs
  subst hs
  have hinside : ∀ lv ws, w.Checked s.ses t.bhs lv → ws.lba = lbaOf t →
      512 * ws.transferLength ≤ 512 * lengthOf t →
      Entry.Inside lvs (⟨lunOf t, ws, true, s.writes (ittOf t) ++ [grantOf t]⟩ : Entry B) := by
    intro lv ws hc hlba hlen
    refine ⟨rfl, grantOf t, by simp, rfl, hlba.ge, ?_, lv, ?_, hc.inside⟩
    · show ws.lba + ws.transferLength ≤ lbaOf t + lengthOf t
      omega
    · rw [← hi.volumes]
      exact hc.lun
  rcases w.handle_cases s.ses t with h | ⟨lv, hc, ⟨-, h⟩ | ⟨himm, ws, hfront, hlun, h⟩⟩
  · rw [h, entries_nil rfl]
    exact hi.keep rfl rfl (by simp)
  · rw [lba2Offset_eq] at h
    have hgood : good s.ses (w.receive s.ses t.bhs (512 * lengthOf t)) (ittOf t) = false :=
      any_isGood_receive w _ rfl
    change w.handle s.ses t = (true, w.receive s.ses t.bhs (512 * lengthOf t)) at h
    rw [h, entries_nil (w.receive_frame _ _ _).1]
    simp only [hgood, Bool.not_false, Bool.and_self, if_true]
    exact hi.receive hc rfl rfl le_rfl (by simp)
  · obtain ⟨hle, hfinal⟩ := hf lv hc himm (Option.isSome_of_eq_some hfront)
    obtain ⟨hlba, -, hpos, -⟩ := Token.frontDataSegment_some hfront
    have hlen : 512 * ws.transferLength = dlengthOf t := (length_of_front hfront).2
    have hin := hinside lv ws hc hlba (by omega)
    have htl : lengthOf t < 2 ^ 16 := Cdb10.getTransferLength_lt _
    have hpush := Session.store_pushed s.ses (lunOf t) ws
    have hremain : u32 (lba2Offset (lengthOf t) - dlengthOf t) = 512 * lengthOf t - dlengthOf t := by
      rw [lba2Offset_eq]
      exact u32_sub hle (by omega)
    have hfin : w.finish (s.ses.store (lunOf t) ws) t.bhs =
        if 512 * lengthOf t - dlengthOf t = 0 then
          if finalOf t = false then (false, s.ses.store (lunOf t) ws)
          else (true, (s.ses.store (lunOf t) ws).pushGood (ittOf t))
        else (true, w.receive (s.ses.store (lunOf t) ws) t.bhs (512 * lengthOf t - dlengthOf t)) := by
      rw [← hremain]
      rfl
    change w.handle s.ses t = w.finish (s.ses.store (lunOf t) ws) t.bhs at h
    rw [hfin] at h
    rcases Nat.lt_or_eq_of_le hle with hlt | heq
    · rw [if_neg (by omega)] at h
      have hgood : good s.ses (w.receive (s.ses.store (lunOf t) ws) t.bhs
          (512 * lengthOf t - dlengthOf t)) (ittOf t) = false :=
        any_isGood_receive w _ (Session.store_sendtask _ _ _)
      rw [h, entries_one ((w.receive_frame _ _ _).1.trans hpush)]
      simp only [hgood, Bool.not_false, Bool.and_self, if_true]
      exact hi.receive hc (Session.store_lvs _ _ _) (Session.store_recvinfo _ _ _) (by omega)
        (by simpa using hin)
    · have hne : ¬ finalOf t = false := by simp [hfinal heq]
      rw [if_pos (by omega), if_neg hne] at h
      have hgood : good s.ses ((s.ses.store (lunOf t) ws).pushGood (ittOf t)) (ittOf t) = true :=
        any_isGood_pushGood _ (Session.store_sendtask _ _ _) rfl rfl
      rw [h, entries_one ((Session.pushGood_pushed _ _).trans hpush)]
      simp only [hgood, Bool.not_true, Bool.and_false, Bool.false_eq_true, if_false, if_true]
      exact hi.keep ((Session.pushGood_lvs _ _).trans (Session.store_lvs s.ses (lunOf t) ws))
        ((Session.pushGood_recvinfo _ _).trans (Session.store_recvinfo s.ses (lunOf t) ws))
        (by simpa using hin)

theorem not_good_self (ses : Session B ix) (itt : Nat) : good ses ses itt = false := by
  rw [good, replies_nil rfl]
  rfl

theorem inv_finish (hi : Inv lvs s) {t : Token B} {dinfo : DataOutInfo} {s₁ : Session B ix}
    {es : List (Entry B)} (hinfo : s.ses.recvinfo (ittOf t) = some dinfo)
    (hlvs : s₁.lvs = s.ses.lvs) (hrec : s₁.recvinfo = s.ses.recvinfo)
    (hsend : s₁.sendtask = s.ses.sendtask) (hes : ∀ e ∈ es, e.Inside lvs) :
    Inv lvs (⟨(d.finish s₁ t.bhs dinfo).2, if good s.ses (d.finish s₁ t.bhs dinfo).2 (ittOf t) then
      Function.update s.writes (ittOf t) [] else s.writes, s.log ++ es⟩ : State B ix) := by
  obtain ⟨-, -, hlvs', hother⟩ := d.finish_frame s₁ t.bhs dinfo
  have hother' : ∀ i, i ≠ ittOf t → (d.finish s₁ t.bhs dinfo).2.recvinfo i = s.ses.recvinfo i :=
    fun i hne => (hother i hne).trans (by rw [hrec])
  rcases finish_cases d dinfo hsend with ⟨h, -⟩ | ⟨s', h, hle, ⟨hnone, hgood⟩ | ⟨sn, hsome, hgood⟩⟩
  · have hgood : good s.ses s₁ (ittOf t) = false := by
      rw [good, replies_nil hsend]
      rfl
    rw [h, hgood, if_neg (by simp)]
    exact hi.keep hlvs hrec hes
  · rw [h] at hlvs' hother' ⊢
    rw [good, hgood, if_pos rfl]
    refine hi.update (hlvs'.trans hlvs) hother' ?_ hes
    rw [hnone]
  · rw [h] at hlvs' hother' ⊢
    rw [good, hgood, if_neg (by simp)]
    obtain ⟨g, rest, hw, hcov⟩ := hi.opened _ _ hinfo
    have hrem := hcov.remain
    have hkeep := @Inv.update _ _ lvs s hi s' (ittOf t) (s.writes (ittOf t)) es
      (hlvs'.trans hlvs) hother' (by
      rw [hsome]
      exact ⟨g, rest, hw, hcov.lba, hcov.total, (Nat.sub_le _ _).trans hrem, hcov.length,
        hcov.volume⟩) hes
    rwa [Function.update_eq_self] at hkeep

theorem inv_dataOut (hi : Inv lvs s) {t : Token B} (hf : Fits w s (.dataOut t))
    (hs : step w d s (.dataOut t) = some s') : Inv lvs s' := by
  simp only [step, Option.some.injEq] at hs
  subst hs
  rcases d.handle_cases s.ses t with h | ⟨dinfo, -, hinfo, ⟨hfront, h⟩ | ⟨ws, hfront, hlun, h⟩⟩
  · rw [h, entries_nil rfl, not_good_self, if_neg (by simp)]
    exact hi.keep rfl rfl (by simp)
  · have hes : entries s.ses (d.finish s.ses t.bhs dinfo) (s.writes (ittOf t)) = [] :=
      entries_nil (d.finish_frame _ _ _).1
    rw [h, hes]
    exact inv_finish hi hinfo rfl rfl rfl (by simp)
  · obtain ⟨hle, hhead⟩ := hf dinfo hinfo (Option.isSome_of_eq_some hfront)
    obtain ⟨g, rest, hw, hcov⟩ := hi.opened (ittOf t) _ hinfo
    obtain ⟨hlba, -, -, -⟩ := Token.frontDataSegment_some hfront
    have hlen : 512 * ws.transferLength = dlengthOf t := (length_of_front hfront).2
    have hlun' : lunOf t = g.lun := hhead g (by rw [hw]; rfl)
    change d.handle s.ses t = d.finish (s.ses.store (lunOf t) ws) t.bhs dinfo at h
    have hok : (d.finish (s.ses.store (lunOf t) ws) t.bhs dinfo).1 = true := by
      rcases @finish_cases _ _ (s.ses.store (lunOf t) ws) s.ses t d dinfo
        (Session.store_sendtask _ _ _) with ⟨-, hlt⟩ | ⟨s', heq, -⟩
      · omega
      · rw [heq]
    have hes : entries s.ses (d.finish (s.ses.store (lunOf t) ws) t.bhs dinfo) (s.writes (ittOf t)) =
        [⟨lunOf t, ws, true, s.writes (ittOf t)⟩] := by
      rw [← hok]
      exact entries_one ((d.finish_frame _ _ _).1.trans (Session.store_pushed _ _ _))
    rw [h, hes]
    refine inv_finish hi hinfo (Session.store_lvs _ _ _) (Session.store_recvinfo _ _ _)
      (Session.store_sendtask _ _ _) ?_
    obtain ⟨hglba, htotal, hrem, hglen, lv, hlv, hvol⟩ := hcov
    rw [offset2Lba_eq, u32_sub hrem (by omega)] at hlba
    have hrange : g.lba ≤ ws.lba ∧ ws.tail ≤ g.lba + g.length := by
      unfold WriteSegment.tail
      omega
    simpa using (⟨rfl, g, by simp [hw], hlun', hrange.1, hrange.2, lv, hlv, hvol⟩ :
      Entry.Inside lvs (⟨lunOf t, ws, true, s.writes (ittOf t)⟩ : Entry B))

/-- Every segment pushed lies inside an outstanding command of its task, and a
call that fails has pushed nothing, in every run whose PDUs fit. -/
theorem inside_of_fits (w : WriteHandler) (d : DataOutHandler) (ses : Session B ix)
    (h₀ : ∀ itt, ses.recvinfo itt = none) (s : State B ix)
    (h : Runs.Reachable (init ses) (step w d) (Fits w) s) : ∀ e ∈ s.log, e.Inside ses.lvs := by
  refine (h.invariant (Inv ses.lvs) ?_ fun s e s' hi hf hs => ?_).log
  · refine ⟨rfl, fun itt dinfo hinfo => ?_, fun itt _ => rfl, fun e he => ?_⟩
    · cases (h₀ itt).symm.trans hinfo
    · cases he
  · cases e with
    | command t => exact inv_command hi hf hs
    | dataOut t => exact inv_dataOut hi hf hs
    | beside b =>
      cases hs
      obtain ⟨hrecvinfo, hlvs⟩ := Prod.mk.inj (b.keeps s.ses)
      refine ⟨hlvs.trans hi.volumes, ?_, ?_, hi.log⟩
      · intro itt dinfo hinfo
        exact hi.opened itt dinfo (by rwa [hrecvinfo] at hinfo)
      · intro itt hinfo
        exact hi.closed itt (by rwa [hrecvinfo] at hinfo)

section Sample

theorem fits_sampleWrite (s : State Unit LbaIndex.ofList) :
    Fits sampleHandler s (.command (sampleWrite 2 2)) := fun _ _ _ _ => ⟨by decide, by decide⟩

/-- One block with the command and one in a Data-Out. -/
theorem inside_two_blocks : ∃ s : State Unit LbaIndex.ofList,
    Runs.Reachable (init sampleSession) (step sampleHandler ⟨8192⟩) (Fits sampleHandler) s ∧
      s.log.length = 2 ∧ ∀ e ∈ s.log, e.Inside sampleSession.lvs := by
  have h₁ : Runs.Reachable (init sampleSession) (step sampleHandler ⟨8192⟩) (Fits sampleHandler) _ :=
    .step .start (fits_sampleWrite _) rfl
  have h₂ := Runs.Reachable.step h₁ (show Fits _ _ (.dataOut (sampleDataOut 2)) by
    unfold Fits
    decide) rfl
  exact ⟨_, h₂, by decide, inside_of_fits _ _ _ (fun _ => rfl) _ h₂⟩

/-- A command for one block with two blocks of data. -/
theorem not_inside_long_command : ∃ s : State Unit LbaIndex.ofList,
    Runs.Reachable (init sampleSession) (step sampleHandler ⟨8192⟩) (fun _ _ => True) s ∧
      ∃ e ∈ s.log, ¬ e.Inside sampleSession.lvs := by
  refine ⟨_, @Runs.reachable_of_exec _ _ _ _ _ _ [.command (sampleWrite 4 1)] .start rfl, _,
    List.mem_cons_self, fun h => ?_⟩
  obtain ⟨g, hg, -, -, htail, -⟩ := h.range
  revert g
  decide

end Sample

end Sstoraged.WriteBounds
