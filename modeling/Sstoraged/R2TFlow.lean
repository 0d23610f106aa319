import Sstoraged.Beside
import Sstoraged.Runs
import Sstoraged.WriteTransfer

namespace Sstoraged.R2TFlow

open WriteTransfer

variable {B : Type} {ix : LbaIndex}

/-- What went on between the two sides for one WRITE: the R2Ts sent so far, how many of
them were answered up to their F bit, and what came for the one after these. -/
structure Flow where
  total : Nat := 0
  unsolicited : Bool := false
  sent : List R2THeader := []
  answered : Nat := 0
  got : Nat := 0
  deriving DecidableEq

/-- The session, with the flow of each task tag; no code reads that. -/
structure State (B : Type) (ix : LbaIndex) where
  ses : Session B ix
  flow : Nat → Flow

def init (ses : Session B ix) : State B ix := ⟨ses, fun _ => {}⟩

/-- A Data-Out belongs to the data that comes unsolicited after its command, or it
answers an R2T. -/
inductive Event (B : Type) (ix : LbaIndex)
  | command (t : Token B)
  | unsolicited (t : Token B)
  | solicited (t : Token B)
  | beside (b : Beside fun s : Session B ix => s.recvinfo)

def r2ts (rs : List ReplyHeader) : List R2THeader :=
  rs.filterMap fun
    | .r2t h => some h
    | _ => none

def totalOf (t : Token B) : Nat := lba2Offset (lengthOf t)

/-- What a command leaves to come. -/
def left (w : WriteHandler) (t : Token B) : Nat :=
  if w.immediateEnabled then u32 (totalOf t - dlengthOf t) else totalOf t

def Flow.start (t : Token B) (new : List R2THeader) : Flow :=
  { total := totalOf t, unsolicited := !finalOf t, sent := new }

def Flow.unsolicitedData (f : Flow) (t : Token B) (new : List R2THeader) : Flow :=
  { f with unsolicited := !finalOf t, sent := f.sent ++ new }

def Flow.solicitedData (f : Flow) (t : Token B) (new : List R2THeader) : Flow :=
  if finalOf t then { f with sent := f.sent ++ new, answered := f.answered + 1, got := 0 }
  else { f with sent := f.sent ++ new, got := f.got + dlengthOf t }

/-- An accepted Data-Out, and what it adds to the flow of its task. -/
def dataOut (d : DataOutHandler) (s : State B ix) (t : Token B)
    (next : Flow → Token B → List R2THeader → Flow) : Option (State B ix) :=
  let r := d.handle s.ses t
  if r.1 then
    some ⟨r.2, Function.update s.flow (ittOf t) (next (s.flow (ittOf t)) t (r2ts (replies s.ses r.2)))⟩
  else none

/-- Only accepted PDUs lead on. -/
def step (w : WriteHandler) (d : DataOutHandler) (s : State B ix) : Event B ix → Option (State B ix)
  | .command t =>
    let r := w.handle s.ses t
    if r.1 then
      some ⟨r.2, if left w t = 0 then s.flow
        else Function.update s.flow (ittOf t) (.start t (r2ts (replies s.ses r.2)))⟩
    else none
  | .unsolicited t => dataOut d s t Flow.unsolicitedData
  | .solicited t => dataOut d s t Flow.solicitedData
  | .beside b => some { s with ses := b.run s.ses }

/-- The R2Ts of a task ask for one range after the other. -/
structure Asked (total : Nat) (rs : List R2THeader) : Prop where
  numbered : ∀ (i : Nat) r, rs[i]? = some r → r.r2tsn = i
  nonempty : ∀ r ∈ rs, 0 < r.transferLength
  contiguous : ∀ (i : Nat) r r', rs[i]? = some r → rs[i + 1]? = some r' →
    r'.offset = r.offset + r.transferLength
  inside : ∀ r ∈ rs, r.offset + r.transferLength ≤ total

/-- The initiator owes the next data: the F bit of the unsolicited data has not come, or
an R2T asks for just the data that is missing next. -/
def Owed (f : Flow) (info : DataOutInfo) : Prop :=
  f.unsolicited = true ∨ ∃ r, f.sent[f.answered]? = some r ∧
    r.offset + f.got = info.total - info.remain ∧ f.got < r.transferLength

structure Progress (s : State B ix) : Prop where
  owed : ∀ itt info, s.ses.recvinfo itt = some info → 0 < info.remain → Owed (s.flow itt) info
  asked : ∀ itt, Asked (s.flow itt).total (s.flow itt).sent

/-- The initiator keeps to the protocol: unsolicited data ends with the first F bit, and
an R2T is answered by the data that it asks for, with the F bit at the end. -/
def Obeys (s : State B ix) : Event B ix → Prop
  | .unsolicited t => (s.flow (ittOf t)).unsolicited = true
  | .solicited t => ∃ r, (s.flow (ittOf t)).sent[(s.flow (ittOf t)).answered]? = some r ∧
      (s.flow (ittOf t)).got + dlengthOf t ≤ r.transferLength ∧
      (finalOf t = true ↔ (s.flow (ittOf t)).got + dlengthOf t = r.transferLength)
  | .command _ | .beside _ => True

/-- The condition on a WRITE that leaves data to come, and on unsolicited data. -/
def Fits (w : WriteHandler) (s : State B ix) : Event B ix → Prop
  | .command t => left w t ≠ 0 → s.ses.recvinfo (ittOf t) = none ∧
      (w.immediateEnabled = true → dlengthOf t ≤ totalOf t) ∧
      (finalOf t = true → w.initialR2T = true ∨ w.firstBurstLength ≤ dlengthOf t)
  | .unsolicited t => (s.flow (ittOf t)).sent = []
  | .solicited _ | .beside _ => True

section Handlers

variable {s s' s₁ : Session B ix} {t : Token B}

theorem r2ts_pushR2T {s₀ : Session B ix} (itt lun r2tsn offset length : Nat)
    (h : s.sendtask = s₀.sendtask)
    (h' : s'.sendtask = (s.pushR2T itt lun r2tsn offset length).sendtask)
    (hh : s'.headers = (s.pushR2T itt lun r2tsn offset length).headers) :
    ∃ r : R2THeader, r2ts (replies s₀ s') = [r] ∧ r.r2tsn = r2tsn ∧ r.offset = offset ∧
      r.transferLength = length := by
  rw [replies_send (h'.trans (by rw [← h]; rfl)) rfl, hh]
  simp [Session.pushR2T, Session.pushSend, Session.push, Session.alloc, r2ts]

theorem r2ts_pushGood {s₀ : Session B ix} (itt : Nat) (h : s.sendtask = s₀.sendtask)
    (h' : s'.sendtask = (s.pushGood itt).sendtask) (hh : s'.headers = (s.pushGood itt).headers) :
    r2ts (replies s₀ s') = [] := by
  rw [replies_send (h'.trans (by rw [← h]; rfl)) rfl, hh]
  simp [Session.pushGood, Session.pushSend, Session.push, Session.alloc, Session.advanceSTATSN, r2ts]

/-- What an accepted Data-Out does to the record of its task, and the R2T it draws. -/
inductive Taken (d : DataOutHandler) (dinfo : DataOutInfo) (t : Token B)
    (info' : Option DataOutInfo) (new : List R2THeader) : Prop
  | more (final : finalOf t = false)
      (info : info' = some { dinfo with remain := dinfo.remain - dlengthOf t }) (new : new = [])
  | done (final : finalOf t = true) (all : dlengthOf t = dinfo.remain) (info : info' = none)
      (new : new = [])
  | asked (r : R2THeader) (final : finalOf t = true) (part : dlengthOf t < dinfo.remain)
      (info : info' = some { dinfo with
        remain := dinfo.remain - dlengthOf t, r2tsn := advanceSn dinfo.r2tsn })
      (new : new = [r]) (r2tsn : r.r2tsn = dinfo.r2tsn)
      (offset : r.offset = u32 (dinfo.total - (dinfo.remain - dlengthOf t : Nat)))
      (length : r.transferLength = min (dinfo.remain - dlengthOf t) d.mrds)

theorem finish_taken (d : DataOutHandler) (dinfo : DataOutInfo) (h : s₁.sendtask = s.sendtask)
    (hs : d.finish s₁ t.bhs dinfo = (true, s')) :
    dlengthOf t ≤ dinfo.remain ∧ Taken d dinfo t (s'.recvinfo (ittOf t)) (r2ts (replies s s')) := by
  unfold DataOutHandler.finish at hs
  dsimp only at hs
  split at hs
  · cases hs
  rename_i hlt
  have hle : dlengthOf t ≤ dinfo.remain := Nat.le_of_not_lt hlt
  refine ⟨hle, ?_⟩
  split at hs
  · rename_i hf
    obtain rfl := (Prod.mk.inj hs).2
    exact .more hf (Function.update_self _ _ _) (congrArg r2ts (replies_nil h))
  rename_i hf
  replace hf : finalOf t = true := eq_true_of_ne_false hf
  split at hs
  · rename_i hz
    obtain rfl := (Prod.mk.inj hs).2
    exact .done hf (Nat.le_antisymm hle (Nat.sub_eq_zero_iff_le.1 hz)) (Function.update_self _ _ _)
      (@r2ts_pushGood _ _ (s₁.setRecvinfo _ _) _ s _ h rfl rfl)
  · rename_i hz
    obtain rfl := (Prod.mk.inj hs).2
    obtain ⟨r, hr, hsn, hoff, hlen⟩ := @r2ts_pushR2T _ _ (s₁.setRecvinfo (ittOf t) (some { dinfo with
      remain := dinfo.remain - dlengthOf t })) _ s (ittOf t) (lunOf t) dinfo.r2tsn _ _ h rfl rfl
    have hpart : dlengthOf t ≠ dinfo.remain := fun heq => hz (Nat.sub_eq_zero_of_le heq.ge)
    exact .asked r hf (Nat.lt_of_le_of_ne hle hpart) (Function.update_self _ _ _) hr hsn hoff hlen

theorem handle_taken (d : DataOutHandler) (hs : d.handle s t = (true, s')) :
    ∃ dinfo, s.recvinfo (ittOf t) = some dinfo ∧ dlengthOf t ≤ dinfo.remain ∧
      Taken d dinfo t (s'.recvinfo (ittOf t)) (r2ts (replies s s')) ∧
      ∀ itt, itt ≠ ittOf t → s'.recvinfo itt = s.recvinfo itt := by
  obtain hfalse | ⟨dinfo, -, hinfo, ⟨-, heq⟩ | ⟨ws, -, -, heq⟩⟩ := d.handle_cases s t
  · cases hs.symm.trans hfalse
  · rw [heq] at hs
    obtain ⟨hle, htaken⟩ := finish_taken d dinfo rfl hs
    obtain ⟨-, -, -, hother⟩ := d.finish_frame s t.bhs dinfo
    rw [hs] at hother
    exact ⟨dinfo, hinfo, hle, htaken, hother⟩
  · rw [heq] at hs
    obtain ⟨hle, htaken⟩ := finish_taken d dinfo (Session.store_sendtask s _ ws) hs
    obtain ⟨-, -, -, hother⟩ := d.finish_frame (s.store (Parser.mk t.bhs).getLUN ws) t.bhs dinfo
    rw [hs] at hother
    exact ⟨dinfo, hinfo, hle, htaken, hother⟩

/-- The record that an accepted WRITE leaves behind, and the R2T it draws. -/
inductive Started (w : WriteHandler) (t : Token B) (info' : Option DataOutInfo)
    (new : List R2THeader) : Prop
  | waits (flags : ¬ (w.initialR2T = true ∨ w.firstBurstLength ≤ dlengthOf t))
      (info : info' = some ⟨lbaOf t, totalOf t, left w t, 0⟩) (new : new = [])
  | asks (r : R2THeader) (info : info' = some ⟨lbaOf t, totalOf t, left w t, advanceSn 0⟩)
      (new : new = [r]) (r2tsn : r.r2tsn = 0) (offset : r.offset = u32 (totalOf t - left w t))
      (length : r.transferLength = min (left w t) w.mrds)

theorem receive_started (w : WriteHandler) {remain : Nat} (hleft : left w t = remain)
    (h : s₁.sendtask = s.sendtask) (hnone : s₁.recvinfo (ittOf t) = none) :
    Started w t ((w.receive s₁ t.bhs remain).recvinfo (ittOf t))
      (r2ts (replies s (w.receive s₁ t.bhs remain))) := by
  subst hleft
  by_cases hask : w.initialR2T = true ∨ w.firstBurstLength ≤ dlengthOf t
  · have heq : w.receive s₁ t.bhs (left w t) =
        ((s₁.pushR2T (ittOf t) (lunOf t) 0 (u32 (totalOf t - left w t))
          (min (left w t) w.mrds)).setRecvinfo
          (ittOf t) (some ⟨lbaOf t, totalOf t, left w t, advanceSn 0⟩)) := by
      rw [← Session.putRecvinfo_of_none (by rwa [Session.pushR2T_recvinfo])]
      exact if_pos hask
    obtain ⟨r, hr, hsn, hoff, hlen⟩ := @r2ts_pushR2T _ _ s₁ _ s (ittOf t) (lunOf t) 0
      (u32 (totalOf t - left w t)) (min (left w t) w.mrds) h rfl rfl
    rw [heq]
    exact .asks r (Function.update_self _ _ _) hr hsn hoff hlen
  · have heq : w.receive s₁ t.bhs (left w t) =
        s₁.setRecvinfo (ittOf t) (some ⟨lbaOf t, totalOf t, left w t, 0⟩) := by
      rw [← Session.putRecvinfo_of_none hnone]
      exact if_neg hask
    rw [heq]
    exact .waits hask (Function.update_self _ _ _) (congrArg r2ts (replies_nil h))

theorem totalOf_lt (t : Token B) : totalOf t < 2 ^ 25 := by
  have := Cdb10.getTransferLength_lt ⟨(Parser.mk t.bhs).getSCB⟩
  rw [totalOf, lba2Offset_eq]
  change 512 * (Cdb10.mk (Parser.mk t.bhs).getSCB).getTransferLength < 2 ^ 25
  omega

theorem finish_started (w : WriteHandler) {remain : Nat} (hleft : left w t = remain)
    (hremain : u32 (lba2Offset (Cdb10.mk (Parser.mk t.bhs).getSCB).getTransferLength -
      (Parser.mk t.bhs).getDlength) = remain) (h : s₁.sendtask = s.sendtask)
    (hrec : s₁.recvinfo = s.recvinfo) (hs : w.finish s₁ t.bhs = (true, s')) :
    (remain = 0 ∧ s'.recvinfo = s.recvinfo) ∨
      remain ≠ 0 ∧ (s.recvinfo (ittOf t) = none →
        Started w t (s'.recvinfo (ittOf t)) (r2ts (replies s s'))) := by
  unfold WriteHandler.finish at hs
  dsimp only at hs
  rw [hremain] at hs
  split at hs
  · rename_i hz
    split at hs
    · cases hs
    · obtain rfl := (Prod.mk.inj hs).2
      exact .inl ⟨hz, by rw [Session.pushGood_recvinfo, hrec]⟩
  · rename_i hz
    obtain rfl := (Prod.mk.inj hs).2
    exact .inr ⟨hz, fun hnone => receive_started w hleft h (by rw [hrec, hnone])⟩

theorem handle_started (w : WriteHandler) (hs : w.handle s t = (true, s')) :
    ((left w t = 0 ∧ s'.recvinfo = s.recvinfo) ∨
      left w t ≠ 0 ∧ (s.recvinfo (ittOf t) = none →
        Started w t (s'.recvinfo (ittOf t)) (r2ts (replies s s')))) ∧
      ∀ itt, itt ≠ ittOf t → s'.recvinfo itt = s.recvinfo itt := by
  obtain hfalse | ⟨lv, hc, ⟨himm, heq⟩ | ⟨himm, ws, -, -, heq⟩⟩ := w.handle_cases s t
  · cases hs.symm.trans hfalse
  · have hleft : left w t = lba2Offset (Cdb10.mk (Parser.mk t.bhs).getSCB).getTransferLength :=
      if_neg (by rw [himm]; decide)
    obtain ⟨-, -, -, hother⟩ := w.receive_frame s t.bhs
      (lba2Offset (Cdb10.mk (Parser.mk t.bhs).getSCB).getTransferLength)
    obtain rfl := (Prod.mk.inj (hs.symm.trans heq)).2
    refine ⟨.inr ⟨?_, receive_started w hleft rfl⟩, hother⟩
    rw [hleft, lba2Offset_eq]
    exact Nat.mul_ne_zero (by decide) (Nat.ne_of_gt hc.positive)
  · have hleft : left w t = u32 (lba2Offset (Cdb10.mk (Parser.mk t.bhs).getSCB).getTransferLength -
        (Parser.mk t.bhs).getDlength) := if_pos himm
    obtain ⟨-, -, -, hother⟩ := w.finish_frame (s.store (Parser.mk t.bhs).getLUN ws) t.bhs
    rw [heq] at hs
    rw [hs] at hother
    refine ⟨?_, hother⟩
    rw [hleft]
    exact finish_started w hleft rfl (Session.store_sendtask s _ ws) (Session.store_recvinfo s _ ws) hs

end Handlers

theorem Asked.nil (total : Nat) : Asked total [] := ⟨by simp, by simp, by simp, by simp⟩

theorem Asked.push {total : Nat} {rs : List R2THeader} {r : R2THeader} (h : Asked total rs)
    (hsn : r.r2tsn = rs.length) (hpos : 0 < r.transferLength)
    (hlast : ∀ q ∈ rs.getLast?, r.offset = q.offset + q.transferLength)
    (hle : r.offset + r.transferLength ≤ total) : Asked total (rs ++ [r]) where
  numbered i q hq := by
    rw [List.getElem?_append] at hq
    split at hq
    · exact h.numbered i q hq
    · rename_i hi
      obtain ⟨hi', rfl⟩ := List.getElem?_eq_some_iff.1 hq
      simp only [List.length_singleton, Nat.lt_one_iff] at hi'
      simp only [List.getElem_singleton, hsn]
      omega
  nonempty := by simpa [or_imp, forall_and] using ⟨h.nonempty, hpos⟩
  contiguous i q q' hq hq' := by
    rw [List.getElem?_append] at hq'
    split at hq'
    · rename_i hi
      rw [List.getElem?_append_left (by omega)] at hq
      exact h.contiguous i q q' hq hq'
    · rename_i hi
      obtain ⟨hi', rfl⟩ := List.getElem?_eq_some_iff.1 hq'
      simp only [List.length_singleton, Nat.lt_one_iff] at hi'
      have hlen : i + 1 = rs.length := by omega
      rw [List.getElem?_append_left (by omega)] at hq
      rw [List.getElem_singleton]
      refine hlast q ?_
      rw [List.getLast?_eq_getElem?, ← hlen]
      exact hq
  inside := by simpa [or_imp, forall_and] using ⟨h.inside, hle⟩

/-- Who owes the next data of a record. -/
inductive Phase (f : Flow) (info : DataOutInfo) : Prop
  | unsolicited (open' : f.unsolicited = true) (sent : f.sent = []) (answered : f.answered = 0)
      (got : f.got = 0) (r2tsn : info.r2tsn = 0)
  | asking (before : List R2THeader) (r : R2THeader) (sent : f.sent = before ++ [r])
      (answered : f.answered = before.length)
      (start : r.offset + f.got = info.total - info.remain) (got : f.got < r.transferLength)
      (r2tsn : info.r2tsn = before.length + 1)
      (count : before.length < r.offset + r.transferLength)

structure Going (f : Flow) (info : DataOutInfo) : Prop where
  total : info.total = f.total
  le : info.remain ≤ info.total
  lt : info.total < 2 ^ 25
  phase : Phase f info

structure Inv (s : State B ix) : Prop where
  going : ∀ itt info, s.ses.recvinfo itt = some info → Going (s.flow itt) info
  asked : ∀ itt, Asked (s.flow itt).total (s.flow itt).sent

theorem Phase.owed {f : Flow} {info : DataOutInfo} (h : Phase f info) : Owed f info := by
  cases h with
  | unsolicited hopen => exact .inl hopen
  | asking before r hsent hans hstart hgot =>
    refine .inr ⟨r, ?_, hstart, hgot⟩
    rw [hsent, hans, List.getElem?_concat_length]

theorem Inv.progress {s : State B ix} (h : Inv s) : Progress s :=
  ⟨fun itt info hinfo _ => (h.going itt info hinfo).phase.owed, h.asked⟩

theorem Inv.update {s : State B ix} (h : Inv s) {ses' : Session B ix} {itt : Nat} {f : Flow}
    (hother : ∀ i, i ≠ itt → ses'.recvinfo i = s.ses.recvinfo i)
    (hgoing : ∀ info, ses'.recvinfo itt = some info → Going f info) (hasked : Asked f.total f.sent) :
    Inv (⟨ses', Function.update s.flow itt f⟩ : State B ix) := by
  refine ⟨fun i info hi => ?_, fun i => ?_⟩
  · dsimp only at hi ⊢
    by_cases hne : i = itt
    · subst hne
      rw [Function.update_self]
      exact hgoing info hi
    · rw [Function.update_of_ne hne]
      exact h.going i info (by rwa [← hother i hne])
  · dsimp only
    by_cases hne : i = itt
    · subst hne
      rwa [Function.update_self]
    · rw [Function.update_of_ne hne]
      exact h.asked i

theorem next_r2t {total remain mrds : Nat} (hle : remain ≤ total) (hlt : total < 2 ^ 25)
    (hpos : 0 < remain) (hmrds : 0 < mrds) {r : R2THeader}
    (hoff : r.offset = u32 (total - remain)) (hlen : r.transferLength = min remain mrds) :
    r.offset = total - remain ∧ 0 < r.transferLength ∧ r.offset + r.transferLength ≤ total := by
  have hsub : u32 (total - remain) = total - remain := u32_sub hle (by omega)
  rw [hsub] at hoff
  omega

section Step

variable {w : WriteHandler} {d : DataOutHandler} {s s' : State B ix} {t : Token B}

theorem inv_command (hw : 0 < w.mrds) (h : Inv s) (hf : Fits w s (.command t))
    (hs : step w d s (.command t) = some s') : Inv s' := by
  simp only [step, Option.ite_none_right_eq_some, Option.some.injEq] at hs
  obtain ⟨hok, rfl⟩ := hs
  obtain ⟨hself, hother⟩ := handle_started w (Prod.ext hok rfl)
  obtain ⟨hzero, hrec⟩ | ⟨hne, hstarted⟩ := hself
  · rw [if_pos hzero]
    exact ⟨fun itt info hinfo => h.going itt info (by rwa [← hrec]), h.asked⟩
  obtain ⟨hnone, hdlength, hfinal⟩ := hf hne
  have hlt := totalOf_lt t
  have hle : left w t ≤ totalOf t := by
    rw [left]
    split
    · rename_i himm
      have := hdlength himm
      rw [u32_sub this (by omega)]
      omega
    · exact Nat.le_refl _
  rw [if_neg hne]
  cases hstarted hnone with
  | waits hflags hinfo hnew =>
    refine h.update hother (fun info hi => ?_) ?_
    · obtain rfl := Option.some.inj (hinfo.symm.trans hi)
      refine ⟨rfl, hle, hlt, .unsolicited ?_ hnew rfl rfl rfl⟩
      simpa [Flow.start] using mt hfinal hflags
    · rw [hnew]
      exact .nil _
  | asks r hinfo hnew hsn hoff hlen =>
    obtain ⟨hstart, hpos, hend⟩ := next_r2t hle hlt (Nat.pos_of_ne_zero hne) hw hoff hlen
    refine h.update hother (fun info hi => ?_) ?_
    · obtain rfl := Option.some.inj (hinfo.symm.trans hi)
      exact ⟨rfl, hle, hlt, .asking [] r hnew rfl hstart hpos rfl (Nat.lt_of_lt_of_le hpos (by omega))⟩
    · rw [hnew]
      exact (Asked.nil _).push hsn hpos nofun hend

theorem dataOut_some {next : Flow → Token B → List R2THeader → Flow}
    (hs : dataOut d s t next = some s') :
    ∃ ses' new dinfo, s' = ⟨ses', Function.update s.flow (ittOf t) (next (s.flow (ittOf t)) t new)⟩ ∧
      s.ses.recvinfo (ittOf t) = some dinfo ∧ dlengthOf t ≤ dinfo.remain ∧
      Taken d dinfo t (ses'.recvinfo (ittOf t)) new ∧
      ∀ itt, itt ≠ ittOf t → ses'.recvinfo itt = s.ses.recvinfo itt := by
  simp only [dataOut, Option.ite_none_right_eq_some, Option.some.injEq] at hs
  obtain ⟨hok, rfl⟩ := hs
  obtain ⟨dinfo, hinfo, hle, htaken, hother⟩ := handle_taken d (Prod.ext hok rfl)
  exact ⟨_, _, dinfo, rfl, hinfo, hle, htaken, hother⟩

theorem inv_unsolicited (hd : 0 < d.mrds) (h : Inv s)
    (hf : Fits w s (.unsolicited t)) (hs : step w d s (.unsolicited t) = some s') : Inv s' := by
  obtain ⟨ses', new, dinfo, rfl, hinfo, hle, htaken, hother⟩ := dataOut_some hs
  have hgoing := h.going _ _ hinfo
  obtain ⟨htotal, hremain, hlt, hphase⟩ := hgoing
  cases hphase with
  | asking before r hsent =>
    rw [show (s.flow (ittOf t)).sent = [] from hf] at hsent
    exact absurd hsent (by simp)
  | unsolicited hopen hsent hans hgot hsn =>
    cases htaken with
    | more hfinal hi hnew =>
      refine h.update hother (fun info hi' => ?_) ?_
      · obtain rfl := Option.some.inj (hi.symm.trans hi')
        refine ⟨htotal, Nat.le_trans (Nat.sub_le _ _) hremain, hlt, .unsolicited ?_ ?_ hans hgot hsn⟩
        · simp [Flow.unsolicitedData, hfinal]
        · simp [Flow.unsolicitedData, hsent, hnew]
      · simpa [Flow.unsolicitedData, hnew] using h.asked (ittOf t)
    | done hfinal hall hi hnew =>
      refine h.update hother (fun info hi' => ?_) ?_
      · cases hi.symm.trans hi'
      · simpa [Flow.unsolicitedData, hnew] using h.asked (ittOf t)
    | asked r hfinal hpart hi hnew hrsn hoff hlen =>
      have hle' : dinfo.remain - dlengthOf t ≤ dinfo.total := Nat.le_trans (Nat.sub_le _ _) hremain
      obtain ⟨hstart, hpos, hend⟩ := next_r2t hle' hlt (Nat.sub_pos_of_lt hpart) hd hoff hlen
      refine h.update hother (fun info hi' => ?_) ?_
      · obtain rfl := Option.some.inj (hi.symm.trans hi')
        refine ⟨htotal, hle', hlt, .asking [] r ?_ hans ?_ ?_ ?_ (Nat.lt_of_lt_of_le hpos (by omega))⟩
        · simp [Flow.unsolicitedData, hsent, hnew]
        · simpa [Flow.unsolicitedData, hgot] using hstart
        · simpa [Flow.unsolicitedData, hgot] using hpos
        · simp [hsn, advanceSn]
      · simp only [Flow.unsolicitedData, hsent, hnew]
        refine (Asked.nil _).push (hrsn.trans hsn) hpos nofun ?_
        rwa [← htotal]

theorem inv_solicited (hd : 0 < d.mrds) (h : Inv s) (ho : Obeys s (.solicited t))
    (hs : step w d s (.solicited t) = some s') : Inv s' := by
  obtain ⟨ses', new, dinfo, rfl, hinfo, hle, htaken, hother⟩ := dataOut_some hs
  obtain ⟨htotal, hremain, hlt, hphase⟩ := h.going _ _ hinfo
  obtain ⟨q, hq, hroom, hend⟩ := ho
  have hasked := h.asked (ittOf t)
  cases hphase with
  | unsolicited hopen hsent =>
    rw [hsent] at hq
    cases hq
  | asking before r hsent hans hstart hgot hsn hcount =>
    rw [hsent, hans, List.getElem?_concat_length, Option.some.injEq] at hq
    subst hq
    cases htaken with
    | more hfinal hi hnew =>
      rw [hfinal] at hend
      have hne : (s.flow (ittOf t)).got + dlengthOf t ≠ r.transferLength := fun heq => nomatch hend.2 heq
      refine h.update hother (fun info hi' => ?_) ?_
      · obtain rfl := Option.some.inj (hi.symm.trans hi')
        simp only [Flow.solicitedData, hfinal, hnew, List.append_nil, Bool.false_eq_true, if_false]
        refine ⟨htotal, Nat.le_trans (Nat.sub_le _ _) hremain, hlt,
          .asking before r hsent hans ?_ (Nat.lt_of_le_of_ne hroom hne) hsn hcount⟩
        dsimp only
        omega
      · simpa [Flow.solicitedData, hfinal, hnew] using hasked
    | done hfinal hall hi hnew =>
      refine h.update hother (fun info hi' => ?_) ?_
      · cases hi.symm.trans hi'
      · simpa [Flow.solicitedData, hfinal, hnew] using hasked
    | asked r' hfinal hpart hi hnew hrsn hoff hlen =>
      have hle' : dinfo.remain - dlengthOf t ≤ dinfo.total := Nat.le_trans (Nat.sub_le _ _) hremain
      obtain ⟨hstart', hpos, hend'⟩ := next_r2t hle' hlt (Nat.sub_pos_of_lt hpart) hd hoff hlen
      have hfull := hend.1 hfinal
      have hnext : r'.offset = r.offset + r.transferLength := by omega
      have hinside := hasked.inside r (by simp [hsent])
      rw [← htotal] at hinside
      refine h.update hother (fun info hi' => ?_) ?_
      · obtain rfl := Option.some.inj (hi.symm.trans hi')
        simp only [Flow.solicitedData, hfinal, hnew, if_true]
        refine ⟨htotal, hle', hlt, .asking (before ++ [r]) r' ?_ ?_ ?_ hpos ?_ ?_⟩
        · rw [hsent]
        · simp [hans]
        · exact hstart'
        · simp only [hsn, List.length_append, List.length_singleton, advanceSn]
          rw [if_neg (by omega)]
        · simp only [List.length_append, List.length_singleton]
          omega
      · simp only [Flow.solicitedData, hfinal, hnew, if_true]
        refine hasked.push ?_ hpos (fun p hp => ?_) (by rwa [← htotal])
        · rw [hrsn, hsn, hsent, List.length_append, List.length_singleton]
        · rw [hsent, List.getLast?_concat] at hp
          rw [← Option.some.inj hp]
          exact hnext

end Step

/-- While each WRITE that leaves data to come has a fresh task tag, brings no more data
than it asks for and has the F bit only where it draws an R2T, and no unsolicited data
comes once an R2T is sent, each task goes on, and its R2Ts tile the data. -/
theorem progress_of_fits (w : WriteHandler) (d : DataOutHandler) (hw : 512 ≤ w.mrds)
    (hd : 512 ≤ d.mrds) (ses : Session B ix) (h₀ : ∀ itt, ses.recvinfo itt = none) (s : State B ix)
    (h : Runs.Reachable (init ses) (step w d) (fun s e => Obeys s e ∧ Fits w s e) s) :
    Progress s := by
  refine (h.invariant Inv ?_ fun s e s' hi hok hs => ?_).progress
  · refine ⟨fun itt info hinfo => ?_, fun itt => .nil _⟩
    cases (h₀ itt).symm.trans hinfo
  · obtain ⟨ho, hf⟩ := hok
    cases e with
    | command t => exact inv_command (by omega) hi hf hs
    | unsolicited t => exact inv_unsolicited (by omega) hi hf hs
    | solicited t => exact inv_solicited (by omega) hi ho hs
    | beside b =>
      obtain rfl := Option.some.inj hs
      have hrecvinfo : (b.run s.ses).recvinfo = s.ses.recvinfo := b.keeps s.ses
      exact ⟨fun itt info hinfo => hi.going itt info (by rwa [← hrecvinfo]), hi.asked⟩

section Sample

def sampleR2T : WriteHandler := { sampleHandler with mrds := 512, initialR2T := true }

def sampleCommand : Option (State Unit LbaIndex.ofList) :=
  step sampleR2T ⟨512⟩ (init sampleSession) (.command (sampleWrite 2 3))

def sampleAnswer : Option (State Unit LbaIndex.ofList) :=
  sampleCommand.bind (step sampleR2T ⟨512⟩ · (.solicited (sampleDataOut 2)))

def askedBlock (i : Nat) : R2THeader :=
  { flags := iscsiFlagFinal, itt := 7, ttt := 7, r2tsn := i, offset := 512 * (i + 1),
    transferLength := 512 }

/-- One block with the command, then an R2T for each of the two others; the first
of them is answered. -/
theorem progress_two_r2ts : ∃ s, sampleAnswer = some s ∧ Progress s ∧
    s.flow 7 = { total := 1536, sent := [askedBlock 0, askedBlock 1], answered := 1 } := by
  obtain ⟨s₁, h₁⟩ := Option.isSome_iff_exists.1 (show sampleCommand.isSome = true by decide +kernel)
  obtain ⟨s₂, h₂⟩ := Option.isSome_iff_exists.1 (show sampleAnswer.isSome = true by decide +kernel)
  have hf₁ : sampleCommand.map (·.flow 7) = some { total := 1536, sent := [askedBlock 0] } := by
    decide +kernel
  have hf₂ : sampleAnswer.map (·.flow 7) =
      some { total := 1536, sent := [askedBlock 0, askedBlock 1], answered := 1 } := by
    decide +kernel
  rw [h₁, Option.map_some, Option.some.injEq] at hf₁
  rw [h₂, Option.map_some, Option.some.injEq] at hf₂
  have hstep₁ : step sampleR2T ⟨512⟩ (init sampleSession) (.command (sampleWrite 2 3)) = some s₁ := h₁
  have hstep₂ : step sampleR2T ⟨512⟩ s₁ (.solicited (sampleDataOut 2)) = some s₂ := by
    rw [sampleAnswer, h₁, Option.bind_some] at h₂
    exact h₂
  have hitt : ittOf (sampleDataOut 2) = 7 := by decide
  refine ⟨s₂, h₂, ?_, hf₂⟩
  refine progress_of_fits sampleR2T ⟨512⟩ (by decide) (by decide) sampleSession (fun _ => rfl) s₂
    (.step (.step .start ?_ hstep₁) ?_ hstep₂)
  · exact ⟨trivial, fun _ => ⟨rfl, fun _ => by decide, fun _ => .inl rfl⟩⟩
  · refine ⟨?_, trivial⟩
    rw [Obeys, hitt, hf₁]
    exact ⟨askedBlock 0, rfl, by decide, by decide⟩

def sampleFinal : Option (State Unit LbaIndex.ofList) :=
  step sampleHandler ⟨8192⟩ (init sampleSession) (.command (sampleWrite 2 2))

/-- Without InitialR2T, a WRITE of two blocks that brings one of them and has the F bit:
nobody owes the other. -/
theorem not_progress_final_command : ∃ s,
    Runs.Reachable (init sampleSession) (step sampleHandler ⟨8192⟩) Obeys s ∧ ¬ Progress s := by
  obtain ⟨s, hs⟩ := Option.isSome_iff_exists.1 (show sampleFinal.isSome = true by decide +kernel)
  have hflow : sampleFinal.map (·.flow 7) = some { total := 1024 } := by decide +kernel
  have hinfo : sampleFinal.bind (·.ses.recvinfo 7) = some ⟨0, 1024, 512, 0⟩ := by decide +kernel
  rw [hs, Option.map_some, Option.some.injEq] at hflow
  rw [hs, Option.bind_some] at hinfo
  have hstep : step sampleHandler ⟨8192⟩ (init sampleSession) (.command (sampleWrite 2 2)) = some s := hs
  have hobeys : Obeys (init sampleSession) (.command (sampleWrite 2 2)) := trivial
  refine ⟨s, .step .start hobeys hstep, fun h => ?_⟩
  have howed := h.owed 7 _ hinfo (by decide)
  rw [hflow] at howed
  obtain hopen | ⟨r, hr, -⟩ := howed
  · cases hopen
  · cases hr

end Sample

end Sstoraged.R2TFlow
