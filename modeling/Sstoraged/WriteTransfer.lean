import Sstoraged.DataOut
import Sstoraged.WriteHandler

namespace Sstoraged.WriteTransfer

variable {B : Type} {ix : LbaIndex}

section Fields

variable (t : Token B)

def ittOf : Nat := (Parser.mk t.bhs).getITT
def lunOf : Nat := (Parser.mk t.bhs).getLUN
def dlengthOf : Nat := (Parser.mk t.bhs).getDlength
def finalOf : Bool := (Parser.mk t.bhs).isFinal
def lbaOf : Nat := (Cdb10.mk (Parser.mk t.bhs).getSCB).getLBA
def lengthOf : Nat := (Cdb10.mk (Parser.mk t.bhs).getSCB).getTransferLength

end Fields

/-- What goes on in the session between two PDUs of a task, other tasks included. -/
structure Elsewhere (B : Type) (ix : LbaIndex) (itt : Nat) where
  run : Session B ix → Session B ix
  recvinfo : ∀ s, (run s).recvinfo itt = s.recvinfo itt
  caches : ∀ s, (run s).wcaches.length = s.wcaches.length

/-- What one call of a handler pushed and queued. -/
structure Call (B : Type) where
  pushed : List (Nat × WriteSegment B)
  replies : List ReplyHeader

def replies (s s' : Session B ix) : List ReplyHeader :=
  (s'.sendtask.drop s.sendtask.length).filterMap fun
    | .send t => t.cbufs.head?.map s'.headers
    | _ => none

/-- A call that returns true, and the session behind it. -/
def call (s : Session B ix) (r : Bool × Session B ix) : Option (Call B × Session B ix) :=
  if r.1 then some (⟨r.2.pushed.drop s.pushed.length, replies s r.2⟩, r.2) else none

def dataOuts {itt : Nat} (d : DataOutHandler) :
    Session B ix → List (Elsewhere B ix itt × Token B) → Option (List (Call B))
  | _, [] => some []
  | s, (e, t) :: outs =>
    (call (e.run s) (d.handle (e.run s) t)).bind fun (c, s') => (dataOuts d s' outs).map (c :: ·)

/-- The calls for the PDUs of one WRITE, if they all return true. -/
def transfer {itt : Nat} (h : WriteHandler) (d : DataOutHandler) (s : Session B ix) (cmd : Token B)
    (outs : List (Elsewhere B ix itt × Token B)) : Option (List (Call B)) :=
  (call s (h.handle s cmd)).bind fun (c, s') => (dataOuts d s' outs).map (c :: ·)

def isGood (itt : Nat) : ReplyHeader → Bool
  | .scsiRsp r => decide (r.itt = itt ∧ r.cmdStatus = 0)
  | _ => false

/-- The last call, and no call before it, queues the GOOD response. -/
def Answered (itt : Nat) (calls : List (Call B)) : Prop :=
  ∃ before last, calls = before ++ [last] ∧ (∀ c ∈ before, c.replies.any (isGood itt) = false) ∧
    last.replies.any (isGood itt) = true

/-- Segments that lie one behind the other from one LBA to another. -/
def Tiles : Nat → List (WriteSegment B) → Nat → Prop
  | a, [], e => a = e
  | a, ws :: segs, e => ws.lba = a ∧ Tiles ws.tail segs e

/-- The bytes that a segment brings to its blocks. -/
def written (mem : B → Nat → UInt8) (ws : WriteSegment B) : List UInt8 :=
  (BufferChain.contents commonBufSize mem ws.cbufs ws.dsOffset).take (lba2Offset ws.transferLength)

/-- The segments hold just the data of the PDUs, from block `a` up to block `e`. -/
structure Held (lun a e : Nat) (ts : List (Token B)) (segs : List (Nat × WriteSegment B)) : Prop where
  lun : ∀ q ∈ segs, q.1 = lun
  filled : ∀ q ∈ segs, q.2.Filled
  tiles : Tiles a (segs.map Prod.snd) e
  bytes : ∀ mem, segs.flatMap (fun q => written mem q.2) = ts.flatMap (Token.data mem)

/-- The write is taken and answered, and nothing of it is lost or misplaced. -/
def Served {itt : Nat} (h : WriteHandler) (d : DataOutHandler) (s : Session B ix) (cmd : Token B)
    (outs : List (Elsewhere B ix itt × Token B)) : Prop :=
  ∃ calls, transfer h d s cmd outs = some calls ∧ Answered (ittOf cmd) calls ∧
    Held (lunOf cmd) (lbaOf cmd) (lbaOf cmd + lengthOf cmd) (cmd :: outs.map Prod.snd)
      (calls.flatMap Call.pushed)

/-- A WRITE(10) in range, with immediate data only where that is allowed. -/
structure Valid (h : WriteHandler) (s : Session B ix) (t : Token B) (lv : LogicalVolume) : Prop where
  valid : WriteHandler.valid t.bhs = true
  burst : lba2Offset (lengthOf t) ≤ h.maxBurstLength
  lun : s.getLUN (lunOf t) = some lv
  caches : s.wcaches.length = s.lvs.length
  positive : 0 < lengthOf t
  inside : lbaOf t + lengthOf t ≤ lv.getTotalSize
  unique : s.recvinfo (ittOf t) = none
  whole : t.Whole
  immediate : h.immediateEnabled = true ∨ dlengthOf t = 0

structure IsDataOut (itt : Nat) (t : Token B) : Prop where
  valid : DataOutHandler.valid t.bhs = true
  itt : ittOf t = itt
  whole : t.Whole
  positive : 0 < dlengthOf t

/-- The PDUs split the data in order, and the last one has the F bit. -/
structure Split (cmd : Token B) (outs : List (Token B)) : Prop where
  dataOut : ∀ t ∈ outs, IsDataOut (ittOf cmd) t
  total : dlengthOf cmd + (outs.map dlengthOf).sum = 512 * lengthOf cmd
  final : finalOf ((cmd :: outs).getLast (List.cons_ne_nil _ _)) = true

/-- The condition: whole blocks in each PDU, and the LUN of the command in each Data-Out. -/
structure Blockwise (h : WriteHandler) (cmd : Token B) (outs : List (Token B)) : Prop where
  immediate : h.immediateEnabled = true → 0 < dlengthOf cmd ∧ 512 ∣ dlengthOf cmd
  dataOut : ∀ t ∈ outs, 512 ∣ dlengthOf t ∧ lunOf t = lunOf cmd

section Replies

variable {s s' : Session B ix}

theorem replies_nil (h : s'.sendtask = s.sendtask) : replies s s' = [] := by
  simp [replies, h]

theorem replies_send {t : SendTask} {p : Nat} (h : s'.sendtask = s.sendtask ++ [.send t])
    (ht : t.cbufs = [p]) : replies s s' = [s'.headers p] := by
  simp [replies, h, ht]

theorem any_isGood_pushGood {s₀ : Session B ix} (itt : Nat) (h : s.sendtask = s₀.sendtask)
    (h' : s'.sendtask = (s.pushGood itt).sendtask) (hh : s'.headers = (s.pushGood itt).headers) :
    (replies s₀ s').any (isGood itt) = true := by
  rw [replies_send (h'.trans (by rw [← h]; rfl)) rfl, hh]
  simp [Session.pushGood, Session.pushSend, Session.push, Session.alloc, Session.advanceSTATSN, isGood]

theorem any_isGood_pushR2T {s₀ : Session B ix} (itt lun r2tsn offset length : Nat)
    (h : s.sendtask = s₀.sendtask)
    (h' : s'.sendtask = (s.pushR2T itt lun r2tsn offset length).sendtask)
    (hh : s'.headers = (s.pushR2T itt lun r2tsn offset length).headers) :
    (replies s₀ s').any (isGood itt) = false := by
  rw [replies_send (h'.trans (by rw [← h]; rfl)) rfl, hh]
  simp [Session.pushR2T, Session.pushSend, Session.push, Session.alloc, isGood]

end Replies

section Handlers

variable {s s₀ : Session B ix} {t : Token B}

theorem frontDataSegment_blocks (h : t.Whole) (hd : 0 < dlengthOf t) (hdvd : 512 ∣ dlengthOf t)
    (lba : Nat) :
    ∃ ws, t.frontDataSegment lba (offset2Lba (dlengthOf t)) = some ws ∧ ws.lba = lba ∧
      512 * ws.transferLength = dlengthOf t ∧ ws.Filled ∧ ∀ mem, written mem ws = t.data mem := by
  obtain ⟨n, hn⟩ := hdvd
  have hdiv : offset2Lba (dlengthOf t) = n := by
    rw [offset2Lba_eq]
    omega
  have hlt : dlengthOf t < 2 ^ 24 := Parser.getDlength_lt _
  obtain ⟨cbufs, ds, hfront, hds, hcap, hdata⟩ := Token.frontDataSegment_whole h hd lba n hn.le
  have hcap' : dlengthOf t ≤ BufferChain.capacity commonBufSize cbufs ds := hcap
  rw [hn] at hcap'
  rw [hdiv]
  refine ⟨_, hfront, rfl, hn.symm, ⟨rfl, ⟨rfl, rfl⟩, ?_, ?_, ?_, hds, ?_⟩, fun mem => ?_⟩
  · show 0 < n
    omega
  · show n < 2 ^ 32
    omega
  · rw [lba2Offset_eq]
    exact hn
  · rw [lba2Offset_eq]
    exact hcap'
  · rw [← hdata, written, lba2Offset_eq]
    exact congrArg (List.take · _) hn.symm

theorem handle_dataOut (d : DataOutHandler) {itt : Nat} {dinfo : DataOutInfo} (ht : IsDataOut itt t)
    (hinfo : s.recvinfo itt = some dinfo) (hlun : lunOf t < s.wcaches.length)
    (hdvd : 512 ∣ dlengthOf t) (hle : dinfo.remain ≤ dinfo.total) (hlt : dinfo.total < 2 ^ 32) :
    ∃ ws, d.handle s t = d.finish (s.store (lunOf t) ws) t.bhs dinfo ∧
      ws.lba = dinfo.lba + (dinfo.total - dinfo.remain) / 512 ∧
      512 * ws.transferLength = dlengthOf t ∧ ws.Filled ∧ ∀ mem, written mem ws = t.data mem := by
  obtain ⟨ws, hfront, hlba, hrest⟩ := frontDataSegment_blocks ht.whole ht.positive hdvd
    (dinfo.lba + (dinfo.total - dinfo.remain) / 512)
  have hinfo' : s.recvinfo (Parser.mk t.bhs).getITT = some dinfo := by
    rw [← hinfo, ← ht.itt]
    rfl
  have hsub : u32 (dinfo.total - dinfo.remain) = dinfo.total - dinfo.remain :=
    u32_sub hle (by omega)
  have hcaches : ¬ s.wcaches.length ≤ (Parser.mk t.bhs).getLUN := Nat.not_le_of_lt hlun
  refine ⟨ws, ?_, hlba, hrest⟩
  rw [← offset2Lba_eq] at hfront
  simp only [DataOutHandler.handle, ht.valid, hinfo', hsub]
  rw [if_neg (by simp)]
  simp only [show t.frontDataSegment _ (offset2Lba (Parser.mk t.bhs).getDlength) = _ from hfront,
    if_neg hcaches]
  rfl

theorem finish_last (d : DataOutHandler) {dinfo : DataOutInfo} (h : s.sendtask = s₀.sendtask)
    (hd : dlengthOf t = dinfo.remain) (hf : finalOf t = true) :
    ∃ s', d.finish s t.bhs dinfo = (true, s') ∧ s'.pushed = s.pushed ∧
      s'.recvinfo (ittOf t) = none ∧ (replies s₀ s').any (isGood (ittOf t)) = true := by
  have hlt : ¬ dinfo.remain < (Parser.mk t.bhs).getDlength := (Nat.lt_irrefl _ <| hd ▸ ·)
  have hz : dinfo.remain - (Parser.mk t.bhs).getDlength = 0 := by
    rw [← hd]
    exact Nat.sub_self _
  have hne : ¬ (Parser.mk t.bhs).isFinal = false := ne_false_of_eq_true hf
  have heq : d.finish s t.bhs dinfo = (true, ((s.setRecvinfo (ittOf t) (some { dinfo with
      remain := dinfo.remain - dlengthOf t })).pushGood (ittOf t)).setRecvinfo (ittOf t) none) := by
    simp only [DataOutHandler.finish, if_neg hlt, if_neg hne, if_pos hz]
    rfl
  exact ⟨_, heq, rfl, Function.update_self _ _ _,
    @any_isGood_pushGood _ _ (s.setRecvinfo _ _) _ s₀ _ h rfl rfl⟩

theorem finish_more (d : DataOutHandler) {dinfo : DataOutInfo} (h : s.sendtask = s₀.sendtask)
    (hle : dlengthOf t ≤ dinfo.remain) (hd : dlengthOf t = dinfo.remain → finalOf t = false) :
    ∃ s' r2tsn, d.finish s t.bhs dinfo = (true, s') ∧ s'.pushed = s.pushed ∧
      s'.wcaches = s.wcaches ∧
      s'.recvinfo (ittOf t) = some { dinfo with remain := dinfo.remain - dlengthOf t, r2tsn } ∧
      (replies s₀ s').any (isGood (ittOf t)) = false := by
  have hlt : ¬ dinfo.remain < (Parser.mk t.bhs).getDlength := Nat.not_lt_of_le hle
  by_cases hf : (Parser.mk t.bhs).isFinal = false
  · have heq : d.finish s t.bhs dinfo = (true, s.setRecvinfo (ittOf t) (some { dinfo with
        remain := dinfo.remain - dlengthOf t })) := by
      simp only [DataOutHandler.finish, if_neg hlt, if_pos hf]
      rfl
    refine ⟨_, dinfo.r2tsn, heq, rfl, rfl, Function.update_self _ _ _, ?_⟩
    rw [replies_nil]
    · rfl
    · exact h
  · have hne : ¬ dinfo.remain - (Parser.mk t.bhs).getDlength = 0 := fun hz =>
      hf (hd (Nat.le_antisymm hle (Nat.sub_eq_zero_iff_le.mp hz)))
    have heq : d.finish s t.bhs dinfo = (true, ((s.setRecvinfo (ittOf t) (some { dinfo with
        remain := dinfo.remain - dlengthOf t })).pushR2T (ittOf t) (lunOf t) dinfo.r2tsn
          (u32 (dinfo.total - (dinfo.remain - dlengthOf t : Nat)))
          (min (dinfo.remain - dlengthOf t) d.mrds)).setRecvinfo (ittOf t) (some { dinfo with
            remain := dinfo.remain - dlengthOf t, r2tsn := advanceSn dinfo.r2tsn })) := by
      simp only [DataOutHandler.finish, if_neg hlt, if_neg hf, if_neg hne]
      rfl
    exact ⟨_, _, heq, rfl, rfl, Function.update_self _ _ _,
      @any_isGood_pushR2T _ _ (s.setRecvinfo _ _) _ s₀ _ _ _ _ _ h rfl rfl⟩

/-- Either the PDU is too long, or it is taken off the record; the record goes
just when the response is queued. -/
theorem finish_cases (d : DataOutHandler) (dinfo : DataOutInfo) (h : s.sendtask = s₀.sendtask) :
    (d.finish s t.bhs dinfo = (false, s) ∧ dinfo.remain < dlengthOf t) ∨
      ∃ s', d.finish s t.bhs dinfo = (true, s') ∧ dlengthOf t ≤ dinfo.remain ∧
        ((s'.recvinfo (ittOf t) = none ∧ (replies s₀ s').any (isGood (ittOf t)) = true) ∨
          ∃ r2tsn, s'.recvinfo (ittOf t) =
              some { dinfo with remain := dinfo.remain - dlengthOf t, r2tsn } ∧
            (replies s₀ s').any (isGood (ittOf t)) = false) := by
  rcases Nat.lt_or_ge dinfo.remain (dlengthOf t) with hlt | hle
  · refine .inl ⟨?_, hlt⟩
    simp only [DataOutHandler.finish, if_pos (show dinfo.remain < (Parser.mk t.bhs).getDlength from hlt)]
  · by_cases hlast : dlengthOf t = dinfo.remain ∧ finalOf t = true
    · obtain ⟨s', heq, -, hnone, hgood⟩ := finish_last d h hlast.1 hlast.2
      exact .inr ⟨s', heq, hle, .inl ⟨hnone, hgood⟩⟩
    · obtain ⟨s', sn, heq, -, -, hinfo, hgood⟩ := finish_more d h hle (fun hd => by
        by_contra hf
        exact hlast ⟨hd, by simpa using hf⟩)
      exact .inr ⟨s', heq, hle, .inr ⟨sn, hinfo, hgood⟩⟩

theorem handle_valid {h : WriteHandler} {lv : LogicalVolume} (hv : Valid h s t lv) :
    h.handle s t = if h.immediateEnabled then
      match t.frontDataSegment (lbaOf t) (offset2Lba (dlengthOf t)) with
      | none => (false, s)
      | some ws =>
        if u32 (lba2Offset (lengthOf t) - dlengthOf t) = 0 then
          if finalOf t = false then (false, s.store (lunOf t) ws)
          else (true, (s.store (lunOf t) ws).pushGood (ittOf t))
        else (true, h.receive (s.store (lunOf t) ws) t.bhs (u32 (lba2Offset (lengthOf t) - dlengthOf t)))
      else (true, h.receive s t.bhs (lba2Offset (lengthOf t))) := by
  have hlt : ¬ h.maxBurstLength < lba2Offset (lengthOf t) := Nat.not_lt_of_le hv.burst
  have hpos := hv.positive
  have hinside := hv.inside
  have hrange : ¬ (lv.getTotalSize ≤ lbaOf t ∨ lengthOf t = 0 ∨
      lv.getTotalSize < lbaOf t + lengthOf t) := by
    omega
  have hlun : s.lvs[lunOf t]? = some lv := hv.lun
  have hcaches : ¬ s.wcaches.length ≤ lunOf t := by
    rw [hv.caches, Nat.not_le]
    exact (List.getElem?_eq_some_iff.mp hlun).1
  simp only [lbaOf, lengthOf, lunOf] at hlt hrange hlun hcaches
  have hget : s.getLUN (Parser.mk t.bhs).getLUN = some lv := hlun
  simp only [WriteHandler.handle, hv.valid, if_neg hlt, hget, if_neg hrange, if_neg hcaches]
  rfl

theorem receive_recvinfo (h : WriteHandler) (s : Session B ix) (t : Token B) (remain : Nat) :
    ∃ r2tsn, (h.receive s t.bhs remain).recvinfo (ittOf t) = some ((s.recvinfo (ittOf t)).getD
      ⟨lbaOf t, lba2Offset (lengthOf t), remain, r2tsn⟩) := by
  cases hr : s.recvinfo (Parser.mk t.bhs).getITT with
  | none =>
    simp only [WriteHandler.receive, ittOf, hr]
    split
    · refine ⟨advanceSn 0, ?_⟩
      rw [Session.putRecvinfo_of_none (by rwa [Session.pushR2T_recvinfo]), Session.setRecvinfo_recvinfo]
      exact Function.update_self _ _ _
    · refine ⟨0, ?_⟩
      rw [Session.putRecvinfo_of_none hr, Session.setRecvinfo_recvinfo]
      exact Function.update_self _ _ _
  | some info =>
    refine ⟨0, ?_⟩
    simp only [WriteHandler.receive, ittOf, hr, Option.getD_some]
    split
    · simp [Session.putRecvinfo, hr]
    · simp [Session.putRecvinfo, hr]

theorem any_isGood_receive (h : WriteHandler) (remain : Nat) (hs : s.sendtask = s₀.sendtask) :
    (replies s₀ (h.receive s t.bhs remain)).any (isGood (ittOf t)) = false := by
  simp only [WriteHandler.receive, Session.putRecvinfo]
  split
  · split
    · exact any_isGood_pushR2T _ _ _ _ _ hs rfl rfl
    · exact any_isGood_pushR2T _ _ _ _ _ hs rfl rfl
  · split
    · rw [replies_nil hs]
      rfl
    · rw [replies_nil]
      · rfl
      · exact hs

end Handlers

section Served

theorem call_true {s s' : Session B ix} {r : Bool × Session B ix} {ps : List (Nat × WriteSegment B)}
    (h : r = (true, s')) (hp : s'.pushed = s.pushed ++ ps) :
    call s r = some (⟨ps, replies s s'⟩, s') := by
  simp [call, h, hp]

theorem dataOuts_cons {itt : Nat} {d : DataOutHandler} {s s' : Session B ix}
    {e : Elsewhere B ix itt} {t : Token B} {c : Call B} {calls : List (Call B)}
    {outs : List (Elsewhere B ix itt × Token B)}
    (hc : call (e.run s) (d.handle (e.run s) t) = some (c, s')) (h : dataOuts d s' outs = some calls) :
    dataOuts d s ((e, t) :: outs) = some (c :: calls) := by
  simp only [dataOuts, hc, Option.bind_some, h, Option.map_some]

theorem Answered.last {itt : Nat} {c : Call B} (h : c.replies.any (isGood itt) = true) :
    Answered itt [c] := ⟨[], c, rfl, by simp, h⟩

theorem Answered.cons {itt : Nat} {c : Call B} {calls : List (Call B)}
    (hc : c.replies.any (isGood itt) = false) (h : Answered itt calls) : Answered itt (c :: calls) := by
  obtain ⟨before, last, rfl, hbefore, hlast⟩ := h
  exact ⟨c :: before, last, rfl, List.forall_mem_cons.mpr ⟨hc, hbefore⟩, hlast⟩

theorem Held.nil (lun a : Nat) : Held lun a a ([] : List (Token B)) [] :=
  ⟨by simp, by simp, rfl, fun _ => rfl⟩

theorem Held.cons {lun e : Nat} {t : Token B} {ts : List (Token B)} {ws : WriteSegment B}
    {segs : List (Nat × WriteSegment B)} (hf : ws.Filled) (hb : ∀ mem, written mem ws = t.data mem)
    (h : Held lun ws.tail e ts segs) : Held lun ws.lba e (t :: ts) ((lun, ws) :: segs) := by
  refine ⟨List.forall_mem_cons.mpr ⟨rfl, h.lun⟩, List.forall_mem_cons.mpr ⟨hf, h.filled⟩,
    ⟨rfl, h.tiles⟩, fun mem => ?_⟩
  rw [List.flatMap_cons, List.flatMap_cons, hb, h.bytes]

/-- The segment that a PDU of whole blocks pushes. -/
structure Pushes (lun lba : Nat) (t : Token B) (c : Call B) (ws : WriteSegment B) : Prop where
  pushed : c.pushed = [(lun, ws)]
  lba : ws.lba = lba
  length : 512 * ws.transferLength = dlengthOf t
  filled : ws.Filled
  written : ∀ mem, written mem ws = t.data mem

theorem dataOut_last (d : DataOutHandler) {itt : Nat} {dinfo : DataOutInfo} {s : Session B ix}
    {t : Token B} (ht : IsDataOut itt t) (hinfo : s.recvinfo itt = some dinfo)
    (hlun : lunOf t < s.wcaches.length) (hdvd : 512 ∣ dlengthOf t) (hle : dinfo.remain ≤ dinfo.total)
    (hlt : dinfo.total < 2 ^ 32) (hd : dlengthOf t = dinfo.remain) (hf : finalOf t = true) :
    ∃ c s' ws, call s (d.handle s t) = some (c, s') ∧ c.replies.any (isGood itt) = true ∧
      Pushes (lunOf t) (dinfo.lba + (dinfo.total - dinfo.remain) / 512) t c ws := by
  obtain ⟨ws, hhandle, hlba, hlen, hfill, hwritten⟩ := handle_dataOut d ht hinfo hlun hdvd hle hlt
  obtain ⟨s', hfin, hpush, -, hgood⟩ :=
    @finish_last _ _ (s.store (lunOf t) ws) s t d dinfo (Session.store_sendtask _ _ _) hd hf
  have hcall := @call_true _ _ s _ _ [(lunOf t, ws)] (hhandle.trans hfin)
    (hpush.trans (Session.store_pushed _ _ _))
  rw [ht.itt] at hgood
  exact ⟨_, s', ws, hcall, hgood, rfl, hlba, hlen, hfill, hwritten⟩

theorem dataOut_more (d : DataOutHandler) {itt : Nat} {dinfo : DataOutInfo} {s : Session B ix}
    {t : Token B} (ht : IsDataOut itt t) (hinfo : s.recvinfo itt = some dinfo)
    (hlun : lunOf t < s.wcaches.length) (hdvd : 512 ∣ dlengthOf t) (hle : dinfo.remain ≤ dinfo.total)
    (hlt : dinfo.total < 2 ^ 32) (hd : dlengthOf t < dinfo.remain) :
    ∃ c s' ws r2tsn, call s (d.handle s t) = some (c, s') ∧ c.replies.any (isGood itt) = false ∧
      Pushes (lunOf t) (dinfo.lba + (dinfo.total - dinfo.remain) / 512) t c ws ∧
      s'.wcaches.length = s.wcaches.length ∧
      s'.recvinfo itt = some { dinfo with remain := dinfo.remain - dlengthOf t, r2tsn } := by
  obtain ⟨ws, hhandle, hlba, hlen, hfill, hwritten⟩ := handle_dataOut d ht hinfo hlun hdvd hle hlt
  obtain ⟨s', sn, hfin, hpush, hwc, hinfo', hgood⟩ :=
    @finish_more _ _ (s.store (lunOf t) ws) s t d dinfo (Session.store_sendtask _ _ _) (by omega)
      (fun h => absurd h (by omega))
  have hcall := @call_true _ _ s _ _ [(lunOf t, ws)] (hhandle.trans hfin)
    (hpush.trans (Session.store_pushed _ _ _))
  rw [ht.itt] at hgood hinfo'
  exact ⟨_, s', ws, sn, hcall, hgood, ⟨rfl, hlba, hlen, hfill, hwritten⟩,
    by rw [hwc, Session.length_store_wcaches], hinfo'⟩

theorem Pushes.held {lun a b e : Nat} {t : Token B} {ts : List (Token B)} {c : Call B}
    {ws : WriteSegment B} {segs : List (Nat × WriteSegment B)} (hp : Pushes lun a t c ws)
    (hb : b = a + dlengthOf t / 512) (h : Held lun b e ts segs) :
    Held lun a e (t :: ts) (c.pushed ++ segs) := by
  have htail : ws.tail = b := by
    have hlen := hp.length
    rw [WriteSegment.tail, hp.lba, hb]
    omega
  rw [hp.pushed, ← hp.lba]
  exact Held.cons hp.filled hp.written (htail ▸ h)

theorem dataOuts_served (d : DataOutHandler) {itt lun lba tl : Nat} (htl : 512 * tl < 2 ^ 32)
    (outs : List (Elsewhere B ix itt × Token B)) (hne : outs ≠ []) (s : Session B ix)
    (remain r2tsn : Nat) (hinfo : s.recvinfo itt = some ⟨lba, 512 * tl, remain, r2tsn⟩)
    (hlun : lun < s.wcaches.length)
    (houts : ∀ p ∈ outs, IsDataOut itt p.2 ∧ 512 ∣ dlengthOf p.2 ∧ lunOf p.2 = lun)
    (hsum : (outs.map (dlengthOf ·.2)).sum = remain) (hle : remain ≤ 512 * tl)
    (hf : ∀ p ∈ outs.getLast?, finalOf p.2 = true) :
    ∃ calls, dataOuts d s outs = some calls ∧ Answered itt calls ∧
      Held lun (lba + (512 * tl - remain) / 512) (lba + tl) (outs.map Prod.snd)
        (calls.flatMap Call.pushed) := by
  induction outs generalizing s remain r2tsn with
  | nil => exact absurd rfl hne
  | cons p outs ih =>
    obtain ⟨e, t⟩ := p
    obtain ⟨⟨ht, hdvd, hl⟩, houts⟩ := List.forall_mem_cons.mp houts
    rw [List.map_cons, List.sum_cons] at hsum
    dsimp only at ht hdvd hl hsum
    have hinfo' := (e.recvinfo s).trans hinfo
    have hlun' : lunOf t < (e.run s).wcaches.length := by rwa [e.caches, hl]
    cases outs with
    | nil =>
      rw [List.map_nil, List.sum_nil, Nat.add_zero] at hsum
      obtain ⟨c, s', ws, hcall, hgood, hp⟩ := dataOut_last d ht hinfo' hlun' hdvd hle htl hsum (hf _ rfl)
      refine ⟨[c], dataOuts_cons hcall rfl, .last hgood, hl ▸ hp.held ?_ (Held.nil _ _)⟩
      dsimp only
      omega
    | cons q outs =>
      have hq := (List.forall_mem_cons.mp houts).1.1.positive
      have hrest : ((q :: outs).map (dlengthOf ·.2)).sum = remain - dlengthOf t := by omega
      rw [List.map_cons, List.sum_cons] at hsum
      obtain ⟨c, s', ws, sn, hcall, hgood, hp, hwc, hinfo₂⟩ :=
        dataOut_more d ht hinfo' hlun' hdvd hle htl
        (show dlengthOf t < remain by omega)
      obtain ⟨calls, hcalls, hans, hheld⟩ := ih (by simp) s' (remain - dlengthOf t) sn hinfo₂
        (by rwa [hwc, ← hl]) houts hrest (by omega) (fun r hr => hf r (by simpa using hr))
      refine ⟨c :: calls, dataOuts_cons hcall hcalls, .cons hgood hans, hl ▸ hp.held ?_ (hl ▸ hheld)⟩
      dsimp only
      omega

theorem transfer_cons {itt : Nat} {h : WriteHandler} {d : DataOutHandler} {s s' : Session B ix}
    {cmd : Token B} {c : Call B} {calls : List (Call B)} {outs : List (Elsewhere B ix itt × Token B)}
    (hc : call s (h.handle s cmd) = some (c, s')) (hcalls : dataOuts d s' outs = some calls) :
    transfer h d s cmd outs = some (c :: calls) := by
  simp only [transfer, hc, Option.bind_some, hcalls, Option.map_some]

theorem Held.cons_empty {lun a e : Nat} {t : Token B} {ts : List (Token B)}
    {segs : List (Nat × WriteSegment B)} (ht : dlengthOf t = 0) (h : Held lun a e ts segs) :
    Held lun a e (t :: ts) segs := by
  refine ⟨h.lun, h.filled, h.tiles, fun mem => ?_⟩
  have hz : (Parser.mk t.bhs).getDlength = 0 := ht
  rw [List.flatMap_cons, h.bytes, Token.data, hz, List.take_zero, List.nil_append]

variable {h : WriteHandler} {s : Session B ix} {cmd : Token B} {lv : LogicalVolume}

theorem lun_lt (hv : Valid h s cmd lv) : lunOf cmd < s.wcaches.length := by
  rw [hv.caches]
  exact (List.getElem?_eq_some_iff.mp hv.lun).1

theorem served_rest (d : DataOutHandler) {outs : List (Elsewhere B ix (ittOf cmd) × Token B)}
    (hs : Split cmd (outs.map Prod.snd)) (hb : Blockwise h cmd (outs.map Prod.snd))
    (hlt : dlengthOf cmd < 512 * lengthOf cmd) {s' : Session B ix} {r2tsn : Nat}
    (hlun : lunOf cmd < s'.wcaches.length)
    (hinfo : s'.recvinfo (ittOf cmd) =
      some ⟨lbaOf cmd, 512 * lengthOf cmd, 512 * lengthOf cmd - dlengthOf cmd, r2tsn⟩) :
    ∃ calls, dataOuts d s' outs = some calls ∧ Answered (ittOf cmd) calls ∧
      Held (lunOf cmd) (lbaOf cmd + dlengthOf cmd / 512) (lbaOf cmd + lengthOf cmd)
        (outs.map Prod.snd) (calls.flatMap Call.pushed) := by
  have htl : lengthOf cmd < 2 ^ 16 := Cdb10.getTransferLength_lt _
  have htotal := hs.total
  rw [List.map_map] at htotal
  have hsub : 512 * lengthOf cmd - (512 * lengthOf cmd - dlengthOf cmd) = dlengthOf cmd := by omega
  have hne : outs ≠ [] := by
    rintro rfl
    simp only [List.map_nil, List.sum_nil] at htotal
    omega
  have hf : ∀ p ∈ outs.getLast?, finalOf p.2 = true := by
    intro p hp
    have hfinal := hs.final
    have hne' : outs.map Prod.snd ≠ [] := by simpa using hne
    rw [List.getLast_cons hne', List.getLast_map] at hfinal
    rw [List.getLast?_eq_some_getLast hne] at hp
    rwa [← Option.some.inj hp]
  have houts : ∀ p ∈ outs, IsDataOut (ittOf cmd) p.2 ∧ 512 ∣ dlengthOf p.2 ∧ lunOf p.2 = lunOf cmd :=
    fun p hp => ⟨hs.dataOut _ (List.mem_map_of_mem hp), hb.dataOut _ (List.mem_map_of_mem hp)⟩
  obtain ⟨calls, hcalls, hans, hheld⟩ := dataOuts_served d (by omega) outs hne s' _ r2tsn hinfo hlun
    houts (show (outs.map (dlengthOf ∘ Prod.snd)).sum = _ by omega) (by omega) hf
  rw [hsub] at hheld
  exact ⟨calls, hcalls, hans, hheld⟩

theorem served_of_blockwise (d : DataOutHandler)
    {outs : List (Elsewhere B ix (ittOf cmd) × Token B)} (hv : Valid h s cmd lv)
    (hs : Split cmd (outs.map Prod.snd)) (hb : Blockwise h cmd (outs.map Prod.snd)) :
    Served h d s cmd outs := by
  have hpos := hv.positive
  have htl : lengthOf cmd < 2 ^ 16 := Cdb10.getTransferLength_lt _
  have hhandle := handle_valid hv
  simp only [lba2Offset_eq] at hhandle
  cases himm : h.immediateEnabled with
  | false =>
    have hz : dlengthOf cmd = 0 := hv.immediate.resolve_left (by simp [himm])
    obtain ⟨hpush, hwc, -⟩ := h.receive_frame s cmd.bhs (512 * lengthOf cmd)
    have hgood := @any_isGood_receive _ _ s s cmd h (512 * lengthOf cmd) rfl
    obtain ⟨sn, hinfo⟩ := receive_recvinfo h s cmd (512 * lengthOf cmd)
    rw [hv.unique, lba2Offset_eq] at hinfo
    rw [himm, if_neg (by simp)] at hhandle
    have hcall := @call_true _ _ s _ _ [] hhandle (by rw [hpush, List.append_nil])
    have hlun := lun_lt hv
    rw [← hwc] at hlun
    obtain ⟨calls, hcalls, hans, hheld⟩ := served_rest d hs hb (by omega) hlun (by rw [hz]; exact hinfo)
    rw [hz, Nat.zero_div, Nat.add_zero] at hheld
    exact ⟨_, transfer_cons hcall hcalls, .cons hgood hans, hheld.cons_empty hz⟩
  | true =>
    obtain ⟨hdpos, hdvd⟩ := hb.immediate himm
    have hle : dlengthOf cmd ≤ 512 * lengthOf cmd := by
      have htotal := hs.total
      omega
    obtain ⟨ws, hfront, hlba, hlen, hfill, hwritten⟩ :=
      frontDataSegment_blocks hv.whole hdpos hdvd (lbaOf cmd)
    obtain ⟨s₁, hs₁⟩ : ∃ s₁, s₁ = s.store (lunOf cmd) ws := ⟨_, rfl⟩
    have hpush₁ : s₁.pushed = s.pushed ++ [(lunOf cmd, ws)] := by rw [hs₁, Session.store_pushed]
    have hsend₁ : s₁.sendtask = s.sendtask := by rw [hs₁, Session.store_sendtask]
    have hinfo₁ : s₁.recvinfo (ittOf cmd) = none := by rw [hs₁, Session.store_recvinfo, hv.unique]
    rw [himm, if_pos rfl, hfront, u32_sub hle (by omega)] at hhandle
    simp only [← hs₁] at hhandle
    rcases Nat.lt_or_eq_of_le hle with hlt | heq
    · obtain ⟨hpush, hwc, -⟩ :=
        h.receive_frame s₁ cmd.bhs (512 * lengthOf cmd - dlengthOf cmd)
      have hgood :=
        @any_isGood_receive _ _ s₁ s cmd h (512 * lengthOf cmd - dlengthOf cmd) hsend₁
      obtain ⟨sn, hinfo⟩ := receive_recvinfo h s₁ cmd (512 * lengthOf cmd - dlengthOf cmd)
      rw [hinfo₁, lba2Offset_eq] at hinfo
      rw [if_neg (by omega)] at hhandle
      have hcall := @call_true _ _ s _ _ _ hhandle (hpush.trans hpush₁)
      have hlun : lunOf cmd < s₁.wcaches.length := by
        rw [hs₁, Session.length_store_wcaches]
        exact lun_lt hv
      rw [← hwc] at hlun
      obtain ⟨calls, hcalls, hans, hheld⟩ := served_rest d hs hb hlt hlun hinfo
      exact ⟨_, transfer_cons hcall hcalls, .cons hgood hans,
        Pushes.held ⟨rfl, hlba, hlen, hfill, hwritten⟩ rfl hheld⟩
    · have hnil : outs = [] := by
        have htotal := hs.total
        cases outs with
        | nil => rfl
        | cons p outs =>
          have hp := (hs.dataOut p.2 (by simp)).positive
          rw [List.map_cons, List.map_cons, List.sum_cons] at htotal
          omega
      subst hnil
      have hf : ¬ finalOf cmd = false := by simpa using hs.final
      rw [if_pos (by omega), if_neg hf] at hhandle
      have hcall := @call_true _ _ s _ _ _ hhandle hpush₁
      have hgood := @any_isGood_pushGood _ _ s₁ _ s (ittOf cmd) hsend₁ rfl rfl
      refine ⟨_, transfer_cons hcall rfl, .last hgood,
        Pushes.held ⟨rfl, hlba, hlen, hfill, hwritten⟩ ?_ (Held.nil _ _)⟩
      omega

end Served

section Other

variable {itt : Nat} {t : Token B}

/-- A Data-Out of another task. -/
def Elsewhere.ofDataOut (d : DataOutHandler) (ht : ittOf t ≠ itt) : Elsewhere B ix itt where
  run s := (d.handle s t).2
  recvinfo s := by
    rcases d.handle_cases s t with h | ⟨dinfo, -, -, ⟨-, h⟩ | ⟨ws, -, -, h⟩⟩
    · rw [h]
    · rw [h, (d.finish_frame _ _ _).2.2.2 itt ht.symm]
    · rw [h, (d.finish_frame _ _ _).2.2.2 itt ht.symm, Session.store_recvinfo]
  caches s := by
    rcases d.handle_cases s t with h | ⟨dinfo, -, -, ⟨-, h⟩ | ⟨ws, -, -, h⟩⟩
    · rw [h]
    · rw [h, (d.finish_frame _ _ _).2.1]
    · rw [h, (d.finish_frame _ _ _).2.1, Session.length_store_wcaches]

/-- A WRITE(10) of another task. -/
def Elsewhere.ofWrite (w : WriteHandler) (ht : ittOf t ≠ itt) : Elsewhere B ix itt where
  run s := (w.handle s t).2
  recvinfo s := by
    rcases w.handle_cases s t with h | ⟨lv, -, ⟨-, h⟩ | ⟨-, ws, -, -, h⟩⟩
    · rw [h]
    · rw [h, (w.receive_frame _ _ _).2.2.2 itt ht.symm]
    · rw [h, (w.finish_frame _ _).2.2.2 itt ht.symm, Session.store_recvinfo]
  caches s := by
    rcases w.handle_cases s t with h | ⟨lv, -, ⟨-, h⟩ | ⟨-, ws, -, -, h⟩⟩
    · rw [h]
    · rw [h, (w.receive_frame _ _ _).2.1]
    · rw [h, (w.finish_frame _ _).2.1, Session.length_store_wcaches]

end Other

section Blockwise

def blocks (segs : List (Nat × WriteSegment B)) : Nat := (segs.map (·.2.transferLength)).sum

theorem blocks_append (l₁ l₂ : List (Nat × WriteSegment B)) :
    blocks (l₁ ++ l₂) = blocks l₁ + blocks l₂ := by
  simp [blocks]

theorem Tiles.blocks {a e : Nat} {segs : List (Nat × WriteSegment B)}
    (h : Tiles a (segs.map Prod.snd) e) : a + blocks segs = e := by
  induction segs generalizing a with
  | nil => exact h
  | cons q segs ih =>
    obtain ⟨rfl, h⟩ := h
    rw [← ih h, WriteTransfer.blocks, List.map_cons, List.sum_cons, WriteSegment.tail, Nat.add_assoc]
    rfl

/-- What a call that returns true pushes. -/
def OneSegment (t : Token B) (c : Call B) : Prop :=
  ∃ ws, c.pushed = [(lunOf t, ws)] ∧ 512 * ws.transferLength = dlengthOf t

theorem length_of_front {t : Token B} {lba : Nat} {ws : WriteSegment B}
    (h : t.frontDataSegment lba (offset2Lba (dlengthOf t)) = some ws) :
    0 < dlengthOf t ∧ 512 * ws.transferLength = dlengthOf t := by
  obtain ⟨-, htl, hpos, hle⟩ := Token.frontDataSegment_some h
  rw [offset2Lba_eq] at htl hle
  change 0 < dlengthOf t at hpos
  change dlengthOf t ≤ _ at hle
  exact ⟨hpos, by omega⟩

theorem dataOut_pushed {d : DataOutHandler} {itt : Nat} {s s' : Session B ix} {t : Token B}
    {c : Call B} (ht : IsDataOut itt t) (hc : call s (d.handle s t) = some (c, s')) :
    (c.pushed = [] ∧ ¬ 512 ∣ dlengthOf t) ∨ OneSegment t c := by
  simp only [call] at hc
  split at hc
  swap
  · cases hc
  rename_i htrue
  obtain ⟨rfl, -⟩ := Prod.mk.inj (Option.some.inj hc)
  rcases d.handle_cases s t with h | ⟨dinfo, -, -, ⟨hfront, h⟩ | ⟨ws, hfront, -, h⟩⟩
  · rw [h] at htrue
    cases htrue
  · refine .inl ⟨?_, fun hdvd => ?_⟩
    · simp [h, (d.finish_frame _ _ _).1]
    · obtain ⟨ws, hsome, -⟩ := frontDataSegment_blocks ht.whole ht.positive hdvd
        (dinfo.lba + offset2Lba (u32 (dinfo.total - dinfo.remain)))
      cases hfront.symm.trans hsome
  · refine .inr ⟨ws, ?_, (length_of_front hfront).2⟩
    simp [h, (d.finish_frame _ _ _).1, lunOf]

theorem dataOuts_pushed {d : DataOutHandler} {itt : Nat} {s : Session B ix}
    {outs : List (Elsewhere B ix itt × Token B)} {calls : List (Call B)}
    (houts : ∀ p ∈ outs, IsDataOut itt p.2) (hc : dataOuts d s outs = some calls) :
    512 * blocks (calls.flatMap Call.pushed) ≤ (outs.map (dlengthOf ·.2)).sum ∧
      (512 * blocks (calls.flatMap Call.pushed) = (outs.map (dlengthOf ·.2)).sum →
        ∀ p ∈ outs, 512 ∣ dlengthOf p.2 ∧ ∃ q ∈ calls.flatMap Call.pushed, q.1 = lunOf p.2) := by
  induction outs generalizing s calls with
  | nil =>
    cases hc
    simp [blocks]
  | cons p outs ih =>
    obtain ⟨e, t⟩ := p
    obtain ⟨ht, houts⟩ := List.forall_mem_cons.mp houts
    simp only [dataOuts, Option.bind_eq_some_iff, Option.map_eq_some_iff] at hc
    obtain ⟨⟨c, s'⟩, hcall, calls', hcalls, rfl⟩ := hc
    obtain ⟨hle, hall⟩ := ih houts hcalls
    dsimp only at ht hcall
    have hpos : 0 < dlengthOf t := ht.positive
    rw [List.flatMap_cons, blocks_append, List.map_cons, List.sum_cons]
    dsimp only
    rcases dataOut_pushed ht hcall with ⟨hnil, hndvd⟩ | ⟨ws, hone, hlen⟩
    · have hz : blocks c.pushed = 0 := by rw [hnil]; rfl
      exact ⟨by omega, fun heq => by omega⟩
    · have hb : blocks c.pushed = ws.transferLength := by simp [hone, blocks]
      refine ⟨by omega, fun heq => List.forall_mem_cons.mpr ⟨⟨⟨_, hlen.symm⟩, ?_⟩, fun p hp => ?_⟩⟩
      · exact ⟨(lunOf t, ws), by simp [hone], rfl⟩
      · obtain ⟨hdvd, q, hq, hlun⟩ := hall (by omega) p hp
        exact ⟨hdvd, q, List.mem_append_right _ hq, hlun⟩

theorem cmd_pushed {h : WriteHandler} {s s' : Session B ix} {cmd : Token B} {lv : LogicalVolume}
    {c : Call B} (hv : Valid h s cmd lv) (hc : call s (h.handle s cmd) = some (c, s')) :
    512 * blocks c.pushed = dlengthOf cmd ∧ (h.immediateEnabled = true → 0 < dlengthOf cmd) := by
  have hhandle := handle_valid hv
  simp only [call] at hc
  split at hc
  swap
  · cases hc
  rename_i htrue
  obtain ⟨rfl, -⟩ := Prod.mk.inj (Option.some.inj hc)
  dsimp only
  cases himm : h.immediateEnabled with
  | false =>
    rw [himm, if_neg (by simp)] at hhandle
    have hz : dlengthOf cmd = 0 := hv.immediate.resolve_left (by simp [himm])
    refine ⟨?_, by simp⟩
    rw [hhandle, hz, (h.receive_frame _ _ _).1]
    simp [blocks]
  | true =>
    rw [himm, if_pos rfl] at hhandle
    cases hfront : cmd.frontDataSegment (lbaOf cmd) (offset2Lba (dlengthOf cmd)) with
    | none =>
      rw [hfront] at hhandle
      rw [hhandle] at htrue
      cases htrue
    | some ws =>
      obtain ⟨hpos, hlen⟩ := length_of_front hfront
      rw [hfront] at hhandle
      refine ⟨?_, fun _ => hpos⟩
      have hpush : (h.handle s cmd).2.pushed = s.pushed ++ [(lunOf cmd, ws)] := by
        rw [hhandle]
        dsimp only
        split
        · split
          · exact Session.store_pushed _ _ _
          · exact Session.store_pushed _ _ _
        · rw [(h.receive_frame _ _ _).1, Session.store_pushed]
      rw [hpush, ← hlen]
      simp [blocks]

theorem blockwise_of_served {h : WriteHandler} {d : DataOutHandler} {s : Session B ix}
    {cmd : Token B} {lv : LogicalVolume} {outs : List (Elsewhere B ix (ittOf cmd) × Token B)}
    (hv : Valid h s cmd lv) (hs : Split cmd (outs.map Prod.snd)) (hserved : Served h d s cmd outs) :
    Blockwise h cmd (outs.map Prod.snd) := by
  obtain ⟨calls, htransfer, -, hheld⟩ := hserved
  simp only [transfer, Option.bind_eq_some_iff, Option.map_eq_some_iff] at htransfer
  obtain ⟨⟨c, s'⟩, hcall, calls', hcalls, rfl⟩ := htransfer
  have htotal := hs.total
  have hblocks := hheld.tiles.blocks
  dsimp only at hcalls hblocks
  rw [List.map_map] at htotal
  rw [List.flatMap_cons, blocks_append] at hblocks
  obtain ⟨hcmd, hpos⟩ := cmd_pushed hv hcall
  obtain ⟨hle, hall⟩ := dataOuts_pushed
    (fun p hp => hs.dataOut p.2 (List.mem_map_of_mem hp)) hcalls
  have hsum : (outs.map (dlengthOf ·.2)).sum = (outs.map (dlengthOf ∘ Prod.snd)).sum := rfl
  refine ⟨fun himm => ⟨hpos himm, _, hcmd.symm⟩, fun t ht => ?_⟩
  obtain ⟨p, hp, rfl⟩ := List.mem_map.mp ht
  obtain ⟨hdvd, q, hq, hlun⟩ := hall (by omega) p hp
  refine ⟨hdvd, hlun.symm.trans (hheld.lun q ?_)⟩
  rw [List.flatMap_cons]
  exact List.mem_append_right _ hq

/-- A write is served just if each of its PDUs brings whole blocks, and each
Data-Out repeats the LUN of the command. -/
theorem served_iff (h : WriteHandler) (d : DataOutHandler) (s : Session B ix) (cmd : Token B)
    (lv : LogicalVolume) (outs : List (Elsewhere B ix (ittOf cmd) × Token B))
    (hv : Valid h s cmd lv) (hs : Split cmd (outs.map Prod.snd)) :
    Served h d s cmd outs ↔ Blockwise h cmd (outs.map Prod.snd) :=
  ⟨blockwise_of_served hv hs, served_of_blockwise d hv hs⟩

end Blockwise

section Sample

def sampleHandler : WriteHandler where
  mrds := 8192
  firstBurstLength := 8192
  maxBurstLength := 65536
  immediateEnabled := true
  initialR2T := false

def sampleVolume : LogicalVolume := ⟨[⟨"volume", 0, 16⟩]⟩

def sampleSession : Session Unit LbaIndex.ofList where
  lvs := [sampleVolume]
  wcaches := [.init]
  statsn := 0
  expcmdsn := 0
  maxcmdsn := 0
  recvinfo _ := none
  sendtask := []
  bufs _ := .new
  headers _ := .dataIn {}
  next := 0

/-- A WRITE(10) of blocks from 0 on, with `256 * dlength` bytes of immediate data. -/
def sampleWrite (dlength length : UInt8) : Token Unit where
  bhs
    | 0 => 0x01
    | 1 => 0xA0
    | 6 => dlength
    | 16 => 7
    | 32 => 0x2A
    | 40 => length
    | _ => 0
  offset := 0
  cbufs := [()]

/-- A final Data-Out with `256 * dlength` bytes. -/
def sampleDataOut (dlength : UInt8) : Token Unit where
  bhs
    | 0 => 0x05
    | 1 => 0x80
    | 6 => dlength
    | 16 => 7
    | _ => 0
  offset := 0
  cbufs := [()]

def Elsewhere.idle (itt : Nat) : Elsewhere B ix itt := ⟨id, fun _ => rfl, fun _ => rfl⟩

theorem valid_sampleWrite : Valid sampleHandler sampleSession (sampleWrite 2 2) sampleVolume where
  valid := by decide
  burst := by decide
  lun := by
    have hlun : lunOf (sampleWrite 2 2) = 0 := by decide
    rw [hlun]
    rfl
  caches := rfl
  positive := by decide
  inside := by decide
  unique := rfl
  whole := ⟨by decide, by decide, by decide⟩
  immediate := .inl rfl

theorem isDataOut_sampleDataOut {dlength : UInt8} (h : dlength = 1 ∨ dlength = 2) :
    IsDataOut (ittOf (sampleWrite 2 2)) (sampleDataOut dlength) := by
  rcases h with rfl | rfl
  · exact ⟨by decide, by decide, ⟨by decide, by decide, by decide⟩, by decide⟩
  · exact ⟨by decide, by decide, ⟨by decide, by decide, by decide⟩, by decide⟩

/-- One block at once and the other in a Data-Out. -/
theorem served_two_blocks : Served sampleHandler ⟨8192⟩ sampleSession (sampleWrite 2 2)
    [(Elsewhere.idle (ittOf (sampleWrite 2 2)), sampleDataOut 2)] := by
  refine (served_iff _ _ _ _ sampleVolume _ valid_sampleWrite ?_).mpr ?_
  · refine ⟨?_, by decide, by decide⟩
    simpa using isDataOut_sampleDataOut (.inr rfl)
  · refine ⟨fun _ => ⟨by decide, by decide⟩, ?_⟩
    simpa using (⟨by decide, by decide⟩ :
      512 ∣ dlengthOf (sampleDataOut 2) ∧ lunOf (sampleDataOut 2) = lunOf (sampleWrite 2 2))

/-- The other block in two Data-Outs of half a block: all is acknowledged, and the
half blocks are dropped. -/
theorem not_served_half_blocks :
    let idle : Elsewhere Unit LbaIndex.ofList (ittOf (sampleWrite 2 2)) := Elsewhere.idle _
    Valid sampleHandler sampleSession (sampleWrite 2 2) sampleVolume ∧
      Split (sampleWrite 2 2) [sampleDataOut 1, sampleDataOut 1] ∧
      (∃ calls, transfer sampleHandler ⟨8192⟩ sampleSession (sampleWrite 2 2)
        [(idle, sampleDataOut 1), (idle, sampleDataOut 1)] = some calls ∧
          (calls.flatMap Call.pushed).length = 1) ∧
      ¬ Served sampleHandler ⟨8192⟩ sampleSession (sampleWrite 2 2)
        [(idle, sampleDataOut 1), (idle, sampleDataOut 1)] := by
  intro idle
  have hs : Split (sampleWrite 2 2) [sampleDataOut 1, sampleDataOut 1] := by
    refine ⟨?_, by decide, by decide⟩
    simpa using isDataOut_sampleDataOut (.inl rfl)
  refine ⟨valid_sampleWrite, hs, ⟨_, rfl, by decide⟩, fun hserved => ?_⟩
  have hb := @blockwise_of_served _ _ _ _ _ _ _
    [(idle, sampleDataOut 1), (idle, sampleDataOut 1)] valid_sampleWrite hs hserved
  have hdvd := (hb.dataOut (sampleDataOut 1) (by simp)).1
  revert hdvd
  decide

end Sample

end Sstoraged.WriteTransfer
