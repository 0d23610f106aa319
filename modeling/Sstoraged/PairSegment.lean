import Sstoraged.KeyValue
import Sstoraged.PairGenerator
import Sstoraged.Store

namespace Sstoraged

/-- A byte string as a text, with one character for each byte. -/
def ofBytes (bytes : List UInt8) : String := String.ofList (bytes.map Char.ofUInt8)

/-- The string up to the next NUL and the memory behind it; none if there is no NUL. -/
def cString : List UInt8 → Option (List UInt8 × List UInt8)
  | [] => none
  | b :: mem => if b = 0 then some ([], mem) else (cString mem).map fun (str, rest) => (b :: str, rest)

/-- The strings of a data segment. The length is only looked at between two strings. -/
def dataStrings (dlength : Nat) (mem : List UInt8) : Option (List (List UInt8)) :=
  if dlength = 0 then some []
  else (cString mem).bind fun (str, rest) =>
    (dataStrings (dlength - (str.length + 1)) rest).map fun strs => str :: strs
termination_by dlength

/-- The pairs that `GetKeyValuePair` finds in them. -/
def dataPairs (dlength : Nat) (mem : List UInt8) : Option (List (String × String)) :=
  (dataStrings dlength mem).map fun strs => strs.map fun str => getKeyValuePair (ofBytes str)

/-- The generator of a Login or a Text Response with the bytes of its buffer. -/
structure PairBuffer extends PairGenerator where
  mem : Nat → UInt8

namespace PairBuffer

def new (mem : Nat → UInt8) : PairBuffer := { PairGenerator.new with mem }

def addKeyValue (g : PairBuffer) (key value : List UInt8) : PairBuffer :=
  let pair := key ++ 0x3d :: value
  let length := pair.length + 1
  { g with
    mem := (Store.mk g.cbuf.tail (pair ++ [0])).apply g.mem
    cbuf := g.cbuf.stepForwardTail length
    totalDlength := u32 (g.totalDlength + length) }

def serialize (g : PairBuffer) : PairBuffer := { g.toPairGenerator.serialize with mem := g.mem }

/-- The reply with the given pairs, in a buffer with something in it. -/
def reply (mem : Nat → UInt8) (pairs : List (List UInt8 × List UInt8)) : PairBuffer :=
  (pairs.foldl (fun g p => g.addKeyValue p.1 p.2) (new mem)).serialize

def dataSegment (g : PairBuffer) : List UInt8 :=
  (List.range g.dlength).map fun i => g.mem (sizeofHeader + i)

theorem length_toByteArray (s : String) : s.toByteArray.data.toList.length = s.utf8ByteSize := rfl

theorem addKeyValue_toPairGenerator (g : PairBuffer) (key value : String) :
    (g.addKeyValue key.toByteArray.data.toList value.toByteArray.data.toList).toPairGenerator =
      g.toPairGenerator.addKeyValue key value := by
  have hequals : "=".utf8ByteSize = 1 := by decide
  have hlen : (key.toByteArray.data.toList ++ 0x3d :: value.toByteArray.data.toList).length + 1 =
      PairGenerator.pairLength key value := by
    rw [PairGenerator.pairLength, String.utf8ByteSize_append, String.utf8ByteSize_append, hequals,
      List.length_append, List.length_cons, length_toByteArray, length_toByteArray]
    omega
  rw [addKeyValue]
  dsimp only
  rw [hlen]
  rfl

/-- The bytes of a pair. -/
def pairBytes (p : List UInt8 × List UInt8) : List UInt8 := p.1 ++ 0x3d :: p.2

/-- A pair with the NUL behind it, for each of the pairs. -/
def encode (pairs : List (List UInt8 × List UInt8)) : List UInt8 :=
  pairs.flatMap fun p => pairBytes p ++ [0]

theorem encode_cons (p : List UInt8 × List UInt8) (pairs : List (List UInt8 × List UInt8)) :
    encode (p :: pairs) = pairBytes p ++ [0] ++ encode pairs := rfl

theorem foldl_addKeyValue (pairs : List (List UInt8 × List UInt8)) (g : PairBuffer)
    (htail : g.cbuf.tail + (encode pairs).length ≤ commonBufSize)
    (htotal : g.totalDlength + (encode pairs).length ≤ commonBufSize) :
    pairs.foldl (fun g p => g.addKeyValue p.1 p.2) g =
      { g with
        mem := (Store.mk g.cbuf.tail (encode pairs)).apply g.mem
        cbuf := ⟨g.cbuf.offset, g.cbuf.tail + (encode pairs).length⟩
        totalDlength := g.totalDlength + (encode pairs).length } := by
  induction pairs generalizing g with
  | nil =>
    have hstore : (Store.mk g.cbuf.tail (encode [])).apply g.mem = g.mem := by
      funext i
      exact Store.apply_of_not_covers (fun hc => Nat.not_lt.2 hc.1 hc.2) _
    rw [hstore]
    rfl
  | cons p pairs ih =>
    have hlen : (pairBytes p ++ [0]).length = (pairBytes p).length + 1 := List.length_append
    rw [encode_cons, List.length_append, hlen] at htail htotal ⊢
    have hadd : g.addKeyValue p.1 p.2 = { g with
        mem := (Store.mk g.cbuf.tail (pairBytes p ++ [0])).apply g.mem
        cbuf := ⟨g.cbuf.offset, g.cbuf.tail + ((pairBytes p).length + 1)⟩
        totalDlength := g.totalDlength + ((pairBytes p).length + 1) } := by
      have hsize : commonBufSize = 131072 := rfl
      have hcbuf := @PairGenerator.stepForwardTail_of_le g.cbuf ((pairBytes p).length + 1) (by omega)
      have htot : u32 (g.totalDlength + ((pairBytes p).length + 1 : Nat)) =
          g.totalDlength + ((pairBytes p).length + 1) := by
        rw [← Int.natCast_add]
        exact u32_natCast (by omega)
      rw [pairBytes] at *
      rw [addKeyValue, hcbuf, htot]
    rw [List.foldl_cons, hadd, ih]
    · dsimp only
      rw [← hlen, Store.apply_append, Nat.add_assoc, Nat.add_assoc]
    · dsimp only
      omega
    · dsimp only
      omega

/-- The pairs fit the buffer behind the header. -/
def Fits (pairs : List (List UInt8 × List UInt8)) : Prop :=
  sizeofHeader + (encode pairs).length ≤ commonBufSize

theorem dataSegment_reply (mem : Nat → UInt8) {pairs : List (List UInt8 × List UInt8)} (h : Fits pairs) :
    (reply mem pairs).dlength = (encode pairs).length ∧
      dataSegment (reply mem pairs) = encode pairs := by
  have hsize : commonBufSize = 131072 := rfl
  have htail : (new mem).cbuf.tail = sizeofHeader :=
    (by decide : PairGenerator.new.cbuf.tail = sizeofHeader)
  have htotal : (new mem).totalDlength = 0 := rfl
  rw [Fits] at h
  have hfold := foldl_addKeyValue pairs (new mem) (by rwa [htail]) (by rw [htotal]; omega)
  have hdlength : (reply mem pairs).dlength = (encode pairs).length := by
    rw [reply, hfold, serialize, PairGenerator.serialize]
    dsimp only
    rw [htotal, Nat.zero_add]
    exact Nat.mod_eq_of_lt (by omega)
  refine ⟨hdlength, ?_⟩
  rw [dataSegment, hdlength]
  apply List.ext_getElem
  · rw [List.length_map, List.length_range]
  · intro i hi hi'
    rw [List.getElem_map, List.getElem_range, reply, hfold, serialize]
    dsimp only
    rw [htail]
    exact (Store.mk sizeofHeader (encode pairs)).apply_add _ hi'

end PairBuffer

section strings

theorem cString_append {str : List UInt8} (h : 0 ∉ str) (rest : List UInt8) :
    cString (str ++ 0 :: rest) = some (str, rest) := by
  induction str with
  | nil => rfl
  | cons b str ih =>
    rw [List.mem_cons, not_or] at h
    rw [List.cons_append, cString, if_neg (Ne.symm h.1), ih h.2]
    rfl

theorem dataStrings_zero (mem : List UInt8) : dataStrings 0 mem = some [] := by
  rw [dataStrings, if_pos rfl]

theorem dataStrings_append {str : List UInt8} (h : 0 ∉ str) (dlength : Nat) (mem : List UInt8) :
    dataStrings ((str ++ [0]).length + dlength) (str ++ [0] ++ mem) =
      (dataStrings dlength mem).map fun strs => str :: strs := by
  have hlen : (str ++ [0]).length = str.length + 1 := List.length_append
  rw [dataStrings, if_neg (by omega), List.append_assoc, List.singleton_append, cString_append h, hlen]
  dsimp only [Option.bind_some]
  rw [Nat.add_sub_cancel_left]

theorem dataStrings_encode {pairs : List (List UInt8 × List UInt8)}
    (h : ∀ p ∈ pairs, 0 ∉ PairBuffer.pairBytes p)
    (behind : List UInt8) : dataStrings (PairBuffer.encode pairs).length
      (PairBuffer.encode pairs ++ behind) =
      some (pairs.map PairBuffer.pairBytes) := by
  induction pairs with
  | nil => exact dataStrings_zero behind
  | cons p pairs ih =>
    rw [List.forall_mem_cons] at h
    rw [PairBuffer.encode_cons, List.length_append, List.append_assoc, dataStrings_append h.1, ih h.2]
    rfl

end strings

section pairs

theorem ofUInt8_injective : Function.Injective Char.ofUInt8 := fun _ _ h =>
  UInt8.toUInt32_inj.1 (congrArg Char.val h)

theorem mem_ofBytes {b : UInt8} {bytes : List UInt8} : Char.ofUInt8 b ∈ (ofBytes bytes).toList ↔
    b ∈ bytes := by
  rw [ofBytes, String.toList_ofList, List.mem_map_of_injective ofUInt8_injective]

theorem getKeyValuePair_append {key value : List Char} (h : '=' ∉ value) :
    getKeyValuePair (String.ofList (key ++ '=' :: value)) =
      (String.ofList key, String.ofList value) := by
  have hrev : (key ++ '=' :: value).reverse = value.reverse ++ '=' :: key.reverse := by simp
  have hne : ∀ c ∈ value.reverse, decide (c ≠ '=') = true := by
    intro c hc
    rw [decide_eq_true_eq]
    rintro rfl
    exact h (List.mem_reverse.1 hc)
  have hstop : decide ('=' ≠ '=') = false := by decide
  rw [getKeyValuePair, String.toList_ofList, hrev, List.takeWhile_append_of_pos hne,
    List.dropWhile_append_of_pos hne, List.takeWhile_cons, List.dropWhile_cons, hstop]
  simp

theorem getKeyValuePair_snd (str : String) : '=' ∉ (getKeyValuePair str).2.toList := by
  rw [getKeyValuePair]
  split
  · simp
  · intro hmem
    rw [String.toList_ofList, List.mem_reverse] at hmem
    simpa using List.mem_takeWhile_imp hmem

theorem getKeyValuePair_pairBytes (p : List UInt8 × List UInt8) :
    getKeyValuePair (ofBytes (PairBuffer.pairBytes p)) = (ofBytes p.1, ofBytes p.2) ↔ 0x3d ∉ p.2 := by
  have hequals : Char.ofUInt8 0x3d = '=' := by decide
  refine ⟨fun h hmem => ?_, fun h => ?_⟩
  · have hsnd := getKeyValuePair_snd (ofBytes (PairBuffer.pairBytes p))
    rw [h, ← hequals] at hsnd
    exact hsnd (mem_ofBytes.2 hmem)
  · have hvalue : '=' ∉ p.2.map Char.ofUInt8 := by
      rwa [← hequals, List.mem_map_of_injective ofUInt8_injective]
    rw [PairBuffer.pairBytes, ofBytes, List.map_append, List.map_cons, hequals]
    exact getKeyValuePair_append hvalue

end pairs

/-- The pairs of a reply are read back from its data segment, whatever its buffer held
before and whatever is behind it. -/
def ReadBack (pairs : List (List UInt8 × List UInt8)) : Prop :=
  ∀ mem behind, dataPairs (PairBuffer.reply mem pairs).dlength
    ((PairBuffer.reply mem pairs).dataSegment ++ behind) =
    some (pairs.map fun p => (ofBytes p.1, ofBytes p.2))

theorem dataPairs_reply {pairs : List (List UInt8 × List UInt8)} (hfits : PairBuffer.Fits pairs)
    (hplain : ∀ p ∈ pairs, 0 ∉ PairBuffer.pairBytes p) (mem : Nat → UInt8) (behind : List UInt8) :
    dataPairs (PairBuffer.reply mem pairs).dlength ((PairBuffer.reply mem pairs).dataSegment ++ behind) =
      some (pairs.map fun p => getKeyValuePair (ofBytes (PairBuffer.pairBytes p))) := by
  obtain ⟨hdlength, hsegment⟩ := PairBuffer.dataSegment_reply mem hfits
  rw [dataPairs, hdlength, hsegment, dataStrings_encode hplain, Option.map_some, List.map_map]
  rfl

/-- Pairs without a NUL that fit the buffer are read back just if no value has a `=`. -/
theorem readBack_iff {pairs : List (List UInt8 × List UInt8)} (hfits : PairBuffer.Fits pairs)
    (hkeys : ∀ p ∈ pairs, 0 ∉ p.1) (hvalues : ∀ p ∈ pairs, 0 ∉ p.2) :
    ReadBack pairs ↔ ∀ p ∈ pairs, 0x3d ∉ p.2 := by
  have hplain : ∀ p ∈ pairs, 0 ∉ PairBuffer.pairBytes p := by
    intro p hp
    simp [PairBuffer.pairBytes, hkeys p hp, hvalues p hp]
  refine ⟨fun h p hp => ?_, fun h mem behind => ?_⟩
  · have heq := h (fun _ => 0) []
    rw [dataPairs_reply hfits hplain, Option.some.injEq, List.map_inj_left] at heq
    exact (getKeyValuePair_pairBytes p).1 (heq p hp)
  · rw [dataPairs_reply hfits hplain, Option.some.injEq, List.map_inj_left]
    exact fun p hp => (getKeyValuePair_pairBytes p).2 (h p hp)

section Sample

/-- The key TargetAlias. -/
def sampleKey : List UInt8 := [0x54, 0x61, 0x72, 0x67, 0x65, 0x74, 0x41, 0x6c, 0x69, 0x61, 0x73]

theorem readBack_alias : ReadBack [(sampleKey, [0x64, 0x69, 0x73, 0x6b])] :=
  (readBack_iff (Nat.le_of_ble_eq_true rfl) (by decide) (by decide)).2 (by decide)

/-- Of `TargetAlias=a=b` the key is read as `TargetAlias=a`. -/
theorem not_readBack_equals : ¬ ReadBack [(sampleKey, [0x61, 0x3d, 0x62])] := by
  intro h
  have heq := h (fun _ => 0) []
  rw [dataPairs_reply (Nat.le_of_ble_eq_true rfl) (by decide), Option.some.injEq, List.map_inj_left]
    at heq
  exact (getKeyValuePair_pairBytes _).1 (heq _ List.mem_cons_self) (by decide)

end Sample

end Sstoraged
